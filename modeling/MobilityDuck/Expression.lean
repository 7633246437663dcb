/-
# Expressions, and the shapes an index answers

The optimizer sees a predicate as a tree of typed expressions. A filter that
was pushed down to a scan reads its one column as a `reference`; above the
scan a column is a `columnRef` with a binding. What the operators mean is an
`Interpretation`, which tells overloads apart by the types of their operands.

An index recognises a predicate by a `FunctionExpressionMatcher`: the name of
the function and one type constraint for each operand, in any order. How
DuckDB deals the operands out to the constraints is a `SetMatcher`; of it only
the documented contract is known, that every matcher has to match an operand
of its own.

Key definitions: `Constant`, `Expression`, `Expression.eval`, `SetMatcher`,
`FunctionExpressionMatcher`, `IndexInfo.makeFunctionMatcher`,
`IndexInfo.makeNearestMatcher`.
-/
import MobilityDuck.IndexScan
import MobilityDuck.Lib.Assign

namespace MobilityDuck

open Lib

/-! ### Expressions -/

/-- `sizeof(STBox)`, `sizeof(TBox)`, `sizeof(Span)`. -/
def MeosType.boxSize : MeosType → ℕ
  | .stbox => 80
  | .tbox => 56
  | .tstzspan | .intspan | .bigintspan | .floatspan | .datespan => 24

/-- The values of a type, `NULL` apart. A value of a box type is a box. -/
def LogicalType.Holds (type : LogicalType) : Value → Prop
  | .null => False
  | .boolean _ => type.id = .boolean
  | .timestampTz _ => type.id = .timestampTz
  | .bigint _ => type.id ≠ .boolean ∧ type.id ≠ .timestampTz ∧ type.id ≠ .blob
  | .blob bytes => type.id = .blob ∧ ∀ t : MeosType, type = t.logicalType → bytes.length = t.boxSize

/-- A constant of a bound expression. Binding folds an operator with a `NULL` operand away. -/
structure Constant where
  type : LogicalType
  value : Value
  holds : type.Holds value

/-- `ColumnBinding`. -/
structure ColumnBinding where
  tableIndex : ℕ
  columnIndex : ℕ
  deriving DecidableEq, Repr

/-- Bound expressions. Conjunctions, comparisons, casts and the like are `other`. -/
inductive Expression
  | reference (type : LogicalType)
  | columnRef (type : LogicalType) (binding : ColumnBinding)
  | constant (c : Constant)
  | function (name : String) (type : LogicalType) (children : List Expression)
  | other (kind : String) (type : LogicalType) (children : List Expression)

namespace Expression

/-- `return_type`. -/
def returnType : Expression → LogicalType
  | .reference type | .columnRef type _ | .function _ type _ | .other _ type _ => type
  | .constant c => c.type

/-- A constant operand. -/
def asConstant : Expression → Option Constant
  | .constant c => some c
  | _ => none

end Expression

/-- What functions and other operators compute, by name, types of the operands and type of the result. -/
structure Interpretation where
  function : String → List LogicalType → LogicalType → List Value → Value
  other : String → List LogicalType → LogicalType → List Value → Value

section Eval

variable (I : Interpretation) (column : Value) (columns : ColumnBinding → Value)

mutual

/-- The value of an expression; `column` is the value of the referenced column. -/
def Expression.eval : Expression → Value
  | .reference _ => column
  | .columnRef _ binding => columns binding
  | .constant c => c.value
  | .function name type children =>
    I.function name (children.map Expression.returnType) type (evalAll children)
  | .other kind type children => I.other kind (children.map Expression.returnType) type (evalAll children)

/-- The values of the operands. -/
def Expression.evalAll : List Expression → List Value
  | [] => []
  | e :: es => e.eval :: evalAll es

end

/-- Whether a predicate accepts. -/
def Expression.accepts (e : Expression) : Bool := e.eval I column columns = .boolean true

end Eval

mutual

/-- `ToExpression`: the predicate of a pushed-down filter, over a column expression. -/
def Expression.over : Expression → Expression → Expression
  | .reference _, column => column
  | .columnRef type binding, _ => .columnRef type binding
  | .constant c, _ => .constant c
  | .function name type children, column => .function name type (overAll children column)
  | .other kind type children, column => .other kind type (overAll children column)

def Expression.overAll : List Expression → Expression → List Expression
  | [], _ => []
  | e :: es, column => e.over column :: overAll es column

end

mutual

/-- The expression of a filter that was pushed down to a column of this type: it reads no other. -/
def Expression.Over (type : LogicalType) : Expression → Prop
  | .reference t => t = type
  | .columnRef _ _ => False
  | .constant _ => True
  | .function _ _ children | .other _ _ children => OverAll type children

def Expression.OverAll (type : LogicalType) : List Expression → Prop
  | [] => True
  | e :: es => e.Over type ∧ OverAll type es

end

namespace Expression

variable {type : LogicalType} {column : Expression}

/-- Put in the place of the reference, a column of its type changes no type. -/
theorem returnType_over (htype : column.returnType = type) {e : Expression} (he : e.Over type) :
    (e.over column).returnType = e.returnType := by
  cases e with
  | reference t => rw [Expression.over, htype, returnType, he]
  | columnRef => exact he.elim
  | constant | function | other => rfl

theorem map_returnType_overAll (htype : column.returnType = type) :
    ∀ {es : List Expression}, OverAll type es →
    (overAll es column).map returnType = es.map returnType
  | [], _ => rfl
  | e :: es, h => by
    rw [overAll, List.map_cons, List.map_cons, returnType_over htype h.1,
    map_returnType_overAll htype h.2]

variable (I : Interpretation) (value : Value) (columns : ColumnBinding → Value)

mutual

/-- The predicate over a column expression reads the value of that expression. -/
theorem eval_over (htype : column.returnType = type) : ∀ {e : Expression}, e.Over type →
    (e.over column).eval I value columns = e.eval I (column.eval I value columns) columns
  | .reference _, _ => by rw [Expression.over, eval]
  | .columnRef _ _, h => h.elim
  | .constant _, _ => by rw [Expression.over, eval, eval]
  | .function _ _ _, h => by
    rw [Expression.over, eval, eval, map_returnType_overAll htype h, evalAll_overAll htype h]
  | .other _ _ _, h => by
    rw [Expression.over, eval, eval, map_returnType_overAll htype h, evalAll_overAll htype h]

theorem evalAll_overAll (htype : column.returnType = type) : ∀ {es : List Expression}, OverAll type es →
    evalAll I value columns (overAll es column) = evalAll I (column.eval I value columns) columns es
  | [], _ => by rw [overAll, evalAll, evalAll]
  | _ :: _, h => by rw [overAll, evalAll, evalAll, eval_over htype h.1, evalAll_overAll htype h.2]

end

mutual

/-- A pushed-down predicate reads no column but its own. -/
theorem eval_congr : ∀ {e : Expression} (columns' : ColumnBinding → Value), e.Over type →
    e.eval I value columns = e.eval I value columns'
  | .reference _, _, _ => by rw [eval, eval]
  | .columnRef _ _, _, h => h.elim
  | .constant _, _, _ => by rw [eval, eval]
  | .function _ _ _, columns', h => by rw [eval, eval, evalAll_congr columns' h]
  | .other _ _ _, columns', h => by rw [eval, eval, evalAll_congr columns' h]

theorem evalAll_congr : ∀ {es : List Expression} (columns' : ColumnBinding → Value), OverAll type es →
    evalAll I value columns es = evalAll I value columns' es
  | [], _, _ => by rw [evalAll, evalAll]
  | _ :: _, columns', h => by rw [evalAll, evalAll, eval_congr columns' h.1, evalAll_congr columns' h.2]

end

end Expression

/-! ### Matchers -/

/-- DuckDB's `SetMatcher` under `UNORDERED`: every matcher has to match an operand of its own, and no
operand is left over. The operands come back as bindings, in an order that is not promised. -/
structure SetMatcher where
  matchUnordered : List (Expression → Bool) → List Expression → Option (List Expression)
  perm : ∀ {ms es bindings}, matchUnordered ms es = some bindings → bindings.Perm es
  assigned_iff : ∀ {ms es}, (matchUnordered ms es).isSome ↔ Assigned ms es

/-- A matcher that deals the operands out by backtracking. -/
def SetMatcher.backtracking : SetMatcher where
  matchUnordered := assign
  perm h := assign_perm h
  assigned_iff := by
    intro ms es
    constructor
    · intro h
      obtain ⟨es', hes'⟩ := Option.isSome_iff_exists.mp h
      exact ⟨es', assign_perm hes', forall_of_assign hes'⟩
    · exact assign_isSome

/-- `FunctionExpressionMatcher` under `UNORDERED`: names, and for each operand a type or any. -/
structure FunctionExpressionMatcher where
  names : List String
  operands : List (Option LogicalType)

/-- `ExpressionMatcher` with a `SpecificTypeMatcher`, or none. -/
def operandMatcher (type : Option LogicalType) (e : Expression) : Bool := type.all (e.returnType = ·)

/-- `Match`: the bindings, the function first. -/
def FunctionExpressionMatcher.match (sets : SetMatcher) (m : FunctionExpressionMatcher)
    (e : Expression) :
    Option (List Expression) :=
  match e with
  | .function name _ children =>
    if name ∈ m.names then (sets.matchUnordered (m.operands.map operandMatcher) children).map (e :: ·)
    else none
  | _ => none

/-- `MakeFunctionMatcher`: the indexed type on one side, anything on the other. -/
def IndexInfo.makeFunctionMatcher (info : IndexInfo) : FunctionExpressionMatcher :=
  ⟨indexOperatorNames info.bboxType, [some info.columnType, none]⟩

/-- `MakeNearestMatcher`: the indexed type on one side, a box on the other. -/
def IndexInfo.makeNearestMatcher (info : IndexInfo) : Option FunctionExpressionMatcher :=
  if info.bboxType = .stbox ∨ info.bboxType = .tbox then
    some ⟨[nnOperation], [some info.columnType, some info.bboxType.logicalType]⟩
  else none

/-- `TryMatchDistanceFunction`. -/
def IndexInfo.tryMatchDistanceFunction (sets : SetMatcher) (info : IndexInfo) (e : Expression) :
    Option (List Expression) := info.makeFunctionMatcher.match sets e

/-- `TryMatchNearestFunction`. -/
def IndexInfo.tryMatchNearestFunction (sets : SetMatcher) (info : IndexInfo) (e : Expression) :
    Option (List Expression) := info.makeNearestMatcher.bind fun m => m.match sets e

section Match

variable {sets : SetMatcher} {names : List String} {t t' : Option LogicalType} {e : Expression}

/-- What a matcher for two operands accepts. -/
theorem match_pair_eq_some {bindings : List Expression}
    (h : (FunctionExpressionMatcher.mk names [t, t']).match sets e = some bindings) :
    ∃ name type x y, e = .function name type [x, y] ∧ name ∈ names ∧ bindings.Perm [e, x, y] ∧
      ((operandMatcher t x = true ∧ operandMatcher t' y = true) ∨
        (operandMatcher t y = true ∧ operandMatcher t' x = true)) := by
  unfold FunctionExpressionMatcher.match at h
  split at h
  · rename_i name type children
    split at h
    · rename_i hname
      obtain ⟨rest, hrest, rfl⟩ := Option.map_eq_some_iff.mp h
      have hassigned := sets.assigned_iff.mp (Option.isSome_iff_exists.mpr ⟨rest, hrest⟩)
      obtain ⟨x, y, rfl, hxy⟩ := assigned_pair_iff.mp hassigned
      exact ⟨name, type, x, y, rfl, hname, (sets.perm hrest).cons _, hxy⟩
    · simp at h
  · simp at h

/-- And it accepts all of these. -/
theorem match_pair_isSome (sets : SetMatcher) {name : String} (type : LogicalType)
    {x y : Expression} (hname : name ∈ names)
    (hxy : (operandMatcher t x = true ∧ operandMatcher t' y = true) ∨
      (operandMatcher t y = true ∧ operandMatcher t' x = true)) :
    ((FunctionExpressionMatcher.mk names [t, t']).match sets (.function name type [x, y])).isSome := by
  unfold FunctionExpressionMatcher.match
  simp only [if_pos hname, Option.isSome_map]
  exact sets.assigned_iff.mpr (assigned_pair_iff.mpr ⟨x, y, rfl, hxy⟩)

end Match

end MobilityDuck
