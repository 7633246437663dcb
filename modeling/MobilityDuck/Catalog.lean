/-
# The catalog of MEOS, and the calls it declares

The catalog states each function of MEOS with its parameters, and the SQL signatures
of it. A signature binds parameters to literals, for itself or for the function as a
whole, and gives its last arguments defaults; an argument whose default is NULL takes
what its wrapper passes for NULL. So a signature declares a call for each number of
arguments it can be given, and each call fixes what every parameter of the function
is given (`Record.calls`).

The generator makes records of its own from these, each a function that forwards to
one of MEOS with literals in place of parameters (`Forward`). What such a record
declares are calls of the function it forwards to (`Projected.calls`).

Key definitions: `Record`, `Record.placing`, `Record.calls`, `forwardLiteral`, `Projected`.
-/
import MobilityDuck.Lib.Dictionary
import MobilityDuck.Lib.Forwarding

namespace MobilityDuck
namespace Catalog

open Lib

/-! ### Records -/

/-- A C type, as `base` and `norm` read it. -/
structure CType where
  base : String
  pointers : ℕ
  deriving DecidableEq, Repr

structure Param where
  name : String
  type : CType
  deriving DecidableEq, Repr

/-- Names and the literals they are bound to. -/
abbrev Binds := List (String × String)

/-- A SQL signature; `argDefaults` is empty where it states none. -/
structure Signature where
  args : List String
  ret : String
  sqlName : Option String
  boundArgs : Binds
  argDefaults : List (Option String)
  nullDefaultBinds : List (ℕ × Binds)
  presentBinds : List (ℕ × Binds)
  sqlArgParams : Option (List String)
  deriving DecidableEq, Repr

/-- A function, its `shape` among its fields. -/
structure Record where
  name : String
  api : String
  group : String
  sqlfn : Option String
  params : List Param
  outParams : List String
  boundArgs : Binds
  sqlArgParams : Option (List String)
  sqlSignatures : List Signature
  deriving DecidableEq, Repr

/-- What the generator reads off the catalog: the members of the enumerations, the functions that read them
from their names, and the macros; the groups that are retired, and the functions whose own shape reads what
is bound for the function as a whole. The characters of a word are those of Unicode. -/
structure Tables where
  enumMembers : String → List String
  enumReader : String → Option String
  macroValues : String → Option String
  retiredGroups : List String
  ownShape : Record → Bool
  wordChars : String → String

def Tables.retired (t : Tables) (f : Record) : Bool := f.group ∈ t.retiredGroups

/-! ### Literals -/

def stripChars (drop : Char → Bool) (s : List Char) : List Char :=
  ((s.dropWhile drop).reverse.dropWhile drop).reverse

/-- The blanks of `str.strip`. -/
def isBlank (c : Char) : Bool :=
  (9 ≤ c.toNat ∧ c.toNat ≤ 13) ∨ (28 ≤ c.toNat ∧ c.toNat ≤ 32) ∨ (0x2000 ≤ c.toNat ∧ c.toNat ≤ 0x200a) ∨
    c.toNat ∈ [0x85, 0xa0, 0x1680, 0x2028, 0x2029, 0x202f, 0x205f, 0x3000]

def strip (s : String) : String := String.ofList (stripChars isBlank s.toList)

/-- A capital of `str.upper`, where it is a letter of ASCII: the dotless i and the long s have one too. -/
def upperChar (c : Char) : Char :=
  if c.toNat = 0x131 then 'I' else if c.toNat = 0x17f then 'S' else c.toUpper

/-- `str.upper`, as far as words of ASCII letters can be told by it; none that is looked up below holds the two
capitals of a ligature. -/
def upper (s : String) : String := String.ofList (s.toList.map upperChar)

def isNull (raw : String) : Bool := upper (strip raw) = "NULL"

/-- `sql_default_to_cpp`. -/
def sqlDefaultToCpp (val : String) : String :=
  ([("NULL", "nullptr"), ("TRUE", "true"), ("FALSE", "false")].lookup (upper (strip val))).getD (strip val)

/-- The keys of `SCALAR_ARG`. -/
def scalarArg : List String :=
  ["int", "int32_t", "int64_t", "uint64_t", "float", "double", "bool", "TimestampTz", "DateADT"]

def macroValue (t : Tables) (raw : String) : String := (t.macroValues raw).getD raw

/-- `forward_literal`: what a literal is in C++ where it is passed for a parameter. -/
def forwardLiteral (t : Tables) (p : Param) (raw : String) : Option String :=
  let b := p.type.base
  let text := String.ofList (stripChars (· = '\'') (strip raw).toList)
  if p.type.pointers = 0 ∧ text ∈ t.enumMembers b then some text
  else if p.type.pointers = 0 ∧ (t.enumReader b).isSome then
    (t.enumReader b).map fun reader => reader ++ "(\"" ++ text ++ "\")"
  else if p.type.pointers ≠ 0 ∧ text = "NULL" then some "NULL"
  else if b = "Interval" ∧ p.type.pointers = 1 then some ("MeosIntervalLiteral(\"" ++ text ++ "\")")
  else if b = "TimestampTz" ∧ p.type.pointers = 0 then some ("timestamptz_in(\"" ++ text ++ "\", -1)")
  else if b = "DateADT" ∧ p.type.pointers = 0 then some ("date_in(\"" ++ text ++ "\")")
  else if b ∈ scalarArg ∧ p.type.pointers = 0 then some (sqlDefaultToCpp (macroValue t raw))
  else none

/-! ### Signatures -/

namespace Signature

variable (s : Signature)

def defaults : List (Option String) :=
  if s.argDefaults = [] then List.replicate s.args.length none else s.argDefaults

/-- What an argument that is left out binds: its parameter to its default, or what its wrapper binds for NULL. -/
def omitted (pos : ℕ) (name : String) : Binds :=
  match s.defaults.getD pos none with
  | none => []
  | some d => if isNull d then (s.nullDefaultBinds.lookup pos).getD [(name, d)] else [(name, d)]

end Signature

/-! ### Calls -/

/-- A call: the SQL function and the types of its arguments and its result, the function of MEOS, and what its
parameters are given. -/
structure Call where
  sqlName : Option String
  args : List String
  ret : String
  target : String
  operands : List (Operand (Option String))
  deriving DecidableEq, Repr

namespace Record

variable (t : Tables) (f : Record) (s : Signature)

def names : List String := f.params.map Param.name

/-- The parameters that the arguments of a signature fill. -/
def sqlin : List String :=
  f.names.filter fun n => !(n ∈ f.outParams : Bool) && ((update f.boundArgs s.boundArgs).lookup n).isNone

/-- A literal in C++. -/
def literal (n : String) (raw : String) : Option String := do
  forwardLiteral t (← f.params.find? (·.name = n)) raw

/-- How a signature places its arguments. -/
def placing : Placing String (Option String) where
  params := f.names
  out n := n ∈ f.outParams
  bound n := ((update f.boundArgs s.boundArgs).lookup n).map (f.literal t n)
  default n := ((s.omitted ((f.sqlin s).idxOf n) n).lookup n).bind (f.literal t n)

/-- The arguments fill the parameters one for one and in their order: no list places them otherwise, and none
comes with a flag. -/
def placed : Bool :=
  s.sqlArgParams = none ∧ f.sqlArgParams = none ∧ s.presentBinds = [] ∧ (f.sqlin s).length = s.args.length

/-- The arguments are placed, and those that are left out have defaults. -/
def callable (m : ℕ) : Bool :=
  f.placed s ∧ m ≤ s.args.length ∧ (s.defaults.drop m).all Option.isSome

def call (m : ℕ) : Call where
  sqlName := s.sqlName.or f.sqlfn
  args := s.args.take m
  ret := s.ret
  target := f.name
  operands := (f.placing t s).call m

/-- The calls that a record declares, of the signatures whose arguments are placed. -/
def calls : List Call :=
  f.sqlSignatures.flatMap fun s => ((List.range (s.args.length + 1)).filter (f.callable s)).map (f.call t s)

end Record

/-! ### Forwarding functions -/

/-- The function of MEOS that is called, and what it is passed. -/
structure Forward where
  target : String
  call : List (Passed (Option String))
  deriving DecidableEq, Repr

/-- A record, and how its function forwards if it is not one of MEOS. -/
structure Projected where
  record : Record
  forward : Option Forward
  deriving DecidableEq, Repr

def Forward.apply (fw : Forward) (c : Call) : Call :=
  { c with target := fw.target, operands := fw.call.map (Passed.pass c.operands) }

def Projected.calls (t : Tables) (q : Projected) : List Call :=
  (q.record.calls t).map fun c => q.forward.elim c fun fw => fw.apply c

/-! ### Well-formed catalogs -/

/-- What is bound is no answer, and not NULL where the parameter is passed by value. -/
structure Bindable (f : Record) (binds : Binds) : Prop where
  keys : (binds.map Prod.fst).Nodup
  inputs : ∀ n ∈ binds.map Prod.fst, n ∉ f.outParams
  byValue : ∀ p ∈ f.params, p.type.pointers = 0 → ∀ raw, (p.name, raw) ∈ binds → isNull raw = false

/-- The defaults are as many as the arguments, and where each argument has a parameter of its own, one that is NULL
binds that. -/
structure Signature.WellFormed (f : Record) (s : Signature) : Prop where
  bound : Bindable f s.boundArgs
  defaults : s.argDefaults = [] ∨ s.argDefaults.length = s.args.length
  nullBinds : (f.sqlin s).length = s.args.length → ∀ pos binds, s.nullDefaultBinds.lookup pos = some binds →
    ∀ n, (f.sqlin s)[pos]? = some n → ∃ raw, binds = [(n, raw)]

structure Record.WellFormed (f : Record) : Prop where
  names : f.names.Nodup
  bound : Bindable f f.boundArgs
  signatures : ∀ s ∈ f.sqlSignatures, s.WellFormed f

/-- The enumerations are none of the types that are passed by value. -/
structure Tables.WellFormed (t : Tables) : Prop where
  members : ∀ b ∈ scalarArg, t.enumMembers b = []
  reader : ∀ b ∈ scalarArg, t.enumReader b = none

end Catalog
end MobilityDuck
