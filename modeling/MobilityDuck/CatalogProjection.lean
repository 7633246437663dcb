/-
# The records the generator makes of the catalog

A record of the catalog may declare calls that no body of the generator can read:
a last parameter that every signature fixes, parameters that one signature binds and
another does not, several arguments that a call leaves out. The generator puts
records of its own in its place, each with the parameters that are left, and a
function that forwards to MEOS with the literals (`projectBoundTail`,
`keepDeclaredTail`, `projectSignatureForms`). Where a kernel for all types and a
type's own declare the same signature, the type's own keeps it (`yieldToTypeKernels`).

Key definitions: `projectBoundTail`, `keepDeclaredTail`, `projectSignatureForms`, `yieldToTypeKernels`,
`projectRecords`.
-/
import MobilityDuck.Catalog
import Mathlib.Data.List.Sort
import Mathlib.Data.String.Basic

namespace MobilityDuck
namespace Catalog

open Lib

/-! ### A last parameter that every signature fixes -/

/-- `BOUND_TAIL_SQL`. -/
def boundTailSql : List (String × String) := [("bool", "boolean"), ("int", "integer"), ("double", "float")]

/-- A signature without its last parameter, whether it binds it, and to what; nothing where it does neither
bind it alone nor give it the only default. -/
def fixTail (last sqlt : String) (s : Signature) : Option (Bool × String × Signature) :=
  if s.boundArgs ≠ [] then
    if s.boundArgs.map Prod.fst = [last] ∧ s.argDefaults = [] then
      (s.boundArgs.lookup last).map fun lit => (true, lit, { s with boundArgs := [] })
    else none
  else do
    let d ← s.argDefaults.getLast?
    let lit ← d
    if s.args.getLast? = some sqlt ∧ s.argDefaults.dropLast.all Option.isNone then
      some (false, lit, { s with argDefaults := [], args := s.args.dropLast })
    else none

def inputs (f : Record) : List Param := f.params.filter fun p => !(p.name ∈ f.outParams : Bool)

/-- The SQL type of a last parameter that can be fixed. -/
def tailType (last : Param) : Option String :=
  if last.type.pointers = 0 then boundTailSql.lookup last.type.base else none

/-- The signatures, with what is bound for the function as a whole, which is read for the parameters in
`fixed`. -/
def tailSignatures (fixed : List String) (f : Record) (last : Param) : Option (List Signature) :=
  if f.boundArgs = [] then some f.sqlSignatures
  else if f.boundArgs.map Prod.fst = [last.name] ∧ last.name ∈ fixed ∧
      f.sqlSignatures.all (fun s => s.boundArgs = [] ∧ s.argDefaults = []) then
    some (f.sqlSignatures.map fun s => { s with boundArgs := f.boundArgs })
  else none

/-- The literal, if it is one and a signature binds it. -/
def tailLiteral (tails : List (Bool × String × Signature)) : Option String :=
  (tails.head?.map fun x => x.2.1).filter fun lit => tails.any Prod.fst ∧ tails.all fun x => x.2.1 = lit

/-- `project_bound_tail`. -/
def projectBoundTail (t : Tables) (fixed : List String) (f : Record) : Option Projected := do
  let last ← (inputs f).getLast?
  let sqlt ← tailType last
  let sigs ← tailSignatures fixed f last
  let tails ← sigs.mapM (fixTail last.name sqlt)
  let lit ← tailLiteral tails
  return {
    record := { f with
      params := f.params.filter (· ≠ last)
      boundArgs := []
      sqlSignatures := tails.map fun x => x.2.2 }
    forward := some ⟨f.name,
      forward (fun p => if p = last then some (some (sqlDefaultToCpp (macroValue t lit))) else none) f.params⟩ }

/-- The record of the signatures that give defaults, each with all its arguments. -/
def declared (f : Record) : Record :=
  { f with
    name := f.name ++ "_full"
    sqlSignatures := (f.sqlSignatures.filter fun s => s.argDefaults ≠ []).map fun s => { s with argDefaults := [] } }

/-- `keep_declared_tail`; `tails` are the records that `project_bound_tail` shortened. -/
def keepDeclaredTail (t : Tables) (tails : List (String × Record)) (f : Record) : List Projected :=
  match tails.lookup f.name with
  | none => []
  | some orig =>
    if !t.retired orig ∨ orig.group ≠ "meos_geo_accessor" then []
    else if (declared orig).sqlSignatures = [] then []
    else [⟨declared orig, some ⟨orig.name, (List.range orig.params.length).map .param⟩⟩]

/-! ### The forms of a signature -/

/-- What is bound, for the function as a whole where no shape of its own reads that, and by the signature. -/
def boundOf (t : Tables) (f : Record) (s : Signature) : Binds :=
  update (if t.ownShape f then [] else f.boundArgs) s.boundArgs

/-- The parameters that the arguments fill. -/
def facing (t : Tables) (f : Record) (s : Signature) : List Param :=
  ((inputs f).filter fun p => !(p.name ∈ f.boundArgs.map Prod.fst : Bool)).filter fun p =>
    !(p.name ∈ (boundOf t f s).map Prod.fst : Bool)

/-- How many arguments can be left out. -/
def trailing (s : Signature) : ℕ := (s.defaults.reverse.takeWhile Option.isSome).length

/-- How many arguments each form leaves out. One argument is left to the body of the form. -/
def tails (s : Signature) (bound : Binds) : List ℕ :=
  (if bound = [] then [] else [0]) ++
    (List.range (trailing s + 1)).filter fun k => 2 ≤ k ∧
      (bound ≠ [] ∨ ∀ i ∈ List.range' (s.defaults.length - k) k, i ∉ s.nullDefaultBinds.map Prod.fst)

/-- What the form fixes that leaves out `k` arguments. -/
def fixedFor (t : Tables) (f : Record) (s : Signature) (k : ℕ) : Binds :=
  let sqlin := facing t f s
  ((sqlin.drop (sqlin.length - k)).zipIdx (s.defaults.length - k)).foldl
    (fun fixed x => update fixed (s.omitted x.2 x.1.name)) (boundOf t f s)

def key (fixed : Binds) : Binds := fixed.insertionSort fun a b => a.1 ≤ b.1

/-- The signature of the form. -/
def formOf (f : Record) (s : Signature) (k : ℕ) : Signature :=
  { s with
    boundArgs := []
    argDefaults := if k = 0 then s.argDefaults else []
    args := s.args.take (s.args.length - k)
    sqlName := s.sqlName.or f.sqlfn }

/-- The forms of all signatures, and what each fixes. -/
def stated (t : Tables) (f : Record) : List (Binds × Signature) :=
  f.sqlSignatures.flatMap fun s => (tails s (boundOf t f s)).map fun k => (key (fixedFor t f s k), formOf f s k)

/-- One form for all that fix the same. -/
def forms (t : Tables) (f : Record) : List (Binds × List Signature) :=
  ((stated t f).map Prod.fst).eraseDups.map fun fixed =>
    (fixed, ((stated t f).filter fun x => x.1 = fixed).map Prod.snd)

/-- A subtype is taken as a temporal value, and cast in the call. -/
def castSubtype (p : Param) : Param :=
  if p.type.base ∈ ["TInstant", "TSequence", "TSequenceSet"] ∧ p.type.pointers = 1 then
    { p with type := ⟨"Temporal", 1⟩ }
  else p

/-- The end of a form's name: what it fixes, and to what where another form fixes the same parameters. -/
def suffix (t : Tables) (all : List (Binds × List Signature)) (fixed : Binds) : String :=
  let short := "_".intercalate (fixed.map Prod.fst)
  if 1 < all.countP fun x => "_".intercalate (x.1.map Prod.fst) = short then
    "_".intercalate (fixed.map fun x => x.1 ++ "_" ++ t.wordChars x.2)
  else short

/-- The literals of a form; nothing where a parameter has none. -/
def literalOf (t : Tables) (fixed : Binds) (p : Param) : Option (Option String) :=
  (fixed.lookup p.name).map (forwardLiteral t p)

/-- The record of a form, and its forwarding function. -/
def formRecord (t : Tables) (f : Record) (all : List (Binds × List Signature)) (x : Binds × List Signature) :
    Projected where
  record := { f with
    name := f.name ++ "_" ++ suffix t all x.1
    sqlfn := (x.2.head?.bind Signature.sqlName)
    params := (f.params.filter fun p => !(p.name ∈ x.1.map Prod.fst : Bool)).map castSubtype
    sqlSignatures := x.2 }
  forward := some ⟨f.name, forward (literalOf t x.1) f.params⟩

/-- A form whose literals are all there, and whose signatures have one name. -/
def formOk (t : Tables) (f : Record) (x : Binds × List Signature) : Bool :=
  (f.params.all fun p => literalOf t x.1 p ≠ some none) ∧ (x.2.map Signature.sqlName).eraseDups.length = 1

/-- The signatures that bind nothing. -/
def keep (t : Tables) (f : Record) : List Signature := f.sqlSignatures.filter fun s => boundOf t f s = []

/-- `project_signature_forms`. -/
def projectSignatureForms (t : Tables) (q : Projected) : List Projected :=
  let f := q.record
  if !t.retired f ∨ f.api ≠ "public" ∨ f.sqlfn = none then [q]
  else if f.sqlSignatures.any fun s => (facing t f s).length ≠ s.args.length then [q]
  else if forms t f = [] ∨ (forms t f).any (fun x => !formOk t f x) then [q]
  else
    let names := ((keep t f).map fun s => s.sqlName.or f.sqlfn).eraseDups
    let sqlfn := if names.length = 1 then names.headD none else f.sqlfn
    (if keep t f = [] then [] else [{ q with record := { f with sqlSignatures := keep t f, sqlfn := sqlfn } }]) ++
      (forms t f).map (formRecord t f (forms t f))

/-! ### The kernels of all types -/

/-- `GENERIC_PREFIXES`. -/
def genericPrefixes : List String := ["temporal_", "tinstant_", "tsequence_", "tsequenceset_"]

def generic (f : Record) : Bool := genericPrefixes.any fun p => p.toList.isPrefixOf f.name.toList

/-- The keys of `SIG_TEMPORAL_ACC`. -/
def sigTemporal : List String :=
  ["tint", "tbigint", "tbool", "tfloat", "ttext", "tgeompoint", "tgeogpoint", "tgeometry", "tgeography", "tcbuffer",
    "th3index", "tquadbin", "ts2cell", "tjsonb", "tpcpoint", "tpcpatch", "tnpoint", "tpose", "trgeometry",
    "tposechain"]

/-- A type's own function, which may declare what a kernel of all types declares. -/
def typesOwn (f : Record) : Bool := f.api = "public" ∧ f.sqlfn.isSome ∧ !generic f

/-- A type's own function declares the signature: on a temporal value, or, of a retired group, as a reader of
one. -/
def owns (t : Tables) (fns : List Projected) (f : Record) (s : Signature) : Bool :=
  fns.any fun g => typesOwn g.record ∧ g.record.sqlSignatures.any fun s' =>
    s'.sqlName.or g.record.sqlfn = s.sqlName.or f.sqlfn ∧ s'.args = s.args ∧
      ((s'.args.head?.any (· ∈ sigTemporal)) ∨
        (t.retired g.record ∧ s'.ret = s.ret ∧ s'.ret ∈ sigTemporal ∧ s'.args ∈ [["text"], ["bytea"]]))

/-- `yield_to_type_kernels`. -/
def yieldToTypeKernels (t : Tables) (fns : List Projected) : List Projected :=
  fns.flatMap fun q =>
    if !generic q.record ∨ q.record.sqlSignatures = [] ∨ q.record.sqlfn = none then [q]
    else
      let keep := q.record.sqlSignatures.filter fun s => !owns t fns q.record s
      if keep.length = q.record.sqlSignatures.length then [q]
      else if keep = [] then []
      else [{ q with record := { q.record with sqlSignatures := keep } }]

/-! ### All records -/

/-- The parameters that `project_bound_tail` finds fixed by signatures. -/
def fixedNames (t : Tables) (fns : List Record) : List String :=
  fns.flatMap fun f => (projectBoundTail t [] f).elim [] fun q =>
    (f.params.filter fun p => !(p ∈ q.record.params : Bool)).map Param.name

/-- The record without its last parameter, if the function is shortened. -/
def shortened (t : Tables) (fixed : List String) (f : Record) : Option Projected :=
  (projectBoundTail t [] f).or (projectBoundTail t fixed f)

/-- The records, each shortened if it can be. -/
def shortRecords (t : Tables) (fns : List Record) : List Projected :=
  fns.map fun f => (shortened t (fixedNames t fns) f).getD ⟨f, none⟩

/-- The records that were shortened, as they were. -/
def projectedTail (t : Tables) (fns : List Record) : List (String × Record) :=
  dict ((fns.filter fun f => (shortened t (fixedNames t fns) f).isSome).map fun f => (f.name, f))

/-- The longer calls that are kept. -/
def fullRecords (t : Tables) (fns : List Record) : List Projected :=
  (shortRecords t fns).flatMap fun q => keepDeclaredTail t (projectedTail t fns) q.record

def formedRecords (t : Tables) (fns : List Record) : List Projected :=
  (shortRecords t fns ++ fullRecords t fns).flatMap (projectSignatureForms t)

/-- What `main` makes of the functions of the catalog, before it gives them bodies. -/
def projectRecords (t : Tables) (fns : List Record) : List Projected := yieldToTypeKernels t (formedRecords t fns)

end Catalog
end MobilityDuck
