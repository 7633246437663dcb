/-
# A last parameter that is fixed

A function whose signatures all fix the last parameter to one literal is shortened:
some bind it, the others give it the only default (`FixesTail`). What the pass makes
of it is `TailOf`, and the calls it declares are those that leave the parameter to
the literal (`TailOf.mem_calls`).

Key definitions: `FixesTail`, `TailOf`, `FixedTail`. Key theorems: `projectBoundTail_eq_some`,
`TailOf.mem_calls`.
-/
import MobilityDuck.CatalogForms
import Mathlib.Data.List.Forall2

namespace MobilityDuck
namespace Catalog

open Lib

variable {t : Tables} {f : Record} {s : Signature} {q : Projected} {c : Call} {fixed : List String}

/-- A signature that fixes the last parameter, and the signature without it. -/
inductive FixesTail (f : Record) (last : String) (lit : String) (s : Signature) : Signature → Prop
  | bound (hbinds : ∀ n, (update f.boundArgs s.boundArgs).lookup n = if n = last then some lit else none)
      (hdefaults : s.argDefaults = []) : FixesTail f last lit s { s with boundArgs := [] }
  | default (hwhole : f.boundArgs = []) (hbinds : s.boundArgs = []) (hlast : s.argDefaults.getLast? = some (some lit))
      (hothers : s.argDefaults.dropLast.all Option.isNone = true) (hargs : s.args ≠ []) :
      FixesTail f last lit s { s with argDefaults := [], args := s.args.dropLast }

/-- What the pass makes of a function that it shortens. -/
structure TailOf (t : Tables) (f : Record) (q : Projected) (last : Param) (lit : String) : Prop where
  tail : (inputs f).getLast? = some last
  binds : (last.name, lit) ∈ f.boundArgs ∨ ∃ s ∈ f.sqlSignatures, (last.name, lit) ∈ s.boundArgs
  byValue : last.type.pointers = 0
  base : last.type.base ∈ boundTailSql.map Prod.fst
  params : q.record.params = f.params.filter (· ≠ last)
  outParams : q.record.outParams = f.outParams
  boundArgs : q.record.boundArgs = []
  sqlArgParams : q.record.sqlArgParams = f.sqlArgParams
  name : q.record.name = f.name
  api : q.record.api = f.api
  group : q.record.group = f.group
  sqlfn : q.record.sqlfn = f.sqlfn
  signatures : List.Forall₂ (FixesTail f last.name lit) f.sqlSignatures q.record.sqlSignatures
  forward : q.forward = some ⟨f.name,
    forward (fun p => if p = last then some (some (sqlDefaultToCpp (macroValue t lit))) else none) f.params⟩

theorem lookup_singleton_ite {n last lit : String} :
    ([(last, lit)] : Binds).lookup n = if n = last then some lit else none := by
  rw [lookup_cons_ite, List.lookup_nil]

theorem fixTail_eq_some {last sqlt : String} {x : Bool × String × Signature} (h : fixTail last sqlt s = some x) :
    (s.boundArgs = [(last, x.2.1)] ∧ s.argDefaults = [] ∧ x.2.2 = { s with boundArgs := [] }) ∨
      (x.1 = false ∧ s.boundArgs = [] ∧ s.argDefaults.getLast? = some (some x.2.1) ∧
        s.argDefaults.dropLast.all Option.isNone = true ∧ s.args ≠ [] ∧
        x.2.2 = { s with argDefaults := [], args := s.args.dropLast }) := by
  unfold fixTail at h
  by_cases hbound : s.boundArgs ≠ []
  · rw [if_pos hbound] at h
    by_cases hkeys : s.boundArgs.map Prod.fst = [last] ∧ s.argDefaults = []
    · rw [if_pos hkeys] at h
      obtain ⟨lit, hlit, rfl⟩ := Option.map_eq_some_iff.mp h
      obtain ⟨⟨n, raw⟩, hsingle, hn⟩ : ∃ b, s.boundArgs = [b] ∧ b.1 = last := by
        obtain ⟨b, hb, hb'⟩ := List.map_eq_singleton_iff.mp hkeys.1
        exact ⟨b, hb, hb'⟩
      obtain rfl : n = last := hn
      rw [hsingle, lookup_singleton_ite, if_pos rfl] at hlit
      obtain rfl := Option.some.inj hlit
      exact .inl ⟨hsingle, hkeys.2, rfl⟩
    · rw [if_neg hkeys] at h
      cases h
  · rw [if_neg hbound] at h
    obtain ⟨d, hd, h⟩ := Option.bind_eq_some_iff.mp h
    obtain ⟨lit, hlit, h⟩ := Option.bind_eq_some_iff.mp h
    by_cases hsql : s.args.getLast? = some sqlt ∧ s.argDefaults.dropLast.all Option.isNone = true
    · rw [if_pos hsql] at h
      obtain rfl := Option.some.inj h
      refine .inr ⟨rfl, not_not.mp hbound, ?_, hsql.2, ?_, rfl⟩
      · rw [hd, hlit]
      · rintro hnil
        rw [hnil] at hsql
        cases hsql.1
    · rw [if_neg hsql] at h
      cases h

theorem tailType_eq_some {last : Param} {sqlt : String} (h : tailType last = some sqlt) :
    last.type.pointers = 0 ∧ last.type.base ∈ boundTailSql.map Prod.fst := by
  unfold tailType at h
  by_cases hptr : last.type.pointers = 0
  · rw [if_pos hptr] at h
    refine ⟨hptr, ?_⟩
    by_contra hmem
    rw [lookup_eq_none.mpr hmem] at h
    cases h
  · rw [if_neg hptr] at h
    cases h

theorem exists_of_mem_mapM {α β : Type} {g : α → Option β} : ∀ {xs : List α} {ys : List β}, xs.mapM g = some ys →
    ∀ {y : β}, y ∈ ys → ∃ x ∈ xs, g x = some y := by
  intro xs
  induction xs with
  | nil =>
    intro ys h y hy
    obtain rfl := Option.some.inj h
    cases hy
  | cons x xs ih =>
    intro ys h y hy
    rw [List.mapM_cons] at h
    obtain ⟨y', hy', h⟩ := Option.bind_eq_some_iff.mp h
    obtain ⟨ys', hys', h⟩ := Option.bind_eq_some_iff.mp h
    obtain rfl := Option.some.inj h
    rcases List.mem_cons.mp hy with rfl | hy
    · exact ⟨x, List.mem_cons_self, hy'⟩
    · obtain ⟨x', hx', hgx⟩ := ih hys' hy
      exact ⟨x', List.mem_cons_of_mem _ hx', hgx⟩

/-- Each signature that is read fixes the last parameter, if what is bound is given to it rightly. -/
theorem fixesTail_of_mapM {last sqlt lit : String} {give : Signature → Signature} {sigs : List Signature}
    (hgive : ∀ s ∈ sigs, ∀ x, fixTail last sqlt (give s) = some x → FixesTail f last x.2.1 s x.2.2) :
    ∀ {tails : List (Bool × String × Signature)}, (sigs.map give).mapM (fixTail last sqlt) = some tails →
      (∀ x ∈ tails, x.2.1 = lit) → List.Forall₂ (FixesTail f last lit) sigs (tails.map fun x => x.2.2) := by
  induction sigs with
  | nil =>
    intro tails h _
    obtain rfl := Option.some.inj h
    exact .nil
  | cons s sigs ih =>
    intro tails h hlit
    rw [List.map_cons, List.mapM_cons] at h
    obtain ⟨x, hx, h⟩ := Option.bind_eq_some_iff.mp h
    obtain ⟨xs, hxs, h⟩ := Option.bind_eq_some_iff.mp h
    obtain rfl := Option.some.inj h
    have hfirst := hgive s List.mem_cons_self x hx
    rw [hlit x List.mem_cons_self] at hfirst
    exact .cons hfirst (ih (fun s hs => hgive s (List.mem_cons_of_mem _ hs)) hxs
      fun y hy => hlit y (List.mem_cons_of_mem _ hy))

/-- The signatures are read with what the function binds given to each. -/
theorem tailSignatures_eq_some {last : Param} {sigs : List Signature} (h : tailSignatures fixed f last = some sigs) :
    ∃ give : Signature → Signature, sigs = f.sqlSignatures.map give ∧
      (∀ s b, b ∈ (give s).boundArgs → b ∈ f.boundArgs ∨ b ∈ s.boundArgs) ∧ ∀ sqlt, ∀ s ∈ f.sqlSignatures, ∀ x,
        fixTail last.name sqlt (give s) = some x → FixesTail f last.name x.2.1 s x.2.2 := by
  unfold tailSignatures at h
  by_cases hwhole : f.boundArgs = []
  · rw [if_pos hwhole] at h
    refine ⟨id, by rw [List.map_id, Option.some.inj h], fun _ _ => .inr, ?_⟩
    rintro sqlt s - ⟨binds, lit, s'⟩ hx
    rcases fixTail_eq_some hx with ⟨hb, hd, rfl⟩ | ⟨-, hb, hlast, hothers, hargs, rfl⟩
    · refine .bound (fun n => ?_) hd
      rw [hwhole]
      rw [id] at hb
      rw [hb]
      exact lookup_singleton_ite
    · exact .default hwhole hb hlast hothers hargs
  · rw [if_neg hwhole] at h
    by_cases hgiven : f.boundArgs.map Prod.fst = [last.name] ∧ last.name ∈ fixed ∧
        f.sqlSignatures.all (fun s => s.boundArgs = [] ∧ s.argDefaults = []) = true
    · rw [if_pos hgiven] at h
      refine ⟨fun s => { s with boundArgs := f.boundArgs }, (Option.some.inj h).symm, fun _ _ => .inl, ?_⟩
      rintro sqlt s hs ⟨binds, lit, s'⟩ hx
      obtain ⟨hb, hd⟩ := of_decide_eq_true (List.all_eq_true.mp hgiven.2.2 s hs)
      rcases fixTail_eq_some hx with ⟨hb', hd', rfl⟩ | ⟨-, hb', -⟩
      · have hsig : FixesTail f last.name lit s { s with boundArgs := [] } := by
          refine .bound (fun n => ?_) hd
          rw [hb, show f.boundArgs = [(last.name, lit)] from hb']
          exact lookup_singleton_ite
        exact hsig
      · exact absurd hb' hwhole
    · rw [if_neg hgiven] at h
      cases h

theorem projectBoundTail_eq_some (h : projectBoundTail t fixed f = some q) : ∃ last lit, TailOf t f q last lit := by
  unfold projectBoundTail at h
  obtain ⟨last, hlast, h⟩ := Option.bind_eq_some_iff.mp h
  obtain ⟨sqlt, hsqlt, h⟩ := Option.bind_eq_some_iff.mp h
  obtain ⟨sigs, hsigs, h⟩ := Option.bind_eq_some_iff.mp h
  obtain ⟨tails, htails, h⟩ := Option.bind_eq_some_iff.mp h
  obtain ⟨lit, hlit, h⟩ := Option.bind_eq_some_iff.mp h
  obtain rfl := Option.some.inj h
  obtain ⟨hptr, hbase⟩ := tailType_eq_some hsqlt
  rw [tailLiteral, Option.filter_eq_some_iff] at hlit
  obtain ⟨hany, hall⟩ := of_decide_eq_true hlit.2
  have hsame : ∀ x ∈ tails, x.2.1 = lit := fun x hx => of_decide_eq_true (List.all_eq_true.mp hall x hx)
  obtain ⟨give, rfl, hbinds, hgive⟩ := tailSignatures_eq_some hsigs
  have hbound : (last.name, lit) ∈ f.boundArgs ∨ ∃ s ∈ f.sqlSignatures, (last.name, lit) ∈ s.boundArgs := by
    obtain ⟨x, hx, hx1⟩ := List.any_eq_true.mp hany
    obtain ⟨s', hs', hfix⟩ := exists_of_mem_mapM htails hx
    obtain ⟨s, hs, rfl⟩ := List.mem_map.mp hs'
    rcases fixTail_eq_some hfix with ⟨hb, -⟩ | ⟨hfalse, -⟩
    · have hmem : (last.name, lit) ∈ (give s).boundArgs := by
        rw [hb, hsame x hx]
        exact List.mem_singleton_self _
      exact (hbinds s _ hmem).imp id fun h => ⟨s, hs, h⟩
    · rw [hfalse] at hx1
      cases hx1
  exact ⟨last, lit, hlast, hbound, hptr, hbase, rfl, rfl, rfl, rfl, rfl, rfl, rfl, rfl,
    fixesTail_of_mapM (hgive sqlt) htails hsame, rfl⟩

/-! ### The calls of a shortened function -/

section Tail

variable {last : Param} {lit : String} {s' : Signature} {m : ℕ}

theorem TailOf.mem_params (h : TailOf t f q last lit) : last ∈ f.params ∧ last.name ∉ f.outParams := by
  have hmem := List.mem_of_getLast? h.tail
  rw [inputs, List.mem_filter] at hmem
  exact ⟨hmem.1, by simpa using hmem.2⟩

theorem TailOf.not_isNull (h : TailOf t f q last lit) (hwf : f.WellFormed) : isNull lit = false := by
  obtain ⟨hmem, -⟩ := h.mem_params
  rcases h.binds with hb | ⟨s, hs, hb⟩
  · exact hwf.bound.byValue last hmem h.byValue lit hb
  · exact (hwf.signatures s hs).bound.byValue last hmem h.byValue lit hb

/-- A parameter that is passed by value takes the literal of SQL, or what the macro stands for. -/
theorem TailOf.forwardLiteral (h : TailOf t f q last lit) (ht : t.WellFormed) :
    forwardLiteral t last lit = some (sqlDefaultToCpp (macroValue t lit)) := by
  have hbase : last.type.base = "bool" ∨ last.type.base = "int" ∨ last.type.base = "double" := by
    simpa [boundTailSql] using h.base
  have hscalar : last.type.base ∈ scalarArg := by
    rcases hbase with hb | hb | hb <;> simp [hb, scalarArg]
  have hmembers := ht.members _ hscalar
  have hreader := ht.reader _ hscalar
  rcases hbase with hb | hb | hb
  all_goals
    rw [hb] at hmembers hreader
    simp [Catalog.forwardLiteral, h.byValue, hb, hmembers, hreader, scalarArg]

/-- What the shortened function fixes. -/
def tailFixed (t : Tables) (last : Param) (lit n : String) : Option (Option String) :=
  if n = last.name then some (some (sqlDefaultToCpp (macroValue t lit))) else none

theorem TailOf.eq_iff (h : TailOf t f q last lit) (hwf : f.WellFormed) {p : Param} (hp : p ∈ f.params) :
    p = last ↔ p.name = last.name :=
  ⟨congrArg _, fun hname => List.inj_on_of_nodup_map hwf.names hp h.mem_params.1 hname⟩

theorem TailOf.names (h : TailOf t f q last lit) (hwf : f.WellFormed) :
    q.record.names = f.names.filter fun n => n ≠ last.name := by
  rw [Record.names, h.params, Record.names, List.filter_map]
  refine congrArg _ (List.filter_congr fun p hp => ?_)
  rw [Function.comp_apply, decide_eq_decide, not_iff_not]
  exact h.eq_iff hwf hp

theorem TailOf.forward_eq (h : TailOf t f q last lit) (hwf : f.WellFormed) :
    q.forward = some ⟨f.name, Lib.forward (tailFixed t last lit) f.names⟩ := by
  have hparams : Lib.forward (fun p => if p = last then some (some (sqlDefaultToCpp (macroValue t lit))) else none)
      f.params = Lib.forward (fun p => tailFixed t last lit p.name) f.params := by
    refine forward_congr fun p hp => ?_
    rw [tailFixed]
    by_cases heq : p = last
    · rw [if_pos heq, if_pos ((h.eq_iff hwf hp).mp heq)]
    · rw [if_neg heq, if_neg fun hname => heq ((h.eq_iff hwf hp).mpr hname)]
  rw [h.forward, hparams, forward_map Param.name hwf.names]
  rfl

/-- A signature that gives no defaults takes all its arguments. -/
theorem callable_of_no_defaults {g : Record} (hd : s.argDefaults = []) :
    g.callable s m = true ↔ g.placed s = true ∧ m = s.args.length := by
  have hdefaults : s.defaults = List.replicate s.args.length none := if_pos hd
  have hall : (List.replicate (s.args.length - m) (none : Option String)).all Option.isSome = true ↔
      s.args.length ≤ m := by
    rw [List.all_replicate]
    by_cases hle : s.args.length ≤ m
    · simp [hle]
    · rw [if_neg (by omega)]
      simp [hle]
  rw [Record.callable, decide_eq_true_iff, hdefaults, List.drop_replicate, hall]
  constructor
  · rintro ⟨hplaced, hle, hge⟩
    exact ⟨hplaced, by omega⟩
  · rintro ⟨hplaced, rfl⟩
    exact ⟨hplaced, le_rfl, le_rfl⟩

/-- A signature that gives its last argument a default takes all its arguments, or all but the last. -/
theorem callable_of_last_default {g : Record} (hs : s.WellFormed f) {d : String}
    (hlast : s.argDefaults.getLast? = some (some d)) (hothers : s.argDefaults.dropLast.all Option.isNone = true) :
    g.callable s m = true ↔ g.placed s = true ∧ m ≤ s.args.length ∧ s.args.length ≤ m + 1 := by
  have hne := List.ne_nil_of_mem (List.mem_of_getLast? hlast)
  have hdefaults : s.defaults = s.argDefaults := if_neg hne
  have hlen := hs.defaults.resolve_left hne
  obtain ⟨init, hsplit, hinit⟩ : ∃ init, s.argDefaults = init ++ [some d] ∧ init.all Option.isNone = true :=
    ⟨_, (List.dropLast_append_getLast? _ hlast).symm, hothers⟩
  have hcount : init.length + 1 = s.args.length := by
    rw [← hlen, hsplit, List.length_append, List.length_singleton]
  have hall : (s.argDefaults.drop m).all Option.isSome = true ↔ s.args.length ≤ m + 1 := by
    rw [hsplit, List.drop_append, List.all_append]
    constructor
    · intro h
      by_contra hlt
      have hm : m < init.length := by omega
      have hget : init[m] ∈ init.drop m := List.mem_drop_iff_getElem.mpr ⟨0, by omega, rfl⟩
      have hsome := List.all_eq_true.mp (Bool.and_eq_true_iff.mp h).1 _ hget
      have hnone := List.all_eq_true.mp hinit _ (List.mem_of_mem_drop hget)
      rw [Option.isNone_iff_eq_none.mp hnone] at hsome
      cases hsome
    · intro hle
      rw [List.drop_eq_nil_of_le (by omega), List.all_nil, Bool.true_and, List.all_eq_true]
      intro x hx
      obtain rfl := List.mem_singleton.mp (List.mem_of_mem_drop hx)
      rfl
  rw [Record.callable, decide_eq_true_iff, hdefaults, hall]

/-- What the parameters of a shortened function are given when it is called. -/
theorem TailOf.apply_call (h : TailOf t f q last lit) (hwf : f.WellFormed) {j : ℕ}
    (hfixes : Placing.Fixes (f.placing t s) (q.record.placing t s') (tailFixed t last lit) j)
    (hlen : j ≤ (f.sqlin s).length)
    (hlit : (f.placing t s).operand j last.name = .lit (some (sqlDefaultToCpp (macroValue t lit))))
    (hsqlName : s'.sqlName = s.sqlName) (hret : s'.ret = s.ret) (hargs : s'.args.take j = s.args.take j) :
    (⟨f.name, Lib.forward (tailFixed t last lit) f.names⟩ : Forward).apply (q.record.call t s' j) = f.call t s j := by
  have hfacing := hfixes.facing_eq hwf.names
  rw [facing_placing, facing_placing] at hfacing
  have hcall := Placing.call_forward (m := j) hfixes hwf.names
    (fun n _ l hn => by
      rw [tailFixed] at hn
      by_cases heq : n = last.name
      · rw [if_pos heq] at hn
        rw [heq, hlit, Option.some.inj hn]
      · rw [if_neg heq] at hn
        cases hn)
    (fun n hn hle => by
      have hlt := List.idxOf_lt_length_of_mem hn
      rw [facing_placing, hfacing, List.length_take] at hlt
      rw [facing_placing, hfacing] at hle
      omega)
  have hoperands : ((Lib.forward (tailFixed t last lit) f.names).map
      (Passed.pass ((q.record.placing t s').call j))) = (f.placing t s).call j := hcall
  simp only [Forward.apply, Record.call]
  rw [hoperands, hsqlName, hret, hargs, h.sqlfn]

theorem TailOf.operand_of_bound (h : TailOf t f q last lit) (hwf : f.WellFormed) (ht : t.WellFormed)
    (hbinds : ∀ n, (update f.boundArgs s.boundArgs).lookup n = if n = last.name then some lit else none) :
    (f.placing t s).operand m last.name = .lit (some (sqlDefaultToCpp (macroValue t lit))) := by
  obtain ⟨hmem, hinput⟩ := h.mem_params
  refine Placing.operand_bound (decide_eq_false hinput) ?_
  show ((update f.boundArgs s.boundArgs).lookup last.name).map (f.literal t last.name) = _
  rw [hbinds, if_pos rfl, Option.map_some, literal_eq hwf.names hmem, h.forwardLiteral ht]

theorem TailOf.fixes_bound (h : TailOf t f q last lit) (hwf : f.WellFormed)
    (hbinds : ∀ n, (update f.boundArgs s.boundArgs).lookup n = if n = last.name then some lit else none) :
    Placing.Fixes (f.placing t s) (q.record.placing t { s with boundArgs := [] }) (tailFixed t last lit)
      (f.sqlin s).length where
  params := by
    show q.record.names = remaining (tailFixed t last lit) f.names
    rw [h.names hwf, remaining]
    refine List.filter_congr fun n _ => ?_
    by_cases heq : n = last.name <;> simp [tailFixed, heq]
  out n _ := by
    show decide (n ∈ q.record.outParams) = decide (n ∈ f.outParams)
    rw [h.outParams]
  bound n hn := by
    have hne : n ≠ last.name := by
      have hn' : n ∈ q.record.names := hn
      rw [h.names hwf, List.mem_filter] at hn'
      exact of_decide_eq_true hn'.2
    show ((update q.record.boundArgs []).lookup n).map _ = ((update f.boundArgs s.boundArgs).lookup n).map _
    rw [hbinds, if_neg hne, h.boundArgs]
    rfl
  first n hn := by
    have hne : n ≠ last.name := by
      rintro rfl
      rw [facing_placing, Record.sqlin, List.mem_filter, hbinds, if_pos rfl] at hn
      simp at hn
    rw [facing_placing] at hn ⊢
    rw [List.take_length, tailFixed, if_neg hne]
    exact ⟨fun _ => hn, fun _ => rfl⟩

/-- Where nothing is bound, the arguments fill all that takes any. -/
theorem sqlin_of_unbound (hwhole : f.boundArgs = []) (hbinds : s.boundArgs = []) :
    f.sqlin s = (inputs f).map Param.name := by
  rw [Record.sqlin, hwhole, hbinds, Record.names, inputs, List.filter_map]
  refine congrArg _ (List.filter_congr fun p _ => ?_)
  simp [update]

theorem TailOf.sqlin_eq (h : TailOf t f q last lit) (hwhole : f.boundArgs = []) (hbinds : s.boundArgs = []) :
    f.sqlin s = (f.sqlin s).dropLast ++ [last.name] := by
  have hlast : (f.sqlin s).getLast? = some last.name := by
    rw [sqlin_of_unbound hwhole hbinds, List.getLast?_map, h.tail]
    rfl
  exact (List.dropLast_append_getLast? _ hlast).symm

theorem TailOf.fixes_default (h : TailOf t f q last lit) (hwf : f.WellFormed) (hwhole : f.boundArgs = [])
    (hbinds : s.boundArgs = []) :
    Placing.Fixes (f.placing t s) (q.record.placing t { s with argDefaults := [], args := s.args.dropLast })
      (tailFixed t last lit) ((f.sqlin s).length - 1) where
  params := by
    show q.record.names = remaining (tailFixed t last lit) f.names
    rw [h.names hwf, remaining]
    refine List.filter_congr fun n _ => ?_
    by_cases heq : n = last.name <;> simp [tailFixed, heq]
  out n _ := by
    show decide (n ∈ q.record.outParams) = decide (n ∈ f.outParams)
    rw [h.outParams]
  bound n _ := by
    show ((update q.record.boundArgs s.boundArgs).lookup n).map _ = ((update f.boundArgs s.boundArgs).lookup n).map _
    rw [h.boundArgs, hwhole, hbinds]
    rfl
  first n hn := by
    rw [facing_placing] at hn ⊢
    have hsplit := h.sqlin_eq hwhole hbinds
    have hnodup := nodup_sqlin (s := s) hwf
    rw [← List.dropLast_eq_take]
    rw [hsplit] at hn hnodup
    have hdisjoint : last.name ∉ (f.sqlin s).dropLast := fun hmem =>
      (List.nodup_append.mp hnodup).2.2 _ hmem _ (List.mem_singleton_self _) rfl
    rw [tailFixed]
    by_cases heq : n = last.name
    · rw [if_pos heq, heq]
      constructor
      · intro hnone
        cases hnone
      · exact fun hmem => absurd hmem hdisjoint
    · rw [if_neg heq]
      exact ⟨fun _ => (List.mem_append.mp hn).resolve_right fun hmem => heq (List.mem_singleton.mp hmem), fun _ => rfl⟩

/-- The last parameter of a call is given a literal. -/
def FixedTail (f : Record) (last : Param) (c : Call) : Prop :=
  ∃ l, c.operands[f.names.idxOf last.name]? = some (.lit l)

theorem getElem?_call {n : String} (hn : n ∈ f.names) :
    (f.call t s m).operands[f.names.idxOf n]? = some ((f.placing t s).operand m n) := by
  show (f.names.map _)[f.names.idxOf n]? = _
  rw [List.getElem?_map, List.getElem?_eq_getElem (List.idxOf_lt_length_of_mem hn), List.getElem_idxOf]
  rfl

theorem TailOf.name_mem (h : TailOf t f q last lit) : last.name ∈ f.names := List.mem_map_of_mem h.mem_params.1

theorem TailOf.fixedTail_iff (h : TailOf t f q last lit) :
    FixedTail f last (f.call t s m) ↔ ∃ l, (f.placing t s).operand m last.name = .lit l := by
  rw [FixedTail, getElem?_call h.name_mem]
  simp

/-- The default of the last parameter is the literal. -/
theorem TailOf.operand_of_default (h : TailOf t f q last lit) (hwf : f.WellFormed) (ht : t.WellFormed)
    (hs : s.WellFormed f) (hwhole : f.boundArgs = []) (hbinds : s.boundArgs = [])
    (hlast : s.argDefaults.getLast? = some (some lit)) (hplaced : (f.sqlin s).length = s.args.length) :
    (f.placing t s).operand ((f.sqlin s).length - 1) last.name =
      .lit (some (sqlDefaultToCpp (macroValue t lit))) := by
  have hsplit := h.sqlin_eq hwhole hbinds
  have hmem : last.name ∈ (f.placing t s).facing.drop ((f.sqlin s).length - 1) := by
    obtain ⟨init, hinit⟩ : ∃ init, f.sqlin s = init ++ [last.name] := ⟨_, hsplit⟩
    rw [facing_placing, hinit]
    simp
  have hidx : (f.sqlin s).idxOf last.name = (f.sqlin s).length - 1 := by
    have hge := Placing.le_idxOf_of_mem_drop (nodup_sqlin (s := s) hwf) (by rwa [facing_placing] at hmem)
    have hlt := List.idxOf_lt_length_of_mem (List.mem_of_mem_drop (by rwa [facing_placing] at hmem))
    omega
  have hne := List.ne_nil_of_mem (List.mem_of_getLast? hlast)
  have hlen := hs.defaults.resolve_left hne
  have hgetD : s.defaults.getD ((f.sqlin s).length - 1) none = some lit := by
    rw [Signature.defaults, if_neg hne, hplaced, ← hlen, List.getD_eq_getElem?_getD, ← List.getLast?_eq_getElem?, hlast]
    rfl
  rw [Placing.operand_drop hwf.names le_rfl hmem]
  show Operand.lit (((s.omitted ((f.sqlin s).idxOf last.name) last.name).lookup last.name).bind _) = _
  have homitted : s.omitted ((f.sqlin s).idxOf last.name) last.name = [(last.name, lit)] := by
    rw [Signature.omitted, hidx, hgetD]
    simp [h.not_isNull hwf]
  rw [homitted, lookup_singleton_ite, if_pos rfl]
  exact congrArg Operand.lit ((literal_eq hwf.names h.mem_params.1 lit).trans (h.forwardLiteral ht))

/-- A signature that binds the last parameter declares the same calls without it. -/
theorem TailOf.call_iff_bound (h : TailOf t f q last lit) (hwf : f.WellFormed) (ht : t.WellFormed)
    (hbinds : ∀ n, (update f.boundArgs s.boundArgs).lookup n = if n = last.name then some lit else none)
    (hdefaults : s.argDefaults = []) :
    (∃ m, q.record.callable { s with boundArgs := [] } m = true ∧
      c = (⟨f.name, Lib.forward (tailFixed t last lit) f.names⟩ : Forward).apply
        (q.record.call t { s with boundArgs := [] } m)) ↔
    ∃ m, f.callable s m = true ∧ c = f.call t s m ∧ FixedTail f last c := by
  have hfixes := h.fixes_bound hwf hbinds
  have hsqlin := hfixes.facing_eq hwf.names
  rw [facing_placing, facing_placing, List.take_length] at hsqlin
  have happly := h.apply_call hwf hfixes le_rfl (h.operand_of_bound hwf ht hbinds) rfl rfl rfl
  have hsame : q.record.placed { s with boundArgs := [] } = f.placed s := by
    rw [Record.placed, Record.placed, hsqlin, h.sqlArgParams]
  have hiff : ∀ m, q.record.callable { s with boundArgs := [] } m = true ↔ f.callable s m = true := by
    intro m
    have hnone : ({ s with boundArgs := [] } : Signature).argDefaults = [] := hdefaults
    rw [callable_of_no_defaults hnone, callable_of_no_defaults hdefaults, hsame]
  constructor
  · rintro ⟨m, hm, rfl⟩
    have hm' := (hiff m).mp hm
    obtain ⟨hp, rfl⟩ := (callable_of_no_defaults hdefaults).mp hm'
    have hplaced := length_sqlin_of_placed hp
    rw [← hplaced, happly]
    exact ⟨_, hplaced ▸ hm', rfl, h.fixedTail_iff.mpr ⟨_, h.operand_of_bound hwf ht hbinds⟩⟩
  · rintro ⟨m, hm, rfl, -⟩
    obtain ⟨hp, rfl⟩ := (callable_of_no_defaults hdefaults).mp hm
    refine ⟨s.args.length, (hiff _).mpr hm, ?_⟩
    rw [← length_sqlin_of_placed hp, happly]

/-- Where the only default is the last parameter's, a call that does not give it an argument leaves it out. -/
theorem TailOf.eq_of_fixedTail (h : TailOf t f q last lit) (hwhole : f.boundArgs = []) (hbinds : s.boundArgs = [])
    (hm : (f.sqlin s).length ≤ m + 1) (hle : m ≤ (f.sqlin s).length) (htail : FixedTail f last (f.call t s m)) :
    m = (f.sqlin s).length - 1 := by
  obtain ⟨l, hl⟩ := h.fixedTail_iff.mp htail
  have hfacing : last.name ∈ (f.placing t s).facing := by
    rw [facing_placing, h.sqlin_eq hwhole hbinds]
    exact List.mem_append_right _ (List.mem_singleton_self _)
  by_contra hne
  have hlt := List.idxOf_lt_length_of_mem hfacing
  rw [Placing.operand_facing hfacing, facing_placing] at hl
  rw [facing_placing] at hlt
  rw [if_pos (by omega)] at hl
  cases hl

/-- Which calls a shortened signature declares. -/
theorem TailOf.callable_default (h : TailOf t f q last lit) (hwf : f.WellFormed) (hwhole : f.boundArgs = [])
    (hbinds : s.boundArgs = []) (hargs : s.args ≠ []) (m : ℕ) :
    q.record.callable { s with argDefaults := [], args := s.args.dropLast } m = true ↔
      f.placed s = true ∧ m = (f.sqlin s).length - 1 := by
  have hsqlin := (h.fixes_default hwf hwhole hbinds).facing_eq hwf.names
  rw [facing_placing, facing_placing] at hsqlin
  have hpos : 0 < s.args.length := List.length_pos_iff.mpr hargs
  have hcount : 0 < (f.sqlin s).length := by
    rw [h.sqlin_eq hwhole hbinds, List.length_append, List.length_singleton]
    omega
  have hlengths : ((f.sqlin s).take ((f.sqlin s).length - 1)).length = s.args.dropLast.length ↔
      (f.sqlin s).length = s.args.length := by
    rw [List.length_take, List.length_dropLast]
    omega
  have hsame : q.record.placed { s with argDefaults := [], args := s.args.dropLast } = f.placed s := by
    rw [Record.placed, Record.placed, hsqlin, h.sqlArgParams, decide_eq_decide]
    exact and_congr_right fun _ => and_congr_right fun _ => and_congr_right fun _ => hlengths
  rw [callable_of_no_defaults rfl, hsame, List.length_dropLast]
  refine and_congr_right fun hp => ?_
  rw [length_sqlin_of_placed hp]

/-- A signature that gives the last parameter a default declares without it the calls that leave it out. -/
theorem TailOf.call_iff_default (h : TailOf t f q last lit) (hwf : f.WellFormed) (ht : t.WellFormed)
    (hs : s.WellFormed f) (hwhole : f.boundArgs = []) (hbinds : s.boundArgs = [])
    (hlast : s.argDefaults.getLast? = some (some lit)) (hothers : s.argDefaults.dropLast.all Option.isNone = true)
    (hargs : s.args ≠ []) :
    (∃ m, q.record.callable { s with argDefaults := [], args := s.args.dropLast } m = true ∧
      c = (⟨f.name, Lib.forward (tailFixed t last lit) f.names⟩ : Forward).apply
        (q.record.call t { s with argDefaults := [], args := s.args.dropLast } m)) ↔
    ∃ m, f.callable s m = true ∧ c = f.call t s m ∧ FixedTail f last c := by
  have hfixes := h.fixes_default hwf hwhole hbinds
  have hpos : 0 < s.args.length := List.length_pos_iff.mpr hargs
  have hshort := h.callable_default hwf hwhole hbinds hargs
  have happly : (f.sqlin s).length = s.args.length →
      (⟨f.name, Lib.forward (tailFixed t last lit) f.names⟩ : Forward).apply
        (q.record.call t { s with argDefaults := [], args := s.args.dropLast } ((f.sqlin s).length - 1)) =
      f.call t s ((f.sqlin s).length - 1) := by
    intro hplaced
    refine h.apply_call hwf hfixes (Nat.sub_le _ _)
      (h.operand_of_default hwf ht hs hwhole hbinds hlast hplaced) rfl rfl ?_
    rw [List.dropLast_eq_take, List.take_take, hplaced, Nat.min_self]
  constructor
  · rintro ⟨m, hm, rfl⟩
    obtain ⟨hp, rfl⟩ := (hshort m).mp hm
    have hplaced := length_sqlin_of_placed hp
    refine ⟨(f.sqlin s).length - 1, (callable_of_last_default hs hlast hothers).mpr ⟨hp, by omega, by omega⟩,
      happly hplaced, ?_⟩
    rw [happly hplaced]
    exact h.fixedTail_iff.mpr ⟨_, h.operand_of_default hwf ht hs hwhole hbinds hlast hplaced⟩
  · rintro ⟨m, hm, rfl, htail⟩
    obtain ⟨hp, hle, hge⟩ := (callable_of_last_default hs hlast hothers).mp hm
    have hplaced := length_sqlin_of_placed hp
    obtain rfl := h.eq_of_fixedTail hwhole hbinds (by omega) (by omega) htail
    exact ⟨_, (hshort _).mpr ⟨hp, rfl⟩, (happly hplaced).symm⟩

/-- A signature that fixes the last parameter declares, without it, the calls that fix it. -/
theorem TailOf.call_iff (h : TailOf t f q last lit) (hwf : f.WellFormed) (ht : t.WellFormed) (hs : s.WellFormed f)
    (hfix : FixesTail f last.name lit s s') :
    (∃ m, q.record.callable s' m = true ∧
      c = (⟨f.name, Lib.forward (tailFixed t last lit) f.names⟩ : Forward).apply (q.record.call t s' m)) ↔
    ∃ m, f.callable s m = true ∧ c = f.call t s m ∧ FixedTail f last c := by
  cases hfix with
  | bound hbinds hdefaults => exact h.call_iff_bound hwf ht hbinds hdefaults
  | default hwhole hbinds hlast hothers hargs =>
    exact h.call_iff_default hwf ht hs hwhole hbinds hlast hothers hargs

theorem forall₂_left {α β : Type} {R : α → β → Prop} {xs : List α} {ys : List β} (h : List.Forall₂ R xs ys) :
    ∀ x ∈ xs, ∃ y ∈ ys, R x y := by
  induction h with
  | nil => exact fun x hx => by cases hx
  | cons hxy _ ih =>
    intro x hx
    rcases List.mem_cons.mp hx with rfl | hx
    · exact ⟨_, List.mem_cons_self, hxy⟩
    · obtain ⟨y, hy, hR⟩ := ih x hx
      exact ⟨y, List.mem_cons_of_mem _ hy, hR⟩

/-- A shortened function declares the calls of the function that give its last parameter a literal. -/
theorem TailOf.mem_calls (h : TailOf t f q last lit) (hwf : f.WellFormed) (ht : t.WellFormed) :
    c ∈ q.calls t ↔ c ∈ f.calls t ∧ FixedTail f last c := by
  rw [mem_calls_forward (h.forward_eq hwf), Catalog.mem_calls]
  constructor
  · rintro ⟨s', hs', hcall⟩
    obtain ⟨s, hs, hfix⟩ := forall₂_left h.signatures.flip s' hs'
    obtain ⟨m, hm, hc, htail⟩ := (h.call_iff hwf ht (hwf.signatures s hs) hfix).mp hcall
    exact ⟨⟨s, hs, m, hm, hc⟩, htail⟩
  · rintro ⟨⟨s, hs, m, hm, hc⟩, htail⟩
    obtain ⟨s', hs', hfix⟩ := forall₂_left h.signatures s hs
    exact ⟨s', hs', (h.call_iff hwf ht (hwf.signatures s hs) hfix).mpr ⟨m, hm, hc, htail⟩⟩

end Tail

end Catalog
end MobilityDuck
