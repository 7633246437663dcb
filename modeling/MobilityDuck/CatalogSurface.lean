/-
# What the generator declares

The passes run one behind the other: functions are shortened, the longer calls of a
retired group are kept beside them, every record is taken apart into its forms, and
the kernels of all types yield to a type's own functions. What comes out declares
calls of the catalog only (`projectRecords_sound`). It declares all of them but the
calls that are given up, which give the last parameter of a shortened function an
argument, and those a type's own function answers (`projectRecords_complete`).

Key definitions: `GivenUp`, `Superseded`. Key theorems: `projectRecords_sound`,
`projectRecords_complete`.
-/
import MobilityDuck.CatalogTail

namespace MobilityDuck
namespace Catalog

open Lib

variable {t : Tables} {f g : Record} {s : Signature} {q q' : Projected} {c : Call} {fixed : List String}
  {last : Param} {lit : String} {fns : List Record}

theorem Projected.mem_calls : c ∈ q.calls t ↔ ∃ s ∈ q.record.sqlSignatures, ∃ m, q.record.callable s m = true ∧
    c = q.forward.elim (q.record.call t s m) fun fw => fw.apply (q.record.call t s m) := by
  rw [Projected.calls, List.mem_map]
  constructor
  · rintro ⟨c', hc', rfl⟩
    obtain ⟨s, hs, m, hm, rfl⟩ := Catalog.mem_calls.mp hc'
    exact ⟨s, hs, m, hm, rfl⟩
  · rintro ⟨s, hs, m, hm, rfl⟩
    exact ⟨_, Catalog.mem_calls.mpr ⟨s, hs, m, hm, rfl⟩, rfl⟩

/-! ### The longer call of a shortened function -/

section Full

variable {shorts : List (String × Record)}

/-- A function that passes its parameters as they are. -/
theorem apply_identity (c : Call) (target : String) :
    (⟨target, (List.range c.operands.length).map .param⟩ : Forward).apply c = { c with target := target } := by
  have hsame : ((List.range c.operands.length).map .param).map (Passed.pass c.operands) = c.operands := by
    rw [List.map_map]
    refine List.ext_getElem (by simp) fun i hi hi' => ?_
    rw [List.getElem_map, List.getElem_range]
    exact List.getD_eq_getElem _ _ hi'
  rw [Forward.apply, hsame]

/-- The full record, where it is kept. -/
theorem mem_keepDeclaredTail (hf : shorts.lookup g.name = some f) :
    q ∈ keepDeclaredTail t shorts g ↔ t.retired f = true ∧ f.group = "meos_geo_accessor" ∧
      (declared f).sqlSignatures ≠ [] ∧
      q = ⟨declared f, some ⟨f.name, (List.range f.params.length).map .param⟩⟩ := by
  unfold keepDeclaredTail
  rw [hf]
  dsimp only
  by_cases hgate : (!t.retired f) = true ∨ f.group ≠ "meos_geo_accessor"
  · rw [if_pos hgate]
    constructor
    · exact fun h => absurd h List.not_mem_nil
    · rintro ⟨hret, hgroup, -⟩
      rcases hgate with h | h
      · rw [hret] at h
        cases h
      · exact absurd hgroup h
  · rw [if_neg hgate]
    have hret : t.retired f = true := by simpa using fun h => hgate (.inl h)
    have hgroup : f.group = "meos_geo_accessor" := by_contra fun h => hgate (.inr h)
    by_cases hnil : (declared f).sqlSignatures = []
    · rw [if_pos hnil]
      exact ⟨fun h => absurd h List.not_mem_nil, fun h => absurd hnil h.2.2.1⟩
    · rw [if_neg hnil, List.mem_singleton]
      exact ⟨fun h => ⟨hret, hgroup, hnil, h⟩, fun h => h.2.2.2⟩

theorem mem_declared {s' : Signature} : s' ∈ (declared f).sqlSignatures ↔
    ∃ s ∈ f.sqlSignatures, s.argDefaults ≠ [] ∧ s' = { s with argDefaults := [] } := by
  show s' ∈ (f.sqlSignatures.filter fun s => s.argDefaults ≠ []).map _ ↔ _
  rw [List.mem_map]
  constructor
  · rintro ⟨s, hs, rfl⟩
    rw [List.mem_filter, decide_eq_true_iff] at hs
    exact ⟨s, hs.1, hs.2, rfl⟩
  · rintro ⟨s, hs, hd, rfl⟩
    exact ⟨s, List.mem_filter.mpr ⟨hs, decide_eq_true hd⟩, rfl⟩

/-- A call that gives every argument is that of the signature with its defaults. -/
theorem apply_call_declared (hplaced : (f.sqlin s).length = s.args.length) :
    (⟨f.name, (List.range f.params.length).map .param⟩ : Forward).apply
      ((declared f).call t { s with argDefaults := [] } s.args.length) = f.call t s s.args.length := by
  have hlength : ((declared f).call t { s with argDefaults := [] } s.args.length).operands.length =
      f.params.length := by
    simp [Record.call, Placing.call, Record.placing, Record.names, declared]
  have hoperands : ((declared f).placing t { s with argDefaults := [] }).call s.args.length =
      (f.placing t s).call s.args.length := by
    have hfacing : (f.placing t s).facing.length ≤ s.args.length := by rw [facing_placing, hplaced]
    exact Placing.call_default ((declared f).placing t { s with argDefaults := [] }).default hfacing
  rw [← hlength, apply_identity]
  simp only [Record.call]
  rw [hoperands]
  rfl

/-- The calls of the full record give every argument. -/
theorem mem_calls_full (hf : shorts.lookup g.name = some f) (hq : q ∈ keepDeclaredTail t shorts g) :
    c ∈ q.calls t ↔ ∃ s ∈ f.sqlSignatures, s.argDefaults ≠ [] ∧ f.placed s = true ∧
      c = f.call t s s.args.length := by
  obtain ⟨-, -, -, rfl⟩ := (mem_keepDeclaredTail hf).mp hq
  rw [mem_calls_forward rfl]
  constructor
  · rintro ⟨s', hs', m, hm, rfl⟩
    obtain ⟨s, hs, hd, rfl⟩ := mem_declared.mp hs'
    obtain ⟨hp, rfl⟩ := (callable_of_no_defaults (g := declared f) rfl).mp hm
    exact ⟨s, hs, hd, hp, apply_call_declared (length_sqlin_of_placed hp)⟩
  · rintro ⟨s, hs, hd, hp, rfl⟩
    exact ⟨_, mem_declared.mpr ⟨s, hs, hd, rfl⟩, s.args.length,
      (callable_of_no_defaults (g := declared f) rfl).mpr ⟨hp, rfl⟩,
      (apply_call_declared (length_sqlin_of_placed hp)).symm⟩

end Full

/-! ### The kernels of all types -/

section Yield

variable {qs : List Projected}

/-- A record that yields keeps some of its signatures. -/
theorem mem_yieldToTypeKernels (h : q' ∈ yieldToTypeKernels t qs) :
    ∃ q ∈ qs, ∃ sigs, (∀ s ∈ sigs, s ∈ q.record.sqlSignatures) ∧
      q' = { q with record := { q.record with sqlSignatures := sigs } } := by
  obtain ⟨q, hq, hq'⟩ := List.mem_flatMap.mp h
  refine ⟨q, hq, ?_⟩
  by_cases hgate : (!generic q.record) = true ∨ q.record.sqlSignatures = [] ∨ q.record.sqlfn = none
  · rw [if_pos hgate, List.mem_singleton] at hq'
    exact ⟨_, fun _ hs => hs, hq'⟩
  rw [if_neg hgate] at hq'
  by_cases hall : (q.record.sqlSignatures.filter fun s => !owns t qs q.record s).length =
      q.record.sqlSignatures.length
  · rw [if_pos hall, List.mem_singleton] at hq'
    exact ⟨_, fun _ hs => hs, hq'⟩
  rw [if_neg hall] at hq'
  by_cases hnil : (q.record.sqlSignatures.filter fun s => !owns t qs q.record s) = []
  · rw [if_pos hnil] at hq'
    cases hq'
  · rw [if_neg hnil, List.mem_singleton] at hq'
    exact ⟨_, fun _ hs => List.mem_of_mem_filter hs, hq'⟩

theorem mem_calls_of_yield (h : q' ∈ yieldToTypeKernels t qs) (hc : c ∈ q'.calls t) : ∃ q ∈ qs, c ∈ q.calls t := by
  obtain ⟨q, hq, sigs, hsigs, rfl⟩ := mem_yieldToTypeKernels h
  obtain ⟨s, hs, m, hm, rfl⟩ := Projected.mem_calls.mp hc
  exact ⟨q, hq, Projected.mem_calls.mpr ⟨s, hsigs s hs, m, hm, rfl⟩⟩

/-- A signature that no type's own function declares is kept. -/
theorem yield_of_not_owns (hq : q ∈ qs) (hs : s ∈ q.record.sqlSignatures) (howns : owns t qs q.record s = false) :
    ∃ q' ∈ yieldToTypeKernels t qs, ∃ sigs, s ∈ sigs ∧
      q' = { q with record := { q.record with sqlSignatures := sigs } } := by
  by_cases hgate : (!generic q.record) = true ∨ q.record.sqlSignatures = [] ∨ q.record.sqlfn = none
  · refine ⟨q, List.mem_flatMap.mpr ⟨q, hq, ?_⟩, _, hs, rfl⟩
    rw [if_pos hgate]
    exact List.mem_singleton_self _
  by_cases hall : (q.record.sqlSignatures.filter fun s => !owns t qs q.record s).length =
      q.record.sqlSignatures.length
  · refine ⟨q, List.mem_flatMap.mpr ⟨q, hq, ?_⟩, _, hs, rfl⟩
    rw [if_neg hgate, if_pos hall]
    exact List.mem_singleton_self _
  have hkept : s ∈ q.record.sqlSignatures.filter fun s => !owns t qs q.record s :=
    List.mem_filter.mpr ⟨hs, by rw [howns]; rfl⟩
  refine ⟨_, List.mem_flatMap.mpr ⟨q, hq, ?_⟩, _, hkept, rfl⟩
  rw [if_neg hgate, if_neg hall, if_neg (List.ne_nil_of_mem hkept)]
  exact List.mem_singleton_self _

/-- A type's own function yields to none. -/
theorem mem_yield_of_typesOwn (hq : q ∈ qs) (hown : typesOwn q.record = true) : q ∈ yieldToTypeKernels t qs := by
  refine List.mem_flatMap.mpr ⟨q, hq, ?_⟩
  rw [if_pos (.inl (of_decide_eq_true hown).2.2)]
  exact List.mem_singleton_self _

/-- A type's own record that declares the call's SQL function with arguments that begin as the call's. -/
def Superseded (qs : List Projected) (c : Call) : Prop :=
  ∃ g ∈ qs, typesOwn g.record = true ∧ ∃ s ∈ g.record.sqlSignatures,
    s.sqlName.or g.record.sqlfn = c.sqlName ∧ c.args <+: s.args

theorem superseded_of_owns (howns : owns t qs q.record s = true) {m : ℕ}
    (hc : c = q.forward.elim (q.record.call t s m) fun fw => fw.apply (q.record.call t s m)) :
    Superseded (yieldToTypeKernels t qs) c := by
  obtain ⟨g, hg, hown⟩ := List.any_eq_true.mp howns
  obtain ⟨htype, hsig⟩ := of_decide_eq_true hown
  obtain ⟨s', hs', hsame⟩ := List.any_eq_true.mp hsig
  obtain ⟨hname, hargs, -⟩ := of_decide_eq_true hsame
  have hcall : c.sqlName = s.sqlName.or q.record.sqlfn ∧ c.args = s.args.take m := by
    rw [hc]
    cases q.forward <;> exact ⟨rfl, rfl⟩
  refine ⟨g, mem_yield_of_typesOwn hg htype, htype, s', hs', hname.trans hcall.1.symm, ?_⟩
  rw [hcall.2, hargs]
  exact List.take_prefix _ _

theorem calls_yield (hq : q ∈ qs) (hc : c ∈ q.calls t) :
    (∃ q' ∈ yieldToTypeKernels t qs, c ∈ q'.calls t) ∨ Superseded (yieldToTypeKernels t qs) c := by
  obtain ⟨s, hs, m, hm, hc⟩ := Projected.mem_calls.mp hc
  cases howns : owns t qs q.record s with
  | true => exact .inr (superseded_of_owns howns hc)
  | false =>
    obtain ⟨q', hq', sigs, hsigs, rfl⟩ := yield_of_not_owns hq hs howns
    exact .inl ⟨_, hq', Projected.mem_calls.mpr ⟨s, hsigs, m, hm, hc⟩⟩

end Yield

/-! ### All records -/

/-- A shortened function binds nothing and gives no defaults. -/
theorem TailOf.plain (h : TailOf t f q last lit) :
    ∀ s ∈ q.record.sqlSignatures, s.boundArgs = [] ∧ s.argDefaults = [] := by
  intro s' hs'
  obtain ⟨s, -, hfix⟩ := forall₂_left h.signatures.flip s' hs'
  cases hfix with
  | bound _ hdefaults => exact ⟨rfl, hdefaults⟩
  | default _ hbinds => exact ⟨hbinds, rfl⟩

/-- A signature with defaults gives one to the last parameter. -/
theorem TailOf.defaults (h : TailOf t f q last lit) (hs : s ∈ f.sqlSignatures) (hd : s.argDefaults ≠ []) :
    f.boundArgs = [] ∧ s.boundArgs = [] := by
  obtain ⟨s', -, hfix⟩ := forall₂_left h.signatures s hs
  cases hfix with
  | bound _ hdefaults => exact absurd hdefaults hd
  | default hwhole hbinds => exact ⟨hwhole, hbinds⟩

theorem shortened_eq_some (h : shortened t fixed f = some q) : ∃ last lit, TailOf t f q last lit := by
  rcases Option.or_eq_some_iff.mp h with h | ⟨-, h⟩
  · exact projectBoundTail_eq_some h
  · exact projectBoundTail_eq_some h

/-- The call gives the last parameter of a shortened function an argument, and the longer call is not kept. -/
structure GivenUp (t : Tables) (fns : List Record) (f : Record) (c : Call) : Prop where
  shortened : (shortened t (fixedNames t fns) f).isSome = true
  argument : ∀ last, (inputs f).getLast? = some last → ¬FixedTail f last c
  longer : ¬(t.retired f = true ∧ f.group = "meos_geo_accessor")

theorem lookup_projectedTail (hnames : (fns.map Record.name).Nodup) {n : String} :
    (projectedTail t fns).lookup n = some f ↔
      f ∈ fns ∧ f.name = n ∧ (shortened t (fixedNames t fns) f).isSome = true := by
  have hkeys : (((fns.filter fun f => (shortened t (fixedNames t fns) f).isSome).map fun f => (f.name, f)).map
      Prod.fst).Nodup := by
    rw [List.map_map]
    exact (List.filter_sublist.map Record.name).nodup hnames
  constructor
  · intro h
    rw [projectedTail, dict_of_nodup hkeys] at h
    obtain ⟨l₁, l₂, hsplit, -⟩ := List.lookup_eq_some_iff.mp h
    have hmem : (n, f) ∈ (fns.filter fun f => (shortened t (fixedNames t fns) f).isSome).map fun f => (f.name, f) := by
      rw [hsplit]
      exact List.mem_append_right _ List.mem_cons_self
    obtain ⟨f', hf', heq⟩ := List.mem_map.mp hmem
    obtain ⟨rfl, rfl⟩ := Prod.mk.injEq .. ▸ heq
    exact ⟨List.mem_of_mem_filter hf', rfl, (List.mem_filter.mp hf').2⟩
  · rintro ⟨hf, rfl, hshort⟩
    exact lookup_update_of_mem (d := []) hkeys (List.mem_map_of_mem (List.mem_filter.mpr ⟨hf, hshort⟩))

theorem shortRecords_cases (h : q ∈ shortRecords t fns) : ∃ f ∈ fns,
    (shortened t (fixedNames t fns) f = none ∧ q = ⟨f, none⟩) ∨ shortened t (fixedNames t fns) f = some q := by
  obtain ⟨f, hf, rfl⟩ := List.mem_map.mp h
  refine ⟨f, hf, ?_⟩
  cases hshort : shortened t (fixedNames t fns) f with
  | none => exact .inl ⟨rfl, rfl⟩
  | some q => exact .inr rfl

theorem fullRecords_cases (hnames : (fns.map Record.name).Nodup) (h : q ∈ fullRecords t fns) : ∃ f ∈ fns,
    (shortened t (fixedNames t fns) f).isSome = true ∧ ∃ g : Record, g.name = f.name ∧
      q ∈ keepDeclaredTail t (projectedTail t fns) g := by
  obtain ⟨q', -, hq⟩ := List.mem_flatMap.mp h
  cases hlookup : (projectedTail t fns).lookup q'.record.name with
  | none =>
    rw [keepDeclaredTail, hlookup] at hq
    cases hq
  | some f =>
    obtain ⟨hf, hname, hshort⟩ := (lookup_projectedTail hnames).mp hlookup
    exact ⟨f, hf, hshort, q'.record, hname.symm, hq⟩

/-- A call that gives every argument is one of the record. -/
theorem callable_full (hs : s.WellFormed f) (hp : f.placed s = true) :
    f.callable s s.args.length = true := by
  rw [Record.callable, decide_eq_true_iff, List.drop_eq_nil_of_le (length_defaults hs).le]
  exact ⟨hp, le_rfl, rfl⟩

/-- The full record stands for itself. -/
theorem projectSignatureForms_full (h : TailOf t f q last lit) {shorts : List (String × Record)}
    (hf : shorts.lookup g.name = some f) (hq : q' ∈ keepDeclaredTail t shorts g) :
    projectSignatureForms t q' = [q'] := by
  obtain ⟨-, -, hne, rfl⟩ := (mem_keepDeclaredTail hf).mp hq
  refine projectSignatureForms_plain ?_ fun s' hs' => ?_
  · obtain ⟨s', hs'⟩ := List.exists_mem_of_ne_nil _ hne
    obtain ⟨s, hs, hd, -⟩ := mem_declared.mp hs'
    exact (h.defaults hs hd).1
  · obtain ⟨s, hs, hd, rfl⟩ := mem_declared.mp hs'
    exact ⟨(h.defaults hs hd).2, rfl⟩

/-- A call that gives the last parameter an argument gives every argument of a signature with defaults. -/
theorem TailOf.full_of_not_fixed (h : TailOf t f q last lit) (hwf : f.WellFormed) (ht : t.WellFormed)
    (hc : c ∈ f.calls t) (hfixed : ¬FixedTail f last c) : ∃ s ∈ f.sqlSignatures, s.argDefaults ≠ [] ∧
      f.placed s = true ∧ c = f.call t s s.args.length := by
  obtain ⟨s, hs, m, hm, rfl⟩ := Catalog.mem_calls.mp hc
  obtain ⟨s', -, hfix⟩ := forall₂_left h.signatures s hs
  rw [h.fixedTail_iff] at hfixed
  cases hfix with
  | bound hbinds hdefaults => exact absurd ⟨_, h.operand_of_bound hwf ht hbinds⟩ hfixed
  | default hwhole hbinds hlast hothers hargs =>
    have hd := List.ne_nil_of_mem (List.mem_of_getLast? hlast)
    obtain ⟨hp, hle, hge⟩ := (callable_of_last_default (hwf.signatures s hs) hlast hothers).mp hm
    have hplaced := length_sqlin_of_placed hp
    by_cases hm' : m = s.args.length
    · exact ⟨s, hs, hd, hp, by rw [hm']⟩
    · have hshort : m = (f.sqlin s).length - 1 := by omega
      have hlit := h.operand_of_default hwf ht (hwf.signatures s hs) hwhole hbinds hlast hplaced
      rw [← hshort] at hlit
      exact absurd ⟨_, hlit⟩ hfixed

theorem formedRecords_sound (ht : t.WellFormed) (hwf : ∀ f ∈ fns, f.WellFormed)
    (hnames : (fns.map Record.name).Nodup) (hq : q ∈ formedRecords t fns) (hc : c ∈ q.calls t) :
    ∃ f ∈ fns, c ∈ f.calls t ∧ ¬GivenUp t fns f c := by
  obtain ⟨q', hq', hq⟩ := List.mem_flatMap.mp hq
  rcases List.mem_append.mp hq' with hq' | hq'
  · obtain ⟨f, hf, ⟨hnone, rfl⟩ | hshort⟩ := shortRecords_cases hq'
    · refine ⟨f, hf, (mem_calls_projectSignatureForms (hwf f hf)).mp ⟨q, hq, hc⟩, fun h => ?_⟩
      have hsome := h.shortened
      rw [hnone] at hsome
      cases hsome
    · obtain ⟨last, lit, htail⟩ := shortened_eq_some hshort
      rw [projectSignatureForms_plain htail.boundArgs htail.plain, List.mem_singleton] at hq
      subst hq
      obtain ⟨hmem, hfixed⟩ := (htail.mem_calls (hwf f hf) ht).mp hc
      exact ⟨f, hf, hmem, fun h => h.argument last htail.tail hfixed⟩
  · obtain ⟨f, hf, hshort, g, hname, hfull⟩ := fullRecords_cases hnames hq'
    obtain ⟨q₁, hq₁⟩ := Option.isSome_iff_exists.mp hshort
    obtain ⟨last, lit, htail⟩ := shortened_eq_some hq₁
    have hlookup : (projectedTail t fns).lookup g.name = some f := by
      rw [hname]
      exact (lookup_projectedTail hnames).mpr ⟨hf, rfl, hshort⟩
    rw [projectSignatureForms_full htail hlookup hfull, List.mem_singleton] at hq
    subst hq
    obtain ⟨s, hs, -, hplaced, rfl⟩ := (mem_calls_full hlookup hfull).mp hc
    obtain ⟨hret, hgroup, -⟩ := (mem_keepDeclaredTail hlookup).mp hfull
    exact ⟨f, hf, Catalog.mem_calls.mpr ⟨s, hs, _, callable_full ((hwf f hf).signatures s hs) hplaced, rfl⟩,
      fun h => h.longer ⟨hret, hgroup⟩⟩

/-- The longer call of a shortened function, where it is kept. -/
theorem TailOf.declared_full (h : TailOf t f q last lit) (ht : t.WellFormed) (hwf : f.WellFormed)
    (hnames : (fns.map Record.name).Nodup) (hf : f ∈ fns) (hshort : shortened t (fixedNames t fns) f = some q)
    (hret : t.retired f = true) (hgroup : f.group = "meos_geo_accessor") (hc : c ∈ f.calls t)
    (hfixed : ¬FixedTail f last c) : ∃ q' ∈ formedRecords t fns, c ∈ q'.calls t := by
  obtain ⟨s, hs, hd, hplaced, rfl⟩ := h.full_of_not_fixed hwf ht hc hfixed
  have hlookup : (projectedTail t fns).lookup q.record.name = some f :=
    (lookup_projectedTail hnames).mpr ⟨hf, h.name.symm, by rw [hshort]; rfl⟩
  have hfull := (mem_keepDeclaredTail (t := t) hlookup).mpr
    ⟨hret, hgroup, List.ne_nil_of_mem (mem_declared.mpr ⟨s, hs, hd, rfl⟩), rfl⟩
  have hmem : q ∈ shortRecords t fns := List.mem_map.mpr ⟨f, hf, by rw [hshort]; rfl⟩
  have hin : _ ∈ fullRecords t fns := List.mem_flatMap.mpr ⟨q, hmem, hfull⟩
  refine ⟨_, List.mem_flatMap.mpr ⟨_, List.mem_append_right _ hin, ?_⟩,
    (mem_calls_full hlookup hfull).mpr ⟨s, hs, hd, hplaced, rfl⟩⟩
  rw [projectSignatureForms_full h hlookup hfull]
  exact List.mem_singleton_self _

theorem formedRecords_complete (ht : t.WellFormed) (hwf : ∀ f ∈ fns, f.WellFormed)
    (hnames : (fns.map Record.name).Nodup) (hf : f ∈ fns) (hc : c ∈ f.calls t) (hkept : ¬GivenUp t fns f c) :
    ∃ q ∈ formedRecords t fns, c ∈ q.calls t := by
  cases hshort : shortened t (fixedNames t fns) f with
  | none =>
    have hmem : (⟨f, none⟩ : Projected) ∈ shortRecords t fns := List.mem_map.mpr ⟨f, hf, by rw [hshort]; rfl⟩
    obtain ⟨q, hq, hc⟩ := (mem_calls_projectSignatureForms (hwf f hf)).mpr hc
    exact ⟨q, List.mem_flatMap.mpr ⟨_, List.mem_append_left _ hmem, hq⟩, hc⟩
  | some q =>
    have hmem : q ∈ shortRecords t fns := List.mem_map.mpr ⟨f, hf, by rw [hshort]; rfl⟩
    obtain ⟨last, lit, htail⟩ := shortened_eq_some hshort
    by_cases hfixed : FixedTail f last c
    · have hself : q ∈ projectSignatureForms t q := by
        rw [projectSignatureForms_plain htail.boundArgs htail.plain]
        exact List.mem_singleton_self _
      exact ⟨q, List.mem_flatMap.mpr ⟨q, List.mem_append_left _ hmem, hself⟩,
        (htail.mem_calls (hwf f hf) ht).mpr ⟨hc, hfixed⟩⟩
    · have hlonger : t.retired f = true ∧ f.group = "meos_geo_accessor" := by
        by_contra hother
        refine hkept ⟨by rw [hshort]; rfl, fun last' hlast' => ?_, hother⟩
        obtain rfl := Option.some.inj (htail.tail.symm.trans hlast')
        exact hfixed
      exact htail.declared_full ht (hwf f hf) hnames hf hshort hlonger.1 hlonger.2 hc hfixed

/-! ### A small catalog -/

def geoTables : Tables where
  enumMembers _ := []
  enumReader _ := none
  macroValues _ := none
  retiredGroups := ["meos_geo_accessor", "meos_setspan_constructor", "meos_raster_base_constructor"]
  ownShape _ := false
  wordChars v := String.ofList ((v.toList.filter fun c => c.isAlphanum || c = '_').map Char.toLower)

/-- The length on the spheroid, which the planar types fix and the geographic ones give by default. -/
def tpointLength : Record where
  name := "tpoint_length"
  api := "public"
  group := "meos_geo_accessor"
  sqlfn := some "length"
  params := [⟨"temp", ⟨"Temporal", 1⟩⟩, ⟨"spheroid", ⟨"bool", 0⟩⟩]
  outParams := []
  boundArgs := []
  sqlArgParams := none
  sqlSignatures := [
    ⟨["tgeompoint"], "float", none, [("spheroid", "true")], [], [], [], none⟩,
    ⟨["tgeogpoint", "boolean"], "float", none, [], [none, some "true"], [], [], none⟩]

/-- The bounds of a span, both with defaults. -/
def intspanMake : Record where
  name := "intspan_make"
  api := "public"
  group := "meos_setspan_constructor"
  sqlfn := some "span"
  params := [⟨"lower", ⟨"int", 0⟩⟩, ⟨"upper", ⟨"int", 0⟩⟩, ⟨"lower_inc", ⟨"bool", 0⟩⟩, ⟨"upper_inc", ⟨"bool", 0⟩⟩]
  outParams := []
  boundArgs := []
  sqlArgParams := none
  sqlSignatures := [⟨["integer", "integer", "boolean", "boolean"], "intspan", none, [],
    [none, none, some "true", some "false"], [], [], none⟩]

def temporalInstants : Record where
  name := "temporal_instants"
  api := "public"
  group := "meos_temporal_accessor"
  sqlfn := some "instants"
  params := [⟨"temp", ⟨"Temporal", 1⟩⟩, ⟨"count", ⟨"int", 1⟩⟩]
  outParams := ["count"]
  boundArgs := []
  sqlArgParams := none
  sqlSignatures := [⟨["tint"], "tint[]", none, [], [], [], [], none⟩,
    ⟨["trgeometry"], "trgeometry[]", none, [], [], [], [], none⟩]

def trgeometryInstants : Record :=
  { temporalInstants with
    name := "trgeometry_instants"
    sqlSignatures := [⟨["trgeometry"], "trgeometry[]", none, [], [], [], [], none⟩] }

/-- The nodata value is read as two parameters, itself and a flag, and NULL binds both. -/
def rasterAddBand : Record where
  name := "raster_add_band"
  api := "public"
  group := "meos_raster_base_constructor"
  sqlfn := some "addBand"
  params := [⟨"rast", ⟨"Raster", 1⟩⟩, ⟨"index", ⟨"int", 0⟩⟩, ⟨"pixeltype", ⟨"char", 1⟩⟩,
    ⟨"initialvalue", ⟨"double", 0⟩⟩, ⟨"nodataval", ⟨"double", 0⟩⟩, ⟨"has_nodata", ⟨"bool", 0⟩⟩]
  outParams := []
  boundArgs := []
  sqlArgParams := none
  sqlSignatures := [⟨["raster", "integer", "text", "float", "float"], "raster", none, [],
    [none, none, none, some "0", some "NULL"], [(4, [("nodataval", "0.0"), ("has_nodata", "false")])],
    [(4, [("has_nodata", "true")])], none⟩]

def geoCatalog : List Record :=
  [tpointLength, intspanMake, temporalInstants, trgeometryInstants, rasterAddBand]

def lengthCall : Call := ⟨some "length", ["tgeogpoint", "boolean"], "float", "tpoint_length", [.arg 0, .arg 1]⟩

def spanCall : Call :=
  ⟨some "span", ["integer", "integer"], "intspan", "intspan_make",
    [.arg 0, .arg 1, .lit (some "true"), .lit (some "false")]⟩

theorem Bindable.of_not_null {binds : Binds} (hkeys : (binds.map Prod.fst).Nodup)
    (hinputs : ∀ n ∈ binds.map Prod.fst, n ∉ f.outParams) (hnull : ∀ b ∈ binds, isNull b.2 = false) :
    Bindable f binds :=
  ⟨hkeys, hinputs, fun p _ _ raw hmem => hnull (p.name, raw) hmem⟩

theorem geoTables_wellFormed : geoTables.WellFormed := ⟨fun _ _ => rfl, fun _ _ => rfl⟩

theorem geoCatalog_wellFormed : ∀ f ∈ geoCatalog, f.WellFormed := by
  intro f hf
  have hsigs : ∀ f ∈ geoCatalog, ∀ s ∈ f.sqlSignatures,
      (s.nullDefaultBinds = [] ∨ (f.sqlin s).length ≠ s.args.length) ∧
      (s.argDefaults = [] ∨ s.argDefaults.length = s.args.length) ∧ (s.boundArgs.map Prod.fst).Nodup ∧
      (∀ n ∈ s.boundArgs.map Prod.fst, n ∉ f.outParams) ∧ ∀ b ∈ s.boundArgs, isNull b.2 = false := by decide
  have hwhole : ∀ f ∈ geoCatalog, f.names.Nodup ∧ f.boundArgs = [] := by decide
  obtain ⟨hnames, hnil⟩ := hwhole f hf
  refine ⟨hnames, ?_, fun s hs => ?_⟩
  · rw [hnil]
    exact .of_not_null List.nodup_nil (by simp) (by simp)
  · obtain ⟨hnull, hdefaults, hkeys, hinputs, hbound⟩ := hsigs f hf s hs
    refine ⟨.of_not_null hkeys hinputs hbound, hdefaults, fun hplaced pos binds h => ?_⟩
    rw [hnull.resolve_right (not_not.mpr hplaced)] at h
    cases h

/-! ### What is declared -/

/-- The generator declares no call that the catalog does not, and none that is given up. -/
theorem projectRecords_sound (ht : t.WellFormed) (hwf : ∀ f ∈ fns, f.WellFormed)
    (hnames : (fns.map Record.name).Nodup) (hq : q ∈ projectRecords t fns) (hc : c ∈ q.calls t) :
    ∃ f ∈ fns, c ∈ f.calls t ∧ ¬GivenUp t fns f c := by
  obtain ⟨q', hq', hc⟩ := mem_calls_of_yield hq hc
  exact formedRecords_sound ht hwf hnames hq' hc

theorem projectRecords_sound_length : ∃ q ∈ projectRecords geoTables geoCatalog, lengthCall ∈ q.calls geoTables ∧
    ∃ f ∈ geoCatalog, lengthCall ∈ f.calls geoTables ∧ ¬GivenUp geoTables geoCatalog f lengthCall := by
  have hnames : (geoCatalog.map Record.name).Nodup := by decide
  have hcalls : ∃ q ∈ projectRecords geoTables geoCatalog, lengthCall ∈ q.calls geoTables := by decide
  obtain ⟨q, hq, hc⟩ := hcalls
  exact ⟨q, hq, hc, projectRecords_sound geoTables_wellFormed geoCatalog_wellFormed hnames hq hc⟩

/-- Each call of the catalog is declared, or given up, or left to a type's own function. -/
theorem projectRecords_complete (ht : t.WellFormed) (hwf : ∀ f ∈ fns, f.WellFormed)
    (hnames : (fns.map Record.name).Nodup) (hf : f ∈ fns) (hc : c ∈ f.calls t) (hkept : ¬GivenUp t fns f c) :
    (∃ q ∈ projectRecords t fns, c ∈ q.calls t) ∨ Superseded (projectRecords t fns) c := by
  obtain ⟨q, hq, hc⟩ := formedRecords_complete ht hwf hnames hf hc hkept
  exact calls_yield hq hc

theorem projectRecords_complete_span : spanCall ∈ intspanMake.calls geoTables ∧
    ((∃ q ∈ projectRecords geoTables geoCatalog, spanCall ∈ q.calls geoTables) ∨
      Superseded (projectRecords geoTables geoCatalog) spanCall) := by
  have hnames : (geoCatalog.map Record.name).Nodup := by decide
  have hmem : intspanMake ∈ geoCatalog := by decide
  have hcall : spanCall ∈ intspanMake.calls geoTables := by decide
  have hwhole : shortened geoTables (fixedNames geoTables geoCatalog) intspanMake = none := by decide
  refine ⟨hcall, projectRecords_complete geoTables_wellFormed geoCatalog_wellFormed hnames hmem hcall fun h => ?_⟩
  have hsome := h.shortened
  rw [hwhole] at hsome
  cases hsome

end Catalog
end MobilityDuck
