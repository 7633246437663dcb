/-
# The forms of a signature

A signature that binds parameters, or lets several arguments be left out, is taken
apart into forms, one for each set of parameters that are fixed. A form takes the
first arguments, and its function forwards them with the literals of the others, so
a call of the form is a call of the signature (`apply_call_form`). The calls of the
forms and of the signatures that are kept are then those of the record, whether it
is taken apart or stands for itself (`mem_calls_projectSignatureForms`).

Key theorems: `fixes_form`, `apply_call_form`, `callable_form`, `mem_calls_projectSignatureForms`.
-/
import MobilityDuck.CatalogProjection

namespace MobilityDuck
namespace Catalog

open Lib

variable {t : Tables} {f : Record} {s : Signature}

/-! ### What is placed -/

@[simp] theorem placing_params : (f.placing t s).params = f.names := rfl

theorem lookup_bound_eq_none {n : String} :
    (update f.boundArgs s.boundArgs).lookup n = none ↔ n ∉ f.boundArgs.map Prod.fst ∧ n ∉ s.boundArgs.map Prod.fst := by
  rw [lookup_eq_none, mem_keys_update, not_or]

theorem facing_placing : (f.placing t s).facing = f.sqlin s := by
  refine List.filter_congr fun n _ => ?_
  show (!(decide (n ∈ f.outParams)) && (((update f.boundArgs s.boundArgs).lookup n).map (f.literal t n)).isNone) = _
  rw [Option.isNone_map]

theorem mem_sqlin {n : String} : n ∈ f.sqlin s ↔
    n ∈ f.names ∧ n ∉ f.outParams ∧ n ∉ f.boundArgs.map Prod.fst ∧ n ∉ s.boundArgs.map Prod.fst := by
  rw [Record.sqlin, List.mem_filter, Bool.and_eq_true, Option.isNone_iff_eq_none, lookup_bound_eq_none]
  simp

theorem map_facing : (facing t f s).map Param.name = f.sqlin s := by
  have hkeys : ∀ n, n ∉ f.boundArgs.map Prod.fst →
      (n ∈ (boundOf t f s).map Prod.fst ↔ n ∈ s.boundArgs.map Prod.fst) := by
    intro n hn
    rw [boundOf, mem_keys_update]
    by_cases hown : t.ownShape f = true
    · simp [hown]
    · simp [hown, hn]
  rw [facing, inputs, List.filter_filter, List.filter_filter, Record.sqlin, Record.names, List.filter_map]
  refine congrArg (List.map Param.name) (List.filter_congr fun p _ => ?_)
  rw [Function.comp_apply]
  by_cases hwhole : p.name ∈ f.boundArgs.map Prod.fst
  · have hsome : ((update f.boundArgs s.boundArgs).lookup p.name).isNone = false := by
      rw [Option.isNone_eq_false_iff, Option.isSome_iff_ne_none]
      exact fun h => (lookup_bound_eq_none.mp h).1 hwhole
    rw [hsome]
    simp [hwhole]
  · have hiff := hkeys _ hwhole
    by_cases hs : p.name ∈ s.boundArgs.map Prod.fst
    · have hsome : ((update f.boundArgs s.boundArgs).lookup p.name).isNone = false := by
        rw [Option.isNone_eq_false_iff, Option.isSome_iff_ne_none]
        exact fun h => (lookup_bound_eq_none.mp h).2 hs
      rw [hsome, decide_eq_true (hiff.mpr hs)]
      simp
    · have hnone := lookup_bound_eq_none.mpr ⟨hwhole, hs⟩
      rw [hnone, decide_eq_false (fun h => hs (hiff.mp h)), decide_eq_false hwhole]
      simp

theorem nodup_sqlin (hwf : f.WellFormed) : (f.sqlin s).Nodup := hwf.names.filter _

theorem literal_eq {g : Record} (hnames : g.names.Nodup) {p : Param} (hp : p ∈ g.params) (raw : String) :
    g.literal t p.name raw = forwardLiteral t p raw := by
  have hfind : g.params.find? (fun p' => p'.name = p.name) = some p := by
    rw [Record.names] at hnames
    revert hnames hp
    generalize g.params = ps
    intro hnames hp
    induction ps with
    | nil => cases hp
    | cons p' ps ih =>
      rw [List.map_cons, List.nodup_cons] at hnames
      rcases List.mem_cons.mp hp with rfl | hp
      · simp
      · have hne : p'.name ≠ p.name := fun h => hnames.1 (h ▸ List.mem_map_of_mem hp)
        rw [List.find?_cons_of_neg (by simpa using hne)]
        exact ih hnames.2 hp
  rw [Record.literal, hfind]
  rfl

/-- A literal is the same for a subtype and for a temporal value: a pointer has none but NULL. -/
theorem forwardLiteral_castSubtype (p : Param) (raw : String) :
    forwardLiteral t (castSubtype p) raw = forwardLiteral t p raw := by
  unfold castSubtype
  by_cases h : p.type.base ∈ ["TInstant", "TSequence", "TSequenceSet"] ∧ p.type.pointers = 1
  · rw [if_pos h]
    obtain ⟨hbase, hptr⟩ := h
    have hinterval : p.type.base ≠ "Interval" := by
      rintro heq
      rw [heq] at hbase
      revert hbase
      decide
    simp [forwardLiteral, hptr, hinterval]
  · rw [if_neg h]

@[simp] theorem name_castSubtype (p : Param) : (castSubtype p).name = p.name := by
  unfold castSubtype
  by_cases h : p.type.base ∈ ["TInstant", "TSequence", "TSequenceSet"] ∧ p.type.pointers = 1
  · rw [if_pos h]
  · rw [if_neg h]

/-! ### What is left out -/

theorem length_defaults (hs : s.WellFormed f) : s.defaults.length = s.args.length := by
  rw [Signature.defaults]
  by_cases h : s.argDefaults = []
  · rw [if_pos h, List.length_replicate]
  · rw [if_neg h]
    exact hs.defaults.resolve_left h

/-- The last arguments that can be left out have defaults. -/
theorem all_isSome_drop {k : ℕ} (hk : k ≤ trailing s) :
    (s.defaults.drop (s.defaults.length - k)).all Option.isSome = true := by
  have hfirst := List.prefix_iff_eq_take.mp (List.takeWhile_prefix Option.isSome (l := s.defaults.reverse))
  have hrev : (s.defaults.drop (s.defaults.length - k)).reverse = s.defaults.reverse.take k := List.take_reverse.symm
  have htake : s.defaults.reverse.take k = (s.defaults.reverse.takeWhile Option.isSome).take k := by
    conv_rhs => rw [hfirst]
    rw [List.take_take]
    exact (congrArg (s.defaults.reverse.take ·) (Nat.min_eq_left hk)).symm
  rw [← List.all_reverse, hrev, htake, List.all_eq_true]
  exact fun d hd => List.all_eq_true.mp List.all_takeWhile d (List.mem_of_mem_take hd)

/-- What is left out binds its own parameter. -/
theorem omitted_eq (hs : s.WellFormed f) (hplaced : (f.sqlin s).length = s.args.length) {pos : ℕ} {n : String} (hpos : (f.sqlin s)[pos]? = some n)
    (hd : (s.defaults.getD pos none).isSome = true) : ∃ raw, s.omitted pos n = [(n, raw)] := by
  obtain ⟨d, hd⟩ := Option.isSome_iff_exists.mp hd
  rw [Signature.omitted, hd]
  by_cases hnull : isNull d = true
  · cases hbinds : s.nullDefaultBinds.lookup pos with
    | none =>
      refine ⟨d, ?_⟩
      simp [hnull]
    | some binds =>
      obtain ⟨raw, rfl⟩ := hs.nullBinds hplaced pos binds hbinds n hpos
      refine ⟨raw, ?_⟩
      simp [hnull]
  · refine ⟨d, ?_⟩
    simp [hnull]

/-- What the last arguments bind when they are left out. -/
def lastBinds (t : Tables) (f : Record) (s : Signature) (k : ℕ) : Binds :=
  (((facing t f s).drop ((facing t f s).length - k)).zipIdx (s.defaults.length - k)).map fun x =>
    (x.1.name, ((s.omitted x.2 x.1.name).lookup x.1.name).getD "")

section Left

variable {k : ℕ} (hs : s.WellFormed f) (hplaced : (f.sqlin s).length = s.args.length) (hk : k ≤ trailing s)

include hs hk in
theorem le_length_of_trailing : k ≤ s.args.length := by
  have hlen := (List.takeWhile_prefix Option.isSome (l := s.defaults.reverse)).length_le
  rw [List.length_reverse, length_defaults hs] at hlen
  exact hk.trans hlen

include hplaced in
theorem length_facing : (facing t f s).length = s.args.length := by
  rw [← hplaced, ← map_facing (t := t), List.length_map]

/-- Where a parameter stands among those whose arguments are left out. -/
theorem mem_last {x : Param × ℕ} (hs : s.WellFormed f) (hplaced : (f.sqlin s).length = s.args.length)
    (hk : k ≤ trailing s)
    (hx : x ∈ ((facing t f s).drop ((facing t f s).length - k)).zipIdx (s.defaults.length - k)) :
    s.args.length - k ≤ x.2 ∧ x.2 < s.args.length ∧ (f.sqlin s)[x.2]? = some x.1.name := by
  obtain ⟨hle, hget⟩ := List.mk_mem_zipIdx_iff_le_and_getElem?_sub.mp hx
  rw [length_defaults hs] at hle hget
  rw [length_facing hplaced, List.getElem?_drop] at hget
  have hkl := le_length_of_trailing hs hk
  have hidx : s.args.length - k + (x.2 - (s.args.length - k)) = x.2 := by omega
  rw [hidx] at hget
  have hlt : x.2 < s.args.length := by
    have := (List.getElem?_eq_some_iff.mp hget).1
    rwa [length_facing hplaced] at this
  refine ⟨hle, hlt, ?_⟩
  rw [← map_facing (t := t), List.getElem?_map, hget]
  rfl

theorem omitted_last {x : Param × ℕ} (hs : s.WellFormed f) (hplaced : (f.sqlin s).length = s.args.length)
    (hk : k ≤ trailing s)
    (hx : x ∈ ((facing t f s).drop ((facing t f s).length - k)).zipIdx (s.defaults.length - k)) :
    s.omitted x.2 x.1.name = [(x.1.name, ((s.omitted x.2 x.1.name).lookup x.1.name).getD "")] := by
  obtain ⟨hle, hlt, hpos⟩ := mem_last hs hplaced hk hx
  have hall := all_isSome_drop hk
  rw [length_defaults hs, List.all_eq_true] at hall
  have hlt' : x.2 < s.defaults.length := by rwa [length_defaults hs]
  have hd : (s.defaults.getD x.2 none).isSome = true := by
    rw [List.getD_eq_getElem _ _ hlt']
    refine hall _ ?_
    refine List.mem_drop_iff_getElem.mpr ⟨x.2 - (s.args.length - k), by omega, ?_⟩
    congr 1
    omega
  obtain ⟨raw, hraw⟩ := omitted_eq hs hplaced hpos hd
  rw [hraw]
  simp

theorem fixedFor_eq (hs : s.WellFormed f) (hplaced : (f.sqlin s).length = s.args.length) (hk : k ≤ trailing s) :
    fixedFor t f s k = update (boundOf t f s) (lastBinds t f s k) := by
  rw [lastBinds, ← foldl_update]
  exact List.foldl_ext _ _ _ fun fixed x hx => by rw [← omitted_last hs hplaced hk hx]

theorem keys_lastBinds (t : Tables) (hplaced : (f.sqlin s).length = s.args.length) :
    (lastBinds t f s k).map Prod.fst = (f.sqlin s).drop (s.args.length - k) := by
  rw [lastBinds, List.map_map]
  show List.map (Param.name ∘ Prod.fst) _ = _
  rw [← List.map_map, List.zipIdx_map_fst, List.map_drop, map_facing, length_facing hplaced]

end Left

/-! ### What a form fixes -/

theorem lookup_key {fixed : Binds} (hnodup : (fixed.map Prod.fst).Nodup) (n : String) :
    (key fixed).lookup n = fixed.lookup n :=
  lookup_of_perm (List.perm_insertionSort _ fixed).symm hnodup n

theorem mem_keys_key {fixed : Binds} {n : String} : n ∈ (key fixed).map Prod.fst ↔ n ∈ fixed.map Prod.fst :=
  ((List.perm_insertionSort _ fixed).map Prod.fst).mem_iff

theorem nodup_boundOf (hwf : f.WellFormed) : ((boundOf t f s).map Prod.fst).Nodup := by
  refine nodup_update ?_ _
  by_cases hown : t.ownShape f = true
  · simp [hown]
  · simp [hown, hwf.bound.keys]

theorem mem_keys_boundOf {n : String} (h : n ∈ (boundOf t f s).map Prod.fst) :
    n ∈ f.boundArgs.map Prod.fst ∨ n ∈ s.boundArgs.map Prod.fst := by
  rw [boundOf, mem_keys_update] at h
  by_cases hown : t.ownShape f = true
  · simp [hown] at h
    exact .inr (by simpa using h)
  · rw [if_neg hown] at h
    exact h

/-- What is bound is what the signature places. -/
theorem lookup_boundOf (hs : s.WellFormed f) {n : String} (h : n ∈ (boundOf t f s).map Prod.fst) :
    (boundOf t f s).lookup n = (update f.boundArgs s.boundArgs).lookup n := by
  rw [boundOf]
  by_cases hmem : n ∈ s.boundArgs.map Prod.fst
  · obtain ⟨⟨n', raw⟩, hraw, rfl⟩ := List.mem_map.mp hmem
    rw [lookup_update_of_mem hs.bound.keys hraw, lookup_update_of_mem hs.bound.keys hraw]
  · rw [lookup_update_of_notMem hmem, lookup_update_of_notMem hmem]
    by_cases hown : t.ownShape f = true
    · rw [boundOf, mem_keys_update, if_pos hown] at h
      exact absurd (h.resolve_left (by simp)) hmem
    · rw [if_neg hown]

section Fixed

variable {k : ℕ}

/-- What the form fixes of `s` that leaves out `k` arguments, sorted. -/
abbrev fixedKey (t : Tables) (f : Record) (s : Signature) (k : ℕ) : Binds := key (fixedFor t f s k)

theorem nodup_fixedFor (hwf : f.WellFormed) (hs : s.WellFormed f) (hplaced : (f.sqlin s).length = s.args.length)
    (hk : k ≤ trailing s) : ((fixedFor t f s k).map Prod.fst).Nodup := by
  rw [fixedFor_eq hs hplaced hk]
  exact nodup_update (nodup_boundOf hwf) _

theorem mem_keys_fixed (hs : s.WellFormed f) (hplaced : (f.sqlin s).length = s.args.length)
    (hk : k ≤ trailing s) {n : String} :
    n ∈ (fixedKey t f s k).map Prod.fst ↔
      n ∈ (boundOf t f s).map Prod.fst ∨ n ∈ (f.sqlin s).drop (s.args.length - k) := by
  rw [mem_keys_key, fixedFor_eq hs hplaced hk, mem_keys_update, keys_lastBinds t hplaced]

theorem lookup_fixed_last (hwf : f.WellFormed) (hs : s.WellFormed f) (hplaced : (f.sqlin s).length = s.args.length)
    (hk : k ≤ trailing s) {n : String} (hn : n ∈ (f.sqlin s).drop (s.args.length - k)) :
    ∃ raw, (fixedKey t f s k).lookup n = some raw ∧
      (s.omitted ((f.sqlin s).idxOf n) n).lookup n = some raw := by
  have hkeys := keys_lastBinds (k := k) t hplaced
  have hnodup : ((lastBinds t f s k).map Prod.fst).Nodup := by
    rw [hkeys]
    exact (nodup_sqlin hwf).sublist (List.drop_sublist _ _)
  rw [← hkeys] at hn
  obtain ⟨b, hb, rfl⟩ := List.mem_map.mp hn
  obtain ⟨x, hx, rfl⟩ := List.mem_map.mp hb
  obtain ⟨-, hlt, hpos⟩ := mem_last hs hplaced hk hx
  have homitted := omitted_last hs hplaced hk hx
  have hidx : (f.sqlin s).idxOf x.1.name = x.2 := by
    obtain ⟨hlt', hget⟩ := List.getElem?_eq_some_iff.mp hpos
    rw [← hget, (nodup_sqlin hwf).idxOf_getElem]
  refine ⟨((s.omitted x.2 x.1.name).lookup x.1.name).getD "", ?_, ?_⟩
  · rw [lookup_key (nodup_fixedFor hwf hs hplaced hk), fixedFor_eq hs hplaced hk]
    exact lookup_update_of_mem hnodup hb
  · dsimp only
    rw [hidx, homitted]
    simp

theorem lookup_fixed_bound (hwf : f.WellFormed) (hs : s.WellFormed f) (hplaced : (f.sqlin s).length = s.args.length)
    (hk : k ≤ trailing s) {n : String} (hn : n ∉ (f.sqlin s).drop (s.args.length - k)) :
    (fixedKey t f s k).lookup n = (boundOf t f s).lookup n := by
  rw [lookup_key (nodup_fixedFor hwf hs hplaced hk), fixedFor_eq hs hplaced hk]
  exact lookup_update_of_notMem (by rwa [keys_lastBinds t hplaced])

end Fixed

/-! ### The calls of a form -/

section Form

variable {k m : ℕ} {all : List (Binds × List Signature)} {fsigs : List Signature}

/-- The record of the form. -/
abbrev formOfKey (t : Tables) (f : Record) (s : Signature) (k : ℕ) (all : List (Binds × List Signature))
    (fsigs : List Signature) : Projected := formRecord t f all (fixedKey t f s k, fsigs)

theorem names_form : (formOfKey t f s k all fsigs).record.names =
    f.names.filter fun n => !(n ∈ (fixedKey t f s k).map Prod.fst : Bool) := by
  rw [Record.names, Record.names, List.filter_map]
  show List.map Param.name (List.map castSubtype _) = _
  rw [List.map_map]
  exact List.map_congr_left fun p _ => name_castSubtype p

theorem nodup_names_form (hwf : f.WellFormed) : (formOfKey t f s k all fsigs).record.names.Nodup := by
  rw [names_form]
  exact hwf.names.filter _

/-- A parameter that is left has the same literals. -/
theorem literal_form (hwf : f.WellFormed) {n : String} (hn : n ∈ (formOfKey t f s k all fsigs).record.names)
    (raw : String) : (formOfKey t f s k all fsigs).record.literal t n raw = f.literal t n raw := by
  obtain ⟨p', hp', rfl⟩ := List.mem_map.mp hn
  rw [literal_eq (nodup_names_form hwf) hp']
  obtain ⟨p, hp, rfl⟩ := List.mem_map.mp hp'
  rw [name_castSubtype, literal_eq hwf.names (List.mem_of_mem_filter hp)]
  exact forwardLiteral_castSubtype p raw

/-- What the form fixes, with the literals in C++. -/
def fixedLit (t : Tables) (f : Record) (s : Signature) (k : ℕ) (n : String) : Option (Option String) :=
  ((fixedKey t f s k).lookup n).map (f.literal t n)

theorem fixedLit_eq_none {n : String} : fixedLit t f s k n = none ↔ n ∉ (fixedKey t f s k).map Prod.fst := by
  rw [fixedLit, Option.map_eq_none_iff, lookup_eq_none]

theorem forward_form (all : List (Binds × List Signature)) (fsigs : List Signature) (hwf : f.WellFormed) :
    (formOfKey t f s k all fsigs).forward = some ⟨f.name, forward (fixedLit t f s k) f.names⟩ := by
  have hparams : forward (literalOf t (fixedKey t f s k)) f.params =
      forward (fun p => fixedLit t f s k p.name) f.params := by
    refine forward_congr fun p hp => ?_
    rw [literalOf, fixedLit]
    cases (fixedKey t f s k).lookup p.name with
    | none => rfl
    | some raw => exact congrArg some (literal_eq hwf.names hp raw).symm
  show some (⟨f.name, forward (literalOf t (fixedKey t f s k)) f.params⟩ : Forward) = _
  rw [hparams, forward_map Param.name hwf.names]
  rfl

theorem fixes_form (t : Tables) (all : List (Binds × List Signature)) (fsigs : List Signature)
    (hwf : f.WellFormed) (hs : s.WellFormed f) (hplaced : (f.sqlin s).length = s.args.length)
    (hk : k ≤ trailing s) :
    Placing.Fixes (f.placing t s) ((formOfKey t f s k all fsigs).record.placing t (formOf f s k)) (fixedLit t f s k)
      (s.args.length - k) where
  params := by
    show (formOfKey t f s k all fsigs).record.names = remaining (fixedLit t f s k) f.names
    rw [names_form, remaining]
    refine List.filter_congr fun n _ => ?_
    by_cases hn : n ∈ (fixedKey t f s k).map Prod.fst
    · have hsome : (fixedLit t f s k n).isNone = false := by
        rw [Option.isNone_eq_false_iff, Option.isSome_iff_ne_none]
        exact fun h => fixedLit_eq_none.mp h hn
      rw [hsome, decide_eq_true hn]
      rfl
    · rw [fixedLit_eq_none.mpr hn, decide_eq_false hn]
      rfl
  out _ _ := rfl
  bound n hn := by
    have hleft : n ∉ (fixedKey t f s k).map Prod.fst := by
      have hn' : n ∈ (formOfKey t f s k all fsigs).record.names := hn
      rw [names_form, List.mem_filter] at hn'
      simpa using hn'.2
    rw [mem_keys_fixed hs hplaced hk, not_or] at hleft
    have hsig : n ∉ s.boundArgs.map Prod.fst := by
      intro hmem
      refine hleft.1 ?_
      rw [boundOf, mem_keys_update]
      exact .inr hmem
    show ((update f.boundArgs []).lookup n).map _ = ((update f.boundArgs s.boundArgs).lookup n).map _
    rw [lookup_update_of_notMem hsig, lookup_update_of_notMem (by simp)]
    cases f.boundArgs.lookup n with
    | none => rfl
    | some raw => exact congrArg some (literal_form hwf hn raw)
  first n hn := by
    rw [facing_placing] at hn ⊢
    have hfree : n ∉ (boundOf t f s).map Prod.fst := by
      intro hmem
      obtain ⟨-, -, hwhole, hsig⟩ := mem_sqlin.mp hn
      exact (mem_keys_boundOf hmem).elim hwhole hsig
    have hsplit := List.take_append_drop (s.args.length - k) (f.sqlin s)
    have hdisjoint : n ∈ (f.sqlin s).take (s.args.length - k) → n ∉ (f.sqlin s).drop (s.args.length - k) := by
      have hnodup := nodup_sqlin (s := s) hwf
      rw [← hsplit] at hnodup
      exact fun hp hp' => (List.nodup_append.mp hnodup).2.2 n hp n hp' rfl
    rw [fixedLit_eq_none, mem_keys_fixed hs hplaced hk, not_or]
    constructor
    · rintro ⟨-, hlast⟩
      rw [← hsplit, List.mem_append] at hn
      exact hn.resolve_right hlast
    · exact fun htake => ⟨hfree, hdisjoint htake⟩

/-- What is fixed is what the signature places. -/
theorem operand_fixed (hwf : f.WellFormed) (hs : s.WellFormed f) (hplaced : (f.sqlin s).length = s.args.length)
    (hk : k ≤ trailing s) (hm : m ≤ s.args.length - k) {n : String} {l : Option String}
    (hn : fixedLit t f s k n = some l) : (f.placing t s).operand m n = .lit l := by
  have hmem : n ∈ (fixedKey t f s k).map Prod.fst := by
    by_contra h
    rw [fixedLit_eq_none.mpr h] at hn
    cases hn
  by_cases hlast : n ∈ (f.sqlin s).drop (s.args.length - k)
  · obtain ⟨raw, hraw, homitted⟩ := lookup_fixed_last (t := t) hwf hs hplaced hk hlast
    have hfacing : n ∈ (f.placing t s).facing.drop (s.args.length - k) := by rwa [facing_placing]
    rw [Placing.operand_drop hwf.names hm hfacing]
    rw [fixedLit, hraw] at hn
    show Operand.lit (((s.omitted ((f.sqlin s).idxOf n) n).lookup n).bind (f.literal t n)) = _
    rw [homitted]
    exact congrArg Operand.lit (Option.some.inj hn)
  · rw [mem_keys_fixed hs hplaced hk] at hmem
    have hbound := hmem.resolve_right hlast
    have hinput : n ∉ f.outParams := (mem_keys_boundOf hbound).elim (hwf.bound.inputs n) (hs.bound.inputs n)
    rw [fixedLit, lookup_fixed_bound hwf hs hplaced hk hlast, lookup_boundOf hs hbound] at hn
    exact Placing.operand_bound (decide_eq_false hinput) hn

theorem sqlin_form (t : Tables) (all : List (Binds × List Signature)) (fsigs : List Signature)
    (hwf : f.WellFormed) (hs : s.WellFormed f) (hplaced : (f.sqlin s).length = s.args.length)
    (hk : k ≤ trailing s) :
    (formOfKey t f s k all fsigs).record.sqlin (formOf f s k) = (f.sqlin s).take (s.args.length - k) := by
  have h := (fixes_form t all fsigs hwf hs hplaced hk).facing_eq hwf.names
  rwa [facing_placing, facing_placing] at h

theorem args_form : (formOf f s k).args = s.args.take (s.args.length - k) := rfl

theorem omitted_form_zero : (formOf f s 0).omitted = s.omitted := by
  have hargs : (formOf f s 0).args = s.args := List.take_length
  have hdefaults : (formOf f s 0).defaults = s.defaults := by
    show (if s.argDefaults = [] then List.replicate (formOf f s 0).args.length none else s.argDefaults) = _
    rw [hargs]
    rfl
  funext pos n
  rw [Signature.omitted, Signature.omitted, hdefaults]
  rfl

/-- A call of the form forwards to the call of the signature. -/
theorem apply_call_form (hwf : f.WellFormed) (hs : s.WellFormed f) (hplaced : (f.sqlin s).length = s.args.length)
    (hk : k ≤ trailing s) (hm : m ≤ s.args.length - k) (hform : k = 0 ∨ m = s.args.length - k)
    (hname : f.sqlfn.isSome = true) :
    (⟨f.name, forward (fixedLit t f s k) f.names⟩ : Forward).apply
      ((formOfKey t f s k all fsigs).record.call t (formOf f s k) m) = f.call t s m := by
  have hsqlin := sqlin_form t all fsigs hwf hs hplaced hk
  have hdefault : ∀ n ∈ ((formOfKey t f s k all fsigs).record.placing t (formOf f s k)).facing,
      m ≤ ((formOfKey t f s k all fsigs).record.placing t (formOf f s k)).facing.idxOf n →
      ((formOfKey t f s k all fsigs).record.placing t (formOf f s k)).default n = (f.placing t s).default n := by
    intro n hn hle
    have hmem : n ∈ (formOfKey t f s k all fsigs).record.names := (Placing.mem_facing.mp hn).1
    have hlt := List.idxOf_lt_length_of_mem hn
    rw [facing_placing] at hn hle hlt
    rcases hform with rfl | rfl
    · show (((formOf f s 0).omitted (((formOfKey t f s 0 all fsigs).record.sqlin (formOf f s 0)).idxOf n) n).lookup
          n).bind ((formOfKey t f s 0 all fsigs).record.literal t n) =
          ((s.omitted ((f.sqlin s).idxOf n) n).lookup n).bind (f.literal t n)
      rw [omitted_form_zero, hsqlin, Nat.sub_zero, ← hplaced, List.take_length]
      congr 1
      funext raw
      exact literal_form hwf hmem raw
    · rw [hsqlin] at hlt hle
      rw [List.length_take] at hlt
      omega
  have hcall := Placing.call_forward (m := m) (fixes_form t all fsigs hwf hs hplaced hk) hwf.names
    (fun n _ l hn => operand_fixed hwf hs hplaced hk hm hn) hdefault
  have hargs : (s.args.take (s.args.length - k)).take m = s.args.take m := by
    rw [List.take_take, Nat.min_eq_left hm]
  have hsqlName : (s.sqlName.or f.sqlfn).or (formOfKey t f s k all fsigs).record.sqlfn = s.sqlName.or f.sqlfn := by
    cases s.sqlName with
    | some name => rfl
    | none =>
      obtain ⟨name, hname⟩ := Option.isSome_iff_exists.mp hname
      rw [hname]
      rfl
  have hoperands : ((forward (fixedLit t f s k) f.names).map
      (Passed.pass (((formOfKey t f s k all fsigs).record.placing t (formOf f s k)).call m))) =
        (f.placing t s).call m := hcall
  simp only [Forward.apply, Record.call]
  rw [hoperands]
  simp only [formOf, hsqlName, hargs]

theorem length_sqlin_of_placed (h : f.placed s = true) : (f.sqlin s).length = s.args.length :=
  (of_decide_eq_true h).2.2.2

/-- A form places its arguments as the signature does. -/
theorem placed_form (hwf : f.WellFormed) (hs : s.WellFormed f) (hplaced : (f.sqlin s).length = s.args.length)
    (hk : k ≤ trailing s) : (formOfKey t f s k all fsigs).record.placed (formOf f s k) = f.placed s := by
  have hcount : ((formOfKey t f s k all fsigs).record.sqlin (formOf f s k)).length = (formOf f s k).args.length := by
    rw [sqlin_form t all fsigs hwf hs hplaced hk, args_form, List.length_take, List.length_take, hplaced]
  rw [Record.placed, Record.placed, decide_eq_decide, hcount]
  simp only [hplaced]
  rfl

/-- Which calls a form declares. -/
theorem callable_form (hwf : f.WellFormed) (hs : s.WellFormed f) (hplaced : (f.sqlin s).length = s.args.length)
    (hk : k ≤ trailing s) :
    (formOfKey t f s k all fsigs).record.callable (formOf f s k) m = true ↔
      f.callable s m = true ∧ m ≤ s.args.length - k ∧ (k = 0 ∨ m = s.args.length - k) := by
  have hkl := le_length_of_trailing hs hk
  have hlen : (s.args.take (s.args.length - k)).length = s.args.length - k := by
    rw [List.length_take]
    omega
  have hsame : (formOfKey t f s k all fsigs).record.placed (formOf f s k) = f.placed s := placed_form hwf hs hplaced hk
  rcases Nat.eq_zero_or_pos k with rfl | hpos
  · have hdefaults : (formOf f s 0).defaults = s.defaults := by
      have hargs : (formOf f s 0).args = s.args := List.take_length
      show (if s.argDefaults = [] then List.replicate (formOf f s 0).args.length none else s.argDefaults) = _
      rw [hargs]
      rfl
    rw [Record.callable, Record.callable, decide_eq_true_iff, decide_eq_true_iff, hsame, args_form, hlen, hdefaults]
    simp only [Nat.sub_zero, true_or, and_true]
    tauto
  · have hdefaults : (formOf f s k).defaults = List.replicate (s.args.length - k) none := by
      have hnone : (formOf f s k).argDefaults = [] := if_neg (by omega)
      rw [Signature.defaults, if_pos hnone, args_form, hlen]
    rw [Record.callable, Record.callable, decide_eq_true_iff, decide_eq_true_iff, hsame, args_form, hlen, hdefaults,
      List.drop_replicate]
    have hall : (List.replicate (s.args.length - k - m) (none : Option String)).all Option.isSome = true ↔
        s.args.length - k ≤ m := by
      rcases Nat.eq_zero_or_pos (s.args.length - k - m) with hzero | hpos'
      · rw [hzero]
        simp
        omega
      · obtain ⟨j, hj⟩ := Nat.exists_eq_succ_of_ne_zero (Nat.ne_of_gt hpos')
        rw [hj]
        simp [List.replicate_succ]
        omega
    rw [hall]
    constructor
    · rintro ⟨hp, hle, hge⟩
      obtain rfl : m = s.args.length - k := by omega
      refine ⟨⟨hp, by omega, ?_⟩, hle, .inr rfl⟩
      have hdrop := all_isSome_drop hk
      rwa [length_defaults hs] at hdrop
    · rintro ⟨⟨hp, -⟩, hle, hor⟩
      exact ⟨hp, hle, (hor.resolve_left (by omega)).ge⟩

end Form

/-! ### The forms of all signatures -/

section Forms

variable {q : Projected} {c : Call}

theorem mem_calls : c ∈ f.calls t ↔ ∃ s ∈ f.sqlSignatures, ∃ m, f.callable s m = true ∧ c = f.call t s m := by
  rw [Record.calls, List.mem_flatMap]
  refine exists_congr fun s => and_congr_right fun _ => ?_
  rw [List.mem_map]
  refine exists_congr fun m => ?_
  rw [List.mem_filter, List.mem_range]
  constructor
  · rintro ⟨⟨-, hm⟩, rfl⟩
    exact ⟨hm, rfl⟩
  · rintro ⟨hm, rfl⟩
    rw [Record.callable, decide_eq_true_iff] at hm
    refine ⟨⟨by omega, ?_⟩, rfl⟩
    rw [Record.callable, decide_eq_true_iff]
    exact hm

theorem mem_calls_forward {fw : Forward} (hq : q.forward = some fw) :
    c ∈ q.calls t ↔ ∃ s ∈ q.record.sqlSignatures, ∃ m, q.record.callable s m = true ∧
      c = fw.apply (q.record.call t s m) := by
  rw [Projected.calls, List.mem_map, hq]
  constructor
  · rintro ⟨c', hc', rfl⟩
    obtain ⟨s, hs, m, hm, rfl⟩ := mem_calls.mp hc'
    exact ⟨s, hs, m, hm, rfl⟩
  · rintro ⟨s, hs, m, hm, rfl⟩
    exact ⟨_, mem_calls.mpr ⟨s, hs, m, hm, rfl⟩, rfl⟩

theorem calls_plain (hq : q.forward = none) : q.calls t = q.record.calls t := by
  rw [Projected.calls, hq]
  exact List.map_id' _

theorem le_trailing_of_mem {k : ℕ} {bound : Binds} (h : k ∈ tails s bound) : k ≤ trailing s := by
  rw [tails, List.mem_append, List.mem_filter, List.mem_range] at h
  rcases h with h | h
  · by_cases hb : bound = []
    · rw [if_pos hb] at h
      cases h
    · rw [if_neg hb, List.mem_singleton] at h
      omega
  · omega

/-- Every form of a signature is in the forms, with what it fixes. -/
theorem mem_stated {x : Binds × Signature} : x ∈ stated t f ↔ ∃ s ∈ f.sqlSignatures, ∃ k ∈ tails s (boundOf t f s),
    x = (fixedKey t f s k, formOf f s k) := by
  rw [stated, List.mem_flatMap]
  refine exists_congr fun s => and_congr_right fun _ => ?_
  rw [List.mem_map]
  exact exists_congr fun k => and_congr_right fun _ => eq_comm

theorem mem_forms {fixed : Binds} {fsigs : List Signature} (h : (fixed, fsigs) ∈ forms t f) {s' : Signature} :
    s' ∈ fsigs ↔ (fixed, s') ∈ stated t f := by
  rw [forms, List.mem_map] at h
  obtain ⟨fixed', -, hx⟩ := h
  obtain ⟨rfl, rfl⟩ := Prod.mk.injEq .. ▸ hx
  rw [List.mem_map]
  constructor
  · rintro ⟨⟨fixed'', s''⟩, hmem, rfl⟩
    rw [List.mem_filter, decide_eq_true_iff] at hmem
    obtain ⟨hmem, rfl⟩ := hmem
    exact hmem
  · exact fun hmem => ⟨_, List.mem_filter.mpr ⟨hmem, decide_eq_true rfl⟩, rfl⟩

theorem exists_form {fixed : Binds} {s' : Signature} (h : (fixed, s') ∈ stated t f) :
    ∃ fsigs, (fixed, fsigs) ∈ forms t f :=
  ⟨_, List.mem_map.mpr ⟨fixed, List.mem_eraseDups.mpr (List.mem_map.mpr ⟨_, h, rfl⟩), rfl⟩⟩

/-- The calls of the forms are those of the signatures they were made of. -/
theorem mem_calls_forms (hwf : f.WellFormed) (hname : f.sqlfn.isSome = true)
    (hplaced : ∀ s ∈ f.sqlSignatures, (f.sqlin s).length = s.args.length) (all : List (Binds × List Signature)) :
    (∃ x ∈ forms t f, c ∈ (formRecord t f all x).calls t) ↔
      ∃ s ∈ f.sqlSignatures, ∃ k ∈ tails s (boundOf t f s), ∃ m, m ≤ s.args.length - k ∧
        (k = 0 ∨ m = s.args.length - k) ∧ f.callable s m = true ∧ c = f.call t s m := by
  constructor
  · rintro ⟨⟨fixed, fsigs⟩, hx, hc⟩
    have hfw := (show (formRecord t f all (fixed, fsigs)).forward = some _ from rfl)
    obtain ⟨s', hs', m, hm, rfl⟩ := (mem_calls_forward hfw).mp hc
    obtain ⟨s, hs, k, hk, heq⟩ := mem_stated.mp ((mem_forms hx).mp hs')
    obtain ⟨rfl, rfl⟩ := Prod.mk.injEq .. ▸ heq
    have hkt := le_trailing_of_mem hk
    obtain ⟨hm, hle, hor⟩ := (callable_form hwf (hwf.signatures s hs) (hplaced s hs) hkt).mp hm
    refine ⟨s, hs, k, hk, m, hle, hor, hm, ?_⟩
    have hforward := forward_form (t := t) (s := s) (k := k) all fsigs hwf
    rw [hfw] at hforward
    rw [Option.some.inj hforward]
    exact apply_call_form hwf (hwf.signatures s hs) (hplaced s hs) hkt hle hor hname
  · rintro ⟨s, hs, k, hk, m, hle, hor, hm, rfl⟩
    have hkt := le_trailing_of_mem hk
    have hstated := mem_stated.mpr ⟨s, hs, k, hk, rfl⟩
    obtain ⟨fsigs, hx⟩ := exists_form hstated
    have hforward := forward_form (t := t) (s := s) (k := k) all fsigs hwf
    refine ⟨_, hx, (mem_calls_forward hforward).mpr ⟨formOf f s k, (mem_forms hx).mpr hstated, m, ?_, ?_⟩⟩
    · exact (callable_form hwf (hwf.signatures s hs) (hplaced s hs) hkt).mpr ⟨hm, hle, hor⟩
    · exact (apply_call_form hwf (hwf.signatures s hs) (hplaced s hs) hkt hle hor hname).symm

/-- The signatures that are kept have the names they had. -/
theorem sqlName_keep (hs : s ∈ keep t f) :
    let names := ((keep t f).map fun s => s.sqlName.or f.sqlfn).eraseDups
    s.sqlName.or (if names.length = 1 then names.headD none else f.sqlfn) = s.sqlName.or f.sqlfn := by
  intro names
  by_cases hone : names.length = 1
  · obtain ⟨name, hname⟩ := List.length_eq_one_iff.mp hone
    have hmem : s.sqlName.or f.sqlfn ∈ names := List.mem_eraseDups.mpr (List.mem_map.mpr ⟨s, hs, rfl⟩)
    rw [hname, List.mem_singleton] at hmem
    rw [if_pos hone, hname, List.headD_cons]
    cases hsql : s.sqlName with
    | some own => rfl
    | none =>
      rw [hsql] at hmem
      exact hmem.symm
  · rw [if_neg hone]

/-- The signatures that bind nothing declare their calls under any name that keeps theirs. -/
theorem mem_calls_keep {sqlfn : Option String} (hsql : ∀ s ∈ keep t f, s.sqlName.or sqlfn = s.sqlName.or f.sqlfn) :
    c ∈ (⟨{ f with sqlSignatures := keep t f, sqlfn := sqlfn }, none⟩ : Projected).calls t ↔
      ∃ s ∈ keep t f, ∃ m, f.callable s m = true ∧ c = f.call t s m := by
  rw [calls_plain rfl, mem_calls]
  refine exists_congr fun s => and_congr_right fun hs => exists_congr fun m => and_congr_right fun _ => ?_
  have hcall : Record.call t { f with sqlSignatures := keep t f, sqlfn := sqlfn } s m = f.call t s m := by
    have hs' := hsql s hs
    show (⟨s.sqlName.or sqlfn, _, _, _, _⟩ : Call) = ⟨s.sqlName.or f.sqlfn, _, _, _, _⟩
    rw [hs']
    rfl
  rw [hcall]

/-- A record and its forms declare the calls of the record. -/
theorem mem_calls_projectSignatureForms (hwf : f.WellFormed) :
    (∃ q ∈ projectSignatureForms t ⟨f, none⟩, c ∈ q.calls t) ↔ c ∈ f.calls t := by
  have hself : (∃ q ∈ [(⟨f, none⟩ : Projected)], c ∈ q.calls t) ↔ c ∈ f.calls t := by
    simp [calls_plain]
  unfold projectSignatureForms
  by_cases hgate : (!t.retired f) = true ∨ f.api ≠ "public" ∨ f.sqlfn = none
  · rw [if_pos hgate]
    exact hself
  rw [if_neg hgate]
  by_cases hmiss : (f.sqlSignatures.any fun s => (facing t f s).length ≠ s.args.length) = true
  · rw [if_pos hmiss]
    exact hself
  rw [if_neg hmiss]
  by_cases hforms : forms t f = [] ∨ ((forms t f).any fun x => !formOk t f x) = true
  · rw [if_pos hforms]
    exact hself
  rw [if_neg hforms]
  have hname : f.sqlfn.isSome = true := by
    rw [Option.isSome_iff_ne_none]
    exact fun h => hgate (.inr (.inr h))
  have hplaced : ∀ s ∈ f.sqlSignatures, (f.sqlin s).length = s.args.length := by
    intro s hs
    by_contra hne
    refine hmiss (List.any_eq_true.mpr ⟨s, hs, decide_eq_true ?_⟩)
    rwa [← List.length_map Param.name, map_facing]
  have hmem := mem_calls_forms (c := c) (t := t) hwf hname hplaced (forms t f)
  have hkept := mem_calls_keep (c := c) (t := t) fun s hs => sqlName_keep (f := f) hs
  constructor
  · rintro ⟨q, hq, hc⟩
    rcases List.mem_append.mp hq with hq | hq
    · by_cases hnil : keep t f = []
      · rw [if_pos hnil] at hq
        cases hq
      · rw [if_neg hnil, List.mem_singleton] at hq
        subst hq
        obtain ⟨s, hs, m, hm, rfl⟩ := hkept.mp hc
        exact mem_calls.mpr ⟨s, List.mem_of_mem_filter hs, m, hm, rfl⟩
    · obtain ⟨x, hx, rfl⟩ := List.mem_map.mp hq
      obtain ⟨s, hs, k, -, m, -, -, hm, rfl⟩ := hmem.mp ⟨x, hx, hc⟩
      exact mem_calls.mpr ⟨s, hs, m, hm, rfl⟩
  · intro hc
    obtain ⟨s, hs, m, hm, rfl⟩ := mem_calls.mp hc
    by_cases hbound : boundOf t f s = []
    · have hsk : s ∈ keep t f := List.mem_filter.mpr ⟨hs, decide_eq_true hbound⟩
      refine ⟨_, List.mem_append_left _ ?_, hkept.mpr ⟨s, hsk, m, hm, rfl⟩⟩
      rw [if_neg (List.ne_nil_of_mem hsk)]
      exact List.mem_singleton_self _
    · have hzero : 0 ∈ tails s (boundOf t f s) := by
        rw [tails, if_neg hbound]
        exact List.mem_append_left _ (List.mem_singleton_self 0)
      have hle : m ≤ s.args.length - 0 := by
        rw [Record.callable, decide_eq_true_iff] at hm
        omega
      obtain ⟨x, hx, hcx⟩ := hmem.mpr ⟨s, hs, 0, hzero, m, hle, .inl rfl, hm, rfl⟩
      exact ⟨_, List.mem_append_right _ (List.mem_map_of_mem hx), hcx⟩

/-- A record that binds nothing and gives no defaults stands for itself. -/
theorem projectSignatureForms_plain (hbound : q.record.boundArgs = [])
    (hsigs : ∀ s ∈ q.record.sqlSignatures, s.boundArgs = [] ∧ s.argDefaults = []) :
    projectSignatureForms t q = [q] := by
  have hstated : stated t q.record = [] := by
    refine List.flatMap_eq_nil_iff.mpr fun s hs => ?_
    obtain ⟨hb, hd⟩ := hsigs s hs
    have hboundOf : boundOf t q.record s = [] := by
      rw [boundOf, hbound, hb]
      by_cases hown : t.ownShape q.record = true
      · rw [if_pos hown]
        rfl
      · rw [if_neg hown]
        rfl
    have htrailing : trailing s = 0 := by
      have hdefaults : s.defaults.reverse = List.replicate s.args.length none := by
        rw [Signature.defaults, if_pos hd, List.reverse_replicate]
      rw [trailing, hdefaults]
      cases s.args.length <;> rfl
    rw [hboundOf, tails, htrailing]
    simp
  have hforms : forms t q.record = [] := by
    rw [forms, hstated]
    rfl
  unfold projectSignatureForms
  by_cases hgate : (!t.retired q.record) = true ∨ q.record.api ≠ "public" ∨ q.record.sqlfn = none
  · rw [if_pos hgate]
  rw [if_neg hgate]
  by_cases hmiss : (q.record.sqlSignatures.any fun s => (facing t q.record s).length ≠ s.args.length) = true
  · rw [if_pos hmiss]
  rw [if_neg hmiss, if_pos (.inl hforms)]

end Forms

end Catalog
end MobilityDuck
