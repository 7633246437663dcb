/-
# Windows into what is put in order

`Takes r limit offset all out` says that `out` may be what an order with an
offset and a limit leaves of `all`: some way to put the elements in the order
`r` has it at that place. Elements the order does not tell apart may come in
any order, so there may be several such windows.

A part of the elements that shows the same keys in the window as all of them
shows a window of all of them (`Takes.of_part`): what was left out can be
put before and behind it.

Key definition: `Takes`. Key theorems: `Takes.exists_of_map`, `Takes.of_part`.
-/
import MobilityDuck.Lib.NullOrder

namespace Lib

variable {α β κ : Type*} {r : α → α → Prop} {limit offset : ℕ} {all out : List α}

/-- What an order with an offset and a limit may leave. -/
def Takes (r : α → α → Prop) (limit offset : ℕ) (all out : List α) : Prop :=
  ∃ sorted : List α, sorted.Perm all ∧ sorted.Pairwise r ∧ out = (sorted.drop offset).take limit

theorem exists_takes (r : α → α → Prop) [Std.Total r] [IsTrans α r] (limit offset : ℕ) (all : List α) :
    ∃ out, Takes r limit offset all out := by
  classical
  exact ⟨_, all.insertionSort r, List.perm_insertionSort r all, List.pairwise_insertionSort r all, rfl⟩

theorem Takes.perm {all' : List α} (h : Takes r limit offset all out) (hp : all.Perm all') :
    Takes r limit offset all' out := by
  obtain ⟨sorted, hsorted, hs, hout⟩ := h
  exact ⟨sorted, hsorted.trans hp, hs, hout⟩

/-- Over an order that tells all apart there is one window. -/
theorem Takes.unique [Std.Antisymm r] {out' : List α} (h : Takes r limit offset all out)
    (h' : Takes r limit offset all out') : out = out' := by
  obtain ⟨sorted, hsorted, hs, rfl⟩ := h
  obtain ⟨sorted', hsorted', hs', rfl⟩ := h'
  rw [List.Perm.eq_of_pairwise' hs hs' (hsorted.trans hsorted'.symm)]

/-- What images are put in another order, the elements can be put in. -/
theorem exists_perm_of_map {f : α → β} {xs : List β} {ys : List α} (h : xs.Perm (ys.map f)) :
    ∃ zs : List α, zs.Perm ys ∧ xs = zs.map f := by
  have himages : List.Forall₂ (fun b a => b = f a) (ys.map f) ys :=
    List.forall₂_map_left_iff.mpr (List.forall₂_same.mpr fun _ _ => rfl)
  obtain ⟨zs, heq, hp⟩ := List.perm_comp_forall₂ h himages
  refine ⟨zs, hp, ?_⟩
  rwa [← List.forall₂_eq_eq_eq, List.forall₂_map_right_iff]

section Map

variable {s : β → β → Prop} {f : α → β}

theorem Takes.map (h : Takes r limit offset all out) (hf : ∀ x ∈ all, ∀ y ∈ all, r x y → s (f x) (f y)) :
    Takes s limit offset (all.map f) (out.map f) := by
  obtain ⟨sorted, hsorted, hs, rfl⟩ := h
  refine ⟨sorted.map f, hsorted.map f, ?_, by rw [List.map_take, List.map_drop]⟩
  rw [List.pairwise_map]
  exact hs.imp_of_mem fun hx hy => hf _ (hsorted.mem_iff.mp hx) _ (hsorted.mem_iff.mp hy)

/-- A window of images is one of what they are images of. -/
theorem Takes.exists_of_map {out : List β} (h : Takes s limit offset (all.map f) out)
    (hf : ∀ x ∈ all, ∀ y ∈ all, s (f x) (f y) → r x y) :
    ∃ out', Takes r limit offset all out' ∧ out = out'.map f := by
  obtain ⟨sorted, hsorted, hs, rfl⟩ := h
  obtain ⟨preimages, hp, rfl⟩ := exists_perm_of_map hsorted
  refine ⟨_, ⟨preimages, hp, ?_, rfl⟩, by rw [List.map_take, List.map_drop]⟩
  rw [List.pairwise_map] at hs
  exact hs.imp_of_mem fun hx hy => hf _ (hp.mem_iff.mp hx) _ (hp.mem_iff.mp hy)

end Map

section Keys

variable {s : κ → κ → Prop} [Std.Antisymm s] [Std.Total s] [IsTrans κ s] {key : α → κ}

/-- What stands in a window, by the lengths of what is before, in and behind it. -/
theorem take_drop_middle {before middle behind : List α} {n : ℕ} (hbefore : before.length = min offset n)
    (hmiddle : middle.length = min limit (n - offset)) (hbehind : behind.length = n - (offset + limit)) :
    ((before ++ (middle ++ behind)).drop offset).take limit = middle := by
  by_cases hn : offset ≤ n
  · rw [List.drop_left' (by omega)]
    by_cases hlimit : limit ≤ n - offset
    · exact List.take_left' (by omega)
    · have hnil : behind = [] := List.length_eq_zero_iff.mp (by omega)
      rw [hnil, List.append_nil, List.take_of_length_le (by omega)]
  · have hnil : middle = [] := List.length_eq_zero_iff.mp (by omega)
    rw [List.drop_eq_nil_of_le (by simp only [List.length_append]; omega), hnil, List.take_nil]

/-- The elements beside a window of the keys, put in order: their keys are those beside it. -/
theorem exists_beside {rest : List α} {keys : List κ} (hall : all.Perm (out ++ rest))
    (hkeys : keys.Perm (all.map key)) (hs : keys.Pairwise s)
    (hout : out.map key = (keys.drop offset).take limit) :
    ∃ beside : List α, beside.Perm rest ∧
      beside.map key = keys.take offset ++ keys.drop (offset + limit) := by
  classical
  let inOrder : α → α → Prop := fun x y => s (key x) (key y)
  have : Std.Total inOrder := ⟨fun x y => Std.Total.total (key x) (key y)⟩
  have : IsTrans α inOrder := ⟨fun x y z => IsTrans.trans (key x) (key y) (key z)⟩
  refine ⟨rest.insertionSort inOrder, List.perm_insertionSort _ _, ?_⟩
  have hsplit : keys.Perm (out.map key ++ (keys.take offset ++ keys.drop (offset + limit))) := by
    have hdrop : keys.drop offset = out.map key ++ keys.drop (offset + limit) := by
      rw [hout, ← List.drop_drop, List.take_append_drop]
    calc keys = keys.take offset ++ (out.map key ++ keys.drop (offset + limit)) := by
          rw [← hdrop, List.take_append_drop]
      List.Perm _ _ := List.perm_append_comm_assoc _ _ _
  have hrest : (rest.map key).Perm (keys.take offset ++ keys.drop (offset + limit)) := by
    rw [← List.perm_append_left_iff (out.map key), ← List.map_append]
    exact ((hall.map key).symm.trans hkeys.symm).trans hsplit
  refine List.Perm.eq_of_pairwise' (r := s) ?_ ?_ (((List.perm_insertionSort inOrder rest).map key).trans hrest)
  · exact List.pairwise_map.mpr (List.pairwise_insertionSort inOrder rest)
  · refine hs.sublist ?_
    have hend : (keys.drop (offset + limit)).Sublist (keys.drop offset) := by
      rw [← List.drop_drop]
      exact List.drop_sublist _ _
    have h := (List.Sublist.refl (keys.take offset)).append hend
    rwa [List.take_append_drop] at h

/-- Where the window shows the same keys of a part as of all, what it shows of the part it may show of
all. -/
theorem Takes.of_part {part : List α} (hpart : part.Subperm all)
    (hkeys : ∀ keys, Takes s limit offset (part.map key) keys → Takes s limit offset (all.map key) keys)
    (h : Takes (fun x y => s (key x) (key y)) limit offset part out) :
    Takes (fun x y => s (key x) (key y)) limit offset all out := by
  obtain ⟨keys, hperm, hs, hout⟩ := hkeys _ (h.map (s := s) (f := key) fun _ _ _ _ hle => hle)
  obtain ⟨sorted, hsorted, -, heq⟩ := h
  have hsub : out.Subperm all := by
    rw [heq]
    have htake := ((List.take_sublist limit _).trans (List.drop_sublist offset sorted)).subperm
    exact (htake.trans hsorted.subperm).trans hpart
  obtain ⟨out', hout', hsublist⟩ := hsub
  obtain ⟨rest, hrest⟩ := hsublist.exists_perm_append
  obtain ⟨beside, hbeside, hkey⟩ :=
    exists_beside (hrest.trans (hout'.append_right rest)) hperm hs hout
  set k := (keys.take offset).length with hk
  have hbefore : (beside.take k).map key = keys.take offset := by
    rw [List.map_take, hkey, List.take_left' hk.symm]
  have hbehind : (beside.drop k).map key = keys.drop (offset + limit) := by
    rw [List.map_drop, hkey, List.drop_left' hk.symm]
  have hall : (beside.take k ++ (out ++ beside.drop k)).map key = keys := by
    rw [List.map_append, List.map_append, hbefore, hbehind, hout, ← List.drop_drop,
      List.take_append_drop, List.take_append_drop]
  refine ⟨beside.take k ++ (out ++ beside.drop k), ?_, ?_, ?_⟩
  · have hmiddle : (beside.take k ++ (out ++ beside.drop k)).Perm (out ++ beside) := by
      have h := List.perm_append_comm_assoc (beside.take k) out (beside.drop k)
      rwa [List.take_append_drop] at h
    refine hmiddle.trans ?_
    exact ((hout'.symm.append hbeside).trans hrest.symm)
  · rw [← hall, List.pairwise_map] at hs
    exact hs
  · have hlen : (beside.take k).length = min offset keys.length := by
      rw [← List.length_map (f := key), hbefore, List.length_take]
    have hlen' : out.length = min limit (keys.length - offset) := by
      rw [← List.length_map (f := key), hout, List.length_take, List.length_drop]
    have hlen'' : (beside.drop k).length = keys.length - (offset + limit) := by
      rw [← List.length_map (f := key), hbehind, List.length_drop]
    exact (take_drop_middle hlen hlen' hlen'').symm

end Keys

/-! ### Keys with NULLs -/

variable {δ : Type*} [LinearOrder δ]

/-- The order of keys, with the NULLs first or last. -/
def keyLe (nullsFirst : Bool) : Option δ → Option δ → Prop
  | none, none => True
  | none, some _ => nullsFirst = true
  | some _, none => nullsFirst = false
  | some x, some y => x ≤ y

instance (nullsFirst : Bool) : Std.Total (keyLe (δ := δ) nullsFirst) where
  total x y := by
    cases x <;> cases y <;> cases nullsFirst <;> simp [keyLe, le_total]

instance (nullsFirst : Bool) : IsTrans (Option δ) (keyLe nullsFirst) where
  trans x y z := by
    cases x <;> cases y <;> cases z <;> cases nullsFirst <;> simp [keyLe]
    all_goals exact fun h h' => h.trans h'

instance (nullsFirst : Bool) : Std.Antisymm (keyLe (δ := δ) nullsFirst) where
  antisymm x y := by
    cases x <;> cases y <;> cases nullsFirst <;> simp [keyLe]
    all_goals exact fun h h' => le_antisymm h h'

theorem ordered_pairwise (nullsFirst : Bool) (keys : List (Option δ)) :
    (ordered nullsFirst keys).Pairwise (keyLe nullsFirst) := by
  have hvalues : ((sortedValues keys).map some).Pairwise (keyLe nullsFirst) :=
    List.pairwise_map.mpr (sortedValues_sorted keys)
  have hnulls : (List.replicate (keys.count none) (none : Option δ)).Pairwise (keyLe nullsFirst) :=
    List.pairwise_replicate.mpr (.inr trivial)
  rw [ordered, withNulls]
  cases nullsFirst with
  | true =>
    refine List.pairwise_append.mpr ⟨hnulls, hvalues, fun x hx y hy => ?_⟩
    obtain rfl := List.eq_of_mem_replicate hx
    obtain ⟨d, -, rfl⟩ := List.mem_map.mp hy
    rfl
  | false =>
    refine List.pairwise_append.mpr ⟨hvalues, hnulls, fun x hx y hy => ?_⟩
    obtain rfl := List.eq_of_mem_replicate hy
    obtain ⟨d, -, rfl⟩ := List.mem_map.mp hx
    rfl

theorem ordered_perm (nullsFirst : Bool) (keys : List (Option δ)) : (ordered nullsFirst keys).Perm keys := by
  have h := (perm_sortedValues keys).symm
  rw [ordered, withNulls]
  cases nullsFirst with
  | true => exact List.perm_append_comm.trans h
  | false => exact h

/-- `topN` is the window into keys. -/
theorem takes_topN (nullsFirst : Bool) (limit offset : ℕ) (keys : List (Option δ)) :
    Takes (keyLe nullsFirst) limit offset keys (topN nullsFirst limit offset keys) :=
  ⟨ordered nullsFirst keys, ordered_perm nullsFirst keys, ordered_pairwise nullsFirst keys, rfl⟩

end Lib
