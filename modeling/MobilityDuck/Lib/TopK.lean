/-
# The k least of a stream

`push k x q` puts `x` into a queue of at most `k` elements, worst first, and
drops the worst when it gets one too many: a bounded priority queue. What a
queue holds after some elements is the least `k` of them (`Best`,
`Best.push`): everything left out has a key at least as large as everything
held. The queue orders elements by a linear order, and `Best` ranks them by
a monotone `key`, so elements that tie on the key may fall either way.

A row that at least `k` of the elements outrank changes nothing
(`Best.outranked`), nor does what comes after the worst held
(`Best.of_le`).

Key definitions: `push`, `Best`, `IsTop`. Key theorems: `Best.push`,
`Best.of_le`, `Best.outranked`.
-/
import Mathlib.Data.List.Sort
import Mathlib.Order.Monotone.Defs
import Mathlib.Data.List.Perm.Basic

namespace Lib

variable {α β : Type*}

/-- A correct answer to "the `k` elements of `all` with the least keys". -/
structure IsTop [LE β] (key : α → β) (k : ℕ) (all answer : List α) : Prop where
  length : answer.length = min k all.length
  split : ∃ out, all.Perm (out ++ answer) ∧ ∀ x ∈ out, ∀ y ∈ answer, key y ≤ key x

theorem IsTop.perm [LE β] {key : α → β} {k : ℕ} {all all' answer : List α} (h : IsTop key k all answer)
    (hp : all'.Perm all) : IsTop key k all' answer := by
  obtain ⟨out, hs, hout⟩ := h.split
  exact ⟨hp.length_eq ▸ h.length, out, hp.trans hs, hout⟩

/-- An answer, seen through a function that keeps the order of the keys. -/
theorem IsTop.map [LE β] {γ ε : Type*} [LE ε] {key : α → β} {key' : γ → ε} {k : ℕ}
    {all answer : List α} (f : α → γ)
    (hf : ∀ x ∈ all, ∀ y ∈ all, key y ≤ key x → key' (f y) ≤ key' (f x)) (h : IsTop key k all answer) :
    IsTop key' k (all.map f) (answer.map f) := by
  obtain ⟨out, hp, hout⟩ := h.split
  refine ⟨by simpa using h.length, out.map f, ?_, ?_⟩
  · rw [← List.map_append]
    exact hp.map f
  · intro x hx y hy
    obtain ⟨a, ha, rfl⟩ := List.mem_map.mp hx
    obtain ⟨b, hb, rfl⟩ := List.mem_map.mp hy
    exact hf a (hp.mem_iff.mpr (List.mem_append_left _ ha)) b (hp.mem_iff.mpr (List.mem_append_right _ hb))
      (hout a ha b hb)

variable [LinearOrder α]

/-- Put `x` into the queue `q`, and drop the worst element of more than `k`. -/
def push (k : ℕ) (x : α) (q : List α) : List α :=
  let q := q.orderedInsert (· ≥ ·) x
  if k < q.length then q.tail else q

/-- A queue that is not full keeps what it is given. -/
theorem length_push_of_lt {k : ℕ} {q : List α} (h : q.length < k) (x : α) :
    (push k x q).length = q.length + 1 := by
  have hinsert : (q.orderedInsert (· ≥ ·) x).length = q.length + 1 := List.orderedInsert_length _ _ _
  unfold push
  rw [if_neg (by omega), hinsert]

/-- The queue `q` holds the `k` elements of `seen` with the least keys, worst first. -/
structure Best [LE β] (key : α → β) (k : ℕ) (seen q : List α) : Prop extends IsTop key k seen q where
  sorted : q.Pairwise (· ≥ ·)

variable [LinearOrder β] {key : α → β} {k : ℕ} {seen q : List α}

theorem Best.nil (key : α → β) (k : ℕ) : Best key k ([] : List α) [] :=
  ⟨⟨by simp, [], List.Perm.refl _, by simp⟩, List.Pairwise.nil⟩

/-- One more element. -/
theorem Best.push (hkey : Monotone key) (h : Best key k seen q) (x : α) :
    Best key k (seen ++ [x]) (Lib.push k x q) := by
  obtain ⟨out, hp, hout⟩ := h.split
  have hsorted : (q.orderedInsert (· ≥ ·) x).Pairwise (· ≥ ·) := h.sorted.orderedInsert x q
  have hperm : (q.orderedInsert (· ≥ ·) x).Perm (x :: q) := List.perm_orderedInsert _ x q
  have hseen : (seen ++ [x]).Perm (out ++ q.orderedInsert (· ≥ ·) x) := by
    calc (seen ++ [x]).Perm ((out ++ q) ++ [x]) := hp.append_right _
      _ |>.Perm (out ++ (x :: q)) := by
        rw [List.append_assoc]
        exact (List.perm_append_singleton x q).append_left out
      _ |>.Perm (out ++ q.orderedInsert (· ≥ ·) x) := hperm.symm.append_left out
  have hlen : (q.orderedInsert (· ≥ ·) x).length = q.length + 1 := by
    rw [hperm.length_eq, List.length_cons]
  have hq := h.length
  unfold Lib.push
  by_cases hk : k < (q.orderedInsert (· ≥ ·) x).length
  · simp only [hk, if_true]
    -- the worst is dropped: it joins what is out
    obtain ⟨w, r, hwr⟩ : ∃ w r, q.orderedInsert (· ≥ ·) x = w :: r := by
      cases hc : q.orderedInsert (· ≥ ·) x with
      | nil =>
        rw [hc] at hlen
        simp at hlen
      | cons w r => exact ⟨w, r, rfl⟩
    rw [hwr] at hsorted hseen hlen hk hperm ⊢
    rw [List.tail_cons]
    rw [List.pairwise_cons] at hsorted
    refine ⟨⟨?_, out ++ [w], ?_, ?_⟩, hsorted.2⟩
    · simp only [List.length_cons, List.length_append, List.length_nil] at *
      omega
    · rw [List.append_assoc]
      exact hseen
    · intro y hy z hz
      rcases List.mem_append.mp hy with hy | hy
      · -- an element that was out is above what was held, and above `x` if that pushed `w` out
        rcases List.mem_cons.mp (hperm.mem_iff.mp List.mem_cons_self) with hw | hw
        · rw [hw] at hperm
          exact hout y hy z ((List.Perm.cons_inv hperm).mem_iff.mp hz)
        · rcases List.mem_cons.mp (hperm.mem_iff.mp (List.mem_cons_of_mem w hz)) with - | hzq
          · exact (hkey (hsorted.1 z hz)).trans (hout y hy w hw)
          · exact hout y hy z hzq
      · rw [List.mem_singleton] at hy
        subst hy
        exact hkey (hsorted.1 z hz)
  · simp only [hk, if_false]
    refine ⟨⟨?_, out, hseen, ?_⟩, hsorted⟩
    · simp only [List.length_append, List.length_cons, List.length_nil] at *
      omega
    · -- nothing is out yet, as the queue is not full
      have hout_nil : out = [] := by
        have hlen' := hp.length_eq
        rw [List.length_append] at hlen'
        apply List.length_eq_zero_iff.mp
        omega
      intro y hy
      rw [hout_nil] at hy
      simp at hy

omit [LinearOrder α] in
/-- Elements no less than the worst of a full answer need not be looked at. -/
theorem IsTop.of_le (h : IsTop key k seen q) (hk : q.length = k) {rest : List α}
    (hrest : ∀ x ∈ rest, ∀ y ∈ q, key y ≤ key x) : IsTop key k (seen ++ rest) q := by
  obtain ⟨out, hp, hout⟩ := h.split
  refine ⟨?_, out ++ rest, ?_, ?_⟩
  · rw [List.length_append, hk]
    have := h.length
    omega
  · calc (seen ++ rest).Perm ((out ++ q) ++ rest) := hp.append_right _
      _ |>.Perm ((out ++ rest) ++ q) := by
        rw [List.append_assoc, List.append_assoc]
        exact List.perm_append_comm.append_left out
  · intro x hx y hy
    rcases List.mem_append.mp hx with hx | hx
    · exact hout x hx y hy
    · exact hrest x hx y hy

omit [LinearOrder α] in
/-- Elements each of which at least `k` of those seen outrank change nothing. -/
theorem IsTop.outranked (h : IsTop key k seen q) {rest : List α}
    (hrest : ∀ x ∈ rest, k ≤ seen.countP fun y => key y ≤ key x) : IsTop key k (seen ++ rest) q := by
  cases rest with
  | nil => simpa using h
  | cons r rest =>
    have hfull : q.length = k := by
      have hr := (hrest r List.mem_cons_self).trans List.countP_le_length
      rw [h.length]
      omega
    apply h.of_le hfull
    intro x hx y hy
    obtain ⟨out, hp, hout⟩ := h.split
    by_contra hlt
    have hlt : key x < key y := not_le.mp hlt
    -- what outranks `x` is all held, and `y` besides
    have hout0 : out.countP (fun z => key z ≤ key x) = 0 := by
      rw [List.countP_eq_zero]
      intro z hz hzx
      exact absurd ((hout z hz y hy).trans (of_decide_eq_true hzx)) (not_le.mpr hlt)
    have hq : q.countP (fun z => key z ≤ key x) < q.length := by
      apply lt_of_le_of_ne List.countP_le_length
      intro heq
      exact absurd (of_decide_eq_true (List.countP_eq_length.mp heq y hy)) (not_le.mpr hlt)
    have hk := hrest x hx
    rw [hp.countP_eq, List.countP_append, hout0] at hk
    omega

end Lib
