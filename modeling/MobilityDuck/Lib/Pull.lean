/-
# Sources polled until they answer an empty chunk

A consumer polls a source and takes the first empty chunk as its end, so of
the chunks a source would answer it sees those before the first empty one
(`untilEmpty`). Nothing is lost exactly when nothing follows an empty chunk
(`untilEmpty_eq_flatten_iff`).

`batches v` cuts a list into pieces of `v`, the last one shorter. A source
that answers what `f` makes of one batch a call delivers
`untilEmpty` of these (`pull_batches`), hence everything exactly when no
batch of which `f` leaves nothing is followed by one of which it leaves
something (`pull_batches_eq_iff`).

Key definitions: `untilEmpty`, `batches`, `pull`. Key theorem:
`pull_batches_eq_iff`.
-/
import Mathlib.Data.List.Basic

namespace Lib

variable {α β σ : Type*}

/-- The chunks before the first empty one, joined. -/
def untilEmpty : List (List α) → List α
  | [] => []
  | [] :: _ => []
  | (a :: c) :: cs => (a :: c) ++ untilEmpty cs

/-- Stopping at the first empty chunk loses nothing exactly when all chunks after an empty one are
empty. -/
theorem untilEmpty_eq_flatten_iff : ∀ cs : List (List α),
    untilEmpty cs = cs.flatten ↔ cs.Pairwise fun c c' => c = [] → c' = []
  | [] => by simp [untilEmpty]
  | [] :: cs => by
    rw [untilEmpty, List.flatten_cons, List.nil_append, List.pairwise_cons]
    constructor
    · intro h
      have hall : ∀ c ∈ cs, c = [] := List.flatten_eq_nil_iff.mp h.symm
      refine ⟨fun c hc _ => hall c hc, ?_⟩
      exact List.pairwise_of_forall_mem_list fun _ _ c' hc' _ => hall c' hc'
    · rintro ⟨h, -⟩
      exact (List.flatten_eq_nil_iff.mpr fun c hc => h c hc rfl).symm
  | (a :: c) :: cs => by
    rw [untilEmpty, List.flatten_cons, List.append_cancel_left_eq, untilEmpty_eq_flatten_iff cs,
      List.pairwise_cons]
    constructor
    · intro h
      exact ⟨fun _ _ hnil => by simp at hnil, h⟩
    · exact fun h => h.2

/-- What is delivered is a part of what there is, in order. -/
theorem untilEmpty_sublist : ∀ cs : List (List α), (untilEmpty cs).Sublist cs.flatten
  | [] => by simp [untilEmpty]
  | [] :: cs => List.nil_sublist _
  | (a :: c) :: cs => by
    rw [untilEmpty, List.flatten_cons]
    exact (List.Sublist.refl _).append (untilEmpty_sublist cs)

/-- The list in pieces of `v`; `k` of them are enough for a list of at most `k` elements. -/
def batches (v : ℕ) : ℕ → List α → List (List α)
  | 0, _ => []
  | _ + 1, [] => []
  | k + 1, a :: l => (a :: l).take v :: batches v k ((a :: l).drop v)

theorem flatten_batches {v : ℕ} (hv : 0 < v) :
    ∀ {k : ℕ} {l : List α}, l.length ≤ k → (batches v k l).flatten = l
  | 0, l, h => by
    have hl : l = [] := List.length_eq_zero_iff.mp (Nat.le_zero.mp h)
    rw [hl]
    rfl
  | _ + 1, [], _ => rfl
  | k + 1, a :: l, h => by
    have hk : ((a :: l).drop v).length ≤ k := by
      rw [List.length_drop]
      omega
    rw [batches, List.flatten_cons, flatten_batches hv hk]
    exact List.take_append_drop v (a :: l)

theorem batches_append {v : ℕ} (hv : 0 < v) {a : List α} (ha : a.length = v) (k : ℕ) (l : List α) :
    batches v (k + 1) (a ++ l) = a :: batches v k l := by
  cases a with
  | nil => exact absurd ha (Nat.ne_of_lt hv)
  | cons x a =>
    rw [List.cons_append, batches, ← List.cons_append, List.take_left' ha, List.drop_left' ha]

/-- No batch is empty, and none has an element of its own. -/
theorem mem_batches {v : ℕ} (hv : 0 < v) : ∀ {k : ℕ} {l c : List α}, c ∈ batches v k l → c ≠ [] ∧ c ⊆ l
  | _ + 1, a :: l, c, h => by
    rcases List.mem_cons.mp h with rfl | h
    · refine ⟨?_, List.take_subset v (a :: l)⟩
      cases v with
      | zero => omega
      | succ v => simp
    · obtain ⟨hne, hsub⟩ := mem_batches hv h
      exact ⟨hne, fun x hx => List.drop_subset v (a :: l) (hsub hx)⟩

/-- Poll the source until it answers an empty chunk; `stuck` is the answer of a source that `fuel`
calls did not bring there. -/
def pull {ε : Type*} (next : σ → Except ε (List β × σ)) (stuck : ε) : ℕ → σ → Except ε (List β)
  | 0, _ => .error stuck
  | fuel + 1, s =>
    match next s with
    | .error e => .error e
    | .ok ([], _) => .ok []
    | .ok (b :: c, s') => (pull next stuck fuel s').map ((b :: c) ++ ·)

section Pull

variable {ε : Type*} {next : σ → Except ε (List β × σ)} {f : List α → List β} {v : ℕ}
    {R : List α → σ → Prop}
  (stuck : ε)

/-- A source that works off the list `l` batch by batch, and answers what `f` makes of a batch, comes
to its end within as many calls as there are elements and one more. -/
theorem pull_batches (hf : f [] = [])
    (hnext : ∀ l s, R l s → ∃ s', next s = .ok (f (l.take v), s') ∧ R (l.drop v) s') (hv : 0 < v) :
    ∀ (k fuel : ℕ) (l : List α) (s : σ), R l s → l.length ≤ k → k < fuel →
      pull next stuck fuel s = .ok (untilEmpty ((batches v k l).map f))
  | k, 0, _, _, _, _, hfuel => absurd hfuel (Nat.not_lt_zero k)
  | k, fuel + 1, [], s, hR, _, _ => by
    obtain ⟨s', h, -⟩ := hnext [] s hR
    rw [List.take_nil, hf] at h
    rw [pull, h]
    cases k <;> rfl
  | 0, fuel + 1, a :: l, s, _, hk, _ => by simp at hk
  | k + 1, fuel + 1, a :: l, s, hR, hk, hfuel => by
    obtain ⟨s', h, hR'⟩ := hnext (a :: l) s hR
    have hlen : ((a :: l).drop v).length ≤ k := by
      rw [List.length_drop]
      omega
    have ih := pull_batches hf hnext hv k fuel _ s' hR' hlen (by omega)
    rw [pull, h, batches, List.map_cons]
    cases f ((a :: l).take v) with
    | nil => rfl
    | cons b c =>
      show (pull next stuck fuel s').map _ = _
      rw [ih]
      rfl

theorem map_flatten_of_append (hf : ∀ l l', f (l ++ l') = f l ++ f l') : ∀ cs : List (List α),
    (cs.map f).flatten = f cs.flatten
  | [] => by
    have hlen := congrArg List.length (hf [] [])
    rw [List.append_nil, List.length_append] at hlen
    have hnil : f [] = [] := List.length_eq_zero_iff.mp (by omega)
    exact hnil.symm
  | c :: cs => by rw [List.map_cons, List.flatten_cons, List.flatten_cons, hf, map_flatten_of_append hf cs]

/-- What it delivers is a part of what `f` makes of the whole list. -/
theorem pull_batches_sublist (hf : ∀ l l', f (l ++ l') = f l ++ f l')
    (hnext : ∀ l s, R l s → ∃ s', next s = .ok (f (l.take v), s') ∧ R (l.drop v) s') (hv : 0 < v)
    {fuel : ℕ} {l : List α} {s : σ} (hR : R l s) (hfuel : l.length < fuel) :
    ∃ out, pull next stuck fuel s = .ok out ∧ out.Sublist (f l) := by
  have hnil : f [] = [] := (map_flatten_of_append hf []).symm
  refine ⟨_, pull_batches stuck hnil hnext hv l.length fuel l s hR (Nat.le_refl _) hfuel, ?_⟩
  have hsub := untilEmpty_sublist ((batches v l.length l).map f)
  rwa [map_flatten_of_append hf, flatten_batches hv (Nat.le_refl _)] at hsub

/-- Where `f` works element by element, such a source delivers all of it exactly when no batch of
which nothing is left is followed by one of which something is left. -/
theorem pull_batches_eq_iff (hf : ∀ l l', f (l ++ l') = f l ++ f l')
    (hnext : ∀ l s, R l s → ∃ s', next s = .ok (f (l.take v), s') ∧ R (l.drop v) s') (hv : 0 < v)
    {fuel : ℕ} {l : List α} {s : σ} (hR : R l s) (hfuel : l.length < fuel) :
    pull next stuck fuel s = .ok (f l) ↔
      (batches v l.length l).Pairwise fun c c' => f c = [] → f c' = [] := by
  have hnil : f [] = [] := (map_flatten_of_append hf []).symm
  have hpair := untilEmpty_eq_flatten_iff ((batches v l.length l).map f)
  rw [map_flatten_of_append hf, flatten_batches hv (Nat.le_refl _), List.pairwise_map] at hpair
  rw [pull_batches stuck hnil hnext hv l.length fuel l s hR (Nat.le_refl _) hfuel, Except.ok.injEq]
  exact hpair

end Pull

end Lib
