/-
# Null-terminated chains, and walking them

A chain is what a `next` field spells out: from a start pointer, the cells
`a₁, a₂, …, aₖ` such that the start points to `a₁`, each cell to the one after
it and the last to nothing (`Linked`). A chain is determined by its start
(`Linked.unique`) and so never meets a cell twice (`Linked.nodup`); what is
written elsewhere leaves it alone (`Linked.congr`), and linking a fresh cell
behind the last one extends it (`Linked.snoc`).

`walk` is the loop `while p points to a cell: visit it, p := next`. Its rule
(`walk_spec`): an invariant over the cells visited so far that each visit
carries on, without touching the links, holds of all cells at the end, and
fuel for every cell is enough.

Key definitions: `Linked`, `walk`. Key theorems: `Linked.nodup`,
`Linked.snoc`, `walk_spec`.
-/
import Mathlib.Data.List.Nodup

namespace Lib

section Linked

variable {ι π : Type*} (target : π → Option ι)

/-- The cells `l` are the ones `next` leads through from the pointer `p` on. -/
def Linked (next : ι → π) : π → List ι → Prop
  | p, [] => target p = none
  | p, a :: l => target p = some a ∧ Linked next (next a) l

variable {target} {next next' : ι → π} {p : π} {l l' : List ι}

/-- A chain reads the links of its own cells only. -/
theorem Linked.congr (h : Linked target next p l) (he : ∀ a ∈ l, next' a = next a) :
    Linked target next' p l := by
  induction l generalizing p with
  | nil => exact h
  | cons a l ih =>
    refine ⟨h.1, ?_⟩
    rw [he a List.mem_cons_self]
    exact ih h.2 fun b hb => he b (List.mem_cons_of_mem _ hb)

theorem Linked.unique : ∀ {l l' : List ι} {p : π}, Linked target next p l →
    Linked target next p l' → l = l'
  | [], [], _, _, _ => rfl
  | [], _ :: _, _, h, h' => by have := h.symm.trans h'.1; simp at this
  | _ :: _, [], _, h, h' => by have := h'.symm.trans h.1; simp at this
  | a :: l, b :: l', _, h, h' => by
    have hab : a = b := Option.some.inj (h.1.symm.trans h'.1)
    subst hab
    rw [Linked.unique h.2 h'.2]

/-- From each of its cells on, a chain is the chain that cell's link starts. -/
theorem Linked.tail : ∀ {l₁ l₂ : List ι} {a : ι} {p : π}, Linked target next p (l₁ ++ a :: l₂) →
    Linked target next (next a) l₂
  | [], _, _, _, h => h.2
  | _ :: _, _, _, _, h => Linked.tail h.2

/-- A chain that ends meets no cell twice: from both places the rest would be the same. -/
theorem Linked.nodup (h : Linked target next p l) : l.Nodup := by
  induction l generalizing p with
  | nil => exact List.nodup_nil
  | cons a l ih =>
    refine List.nodup_cons.mpr ⟨fun ha => ?_, ih h.2⟩
    obtain ⟨l₁, l₂, rfl⟩ := List.append_of_mem ha
    have := congrArg List.length (h.2.unique h.2.tail)
    simp at this
    omega

/-- A pointer to nothing starts the empty chain only. -/
theorem Linked.eq_nil (h : Linked target next p l) (hp : target p = none) : l = [] :=
  h.unique (show Linked target next p [] from hp)

/-- A cell `b` linked behind the last cell `a`, and itself pointing to nothing, extends the
chain. -/
theorem Linked.snoc : ∀ {l : List ι} {a b : ι} {p : π}, Linked target next p (l ++ [a]) →
    (∀ c ∈ l, next' c = next c) → target (next' a) = some b → target (next' b) = none →
    Linked target next' p (l ++ [a] ++ [b])
  | [], _, _, _, h, _, ha, hb => ⟨h.1, ha, hb⟩
  | c :: l, a, b, p, h, he, ha, hb => by
    refine ⟨h.1, ?_⟩
    rw [he c List.mem_cons_self]
    exact Linked.snoc h.2 (fun d hd => he d (List.mem_cons_of_mem _ hd)) ha hb

end Linked

section Walk

variable {ι π σ ε : Type*} (target : π → Option ι) (next : σ → ι → π) (visit : π → ι → σ → Except ε σ)
  (stuck : ε)

/-- Visit each cell from pointer `p` on. The link of a cell is read before the cell is visited;
`stuck` is the answer of a loop that `fuel` did not finish. -/
def walk : ℕ → π → σ → Except ε σ
  | 0, p, s => if (target p).isNone then .ok s else .error stuck
  | fuel + 1, p, s =>
    match target p with
    | none => .ok s
    | some a => (visit p a s).bind fun s' => walk fuel (next s a) s'

variable {target next visit}

/-- The rule of the loop. `I done s` is the invariant: the cells `done` are visited and the state
is `s`. -/
theorem walk_spec (I : List ι → σ → Prop) : ∀ (l done : List ι) (fuel : ℕ) (p : π) (s : σ),
    Linked target (next s) p l → l.length ≤ fuel → I done s →
    (∀ (d : List ι) (q : π) (a : ι) (r : List ι) (t : σ),
      done ++ l = d ++ a :: r → target q = some a → I d t →
      ∃ t', visit q a t = .ok t' ∧ next t' = next t ∧ I (d ++ [a]) t') →
    ∃ s', walk target next visit stuck fuel p s = .ok s' ∧ I (done ++ l) s'
  | [], done, fuel, p, s, hl, _, hI, _ => by
    refine ⟨s, ?_, by simpa using hI⟩
    have hp : target p = none := hl
    cases fuel <;> simp [walk, hp]
  | a :: l, done, 0, _, _, _, hf, _, _ => by simp at hf
  | a :: l, done, fuel + 1, p, s, hl, hf, hI, hv => by
    obtain ⟨s₁, h₁, hn, hI₁⟩ := hv done p a l s rfl hl.1 hI
    have hl₁ : Linked target (next s₁) (next s a) l := by rw [hn]; exact hl.2
    have hf₁ : l.length ≤ fuel := by simpa using hf
    obtain ⟨s', h', hI'⟩ := walk_spec I l (done ++ [a]) fuel (next s a) s₁ hl₁ hf₁ hI₁
      (fun d q b r t he => hv d q b r t (by simpa using he))
    refine ⟨s', ?_, by simpa using hI'⟩
    rw [walk, hl.1]
    simp only [h₁, Except.bind]
    exact h'

end Walk

end Lib
