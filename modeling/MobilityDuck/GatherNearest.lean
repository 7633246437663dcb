/-
# The nearest rows

`gatherLoop` reads candidates in the order of a bound that never exceeds the
distance of the row, and stops at a bound that reaches the worst of the `k`
distances it holds. What it then holds are the `k` least distances of all
candidates that have one, read or not (`gatherLoop_spec`), and
`gatherNearest` lists their rows nearest first (`gatherNearest_spec`).

Key definitions: `Bounded`, `ranked`. Key theorems: `gatherLoop_spec`,
`gatherNearest_spec`.
-/
import MobilityDuck.IndexScan

namespace MobilityDuck

open Lib

variable {n : ℕ} {meos : Meos n} {δ : Type} [LinearOrder δ] {value : RowId → Option (List UInt8)}
  {exact : List UInt8 → Except Exception δ}

/-- The distance of a ranked row. -/
def rank (p : δ ×ₗ RowId) : δ := (ofLex p).1

theorem rank_monotone : Monotone (rank : δ ×ₗ RowId → δ) := by
  intro p q h
  rcases Prod.Lex.le_iff.mp h with h | h
  · exact h.le
  · exact h.1.le

/-- The candidates that have a distance, with it. -/
def ranked (value : RowId → Option (List UInt8)) (exact : List UInt8 → Except Exception δ)
    (candidates : List (RowId × δ)) : List (δ ×ₗ RowId) :=
  candidates.filterMap fun c => (value c.1).bind fun v =>
    match exact v with
    | .ok d => some (toLex (d, c.1))
    | .error _ => none

omit [LinearOrder δ] in
theorem ranked_append {value : RowId → Option (List UInt8)} {exact : List UInt8 → Except Exception δ}
    (candidates candidates' : List (RowId × δ)) : ranked value exact (candidates ++ candidates') =
      ranked value exact candidates ++ ranked value exact candidates' :=
  List.filterMap_append

/-- The cursor's promise: bounds do not decrease, and none exceeds the distance of its row, which
can be computed. -/
structure Bounded (value : RowId → Option (List UInt8)) (exact : List UInt8 → Except Exception δ)
    (candidates : List (RowId × δ)) : Prop where
  sorted : candidates.Pairwise (·.2 ≤ ·.2)
  le_exact : ∀ c ∈ candidates, ∀ v, value c.1 = some v → ∃ d, exact v = .ok d ∧ c.2 ≤ d

omit [LinearOrder δ] in
theorem mem_ranked {candidates : List (RowId × δ)} {p : δ ×ₗ RowId}
    (hp : p ∈ ranked value exact candidates) :
    ∃ c ∈ candidates, ∃ v, value c.1 = some v ∧ exact v = .ok (rank p) ∧ (ofLex p).2 = c.1 := by
  obtain ⟨c, hc, h⟩ := List.mem_filterMap.mp hp
  obtain ⟨v, hv, h⟩ := Option.bind_eq_some_iff.mp h
  refine ⟨c, hc, v, hv, ?_⟩
  cases hd : exact v with
  | error e =>
    rw [hd] at h
    simp at h
  | ok d =>
    rw [hd] at h
    obtain rfl := Option.some.inj h
    exact ⟨rfl, rfl⟩

/-- Where no value can be measured, the loop raises at the first one it reads. -/
theorem gatherLoop_error {k : ℕ} (hk : 0 < k) (hexact : ∀ id v, value id = some v → ∃ e, exact v = .error e) :
    ∀ {candidates : List (RowId × δ)}, (∃ c ∈ candidates, (value c.1).isSome) →
      ∃ e, gatherLoop k value exact candidates [] = .error e
  | [], h => by simp at h
  | (id, bound) :: rest, h => by
    have hgo : ¬ (k ≤ ([] : List (δ ×ₗ RowId)).length ∧
        ∀ w ∈ ([] : List (δ ×ₗ RowId)).head?, (ofLex w).1 ≤ bound) := by
      intro hstop
      exact absurd hstop.1 (Nat.not_le.mpr hk)
    rw [gatherLoop]
    rw [if_neg hgo]
    cases hv : value id with
    | none =>
      refine gatherLoop_error hk hexact ?_
      obtain ⟨c, hc, hsome⟩ := h
      rcases List.mem_cons.mp hc with rfl | hc
      · rw [hv] at hsome
        cases hsome
      · exact ⟨c, hc, hsome⟩
    | some v =>
      obtain ⟨e, he⟩ := hexact id v hv
      simp only [he]
      exact ⟨e, rfl⟩

/-- What a candidate ranks as is at least its bound. -/
theorem Bounded.le_rank {candidates : List (RowId × δ)} (h : Bounded value exact candidates) {bound : δ}
    (hb : ∀ c ∈ candidates, bound ≤ c.2) {p : δ ×ₗ RowId} (hp : p ∈ ranked value exact candidates) :
    bound ≤ rank p := by
  obtain ⟨c, hc, v, hv, he, -⟩ := mem_ranked hp
  obtain ⟨d, hd, hcd⟩ := h.le_exact c hc v hv
  rw [he] at hd
  exact (hb c hc).trans (Except.ok.inj hd ▸ hcd)

/-- Nothing in a queue is worse than its head. -/
theorem rank_le_head {best : List (δ ×ₗ RowId)} (hs : best.Pairwise (· ≥ ·)) {w : δ ×ₗ RowId}
    (hw : best.head? = some w) {p : δ ×ₗ RowId} (hp : p ∈ best) : rank p ≤ rank w := by
  cases best with
  | nil => simp at hp
  | cons b best =>
    obtain rfl : b = w := by simpa using hw
    rcases List.mem_cons.mp hp with rfl | hp
    · exact le_rfl
    · exact rank_monotone ((List.pairwise_cons.mp hs).1 p hp)

/-- **The loop keeps the `k` nearest.** The induction is on the candidates not read yet; `seen` are
the distances met so far. -/
theorem gatherLoop_spec {k : ℕ} (hk : 0 < k) :
    ∀ (candidates : List (RowId × δ)) (best seen : List (δ ×ₗ RowId)),
    Bounded value exact candidates → Best rank k seen best →
    ∃ best', gatherLoop k value exact candidates best = .ok best' ∧ best'.Pairwise (· ≥ ·) ∧
      IsTop rank k (seen ++ ranked value exact candidates) best'
  | [], best, seen, _, hbest => by
    refine ⟨best, rfl, hbest.sorted, ?_⟩
    rw [ranked, List.filterMap_nil, List.append_nil]
    exact hbest.toIsTop
  | (id, bound) :: rest, best, seen, hb, hbest => by
    have hrest : Bounded value exact rest :=
      ⟨(List.pairwise_cons.mp hb.sorted).2, fun c hc => hb.le_exact c (List.mem_cons_of_mem _ hc)⟩
    have hall : ∀ c ∈ (id, bound) :: rest, bound ≤ c.2 := by
      intro c hc
      rcases List.mem_cons.mp hc with rfl | hc
      · exact le_rfl
      · exact (List.pairwise_cons.mp hb.sorted).1 c hc
    rw [gatherLoop]
    by_cases hstop : k ≤ best.length ∧ ∀ w ∈ best.head?, (ofLex w).1 ≤ bound
    · -- every candidate from here on is at least as far as the worst held
      rw [if_pos hstop]
      have hfull : best.length = k := by
        have := hbest.length
        omega
      obtain ⟨w, hw⟩ : ∃ w, best.head? = some w := by
        cases hbs : best with
        | nil =>
          rw [hbs] at hfull
          simp at hfull
          omega
        | cons w _ => exact ⟨w, rfl⟩
      refine ⟨best, rfl, hbest.sorted, hbest.toIsTop.of_le hfull fun x hx y hy => ?_⟩
      calc rank y ≤ rank w := rank_le_head hbest.sorted hw hy
        _ ≤ bound := hstop.2 w hw
        _ ≤ rank x := hb.le_rank hall hx
    · rw [if_neg hstop]
      cases hv : value id with
      | none =>
        have hskip : ranked value exact ((id, bound) :: rest) = ranked value exact rest := by
          simp [ranked, hv]
        rw [hskip]
        exact gatherLoop_spec hk rest best seen hrest hbest
      | some v =>
        obtain ⟨d, hd, -⟩ := hb.le_exact (id, bound) List.mem_cons_self v hv
        have htake : ranked value exact ((id, bound) :: rest) = toLex (d, id) :: ranked value exact rest := by
          simp [ranked, hv, hd]
        rw [htake]
        simp only [hd]
        have := gatherLoop_spec hk rest _ _ hrest (hbest.push rank_monotone (toLex (d, id)))
        rwa [List.append_assoc, List.singleton_append] at this

/-- The candidates a scan ranks: those with a value, by its exact distance. -/
abbrev rankedCandidates (near : Nearest meos δ) (bind : IndexScanBindData meos) (table : Snapshot)
    (candidates : List (RowId × δ)) : List (δ ×ₗ RowId) :=
  ranked (recheckValue bind table)
    (fun v => exactDistance near bind.index.info.bboxType v bind.queryBox) candidates

/-- The rows `GatherNearest` answers: the `limit` nearest of all candidates, nearest first. -/
theorem gatherNearest_spec (near : Nearest meos δ) (bind : IndexScanBindData meos) (table : Snapshot)
    (candidates : List (RowId × δ))
    (hb : Bounded (recheckValue bind table)
      (fun v => exactDistance near bind.index.info.bboxType v bind.queryBox) candidates) :
    ∃ best : List (δ ×ₗ RowId), gatherNearest near bind table candidates =
      .ok (best.map fun p => (ofLex p).2) ∧
      best.Pairwise (· ≤ ·) ∧
      IsTop rank bind.limit (rankedCandidates near bind table candidates) best := by
  unfold gatherNearest
  by_cases hk : bind.limit = 0
  · rw [if_pos hk, hk]
    refine ⟨[], rfl, List.Pairwise.nil, by simp, ?_⟩
    exact ⟨_, by rw [List.append_nil], by simp⟩
  · rw [if_neg hk]
    obtain ⟨best, hbest, hs, htop⟩ :=
      gatherLoop_spec (Nat.pos_of_ne_zero hk) candidates [] [] hb (Best.nil rank _)
    refine ⟨best.reverse, ?_, ?_, ?_, ?_⟩
    · rw [hbest]
      rfl
    · exact List.pairwise_reverse.mpr hs
    · rw [List.length_reverse]
      exact htop.length
    · obtain ⟨out, hp, hout⟩ := htop.split
      refine ⟨out, hp.trans (best.reverse_perm.symm.append_left out), ?_⟩
      exact fun x hx y hy => hout x hx y (List.mem_reverse.mp hy)

/-- What `GatherNearest` answers is what its loop held at the end. -/
theorem gatherNearest_eq_ok {near : Nearest meos δ} {bind : IndexScanBindData meos} {table : Snapshot}
    {candidates : List (RowId × δ)} {answer : List RowId} (hlimit : bind.limit ≠ 0)
    (h : gatherNearest near bind table candidates = .ok answer) :
    ∃ best, gatherLoop bind.limit (recheckValue bind table)
      (fun v => exactDistance near bind.index.info.bboxType v bind.queryBox) candidates [] = .ok best ∧
      best.reverse.map (fun p => (ofLex p).2) = answer := by
  unfold gatherNearest at h
  rw [if_neg hlimit] at h
  cases hloop : gatherLoop bind.limit (recheckValue bind table)
      (fun v => exactDistance near bind.index.info.bboxType v bind.queryBox) candidates [] with
  | error e =>
    rw [hloop] at h
    cases h
  | ok best =>
    rw [hloop] at h
    exact ⟨best, rfl, Except.ok.inj h⟩

end MobilityDuck
