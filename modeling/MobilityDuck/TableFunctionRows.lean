/-
# What the functions in FROM hand out

The work of a row of the input is its rows of output, up to one that cannot
be written, or the exception of the call made for it (`rowWork`). Every turn
of the loop keeps what is written and what is left to write together
(`turn_rows`) and brings it to its end (`turn_decreases`). So however the
input is cut into chunks, the calls hand out the rows of all of it, in order,
in chunks that are neither empty nor longer than a vector, or raise the first
exception of the work (`handsOut_exact`).

Key definitions: `TableFunction.rowWork`, `TableFunction.remaining`. Key theorem: `handsOut_exact`.
-/
import MobilityDuck.TableFunction
import Mathlib.Tactic.Abel

namespace MobilityDuck

open Lib

/-- A column that writes any value. -/
def OutputColumn.Total {V W : Type} (column : OutputColumn V W) : Prop := ∀ v, ∃ y, column.write v = .ok y

namespace TableFunction

variable {X A V W : Type} (f : TableFunction X A V W)

/-! ### What there is to hand out -/

/-- A row of output over the values of a row of the answer. -/
def encodeRow (columns : List (OutputColumn V W)) (vals : List V) : Except Exception (List W) :=
  (columns.zip vals).mapM fun p => p.1.write p.2

/-- The rows MEOS answers for a row. -/
def rowsOf (xs : X × List X) : Except Exception (List (List V)) := do
  let copies ← f.copies.mapM fun copy => copy xs
  return (← f.accessor xs copies).getD []

/-- The rows of output over an answer. -/
def answerWork (answer : List (List V)) : Work (List W) Exception :=
  Work.concat (answer.map fun vals => Work.ofExcept (encodeRow f.columns vals))

/-- The rows of output over a row of the input. -/
def rowWork (x : InputRow X) : Work (List W) Exception :=
  match validRow x with
  | none => .nil
  | some xs =>
    match f.rowsOf xs with
    | .error e => ⟨[], some e⟩
    | .ok answer => f.answerWork answer

def inputWork (input : List (InputRow X)) : Work (List W) Exception := Work.concat (input.map f.rowWork)

/-- What the state holds and has not handed out. -/
def heldWork (st : TableState V) : Work (List W) Exception :=
  f.answerWork ((st.rows.drop st.idx).map (List.map Held.val))

/-- What is left of an input. -/
def remaining (input : List (InputRow X)) (st : TableState V) : Work (List W) Exception :=
  if st.loaded then (f.heldWork st).append (f.inputWork (input.drop (st.row + 1)))
  else f.inputWork (input.drop st.row)

omit f in
/-- Nothing is held for a row that was not loaded. -/
def Clean (st : TableState V) : Prop := st.loaded = false → st.arrays = [] ∧ st.rows = [] ∧ st.idx = 0

omit f in
/-- The numbers the state holds. -/
def ids (st : TableState V) : Multiset ℕ := (st.arrays : Multiset ℕ) + ((st.rows.drop st.idx).flatMap pointers : List ℕ)

/-- What is copied first for a row is copied whatever the row holds. -/
def CopiesFirst : Prop := ∃ copy copies, f.copies = copy :: copies ∧ ∀ xs, ∃ a, copy xs = .ok a

omit f in
/-- No column that may raise stands behind one of pointers. -/
def Orderly (columns : List (OutputColumn V W)) : Prop :=
  columns.Pairwise fun column later => column.pointer = true → later.Total

omit f in
/-- The values of a row stand in their columns, with a number exactly in those of pointers. -/
def Fits : List (OutputColumn V W) → List (Held V) → Prop
  | _, [] => True
  | [], _ :: _ => False
  | column :: columns, x :: xs => x.id.isSome = column.pointer ∧ Fits columns xs

/-- What holds of every state a call leaves. -/
structure WellFormed (st : TableState V) : Prop where
  clean : Clean st
  fits : ∀ row ∈ st.rows, Fits f.columns row

/-! ### What one function does -/

section Specs

omit f in
theorem pointers_cons (x : Held V) (xs : List (Held V)) : pointers (x :: xs) = x.id.toList ++ pointers xs := by
  rw [pointers, List.filterMap_cons]
  cases x.id <;> rfl

omit f in
/-- The values are copied, each numbered; one that raises leaves those before it. -/
theorem wp_copyArgs (xs : X × List X) : ∀ (copies : List (X × List X → Except Exception A))
    (w : TableWorld V), wp (copyArgs xs copies)
      (fun r w' => copies.mapM (fun copy => copy xs) = .ok (r.map Prod.snd) ∧
        r.length = copies.length ∧ w'.state = w.state ∧ w.ledger.Moves w'.ledger 0 (r.map Prod.fst : List ℕ))
      (fun e w' => copies.mapM (fun copy => copy xs) = .error e ∧ w'.state = w.state ∧
        ∃ ids : Multiset ℕ, w.ledger.Moves w'.ledger 0 ids ∧
          ((∀ copy ∈ copies.head?, ∃ a, copy xs = .ok a) → ids ≠ 0)) w
  | [], w => by
    rw [copyArgs, wp_pure]
    exact ⟨rfl, rfl, rfl, Ledger.Moves.refl _ _⟩
  | copy :: copies, w => by
    rw [copyArgs, wp_bind, wp_ofExcept]
    constructor
    · intro a ha
      rw [wp_bind, wp_malloc, wp_bind]
      refine (wp_copyArgs xs copies _).mono ?_ ?_
      · rintro r w' ⟨hr, hlen, hs, hm⟩
        refine ⟨?_, congrArg Nat.succ hlen, hs, Ledger.Moves.of_alloc hm⟩
        rw [List.mapM_cons, ha, hr]
        rfl
      · rintro e w' ⟨he, hs, ids, hm, -⟩
        refine ⟨?_, hs, {w.ledger.next} + ids, Ledger.Moves.of_alloc hm, fun _ => by simp⟩
        rw [List.mapM_cons, ha, he]
        rfl
    · intro e he
      refine ⟨?_, rfl, 0, Ledger.Moves.refl _ _, fun hcopy => ?_⟩
      · rw [List.mapM_cons, he]
        rfl
      · obtain ⟨a, ha⟩ := hcopy copy rfl
        rw [ha] at he
        cases he

omit f in
/-- A row of the answer holds the values MEOS answered, a pointer where the column has pointers. -/
theorem wp_storeRow : ∀ (columns : List (OutputColumn V W)) (vals : List V) (w : TableWorld V),
    wp (storeRow columns vals)
      (fun row w' => columns.zip (row.map Held.val) = columns.zip vals ∧ Fits columns row ∧
        w'.state = w.state ∧ w.ledger.Moves w'.ledger 0 (pointers row))
      (fun _ _ => False) w
  | [], vals, w => by
    rw [storeRow]
    · exact ⟨rfl, trivial, rfl, Ledger.Moves.refl _ _⟩
    · simp
  | column :: columns, [], w => by
    rw [storeRow]
    · exact ⟨rfl, trivial, rfl, Ledger.Moves.refl _ _⟩
    · simp
  | column :: columns, val :: vals, w => by
    rw [storeRow, wp_bind, newPointer]
    cases hp : column.pointer with
    | false =>
      rw [if_neg (by simp), wp_pure, wp_bind]
      refine (wp_storeRow columns vals w).mono ?_ fun _ _ h => h
      rintro row w' ⟨hz, hfit, hs, hm⟩
      refine ⟨?_, ⟨hp.symm, hfit⟩, hs, hm⟩
      rw [List.map_cons, List.zip_cons_cons, List.zip_cons_cons, hz]
    | true =>
      rw [if_pos rfl, wp_map, wp_malloc, wp_bind]
      refine (wp_storeRow columns vals _).mono ?_ fun _ _ h => h
      rintro row w' ⟨hz, hfit, hs, hm⟩
      refine ⟨?_, ⟨hp.symm, hfit⟩, hs, Ledger.Moves.of_alloc hm⟩
      rw [List.map_cons, List.zip_cons_cons, List.zip_cons_cons, hz]

omit f in
theorem wp_storeRows (columns : List (OutputColumn V W)) : ∀ (answer : List (List V)) (w : TableWorld V),
    wp (storeRows columns answer)
      (fun rows w' => rows.map (fun row => columns.zip (row.map Held.val)) = answer.map columns.zip ∧
        (∀ row ∈ rows, Fits columns row) ∧ w'.state = w.state ∧
        w.ledger.Moves w'.ledger 0 (rows.flatMap pointers : List ℕ))
      (fun _ _ => False) w
  | [], w => ⟨rfl, by simp, rfl, Ledger.Moves.refl _ _⟩
  | vals :: answer, w => by
    rw [storeRows, wp_bind]
    refine (wp_storeRow columns vals w).mono ?_ fun _ _ h => h
    rintro row w' ⟨hz, hfit, hs, hm⟩
    rw [wp_bind]
    refine (wp_storeRows columns answer w').mono ?_ fun _ _ h => h
    rintro rows w'' ⟨hz', hfit', hs', hm'⟩
    refine ⟨?_, List.forall_mem_cons.mpr ⟨hfit, hfit'⟩, hs'.trans hs, ?_⟩
    · rw [List.map_cons, List.map_cons, hz, hz']
    · have h := hm'.frame (pointers row)
      rw [zero_add, add_comm, Multiset.coe_add] at h
      exact hm.trans h

omit f in
theorem wp_newArrays : ∀ (columns : List (OutputColumn V W)) (w : TableWorld V),
    wp (newArrays columns)
      (fun arrays w' => w'.state = w.state ∧ w.ledger.Moves w'.ledger 0 (arrays : List ℕ))
      (fun _ _ => False) w
  | [], w => ⟨rfl, Ledger.Moves.refl _ _⟩
  | _ :: columns, w => by
    rw [newArrays, wp_bind, wp_malloc, wp_bind]
    refine (wp_newArrays columns _).mono ?_ fun _ _ h => h
    rintro arrays w' ⟨hs, hm⟩
    exact ⟨hs, Ledger.Moves.of_alloc hm⟩

/-- The answer goes into a state that holds nothing. -/
theorem wp_store (answer : Option (List (List V))) {w : TableWorld V}
    (harrays : w.state.arrays = []) (hrows : w.state.rows = []) (hidx : w.state.idx = 0) :
    wp (f.store answer)
      (fun _ w' => w'.state.row = w.state.row ∧ f.heldWork w'.state = f.answerWork (answer.getD []) ∧
        (∀ row ∈ w'.state.rows, Fits f.columns row) ∧ w.ledger.Moves w'.ledger 0 (ids w'.state))
      (fun _ _ => False) w := by
  cases answer with
  | none =>
    rw [store, wp_pure]
    refine ⟨rfl, ?_, by simp [hrows], ?_⟩
    · rw [heldWork, hrows, List.drop_nil]
      rfl
    · rw [ids, harrays, hrows, List.drop_nil]
      exact Ledger.Moves.refl _ _
  | some answer =>
    rw [store, wp_bind]
    refine (wp_newArrays f.columns w).mono ?_ fun _ _ h => h
    rintro arrays w' ⟨hs, hm⟩
    rw [wp_bind]
    refine (wp_storeRows f.columns answer w').mono ?_ fun _ _ h => h
    rintro rows w'' ⟨hz, hfit, hs', hm'⟩
    rw [wp_bind, wp_tableState, wp_setTableState, hs', hs, hidx]
    refine ⟨rfl, ?_, hfit, ?_⟩
    · have h := congrArg (List.map fun z : List (OutputColumn V W × V) =>
        Work.ofExcept (z.mapM fun p => p.1.write p.2)) hz
      rw [List.map_map, List.map_map] at h
      rw [heldWork, answerWork, List.drop_zero, List.map_map]
      exact congrArg Work.concat h
    · have h := hm'.frame arrays
      rw [zero_add, add_comm] at h
      exact hm.trans h

/-- The call for a row leaves its work in the state, or raises its exception and loses what was
copied for it. -/
theorem wp_answer (x : InputRow X) {w : TableWorld V}
    (harrays : w.state.arrays = []) (hrows : w.state.rows = []) (hidx : w.state.idx = 0) :
    wp (f.answer x)
      (fun _ w' => w'.state.row = w.state.row ∧ f.heldWork w'.state = f.rowWork x ∧
        (∀ row ∈ w'.state.rows, Fits f.columns row) ∧ w.ledger.Moves w'.ledger 0 (ids w'.state))
      (fun e w' => f.rowWork x = ⟨[], some e⟩ ∧ w'.state = w.state ∧
        ∃ lost : Multiset ℕ, w.ledger.Moves w'.ledger 0 lost ∧ (f.CopiesFirst → lost ≠ 0)) w := by
  rw [answer, rowWork]
  cases hx : validRow x with
  | none => exact f.wp_store none harrays hrows hidx
  | some xs =>
    rw [wp_bind]
    refine (wp_copyArgs xs f.copies w).mono ?_ ?_
    · rintro copies w' ⟨hcopies, hlen, hs, hm⟩
      rw [wp_bind, wp_ofExcept]
      have hanswer : f.rowsOf xs = (f.accessor xs (copies.map Prod.snd)).map (Option.getD · []) := by
        rw [rowsOf, hcopies]
        rfl
      constructor
      · intro answer ha
        rw [ha] at hanswer
        rw [wp_bind]
        refine (f.wp_store answer (by rw [hs, harrays]) (by rw [hs, hrows]) (by rw [hs, hidx])).mono ?_ fun _ _ h => h.elim
        rintro _ w'' ⟨hrow, hheld, hfit, hm'⟩
        refine ⟨hrow.trans (congrArg TableState.row hs), ?_, hfit, ?_⟩
        · simp only [hanswer]
          exact hheld
        · have hstored := hm'.frame (copies.map Prod.fst : List ℕ)
          have hfreed := (Ledger.moves_freeAll w''.ledger (copies.map Prod.fst)).frame (ids w''.state)
          rw [zero_add] at hstored hfreed
          rw [add_comm] at hfreed
          exact (hm.trans hstored).trans hfreed
      · intro e he
        rw [he] at hanswer
        refine ⟨by simp only [hanswer]; rfl, hs, _, hm, ?_⟩
        rintro ⟨copy, rest, hcopy, -⟩ hnil
        have hcard := congrArg Multiset.card hnil
        rw [Multiset.coe_card, List.length_map, hlen, hcopy] at hcard
        exact absurd hcard (Nat.succ_ne_zero _)
    · rintro e w' ⟨he, hs, lost, hm, hlost⟩
      have hanswer : f.rowsOf xs = .error e := by
        rw [rowsOf, he]
        rfl
      refine ⟨by simp only [hanswer], hs, lost, hm, ?_⟩
      rintro ⟨copy, rest, hcopy, hok⟩
      refine hlost fun copy' hcopy' => ?_
      rw [hcopy, List.head?_cons, Option.mem_some_iff] at hcopy'
      exact hcopy' ▸ hok xs

theorem wp_load (x : InputRow X) {w : TableWorld V} (hload : w.state.loaded = false) (hclean : Clean w.state) :
    wp (f.load x)
      (fun _ w' => w'.state.loaded = true ∧ w'.state.row = w.state.row ∧ f.heldWork w'.state = f.rowWork x ∧
        (∀ row ∈ w'.state.rows, Fits f.columns row) ∧ w.ledger.Moves w'.ledger 0 (ids w'.state))
      (fun e w' => f.rowWork x = ⟨[], some e⟩ ∧ w'.state = w.state ∧
        ∃ lost : Multiset ℕ, w.ledger.Moves w'.ledger 0 lost ∧ (f.CopiesFirst → lost ≠ 0)) w := by
  obtain ⟨harrays, hrows, hidx⟩ := hclean hload
  rw [load, wp_bind]
  refine (f.wp_answer x harrays hrows hidx).mono ?_ fun _ _ h => h
  rintro _ w' ⟨hrow, hheld, hfit, hm⟩
  rw [wp_bind, wp_tableState, wp_setTableState]
  exact ⟨rfl, hrow, hheld, hfit, hm⟩

omit f in
/-- Where no column raises, a row is written. -/
theorem wp_writeRow_of_total : ∀ (columns : List (OutputColumn V W)) (row : List (Held V)) (w : TableWorld V),
    (∀ column ∈ columns, column.Total) → wp (writeRow columns row) (fun _ _ => True) (fun _ _ => False) w
  | [], _, _, _ => by
    rw [writeRow]
    · trivial
    · simp
  | _ :: _, [], _, _ => by
    rw [writeRow]
    · trivial
    · simp
  | column :: columns, x :: xs, w, htotal => by
    rw [writeRow, wp_bind, wp_ofExcept]
    rw [List.forall_mem_cons] at htotal
    constructor
    · intro y _
      rw [wp_bind, wp_freeIds, wp_bind]
      exact (wp_writeRow_of_total columns xs _ htotal.2).mono (fun _ _ h => h) fun _ _ h => h
    · intro e he
      obtain ⟨y, hy⟩ := htotal.1 x.val
      rw [hy] at he
      cases he

omit f in
/-- A row is written and its pointers are freed. One that cannot be written is untouched if no column
that raises stands behind one of pointers. -/
theorem wp_writeRow : ∀ (columns : List (OutputColumn V W)) (row : List (Held V)) (w : TableWorld V),
    Fits columns row → wp (writeRow columns row)
      (fun ys w' => encodeRow columns (row.map Held.val) = .ok ys ∧ w'.state = w.state ∧
        w.ledger.Moves w'.ledger (pointers row) 0)
      (fun e w' => encodeRow columns (row.map Held.val) = .error e ∧ w'.state = w.state ∧
        (Orderly columns → w' = w)) w
  | columns, [], w, _ => by
    rw [writeRow]
    · refine ⟨?_, rfl, Ledger.Moves.refl _ _⟩
      rw [encodeRow, List.map_nil, List.zip_nil_right]
      rfl
    · simp
  | [], _ :: _, _, hfit => hfit.elim
  | column :: columns, x :: xs, w, ⟨hid, hfit⟩ => by
    rw [writeRow, wp_bind, wp_ofExcept]
    constructor
    · intro y hy
      rw [wp_bind, wp_freeIds, wp_bind]
      have hzip : encodeRow (column :: columns) ((x :: xs).map Held.val) =
          (encodeRow columns (xs.map Held.val)).map (y :: ·) := by
        rw [encodeRow, List.map_cons, List.zip_cons_cons, List.mapM_cons, hy]
        rfl
      have hnever : wp (writeRow columns xs) (fun _ _ => True)
          (fun _ _ => ¬ (Orderly (column :: columns) ∧ column.pointer = true))
          { w with ledger := w.ledger.freeAll x.id.toList } := by
        by_cases h : Orderly (column :: columns) ∧ column.pointer = true
        · have htotal := fun later hlater => (List.pairwise_cons.mp h.1).1 later hlater h.2
          exact (wp_writeRow_of_total columns xs _ htotal).mono (fun _ _ h => h) fun _ _ h => h.elim
        · exact (wp_writeRow columns xs _ hfit).mono (fun _ _ _ => trivial) fun _ _ _ => h
      refine ((wp_writeRow columns xs _ hfit).and hnever).mono ?_ ?_
      · rintro ys w' ⟨⟨hys, hs, hm⟩, -⟩
        refine ⟨by rw [hzip, hys]; rfl, hs, ?_⟩
        have hfreed := (Ledger.moves_freeAll w.ledger x.id.toList).frame (pointers xs)
        rw [zero_add, Multiset.coe_add, ← pointers_cons] at hfreed
        exact hfreed.trans hm
      · rintro e w' ⟨⟨he, hs, hw⟩, hor⟩
        refine ⟨by rw [hzip, he]; rfl, hs, fun h => ?_⟩
        rw [hw (List.pairwise_cons.mp h).2]
        have hnone : x.id = none := by
          have hsome : x.id.isSome = false := hid.trans (Bool.eq_false_iff.mpr fun hp => hor ⟨h, hp⟩)
          exact Option.not_isSome_iff_eq_none.mp (Bool.eq_false_iff.mp hsome)
        rw [hnone]
        rfl
    · intro e he
      refine ⟨?_, rfl, fun _ => rfl⟩
      rw [encodeRow, List.map_cons, List.zip_cons_cons, List.mapM_cons, he]
      rfl

omit f in
theorem wp_release {w : TableWorld V} :
    wp release
      (fun _ w' => w'.state = { w.state with arrays := [], rows := [], idx := 0 } ∧
        w.ledger.Moves w'.ledger (ids w.state) 0)
      (fun _ _ => False) w := by
  rw [release, wp_bind, wp_tableState, wp_bind, wp_freeIds, wp_bind, wp_freeIds, wp_setTableState]
  refine ⟨rfl, ?_⟩
  have hrows := (Ledger.moves_freeAll w.ledger ((w.state.rows.drop w.state.idx).flatMap pointers)).frame w.state.arrays
  rw [zero_add, add_comm] at hrows
  exact hrows.trans (Ledger.moves_freeAll _ _)

/-- What a turn does with an answer: it writes the next row of it, or releases it at its end. -/
theorem wp_emit (out : List (List W)) {w : TableWorld V} (hfit : ∀ row ∈ w.state.rows, Fits f.columns row) :
    wp (f.emit out)
      (fun r w' =>
        (r = .inl out ∧ f.heldWork w.state = .nil ∧
          w'.state = ⟨[], [], 0, w.state.row + 1, false⟩ ∧ w.ledger.Moves w'.ledger (ids w.state) 0) ∨
        ∃ ys, r = .inl (out ++ [ys]) ∧
          f.heldWork w.state = (f.heldWork w'.state).behind [ys] ∧
          w'.state = { w.state with idx := w.state.idx + 1 } ∧
          w.ledger.Moves w'.ledger (ids w.state) (ids w'.state))
      (fun e w' => (f.heldWork w.state).failure = some e ∧ w'.state = w.state ∧
        (Orderly f.columns → w' = w)) w := by
  rw [emit, wp_bind, wp_tableState]
  cases hrow : w.state.rows[w.state.idx]? with
  | none =>
    have hdrop : w.state.rows.drop w.state.idx = [] := List.drop_eq_nil_of_le (List.getElem?_eq_none_iff.mp hrow)
    rw [wp_bind]
    refine wp_release.mono ?_ fun _ _ h => h.elim
    rintro _ w' ⟨hs, hm⟩
    rw [wp_bind, wp_tableState, wp_bind, wp_setTableState]
    refine .inl ⟨rfl, ?_, by rw [hs], hm⟩
    rw [heldWork, hdrop]
    rfl
  | some row =>
    obtain ⟨hlt, hget⟩ := List.getElem?_eq_some_iff.mp hrow
    have hdrop : w.state.rows.drop w.state.idx = row :: w.state.rows.drop (w.state.idx + 1) := by
      rw [List.drop_eq_getElem_cons hlt, hget]
    have hmem : row ∈ w.state.rows := hget ▸ List.getElem_mem hlt
    rw [wp_bind]
    refine (wp_writeRow f.columns row w (hfit row hmem)).mono ?_ ?_
    · rintro ys w' ⟨hys, hs, hm⟩
      rw [wp_bind, wp_tableState, wp_bind, wp_setTableState, hs]
      refine .inr ⟨ys, rfl, ?_, rfl, ?_⟩
      · rw [heldWork, hdrop, List.map_cons, answerWork, List.map_cons, hys]
        rfl
      · have h := hm.frame (ids { w.state with idx := w.state.idx + 1 })
        rw [zero_add] at h
        have hids : ids w.state = (pointers row : Multiset ℕ) + ids { w.state with idx := w.state.idx + 1 } := by
          rw [ids, ids, hdrop, List.flatMap_cons, ← Multiset.coe_add]
          abel
        rw [hids]
        exact h
    · rintro e w' ⟨he, hs, hw⟩
      refine ⟨?_, hs, hw⟩
      rw [heldWork, hdrop, List.map_cons, answerWork, List.map_cons, he]
      rfl

/-! ### A turn -/

theorem wellFormed_released (row : ℕ) : f.WellFormed ⟨[], [], 0, row, false⟩ :=
  ⟨fun _ => ⟨rfl, rfl, rfl⟩, fun _ h => absurd h List.not_mem_nil⟩

omit f in
/-- The turns that are left to a call: a row written or a row of the input ended each, and one more
where the state holds an answer for a row the input does not have. -/
def turnsLeft (input : List (InputRow X)) (out : List (List W)) (w : TableWorld V) : ℕ :=
  (standardVectorSize - out.length) + (input.length - w.state.row) +
    if input.length ≤ w.state.row ∧ w.state.loaded = true then 1 else 0

theorem remaining_of_loaded {st : TableState V} (h : st.loaded = true) (input : List (InputRow X)) :
    f.remaining input st = (f.heldWork st).append (f.inputWork (input.drop (st.row + 1))) := if_pos h

theorem remaining_of_not_loaded {st : TableState V} (h : st.loaded = false) (input : List (InputRow X)) :
    f.remaining input st = f.inputWork (input.drop st.row) := if_neg (by rw [h]; decide)

/-- A turn over an answer that is there. -/
theorem wp_emit_turn (input : List (InputRow X)) {out : List (List W)} {w : TableWorld V}
    (hwf : f.WellFormed w.state) (hload : w.state.loaded = true) (hout : out.length < standardVectorSize) :
    wp (f.emit out)
      (fun r w' => f.WellFormed w'.state ∧ w.ledger.Moves w'.ledger (ids w.state) (ids w'.state) ∧
        ∃ out', r = .inl out' ∧
          (f.remaining input w.state).behind out = (f.remaining input w'.state).behind out' ∧
          out'.length ≤ standardVectorSize ∧ turnsLeft input out' w' < turnsLeft input out w)
      (fun e w' => (f.remaining input w.state).failure = some e ∧ w'.state = w.state ∧
        (Orderly f.columns → w' = w)) w := by
  refine (f.wp_emit out hwf.fits).mono ?_ ?_
  · rintro r w' (⟨rfl, hheld, hs, hm⟩ | ⟨ys, rfl, hheld, hs, hm⟩)
    · refine ⟨?_, ?_, out, rfl, ?_, hout.le, ?_⟩
      · rw [hs]
        exact f.wellFormed_released _
      · rw [hs]
        exact hm
      · rw [f.remaining_of_loaded hload, hheld, hs, f.remaining_of_not_loaded rfl]
        rfl
      · rw [turnsLeft, turnsLeft, hs, hload]
        by_cases hle : input.length ≤ w.state.row
        · simp [hle]
          omega
        · simp [hle]
          omega
    · have hload' : w'.state.loaded = true := by rw [hs, hload]
      have hrow : w'.state.row = w.state.row := by rw [hs]
      refine ⟨⟨fun h => absurd (hload'.symm.trans h) (by decide), by rw [hs]; exact hwf.fits⟩, hm, out ++ [ys], rfl,
        ?_, ?_, ?_⟩
      · rw [f.remaining_of_loaded hload, f.remaining_of_loaded hload', hheld, hrow, Work.append_behind,
          Work.behind_append]
      · rw [List.length_append]
        exact hout
      · rw [turnsLeft, turnsLeft, hrow, hload, hload', List.length_append, List.length_singleton]
        omega
  · rintro e w' ⟨he, hs, hw⟩
    refine ⟨?_, hs, hw⟩
    rw [f.remaining_of_loaded hload, Work.append, he]
    exact he

omit f in
/-- Between two inputs. -/
def Idle (st : TableState V) : Prop := st.row = 0 ∧ st.loaded = false

/-- How a call ends with `out` written: it answers that, or asks for more input with nothing written
and nothing left. -/
def Ends (input : List (InputRow X)) (out : List (List W)) (w : TableWorld V)
    (answer : OperatorResult × List (List W)) (w' : TableWorld V) : Prop :=
  (answer = (.haveMoreOutput, out) ∧ out ≠ [] ∧ w' = w) ∨
    (answer = (.needMoreInput, []) ∧ out = [] ∧ f.remaining input w.state = .nil ∧ Idle w'.state)

/-- What is gone after an exception: what was copied for the row that was not loaded. -/
def Lost (w w' : TableWorld V) : Prop :=
  f.CopiesFirst → Orderly f.columns → ∃ lost : Multiset ℕ,
    w.ledger.Moves w'.ledger (ids w.state) (ids w'.state + lost) ∧ (lost = 0 ↔ w'.state.loaded = true)

theorem wp_turn (input : List (InputRow X)) {out : List (List W)} {w : TableWorld V}
    (hwf : f.WellFormed w.state) (hout : out.length ≤ standardVectorSize) :
    wp (f.turn input out)
      (fun r w' => f.WellFormed w'.state ∧ w.ledger.Moves w'.ledger (ids w.state) (ids w'.state) ∧
        r.elim
          (fun out' => (f.remaining input w.state).behind out = (f.remaining input w'.state).behind out' ∧
            out'.length ≤ standardVectorSize ∧ turnsLeft input out' w' < turnsLeft input out w)
          (f.Ends input out w · w'))
      (fun e w' => (f.remaining input w.state).failure = some e ∧ f.WellFormed w'.state ∧ f.Lost w w') w := by
  rw [turn]
  by_cases hfull : standardVectorSize ≤ out.length
  · rw [if_pos hfull]
    refine ⟨hwf, Ledger.Moves.refl _ _, .inl ⟨rfl, ?_, rfl⟩⟩
    rintro rfl
    exact absurd (show standardVectorSize ≤ 0 from hfull) (by decide)
  · rw [if_neg hfull, wp_bind, wp_tableState]
    have hlt : out.length < standardVectorSize := by omega
    cases hload : w.state.loaded with
    | true =>
      rw [if_pos rfl]
      refine (f.wp_emit_turn input hwf hload hlt).mono ?_ ?_
      · rintro r w' ⟨hwf', hm, out', rfl, h⟩
        exact ⟨hwf', hm, h⟩
      · rintro e w' ⟨he, hs, hw⟩
        refine ⟨he, hs ▸ hwf, fun _ hor => ⟨0, ?_, ?_⟩⟩
        · rw [hw hor, add_zero]
          exact Ledger.Moves.refl _ _
        · exact iff_of_true rfl (hs ▸ hload)
    | false =>
      rw [if_neg (by decide)]
      have hids : ids w.state = 0 := by
        obtain ⟨harrays, hrows, -⟩ := hwf.clean hload
        rw [ids, harrays, hrows, List.drop_nil]
        rfl
      cases hx : input[w.state.row]? with
      | none =>
        have hdrop : input.drop w.state.row = [] := List.drop_eq_nil_of_le (List.getElem?_eq_none_iff.mp hx)
        by_cases hpos : 0 < out.length
        · rw [if_pos hpos]
          exact ⟨hwf, Ledger.Moves.refl _ _, .inl ⟨rfl, List.ne_nil_of_length_pos hpos, rfl⟩⟩
        · rw [if_neg hpos, wp_bind, wp_setTableState]
          have hnil : out = [] := List.length_eq_zero_iff.mp (by omega)
          refine ⟨⟨fun _ => hwf.clean hload, hwf.fits⟩, Ledger.Moves.refl _ _, .inr ⟨rfl, hnil, ?_, rfl, rfl⟩⟩
          rw [f.remaining_of_not_loaded hload, hdrop]
          rfl
      | some x =>
        obtain ⟨hrow, hget⟩ := List.getElem?_eq_some_iff.mp hx
        have hwork : f.remaining input w.state = (f.rowWork x).append (f.inputWork (input.drop (w.state.row + 1))) := by
          rw [f.remaining_of_not_loaded hload, List.drop_eq_getElem_cons hrow, hget]
          rfl
        rw [wp_bind]
        refine (f.wp_load x hload hwf.clean).mono ?_ ?_
        · rintro _ w' ⟨hload', hrow', hheld, hfit, hm⟩
          have hwf' : f.WellFormed w'.state := ⟨fun h => absurd (hload'.symm.trans h) (by decide), hfit⟩
          have hwork' : f.remaining input w'.state = f.remaining input w.state := by
            rw [f.remaining_of_loaded hload', hheld, hrow', hwork]
          have hturns : turnsLeft input out w' = turnsLeft input out w := by
            have hle : ¬ input.length ≤ w.state.row := by omega
            simp only [turnsLeft, hrow', hle, false_and]
          refine (f.wp_emit_turn input hwf' hload' hlt).mono ?_ ?_
          · rintro r w'' ⟨hwf'', hm', out', rfl, h⟩
            rw [hwork', hturns] at h
            exact ⟨hwf'', hids ▸ hm.trans hm', h⟩
          · rintro e w'' ⟨he, hs, hw⟩
            refine ⟨hwork' ▸ he, hs ▸ hwf', fun _ hor => ⟨0, ?_, ?_⟩⟩
            · rw [hw hor, add_zero, hids]
              exact hm
            · exact iff_of_true rfl (hs ▸ hload')
        · rintro e w' ⟨he, hs, lost, hm, hlost⟩
          refine ⟨?_, hs ▸ hwf, fun hfirst _ => ⟨lost, ?_, ?_⟩⟩
          · rw [hwork, he]
            rfl
          · rw [hs, hids, zero_add]
            exact hm
          · rw [hs, hload]
            exact iff_of_false (hlost hfirst) (by decide)

/-! ### A call -/

/-- A call asks for more input when nothing is left of this one, or answers some of what is left. -/
theorem wp_inOut (input : List (InputRow X)) {w : TableWorld V} (hwf : f.WellFormed w.state) :
    wp (f.inOut input)
      (fun answer w' => f.WellFormed w'.state ∧ w.ledger.Moves w'.ledger (ids w.state) (ids w'.state) ∧
        ((answer = (.needMoreInput, []) ∧ f.remaining input w.state = .nil ∧ Idle w'.state) ∨
          ∃ out, answer = (.haveMoreOutput, out) ∧ out ≠ [] ∧ out.length ≤ standardVectorSize ∧
            f.remaining input w.state = (f.remaining input w'.state).behind out))
      (fun e w' => (f.remaining input w.state).failure = some e ∧ f.WellFormed w'.state ∧ f.Lost w w') w := by
  let inv : List (List W) → TableWorld V → Prop := fun out w' =>
    f.WellFormed w'.state ∧ w.ledger.Moves w'.ledger (ids w.state) (ids w'.state) ∧
      f.remaining input w.state = (f.remaining input w'.state).behind out ∧ out.length ≤ standardVectorSize
  let done : OperatorResult × List (List W) → TableWorld V → Prop := fun answer w' =>
    f.WellFormed w'.state ∧ w.ledger.Moves w'.ledger (ids w.state) (ids w'.state) ∧
      ((answer = (.needMoreInput, []) ∧ f.remaining input w.state = .nil ∧ Idle w'.state) ∨
        ∃ out, answer = (.haveMoreOutput, out) ∧ out ≠ [] ∧ out.length ≤ standardVectorSize ∧
          f.remaining input w.state = (f.remaining input w'.state).behind out)
  let raised : Exception → TableWorld V → Prop := fun e w' =>
    (f.remaining input w.state).failure = some e ∧ f.WellFormed w'.state ∧ f.Lost w w'
  have hstart : inv [] w := ⟨hwf, Ledger.Moves.refl _ _, rfl, Nat.zero_le _⟩
  have hturn : ∀ out w', inv out w' → wp (f.turn input out)
      (fun r w'' => r.elim (fun out' => inv out' w'' ∧ turnsLeft input out' w'' < turnsLeft input out w')
        (done · w'')) raised w' := by
    rintro out w' ⟨hwf', hm, hrem, hout⟩
    refine (f.wp_turn input hwf' hout).mono ?_ ?_
    · rintro (out' | answer) w'' ⟨hwf'', hm', h⟩
      · obtain ⟨hrem', hout', hlt⟩ := h
        exact ⟨⟨hwf'', hm.trans hm', hrem.trans hrem', hout'⟩, hlt⟩
      · refine ⟨hwf'', hm.trans hm', ?_⟩
        rcases h with ⟨rfl, hne, rfl⟩ | ⟨rfl, rfl, hnil, hidle⟩
        · exact .inr ⟨out, rfl, hne, hout, hrem⟩
        · exact .inl ⟨rfl, hrem.trans hnil, hidle⟩
    · rintro e w'' ⟨he, hwf'', hlost⟩
      refine ⟨by rw [hrem]; exact he, hwf'', fun hfirst hor => ?_⟩
      obtain ⟨lost, hm', hl⟩ := hlost hfirst hor
      exact ⟨lost, hm.trans hm', hl⟩
  rw [inOut, wp_bind]
  refine (wp_loop_of_state (turnsLeft input) hturn _ [] w hstart).mono ?_ fun _ _ h => h
  rintro (_ | answer) w' h
  · have hle : standardVectorSize + input.length + 2 ≤ turnsLeft input ([] : List (List W)) w := h
    rw [turnsLeft, List.length_nil] at hle
    split at hle <;> omega
  · exact h

end Specs

/-! ### Every input -/

/-- The chunks hold the rows, none is empty, and none has more than a vector of them. -/
def HandsOut (rows : List (List W)) (chunks : List (List (List W))) : Prop :=
  chunks.flatten = rows ∧ ∀ chunk ∈ chunks, chunk ≠ [] ∧ chunk.length ≤ standardVectorSize

omit f in
theorem HandsOut.append {rows rows' : List (List W)} {chunks chunks' : List (List (List W))}
    (h : HandsOut rows chunks) (h' : HandsOut rows' chunks') : HandsOut (rows ++ rows') (chunks ++ chunks') :=
  ⟨by rw [List.flatten_append, h.1, h'.1], List.forall_mem_append.mpr ⟨h.2, h'.2⟩⟩

/-- The world a call finds when `work` is left of its input. -/
def Left (input : List (InputRow X)) (work : Work (List W) Exception) (w : TableWorld V) : Prop :=
  f.WellFormed w.state ∧ f.remaining input w.state = work

def Ready (w : TableWorld V) : Prop := f.WellFormed w.state ∧ Idle w.state

theorem execute_gets_on (input : List (InputRow X)) (work : Work (List W) Exception) (w : TableWorld V)
    (h : f.Left input work w) :
    GetsOn HandsOut (f.Left input) f.Ready work (f.execute input w) := by
  obtain ⟨hwf, rfl⟩ := h
  have hcall := f.wp_inOut input hwf
  rw [execute]
  cases hr : (f.inOut input).run w with
  | error e w' => exact .raises (hcall.of_run_error hr).1 rfl
  | ok answer w' =>
    obtain ⟨hwf', -, ⟨rfl, hnil, hidle⟩ | ⟨out, rfl, hne, hlen, hrem⟩⟩ := hcall.of_run_ok hr
    · rw [hnil]
      exact .ends rfl rfl ⟨rfl, by simp⟩ ⟨hwf', hidle⟩
    · rw [hrem]
      exact .goes_on rfl rfl hne rfl ⟨by simp, by simpa using ⟨hne, hlen⟩⟩ ⟨hwf', rfl⟩

/-- However the input is cut into chunks, the rows of all of it are handed out in order, or the first
exception of the work is raised. -/
theorem handsOut_exact (inputs : List (List (InputRow X))) : ∃ calls, ∀ fuel ≥ calls,
    (f.inputWork inputs.flatten).Answered HandsOut (drainAll f.execute .diverges fuel inputs start) := by
  let size : List (InputRow X) → ℕ := fun input => (f.inputWork input).items.length
  have hwork : f.inputWork inputs.flatten = Work.concat (inputs.map f.inputWork) := by
    rw [inputWork, List.map_flatten, ← Work.concat_flatten, List.map_map]
    rfl
  refine ⟨(inputs.map size).sum + 1, fun fuel hfuel => ?_⟩
  rw [hwork]
  refine drainAll_spec HandsOut.append .diverges f.execute_gets_on ?_ ⟨rfl, by simp⟩ inputs start
    ⟨f.wellFormed_released 0, rfl, rfl⟩ ?_
  · rintro input w ⟨hwf, hrow, hload⟩
    refine ⟨hwf, ?_⟩
    rw [f.remaining_of_not_loaded hload, hrow, List.drop_zero]
  · intro input hinput
    have hle : size input ≤ (inputs.map size).sum :=
      List.single_le_sum (by simp) _ (List.mem_map_of_mem hinput)
    show size input < fuel
    omega

end TableFunction

end MobilityDuck
