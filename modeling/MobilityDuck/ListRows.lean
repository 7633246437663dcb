/-
# What the functions that answer lists leave behind

Each body of `ListAnswer` keeps the rows so far in the column and its end behind
them (`Filled`), so a row that is written does not touch the rows before it, and a
NULL may say anything of its elements. Called chunk after chunk, a function answers
every row as its `answer` says, up to the first row that raises, and what was
obtained for a row is released as it ends. Only what was held for the row that
raised is lost: the operands of a call that raises, and the arrays and the elements
left of an answer that cannot be written.

Key definitions: `Filled`, `RowSpec`. Key theorems: `generated_run`, `genPairs_run`, `genMapped_run`.
-/
import MobilityDuck.ListAnswer
import Mathlib.Data.List.Forall2

namespace MobilityDuck

open Lib Lib.Books MonadExcept

namespace Listing

variable {V W : Type}

/-- The elements of an answer. -/
def elements (arr : Reply V) : List V := ((arr.map Prod.snd).getD []).map Prod.snd

/-- The numbers that an answer holds. -/
def ids (arr : Reply V) : Multiset ℕ :=
  (((arr.map Prod.fst).getD [] : List ℕ) : Multiset ℕ) + (((arr.map Prod.snd).getD []).flatMap Prod.fst : List ℕ)

/-- What an answer keeps when the writing of an element raises. -/
def kept (write : V → Except Exception (Option W)) (arr : Reply V) : ℕ :=
  ((arr.map Prod.fst).getD []).length +
    ((((arr.map Prod.snd).getD []).dropWhile fun x => (write x.2).toBool).map (·.1.length)).sum

theorem mapM_ok {U : Type} (write : V → U) (vals : List V) :
    vals.mapM (fun v => (.ok (write v) : Except Exception U)) = .ok (vals.map write) := by
  induction vals with
  | nil => rfl
  | cons v vals ih =>
    rw [List.mapM_cons, ih]
    rfl

/-- What MEOS answers is handed over: the arrays, and for each element as much as it holds. -/
structure Handed (arrays : ℕ) (held : V → ℕ) (vals : Option (List V)) (arr : Reply V) : Prop where
  isSome : arr.isSome = vals.isSome
  elements_eq : elements arr = vals.getD []
  length_arrays : ∀ r ∈ arr, r.1.length = arrays
  length_held : ∀ r ∈ arr, ∀ x ∈ r.2, x.1.length = held x.2

theorem wp_answered (arrays : ℕ) (held : V → ℕ) (vals : Option (List V)) (b : Books (ListVector W)) :
    wp (answered arrays held vals)
      (fun arr b' => Handed arrays held vals arr ∧ b'.state = b.state ∧ b.ledger.Moves b'.ledger 0 (ids arr))
      (fun _ _ => False) b := by
  cases vals with
  | none =>
    refine ⟨⟨rfl, rfl, ?_, ?_⟩, rfl, Ledger.Moves.refl _ _⟩
    · rintro r ⟨⟩
    · rintro r ⟨⟩
  | some vals =>
    rw [answered, wp_bind]
    refine (wp_takeAll_replicate arrays b).mono ?_ fun _ _ h => h
    rintro arrs b' ⟨hlen, hs, hm⟩
    rw [wp_bind]
    refine (wp_holding held vals b').mono ?_ fun _ _ h => h
    rintro elems b'' ⟨helems, hheld, hs', hm'⟩
    refine ⟨⟨rfl, helems, ?_, ?_⟩, hs'.trans hs, ?_⟩
    · rintro r ⟨⟩
      rwa [List.length_map]
    · rintro r ⟨⟩
      exact hheld
    · have h := hm'.frame (arrs.map Prod.fst : List ℕ)
      rw [zero_add, add_comm] at h
      exact hm.trans h

/-- The elements are written and what they hold is released, up to one whose writing raises. -/
theorem wp_writeElements (write : V → Except Exception (Option W)) :
    ∀ (elems : List (List ℕ × V)) (k : ℕ) (b : Books (ListVector W)),
      wp (writeElements write k elems)
        (fun _ b' => ∃ ws, (elems.map Prod.snd).mapM write = .ok ws ∧ b'.state = b.state.fill k ws ∧
          b.ledger.Moves b'.ledger (elems.flatMap Prod.fst : List ℕ) 0)
        (fun e b' => (elems.map Prod.snd).mapM write = .error e ∧ ∃ gone : Multiset ℕ,
          gone.card = ((elems.dropWhile fun x => (write x.2).toBool).map (·.1.length)).sum ∧
          b.ledger.Moves b'.ledger (elems.flatMap Prod.fst : List ℕ) gone) b := by
  intro elems
  induction elems with
  | nil => exact fun k b => ⟨[], rfl, rfl, Ledger.Moves.refl _ _⟩
  | cons x elems ih =>
    intro k b
    obtain ⟨held, v⟩ := x
    rw [writeElements, wp_bind, wp_ofExcept]
    constructor
    · intro w hw
      have hfree := (Ledger.moves_freeAll b.ledger held).frame (elems.flatMap Prod.fst : List ℕ)
      rw [zero_add, Multiset.coe_add] at hfree
      have hfirst : (write v).toBool = true := by
        rw [hw]
        rfl
      rw [wp_bind, wp_change, wp_bind, wp_giveBack]
      refine (ih (k + 1) _).mono ?_ ?_
      · rintro _ b' ⟨ws, hws, hs, hm⟩
        refine ⟨w :: ws, ?_, hs, hfree.trans hm⟩
        rw [List.map_cons, List.mapM_cons, hw, hws]
        rfl
      · rintro e b' ⟨he, gone, hcard, hm⟩
        refine ⟨?_, gone, ?_, hfree.trans hm⟩
        · rw [List.map_cons, List.mapM_cons, hw, he]
          rfl
        · rw [List.dropWhile_cons, if_pos hfirst]
          exact hcard
    · intro e he
      have hfirst : ¬ (write v).toBool = true := by
        rw [he]
        exact Bool.noConfusion
      refine ⟨?_, (((held, v) :: elems).flatMap Prod.fst : List ℕ), ?_, Ledger.Moves.refl _ _⟩
      · rw [List.map_cons, List.mapM_cons, he]
        rfl
      · rw [List.dropWhile_cons, if_neg hfirst, Multiset.coe_card, List.length_flatMap]

/-- A list that is written is released, and one whose writing raises keeps what it did not release. -/
theorem moves_of_written {write : V → Except Exception (Option W)} {arr : Reply V} {l l' : Ledger} {gone : Multiset ℕ}
    (hcard : gone.card = ((((arr.map Prod.snd).getD []).dropWhile fun x => (write x.2).toBool).map (·.1.length)).sum)
    (hm : l.Moves l' (((arr.map Prod.snd).getD []).flatMap Prod.fst : List ℕ) gone) :
    ∃ left : Multiset ℕ, left.card = kept write arr ∧ l.Moves l' (ids arr) left := by
  refine ⟨gone + ((arr.map Prod.fst).getD [] : List ℕ), ?_, ?_⟩
  · rw [Multiset.card_add, hcard, Multiset.coe_card, kept, add_comm]
  · rw [ids, add_comm]
    exact hm.frame _

theorem released_of_written {arr : Reply V} {l l' : Ledger}
    (hm : l.Moves l' (((arr.map Prod.snd).getD []).flatMap Prod.fst : List ℕ) 0) :
    l.Moves (l'.freeAll ((arr.map Prod.fst).getD [])) (ids arr) 0 := by
  have hrest := hm.frame ((arr.map Prod.fst).getD [] : List ℕ)
  rw [zero_add, add_comm] at hrest
  exact hrest.trans (Ledger.moves_freeAll _ _)

theorem length_of_mapM_elements {write : V → Except Exception (Option W)} {arr : Reply V} {ws : List (Option W)}
    (h : (elements arr).mapM write = .ok ws) : ((arr.map Prod.snd).getD []).length = ws.length := by
  have hlen := (getElem_of_mapM h).1
  rw [elements, List.length_map] at hlen
  exact hlen.symm

/-- What the answer held is released, and its elements stand behind `off`. -/
theorem wp_writeList (write : V → Except Exception (Option W)) (off i : ℕ) (arr : Reply V) (b : Books (ListVector W)) :
    wp (writeList write off i arr)
      (fun off' b' => ∃ ws, (elements arr).mapM write = .ok ws ∧ off' = off + ws.length ∧
        b'.state = ((b.state.setSize (off + ws.length)).setEntry i ⟨off, ws.length⟩).fill off ws ∧
        b.ledger.Moves b'.ledger (ids arr) 0)
      (fun e b' => (elements arr).mapM write = .error e ∧
        ∃ left : Multiset ℕ, left.card = kept write arr ∧ b.ledger.Moves b'.ledger (ids arr) left) b := by
  rw [writeList, wp_bind, wp_change, wp_bind]
  refine (wp_writeElements write _ off _).mono ?_ ?_
  · rintro _ b' ⟨ws, hws, hs, hm⟩
    have hlen := length_of_mapM_elements hws
    rw [wp_bind, wp_giveBack]
    rw [hlen] at hs ⊢
    exact ⟨ws, hws, rfl, hs, released_of_written hm⟩
  · rintro e b' ⟨he, gone, hcard, hm⟩
    exact ⟨he, moves_of_written hcard hm⟩

/-- The same, behind the end of the column. -/
theorem wp_appendList (write : V → Except Exception (Option W)) (i : ℕ) (arr : Reply V) (b : Books (ListVector W)) :
    wp (appendList write i arr)
      (fun _ b' => ∃ ws, (elements arr).mapM write = .ok ws ∧
        b'.state = ((b.state.setSize (b.state.size + ws.length)).setEntry i ⟨b.state.size, ws.length⟩).fill
          b.state.size ws ∧
        b.ledger.Moves b'.ledger (ids arr) 0)
      (fun e b' => (elements arr).mapM write = .error e ∧
        ∃ left : Multiset ℕ, left.card = kept write arr ∧ b.ledger.Moves b'.ledger (ids arr) left) b := by
  rw [appendList, wp_bind, wp_look, wp_bind]
  refine (wp_writeElements write _ b.state.size b).mono ?_ ?_
  · rintro _ b' ⟨ws, hws, hs, hm⟩
    have hlen := length_of_mapM_elements hws
    rw [wp_bind, wp_change, wp_giveBack]
    refine ⟨ws, hws, ?_, released_of_written hm⟩
    rw [hs, hlen, ListVector.setEntry_fill]
  · rintro e b' ⟨he, gone, hcard, hm⟩
    exact ⟨he, moves_of_written hcard hm⟩

section Gathered

variable (arr : Reply V)

theorem elements_gathered : elements arr.gathered = elements arr := by
  cases arr with
  | none => rfl
  | some r =>
    show (r.2.map fun x => (([] : List ℕ), x.2)).map Prod.snd = r.2.map Prod.snd
    rw [List.map_map]
    rfl

theorem ids_gathered : ids arr.gathered = ids arr := by
  cases arr with
  | none => rfl
  | some r =>
    show ((r.1 ++ r.2.flatMap Prod.fst : List ℕ) : Multiset ℕ) +
      ((r.2.map fun x => (([] : List ℕ), x.2)).flatMap Prod.fst : List ℕ) =
        (r.1 : Multiset ℕ) + (r.2.flatMap Prod.fst : List ℕ)
    have hnone : (r.2.map fun x => (([] : List ℕ), x.2)).flatMap Prod.fst = [] := by
      rw [List.flatMap_map]
      exact List.flatMap_eq_nil_iff.mpr fun _ _ => rfl
    rw [hnone, ← Multiset.coe_add]
    exact add_zero _

/-- An answer that is released as a whole keeps everything. -/
theorem kept_gathered (write : V → Except Exception (Option W)) : kept write arr.gathered = (ids arr).card := by
  have hzero : ∀ xs : List (List ℕ × V),
      (((xs.map fun x => (([] : List ℕ), x.2)).dropWhile fun x => (write x.2).toBool).map (·.1.length)).sum = 0 := by
    intro xs
    refine List.sum_eq_zero fun n hn => ?_
    obtain ⟨x, hx, rfl⟩ := List.mem_map.mp hn
    obtain ⟨y, -, rfl⟩ := List.mem_map.mp ((List.dropWhile_sublist _).subset hx)
    rfl
  cases arr with
  | none => rfl
  | some r =>
    have helems : (Reply.gathered (some r)).map Prod.snd = some (r.2.map fun x => (([] : List ℕ), x.2)) := rfl
    rw [kept, helems, Option.getD_some, hzero r.2, add_zero, ids, Multiset.card_add, Multiset.coe_card,
      Multiset.coe_card]
    exact List.length_append

end Gathered

section Kept

variable {arrays : ℕ} {held : V → ℕ} {vals : Option (List V)} {arr : Reply V}

/-- What is kept by an answer that has an element. -/
theorem Handed.card_ids (h : Handed arrays held vals arr) (hne : elements arr ≠ []) :
    (ids arr).card = arrays + ((vals.getD []).map held).sum := by
  cases arr with
  | none => exact absurd rfl hne
  | some r =>
    have hheld : r.2.map (fun x => x.1.length) = (elements (some r)).map held := by
      rw [elements, List.map_map]
      exact List.map_congr_left fun x hx => h.length_held r rfl x hx
    rw [ids, Multiset.card_add, Multiset.coe_card, Multiset.coe_card, ← h.elements_eq, ← hheld]
    show r.1.length + (r.2.flatMap Prod.fst).length = _
    rw [h.length_arrays r rfl, List.length_flatMap]

theorem Handed.kept_eq (h : Handed arrays held vals arr) (hne : elements arr ≠ [])
    (write : V → Except Exception (Option W)) :
    kept write arr = arrays + (((vals.getD []).dropWhile fun v => (write v).toBool).map held).sum := by
  cases arr with
  | none => exact absurd rfl hne
  | some r =>
    have hheld : (r.2.dropWhile fun x => (write x.2).toBool).map (fun x => x.1.length) =
        ((elements (some r)).dropWhile fun v => (write v).toBool).map held := by
      show _ = ((r.2.map Prod.snd).dropWhile _).map held
      rw [List.dropWhile_map, List.map_map]
      exact List.map_congr_left fun x hx => h.length_held r rfl x ((List.dropWhile_sublist _).subset hx)
    rw [kept, ← h.elements_eq, ← hheld]
    show r.1.length + _ = _
    rw [h.length_arrays r rfl]
    rfl

end Kept

theorem ne_nil_of_mapM_error {write : V → Except Exception (Option W)} {vals : List V} {e : Exception}
    (h : vals.mapM write = .error e) : vals ≠ [] := by
  rintro rfl
  cases h

/-- The column holds the rows so far, and the end of the column is where the next one goes. -/
def Filled (off : ℕ) (done : List (Option (List (Option W)))) (v : ListVector W) : Prop :=
  v.Holds done ∧ off = v.size

variable {off : ℕ} {done : List (Option (List (Option W)))} {v : ListVector W}

theorem Filled.null (h : Filled off done v) : Filled off (done ++ [none]) (v.setValid done.length false) ∧
    ∀ s, Filled off (done ++ [none]) ((v.setValid done.length false).setEntry done.length s) := by
  obtain ⟨hholds, hoff⟩ := h
  refine ⟨?_, fun s => ?_⟩
  · obtain ⟨hnull, hsize⟩ := hholds.null (.inl rfl)
    exact ⟨hnull, hoff.trans hsize.symm⟩
  · obtain ⟨hnull, hsize⟩ := hholds.null (.inr ⟨s, rfl⟩)
    exact ⟨hnull, hoff.trans hsize.symm⟩

theorem Filled.push (h : Filled off done v) (xs : List (Option W)) :
    Filled (off + xs.length) (done ++ [some xs])
      (((v.setSize (off + xs.length)).setEntry done.length ⟨off, xs.length⟩).fill off xs) := by
  obtain ⟨hholds, rfl⟩ := h
  obtain ⟨hpush, hsize⟩ := hholds.append xs
  exact ⟨hpush, hsize.symm⟩

end Listing

open Listing

namespace ArrayFunction

variable {X A V W : Type} (f : ArrayFunction X A V W)

/-- The operands are released behind the call, or lost when it raises. -/
theorem wp_call (crs : List Int32) (xs : X × List X) (b : Books (ListVector W)) :
    wp (f.call crs xs)
      (fun arr b' => ∃ vals, f.answerOf crs xs = .ok vals ∧ Handed f.arrays f.held vals arr ∧ b'.state = b.state ∧
        b.ledger.Moves b'.ledger 0 (ids arr))
      (fun e b' => f.answerOf crs xs = .error e ∧
        ∃ gone : Multiset ℕ, gone.card = taken (f.operands crs xs) ∧ b.ledger.Moves b'.ledger 0 gone) b := by
  rw [call, wp_bind]
  refine (wp_takeAll (f.operands crs xs) b).mono ?_ ?_
  · rintro operands b' ⟨hoperands, hlen, hs, hm⟩
    have hanswer : f.answerOf crs xs = f.function xs (operands.map Prod.snd) := by
      rw [answerOf, hoperands]
      rfl
    rw [wp_bind, wp_ofExcept]
    constructor
    · intro vals hvals
      rw [wp_bind]
      refine (wp_answered f.arrays f.held vals b').mono ?_ fun _ _ h => h.elim
      rintro arr b'' ⟨hhanded, hs', hm'⟩
      rw [wp_bind, wp_giveBack]
      refine ⟨vals, hanswer.trans hvals, hhanded, hs'.trans hs, ?_⟩
      have hcall := hm'.frame (operands.map Prod.fst : List ℕ)
      have hfree := (Ledger.moves_freeAll b''.ledger (operands.map Prod.fst)).frame (ids arr)
      rw [zero_add, add_comm (ids arr)] at hcall
      rw [zero_add] at hfree
      exact (hm.trans hcall).trans hfree
    · intro e he
      refine ⟨hanswer.trans he, (operands.map Prod.fst : List ℕ), ?_, hm⟩
      rw [Multiset.coe_card, List.length_map, hlen]
  · rintro e b' ⟨he, -, gone, hcard, hm⟩
    refine ⟨?_, gone, hcard, hm⟩
    rw [answerOf, he]
    rfl

/-- What every row of the family does: it answers and releases what it took, or raises and leaves something
behind. -/
def RowSpec {S : Type} (body : Body) (crs : List Int32) (row : S → ℕ → InputRow X → Listing W S)
    (I : S → List (Option (List (Option W))) → ListVector W → Prop) : Prop :=
  ∀ s done x (b : Books (ListVector W)), True → I s done b.state → wp (row s done.length x)
    (fun s' b' => ∃ a, f.answer crs x = .ok a ∧ I s' (done ++ [a]) b'.state ∧ b.ledger.Moves b'.ledger 0 0)
    (fun e b' => f.answer crs x = .error e ∧
      ∃ gone : Multiset ℕ, gone.card = f.lost body crs x ∧ b.ledger.Moves b'.ledger 0 gone) b

section Row

variable {f} {crs : List Int32} {x : InputRow X} {xs : X × List X}

theorem answer_of_none (hx : TableFunction.validRow x = none) : f.answer crs x = .ok none := by
  rw [answer, hx]

theorem answer_of_some (hx : TableFunction.validRow x = some xs) {vals : Option (List V)}
    (hvals : f.answerOf crs xs = .ok vals) :
    f.answer crs x = ((vals.getD []).mapM f.write).map some := by
  rw [answer, hx]
  dsimp only
  rw [hvals]
  rfl

theorem answer_of_raised (hx : TableFunction.validRow x = some xs) {e : Exception}
    (he : f.answerOf crs xs = .error e) : f.answer crs x = .error e := by
  rw [answer, hx]
  dsimp only
  rw [he]
  rfl

theorem lost_of_raised (body : Body) (hx : TableFunction.validRow x = some xs) {e : Exception}
    (he : f.answerOf crs xs = .error e) : f.lost body crs x = taken (f.operands crs xs) := by
  rw [lost, hx]
  dsimp only
  rw [he]

theorem lost_of_some (body : Body) (hx : TableFunction.validRow x = some xs) {vals : Option (List V)}
    (hvals : f.answerOf crs xs = .ok vals) :
    f.lost body crs x = f.arrays + ((f.unreleased body (vals.getD [])).map f.held).sum := by
  rw [lost, hx]
  dsimp only
  rw [hvals]

/-- A row none of whose values is NULL: the call, and then what writes its answer. -/
theorem wp_answering {S : Type} {body : Body} (hx : TableFunction.validRow x = some xs) {write : Reply V → Listing W S}
    {b : Books (ListVector W)} {I : S → Option (List (Option W)) → ListVector W → Prop}
    (hwrite : ∀ vals arr (b' : Books (ListVector W)), Handed f.arrays f.held vals arr → b'.state = b.state →
      wp (write arr)
        (fun s b'' => ∃ ws, (elements arr).mapM f.write = .ok ws ∧ I s (some ws) b''.state ∧
          b'.ledger.Moves b''.ledger (ids arr) 0)
        (fun e b'' => (elements arr).mapM f.write = .error e ∧ ∃ left : Multiset ℕ,
          left.card = f.arrays + ((f.unreleased body (vals.getD [])).map f.held).sum ∧
          b'.ledger.Moves b''.ledger (ids arr) left) b') :
    wp (f.call crs xs >>= write)
      (fun s b' => ∃ a, f.answer crs x = .ok a ∧ I s a b'.state ∧ b.ledger.Moves b'.ledger 0 0)
      (fun e b' => f.answer crs x = .error e ∧
        ∃ gone : Multiset ℕ, gone.card = f.lost body crs x ∧ b.ledger.Moves b'.ledger 0 gone) b := by
  rw [wp_bind]
  refine (f.wp_call crs xs b).mono ?_ ?_
  · rintro arr b' ⟨vals, hvals, hhanded, hs, hm⟩
    have hanswer := answer_of_some hx hvals
    rw [← hhanded.elements_eq] at hanswer
    refine (hwrite vals arr b' hhanded hs).mono ?_ ?_
    · rintro s b'' ⟨ws, hws, hI, hm'⟩
      refine ⟨some ws, ?_, hI, hm.trans hm'⟩
      rw [hanswer, hws]
      rfl
    · rintro e b'' ⟨he, left, hcard, hm'⟩
      refine ⟨?_, left, ?_, hm.trans hm'⟩
      · rw [hanswer, he]
        rfl
      · rw [lost_of_some body hx hvals, hcard]
  · rintro e b' ⟨he, gone, hcard, hm⟩
    exact ⟨answer_of_raised hx he, gone, hcard.trans (lost_of_raised body hx he).symm, hm⟩

/-- A list behind `off`, whose elements are released as they are written. -/
theorem wp_writeList_filled {body : Body}
    (hbody : ∀ vals, f.unreleased body vals = vals.dropWhile fun v => (f.write v).toBool)
    {off : ℕ} {done : List (Option (List (Option W)))} {b : Books (ListVector W)} (hI : Filled off done b.state)
    {vals : Option (List V)} {arr : Reply V} {b' : Books (ListVector W)} (hhanded : Handed f.arrays f.held vals arr)
    (hs : b'.state = b.state) :
    wp (writeList f.write off done.length arr)
      (fun off' b'' => ∃ ws, (elements arr).mapM f.write = .ok ws ∧
        (Filled off' (done ++ [some ws]) b''.state ∧ b''.state.valid = b.state.valid) ∧
        b'.ledger.Moves b''.ledger (ids arr) 0)
      (fun e b'' => (elements arr).mapM f.write = .error e ∧ ∃ left : Multiset ℕ,
        left.card = f.arrays + ((f.unreleased body (vals.getD [])).map f.held).sum ∧
        b'.ledger.Moves b''.ledger (ids arr) left) b' := by
  refine (wp_writeList f.write off done.length arr b').mono ?_ ?_
  · rintro off' b'' ⟨ws, hws, rfl, hs', hm⟩
    have hfilled := hI.push ws
    rw [← hs, ← hs'] at hfilled
    refine ⟨ws, hws, ⟨hfilled, ?_⟩, hm⟩
    rw [hs', ListVector.fill_valid, hs]
    rfl
  · rintro e b'' ⟨he, left, hcard, hm⟩
    refine ⟨he, left, ?_, hm⟩
    rw [hcard, hhanded.kept_eq (ne_nil_of_mapM_error he), hbody]

end Row

theorem arrayRow_spec : f.RowSpec .array [] f.arrayRow Filled := by
  intro off done x b _ hI
  rw [arrayRow]
  cases hx : TableFunction.validRow x with
  | none =>
    rw [wp_bind, wp_change]
    exact ⟨none, answer_of_none hx, hI.null.1, Ledger.Moves.refl _ _⟩
  | some xs =>
    show wp (f.call [] xs >>= fun arr => writeList f.write off done.length arr >>= _) _ _ _
    rw [← bind_assoc, wp_bind]
    refine (wp_answering hx (I := fun off' a v => Filled off' (done ++ [a]) v ∧ v.valid = b.state.valid)
      fun _ _ _ hhanded hs => wp_writeList_filled (fun _ => rfl) hI hhanded hs).mono ?_ fun _ _ h => h
    rintro off' b' ⟨a, ha, ⟨hfilled, hvalid⟩, hm⟩
    rw [wp_bind, wp_change]
    have hset : b'.state.setValid done.length true = b'.state := by
      apply ListVector.setValid_of_valid
      rw [hvalid]
      exact hI.1.valid _ le_rfl
    refine ⟨a, ha, ?_, hm⟩
    show Filled off' (done ++ [a]) (b'.state.setValid done.length true)
    rwa [hset]

theorem boxesRow_spec (crs : List Int32) : f.RowSpec .boxes crs (f.boxesRow crs) Filled := by
  intro off done x b _ hI
  rw [boxesRow]
  cases hx : TableFunction.validRow x with
  | none =>
    rw [wp_bind, wp_change]
    exact ⟨none, answer_of_none hx, hI.null.2 _, Ledger.Moves.refl _ _⟩
  | some xs =>
    refine (wp_answering hx (I := fun off' a v => Filled off' (done ++ [a]) v ∧ v.valid = b.state.valid)
      fun _ _ _ hhanded hs => wp_writeList_filled (fun _ => rfl) hI hhanded hs).mono ?_ fun _ _ h => h
    rintro off' b' ⟨a, ha, ⟨hfilled, -⟩, hm⟩
    exact ⟨a, ha, hfilled, hm⟩

/-- The end of the column is read off the column. -/
theorem setRow_spec : f.RowSpec .set [] f.setRow fun _ done v => v.Holds done := by
  intro _ done x b _ hI
  rw [setRow]
  cases hx : TableFunction.validRow x with
  | none =>
    rw [wp_change]
    exact ⟨none, answer_of_none hx, (hI.null (.inl rfl)).1, Ledger.Moves.refl _ _⟩
  | some xs =>
    refine wp_answering hx (I := fun _ a v => v.Holds (done ++ [a])) fun vals arr b' hhanded hs => ?_
    refine (wp_appendList f.write done.length arr b').mono ?_ ?_
    · rintro _ b'' ⟨ws, hws, hs', hm⟩
      rw [hs', hs]
      exact ⟨ws, hws, (hI.append ws).1, hm⟩
    · rintro e b'' ⟨he, left, hcard, hm⟩
      refine ⟨he, left, ?_, hm⟩
      rw [hcard, hhanded.kept_eq (ne_nil_of_mapM_error he)]
      rfl

/-- The elements are released with their array. -/
theorem rowsRow_spec : f.RowSpec .rows [] f.rowsRow fun _ done v => v.Holds done := by
  intro _ done x b _ hI
  rw [rowsRow]
  cases hx : TableFunction.validRow x with
  | none =>
    rw [wp_change]
    exact ⟨none, answer_of_none hx, (hI.null (.inl rfl)).1, Ledger.Moves.refl _ _⟩
  | some xs =>
    refine wp_answering hx (I := fun _ a v => v.Holds (done ++ [a])) fun vals arr b' hhanded hs => ?_
    rw [← elements_gathered, ← ids_gathered]
    refine (wp_appendList f.write done.length arr.gathered b').mono ?_ ?_
    · rintro _ b'' ⟨ws, hws, hs', hm⟩
      rw [hs', hs]
      exact ⟨ws, hws, (hI.append ws).1, hm⟩
    · rintro e b'' ⟨he, left, hcard, hm⟩
      refine ⟨he, left, ?_, hm⟩
      rw [elements_gathered] at he
      rw [hcard, kept_gathered, hhanded.card_ids (ne_nil_of_mapM_error he)]
      rfl

/-- A chunk is answered once the types are read. -/
theorem answers_of_rows {body : Body} {chunk : InputChunk X} {crs : List Int32}
    (hcrs : body.crs chunk.types = .ok crs) :
    f.answers body chunk = (chunk.rows.mapM (tagged (f.answer crs))).mapError
      fun raised => (raised.1, f.lost body crs raised.2) := by
  rw [answers, hcrs]
  rfl

/-- What a body does with a chunk whose types are read. -/
theorem wp_rows {S : Type} {body : Body} {crs : List Int32} {row : S → ℕ → InputRow X → Listing W S}
    {I : S → List (Option (List (Option W))) → ListVector W → Prop} (hrow : f.RowSpec body crs row I)
    {chunk : InputChunk X} (hcrs : body.crs chunk.types = .ok crs) (s : S) (b : Books (ListVector W))
    (hstart : I s [] b.state) :
    wp (eachRow row s 0 chunk.rows)
      (fun s' b' => ∃ a, f.answers body chunk = .ok a ∧ I s' a b'.state ∧ b.ledger.Moves b'.ledger 0 0)
      (fun e b' => ∃ n, f.answers body chunk = .error (e, n) ∧
        ∃ gone : Multiset ℕ, gone.card = n ∧ b.ledger.Moves b'.ledger 0 gone) b := by
  rw [f.answers_of_rows hcrs]
  refine (wp_eachRow hrow chunk.rows s [] b (fun _ _ => trivial) hstart).mono ?_ ?_
  · rintro s' b' ⟨answers, hanswers, hI, hm⟩
    refine ⟨answers, ?_, hI, hm⟩
    rw [hanswers]
    rfl
  · rintro e b' ⟨r, hraised, gone, hcard, hm⟩
    refine ⟨f.lost body crs r, ?_, gone, hcard, hm⟩
    rw [hraised]
    rfl

theorem wp_generated (body : Body) (chunk : InputChunk X) (v : ListVector W) (l : Ledger) (hfresh : v.Fresh) :
    wp (f.generated body chunk)
      (fun _ b' => ∃ a, f.answers body chunk = .ok a ∧ b'.state.Holds a ∧ l.Moves b'.ledger 0 0)
      (fun e b' => ∃ n, f.answers body chunk = .error (e, n) ∧
        ∃ gone : Multiset ℕ, gone.card = n ∧ l.Moves b'.ledger 0 gone) ⟨l, v⟩ := by
  have hstart : Filled 0 [] v := ⟨hfresh.holds, hfresh.size.symm⟩
  cases body with
  | array =>
    rw [generated, genArray, wp_map]
    refine (f.wp_rows f.arrayRow_spec rfl 0 ⟨l, v⟩ hstart).mono ?_ fun _ _ h => h
    rintro off b' ⟨answers, hanswers, hfilled, hm⟩
    exact ⟨answers, hanswers, hfilled.1, hm⟩
  | boxes =>
    rw [generated, genBoxes, wp_bind, wp_ofExcept]
    constructor
    · intro crs hcrs
      rw [wp_map]
      refine (f.wp_rows (f.boxesRow_spec crs) hcrs 0 ⟨l, v⟩ hstart).mono ?_ fun _ _ h => h
      rintro off b' ⟨answers, hanswers, hfilled, hm⟩
      exact ⟨answers, hanswers, hfilled.1, hm⟩
    · intro e he
      refine ⟨0, ?_, 0, rfl, Ledger.Moves.refl _ _⟩
      rw [answers, Body.crs, he]
      rfl
  | set => exact f.wp_rows (I := fun _ done v => v.Holds done) f.setRow_spec rfl () ⟨l, v⟩ hfresh.holds
  | rows => exact f.wp_rows (I := fun _ done v => v.Holds done) f.rowsRow_spec rfl () ⟨l, v⟩ hfresh.holds

/-- **A function that answers arrays**, called chunk after chunk, answers every row from its own values,
up to the first chunk whose types or the first row that raises. Nothing is released twice, and everything
is, unless the row that raised left something behind. -/
theorem generated_run (body : Body) (chunks : List (InputChunk X × ListVector W))
    (hfresh : ∀ chunk ∈ chunks, chunk.2.Fresh) :
    let run := runAll (f.generated body) chunks .empty
    let asked := outcomes (f.answers body) (chunks.map Prod.fst)
    List.Forall₂ (fun answers column => column.Holds answers) asked.1 run.1 ∧
      run.2.1 = asked.2.map Prod.fst ∧
      run.2.2.released.Nodup ∧
      (run.2.2.released.Perm (List.range run.2.2.next) ↔ ∀ raised ∈ asked.2, raised.2 = 0) :=
  @runAll_exact Exception (ListVector W) (InputChunk X) ℕ _ (f.generated body) (f.answers body) id
    (fun _ v => v.Fresh) (fun answers column => column.Holds answers)
    (fun chunk v l hv => f.wp_generated body chunk v l hv) chunks hfresh

/-- The polygons of rasters, where MEOS refuses a raster without one and DuckDB the polygon 0. -/
def polygons : ArrayFunction (List ℕ) (List ℕ) ℕ ℕ where
  operands _ xs := [.ok xs.1]
  function _ operands := if operands = [[]] then .error (.meos "no polygon") else .ok operands.head?
  arrays := 1
  held _ := 1
  write v := if v = 0 then .error (.invalidInput "Failed to convert GSERIALIZED to EWKB") else .ok (some v)

/-- A chunk with a NULL, and one with a polygon that is refused; then a chunk whose type is refused, all NULL. -/
theorem generated_run_polygons :
    let typed (crs : String) (rows : List (InputRow (List ℕ))) : InputChunk (List ℕ) × ListVector ℕ :=
      (⟨[.geometry "GEOMETRY" (some crs.toList)], rows⟩, ListVector.blank 0)
    let first := typed "EPSG:4326" [(some [1, 2], []), (none, []), (some [3], [])]
    let chunks := [first, typed "EPSG:4326" [(some [5], []), (some [4, 0, 6], [])]]
    let refused := [first, typed "ESRI:102100" [(none, [])]]
    let run := runAll (polygons.generated .rows) chunks .empty
    let asked := outcomes (polygons.answers .rows) (chunks.map Prod.fst)
    let run' := runAll (polygons.generated .boxes) refused .empty
    let asked' := outcomes (polygons.answers .boxes) (refused.map Prod.fst)
    (List.Forall₂ (fun answers column => column.Holds answers) asked.1 run.1 ∧
      run.2.1 = asked.2.map Prod.fst ∧
      run.2.2.released.Nodup ∧
      (run.2.2.released.Perm (List.range run.2.2.next) ↔ ∀ raised ∈ asked.2, raised.2 = 0)) ∧
    (List.Forall₂ (fun answers column => column.Holds answers) asked'.1 run'.1 ∧
      run'.2.1 = asked'.2.map Prod.fst ∧
      run'.2.2.released.Nodup ∧
      (run'.2.2.released.Perm (List.range run'.2.2.next) ↔ ∀ raised ∈ asked'.2, raised.2 = 0)) ∧
    asked.2.map Prod.snd = some 4 ∧ asked'.2.map Prod.snd = some 0 := by
  refine ⟨polygons.generated_run .rows _ ?_, polygons.generated_run .boxes _ ?_, rfl, rfl⟩
  · simp [ListVector.fresh_blank]
  · simp [ListVector.fresh_blank]

end ArrayFunction

/-! ### Lists of temporal values -/

theorem intLength_of_lt {n : ℕ} (h : n < 2 ^ 31) : intLength n = n := by
  rw [intLength, BitVec.toInt_ofNat', Int.bmod_eq_of_le] <;> omega

/-- The numbers of an array of copies. -/
def arrIds {A : Type} (arr : ℕ × List (ℕ × A)) : Multiset ℕ := {arr.1} + (arr.2.map Prod.fst : List ℕ)

section Arrays

variable {σ X A : Type}

theorem wp_listToTemporalArr (blobToTemporal : X → A) (lv : ListVector X) {le : Slice} (hshort : le.length < 2 ^ 31)
    (b : Books σ) :
    wp (listToTemporalArr blobToTemporal lv le)
      (fun arr b' =>
        arr.2.map Prod.snd = (List.range le.length).map (fun i => blobToTemporal (lv.child (le.offset + i))) ∧
        b'.state = b.state ∧ b.ledger.Moves b'.ledger 0 (arrIds arr) ∧ (arrIds arr).card = le.length + 1)
      (fun _ _ => False) b := by
  have hroom : ¬ (if 0 < intLength le.length then intLength le.length else 1) < (le.length : ℤ) := by
    rw [intLength_of_lt hshort]
    by_cases hpos : 0 < (le.length : ℤ)
    · rw [if_pos hpos]
      omega
    · rw [if_neg hpos]
      omega
  rw [listToTemporalArr, wp_bind, wp_take, wp_bind, wp_raiseIf]
  refine ⟨fun h => absurd h hroom, fun _ => ?_⟩
  have hcopies := @wp_takeAll_ok Exception σ A
    ((List.range le.length).map fun i => blobToTemporal (lv.child (le.offset + i)))
    ({ b with ledger := b.ledger.alloc } : Books σ)
  rw [List.map_map] at hcopies
  rw [wp_bind]
  refine hcopies.mono ?_ fun _ _ h => h
  rintro copies b' ⟨hr, hs, hm⟩
  refine ⟨hr, hs, Ledger.Moves.of_alloc hm, ?_⟩
  have hlen := congrArg List.length hr
  rw [List.length_map, List.length_map, List.length_range] at hlen
  rw [arrIds, Multiset.card_add, Multiset.card_singleton, Multiset.coe_card, List.length_map, hlen, add_comm]

theorem wp_freeTemporalArr (arr : ℕ × List (ℕ × A)) (b : Books σ) :
    wp (freeTemporalArr arr) (fun _ b' => b'.state = b.state ∧ b.ledger.Moves b'.ledger (arrIds arr) 0)
      (fun _ _ => False) b := by
  rw [freeTemporalArr, wp_bind, wp_giveBack, wp_giveBack]
  refine ⟨rfl, ?_⟩
  have hcopies := (Ledger.moves_freeAll b.ledger (arr.2.map Prod.fst)).frame {arr.1}
  have harr := Ledger.moves_freeAll (b.ledger.freeAll (arr.2.map Prod.fst)) [arr.1]
  rw [zero_add, add_comm] at hcopies
  exact hcopies.trans harr

end Arrays

namespace PairsFunction

variable {X D A V W : Type} (f : PairsFunction X D A V W)

theorem pairsRow_spec (off : ℕ) (done : List (Option (List (Option W)))) (row : PairsRow X D) (hshort : row.Short)
    (b : Books (ListVector W)) (hI : Filled off done b.state) :
    wp (f.pairsRow off done.length row)
      (fun off' b' => ∃ a, f.answer row = .ok a ∧ Filled off' (done ++ [a]) b'.state ∧ b.ledger.Moves b'.ledger 0 0)
      (fun e b' => f.answer row = .error e ∧
        ∃ gone : Multiset ℕ, gone.card = row.read ∧ b.ledger.Moves b'.ledger 0 gone) b := by
  rw [pairsRow, answer, PairsRow.read]
  by_cases hnull : row.lv1.valid row.r = false ∨ row.lv2.valid row.r = false
  · rw [if_pos hnull, if_pos hnull, wp_bind, wp_change]
    exact ⟨none, rfl, hI.null.2 _, Ledger.Moves.refl _ _⟩
  rw [if_neg hnull, if_neg hnull, if_neg hnull, wp_bind]
  obtain ⟨hv1, hv2⟩ := not_or.mp hnull
  obtain ⟨hshort1, hshort2⟩ := hshort (by simpa using hv1) (by simpa using hv2)
  refine (wp_listToTemporalArr f.blobToTemporal row.lv1 hshort1 b).mono ?_ fun _ _ h => h.elim
  rintro a1 b1 ⟨ha1, hs1, hm1, hcard1⟩
  rw [wp_bind]
  refine (wp_listToTemporalArr f.blobToTemporal row.lv2 hshort2 b1).mono ?_ fun _ _ h => h.elim
  rintro a2 b2 ⟨ha2, hs2, hm2, hcard2⟩
  have hread : b.ledger.Moves b2.ledger 0 (arrIds a1 + arrIds a2) := by
    have h := hm2.frame (arrIds a1)
    rw [zero_add, add_comm] at h
    exact hm1.trans h
  rw [wp_bind, wp_ofExcept, ha1, ha2]
  constructor
  · intro res hres
    rw [wp_bind]
    refine (wp_answered _ _ res b2).mono ?_ fun _ _ h => h.elim
    rintro arr b3 ⟨hhanded, hs3, hm3⟩
    rw [wp_bind]
    refine (wp_freeTemporalArr a1 b3).mono ?_ fun _ _ h => h.elim
    rintro _ b4 ⟨hs4, hm4⟩
    rw [wp_bind]
    refine (wp_freeTemporalArr a2 b4).mono ?_ fun _ _ h => h.elim
    rintro _ b5 ⟨hs5, hm5⟩
    rw [wp_bind]
    have hwrites : (elements arr).mapM (fun v => (.ok (some (f.write v)) : Except Exception (Option W))) =
        .ok ((elements arr).map (some ∘ f.write)) := mapM_ok _ _
    refine (wp_writeList _ off done.length arr b5).mono ?_ ?_
    case refine_2 =>
      rintro e b6 ⟨he, -⟩
      rw [hwrites] at he
      cases he
    rintro off' b6 ⟨ws, hws, rfl, hs6, hm6⟩
    obtain rfl := Except.ok.inj (hwrites.symm.trans hws)
    rw [wp_bind, wp_change]
    have hstate : b5.state = b.state := by rw [hs5, hs4, hs3, hs2, hs1]
    have hfilled := hI.push ((elements arr).map (some ∘ f.write))
    rw [← hstate, ← hs6] at hfilled
    refine ⟨some ((elements arr).map (some ∘ f.write)), ?_, ?_, ?_⟩
    · show (f.function (f.places row.lv1 row.r) (f.places row.lv2 row.r) (row.dd row.r)).map _ = _
      have hplaces : f.function (f.places row.lv1 row.r) (f.places row.lv2 row.r) (row.dd row.r) = .ok res := hres
      rw [hplaces, hhanded.elements_eq]
      rfl
    · show Filled _ _ (b6.state.setValid done.length true)
      rw [ListVector.setValid_of_valid]
      · exact hfilled
      · rw [hs6, ListVector.fill_valid, hstate]
        exact hI.1.valid _ le_rfl
    · have h3 := hm3.frame (arrIds a1 + arrIds a2)
      have h4 := hm4.frame (arrIds a2 + ids arr)
      have h5 := hm5.frame (ids arr)
      rw [zero_add, add_comm (ids arr), add_assoc] at h3
      rw [zero_add] at h4 h5
      exact (((hread.trans h3).trans h4).trans h5).trans hm6
  · intro e he
    have hplaces : f.function (f.places row.lv1 row.r) (f.places row.lv2 row.r) (row.dd row.r) = .error e := he
    refine ⟨?_, arrIds a1 + arrIds a2, ?_, hread⟩
    · rw [hplaces]
      rfl
    · rw [Multiset.card_add, hcard1, hcard2]

theorem wp_genPairs (rows : List (PairsRow X D)) (v : ListVector W) (l : Ledger) (hfresh : v.Fresh)
    (hshort : ∀ row ∈ rows, row.Short) :
    wp (f.genPairs rows)
      (fun _ b' => ∃ answers, rows.mapM (tagged f.answer) = .ok answers ∧ b'.state.Holds answers ∧
        l.Moves b'.ledger 0 0)
      (fun e b' => ∃ r, rows.mapM (tagged f.answer) = .error (e, r) ∧
        ∃ gone : Multiset ℕ, gone.card = r.read ∧ l.Moves b'.ledger 0 gone) ⟨l, v⟩ := by
  rw [genPairs, wp_map]
  refine (wp_eachRow (fun off done row b hshort hI => f.pairsRow_spec off done row hshort b hI) rows 0 [] ⟨l, v⟩
    hshort ⟨hfresh.holds, hfresh.size.symm⟩).mono ?_ fun _ _ h => h
  rintro off b' ⟨answers, hanswers, hfilled, hm⟩
  exact ⟨answers, hanswers, hfilled.1, hm⟩

/-- A row that raises was read. -/
theorem read_pos_of_raised {e : Exception} {row : PairsRow X D} (h : f.answer row = .error e) : row.read ≠ 0 := by
  rw [answer] at h
  rw [PairsRow.read]
  by_cases hnull : row.lv1.valid row.r = false ∨ row.lv2.valid row.r = false
  · rw [if_pos hnull] at h
    cases h
  · rw [if_neg hnull]
    omega

/-- **A function over two lists of temporal values**, called chunk after chunk, answers every row from
what the places of its two lists and of the value hold, up to the first row that raises. Nothing is
released twice, and everything is, unless a row raised. -/
theorem genPairs_run (chunks : List (List (PairsRow X D) × ListVector W)) (hfresh : ∀ chunk ∈ chunks, chunk.2.Fresh)
    (hshort : ∀ chunk ∈ chunks, ∀ row ∈ chunk.1, row.Short) :
    let run := runAll f.genPairs chunks .empty
    let asked := expected f.answer (chunks.map Prod.fst)
    List.Forall₂ (fun answers column => column.Holds answers) asked.1 run.1 ∧
      run.2.1 = asked.2.map Prod.fst ∧
      run.2.2.released.Nodup ∧
      (run.2.2.released.Perm (List.range run.2.2.next) ↔ run.2.1 = none) := by
  intro run asked
  obtain ⟨hrows, hraised, hnodup, hperm⟩ := runAll_rows (I := fun rows v => v.Fresh ∧ ∀ row ∈ rows, row.Short)
    (J := fun answers column => column.Holds answers) (fun rows v l hv => f.wp_genPairs rows v l hv.1 hv.2)
    chunks fun chunk hchunk => ⟨hfresh chunk hchunk, hshort chunk hchunk⟩
  refine ⟨hrows, hraised, hnodup, hperm.trans ?_⟩
  show (∀ raised ∈ asked.2, raised.2.read = 0) ↔ run.2.1 = none
  rw [hraised]
  cases hasked : asked.2 with
  | none => simp
  | some raised =>
    -- a row that raised had its lists read, with an array for each
    have hread := f.read_pos_of_raised (answer_of_expected hasked)
    simpa using hread

end PairsFunction

/-- Pairs of places at which two lists hold the same number. -/
def equalPairs : PairsFunction ℕ Unit ℕ (ℕ × ℕ) (ℕ × ℕ) where
  blobToTemporal := id
  function a1 a2 _ := .ok (some (a1.zipIdx.flatMap fun x => (a2.zipIdx.filter (·.1 = x.1)).map fun y => (x.2, y.2)))
  periods := false
  write := id

/-- A row whose second list is NULL between two whose lists hold three places and two. -/
theorem genPairs_run_equalPairs :
    let lists : ListVector ℕ :=
      { ListVector.blank 7 with entry := fun r => if r = 0 then ⟨0, 3⟩ else ⟨3, 2⟩, child := fun k => k % 2, size := 5 }
    let others : ListVector ℕ := { lists with valid := fun r => r ≠ 1 }
    let chunks : List (List (PairsRow ℕ Unit) × ListVector (ℕ × ℕ)) :=
      [([⟨lists, others, fun _ => (), 0⟩, ⟨lists, others, fun _ => (), 1⟩, ⟨lists, others, fun _ => (), 2⟩],
        ListVector.blank (0, 0)), ([⟨others, lists, fun _ => (), 1⟩], ListVector.blank (0, 0))]
    let run := runAll equalPairs.genPairs chunks .empty
    let asked := expected equalPairs.answer (chunks.map Prod.fst)
    List.Forall₂ (fun answers column => column.Holds answers) asked.1 run.1 ∧
      run.2.1 = asked.2.map Prod.fst ∧
      run.2.2.released.Nodup ∧
      (run.2.2.released.Perm (List.range run.2.2.next) ↔ run.2.1 = none) :=
  equalPairs.genPairs_run _ (by simp [ListVector.fresh_blank]) (by simp [PairsRow.Short])

namespace MappedFunction

variable {X Y A V W : Type} (f : MappedFunction X Y A V W)

theorem mappedRow_spec (s : Unit) (done : List (Option (List (Option W)))) (row : MappedRow X Y)
    (b : Books (ListVector W)) (hshort : row.Short) (hI : b.state.Holds done) :
    wp (f.mappedRow s done.length row)
      (fun _ b' => ∃ a, f.answer row = .ok a ∧ b'.state.Holds (done ++ [a]) ∧ b.ledger.Moves b'.ledger 0 0)
      (fun e b' => f.answer row = .error e ∧
        ∃ gone : Multiset ℕ, gone.card = f.read row ∧ b.ledger.Moves b'.ledger 0 gone) b := by
  rw [mappedRow, read]
  cases hpresent : row.present with
  | none =>
    rw [wp_change, answer, hpresent]
    exact ⟨none, rfl, (hI.null (.inl rfl)).1, Ledger.Moves.refl _ _⟩
  | some args =>
    obtain ⟨xs, ys⟩ := args
    rw [answer, hpresent]
    show wp (numbered (fun _ => f.ownedOperand) (xs.map f.readElement) >>= _) _ _ b
    rw [wp_bind]
    refine (wp_numbered _ _ b).mono ?_ fun _ _ h => h.elim
    rintro v0 b1 ⟨hvals, hids, hs1, hm1⟩
    have hlen : v0.length = xs.length := by
      have h := congrArg List.length hvals
      rwa [List.length_map, List.length_map] at h
    have hcnt : intLength v0.length = xs.length := by
      rw [hlen]
      exact intLength_of_lt (hshort _ hpresent)
    have hread : (v0.filterMap Prod.fst).length = if f.ownedOperand then xs.length else 0 := by
      rw [hids]
      cases f.ownedOperand <;> simp
    dsimp only
    rw [wp_bind, wp_ofExcept, hvals, hcnt, Int.toNat_natCast]
    constructor
    · intro arr harr
      rw [wp_bind]
      refine (wp_answered 1 _ _ b1).mono ?_ fun _ _ h => h.elim
      rintro reply b2 ⟨hhanded, hs2, hm2⟩
      rw [wp_bind, wp_giveBack]
      have hanswer : (f.callOf xs.length (xs.map f.readElement) ys).map (fun arr =>
          arr.map fun r => ((List.range xs.length).map r).map f.write) =
            .ok (arr.map fun r => ((List.range xs.length).map r).map f.write) := by
        rw [harr]
        rfl
      have hfreed : b.ledger.Moves (b2.ledger.freeAll (v0.filterMap Prod.fst)) 0 (ids reply) := by
        have hcalled := hm2.frame (v0.filterMap Prod.fst : List ℕ)
        have hfree := (Ledger.moves_freeAll b2.ledger (v0.filterMap Prod.fst)).frame (ids reply)
        rw [zero_add, add_comm (ids reply)] at hcalled
        rw [zero_add] at hfree
        exact (hm1.trans hcalled).trans hfree
      cases arr with
      | none =>
        obtain rfl : reply = none := Option.isSome_eq_false_iff.mp hhanded.isSome |> Option.isNone_iff_eq_none.mp
        rw [Option.isNone_none, if_pos rfl, wp_change]
        refine ⟨none, hanswer, ?_, hfreed⟩
        show ((b2.state.setValid _ _).Holds _ : Prop)
        rw [hs2, hs1]
        exact (hI.null (.inl rfl)).1
      | some r =>
        have hsome : reply.isNone ≠ true := by
          rw [← Option.not_isSome, hhanded.isSome]
          exact Bool.noConfusion
        have hwrites := mapM_ok f.write ((List.range xs.length).map r)
        have helems : elements reply = (List.range xs.length).map r := hhanded.elements_eq
        rw [if_neg hsome]
        refine (wp_appendList _ done.length reply _).mono ?_ ?_
        · rintro _ b3 ⟨ws, hws, hs3, hm3⟩
          rw [helems, hwrites] at hws
          obtain rfl := Except.ok.inj hws
          refine ⟨_, hanswer, ?_, hfreed.trans hm3⟩
          rw [hs3]
          show ((((b2.state.setSize _).setEntry _ _).fill _ _).Holds _ : Prop)
          rw [hs2, hs1]
          exact (hI.append _).1
        · rintro e b3 ⟨he, -⟩
          rw [helems, hwrites] at he
          cases he
    · intro e he
      refine ⟨congrArg (Except.map _) he, (v0.filterMap Prod.fst : List ℕ), ?_, hm1⟩
      rw [Multiset.coe_card]
      exact hread

theorem wp_genMapped (rows : List (MappedRow X Y)) (v : ListVector W) (l : Ledger) (hfresh : v.Fresh)
    (hshort : ∀ row ∈ rows, row.Short) :
    wp (f.genMapped rows)
      (fun _ b' => ∃ answers, rows.mapM (tagged f.answer) = .ok answers ∧ b'.state.Holds answers ∧
        l.Moves b'.ledger 0 0)
      (fun e b' => ∃ r, rows.mapM (tagged f.answer) = .error (e, r) ∧
        ∃ gone : Multiset ℕ, gone.card = f.read r ∧ l.Moves b'.ledger 0 gone) ⟨l, v⟩ :=
  @wp_eachRow Exception (ListVector W) (MappedRow X Y) _ Unit f.mappedRow f.answer f.read
    (fun _ done v => v.Holds done) _ f.mappedRow_spec rows () [] ⟨l, v⟩ hshort hfresh.holds

/-- **A function over a list of base values**, called chunk after chunk with lists of no more values than an
`int` counts, answers every row from the elements of its list that are not NULL: as many as these, or NULL
where there is none. -/
theorem genMapped_run (chunks : List (List (MappedRow X Y) × ListVector W)) (hfresh : ∀ chunk ∈ chunks, chunk.2.Fresh)
    (hshort : ∀ chunk ∈ chunks, ∀ row ∈ chunk.1, row.Short) :
    let run := runAll f.genMapped chunks .empty
    let asked := expected f.answer (chunks.map Prod.fst)
    List.Forall₂ (fun answers column => column.Holds answers) asked.1 run.1 ∧
      run.2.1 = asked.2.map Prod.fst ∧
      run.2.2.released.Nodup ∧
      (run.2.2.released.Perm (List.range run.2.2.next) ↔ ∀ raised ∈ asked.2, f.read raised.2 = 0) :=
  runAll_rows (I := fun rows v => v.Fresh ∧ ∀ row ∈ rows, row.Short)
    (J := fun answers column => column.Holds answers) (fun rows v l hv => f.wp_genMapped rows v l hv.1 hv.2)
    chunks fun chunk hchunk => ⟨hfresh chunk hchunk, hshort chunk hchunk⟩

end MappedFunction

/-- Numbers rounded down to a multiple, where MEOS refuses multiples of nothing. -/
def roundDown : MappedFunction ℕ ℕ ℕ ℕ ℕ where
  readElement := id
  ownedOperand := true
  function xs ys := if ys = [0] then .error (.meos "nothing to round to")
    else .ok (some fun j => xs.getD j 0 / ys.headD 1 * ys.headD 1)
  owned _ := true
  write := some

/-- Lists of two values, of one beside a NULL, and of none; then a row that MEOS refuses. -/
theorem genMapped_run_roundDown :
    let lists : ListVector ℕ :=
      { ListVector.blank 7 with entry := fun r => ⟨2 * r, 2⟩, childValid := fun k => k < 3, size := 6 }
    let row (r step : ℕ) : MappedRow ℕ ℕ := ⟨lists, fun _ => [some step], r⟩
    let chunks : List (List (MappedRow ℕ ℕ) × ListVector ℕ) :=
      [([row 0 5, row 1 5, row 2 5], ListVector.blank 0), ([row 1 0], ListVector.blank 0)]
    let run := runAll roundDown.genMapped chunks .empty
    let asked := expected roundDown.answer (chunks.map Prod.fst)
    List.Forall₂ (fun answers column => column.Holds answers) asked.1 run.1 ∧
      run.2.1 = asked.2.map Prod.fst ∧
      run.2.2.released.Nodup ∧
      (run.2.2.released.Perm (List.range run.2.2.next) ↔ ∀ raised ∈ asked.2, roundDown.read raised.2 = 0) := by
  refine roundDown.genMapped_run _ ?_ ?_
  · simp [ListVector.fresh_blank]
  · simp [MappedRow.Short, MappedRow.present, ListVector.elements, ListVector.slot, ListVector.blank, List.range_succ]

end MobilityDuck
