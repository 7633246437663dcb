/-
# The constructors over lists

The constructors read a list of elements into an array and hand it to MEOS. A set
or a span set is made of base values or of spans, and refuses a list with a NULL
element (`genMake`); over geometries the type of the lists is read before the rows,
and may be refused. So a list that a function answers is read back element by
element, and a set made of the values of another is made of what MEOS answered,
whatever the rows of the chunk hold (`make_of_generated`).

The constructors of temporal values take options behind the list, an interpolation
or the bounds, and read them off the first row for the whole chunk
(`genTemporalMake`). So they answer each row from its own arguments exactly when no
row with a list has other options than the first, or raises otherwise than the first
does where its options cannot be read (`temporalMake_rowwise_iff`).

Key definitions: `MakeFunction`, `TemporalMake`. Key theorems: `genMake_run`, `make_of_generated`,
`temporalMake_rowwise_iff`.
-/
import MobilityDuck.ListRows
import MobilityDuck.TimeUtil

namespace MobilityDuck

open Lib Lib.Books MonadExcept

/-- What fills a column of values. -/
abbrev Making (W : Type) := Booked Exception (ℕ → Option W)

/-- A row of a list column. -/
structure ListRow (X : Type) where
  lv : ListVector X
  r : ℕ

/-- A chunk of a list column, with its type. -/
structure ListChunk (X : Type) where
  type : SpatialArray.SpatialType
  rows : List (ListRow X)

namespace Making

variable {S W : Type}

/-- What MEOS made is written and released; nothing is NULL. -/
def writeMade (write : S → W) (i : ℕ) : Option S → Making W Unit
  | none => change fun out => Function.update out i none
  | some made => do
    let id ← take
    change fun out => Function.update out i (some (write made))
    giveBack [id]

end Making

open Making

/-! ### Sets and span sets -/

/-- Whether a constructor is over geometries, how it reads an element by the SRID of their type, whether the
elements are to be released, whether the array is when one cannot be read, and what MEOS makes of the array. -/
structure MakeFunction (X E S W : Type) where
  geometries : Bool
  readElement : Int32 → X → Except Exception E
  owned : Bool
  guarded : Bool
  make : ℤ → List E → Except Exception (Option S)
  write : S → W

def nullElement : Exception := .invalidInput "null array element not allowed in this context"

namespace MakeFunction

variable {X E S W : Type} (g : MakeFunction X E S W)

/-- The SRID that the type of the list states, read off a list of geometries. -/
def crs (type : SpatialArray.SpatialType) : Except Exception Int32 :=
  if g.geometries then SpatialArray.geometryCrsSrid type else .ok 0

/-- The loop over the elements, with those it got so far. -/
def readElements (srid : Int32) (arr : ℕ) : List (Option ℕ × E) → List (Option X) → Making W (List (Option ℕ × E))
  | got, [] => pure got
  | got, none :: _ => do
    giveBack (got.filterMap Prod.fst)
    giveBack [arr]
    throw nullElement
  | got, some x :: xs =>
    match g.readElement srid x with
    | .error e => do
      giveBack (if g.guarded then [arr] else [])
      throw e
    | .ok a => do
      let id ← if g.owned then some <$> take else pure none
      readElements srid arr (got ++ [(id, a)]) xs

/-- The elements that are read: as many as the length says as an `int`. -/
def slots (row : ListRow X) : List (Option X) :=
  (row.lv.elements (row.lv.entry row.r)).take (intLength (row.lv.entry row.r).length).toNat

/-- A row of `emit_container_make` and `emit_value_array_make`. -/
def makeRow (srid : Int32) (_ : Unit) (i : ℕ) (row : ListRow X) : Making W Unit :=
  if row.lv.valid row.r = false then change fun out => Function.update out i none
  else do
    let arr ← take
    let got ← g.readElements srid arr [] (slots row)
    let made ← ofExcept (g.make (intLength (row.lv.entry row.r).length) (got.map Prod.snd))
    giveBack (got.filterMap Prod.fst)
    giveBack [arr]
    writeMade g.write i made

/-- The type is read before the rows, NULL or not. -/
def genMake (chunk : ListChunk X) : Making W Unit := do
  let srid ← ofExcept (g.crs chunk.type)
  eachRow (g.makeRow srid) () 0 chunk.rows

/-- An element, none of which may be NULL. -/
def element (srid : Int32) : Option X → Except Exception E
  | none => .error nullElement
  | some x => g.readElement srid x

def answer (srid : Int32) (row : ListRow X) : Except Exception (Option W) :=
  if row.lv.valid row.r = false then .ok none
  else do
    let elements ← (slots row).mapM (g.element srid)
    return (← g.make (intLength (row.lv.entry row.r).length) elements).map g.write

/-- What is not released when the row raises: what was got before an element that cannot be read, or all
that was got when the call raises. -/
def kept (srid : Int32) : ℕ → List (Option X) → ℕ
  | got, [] => got + 1
  | _, none :: _ => 0
  | got, some x :: xs =>
    match g.readElement srid x with
    | .error _ => got + if g.guarded then 0 else 1
    | .ok _ => kept srid (got + if g.owned then 1 else 0) xs

def lost (srid : Int32) (row : ListRow X) : ℕ := if row.lv.valid row.r = false then 0 else g.kept srid 0 (slots row)

/-- What a chunk is answered, or what raises, and how much it leaves behind. -/
def answers (chunk : ListChunk X) : Except (Exception × ℕ) (List (Option W)) := do
  let srid ← (g.crs chunk.type).mapError (·, 0)
  (chunk.rows.mapM (tagged (g.answer srid))).mapError fun raised => (raised.1, g.lost srid raised.2)

end MakeFunction

/-! ### Temporal values -/

/-- How a constructor reads the temporal values of a list, and the options behind it, NULL or not; MEOS is
called with both. -/
structure TemporalMake (X O P A : Type) where
  blobToTemporal : X → A
  options : List (Option O) → Except Exception P

/-- The arguments of a chunk: the lists, the columns behind them, and how many rows there are. -/
structure MakeChunk (X O : Type) where
  lists : ListVector X
  options : List (ℕ → Option O)
  count : ℕ

namespace TemporalMake

variable {X O P A S W : Type} (f : TemporalMake X O P A)

/-- A row, with the options of the chunk. -/
def temporalRow (make : P → List A → Except Exception (Option S)) (write : S → W) (p : P) (_ : Unit) (i : ℕ)
    (row : ListRow X) : Making W Unit :=
  if row.lv.valid row.r = false then change fun out => Function.update out i none
  else do
    let a ← listToTemporalArr f.blobToTemporal row.lv (row.lv.entry row.r)
    let made ← ofExcept (make p (a.2.map Prod.snd))
    writeMade write i made
    freeTemporalArr a

/-- `tsequence_make`, `tsequenceset_make_gaps`: the options are the first row's. -/
def genTemporalMake (make : P → List A → Except Exception (Option S)) (write : S → W) (chunk : MakeChunk X O) :
    Making W Unit := do
  let p ← ofExcept (f.options (chunk.options.map fun column => column 0))
  eachRow (f.temporalRow make write p) () 0 ((List.range chunk.count).map (⟨chunk.lists, ·⟩))

/-- A row with given options. -/
def answerWith (make : P → List A → Except Exception (Option S)) (write : S → W) (p : P) (row : ListRow X) :
    Except Exception (Option W) :=
  if row.lv.valid row.r = false then .ok none
  else
    let places := (List.range (row.lv.entry row.r).length).map fun i =>
      f.blobToTemporal (row.lv.child ((row.lv.entry row.r).offset + i))
    (make p places).map (Option.map write)

/-- A row with its own options. -/
def answer (make : P → List A → Except Exception (Option S)) (write : S → W) (chunk : MakeChunk X O) (i : ℕ) :
    Except Exception (Option W) :=
  if chunk.lists.valid i = false then .ok none
  else do f.answerWith make write (← f.options (chunk.options.map (· i))) ⟨chunk.lists, i⟩

/-- Whatever MEOS makes of arrays, a chunk is answered row by row, or raises what the first row that raises
would. -/
def Rowwise (chunk : MakeChunk X O) : Prop :=
  ∀ (S W : Type) (make : P → List A → Except Exception (Option S)) (write : S → W) (b : Books (ℕ → Option W)),
    wp (f.genTemporalMake make write chunk)
      (fun _ b' => ∃ answers, (List.range chunk.count).mapM (f.answer make write chunk) = .ok answers ∧
        ∀ i, ∀ h : i < answers.length, b'.state i = answers[i])
      (fun e _ => (List.range chunk.count).mapM (f.answer make write chunk) = .error e) b

end TemporalMake

/-! ### What is made -/

section Made

variable {S W : Type}

/-- The first rows of a column. -/
def Made (out : ℕ → Option W) (answers : List (Option W)) : Prop := ∀ i, ∀ h : i < answers.length, out i = answers[i]

theorem Made.append {out : ℕ → Option W} {done : List (Option W)} (h : Made out done) (a : Option W) :
    Made (Function.update out done.length a) (done ++ [a]) := by
  intro i hi
  rw [List.length_append, List.length_singleton] at hi
  rcases Nat.lt_or_ge i done.length with hlt | hge
  · rw [Function.update_of_ne (by omega), List.getElem_append_left hlt]
    exact h i hlt
  · obtain rfl : i = done.length := by omega
    simp

theorem wp_writeMade (write : S → W) (i : ℕ) (made : Option S) (b : Books (ℕ → Option W)) :
    wp (writeMade write i made)
      (fun _ b' => b'.state = Function.update b.state i (made.map write) ∧ b.ledger.Moves b'.ledger 0 0)
      (fun _ _ => False) b := by
  cases made with
  | none => exact ⟨rfl, Ledger.Moves.refl _ _⟩
  | some made =>
    rw [writeMade, wp_bind, wp_take, wp_bind, wp_change, wp_giveBack]
    exact ⟨rfl, (Ledger.moves_alloc _).trans (Ledger.moves_freeAll _ [b.ledger.next])⟩

end Made

namespace MakeFunction

variable {X E S W : Type} (g : MakeFunction X E S W)

/-- The loop reads the elements, or loses what it did not release. The induction is on the elements that
are left. -/
theorem wp_readElements (srid : Int32) (arr : ℕ) :
    ∀ (xs : List (Option X)) (got : List (Option ℕ × E)) (b : Books (ℕ → Option W)),
    wp (g.readElements srid arr got xs)
      (fun r b' => ∃ es, xs.mapM (g.element srid) = .ok es ∧ r.map Prod.snd = got.map Prod.snd ++ es ∧
        b'.state = b.state ∧ (r.filterMap Prod.fst).length + 1 = g.kept srid (got.filterMap Prod.fst).length xs ∧
        b.ledger.Moves b'.ledger (got.filterMap Prod.fst : List ℕ) (r.filterMap Prod.fst : List ℕ))
      (fun e b' => xs.mapM (g.element srid) = .error e ∧ ∃ gone : Multiset ℕ,
        gone.card = g.kept srid (got.filterMap Prod.fst).length xs ∧
        b.ledger.Moves b'.ledger ({arr} + (got.filterMap Prod.fst : List ℕ)) gone) b := by
  intro xs
  induction xs with
  | nil =>
    intro got b
    exact ⟨[], rfl, (List.append_nil _).symm, rfl, rfl, Ledger.Moves.refl _ _⟩
  | cons x xs ih =>
    intro got b
    cases x with
    | none =>
      rw [readElements, wp_bind, wp_giveBack, wp_bind, wp_giveBack, wp_throw]
      refine ⟨rfl, 0, rfl, ?_⟩
      have hgot := (Ledger.moves_freeAll b.ledger (got.filterMap Prod.fst)).frame {arr}
      rw [zero_add, add_comm] at hgot
      exact hgot.trans (Ledger.moves_freeAll _ [arr])
    | some x =>
      rw [readElements, kept]
      cases hx : g.readElement srid x with
      | error e =>
        have hraises : (some x :: xs).mapM (g.element srid) = .error e := by
          rw [List.mapM_cons, element, hx]
          rfl
        show wp (giveBack (if g.guarded then [arr] else []) >>= fun _ => throw e) _ _ b
        rw [wp_bind, wp_giveBack, wp_throw]
        refine ⟨hraises, ?_⟩
        cases g.guarded with
        | true =>
          have hfree := (Ledger.moves_freeAll b.ledger [arr]).frame (got.filterMap Prod.fst : List ℕ)
          rw [zero_add] at hfree
          exact ⟨_, Multiset.coe_card _, hfree⟩
        | false =>
          refine ⟨{arr} + (got.filterMap Prod.fst : List ℕ), ?_, Ledger.Moves.refl _ _⟩
          rw [Multiset.card_add, Multiset.card_singleton, Multiset.coe_card, add_comm]
          rfl
      | ok a =>
        have hrest : ∀ es, xs.mapM (g.element srid) = .ok es →
            (some x :: xs).mapM (g.element srid) = .ok (a :: es) := by
          intro es hes
          rw [List.mapM_cons, element, hx, hes]
          rfl
        have hraises : ∀ e, xs.mapM (g.element srid) = .error e → (some x :: xs).mapM (g.element srid) = .error e := by
          intro e he
          rw [List.mapM_cons, element, hx, he]
          rfl
        have hvals : ∀ (id : Option ℕ) es, (got ++ [(id, a)]).map Prod.snd ++ es = got.map Prod.snd ++ a :: es := by
          simp
        dsimp only
        cases g.owned with
        | true =>
          have hids : (got ++ [(some b.ledger.next, a)]).filterMap Prod.fst =
              got.filterMap Prod.fst ++ [b.ledger.next] := by simp
          have htake : b.ledger.Moves b.ledger.alloc (got.filterMap Prod.fst : List ℕ)
              ((got ++ [(some b.ledger.next, a)]).filterMap Prod.fst : List ℕ) := by
            have h := (Ledger.moves_alloc b.ledger).frame (got.filterMap Prod.fst : List ℕ)
            rw [zero_add, add_comm] at h
            rw [hids, ← Multiset.coe_add]
            exact h
          have hlen : ((got ++ [(some b.ledger.next, a)]).filterMap Prod.fst).length =
              (got.filterMap Prod.fst).length + 1 := by
            rw [hids, List.length_append, List.length_singleton]
          rw [if_pos rfl, wp_bind, wp_map, wp_take]
          refine (ih _ _).mono ?_ ?_
          · rintro r b' ⟨es, hes, hr, hs, hcard, hm⟩
            rw [hlen] at hcard
            exact ⟨a :: es, hrest es hes, hr.trans (hvals _ es), hs, hcard, htake.trans hm⟩
          · rintro e b' ⟨he, gone, hcard, hm⟩
            rw [hlen] at hcard
            have hframe := htake.frame {arr}
            rw [add_comm, add_comm _ ({arr} : Multiset ℕ)] at hframe
            exact ⟨hraises e he, gone, hcard, hframe.trans hm⟩
        | false =>
          have hids : (got ++ [((none : Option ℕ), a)]).filterMap Prod.fst = got.filterMap Prod.fst := by simp
          rw [if_neg (by simp), wp_bind, wp_pure]
          refine (ih _ _).mono ?_ ?_
          · rintro r b' ⟨es, hes, hr, hs, hcard, hm⟩
            rw [hids] at hcard hm
            exact ⟨a :: es, hrest es hes, hr.trans (hvals _ es), hs, hcard, hm⟩
          · rintro e b' ⟨he, gone, hcard, hm⟩
            rw [hids] at hcard hm
            exact ⟨hraises e he, gone, hcard, hm⟩

theorem makeRow_spec (srid : Int32) (s : Unit) (done : List (Option W)) (row : ListRow X)
    (b : Books (ℕ → Option W)) (_ : True)
    (hI : Made b.state done) :
    wp (g.makeRow srid s done.length row)
      (fun _ b' => ∃ a, g.answer srid row = .ok a ∧ Made b'.state (done ++ [a]) ∧ b.ledger.Moves b'.ledger 0 0)
      (fun e b' => g.answer srid row = .error e ∧
        ∃ gone : Multiset ℕ, gone.card = g.lost srid row ∧ b.ledger.Moves b'.ledger 0 gone) b := by
  rw [makeRow, answer, lost]
  by_cases hnull : row.lv.valid row.r = false
  · rw [if_pos hnull, if_pos hnull, wp_change]
    exact ⟨none, rfl, hI.append none, Ledger.Moves.refl _ _⟩
  rw [if_neg hnull, if_neg hnull, if_neg hnull, wp_bind, wp_take, wp_bind]
  refine (g.wp_readElements srid b.ledger.next (slots row) [] _).mono ?_ ?_
  · rintro got b' ⟨es, hes, hgot, hs, hcard, hm⟩
    rw [List.map_nil, List.nil_append] at hgot
    rw [wp_bind, wp_ofExcept, hgot, hes]
    have hread : b.ledger.Moves b'.ledger 0 ({b.ledger.next} + (got.filterMap Prod.fst : List ℕ)) :=
      Ledger.Moves.of_alloc hm
    constructor
    · intro made hmade
      rw [wp_bind, wp_giveBack, wp_bind, wp_giveBack]
      refine (wp_writeMade g.write done.length made _).mono ?_ fun _ _ h => h.elim
      rintro _ b'' ⟨hs', hm'⟩
      refine ⟨made.map g.write, ?_, ?_, ?_⟩
      · show (g.make _ es).bind (fun r => .ok (r.map g.write)) = _
        rw [hmade]
        rfl
      · rw [hs']
        show Made (Function.update b'.state _ _) _
        rw [hs]
        exact hI.append _
      · have hgotten := (Ledger.moves_freeAll b'.ledger (got.filterMap Prod.fst)).frame {b.ledger.next}
        have harr := Ledger.moves_freeAll (b'.ledger.freeAll (got.filterMap Prod.fst)) [b.ledger.next]
        rw [zero_add, add_comm] at hgotten
        exact ((hread.trans hgotten).trans harr).trans hm'
    · intro e he
      refine ⟨?_, _, ?_, hread⟩
      · show (g.make _ es).bind (fun r => .ok (r.map g.write)) = _
        rw [he]
        rfl
      · rw [Multiset.card_add, Multiset.card_singleton, Multiset.coe_card, add_comm]
        exact hcard
  · rintro e b' ⟨he, gone, hcard, hm⟩
    rw [he]
    refine ⟨rfl, gone, hcard, ?_⟩
    have halloc := Ledger.moves_alloc b.ledger
    exact halloc.trans (by simpa using hm)

/-- A chunk is answered once its type is read. -/
theorem answers_of_rows {chunk : ListChunk X} {srid : Int32} (hsrid : g.crs chunk.type = .ok srid) :
    g.answers chunk = (chunk.rows.mapM (tagged (g.answer srid))).mapError
      fun raised => (raised.1, g.lost srid raised.2) := by
  rw [answers, hsrid]
  rfl

theorem wp_genMake (chunk : ListChunk X) (b : Books (ℕ → Option W)) :
    wp (g.genMake chunk)
      (fun _ b' => ∃ a, g.answers chunk = .ok a ∧ Made b'.state a ∧ b.ledger.Moves b'.ledger 0 0)
      (fun e b' => ∃ n, g.answers chunk = .error (e, n) ∧
        ∃ gone : Multiset ℕ, gone.card = n ∧ b.ledger.Moves b'.ledger 0 gone) b := by
  rw [genMake, wp_bind, wp_ofExcept]
  constructor
  · intro srid hsrid
    rw [g.answers_of_rows hsrid]
    refine (wp_eachRow (I := fun _ done out => Made out done) (g.makeRow_spec srid) chunk.rows () [] b
      (fun _ _ => trivial) fun _ hi => absurd hi (Nat.not_lt_zero _)).mono ?_ ?_
    · rintro _ b' ⟨answers, hanswers, hmade, hm⟩
      refine ⟨answers, ?_, hmade, hm⟩
      rw [hanswers]
      rfl
    · rintro e b' ⟨r, hraised, gone, hcard, hm⟩
      refine ⟨g.lost srid r, ?_, gone, hcard, hm⟩
      rw [hraised]
      rfl
  · intro e he
    refine ⟨0, ?_, 0, rfl, Ledger.Moves.refl _ _⟩
    rw [answers, he]
    rfl

/-- **The constructors of sets and span sets**, called chunk after chunk, make of every row what MEOS makes of
the elements of its list, and refuse one with a NULL among them, and a chunk of geometries whose type is refused.
Everything is released unless an element or a call raised that left elements behind. -/
theorem genMake_run (chunks : List (ListChunk X × (ℕ → Option W))) :
    let run := runAll g.genMake chunks .empty
    let asked := outcomes g.answers (chunks.map Prod.fst)
    List.Forall₂ (fun answers out => Made out answers) asked.1 run.1 ∧
      run.2.1 = asked.2.map Prod.fst ∧
      run.2.2.released.Nodup ∧
      (run.2.2.released.Perm (List.range run.2.2.next) ↔ ∀ raised ∈ asked.2, raised.2 = 0) :=
  @runAll_exact Exception (ℕ → Option W) (ListChunk X) ℕ _ g.genMake g.answers id (fun _ _ => True)
    (fun answers out => Made out answers) (fun chunk out l _ => g.wp_genMake chunk ⟨l, out⟩) chunks fun _ _ => trivial

end MakeFunction

section Rows

variable {R B : Type}

theorem mapM_eq_of_forall {answer answer' : R → Except Exception B} {rs : List R}
    (h : ∀ r ∈ rs, answer r = answer' r) : rs.mapM answer = rs.mapM answer' := by
  induction rs with
  | nil => rfl
  | cons r rs ih =>
    rw [List.mapM_cons, List.mapM_cons, h r List.mem_cons_self, ih fun r' hr' => h r' (List.mem_cons_of_mem _ hr')]

theorem mapM_range_eq_error_iff {answer : ℕ → Except Exception B} {n : ℕ} {e : Exception} :
    (List.range n).mapM answer = .error e ↔ ∃ i < n, answer i = .error e ∧ ∀ j < i, ∃ b, answer j = .ok b := by
  rw [mapM_eq_error_iff]
  simp only [List.getElem_range, List.length_range]
  constructor
  · rintro ⟨i, hi, hfirst, hbefore⟩
    exact ⟨i, hi, hfirst, fun j hj => hbefore j (hj.trans hi) hj⟩
  · rintro ⟨i, hi, hfirst, hbefore⟩
    exact ⟨i, hi, hfirst, fun j _ hj => hbefore j hj⟩

end Rows

namespace TemporalMake

variable {X O P A S W : Type} (f : TemporalMake X O P A)

/-- The copies of a row, and the array that holds them. -/
def read (row : ListRow X) : ℕ := if row.lv.valid row.r = false then 0 else (row.lv.entry row.r).length + 1

theorem temporalRow_spec (make : P → List A → Except Exception (Option S)) (write : S → W) (p : P) (s : Unit)
    (done : List (Option W)) (row : ListRow X) (b : Books (ℕ → Option W))
    (hshort : row.lv.valid row.r = true → (row.lv.entry row.r).length < 2 ^ 31) (hI : Made b.state done) :
    wp (f.temporalRow make write p s done.length row)
      (fun _ b' => ∃ a, f.answerWith make write p row = .ok a ∧ Made b'.state (done ++ [a]) ∧
        b.ledger.Moves b'.ledger 0 0)
      (fun e b' => f.answerWith make write p row = .error e ∧
        ∃ gone : Multiset ℕ, gone.card = read row ∧ b.ledger.Moves b'.ledger 0 gone) b := by
  rw [temporalRow, answerWith, read]
  by_cases hnull : row.lv.valid row.r = false
  · rw [if_pos hnull, if_pos hnull, wp_change]
    exact ⟨none, rfl, hI.append none, Ledger.Moves.refl _ _⟩
  rw [if_neg hnull, if_neg hnull, if_neg hnull, wp_bind]
  refine (wp_listToTemporalArr f.blobToTemporal row.lv (hshort (by simpa using hnull)) b).mono ?_ fun _ _ h => h.elim
  rintro a b1 ⟨ha, hs1, hm1, hcard⟩
  rw [wp_bind, wp_ofExcept, ha]
  constructor
  · intro made hmade
    rw [wp_bind]
    refine (wp_writeMade write done.length made b1).mono ?_ fun _ _ h => h.elim
    rintro _ b2 ⟨hs2, hm2⟩
    refine (wp_freeTemporalArr a b2).mono ?_ fun _ _ h => h.elim
    rintro _ b3 ⟨hs3, hm3⟩
    refine ⟨made.map write, congrArg (Except.map _) hmade, ?_, ?_⟩
    · rw [hs3, hs2, hs1]
      exact hI.append _
    · have hwritten := hm2.frame (arrIds a)
      rw [zero_add] at hwritten
      exact (hm1.trans hwritten).trans hm3
  · intro e he
    exact ⟨congrArg (Except.map _) he, arrIds a, hcard, hm1⟩

/-- The lists of a chunk are no longer than an `int` says. -/
def Short (chunk : MakeChunk X O) : Prop :=
  ∀ i < chunk.count, chunk.lists.valid i = true → (chunk.lists.entry i).length < 2 ^ 31

/-- The rows of a chunk are answered with the options of the first. -/
theorem wp_genTemporalMake (make : P → List A → Except Exception (Option S)) (write : S → W) {chunk : MakeChunk X O}
    {p : P} (hp : f.options (chunk.options.map fun column => column 0) = .ok p) (hshort : Short chunk)
    (b : Books (ℕ → Option W)) :
    let asked := (List.range chunk.count).mapM fun i => f.answerWith make write p ⟨chunk.lists, i⟩
    wp (f.genTemporalMake make write chunk)
      (fun _ b' => ∃ answers, asked = .ok answers ∧ Made b'.state answers) (fun e _ => asked = .error e) b := by
  intro asked
  have hasked : asked = ((List.range chunk.count).map (⟨chunk.lists, ·⟩)).mapM (f.answerWith make write p) := by
    rw [List.mapM_map]
    rfl
  have hplain := mapError_mapM_tagged (f.answerWith make write p) ((List.range chunk.count).map (⟨chunk.lists, ·⟩))
  rw [← hasked] at hplain
  have hshort' : ∀ row ∈ (List.range chunk.count).map fun i => (⟨chunk.lists, i⟩ : ListRow X),
      row.lv.valid row.r = true → (row.lv.entry row.r).length < 2 ^ 31 := by
    intro row hrow
    obtain ⟨i, hi, rfl⟩ := List.mem_map.mp hrow
    exact hshort i (List.mem_range.mp hi)
  rw [genTemporalMake, wp_bind, wp_ofExcept]
  refine ⟨?_, fun e he => by rw [hp] at he; cases he⟩
  intro p' hp'
  obtain rfl : p = p' := Except.ok.inj (hp.symm.trans hp')
  refine (wp_eachRow (I := fun _ done out => Made out done) (fun s done row b hshort hI =>
    f.temporalRow_spec make write p s done row b hshort hI) _ () [] b hshort'
      fun _ hi => absurd hi (Nat.not_lt_zero _)).mono ?_ ?_
  · rintro _ b' ⟨answers, hanswers, hmade, -⟩
    rw [hanswers] at hplain
    exact ⟨answers, hplain.symm, hmade⟩
  · rintro e b' ⟨r, hraised, -⟩
    rw [hraised] at hplain
    exact hplain.symm

theorem genTemporalMake_refused (make : P → List A → Except Exception (Option S)) (write : S → W)
    {chunk : MakeChunk X O} {e : Exception} (he : f.options (chunk.options.map fun column => column 0) = .error e)
    (b : Books (ℕ → Option W)) : (f.genTemporalMake make write chunk).run b = .error e b := by
  rw [genTemporalMake, he]
  rfl

/-- The options of the first row are readable: the rows that have a list are answered with their own exactly
when these are the same. -/
theorem rowwise_iff_of_ok {chunk : MakeChunk X O} {p : P}
    (hp : f.options (chunk.options.map fun column => column 0) = .ok p) (hshort : Short chunk) :
    f.Rowwise chunk ↔
      ∀ i < chunk.count, chunk.lists.valid i = true → f.options (chunk.options.map fun column => column i) = .ok p := by
  constructor
  · intro h i hi hvalid
    -- a function of MEOS that answers with the options it is called with
    have hrows := h P P (fun p _ => .ok (some p)) id ⟨.empty, fun _ => none⟩
    have hfirst := f.wp_genTemporalMake (fun p _ => .ok (some p)) id hp hshort ⟨.empty, fun _ => none⟩
    have hgiven : ∀ j, f.answerWith (fun p _ => .ok (some p)) id p ⟨chunk.lists, j⟩ =
        .ok (if chunk.lists.valid j = false then none else some p) := by
      intro j
      rw [answerWith]
      by_cases hj : chunk.lists.valid j = false
      · rw [if_pos hj, if_pos hj]
      · rw [if_neg hj, if_neg hj]
        rfl
    cases hrun : (f.genTemporalMake (fun p _ => .ok (some p)) id chunk).run ⟨.empty, fun _ => none⟩ with
    | error e b =>
      obtain ⟨j, -, hj, -⟩ := mapM_range_eq_error_iff.mp (hfirst.of_run_error hrun)
      rw [hgiven] at hj
      cases hj
    | ok _ b =>
      obtain ⟨answers, hanswers, hmade⟩ := hfirst.of_run_ok hrun
      obtain ⟨answers', hanswers', hmade'⟩ := hrows.of_run_ok hrun
      obtain ⟨hlen, hall⟩ := getElem_of_mapM hanswers
      obtain ⟨hlen', hall'⟩ := getElem_of_mapM hanswers'
      rw [List.length_range] at hlen hlen'
      have hown := hall' i (by rwa [List.length_range]) (by omega)
      have hused := hall i (by rwa [List.length_range]) (by omega)
      rw [← hmade' i (by omega), hmade i (by omega), ← hused, List.getElem_range, hgiven, answer, hvalid] at hown
      obtain ⟨p', hp', hown⟩ := except_bind_eq_ok.mp hown
      rw [answerWith, hvalid] at hown
      rw [hp']
      exact congrArg _ (Option.some.inj (Except.ok.inj hown))
  · intro h S W make write b
    have hsame : (List.range chunk.count).mapM (f.answer make write chunk) =
        (List.range chunk.count).mapM fun i => f.answerWith make write p ⟨chunk.lists, i⟩ := by
      refine mapM_eq_of_forall fun i hi => ?_
      rw [answer]
      by_cases hnull : chunk.lists.valid i = false
      · rw [if_pos hnull, answerWith, if_pos hnull]
      · rw [if_neg hnull, h i (List.mem_range.mp hi) (by simpa using hnull)]
        rfl
    rw [hsame]
    exact f.wp_genTemporalMake make write hp hshort b

theorem answer_of_null {make : P → List A → Except Exception (Option S)} {write : S → W} {chunk : MakeChunk X O} {i : ℕ}
    (hnull : chunk.lists.valid i = false) : f.answer make write chunk i = .ok none := by
  rw [answer, if_pos hnull]

theorem answer_of_list {make : P → List A → Except Exception (Option S)} {write : S → W} {chunk : MakeChunk X O} {i : ℕ}
    (hvalid : chunk.lists.valid i = true) :
    f.answer make write chunk i =
      f.options (chunk.options.map (· i)) >>= fun p => f.answerWith make write p ⟨chunk.lists, i⟩ := by
  rw [answer, if_neg (by rw [hvalid]; exact Bool.noConfusion)]

/-- With a function of MEOS that raises, a row that has a list raises what its options do, or what MEOS does. -/
theorem answer_of_raising (other : Exception) (chunk : MakeChunk X O) (i : ℕ) :
    let made := f.answer (fun _ _ => .error other : P → List A → Except Exception (Option Unit)) id chunk i
    chunk.lists.valid i = false ∧ made = .ok none ∨ chunk.lists.valid i = true ∧
      (made = .error other ∨ ∃ e, f.options (chunk.options.map fun column => column i) = .error e ∧ made = .error e) := by
  intro made
  cases hvalid : chunk.lists.valid i with
  | false => exact .inl ⟨rfl, f.answer_of_null hvalid⟩
  | true =>
    have hmade : made = f.options (chunk.options.map fun column => column i) >>= fun p =>
        f.answerWith (fun _ _ => .error other) id p ⟨chunk.lists, i⟩ := f.answer_of_list hvalid
    cases hoptions : f.options (chunk.options.map fun column => column i) with
    | error e =>
      rw [hoptions] at hmade
      exact .inr ⟨rfl, .inr ⟨e, rfl, hmade⟩⟩
    | ok p =>
      rw [hoptions] at hmade
      refine .inr ⟨rfl, .inl (hmade.trans ?_)⟩
      show f.answerWith (fun _ _ => .error other) id p ⟨chunk.lists, i⟩ = _
      rw [answerWith, if_neg (by rw [hvalid]; exact Bool.noConfusion)]
      rfl

/-- The options of the first row raise, and so does the chunk: as it should where the first row that has a list
raises the same. -/
theorem rowwise_iff_of_error {chunk : MakeChunk X O} {e : Exception}
    (he : f.options (chunk.options.map fun column => column 0) = .error e) :
    f.Rowwise chunk ↔ ∃ i < chunk.count, chunk.lists.valid i = true ∧
      f.options (chunk.options.map fun column => column i) = .error e ∧ ∀ j < i, chunk.lists.valid j = false := by
  constructor
  · intro h
    -- a function of MEOS that raises something else
    obtain ⟨other, hother⟩ : ∃ other : Exception, other ≠ e := by
      by_cases hd : e = .diverges
      · exact ⟨.meos "", by rw [hd]; exact fun h => by cases h⟩
      · exact ⟨.diverges, Ne.symm hd⟩
    have hrun := f.genTemporalMake_refused (fun _ _ => .error other : P → List A → Except Exception (Option Unit)) id he
      ⟨.empty, fun _ => none⟩
    have hrows := (h Unit Unit (fun _ _ => .error other) id ⟨.empty, fun _ => none⟩).of_run_error hrun
    obtain ⟨i, hi, hfirst, hbefore⟩ := mapM_range_eq_error_iff.mp hrows
    refine ⟨i, hi, ?_⟩
    rcases f.answer_of_raising other chunk i with ⟨-, hnull⟩ | ⟨hvalid, hmeos | ⟨e', hoptions, hraised⟩⟩
    · rw [hnull] at hfirst
      cases hfirst
    · exact absurd (Except.error.inj (hmeos.symm.trans hfirst)) hother
    · obtain rfl := Except.error.inj (hraised.symm.trans hfirst)
      refine ⟨hvalid, hoptions, fun j hj => ?_⟩
      obtain ⟨b, hb⟩ := hbefore j hj
      rcases f.answer_of_raising other chunk j with ⟨hnull, -⟩ | ⟨-, hmeos | ⟨e'', -, hraised'⟩⟩
      · exact hnull
      · cases hmeos.symm.trans hb
      · cases hraised'.symm.trans hb
  · rintro ⟨i, hi, hvalid, hoptions, hbefore⟩ S W make write b
    have hrows : (List.range chunk.count).mapM (f.answer make write chunk) = .error e := by
      refine mapM_range_eq_error_iff.mpr ⟨i, hi, ?_, fun j hj => ⟨none, f.answer_of_null (hbefore j hj)⟩⟩
      rw [f.answer_of_list hvalid, hoptions]
      rfl
    exact (wp_of_error (f.genTemporalMake_refused make write he b)).mpr hrows

end TemporalMake

/-- A constructor with a bound, inclusive where none is given, and an interpolation that MEOS knows. -/
def withBound : TemporalMake ℕ ℕ (Bool × ℕ) ℕ where
  blobToTemporal := id
  options given :=
    let interp := (given.headD none).getD 0
    if interp ≤ 3 then .ok ((given.getD 1 none).getD 1 = 1, interp) else .error (.meos "unknown interpolation")

section RoundTrip

variable {X A V W S U : Type}

/-- A function of arrays under a constructor: the column that one fills for a chunk is read by the other. -/
def makeOfGenerated (f : ArrayFunction X A V W) (g : MakeFunction W V S U) (body : ArrayFunction.Body)
    (chunk : InputChunk X) (type : SpatialArray.SpatialType) (column : ListVector W) (out : ℕ → Option U) (l : Ledger) :
    Except Exception (ℕ → Option U) × Ledger :=
  match (f.generated body chunk).run ⟨l, column⟩ with
  | .error e b => (.error e, b.ledger)
  | .ok _ b =>
    match (g.genMake ⟨type, (List.range chunk.rows.length).map (⟨b.state, ·⟩)⟩).run ⟨b.ledger, out⟩ with
    | .error e b' => (.error e, b'.ledger)
    | .ok _ b' => (.ok b'.state, b'.ledger)

/-- What MEOS makes of its own answer. -/
def madeOf (f : ArrayFunction X A V W) (g : MakeFunction W V S U) (crs : List Int32) (x : InputRow X) :
    Except Exception (Option U) :=
  match TableFunction.validRow x with
  | none => .ok none
  | some xs => do
    let vals := (← f.answerOf crs xs).getD []
    return (← g.make vals.length vals).map g.write

/-- The same for a chunk, the types of which are read first. -/
def madeChunk (f : ArrayFunction X A V W) (g : MakeFunction W V S U) (body : ArrayFunction.Body)
    (type : SpatialArray.SpatialType) (chunk : InputChunk X) : Except Exception (List (Option U)) := do
  let crs ← body.crs chunk.types
  let _ ← g.crs type
  chunk.rows.mapM (madeOf f g crs)

/-- The column that is made, everything released, or what was raised. -/
def MadeAs (made : Except Exception (ℕ → Option U) × Ledger) : Except Exception (List (Option U)) → Prop
  | .error e => made.1 = .error e
  | .ok answers => ∃ out, made.1 = .ok out ∧ Made out answers ∧ made.2.released.Perm (List.range made.2.next)

variable {f : ArrayFunction X A V W} {g : MakeFunction W V S U}

/-- What is written of an element that MEOS answers is read as the element. -/
def ReadsBack (f : ArrayFunction X A V W) (g : MakeFunction W V S U) (srid : Int32) : Prop :=
  ∀ xs operands vals, f.function xs operands = .ok (some vals) →
    ∀ v ∈ vals, ∃ w, f.write v = .ok (some w) ∧ g.readElement srid w = .ok v

/-- MEOS counts what it answers in an `int`. -/
def Counted (f : ArrayFunction X A V W) : Prop :=
  ∀ xs operands vals, f.function xs operands = .ok (some vals) → vals.length < 2 ^ 31

theorem mapM_element {srid : Int32} {vals : List V}
    (hread : ∀ v ∈ vals, ∃ w, f.write v = .ok (some w) ∧ g.readElement srid w = .ok v) :
    ∃ ws, vals.mapM f.write = .ok ws ∧ ws.mapM (g.element srid) = .ok vals ∧ ws.length = vals.length := by
  induction vals with
  | nil => exact ⟨[], rfl, rfl, rfl⟩
  | cons v vals ih =>
    obtain ⟨w, hw, hv⟩ := hread v List.mem_cons_self
    obtain ⟨ws, hws, hvals, hlen⟩ := ih fun v' hv' => hread v' (List.mem_cons_of_mem _ hv')
    refine ⟨some w :: ws, ?_, ?_, congrArg Nat.succ hlen⟩
    · rw [List.mapM_cons, hw, hws]
      rfl
    · rw [List.mapM_cons, MakeFunction.element, hv, hvals]
      rfl

/-- The elements of an answer are written and read back, and are as many as an `int` counts. -/
theorem element_answerOf {srid : Int32} (hread : ReadsBack f g srid) (hcount : Counted f) {crs : List Int32}
    {xs : X × List X} {arr : Option (List V)} (h : f.answerOf crs xs = .ok arr) :
    (∃ ws, (arr.getD []).mapM f.write = .ok ws ∧ ws.mapM (g.element srid) = .ok (arr.getD []) ∧
      ws.length = (arr.getD []).length) ∧ (arr.getD []).length < 2 ^ 31 := by
  obtain ⟨operands, -, h⟩ := except_bind_eq_ok.mp h
  cases arr with
  | none => exact ⟨⟨[], rfl, rfl, rfl⟩, Nat.two_pow_pos 31⟩
  | some vals => exact ⟨mapM_element (hread xs operands vals h), hcount xs operands vals h⟩

/-- A row of the column is made what MEOS makes of its own answer. -/
theorem answer_of_holds {srid : Int32} (hread : ReadsBack f g srid) (hcount : Counted f) {crs : List Int32}
    {column : ListVector W} {answers : List (Option (List (Option W)))} (hholds : column.Holds answers) {i : ℕ}
    (hi : i < answers.length) {x : InputRow X} (hx : f.answer crs x = .ok answers[i]) :
    g.answer srid ⟨column, i⟩ = madeOf f g crs x := by
  have hrow := hholds.row i hi
  rw [MakeFunction.answer]
  cases hvalid : TableFunction.validRow x with
  | none =>
    rw [ArrayFunction.answer_of_none hvalid] at hx
    rw [← Except.ok.inj hx, ListVector.row] at hrow
    have hnull : column.valid i = false := by
      cases hv : column.valid i with
      | false => rfl
      | true =>
        rw [hv] at hrow
        cases hrow
    rw [if_pos hnull, madeOf, hvalid]
  | some xs =>
    cases harr : f.answerOf crs xs with
    | error e =>
      rw [ArrayFunction.answer_of_raised hvalid harr] at hx
      cases hx
    | ok arr =>
      obtain ⟨⟨ws, hws, helements, hlength⟩, hshort⟩ := element_answerOf hread hcount harr
      rw [ArrayFunction.answer_of_some hvalid harr, hws] at hx
      obtain ⟨hv, helems⟩ := hholds.elements_entry hi (Except.ok.inj hx).symm
      have hlen : (column.entry i).length = (arr.getD []).length := by
        have h := congrArg List.length helems
        rw [ListVector.elements, List.length_map, List.length_range] at h
        exact h.trans hlength
      have hint : intLength (column.entry i).length = (arr.getD []).length := by
        rw [hlen, intLength_of_lt hshort]
      have hslots : MakeFunction.slots ⟨column, i⟩ = ws := by
        rw [MakeFunction.slots, hint, helems, Int.toNat_natCast, List.take_of_length_le hlength.le]
      have hmade : madeOf f g crs x = (g.make (arr.getD []).length (arr.getD [])).map fun r => r.map g.write := by
        rw [madeOf, hvalid]
        dsimp only
        rw [harr]
        rfl
      rw [if_neg (by rw [hv]; exact Bool.noConfusion), hslots, helements, hint]
      exact hmade.symm

/-- What a function answers for the rows of a chunk. -/
theorem answers_eq_ok {body : ArrayFunction.Body} {chunk : InputChunk X} {a : List (Option (List (Option W)))}
    (h : f.answers body chunk = .ok a) :
    ∃ crs, body.crs chunk.types = .ok crs ∧ chunk.rows.mapM (f.answer crs) = .ok a := by
  cases hcrs : body.crs chunk.types with
  | error e =>
    rw [ArrayFunction.answers, hcrs] at h
    cases h
  | ok crs =>
    refine ⟨crs, rfl, ?_⟩
    rw [f.answers_of_rows hcrs] at h
    rw [← mapError_mapM_tagged (f.answer crs)]
    cases hrows : chunk.rows.mapM (tagged (f.answer crs)) with
    | error raised =>
      rw [hrows] at h
      cases h
    | ok a' =>
      rw [hrows] at h
      exact congrArg Except.ok (Except.ok.inj h)

/-- A constructor raises what it should, and answers the rows of its chunk. -/
theorem mapError_answers {chunk : ListChunk W} {srid : Int32} (hsrid : g.crs chunk.type = .ok srid) :
    (g.answers chunk).mapError Prod.fst = chunk.rows.mapM (g.answer srid) := by
  rw [g.answers_of_rows hsrid, ← mapError_mapM_tagged (g.answer srid)]
  cases chunk.rows.mapM (tagged (g.answer srid)) <;> rfl

/-- **What a constructor makes of the list that a function answers** is, row by row, what MEOS makes of its own
answer. A chunk that raises in the function does so before any is made. -/
theorem make_of_generated {type : SpatialArray.SpatialType} (hread : ∀ srid, g.crs type = .ok srid → ReadsBack f g srid)
    (hcount : Counted f) (body : ArrayFunction.Body) (chunk : InputChunk X) {column : ListVector W}
    (hfresh : column.Fresh) (out : ℕ → Option U) :
    let made := makeOfGenerated f g body chunk type column out .empty
    (∀ e n, f.answers body chunk = .error (e, n) → made.1 = .error e) ∧
      ((f.answers body chunk).toBool = true → MadeAs made (madeChunk f g body type chunk)) := by
  intro made
  have hvalues := f.wp_generated body chunk column .empty hfresh
  cases hrun : (f.generated body chunk).run ⟨.empty, column⟩ with
  | error e b =>
    obtain ⟨n, hraised, -⟩ := hvalues.of_run_error hrun
    have hmade : made.1 = .error e := by
      show (makeOfGenerated f g body chunk type column out .empty).1 = _
      rw [makeOfGenerated, hrun]
    refine ⟨fun e' n' he' => ?_, fun hok => ?_⟩
    · rw [hraised] at he'
      obtain ⟨rfl, -⟩ := Prod.mk.injEq .. ▸ Except.error.inj he'
      exact hmade
    · rw [hraised] at hok
      cases hok
  | ok _ b =>
    obtain ⟨answers, hanswers, hholds, hm⟩ := hvalues.of_run_ok hrun
    refine ⟨fun e n he => ?_, fun _ => ?_⟩
    · rw [hanswers] at he
      cases he
    obtain ⟨crs, hcrs, hans⟩ := answers_eq_ok hanswers
    obtain ⟨hlen, hrows⟩ := getElem_of_mapM hans
    let lists : ListChunk W := ⟨type, (List.range chunk.rows.length).map (⟨b.state, ·⟩)⟩
    have hmake := g.wp_genMake lists ⟨b.ledger, out⟩
    have hpair : made = match (g.genMake lists).run ⟨b.ledger, out⟩ with
        | .error e b' => (.error e, b'.ledger)
        | .ok _ b' => (.ok b'.state, b'.ledger) := by
      show makeOfGenerated f g body chunk type column out .empty = _
      rw [makeOfGenerated, hrun]
    -- the types are read before the rows, and the type of the list behind the function
    have hchunk : madeChunk f g body type chunk = (g.answers lists).mapError Prod.fst := by
      rw [madeChunk, hcrs]
      cases hsrid : g.crs type with
      | error e =>
        rw [MakeFunction.answers]
        show _ = Except.mapError Prod.fst ((g.crs type).mapError (·, 0) >>= _)
        rw [hsrid]
        rfl
      | ok srid =>
        rw [mapError_answers hsrid]
        have hlist : lists.rows.map (g.answer srid) = chunk.rows.map (madeOf f g crs) := by
          refine List.ext_getElem (by simp [lists]) fun i hi hi' => ?_
          rw [List.length_map] at hi'
          simp only [lists, List.getElem_map, List.getElem_range]
          exact answer_of_holds (hread srid hsrid) hcount hholds (by omega) (hrows i hi' (by omega))
        have h := congrArg (fun l : List (Except Exception (Option U)) => l.mapM id) hlist
        simp only [List.mapM_map] at h
        exact h.symm
    rw [hchunk, hpair]
    cases hrun' : (g.genMake lists).run ⟨b.ledger, out⟩ with
    | error e b' =>
      obtain ⟨n, hraised, -⟩ := hmake.of_run_error hrun'
      rw [hraised]
      rfl
    | ok _ b' =>
      obtain ⟨made', hmade', hout, hm'⟩ := hmake.of_run_ok hrun'
      rw [hmade']
      have hbal := Ledger.balanced_empty.moves_zero (hm.trans hm')
      exact ⟨b'.state, rfl, hout, hbal.perm_iff.mpr rfl⟩

end RoundTrip

/-- A set of timestamps, counted in an `int`. -/
abbrev TimestampSet := { s : List Int64 // s.length < 2 ^ 31 }

/-- The timestamps of a set. -/
def timestampValues : ArrayFunction TimestampSet TimestampSet Int64 Int64 where
  operands _ xs := [.ok xs.1]
  function _ operands := .ok (operands.head?.map Subtype.val)
  arrays := 1
  held _ := 0
  write ts := .ok (some (meosToDuckDBTimestamp ts))

/-- A set of timestamps, which holds something. -/
def timestampSet : MakeFunction Int64 Int64 (List Int64) (List Int64) where
  geometries := false
  readElement _ ts := .ok (duckDBToMeosTimestamp ts)
  owned := false
  guarded := false
  make n values := if n ≤ 0 then .error (.meos "empty set") else .ok (some values)
  write := id

def twoTimestamps : TimestampSet := ⟨[5, 7], Nat.lt_of_sub_pos (Nat.zero_lt_succ _)⟩

theorem make_of_generated_timestamps :
    let type : SpatialArray.SpatialType := .list (.other "TIMESTAMPTZ")
    let chunk : InputChunk TimestampSet := ⟨[], [(some twoTimestamps, []), (none, [])]⟩
    let made :=
      makeOfGenerated timestampValues timestampSet .array chunk type (ListVector.blank 0) (fun _ => none) .empty
    (∀ e n, timestampValues.answers .array chunk = .error (e, n) → made.1 = .error e) ∧
      ((timestampValues.answers .array chunk).toBool = true →
        MadeAs made (madeChunk timestampValues timestampSet .array type chunk)) := by
  refine make_of_generated (f := timestampValues) (g := timestampSet) ?_ ?_ .array _ (ListVector.fresh_blank 0) _
  · intro srid _ xs operands vals _ v _
    refine ⟨_, rfl, congrArg Except.ok ?_⟩
    rw [duckDBToMeosTimestamp, meosToDuckDBTimestamp]
    simp
  · intro xs operands vals h
    cases operands with
    | nil => cases h
    | cons s operands =>
      obtain rfl := Option.some.inj (Except.ok.inj h)
      exact s.2

end MobilityDuck
