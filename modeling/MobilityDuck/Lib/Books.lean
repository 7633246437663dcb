/-
# Programs that keep books

A program that works on a state, may raise, and numbers what it obtains: `take`
obtains, `giveBack` releases, and the ledger records both. What is obtained in a
row by steps that may raise is lost as far as it got (`wp_takeAll`).

A loop over rows that may raise does what its rows do, up to the first that
raises, and loses what that one lost (`wp_eachRow`). A run of such calls answers
what its calls answer (`runAll_exact`).

Key definitions: `Books`, `take`, `giveBack`, `takeAll`, `numbered`, `holding`, `eachRow`, `runAll`, `outcomes`,
`expected`. Key theorems: `wp_takeAll`, `wp_numbered`, `wp_holding`, `wp_eachRow`, `runAll_exact`, `runAll_rows`.
-/
import MobilityDuck.Lib.Ledger
import MobilityDuck.Lib.Raise

namespace Lib

open MonadExcept

/-- A state, and the ledger of what was obtained. -/
structure Books (σ : Type) where
  ledger : Ledger
  state : σ

abbrev Booked (ε σ : Type) := EStateM ε (Books σ)

namespace Books

variable {ε σ A V R : Type}

def take : Booked ε σ ℕ := do
  let b ← get
  set { b with ledger := b.ledger.alloc }
  return b.ledger.next

def giveBack (ids : List ℕ) : Booked ε σ Unit := modify fun b => { b with ledger := b.ledger.freeAll ids }

def look : Booked ε σ σ := do return (← get).state

def change (f : σ → σ) : Booked ε σ Unit := modify fun b => { b with state := f b.state }

/-- What is obtained one after the other, each step of which may raise. -/
def takeAll : List (Except ε A) → Booked ε σ (List (ℕ × A))
  | [] => pure []
  | x :: xs => do
    let a ← ofExcept x
    let id ← take
    return (id, a) :: (← takeAll xs)

/-- How much is obtained before a step raises. -/
def taken (xs : List (Except ε A)) : ℕ := (xs.takeWhile fun x => x.toBool).length

/-- Values handed over, with the numbers of those to be released. -/
def numbered (owned : V → Bool) : List V → Booked ε σ (List (Option ℕ × V))
  | [] => pure []
  | v :: vs => do
    let id ← if owned v then some <$> take else pure none
    return (id, v) :: (← numbered owned vs)

/-- Values handed over, each with the numbers of what it holds. -/
def holding (held : V → ℕ) : List V → Booked ε σ (List (List ℕ × V))
  | [] => pure []
  | v :: vs => do
    let ids ← takeAll (List.replicate (held v) (.ok ()))
    return (ids.map Prod.fst, v) :: (← holding held vs)

/-- A loop over rows: each has its number, and what the row before it handed on. -/
def eachRow {S : Type} (body : S → ℕ → R → Booked ε σ S) : S → ℕ → List R → Booked ε σ S
  | s, _, [] => pure s
  | s, i, r :: rs => do eachRow body (← body s i r) (i + 1) rs

/-- An answer, or what was raised and by which row. -/
def tagged {B : Type} (answer : R → Except ε B) (r : R) : Except (ε × R) B := (answer r).mapError (·, r)

section Rules

variable {E : ε → Books σ → Prop} {b : Books σ}

@[simp] theorem wp_take {Q : ℕ → Books σ → Prop} :
    wp take Q E b ↔ Q b.ledger.next { b with ledger := b.ledger.alloc } := Iff.rfl

@[simp] theorem wp_giveBack {ids : List ℕ} {Q : Unit → Books σ → Prop} :
    wp (giveBack ids) Q E b ↔ Q () { b with ledger := b.ledger.freeAll ids } := Iff.rfl

@[simp] theorem wp_look {Q : σ → Books σ → Prop} : wp look Q E b ↔ Q b.state b := Iff.rfl

@[simp] theorem wp_change {f : σ → σ} {Q : Unit → Books σ → Prop} :
    wp (change f) Q E b ↔ Q () { b with state := f b.state } := Iff.rfl

theorem taken_cons_ok (a : A) (xs : List (Except ε A)) : taken (.ok a :: xs) = taken xs + 1 := by
  simp [taken, Except.toBool]

theorem taken_cons_error (e : ε) (xs : List (Except ε A)) : taken (.error e :: xs) = 0 := by
  simp [taken, Except.toBool]

/-- All is obtained, or what was obtained before a step raised is lost. -/
theorem wp_takeAll (xs : List (Except ε A)) : ∀ b : Books σ, wp (takeAll xs)
    (fun r b' => xs.mapM id = .ok (r.map Prod.snd) ∧ r.length = taken xs ∧ b'.state = b.state ∧
      b.ledger.Moves b'.ledger 0 (r.map Prod.fst : List ℕ))
    (fun e b' => xs.mapM id = .error e ∧ b'.state = b.state ∧
      ∃ lost : Multiset ℕ, lost.card = taken xs ∧ b.ledger.Moves b'.ledger 0 lost) b := by
  induction xs with
  | nil => exact fun b => ⟨rfl, rfl, rfl, Ledger.Moves.refl _ _⟩
  | cons x xs ih =>
    intro b
    rw [takeAll, wp_bind, wp_ofExcept]
    constructor
    · rintro a rfl
      rw [wp_bind, wp_take, wp_bind]
      refine (ih _).mono ?_ ?_
      · rintro r b' ⟨hr, hlen, hs, hm⟩
        refine ⟨?_, ?_, hs, Ledger.Moves.of_alloc hm⟩
        · rw [List.mapM_cons, hr]
          rfl
        · rw [taken_cons_ok, ← hlen]
          rfl
      · rintro e b' ⟨he, hs, lost, hcard, hm⟩
        refine ⟨?_, hs, {b.ledger.next} + lost, ?_, Ledger.Moves.of_alloc hm⟩
        · rw [List.mapM_cons, he]
          rfl
        · rw [taken_cons_ok, Multiset.card_add, Multiset.card_singleton, hcard, add_comm]
    · rintro e rfl
      exact ⟨rfl, rfl, 0, by rw [taken_cons_error, Multiset.card_zero], Ledger.Moves.refl _ _⟩

/-- The numbers are those of what is to be released. -/
theorem wp_numbered (owned : V → Bool) (vs : List V) : ∀ b : Books σ, wp (numbered owned vs)
    (fun r b' => r.map Prod.snd = vs ∧ (r.filterMap Prod.fst).length = vs.countP owned ∧ b'.state = b.state ∧
      b.ledger.Moves b'.ledger 0 (r.filterMap Prod.fst : List ℕ))
    (fun (_ : ε) _ => False) b := by
  induction vs with
  | nil => exact fun b => ⟨rfl, rfl, rfl, Ledger.Moves.refl _ _⟩
  | cons v vs ih =>
    intro b
    rw [numbered]
    cases hv : owned v with
    | false =>
      rw [if_neg (by simp), wp_bind, wp_pure, wp_bind]
      refine (ih b).mono ?_ fun _ _ h => h
      rintro r b' ⟨hr, hlen, hs, hm⟩
      refine ⟨congrArg (v :: ·) hr, ?_, hs, hm⟩
      rw [List.countP_cons_of_neg (by simp [hv])]
      exact hlen
    | true =>
      rw [if_pos rfl, wp_bind, wp_map, wp_take, wp_bind]
      refine (ih _).mono ?_ fun _ _ h => h
      rintro r b' ⟨hr, hlen, hs, hm⟩
      refine ⟨congrArg (v :: ·) hr, ?_, hs, Ledger.Moves.of_alloc hm⟩
      rw [List.countP_cons_of_pos hv]
      exact congrArg Nat.succ hlen

/-- Steps that do not raise are all taken. -/
theorem wp_takeAll_ok (xs : List A) (b : Books σ) :
    wp (takeAll (xs.map fun x => (.ok x : Except ε A)))
      (fun r b' => r.map Prod.snd = xs ∧ b'.state = b.state ∧ b.ledger.Moves b'.ledger 0 (r.map Prod.fst : List ℕ))
      (fun _ _ => False) b := by
  have hall : (xs.map fun x => (.ok x : Except ε A)).mapM id = .ok xs := by
    induction xs with
    | nil => rfl
    | cons x xs ih =>
      rw [List.map_cons, List.mapM_cons, ih]
      rfl
  refine (wp_takeAll _ b).mono ?_ ?_
  · rintro r b' ⟨hr, -, hs, hm⟩
    rw [hall] at hr
    exact ⟨(Except.ok.inj hr).symm, hs, hm⟩
  · rintro e b' ⟨he, -⟩
    rw [hall] at he
    cases he

/-- As many numbers as are asked for. -/
theorem wp_takeAll_replicate (n : ℕ) (b : Books σ) :
    wp (takeAll (List.replicate n (.ok () : Except ε Unit)))
      (fun r b' => r.length = n ∧ b'.state = b.state ∧ b.ledger.Moves b'.ledger 0 (r.map Prod.fst : List ℕ))
      (fun _ _ => False) b := by
  have h := wp_takeAll_ok (ε := ε) (List.replicate n ()) b
  rw [List.map_replicate] at h
  refine h.mono ?_ fun _ _ h => h
  rintro r b' ⟨hr, hs, hm⟩
  refine ⟨?_, hs, hm⟩
  have hlen := congrArg List.length hr
  rwa [List.length_map, List.length_replicate] at hlen

/-- Each value holds as much as it should. -/
theorem wp_holding (held : V → ℕ) (vs : List V) : ∀ b : Books σ, wp (holding held vs)
    (fun r b' => r.map Prod.snd = vs ∧ (∀ x ∈ r, x.1.length = held x.2) ∧ b'.state = b.state ∧
      b.ledger.Moves b'.ledger 0 (r.flatMap Prod.fst : List ℕ))
    (fun (_ : ε) _ => False) b := by
  induction vs with
  | nil => exact fun b => ⟨rfl, by simp, rfl, Ledger.Moves.refl _ _⟩
  | cons v vs ih =>
    intro b
    rw [holding, wp_bind]
    refine (wp_takeAll_replicate (held v) b).mono ?_ fun _ _ h => h
    rintro ids b' ⟨hids, hs, hm⟩
    rw [wp_bind]
    refine (ih b').mono ?_ fun _ _ h => h
    rintro r b'' ⟨hr, hlen, hs', hm'⟩
    refine ⟨congrArg (v :: ·) hr, ?_, hs'.trans hs, ?_⟩
    · intro x hx
      rcases List.mem_cons.mp hx with rfl | hx
      · rwa [List.length_map]
      · exact hlen x hx
    · have hrest := hm'.frame (ids.map Prod.fst : List ℕ)
      rw [zero_add, add_comm] at hrest
      exact hm.trans hrest

/-- The rule of loops over rows. A row answers what `answer` says and releases what it took, or raises
what `answer` says and loses as much as `lost` says; then so does the loop, up to the first row that
raises. -/
theorem wp_eachRow {B S : Type} {body : S → ℕ → R → Booked ε σ S} {answer : R → Except ε B} {lost : R → ℕ}
    {I : S → List B → σ → Prop} {P : R → Prop}
    (hbody : ∀ s done r (b : Books σ), P r → I s done b.state → wp (body s done.length r)
      (fun s' b' => ∃ a, answer r = .ok a ∧ I s' (done ++ [a]) b'.state ∧ b.ledger.Moves b'.ledger 0 0)
      (fun e b' => answer r = .error e ∧
        ∃ gone : Multiset ℕ, gone.card = lost r ∧ b.ledger.Moves b'.ledger 0 gone) b) :
    ∀ (rs : List R) (s : S) (done : List B) (b : Books σ), (∀ r ∈ rs, P r) → I s done b.state →
      wp (eachRow body s done.length rs)
        (fun s' b' => ∃ answers, rs.mapM (tagged answer) = .ok answers ∧ I s' (done ++ answers) b'.state ∧
          b.ledger.Moves b'.ledger 0 0)
        (fun e b' => ∃ r, rs.mapM (tagged answer) = .error (e, r) ∧
          ∃ gone : Multiset ℕ, gone.card = lost r ∧ b.ledger.Moves b'.ledger 0 gone) b := by
  intro rs
  induction rs with
  | nil =>
    intro s done b _ hI
    exact ⟨[], rfl, by rwa [List.append_nil], Ledger.Moves.refl _ _⟩
  | cons r rs ih =>
    intro s done b hP hI
    rw [eachRow, wp_bind]
    refine (hbody s done r b (hP r List.mem_cons_self) hI).mono ?_ ?_
    · rintro s' b' ⟨a, ha, hI', hm⟩
      have htagged : tagged answer r = .ok a := by rw [tagged, ha, Except.mapError]
      have hnext := ih s' (done ++ [a]) b' (fun r hr => hP r (List.mem_cons_of_mem _ hr)) hI'
      rw [List.length_append, List.length_singleton] at hnext
      refine hnext.mono ?_ ?_
      · rintro s'' b'' ⟨answers, hanswers, hI'', hm'⟩
        refine ⟨a :: answers, ?_, ?_, hm.trans hm'⟩
        · rw [List.mapM_cons, htagged, hanswers]
          rfl
        · rw [List.append_cons]
          exact hI''
      · rintro e b'' ⟨r', he, gone, hcard, hm'⟩
        refine ⟨r', ?_, gone, hcard, hm.trans hm'⟩
        rw [List.mapM_cons, htagged, he]
        rfl
    · rintro e b' ⟨he, gone, hcard, hm⟩
      refine ⟨r, ?_, gone, hcard, hm⟩
      rw [List.mapM_cons, tagged, he]
      rfl

end Rules

/-! ### Runs -/

/-- Calls of a program, each on a state of its own, up to the first that raises: what they leave, the
exception, and the books. -/
def runAll {C : Type} (p : C → Booked ε σ Unit) : List (C × σ) → Ledger → List σ × Option ε × Ledger
  | [], l => ([], none, l)
  | (c, s) :: calls, l =>
    match (p c).run ⟨l, s⟩ with
    | .ok _ b =>
      let rest := runAll p calls b.ledger
      (b.state :: rest.1, rest.2)
    | .error e b => ([], some e, b.ledger)

/-- What such a run should answer: the calls before the first that raises, and what that one raises. -/
def outcomes {C F B : Type} (answers : C → Except F B) : List C → List B × Option F
  | [] => ([], none)
  | c :: calls =>
    match answers c with
    | .ok a =>
      let rest := outcomes answers calls
      (a :: rest.1, rest.2)
    | .error e => ([], some e)

/-- The same for calls over rows: the rows of the calls before the first row that raises, and that row. -/
def expected {B : Type} (answer : R → Except ε B) (calls : List (List R)) : List (List B) × Option (ε × R) :=
  outcomes (fun rs => rs.mapM (tagged answer)) calls

theorem mapM_tagged_error {B : Type} {answer : R → Except ε B} : ∀ {rs : List R} {e : ε} {r : R},
    rs.mapM (tagged answer) = .error (e, r) → answer r = .error e := by
  intro rs
  induction rs with
  | nil => exact fun h => by cases h
  | cons r' rs ih =>
    intro e r h
    rw [List.mapM_cons] at h
    cases hr' : answer r' with
    | error e' =>
      rw [tagged, hr'] at h
      obtain ⟨rfl, rfl⟩ := Prod.mk.injEq .. ▸ Except.error.inj h
      exact hr'
    | ok b =>
      rw [tagged, hr'] at h
      cases hrest : rs.mapM (tagged answer) with
      | error raised =>
        rw [hrest] at h
        obtain rfl := Except.error.inj h
        exact ih hrest
      | ok bs =>
        rw [hrest] at h
        cases h

/-- The rows are answered as if nobody asked which raised. -/
theorem mapError_mapM_tagged {B : Type} (answer : R → Except ε B) (rs : List R) :
    (rs.mapM (tagged answer)).mapError Prod.fst = rs.mapM answer := by
  induction rs with
  | nil => rfl
  | cons r rs ih =>
    rw [List.mapM_cons, List.mapM_cons, ← ih, tagged]
    cases answer r with
    | error e => rfl
    | ok b => cases rs.mapM (tagged answer) <;> rfl

theorem getElem_of_mapM {B : Type} {answer : R → Except ε B} : ∀ {rs : List R} {bs : List B}, rs.mapM answer = .ok bs →
    bs.length = rs.length ∧ ∀ i (h : i < rs.length) (h' : i < bs.length), answer rs[i] = .ok bs[i] := by
  intro rs
  induction rs with
  | nil =>
    intro bs h
    obtain rfl := Except.ok.inj h
    exact ⟨rfl, fun i hi => absurd hi (Nat.not_lt_zero _)⟩
  | cons r rs ih =>
    intro bs h
    rw [List.mapM_cons] at h
    obtain ⟨b, hb, h⟩ := except_bind_eq_ok.mp h
    obtain ⟨bs', hbs, h⟩ := except_bind_eq_ok.mp h
    obtain rfl := Except.ok.inj h
    obtain ⟨hlen, hall⟩ := ih hbs
    refine ⟨congrArg Nat.succ hlen, fun i hi hi' => ?_⟩
    cases i with
    | zero => exact hb
    | succ i => exact hall i (Nat.lt_of_succ_lt_succ hi) (Nat.lt_of_succ_lt_succ hi')

/-- Rows raise what the first of them does that raises. -/
theorem mapM_eq_error_iff {B : Type} {answer : R → Except ε B} {e : ε} : ∀ {rs : List R},
    rs.mapM answer = .error e ↔ ∃ i, ∃ h : i < rs.length, answer rs[i] = .error e ∧
      ∀ j (h' : j < rs.length), j < i → ∃ b, answer rs[j] = .ok b := by
  intro rs
  induction rs with
  | nil =>
    constructor
    · exact fun h => by cases h
    · rintro ⟨i, hi, -⟩
      exact absurd hi (Nat.not_lt_zero i)
  | cons r rs ih =>
    rw [List.mapM_cons]
    cases hr : answer r with
    | error e' =>
      constructor
      · intro h
        obtain rfl := Except.error.inj h
        exact ⟨0, Nat.succ_pos _, hr, fun j _ hj => absurd hj (Nat.not_lt_zero j)⟩
      · rintro ⟨i, hi, hfirst, hbefore⟩
        cases i with
        | zero => exact congrArg _ (Except.error.inj (hr.symm.trans hfirst))
        | succ i =>
          obtain ⟨b, hb⟩ := hbefore 0 (Nat.succ_pos _) (Nat.succ_pos i)
          cases hr.symm.trans hb
    | ok b =>
      have hrest : ((.ok b : Except ε B) >>= fun b => rs.mapM answer >>= fun bs => pure (b :: bs)) = .error e ↔
          rs.mapM answer = .error e := by
        cases rs.mapM answer with
        | error e' => exact ⟨fun h => congrArg _ (Except.error.inj h), fun h => congrArg _ (Except.error.inj h)⟩
        | ok bs =>
          constructor
          · exact fun h => by cases h
          · exact fun h => by cases h
      rw [hrest, ih]
      constructor
      · rintro ⟨i, hi, hfirst, hbefore⟩
        refine ⟨i + 1, Nat.succ_lt_succ hi, hfirst, fun j hj hlt => ?_⟩
        cases j with
        | zero => exact ⟨b, hr⟩
        | succ j => exact hbefore j (Nat.lt_of_succ_lt_succ hj) (Nat.lt_of_succ_lt_succ hlt)
      · rintro ⟨i, hi, hfirst, hbefore⟩
        cases i with
        | zero => cases hr.symm.trans hfirst
        | succ i =>
          exact ⟨i, Nat.lt_of_succ_lt_succ hi, hfirst, fun j hj hlt =>
            hbefore (j + 1) (Nat.succ_lt_succ hj) (Nat.succ_lt_succ hlt)⟩

/-- The call that a run ends with raises. -/
theorem exists_of_outcomes {C F B : Type} {answers : C → Except F B} : ∀ {calls : List C} {e : F},
    (outcomes answers calls).2 = some e → ∃ c ∈ calls, answers c = .error e := by
  intro calls
  induction calls with
  | nil => exact fun h => by cases h
  | cons c calls ih =>
    intro e h
    rw [outcomes] at h
    cases hc : answers c with
    | ok a =>
      simp only [hc] at h
      obtain ⟨c', hc', he⟩ := ih h
      exact ⟨c', List.mem_cons_of_mem _ hc', he⟩
    | error e' =>
      simp only [hc, Option.some.injEq] at h
      subst h
      exact ⟨c, List.mem_cons_self, hc⟩

/-- The row that a run ends with raises. -/
theorem answer_of_expected {B : Type} {answer : R → Except ε B} {calls : List (List R)} {raised : ε × R}
    (h : (expected answer calls).2 = some raised) : answer raised.2 = .error raised.1 := by
  obtain ⟨rs, -, hrs⟩ := exists_of_outcomes h
  exact mapM_tagged_error hrs

section Calls

variable {C T B : Type} {p : C → Booked ε σ Unit} {answers : C → Except (ε × T) B} {lost : T → ℕ}
  {I : C → σ → Prop} {J : B → σ → Prop}

/-- A run answers what it should, and what is lost was taken for what raised. -/
theorem runAll_spec
    (hp : ∀ c s l, I c s → wp (p c)
      (fun _ b' => ∃ a, answers c = .ok a ∧ J a b'.state ∧ l.Moves b'.ledger 0 0)
      (fun e b' => ∃ t, answers c = .error (e, t) ∧
        ∃ gone : Multiset ℕ, gone.card = lost t ∧ l.Moves b'.ledger 0 gone) ⟨l, s⟩) :
    ∀ (calls : List (C × σ)) (l : Ledger), (∀ call ∈ calls, I call.1 call.2) → l.Balanced 0 →
      List.Forall₂ J (outcomes answers (calls.map Prod.fst)).1 (runAll p calls l).1 ∧
        (runAll p calls l).2.1 = (outcomes answers (calls.map Prod.fst)).2.map Prod.fst ∧
        ∃ gone : Multiset ℕ, (runAll p calls l).2.2.Balanced gone ∧
          gone.card = ((outcomes answers (calls.map Prod.fst)).2.map fun raised => lost raised.2).getD 0 := by
  intro calls
  induction calls with
  | nil => exact fun l _ hl => ⟨.nil, rfl, 0, hl, rfl⟩
  | cons call calls ih =>
    intro l hI hl
    obtain ⟨c, s⟩ := call
    have hcall := hp c s l (hI _ List.mem_cons_self)
    rw [runAll, List.map_cons, outcomes]
    cases hr : (p c).run ⟨l, s⟩ with
    | ok _ b =>
      obtain ⟨a, ha, hJ, hm⟩ := hcall.of_run_ok hr
      have hbal := hl.moves_zero hm
      obtain ⟨hrows, hraised, gone, hgone⟩ := ih b.ledger (fun c hc => hI c (List.mem_cons_of_mem _ hc)) hbal
      simp only [ha]
      exact ⟨.cons hJ hrows, hraised, gone, hgone⟩
    | error e b =>
      obtain ⟨t, hraises, gone, hcard, hm⟩ := hcall.of_run_error hr
      have hbal := hl.moves_zero hm
      simp only [hraises]
      exact ⟨.nil, rfl, gone, hbal, hcard⟩

/-- The same, for a run that starts with the books empty: nothing is released twice, and everything is
unless what raised had taken something. -/
theorem runAll_exact
    (hp : ∀ c s l, I c s → wp (p c)
      (fun _ b' => ∃ a, answers c = .ok a ∧ J a b'.state ∧ l.Moves b'.ledger 0 0)
      (fun e b' => ∃ t, answers c = .error (e, t) ∧
        ∃ gone : Multiset ℕ, gone.card = lost t ∧ l.Moves b'.ledger 0 gone) ⟨l, s⟩)
    (calls : List (C × σ)) (hI : ∀ call ∈ calls, I call.1 call.2) :
    List.Forall₂ J (outcomes answers (calls.map Prod.fst)).1 (runAll p calls .empty).1 ∧
      (runAll p calls .empty).2.1 = (outcomes answers (calls.map Prod.fst)).2.map Prod.fst ∧
      (runAll p calls .empty).2.2.released.Nodup ∧
      ((runAll p calls .empty).2.2.released.Perm (List.range (runAll p calls .empty).2.2.next) ↔
        ∀ raised ∈ (outcomes answers (calls.map Prod.fst)).2, lost raised.2 = 0) := by
  obtain ⟨hrows, hraised, gone, hbal, hcard⟩ := runAll_spec hp calls .empty hI Ledger.balanced_empty
  refine ⟨hrows, hraised, hbal.nodup, hbal.perm_iff.trans ?_⟩
  rw [← Multiset.card_eq_zero, hcard]
  cases (outcomes answers (calls.map Prod.fst)).2 <;> simp

end Calls

/-- The same, for calls over rows. -/
theorem runAll_rows {B : Type} {p : List R → Booked ε σ Unit} {answer : R → Except ε B} {lost : R → ℕ}
    {I : List R → σ → Prop} {J : List B → σ → Prop}
    (hp : ∀ rs s l, I rs s → wp (p rs)
      (fun _ b' => ∃ answers, rs.mapM (tagged answer) = .ok answers ∧ J answers b'.state ∧ l.Moves b'.ledger 0 0)
      (fun e b' => ∃ r, rs.mapM (tagged answer) = .error (e, r) ∧
        ∃ gone : Multiset ℕ, gone.card = lost r ∧ l.Moves b'.ledger 0 gone) ⟨l, s⟩)
    (calls : List (List R × σ)) (hI : ∀ call ∈ calls, I call.1 call.2) :
    List.Forall₂ J (expected answer (calls.map Prod.fst)).1 (runAll p calls .empty).1 ∧
      (runAll p calls .empty).2.1 = (expected answer (calls.map Prod.fst)).2.map Prod.fst ∧
      (runAll p calls .empty).2.2.released.Nodup ∧
      ((runAll p calls .empty).2.2.released.Perm (List.range (runAll p calls .empty).2.2.next) ↔
        ∀ raised ∈ (expected answer (calls.map Prod.fst)).2, lost raised.2 = 0) :=
  runAll_exact hp calls hI

end Books
end Lib
