/-
# Sorted keys with NULLs

A key is a value or NULL. `ordered` sorts keys, with the NULLs first or last;
`topN` skips some of them and takes the next. Sorted values and as many NULLs
are what any keys that are a permutation of them are ordered to
(`ordered_withNulls`).

A source that hands on no more than `offset + limit` keys, the least values
first and NULLs for the rest, of which it knows fewer than there are, changes
what `topN` takes in certain cases only: `nullsLast_iff` and `nullsFirst_iff`
say in which it does not, and `topN_eq_iff` says it of the keys themselves.

Key definitions: `ordered`, `topN`, `cut`, `Shows`.
Key theorems: `ordered_withNulls`, `nullsLast_iff`, `nullsFirst_iff`, `topN_eq_iff`.
-/
import MobilityDuck.Lib.TopK
import Mathlib.Data.List.ReduceOption
import Mathlib.Order.WithBot

namespace Lib

variable {δ : Type*} [LinearOrder δ]

/-- The values among some keys, sorted. -/
def sortedValues (keys : List (Option δ)) : List δ := keys.reduceOption.insertionSort (· ≤ ·)

/-- The values, and as many NULLs, in order. -/
def withNulls (nullsFirst : Bool) (nulls : ℕ) (values : List δ) : List (Option δ) :=
  if nullsFirst then List.replicate nulls none ++ values.map some
  else values.map some ++ List.replicate nulls none

/-- The keys in order. -/
def ordered (nullsFirst : Bool) (keys : List (Option δ)) : List (Option δ) :=
  withNulls nullsFirst (keys.count none) (sortedValues keys)

def topN (nullsFirst : Bool) (limit offset : ℕ) (keys : List (Option δ)) : List (Option δ) :=
  ((ordered nullsFirst keys).drop offset).take limit

theorem sortedValues_sorted (keys : List (Option δ)) : (sortedValues keys).Pairwise (· ≤ ·) :=
  List.pairwise_insertionSort _ _

theorem mem_sortedValues {keys : List (Option δ)} {d : δ} : d ∈ sortedValues keys ↔ some d ∈ keys :=
  (List.perm_insertionSort _ _).mem_iff.trans List.reduceOption_mem_iff

/-- Sorted values are determined by the bag they are. -/
theorem sortedValues_eq {keys : List (Option δ)} {values : List δ} (hs : values.Pairwise (· ≤ ·))
    (hp : keys.reduceOption.Perm values) : sortedValues keys = values :=
  List.Perm.eq_of_pairwise' (r := (· ≤ ·)) (sortedValues_sorted keys) hs
    ((List.perm_insertionSort _ _).trans hp)

/-- Keys put in order are in order. -/
theorem ordered_withNulls {nullsFirst : Bool} {nulls : ℕ} {values : List δ}
    (hs : values.Pairwise (· ≤ ·)) {keys : List (Option δ)}
    (h : keys.Perm (values.map some ++ List.replicate nulls none)) :
    ordered nullsFirst keys = withNulls nullsFirst nulls values := by
  have hcount : keys.count none = nulls := by
    rw [h.count_eq, List.count_append, List.count_replicate_self]
    simp [List.count_eq_zero]
  have hvalues : keys.reduceOption.Perm values := by
    refine (h.filterMap id).trans (List.Perm.of_eq ?_)
    rw [List.filterMap_append, List.filterMap_map, List.filterMap_replicate]
    simp
  rw [ordered, hcount, sortedValues_eq hs hvalues]

/-! ### What a window of them shows -/

theorem take_drop_eq_iff {α : Type*} {xs ys : List α} {offset limit : ℕ} :
    (xs.drop offset).take limit = (ys.drop offset).take limit ↔
      ∀ i, offset ≤ i → i < offset + limit → xs[i]? = ys[i]? := by
  constructor
  · intro h i hi hlt
    have hget := congrArg (fun l : List α => l[i - offset]?) h
    simp only [List.getElem?_take, List.getElem?_drop, if_pos (by omega : i - offset < limit)] at hget
    rwa [Nat.add_sub_cancel' hi] at hget
  · intro h
    refine List.ext_getElem? fun j => ?_
    simp only [List.getElem?_take, List.getElem?_drop]
    by_cases hj : j < limit
    · rw [if_pos hj, if_pos hj]
      exact h _ (by omega) (by omega)
    · rw [if_neg hj, if_neg hj]

omit [LinearOrder δ] in
theorem getElem?_nullsFirst (nulls i : ℕ) (values : List δ) :
    (withNulls true nulls values)[i]? =
      if i < nulls then some none else values[i - nulls]?.map some := by
  rw [withNulls, if_pos rfl, List.getElem?_append, List.length_replicate]
  by_cases hi : i < nulls
  · rw [if_pos hi, if_pos hi, List.getElem?_replicate, if_pos hi]
  · rw [if_neg hi, if_neg hi, List.getElem?_map]

omit [LinearOrder δ] in
theorem getElem?_nullsLast (nulls i : ℕ) (values : List δ) :
    (withNulls false nulls values)[i]? =
      if i < values.length then values[i]?.map some
      else if i < values.length + nulls then some none else none := by
  rw [withNulls, if_neg (by decide), List.getElem?_append, List.length_map]
  by_cases hi : i < values.length
  · rw [if_pos hi, if_pos hi, List.getElem?_map]
  · rw [if_neg hi, if_neg hi, List.getElem?_replicate]
    by_cases hn : i < values.length + nulls
    · rw [if_pos hn, if_pos (by omega)]
    · rw [if_neg hn, if_neg (by omega)]

section Window

variable {values : List δ} {offset limit known unknown : ℕ}

/-- The keys a source hands on: `offset + limit` of the values and of the NULLs it knows. -/
def cut (nullsFirst : Bool) (known total : ℕ) (values : List δ) : List (Option δ) :=
  withNulls nullsFirst (min known (total - values.length)) (values.take total)

omit [LinearOrder δ] in
/-- With the NULLs last, a window shows a NULL that was not handed on only behind all values and all
known NULLs. -/
theorem nullsLast_iff (hlimit : 0 < limit) :
    ((cut false known (offset + limit) values).drop offset).take limit =
        ((withNulls false (unknown + known) values).drop offset).take limit ↔
      offset + limit ≤ values.length + known ∨ unknown = 0 ∨
        values.length + unknown + known ≤ offset := by
  rw [take_drop_eq_iff]
  simp only [cut, getElem?_nullsLast, List.length_take]
  constructor
  · intro h
    by_contra hcond
    push Not at hcond
    have hi := h (max offset (values.length + known)) (le_max_left _ _) (by omega)
    rw [if_neg (by omega), if_neg (by omega), if_neg (by omega), if_pos (by omega)] at hi
    cases hi
  · intro hcond i hi hlt
    by_cases hn : i < values.length
    · rw [if_pos (by omega), if_pos hn, List.getElem?_take, if_pos hlt]
    · rw [if_neg (by omega), if_neg hn]
      by_cases hk : i < values.length + known
      · rw [if_pos (by omega), if_pos (by omega)]
      · rw [if_neg (by omega), if_neg (by omega)]

/-- Between two equal values of a sorted list all are the same. -/
theorem getElem?_eq_of_between (hs : values.Pairwise (· ≤ ·)) {a b j : ℕ} (hb : b < values.length)
    (h : values[a]? = values[b]?) (haj : a ≤ j) (hjb : j ≤ b) : values[j]? = values[a]? := by
  have hle : ∀ {i i' : ℕ} (hi : i < values.length) (hi' : i' < values.length), i ≤ i' →
      values[i] ≤ values[i'] := by
    intro i i' hi hi' hii
    rcases Nat.eq_or_lt_of_le hii with rfl | hlt
    · exact le_rfl
    · exact List.pairwise_iff_getElem.mp hs i i' hi hi' hlt
  have hj : j < values.length := by omega
  have ha : a < values.length := by omega
  rw [List.getElem?_eq_getElem ha, List.getElem?_eq_getElem hb] at h
  rw [List.getElem?_eq_getElem hj, List.getElem?_eq_getElem ha]
  have hab : values[a] = values[b] := Option.some.inj h
  exact congrArg some (le_antisymm (hab ▸ hle hj hb hjb) (hle ha hj haj))

/-- Where the values of a window do not change when they move up, they are all the same. The
induction is on the position. -/
theorem getElem?_eq_of_shift (hs : values.Pairwise (· ≤ ·)) {first last move : ℕ} (hmove : 0 < move)
    (hlast : last < values.length)
    (h : ∀ j, first + move ≤ j → j ≤ last → values[j]? = values[j - move]?) (j : ℕ) (hj : first ≤ j)
    (hjl : j ≤ last) (hroom : first + move ≤ last) : values[j]? = values[first]? := by
  induction j using Nat.strong_induction_on with
  | _ j ih =>
    by_cases hshift : first + move ≤ j
    · rw [h j hshift hjl]
      exact ih (j - move) (by omega) (by omega) (by omega)
    · have hfirst := h (first + move) le_rfl hroom
      rw [Nat.add_sub_cancel] at hfirst
      exact getElem?_eq_of_between hs (by omega) hfirst.symm hj (by omega)

/-- With the NULLs first, the values of a window move up by the NULLs that were not handed on: that
shows unless none is missing, the window is behind everything, it holds known NULLs only, or it holds
values only and the ones it moves over are all the same. -/
theorem nullsFirst_iff (hlimit : 0 < limit) (hs : values.Pairwise (· ≤ ·)) :
    ((cut true known (offset + limit) values).drop offset).take limit =
        ((withNulls true (unknown + known) values).drop offset).take limit ↔
      (unknown = 0 ∧ (known = 0 ∨ values.length + known ≤ offset + limit)) ∨
        values.length + unknown + known ≤ offset ∨
        (values.length = 0 ∧ offset + limit ≤ known) ∨
        (unknown + known ≤ offset ∧ offset + limit ≤ values.length + known ∧
          values[offset - (unknown + known)]? = values[min (offset + limit) values.length - 1]?) := by
  rw [take_drop_eq_iff]
  simp only [cut, getElem?_nullsFirst, List.getElem?_take]
  obtain ⟨kept, hkept⟩ : ∃ kept, kept = min known (offset + limit - values.length) := ⟨_, rfl⟩
  rw [← hkept]
  constructor
  · intro h
    by_contra hcond
    push Not at hcond
    obtain ⟨hmissing, hroom, hnulls, hvalues⟩ := hcond
    have hlt : kept < unknown + known := by
      by_contra hle
      exact absurd (hmissing (by omega)) (by omega)
    by_cases hall : offset + limit ≤ values.length + known
    · by_cases hoff : unknown + known ≤ offset
      · -- the window holds values only
        refine hvalues hoff hall ?_
        have hmove : ∀ j, offset - (unknown + known) + (unknown + known - kept) ≤ j →
            j ≤ min (offset + limit) values.length - 1 →
            values[j]? = values[j - (unknown + known - kept)]? := by
          intro j hj hjl
          have hi := h (j + kept) (by omega) (by omega)
          rw [if_neg (by omega), if_pos (by omega), if_neg (by omega), Nat.add_sub_cancel] at hi
          have hi' := Option.map_injective (Option.some_injective δ) hi
          rw [hi']
          congr 1
          omega
        exact (getElem?_eq_of_shift hs (by omega) (by omega) hmove _ (by omega) le_rfl (by omega)).symm
      · -- the first value handed on stands where a NULL should
        have hi := h (max offset kept) (le_max_left _ _) (by omega)
        rw [if_neg (by omega), if_pos (by omega), if_pos (by omega),
          List.getElem?_eq_getElem (by omega)] at hi
        cases hi
    · -- nothing is handed on where a NULL or a value should stand
      have hi := h (max offset (values.length + known)) (le_max_left _ _) (by omega)
      rw [if_neg (by omega), if_pos (by omega), List.getElem?_eq_none (by omega)] at hi
      by_cases hnull : max offset (values.length + known) < unknown + known
      · rw [if_pos hnull] at hi
        cases hi
      · rw [if_neg hnull, List.getElem?_eq_getElem (by omega)] at hi
        cases hi
  · intro hcond i hi hlt
    rcases hcond with ⟨hu, hk⟩ | hbehind | ⟨hn, hk⟩ | ⟨hoff, hall, heq⟩
    · have hkeep : kept = unknown + known := by omega
      rw [← hkeep]
      by_cases hi : i < kept
      · rw [if_pos hi, if_pos hi]
      · rw [if_neg hi, if_neg hi, if_pos (by omega)]
    · rw [if_neg (by omega), if_pos (by omega), if_neg (by omega), List.getElem?_eq_none (by omega),
        List.getElem?_eq_none (by omega)]
    · rw [if_pos (by omega), if_pos (by omega)]
    · rw [if_neg (by omega), if_pos (by omega), if_neg (by omega)]
      have hlast : min (offset + limit) values.length - 1 < values.length ∨ values.length = 0 := by
        omega
      rcases hlast with hlast | hempty
      · have hsame := fun j => getElem?_eq_of_between (j := j) hs hlast heq
        rw [hsame (i - kept) (by omega) (by omega), hsame (i - (unknown + known)) (by omega) (by omega)]
      · rw [List.getElem?_eq_none (by omega), List.getElem?_eq_none (by omega)]

end Window

/-! ### The least keys, NULLs last -/

/-- NULL is above every value. -/
def toTop : Option δ → WithTop δ
  | none => ⊤
  | some d => d

theorem perm_reduceOption : ∀ keys : List (Option δ),
    keys.Perm (keys.reduceOption.map some ++ List.replicate (keys.count none) none)
  | [] => by simp
  | none :: keys => by
    have ih := perm_reduceOption keys
    rw [List.reduceOption_cons_of_none, List.count_cons_self, List.replicate_succ]
    exact (ih.cons none).trans List.perm_middle.symm
  | some d :: keys => by
    have ih := perm_reduceOption keys
    rw [List.reduceOption_cons_of_some, List.count_cons_of_ne (by simp), List.map_cons, List.cons_append]
    exact ih.cons _

theorem perm_sortedValues (keys : List (Option δ)) :
    keys.Perm ((sortedValues keys).map some ++ List.replicate (keys.count none) none) :=
  (perm_reduceOption keys).trans
    (((List.perm_insertionSort _ _).symm.map some).append_right _)

theorem length_keys (keys : List (Option δ)) :
    keys.length = (sortedValues keys).length + keys.count none := by
  have h := (perm_sortedValues keys).length_eq
  rwa [List.length_append, List.length_map, List.length_replicate] at h

/-- Where no value that stays out is below one of the answer, the values of the answer come first. -/
theorem sortedValues_append {keys out answer : List (Option δ)} (hp : keys.Perm (out ++ answer))
    (hout : ∀ d ∈ sortedValues answer, ∀ d' ∈ sortedValues out, d ≤ d') :
    sortedValues keys = sortedValues answer ++ sortedValues out := by
  refine sortedValues_eq
    (List.pairwise_append.mpr ⟨sortedValues_sorted _, sortedValues_sorted _, hout⟩) ?_
  refine (hp.filterMap id).trans ?_
  rw [List.filterMap_append]
  refine List.perm_append_comm.trans ?_
  exact ((List.perm_insertionSort _ _).symm).append (List.perm_insertionSort _ _).symm

/-- The least keys, NULLs last, are the least values, and NULLs for the rest. -/
theorem perm_cut {α : Type*} {key : α → Option δ} {total : ℕ} {all answer : List α}
    (h : IsTop (fun x => toTop (key x)) total all answer) :
    (answer.map key).Perm
      (cut false ((all.map key).count none) total (sortedValues (all.map key))) := by
  obtain ⟨out, hp, hout⟩ := h.split
  have hlength := h.length
  have hkeys : (all.map key).Perm (out.map key ++ answer.map key) := by
    rw [← List.map_append]
    exact hp.map key
  have hle : ∀ k ∈ answer.map key, ∀ k' ∈ out.map key, toTop k ≤ toTop k' := by
    intro k hk k' hk'
    obtain ⟨y, hy, rfl⟩ := List.mem_map.mp hk
    obtain ⟨x, hx, rfl⟩ := List.mem_map.mp hk'
    exact hout x hx y hy
  have hvalues : sortedValues (all.map key) =
      sortedValues (answer.map key) ++ sortedValues (out.map key) := by
    refine sortedValues_append hkeys fun d hd d' hd' => ?_
    exact WithTop.coe_le_coe.mp (hle _ (mem_sortedValues.mp hd) _ (mem_sortedValues.mp hd'))
  -- a NULL is only in the answer when no value is out
  have hnull : (answer.map key).count none = 0 ∨ sortedValues (out.map key) = [] := by
    by_contra hcon
    push Not at hcon
    obtain ⟨d, hd⟩ := List.exists_mem_of_ne_nil _ hcon.2
    have htop := hle none (List.count_pos_iff.mp (Nat.pos_of_ne_zero hcon.1)) _ (mem_sortedValues.mp hd)
    exact absurd htop (not_le.mpr (WithTop.coe_lt_top d))
  have hnulls : (all.map key).count none = (out.map key).count none + (answer.map key).count none := by
    rw [hkeys.count_eq, List.count_append]
  have hall := length_keys (all.map key)
  have hanswer := length_keys (answer.map key)
  have hrest := length_keys (out.map key)
  have hsplit := hp.length_eq
  have hlengths := congrArg List.length hvalues
  simp only [List.length_map, List.length_append] at hall hanswer hrest hsplit hlengths
  have htake : (sortedValues (all.map key)).take total = sortedValues (answer.map key) := by
    rcases Nat.le_total total all.length with hle | hle
    · rcases hnull with hnull | hnull
      · rw [hvalues]
        exact List.take_left' (by omega)
      · rw [hvalues, hnull, List.append_nil, List.take_of_length_le (by omega)]
    · have hnil : sortedValues (out.map key) = [] := List.length_eq_zero_iff.mp (by omega)
      rw [hvalues, hnil, List.append_nil, List.take_of_length_le (by omega)]
  have hcount : min ((all.map key).count none) (total - (sortedValues (all.map key)).length) =
      (answer.map key).count none := by
    rcases hnull with hnull | hnull
    · omega
    · rw [hnull, List.length_nil] at hlengths hrest
      omega
  rw [cut, htake, hcount]
  exact perm_sortedValues _

/-- What is taken from keys, of which `unknown` NULLs were not handed on, is taken from all of them. -/
def Shows (nullsFirst : Bool) (limit offset unknown : ℕ) (keys : List (Option δ)) : Prop :=
  let values := sortedValues keys
  let known := keys.count none - unknown
  if nullsFirst then
    (unknown = 0 ∧ (known = 0 ∨ values.length + known ≤ offset + limit)) ∨
      values.length + unknown + known ≤ offset ∨
      (values.length = 0 ∧ offset + limit ≤ known) ∨
      (unknown + known ≤ offset ∧ offset + limit ≤ values.length + known ∧
        values[offset - (unknown + known)]? = values[min (offset + limit) values.length - 1]?)
  else
    offset + limit ≤ values.length + known ∨ unknown = 0 ∨
      values.length + unknown + known ≤ offset

/-- The least `offset + limit` of all keys but `unknown` NULLs, NULLs last, show what all keys show. -/
theorem topN_eq_iff {α : Type*} {key : α → Option δ} {nullsFirst : Bool}
    {limit offset unknown : ℕ} {all answer : List α} {keys : List (Option δ)} (hlimit : 0 < limit)
    (h : IsTop (fun x => toTop (key x)) (offset + limit) all answer)
    (hkeys : keys.Perm (all.map key ++ List.replicate unknown none)) :
    topN nullsFirst limit offset (answer.map key) = topN nullsFirst limit offset keys ↔
      Shows nullsFirst limit offset unknown keys := by
  have hcount : keys.count none = (all.map key).count none + unknown := by
    rw [hkeys.count_eq, List.count_append, List.count_replicate_self]
  have hvalues : sortedValues keys = sortedValues (all.map key) := by
    refine sortedValues_eq (sortedValues_sorted _) ((hkeys.filterMap id).trans ?_)
    have hsorted : (sortedValues (all.map key)).Perm ((all.map key).filterMap id) :=
      List.perm_insertionSort _ _
    rw [List.filterMap_append, List.filterMap_replicate]
    simpa using hsorted.symm
  have hkeys' : keys.Perm ((sortedValues (all.map key)).map some ++
      List.replicate (unknown + (all.map key).count none) none) := by
    have h := perm_sortedValues keys
    rwa [hvalues, hcount, Nat.add_comm] at h
  have hsorted := sortedValues_sorted (all.map key)
  have hanswer : ordered nullsFirst (answer.map key) =
      cut nullsFirst ((all.map key).count none) (offset + limit) (sortedValues (all.map key)) := by
    refine ordered_withNulls (hsorted.sublist (List.take_sublist _ _)) ?_
    exact perm_cut h
  rw [topN, topN, hanswer, ordered_withNulls hsorted hkeys', Shows, hcount, hvalues,
    Nat.add_sub_cancel]
  cases nullsFirst with
  | false => exact nullsLast_iff hlimit
  | true => exact nullsFirst_iff hlimit hsorted

end Lib
