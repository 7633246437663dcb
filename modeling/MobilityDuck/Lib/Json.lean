/-
# JSON texts and what they state

`Json` is a value as a reader hands it out. `Json.Text` relates a value to the
texts that state it, for the part of the grammar a writer needs that escapes
nothing: strings of plain characters, arrays and objects that are not empty,
blanks after a comma or a colon. Which text states which number is a
parameter, since readers differ there.

A writer puts a `Doc` together, a value with the text of each number in it;
its text states its value (`Doc.text_states`).

`Json.parse` reads a text in front of anything that may follow it, so a text states one value
(`Json.Text.ofText`).

Key definitions: `Json`, `Json.Text`, `Doc`, `Json.ofText`.
Key theorems: `Doc.text_states`, `Json.Text.ofText`.
-/
import MobilityDuck.Lib.Binary64

namespace Lib

/-- A JSON value. A number is read as an unsigned or a signed integer, or as a double. -/
inductive Json
  | null
  | bool (b : Bool)
  | uint (n : ℕ)
  | sint (n : ℤ)
  | real (x : Binary64)
  | str (s : String)
  | arr (vs : List Json)
  | obj (ms : List (String × Json))

/-- Characters a JSON string holds as they are. -/
def Plain (s : List Char) : Prop := ∀ c ∈ s, c ≠ '"' ∧ c ≠ '\\' ∧ 32 ≤ c.toNat

def Blank (s : List Char) : Prop := ∀ c ∈ s, c = ' '

instance (s : List Char) : Decidable (Plain s) := List.decidableBAll _ s

instance (s : List Char) : Decidable (Blank s) := List.decidableBAll _ s

theorem Plain.append {s t : List Char} (hs : Plain s) (ht : Plain t) : Plain (s ++ t) :=
  fun c hc => (List.mem_append.mp hc).elim (hs c) (ht c)

mutual

/-- The text states the value. -/
inductive Json.Text (number : Json → List Char → Prop) : Json → List Char → Prop
  | null : Json.Text number .null ['n', 'u', 'l', 'l']
  | true : Json.Text number (.bool true) ['t', 'r', 'u', 'e']
  | false : Json.Text number (.bool false) ['f', 'a', 'l', 's', 'e']
  | number {v : Json} {t : List Char} (h : number v t) : Json.Text number v t
  | str {s : String} (h : Plain s.toList) :
      Json.Text number (.str s) ('"' :: (s.toList ++ ['"']))
  | arr {vs : List Json} {t : List Char} (h : Json.Elements number vs t) :
      Json.Text number (.arr vs) ('[' :: (t ++ [']']))
  | obj {ms : List (String × Json)} {t : List Char} (h : Json.Members number ms t) :
      Json.Text number (.obj ms) ('{' :: (t ++ ['}']))

inductive Json.Elements (number : Json → List Char → Prop) : List Json → List Char → Prop
  | one {v : Json} {t : List Char} (h : Json.Text number v t) : Json.Elements number [v] t
  | cons {v : Json} {vs : List Json} {t b rest : List Char} (h : Json.Text number v t)
      (hb : Blank b) (hrest : Json.Elements number vs rest) :
      Json.Elements number (v :: vs) (t ++ ',' :: (b ++ rest))

inductive Json.Members (number : Json → List Char → Prop) :
    List (String × Json) → List Char → Prop
  | one {k : String} {v : Json} {b t : List Char} (hk : Plain k.toList) (hb : Blank b)
      (h : Json.Text number v t) :
      Json.Members number [(k, v)] ('"' :: (k.toList ++ '"' :: ':' :: (b ++ t)))
  | cons {k : String} {v : Json} {ms : List (String × Json)} {b t b' rest : List Char}
      (hk : Plain k.toList) (hb : Blank b) (h : Json.Text number v t) (hb' : Blank b')
      (hrest : Json.Members number ms rest) :
      Json.Members number ((k, v) :: ms)
        ('"' :: (k.toList ++ '"' :: ':' :: (b ++ t)) ++ ',' :: (b' ++ rest))

end

/-! ### Documents -/

/-- A value on its way to its text: each number comes with the text that is written of it. -/
inductive Doc
  | null
  | bool (b : Bool)
  | num (v : Json) (text : String)
  | str (s : String)
  | arr (ds : List Doc)
  | obj (ms : List (String × Doc))

namespace Doc

mutual

def value : Doc → Json
  | .null => .null
  | .bool b => .bool b
  | .num v _ => v
  | .str s => .str s
  | .arr ds => .arr (values ds)
  | .obj ms => .obj (memberValues ms)

def values : List Doc → List Json
  | [] => []
  | d :: ds => d.value :: values ds

def memberValues : List (String × Doc) → List (String × Json)
  | [] => []
  | (k, d) :: ms => (k, d.value) :: memberValues ms

end

mutual

/-- The text of a document, with a blank after each comma and each colon. -/
def text : Doc → List Char
  | .null => ['n', 'u', 'l', 'l']
  | .bool true => ['t', 'r', 'u', 'e']
  | .bool false => ['f', 'a', 'l', 's', 'e']
  | .num _ t => t.toList
  | .str s => '"' :: (s.toList ++ ['"'])
  | .arr ds => '[' :: (elementsText ds ++ [']'])
  | .obj ms => '{' :: (membersText ms ++ ['}'])

def elementsText : List Doc → List Char
  | [] => []
  | [d] => d.text
  | d :: ds => d.text ++ ',' :: ' ' :: elementsText ds

def membersText : List (String × Doc) → List Char
  | [] => []
  | [(k, d)] => '"' :: (k.toList ++ '"' :: ':' :: ' ' :: d.text)
  | (k, d) :: ms => '"' :: (k.toList ++ '"' :: ':' :: ' ' :: d.text) ++ ',' :: ' ' :: membersText ms

end

theorem elementsText_singleton (d : Doc) : elementsText [d] = d.text := rfl

theorem elementsText_cons (d d' : Doc) (ds : List Doc) :
    elementsText (d :: d' :: ds) = d.text ++ ',' :: ' ' :: elementsText (d' :: ds) := rfl

theorem membersText_singleton (k : String) (d : Doc) :
    membersText [(k, d)] = '"' :: (k.toList ++ '"' :: ':' :: ' ' :: d.text) := rfl

theorem membersText_cons (k : String) (d : Doc) (m : String × Doc) (ms : List (String × Doc)) :
    membersText ((k, d) :: m :: ms) =
      '"' :: (k.toList ++ '"' :: ':' :: ' ' :: d.text) ++ ',' :: ' ' :: membersText (m :: ms) := rfl

/-- Elements are the first one's text, and a comma, a blank and the text of each of the others. -/
theorem elementsText_eq_flatMap : ∀ (d : Doc) (ds : List Doc),
    elementsText (d :: ds) = d.text ++ ds.flatMap fun e => ',' :: ' ' :: e.text
  | d, [] => by simp [elementsText_singleton]
  | d, d' :: ds => by
    rw [elementsText_cons, elementsText_eq_flatMap d' ds]
    simp

mutual

/-- The numbers are stated by their texts, the strings are plain, and nothing is empty. -/
def Valid (number : Json → List Char → Prop) : Doc → Prop
  | .null => True
  | .bool _ => True
  | .num v t => number v t.toList
  | .str s => Plain s.toList
  | .arr ds => ds ≠ [] ∧ ElementsValid number ds
  | .obj ms => ms ≠ [] ∧ MembersValid number ms

def ElementsValid (number : Json → List Char → Prop) : List Doc → Prop
  | [] => True
  | d :: ds => d.Valid number ∧ ElementsValid number ds

def MembersValid (number : Json → List Char → Prop) : List (String × Doc) → Prop
  | [] => True
  | (k, d) :: ms => Plain k.toList ∧ d.Valid number ∧ MembersValid number ms

end

theorem valid_str {number : Json → List Char → Prop} {s : String} (h : Plain s.toList) :
    (Doc.str s).Valid number := h

theorem blank_singleton : Blank [' '] := by decide

variable {number : Json → List Char → Prop}

mutual

/-- The text of a valid document states its value. -/
theorem text_states : ∀ d : Doc, d.Valid number → Json.Text number d.value d.text
  | .null, _ => .null
  | .bool true, _ => .true
  | .bool false, _ => .false
  | .num _ _, h => .number h
  | .str _, h => .str h
  | .arr ds, h => .arr (elementsText_states ds h.1 h.2)
  | .obj ms, h => .obj (membersText_states ms h.1 h.2)

theorem elementsText_states : ∀ ds : List Doc, ds ≠ [] → ElementsValid number ds →
    Json.Elements number (values ds) (elementsText ds)
  | [], h, _ => absurd rfl h
  | [d], _, h => .one (text_states d h.1)
  | d :: d' :: ds, _, h =>
    .cons (text_states d h.1) blank_singleton
      (elementsText_states (d' :: ds) (List.cons_ne_nil _ _) h.2)

theorem membersText_states : ∀ ms : List (String × Doc), ms ≠ [] → MembersValid number ms →
    Json.Members number (memberValues ms) (membersText ms)
  | [], h, _ => absurd rfl h
  | [(_, d)], _, h => .one h.1 blank_singleton (text_states d h.2.1)
  | (_, d) :: m :: ms, _, h =>
    .cons h.1 blank_singleton (text_states d h.2.1) blank_singleton
      (membersText_states (m :: ms) (List.cons_ne_nil _ _) h.2.2)

end

end Doc

/-! ### A reader -/

def isNumberChar (c : Char) : Bool := c.isDigit || c = '-' || c = '+' || c = '.' || c = 'e'

def skipBlanks (s : List Char) : List Char := s.dropWhile (· = ' ')

/-- A string from its first character on, and what follows its closing quote. -/
def readString (s : List Char) : String × List Char :=
  (String.ofList (s.takeWhile (· ≠ '"')), (s.dropWhile (· ≠ '"')).drop 1)

section Reader

variable (num : List Char → Option Json)

mutual

/-- The value a text begins with, and the rest of the text. -/
def Json.parse : ℕ → List Char → Option (Json × List Char)
  | 0, _ => none
  | n + 1, s =>
    if s.head? = some '"' then some (.str (readString s.tail).1, (readString s.tail).2)
    else if s.head? = some '[' then (Json.parseElements n s.tail).map fun r => (.arr r.1, r.2)
    else if s.head? = some '{' then (Json.parseMembers n s.tail).map fun r => (.obj r.1, r.2)
    else if s.take 4 = ['n', 'u', 'l', 'l'] then some (.null, s.drop 4)
    else if s.take 4 = ['t', 'r', 'u', 'e'] then some (.bool true, s.drop 4)
    else if s.take 5 = ['f', 'a', 'l', 's', 'e'] then some (.bool false, s.drop 5)
    else (num (s.takeWhile isNumberChar)).map fun v => (v, s.dropWhile isNumberChar)

def Json.parseElements : ℕ → List Char → Option (List Json × List Char)
  | 0, _ => none
  | n + 1, s =>
    match Json.parse n s with
    | some (v, ']' :: rest) => some ([v], rest)
    | some (v, ',' :: rest) =>
      (Json.parseElements n (skipBlanks rest)).map fun r => (v :: r.1, r.2)
    | _ => none

def Json.parseMembers : ℕ → List Char → Option (List (String × Json) × List Char)
  | 0, _ => none
  | n + 1, s =>
    let key := readString s.tail
    match Json.parse n (skipBlanks key.2.tail) with
    | some (v, '}' :: rest) => some ([(key.1, v)], rest)
    | some (v, ',' :: rest) =>
      (Json.parseMembers n (skipBlanks rest)).map fun r => ((key.1, v) :: r.1, r.2)
    | _ => none

end

/-- The value a text states. -/
def Json.ofText (s : List Char) : Option Json := (Json.parse num (2 * s.length + 1) s).map (·.1)

end Reader

/-- What may follow a number. -/
def EndsNumber (rest : List Char) : Prop := ∀ c ∈ rest.head?, isNumberChar c = false

/-- The texts of numbers are words of the characters of numbers, which `num` reads. -/
def Numeric (number : Json → List Char → Prop) (num : List Char → Option Json) : Prop :=
  ∀ v t, number v t → num t = some v ∧ t ≠ [] ∧ ∀ c ∈ t, isNumberChar c = true

theorem dropWhile_of_head {p : Char → Bool} {s rest : List Char} (hs : ∀ c ∈ s, p c = true)
    (hrest : ∀ c ∈ rest.head?, p c = false) : (s ++ rest).dropWhile p = rest := by
  rw [List.dropWhile_append_of_pos hs]
  cases rest with
  | nil => rfl
  | cons c cs => rw [List.dropWhile_cons, hrest c rfl, if_neg (by decide)]

theorem takeWhile_of_head {p : Char → Bool} {s rest : List Char} (hs : ∀ c ∈ s, p c = true)
    (hrest : ∀ c ∈ rest.head?, p c = false) : (s ++ rest).takeWhile p = s := by
  rw [List.takeWhile_append_of_pos hs]
  cases rest with
  | nil => rw [List.takeWhile_nil, List.append_nil]
  | cons c cs => rw [List.takeWhile_cons, hrest c rfl, if_neg (by decide), List.append_nil]

theorem readString_append {s : String} (hs : Plain s.toList) (rest : List Char) :
    readString (s.toList ++ '"' :: rest) = (s, rest) := by
  have hp : ∀ c ∈ s.toList, decide (c ≠ '"') = true := fun c hc => by simpa using (hs c hc).1
  have hrest : ∀ c ∈ ('"' :: rest).head?, decide (c ≠ '"') = false := by simp
  rw [readString, takeWhile_of_head hp hrest, dropWhile_of_head hp hrest, String.ofList_toList]
  rfl

section Reader

variable {number : Json → List Char → Prop} {num : List Char → Option Json}

theorem skipBlanks_append {b s : List Char} (hb : Blank b) (hs : ∀ c ∈ s.head?, c ≠ ' ') :
    skipBlanks (b ++ s) = s :=
  dropWhile_of_head (fun c hc => by simpa using hb c hc) fun c hc => by simpa using hs c hc

/-- A value begins with no blank. -/
theorem Json.Text.head_ne (hnum : Numeric number num) {v : Json} {t : List Char}
    (h : Json.Text number v t) (rest : List Char) : ∀ c ∈ (t ++ rest).head?, c ≠ ' ' := by
  cases h with
  | number h =>
    obtain ⟨-, hne, hall⟩ := hnum _ _ h
    obtain ⟨c, cs, rfl⟩ := List.exists_cons_of_ne_nil hne
    rintro _ ⟨⟩ rfl
    exact absurd (hall ' ' List.mem_cons_self) (by decide)
  | _ => simp

theorem Json.Elements.head_ne (hnum : Numeric number num) {vs : List Json} {t : List Char}
    (h : Json.Elements number vs t) (rest : List Char) : ∀ c ∈ (t ++ rest).head?, c ≠ ' ' := by
  cases h with
  | one h => exact h.head_ne hnum rest
  | cons h _ _ =>
    rw [List.append_assoc]
    exact h.head_ne hnum _

theorem Json.Members.head_ne {ms : List (String × Json)} {t : List Char}
    (h : Json.Members number ms t) (rest : List Char) : ∀ c ∈ (t ++ rest).head?, c ≠ ' ' := by
  cases h <;> simp

mutual

/-- The reader reads the value a text states, in front of anything that may follow a number. The
induction is on how the text states the value. -/
theorem Json.Text.parse (hnum : Numeric number num) {v : Json} {t : List Char} :
    Json.Text number v t → ∀ (n : ℕ) (rest : List Char), 2 * t.length ≤ n → EndsNumber rest →
      Json.parse num (n + 1) (t ++ rest) = some (v, rest)
  | .null, n, rest, _, _ => by simp [Json.parse]
  | .true, n, rest, _, _ => by simp [Json.parse]
  | .false, n, rest, _, _ => by simp [Json.parse]
  | .number h, n, rest, _, hrest => by
    obtain ⟨hread, hne, hall⟩ := hnum _ _ h
    obtain ⟨c, cs, rfl⟩ := List.exists_cons_of_ne_nil hne
    have hc := hall c List.mem_cons_self
    have hother : ∀ d, isNumberChar d ≠ isNumberChar c → c ≠ d := fun d hd he => hd (he ▸ rfl)
    have hquote := hother '"' (by rw [hc]; decide)
    have hbracket := hother '[' (by rw [hc]; decide)
    have hbrace := hother '{' (by rw [hc]; decide)
    have hn := hother 'n' (by rw [hc]; decide)
    have ht := hother 't' (by rw [hc]; decide)
    have hf := hother 'f' (by rw [hc]; decide)
    rw [Json.parse, takeWhile_of_head hall hrest, dropWhile_of_head hall hrest, hread]
    simp [hquote, hbracket, hbrace, hn, ht, hf]
  | .str h, n, rest, _, _ => by
    simp [Json.parse, readString_append h]
  | .arr h, n, rest, hn, _ => by
    simp only [List.length_cons, List.length_append, List.length_nil] at hn
    obtain ⟨n, rfl⟩ : ∃ m, n = m + 1 := ⟨n - 1, by omega⟩
    have ih := Json.Elements.parse hnum h n rest (by omega)
    simp [Json.parse, ih]
  | .obj h, n, rest, hn, _ => by
    simp only [List.length_cons, List.length_append, List.length_nil] at hn
    obtain ⟨n, rfl⟩ : ∃ m, n = m + 1 := ⟨n - 1, by omega⟩
    have ih := Json.Members.parse hnum h n rest (by omega)
    simp [Json.parse, ih]

theorem Json.Elements.parse (hnum : Numeric number num) {vs : List Json} {t : List Char} :
    Json.Elements number vs t → ∀ (n : ℕ) (rest : List Char), 2 * t.length + 1 ≤ n →
      Json.parseElements num (n + 1) (t ++ ']' :: rest) = some (vs, rest)
  | .one h, n, rest, hn => by
    obtain ⟨n, rfl⟩ : ∃ m, n = m + 1 := ⟨n - 1, by omega⟩
    have ih := Json.Text.parse hnum h n (']' :: rest) (by omega) (by simp [EndsNumber]; decide)
    simp [Json.parseElements, ih]
  | @Json.Elements.cons _ _ _ t b l h hb hl, n, rest, hn => by
    simp only [List.length_cons, List.length_append] at hn
    obtain ⟨n, rfl⟩ : ∃ m, n = m + 1 := ⟨n - 1, by omega⟩
    have ih := Json.Text.parse hnum h n (',' :: (b ++ (l ++ ']' :: rest))) (by omega)
      (by simp [EndsNumber]; decide)
    have ihl := Json.Elements.parse hnum hl n rest (by omega)
    have hskip := skipBlanks_append hb (hl.head_ne hnum (']' :: rest))
    rw [Json.parseElements]
    simp [ih, hskip, ihl]

theorem Json.Members.parse (hnum : Numeric number num) {ms : List (String × Json)}
    {t : List Char} :
    Json.Members number ms t → ∀ (n : ℕ) (rest : List Char), 2 * t.length + 1 ≤ n →
      Json.parseMembers num (n + 1) (t ++ '}' :: rest) = some (ms, rest)
  | .one (k := k) (b := b) (t := t) hk hb h, n, rest, hn => by
    simp only [List.length_cons, List.length_append] at hn
    obtain ⟨n, rfl⟩ : ∃ m, n = m + 1 := ⟨n - 1, by omega⟩
    have ih := Json.Text.parse hnum h n ('}' :: rest) (by omega) (by simp [EndsNumber]; decide)
    have hskip := skipBlanks_append hb (h.head_ne hnum ('}' :: rest))
    have hkey := readString_append hk (':' :: (b ++ (t ++ '}' :: rest)))
    simp [Json.parseMembers, hkey, hskip, ih]
  | @Json.Members.cons _ k _ _ b t b' l hk hb h hb' hl, n, rest, hn => by
    simp only [List.length_cons, List.length_append] at hn
    obtain ⟨n, rfl⟩ : ∃ m, n = m + 1 := ⟨n - 1, by omega⟩
    have ih := Json.Text.parse hnum h n (',' :: (b' ++ (l ++ '}' :: rest))) (by omega)
      (by simp [EndsNumber]; decide)
    have ihl := Json.Members.parse hnum hl n rest (by omega)
    have hskip := skipBlanks_append hb (h.head_ne hnum (',' :: (b' ++ (l ++ '}' :: rest))))
    have hskip' := skipBlanks_append hb' (hl.head_ne ('}' :: rest))
    have hkey := readString_append hk (':' :: (b ++ (t ++ ',' :: (b' ++ (l ++ '}' :: rest)))))
    rw [Json.parseMembers]
    simp [hkey, hskip, ih, hskip', ihl]

end

/-- The reader reads every text of the grammar. -/
theorem Json.Text.ofText (hnum : Numeric number num) {v : Json} {t : List Char}
    (h : Json.Text number v t) : Json.ofText num t = some v := by
  have h := Json.Text.parse hnum h (2 * t.length) [] le_rfl (by simp [EndsNumber])
  rw [List.append_nil] at h
  rw [Json.ofText, h]
  rfl

end Reader

end Lib
