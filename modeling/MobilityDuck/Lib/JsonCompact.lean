/-
# JSON texts without blanks, with escapes in their strings

A writer that puts a text together by hand writes no blank between two tokens
and escapes what a string must not hold. `Json.Compact` relates a value to the
texts of that form: strings whose characters stand for themselves or are escaped
(`Escaped`), arrays, objects and the three words; numbers are left out. Every such
text is a JSON text, and `Json.read`, a reader, finds its value, so it states no
other (`Json.Compact.read`, `Json.Compact.unique`). What a program appends step by
step is followed by `Writes`, and its loops over members by `Writes.members`.

The bytes of a text are its characters in UTF-8 (`utf8`), where a byte below 128
is always a character by itself.

Key definitions: `utf8`, `Escaped`, `Json.Compact`, `Json.read`, `Writes`. Key
theorems: `utf8_injective`, `Json.Compact.read`, `Json.Compact.unique`,
`Writes.members_zipIdx`.
-/
import MobilityDuck.Lib.Json

namespace Lib

/-! ### UTF-8 -/

/-- The bytes of a text. -/
def utf8 (cs : List Char) : List UInt8 := cs.flatMap String.utf8EncodeChar

@[simp] theorem utf8_nil : utf8 [] = [] := rfl

theorem utf8_cons (c : Char) (cs : List Char) :
    utf8 (c :: cs) = String.utf8EncodeChar c ++ utf8 cs := rfl

theorem utf8_append (cs ds : List Char) : utf8 (cs ++ ds) = utf8 cs ++ utf8 ds := List.flatMap_append

theorem utf8_injective : Function.Injective utf8 := by
  intro cs ds h
  have hbytes : cs.utf8Encode = ds.utf8Encode := congrArg List.toByteArray h
  have hstr : String.ofList cs = String.ofList ds := by
    rw [← String.toByteArray_inj, String.toByteArray_ofList, String.toByteArray_ofList, hbytes]
  exact String.ofList_injective hstr

theorem utf8EncodeChar_ascii {c : Char} (h : c.toNat < 128) :
    String.utf8EncodeChar c = [UInt8.ofNat c.toNat] := by
  have hval : c.val.toNat ≤ 0x7f := Nat.le_of_lt_succ h
  rw [String.utf8EncodeChar, if_pos hval]
  rfl

theorem le_of_mem_utf8EncodeChar {c : Char} (h : 128 ≤ c.toNat) :
    ∀ b ∈ String.utf8EncodeChar c, 128 ≤ b.toNat := by
  have hlead : ∀ n m : ℕ, 128 ≤ m → n + m < 256 → 128 ≤ (UInt8.ofNat (n + m)).toNat := by
    intro n m hm hlt
    rw [UInt8.toNat_ofNat_of_lt' hlt]
    omega
  have hval : ¬ c.val.toNat ≤ 0x7f := Nat.not_le.mpr h
  intro b hb
  rw [String.utf8EncodeChar, if_neg hval] at hb
  by_cases h2 : c.val.toNat ≤ 0x7ff
  · rw [if_pos h2] at hb
    simp only [List.mem_cons, List.not_mem_nil, or_false] at hb
    rcases hb with rfl | rfl
    · exact hlead _ _ (by decide) (by omega)
    · exact hlead _ _ (by decide) (by omega)
  · rw [if_neg h2] at hb
    by_cases h3 : c.val.toNat ≤ 0xffff
    · rw [if_pos h3] at hb
      simp only [List.mem_cons, List.not_mem_nil, or_false] at hb
      rcases hb with rfl | rfl | rfl
      · exact hlead _ _ (by decide) (by omega)
      · exact hlead _ _ (by decide) (by omega)
      · exact hlead _ _ (by decide) (by omega)
    · rw [if_neg h3] at hb
      simp only [List.mem_cons, List.not_mem_nil, or_false] at hb
      rcases hb with rfl | rfl | rfl | rfl
      · exact hlead _ _ (by decide) (by omega)
      · exact hlead _ _ (by decide) (by omega)
      · exact hlead _ _ (by decide) (by omega)
      · exact hlead _ _ (by decide) (by omega)

/-! ### Strings -/

/-- The character a short escape stands for. -/
def unescape (e : Char) : Option Char :=
  if e = '"' then some '"'
  else if e = '\\' then some '\\'
  else if e = '/' then some '/'
  else if e = 'b' then some (Char.ofNat 8)
  else if e = 'f' then some (Char.ofNat 12)
  else if e = 'n' then some (Char.ofNat 10)
  else if e = 'r' then some (Char.ofNat 13)
  else if e = 't' then some (Char.ofNat 9)
  else none

def hexValue (c : Char) : Option ℕ :=
  if '0' ≤ c ∧ c ≤ '9' then some (c.toNat - 48)
  else if 'a' ≤ c ∧ c ≤ 'f' then some (c.toNat - 87)
  else if 'A' ≤ c ∧ c ≤ 'F' then some (c.toNat - 55)
  else none

/-- The number of four hexadecimal digits. -/
def hex4 (a b c d : Char) : Option ℕ := do
  let a ← hexValue a
  let b ← hexValue b
  let c ← hexValue c
  let d ← hexValue d
  return ((a * 16 + b) * 16 + c) * 16 + d

/-- The text between two quotes states the characters. A pair of surrogates is not among the escapes. -/
inductive Escaped : List Char → List Char → Prop
  | nil : Escaped [] []
  | plain {c : Char} {s t : List Char} (hquote : c ≠ '"') (hback : c ≠ '\\') (hc : 32 ≤ c.toNat)
      (h : Escaped s t) : Escaped (c :: s) (c :: t)
  | short {c e : Char} {s t : List Char} (he : unescape e = some c) (h : Escaped s t) :
      Escaped (c :: s) ('\\' :: e :: t)
  | unicode {a b c d : Char} {n : ℕ} {s t : List Char} (hn : hex4 a b c d = some n)
      (hvalid : n.isValidChar) (h : Escaped s t) :
      Escaped (Char.ofNat n :: s) ('\\' :: 'u' :: a :: b :: c :: d :: t)

theorem Escaped.append {s t s' t' : List Char} (h : Escaped s t) (h' : Escaped s' t') :
    Escaped (s ++ s') (t ++ t') := by
  induction h with
  | nil => exact h'
  | plain hquote hback hc _ ih => exact .plain hquote hback hc ih
  | short he _ ih => exact .short he ih
  | unicode hn hvalid _ ih => exact .unicode hn hvalid ih

/-! ### Values -/

mutual

/-- The text states the value, with no blank outside a string. -/
inductive Json.Compact : Json → List Char → Prop
  | null : Json.Compact .null ['n', 'u', 'l', 'l']
  | true : Json.Compact (.bool true) ['t', 'r', 'u', 'e']
  | false : Json.Compact (.bool false) ['f', 'a', 'l', 's', 'e']
  | str {s : String} {t : List Char} (h : Escaped s.toList t) :
      Json.Compact (.str s) ('"' :: (t ++ ['"']))
  | arr {vs : List Json} {t : List Char} (h : Json.CompactElements vs t) :
      Json.Compact (.arr vs) ('[' :: (t ++ [']']))
  | obj {ms : List (String × Json)} {t : List Char} (h : Json.CompactMembers ms t) :
      Json.Compact (.obj ms) ('{' :: (t ++ ['}']))

inductive Json.CompactElements : List Json → List Char → Prop
  | nil : Json.CompactElements [] []
  | cons {v : Json} {vs : List Json} {t rest : List Char} (h : Json.Compact v t)
      (hrest : Json.MoreElements vs rest) : Json.CompactElements (v :: vs) (t ++ rest)

/-- Elements with a comma in front of each. -/
inductive Json.MoreElements : List Json → List Char → Prop
  | nil : Json.MoreElements [] []
  | cons {v : Json} {vs : List Json} {t rest : List Char} (h : Json.Compact v t)
      (hrest : Json.MoreElements vs rest) : Json.MoreElements (v :: vs) (',' :: (t ++ rest))

inductive Json.CompactMembers : List (String × Json) → List Char → Prop
  | nil : Json.CompactMembers [] []
  | cons {m : String × Json} {ms : List (String × Json)} {t rest : List Char}
      (h : Json.CompactMember m t) (hrest : Json.MoreMembers ms rest) :
      Json.CompactMembers (m :: ms) (t ++ rest)

/-- Members with a comma in front of each. -/
inductive Json.MoreMembers : List (String × Json) → List Char → Prop
  | nil : Json.MoreMembers [] []
  | cons {m : String × Json} {ms : List (String × Json)} {t rest : List Char}
      (h : Json.CompactMember m t) (hrest : Json.MoreMembers ms rest) :
      Json.MoreMembers (m :: ms) (',' :: (t ++ rest))

inductive Json.CompactMember : String × Json → List Char → Prop
  | mk {k : String} {v : Json} {tk t : List Char} (hk : Escaped k.toList tk) (h : Json.Compact v t) :
      Json.CompactMember (k, v) ('"' :: (tk ++ '"' :: ':' :: t))

end

theorem Json.MoreMembers.append {ms ms' : List (String × Json)} {t t' : List Char} :
    Json.MoreMembers ms t → Json.MoreMembers ms' t' → Json.MoreMembers (ms ++ ms') (t ++ t')
  | .nil, h' => h'
  | .cons h hmore, h' => by
    rw [List.cons_append, List.cons_append, List.append_assoc]
    exact .cons h (hmore.append h')

/-- Plain characters stand for themselves. -/
theorem Escaped.of_plain : ∀ {s : List Char}, Plain s → Escaped s s
  | [], _ => .nil
  | c :: _, h =>
    have hc := h c List.mem_cons_self
    .plain hc.1 hc.2.1 hc.2.2 (Escaped.of_plain fun d hd => h d (List.mem_cons_of_mem c hd))

/-! ### A reader -/

/-- The characters up to the closing quote, and what follows it. -/
def readEscaped : List Char → Option (List Char × List Char)
  | [] => none
  | '\\' :: 'u' :: a :: b :: c :: d :: rest =>
    match hex4 a b c d, readEscaped rest with
    | some n, some r => if n.isValidChar then some (Char.ofNat n :: r.1, r.2) else none
    | _, _ => none
  | '\\' :: e :: rest =>
    match unescape e, readEscaped rest with
    | some c, some r => some (c :: r.1, r.2)
    | _, _ => none
  | c :: rest =>
    if c = '"' then some ([], rest)
    else if c ≠ '\\' ∧ 32 ≤ c.toNat then (readEscaped rest).map fun r => (c :: r.1, r.2)
    else none

mutual

/-- The value a text begins with, and the rest of the text. -/
def Json.read : ℕ → List Char → Option (Json × List Char)
  | 0, _ => none
  | n + 1, s =>
    if s.head? = some '"' then (readEscaped s.tail).map fun r => (.str (String.ofList r.1), r.2)
    else if s.head? = some '[' then
      if s.tail.head? = some ']' then some (.arr [], s.tail.tail)
      else
        match Json.read n s.tail with
        | some (v, rest) => (Json.readMoreElements n rest).map fun r => (.arr (v :: r.1), r.2)
        | none => none
    else if s.head? = some '{' then
      if s.tail.head? = some '}' then some (.obj [], s.tail.tail)
      else
        match Json.readMember n s.tail with
        | some (m, rest) => (Json.readMoreMembers n rest).map fun r => (.obj (m :: r.1), r.2)
        | none => none
    else if s.take 4 = ['n', 'u', 'l', 'l'] then some (.null, s.drop 4)
    else if s.take 4 = ['t', 'r', 'u', 'e'] then some (.bool true, s.drop 4)
    else if s.take 5 = ['f', 'a', 'l', 's', 'e'] then some (.bool false, s.drop 5)
    else none

def Json.readMoreElements : ℕ → List Char → Option (List Json × List Char)
  | 0, _ => none
  | n + 1, s =>
    if s.head? = some ']' then some ([], s.tail)
    else if s.head? = some ',' then
      match Json.read n s.tail with
      | some (v, rest) => (Json.readMoreElements n rest).map fun r => (v :: r.1, r.2)
      | none => none
    else none

def Json.readMoreMembers : ℕ → List Char → Option (List (String × Json) × List Char)
  | 0, _ => none
  | n + 1, s =>
    if s.head? = some '}' then some ([], s.tail)
    else if s.head? = some ',' then
      match Json.readMember n s.tail with
      | some (m, rest) => (Json.readMoreMembers n rest).map fun r => (m :: r.1, r.2)
      | none => none
    else none

def Json.readMember : ℕ → List Char → Option ((String × Json) × List Char)
  | 0, _ => none
  | n + 1, s =>
    if s.head? = some '"' then
      match readEscaped s.tail with
      | some (k, rest) =>
        if rest.head? = some ':' then
          (Json.read n rest.tail).map fun r => ((String.ofList k, r.1), r.2)
        else none
      | none => none
    else none

end

theorem readEscaped_plain {c : Char} (hquote : c ≠ '"') (hback : c ≠ '\\') (hc : 32 ≤ c.toNat)
    (rest : List Char) : readEscaped (c :: rest) = (readEscaped rest).map fun r => (c :: r.1, r.2) := by
  rw [readEscaped, if_neg hquote, if_pos ⟨hback, hc⟩]
  · exact fun _ _ _ _ _ h => absurd h hback
  · exact fun _ _ h => absurd h hback

theorem readEscaped_short {c e : Char} (he : unescape e = some c) (rest : List Char) :
    readEscaped ('\\' :: e :: rest) = (readEscaped rest).map fun r => (c :: r.1, r.2) := by
  have hu : e ≠ 'u' := by
    rintro rfl
    have hnone : unescape 'u' = none := by decide
    rw [hnone] at he
    cases he
  rw [readEscaped]
  · rw [he]
    cases readEscaped rest <;> rfl
  · exact fun _ _ _ _ _ h => absurd h hu

theorem readEscaped_unicode {a b c d : Char} {n : ℕ} (hn : hex4 a b c d = some n)
    (hvalid : n.isValidChar) (rest : List Char) :
    readEscaped ('\\' :: 'u' :: a :: b :: c :: d :: rest) =
      (readEscaped rest).map fun r => (Char.ofNat n :: r.1, r.2) := by
  rw [readEscaped, hn]
  cases readEscaped rest with
  | none => rfl
  | some r => exact if_pos hvalid

/-- The reader takes the text of a string up to its quote. -/
theorem Escaped.read {s t : List Char} (h : Escaped s t) (rest : List Char) :
    readEscaped (t ++ '"' :: rest) = some (s, rest) := by
  induction h with
  | nil => simp [readEscaped]
  | plain hquote hback hc _ ih =>
    rw [List.cons_append, readEscaped_plain hquote hback hc, ih, Option.map_some]
  | short he _ ih =>
    rw [List.cons_append, List.cons_append, readEscaped_short he, ih, Option.map_some]
  | unicode hn hvalid _ ih =>
    simp only [List.cons_append]
    rw [readEscaped_unicode hn hvalid, ih, Option.map_some]

section Steps

variable {n : ℕ} {s rest rest' : List Char}

theorem Json.read_arr {v : Json} {vs : List Json} (hhead : s.head? ≠ some ']')
    (hv : Json.read n s = some (v, rest)) (hvs : Json.readMoreElements n rest = some (vs, rest')) :
    Json.read (n + 1) ('[' :: s) = some (.arr (v :: vs), rest') := by
  rw [Json.read, if_neg (by simp), if_pos (by simp), List.tail_cons, if_neg hhead, hv]
  simp only [hvs, Option.map_some]

theorem Json.read_obj {m : String × Json} {ms : List (String × Json)} (hhead : s.head? ≠ some '}')
    (hm : Json.readMember n s = some (m, rest))
    (hms : Json.readMoreMembers n rest = some (ms, rest')) :
    Json.read (n + 1) ('{' :: s) = some (.obj (m :: ms), rest') := by
  rw [Json.read, if_neg (by simp), if_neg (by simp), if_pos (by simp), List.tail_cons, if_neg hhead, hm]
  simp only [hms, Option.map_some]

theorem Json.readMoreElements_comma {v : Json} {vs : List Json} (hv : Json.read n s = some (v, rest))
    (hvs : Json.readMoreElements n rest = some (vs, rest')) :
    Json.readMoreElements (n + 1) (',' :: s) = some (v :: vs, rest') := by
  rw [Json.readMoreElements, if_neg (by simp), if_pos (by simp), List.tail_cons, hv]
  simp only [hvs, Option.map_some]

theorem Json.readMoreMembers_comma {m : String × Json} {ms : List (String × Json)}
    (hm : Json.readMember n s = some (m, rest))
    (hms : Json.readMoreMembers n rest = some (ms, rest')) :
    Json.readMoreMembers (n + 1) (',' :: s) = some (m :: ms, rest') := by
  rw [Json.readMoreMembers, if_neg (by simp), if_pos (by simp), List.tail_cons, hm]
  simp only [hms, Option.map_some]

end Steps

/-- A value does not begin as an array ends. -/
theorem Json.Compact.head_ne {v : Json} {t : List Char} (h : Json.Compact v t) (rest : List Char) :
    (t ++ rest).head? ≠ some ']' := by
  cases h <;> simp

theorem Json.CompactMember.head_ne {m : String × Json} {t : List Char} (h : Json.CompactMember m t)
    (rest : List Char) : (t ++ rest).head? ≠ some '}' := by
  cases h
  simp

mutual

/-- The reader reads the value a text states, whatever follows it. The induction is on how the text
states the value. -/
theorem Json.Compact.read {v : Json} {t : List Char} :
    Json.Compact v t → ∀ (n : ℕ) (rest : List Char), t.length ≤ n →
      Json.read (n + 1) (t ++ rest) = some (v, rest)
  | .null, n, rest, _ => by simp [Json.read]
  | .true, n, rest, _ => by simp [Json.read]
  | .false, n, rest, _ => by simp [Json.read]
  | .str h, n, rest, _ => by
    simp [Json.read, h.read]
  | .arr .nil, n, rest, _ => by simp [Json.read]
  | .arr (@Json.CompactElements.cons _ _ t more h hmore), n, rest, hn => by
    simp only [List.length_cons, List.length_append, List.length_nil] at hn
    obtain ⟨n, rfl⟩ : ∃ m, n = m + 1 := ⟨n - 1, by omega⟩
    have hv := Json.Compact.read h n (more ++ ']' :: rest) (by omega)
    have hvs := Json.MoreElements.read hmore n rest (by omega)
    have hhead := h.head_ne (more ++ ']' :: rest)
    have hread := Json.read_arr hhead hv hvs
    simpa using hread
  | .obj .nil, n, rest, _ => by simp [Json.read]
  | .obj (@Json.CompactMembers.cons _ _ t more h hmore), n, rest, hn => by
    simp only [List.length_cons, List.length_append, List.length_nil] at hn
    obtain ⟨n, rfl⟩ : ∃ m, n = m + 1 := ⟨n - 1, by omega⟩
    have hm := Json.CompactMember.read h n (more ++ '}' :: rest) (by omega)
    have hms := Json.MoreMembers.read hmore n rest (by omega)
    have hhead := h.head_ne (more ++ '}' :: rest)
    have hread := Json.read_obj hhead hm hms
    simpa using hread

theorem Json.MoreElements.read {vs : List Json} {t : List Char} :
    Json.MoreElements vs t → ∀ (n : ℕ) (rest : List Char), t.length ≤ n →
      Json.readMoreElements (n + 1) (t ++ ']' :: rest) = some (vs, rest)
  | .nil, n, rest, _ => by simp [Json.readMoreElements]
  | @Json.MoreElements.cons _ _ t more h hmore, n, rest, hn => by
    simp only [List.length_cons, List.length_append] at hn
    obtain ⟨n, rfl⟩ : ∃ m, n = m + 1 := ⟨n - 1, by omega⟩
    have hv := Json.Compact.read h n (more ++ ']' :: rest) (by omega)
    have hvs := Json.MoreElements.read hmore n rest (by omega)
    have hread := Json.readMoreElements_comma hv hvs
    simpa using hread

theorem Json.MoreMembers.read {ms : List (String × Json)} {t : List Char} :
    Json.MoreMembers ms t → ∀ (n : ℕ) (rest : List Char), t.length ≤ n →
      Json.readMoreMembers (n + 1) (t ++ '}' :: rest) = some (ms, rest)
  | .nil, n, rest, _ => by simp [Json.readMoreMembers]
  | @Json.MoreMembers.cons _ _ t more h hmore, n, rest, hn => by
    simp only [List.length_cons, List.length_append] at hn
    obtain ⟨n, rfl⟩ : ∃ m, n = m + 1 := ⟨n - 1, by omega⟩
    have hm := Json.CompactMember.read h n (more ++ '}' :: rest) (by omega)
    have hms := Json.MoreMembers.read hmore n rest (by omega)
    have hread := Json.readMoreMembers_comma hm hms
    simpa using hread

theorem Json.CompactMember.read {m : String × Json} {t : List Char} :
    Json.CompactMember m t → ∀ (n : ℕ) (rest : List Char), t.length ≤ n →
      Json.readMember (n + 1) (t ++ rest) = some (m, rest)
  | @Json.CompactMember.mk _ _ tk t hk h, n, rest, hn => by
    simp only [List.length_cons, List.length_append] at hn
    obtain ⟨n, rfl⟩ : ∃ m, n = m + 1 := ⟨n - 1, by omega⟩
    have hv := Json.Compact.read h n rest (by omega)
    have hkey := hk.read (':' :: (t ++ rest))
    simp [Json.readMember, hkey, hv]

end

/-- The value a whole text states. -/
def Json.decode (s : List Char) : Option Json :=
  match Json.read (s.length + 1) s with
  | some (v, []) => some v
  | _ => none

/-- The reader decodes every text of the grammar. -/
theorem Json.Compact.decode {v : Json} {t : List Char} (h : Json.Compact v t) :
    Json.decode t = some v := by
  have hread := h.read t.length [] le_rfl
  rw [List.append_nil] at hread
  rw [Json.decode, hread]

/-- A text states one value. -/
theorem Json.Compact.unique {v w : Json} {t : List Char} (hv : Json.Compact v t)
    (hw : Json.Compact w t) : v = w :=
  Option.some.inj (hv.decode.symm.trans hw.decode)

/-- The member of an object under a name. -/
def Json.member (name : String) : Json → Option Json
  | .obj ms => (ms.find? fun m => m.1 = name).map (·.2)
  | _ => none

/-! ### Writers -/

/-- The step appends one text, in UTF-8, and the text states what it should. -/
def Writes (states : List Char → Prop) (f : List UInt8 → List UInt8) : Prop :=
  ∃ t, states t ∧ ∀ out, f out = out ++ utf8 t

section Writers

variable {α : Type*} {f : List UInt8 → α → List UInt8} {m : α → String × Json}

/-- Members written one after the other, each after a comma. -/
theorem Writes.moreMembers : ∀ {l : List α}, (∀ a ∈ l, Writes (Json.CompactMember (m a)) (f · a)) →
    Writes (Json.MoreMembers (l.map m)) fun out => l.foldl (fun out a => f (out ++ utf8 [',']) a) out
  | [], _ => ⟨[], .nil, fun out => (List.append_nil out).symm⟩
  | a :: as, h => by
    obtain ⟨t, ht, hf⟩ := h a List.mem_cons_self
    obtain ⟨ts, hts, hfs⟩ := Writes.moreMembers fun b hb => h b (List.mem_cons_of_mem _ hb)
    beta_reduce at hf hfs
    refine ⟨',' :: (t ++ ts), .cons ht hts, fun out => ?_⟩
    calc (a :: as).foldl (fun out a => f (out ++ utf8 [',']) a) out
        = out ++ utf8 [','] ++ utf8 t ++ utf8 ts := by rw [List.foldl_cons, hfs, hf]
      _ = out ++ utf8 ([','] ++ (t ++ ts)) := by simp only [utf8_append, List.append_assoc]

/-- Members of which the first one has no comma. -/
theorem Writes.members {a : α} {as : List α}
    (h : ∀ b ∈ a :: as, Writes (Json.CompactMember (m b)) (f · b)) :
    Writes (Json.CompactMembers ((a :: as).map m)) fun out =>
      as.foldl (fun out b => f (out ++ utf8 [',']) b) (f out a) := by
  obtain ⟨t, ht, hf⟩ := h a List.mem_cons_self
  obtain ⟨ts, hts, hfs⟩ := Writes.moreMembers fun b hb => h b (List.mem_cons_of_mem _ hb)
  beta_reduce at hf hfs
  refine ⟨t ++ ts, .cons ht hts, fun out => ?_⟩
  beta_reduce
  rw [hfs, hf, utf8_append, List.append_assoc]

/-- From the second place on, a fold that puts a comma in front of all but the first puts one in front of
each. -/
theorem foldl_zipIdx_succ (sep : List UInt8) : ∀ (as : List α) (k : ℕ) (out : List UInt8),
    (as.zipIdx (k + 1)).foldl (fun out a => f (if a.2 ≠ 0 then out ++ sep else out) a.1) out =
      as.foldl (fun out a => f (out ++ sep) a) out
  | [], _, _ => rfl
  | a :: as, k, out => by
    rw [List.zipIdx_cons, List.foldl_cons, List.foldl_cons, foldl_zipIdx_succ sep as (k + 1),
      if_pos (Nat.succ_ne_zero k)]

/-- Members written by a loop that writes a comma at all places but the first. -/
theorem Writes.members_zipIdx {l : List α}
    (h : ∀ a ∈ l, Writes (Json.CompactMember (m a)) (f · a)) :
    Writes (Json.CompactMembers (l.map m)) fun out =>
      l.zipIdx.foldl (fun out a => f (if a.2 ≠ 0 then out ++ utf8 [','] else out) a.1) out := by
  cases l with
  | nil => exact ⟨[], .nil, fun out => (List.append_nil out).symm⟩
  | cons a as =>
    obtain ⟨t, ht, hf⟩ := Writes.members h
    beta_reduce at hf
    refine ⟨t, ht, fun out => ?_⟩
    beta_reduce
    rw [← hf, List.zipIdx_cons, List.foldl_cons, foldl_zipIdx_succ, if_neg (by simp)]

/-- A string that needs no escape, between quotes. -/
theorem Writes.plainStr {s : String} (hs : Plain s.toList) :
    Writes (Json.Compact (.str s)) fun out => out ++ utf8 ('"' :: (s.toList ++ ['"'])) :=
  ⟨_, .str (.of_plain hs), fun _ => rfl⟩

/-- A member whose key needs no escape. -/
theorem Writes.plainMember {k : String} {v : Json} {g : List UInt8 → List UInt8}
    (hk : Plain k.toList) (hg : Writes (Json.Compact v) g) :
    Writes (Json.CompactMember (k, v)) fun out => g (out ++ utf8 ('"' :: (k.toList ++ ['"', ':']))) := by
  obtain ⟨t, ht, hg⟩ := hg
  refine ⟨_, .mk (.of_plain hk) ht, fun out => ?_⟩
  calc g (out ++ utf8 ('"' :: (k.toList ++ ['"', ':'])))
      = out ++ utf8 ('"' :: (k.toList ++ ['"', ':'])) ++ utf8 t := hg _
    _ = out ++ utf8 ('"' :: (k.toList ++ ['"', ':']) ++ t) := by rw [utf8_append, List.append_assoc]
    _ = out ++ utf8 ('"' :: (k.toList ++ '"' :: ':' :: t)) := by simp

/-- An object around the members it writes. -/
theorem Writes.obj {ms : List (String × Json)} {g : List UInt8 → List UInt8}
    (h : Writes (Json.CompactMembers ms) g) :
    Writes (Json.Compact (.obj ms)) fun out => g (out ++ utf8 ['{']) ++ utf8 ['}'] := by
  obtain ⟨t, ht, hg⟩ := h
  refine ⟨_, .obj ht, fun out => ?_⟩
  calc g (out ++ utf8 ['{']) ++ utf8 ['}']
      = out ++ utf8 ['{'] ++ utf8 t ++ utf8 ['}'] := by rw [hg]
    _ = out ++ utf8 (['{'] ++ (t ++ ['}'])) := by simp only [utf8_append, List.append_assoc]

/-- More members, one step after the other. -/
theorem Writes.moreMembers_append {ms ms' : List (String × Json)} {g g' : List UInt8 → List UInt8}
    (h : Writes (Json.MoreMembers ms) g) (h' : Writes (Json.MoreMembers ms') g') :
    Writes (Json.MoreMembers (ms ++ ms')) fun out => g' (g out) := by
  obtain ⟨t, ht, hg⟩ := h
  obtain ⟨t', ht', hg'⟩ := h'
  refine ⟨t ++ t', ht.append ht', fun out => ?_⟩
  beta_reduce
  rw [hg', hg, utf8_append, List.append_assoc]

theorem Writes.members_append {k : String × Json} {ms : List (String × Json)}
    {g g' : List UInt8 → List UInt8} (h : Writes (Json.CompactMember k) g)
    (h' : Writes (Json.MoreMembers ms) g') :
    Writes (Json.CompactMembers (k :: ms)) fun out => g' (g out) := by
  obtain ⟨t, ht, hg⟩ := h
  obtain ⟨t', ht', hg'⟩ := h'
  refine ⟨t ++ t', .cons ht ht', fun out => ?_⟩
  beta_reduce
  rw [hg', hg, utf8_append, List.append_assoc]

theorem Writes.moreMembers_one {k : String × Json} {g : List UInt8 → List UInt8}
    (h : Writes (Json.CompactMember k) g) :
    Writes (Json.MoreMembers [k]) fun out => g (out ++ utf8 [',']) := by
  obtain ⟨t, ht, hg⟩ := h
  refine ⟨',' :: (t ++ []), .cons ht .nil, fun out => ?_⟩
  calc g (out ++ utf8 [','])
      = out ++ utf8 [','] ++ utf8 t := hg _
    _ = out ++ utf8 ([','] ++ (t ++ [])) := by
      rw [utf8_append, List.append_nil, List.append_assoc]

end Writers

end Lib
