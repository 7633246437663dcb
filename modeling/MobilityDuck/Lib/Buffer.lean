/-
# Buffers of bytes, and little-endian words

A buffer is a fixed number of bytes. `write` copies a byte string in at an
offset, as `memcpy` into the buffer does, and drops what falls outside;
`read` copies bytes out. What a write leaves: the range it wrote reads back
as written (`read_write_same`) and every disjoint range reads as before
(`read_write_disjoint`). A word goes into memory as its little-endian bytes
(`leBytes`) and comes back from them (`leNat_leBytes`, `decode_encodeInt64`).

Key definitions: `Buffer`, `Buffer.write`, `Buffer.read`, `leBytes`, `leNat`.
-/
import Mathlib.Data.List.Basic
import Mathlib.Tactic.Ring

namespace Lib

/-- `n` bytes of memory. -/
def Buffer (n : ℕ) := Fin n → UInt8

namespace Buffer

variable {n : ℕ}

/-- The bytes `bs` copied to offset `off`. -/
def write (m : Buffer n) (off : ℕ) (bs : List UInt8) : Buffer n := fun i =>
  if off ≤ i.val then (bs[i.val - off]?).getD (m i) else m i

/-- The byte at offset `i`. -/
def byte (m : Buffer n) (i : ℕ) : UInt8 := if h : i < n then m ⟨i, h⟩ else 0

/-- The `len` bytes from offset `off` on. -/
def read (m : Buffer n) (off len : ℕ) : List UInt8 := (List.range len).map fun k => m.byte (off + k)

@[simp] theorem length_read (m : Buffer n) (off len : ℕ) : (m.read off len).length = len := by
  simp [read]

theorem read_congr {m m' : Buffer n} {off len : ℕ}
    (h : ∀ i, off ≤ i → i < off + len → m.byte i = m'.byte i) : m.read off len = m'.read off len := by
  apply List.map_congr_left
  intro k hk
  have hk := List.mem_range.mp hk
  exact h _ (by omega) (by omega)

/-- A byte outside the written range is untouched. -/
theorem byte_write_of_disjoint (m : Buffer n) (off : ℕ) (bs : List UInt8) {i : ℕ}
    (h : i < off ∨ off + bs.length ≤ i) : (m.write off bs).byte i = m.byte i := by
  unfold byte
  split
  · rcases h with h | h
    · simp [write, Nat.not_le.mpr h]
    · have : bs[i - off]? = none := List.getElem?_eq_none (by omega)
      simp [write, this]
  · rfl

/-- A byte inside the written range is the one written. -/
theorem byte_write_of_mem (m : Buffer n) {off : ℕ} {bs : List UInt8} {k : ℕ} (hk : k < bs.length)
    (h : off + bs.length ≤ n) : (m.write off bs).byte (off + k) = bs[k] := by
  have hn : off + k < n := by omega
  simp [byte, write, hn, hk]

/-- Reading what was just written gives what was written. -/
theorem read_write_same (m : Buffer n) {off : ℕ} {bs : List UInt8} (h : off + bs.length ≤ n) :
    (m.write off bs).read off bs.length = bs := by
  apply List.ext_getElem (by simp)
  intro k hk hk'
  simp only [read, List.getElem_map, List.getElem_range]
  exact byte_write_of_mem m hk' h

/-- A write leaves every disjoint range as it was. -/
theorem read_write_disjoint (m : Buffer n) {off off' len : ℕ} {bs : List UInt8}
    (h : off' + len ≤ off ∨ off + bs.length ≤ off') :
    (m.write off bs).read off' len = m.read off' len :=
  read_congr fun _ _ _ => byte_write_of_disjoint m off bs (by omega)

end Buffer

/-- A byte string cut into `n` slices of `k` bytes is its slices, one after the other. -/
theorem flatMap_slices {α : Type*} (xs : List α) (k : ℕ) : ∀ n : ℕ,
    (List.range n).flatMap (fun b => (xs.drop (b * k)).take k) = xs.take (n * k)
  | 0 => by simp
  | n + 1 => by
    rw [List.range_succ, List.flatMap_append, flatMap_slices xs k n, List.flatMap_singleton,
      Nat.succ_mul, List.take_add]

/-- A slice of the concatenation of strings of `k` bytes is one of the strings. -/
theorem slice_flatMap {α β : Type*} (f : α → List β) (k : ℕ) : ∀ (l : List α) (b : ℕ)
    (hb : b < l.length), (∀ a ∈ l, (f a).length = k) →
      ((l.flatMap f).drop (b * k)).take k = f l[b]
  | [], _, hb, _ => absurd hb (Nat.not_lt_zero _)
  | a :: l, 0, _, h => by
    have ha := h a List.mem_cons_self
    simp [← ha]
  | a :: l, b + 1, hb, h => by
    have ha := h a List.mem_cons_self
    have ih := slice_flatMap f k l b (Nat.lt_of_succ_lt_succ hb)
      fun a' ha' => h a' (List.mem_cons_of_mem _ ha')
    have hdrop : (f a ++ l.flatMap f).drop ((b + 1) * k) = (l.flatMap f).drop (b * k) := by
      rw [Nat.succ_mul, Nat.add_comm, ← ha, List.drop_append]
      simp
    rw [List.flatMap_cons, hdrop, ih]
    rfl

theorem length_flatMap_const {α β : Type*} (f : α → List β) (k : ℕ) : ∀ l : List α,
    (∀ a ∈ l, (f a).length = k) → (l.flatMap f).length = l.length * k
  | [], _ => by simp
  | a :: l, h => by
    rw [List.flatMap_cons, List.length_append, h a List.mem_cons_self,
      length_flatMap_const f k l fun a' ha' => h a' (List.mem_cons_of_mem _ ha'),
      List.length_cons, Nat.succ_mul, Nat.add_comm]

/-! ### Words -/

/-- The `n` low bytes of `x`, least significant first. -/
def leBytes : ℕ → ℕ → List UInt8
  | 0, _ => []
  | n + 1, x => UInt8.ofNat x :: leBytes n (x / 256)

/-- The number whose little-endian bytes are `bs`. -/
def leNat : List UInt8 → ℕ
  | [] => 0
  | b :: bs => b.toNat + 256 * leNat bs

@[simp] theorem length_leBytes : ∀ n x : ℕ, (leBytes n x).length = n
  | 0, _ => rfl
  | n + 1, x => by simp [leBytes, length_leBytes n]

theorem leNat_leBytes : ∀ n x : ℕ, leNat (leBytes n x) = x % 256 ^ n
  | 0, x => by simp [leBytes, leNat, Nat.mod_one]
  | n + 1, x => by
    rw [leBytes, leNat, leNat_leBytes n, pow_succ, mul_comm (256 ^ n), Nat.mod_mul]
    simp

theorem leNat_lt : ∀ bs : List UInt8, leNat bs < 256 ^ bs.length
  | [] => by simp [leNat]
  | b :: bs => by
    have hb : b.toNat < 256 := b.toNat_lt
    have hbs := leNat_lt bs
    rw [leNat, List.length_cons, pow_succ]
    omega

theorem leBytes_leNat : ∀ bs : List UInt8, leBytes bs.length (leNat bs) = bs
  | [] => rfl
  | b :: bs => by
    have hb : b.toNat < 256 := b.toNat_lt
    have hdiv : (b.toNat + 256 * leNat bs) / 256 = leNat bs := by omega
    have hb' : UInt8.ofNat (b.toNat + 256 * leNat bs) = b := by
      apply UInt8.toNat.inj
      rw [UInt8.toNat_ofNat']
      omega
    rw [leNat, List.length_cons, leBytes, hdiv, leBytes_leNat bs, hb']

theorem leBytes_mod : ∀ n x : ℕ, leBytes n (x % 256 ^ n) = leBytes n x
  | 0, _ => rfl
  | n + 1, x => by
    have hx : UInt8.ofNat (x % 256 ^ (n + 1)) = UInt8.ofNat x := by
      apply UInt8.toNat.inj
      rw [UInt8.toNat_ofNat', UInt8.toNat_ofNat', pow_succ]
      exact Nat.mod_mul_left_mod x (256 ^ n) 256
    have hdiv : x % 256 ^ (n + 1) / 256 = x / 256 % 256 ^ n := by
      rw [pow_succ, mul_comm, Nat.mod_mul_right_div_self]
    rw [leBytes, leBytes, hx, hdiv, leBytes_mod n]

/-- The bytes of a word are its little-endian ones, whatever its high bits. -/
theorem eq_leBytes_of_leNat {n x : ℕ} {bs : List UInt8} (hn : bs.length = n)
    (h : leNat bs = x % 256 ^ n) : bs = leBytes n x := by
  rw [← leBytes_mod, ← h, ← hn, leBytes_leNat]

/-- The eight bytes of a 64-bit integer. -/
def encodeInt64 (x : Int64) : List UInt8 := leBytes 8 x.toBitVec.toNat

/-- The 64-bit integer eight bytes hold. -/
def decodeInt64 (bs : List UInt8) : Int64 := Int64.ofBitVec (BitVec.ofNat 64 (leNat bs))

@[simp] theorem length_encodeInt64 (x : Int64) : (encodeInt64 x).length = 8 := length_leBytes 8 _

@[simp] theorem decode_encodeInt64 (x : Int64) : decodeInt64 (encodeInt64 x) = x := by
  have h : leNat (encodeInt64 x) = x.toBitVec.toNat := by
    rw [encodeInt64, leNat_leBytes]
    exact Nat.mod_eq_of_lt x.toBitVec.isLt
  rw [decodeInt64, h, BitVec.ofNat_toNat, BitVec.setWidth_eq, Int64.ofBitVec_toBitVec]

/-- The four bytes of a 32-bit integer. -/
def encodeInt32 (x : Int32) : List UInt8 := leBytes 4 x.toBitVec.toNat

/-- The 32-bit integer of a word, `ToInt32`. -/
def int32OfNat (n : ℕ) : Int32 := Int32.ofBitVec (BitVec.ofNat 32 n)

theorem int32OfNat_encodeInt32 (x : Int32) : int32OfNat (leNat (encodeInt32 x)) = x := by
  have h : leNat (encodeInt32 x) = x.toBitVec.toNat := by
    rw [encodeInt32, leNat_leBytes]
    exact Nat.mod_eq_of_lt x.toBitVec.isLt
  rw [int32OfNat, h, BitVec.ofNat_toNat, BitVec.setWidth_eq, Int32.ofBitVec_toBitVec]

end Lib
