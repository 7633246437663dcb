/-
# A GZIP member inflates into exactly its data

`InflateGzip` feeds an inflater the deflate stream between the header and the
footer of a member, in windows of at most `UINT_MAX` bytes of input and of
output. Each call that goes on uses input or gives output, or the loop breaks,
so it ends (`wp_inflateLoop`). A member is accepted only when the inflater
ended its stream on the last byte before the footer, with the buffer full, and
the footer states the CRC-32 and the size of the buffer's bytes
(`inflateGzip_exact`).

Key definitions: `Inflater`, `inflateGzip`, `Inflates`, `GzipMember`.
Key theorems: `wp_inflateLoop`, `inflateGzip_exact`.
-/
import MobilityDuck.DatacubeBytes

namespace MobilityDuck

open Lib

def UINT_MAX : ℕ := 2 ^ 32 - 1

/-- The return codes of the inflater, the errors as one. -/
inductive MzStatus
  | ok
  | streamEnd
  | other
  deriving DecidableEq, Repr

inductive MzFlush
  | noFlush
  | finish
  deriving DecidableEq, Repr

/-- What a call of the inflater leaves: its stream, its return code, how many bytes of the input
it used, and the bytes it wrote. -/
structure InflateResult (σ : Type) where
  stream : σ
  status : MzStatus
  usedIn : ℕ
  output : List UInt8

/-- An inflater of raw deflate streams: `mz_inflateInit2`, which may fail, and `mz_inflate` on the
input offered, the number of bytes of output offered and the flush. -/
structure Inflater where
  Stream : Type
  start : Option Stream
  inflate : Stream → List UInt8 → ℕ → MzFlush → InflateResult Stream

/-- The inflater keeps to the windows it is offered. -/
structure Inflater.Bounded (z : Inflater) : Prop where
  usedIn_le : ∀ s input availOut flush, (z.inflate s input availOut flush).usedIn ≤ input.length
  output_le : ∀ s input availOut flush,
    (z.inflate s input availOut flush).output.length ≤ availOut

def GZIP_HEADER : ℕ := 10

def GZIP_FOOTER : ℕ := 8

/-- Where the loop is: the stream, and the input and the output that are left. -/
structure Inflating (σ : Type) where
  stream : σ
  nextIn : ℕ
  inLeft : ℕ
  nextOut : ℕ
  outLeft : ℕ

/-- What the loop leaves to the checks after it. -/
structure InflateExit where
  ret : MzStatus
  inLeft : ℕ
  outLeft : ℕ
  deriving DecidableEq, Repr

/-- `MZ_FINISH` once the window holds all the input that is left. -/
def flushOf (inChunk inLeft : ℕ) : MzFlush := if inChunk = inLeft then .finish else .noFlush

section InflateGzip

variable (z : Inflater) (crc32 : List UInt8 → UInt32)

/-- One turn of the loop of `InflateGzip`. -/
def inflateChunk (payload : List UInt8) (p : Inflating z.Stream) :
    Codec (Inflating z.Stream ⊕ InflateExit) := do
  let inChunk := if p.inLeft < UINT_MAX then p.inLeft else UINT_MAX
  let outChunk := if p.outLeft < UINT_MAX then p.outLeft else UINT_MAX
  let window ← bytesAt payload p.nextIn inChunk
  let _ ← bufferBytes p.nextOut outChunk
  let r := z.inflate p.stream window outChunk (flushOf inChunk p.inLeft)
  writeBuffer p.nextOut r.output
  let usedOut := r.output.length
  let next : Inflating z.Stream :=
    ⟨r.stream, p.nextIn + r.usedIn, p.inLeft - r.usedIn, p.nextOut + usedOut, p.outLeft - usedOut⟩
  if r.status ≠ .ok then
    return .inr ⟨r.status, next.inLeft, next.outLeft⟩
  -- no progress: the buffer is full while the stream goes on
  if r.usedIn = 0 ∧ usedOut = 0 then
    return .inr ⟨.ok, next.inLeft, next.outLeft⟩
  return .inl next

/-- The checks of the header of a member: flagless, and of a deflate stream. -/
def checkGzipHeader (payload : List UInt8) : Codec Unit := do
  raiseIf (payload.length < GZIP_HEADER + GZIP_FOOTER)
    (throwPayload .gzip "is shorter than a GZIP header and footer")
  let magic ← bytesAt payload 0 4
  raiseIf (magic[0]? ≠ some 0x1F ∨ magic[1]? ≠ some 0x8B ∨ magic[2]? ≠ some 0x08)
    (throwPayload .gzip "does not open with the GZIP header of a deflate stream")
  raiseIf (magic[3]? ≠ some 0)
    (throwPayload .gzip "states GZIP header flags, of which a datacube member carries none")

/-- The checks of what the loop left: the stream ended, the buffer is full, and no input is left. -/
def checkInflated (exit : InflateExit) (expected : ℕ) : Codec Unit := do
  raiseIf (exit.ret ≠ .streamEnd)
    (throwPayload .gzip "does not inflate into exactly the number of bytes the header states")
  raiseIf (exit.outLeft ≠ 0)
    (throwPayloadSize .gzip "inflates into" (expected - exit.outLeft) expected)
  raiseIf (exit.inLeft ≠ 0)
    (throwPayload .gzip "carries bytes after its deflate stream and footer")

/-- The checks of the footer against what the stream gave. -/
def checkGzipFooter (payload : List UInt8) (expected : ℕ) : Codec Unit := do
  let footer := payload.length - GZIP_FOOTER
  let crc := crc32 (← bufferBytes 0 expected)
  let stated ← readLE32 payload footer
  raiseIf (stated ≠ crc.toNat) (throwPayload .gzip "fails its CRC-32")
  let size ← readLE32 payload (footer + 4)
  raiseIf (size ≠ expected % 2 ^ 32)
    (throwPayload .gzip "states in its footer a size other than the header's")

/-- `InflateGzip`, with a bound on the turns of its loop. -/
def inflateGzip (bound : ℕ) (payload : List UInt8) (expected : ℕ) : Codec Unit := do
  checkGzipHeader payload
  match z.start with
  | none => throwPayload .gzip "cannot be inflated: the inflater did not start"
  | some stream =>
    match ← loop (inflateChunk z payload) bound
        ⟨stream, GZIP_HEADER, payload.length - GZIP_HEADER - GZIP_FOOTER, 0, expected⟩ with
    | none => throw (.raised .diverges)
    | some exit =>
      checkInflated exit expected
      checkGzipFooter crc32 payload expected

/-! ### What a member is -/

/-- From stream `s`, offered the input that is left and room for the output that is left, window
by window, the inflater ends on the last byte of `input` having written exactly `output`. -/
inductive Inflates : z.Stream → List UInt8 → List UInt8 → Prop
  | ends {s s' : z.Stream} {input output : List UInt8}
      (h : z.inflate s (input.take UINT_MAX) (min output.length UINT_MAX)
        (flushOf (min input.length UINT_MAX) input.length) =
          ⟨s', .streamEnd, input.length, output⟩) :
      Inflates s input output
  | goesOn {s s' : z.Stream} {input out output : List UInt8} {used : ℕ}
      (h : z.inflate s (input.take UINT_MAX) (min (out ++ output).length UINT_MAX)
        (flushOf (min input.length UINT_MAX) input.length) = ⟨s', .ok, used, out⟩)
      (hrest : Inflates s' (input.drop used) output) :
      Inflates s input (out ++ output)

/-- The payload is a flagless header of ten bytes, a deflate stream the inflater takes whole and
turns into `output`, and a footer with the CRC-32 and the size of `output`. -/
def GzipMember (payload output : List UInt8) : Prop :=
  ∃ (stream : z.Stream) (rest deflate : List UInt8), z.start = some stream ∧ rest.length = 6 ∧
    payload = [0x1F, 0x8B, 0x08, 0] ++ rest ++ deflate ++ writeLE32 (crc32 output).toNat ++
      writeLE32 output.length ∧
    Inflates z stream deflate output

/-! ### The loop -/

variable {z} {crc32}

/-- What a turn of the loop keeps: the two cursors stay in the stream and in the buffer, and what
the inflater writes from here on follows what it wrote so far. -/
structure InflateInv (z : Inflater) (payload : List UInt8) (start : z.Stream) (expected : ℕ)
    (m₀ : Memory) (p : Inflating z.Stream) (m : Memory) : Prop where
  input : p.nextIn + p.inLeft + GZIP_FOOTER = payload.length
  output : p.nextOut + p.outLeft = expected
  buffer : m.buffer.length = expected
  allocations : m.allocations = m₀.allocations
  inflates : ∀ rest : List UInt8, rest.length = p.outLeft →
    Inflates z p.stream ((payload.drop p.nextIn).take p.inLeft) rest →
    Inflates z start ((payload.drop GZIP_HEADER).take (payload.length - GZIP_HEADER - GZIP_FOOTER))
      (m.buffer.take p.nextOut ++ rest)

/-- What the loop ends in. -/
structure InflateEnd (z : Inflater) (payload : List UInt8) (start : z.Stream) (expected : ℕ)
    (m₀ : Memory) (exit : InflateExit) (m : Memory) : Prop where
  buffer : m.buffer.length = expected
  allocations : m.allocations = m₀.allocations
  inflates : exit.ret = .streamEnd → exit.inLeft = 0 → exit.outLeft = 0 →
    Inflates z start ((payload.drop GZIP_HEADER).take (payload.length - GZIP_HEADER - GZIP_FOOTER))
      m.buffer

theorem min_uint (n : ℕ) : (if n < UINT_MAX then n else UINT_MAX) = min n UINT_MAX := by
  split <;> omega

/-- The call a turn makes is the one `Inflates` makes on what is left. -/
theorem InflateInv.call {payload : List UInt8} {start : z.Stream} {expected : ℕ} {m₀ m : Memory}
    {p : Inflating z.Stream} (h : InflateInv z payload start expected m₀ p m) {output : List UInt8}
    (ho : output.length = p.outLeft) :
    let input := (payload.drop p.nextIn).take p.inLeft
    z.inflate p.stream (input.take UINT_MAX) (min output.length UINT_MAX)
        (flushOf (min input.length UINT_MAX) input.length) =
      z.inflate p.stream ((payload.drop p.nextIn).take (min p.inLeft UINT_MAX))
        (min p.outLeft UINT_MAX) (flushOf (min p.inLeft UINT_MAX) p.inLeft) := by
  have hin := h.input
  have hl : ((payload.drop p.nextIn).take p.inLeft).length = p.inLeft := by
    simp only [List.length_take, List.length_drop]
    omega
  simp only [hl, ho, List.take_take, min_comm UINT_MAX]

/-- A turn of the loop touches only the two windows, and goes on with less left. -/
theorem wp_inflateChunk (hz : z.Bounded) {payload : List UInt8} {start : z.Stream} {expected : ℕ}
    {m₀ : Memory} (p : Inflating z.Stream) (m : Memory)
    (h : InflateInv z payload start expected m₀ p m) :
    wp (inflateChunk z payload p)
      (fun r m' => r.elim
        (fun p' => InflateInv z payload start expected m₀ p' m' ∧
          p'.inLeft + p'.outLeft < p.inLeft + p.outLeft)
        (InflateEnd z payload start expected m₀ · m'))
      (fun _ _ => False) m := by
  have hin := h.input
  have hout := h.output
  have hbuf := h.buffer
  unfold inflateChunk
  simp only [min_uint]
  rw [wp_bind, wp_bytesAt (by omega), wp_bind, wp_bufferBytes (by omega)]
  set window := (payload.drop p.nextIn).take (min p.inLeft UINT_MAX) with hw
  have hwl : window.length = min p.inLeft UINT_MAX := by
    simp only [hw, List.length_take, List.length_drop]
    omega
  set r := z.inflate p.stream window (min p.outLeft UINT_MAX)
    (flushOf (min p.inLeft UINT_MAX) p.inLeft) with hr
  have hused : r.usedIn ≤ window.length := hz.usedIn_le ..
  have hgave : r.output.length ≤ min p.outLeft UINT_MAX := hz.output_le ..
  rw [wp_bind, wp_writeBuffer (by omega)]
  set buffer' := m.buffer.take p.nextOut ++ r.output ++ m.buffer.drop (p.nextOut + r.output.length)
    with hb
  have hbuf' : buffer'.length = expected := by
    simp only [hb, List.length_append, List.length_take, List.length_drop]
    omega
  have htake : buffer'.take (p.nextOut + r.output.length) = m.buffer.take p.nextOut ++ r.output := by
    rw [hb, List.take_left']
    simp only [List.length_append, List.length_take]
    omega
  by_cases hok : r.status = .ok
  · -- the stream goes on, unless neither cursor moved
    by_cases hstuck : r.usedIn = 0 ∧ r.output.length = 0
    · simp only [hok, hstuck, ne_eq, not_true_eq_false, if_false, and_self, if_true, wp_pure]
      exact ⟨hbuf', h.allocations, fun he => MzStatus.noConfusion he⟩
    · simp only [hok, hstuck, ne_eq, not_true_eq_false, if_false, wp_pure]
      refine ⟨⟨?_, ?_, hbuf', h.allocations, fun rest hrest hi => ?_⟩, ?_⟩
      · simp only; omega
      · simp only; omega
      · -- what is still to come follows what this call wrote
        have hl : (r.output ++ rest).length = p.outLeft := by
          simp only [List.length_append, hrest]
          omega
        have hcall : r = ⟨r.stream, .ok, r.usedIn, r.output⟩ := by rw [← hok]
        rw [htake, List.append_assoc]
        refine h.inflates _ hl (.goesOn ((h.call hl).trans hcall) ?_)
        simpa only [List.drop_take, List.drop_drop] using hi
      · simp only; omega
  · simp only [hok, ne_eq, not_false_eq_true, if_true, wp_pure]
    refine ⟨hbuf', h.allocations, fun he hi ho => ?_⟩
    have hi : p.inLeft - r.usedIn = 0 := hi
    have ho : p.outLeft - r.output.length = 0 := ho
    have hl : r.output.length = p.outLeft := by omega
    have hul : ((payload.drop p.nextIn).take p.inLeft).length = r.usedIn := by
      simp only [List.length_take, List.length_drop]
      omega
    have hcall : r = ⟨r.stream, .streamEnd, ((payload.drop p.nextIn).take p.inLeft).length,
        r.output⟩ := by
      rw [hul, show MzStatus.streamEnd = r.status from he.symm]
    have hends : Inflates z p.stream ((payload.drop p.nextIn).take p.inLeft) r.output :=
      .ends ((h.call hl).trans hcall)
    have hfull : buffer'.take (p.nextOut + r.output.length) = buffer' :=
      List.take_of_length_le (by omega)
    have hall := h.inflates _ hl hends
    rwa [← htake, hfull] at hall

theorem inflateInv_start {payload : List UInt8} {start : z.Stream} {m : Memory}
    (hn : GZIP_HEADER + GZIP_FOOTER ≤ payload.length) :
    InflateInv z payload start m.buffer.length m
      ⟨start, GZIP_HEADER, payload.length - GZIP_HEADER - GZIP_FOOTER, 0, m.buffer.length⟩ m where
  input := by simp only; omega
  output := by simp
  buffer := rfl
  allocations := rfl
  inflates rest _ h := by simpa using h

/-- The loop ends under a bound above what it is offered. -/
theorem wp_inflateLoop (hz : z.Bounded) {payload : List UInt8} (start : z.Stream) {m : Memory}
    (hn : GZIP_HEADER + GZIP_FOOTER ≤ payload.length) {bound : ℕ}
    (hb : payload.length + m.buffer.length < bound) :
    wp (loop (inflateChunk z payload) bound
        ⟨start, GZIP_HEADER, payload.length - GZIP_HEADER - GZIP_FOOTER, 0, m.buffer.length⟩)
      (fun r m' => ∃ exit, r = some exit ∧
        InflateEnd z payload start m.buffer.length m exit m')
      (fun _ _ => False) m := by
  refine (wp_loop (fun p : Inflating z.Stream => p.inLeft + p.outLeft)
    (fun p m' hp => wp_inflateChunk hz p m' hp) bound _ m (inflateInv_start hn)).mono ?_ ?_
  · intro r m' hr
    cases r with
    | none =>
      have hle : bound ≤ payload.length - GZIP_HEADER - GZIP_FOOTER + m.buffer.length := hr
      omega
    | some exit => exact ⟨exit, rfl, hr⟩
  · exact fun _ _ he => he

/-- A refusal: nothing was allocated, and the buffer has its size. -/
def Refused (m : Memory) (e : Fault) (m' : Memory) : Prop :=
  m'.allocations = m.allocations ∧ m'.buffer.length = m.buffer.length ∧
    ∃ message, e = .raised (.invalidInput message)

theorem wp_checkGzipHeader {payload : List UInt8} {m : Memory} :
    wp (checkGzipHeader payload)
      (fun _ m' => m' = m ∧ GZIP_HEADER + GZIP_FOOTER ≤ payload.length ∧
        payload.take 4 = [0x1F, 0x8B, 0x08, 0])
      (Refused m) m := by
  unfold checkGzipHeader
  rw [wp_bind, wp_raiseIf]
  refine ⟨fun _ => ⟨rfl, rfl, _, rfl⟩, fun hn => ?_⟩
  have hn : GZIP_HEADER + GZIP_FOOTER ≤ payload.length := Nat.le_of_not_lt hn
  have h4 : 0 + 4 ≤ payload.length := le_trans (by decide) hn
  rw [wp_bind, wp_bytesAt h4, wp_bind, wp_raiseIf]
  refine ⟨fun _ => ⟨rfl, rfl, _, rfl⟩, fun hm => ?_⟩
  rw [wp_raiseIf]
  refine ⟨fun _ => ⟨rfl, rfl, _, rfl⟩, fun hf => ⟨rfl, hn, ?_⟩⟩
  rw [List.drop_zero] at hm hf
  have hlen : (payload.take 4).length = 4 := by
    rw [List.length_take]
    omega
  generalize payload.take 4 = magic at hm hf hlen ⊢
  match magic, hlen with
  | [a, b, c, d], _ =>
    simp only [List.getElem?_cons_zero, List.getElem?_cons_succ, ne_eq, Option.some.injEq, not_or,
      not_not] at hm hf
    rw [hm.1, hm.2.1, hm.2.2, hf]

theorem wp_checkInflated {exit : InflateExit} {expected : ℕ} {m : Memory} :
    wp (checkInflated exit expected)
      (fun _ m' => m' = m ∧ exit.ret = .streamEnd ∧ exit.outLeft = 0 ∧ exit.inLeft = 0)
      (Refused m) m := by
  unfold checkInflated
  rw [wp_bind, wp_raiseIf]
  refine ⟨fun _ => ⟨rfl, rfl, _, rfl⟩, fun hr => ?_⟩
  rw [wp_bind, wp_raiseIf]
  refine ⟨fun _ => ⟨rfl, rfl, _, rfl⟩, fun ho => ?_⟩
  rw [wp_raiseIf]
  exact ⟨fun _ => ⟨rfl, rfl, _, rfl⟩, fun hi =>
    ⟨rfl, not_not.mp hr, not_not.mp ho, not_not.mp hi⟩⟩

theorem wp_checkGzipFooter {payload : List UInt8} {m : Memory} (hn : GZIP_FOOTER ≤ payload.length) :
    wp (checkGzipFooter crc32 payload m.buffer.length)
      (fun _ m' => m' = m ∧ payload.drop (payload.length - GZIP_FOOTER) =
        writeLE32 (crc32 m.buffer).toNat ++ writeLE32 m.buffer.length)
      (Refused m) m := by
  have h8 : GZIP_FOOTER = 8 := rfl
  unfold checkGzipFooter
  rw [wp_bind, wp_bufferBytes (by omega), wp_bind, readLE32, wp_readLE (by omega), wp_bind,
    wp_raiseIf]
  refine ⟨fun _ => ⟨rfl, rfl, _, rfl⟩, fun hc => ?_⟩
  rw [wp_bind, wp_readLE (by omega), wp_raiseIf]
  refine ⟨fun _ => ⟨rfl, rfl, _, rfl⟩, fun hs => ⟨rfl, ?_⟩⟩
  set footer := payload.length - GZIP_FOOTER with hf
  have hcrc : (payload.drop footer).take 4 = writeLE32 (crc32 m.buffer).toNat := by
    have hlt : (crc32 m.buffer).toNat < 256 ^ 4 := (crc32 m.buffer).toNat_lt
    refine eq_leBytes_of_leNat ?_ ?_
    · rw [List.length_take, List.length_drop]
      omega
    · rw [not_not.mp hc, List.drop_zero, List.take_length, Nat.mod_eq_of_lt hlt]
  have hsize : (payload.drop (footer + 4)).take 4 = writeLE32 m.buffer.length := by
    refine eq_leBytes_of_leNat ?_ (not_not.mp hs)
    rw [List.length_take, List.length_drop]
    omega
  have htail : (payload.drop (footer + 4)).take 4 = payload.drop (footer + 4) := by
    apply List.take_of_length_le
    rw [List.length_drop]
    omega
  calc payload.drop footer
      = (payload.drop footer).take 4 ++ (payload.drop footer).drop 4 :=
        (List.take_append_drop 4 _).symm
    _ = _ := by rw [List.drop_drop, hcrc, ← htail, hsize]

/-- The four parts of a member that is long enough. -/
theorem gzip_parts {payload : List UInt8} (hn : GZIP_HEADER + GZIP_FOOTER ≤ payload.length) :
    payload = payload.take 4 ++ (payload.drop 4).take 6 ++
      (payload.drop GZIP_HEADER).take (payload.length - GZIP_HEADER - GZIP_FOOTER) ++
      payload.drop (payload.length - GZIP_FOOTER) := by
  have h10 : GZIP_HEADER = 10 := rfl
  have hhead : payload.take 4 ++ (payload.drop 4).take 6 = payload.take GZIP_HEADER :=
    List.take_add.symm
  have hlast : payload.drop (payload.length - GZIP_FOOTER) =
      (payload.drop GZIP_HEADER).drop (payload.length - GZIP_HEADER - GZIP_FOOTER) := by
    rw [List.drop_drop]
    congr 1
    omega
  rw [hhead, hlast, List.append_assoc, List.take_append_drop, List.take_append_drop]

theorem wp_inflateGzip (hz : z.Bounded) {payload : List UInt8} {m : Memory} {bound : ℕ}
    (hb : payload.length + m.buffer.length < bound) :
    wp (inflateGzip z crc32 bound payload m.buffer.length)
      (fun _ m' => m'.allocations = m.allocations ∧ m'.buffer.length = m.buffer.length ∧
        GzipMember z crc32 payload m'.buffer)
      (Refused m) m := by
  unfold inflateGzip
  rw [wp_bind]
  refine wp_checkGzipHeader.mono ?_ fun _ _ he => he
  rintro _ m ⟨rfl, hn, hmagic⟩
  cases hs : z.start with
  | none => exact ⟨rfl, rfl, _, rfl⟩
  | some start =>
    simp only [wp_bind]
    refine (wp_inflateLoop hz start hn hb).mono ?_ fun _ _ he => he.elim
    rintro _ m' ⟨exit, rfl, hend⟩
    have hal := hend.allocations
    have hbl := hend.buffer
    have hmono : ∀ e m'', Refused m' e m'' → Refused m e m'' := fun e m'' he =>
      ⟨he.1.trans hal, he.2.1.trans hbl, he.2.2⟩
    simp only [wp_bind]
    refine wp_checkInflated.mono ?_ hmono
    rintro _ _ ⟨rfl, hret, ho, hi⟩
    rw [← hbl]
    refine (wp_checkGzipFooter (by omega)).mono ?_ hmono
    rintro _ _ ⟨rfl, hfooter⟩
    refine ⟨hal, rfl, start, (payload.drop 4).take 6, _, hs, ?_, ?_, hend.inflates hret hi ho⟩
    · have h10 : GZIP_HEADER = 10 := rfl
      rw [List.length_take, List.length_drop]
      omega
    · rw [List.append_assoc _ (writeLE32 _), ← hfooter, ← hmagic]
      exact gzip_parts hn

/-- **A member is accepted only as a whole.** For every payload and every inflater that keeps to
its windows, the loop ends, under every bound alike from one on; a member that is accepted is
exactly a header, a deflate stream ended on its last byte with the buffer full, and a footer that
agrees with the buffer; every other payload is refused. No byte outside the payload is read and
none outside the buffer is written. -/
theorem inflateGzip_exact (z : Inflater) (hz : z.Bounded) (crc32 : List UInt8 → UInt32)
    (payload : List UInt8) (expected : ℕ) (m : Memory) (hm : m.buffer.length = expected)
    (bound : ℕ) (hb : payload.length + expected < bound) :
    wp (inflateGzip z crc32 bound payload expected)
        (fun _ m' => m'.allocations = m.allocations ∧ m'.buffer.length = expected ∧
          GzipMember z crc32 payload m'.buffer)
        (Refused m) m ∧
      ∀ bound', bound ≤ bound' → (inflateGzip z crc32 bound' payload expected).run m =
        (inflateGzip z crc32 bound payload expected).run m := by
  subst hm
  refine ⟨wp_inflateGzip hz hb, fun bound' hle => ?_⟩
  unfold inflateGzip
  rw [EStateM.run_bind, EStateM.run_bind]
  cases hc : (checkGzipHeader payload).run m with
  | error e m' => rfl
  | ok _ m' =>
    obtain ⟨rfl, hn, -⟩ := wp_checkGzipHeader.of_run_ok hc
    cases z.start with
    | none => rfl
    | some start =>
      simp only [EStateM.run_bind]
      rw [loop_of_le hle]
      refine (wp_inflateLoop hz start hn hb).mono ?_ fun _ _ _ => trivial
      rintro _ _ ⟨exit, rfl, -⟩
      simp

end InflateGzip

/-! ### A stored member -/

/-- One bit of the CRC-32 of GZIP. -/
def crc32Bit (c : UInt32) : UInt32 :=
  if c &&& 1 = 1 then (c >>> 1) ^^^ 0xEDB88320 else c >>> 1

def crc32Gzip (bytes : List UInt8) : UInt32 :=
  ~~~ bytes.foldl (fun c b => crc32Bit^[8] (c ^^^ b.toUInt32)) 0xFFFFFFFF

/-- Inflates streams of one stored block, offered whole with room for what they hold. -/
def storedInflater : Inflater where
  Stream := Unit
  start := some ()
  inflate _ input availOut _ :=
    match input with
    | 1 :: a :: b :: c :: d :: bytes =>
      if leNat [a, b] = bytes.length ∧ [~~~ a, ~~~ b] = [c, d] ∧ bytes.length ≤ availOut then
        ⟨(), .streamEnd, bytes.length + 5, bytes⟩
      else ⟨(), .other, 0, []⟩
    | _ => ⟨(), .other, 0, []⟩

theorem storedInflater_bounded : storedInflater.Bounded where
  usedIn_le _ input availOut _ := by
    unfold storedInflater
    dsimp only
    split
    · split <;> simp
    · simp
  output_le _ input availOut _ := by
    unfold storedInflater
    dsimp only
    split
    · split
      · rename_i h
        exact h.2.2
      · simp
    · simp

theorem inflateGzip_exact_stored :
    (inflateGzip storedInflater crc32Gzip 26
      ([0x1F, 0x8B, 0x08, 0] ++ [0, 0, 0, 0, 0, 0x03] ++ [0x01, 0x01, 0x00, 0xFE, 0xFF, 0x41] ++
        [0x8B, 0x9E, 0xD9, 0xD3] ++ [0x01, 0, 0, 0]) 1).run ⟨[0], [1]⟩ = .ok () ⟨[0x41], [1]⟩ ∧
    GzipMember storedInflater crc32Gzip
      ([0x1F, 0x8B, 0x08, 0] ++ [0, 0, 0, 0, 0, 0x03] ++ [0x01, 0x01, 0x00, 0xFE, 0xFF, 0x41] ++
        [0x8B, 0x9E, 0xD9, 0xD3] ++ [0x01, 0, 0, 0]) [0x41] := by
  have hrun : (inflateGzip storedInflater crc32Gzip 26
      ([0x1F, 0x8B, 0x08, 0] ++ [0, 0, 0, 0, 0, 0x03] ++ [0x01, 0x01, 0x00, 0xFE, 0xFF, 0x41] ++
        [0x8B, 0x9E, 0xD9, 0xD3] ++ [0x01, 0, 0, 0]) 1).run ⟨[0], [1]⟩ = .ok () ⟨[0x41], [1]⟩ := by
    rfl
  refine ⟨hrun, ?_⟩
  exact ((inflateGzip_exact storedInflater storedInflater_bounded crc32Gzip _ 1 ⟨[0], [1]⟩ rfl 26
    (by decide)).1.of_run_ok hrun).2.2

end MobilityDuck
