import Esdb.Binary

/-!
# The block reader (`src/blocks/reader.go`)

A block file is a sequence of physical blocks of one width `headerLen B + B`, each
`header(payload length) ++ payload ++ padding` (spec §4.1). `Reader` is to present the
concatenation of the payloads as a byte stream.

* `ByteReader`, `bufferRead` — the two Go readers the code is built on: `bytes.Reader` over the
  file image (`Read` returns `io.EOF` only when nothing is left) and `bytes.Buffer`'s `Read`.
* `Reader.parse`, `fetchLoop`, `Reader.fetch` — `fetch(length)` reads one physical width at a
  time into `scratch` and, when more than a header arrived, `parse` moves one header's worth
  and one payload's worth out of `scratch`. The padding read with a block stays in `scratch`.
  The Go loop has no bound; `fetchLoop` runs on fuel and `fetchLoop_isSome` shows one more
  than the bytes left is enough.
* `Reader.read`, `Reader.readByte`, `Reader.peek`, `Reader.seek`, `Reader.readBlock` — the
  public operations, each after `fetch`; `Reader.reads` and `bufferReads` — a run of `Read`s on
  the block reader and on a `bytes.Buffer`.
* `Pending` — what a reader still has to deliver when the file ahead is blocks all full but the
  last; `fetchLoop_pending`, `Reader.read_pending`, `Reader.readByte_pending`,
  `Reader.reads_pending` — each `fetch`, `Read`, `ReadByte` and run of `Read`s keeps it, and
  `Read` then behaves as `bytes.Buffer.Read` on the bytes held.
* `blocks_read_as_payload_stream` — so a file whose blocks are all full but the last is read as
  the concatenation of its payloads.
* `Presents` — the reader holds a byte stream; `Presents.read` and `Presents.readByte` are what
  clients of the reader (the event decoder) are proved against.
* `peek_consumes_nothing` — `Peek` returns the next bytes and every later `Read` returns what it
  would have returned without it.
* `drop_frames`, `readBlock_frames` — random access: from any reader over the file, `ReadBlock`
  at the `k`-th block's offset returns the `k`-th payload and leaves a reader presenting the
  payloads after it.
* `reader_reads_padding_as_header` — the padding left in `scratch` is parsed as the next
  block's header: with block size 2 and payloads `[1]`, `[2]`, the reader yields
  `[1, 0, 2, 0]` where the payloads are `[1, 2]`.
-/

namespace Esdb.Blocks

open Esdb.Binary

/-- Modelled from the spec: `headerLen(blockSize)`, absent from `src/`: 2 bytes when the block
size fits in 16 bits, 4 when it fits in 32, otherwise 8 (§4.1); `fixedInt` picks the integer
type `parseHeader` decodes by the same rule.
Kind: D -/
def headerLen (blockSize : Nat) : Nat :=
  if blockSize < 2 ^ 16 then 2 else if blockSize < 2 ^ 32 then 4 else 8

/-- Every header is at least two bytes wide.
Source: spec §4.1
Kind: L -/
theorem two_le_headerLen (blockSize : Nat) : 2 ≤ headerLen blockSize := by
  unfold headerLen; split_ifs <;> omega

/-- Go's `bytes.Reader`: the bytes and the read position.
Source: Go `bytes.Reader`
Kind: D -/
structure ByteReader where
  /-- The underlying bytes. -/
  data : Bytes
  /-- The read position. -/
  pos : Nat
deriving DecidableEq, Repr

/-- `bytes.Reader.Read` into a buffer of `n` bytes: `io.EOF` (the flag) with nothing read when
the position is at the end, otherwise up to `n` bytes and no error.
Source: Go `bytes.Reader.Read`
Kind: D -/
def ByteReader.read (r : ByteReader) (n : Nat) : Bytes × ByteReader × Bool :=
  if r.data.length ≤ r.pos then ([], r, true)
  else
    let bs := (r.data.drop r.pos).take n
    (bs, { r with pos := r.pos + bs.length }, false)

/-- The errors the reader returns: `io.EOF`, `BadSeek`, and `bytes.Reader.Seek`'s negative
position.
Source: src/blocks/reader.go `BadSeek`
Kind: D -/
inductive ReadError where
  | eof
  | badSeek
  | negativePosition
deriving DecidableEq, Repr

/-- `bytes.Buffer.Read` into a buffer of `n` bytes, on the buffer's unread bytes: the bytes
read, what is left, and `io.EOF` (the flag) when the buffer is empty and `n > 0`.
Source: Go `bytes.Buffer.Read`
Kind: D -/
def bufferRead (buf : Bytes) (n : Nat) : Bytes × Bytes × Bool :=
  if buf = [] then ([], [], decide (0 < n)) else (buf.take n, buf.drop n, false)

/-- `bytes.Buffer.Read` called with each of `ns` in turn on a buffer holding `s`: the bytes and
error of each call.
Source: Go `bytes.Buffer.Read`
Kind: D -/
def bufferReads (s : Bytes) : List Nat → List (Bytes × Option ReadError)
  | [] => []
  | n :: ns => ((bufferRead s n).1, if (bufferRead s n).2.2 then some .eof else none) ::
      bufferReads (bufferRead s n).2.1 ns

/-- `Reader`: the payload bytes ready to be read (`buffer`), the raw bytes read from the file
and not yet parsed (`scratch`), the file, and the block size.
Source: src/blocks/reader.go `Reader`
Kind: D -/
structure Reader where
  /-- Payload bytes not yet returned. -/
  buffer : Bytes
  /-- File bytes read and not yet parsed. -/
  scratch : Bytes
  /-- The underlying `io.ReadSeeker`. -/
  reader : ByteReader
  /-- The block size `B`. -/
  blockSize : Nat
deriving DecidableEq, Repr

/-- `NewByteReader(b, blockSize)`: empty buffers over the bytes `b` at position 0.
Source: src/blocks/reader.go `NewByteReader`, `NewReader`
Kind: D -/
def newByteReader (b : Bytes) (blockSize : Nat) : Reader :=
  ⟨[], [], ⟨b, 0⟩, blockSize⟩

namespace Reader

/-- `parseHeader(head)`: the little-endian value of `head` at the header's width; 0 when
`binary.Read` fails (it leaves `num` at 0).
Source: src/blocks/reader.go `Reader.parseHeader`
Kind: D -/
def parseHeader (r : Reader) (head : Bytes) : Nat :=
  ((readUint (headerLen r.blockSize) head).map Prod.fst).getD 0

/-- `parse()`: read a header's width from `scratch` into a zeroed `head`, then up to the
header's value of bytes of `scratch` into `buffer`.
Source: src/blocks/reader.go `Reader.parse`
Kind: D -/
def parse (r : Reader) : Reader :=
  let hl := headerLen r.blockSize
  let got := r.scratch.take hl
  let head := got ++ List.replicate (hl - got.length) 0
  let scratch := r.scratch.drop hl
  let size := r.parseHeader head
  { r with buffer := r.buffer ++ scratch.take size, scratch := scratch.drop size }

end Reader

/-- The loop of `fetch(length)`: while fewer than `length` payload bytes are buffered, read one
physical width from the file into `scratch`, `parse` when more than a header arrived, and stop
at the file's `io.EOF`. `none` when the fuel runs out.
Source: src/blocks/reader.go `Reader.fetch`
Kind: D -/
def fetchLoop (length : Nat) : Nat → Reader → Option Reader
  | 0, _ => none
  | fuel + 1, r =>
    if r.buffer.length < length then
      let (block, rd, eof) := r.reader.read (headerLen r.blockSize + r.blockSize)
      let r' := { r with scratch := r.scratch ++ block, reader := rd }
      let r'' := if headerLen r.blockSize < block.length then r'.parse else r'
      if eof then some r'' else fetchLoop length fuel r''
    else some r

namespace Reader

/-- The bytes of the file after the read position.
Source: none: infrastructure
Kind: D -/
def remaining (r : Reader) : Nat := r.reader.data.length - r.reader.pos

/-- `fetch(length)`, with fuel one more than the bytes left in the file (`fetchLoop_isSome`).
Source: src/blocks/reader.go `Reader.fetch`
Kind: D -/
def fetch (r : Reader) (length : Nat) : Option Reader :=
  fetchLoop length (r.remaining + 1) r

/-- `Read(p)` with `len(p) = n`: `fetch(n)`, then read the buffer. Returns the bytes read and
`io.EOF` when nothing was buffered.
Source: src/blocks/reader.go `Reader.Read`
Kind: D -/
def read (r : Reader) (n : Nat) : Option (Bytes × Option ReadError × Reader) :=
  (r.fetch n).map fun r =>
    let (bs, rest, eof) := bufferRead r.buffer n
    (bs, if eof then some .eof else none, { r with buffer := rest })

/-- `ReadByte()`: `fetch(1)`, then read one byte into a zeroed one-byte slice; on an empty
buffer the byte is 0 and the error `io.EOF`.
Source: src/blocks/reader.go `Reader.ReadByte`
Kind: D -/
def readByte (r : Reader) : Option (UInt8 × Option ReadError × Reader) :=
  (r.read 1).map fun (bs, err, r) => (bs.headD 0, err, r)

/-- `Peek(n)`: `fetch(n)`, then `buffer.Bytes()[:n]`. When fewer than `n` bytes are buffered the
Go slice expression reaches past the buffer's contents (bytes of its spare capacity, or a
panic past the capacity); the model returns `none` for that outcome.
Source: src/blocks/reader.go `Reader.Peek`
Kind: D -/
def peek (r : Reader) (n : Nat) : Option (Option Bytes × Reader) :=
  (r.fetch n).map fun r => (if n ≤ r.buffer.length then some (r.buffer.take n) else none, r)

/-- `Seek(offset, whence)`: `BadSeek` unless `whence = 0`; otherwise empty both buffers and
seek the file (`bytes.Reader.Seek` refuses a negative position, after the buffers are reset).
Source: src/blocks/reader.go `Reader.Seek`
Kind: D -/
def seek (r : Reader) (offset : Int) (whence : Nat) : Except ReadError Int × Reader :=
  if whence ≠ 0 then (.error .badSeek, r)
  else
    let r := { r with buffer := [], scratch := [] }
    if offset < 0 then (.error .negativePosition, r)
    else (.ok offset, { r with reader := { r.reader with pos := offset.toNat } })

/-- `ReadBlock(offset)`: seek (its error ignored), then `Read` a block size's worth.
Source: src/blocks/reader.go `Reader.ReadBlock`
Kind: D -/
def readBlock (r : Reader) (offset : Int) : Option (Bytes × Option ReadError × Reader) :=
  (r.seek offset 0).2.read r.blockSize

/-- `Read` called with each of `ns` in turn, as a client such as `pullEvent` does: the bytes and
error of each call.
Source: src/blocks/reader.go `Reader.Read`
Kind: D -/
def reads (r : Reader) : List Nat → Option (List (Bytes × Option ReadError))
  | [] => some []
  | n :: ns => (r.read n).bind fun (bs, err, r') => (r'.reads ns).map ((bs, err) :: ·)

end Reader

/-! ## `fetch` terminates -/

/-- A read that reports no `io.EOF` started before the end, read at least one byte (for a
non-empty buffer) and moved the position by what it read.
Source: Go `bytes.Reader.Read`
Kind: L -/
theorem ByteReader.read_progress {r : ByteReader} {n : Nat} (hn : 0 < n)
    (h : (r.read n).2.2 = false) :
    r.pos < r.data.length ∧ 0 < (r.read n).1.length ∧
      (r.read n).2.1 = ⟨r.data, r.pos + (r.read n).1.length⟩ := by
  unfold ByteReader.read at *
  by_cases hlt : r.data.length ≤ r.pos
  · simp [hlt] at h
  · rw [if_neg hlt]
    refine ⟨by omega, ?_, rfl⟩
    simp only [List.length_take, List.length_drop]
    omega

@[simp] theorem parse_reader (r : Reader) : r.parse.reader = r.reader := rfl
@[simp] theorem parse_blockSize (r : Reader) : r.parse.blockSize = r.blockSize := rfl

/-- `fetch`'s loop ends before its fuel runs out when the fuel exceeds the bytes left: every
round that does not stop reads at least one byte.
Source: src/blocks/reader.go `Reader.fetch`
Kind: L -/
theorem fetchLoop_isSome (length : Nat) :
    ∀ (fuel : Nat) (r : Reader), r.remaining < fuel → (fetchLoop length fuel r).isSome
  | 0, _, h => absurd h (Nat.not_lt_zero _)
  | fuel + 1, r, h => by
    rcases hrd : r.reader.read (headerLen r.blockSize + r.blockSize) with ⟨block, rd, eof⟩
    simp only [fetchLoop, hrd]
    split
    · cases eof
      · have hw : 0 < headerLen r.blockSize + r.blockSize := by
          have := two_le_headerLen r.blockSize; omega
        obtain ⟨hlt, hpos, hnext⟩ := ByteReader.read_progress hw (by rw [hrd])
        rw [hrd] at hpos hnext
        dsimp only at hpos hnext
        apply fetchLoop_isSome
        simp only [Reader.remaining] at h ⊢
        split <;> simp only [parse_reader, hnext] <;> omega
      · rfl
    · rfl

/-- `fetch` never runs out of fuel.
Source: src/blocks/reader.go `Reader.fetch`
Kind: L -/
theorem Reader.fetch_isSome (r : Reader) (length : Nat) : (r.fetch length).isSome :=
  fetchLoop_isSome length _ r (Nat.lt_succ_self _)

/-! ## Reading one block -/

/-- Modelled from the spec: the physical block of a payload `p` at block size `B` (§4.1):
its length as a `headerLen B`-byte little-endian header, `p`, then zero padding to width
`headerLen B + B`.
Kind: D -/
def frame (blockSize : Nat) (p : Bytes) : Bytes :=
  putUint (headerLen blockSize) p.length ++ p ++ List.replicate (blockSize - p.length) 0

/-- A header of width `headerLen B` holds every payload length up to a block size below `2^64`.
Source: spec §4.1
Kind: L -/
theorem lt_pow_headerLen {B : Nat} (h : B < 2 ^ 64) : B < 256 ^ headerLen B := by
  unfold headerLen; split_ifs <;> omega

/-- A block of a payload that fits is one physical width long.
Source: spec §4.1
Kind: L -/
theorem length_frame {B : Nat} {p : Bytes} (h : p.length ≤ B) :
    (frame B p).length = headerLen B + B := by
  simp only [frame, List.length_append, putUint_length, List.length_replicate]; omega

/-- The file from `pos` on starts with a block: the bytes after it start one width on.
Source: spec §4.1
Kind: L -/
theorem drop_frame {data : Bytes} {pos B : Nat} {q rest : Bytes} (hq : q.length ≤ B)
    (hd : data.drop pos = frame B q ++ rest) :
    data.drop (pos + (headerLen B + B)) = rest ∧ pos + (headerLen B + B) ≤ data.length := by
  have hl := congrArg List.length hd
  simp only [List.length_drop, List.length_append, length_frame hq] at hl
  have := two_le_headerLen B
  exact ⟨by rw [← List.drop_drop, hd, List.drop_left' (length_frame hq)], by omega⟩

/-- Reading one physical width where a block starts returns that block, with no `io.EOF`.
Source: Go `bytes.Reader.Read`
Kind: L -/
theorem ByteReader.read_frame {r : ByteReader} {B : Nat} {p rest : Bytes} (hp : p.length ≤ B)
    (h : r.data.drop r.pos = frame B p ++ rest) :
    r.read (headerLen B + B) = (frame B p, ⟨r.data, r.pos + (headerLen B + B)⟩, false) := by
  have hlen := length_frame hp
  have hpos : r.pos < r.data.length := by
    have := (drop_frame hp h).2
    have := two_le_headerLen B; omega
  unfold ByteReader.read
  rw [if_neg (by omega), h, List.take_left' hlen]
  simp only [hlen]

/-- `parse` of a whole block in `scratch` buffers its payload and leaves its padding.
Source: src/blocks/reader.go `Reader.parse`, `Reader.parseHeader`
Kind: L -/
theorem Reader.parse_frame (buffer : Bytes) (reader : ByteReader) {B : Nat} {p : Bytes}
    (hp : p.length ≤ B) (hB : B < 2 ^ 64) :
    (Reader.mk buffer (frame B p) reader B).parse =
      ⟨buffer ++ p, List.replicate (B - p.length) 0, reader, B⟩ := by
  have hw : p.length % 256 ^ headerLen B = p.length :=
    Nat.mod_eq_of_lt (Nat.lt_of_le_of_lt hp (lt_pow_headerLen hB))
  simp only [parse, parseHeader, frame, List.append_assoc,
    List.take_left' (putUint_length _ _), List.drop_left' (putUint_length _ _), putUint_length,
    Nat.sub_self, List.replicate_zero, List.append_nil]
  rw [← List.append_nil (putUint _ _), readUint_putUint, hw]
  simp

/-- One round of `fetch` with nothing in `scratch` and a block ahead: the block's payload is
buffered, its padding stays in `scratch`, and the file position moves one width on.
Source: src/blocks/reader.go `Reader.fetch`
Kind: L -/
theorem fetchLoop_frame {length fuel : Nat} {r : Reader} {q rest : Bytes}
    (hB : 0 < r.blockSize) (hB' : r.blockSize < 2 ^ 64) (hq : q.length ≤ r.blockSize)
    (hs : r.scratch = []) (hd : r.reader.data.drop r.reader.pos = frame r.blockSize q ++ rest)
    (hlen : r.buffer.length < length) :
    fetchLoop length (fuel + 1) r = fetchLoop length fuel
      { r with buffer := r.buffer ++ q, scratch := List.replicate (r.blockSize - q.length) 0,
               reader := ⟨r.reader.data, r.reader.pos + (headerLen r.blockSize + r.blockSize)⟩ } := by
  have hw := length_frame hq
  simp only [fetchLoop, if_pos hlen, ByteReader.read_frame hq hd, hs, List.nil_append, hw,
    if_pos (show headerLen r.blockSize < headerLen r.blockSize + r.blockSize by omega),
    Reader.parse_frame _ _ hq hB', Bool.false_eq_true, if_false]

/-! ## Full blocks are read as the payload stream -/

/-- What a reader still has to deliver from the file, `X`: nothing is held in `scratch` and the
file from the read position is blocks at the reader's block size, all full but the last, whose
payloads make `X`; or the file is read to its end and `X` is empty.
Source: spec §4.1
Kind: D -/
def Pending (r : Reader) (X : Bytes) : Prop :=
  (r.scratch = [] ∧ ∃ (ps : List Bytes) (p : Bytes), (∀ q ∈ ps, q.length = r.blockSize) ∧
    p.length ≤ r.blockSize ∧
    r.reader.data.drop r.reader.pos = (ps.map (frame r.blockSize)).flatten ++ frame r.blockSize p ∧
    X = ps.flatten ++ p) ∨
  (r.reader.data.length ≤ r.reader.pos ∧ X = [])

/-- `fetch(length)` on a reader with `X` pending returns a reader that holds the same bytes
(buffered, then pending), and has buffered at least `length` bytes or everything.
Source: src/blocks/reader.go `Reader.fetch`
Kind: L -/
theorem fetchLoop_pending (length : Nat) : ∀ (fuel : Nat) (r : Reader) (X : Bytes),
    0 < r.blockSize → r.blockSize < 2 ^ 64 → Pending r X → r.remaining < fuel →
    ∃ r' X', fetchLoop length fuel r = some r' ∧ r'.blockSize = r.blockSize ∧ Pending r' X' ∧
      r'.buffer ++ X' = r.buffer ++ X ∧ (length ≤ r'.buffer.length ∨ X' = [])
  | 0, _, _, _, _, _, h => absurd h (Nat.not_lt_zero _)
  | fuel + 1, r, X, hB, hB', hX, hf => by
    by_cases hlen : r.buffer.length < length
    swap
    · exact ⟨r, X, by simp [fetchLoop, hlen], rfl, hX, rfl, .inl (by omega)⟩
    have hw := two_le_headerLen r.blockSize
    unfold Reader.remaining at hf
    rcases hX with ⟨hs, ps, p, hps, hp, hd, rfl⟩ | ⟨hend, rfl⟩
    · cases ps with
      | nil =>
        -- the last block: its padding stays in scratch and the file is at its end
        rw [List.map_nil, List.flatten_nil, List.nil_append, ← List.append_nil (frame _ p)] at hd
        obtain ⟨hrest, hle⟩ := drop_frame hp hd
        rw [fetchLoop_frame hB hB' hp hs hd hlen]
        obtain ⟨r', X', h1, h2, h3, h4, h5⟩ := fetchLoop_pending length fuel
          { r with buffer := r.buffer ++ p, scratch := List.replicate (r.blockSize - p.length) 0,
                   reader := ⟨r.reader.data, r.reader.pos + (headerLen r.blockSize + r.blockSize)⟩ }
          [] hB hB' (.inr ⟨List.drop_eq_nil_iff.mp hrest, rfl⟩)
          (show r.reader.data.length - (r.reader.pos + (headerLen r.blockSize + r.blockSize)) < fuel
            by omega)
        exact ⟨r', X', h1, h2, h3, by rw [h4]; simp, h5⟩
      | cons q ps =>
        -- a full block: nothing is left in scratch
        have hq := hps q (List.mem_cons_self q ps)
        rw [List.map_cons, List.flatten_cons, List.append_assoc] at hd
        obtain ⟨hrest, hle⟩ := drop_frame (Nat.le_of_eq hq) hd
        rw [fetchLoop_frame hB hB' (Nat.le_of_eq hq) hs hd hlen, hq, Nat.sub_self,
          List.replicate_zero]
        obtain ⟨r', X', h1, h2, h3, h4, h5⟩ := fetchLoop_pending length fuel
          { r with buffer := r.buffer ++ q, scratch := [],
                   reader := ⟨r.reader.data, r.reader.pos + (headerLen r.blockSize + r.blockSize)⟩ }
          (ps.flatten ++ p) hB hB'
          (.inl ⟨rfl, ps, p, fun q' h => hps q' (List.mem_cons_of_mem _ h), hp, hrest, rfl⟩)
          (show r.reader.data.length - (r.reader.pos + (headerLen r.blockSize + r.blockSize)) < fuel
            by omega)
        exact ⟨r', X', h1, h2, h3, by rw [h4]; simp, h5⟩
    · refine ⟨{ r with scratch := r.scratch ++ [] }, [], ?_, rfl, .inr ⟨hend, rfl⟩, rfl, .inr rfl⟩
      simp [fetchLoop, hlen, ByteReader.read, hend]

/-- `bytes.Buffer.Read` is `take` and `drop`, with `io.EOF` on an empty buffer and `n > 0`.
Source: Go `bytes.Buffer.Read`
Kind: L -/
theorem bufferRead_eq (s : Bytes) (n : Nat) :
    bufferRead s n = (s.take n, s.drop n, decide (s = [] ∧ 0 < n)) := by
  unfold bufferRead; split <;> simp_all

/-- One `Read(n)` on a reader holding `s` (buffered, then pending) does what a
`bytes.Buffer` holding `s` does: the same bytes, the same error, and a reader holding the rest.
Source: src/blocks/reader.go `Reader.Read`
Kind: L -/
theorem Reader.read_pending {r : Reader} {X : Bytes} (hB : 0 < r.blockSize)
    (hB' : r.blockSize < 2 ^ 64) (hX : Pending r X) (n : Nat) :
    ∃ r' X', r.read n = some ((bufferRead (r.buffer ++ X) n).1,
        (if (bufferRead (r.buffer ++ X) n).2.2 then some .eof else none), r') ∧
      r'.blockSize = r.blockSize ∧ Pending r' X' ∧
      r'.buffer ++ X' = (bufferRead (r.buffer ++ X) n).2.1 := by
  obtain ⟨r₁, X₁, h1, h2, h3, h4, h5⟩ := fetchLoop_pending n _ r X hB hB' hX (Nat.lt_succ_self _)
  have ht : (r₁.buffer ++ X₁).take n = r₁.buffer.take n := by
    rcases h5 with h | rfl
    · exact List.take_append_of_le_length h
    · rw [List.append_nil]
  have hd : (r₁.buffer ++ X₁).drop n = r₁.buffer.drop n ++ X₁ := by
    rcases h5 with h | rfl
    · exact List.drop_append_of_le_length h
    · rw [List.append_nil, List.append_nil]
  have he : (r₁.buffer ++ X₁ = [] ∧ 0 < n) ↔ (r₁.buffer = [] ∧ 0 < n) := by
    rw [List.append_eq_nil]
    constructor
    · exact fun h => ⟨h.1.1, h.2⟩
    · rintro ⟨hb, hn⟩
      rw [hb] at h5
      exact ⟨⟨hb, h5.resolve_left (by simp; omega)⟩, hn⟩
  refine ⟨{ r₁ with buffer := r₁.buffer.drop n }, X₁, ?_, h2, h3, ?_⟩
  · simp only [Reader.read, Reader.fetch, h1, Option.map_some', bufferRead_eq, ← h4, ht, he]
  · simp only [bufferRead_eq, ← h4, hd]

/-- `ReadByte()` on a reader holding `s` returns the first byte of `s` (0 and `io.EOF` when `s`
is empty) and a reader holding the rest.
Source: src/blocks/reader.go `Reader.ReadByte`
Kind: L -/
theorem Reader.readByte_pending {r : Reader} {X : Bytes} (hB : 0 < r.blockSize)
    (hB' : r.blockSize < 2 ^ 64) (hX : Pending r X) :
    ∃ r' X', r.readByte = some ((r.buffer ++ X).headD 0,
        (if r.buffer ++ X = [] then some .eof else none), r') ∧
      r'.blockSize = r.blockSize ∧ Pending r' X' ∧ r'.buffer ++ X' = (r.buffer ++ X).drop 1 := by
  obtain ⟨r', X', h1, h2, h3, h4⟩ := Reader.read_pending hB hB' hX 1
  refine ⟨r', X', ?_, h2, h3, by rw [h4, bufferRead_eq]⟩
  simp only [Reader.readByte, h1, Option.map_some', bufferRead_eq]
  cases r.buffer ++ X <;> rfl

/-- Over a whole run of `Read`s, a reader holding `s` returns what a `bytes.Buffer` holding `s`
returns.
Source: src/blocks/reader.go `Reader.Read`
Kind: L -/
theorem Reader.reads_pending : ∀ (ns : List Nat) (r : Reader) (X : Bytes), 0 < r.blockSize →
    r.blockSize < 2 ^ 64 → Pending r X → r.reads ns = some (bufferReads (r.buffer ++ X) ns)
  | [], _, _, _, _, _ => rfl
  | n :: ns, r, X, hB, hB', hX => by
    obtain ⟨r', X', h1, h2, h3, h4⟩ := Reader.read_pending hB hB' hX n
    rw [Reader.reads, h1, Option.some_bind, bufferReads, ← h4]
    exact congrArg (Option.map _) (Reader.reads_pending ns r' X' (h2 ▸ hB) (h2 ▸ hB') h3)

/-- A block file whose blocks are all full but the last is read as the concatenation of its
payloads: from `NewByteReader`, any run of `Read`s returns what the same `Read`s on a
`bytes.Buffer` holding the payloads return, `io.EOF` only once they are used up.
Source: src/blocks/reader.go `NewByteReader`, `Reader.Read`, `Reader.fetch`, `Reader.parse`
Kind: P -/
theorem blocks_read_as_payload_stream {B : Nat} (hB : 0 < B) (hB' : B < 2 ^ 64)
    {ps : List Bytes} {p : Bytes} (hps : ∀ q ∈ ps, q.length = B) (hp : p.length ≤ B)
    (ns : List Nat) :
    (newByteReader ((ps.map (frame B)).flatten ++ frame B p) B).reads ns =
      some (bufferReads (ps.flatten ++ p) ns) :=
  Reader.reads_pending ns _ _ hB hB' (.inl ⟨rfl, ps, p, hps, hp, rfl, rfl⟩)

/-- Block size 2, a full block `[1, 2]` and a last block `[3]`, read 1, 5 and 1 bytes at a time.
Kind: P -/
theorem blocks_read_as_payload_stream_two_blocks :
    0 < 2 ∧ 2 < 2 ^ 64 ∧ (∀ q ∈ [[1, 2]], List.length q = 2) ∧ [3].length ≤ 2 ∧
      (newByteReader (([[1, 2]].map (frame 2)).flatten ++ frame 2 [3]) 2).reads [1, 5, 1] =
        some (bufferReads ([[1, 2]].flatten ++ [3]) [1, 5, 1]) :=
  ⟨by decide, by decide, by decide, by decide,
    blocks_read_as_payload_stream (by decide) (by decide) (by decide) (by decide) _⟩

example : bufferReads [1, 2, 3] [1, 5, 1] = [([1], none), ([2, 3], none), ([], some .eof)] := by
  decide

/-! ## The reader as a byte stream -/

/-- A reader presents the byte stream `s`: its block size is positive and fits the header, and
it holds `s`, buffered then pending. Clients such as the event decoder are stated over this.
Source: spec §4.1
Kind: D -/
def Presents (r : Reader) (s : Bytes) : Prop :=
  0 < r.blockSize ∧ r.blockSize < 2 ^ 64 ∧ ∃ X, Pending r X ∧ r.buffer ++ X = s

/-- A fresh reader over blocks all full but the last presents their payloads.
Source: src/blocks/reader.go `NewByteReader`
Kind: L -/
theorem presents_newByteReader {B : Nat} (hB : 0 < B) (hB' : B < 2 ^ 64) {ps : List Bytes}
    {p : Bytes} (hps : ∀ q ∈ ps, q.length = B) (hp : p.length ≤ B) :
    Presents (newByteReader ((ps.map (frame B)).flatten ++ frame B p) B) (ps.flatten ++ p) :=
  ⟨hB, hB', _, .inl ⟨rfl, ps, p, hps, hp, rfl, rfl⟩, rfl⟩

/-- `Read(n)` on a reader presenting `s` returns the first `n` bytes of `s`, `io.EOF` when `s`
is empty (and `n > 0`), and a reader presenting the rest.
Source: src/blocks/reader.go `Reader.Read`
Kind: L -/
theorem Presents.read {r : Reader} {s : Bytes} (h : Presents r s) (n : Nat) :
    ∃ r', r.read n = some (s.take n, (if s = [] ∧ 0 < n then some .eof else none), r') ∧
      Presents r' (s.drop n) := by
  obtain ⟨hB, hB', X, hX, rfl⟩ := h
  obtain ⟨r', X', h1, h2, h3, h4⟩ := Reader.read_pending hB hB' hX n
  simp only [bufferRead_eq, decide_eq_true_eq] at h1 h4
  exact ⟨r', h1, h2 ▸ hB, h2 ▸ hB', X', h3, h4⟩

/-- `ReadByte()` on a reader presenting `s` returns the first byte of `s` (0 and `io.EOF` when
`s` is empty) and a reader presenting the rest.
Source: src/blocks/reader.go `Reader.ReadByte`
Kind: L -/
theorem Presents.readByte {r : Reader} {s : Bytes} (h : Presents r s) :
    ∃ r', r.readByte = some (s.headD 0, (if s = [] then some .eof else none), r') ∧
      Presents r' (s.drop 1) := by
  obtain ⟨r', h1, h2⟩ := h.read 1
  refine ⟨r', ?_, h2⟩
  simp only [Reader.readByte, h1, Option.map_some']
  cases s <;> rfl

/-- `Peek(n)` on a reader presenting `s` returns the first `n` bytes of `s` when `s` has that
many (`none` for the slice past the buffered bytes otherwise) and a reader presenting all of `s`.
Source: src/blocks/reader.go `Reader.Peek`
Kind: L -/
theorem Presents.peek {r : Reader} {s : Bytes} (h : Presents r s) (n : Nat) :
    ∃ r', r.peek n = some ((if n ≤ s.length then some (s.take n) else none), r') ∧
      Presents r' s := by
  obtain ⟨hB, hB', X, hX, rfl⟩ := h
  obtain ⟨r₁, X₁, h1, h2, h3, h4, h5⟩ := fetchLoop_pending n _ r X hB hB' hX (Nat.lt_succ_self _)
  refine ⟨r₁, ?_, h2 ▸ hB, h2 ▸ hB', X₁, h3, h4⟩
  simp only [Reader.peek, Reader.fetch, h1, Option.map_some', ← h4]
  rcases h5 with hn | rfl
  · have : n ≤ (r₁.buffer ++ X₁).length := by rw [List.length_append]; omega
    rw [if_pos hn, if_pos this, List.take_append_of_le_length hn]
  · rw [List.append_nil]

/-- `Peek` consumes nothing: on a reader presenting `s`, `Peek(n)` returns the first `n` bytes
of `s` when there are that many, and every `Read(m)` after it returns the bytes and error the
same `Read(m)` returns without the `Peek`.
Source: src/blocks/reader.go `Reader.Peek`, `Reader.Read`, `Reader.fetch`
Kind: P -/
theorem peek_consumes_nothing {r : Reader} {s : Bytes} (h : Presents r s) (n : Nat) :
    ∃ r', r.peek n = some ((if n ≤ s.length then some (s.take n) else none), r') ∧
      ∀ m, (r'.read m).map (fun x => (x.1, x.2.1)) = (r.read m).map (fun x => (x.1, x.2.1)) := by
  obtain ⟨r', h1, h2⟩ := h.peek n
  refine ⟨r', h1, fun m => ?_⟩
  obtain ⟨_, ha, -⟩ := h2.read m
  obtain ⟨_, hb, -⟩ := h.read m
  rw [ha, hb]; rfl

/-- A fresh reader over a full block `[1, 2]` and a last block `[3]`: `Peek(2)` returns `[1, 2]`
and consumes nothing.
Kind: P -/
theorem peek_consumes_nothing_fresh :
    Presents (newByteReader (([[1, 2]].map (frame 2)).flatten ++ frame 2 [3]) 2) [1, 2, 3] ∧
      ∃ r', (newByteReader (([[1, 2]].map (frame 2)).flatten ++ frame 2 [3]) 2).peek 2 =
          some ((if 2 ≤ [1, 2, 3].length then some ([1, 2, 3].take 2) else none), r') ∧
        ∀ m, (r'.read m).map (fun x => (x.1, x.2.1)) =
          ((newByteReader (([[1, 2]].map (frame 2)).flatten ++ frame 2 [3]) 2).read m).map
            (fun x => (x.1, x.2.1)) :=
  have h := @presents_newByteReader 2 (by decide) (by decide) [[1, 2]] [3] (by decide)
    (by decide)
  ⟨h, peek_consumes_nothing h 2⟩

/-! ## Random access: `Seek` and `ReadBlock` -/

/-- Dropping `k` physical widths from blocks whose first `k` are full leaves the blocks from the
`k`-th on.
Source: spec §4.1
Kind: L -/
theorem drop_frames {B : Nat} {p : Bytes} : ∀ {ps : List Bytes} {k : Nat},
    (∀ q ∈ ps, q.length = B) → k ≤ ps.length →
    ((ps.map (frame B)).flatten ++ frame B p).drop (k * (headerLen B + B)) =
      ((ps.drop k).map (frame B)).flatten ++ frame B p
  | _, 0, _, _ => by simp
  | [], _ + 1, _, hk => absurd hk (by simp)
  | q :: ps, k + 1, hps, hk => by
    have hq := length_frame (Nat.le_of_eq (hps q (List.mem_cons_self q ps)))
    rw [Nat.succ_mul, Nat.add_comm (k * _), ← List.drop_drop, List.map_cons, List.flatten_cons,
      List.append_assoc, List.drop_left' hq, List.drop_succ_cons]
    exact drop_frames (fun q' h => hps q' (List.mem_cons_of_mem _ h)) (Nat.le_of_succ_le_succ hk)

/-- `Seek(pos, 0)` to a position that is not negative empties both buffers and moves the file
position there.
Source: src/blocks/reader.go `Reader.Seek`
Kind: L -/
theorem Reader.seek_ofNat (r : Reader) (pos : Nat) :
    r.seek pos 0 =
      (.ok pos, { r with buffer := [], scratch := [], reader := ⟨r.reader.data, pos⟩ }) := by
  simp [Reader.seek, show ¬(pos : Int) < 0 by omega]

/-- Random access: on any reader over a file of blocks all full but the last, whatever it has
read or buffered, `ReadBlock` at the start of the `k`-th block returns the `k`-th payload,
`io.EOF` only for an empty last block, and leaves a reader presenting the payloads of the blocks
after it.
Source: src/blocks/reader.go `Reader.ReadBlock`, `Reader.Seek`, `Reader.Read`, `Reader.fetch`
Kind: P -/
theorem readBlock_frames {B : Nat} (hB : 0 < B) (hB' : B < 2 ^ 64) {ps : List Bytes}
    {p : Bytes} (hps : ∀ q ∈ ps, q.length = B) (hp : p.length ≤ B) {r : Reader}
    (hr : r.reader.data = (ps.map (frame B)).flatten ++ frame B p) (hrB : r.blockSize = B)
    {k : Nat} (hk : k ≤ ps.length) :
    ∃ r', r.readBlock ((k * (headerLen B + B) : Nat) : Int) =
        some ((ps ++ [p]).getD k [], (if k = ps.length ∧ p = [] then some .eof else none), r') ∧
      Presents r' ((ps ++ [p]).drop (k + 1)).flatten := by
  subst hrB
  have hpres : Presents (r.seek ((k * (headerLen r.blockSize + r.blockSize) : Nat) : Int) 0).2
      ((ps.drop k).flatten ++ p) := by
    rw [Reader.seek_ofNat]
    exact ⟨hB, hB', _, .inl ⟨rfl, ps.drop k, p, fun q hq => hps q (List.mem_of_mem_drop hq),
      hp, by rw [hr, drop_frames hps hk], rfl⟩, rfl⟩
  obtain ⟨r', h1, h2⟩ := hpres.read r.blockSize
  refine ⟨r', h1.trans ?_, ?_⟩ <;> rcases Nat.lt_or_eq_of_le hk with hlt | rfl
  · -- a full block
    have hq := hps _ (List.getElem_mem hlt)
    have hne : ps[k] ≠ [] := List.ne_nil_of_length_pos (by omega)
    rw [List.drop_eq_getElem_cons hlt, List.flatten_cons, List.append_assoc, List.take_left' hq]
    simp [List.getElem?_append_left hlt, List.getElem?_eq_getElem hlt, hne, Nat.ne_of_lt hlt]
  · -- the last block
    simp [List.take_of_length_le hp, hB]
  · rw [List.drop_eq_getElem_cons hlt, List.flatten_cons, List.append_assoc,
      List.drop_left' (hps _ (List.getElem_mem hlt))] at h2
    rw [List.drop_append_of_le_length (show k + 1 ≤ ps.length from hlt)]
    simpa using h2
  · simpa [List.drop_of_length_le hp] using h2

/-- Block size 2, full blocks `[1, 2]` and `[3, 4]`, last block `[5]`: `ReadBlock` at the second
block's offset 4 (each block is a 2-byte header and 2 payload bytes), from a fresh reader,
returns `[3, 4]`.
Kind: P -/
theorem readBlock_frames_second_block :
    0 < 2 ∧ 2 < 2 ^ 64 ∧ (∀ q ∈ ([[1, 2], [3, 4]] : List Bytes), q.length = 2) ∧
      ([5] : Bytes).length ≤ 2 ∧ 1 ≤ ([[1, 2], [3, 4]] : List Bytes).length ∧
      ∃ r', (newByteReader ((([[1, 2], [3, 4]] : List Bytes).map (frame 2)).flatten ++
            frame 2 [5]) 2).readBlock ((1 * (headerLen 2 + 2) : Nat) : Int) =
          some ((([[1, 2], [3, 4]] : List Bytes) ++ [[5]]).getD 1 [],
            (if 1 = ([[1, 2], [3, 4]] : List Bytes).length ∧ ([5] : Bytes) = [] then some .eof
              else none), r') ∧
        Presents r' ((([[1, 2], [3, 4]] : List Bytes) ++ [[5]]).drop (1 + 1)).flatten :=
  ⟨by decide, by decide, by decide, by decide, by decide,
    readBlock_frames (by decide) (by decide) (by decide) (by decide) rfl rfl (by decide)⟩

/-! ## Padding is parsed as a header -/

/-- Block size 2 (2-byte headers, width 4) with payloads `[1]` and `[2]`, each padded by one
zero: the image is `[1,0,1,0, 1,0,2,0]`. A `Read` of 2 bytes on a fresh reader returns
`[1, 0]` (the second byte is the first block's padding and the second header's first byte,
parsed as the header `[0, 1]` = 256), and a `Read` of 10 bytes returns `[1, 0, 2, 0]` and then
`io.EOF`, where the payload stream is `[1, 2]`.
Source: src/blocks/reader.go `Reader.fetch`, `Reader.parse`
Kind: P -/
theorem reader_reads_padding_as_header :
    frame 2 [1] ++ frame 2 [2] = [1, 0, 1, 0, 1, 0, 2, 0] ∧
      ((newByteReader (frame 2 [1] ++ frame 2 [2]) 2).read 2).map (fun r => (r.1, r.2.1)) =
        some ([1, 0], none) ∧
      ((newByteReader (frame 2 [1] ++ frame 2 [2]) 2).read 10).map
        (fun r => (r.1, r.2.1, (r.2.2.read 10).map fun r' => (r'.1, r'.2.1))) =
        some ([1, 0, 2, 0], none, some ([], some .eof)) := by
  decide

end Esdb.Blocks
