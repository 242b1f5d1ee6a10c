import Esdb.Blocks.Reader

/-!
# Events of the `esdb` package (`src/cmd/esdb-reader.go`, package `esdb`)

The `esdb` package keeps events in the blocks of a `blocks.Reader`, each one encoded as the
source's comment says, `[Uvarint:length][int32:timestamp][bytes(length):data]`.

* `Event`, `Event.push` — an event and its encoding; `push` also sets `Data` to nil.
* `readUvarint`, `readInt32`, `readBytes` — the read helpers `pullEvent` calls. The file that
  defines them is absent from `src/`, so they are modelled from the format comment, §6 of the
  spec (little-endian throughout) and the Go library calls they stand for: `binary.ReadUvarint`
  over `ReadByte` (`uvarintRead`), `binary.Read` of an `int32` over `io.ReadFull`
  (`readAtLeastLoop`), and one `Read` into a buffer of the length.
* `pullEvent`, `pullEvents` — decode one event, returning nil when the data read is empty; and
  `pullEvent` called again and again.

Over a reader that presents a byte stream (`Esdb.Blocks.Presents`):

* `uvarintRead_putUvarint`, `readInt32_putInt32`, `readBytes_append` — each helper reads back
  what the encoder wrote and leaves the reader at the bytes after it.
* `pullEvent_push` — so `pullEvent` on an encoded event returns the event, except that an event
  with empty `Data` comes back as nil: its encoding `[0][timestamp]` reads as the end of the
  events. `pullEvent_nil` — at the end of the stream, nil.
* `pullEvents_push` — events with data are all read back, in order, and then only nil.
* `pullEvents_empty_event_hides_rest` — an event with empty data, pushed before another, is
  read as nil while the other is still in the stream.
-/

namespace Esdb.Events

open Esdb.Binary (Bytes putUvarint putInt32 putUint readUint putUvarint_eq putUvarint_of_lt)
open Esdb.Blocks

/-- `Event`: its payload and timestamp. The fields `block` and `offset`, which nothing modelled
here reads or sets, are left out.
Source: src/cmd/esdb-reader.go `Event`
Kind: D -/
structure Event where
  /-- The payload. -/
  Data : Bytes
  /-- The timestamp, a Go `int`. -/
  Timestamp : Int
deriving DecidableEq, Repr

/-- `push(out)`: write `len(Data)` as a uvarint, the timestamp as an `int32`, then the data, and
set `Data` to nil. The bytes written and the event after the call.
Source: src/cmd/esdb-reader.go `Event.push`
Kind: D -/
def Event.push (e : Event) : Bytes × Event :=
  (putUvarint e.Data.length ++ putInt32 e.Timestamp ++ e.Data, { e with Data := [] })

/-- The loop of `binary.ReadUvarint` over `ReadByte`, with `rounds` of its ten rounds
(`MaxVarintLen64`) left, the value `x` so far and the shift `s`. A read error returns `x`; a
byte below `0x80` ends the number, or-ed in at the shift, unless it is the tenth and above 1
(overflow: `x` is returned); any other byte has its low seven bits or-ed in and the loop goes
on. After ten rounds, overflow: `x` is returned. The error itself is dropped by the caller.
`none` is a `ReadByte` that does not return.
Source: Go `encoding/binary.ReadUvarint`
Kind: D -/
def uvarintRead : Nat → Nat → Nat → Reader → Option (Nat × Reader)
  | 0, x, _, r => some (x, r)
  | rounds + 1, x, s, r => r.readByte.bind fun (b, err, r) =>
    if err.isSome then some (x, r)
    else if b.toNat < 128 then
      if rounds = 0 ∧ 1 < b.toNat then some (x, r)
      else some (x ||| (b.toNat <<< s) % 2 ^ 64, r)
    else uvarintRead rounds (x ||| ((b.toNat % 128) <<< s) % 2 ^ 64) (s + 7) r

/-- Modelled from the spec: the `esdb` package's `readUvarint(r)`, absent from `src/`:
`binary.ReadUvarint(r)` with its error dropped.
Kind: D -/
def readUvarint (r : Reader) : Option (Nat × Reader) := uvarintRead 10 0 0 r

/-- The loop of `io.ReadAtLeast(r, buf, want)` having read `got`: while fewer than `want` bytes
are in and no error came, `Read` into the rest of the buffer; then the bytes if `want` are in,
`none` if not (`io.ErrUnexpectedEOF` or `io.EOF`). `none` outside when the fuel runs out.
Source: Go `io.ReadAtLeast`
Kind: D -/
def readAtLeastLoop (want : Nat) : Nat → Bytes → Reader → Option (Option Bytes × Reader)
  | 0, _, _ => none
  | fuel + 1, got, r =>
    if want ≤ got.length then some (some got, r)
    else (r.read (want - got.length)).bind fun (bs, err, r) =>
      if err.isSome then some (if want ≤ (got ++ bs).length then some (got ++ bs) else none, r)
      else readAtLeastLoop want fuel (got ++ bs) r

/-- `io.ReadFull(r, buf)` with `len(buf) = n`, run with fuel `n + 1`: on the block reader a
`Read` that returns no error returns a byte or more (`readAtLeastLoop_presents`).
Source: Go `io.ReadFull`
Kind: D -/
def readFull (r : Reader) (n : Nat) : Option (Option Bytes × Reader) :=
  readAtLeastLoop n (n + 1) [] r

/-- A 32-bit two's complement pattern as an integer: Go's `int(int32(u))`.
Source: Go `int32`
Kind: D -/
def toInt32 (u : Nat) : Int := if u < 2 ^ 31 then u else (u : Int) - 2 ^ 32

/-- Modelled from the spec: the `esdb` package's `readInt32(r)`, absent from `src/`:
`binary.Read` of a little-endian `int32` (§6), which reads four bytes with `io.ReadFull` and
leaves the value at 0 when they are not all there.
Kind: D -/
def readInt32 (r : Reader) : Option (Int × Reader) :=
  (readFull r 4).map fun (bs, r) => (toInt32 (((bs.bind (readUint 4)).map Prod.fst).getD 0), r)

/-- Modelled from the spec: the `esdb` package's `readBytes(r, size)`, absent from `src/`: one
`Read` into a new buffer of `size` bytes, returned whole (bytes not read stay 0). A size past
the `int` range converts to a negative length and `make` panics: `none`.
Kind: D -/
def readBytes (r : Reader) (size : Nat) : Option (Bytes × Reader) :=
  if 2 ^ 63 ≤ size then none
  else (r.read size).map fun (bs, _, r) => (bs ++ List.replicate (size - bs.length) 0, r)

/-- `pullEvent(r)`: read the size, the timestamp and `size` bytes of data; an event when the
data is not empty, nil (`none`) otherwise.
Source: src/cmd/esdb-reader.go `pullEvent`
Kind: D -/
def pullEvent (r : Reader) : Option (Option Event × Reader) := do
  let (size, r) ← readUvarint r
  let (timestamp, r) ← readInt32 r
  let (data, r) ← readBytes r size
  return (if 0 < data.length then some ⟨data, timestamp⟩ else none, r)

/-- `pullEvent` called `n` times on one reader: what each call returned, and the reader after.
Source: src/cmd/esdb-reader.go `pullEvent`
Kind: D -/
def pullEvents : Nat → Reader → Option (List (Option Event) × Reader)
  | 0, r => some ([], r)
  | n + 1, r => (pullEvent r).bind fun (e, r) => (pullEvents n r).map fun (es, r) => (e :: es, r)

/-! ## The read helpers on a presented stream -/

/-- Or-ing `c` shifted by `s` into `x < 2^s`, in 64 bits, adds `c * 2^s` when the sum fits.
Source: Go `encoding/binary.ReadUvarint`
Kind: L -/
theorem or_shiftLeft_mod {x c s : Nat} (hx : x < 2 ^ s) (h : x + c * 2 ^ s < 2 ^ 64) :
    x ||| (c <<< s) % 2 ^ 64 = x + c * 2 ^ s := by
  rw [Nat.shiftLeft_eq, Nat.mod_eq_of_lt (by omega), Nat.or_comm, Nat.mul_comm,
    ← Nat.mul_add_lt_is_or hx, Nat.add_comm]

/-- `binary.ReadUvarint` reads back what `binary.PutUvarint` wrote, from any round whose shift
matches it (`s + 7 * rounds = 70`), when the value fits in 64 bits.
Source: Go `encoding/binary.ReadUvarint`
Kind: L -/
theorem uvarintRead_putUvarint : ∀ (rounds x s n : Nat) {r : Reader} {rest : Bytes},
    Presents r (putUvarint n ++ rest) → 0 < rounds → s + 7 * rounds = 70 → x < 2 ^ s →
    x + n * 2 ^ s < 2 ^ 64 →
    ∃ r', uvarintRead rounds x s r = some (x + n * 2 ^ s, r') ∧ Presents r' rest
  | 0, _, _, _, _, _, _, h, _, _, _ => absurd h (Nat.lt_irrefl 0)
  | rounds + 1, x, s, n, r, rest, hr, _, hs, hx, hn => by
    obtain ⟨r₁, h1, h2⟩ := hr.readByte
    by_cases hn128 : n < 128
    · -- the last byte
      rw [putUvarint_of_lt hn128] at h1 h2
      have hb : n.toUInt8.toNat = n := Nat.mod_eq_of_lt (by omega)
      have hover : ¬(rounds = 0 ∧ 1 < n) := by
        rintro ⟨rfl, h⟩
        obtain rfl : s = 63 := by omega
        omega
      refine ⟨r₁, ?_, h2⟩
      simp only [uvarintRead, h1, List.singleton_append, List.headD_cons, List.cons_ne_nil,
        if_false, Option.some_bind, Option.isSome_none, Bool.false_eq_true, hb, hn128, if_true,
        hover, or_shiftLeft_mod hx hn]
    · -- a byte with the continuation bit: seven bits, then the rest at shift `s + 7`
      rw [putUvarint_eq, if_neg hn128] at h1 h2
      have hb : (n % 128 + 128).toUInt8.toNat = n % 128 + 128 := Nat.mod_eq_of_lt (by omega)
      have hlow : n % 128 * 2 ^ s ≤ n * 2 ^ s := Nat.mul_le_mul_right _ (Nat.mod_le n 128)
      have hround : 0 < rounds := by
        refine Nat.pos_of_ne_zero fun h0 => ?_
        subst h0
        obtain rfl : s = 63 := by omega
        omega
      have hsplit : n * 2 ^ s = n % 128 * 2 ^ s + n / 128 * 2 ^ (s + 7) := by
        rw [Nat.pow_add, Nat.mul_comm (2 ^ s), ← Nat.mul_assoc, ← Nat.add_mul,
          (Nat.mod_add_div' n 128 : n % 128 + n / 128 * 2 ^ 7 = n)]
      have hx' : x + n % 128 * 2 ^ s < 2 ^ (s + 7) := by
        have : n % 128 * 2 ^ s ≤ 127 * 2 ^ s := Nat.mul_le_mul_right _ (by omega)
        rw [Nat.pow_add]
        omega
      obtain ⟨r', h3, h4⟩ := uvarintRead_putUvarint rounds (x + n % 128 * 2 ^ s) (s + 7)
        (n / 128) h2 hround (by omega) hx' (by omega)
      refine ⟨r', ?_, h4⟩
      simp only [uvarintRead, h1, List.cons_append, List.headD_cons, List.cons_ne_nil,
        if_false, Option.some_bind, Option.isSome_none, Bool.false_eq_true, hb,
        show ¬(n % 128 + 128 < 128) by omega, Nat.add_mod_right, Nat.mod_mod,
        or_shiftLeft_mod hx (Nat.lt_of_le_of_lt (Nat.add_le_add_left hlow x) hn), h3, hsplit,
        Nat.add_assoc]

/-- `binary.ReadUvarint` at the end of the stream: `ReadByte` fails and 0 comes back.
Source: Go `encoding/binary.ReadUvarint`
Kind: L -/
theorem readUvarint_nil {r : Reader} (hr : Presents r []) :
    ∃ r', readUvarint r = some (0, r') ∧ Presents r' [] := by
  obtain ⟨r₁, h1, h2⟩ := hr.readByte
  exact ⟨r₁, by rw [readUvarint, uvarintRead, h1]; rfl, h2⟩

/-- `readUvarint` reads back a uvarint of a number below `2^64` and leaves the bytes after it.
Source: src/cmd/esdb-reader.go `pullEvent`
Kind: L -/
theorem readUvarint_putUvarint {r : Reader} {n : Nat} {rest : Bytes}
    (hr : Presents r (putUvarint n ++ rest)) (hn : n < 2 ^ 64) :
    ∃ r', readUvarint r = some (n, r') ∧ Presents r' rest := by
  simpa using uvarintRead_putUvarint 10 0 0 n hr (by decide) rfl (by decide) (by simpa using hn)

/-- `io.ReadAtLeast` on a reader presenting `s`, having read `got`: it reads the `want -
got.length` bytes still wanted, or all of `s` and fails when `s` is shorter; the reader is left
at the bytes after what was read.
Source: Go `io.ReadAtLeast`
Kind: L -/
theorem readAtLeastLoop_presents (want : Nat) : ∀ (fuel : Nat) (got : Bytes) {r : Reader}
    {s : Bytes}, Presents r s → want - got.length < fuel →
    ∃ r', readAtLeastLoop want fuel got r =
        some ((if want - got.length ≤ s.length then some (got ++ s.take (want - got.length))
          else none), r') ∧ Presents r' (s.drop (want - got.length))
  | 0, _, _, _, _, h => absurd h (Nat.not_lt_zero _)
  | fuel + 1, got, r, s, hr, hf => by
    by_cases hw : want ≤ got.length
    · refine ⟨r, ?_, by rwa [Nat.sub_eq_zero_of_le hw]⟩
      simp [readAtLeastLoop, hw, Nat.sub_eq_zero_of_le hw]
    obtain ⟨r₁, h1, h2⟩ := hr.read (want - got.length)
    rcases s with _ | ⟨b, s⟩
    · -- nothing left: `io.EOF`
      refine ⟨r₁, ?_, h2⟩
      simp [readAtLeastLoop, hw, h1, Nat.sub_eq_zero_iff_le, show 0 < want - got.length by omega]
    -- a byte or more arrived: read on
    have hread : readAtLeastLoop want (fuel + 1) got r =
        readAtLeastLoop want fuel (got ++ (b :: s).take (want - got.length)) r₁ := by
      simp [readAtLeastLoop, hw, h1]
    rw [hread]
    by_cases hk : want - got.length ≤ (b :: s).length
    · have hz : want - (got ++ (b :: s).take (want - got.length)).length = 0 := by
        simp only [List.length_append, List.length_take, Nat.min_eq_left hk]
        omega
      obtain ⟨r', h3, h4⟩ := readAtLeastLoop_presents want fuel
        (got ++ (b :: s).take (want - got.length)) h2 (by omega)
      rw [hz] at h3 h4
      exact ⟨r', by rw [if_pos hk]; simpa using h3, h4⟩
    · have hlen : (b :: s).length ≤ want - got.length := by omega
      rw [List.take_of_length_le hlen]
      rw [List.drop_eq_nil_of_le hlen] at h2 ⊢
      obtain ⟨r', h3, h4⟩ := readAtLeastLoop_presents want fuel (got ++ b :: s) h2
        (by simp only [List.length_append, List.length_cons] at hlen ⊢; omega)
      refine ⟨r', ?_, by simpa using h4⟩
      have hshort : ¬want - (got ++ b :: s).length ≤ ([] : Bytes).length := by
        simp only [List.length_append, List.length_nil]
        omega
      rw [h3, if_neg hshort, if_neg hk]

/-- `io.ReadFull` of `n` bytes on a reader presenting `bs ++ rest` with `n` bytes in `bs`.
Source: Go `io.ReadFull`
Kind: L -/
theorem readFull_append {r : Reader} {bs rest : Bytes} (hr : Presents r (bs ++ rest)) :
    ∃ r', readFull r bs.length = some (some bs, r') ∧ Presents r' rest := by
  simpa using readAtLeastLoop_presents bs.length (bs.length + 1) [] hr (by simp)

/-- `io.ReadFull` of `n > 0` bytes at the end of the stream fails.
Source: Go `io.ReadFull`
Kind: L -/
theorem readFull_nil {r : Reader} (hr : Presents r []) {n : Nat} (hn : 0 < n) :
    ∃ r', readFull r n = some (none, r') ∧ Presents r' [] := by
  simpa [Nat.pos_iff_ne_zero.mp hn] using readAtLeastLoop_presents n (n + 1) [] hr (by simp)

/-- An `int32` written little-endian reads back as itself.
Source: Go `encoding/binary`
Kind: L -/
theorem toInt32_putInt32 {t : Int} (h1 : -2 ^ 31 ≤ t) (h2 : t < 2 ^ 31) :
    toInt32 ((t % 2 ^ 32).toNat % 256 ^ 4) = t := by
  unfold toInt32
  split_ifs <;> omega

/-- `readInt32` reads back an `int32` and leaves the bytes after it.
Source: src/cmd/esdb-reader.go `pullEvent`
Kind: L -/
theorem readInt32_putInt32 {r : Reader} {t : Int} {rest : Bytes}
    (hr : Presents r (putInt32 t ++ rest)) (h1 : -2 ^ 31 ≤ t) (h2 : t < 2 ^ 31) :
    ∃ r', readInt32 r = some (t, r') ∧ Presents r' rest := by
  obtain ⟨r', h3, h4⟩ := readFull_append hr
  refine ⟨r', ?_, h4⟩
  have hu := Esdb.Binary.readUint_putUint 4 (t % 2 ^ 32).toNat []
  rw [List.append_nil] at hu
  simp only [putInt32, Esdb.Binary.putUint_length] at h3
  simp only [readInt32, h3, Option.map_some', Option.some_bind, hu, Option.getD_some,
    toInt32_putInt32 h1 h2]

/-- `readInt32` at the end of the stream: 0.
Source: src/cmd/esdb-reader.go `pullEvent`
Kind: L -/
theorem readInt32_nil {r : Reader} (hr : Presents r []) :
    ∃ r', readInt32 r = some (0, r') ∧ Presents r' [] := by
  obtain ⟨r', h1, h2⟩ := readFull_nil hr (by decide : 0 < 4)
  exact ⟨r', by simp [readInt32, h1, toInt32], h2⟩

/-- `readBytes` of the length of `data` on a reader presenting `data ++ rest` returns `data`.
Source: src/cmd/esdb-reader.go `pullEvent`
Kind: L -/
theorem readBytes_append {r : Reader} {data rest : Bytes} (hr : Presents r (data ++ rest))
    (h : data.length < 2 ^ 63) :
    ∃ r', readBytes r data.length = some (data, r') ∧ Presents r' rest := by
  obtain ⟨r', h1, h2⟩ := hr.read data.length
  refine ⟨r', ?_, by simpa using h2⟩
  rw [readBytes, if_neg (Nat.not_le_of_lt h)]
  simp [h1]

/-! ## Decoding a run of events -/

/-- `pullEvent` on a reader presenting an encoded event and then `rest` returns the event, or
nil when its data is empty, and leaves a reader presenting `rest`.
Source: src/cmd/esdb-reader.go `Event.push`, `pullEvent`
Kind: L -/
theorem pullEvent_push {r : Reader} {e : Event} {rest : Bytes}
    (hr : Presents r (e.push.1 ++ rest)) (hd : e.Data.length < 2 ^ 63)
    (h1 : -2 ^ 31 ≤ e.Timestamp) (h2 : e.Timestamp < 2 ^ 31) :
    ∃ r', pullEvent r = some ((if e.Data = [] then none else some e), r') ∧
      Presents r' rest := by
  rw [Event.push, List.append_assoc, List.append_assoc] at hr
  obtain ⟨r₁, hu, hr₁⟩ := readUvarint_putUvarint hr (by omega)
  obtain ⟨r₂, ht, hr₂⟩ := readInt32_putInt32 hr₁ h1 h2
  obtain ⟨r₃, hb, hr₃⟩ := readBytes_append hr₂ hd
  refine ⟨r₃, ?_, hr₃⟩
  cases e
  simp [pullEvent, hu, ht, hb, List.length_pos, ite_not]

/-- `pullEvent` at the end of the stream returns nil and stays at the end.
Source: src/cmd/esdb-reader.go `pullEvent`
Kind: L -/
theorem pullEvent_nil {r : Reader} (hr : Presents r []) :
    ∃ r', pullEvent r = some (none, r') ∧ Presents r' [] := by
  obtain ⟨r₁, hu, hr₁⟩ := readUvarint_nil hr
  obtain ⟨r₂, ht, hr₂⟩ := readInt32_nil hr₁
  obtain ⟨r₃, hb, hr₃⟩ := @readBytes_append r₂ [] [] hr₂ (by decide)
  have hb' : readBytes r₂ 0 = some ([], r₃) := hb
  exact ⟨r₃, by simp [pullEvent, hu, ht, hb'], hr₃⟩

/-- At the end of the stream every call of `pullEvent` returns nil.
Source: src/cmd/esdb-reader.go `pullEvent`
Kind: L -/
theorem pullEvents_nil : ∀ (n : Nat) {r : Reader}, Presents r [] →
    ∃ r', pullEvents n r = some (List.replicate n none, r') ∧ Presents r' []
  | 0, r, hr => ⟨r, rfl, hr⟩
  | n + 1, _, hr => by
    obtain ⟨r₁, h1, hr₁⟩ := pullEvent_nil hr
    obtain ⟨r', h2, hr'⟩ := pullEvents_nil n hr₁
    exact ⟨r', by simp [pullEvents, h1, h2, List.replicate_succ], hr'⟩

/-- Events with data, of Go slice lengths and `int32` timestamps, pushed one after another and
read by a reader presenting the bytes: `pullEvent` called again and again returns each event in
order, and after them only nil.
Source: src/cmd/esdb-reader.go `Event.push`, `pullEvent`
Kind: P -/
theorem pullEvents_push : ∀ (es : List Event) (n : Nat) {r : Reader},
    Presents r (es.map fun e => e.push.1).flatten →
    (∀ e ∈ es, e.Data ≠ [] ∧ e.Data.length < 2 ^ 63 ∧ -2 ^ 31 ≤ e.Timestamp ∧
      e.Timestamp < 2 ^ 31) →
    ∃ r', pullEvents (es.length + n) r = some (es.map some ++ List.replicate n none, r')
  | [], n, _, hr, _ => by
    obtain ⟨r', h, -⟩ := pullEvents_nil n hr
    exact ⟨r', by simpa using h⟩
  | e :: es, n, _, hr, hes => by
    obtain ⟨hd, hl, h1, h2⟩ := hes e (List.mem_cons_self e es)
    rw [List.map_cons, List.flatten_cons] at hr
    obtain ⟨r₁, he, hr₁⟩ := pullEvent_push hr hl h1 h2
    obtain ⟨r', hrest⟩ :=
      pullEvents_push es n hr₁ fun e' h => hes e' (List.mem_cons_of_mem e h)
    refine ⟨r', ?_⟩
    rw [List.length_cons, Nat.add_right_comm, pullEvents, he, if_neg hd]
    simp [hrest]

/-- One event `(-9, [7])` in a block of size 16, read twice: the event, then nil.
Kind: P -/
theorem pullEvents_push_one_event :
    Presents (newByteReader (frame 16 ([(⟨[7], -9⟩ : Event)].map fun e => e.push.1).flatten) 16)
        ([(⟨[7], -9⟩ : Event)].map fun e => e.push.1).flatten ∧
      (∀ e ∈ [(⟨[7], -9⟩ : Event)], e.Data ≠ [] ∧ e.Data.length < 2 ^ 63 ∧
        -2 ^ 31 ≤ e.Timestamp ∧ e.Timestamp < 2 ^ 31) ∧
      ∃ r', pullEvents ([(⟨[7], -9⟩ : Event)].length + 1)
          (newByteReader (frame 16 ([(⟨[7], -9⟩ : Event)].map fun e => e.push.1).flatten) 16) =
        some ([(⟨[7], -9⟩ : Event)].map some ++ List.replicate 1 none, r') :=
  have hr : Presents
      (newByteReader (frame 16 ([(⟨[7], -9⟩ : Event)].map fun e => e.push.1).flatten) 16)
      ([(⟨[7], -9⟩ : Event)].map fun e => e.push.1).flatten :=
    @presents_newByteReader 16 (by decide) (by decide) [] _ (by simp) (by decide)
  have hes : ∀ e ∈ [(⟨[7], -9⟩ : Event)], e.Data ≠ [] ∧ e.Data.length < 2 ^ 63 ∧
      -2 ^ 31 ≤ e.Timestamp ∧ e.Timestamp < 2 ^ 31 := by decide
  ⟨hr, hes, pullEvents_push _ 1 hr hes⟩

/-- Two events, `(5, [])` and `(9, [7])`, pushed into one block of size 16 and read with
`pullEvent` three times: the first call returns nil while the second event is still in the
block, the second returns the second event, and `(5, [])` is never returned.
Source: src/cmd/esdb-reader.go `Event.push`, `pullEvent`
Kind: P -/
theorem pullEvents_empty_event_hides_rest :
    ((pullEvents 3 (newByteReader (frame 16 ((⟨[], 5⟩ : Event).push.1 ++
      (⟨[7], 9⟩ : Event).push.1)) 16)).map Prod.fst) =
      some [none, some ⟨[7], 9⟩, none] := by
  decide

end Esdb.Events
