import Mathlib.Data.List.Nodup
import Esdb.Binary
import Esdb.GoMap

/-!
# The stream file format

A stream file is `MAGIC_HEADER`, then one record per event, then (once closed) an int32 zero,
the SST of the chain heads, the SST's length and `MAGIC_FOOTER` (§6). The stream package's event
codec, its magic strings and the `sst` writer are not in `src/`; they are modelled here from the
spec, and everything proved about the store rests on two facts about them:

* `decodeEvent_push` — decoding an encoded event gives it back and consumes exactly its
  `Event.length` bytes, whatever follows it;
* `decodeEvent_take_push` — a proper prefix of an encoded event decodes to `eof`: a torn
  final record is never mistaken for an event.

`File` is the `io.ReadWriteSeeker` under a stream: its bytes and the one position that reads,
writes and seeks share (`File.write_of_eq` is a write at a position).
-/

namespace Esdb.Stream

open Esdb.Binary

/-! ## The file under a stream -/

/-- An `io.ReadWriteSeeker` on a regular file: its bytes and the position shared by every
read, write and seek.
Source: src/cluster/rotate_command.go `openStream.stream`
Kind: D -/
structure File where
  /-- The file's bytes. -/
  data : Bytes
  /-- The offset the next read or write starts at. -/
  pos : Nat
deriving DecidableEq, Repr

namespace File

/-- `Seek(off, 0)`.
Source: Go `io.Seeker`
Kind: D -/
def seek (f : File) (off : Nat) : File := { f with pos := off }

/-- `Write(bs)` at the position: overwrites what is there, extends the file past its end (a
write past the end leaves a zero-filled hole), and moves the position past what it wrote.
Source: Go `io.Writer` on `*os.File`
Kind: D -/
def write (f : File) (bs : Bytes) : File where
  data := f.data.take f.pos ++ List.replicate (f.pos - f.data.length) 0 ++ bs ++
    f.data.drop (f.pos + bs.length)
  pos := f.pos + bs.length

/-- `Read` of up to `n` bytes at the position (`binary.ReadBytes` reads this way too).
Source: Go `io.Reader` on `*os.File`
Kind: D -/
def read (f : File) (n : Nat) : Bytes × File :=
  let bs := (f.data.drop f.pos).take n
  (bs, { f with pos := f.pos + bs.length })

/-- A write at a position inside (or at the end of) the file replaces the bytes it covers.
Source: none: infrastructure
Kind: L -/
theorem write_of_eq {f : File} {pre post : Bytes} (h : f.data = pre ++ post)
    (hp : f.pos = pre.length) (bs : Bytes) :
    f.write bs = ⟨pre ++ bs ++ post.drop bs.length, pre.length + bs.length⟩ := by
  simp [write, h, hp, List.drop_append_eq_append_drop, List.drop_of_length_le]

/-- A write at the end of the file appends.
Source: none: infrastructure
Kind: L -/
theorem write_at_end {f : File} (hp : f.pos = f.data.length) (bs : Bytes) :
    f.write bs = ⟨f.data ++ bs, f.data.length + bs.length⟩ := by
  simpa using write_of_eq (List.append_nil f.data).symm hp bs

end File

/-! ## Magic strings -/

/-- Modelled from the spec: `MAGIC_HEADER`, absent from `src/`. §6 gives `"esdb\0stream"`; these
are its eleven bytes. Only its length enters the proofs (`MAGIC_HEADER_length`).
Kind: D -/
def magicHeader : Bytes := [101, 115, 100, 98, 0, 115, 116, 114, 101, 97, 109]

/-- Modelled from the spec: `MAGIC_FOOTER`, absent from `src/`. §6 calls it a fixed string and
gives no value; this one spells `"esdb\0footer"`.
Kind: D -/
def magicFooter : Bytes := [101, 115, 100, 98, 0, 102, 111, 111, 116, 101, 114]

@[simp] theorem magicHeader_length : magicHeader.length = 11 := rfl

/-! ## Events -/

/-- Modelled from the spec: the stream package's `Event`, absent from `src/`. An event is its
payload and its back-pointer map (§3): for each label it carries, the offset of the previous
event in the file that carried the same label, 0 if none.
Kind: D -/
structure Event where
  /-- The payload. -/
  data : Bytes
  /-- The back-pointer map `offsets`, label ↦ offset. -/
  offsets : GoMap Bytes Nat
deriving DecidableEq, Repr

/-- Modelled from the spec: `newEvent(data, offsets)`, absent from `src/`.
Kind: D -/
def newEvent (data : Bytes) (offsets : GoMap Bytes Nat) : Event := ⟨data, offsets⟩

/-- The back-pointer table: `(uvarint name-len, name, uvarint back-offset)` per entry (§6).
Source: spec §6 (stream package absent from `src/`)
Kind: D -/
def putOffsets : GoMap Bytes Nat → Bytes
  | [] => []
  | (name, off) :: m => putUvarint name.length ++ name ++ putUvarint off ++ putOffsets m

/-- Everything after an event's length prefix: the entry count, the table and the payload.
Source: spec §4.2 (stream package absent from `src/`)
Kind: D -/
def Event.body (e : Event) : Bytes :=
  putUvarint e.offsets.length ++ putOffsets e.offsets ++ e.data

/-- Modelled from the spec: `Event.push`, absent from `src/`: `uvarint length` of the rest, then
the rest (§4.2, §6).
Kind: D -/
def Event.push (e : Event) : Bytes := putUvarint e.body.length ++ e.body

/-- Modelled from the spec: `Event.length()`, the record's logical byte length,
`length-prefix-width + length` (§4.2).
Kind: D -/
def Event.length (e : Event) : Nat := e.push.length

/-- The table's entries, read into a map as a Go decoding loop does (`offsets[name] = off`).
Source: spec §4.2 (stream package absent from `src/`)
Kind: D -/
def readOffsets : Nat → GoMap Bytes Nat → Bytes → Option (GoMap Bytes Nat × Bytes)
  | 0, acc, bs => some (acc, bs)
  | n + 1, acc, bs =>
    match readUvarint bs with
    | none => none
    | some (len, bs) =>
      if len ≤ bs.length then
        match readUvarint (bs.drop len) with
        | none => none
        | some (off, bs') => readOffsets n (acc.set (bs.take len) off) bs'
      else none

/-- An event from its body; `none` when the table does not parse.
Source: spec §4.2 (stream package absent from `src/`)
Kind: D -/
def parseBody (body : Bytes) : Option Event :=
  match readUvarint body with
  | none => none
  | some (n, bs) => (readOffsets n [] bs).map fun (m, data) => ⟨data, m⟩

/-- The errors `pullEvent` reports: `io.EOF` and `CORRUPTED_EVENT`.
Source: spec §7
Kind: D -/
inductive PullError where
  | eof
  | corruptedEvent
deriving DecidableEq, Repr

/-- Modelled from the spec: decoding one record from the bytes at a position, with the number
of bytes the read consumed. No complete length prefix, a zero length (the end-of-events
sentinel) and a record cut short by the end of the file are `eof` (§4.2, §4.4 "tolerating a
truncated final event"); a body whose table does not parse is `corruptedEvent`.
Kind: D -/
def decodeEvent (bs : Bytes) : Except PullError Event × Nat :=
  match readUvarint bs with
  | none => (.error .eof, bs.length)
  | some (len, rest) =>
    if len = 0 then (.error .eof, bs.length - rest.length)
    else if rest.length < len then (.error .eof, bs.length)
    else match parseBody (rest.take len) with
      | some e => (.ok e, bs.length - rest.length + len)
      | none => (.error .corruptedEvent, bs.length - rest.length + len)

/-- Modelled from the spec: the stream package's `pullEvent(stream)`, absent from `src/`: decode
the record at the file position and move the position past the bytes read.
Kind: D -/
def pullEvent (f : File) : Except PullError Event × File :=
  let r := decodeEvent (f.data.drop f.pos)
  (r.1, f.seek (f.pos + r.2))

/-! ## Round trip -/

section roundTrip

/-- The table read back into a map that does not hold its keys yet.
Source: none: infrastructure
Kind: L -/
theorem readOffsets_putOffsets : ∀ (m acc : GoMap Bytes Nat) (rest : Bytes),
    (GoMap.keys (acc ++ m)).Nodup →
    readOffsets m.length acc (putOffsets m ++ rest) = some (acc ++ m, rest)
  | [], acc, rest, _ => by simp [readOffsets, putOffsets]
  | (name, off) :: m, acc, rest, hnd => by
    have hset : acc.set name off = acc ++ [(name, off)] := by
      have hn : name ∉ GoMap.keys acc := by
        simp only [GoMap.keys, List.map_append, List.map_cons] at hnd
        exact fun h => (List.nodup_append.mp hnd).2.2 h (List.mem_cons_self _ _)
      clear hnd; induction acc with
      | nil => rfl
      | cons p acc ih =>
        simp only [GoMap.keys, List.map_cons, List.mem_cons, not_or] at hn
        simp [GoMap.set, Ne.symm hn.1, ih hn.2]
    have ih := readOffsets_putOffsets m (acc ++ [(name, off)]) rest (by simpa using hnd)
    simp only [List.length_cons, putOffsets, List.append_assoc, readOffsets,
      readUvarint_putUvarint, List.length_append, Nat.le_add_right, if_true,
      List.drop_left, List.take_left, hset, ih]
    simp

/-- Modelled from the spec: an event's body parses back to it (the table's keys being
distinct, as a Go map's are).
Kind: L -/
theorem parseBody_body {e : Event} (hnd : (GoMap.keys e.offsets).Nodup) :
    parseBody e.body = some e := by
  simp [parseBody, Event.body, List.append_assoc, readUvarint_putUvarint,
    readOffsets_putOffsets e.offsets [] e.data (by simpa using hnd)]

theorem Event.body_ne_nil (e : Event) : e.body ≠ [] := by
  simp [Event.body, putUvarint_ne_nil]

@[simp] theorem Event.length_push (e : Event) : e.push.length = e.length := rfl

theorem Event.length_pos (e : Event) : 0 < e.length := by
  have := putUvarint_length_pos e.body.length
  simp only [Event.length, Event.push, List.length_append]; omega

/-- Decoding an encoded event gives it back and consumes exactly its length, whatever follows.
Source: spec §4.2, decode contract
Kind: L -/
theorem decodeEvent_push {e : Event} (hnd : (GoMap.keys e.offsets).Nodup) (rest : Bytes) :
    decodeEvent (e.push ++ rest) = (.ok e, e.length) := by
  have hb : e.body.length ≠ 0 := by simpa using e.body_ne_nil
  simp [decodeEvent, Event.push, List.append_assoc, readUvarint_putUvarint, hb,
    parseBody_body hnd, Event.length]

/-- A proper prefix of an encoded event decodes to `eof`, consuming all of it.
Source: spec §4.4, "tolerating a truncated final event (treated as EOF, not corruption)"
Kind: L -/
theorem decodeEvent_take_push {e : Event} {j : Nat} (hj : j < e.length) :
    decodeEvent (e.push.take j) = (.error .eof, j) := by
  by_cases hp : j < (putUvarint e.body.length).length
  · have hpre : e.push.take j = (putUvarint e.body.length).take j := by
      simp [Event.push, List.take_append_of_le_length hp.le]
    rw [hpre]
    simp [decodeEvent, readUvarint_take_putUvarint hp]; omega
  · have hsplit : e.push.take j =
        putUvarint e.body.length ++ e.body.take (j - (putUvarint e.body.length).length) := by
      simp [Event.push, List.take_append_eq_append_take, List.take_of_length_le (by omega :
        (putUvarint e.body.length).length ≤ j)]
    have hlt : j - (putUvarint e.body.length).length < e.body.length := by
      simp only [Event.length, Event.push, List.length_append] at hj; omega
    simp [decodeEvent, hsplit, readUvarint_putUvarint, e.body_ne_nil, hlt, Nat.min_eq_left hlt.le]
    omega

end roundTrip

/-! ## The sorted string table -/

/-- Go's `<` on strings: byte-wise lexicographic, a proper prefix first.
Source: Go string comparison (`sort.StringSlice.Less`)
Kind: D -/
def bytesLt : Bytes → Bytes → Bool
  | [], [] => false
  | [], _ :: _ => true
  | _ :: _, [] => false
  | a :: as, b :: bs => a < b || (a == b && bytesLt as bs)

/-! ### `bytesLt` is a strict total order -/

private theorem byte_trichotomy (x y : UInt8) : x < y ∨ x = y ∨ y < x := by
  rcases Nat.lt_trichotomy x.toNat y.toNat with h | h | h
  · exact .inl h
  · exact .inr (.inl (UInt8.toNat.inj h))
  · exact .inr (.inr h)

/-- Go's string `<` is irreflexive, transitive and total on distinct strings, the order
`sort.StringSlice` sorts by.
Source: none: infrastructure
Kind: L -/
@[simp] theorem bytesLt_irrefl (a : Bytes) : bytesLt a a = false := by
  induction a with
  | nil => rfl
  | cons x xs ih => simp [bytesLt, ih]

theorem bytesLt_trans {a b c : Bytes} (hab : bytesLt a b = true) (hbc : bytesLt b c = true) :
    bytesLt a c = true := by
  induction a generalizing b c with
  | nil => cases b <;> cases c <;> simp_all [bytesLt]
  | cons x xs ih =>
    cases b with
    | nil => simp [bytesLt] at hab
    | cons y ys =>
      cases c with
      | nil => simp [bytesLt] at hbc
      | cons z zs =>
        simp only [bytesLt, Bool.or_eq_true, decide_eq_true_eq, Bool.and_eq_true, beq_iff_eq] at *
        rcases hab with h | ⟨rfl, h⟩ <;> rcases hbc with h' | ⟨rfl, h'⟩
        · exact .inl (UInt8.lt_trans h h')
        · exact .inl h
        · exact .inl h'
        · exact .inr ⟨rfl, ih h h'⟩

theorem bytesLt_asymm {a b : Bytes} (h : bytesLt a b = true) : bytesLt b a = false := by
  cases h' : bytesLt b a
  · rfl
  · simpa using bytesLt_trans h h'

theorem bytesLt_total {a b : Bytes} (h : a ≠ b) : bytesLt a b = true ∨ bytesLt b a = true := by
  induction a generalizing b with
  | nil => cases b <;> simp_all [bytesLt]
  | cons x xs ih =>
    cases b with
    | nil => simp [bytesLt]
    | cons y ys =>
      simp only [bytesLt, Bool.or_eq_true, decide_eq_true_eq, Bool.and_eq_true, beq_iff_eq]
      rcases byte_trichotomy x y with hxy | rfl | hxy
      · exact .inl (.inl hxy)
      · rcases ih (fun e => h (e ▸ rfl)) with h' | h' <;> simp [h']
      · exact .inr (.inl hxy)

/-- One SST record: `uvarint |key|, key, uvarint |value|, value`.
Source: spec §4.3 (`sst` package absent from `src/`)
Kind: D -/
def sstRecord (kv : Bytes × Bytes) : Bytes :=
  putUvarint kv.1.length ++ kv.1 ++ putUvarint kv.2.length ++ kv.2

/-- The index: `(uvarint |key|, key, int64 record offset)` per record.
Source: spec §4.3 (`sst` package absent from `src/`)
Kind: D -/
def sstIndex : Nat → List (Bytes × Bytes) → Bytes
  | _, [] => []
  | off, kv :: kvs => putUvarint kv.1.length ++ kv.1 ++ putInt64 off ++
      sstIndex (off + (sstRecord kv).length) kvs

/-- Modelled from the spec: the bytes `sst.NewWriter` produces for the `Set` calls `kvs` then
`Close()` (§4.3): the records, the index, and an 8-byte trailer with the index's offset.
Kind: D -/
def sstWrite (kvs : List (Bytes × Bytes)) : Bytes :=
  let records := (kvs.map sstRecord).foldr (· ++ ·) []
  records ++ sstIndex 0 kvs ++ putInt64 records.length

end Esdb.Stream
