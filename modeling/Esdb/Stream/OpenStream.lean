import Mathlib.Data.List.Sort
import Esdb.Stream.Format

/-!
# The open stream (`src/cluster/rotate_command.go`, package `stream`)

A line-by-line model of `openStream`: the file it owns, the chain heads `tails`, the write
offset and the event count.

* `createOpenStream`, `New` — a fresh stream: `MAGIC_HEADER` written at offset 0.
* `OpenStream.write` — `Write(data, indexes)`: seek to `offset`, build the back-pointer map
  from `tails`, append the event, point every label's tail at the old `offset`, advance.
* `OpenStream.scanIndex`, `OpenStream.iterate` — `ScanIndex(index, scanner)` and
  `Iterate(scanner)`; each returns the events it passed to the scanner (whose result the code
  ignores). Both are Go loops with no bound; the model runs them on explicit `fuel` and
  returns `none` when the fuel runs out.
* `OpenStream.close` — `Close()`: the int32 zero, then SST, SST length and footer, written
  where the file position is.
* `scan`, `newOpenStream` — reopening: check the header, then rebuild `tails`, `offset` and
  `length` by decoding events until the first one that fails.
-/

namespace Esdb.Stream

open Esdb.Binary

/-- The stream package's errors: `WRITING_TO_CLOSED_STREAM`, `CORRUPTED_HEADER`, and a
`pullEvent` error passed on.
Source: src/cluster/rotate_command.go `CORRUPTED_HEADER`; spec §7
Kind: D -/
inductive StreamError where
  | writingToClosedStream
  | corruptedHeader
  | pull (e : PullError)
deriving DecidableEq, Repr

/-- `openStream`: the file, the chain heads, the closed flag, the next write offset and the
number of events.
Source: src/cluster/rotate_command.go `openStream`
Kind: D -/
structure OpenStream where
  /-- The file the stream owns. -/
  stream : File
  /-- Label ↦ offset of the newest event carrying it. -/
  tails : GoMap Bytes Nat
  /-- Set by a successful `Close`. -/
  closed : Bool
  /-- Where the next event is written. -/
  offset : Nat
  /-- The number of events written. -/
  length : Nat
deriving DecidableEq, Repr

/-- `createOpenStream(stream)`: seek to 0 and write the header; `offset` is what was written.
Source: src/cluster/rotate_command.go `createOpenStream`
Kind: D -/
def createOpenStream (f : File) : OpenStream where
  stream := (f.seek 0).write magicHeader
  tails := []
  closed := false
  offset := magicHeader.length
  length := 0

/-- `New(path)`: a stream on a file created empty (`O_EXCL`).
Source: src/cluster/rotate_command.go `New`
Kind: D -/
def new : OpenStream := createOpenStream ⟨[], 0⟩

namespace OpenStream

/-- The back-pointer map `Write` builds: each index ↦ its tail, 0 when it has none.
Source: src/cluster/rotate_command.go `openStream.Write`
Kind: D -/
def backPointers (tails : GoMap Bytes Nat) (indexes : List Bytes) : GoMap Bytes Nat :=
  indexes.foldl (fun m index => m.set index ((tails.get? index).getD 0)) []

/-- `tails[index] = v` for every index.
Source: src/cluster/rotate_command.go `openStream.Write`, `scan`
Kind: D -/
def setAll (m : GoMap Bytes Nat) (indexes : List Bytes) (v : Nat) : GoMap Bytes Nat :=
  indexes.foldl (fun m index => m.set index v) m

/-- `Write(data, indexes)`: refuse on a closed stream; otherwise seek to `offset`, write the
event, point every index's tail at the old `offset`, advance `offset` by the bytes written and
count the event. Returns the bytes written.
Source: src/cluster/rotate_command.go `openStream.Write`
Kind: D -/
def write (s : OpenStream) (data : Bytes) (indexes : List Bytes) :
    OpenStream × Except StreamError Nat :=
  if s.closed then (s, .error .writingToClosedStream)
  else
    let event := newEvent data (backPointers s.tails indexes)
    let buf := event.push
    ({ stream := (s.stream.seek s.offset).write buf
       tails := setAll s.tails indexes s.offset
       closed := s.closed
       offset := s.offset + buf.length
       length := s.length + 1 }, .ok buf.length)

end OpenStream

/-- The loop of `ScanIndex`: while `off > 0`, seek to `off`, pull an event, pass it on and
follow its back-pointer for `index`; a failed pull ends the scan with its error.
Source: src/cluster/rotate_command.go `openStream.ScanIndex`
Kind: D -/
def scanIndexLoop (index : Bytes) : Nat → Nat → File →
    Option (List Event × File × Except StreamError Unit)
  | 0, _, _ => none
  | fuel + 1, off, f =>
    if 0 < off then
      match pullEvent (f.seek off) with
      | (.ok e, f') => (scanIndexLoop index fuel ((e.offsets.get? index).getD 0) f').map
          fun (es, f'', r) => (e :: es, f'', r)
      | (.error err, f') => some ([], f', .error (.pull err))
    else some ([], f, .ok ())

/-- The loop of `Iterate`: pull events until one fails, passing each on.
Source: src/cluster/rotate_command.go `openStream.Iterate`
Kind: D -/
def iterateLoop : Nat → File → Option (List Event × File × PullError)
  | 0, _ => none
  | fuel + 1, f =>
    match pullEvent f with
    | (.ok e, f') => (iterateLoop fuel f').map fun (es, f'', err) => (e :: es, f'', err)
    | (.error err, f') => some ([], f', err)

namespace OpenStream

/-- `ScanIndex(index, scanner)`: the events passed to the scanner, the stream (whose file
position the reads moved) and the result.
Source: src/cluster/rotate_command.go `openStream.ScanIndex`
Kind: D -/
def scanIndex (s : OpenStream) (index : Bytes) (fuel : Nat) :
    Option (List Event × OpenStream × Except StreamError Unit) :=
  (scanIndexLoop index fuel ((s.tails.get? index).getD 0) s.stream).map
    fun (es, f, r) => (es, { s with stream := f }, r)

/-- `Iterate(scanner)`: seek past the header, pull events until one fails; `io.EOF` is
success, any other error is returned.
Source: src/cluster/rotate_command.go `openStream.Iterate`
Kind: D -/
def iterate (s : OpenStream) (fuel : Nat) :
    Option (List Event × OpenStream × Except StreamError Unit) :=
  (iterateLoop fuel (s.stream.seek magicHeader.length)).map
    fun (es, f, err) => (es, { s with stream := f }, if err = .eof then .ok () else .error (.pull err))

/-- The labels of `tails` in the order `sort.Stable(sort.StringSlice)` leaves them: ascending
byte order.
Source: src/cluster/rotate_command.go `openStream.Close`
Kind: D -/
def sortedIndexes (tails : GoMap Bytes Nat) : List Bytes :=
  (GoMap.keys tails).insertionSort fun a b => bytesLt b a = false

/-- The bytes `Close` writes after the sentinel: the SST of `label ↦ uvarint tail` in sorted
order, its length as an int64, and the footer.
Source: src/cluster/rotate_command.go `openStream.Close`
Kind: D -/
def footer (tails : GoMap Bytes Nat) : Bytes :=
  let sst := sstWrite ((sortedIndexes tails).map fun name =>
    (name, putUvarint ((tails.get? name).getD 0)))
  sst ++ putInt64 sst.length ++ magicFooter

/-- `sortedIndexes` reorders the labels of `tails`; with distinct labels (as `scan` and
`Write` keep them) it is strictly ascending, so it is fixed by the set of labels alone.
Source: src/cluster/rotate_command.go `openStream.Close`
Kind: L -/
theorem sortedIndexes_perm (tails : GoMap Bytes Nat) :
    (sortedIndexes tails).Perm (GoMap.keys tails) :=
  List.perm_insertionSort _ _

theorem sortedIndexes_sorted {tails : GoMap Bytes Nat} (h : (GoMap.keys tails).Nodup) :
    (sortedIndexes tails).Pairwise fun a b => bytesLt a b = true := by
  haveI : IsTotal Bytes fun a b => bytesLt b a = false := ⟨fun a b => by
    by_cases e : a = b
    · simp [e]
    · rcases bytesLt_total e with h | h
      · exact .inl (bytesLt_asymm h)
      · exact .inr (bytesLt_asymm h)⟩
  haveI : IsTrans Bytes fun a b => bytesLt b a = false := ⟨fun a b c hba hcb => by
    cases hca : bytesLt c a
    · rfl
    · by_cases e : a = b
      · subst e; exact absurd hca (by simp [hcb])
      · have hab := (bytesLt_total e).resolve_right (by simp [hba])
        simp [bytesLt_trans hca hab] at hcb⟩
  have hn := (sortedIndexes_perm tails).nodup_iff.mpr h
  exact ((List.sorted_insertionSort _ (GoMap.keys tails)).and hn).imp fun ⟨h1, h2⟩ =>
    (bytesLt_total h2).resolve_right (by simp [h1])

theorem sortedIndexes_congr {t₁ t₂ : GoMap Bytes Nat} (h₁ : (GoMap.keys t₁).Nodup)
    (h₂ : (GoMap.keys t₂).Nodup) (h : ∀ L, t₁.get? L = t₂.get? L) :
    sortedIndexes t₁ = sortedIndexes t₂ := by
  haveI : IsAntisymm Bytes fun a b => bytesLt a b = true :=
    ⟨fun _ _ hab hba => by simp [bytesLt_asymm hab] at hba⟩
  refine List.eq_of_perm_of_sorted ?_ (sortedIndexes_sorted h₁) (sortedIndexes_sorted h₂)
  refine (sortedIndexes_perm t₁).trans (((List.perm_ext_iff_of_nodup h₁ h₂).mpr fun L => ?_).trans
    (sortedIndexes_perm t₂).symm)
  rw [GoMap.mem_keys_iff_isSome, GoMap.mem_keys_iff_isSome, h]

/-- The footer depends only on the chain heads, not on the order `tails` was built in.
Source: src/cluster/rotate_command.go `openStream.Close`
Kind: L -/
theorem footer_congr {t₁ t₂ : GoMap Bytes Nat} (h₁ : (GoMap.keys t₁).Nodup)
    (h₂ : (GoMap.keys t₂).Nodup) (h : ∀ L, t₁.get? L = t₂.get? L) : footer t₁ = footer t₂ := by
  simp only [footer, sortedIndexes_congr h₁ h₂ h, h]

/-- `Close()`: on an open stream, write the int32 zero sentinel and then `footer` at the
file's current position, and mark the stream closed (the model's file writes do not fail).
Source: src/cluster/rotate_command.go `openStream.Close`
Kind: D -/
def close (s : OpenStream) : OpenStream :=
  if s.closed then s
  else { s with stream := (s.stream.write (putInt32 0)).write (footer s.tails), closed := true }

end OpenStream

/-- The loop of `scan`: for each event pulled, point the tail of each of its labels at its
offset, advance by its length and count it; stop at the first failed pull.
Source: src/cluster/rotate_command.go `scan`
Kind: D -/
def scanLoop : Nat → File → GoMap Bytes Nat → Nat → Nat →
    Option (GoMap Bytes Nat × Nat × Nat × PullError × File)
  | 0, _, _, _, _ => none
  | fuel + 1, f, tails, offset, length =>
    match pullEvent f with
    | (.ok e, f') => scanLoop fuel f' (OpenStream.setAll tails (GoMap.keys e.offsets) offset)
        (offset + e.length) (length + 1)
    | (.error err, f') => some (tails, offset, length, err, f')

/-- `scan(stream)`: read and check the header, then run the loop; `io.EOF` and
`CORRUPTED_EVENT` are success. The loop gets fuel one more than the file's size, which it
never exhausts (every event pulled is at least one byte).
Source: src/cluster/rotate_command.go `scan`
Kind: D -/
def scan (f : File) : Option (GoMap Bytes Nat × Nat × Nat × Except StreamError Unit × File) :=
  let (header, f) := f.read magicHeader.length
  if header ≠ magicHeader then some ([], 0, 0, .error .corruptedHeader, f)
  else (scanLoop (f.data.length + 1) f [] header.length 0).map fun (tails, offset, length, err, f) =>
    (tails, offset, length, if err = .eof ∨ err = .corruptedEvent then .ok () else .error (.pull err), f)

/-- `newOpenStream(stream)`: seek to 0, `scan`, and take its tails, offset and length.
Source: src/cluster/rotate_command.go `newOpenStream`
Kind: D -/
def newOpenStream (f : File) : Option (OpenStream × Except StreamError Unit) :=
  (scan (f.seek 0)).map fun (tails, offset, length, err, f) =>
    ({ stream := f, tails := tails, closed := false, offset := offset, length := length }, err)

end Esdb.Stream
