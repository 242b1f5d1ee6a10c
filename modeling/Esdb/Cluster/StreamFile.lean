import Esdb.Stream.Log

/-!
# Stream files as the DB sees them

`src/cmd/esdb-reader.go`'s `DB` drives a `stream` package whose code is not in `src/`: its
`Stream` has `Write(data, indexes map[string]string)`, `ScanIndex(name, value, offset,
scanner)`, `Iterate(offset, scanner)`, `First(name, value)`, `Offset()`, `Close()` and
`Closed()`, and `Open(path)` / `New(path)` give one. Everything in this module is modelled from
the spec's words (§4.4, §4.5, §7), on top of the event log of `Esdb.Stream.Log`:

* `StreamFile` — a file's event log and whether it carries a footer; `StreamFile.image` the
  bytes the reads decode (header, records, and on a closed file the int32 zero sentinel).
* `DiskFile`, `streamOpen` — what a path holds: a stream file, or bytes whose header does not
  verify (a file cut inside its header); `Open` fails with `ENOENT` or `CorruptedHeader`.
* `StreamFile.write`, `StreamFile.close`, `StreamFile.first` — `Write`, `Close`, `First`.
* `StreamFile.iterate`, `StreamFile.scanIndex` — the reads, each a loop decoding events at
  file offsets with `decodeEvent`. A scanner is a function of the events it has been passed so
  far (the newest last): that is every deterministic scanner, stateful ones included.
-/

namespace Esdb.Cluster

open Esdb.Binary Esdb.Stream

/-- Modelled from the spec: a stream file of the DB's `stream` package, as its event log and
whether `Close` has finalised it (§3, "Stream File").
Kind: D -/
structure StreamFile where
  /-- The events, newest first. -/
  log : Log
  /-- The footer is present. -/
  closed : Bool
deriving DecidableEq, Repr

/-- Modelled from the spec: what a path of the DB's directory holds — a stream file, or bytes
whose magic header does not verify (such as a file cut inside its header).
Kind: D -/
inductive DiskFile where
  | stream (f : StreamFile)
  | corrupt (bs : Bytes)
deriving DecidableEq, Repr

/-- The errors the DB meets: the file system's `no such file or directory`, the stream
package's `CorruptedHeader`, `WritingToClosedStream` and event decode errors, a negative seek,
and a `nil` stream dereferenced (a Go panic).
Source: spec §7
Kind: D -/
inductive DBError where
  | noSuchFile
  | corruptedHeader
  | writingToClosedStream
  | pull (e : PullError)
  | negativeOffset
  | nilStream
deriving DecidableEq, Repr

/-- Modelled from the spec: `stream.Open(path)` on what the path holds (§4.4 "Open/reopen").
Kind: D -/
def streamOpen : Option DiskFile → Except DBError StreamFile
  | none => .error .noSuchFile
  | some (.corrupt _) => .error .corruptedHeader
  | some (.stream f) => .ok f

/-- Modelled from the spec: `stream.New(path)`, a fresh open stream holding only the header.
Kind: D -/
def StreamFile.empty : StreamFile := ⟨[], false⟩

/-- The label a `name`/`value` pair is indexed under: `name:value` (§9, "Open questions").
Source: spec §9
Kind: D -/
def label (name value : Bytes) : Bytes := name ++ [58] ++ value

/-- The labels of a `map[string]string` of indexes, in the order the model lists the map.
Source: src/cmd/esdb-reader.go `DB.Write`
Kind: D -/
def labels (indexes : List (Bytes × Bytes)) : List Bytes :=
  indexes.map fun (name, value) => label name value

namespace StreamFile

/-- The bytes the reads decode: header, records, and on a closed file the int32 zero that
ends the event region (§6). The SST and footer after it are only read for chain heads, which
`first` takes from the log.
Source: spec §6
Kind: D -/
def image (f : StreamFile) : Bytes :=
  magicHeader ++ f.log.records ++ (if f.closed then putInt32 0 else [])

/-- Modelled from the spec: `Write(data, indexes)` (§4.4): refused on a closed file, otherwise
the event linked to the chain heads is appended.
Kind: D -/
def write (f : StreamFile) (data : Bytes) (indexes : List (Bytes × Bytes)) :
    Except DBError StreamFile :=
  if f.closed then .error .writingToClosedStream
  else .ok ⟨f.log.append data (labels indexes), false⟩

/-- Modelled from the spec: `Close()` finalises the file (§4.4 "Close algorithm"); on a file
already closed it changes nothing.
Kind: D -/
def close (f : StreamFile) : StreamFile := { f with closed := true }

/-- Modelled from the spec: `First(name, value)`, the chain head of the label, 0 if none.
Kind: D -/
def first (f : StreamFile) (name value : Bytes) : Nat := (f.log.tail (label name value)).getD 0

/-- Modelled from the spec: `Offset()`, the write position.
Kind: D -/
def offset (f : StreamFile) : Nat := f.log.endOffset

end StreamFile

/-- Modelled from the spec: the loop of `Iterate(offset, scanner)` (§4.4 "Forward iteration")
from file offset `off`, having passed the events `seen`: decode the event at `off`, pass it on,
and on "stop" return the offset just past it (§8.5); at the sentinel or the end of the file
return 0; a decode error is returned. `none` when the fuel runs out.
Kind: D -/
def iterLoop (scanner : List Event → Bool) (img : Bytes) :
    Nat → Nat → List Event → Option (List Event × Except DBError Int)
  | 0, _, _ => none
  | fuel + 1, off, seen =>
    match decodeEvent (img.drop off) with
    | (.ok e, n) =>
      if scanner (seen ++ [e]) then iterLoop scanner img fuel (off + n) (seen ++ [e])
      else some (seen ++ [e], .ok (off + n))
    | (.error .eof, _) => some (seen, .ok 0)
    | (.error err, _) => some (seen, .error (.pull err))

/-- Modelled from the spec: the loop of `ScanIndex(name, value, offset, scanner)` (§4.4
"Reverse indexed scan"): while `off > 0`, decode the event at `off`, pass it on, and follow its
back-pointer for the label; a decode error is returned. `none` when the fuel runs out.
Kind: D -/
def chainLoop (lbl : Bytes) (scanner : List Event → Bool) (img : Bytes) :
    Nat → Nat → List Event → Option (List Event × Except DBError Unit)
  | 0, _, _ => none
  | fuel + 1, off, seen =>
    if off = 0 then some (seen, .ok ())
    else match decodeEvent (img.drop off) with
      | (.ok e, _) =>
        if scanner (seen ++ [e]) then
          chainLoop lbl scanner img fuel ((e.offsets.get? lbl).getD 0) (seen ++ [e])
        else some (seen ++ [e], .ok ())
      | (.error err, _) => some (seen, .error (.pull err))

namespace StreamFile

/-- Modelled from the spec: `Iterate(offset, scanner)`: from the offset, or past the header
when it is 0; a negative offset is a failed seek. The loop's fuel, one more than the file's
size, is never exhausted: every event decoded is at least one byte.
Kind: D -/
def iterate (f : StreamFile) (offset : Int) (scanner : List Event → Bool) (seen : List Event) :
    Option (List Event × Except DBError Int) :=
  if offset < 0 then some (seen, .error .negativeOffset)
  else iterLoop scanner f.image (f.image.length + 1)
    (if offset = 0 then magicHeader.length else offset.toNat) seen

/-- Modelled from the spec: `ScanIndex(name, value, offset, scanner)`: from the offset, or from
the label's chain head when it is 0; a negative offset is a failed seek. The fuel is one more
than the file's size; on a chain of decreasing offsets it is never exhausted.
Kind: D -/
def scanIndex (f : StreamFile) (name value : Bytes) (offset : Int) (scanner : List Event → Bool)
    (seen : List Event) : Option (List Event × Except DBError Unit) :=
  if offset < 0 then some (seen, .error .negativeOffset)
  else chainLoop (label name value) scanner f.image (f.image.length + 1)
    (if offset = 0 then f.first name value else offset.toNat) seen

end StreamFile

end Esdb.Cluster
