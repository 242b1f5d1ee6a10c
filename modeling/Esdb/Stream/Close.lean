import Esdb.Stream.Reads

/-!
# Closing a stream

`Close` writes the int32 zero sentinel and `OpenStream.footer` (SST, SST length, footer) at
the file's position, without seeking. `Write` does seek to `offset` first and leaves the
position at the new `offset`, so:

* `close_image` — on a stream reached from `New` whose position is at its write offset (after
  a `Write`, or on `New` itself: `write_pos`), `Close` produces exactly header, records,
  sentinel and footer, whose SST maps every label with a chain, in ascending byte order
  (`sortedIndexes_sorted`), to the offset of its newest event;
* `close_after_scanIndex_drops_event` — a `ScanIndex` between the last `Write` and `Close`
  leaves the position inside the event region, and `Close` then writes over the events after
  it: at the failing input below the second event is gone from the closed file.
-/

namespace Esdb.Stream

open Esdb.Binary

/-- A `Write` leaves the file position at the new write offset.
Source: src/cluster/rotate_command.go `openStream.Write`
Kind: L -/
theorem write_pos {s : OpenStream} (hs : s.closed = false) (data : Bytes) (indexes : List Bytes) :
    (s.write data indexes).1.stream.pos = (s.write data indexes).1.offset := by
  simp [OpenStream.write, hs, File.write, File.seek]

/-- `Close` on a stream reached from `New` whose file position is at its write offset writes
the closed image: header, the records in write order, the int32 zero, then the SST that maps
each label with a chain, in strictly ascending byte order, to the offset of its newest event,
then the SST's length and the footer.
Source: src/cluster/rotate_command.go `openStream.Close`
Kind: P -/
theorem close_image {W : List (Bytes × List Bytes)} {s : OpenStream} (h : Runs new W s)
    (hpos : s.stream.pos = s.offset) :
    s.close.closed = true ∧ ∃ ks : List Bytes, ks.Pairwise (fun a b => bytesLt a b = true) ∧
      (∀ L, L ∈ ks ↔ ((Log.ofWrites W).tail L).isSome) ∧
      s.close.stream.data = magicHeader ++ (Log.ofWrites W).records ++ putInt32 0 ++
        (let sst := sstWrite (ks.map fun L => (L, putUvarint (((Log.ofWrites W).tail L).getD 0)))
         sst ++ putInt64 sst.length ++ magicFooter) := by
  have hr := h.refines
  have hend : s.stream.pos = s.stream.data.length := by
    rw [hpos, hr.offset, hr.data, Log.endOffset_eq]; simp
  have h1 := File.write_at_end hend (putInt32 0)
  have h2 := File.write_at_end (by simp [h1] : (s.stream.write (putInt32 0)).pos =
    (s.stream.write (putInt32 0)).data.length) (OpenStream.footer s.tails)
  simp only [OpenStream.close, hr.isOpen, Bool.false_eq_true, if_false]
  refine ⟨trivial, OpenStream.sortedIndexes s.tails,
    OpenStream.sortedIndexes_sorted (h.nodup_tails List.nodup_nil), fun L => ?_, ?_⟩
  · rw [(OpenStream.sortedIndexes_perm _).mem_iff, GoMap.mem_keys_iff_isSome, hr.tails]
  · rw [h2, h1, hr.data]; simp [OpenStream.footer, hr.tails]

/-- `Close` right after `New()`, `Write("a", ["L"])`: the footer's SST holds `"L"` alone.
Kind: P -/
theorem close_image_single_write :
    Runs new [([97], [[76]])] (new.write [97] [[76]]).1 ∧
      (new.write [97] [[76]]).1.stream.pos = (new.write [97] [[76]]).1.offset ∧
      ((new.write [97] [[76]]).1.close.closed = true ∧ ∃ ks : List Bytes,
        ks.Pairwise (fun a b => bytesLt a b = true) ∧
        (∀ L, L ∈ ks ↔ ((Log.ofWrites [([97], [[76]])]).tail L).isSome) ∧
        (new.write [97] [[76]]).1.close.stream.data =
          magicHeader ++ (Log.ofWrites [([97], [[76]])]).records ++ putInt32 0 ++
          (let sst := sstWrite (ks.map fun L =>
            (L, putUvarint (((Log.ofWrites [([97], [[76]])]).tail L).getD 0)))
           sst ++ putInt64 sst.length ++ magicFooter)) :=
  ⟨.write _ _ .refl, by decide, close_image (.write _ _ .refl) (by decide)⟩

/-- `New()`, `Write("a", ["L"])`, `Write("b", [])`.
Source: src/cluster/rotate_command.go `New`, `openStream.Write`
Kind: D -/
def twoWrites : OpenStream := ((new.write [97] [[76]]).1.write [98] []).1

/-- The failing input of the missing seek: `twoWrites`, then `ScanIndex("L")` and `Close()`.
The scan walks the chain of `"L"` (event 1 at offset 11) and leaves the position at 17, where
event 2 starts; `Close` writes sentinel and footer there, so the closed file is header,
event 1, sentinel, footer — event 2 is lost — while the same writes and `Close` with no read
give header, both events, sentinel, footer.
Source: src/cluster/rotate_command.go `openStream.Close`, `openStream.ScanIndex`
Kind: P -/
theorem close_after_scanIndex_drops_event :
    (twoWrites.scanIndex [76] 3).map (fun r => (r.1, r.2.1.stream.pos, r.2.1.close.stream.data)) =
        some ([⟨[97], [([76], 0)]⟩], 17, magicHeader ++ (newEvent [97] [([76], 0)]).push ++
          putInt32 0 ++ OpenStream.footer twoWrites.tails) ∧
      twoWrites.close.stream.data = magicHeader ++ (newEvent [97] [([76], 0)]).push ++
        (newEvent [98] []).push ++ putInt32 0 ++ OpenStream.footer twoWrites.tails := by
  decide

end Esdb.Stream
