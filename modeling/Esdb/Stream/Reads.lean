import Mathlib.Data.List.Forall2
import Esdb.Stream.Log

/-!
# Reading an open stream back

On a stream that is the log `es`:

* `Refines.iterate` — `Iterate` passes the scanner the events of `es` in write order and ends
  with `io.EOF`, read as success, given fuel past `es.length`;
* `Refines.scanIndex` — `ScanIndex(L)` passes the events of `es` that carry `L`, newest first,
  by walking the back-pointer chain from `tails[L]`, given fuel past their number.

`stream_reads_follow_writes` puts these together with `Runs.refines` for every stream
reachable from `New` (`ReadsBack`): whatever the writes and wherever the reads fall between
them, the events mirror the writes, both reads terminate with the expected events, every stored
back-pointer is the newest earlier event carrying its label (an offset below the event's own),
and `tails[L]` is the newest event carrying `L`.
-/

namespace Esdb.Stream

open Esdb.Binary

namespace Log

/-- The records of events in the order given.
Source: spec §6
Kind: D -/
def flat : List Event → Bytes
  | [] => []
  | e :: es => e.push ++ flat es

theorem flat_append (xs ys : List Event) : flat (xs ++ ys) = flat xs ++ flat ys := by
  induction xs with
  | nil => rfl
  | cons x xs ih => simp [flat, ih]

theorem records_eq_flat (es : Log) : Log.records es = flat es.reverse := by
  induction es with
  | nil => rfl
  | cons e es ih => simp [ih, flat_append, flat]

theorem Linked.nodup : ∀ {es : Log}, Linked es → ∀ e ∈ es, (GoMap.keys e.offsets).Nodup
  | [], _, _, he => absurd he (List.not_mem_nil _)
  | _ :: _, h, e, he => by
    rcases List.mem_cons.mp he with rfl | he
    · exact h.1
    · exact Linked.nodup h.2.2 e he

end Log

/-- Pulling at the offset of a log's head event decodes that event and moves past it.
Source: src/cluster/rotate_command.go `openStream.ScanIndex`
Kind: L -/
theorem pullEvent_head {e : Event} {es : Log} (hnd : (GoMap.keys e.offsets).Nodup)
    (extra : Bytes) (p : Nat) :
    pullEvent ((⟨magicHeader ++ Log.records (e :: es) ++ extra, p⟩ : File).seek (Log.endOffset es)) =
      (.ok e, ⟨magicHeader ++ Log.records (e :: es) ++ extra, Log.endOffset (e :: es)⟩) := by
  have hd : (magicHeader ++ Log.records (e :: es) ++ extra).drop (Log.endOffset es) = e.push ++ extra := by
    rw [Log.records_cons, Log.endOffset_eq, List.append_assoc, List.append_assoc,
      List.drop_append_eq_append_drop]
    simp [List.drop_append_eq_append_drop]
  simp only [pullEvent, File.seek, hd, decodeEvent_push hnd, Log.endOffset_cons]

/-- The chain walk from `tails[L]` passes exactly the events carrying `L`, newest first.
Source: src/cluster/rotate_command.go `openStream.ScanIndex`
Kind: L -/
theorem scanIndexLoop_chain (L : Bytes) : ∀ (es : Log) (extra : Bytes) (p fuel : Nat),
    Log.Linked es → (es.filter fun e => L ∈ GoMap.keys e.offsets).length < fuel →
    ∃ p', scanIndexLoop L fuel ((Log.tail es L).getD 0) ⟨magicHeader ++ Log.records es ++ extra, p⟩ =
      some (es.filter fun e => L ∈ GoMap.keys e.offsets,
        ⟨magicHeader ++ Log.records es ++ extra, p'⟩, .ok ())
  | [], extra, p, fuel, _, hf => by
    obtain ⟨k, rfl⟩ := Nat.exists_eq_add_one_of_ne_zero (Nat.not_eq_zero_of_lt hf)
    exact ⟨p, by simp [scanIndexLoop, Log.tail]⟩
  | e :: es, extra, p, fuel, ⟨hnd, hback, hlinked⟩, hf => by
    have hdata : magicHeader ++ Log.records (e :: es) ++ extra =
        magicHeader ++ Log.records es ++ (e.push ++ extra) := by
      simp only [Log.records_cons, List.append_assoc]
    by_cases hc : L ∈ GoMap.keys e.offsets
    · obtain ⟨k, rfl⟩ := Nat.exists_eq_add_one_of_ne_zero (Nat.not_eq_zero_of_lt hf)
      obtain ⟨p', ih⟩ := scanIndexLoop_chain L es (e.push ++ extra) (Log.endOffset (e :: es)) k hlinked
        (by simp [hc] at hf; omega)
      have hpos : 0 < Log.endOffset es := by rw [Log.endOffset_eq, magicHeader_length]; omega
      refine ⟨p', ?_⟩
      simp only [scanIndexLoop, Log.tail, hc, if_true, Option.getD_some, hpos, pullEvent_head hnd,
        hback L hc]
      rw [hdata, ih]
      simp [List.filter_cons, hc]
    · obtain ⟨p', ih⟩ := scanIndexLoop_chain L es (e.push ++ extra) p fuel hlinked
        (by simpa [hc] using hf)
      refine ⟨p', ?_⟩
      simp only [Log.tail, hc, if_false]
      rw [hdata, ih]
      simp [List.filter_cons, hc]

/-- From the end of a prefix, `Iterate`'s loop decodes the records that follow, in order, and
stops with `io.EOF` at the end of the file.
Source: src/cluster/rotate_command.go `openStream.Iterate`
Kind: L -/
theorem iterateLoop_flat : ∀ (xs : List Event) (pre : Bytes) (fuel : Nat),
    (∀ e ∈ xs, (GoMap.keys e.offsets).Nodup) → xs.length < fuel →
    iterateLoop fuel ⟨pre ++ Log.flat xs, pre.length⟩ =
      some (xs, ⟨pre ++ Log.flat xs, (pre ++ Log.flat xs).length⟩, .eof)
  | [], pre, fuel, _, hf => by
    obtain ⟨k, rfl⟩ := Nat.exists_eq_add_one_of_ne_zero (Nat.not_eq_zero_of_lt hf)
    simp [iterateLoop, pullEvent, File.seek, Log.flat, decodeEvent, readUvarint]
  | x :: xs, pre, fuel, hnd, hf => by
    obtain ⟨k, rfl⟩ := Nat.exists_eq_add_one_of_ne_zero (Nat.not_eq_zero_of_lt hf)
    have ih := iterateLoop_flat xs (pre ++ x.push) k (fun e he => hnd e (List.mem_cons_of_mem x he))
      (by simpa using hf)
    have hx := decodeEvent_push (hnd x (List.mem_cons_self x xs)) (Log.flat xs)
    have hp : pullEvent ⟨pre ++ Log.flat (x :: xs), pre.length⟩ =
        (.ok x, ⟨pre ++ (x.push ++ Log.flat xs), pre.length + x.length⟩) := by
      simp [pullEvent, File.seek, Log.flat, hx]
    simp only [List.length_append, Event.length_push, List.append_assoc] at ih
    simp only [iterateLoop, hp, ih]
    simp [Log.flat]

/-- `Iterate` on a stream that is the log `es`, with nothing past its write offset, passes
the events of `es` in write order and succeeds; the stream is still `es`.
Source: src/cluster/rotate_command.go `openStream.Iterate`
Kind: L -/
theorem Refines.iterate {s : OpenStream} {es : Log} (h : Refines s es []) {fuel : Nat}
    (hf : es.length < fuel) :
    ∃ s', s.iterate fuel = some (es.reverse, s', .ok ()) ∧ Refines s' es [] := by
  have hloop := iterateLoop_flat es.reverse magicHeader fuel
    (fun e he => h.linked.nodup e (List.mem_reverse.mp he)) (by simpa using hf)
  have hs : s.stream.seek magicHeader.length =
      ⟨magicHeader ++ Log.flat es.reverse, magicHeader.length⟩ := by
    simp [File.seek, h.data, Log.records_eq_flat]
  refine ⟨{ s with stream := ⟨magicHeader ++ Log.flat es.reverse,
    (magicHeader ++ Log.flat es.reverse).length⟩ }, ?_, h.of_data ?_⟩
  · rw [OpenStream.iterate, hs, hloop]; rfl
  · simp [h.data, Log.records_eq_flat]

/-- `ScanIndex(L)` on a stream that is the log `es` passes the events carrying `L`, newest
first, and succeeds; the stream is still `es`.
Source: src/cluster/rotate_command.go `openStream.ScanIndex`
Kind: L -/
theorem Refines.scanIndex {s : OpenStream} {es : Log} {extra : Bytes} (h : Refines s es extra)
    (L : Bytes) {fuel : Nat} (hf : (es.filter fun e => L ∈ GoMap.keys e.offsets).length < fuel) :
    ∃ s', s.scanIndex L fuel = some (es.filter fun e => L ∈ GoMap.keys e.offsets, s', .ok ()) ∧
      Refines s' es extra := by
  obtain ⟨p', hloop⟩ := scanIndexLoop_chain L es extra s.stream.pos fuel h.linked hf
  have hs : s.stream = ⟨magicHeader ++ Log.records es ++ extra, s.stream.pos⟩ := by
    rw [← h.data]
  refine ⟨_, by rw [OpenStream.scanIndex, h.tails, hs, hloop]; rfl, h.of_data ?_⟩
  exact h.data.symm

/-- Each event of `Log.ofWrites W` mirrors its write: the payload, and a back-pointer for
exactly the write's labels.
Source: src/cluster/rotate_command.go `openStream.Write`
Kind: L -/
theorem ofWrites_mirrors (W : List (Bytes × List Bytes)) :
    List.Forall₂ (fun e w => e.data = w.1 ∧ ∀ L, L ∈ GoMap.keys e.offsets ↔ L ∈ w.2)
      (Log.ofWrites W).reverse W := by
  induction W using List.reverseRecOn with
  | nil => exact List.Forall₂.nil
  | append_singleton W w ih =>
    rw [Log.ofWrites_snoc, Log.append, List.reverse_cons]
    exact List.rel_append ih (List.Forall₂.cons ⟨rfl, by simp [newEvent]⟩ List.Forall₂.nil)

/-- The chain law, read off a linked log: the back-pointer of every event `e` (at offset
`Log.endOffset rest`, `rest` being the events before it) for each label it carries is the newest
earlier event carrying that label, or 0, and lies below `e`'s own offset.
Source: spec §3, "Back-pointer offsets"
Kind: L -/
theorem Log.Linked.chain_law : ∀ {es : Log}, Log.Linked es → ∀ e rest, e :: rest <:+ es →
    ∀ L ∈ GoMap.keys e.offsets, e.offsets.get? L = some ((Log.tail rest L).getD 0) ∧
      (Log.tail rest L).getD 0 < Log.endOffset rest
  | [], _, _, _, hs, _, _ => absurd hs.length_le (by simp)
  | e' :: es, ⟨_, hback, hlinked⟩, e, rest, hs, L, hL => by
    rcases List.suffix_cons_iff.mp hs with heq | hs
    · obtain ⟨rfl, rfl⟩ := List.cons.inj heq
      refine ⟨hback L hL, ?_⟩
      cases ht : Log.tail rest L with
      | none => simp only [Option.getD_none, Log.endOffset_eq, magicHeader_length]; omega
      | some o => exact (Log.tail_bounds ht).2
    · exact Linked.chain_law hlinked e rest hs L hL

/-- What reading a stream back gives, for the writes `W`: the events mirror the writes;
`Iterate` ends, passing them in write order; `ScanIndex(L)` ends, passing exactly the events
carrying `L`, newest first; every stored back-pointer (of an event `e` at offset
`Log.endOffset rest`, `rest` being the events before it) is the newest earlier event with the
label, or 0, and lies below `e`'s own offset; and `tails[L]` is the newest event carrying `L`.
Source: src/cluster/rotate_command.go `openStream`; spec §3, §8.1, §8.2
Kind: D -/
structure ReadsBack (W : List (Bytes × List Bytes)) (s : OpenStream) : Prop where
  mirrors : List.Forall₂ (fun e w => e.data = w.1 ∧ ∀ L, L ∈ GoMap.keys e.offsets ↔ L ∈ w.2)
    (Log.ofWrites W).reverse W
  iterate : ∀ fuel, W.length < fuel →
    ∃ s', s.iterate fuel = some ((Log.ofWrites W).reverse, s', .ok ())
  scanIndex : ∀ L fuel, W.length < fuel → ∃ s', s.scanIndex L fuel =
    some ((Log.ofWrites W).filter fun e => L ∈ GoMap.keys e.offsets, s', .ok ())
  chain : ∀ e rest, e :: rest <:+ Log.ofWrites W → ∀ L ∈ GoMap.keys e.offsets,
    e.offsets.get? L = some ((Log.tail rest L).getD 0) ∧
      (Log.tail rest L).getD 0 < Log.endOffset rest
  tails : ∀ L, s.tails.get? L = (Log.ofWrites W).tail L

/-- Every stream reachable from `New` by the writes `W`, with `ScanIndex` and `Iterate` calls
anywhere between them, reads back what was written.
Source: src/cluster/rotate_command.go `openStream.Write`, `ScanIndex`, `Iterate`; spec §8.2
Kind: P -/
theorem stream_reads_follow_writes {W : List (Bytes × List Bytes)} {s : OpenStream}
    (h : Runs new W s) : ReadsBack W s := by
  have hr := h.refines
  refine ⟨ofWrites_mirrors W, fun fuel hf => ?_, fun L fuel hf => ?_,
    hr.linked.chain_law, hr.tails⟩
  · obtain ⟨s', hs', -⟩ := hr.iterate (by simpa using hf)
    exact ⟨s', hs'⟩
  · obtain ⟨s', hs', -⟩ := hr.scanIndex L
      (lt_of_le_of_lt (List.length_filter_le _ _) (by simpa using hf))
    exact ⟨s', hs'⟩

/-- The law at one write of the payload `"a"` under the label `"L"`. -/
theorem stream_reads_follow_writes_single :
    Runs new [([97], [[76]])] (new.write [97] [[76]]).1 ∧
      ReadsBack [([97], [[76]])] (new.write [97] [[76]]).1 :=
  ⟨.write _ _ .refl, stream_reads_follow_writes (.write _ _ .refl)⟩

end Esdb.Stream
