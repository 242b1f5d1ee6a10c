import Mathlib.Data.Nat.Find
import Esdb.Stream.Close

/-!
# Reopening a torn stream

A crash can cut an open stream's file anywhere after its header. `newOpenStream` rescans the
file from the header, stops at the first record it cannot decode (a record cut short decodes
to `eof`: `decodeEvent_take_push`), and takes the chain heads, offset and count of the records
before it (`scanLoop_log`).

* `reopen_truncated` — for every stream reached from `New` and every cut `t` past the header,
  reopening the first `t` bytes succeeds and gives the stream of `W_k`, the longest prefix of
  the writes whose records lie within the `t` bytes: the same chain heads, offset and count
  `k`, and the same stream again after any further writes and reads, so `ScanIndex` reads the
  same events as on a stream that received only `W_k` and those writes. When the cut falls
  on a record boundary, no client can tell the reopened stream from a fresh one given `W_k`
  (`Same`): every further call returns the same and leaves the same file. Inside a record,
  the bytes of the torn record past the rebuilt offset stay in the file (`Refines`'s
  `extra`): nothing truncates them.
* `reopen_keeps_torn_bytes` — at a cut inside a record whose payload holds an encoded event,
  a `Write` after reopening covers only the start of the torn bytes, and `Iterate` then reads
  the rest back as an event that was never written.
-/

namespace Esdb.Stream

open Esdb.Binary

namespace Log

theorem records_append (a b : Log) : records (a ++ b) = records b ++ records a := by
  induction a with
  | nil => simp
  | cons e a ih => simp [ih]

theorem length_le_records : ∀ es : Log, es.length ≤ (records es).length
  | [] => le_rfl
  | e :: es => by
    have := length_le_records es
    have := e.length_pos
    simp; omega

theorem appendAll_snoc (es : Log) (W : List (Bytes × List Bytes)) (w : Bytes × List Bytes) :
    es.appendAll (W ++ [w]) = (es.appendAll W).append w.1 w.2 := by
  simp [appendAll, List.foldl_append]

theorem appendAll_eq (es : Log) (W : List (Bytes × List Bytes)) :
    ∃ newer, es.appendAll W = newer ++ es := by
  induction W using List.reverseRecOn with
  | nil => exact ⟨[], rfl⟩
  | append_singleton W w ih =>
    obtain ⟨newer, hn⟩ := ih
    exact ⟨_ :: newer, by rw [appendAll_snoc, append, hn, List.cons_append]⟩

theorem Linked.of_append : ∀ {a b : Log}, Linked (a ++ b) → Linked b
  | [], _, h => h
  | _ :: _, _, h => Linked.of_append h.2.2

theorem ofWrites_take_succ {W : List (Bytes × List Bytes)} {k : Nat} (hk : k < W.length) :
    ofWrites (W.take (k + 1)) = append (ofWrites (W.take k)) W[k].1 W[k].2 := by
  rw [List.take_succ, List.getElem?_eq_getElem hk, Option.toList_some, ofWrites_snoc]

theorem endOffset_ofWrites_take_succ {W : List (Bytes × List Bytes)} {k : Nat} (hk : k < W.length) :
    ∃ e, ofWrites (W.take (k + 1)) = e :: ofWrites (W.take k) ∧
      endOffset (ofWrites (W.take (k + 1))) = endOffset (ofWrites (W.take k)) + e.length :=
  ⟨_, ofWrites_take_succ hk, by rw [ofWrites_take_succ hk]; rfl⟩

end Log

/-! ## A client's calls -/

/-- A call a client makes on an open stream.
Source: src/cluster/rotate_command.go `openStream.Write`, `ScanIndex`, `Iterate`, `Close`
Kind: D -/
inductive StreamOp where
  | write (data : Bytes) (indexes : List Bytes)
  | scanIndex (index : Bytes) (fuel : Nat)
  | iterate (fuel : Nat)
  | close

/-- What a call returns: `Write`'s result, the events a read passed and its result, or
nothing (`Close`, and a read the model's fuel did not cover).
Source: src/cluster/rotate_command.go `openStream`
Kind: D -/
inductive StreamReply where
  | wrote (r : Except StreamError Nat)
  | read (es : List Event) (r : Except StreamError Unit)
  | outOfFuel
  | closed

namespace OpenStream

/-- One call: its reply and the stream after it.
Source: src/cluster/rotate_command.go `openStream`
Kind: D -/
def apply (s : OpenStream) : StreamOp → StreamReply × OpenStream
  | .write data indexes => (.wrote (s.write data indexes).2, (s.write data indexes).1)
  | .scanIndex index fuel =>
    match s.scanIndex index fuel with
    | some (es, s', r) => (.read es r, s')
    | none => (.outOfFuel, s)
  | .iterate fuel =>
    match s.iterate fuel with
    | some (es, s', r) => (.read es r, s')
    | none => (.outOfFuel, s)
  | .close => (.closed, s.close)

/-- A sequence of calls: the replies in order and the stream after the last.
Source: src/cluster/rotate_command.go `openStream`
Kind: D -/
def applyOps : OpenStream → List StreamOp → List StreamReply × OpenStream
  | s, [] => ([], s)
  | s, op :: ops => ((s.apply op).1 :: ((s.apply op).2.applyOps ops).1,
      ((s.apply op).2.applyOps ops).2)

/-- The writes `W` one after another, with no reads.
Source: src/cluster/rotate_command.go `openStream.Write`
Kind: D -/
def writeAll (s : OpenStream) (W : List (Bytes × List Bytes)) : OpenStream :=
  W.foldl (fun s w => (s.write w.1 w.2).1) s

end OpenStream

theorem Runs.writeAll (s₀ : OpenStream) (W : List (Bytes × List Bytes)) :
    Runs s₀ W (s₀.writeAll W) := by
  induction W using List.reverseRecOn with
  | nil => exact .refl
  | append_singleton W w ih =>
    simpa [OpenStream.writeAll, List.foldl_append] using ih.write w.1 w.2

/-- A fresh stream given only writes has its file position at its write offset.
Source: src/cluster/rotate_command.go `New`, `openStream.Write`
Kind: L -/
theorem writeAll_pos (W : List (Bytes × List Bytes)) :
    (new.writeAll W).stream.pos = (new.writeAll W).offset := by
  induction W using List.reverseRecOn with
  | nil => rfl
  | append_singleton W w _ =>
    simpa [OpenStream.writeAll, List.foldl_append] using
      write_pos (Runs.writeAll new W).refines.isOpen w.1 w.2

/-! ## Streams no client can tell apart -/

/-- Two streams that agree in everything but the order their `tails` list the labels in,
each with distinct labels.
Source: src/cluster/rotate_command.go `openStream`
Kind: D -/
structure Same (a b : OpenStream) : Prop where
  stream : a.stream = b.stream
  tails : ∀ L, a.tails.get? L = b.tails.get? L
  closed : a.closed = b.closed
  offset : a.offset = b.offset
  length : a.length = b.length
  nodup_left : (GoMap.keys a.tails).Nodup
  nodup_right : (GoMap.keys b.tails).Nodup

namespace Same

variable {a b : OpenStream}

/-- Each call returns the same on two `Same` streams and leaves them `Same`: `Write` reads
`tails` only by lookup, and `Close` writes the footer, which is sorted (`footer_congr`).
Source: src/cluster/rotate_command.go `openStream.Write`, `ScanIndex`, `Iterate`, `Close`
Kind: L -/
theorem write (h : Same a b) (data : Bytes) (indexes : List Bytes) :
    (a.write data indexes).2 = (b.write data indexes).2 ∧
      Same (a.write data indexes).1 (b.write data indexes).1 := by
  have hbp : OpenStream.backPointers a.tails indexes = OpenStream.backPointers b.tails indexes :=
    by simp only [OpenStream.backPointers, h.tails]
  unfold OpenStream.write
  rw [h.closed]
  cases b.closed <;> simp only [Bool.false_eq_true, ↓reduceIte]
  · refine ⟨by rw [hbp], ⟨by rw [h.stream, h.offset, hbp], fun L => ?_, rfl, by rw [h.offset, hbp],
      by rw [h.length], GoMap.nodup_keys_foldl_set _ _ h.nodup_left,
      GoMap.nodup_keys_foldl_set _ _ h.nodup_right⟩⟩
    simp [OpenStream.setAll, GoMap.get?_foldl_set, h.tails, h.offset]
  · exact ⟨trivial, h⟩

theorem close (h : Same a b) : Same a.close b.close := by
  unfold OpenStream.close
  rw [h.closed]
  cases b.closed <;> simp only [Bool.false_eq_true, ↓reduceIte]
  · exact ⟨by rw [h.stream, OpenStream.footer_congr h.nodup_left h.nodup_right h.tails],
      h.tails, rfl, h.offset, h.length, h.nodup_left, h.nodup_right⟩
  · exact h

theorem apply (h : Same a b) (op : StreamOp) :
    (a.apply op).1 = (b.apply op).1 ∧ Same (a.apply op).2 (b.apply op).2 := by
  cases op with
  | write data indexes =>
    obtain ⟨h1, h2⟩ := h.write data indexes
    exact ⟨by simp only [OpenStream.apply, h1], h2⟩
  | scanIndex index fuel =>
    simp only [OpenStream.apply, OpenStream.scanIndex, h.tails, h.stream]
    rcases scanIndexLoop index fuel ((b.tails.get? index).getD 0) b.stream with _ | ⟨es, f, r⟩
    · exact ⟨rfl, h⟩
    · exact ⟨rfl, { h with stream := rfl }⟩
  | iterate fuel =>
    simp only [OpenStream.apply, OpenStream.iterate, h.stream]
    rcases iterateLoop fuel (b.stream.seek magicHeader.length) with _ | ⟨es, f, r⟩
    · exact ⟨rfl, h⟩
    · exact ⟨rfl, { h with stream := rfl }⟩
  | close => exact ⟨rfl, h.close⟩

/-- Any sequence of calls returns the same replies on two `Same` streams and leaves them
`Same`, so with the same file.
Source: src/cluster/rotate_command.go `openStream`
Kind: L -/
theorem applyOps (h : Same a b) (ops : List StreamOp) :
    (a.applyOps ops).1 = (b.applyOps ops).1 ∧ Same (a.applyOps ops).2 (b.applyOps ops).2 := by
  induction ops generalizing a b with
  | nil => exact ⟨rfl, h⟩
  | cons op ops ih =>
    obtain ⟨h1, h2⟩ := h.apply op
    obtain ⟨h3, h4⟩ := ih h2
    exact ⟨by simp only [OpenStream.applyOps, h1, h3], h4⟩

end Same

/-- `scan`'s loop from the end of the records of `done`, over the records of `rest` (oldest
first) and then bytes `torn` that decode to `eof`: it decodes `rest` and stops at `torn`
(the position past what the failed decode read), with the chain heads, offset and count of
the log `rest` on top of `done`; labels stay distinct.
Source: src/cluster/rotate_command.go `scan`
Kind: L -/
theorem scanLoop_log : ∀ (rest : List Event) (done : Log) (torn : Bytes) (tails : GoMap Bytes Nat)
    (fuel : Nat), (∀ e ∈ rest, (GoMap.keys e.offsets).Nodup) → rest.length < fuel →
    (∀ L, tails.get? L = done.tail L) → (GoMap.keys tails).Nodup →
    (decodeEvent torn).1 = .error .eof →
    ∃ tails', scanLoop fuel ⟨magicHeader ++ done.records ++ (Log.flat rest ++ torn),
        done.endOffset⟩ tails done.endOffset done.length =
      some (tails', Log.endOffset (rest.reverse ++ done), (rest.reverse ++ done).length, .eof,
        ⟨magicHeader ++ done.records ++ (Log.flat rest ++ torn),
          Log.endOffset (rest.reverse ++ done) + (decodeEvent torn).2⟩) ∧
      (∀ L, tails'.get? L = Log.tail (rest.reverse ++ done) L) ∧ (GoMap.keys tails').Nodup
  | [], done, torn, tails, fuel, _, hf, ht, hkeys, htorn => by
    obtain ⟨k, rfl⟩ := Nat.exists_eq_add_one_of_ne_zero (Nat.not_eq_zero_of_lt hf)
    obtain ⟨n, hd⟩ : ∃ n, decodeEvent torn = (.error .eof, n) := ⟨_, Prod.ext htorn rfl⟩
    refine ⟨tails, ?_, by simpa using ht, hkeys⟩
    simp only [scanLoop, pullEvent, Log.drop_endOffset, Log.flat, List.nil_append, hd]
    simp [File.seek]
  | x :: rest, done, torn, tails, fuel, hnd, hf, ht, hkeys, htorn => by
    obtain ⟨k, rfl⟩ := Nat.exists_eq_add_one_of_ne_zero (Nat.not_eq_zero_of_lt hf)
    have hdata : magicHeader ++ done.records ++ (Log.flat (x :: rest) ++ torn) =
        magicHeader ++ Log.records (x :: done) ++ (Log.flat rest ++ torn) := by
      simp [Log.flat]
    have hdrop : (magicHeader ++ done.records ++ (Log.flat (x :: rest) ++ torn)).drop
        done.endOffset = x.push ++ (Log.flat rest ++ torn) := by
      rw [Log.drop_endOffset, Log.flat, List.append_assoc]
    have ht' : ∀ L, (OpenStream.setAll tails (GoMap.keys x.offsets) done.endOffset).get? L =
        Log.tail (x :: done) L := by
      intro L; simp [OpenStream.setAll, GoMap.get?_foldl_set, Log.tail, ht]
    obtain ⟨tails', hloop, htails, hkeys'⟩ := scanLoop_log rest (x :: done) torn _ k
      (fun e he => hnd e (List.mem_cons_of_mem x he)) (by simpa using hf) ht'
      (GoMap.nodup_keys_foldl_set _ _ hkeys) htorn
    refine ⟨tails', ?_, by simpa using htails, hkeys'⟩
    simp only [scanLoop, pullEvent, hdrop, decodeEvent_push (hnd x (List.mem_cons_self x rest)),
      File.seek]
    rw [hdata]
    simpa using hloop

/-- Reopening a header, the records of a linked log and bytes that decode to `eof`: `scan`
decodes the log and stops at those bytes, so `newOpenStream` succeeds with the log's chain
heads (distinct labels), offset and count, the bytes left in place and the file position past
what the failed decode read.
Source: src/cluster/rotate_command.go `newOpenStream`, `scan`
Kind: L -/
theorem newOpenStream_log {es : Log} {torn : Bytes} (hl : es.Linked)
    (htorn : (decodeEvent torn).1 = .error .eof) :
    ∃ r, newOpenStream ⟨magicHeader ++ es.records ++ torn, 0⟩ = some (r, .ok ()) ∧
      Refines r es torn ∧ r.stream.pos = es.endOffset + (decodeEvent torn).2 ∧
      (GoMap.keys r.tails).Nodup := by
  have hlen : es.length < (magicHeader ++ es.records ++ torn).length + 1 := by
    have := Log.length_le_records es
    simp only [List.length_append]
    omega
  obtain ⟨tails', hloop, htails, hkeys⟩ := scanLoop_log es.reverse [] torn [] _
    (fun e he => hl.nodup e (List.mem_reverse.mp he)) (by simpa using hlen) (fun _ => rfl)
    List.nodup_nil htorn
  rw [← Log.records_eq_flat] at hloop
  simp only [Log.records_nil, List.append_nil, List.reverse_reverse, List.nil_append,
    Log.endOffset_nil, List.length_nil, magicHeader_length] at hloop htails
  refine ⟨⟨⟨magicHeader ++ es.records ++ torn, es.endOffset + (decodeEvent torn).2⟩, tails',
    false, es.endOffset, es.length⟩, ?_, ⟨rfl, rfl, htails, rfl, rfl, hl⟩, rfl, hkeys⟩
  simp only [newOpenStream, scan, File.seek, File.read, List.drop_zero]
  simp [hloop]

/-- Where a cut at `t` falls in the stream of the writes `W`: with `k` the largest count whose
records end within `t` bytes, the bytes before the cut are the header, the records of `W_k`,
and a torn start of the record of write `k` (nothing when `k` is all of `W`), which decodes to
`eof`.
Source: spec §8.8
Kind: L -/
theorem take_cut {W : List (Bytes × List Bytes)} {s : OpenStream} (h : Runs new W s) {t : Nat}
    (ht : magicHeader.length ≤ t) :
    ∃ k ≤ W.length, (Log.ofWrites (W.take k)).endOffset ≤ t ∧
      (k < W.length → t < (Log.ofWrites (W.take (k + 1))).endOffset) ∧
      ∃ torn, s.stream.data.take t = magicHeader ++ (Log.ofWrites (W.take k)).records ++ torn ∧
        (decodeEvent torn).1 = .error .eof := by
  have hr := h.refines
  let P := fun k => (Log.ofWrites (W.take k)).endOffset ≤ t
  let k := Nat.findGreatest P W.length
  have hk : k ≤ W.length := Nat.findGreatest_le _
  have hPk : P k := Nat.findGreatest_spec (Nat.zero_le _) (show P 0 by simpa [P] using ht)
  have hnext : k < W.length → t < (Log.ofWrites (W.take (k + 1))).endOffset := fun hlt =>
    not_le.mp (show ¬ P (k + 1) from Nat.findGreatest_is_greatest (Nat.lt_succ_self k) hlt)
  refine ⟨k, hk, hPk, hnext, ?_⟩
  set es := Log.ofWrites (W.take k) with hes
  have hPk' : es.endOffset ≤ t := hPk
  have hpre : (magicHeader ++ es.records).length = es.endOffset := by
    rw [Log.endOffset_eq, List.length_append]
  rcases Nat.lt_or_ge k W.length with hlt | hge
  · -- the cut falls inside the record of write `k`
    obtain ⟨x, hx, hxo⟩ := Log.endOffset_ofWrites_take_succ hlt
    obtain ⟨newer, hnewer⟩ := Log.appendAll_eq (Log.ofWrites (W.take (k + 1))) (W.drop (k + 1))
    rw [← hes] at hx hxo
    have hW : Log.ofWrites W = newer ++ x :: es := by
      rw [← hx, ← hnewer, ← Log.ofWrites_append, List.take_append_drop]
    have hdata : s.stream.data = magicHeader ++ es.records ++ (x.push ++ newer.records) := by
      rw [hr.data, hW]; simp [Log.records_append]
    have hj : t - es.endOffset < x.length := by have := hnext hlt; omega
    refine ⟨x.push.take (t - es.endOffset), ?_, by rw [decodeEvent_take_push hj]⟩
    rw [hdata, List.take_append_eq_append_take, List.take_of_length_le (by rw [hpre]; exact hPk'),
      hpre, List.take_append_of_le_length (by simp; omega)]
  · -- the cut is past the end of the file
    have hW : Log.ofWrites W = es := by rw [hes, le_antisymm hk hge, List.take_length]
    have hlen : s.stream.data.length = es.endOffset := by
      rw [hr.data, hW, List.append_nil, hpre]
    refine ⟨[], ?_, rfl⟩
    rw [List.take_of_length_le (by omega), hr.data, hW]

/-- What reopening the first `t` bytes of the stream `s`, reached from `New` by the writes `W`,
gives: with `k` the largest count whose records end within the `t` bytes (the next record
does not), `newOpenStream` succeeds with the stream of `W_k` (chain heads, offset, count and
records) followed by the torn bytes it leaves in place; after any further writes `W'` (with
any reads) it is the stream of `W_k ++ W'`, and its `ScanIndex` results are those of that log,
as on a fresh stream given `W_k ++ W'`. When the `t` bytes end on a record boundary, every
further sequence of calls returns what it returns on a fresh stream given `W_k` and leaves the
same file.
Source: src/cluster/rotate_command.go `newOpenStream`, `scan`
Kind: D -/
def ReopensAt (W : List (Bytes × List Bytes)) (s : OpenStream) (t : Nat) : Prop :=
  ∃ k ≤ W.length, (Log.ofWrites (W.take k)).endOffset ≤ t ∧
    (k < W.length → t < (Log.ofWrites (W.take (k + 1))).endOffset) ∧
    ∃ r, newOpenStream ⟨s.stream.data.take t, 0⟩ = some (r, .ok ()) ∧
      Refines r (Log.ofWrites (W.take k))
        ((s.stream.data.take t).drop (Log.ofWrites (W.take k)).endOffset) ∧
      (∀ W' r', Runs r W' r' →
        (∃ extra, Refines r' (Log.ofWrites (W.take k ++ W')) extra) ∧
        ∀ L fuel, W.length + W'.length < fuel → ∃ r'', r'.scanIndex L fuel =
          some ((Log.ofWrites (W.take k ++ W')).filter fun e => L ∈ GoMap.keys e.offsets, r'',
            .ok ())) ∧
      ((s.stream.data.take t).length = (Log.ofWrites (W.take k)).endOffset → ∀ ops,
        (r.applyOps ops).1 = ((new.writeAll (W.take k)).applyOps ops).1 ∧
          (r.applyOps ops).2.stream = ((new.writeAll (W.take k)).applyOps ops).2.stream)

/-- At a record boundary the reopened stream is a fresh stream given the same writes, up to
the order of its labels: `scan` stops at the end of the file with nothing read, where the
last `Write` left the position.
Source: src/cluster/rotate_command.go `newOpenStream`, `scan`, `openStream.Write`
Kind: L -/
theorem same_writeAll {W : List (Bytes × List Bytes)} {r : OpenStream}
    (hR : Refines r (Log.ofWrites W) []) (hpos : r.stream.pos = (Log.ofWrites W).endOffset)
    (hkeys : (GoMap.keys r.tails).Nodup) : Same r (new.writeAll W) := by
  have hf := (Runs.writeAll new W).refines
  refine ⟨?_, fun L => (hR.tails L).trans (hf.tails L).symm, hR.isOpen.trans hf.isOpen.symm,
    hR.offset.trans hf.offset.symm, hR.length.trans hf.length.symm, hkeys,
    (Runs.writeAll new W).nodup_tails List.nodup_nil⟩
  have hp : r.stream.pos = (new.writeAll W).stream.pos := by rw [hpos, writeAll_pos, hf.offset]
  exact congrArg₂ File.mk (hR.data.trans hf.data.symm) hp

/-- Reopening the first `t` bytes of a stream reached from `New`, for any `t` past the
header, gives the stream of the longest prefix of the writes whose records lie within them
(`ReopensAt`).
Source: src/cluster/rotate_command.go `newOpenStream`, `scan`; spec §8.8
Kind: P -/
theorem reopen_truncated {W : List (Bytes × List Bytes)} {s : OpenStream} (h : Runs new W s)
    {t : Nat} (ht : magicHeader.length ≤ t) : ReopensAt W s t := by
  obtain ⟨k, hk, hPk, hnext, torn, htake, htorn⟩ := take_cut h ht
  obtain ⟨r, hopen, hR, hpos, hkeys⟩ := newOpenStream_log (Log.linked_ofWrites (W.take k)) htorn
  refine ⟨k, hk, hPk, hnext, r, by rw [htake]; exact hopen, by rwa [htake, Log.drop_endOffset],
    fun W' r' hrun => ?_, fun hb ops => ?_⟩
  · -- further writes keep the refinement, and with it what ScanIndex reads
    obtain ⟨extra', hr'⟩ := hrun.refines_from hR
    rw [← Log.ofWrites_append] at hr'
    refine ⟨⟨extra', hr'⟩, fun L fuel hf => ?_⟩
    have hb : (Log.ofWrites (W.take k ++ W')).length < fuel := by
      rw [Log.length_ofWrites, List.length_append, List.length_take, min_eq_left hk]; omega
    obtain ⟨r'', hscan, -⟩ := hr'.scanIndex L ((List.length_filter_le _ _).trans_lt hb)
    exact ⟨r'', hscan⟩
  · -- at a record boundary nothing is torn, and the reopened stream is the fresh one
    have hnil : torn = [] := by
      rw [htake, Log.endOffset_eq] at hb
      simpa using hb
    subst hnil
    obtain ⟨h1, h2⟩ := (same_writeAll hR hpos hkeys).applyOps ops
    exact ⟨h1, h2.stream⟩

/-- A cut inside the only record, one byte past its length prefix and table.
Kind: P -/
theorem reopen_truncated_mid_record :
    Runs new [([97], [[76]])] (new.write [97] [[76]]).1 ∧ magicHeader.length ≤ 14 ∧
      ReopensAt [([97], [[76]])] (new.write [97] [[76]]).1 14 :=
  ⟨.write _ _ .refl, by decide, reopen_truncated (.write _ _ .refl) (by decide)⟩

/-- `Write("a")`, then a `Write` whose payload `[88, 2, 0, 90, 0, 0]` holds the record of an
event `"Z"` (`[2, 0, 90]`), cut at 21 of the file's 22 bytes: inside the second record.
Source: src/cluster/rotate_command.go `New`, `openStream.Write`
Kind: D -/
def tornCut : Bytes := ((new.write [97] []).1.write [88, 2, 0, 90, 0, 0] []).1.stream.data.take 21

/-- The torn bytes past the rebuilt offset stay. A `Write("c")` after reopening `tornCut`
covers the first three torn bytes, and `Iterate` then decodes the rest as the event `"Z"`,
where a fresh stream given `Write("a")`, `Write("c")` yields two events.
Source: src/cluster/rotate_command.go `newOpenStream`, `scan`, `openStream.Iterate`
Kind: P -/
theorem reopen_keeps_torn_bytes :
    (newOpenStream ⟨tornCut, 0⟩).map
        (fun r => ((r.1.write [99] []).1.iterate 5).map fun i => i.1) =
        some (some [⟨[97], []⟩, ⟨[99], []⟩, ⟨[90], []⟩]) ∧
      ((((new.write [97] []).1.write [99] []).1.iterate 5).map fun i => i.1) =
        some [⟨[97], []⟩, ⟨[99], []⟩] := by
  decide

end Esdb.Stream
