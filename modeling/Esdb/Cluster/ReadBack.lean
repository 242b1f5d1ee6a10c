import Esdb.Cluster.Compress

/-!
# What a run leaves readable

From a directory with no stream files, the consensus layer applies `Write`s and `Rotate`s in
increasing commit order (`replay`). This module proves what the two cross-file reads then give
back, for every such run and every scanner.

* `feed` — a scanner passed events one at a time, as every read loop does: the events passed,
  up to and including the first it refuses. `iterLoop_feed`, `StreamFile.iterate_feed`,
  `chainLoop_feed` and `StreamFile.scanIndex_feed` — the per-file reads feed a file's events,
  oldest first from just past the first `i` (`StreamFile.offsetAfter`), or the events of its
  chain for a label, newest first.
* `CacheClosed`, `retrieveStream_cacheClosed` — the cache a read leaves holds closed files
  only, each the file at its commit.
* `walkEvents`, `labelChain`, `iterateLoop_feed`, `scanLoop_feed` — the loops of `Iterate` and
  `Scan` feed one file after another along a walk of commits stepped by `next` or `prev`,
  change nothing but the cache, and stop where the scanner does: `Iterate`'s at the point of
  the walk just past the refused event, `Scan`'s at the refused event's commit, with its
  back-pointer, 0 exactly when the event ended its file's chain. `iterate_walk` and `scan_walk`
  are the reads from a cursor at any point of a walk; `scanResume` is where `Scan`'s cursor
  resumes.
* `Command.written`, `Mirrors`, `Recorded` — the ghost of a run, the writes `(payload, labels)`
  applied so far: on top of `Settled`, every closed file's events are linked and the files of
  `closed` and then `current` hold events mirroring the writes. `Recorded.write` and
  `Recorded.rotate` are the step lemmas, `Recorded.applyAll` the run lemma, `replay_recorded`
  the result for a whole run; `Recorded.walk_eq` (the commits of `DB.forwardWalk`),
  `Recorded.forward_walk` and `Recorded.backward_walk` are the walks the reads make, and
  `Recorded.iterate_cached`, `Recorded.scan_cached` what the reads with no cursor give,
  whatever closed files are cached.
* `iterate_reads_writes` — after every run, `Iterate("")` feeds every scanner one event per
  write of the log, in log order, until it refuses one: nothing written is lost, repeated or
  reordered.
* `scan_reads_labelled_writes` — after every run, `Scan(name, value, "")` feeds it one event
  per write indexed under `name:value`, newest first: the back-pointer chains, followed file by
  file, find exactly what a filter of the whole log finds.
* `scan_from_continuation` — the cursor `Continuation(name, value)` reads what no cursor reads.
-/

namespace Esdb.Cluster

open Esdb.Binary Esdb.Stream

/-! ## A scanner fed one event at a time -/

/-- The events a scanner that has been passed `seen` has been passed once the events `evs` are
offered in turn, up to and including the first it refuses; and how many of `evs` it took when
it refused (`none` when it took them all). Every read loop of the DB treats its scanner so.
Source: src/cmd/esdb-reader.go `DB.Scan`, `DB.Iterate` (the scanner callbacks)
Kind: D -/
def feed (scanner : List Event → Bool) : List Event → List Event → List Event × Option Nat
  | seen, [] => (seen, none)
  | seen, e :: es =>
    if scanner (seen ++ [e]) then
      ((feed scanner (seen ++ [e]) es).1, (feed scanner (seen ++ [e]) es).2.map (· + 1))
    else (seen ++ [e], some 1)

section Feed

variable (scanner : List Event → Bool)

@[simp] theorem feed_nil (seen : List Event) : feed scanner seen [] = (seen, none) := rfl

theorem feed_cons (seen : List Event) (e : Event) (es : List Event) :
    feed scanner seen (e :: es) =
      if scanner (seen ++ [e]) then
        ((feed scanner (seen ++ [e]) es).1, (feed scanner (seen ++ [e]) es).2.map (· + 1))
      else (seen ++ [e], some 1) := rfl

/-- A scanner that never refuses is passed every event. -/
theorem feed_true : ∀ seen evs : List Event, feed (fun _ => true) seen evs = (seen ++ evs, none)
  | _, [] => by simp
  | seen, e :: es => by simp [feed, feed_true (seen ++ [e]) es]

/-- What a scanner has been passed extends what it had been passed before. -/
theorem feed_prefix : ∀ seen evs : List Event, ∃ t, (feed scanner seen evs).1 = seen ++ t
  | seen, [] => ⟨[], by simp⟩
  | seen, e :: es => by
    rw [feed_cons]
    split
    · obtain ⟨t, ht⟩ := feed_prefix (seen ++ [e]) es
      exact ⟨e :: t, by simp [ht]⟩
    · exact ⟨[e], rfl⟩

/-- The test every read loop makes after a file — some event of it was passed and the scanner
refuses what it has been passed — holds exactly when the scanner refused one of the file's
events.
Source: src/cmd/esdb-reader.go `DB.Scan`, `DB.Iterate` (`stopped`)
Kind: L -/
theorem feed_stops : ∀ seen evs : List Event,
    (!((feed scanner seen evs).1.drop seen.length).isEmpty && !scanner (feed scanner seen evs).1) =
      (feed scanner seen evs).2.isSome
  | seen, [] => by simp
  | seen, e :: es => by
    rw [feed_cons]
    by_cases hs : scanner (seen ++ [e]) = true
    · rw [if_pos hs]
      obtain ⟨t, ht⟩ := feed_prefix scanner (seen ++ [e]) es
      have ih := feed_stops (seen ++ [e]) es
      rw [ht] at ih ⊢
      simp only [List.length_append, List.length_singleton, List.append_assoc, List.drop_left,
        List.drop_append_of_le_length (Nat.le_refl _)] at ih ⊢
      cases t with
      | nil =>
        simp only [List.append_nil] at ih ⊢
        simp [← ih, hs]
      | cons t₀ t => simpa using ih
    · rw [if_neg hs]
      simp [hs]

/-- After all of `A` was taken, offering `A ++ B` goes on with `B`. -/
theorem feed_append_of_none {seen A : List Event} (h : (feed scanner seen A).2 = none)
    (B : List Event) :
    feed scanner seen (A ++ B) =
      ((feed scanner (feed scanner seen A).1 B).1,
        (feed scanner (feed scanner seen A).1 B).2.map (· + A.length)) := by
  induction A generalizing seen with
  | nil => simp
  | cons e A ih =>
    by_cases hs : scanner (seen ++ [e]) = true
    · simp only [List.cons_append, feed_cons, hs, if_true, Option.map_eq_none'] at h ⊢
      rw [ih h]
      simp [Option.map_map, Function.comp_def, Nat.add_assoc]
    · simp [feed_cons, hs] at h

/-- Once the scanner refused an event of `A`, nothing after `A` is offered. -/
theorem feed_append_of_some {seen A : List Event} {k : Nat} (h : (feed scanner seen A).2 = some k)
    (B : List Event) : feed scanner seen (A ++ B) = feed scanner seen A := by
  induction A generalizing seen k with
  | nil => simp at h
  | cons e A ih =>
    by_cases hs : scanner (seen ++ [e]) = true
    · simp only [List.cons_append, feed_cons, hs, if_true, Option.map_eq_some'] at h ⊢
      obtain ⟨k', hk', -⟩ := h
      rw [ih hk']
    · simp [feed_cons, hs]

/-- The event the scanner refused is one of those offered. -/
theorem feed_some_le {seen evs : List Event} {k : Nat} (h : (feed scanner seen evs).2 = some k) :
    k ≤ evs.length := by
  induction evs generalizing seen k with
  | nil => simp at h
  | cons e es ih =>
    rw [feed_cons] at h
    split at h
    · obtain ⟨k', hk', rfl⟩ := Option.map_eq_some'.mp h
      simpa using ih hk'
    · cases h
      simp

/-- When the scanner refused the `k`-th event offered it was passed exactly the first `k`, at
least one. -/
theorem feed_of_some {seen evs : List Event} {k : Nat} (h : (feed scanner seen evs).2 = some k) :
    (feed scanner seen evs).1 = seen ++ evs.take k ∧ 0 < k := by
  induction evs generalizing seen k with
  | nil => simp at h
  | cons e es ih =>
    rw [feed_cons] at h ⊢
    split at h
    · obtain ⟨k', hk', rfl⟩ := Option.map_eq_some'.mp h
      simp [*, (ih hk').1]
    · cases h
      simp [*]

end Feed

/-! ## The reads of one stream file -/

section File

variable (scanner : List Event → Bool)

/-- `Iterate`'s loop from the start of records `evs` followed by bytes that decode to `eof`:
it feeds the scanner `evs` and returns, when the scanner refused the `k`-th, the offset just
past it, and otherwise 0.
Source: spec §4.4, "Forward iteration"
Kind: L -/
theorem iterLoop_feed (img : Bytes) : ∀ (evs : List Event) (fuel off : Nat) (seen : List Event)
    (rest : Bytes), img.drop off = Log.flat evs ++ rest →
    (∀ e ∈ evs, (GoMap.keys e.offsets).Nodup) → (∃ n, decodeEvent rest = (.error .eof, n)) →
    evs.length < fuel →
    iterLoop scanner img fuel off seen = some ((feed scanner seen evs).1,
      .ok ((feed scanner seen evs).2.elim 0 fun k =>
        ((off + (Log.flat (evs.take k)).length : Nat) : Int)))
  | [], fuel + 1, off, seen, rest, himg, _, ⟨n, hrest⟩, _ => by
    simp only [iterLoop, himg, Log.flat, List.nil_append, hrest, feed_nil, Option.elim]
  | e :: evs, fuel + 1, off, seen, rest, himg, hnd, hrest, hf => by
    have hdec : decodeEvent (img.drop off) = (.ok e, e.length) := by
      rw [himg, Log.flat, List.append_assoc, decodeEvent_push (hnd e (List.mem_cons_self e evs))]
    have hdrop : img.drop (off + e.length) = Log.flat evs ++ rest := by
      rw [← List.drop_drop, himg, Log.flat, List.append_assoc, ← Event.length_push,
        List.drop_left]
    simp only [iterLoop, hdec, feed_cons]
    by_cases hs : scanner (seen ++ [e]) = true
    · rw [if_pos hs, if_pos hs, iterLoop_feed img evs fuel (off + e.length) (seen ++ [e]) rest
        hdrop (fun e' h => hnd e' (List.mem_cons_of_mem e h)) hrest (by simp at hf; omega)]
      rcases (feed scanner (seen ++ [e]) evs).2 with _ | k
      · rfl
      · simp only [Option.map_some', Option.elim, List.take_succ_cons, Log.flat,
          List.length_append, Event.length_push, Nat.add_assoc]
    · rw [if_neg hs, if_neg hs]
      simp only [Option.elim, List.take_succ_cons, List.take_zero, Log.flat, List.append_nil,
        Event.length_push]
      rfl

/-- The offset just past a file's first `i` events, where `Iterate` resumes after them.
Source: spec §4.4, "Forward iteration"; §8.5
Kind: D -/
def StreamFile.offsetAfter (f : StreamFile) (i : Nat) : Nat :=
  magicHeader.length + (Log.flat (f.log.reverse.take i)).length

/-- `Iterate` from offset 0 starts after the header, where the first event is.
Source: spec §4.4, "Forward iteration"
Kind: L -/
theorem StreamFile.iterate_zero (f : StreamFile) (seen : List Event) :
    f.iterate 0 scanner seen = f.iterate (f.offsetAfter 0) scanner seen := by
  simp [StreamFile.iterate, StreamFile.offsetAfter, Log.flat]

/-- `Iterate` on a stream file from just past its first `i` events feeds the scanner the rest,
oldest first, and returns the offset past the one it refused, or 0.
Source: spec §4.4, "Forward iteration"
Kind: L -/
theorem StreamFile.iterate_feed (f : StreamFile) (hnd : ∀ e ∈ f.log, (GoMap.keys e.offsets).Nodup)
    (i : Nat) (seen : List Event) :
    f.iterate (f.offsetAfter i) scanner seen = some ((feed scanner seen (f.log.reverse.drop i)).1,
      .ok ((feed scanner seen (f.log.reverse.drop i)).2.elim 0 fun k =>
        ((f.offsetAfter (i + k) : Nat) : Int))) := by
  have hdrop : f.image.drop (f.offsetAfter i) =
      Log.flat (f.log.reverse.drop i) ++ (if f.closed then putInt32 0 else []) := by
    have h := congrArg Log.flat (List.take_append_drop i f.log.reverse)
    rw [Log.flat_append] at h
    rw [StreamFile.image, List.append_assoc, StreamFile.offsetAfter, ← List.drop_drop,
      List.drop_left, Log.records_eq_flat, ← h, List.append_assoc, List.drop_left]
  have hlen : (f.log.reverse.drop i).length < f.image.length + 1 := by
    have := Log.length_le_records f.log
    simp only [StreamFile.image, List.length_append, List.length_reverse, List.length_drop]
    omega
  have hpos : ¬((f.offsetAfter i : Nat) : Int) < 0 := by omega
  have hne : ((f.offsetAfter i : Nat) : Int) ≠ 0 := by
    have : 0 < magicHeader.length := by simp [magicHeader_length]
    simp only [StreamFile.offsetAfter]
    omega
  simp only [StreamFile.iterate, hpos, if_false, hne, Int.toNat_ofNat]
  rw [iterLoop_feed scanner _ _ _ _ _ _ hdrop (fun e he => hnd e (List.mem_reverse.mp
    (List.mem_of_mem_drop he))) (decodeEvent_end f.closed) hlen]
  rcases (feed scanner seen (f.log.reverse.drop i)).2 with _ | k
  · rfl
  · simp only [Option.elim, StreamFile.offsetAfter, List.take_add, Log.flat_append,
      List.length_append, Nat.add_assoc]

/-- `ScanIndex`'s loop from a linked log's chain head for `L`: it feeds the scanner the events
carrying `L`, newest first, following each one's back-pointer.
Source: spec §4.4, "Reverse indexed scan"
Kind: L -/
theorem chainLoop_feed (L : Bytes) : ∀ (es : Log) (extra : Bytes) (fuel : Nat) (seen : List Event),
    Log.Linked es → (es.filter fun e => L ∈ GoMap.keys e.offsets).length < fuel →
    chainLoop L scanner (magicHeader ++ Log.records es ++ extra) fuel ((Log.tail es L).getD 0)
        seen =
      some ((feed scanner seen (es.filter fun e => L ∈ GoMap.keys e.offsets)).1, .ok ())
  | [], extra, fuel + 1, seen, _, _ => by simp [chainLoop, Log.tail]
  | e :: es, extra, fuel, seen, ⟨hnd, hback, hlinked⟩, hf => by
    have hdata : magicHeader ++ Log.records (e :: es) ++ extra =
        magicHeader ++ Log.records es ++ (e.push ++ extra) := by
      simp only [Log.records_cons, List.append_assoc]
    rw [hdata]
    by_cases hc : L ∈ GoMap.keys e.offsets
    · obtain ⟨k, rfl⟩ := Nat.exists_eq_add_one_of_ne_zero (Nat.not_eq_zero_of_lt hf)
      have hpos : Log.endOffset es ≠ 0 := by
        rw [Log.endOffset_eq, magicHeader_length]; omega
      have hdec : decodeEvent ((magicHeader ++ Log.records es ++ (e.push ++ extra)).drop
          (Log.endOffset es)) = (.ok e, e.length) := by
        rw [Log.drop_endOffset, decodeEvent_push hnd]
      simp only [Log.tail, hc, if_true, Option.getD_some, chainLoop, hpos, if_false, hdec,
        List.filter_cons, decide_True, feed_cons, hback L hc]
      by_cases hs : scanner (seen ++ [e]) = true
      · rw [if_pos hs, if_pos hs, chainLoop_feed L es _ k (seen ++ [e]) hlinked
          (by simp [hc] at hf; omega)]
      · rw [if_neg hs, if_neg hs]
    · simp only [Log.tail, hc, if_false, List.filter_cons, decide_False]
      exact chainLoop_feed L es _ fuel seen hlinked (by simpa [hc] using hf)

/-- `ScanIndex(name, value, 0, scanner)` on a stream file with a linked log feeds the scanner
the events indexed under `name:value`, newest first.
Source: spec §4.4, "Reverse indexed scan"
Kind: L -/
theorem StreamFile.scanIndex_feed (f : StreamFile) (hl : Log.Linked f.log) (name value : Bytes)
    (seen : List Event) :
    f.scanIndex name value 0 scanner seen = some ((feed scanner seen
      (f.log.filter fun e => label name value ∈ GoMap.keys e.offsets)).1, .ok ()) := by
  have hlen : (f.log.filter fun e => label name value ∈ GoMap.keys e.offsets).length <
      f.image.length + 1 := by
    have := Log.length_le_records f.log
    have := List.length_filter_le (fun e => decide (label name value ∈ GoMap.keys e.offsets)) f.log
    simp only [StreamFile.image, List.length_append]
    omega
  simp only [StreamFile.scanIndex, lt_self_iff_false, if_false, if_true, StreamFile.first]
  exact chainLoop_feed scanner _ f.log _ _ seen hl hlen

end File

/-! ## The cross-file loops -/

/-- Every cached stream is the closed stream file at its commit: what a read with no cursor
caches, and what `Write` and `Rotate`, which change the files only at `current` and above, keep.
Source: src/cmd/esdb-reader.go `DB.retrieveStream`
Kind: D -/
def CacheClosed (db : DB) : Prop :=
  ∀ c s, (db.streams.get? c).join = some s → db.files.get? c = some (.stream s) ∧ s.closed = true

/-- A cache of closed files agrees with the files.
Source: none: infrastructure
Kind: L -/
theorem CacheClosed.cacheAgrees {db : DB} (h : CacheClosed db) : CacheAgrees db :=
  fun c s hc => (h c s hc).1

/-- `retrieveStream` at a commit `Iterate` reads keeps the cache closed.
Source: src/cmd/esdb-reader.go `DB.retrieveStream`
Kind: L -/
theorem retrieveStream_cacheClosed {db : DB} {x : UInt64} {f : StreamFile} (hr : ReadsAt db x f)
    (hc : CacheClosed db) (recover : UInt64 → Except DBError (Option StreamFile)) :
    ∃ streams, db.retrieveStream recover x true = .ok (some f, { db with streams := streams }) ∧
      CacheClosed { db with streams := streams } := by
  obtain ⟨streams, hret, hst⟩ := retrieveStream_readsAt_streams hr hc.cacheAgrees recover
  refine ⟨streams, hret, ?_⟩
  rcases hst with rfl | ⟨-, hfile, hclosed, rfl⟩
  · exact hc
  · exact cached_set hc ⟨hfile, hclosed⟩

section WithStreams

variable (db : DB) (streams : GoMap UInt64 (Option StreamFile))

@[simp] theorem DB.next_withStreams : ({ db with streams := streams } : DB).next = db.next := rfl
@[simp] theorem DB.prev_withStreams : ({ db with streams := streams } : DB).prev = db.prev := rfl
@[simp] theorem DB.parseContinuation_withStreams (continuation : String) (reverse : Bool) :
    ({ db with streams := streams } : DB).parseContinuation continuation reverse =
      db.parseContinuation continuation reverse := rfl

end WithStreams

section Walk

variable (recover : UInt64 → Except DBError (Option StreamFile)) (scanner : List Event → Bool)
  (file : UInt64 → StreamFile)

/-- The events a forward read passes along a walk from just past the first `i` events of the
first commit's file: the rest of that file, then each later commit's file, oldest event first.
Source: spec §4.5, "Iterate"
Kind: D -/
def walkEvents (file : UInt64 → StreamFile) (x : UInt64) (i : Nat) (W : List UInt64) :
    List Event :=
  (file x).log.reverse.drop i ++ W.flatMap fun y => (file y).log.reverse

/-- In a walk stepped by `f` and ending in 0, the walk from any of its commits on is a walk
too, and the commit steps to the one after it, the last to 0.
Source: none: infrastructure
Kind: L -/
theorem walk_suffix {f : UInt64 → UInt64} {x c : UInt64} {W W' : List UInt64}
    (hch : (W ++ [0]).Chain (fun a b => f a = b) x) (hsuf : (c :: W') <:+ (x :: W)) :
    (W' ++ [0]).Chain (fun a b => f a = b) c ∧ f c = W'.headD 0 := by
  obtain ⟨t, ht⟩ := hsuf
  have h : (c :: (W' ++ [0])).Chain' (fun a b => f a = b) :=
    List.Chain'.suffix (l := x :: (W ++ [0])) hch
      ⟨t, by rw [← List.cons_append, ← List.append_assoc, ht, List.cons_append]⟩
  refine ⟨h, ?_⟩
  cases W' with
  | nil => simpa using h
  | cons d W' => exact h.rel_head

/-- `Iterate`'s loop from just past the first `i` events of the first commit's file (offset 0
for none) along a walk in which `next` steps from each commit to the following one and from
the last to 0, each commit nonzero with the stream it is to read well formed: it feeds the
scanner the rest of the walk's events, changing nothing but the cache. When the scanner refuses
an event it stops at that event's commit, just past it: at a point of the walk from which what
is left is exactly the events after the refused one; otherwise at commit 0 and offset 0.
Source: src/cmd/esdb-reader.go `DB.Iterate`
Kind: L -/
theorem iterateLoop_feed : ∀ (W : List UInt64) (x : UInt64) (i : Nat) (o : Int) (fuel : Nat)
    (db : DB) (seen : List Event), (o = 0 ∧ i = 0 ∨ o = (file x).offsetAfter i) →
    (W ++ [0]).Chain (fun a b => db.next a = b) x →
    (∀ y ∈ x :: W, y ≠ 0 ∧ ReadsAt db y (file y) ∧
      ∀ e ∈ (file y).log, (GoMap.keys e.offsets).Nodup) →
    CacheClosed db → W.length + 1 < fuel →
    ∃ db' c o', DB.iterateLoop recover scanner fuel db x o seen =
        some (.ok (db', c, o', (feed scanner seen (walkEvents file x i W)).1)) ∧
      ((feed scanner seen (walkEvents file x i W)).2 = none → c = 0 ∧ o' = 0) ∧
      (∀ k, (feed scanner seen (walkEvents file x i W)).2 = some k →
        ∃ y W' j, (y :: W') <:+ (x :: W) ∧ c = y ∧ o' = (file y).offsetAfter j ∧
          walkEvents file y j W' = (walkEvents file x i W).drop k) ∧
      db' = { db with streams := db'.streams } ∧ CacheClosed db'
  | W, x, i, o, fuel + 1, db, seen, ho, hch, hW, hc, hf => by
    obtain ⟨hx0, hrx, hnd⟩ := hW x (List.mem_cons_self x W)
    obtain ⟨streams, hret, hc'⟩ := retrieveStream_cacheClosed hrx hc recover
    have hit : (file x).iterate o scanner seen = (file x).iterate ((file x).offsetAfter i) scanner
        seen := by
      rcases ho with ⟨rfl, rfl⟩ | rfl
      · exact StreamFile.iterate_zero scanner _ seen
      · rfl
    simp only [DB.iterateLoop, if_neg hx0, hret, hit, StreamFile.iterate_feed scanner _ hnd,
      feed_stops, walkEvents]
    rcases hk : (feed scanner seen ((file x).log.reverse.drop i)).2 with _ | k
    · -- the scanner took the rest of the file: on to `next(x)`
      simp only [Option.isSome_none, Bool.false_eq_true, if_false,
        feed_append_of_none scanner hk, Option.map_eq_none']
      cases W with
      | nil =>
        rw [List.nil_append, List.chain_singleton] at hch
        rw [show ({ db with streams := streams } : DB).next x = 0 from hch]
        obtain ⟨fuel, rfl⟩ : ∃ k, fuel = k + 1 :=
          Nat.exists_eq_add_one_of_ne_zero (by simp at hf; omega)
        exact ⟨{ db with streams := streams }, 0, 0, by simp [DB.iterateLoop],
          fun _ => ⟨rfl, rfl⟩, fun k h => by simp at h, rfl, hc'⟩
      | cons x' W =>
        rw [List.cons_append, List.chain_cons] at hch
        rw [show ({ db with streams := streams } : DB).next x = x' from hch.1]
        obtain ⟨db', c, o', h1, h2, h3, h4, h5⟩ := iterateLoop_feed W x' 0 0 fuel
          { db with streams := streams } _ (.inl ⟨rfl, rfl⟩) hch.2
          (fun y hy => hW y (List.mem_cons_of_mem x hy)) hc' (by simp at hf ⊢; omega)
        simp only [walkEvents, List.drop_zero, List.flatMap_cons] at h1 h2 h3
        refine ⟨db', c, o', h1, h2, fun k' hk' => ?_, h4, h5⟩
        -- the refused event is in a later file: count past the rest of this one
        obtain ⟨k, hk'', rfl⟩ := Option.map_eq_some'.mp hk'
        obtain ⟨y, W', j, hsuf, hc, ho', hrest⟩ := h3 k hk''
        refine ⟨y, W', j, hsuf.trans (List.suffix_cons x _), hc, ho', ?_⟩
        rw [hrest, Nat.add_comm, List.drop_append]
        rfl
    · -- the scanner refused an event of this file
      simp only [Option.isSome_some, if_true, feed_append_of_some scanner hk, hk]
      refine ⟨_, x, _, rfl, fun h => absurd h (by simp), fun k' hk' => ⟨x, W, i + k,
        List.suffix_refl _, rfl, rfl, ?_⟩, rfl, hc'⟩
      cases hk'
      have hle := feed_some_le scanner hk
      rw [List.drop_append_of_le_length hle, List.drop_drop, Nat.add_comm]

/-- `Iterate` with any cache of closed files, from a cursor that parses to a point of a walk
stepped by `next` (a commit of it, at offset 0 or just past the first `i` events of its file),
each commit nonzero and read from its well formed stream file, feeds the scanner the rest of the walk's events and changes nothing but the cache, which
stays closed. When the scanner refuses an event the cursor returned is the point of the walk
just past it; otherwise it is empty.
Source: src/cmd/esdb-reader.go `DB.Iterate`, `DB.next`, `DB.parseContinuation`,
`DB.retrieveStream`, `buildContinuation`
Kind: L -/
theorem iterate_walk {db : DB} {streams : GoMap UInt64 (Option StreamFile)}
    (hc : CacheClosed { db with streams := streams }) {x : UInt64} {W : List UInt64}
    (hch : (W ++ [0]).Chain (fun a b => db.next a = b) x)
    (hread : ∀ y ∈ x :: W, y ≠ 0 ∧ ReadsAt db y (fileStream db.files y) ∧
      ∀ e ∈ (fileStream db.files y).log, (GoMap.keys e.offsets).Nodup)
    (hfuel : W.length + 1 < db.closed.length + 3) {cursor : String} {y : UInt64}
    {W' : List UInt64} {i : Nat} {o : Int} (hsuf : (y :: W') <:+ (x :: W))
    (hpc : db.parseContinuation cursor false = (y, o))
    (ho : o = 0 ∧ i = 0 ∨ o = (fileStream db.files y).offsetAfter i) :
    ∃ cursor' db', ({ db with streams := streams } : DB).iterate recover cursor scanner =
        some (.ok (cursor', (feed scanner [] (walkEvents (fileStream db.files) y i W')).1, db')) ∧
      ((feed scanner [] (walkEvents (fileStream db.files) y i W')).2 = none → cursor' = "") ∧
      (∀ k, (feed scanner [] (walkEvents (fileStream db.files) y i W')).2 = some k →
        ∃ y' W'' j, (y' :: W'') <:+ (x :: W) ∧
          cursor' = buildContinuation y' ((fileStream db.files y').offsetAfter j) ∧
          walkEvents (fileStream db.files) y' j W'' =
            (walkEvents (fileStream db.files) y i W').drop k) ∧
      db' = { db with streams := db'.streams } ∧ CacheClosed db' := by
  -- the rest of the walk, from `y`, is a walk too
  have hlen := hsuf.length_le
  obtain ⟨db', c, o', hloop, hnone, hstop, hframe, hc'⟩ := iterateLoop_feed recover scanner
    (fileStream db.files) W' y i o (db.closed.length + 3) { db with streams := streams } [] ho
    (walk_suffix hch hsuf).1 (fun z hz => hread z (hsuf.subset hz)) hc
    (by simp only [List.length_cons] at hlen; omega)
  refine ⟨buildContinuation c o', db', ?_, fun h => ?_, fun k hk => ?_, hframe, hc'⟩
  · simp only [DB.iterate, DB.parseContinuation_withStreams, hpc, hloop]; rfl
  · rw [(hnone h).1]; rfl
  · obtain ⟨y', W'', j, hsuf', hcy, hoj, hrest⟩ := hstop k hk
    exact ⟨y', W'', j, hsuf'.trans hsuf, by rw [hcy, hoj], hrest⟩

/-- The events of the file at a commit indexed under `name:value`, newest first: the chain
`ScanIndex` follows from the label's head.
Source: spec §4.4, "Reverse indexed scan"
Kind: D -/
def labelChain (file : UInt64 → StreamFile) (name value : Bytes) (y : UInt64) : List Event :=
  (file y).log.filter fun e => label name value ∈ GoMap.keys e.offsets

/-- Where `Scan` resumes on a walk, each commit of which gives the events `chain` of its file,
after its scanner refused the `k`-th event fed along it. The cursor names the refused event's
commit at offset 0, so the next read starts that file's chain again from its head; when the
refused event ended its file's chain (its back-pointer is 0) it names the commit after. `[]`
when that is past the walk's end: the cursor is then empty.
Source: src/cmd/esdb-reader.go `DB.Scan`
Kind: D -/
def scanResume (chain : UInt64 → List Event) : List UInt64 → Nat → List UInt64
  | [], _ => []
  | y :: W, k =>
    if k < (chain y).length then y :: W
    else if k = (chain y).length then W
    else scanResume chain W (k - (chain y).length)

/-- `Scan`'s loop from offset 0 at the first commit of a walk in which `prev` steps from each
commit to the following one and from the last to 0, each commit nonzero with the stream it is
to read linked: it feeds the scanner, file after file, the events indexed under
`name:value`, newest first, and changes nothing but the cache. When the scanner refuses an
event the loop stops at its commit, with its back-pointer, which is 0 exactly when the event
ended its file's chain (so where `Scan` resumes is `scanResume`); when it never did, at commit
0, not stopped.
Source: src/cmd/esdb-reader.go `DB.Scan`
Kind: L -/
theorem scanLoop_feed (name value : Bytes) : ∀ (W : List UInt64) (x : UInt64) (fuel : Nat)
    (db : DB) (seen : List Event), (W ++ [0]).Chain (fun a b => db.prev a = b) x →
    (∀ y ∈ x :: W, y ≠ 0 ∧ ReadsAt db y (file y) ∧ Log.Linked (file y).log) →
    CacheClosed db → W.length + 1 < fuel →
    ∃ db' c o st, DB.scanLoop recover name value scanner fuel db x 0 seen = some (.ok (db', c, o,
        (feed scanner seen ((x :: W).flatMap (labelChain file name value))).1, st)) ∧
      ((feed scanner seen ((x :: W).flatMap (labelChain file name value))).2 = none →
        c = 0 ∧ st = false) ∧
      (∀ k, (feed scanner seen ((x :: W).flatMap (labelChain file name value))).2 = some k →
        st = true ∧ ∃ W', (c :: W') <:+ (x :: W) ∧
          scanResume (labelChain file name value) (x :: W) k = if o = 0 then W' else c :: W') ∧
      db' = { db with streams := db'.streams } ∧ CacheClosed db'
  | W, x, fuel + 1, db, seen, hch, hW, hc, hf => by
    obtain ⟨hx0, hrx, hl⟩ := hW x (List.mem_cons_self x W)
    obtain ⟨streams, hret, hc'⟩ := retrieveStream_cacheClosed hrx hc recover
    have hsi : (file x).scanIndex name value 0 scanner seen =
        some ((feed scanner seen (labelChain file name value x)).1, .ok ()) :=
      StreamFile.scanIndex_feed scanner _ hl name value seen
    simp only [DB.scanLoop, if_neg hx0, hret, hsi, feed_stops, List.flatMap_cons]
    rcases hk : (feed scanner seen (labelChain file name value x)).2 with _ | k
    · -- the scanner took the file's whole chain: on to `prev(x)`
      simp only [Option.isSome_none, Bool.false_eq_true, if_false,
        feed_append_of_none scanner hk, Option.map_eq_none', Option.map_eq_some']
      cases W with
      | nil =>
        rw [List.nil_append, List.chain_singleton] at hch
        rw [show ({ db with streams := streams } : DB).prev x = 0 from hch]
        obtain ⟨fuel, rfl⟩ : ∃ k, fuel = k + 1 :=
          Nat.exists_eq_add_one_of_ne_zero (by simp at hf; omega)
        exact ⟨{ db with streams := streams }, 0, 0, false, by simp [DB.scanLoop],
          fun _ => ⟨rfl, rfl⟩, fun k ⟨_, h, _⟩ => by simp at h, rfl, hc'⟩
      | cons x' W =>
        rw [List.cons_append, List.chain_cons] at hch
        rw [show ({ db with streams := streams } : DB).prev x = x' from hch.1]
        obtain ⟨db', c, o, st, h1, hnone, hstop, hframe, hc''⟩ :=
          scanLoop_feed name value W x' fuel { db with streams := streams } _ hch.2
            (fun y hy => hW y (List.mem_cons_of_mem x hy)) hc' (by simp at hf ⊢; omega)
        refine ⟨db', c, o, st, h1, hnone, fun k ⟨k', hk', hkk⟩ => ?_, hframe, hc''⟩
        -- the refused event lies past this file's chain
        obtain ⟨hst, W', hsuf, hres⟩ := hstop k' hk'
        have hpos := (feed_of_some scanner hk').2
        refine ⟨hst, W', hsuf.trans (List.suffix_cons x _), ?_⟩
        rw [scanResume, if_neg (by omega), if_neg (by omega), ← hkk, Nat.add_sub_cancel, hres]
    · -- the scanner refused an event of this file, the last it was passed
      obtain ⟨hfst, hpos⟩ := feed_of_some scanner hk
      obtain ⟨k, rfl⟩ := Nat.exists_eq_add_one_of_ne_zero hpos.ne'
      have hlt : k < (labelChain file name value x).length := feed_some_le scanner hk
      have hbp := Log.Linked.backPointer_eq_zero_iff hl (by
        rw [← List.take_append_drop k (labelChain file name value x),
          List.drop_eq_getElem_cons hlt] : labelChain file name value x = _)
      rw [List.drop_eq_nil_iff] at hbp
      simp only [Option.isSome_some, if_true, feed_append_of_some scanner hk, hk, hfst,
        List.drop_left, List.take_succ, List.getElem?_eq_getElem hlt, Option.toList_some,
        List.getLast?_concat]
      refine ⟨_, x, _, true, rfl, fun h => absurd h (by simp), fun k' hk' => ⟨rfl, W,
        List.suffix_refl _, ?_⟩, rfl, hc'⟩
      cases hk'
      rw [scanResume]
      by_cases hend : k + 1 = (labelChain file name value x).length
      · rw [if_neg (by omega), if_pos hend, hbp.mpr (by omega)]
        rfl
      · rw [if_pos (by omega), if_neg (by exact_mod_cast mt hbp.mp (by omega))]

/-- `Scan` with any cache of closed files, from a cursor that parses to a commit of a walk
stepped by `prev` at offset 0, each commit nonzero and read from its linked stream file, feeds
the scanner the events of the rest of the walk indexed under `name:value`, newest first, and
changes nothing but the cache, which stays closed. When the scanner refuses an event the
cursor returned names where it resumes, `scanResume`: a point of the walk at offset 0, or the
empty cursor past its end; otherwise it is empty.
Source: src/cmd/esdb-reader.go `DB.Scan`, `DB.prev`, `DB.parseContinuation`,
`DB.retrieveStream`, `buildContinuation`
Kind: L -/
theorem scan_walk {db : DB} {streams : GoMap UInt64 (Option StreamFile)}
    (hc : CacheClosed { db with streams := streams }) (name value : Bytes) {x : UInt64}
    {W : List UInt64} (hch : (W ++ [0]).Chain (fun a b => db.prev a = b) x)
    (hread : ∀ y ∈ x :: W, y ≠ 0 ∧ ReadsAt db y (fileStream db.files y) ∧
      Log.Linked (fileStream db.files y).log)
    (hfuel : W.length + 1 < db.closed.length + 2) {cursor : String} {y : UInt64}
    {W' : List UInt64} (hsuf : (y :: W') <:+ (x :: W))
    (hpc : db.parseContinuation cursor true = (y, 0)) :
    ∃ cursor' db', ({ db with streams := streams } : DB).scan recover name value cursor scanner =
        some (.ok (cursor', (feed scanner []
          ((y :: W').flatMap (labelChain (fileStream db.files) name value))).1, db')) ∧
      ((feed scanner [] ((y :: W').flatMap (labelChain (fileStream db.files) name value))).2 =
        none → cursor' = "") ∧
      (∀ k, (feed scanner []
          ((y :: W').flatMap (labelChain (fileStream db.files) name value))).2 = some k →
        scanResume (labelChain (fileStream db.files) name value) (y :: W') k <:+ (x :: W) ∧
        cursor' = buildContinuation
          ((scanResume (labelChain (fileStream db.files) name value) (y :: W') k).headD 0) 0) ∧
      db' = { db with streams := db'.streams } ∧ CacheClosed db' := by
  have hlen := hsuf.length_le
  obtain ⟨db', c, o, st, hloop, hnone, hstop, hframe, hc'⟩ := scanLoop_feed recover scanner
    (fileStream db.files) name value W' y (db.closed.length + 2) { db with streams := streams } []
    (walk_suffix hch hsuf).1 (fun z hz => hread z (hsuf.subset hz)) hc
    (by simp only [List.length_cons] at hlen; omega)
  refine ⟨buildContinuation (if st ∧ o = 0 then db'.prev c else c) 0, db', ?_, fun h => ?_,
    fun k hk => ?_, hframe, hc'⟩
  · simp only [DB.scan, DB.parseContinuation_withStreams, hpc, hloop]; rfl
  · obtain ⟨rfl, rfl⟩ := hnone h
    rfl
  · -- the commit the loop stopped at is on the walk; `prev` steps from it to the next one
    obtain ⟨rfl, W₁, hsuf₁, hres⟩ := hstop k hk
    have hsuf₂ := hsuf₁.trans hsuf
    have hprev : db'.prev c = W₁.headD 0 := by rw [hframe]; exact (walk_suffix hch hsuf₂).2
    rw [hres]
    by_cases ho : o = 0
    · simp only [ho, if_true, true_and, hprev, and_true]
      exact (List.suffix_cons c W₁).trans hsuf₂
    · simp only [ho, if_false, and_false]
      exact ⟨hsuf₂, rfl⟩

end Walk

/-! ## What a run keeps: the files mirror the writes -/

/-- The writes of a command as `(payload, labels)`: its own for a `Write`, none for a
`Rotate`.
Source: src/cmd/esdb-reader.go `DB.Write`
Kind: D -/
def Command.written : Command → List (Bytes × List Bytes)
  | .write _ body indexes _ => [(body, labels indexes)]
  | .rotate _ _ => []

/-- Events mirror writes: one event per write, in order, carrying the write's payload and a
back-pointer for exactly the write's labels.
Source: spec §4.4, Write algorithm
Kind: D -/
def Mirrors (evs : List Event) (ws : List (Bytes × List Bytes)) : Prop :=
  List.Forall₂ (fun e w => e.data = w.1 ∧ ∀ L, L ∈ GoMap.keys e.offsets ↔ L ∈ w.2) evs ws

/-- A run's state, with the writes `ws` it applied as a ghost: it is settled, the closed
files' events are linked, the files of `closed` and then `current`, read in commit order,
mirror `ws`, and a `current` of `MaxUint64` (which `Iterate` never reads) has an empty file.
Source: src/cmd/esdb-reader.go `NewDb`, `DB.Write`, `DB.Rotate`
Kind: D -/
structure Recorded (db : DB) (ws : List (Bytes × List Bytes)) : Prop where
  settled : Settled db
  linked : ∀ c ∈ db.closed, Log.Linked (fileStream db.files c).log
  mirrors : Mirrors ((db.closed ++ [db.current]).flatMap (fileEvents db.files)) ws
  max_empty : db.current = maxUint64 → fileEvents db.files db.current = []

/-- On a settled state, `Rotate` above `current` closes the held stream's file, adds `current`
to `closed` and holds a fresh file at the commit.
Source: src/cmd/esdb-reader.go `DB.Rotate`, `DB.setCurrent`
Kind: L -/
theorem Settled.rotate_state {db : DB} (hs : Settled db) {s : StreamFile}
    (hst : db.stream = some s) {commit : UInt64} (hc : db.current < commit) (term : UInt64) :
    db.rotate commit term = .ok { db with
      closed := db.closed ++ [db.current], current := commit, mockoffset := 10,
      stream := some StreamFile.empty,
      files := (db.files.set db.current (.stream s.close)).set commit
        (.stream StreamFile.empty) } := by
  rw [hs.live.rotate_eq hc term]
  simp [DB.closeCurrent, DB.setCurrent, hst, DB.addClosed, hs.current_not_closed]

namespace Recorded

variable {db : DB} {ws : List (Bytes × List Bytes)}

/-- A `Write` above `current` appends its event to the current file: the files mirror the
writes with it added.
Source: src/cmd/esdb-reader.go `DB.Write`
Kind: L -/
theorem write (hr : Recorded db ws) {commit : UInt64} (hc : db.current < commit) (body : Bytes)
    (indexes : List (Bytes × Bytes)) (timestamp : Int) :
    ∃ db', db.write commit body indexes timestamp = .ok db' ∧
      Recorded db' (ws ++ [(body, labels indexes)]) ∧ db'.current = db.current := by
  obtain ⟨s, hst, -⟩ := hr.settled.live.stream_open
  have heq := hr.settled.live.write_eq hst hc body indexes timestamp
  obtain ⟨db₁, h1, hs₁, -⟩ := hr.settled.write hc body indexes timestamp
  rw [heq] at h1
  cases h1
  have hcur := hr.settled.current_not_closed
  have hf := fileStream_of_get (hr.settled.held s hst).1
  refine ⟨_, heq, ⟨hs₁, fun c hc' => ?_, ?_, fun h => ?_⟩, rfl⟩
  · have hne : db.current ≠ c := fun h => hcur (h ▸ hc')
    simpa [fileStream, GoMap.get?_set, hne] using hr.linked c hc'
  · have hm := hr.mirrors
    simp only [List.flatMap_append, List.flatMap_singleton, fileEvents, hf] at hm
    simp only [List.flatMap_append, List.flatMap_singleton, flatMap_fileEvents_set _ hcur]
    simp only [fileEvents, fileStream, GoMap.get?_set, if_true, Log.append, List.reverse_cons,
      ← List.append_assoc]
    exact List.rel_append hm (.cons ⟨rfl, by simp [newEvent]⟩ .nil)
  · exact absurd h (UInt64.ne_of_lt (Nat.lt_of_lt_of_le hc (le_maxUint64 _)))

/-- A `Rotate` above `current` closes the current file and starts an empty one: the files
still mirror the same writes.
Source: src/cmd/esdb-reader.go `DB.Rotate`
Kind: L -/
theorem rotate (hr : Recorded db ws) {commit : UInt64} (hc : db.current < commit)
    (term : UInt64) :
    ∃ db', db.rotate commit term = .ok db' ∧ Recorded db' ws ∧ db'.current = commit := by
  obtain ⟨s, hst, -⟩ := hr.settled.live.stream_open
  have heq := hr.settled.rotate_state hst hc term
  obtain ⟨db₁, h1, hs₁, -⟩ := hr.settled.rotate hc term
  rw [heq] at h1
  cases h1
  have hcur := hr.settled.current_not_closed
  have hheld := hr.settled.held s hst
  have hcc : ∀ c ∈ db.closed, commit ≠ c ∧ db.current ≠ c := fun c h =>
    ⟨(UInt64.ne_of_lt (Nat.lt_trans (hr.settled.lt_current h) hc)).symm,
      fun he => hcur (he ▸ h)⟩
  have hnc : commit ≠ db.current := (UInt64.ne_of_lt hc).symm
  refine ⟨_, heq, ⟨hs₁, fun c hc' => ?_, ?_,
    fun _ => by simp [fileEvents, fileStream, StreamFile.empty]⟩, rfl⟩
  · rcases List.mem_append.mp hc' with hc' | hc'
    · simpa [fileStream, GoMap.get?_set, hcc c hc'] using hr.linked c hc'
    · rw [List.mem_singleton.mp hc']
      simpa [fileStream, GoMap.get?_set, hnc, StreamFile.close] using hheld.2
  · have hm := hr.mirrors
    have hnotin : commit ∉ db.closed ++ [db.current] := by
      simpa [not_or] using ⟨fun h => (hcc commit h).1 rfl, hnc⟩
    rw [List.flatMap_append, flatMap_fileEvents_set _ hnotin, List.flatMap_append,
      flatMap_fileEvents_set _ hcur] at *
    simpa [fileEvents, fileStream, GoMap.get?_set, hnc, StreamFile.close, StreamFile.empty,
      hheld.1] using hm

/-- A command above `current` keeps the invariant with its writes added, and `current` stays at
most its commit.
Source: src/cmd/esdb-reader.go `DB.Write`, `DB.Rotate`
Kind: L -/
theorem apply (hr : Recorded db ws) {cmd : Command} (hc : db.current < cmd.commit) :
    ∃ db', db.apply cmd = .ok db' ∧ Recorded db' (ws ++ cmd.written) ∧
      db'.current ≤ cmd.commit := by
  cases cmd with
  | write commit body indexes timestamp =>
    obtain ⟨db', h, hr', hcur⟩ := hr.write hc body indexes timestamp
    exact ⟨db', h, hr', hcur ▸ Nat.le_of_lt hc⟩
  | rotate commit term =>
    obtain ⟨db', h, hr', hcur⟩ := hr.rotate hc term
    exact ⟨db', h, by simpa [Command.written] using hr', hcur ▸ UInt64.le_refl _⟩

/-- Over a whole log whose commits increase from above `current`, every command succeeds and
the files mirror the writes applied before and the log's writes after them.
Source: src/cmd/esdb-reader.go `DB.Write`, `DB.Rotate`
Kind: L -/
theorem applyAll : ∀ (log : List Command) {db : DB} {b : UInt64} {ws : List (Bytes × List Bytes)},
    Recorded db ws → db.current ≤ b → (log.map Command.commit).Chain (· < ·) b →
    ∃ db', db.applyAll log = .ok db' ∧ Recorded db' (ws ++ log.flatMap Command.written)
  | [], db, _, _, hr, _, _ => ⟨db, rfl, by simpa using hr⟩
  | cmd :: log, db, b, ws, hr, hb, hch => by
    rw [List.map_cons, List.chain_cons] at hch
    obtain ⟨db₁, h1, hr₁, hcur⟩ := hr.apply (Nat.lt_of_le_of_lt hb hch.1)
    obtain ⟨db', h2, hr'⟩ := applyAll log hr₁ hcur hch.2
    exact ⟨db', by simp only [DB.applyAll, List.foldlM_cons, h1]; exact h2,
      by simpa [List.append_assoc] using hr'⟩

end Recorded

/-- Mirroring passes to the events and writes carrying one label, in reverse order.
Source: spec §4.4, Write algorithm
Kind: L -/
theorem Mirrors.filter_reverse {evs : List Event} {ws : List (Bytes × List Bytes)}
    (h : Mirrors evs ws) (L : Bytes) :
    Mirrors (evs.filter fun e => L ∈ GoMap.keys e.offsets).reverse
      (ws.filter fun w => L ∈ w.2).reverse :=
  List.rel_reverse (List.rel_filter (fun _ _ hr => by simp [hr.2 L]) h)

/-! ## The reads of a recorded state -/

/-- Along the backward walk, the label's chains of the files of `closed` and `current`, newest
file first, are the events of those files, read in commit order, that carry the label, newest
first.
Source: spec §4.5, "Scan"
Kind: L -/
theorem flatMap_labelChain (files : GoMap UInt64 DiskFile) (name value : Bytes) (c : UInt64)
    (cs : List UInt64) :
    (c :: cs.reverse).flatMap (labelChain (fileStream files) name value) =
      (((cs ++ [c]).flatMap (fileEvents files)).filter
        fun e => label name value ∈ GoMap.keys e.offsets).reverse := by
  unfold labelChain
  simp [fileEvents, List.filter_flatMap, List.reverse_flatMap, Function.comp_def,
    List.filter_reverse]

/-- The commits a forward read with no cursor visits: `current` alone when nothing is closed,
otherwise the closed commits in order and then `current` below `MaxUint64`.
Source: src/cmd/esdb-reader.go `DB.Iterate`, `DB.next`, `DB.parseContinuation`
Kind: D -/
def DB.forwardWalk (db : DB) : List UInt64 :=
  if db.closed = [] then [db.current]
  else db.closed ++ if db.current < maxUint64 then [db.current] else []

/-- The forward walk visits closed commits and `current` only.
Source: none: infrastructure
Kind: L -/
theorem DB.mem_of_mem_forwardWalk {db : DB} {y : UInt64} (h : y ∈ db.forwardWalk) :
    y ∈ db.closed ++ [db.current] := by
  unfold DB.forwardWalk at h
  split at h
  · simp_all
  · rcases List.mem_append.mp h with h | h
    · exact List.mem_append_left _ h
    · split at h
      · exact List.mem_append_right _ h
      · exact absurd h (List.not_mem_nil _)

/-- Below `MaxUint64` the forward walk is the closed commits and then `current`.
Source: none: infrastructure
Kind: L -/
theorem DB.forwardWalk_of_lt {db : DB} (h : db.current < maxUint64) :
    db.forwardWalk = db.closed ++ [db.current] := by
  unfold DB.forwardWalk
  split <;> simp_all

namespace Recorded

variable {db : DB} {ws : List (Bytes × List Bytes)}
  (recover : UInt64 → Except DBError (Option StreamFile)) (scanner : List Event → Bool)

/-- Nothing is cached on a recorded state.
Source: src/cmd/esdb-reader.go `DB.retrieveStream`
Kind: L -/
theorem cacheClosed (hr : Recorded db ws) : CacheClosed db := fun c s h => by
  rw [hr.settled.live.streams_empty] at h
  exact absurd h (by simp)

/-- The walk of a forward read with no cursor on a recorded state: from
`parseContinuation("", false)`, by `next`, exactly the commits of `forwardWalk`, each of them
nonzero and read from its well formed stream file; along it lie the events of the files of
`closed` and then `current`.
Source: src/cmd/esdb-reader.go `DB.Iterate`, `DB.next`, `DB.parseContinuation`
Kind: L -/
theorem walk_eq (hr : Recorded db ws) :
    ∃ x W, x :: W = db.forwardWalk ∧ db.parseContinuation "" false = (x, 0) ∧
      (W ++ [0]).Chain (fun a b => db.next a = b) x ∧
      (∀ y ∈ x :: W, y ≠ 0 ∧ ReadsAt db y (fileStream db.files y) ∧
        ∀ e ∈ (fileStream db.files y).log, (GoMap.keys e.offsets).Nodup) ∧
      walkEvents (fileStream db.files) x 0 W =
        (db.closed ++ [db.current]).flatMap (fileEvents db.files) ∧
      W.length + 1 < db.closed.length + 3 := by
  have hs := hr.settled
  obtain ⟨hwalk, hread⟩ := hs.next_walk
  rcases hcl : db.closed with _ | ⟨c₀, cs⟩
  · -- nothing closed: the current file alone
    obtain ⟨h0, hread, hl⟩ := hs.reads_current
    refine ⟨db.current, [], by simp [DB.forwardWalk, hcl], by simp [DB.parseContinuation, hcl],
      List.chain_singleton.mpr hs.closedInv.next_current, fun y hy => ?_,
      by simp [walkEvents, fileEvents], by simp⟩
    rw [List.mem_singleton.mp hy]
    exact ⟨h0, hread, hl.nodup⟩
  · rw [hcl] at hwalk hread
    refine ⟨c₀, cs ++ if db.current < maxUint64 then [db.current] else [],
      by simp [DB.forwardWalk, hcl], by simp [DB.parseContinuation, hcl], hwalk, hread, ?_,
      by split <;> simp⟩
    show (c₀ :: (cs ++ _)).flatMap (fileEvents db.files) = _
    by_cases hmax : db.current < maxUint64
    · simp [hmax]
    · simp [hmax, hr.max_empty (le_antisymm' (le_maxUint64 _) (UInt64.not_lt.mp hmax))]

/-- The walk of a forward read with no cursor on a recorded state: from
`parseContinuation("", false)`, by `next`, through the closed commits in order and then
`current` (unless it is `MaxUint64`, whose file is empty), each of them closed or current,
nonzero, and read from its well formed stream file; along it lie the events of the files of
`closed` and then `current`.
Source: src/cmd/esdb-reader.go `DB.Iterate`, `DB.next`, `DB.parseContinuation`
Kind: L -/
theorem forward_walk (hr : Recorded db ws) :
    ∃ x W, db.parseContinuation "" false = (x, 0) ∧
      (W ++ [0]).Chain (fun a b => db.next a = b) x ∧
      (∀ y ∈ x :: W, y ≠ 0 ∧ ReadsAt db y (fileStream db.files y) ∧
        ∀ e ∈ (fileStream db.files y).log, (GoMap.keys e.offsets).Nodup) ∧
      (∀ y ∈ x :: W, y ∈ db.closed ++ [db.current]) ∧
      walkEvents (fileStream db.files) x 0 W =
        (db.closed ++ [db.current]).flatMap (fileEvents db.files) ∧
      W.length + 1 < db.closed.length + 3 :=
  let ⟨x, W, hxW, hpc, hch, hread, hlist, hfuel⟩ := hr.walk_eq
  ⟨x, W, hpc, hch, hread, fun _ hy => DB.mem_of_mem_forwardWalk (hxW ▸ hy), hlist, hfuel⟩

/-- `Iterate("")` on a recorded state with any cache of closed files feeds the scanner the
events of the files of `closed` and then `current`, in commit order, returns the empty cursor
when the scanner never refused, and changes nothing but the cache, which stays closed.
Source: src/cmd/esdb-reader.go `DB.Iterate`, `DB.next`, `DB.parseContinuation`,
`DB.retrieveStream`
Kind: L -/
theorem iterate_cached (hr : Recorded db ws) {streams : GoMap UInt64 (Option StreamFile)}
    (hc : CacheClosed { db with streams := streams }) :
    ∃ cursor db', ({ db with streams := streams } : DB).iterate recover "" scanner = some (.ok
        (cursor, (feed scanner [] ((db.closed ++ [db.current]).flatMap (fileEvents db.files))).1,
          db')) ∧
      ((feed scanner [] ((db.closed ++ [db.current]).flatMap (fileEvents db.files))).2 = none →
        cursor = "") ∧ db' = { db with streams := db'.streams } ∧ CacheClosed db' := by
  obtain ⟨x, W, hpc, hch, hread, -, hlist, hfuel⟩ := hr.forward_walk
  obtain ⟨cursor, db', h, hnone, -, hframe, hc'⟩ := iterate_walk recover scanner hc hch hread
    hfuel (List.suffix_refl _) hpc (.inl ⟨rfl, rfl⟩)
  rw [hlist] at h hnone
  exact ⟨cursor, db', h, hnone, hframe, hc'⟩

/-- `Iterate("")` on a recorded state feeds the scanner the events of the files of `closed` and
then `current`, in commit order, and returns the empty cursor when the scanner never refused.
Source: src/cmd/esdb-reader.go `DB.Iterate`, `DB.next`, `DB.parseContinuation`
Kind: L -/
theorem iterate (hr : Recorded db ws) :
    ∃ cursor db', db.iterate recover "" scanner = some (.ok (cursor,
        (feed scanner [] ((db.closed ++ [db.current]).flatMap (fileEvents db.files))).1, db')) ∧
      ((feed scanner [] ((db.closed ++ [db.current]).flatMap (fileEvents db.files))).2 = none →
        cursor = "") :=
  let ⟨cursor, db', h, hnone, _⟩ := hr.iterate_cached recover scanner hr.cacheClosed
  ⟨cursor, db', h, hnone⟩

/-- The walk of a backward read with no cursor on a recorded state: from
`parseContinuation("", true)`, `current`, then by `prev` through the closed commits newest first
and on to 0, each of them nonzero and read from its linked stream file.
Source: src/cmd/esdb-reader.go `DB.Scan`, `DB.prev`, `DB.parseContinuation`
Kind: L -/
theorem backward_walk (hr : Recorded db ws) :
    db.parseContinuation "" true = (db.current, 0) ∧
      (db.closed.reverse ++ [0]).Chain (fun a b => db.prev a = b) db.current ∧
      ∀ y ∈ db.current :: db.closed.reverse, y ≠ 0 ∧ ReadsAt db y (fileStream db.files y) ∧
        Log.Linked (fileStream db.files y).log := by
  have hs := hr.settled
  have horder : db.iterateOrder = db.closed ++ [db.current] := by
    simp [DB.iterateOrder, hs.current_not_closed]
  -- `prev` walks `current`, the closed commits newest first, then 0
  have hwalk : (db.iterateOrder.reverse ++ [0]).Chain' (fun a b => db.prev a = b) :=
    (hs.closedInv.prev_chain hs.pos).append (List.chain'_singleton 0) fun x hx y hy => by
      rw [List.getLast?_reverse, DB.iterateOrder_head?, Option.mem_def, Option.some.injEq] at hx
      rw [List.head?_cons, Option.mem_def, Option.some.injEq] at hy
      rw [← hy, ← hx]
      exact hs.closedInv.prev_first
  simp only [horder, List.reverse_append, List.reverse_singleton, List.singleton_append,
    List.cons_append] at hwalk
  refine ⟨by simp [DB.parseContinuation], hwalk, fun y hy => ?_⟩
  rcases List.mem_cons.mp hy with rfl | hy
  · exact hs.reads_current
  · rw [List.mem_reverse] at hy
    exact ⟨(hs.reads_closed hy).1, (hs.reads_closed hy).2.1, hr.linked y hy⟩

/-- `Scan(name, value, "")` on a recorded state with any cache of closed files feeds the scanner
the events of the files of `closed` and `current` indexed under `name:value`, newest first,
returns the empty cursor when the scanner never refused, and changes nothing but the cache,
which stays closed.
Source: src/cmd/esdb-reader.go `DB.Scan`, `DB.prev`, `DB.parseContinuation`,
`DB.retrieveStream`
Kind: L -/
theorem scan_cached (hr : Recorded db ws) {streams : GoMap UInt64 (Option StreamFile)}
    (hc : CacheClosed { db with streams := streams }) (name value : Bytes) :
    ∃ cursor db', ({ db with streams := streams } : DB).scan recover name value "" scanner =
        some (.ok (cursor,
          (feed scanner [] ((((db.closed ++ [db.current]).flatMap (fileEvents db.files)).filter
            fun e => label name value ∈ GoMap.keys e.offsets).reverse)).1, db')) ∧
      ((feed scanner [] ((((db.closed ++ [db.current]).flatMap (fileEvents db.files)).filter
          fun e => label name value ∈ GoMap.keys e.offsets).reverse)).2 = none → cursor = "") ∧
      db' = { db with streams := db'.streams } ∧ CacheClosed db' := by
  obtain ⟨hpc, hwalk, hread⟩ := hr.backward_walk
  obtain ⟨cursor, db', h, hnone, -, hframe, hc'⟩ := scan_walk recover scanner hc name value
    hwalk hread (by simp) (List.suffix_refl _) hpc
  rw [flatMap_labelChain] at h hnone
  exact ⟨cursor, db', h, hnone, hframe, hc'⟩

/-- `Scan(name, value, "")` on a recorded state feeds the scanner the events of the files of
`closed` and `current` indexed under `name:value`, newest first, and returns the empty cursor
when the scanner never refused.
Source: src/cmd/esdb-reader.go `DB.Scan`, `DB.prev`, `DB.parseContinuation`
Kind: L -/
theorem scan (hr : Recorded db ws) (name value : Bytes) :
    ∃ cursor db', db.scan recover name value "" scanner = some (.ok (cursor,
        (feed scanner [] ((((db.closed ++ [db.current]).flatMap (fileEvents db.files)).filter
          fun e => label name value ∈ GoMap.keys e.offsets).reverse)).1, db')) ∧
      ((feed scanner [] ((((db.closed ++ [db.current]).flatMap (fileEvents db.files)).filter
          fun e => label name value ∈ GoMap.keys e.offsets).reverse)).2 = none → cursor = "") :=
  let ⟨cursor, db', h, hnone, _⟩ := hr.scan_cached recover scanner hr.cacheClosed name value
  ⟨cursor, db', h, hnone⟩

end Recorded

/-- `NewDb` over a directory with no stream files holds a fresh file at commit 1 and records no
write; the first command of the log may come at any commit above 1.
Source: src/cmd/esdb-reader.go `NewDb`
Kind: L -/
theorem newDb_recorded (tmpfiles : GoMap UInt64 DiskFile) :
    ∃ db, newDb [] tmpfiles = .ok db ∧ Recorded db [] ∧ db.current = 1 :=
  ⟨⟨[], 1, 0, some StreamFile.empty, [], 10, [(1, .stream StreamFile.empty)], tmpfiles⟩, rfl,
    ⟨@replay_settled tmpfiles [] _ .nil rfl, fun _ h => absurd h (List.not_mem_nil _),
      by simp [Mirrors, fileEvents, fileStream, GoMap.get?, StreamFile.empty],
      fun h => absurd h (by decide : (1 : UInt64) ≠ maxUint64)⟩, rfl⟩

/-- A run from a directory with no stream files (and any `.tmpstream`s), with commits
increasing from 2, ends in a state whose files mirror the log's writes.
Source: src/cmd/esdb-reader.go `NewDb`, `DB.Write`, `DB.Rotate`
Kind: L -/
theorem replay_recorded {tmpfiles : GoMap UInt64 DiskFile} {log : List Command} {db : DB}
    (hlog : (log.map Command.commit).Chain (· < ·) 1) (h : replay [] tmpfiles log = .ok db) :
    Recorded db (log.flatMap Command.written) := by
  obtain ⟨db₀, h0, hr0, hcur⟩ := newDb_recorded tmpfiles
  obtain ⟨db', h', hr'⟩ := hr0.applyAll log (hcur ▸ UInt64.le_refl 1) hlog
  rw [replay, h0] at h
  exact (Except.ok.inj (h.symm.trans h')) ▸ by simpa using hr'

/-! ## What the reads give back after a run -/

/-- After any run from a directory with no stream files, with commits increasing from 2,
`Iterate("")` feeds every scanner events that mirror the log's writes, one for each write in
log order (its payload, and its labels as back-pointer keys): it is passed them up to and
including the first it refuses, and when it refuses none the cursor returned is empty.
Nothing written is lost, repeated or reordered, across any number of files.
Source: src/cmd/esdb-reader.go `NewDb`, `DB.Write`, `DB.Rotate`, `DB.Iterate`, `DB.next`
Kind: P -/
theorem iterate_reads_writes {tmpfiles : GoMap UInt64 DiskFile} {log : List Command} {db : DB}
    (hlog : (log.map Command.commit).Chain (· < ·) 1) (hdb : replay [] tmpfiles log = .ok db)
    (recover : UInt64 → Except DBError (Option StreamFile)) (scanner : List Event → Bool) :
    ∃ evs, Mirrors evs (log.flatMap Command.written) ∧
      ∃ cursor db', db.iterate recover "" scanner =
          some (.ok (cursor, (feed scanner [] evs).1, db')) ∧
        ((feed scanner [] evs).2 = none → cursor = "") :=
  have hr := replay_recorded hlog hdb
  ⟨_, hr.mirrors, hr.iterate recover scanner⟩

/-- Two writes, a label on the first, a rotate between them, read with a scanner that stops
after one event. -/
theorem iterate_reads_writes_two_files :
    ∃ db, replay [] [] [.write 2 [97] [([120], [49])] 5, .rotate 3 0, .write 4 [98] [] 6] =
        .ok db ∧
      ([Command.write 2 [97] [([120], [49])] 5, .rotate 3 0, .write 4 [98] [] 6].map
        Command.commit).Chain (· < ·) 1 ∧
      ∃ evs, Mirrors evs
          ([Command.write 2 [97] [([120], [49])] 5, .rotate 3 0, .write 4 [98] [] 6].flatMap
            Command.written) ∧
        ∃ cursor db', db.iterate (fun _ => .ok none) "" (fun seen => seen.length < 1) =
            some (.ok (cursor, (feed (fun seen => seen.length < 1) [] evs).1, db')) ∧
          ((feed (fun seen => seen.length < 1) [] evs).2 = none → cursor = "") :=
  have hlog : ([Command.write 2 [97] [([120], [49])] 5, .rotate 3 0, .write 4 [98] [] 6].map
      Command.commit).Chain (· < ·) 1 :=
    .cons (by decide) (.cons (by decide) (.cons (by decide) .nil))
  ⟨_, rfl, hlog, iterate_reads_writes hlog rfl _ _⟩

/-- After any run from a directory with no stream files, with commits increasing from 2,
`Scan(name, value, "")` feeds every scanner events that mirror the log's writes indexed under
`name:value`, newest first: it is passed them up to and including the first it refuses, and
when it refuses none the cursor returned is empty. Following the back-pointer chains file by
file finds exactly the writes a filter of the whole log finds.
Source: src/cmd/esdb-reader.go `NewDb`, `DB.Write`, `DB.Rotate`, `DB.Scan`, `DB.prev`
Kind: P -/
theorem scan_reads_labelled_writes {tmpfiles : GoMap UInt64 DiskFile} {log : List Command}
    {db : DB} (hlog : (log.map Command.commit).Chain (· < ·) 1)
    (hdb : replay [] tmpfiles log = .ok db)
    (recover : UInt64 → Except DBError (Option StreamFile)) (name value : Bytes)
    (scanner : List Event → Bool) :
    ∃ evs, Mirrors evs
        ((log.flatMap Command.written).filter fun w => label name value ∈ w.2).reverse ∧
      ∃ cursor db', db.scan recover name value "" scanner =
          some (.ok (cursor, (feed scanner [] evs).1, db')) ∧
        ((feed scanner [] evs).2 = none → cursor = "") :=
  have hr := replay_recorded hlog hdb
  ⟨_, hr.mirrors.filter_reverse _, hr.scan recover scanner name value⟩

/-- Three writes over two files, two of them indexed under `x:1`, scanned for that label with
a scanner that never stops. -/
theorem scan_reads_labelled_writes_two_files :
    ∃ db, replay [] [] [.write 2 [97] [([120], [49])] 5, .rotate 3 0,
        .write 4 [98] [] 6, .write 5 [99] [([120], [49])] 7] = .ok db ∧
      ([Command.write 2 [97] [([120], [49])] 5, .rotate 3 0, .write 4 [98] [] 6,
        .write 5 [99] [([120], [49])] 7].map Command.commit).Chain (· < ·) 1 ∧
      ∃ evs, Mirrors evs
          (([Command.write 2 [97] [([120], [49])] 5, .rotate 3 0, .write 4 [98] [] 6,
            .write 5 [99] [([120], [49])] 7].flatMap Command.written).filter
              fun w => label [120] [49] ∈ w.2).reverse ∧
        ∃ cursor db', db.scan (fun _ => .ok none) [120] [49] "" (fun _ => true) =
            some (.ok (cursor, (feed (fun _ => true) [] evs).1, db')) ∧
          ((feed (fun _ => true) [] evs).2 = none → cursor = "") :=
  have hlog : ([Command.write 2 [97] [([120], [49])] 5, .rotate 3 0, .write 4 [98] [] 6,
      .write 5 [99] [([120], [49])] 7].map Command.commit).Chain (· < ·) 1 :=
    .cons (by decide) (.cons (by decide) (.cons (by decide) (.cons (by decide) .nil)))
  ⟨_, rfl, hlog, scan_reads_labelled_writes hlog rfl _ _ _ _⟩

/-! ## The server's default cursor -/

/-- `prev` of two commits above every closed commit is the same: the newest closed commit.
Source: src/cmd/esdb-reader.go `DB.prev`
Kind: L -/
theorem DB.prev_eq_of_above {db : DB} {a b : UInt64} (h : ∀ c ∈ db.closed, c < a ∧ c < b) :
    db.prev a = db.prev b :=
  List.foldl_ext _ _ _ fun r c hc => by simp [(h c hc).1, (h c hc).2]

/-- A file's chain head for a label lies before its write offset.
Source: spec §3, "the chain is strictly decreasing in offset"
Kind: L -/
theorem StreamFile.first_le_offset (f : StreamFile) (name value : Bytes) :
    f.first name value ≤ f.offset := by
  unfold StreamFile.first StreamFile.offset
  cases h : f.log.tail (label name value) with
  | none => exact Nat.zero_le _
  | some o => exact (Log.tail_bounds h).2.le

/-- `ScanIndex` from a file's chain head for the label is `ScanIndex` from offset 0.
Source: spec §4.4, "Reverse indexed scan"
Kind: L -/
theorem StreamFile.scanIndex_first (f : StreamFile) (name value : Bytes)
    (scanner : List Event → Bool) (seen : List Event) :
    f.scanIndex name value (f.first name value) scanner seen =
      f.scanIndex name value 0 scanner seen := by
  unfold StreamFile.scanIndex
  by_cases h0 : f.first name value = 0
  · simp [h0]
  · simp [h0, (Int.natCast_nonneg _).not_lt]

section ScanLoop

variable (recover : UInt64 → Except DBError (Option StreamFile)) (name value : Bytes)
  (scanner : List Event → Bool)

/-- The offset `Scan`'s loop starts a file at matters only through that file's `ScanIndex`.
Source: src/cmd/esdb-reader.go `DB.Scan`
Kind: L -/
theorem DB.scanLoop_offset {fuel : Nat} {db : DB} {c : UInt64} {o : Int} {seen : List Event}
    (hc : c ≠ 0) (h : ∀ s db₁, db.retrieveStream recover c true = .ok (some s, db₁) →
      s.scanIndex name value o scanner seen = s.scanIndex name value 0 scanner seen) :
    DB.scanLoop recover name value scanner (fuel + 1) db c o seen =
      DB.scanLoop recover name value scanner (fuel + 1) db c 0 seen := by
  simp only [DB.scanLoop, if_neg hc]
  rcases hret : db.retrieveStream recover c true with e | ⟨_ | s, db₁⟩
  · rfl
  · rfl
  simp only
  rw [h s db₁ hret]
  rcases s.scanIndex name value 0 scanner seen with _ | ⟨seen', _ | ⟨⟩⟩
  · rfl
  · rfl
  simp only
  -- the incoming offset is returned only when no event was passed, and then the loop goes on
  rcases hv : (seen'.drop seen.length).getLast? with _ | e
  · have he : seen'.drop seen.length = [] := List.getLast?_eq_none_iff.mp hv
    simp [he]
  · rfl

/-- `Scan`'s loop gives the same result with more fuel.
Source: src/cmd/esdb-reader.go `DB.Scan`
Kind: L -/
theorem DB.scanLoop_fuel_succ : ∀ {fuel : Nat} {db : DB} {c : UInt64} {o : Int}
    {seen : List Event} {r : Except DBError (DB × UInt64 × Int × List Event × Bool)},
    DB.scanLoop recover name value scanner fuel db c o seen = some r →
    DB.scanLoop recover name value scanner (fuel + 1) db c o seen = some r
  | 0, _, _, _, _, _, h => by simp [DB.scanLoop] at h
  | fuel + 1, db, c, o, seen, r, h => by
    rw [DB.scanLoop] at h ⊢
    by_cases hc : c = 0
    · simpa [hc] using h
    rw [if_neg hc] at h ⊢
    rcases hret : db.retrieveStream recover c true with e | ⟨_ | s, db₁⟩ <;>
      simp only [hret] at h ⊢
    · exact h
    · exact h
    rcases hsi : s.scanIndex name value o scanner seen with _ | ⟨seen', _ | ⟨⟩⟩ <;>
      simp only [hsi] at h ⊢
    · exact h
    · exact h
    split at h
    · rename_i hcond
      rw [if_pos hcond]
      exact h
    · rename_i hcond
      rw [if_neg hcond]
      exact DB.scanLoop_fuel_succ h

end ScanLoop

/-- On every state a run from a directory with no stream files reaches (commits increasing
from 2) whose write offset fits an int64, `Scan` from the cursor `Continuation(name, value)`
— the server's default for an indexed read — does exactly what `Scan` with no cursor does,
for every scanner: the same events, cursor and cache. When the current file has an event
with the label the cursor starts at its chain head; otherwise it skips the current file for
the newest closed one.
Source: src/cmd/esdb-reader.go `DB.Continuation`, `DB.Scan`, `DB.prev`, `buildContinuation`,
`DB.parseContinuation`
Kind: P -/
theorem scan_from_continuation {tmpfiles : GoMap UInt64 DiskFile} {log : List Command} {db : DB}
    (hlog : (log.map Command.commit).Chain (· < ·) 1) (hdb : replay [] tmpfiles log = .ok db)
    (hoff : db.offset < 2 ^ 63) (recover : UInt64 → Except DBError (Option StreamFile))
    (name value : Bytes) (scanner : List Event → Bool) :
    db.scan recover name value (db.continuation name value) scanner =
      db.scan recover name value "" scanner := by
  have hr := replay_recorded hlog hdb
  have hs := hr.settled
  obtain ⟨s, hst, -⟩ := hs.live.stream_open
  have hret : db.retrieveStream recover db.current true = .ok (some s, db) := by
    simp [DB.retrieveStream, hst]
  have hcur0 : 0 < db.current := hs.pos.current_pos (by simp [hst])
  have hpc : db.parseContinuation "" true = (db.current, 0) := by simp [DB.parseContinuation]
  by_cases hfirst : 0 < s.first name value
  · -- the current file has an event with the label: start at its chain head
    have hcont : db.continuation name value =
        buildContinuation db.current (s.first name value) := by
      simp [DB.continuation, hst, hfirst]
    rw [hcont]
    have hlt : s.first name value < 2 ^ 63 := by
      have := s.first_le_offset name value
      simp only [DB.offset, hst] at hoff
      omega
    unfold DB.scan
    rw [parseContinuation_buildContinuation db _ _ true hcur0 ⟨by omega, by exact_mod_cast hlt⟩,
      hpc]
    simp only
    rw [DB.scanLoop_offset recover name value scanner (UInt64.ne_of_lt hcur0).symm
      fun s' db₁ h => by
      rw [hret] at h
      cases h
      exact StreamFile.scanIndex_first _ _ _ _ _]
  · -- no event with the label in the current file: start at the newest closed commit
    have hcont : db.continuation name value = buildContinuation (db.prev maxUint64) 0 := by
      simp [DB.continuation, hst, hfirst]
    rw [hcont]
    by_cases hp : db.prev maxUint64 = 0
    · -- nothing closed: the cursor is empty
      rw [hp]
      rfl
    have hprev : db.prev db.current = db.prev maxUint64 := DB.prev_eq_of_above fun c hc =>
      ⟨hs.lt_current hc, Nat.lt_of_lt_of_le (hs.lt_current hc) (le_maxUint64 _)⟩
    have hz : s.first name value = 0 := Nat.eq_zero_of_not_pos hfirst
    -- from `current`, whose chain is empty, `Scan` steps to the newest closed commit
    have hstep : DB.scanLoop recover name value scanner (db.closed.length + 2) db db.current 0 [] =
        DB.scanLoop recover name value scanner (db.closed.length + 1) db (db.prev maxUint64) 0
          [] := by
      have hsi : s.scanIndex name value 0 scanner [] = some ([], .ok ()) := by
        simp [StreamFile.scanIndex, hz, chainLoop]
      rw [DB.scanLoop, if_neg (UInt64.ne_of_lt hcur0).symm]
      simp [hret, hsi, hprev]
    obtain ⟨cursor, db', hscan, -⟩ := hr.scan recover scanner name value
    unfold DB.scan at hscan ⊢
    rw [hpc] at hscan ⊢
    simp only at hscan ⊢
    rw [hstep] at hscan ⊢
    obtain ⟨r, hloop, -⟩ := Option.map_eq_some'.mp hscan
    rw [parseContinuation_buildContinuation db _ _ true (Nat.pos_of_ne_zero fun h =>
      hp (UInt64.toNat.inj h)) ⟨by decide, by decide⟩, hloop,
      DB.scanLoop_fuel_succ recover name value scanner hloop]

/-- A label written in a closed file and again in the current one: the default cursor starts
at the current file's chain head. -/
theorem scan_from_continuation_current_head :
    ∃ db, replay [] [] [.write 2 [97] [([120], [49])] 5, .rotate 3 0,
        .write 4 [98] [([120], [49])] 6] = .ok db ∧
      ([Command.write 2 [97] [([120], [49])] 5, .rotate 3 0,
        .write 4 [98] [([120], [49])] 6].map Command.commit).Chain (· < ·) 1 ∧
      db.offset < 2 ^ 63 ∧
      db.scan (fun _ => .ok none) [120] [49] (db.continuation [120] [49]) (fun _ => true) =
        db.scan (fun _ => .ok none) [120] [49] "" (fun _ => true) :=
  have hlog : ([Command.write 2 [97] [([120], [49])] 5, .rotate 3 0,
      .write 4 [98] [([120], [49])] 6].map Command.commit).Chain (· < ·) 1 :=
    .cons (by decide) (.cons (by decide) (.cons (by decide) .nil))
  ⟨_, rfl, hlog, by decide, scan_from_continuation hlog rfl (by decide) _ _ _ _⟩

end Esdb.Cluster
