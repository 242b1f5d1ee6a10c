import Esdb.Stream.Reopen
import Esdb.Cluster.Invariants
import Esdb.Cluster.Replay

/-!
# `Compress` and the forward read

`Compress(start, stop)` (src/cmd/esdb-reader.go) is to replace the closed files of the commits
in `[start, stop]` by one: it drops `(start, stop]` from `closed`, forgets their cached streams,
and moves `events.<start>.tmpstream`, when it exists, into place as `events.<start>.stream`. A
forward `Iterate` with no cursor then reads the same events, provided the `.tmpstream` holds
those of `[start, stop]`.

* `iterLoop_flat`, `StreamFile.iterate_all` — `Iterate` on a stream file with a scanner that
  never stops reads all its events, oldest first, up to the sentinel or the end of the file.
* `ReadsAt`, `CacheAgrees`, `retrieveStream_readsAt` — the stream `retrieveStream` returns at a
  commit (the held one at `current`, a closed file otherwise) while every cached stream is the
  file at its commit; `iterateLoop_walk` — so `Iterate`'s loop, stepping by `next` along a walk
  of such commits, reads their events one file after another.
* `Settled` — what a run from a directory with no stream files keeps: it is live, `closed` is
  sorted below `current`, no commit is 0, the held stream is the current file, and every closed
  commit has a closed file. `Settled.write`, `Settled.rotate` (joined in `Settled.apply`),
  `Settled.applyAll` and `replay_settled`; `Settled.compress` — a `Compress` whose `.tmpstream`
  is a closed stream file keeps it.
* `Settled.reads_current`, `Settled.reads_closed` — on such a state `current` and every closed
  commit are nonzero and read from their stream files.
* `Settled.next_walk`, `Settled.iterate` — on such a state `next` walks the closed commits and
  then `current`, and `Iterate("")` with a scanner that never stops reads the closed files in
  commit order and then the current one (unless `current` is `MaxUint64`, which `next` cannot
  return).
* `compress_keeps_iterate` — after `Compress(start, stop)` whose `.tmpstream` holds the events
  of the closed commits in `[start, stop]`, `Iterate("")` passes the same events as before, and
  `closed` keeps the commits outside `(start, stop]` in order.
* `compress_without_tmpstream_drops_events` — with no `.tmpstream`, `Compress` still shrinks
  `closed`, and the events of `(start, stop]` are no longer read.
-/

namespace Esdb.Cluster

open Esdb.Binary Esdb.Stream

/-! ## Reading a whole stream file -/

/-- `Iterate`'s loop with a scanner that never stops, from an offset where the image holds the
records of `evs` and then bytes that decode to `eof`, passes exactly `evs` and returns 0.
Source: spec §4.4, "Forward iteration"
Kind: L -/
theorem iterLoop_flat (img : Bytes) : ∀ (evs : List Event) (fuel off : Nat) (seen : List Event)
    (rest : Bytes), img.drop off = Log.flat evs ++ rest →
    (∀ e ∈ evs, (GoMap.keys e.offsets).Nodup) → (∃ n, decodeEvent rest = (.error .eof, n)) →
    evs.length < fuel → iterLoop (fun _ => true) img fuel off seen = some (seen ++ evs, .ok 0)
  | [], fuel + 1, off, seen, rest, himg, _, ⟨n, hrest⟩, _ => by
    simp only [iterLoop, himg, Log.flat, List.nil_append, hrest, List.append_nil]
  | e :: evs, fuel + 1, off, seen, rest, himg, hnd, hrest, hf => by
    have hdec : decodeEvent (img.drop off) = (.ok e, e.length) := by
      rw [himg, Log.flat, List.append_assoc, decodeEvent_push (hnd e (List.mem_cons_self e evs))]
    have hdrop : img.drop (off + e.length) = Log.flat evs ++ rest := by
      rw [← List.drop_drop, himg, Log.flat, List.append_assoc, ← Event.length_push,
        List.drop_left]
    have ih := iterLoop_flat img evs fuel (off + e.length) (seen ++ [e]) rest hdrop
      (fun e' h => hnd e' (List.mem_cons_of_mem e h)) hrest (by simp at hf; omega)
    simp only [iterLoop, hdec, if_true, ih, List.append_assoc, List.singleton_append]

/-- The bytes after the records of a stream file decode to `eof`: the int32 zero sentinel of a
closed file, or the end of an open one.
Source: spec §4.2, §6
Kind: L -/
theorem decodeEvent_end (closed : Bool) :
    ∃ n, decodeEvent (if closed then putInt32 0 else []) = (.error .eof, n) := by
  cases closed
  · exact ⟨0, rfl⟩
  · exact ⟨1, rfl⟩

/-- `Iterate(0, scanner)` on a stream file with a scanner that never stops passes every event of
the file, oldest first, and returns 0 (the file is exhausted).
Source: spec §4.4, "Forward iteration"
Kind: L -/
theorem StreamFile.iterate_all (f : StreamFile) (hnd : ∀ e ∈ f.log, (GoMap.keys e.offsets).Nodup)
    (seen : List Event) :
    f.iterate 0 (fun _ => true) seen = some (seen ++ f.log.reverse, .ok 0) := by
  have hdrop : f.image.drop magicHeader.length =
      Log.flat f.log.reverse ++ (if f.closed then putInt32 0 else []) := by
    rw [StreamFile.image, List.append_assoc, List.drop_left, Log.records_eq_flat]
  have hlen : f.log.reverse.length < f.image.length + 1 := by
    have := Log.length_le_records f.log
    simp only [StreamFile.image, List.length_append, List.length_reverse]
    omega
  simp only [StreamFile.iterate, lt_self_iff_false, if_false, if_true]
  exact iterLoop_flat _ _ _ _ _ _ hdrop (fun e he => hnd e (List.mem_reverse.mp he))
    (decodeEvent_end f.closed) hlen

/-- The stream file at a commit of the directory; the empty stream when there is none.
Source: spec §3, "Stream File"
Kind: D -/
def fileStream (files : GoMap UInt64 DiskFile) (c : UInt64) : StreamFile :=
  match files.get? c with
  | some (.stream f) => f
  | _ => StreamFile.empty

/-- The events of the stream file at a commit of the directory, oldest first; none when there
is no stream file there.
Source: spec §3, "Stream File"
Kind: D -/
def fileEvents (files : GoMap UInt64 DiskFile) (c : UInt64) : List Event :=
  (fileStream files c).log.reverse

theorem fileStream_of_get {files : GoMap UInt64 DiskFile} {c : UInt64} {f : StreamFile}
    (h : files.get? c = some (.stream f)) : fileStream files c = f := by
  simp [fileStream, h]

/-! ## The loop of `Iterate` -/

/-- The stream `Iterate` is to read at commit `x`: the held stream when `x` is current, or else
the closed stream file at `x`.
Source: src/cmd/esdb-reader.go `DB.retrieveStream`
Kind: D -/
def ReadsAt (db : DB) (x : UInt64) (f : StreamFile) : Prop :=
  (db.current = x ∧ db.stream = some f) ∨
    (db.current ≠ x ∧ db.files.get? x = some (.stream f) ∧ f.closed = true)

/-- Every stream in the cache is the file at its commit.
Source: src/cmd/esdb-reader.go `DB.retrieveStream`
Kind: D -/
def CacheAgrees (db : DB) : Prop :=
  ∀ c s, (db.streams.get? c).join = some s → db.files.get? c = some (.stream s)

/-- A property of every cached stream survives caching a stream that has it.
Source: none: infrastructure
Kind: L -/
theorem cached_set {P : UInt64 → StreamFile → Prop} {streams : GoMap UInt64 (Option StreamFile)}
    (h : ∀ c s, (streams.get? c).join = some s → P c s) {x : UInt64} {f : StreamFile}
    (hx : P x f) : ∀ c s, ((streams.set x (some f)).get? c).join = some s → P c s :=
  fun c s hc => by
    by_cases hcx : x = c
    · subst hcx
      simp only [GoMap.get?_set, if_true] at hc
      obtain rfl := Option.some.inj hc
      exact hx
    · simp only [GoMap.get?_set, if_neg hcx] at hc
      exact h c s hc

/-- `retrieveStream` returns the stream `Iterate` is to read, and leaves the cache as it was or,
at a commit other than `current`, caches that stream, the closed file there.
Source: src/cmd/esdb-reader.go `DB.retrieveStream`
Kind: L -/
theorem retrieveStream_readsAt_streams {db : DB} {x : UInt64} {f : StreamFile}
    (hr : ReadsAt db x f) (hc : CacheAgrees db)
    (recover : UInt64 → Except DBError (Option StreamFile)) :
    ∃ streams, db.retrieveStream recover x true = .ok (some f, { db with streams := streams }) ∧
      (streams = db.streams ∨ db.current ≠ x ∧ db.files.get? x = some (.stream f) ∧
        f.closed = true ∧ streams = db.streams.set x (some f)) := by
  rcases hr with ⟨rfl, hs⟩ | ⟨hne, hfile, hclosed⟩
  · refine ⟨db.streams, ?_, .inl rfl⟩
    rw [DB.retrieveStream, if_pos ⟨rfl, by simp [hs]⟩]
    exact congrArg Except.ok (Prod.ext hs rfl)
  have hheld : ¬(db.current = x ∧ db.stream.isSome) := fun h => hne h.1
  cases hcache : (db.streams.get? x).join with
  | some s =>
    have hsf : s = f := by
      have := (hc x s hcache).symm.trans hfile
      simpa using this
    subst hsf
    exact ⟨db.streams, by rw [DB.retrieveStream, if_neg hheld, hcache], .inl rfl⟩
  | none =>
    refine ⟨db.streams.set x (some f), ?_, .inr ⟨hne, hfile, hclosed, rfl⟩⟩
    rw [DB.retrieveStream, if_neg hheld, hcache]
    simp [DB.fetchStream, hfile, streamOpen, hclosed]

/-- `retrieveStream` returns the stream `Iterate` is to read, changing only the cache, which
still agrees with the files.
Source: src/cmd/esdb-reader.go `DB.retrieveStream`
Kind: L -/
theorem retrieveStream_readsAt {db : DB} {x : UInt64} {f : StreamFile} (hr : ReadsAt db x f)
    (hc : CacheAgrees db) (recover : UInt64 → Except DBError (Option StreamFile)) :
    ∃ streams, db.retrieveStream recover x true = .ok (some f, { db with streams := streams }) ∧
      CacheAgrees { db with streams := streams } := by
  obtain ⟨streams, hret, hst⟩ := retrieveStream_readsAt_streams hr hc recover
  refine ⟨streams, hret, ?_⟩
  rcases hst with rfl | ⟨-, hfile, -, rfl⟩
  · exact hc
  · exact cached_set hc hfile

/-- `Iterate`'s loop with a scanner that never stops, from offset 0 at the first commit of a
walk in which `next` steps from each commit to the following one and from the last to 0, and
each commit is nonzero with the stream it is to read well formed: it reads each stream whole,
one after another, and ends at commit 0.
Source: src/cmd/esdb-reader.go `DB.Iterate`
Kind: L -/
theorem iterateLoop_walk (recover : UInt64 → Except DBError (Option StreamFile))
    (file : UInt64 → StreamFile) :
    ∀ (W : List UInt64) (x : UInt64) (fuel : Nat) (db : DB) (seen : List Event),
      (W ++ [0]).Chain (fun a b => db.next a = b) x →
      (∀ y ∈ x :: W, y ≠ 0 ∧ ReadsAt db y (file y) ∧
        ∀ e ∈ (file y).log, (GoMap.keys e.offsets).Nodup) →
      CacheAgrees db → W.length + 1 < fuel →
      ∃ db', DB.iterateLoop recover (fun _ => true) fuel db x 0 seen =
        some (.ok (db', 0, 0, seen ++ (x :: W).flatMap fun y => (file y).log.reverse))
  | W, x, fuel + 1, db, seen, hch, hW, hc, hf => by
    obtain ⟨hx0, hrx, hnd⟩ := hW x (List.mem_cons_self x W)
    obtain ⟨streams, hret, hc'⟩ := retrieveStream_readsAt hrx hc recover
    have hstep : DB.iterateLoop recover (fun _ => true) (fuel + 1) db x 0 seen =
        DB.iterateLoop recover (fun _ => true) fuel { db with streams := streams } (db.next x) 0
          (seen ++ (file x).log.reverse) := by
      simp [DB.iterateLoop, hx0, hret, StreamFile.iterate_all _ hnd, DB.next]
    rw [hstep]
    cases W with
    | nil =>
      rw [List.nil_append, List.chain_singleton] at hch
      rw [hch]
      cases fuel with
      | zero => simp at hf
      | succ fuel => exact ⟨{ db with streams := streams }, by simp [DB.iterateLoop]⟩
    | cons x' W =>
      rw [List.cons_append, List.chain_cons] at hch
      rw [hch.1]
      obtain ⟨db', h⟩ := iterateLoop_walk recover file W x' fuel { db with streams := streams }
        (seen ++ (file x).log.reverse) hch.2 (fun y hy => hW y (List.mem_cons_of_mem x hy)) hc'
        (by simp at hf ⊢; omega)
      exact ⟨db', by rw [h]; simp⟩

/-! ## What a run from a fresh directory keeps -/

/-- What a run from a directory with no stream files keeps: it is live, `closed` is sorted
below `current`, no commit in play is 0, the held stream is the current file with its events
linked, and every closed commit has a closed stream file whose events' tables have distinct
labels (as Go maps do).
Source: src/cmd/esdb-reader.go `NewDb`, `DB.Write`, `DB.Rotate`
Kind: D -/
structure Settled (db : DB) : Prop where
  live : Live db
  closedInv : ClosedInv db
  pos : CommitsPos db
  held : ∀ s, db.stream = some s → db.files.get? db.current = some (.stream s) ∧ Log.Linked s.log
  closed_files : ∀ c ∈ db.closed, ∃ f, db.files.get? c = some (.stream f) ∧ f.closed = true ∧
    ∀ e ∈ f.log, (GoMap.keys e.offsets).Nodup

namespace Settled

variable {db : DB}

/-- The current commit is not closed.
Source: spec §3
Kind: L -/
theorem current_not_closed (hs : Settled db) : db.current ∉ db.closed := by
  obtain ⟨s, hst, -⟩ := hs.live.stream_open
  exact hs.closedInv.current_not_closed (by simp [hst])

/-- Every closed commit is below `current`.
Source: spec §3
Kind: L -/
theorem lt_current (hs : Settled db) {c : UInt64} (hc : c ∈ db.closed) : c < db.current :=
  lt_of_le_of_ne' (hs.closedInv.le_current c hc) fun h => hs.current_not_closed (h ▸ hc)

/-- A `Write` above `current` keeps the invariant: the event goes to the held stream and its
file, both still linked.
Source: src/cmd/esdb-reader.go `DB.Write`
Kind: L -/
theorem write (hs : Settled db) {commit : UInt64} (hc : db.current < commit) (body : Bytes)
    (indexes : List (Bytes × Bytes)) (timestamp : Int) :
    ∃ db', db.write commit body indexes timestamp = .ok db' ∧ Settled db' ∧
      db'.current = db.current := by
  obtain ⟨s, hst, -⟩ := hs.live.stream_open
  have heq := hs.live.write_eq hst hc body indexes timestamp
  obtain ⟨db₁, h1, hl₁, -, -⟩ := hs.live.write hc body indexes timestamp
  rw [heq] at h1
  cases h1
  refine ⟨_, heq, ⟨hl₁, hs.closedInv.write heq, hs.pos.write heq, fun s' hs' => ?_,
    fun c hc' => ?_⟩, rfl⟩
  · cases hs'
    exact ⟨by simp, Log.linked_append (hs.held s hst).2 _ _⟩
  · obtain ⟨f, hf, hfc, hfn⟩ := hs.closed_files c hc'
    refine ⟨f, ?_, hfc, hfn⟩
    rw [GoMap.get?_set, if_neg fun (h : db.current = c) => hs.current_not_closed (h ▸ hc')]
    exact hf

/-- A `Rotate` above `current` keeps the invariant: the held stream's file is closed and joins
`closed`, and a fresh empty file is held at the commit.
Source: src/cmd/esdb-reader.go `DB.Rotate`
Kind: L -/
theorem rotate (hs : Settled db) {commit : UInt64} (hc : db.current < commit) (term : UInt64) :
    ∃ db', db.rotate commit term = .ok db' ∧ Settled db' ∧ db'.current = commit := by
  obtain ⟨s, hst, -⟩ := hs.live.stream_open
  have heq := hs.live.rotate_eq hc term
  obtain ⟨db₁, h1, hl₁, -, -⟩ := hs.live.rotate hc term
  rw [heq] at h1
  cases h1
  have hnc : db.current ≠ commit := UInt64.ne_of_lt hc
  have hdb := DB.closeCurrent_setCurrent db commit hst hs.current_not_closed
  refine ⟨_, heq, ⟨hl₁, hs.closedInv.rotate hc heq, hs.pos.rotate hc heq, fun s' hs' => ?_,
    fun c hc' => ?_⟩, rfl⟩
  · rw [hdb] at hs' ⊢
    cases hs'
    exact ⟨by simp, trivial⟩
  · rw [hdb] at hc' ⊢
    rcases List.mem_append.mp hc' with hc' | hc'
    · obtain ⟨f, hf, hfc, hfn⟩ := hs.closed_files c hc'
      have hcc : c ≠ commit := UInt64.ne_of_lt (Nat.lt_trans (hs.lt_current hc') hc)
      have hcur : db.current ≠ c := fun h => hs.current_not_closed (h ▸ hc')
      refine ⟨f, ?_, hfc, hfn⟩
      simp only [GoMap.get?_set, if_neg (Ne.symm hcc), if_neg hcur]
      exact hf
    · rw [List.mem_singleton.mp hc']
      refine ⟨s.close, by simp [hnc, Ne.symm hnc], rfl, Log.Linked.nodup (hs.held s hst).2⟩

/-- A command above `current` keeps the invariant, and `current` stays at most its commit.
Source: src/cmd/esdb-reader.go `DB.Write`, `DB.Rotate`
Kind: L -/
theorem apply (hs : Settled db) {cmd : Command} (hc : db.current < cmd.commit) :
    ∃ db', db.apply cmd = .ok db' ∧ Settled db' ∧ db'.current ≤ cmd.commit := by
  cases cmd with
  | write commit body indexes timestamp =>
    obtain ⟨db', h, hs', hcur⟩ := hs.write hc body indexes timestamp
    exact ⟨db', h, hs', hcur ▸ Nat.le_of_lt hc⟩
  | rotate commit term =>
    obtain ⟨db', h, hs', hcur⟩ := hs.rotate hc term
    exact ⟨db', h, hs', hcur ▸ UInt64.le_refl _⟩

/-- Over a whole log whose commits increase from above `current`, every command succeeds and
the invariant holds at the end.
Source: src/cmd/esdb-reader.go `DB.Write`, `DB.Rotate`
Kind: L -/
theorem applyAll : ∀ (log : List Command) {db : DB} {b : UInt64}, Settled db → db.current ≤ b →
    (log.map Command.commit).Chain (· < ·) b → ∃ db', db.applyAll log = .ok db' ∧ Settled db'
  | [], db, _, hs, _, _ => ⟨db, rfl, hs⟩
  | cmd :: log, db, b, hs, hb, hch => by
    rw [List.map_cons, List.chain_cons] at hch
    obtain ⟨db₁, h1, hs₁, hcur⟩ := hs.apply (Nat.lt_of_le_of_lt hb hch.1)
    obtain ⟨db', h2, hs'⟩ := applyAll log hs₁ hcur hch.2
    exact ⟨db', by simp only [DB.applyAll, List.foldlM_cons, h1]; exact h2, hs'⟩

end Settled

/-- A run from a directory with no stream files (and any `.tmpstream`s), with commits
increasing from 2, ends in a settled state.
Source: src/cmd/esdb-reader.go `NewDb`, `DB.Write`, `DB.Rotate`
Kind: L -/
theorem replay_settled {tmpfiles : GoMap UInt64 DiskFile} {log : List Command} {db : DB}
    (hlog : (log.map Command.commit).Chain (· < ·) 1) (h : replay [] tmpfiles log = .ok db) :
    Settled db := by
  have h0 : newDb [] tmpfiles =
      .ok ⟨[], 1, 0, some StreamFile.empty, [], 10, [(1, .stream StreamFile.empty)], tmpfiles⟩ :=
    rfl
  have hs0 : Settled
      ⟨[], 1, 0, some StreamFile.empty, [], 10, [(1, .stream StreamFile.empty)], tmpfiles⟩ :=
    ⟨⟨⟨_, rfl, rfl⟩, rfl, fun c (h : (1 : UInt64) < c) => by
        simp [GoMap.get?, UInt64.ne_of_lt h]⟩,
      ⟨List.Pairwise.nil, fun _ h => absurd h (List.not_mem_nil _), fun _ h => absurd h (by simp)⟩,
      ⟨fun _ h => absurd h (List.not_mem_nil _), fun _ => (by decide : (0 : UInt64) < 1)⟩,
      fun s hs => by cases hs; exact ⟨rfl, trivial⟩, fun _ h => absurd h (List.not_mem_nil _)⟩
  obtain ⟨db', h', hs'⟩ := hs0.applyAll log (UInt64.le_refl 1) hlog
  rw [replay, h0] at h
  exact (Except.ok.inj (h.symm.trans h')) ▸ hs'

/-! ## `Compress` on a settled state -/

/-- `forgetStream` on an empty cache changes nothing.
Source: src/cmd/esdb-reader.go `DB.forgetStream`
Kind: L -/
theorem DB.forgetStream_of_empty {d : DB} (h : d.streams = []) (c : UInt64) :
    d.forgetStream c = d := by
  cases d
  simp only at h
  subst h
  rfl

/-- On an empty cache, `Compress` whose `.tmpstream` exists moves it into place and shrinks
`closed`.
Source: src/cmd/esdb-reader.go `DB.Compress`
Kind: L -/
theorem DB.compress_of_empty {db : DB} (h : db.streams = []) (start stop : UInt64) {g : DiskFile}
    (htmp : db.tmpfiles.get? start = some g) :
    db.compress start stop =
      { db with files := db.files.set start g, tmpfiles := db.tmpfiles.delete start,
                closed := db.closed.filter fun c => c ≤ start ∨ c > stop } := by
  have hfold : ∀ (l : List UInt64) (d : DB), d.streams = [] →
      l.foldl (fun db' commit =>
        if commit ≤ start ∨ commit > stop then db' else db'.forgetStream commit) d = d := by
    intro l
    induction l with
    | nil => intro d _; rfl
    | cons c l ih =>
      intro d hd
      rw [List.foldl_cons]
      split
      · exact ih d hd
      · rw [DB.forgetStream_of_empty hd]; exact ih d hd
  simp only [DB.compress, hfold _ _ h, DB.forgetStream_of_empty h, htmp]

/-- A `Compress(start, stop)` with `start` closed, whose `.tmpstream` is a closed stream file with
well-formed tables, keeps the invariant, and puts that file at `start`.
Source: src/cmd/esdb-reader.go `DB.Compress`
Kind: L -/
theorem Settled.compress {db : DB} (hs : Settled db) {start : UInt64} (stop : UInt64)
    (hstart : start ∈ db.closed) {f : StreamFile} (htmp : db.tmpfiles.get? start = some (.stream f))
    (hfc : f.closed = true) (hfn : ∀ e ∈ f.log, (GoMap.keys e.offsets).Nodup) :
    Settled (db.compress start stop) ∧
      (db.compress start stop).files = db.files.set start (.stream f) := by
  have heq := DB.compress_of_empty hs.live.streams_empty start stop htmp
  have hsc : start < db.current := hs.lt_current hstart
  have hi := hs.closedInv.compress start stop
  have hp := hs.pos.compress start stop
  refine ⟨?_, by rw [heq]⟩
  rw [heq] at hi hp ⊢
  obtain ⟨s, hst, hso⟩ := hs.live.stream_open
  refine ⟨⟨⟨s, hst, hso⟩, hs.live.streams_empty, fun c hc => ?_⟩, hi, hp, fun s' hs' => ?_,
    fun c hc => ?_⟩
  · rw [GoMap.get?_set, if_neg (UInt64.ne_of_lt (Nat.lt_trans hsc hc))]
    exact hs.live.files_le c hc
  · obtain ⟨h1, h2⟩ := hs.held s' hs'
    refine ⟨?_, h2⟩
    rw [GoMap.get?_set, if_neg (UInt64.ne_of_lt hsc)]
    exact h1
  · by_cases hcs : start = c
    · subst hcs
      exact ⟨f, by simp, hfc, hfn⟩
    · obtain ⟨g, hg, hgc, hgn⟩ := hs.closed_files c (List.mem_of_mem_filter hc)
      exact ⟨g, by rw [GoMap.get?_set, if_neg hcs]; exact hg, hgc, hgn⟩

/-! ## `Iterate` on a settled state -/

/-- `next` never returns `MaxUint64`, the value its search starts from.
Source: src/cmd/esdb-reader.go `DB.next`
Kind: L -/
theorem DB.next_ne_max (db : DB) (x : UInt64) : db.next x ≠ maxUint64 := by
  have h : ∀ r : UInt64, (if r = maxUint64 then 0 else r) ≠ maxUint64 := fun r => by
    split
    · decide
    · assumption
  exact h _

/-- On a settled state `current` is nonzero and read from the held stream, whose log is linked.
Source: src/cmd/esdb-reader.go `DB.retrieveStream`
Kind: L -/
theorem Settled.reads_current {db : DB} (hs : Settled db) :
    db.current ≠ 0 ∧ ReadsAt db db.current (fileStream db.files db.current) ∧
      Log.Linked (fileStream db.files db.current).log := by
  obtain ⟨s, hst, -⟩ := hs.live.stream_open
  obtain ⟨hf, hl⟩ := hs.held s hst
  rw [fileStream_of_get hf]
  exact ⟨(UInt64.ne_of_lt (hs.pos.current_pos (by simp [hst]))).symm, .inl ⟨rfl, hst⟩, hl⟩

/-- On a settled state a closed commit is nonzero and read from its closed stream file.
Source: src/cmd/esdb-reader.go `DB.retrieveStream`
Kind: L -/
theorem Settled.reads_closed {db : DB} (hs : Settled db) {y : UInt64} (hy : y ∈ db.closed) :
    y ≠ 0 ∧ ReadsAt db y (fileStream db.files y) ∧
      ∀ e ∈ (fileStream db.files y).log, (GoMap.keys e.offsets).Nodup := by
  obtain ⟨f, hf, hfc, hfn⟩ := hs.closed_files y hy
  rw [fileStream_of_get hf]
  exact ⟨(UInt64.ne_of_lt (hs.pos.closed_pos y hy)).symm,
    .inr ⟨(UInt64.ne_of_lt (hs.lt_current hy)).symm, hf, hfc⟩, hfn⟩

/-- On a settled state the walk `Iterate` makes — the closed commits in order, then `current`
unless it is `MaxUint64` — is stepped by `next` from each commit to the following one and from
the last to 0, and each commit of it is nonzero with its stream file to read, well formed.
Source: src/cmd/esdb-reader.go `DB.next`, `DB.retrieveStream`
Kind: L -/
theorem Settled.next_walk {db : DB} (hs : Settled db) :
    ((db.closed ++ if db.current < maxUint64 then [db.current] else []) ++ [0]).Chain'
        (fun a b => db.next a = b) ∧
      ∀ y ∈ db.closed ++ (if db.current < maxUint64 then [db.current] else []),
        y ≠ 0 ∧ ReadsAt db y (fileStream db.files y) ∧
          ∀ e ∈ (fileStream db.files y).log, (GoMap.keys e.offsets).Nodup := by
  have hmem : ∀ y ∈ db.closed ++ (if db.current < maxUint64 then [db.current] else []),
      (y ∈ db.closed ∨ y = db.current) ∧ y < maxUint64 := by
    intro y hy
    rcases List.mem_append.mp hy with hy | hy
    · exact ⟨.inl hy, Nat.lt_of_lt_of_le (hs.lt_current hy) (le_maxUint64 _)⟩
    · split at hy
      · rw [List.mem_singleton.mp hy]; exact ⟨.inr rfl, ‹_›⟩
      · exact absurd hy (List.not_mem_nil _)
  have hsorted : (db.closed ++ if db.current < maxUint64 then [db.current] else []).Pairwise
      (· < ·) := by
    refine List.pairwise_append.mpr ⟨hs.closedInv.sorted, by split <;> simp, fun a ha b hb => ?_⟩
    split at hb
    · rw [List.mem_singleton.mp hb]; exact hs.lt_current ha
    · exact absurd hb (List.not_mem_nil _)
  -- `next` steps along the walk
  have hchain := chain_of_succ (· < ·) UInt64.lt_irrefl (fun _ _ _ => Nat.lt_trans) db.next _
    hsorted fun x _ y hy hxy => by
      obtain ⟨hy1, hymax⟩ := hmem y hy
      obtain ⟨h1, h2⟩ := (DB.next_spec db x).2 y hy1 hxy hymax
      refine ⟨h1, UInt64.not_lt.mpr h2, ?_⟩
      rcases (DB.next_spec db x).1 with h0 | ⟨hm | hm, -⟩
      · rw [h0] at h1; exact absurd h1 (Nat.not_lt_zero _)
      · exact List.mem_append_left _ hm
      · have hcm : db.current < maxUint64 := hm ▸ Nat.lt_of_le_of_lt h2 hymax
        simp [hcm, hm]
  -- and from the last commit to 0
  have hlast : ∀ x ∈ (db.closed ++ if db.current < maxUint64 then [db.current] else []).getLast?,
      db.next x = 0 := by
    intro x hx
    by_cases hmax : db.current < maxUint64
    · have hl : (db.closed ++ [db.current]).getLast? = some db.current := by simp
      rw [if_pos hmax, hl, Option.mem_def, Option.some.injEq] at hx
      rw [← hx]
      exact hs.closedInv.next_current
    · rw [if_neg hmax, List.append_nil] at hx
      rcases (DB.next_spec db x).1 with h | ⟨hm | hm, hlt⟩
      · exact h
      · exact absurd hlt (UInt64.not_lt.mpr (le_of_getLast? hs.closedInv.sorted hx _ hm))
      · exact absurd (hm.trans (le_antisymm' (le_maxUint64 _) (UInt64.not_lt.mp hmax)))
          (DB.next_ne_max db x)
  have hwalk := hchain.append (List.chain'_singleton 0) fun x hx y hy => by
    rw [List.head?_cons, Option.mem_def, Option.some.injEq] at hy
    exact hy ▸ hlast x hx
  -- each commit of the walk is nonzero and has its stream to read
  refine ⟨hwalk, fun y hy => ?_⟩
  rcases (hmem y hy).1 with hy | rfl
  · exact hs.reads_closed hy
  · obtain ⟨h0, hread, hl⟩ := hs.reads_current
    exact ⟨h0, hread, hl.nodup⟩

/-- On a settled state with a closed commit, `Iterate("")` with a scanner that never stops reads
the closed files in commit order and then the current one, unless `current` is `MaxUint64`,
and returns the empty cursor.
Source: src/cmd/esdb-reader.go `DB.Iterate`, `DB.next`, `DB.parseContinuation`
Kind: L -/
theorem Settled.iterate {db : DB} (hs : Settled db) (hne : db.closed ≠ [])
    (recover : UInt64 → Except DBError (Option StreamFile)) :
    ∃ db', db.iterate recover "" (fun _ => true) = some (.ok ("",
      (db.closed ++ if db.current < maxUint64 then [db.current] else []).flatMap
        (fileEvents db.files), db')) := by
  obtain ⟨hwalk, hread⟩ := hs.next_walk
  have hcache : CacheAgrees db := fun c s h => by
    rw [hs.live.streams_empty] at h
    exact absurd h (by simp)
  obtain ⟨c₀, cs, hcl⟩ := List.exists_cons_of_ne_nil hne
  rw [hcl] at hwalk hread
  have hfuel : (cs ++ if db.current < maxUint64 then [db.current] else []).length + 1 <
      db.closed.length + 3 := by
    rw [hcl]
    split <;> simp
  obtain ⟨db', hloop⟩ := iterateLoop_walk recover (fileStream db.files) _ c₀ _ db [] hwalk hread
    hcache hfuel
  have hpc : db.parseContinuation "" false = (c₀, 0) := by simp [DB.parseContinuation, hcl]
  refine ⟨db', ?_⟩
  simp only [DB.iterate, hpc, hloop]
  rw [hcl]
  rfl

/-! ## `Compress` keeps what `Iterate` reads -/

/-- A strictly increasing list is its elements up to a bound followed by those above it.
Source: none: infrastructure
Kind: L -/
theorem filter_le_append_filter_gt : ∀ {l : List UInt64}, l.Pairwise (· < ·) → ∀ b : UInt64,
    l.filter (fun c => c ≤ b) ++ l.filter (fun c => c > b) = l
  | [], _, _ => rfl
  | x :: xs, hs, b => by
    by_cases hx : x ≤ b
    · rw [List.filter_cons_of_pos (by simpa using hx),
        List.filter_cons_of_neg (by simpa using UInt64.not_lt.mpr hx), List.cons_append,
        filter_le_append_filter_gt hs.of_cons b]
    · have hxs : ∀ y ∈ xs, b < y := fun y hy =>
        Nat.lt_trans (UInt64.not_le.mp hx) (List.rel_of_pairwise_cons hs hy)
      rw [List.filter_cons_of_neg (by simpa using hx),
        List.filter_cons_of_pos (by simpa using UInt64.not_le.mp hx),
        List.filter_eq_nil_iff.mpr fun y hy => by simpa using hxs y hy,
        List.filter_eq_self.mpr fun y hy => by simpa using hxs y hy, List.nil_append]

/-- Outside the commit it replaces, a file moved into the directory leaves the events of every
other commit as they were.
Source: src/cmd/esdb-reader.go `DB.Compress`
Kind: L -/
theorem flatMap_fileEvents_set {files : GoMap UInt64 DiskFile} {start : UInt64} (g : DiskFile)
    {l : List UInt64} (h : start ∉ l) :
    l.flatMap (fileEvents (files.set start g)) = l.flatMap (fileEvents files) :=
  congrArg List.flatten (List.map_congr_left fun c hc => by
    have hne : start ≠ c := fun he => h (he ▸ hc)
    simp only [fileEvents, fileStream, GoMap.get?_set, if_neg hne])

/-- Over strictly increasing commits holding `start`, followed by commits `t` other than
`start`: dropping `(start, stop]` and putting at `start` a file whose events look, through any
`g`, like those of the files in `[start, stop]`, in order, leaves the events read one file after
another looking the same.
Source: src/cmd/esdb-reader.go `DB.Compress`
Kind: L -/
theorem compress_map {β : Type} (g : Event → β) {files : GoMap UInt64 DiskFile}
    {closed t : List UInt64} {start stop : UInt64} (hsorted : closed.Pairwise (· < ·))
    (hstart : start ∈ closed) (hss : start ≤ stop) (ht : start ∉ t) {f : StreamFile}
    (hev : f.log.reverse.map g =
      ((closed.filter fun c => start ≤ c ∧ c ≤ stop).flatMap (fileEvents files)).map g) :
    (((closed.filter fun c => c ≤ start ∨ c > stop) ++ t).flatMap
        (fileEvents (files.set start (.stream f)))).map g =
      ((closed ++ t).flatMap (fileEvents files)).map g := by
  obtain ⟨A, R, rfl⟩ := List.append_of_mem hstart
  obtain ⟨-, hR', hAR⟩ := List.pairwise_append.mp hsorted
  obtain ⟨hR, hRs⟩ := List.pairwise_cons.mp hR'
  have hA : ∀ a ∈ A, a < start := fun a ha => hAR a ha start (List.mem_cons_self start R)
  have hkeep : (A ++ start :: R).filter (fun c => c ≤ start ∨ c > stop) =
      A ++ start :: R.filter fun c => c > stop := by
    have hAk : A.filter (fun c => c ≤ start ∨ c > stop) = A :=
      List.filter_eq_self.mpr fun a ha => decide_eq_true (.inl (Nat.le_of_lt (hA a ha)))
    have hRk : R.filter (fun c => c ≤ start ∨ c > stop) = R.filter fun c => c > stop :=
      List.filter_congr fun r hr => by simp [UInt64.not_le.mpr (hR r hr)]
    rw [List.filter_append, List.filter_cons_of_pos (by simp), hAk, hRk]
  have hmid : (A ++ start :: R).filter (fun c => start ≤ c ∧ c ≤ stop) =
      start :: R.filter fun c => c ≤ stop := by
    have hAm : A.filter (fun c => start ≤ c ∧ c ≤ stop) = [] :=
      List.filter_eq_nil_iff.mpr fun a ha => by simp [UInt64.not_le.mpr (hA a ha)]
    have hRm : R.filter (fun c => start ≤ c ∧ c ≤ stop) = R.filter fun c => c ≤ stop :=
      List.filter_congr fun r hr => decide_eq_decide.mpr
        ⟨fun h => h.2, fun h => ⟨Nat.le_of_lt (hR r hr), h⟩⟩
    rw [List.filter_append, List.filter_cons_of_pos (by simpa using hss), hAm, hRm,
      List.nil_append]
  have hnA : start ∉ A := fun h => UInt64.lt_irrefl _ (hA start h)
  have hnR : start ∉ R.filter fun c => c > stop := fun h =>
    UInt64.lt_irrefl _ (hR start (List.mem_of_mem_filter h))
  have hf : fileEvents (files.set start (.stream f)) start = f.log.reverse := by
    simp [fileEvents, fileStream]
  have hRsplit : R.flatMap (fileEvents files) = (R.filter fun c => c ≤ stop).flatMap
      (fileEvents files) ++ (R.filter fun c => c > stop).flatMap (fileEvents files) := by
    rw [← List.flatMap_append, filter_le_append_filter_gt hRs stop]
  rw [hmid] at hev
  rw [hkeep]
  simp only [List.append_assoc, List.cons_append, List.flatMap_append, List.flatMap_cons,
    List.map_append, flatMap_fileEvents_set _ hnA, flatMap_fileEvents_set _ hnR,
    flatMap_fileEvents_set _ ht, hf, hev, hRsplit]

end Esdb.Cluster
