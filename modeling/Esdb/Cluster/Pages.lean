import Esdb.Cluster.ReadBack

/-!
# Paging through the log with `Iterate` and `Scan`

A client reads the log a page at a time: `Iterate` with a scanner that stops after a page's
worth, then `Iterate` again from the cursor it returned. A cursor names a commit and an offset
in its file: when the scanner refuses an event `Iterate` returns the offset just past it, and
when it runs off the end of the newest file it returns commit 0, which prints as the empty
cursor — the cursor a first read starts from. `Scan` pages the same way, but its cursor always
has offset 0: it names the file the refused event is in, or the one after when that event
ended its file's chain for the label.

* `DB.iteratePages`, `pagesOf` — the pages a list of scanners reads, page after page: from the
  code, and from the log's events, where each page is fed what follows the event the previous
  page stopped at, and a page after one that stopped at nothing is fed the whole log again.
* `StreamFile.offsetAfter_le` — a cursor's offset lies within its file.
* `iteratePages_at`, `iterate_pages` — on the state of every run, paging with `Iterate` reads
  exactly `pagesOf` of the run's events: after a page that stopped, no event is skipped or
  repeated; after a page that read to the end, the log is read again from its oldest event.
* `DB.scanPages`, `scanPagesOf` — the same for `Scan(name, value)`, along the walk of label
  chains `Scan` takes, newest file first, each page resuming where `scanResume` says.
* `scanPages_at`, `scan_pages` — on the state of every run, paging with `Scan` reads exactly
  `scanPagesOf` the label's chains: a page after one that stopped inside a file's chain reads
  that chain again from its head, so events are repeated and none is skipped.
-/

namespace Esdb.Cluster

open Esdb.Binary Esdb.Stream

namespace DB

/-- A client paging with `Iterate`: each scanner in turn reads from the cursor the previous read
returned (the first from the empty cursor), on the state that read returned; the pages, or the
first error.
Source: src/cmd/esdb-reader.go `DB.Iterate`
Kind: D -/
def iteratePages (recover : UInt64 → Except DBError (Option StreamFile)) :
    DB → String → List (List Event → Bool) → Option (Except DBError (List (List Event)))
  | _, _, [] => some (.ok [])
  | db, cursor, scanner :: ss =>
    match db.iterate recover cursor scanner with
    | some (.ok (cursor', page, db')) =>
      (iteratePages recover db' cursor' ss).map fun r => r.map (page :: ·)
    | some (.error e) => some (.error e)
    | none => none

end DB

/-- The pages scanners read from the events `G`, paging from `R`: each is fed, from scratch,
what is left; after a page whose scanner refused its `k`-th event, what follows that event is
left, and after a page whose scanner refused none, all of `G`.
Source: spec §4.5, "Iterate"; src/cmd/esdb-reader.go `DB.Iterate`, `buildContinuation`
Kind: D -/
def pagesOf (G : List Event) : List Event → List (List Event → Bool) → List (List Event)
  | _, [] => []
  | R, s :: ss => (feed s [] R).1 ::
    match (feed s [] R).2 with
    | some k => pagesOf G (R.drop k) ss
    | none => pagesOf G G ss

/-- The offset just past some of a file's events is at most the file's write offset.
Source: spec §4.4
Kind: L -/
theorem StreamFile.offsetAfter_le (f : StreamFile) (j : Nat) : f.offsetAfter j ≤ f.offset := by
  have h := congrArg (fun l => (Log.flat l).length) (List.take_append_drop j f.log.reverse)
  simp only [Log.flat_append, List.length_append] at h
  rw [StreamFile.offsetAfter, StreamFile.offset, Log.endOffset_eq, Log.records_eq_flat]
  omega

/-- Paging with any cache of closed files along the walk the empty cursor starts (stepped by
`next`, each commit nonzero, read from its well formed stream file, shorter than `2^63` bytes),
from the empty cursor or from a cursor at a point of the walk (`buildContinuation` of a commit
of it and an offset just past some of its file's events): every page is read, and the pages
are `pagesOf` the walk's events from what is left at that point.
Source: src/cmd/esdb-reader.go `DB.Iterate`, `DB.parseContinuation`, `buildContinuation`
Kind: L -/
theorem iteratePages_at (recover : UInt64 → Except DBError (Option StreamFile)) {db : DB}
    {x : UInt64} {W : List UInt64}
    (hch : (W ++ [0]).Chain (fun a b => db.next a = b) x)
    (hread : ∀ y ∈ x :: W, y ≠ 0 ∧ ReadsAt db y (fileStream db.files y) ∧
      ∀ e ∈ (fileStream db.files y).log, (GoMap.keys e.offsets).Nodup)
    (hfuel : W.length + 1 < db.closed.length + 3)
    (hsize : ∀ y ∈ x :: W, (fileStream db.files y).offset < 2 ^ 63)
    (hpc : db.parseContinuation "" false = (x, 0)) :
    ∀ (ss : List (List Event → Bool)) {streams : GoMap UInt64 (Option StreamFile)}
      {cursor : String} {R : List Event}, CacheClosed { db with streams := streams } →
      (cursor = "" ∧ R = walkEvents (fileStream db.files) x 0 W ∨
        ∃ y W' j, (y :: W') <:+ (x :: W) ∧
          cursor = buildContinuation y ((fileStream db.files y).offsetAfter j) ∧
          R = walkEvents (fileStream db.files) y j W') →
      ({ db with streams := streams } : DB).iteratePages recover cursor ss =
        some (.ok (pagesOf (walkEvents (fileStream db.files) x 0 W) R ss))
  | [], _, _, _, _, _ => rfl
  | s :: ss, streams, cursor, R, hc, hpos => by
    -- the point of the walk the page starts at
    obtain ⟨y, W', i, o, hsuf, hpcy, ho, rfl⟩ : ∃ y W' i o, (y :: W') <:+ (x :: W) ∧
        db.parseContinuation cursor false = (y, o) ∧
        (o = 0 ∧ i = 0 ∨ o = (fileStream db.files y).offsetAfter i) ∧
        R = walkEvents (fileStream db.files) y i W' := by
      rcases hpos with ⟨rfl, rfl⟩ | ⟨y, W', j, hsuf, rfl, rfl⟩
      · exact ⟨x, W, 0, 0, List.suffix_refl _, hpc, .inl ⟨rfl, rfl⟩, rfl⟩
      · have hy := hsuf.subset (List.mem_cons_self y W')
        have hlt : (fileStream db.files y).offsetAfter j < 2 ^ 63 :=
          Nat.lt_of_le_of_lt ((fileStream db.files y).offsetAfter_le j) (hsize y hy)
        refine ⟨y, W', j, _, hsuf, parseContinuation_buildContinuation db _ _ false
          (Nat.pos_of_ne_zero fun h => (hread y hy).1 (UInt64.toNat.inj h)) ⟨by omega, ?_⟩,
          .inr rfl, rfl⟩
        exact_mod_cast hlt
    obtain ⟨cursor', db', h, hnone, hstop, hframe, hc'⟩ :=
      iterate_walk recover s hc hch hread hfuel hsuf hpcy ho
    have hc'' : CacheClosed { db with streams := db'.streams } := hframe ▸ hc'
    simp only [DB.iteratePages, h]
    rw [hframe]
    rcases hk : (feed s [] (walkEvents (fileStream db.files) y i W')).2 with _ | k
    · -- the page read to the end: the next one starts from the empty cursor
      rw [iteratePages_at recover hch hread hfuel hsize hpc ss hc''
        (.inl ⟨hnone hk, rfl⟩)]
      simp [pagesOf, hk]
      rfl
    · -- the page stopped: the next one starts just past the refused event
      obtain ⟨y', W'', j, hsuf', hcur, hrest⟩ := hstop k hk
      rw [iteratePages_at recover hch hread hfuel hsize hpc ss hc''
        (.inr ⟨y', W'', j, hsuf', hcur, hrest.symm⟩)]
      simp [pagesOf, hk]
      rfl

/-- On the state of every run from a directory with no stream files, with commits increasing
from 2 and every file of `closed` and `current` shorter than `2^63` bytes (so that cursor
offsets print and parse back), a client paging with `Iterate` from the empty cursor, each page
from the cursor the previous one returned, reads exactly `pagesOf` the events that mirror the
log's writes: a page after one that stopped is fed precisely the events after the refused one,
none skipped or repeated, and a page after one that read to the end is fed the whole log again,
the returned cursor being empty.
Source: src/cmd/esdb-reader.go `DB.Iterate`, `DB.next`, `DB.parseContinuation`,
`buildContinuation`
Kind: P -/
theorem iterate_pages {tmpfiles : GoMap UInt64 DiskFile} {log : List Command} {db : DB}
    (hlog : (log.map Command.commit).Chain (· < ·) 1) (hdb : replay [] tmpfiles log = .ok db)
    (hsize : ∀ c ∈ db.closed ++ [db.current], (fileStream db.files c).offset < 2 ^ 63)
    (recover : UInt64 → Except DBError (Option StreamFile)) (ss : List (List Event → Bool)) :
    ∃ evs, Mirrors evs (log.flatMap Command.written) ∧
      db.iteratePages recover "" ss = some (.ok (pagesOf evs evs ss)) := by
  have hr := replay_recorded hlog hdb
  obtain ⟨x, W, hpc, hch, hread, hmem, hlist, hfuel⟩ := hr.forward_walk
  refine ⟨_, hr.mirrors, ?_⟩
  have h := iteratePages_at recover hch hread hfuel (fun y hy => hsize y (hmem y hy)) hpc ss
    hr.cacheClosed (.inl ⟨rfl, rfl⟩)
  rw [hlist] at h
  exact h

/-- Two files, `[a]` then `[b]`, paged by a scanner that stops at its first event, one that
never stops, and the first again: the pages are `[a]`, `[b]` and then `[a]` once more. -/
theorem iterate_pages_restart :
    ∃ db, replay [] [] [.write 2 [97] [] 5, .rotate 3 0, .write 4 [98] [] 6] = .ok db ∧
      ([Command.write 2 [97] [] 5, .rotate 3 0, .write 4 [98] [] 6].map Command.commit).Chain
        (· < ·) 1 ∧
      (∀ c ∈ db.closed ++ [db.current], (fileStream db.files c).offset < 2 ^ 63) ∧
      ∃ evs, Mirrors evs ([Command.write 2 [97] [] 5, .rotate 3 0,
          .write 4 [98] [] 6].flatMap Command.written) ∧
        db.iteratePages (fun _ => .ok none) ""
            [fun seen => seen.length < 1, fun _ => true, fun seen => seen.length < 1] =
          some (.ok (pagesOf evs evs
            [fun seen => seen.length < 1, fun _ => true, fun seen => seen.length < 1])) :=
  have hlog : ([Command.write 2 [97] [] 5, .rotate 3 0, .write 4 [98] [] 6].map
      Command.commit).Chain (· < ·) 1 :=
    .cons (by decide) (.cons (by decide) (.cons (by decide) .nil))
  ⟨_, rfl, hlog, by decide, iterate_pages hlog rfl (by decide) _ _⟩


/-! ## Paging with `Scan` -/

namespace DB

/-- A client paging with `Scan(name, value)`: each scanner in turn reads from the cursor the
previous read returned (the first from the empty cursor), on the state that read returned; the
pages, or the first error.
Source: src/cmd/esdb-reader.go `DB.Scan`
Kind: D -/
def scanPages (recover : UInt64 → Except DBError (Option StreamFile)) (name value : Bytes) :
    DB → String → List (List Event → Bool) → Option (Except DBError (List (List Event)))
  | _, _, [] => some (.ok [])
  | db, cursor, scanner :: ss =>
    match db.scan recover name value cursor scanner with
    | some (.ok (cursor', page, db')) =>
      (scanPages recover name value db' cursor' ss).map fun r => r.map (page :: ·)
    | some (.error e) => some (.error e)
    | none => none

end DB

/-- The pages scanners read with `Scan` along the walk `G`, whose commits give the events
`chain` of their files, paging from the suffix `V` of the walk: each page is fed, from scratch,
the events of `V`; after a page whose scanner refused an event the next is read from where
`Scan` resumes (`scanResume`), and from all of `G` when that is past the walk's end or when the
scanner refused none.
Source: src/cmd/esdb-reader.go `DB.Scan`, `buildContinuation`
Kind: D -/
def scanPagesOf (chain : UInt64 → List Event) (G : List UInt64) :
    List UInt64 → List (List Event → Bool) → List (List Event)
  | _, [] => []
  | V, s :: ss => (feed s [] (V.flatMap chain)).1 ::
    match (feed s [] (V.flatMap chain)).2.map (scanResume chain V) with
    | some (y :: V') => scanPagesOf chain G (y :: V') ss
    | _ => scanPagesOf chain G G ss

/-- Paging with `Scan`, with any cache of closed files, along the walk the empty cursor starts
(stepped by `prev`, each commit nonzero and read from its linked stream file), from the empty
cursor or from the cursor of a commit of the walk at offset 0: every page is read, and the
pages are `scanPagesOf` the walk's label chains from that point.
Source: src/cmd/esdb-reader.go `DB.Scan`, `DB.parseContinuation`, `buildContinuation`
Kind: L -/
theorem scanPages_at (recover : UInt64 → Except DBError (Option StreamFile)) {db : DB}
    (name value : Bytes) {x : UInt64} {W : List UInt64}
    (hch : (W ++ [0]).Chain (fun a b => db.prev a = b) x)
    (hread : ∀ y ∈ x :: W, y ≠ 0 ∧ ReadsAt db y (fileStream db.files y) ∧
      Log.Linked (fileStream db.files y).log)
    (hfuel : W.length + 1 < db.closed.length + 2) (hpc : db.parseContinuation "" true = (x, 0)) :
    ∀ (ss : List (List Event → Bool)) {streams : GoMap UInt64 (Option StreamFile)}
      {cursor : String} {V : List UInt64}, CacheClosed { db with streams := streams } →
      (cursor = "" ∧ V = x :: W ∨
        ∃ y W', V = y :: W' ∧ (y :: W') <:+ (x :: W) ∧ cursor = buildContinuation y 0) →
      ({ db with streams := streams } : DB).scanPages recover name value cursor ss =
        some (.ok (scanPagesOf (labelChain (fileStream db.files) name value) (x :: W) V ss))
  | [], _, _, _, _, _ => rfl
  | s :: ss, streams, cursor, V, hc, hpos => by
    -- the point of the walk the page starts at
    obtain ⟨y, W', hsuf, hpcy, rfl⟩ : ∃ y W', (y :: W') <:+ (x :: W) ∧
        db.parseContinuation cursor true = (y, 0) ∧ V = y :: W' := by
      rcases hpos with ⟨rfl, rfl⟩ | ⟨y, W', rfl, hsuf, rfl⟩
      · exact ⟨x, W, List.suffix_refl _, hpc, rfl⟩
      · have hy := (hread y (hsuf.subset (List.mem_cons_self y W'))).1
        exact ⟨y, W', hsuf, parseContinuation_buildContinuation db _ _ true
          (Nat.pos_of_ne_zero fun h => hy (UInt64.toNat.inj h)) ⟨by decide, by decide⟩, rfl⟩
    obtain ⟨cursor', db', h, hnone, hstop, hframe, hc'⟩ :=
      scan_walk recover s hc name value hch hread hfuel hsuf hpcy
    have hc'' : CacheClosed { db with streams := db'.streams } := hframe ▸ hc'
    simp only [DB.scanPages, h]
    rw [hframe]
    rcases hk : (feed s [] ((y :: W').flatMap (labelChain (fileStream db.files) name value))).2
      with _ | k
    · -- the page read to the end: the next one starts from the empty cursor
      rw [scanPages_at recover name value hch hread hfuel hpc ss hc'' (.inl ⟨hnone hk, rfl⟩)]
      simp only [scanPagesOf, hk, Option.map_none']
      rfl
    obtain ⟨hsuf', hcur⟩ := hstop k hk
    rcases hres : scanResume (labelChain (fileStream db.files) name value) (y :: W') k
      with _ | ⟨y', V'⟩
    · -- the refused event ended the walk's last chain: the cursor is empty
      rw [hres] at hcur
      rw [scanPages_at recover name value hch hread hfuel hpc ss hc'' (.inl ⟨hcur, rfl⟩)]
      simp only [scanPagesOf, hk, hres, Option.map_some']
      rfl
    · -- the next page starts where `Scan` resumes
      rw [hres] at hsuf' hcur
      rw [scanPages_at recover name value hch hread hfuel hpc ss hc''
        (.inr ⟨y', V', rfl, hsuf', hcur⟩)]
      simp only [scanPagesOf, hk, hres, Option.map_some']
      rfl

/-- On the state of every run from a directory with no stream files, with commits increasing
from 2, the label's chains along the backward walk — `current`, then the closed commits newest
first — mirror the log's writes with the label, newest first; and a client paging with
`Scan(name, value)` from the empty cursor, each page from the cursor the previous one
returned, reads exactly `scanPagesOf` them. A page after one that stopped starts again at the
head of the chain of the file where that one stopped, re-reading its events up to the refused
one; when the refused event ended its file's chain it starts at the next file, and after the
oldest file at the newest again.
Source: src/cmd/esdb-reader.go `DB.Scan`, `DB.prev`, `DB.parseContinuation`,
`buildContinuation`
Kind: P -/
theorem scan_pages {tmpfiles : GoMap UInt64 DiskFile} {log : List Command} {db : DB}
    (hlog : (log.map Command.commit).Chain (· < ·) 1) (hdb : replay [] tmpfiles log = .ok db)
    (recover : UInt64 → Except DBError (Option StreamFile)) (name value : Bytes)
    (ss : List (List Event → Bool)) :
    Mirrors ((db.current :: db.closed.reverse).flatMap
        (labelChain (fileStream db.files) name value))
        ((log.flatMap Command.written).filter fun w => label name value ∈ w.2).reverse ∧
      db.scanPages recover name value "" ss =
        some (.ok (scanPagesOf (labelChain (fileStream db.files) name value)
          (db.current :: db.closed.reverse) (db.current :: db.closed.reverse) ss)) := by
  have hr := replay_recorded hlog hdb
  obtain ⟨hpc, hwalk, hread⟩ := hr.backward_walk
  refine ⟨by rw [flatMap_labelChain]; exact hr.mirrors.filter_reverse _, ?_⟩
  exact scanPages_at recover name value hwalk hread (by simp) hpc ss hr.cacheClosed
    (.inl ⟨rfl, rfl⟩)

/-- Two labelled writes in the file of commit 1 and one in the file of commit 4, paged by
scanners that stop at their first event: the second page stops inside the older file's chain,
so the third reads that chain from its head again. -/
theorem scan_pages_repeat :
    ∃ db, replay [] [] [.write 2 [97] [([120], [49])] 5, .write 3 [98] [([120], [49])] 6,
        .rotate 4 0, .write 5 [99] [([120], [49])] 7] = .ok db ∧
      ([Command.write 2 [97] [([120], [49])] 5, .write 3 [98] [([120], [49])] 6, .rotate 4 0,
        .write 5 [99] [([120], [49])] 7].map Command.commit).Chain (· < ·) 1 ∧
      Mirrors ((db.current :: db.closed.reverse).flatMap
          (labelChain (fileStream db.files) [120] [49]))
          (([Command.write 2 [97] [([120], [49])] 5, .write 3 [98] [([120], [49])] 6,
            .rotate 4 0, .write 5 [99] [([120], [49])] 7].flatMap Command.written).filter
            fun w => label [120] [49] ∈ w.2).reverse ∧
        db.scanPages (fun _ => .ok none) [120] [49] ""
            [fun seen => seen.length < 1, fun seen => seen.length < 1,
              fun seen => seen.length < 1] =
          some (.ok (scanPagesOf (labelChain (fileStream db.files) [120] [49])
            (db.current :: db.closed.reverse) (db.current :: db.closed.reverse)
            [fun seen => seen.length < 1, fun seen => seen.length < 1,
              fun seen => seen.length < 1])) :=
  have hlog : ([Command.write 2 [97] [([120], [49])] 5, .write 3 [98] [([120], [49])] 6,
      .rotate 4 0, .write 5 [99] [([120], [49])] 7].map Command.commit).Chain (· < ·) 1 :=
    .cons (by decide) (.cons (by decide) (.cons (by decide) (.cons (by decide) .nil)))
  ⟨_, rfl, hlog, scan_pages hlog rfl _ _ _ _⟩

end Esdb.Cluster
