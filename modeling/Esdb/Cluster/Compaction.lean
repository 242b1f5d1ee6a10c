import Esdb.Cluster.Restart

/-!
# Reads after `Compress`

`Compress(start, stop)` (src/cmd/esdb-reader.go) replaces the closed files of `[start, stop]` by
the `.tmpstream` a compaction left at `start`. What a maintainer needs of it is that readers do
not notice: when the `.tmpstream` is a closed stream file whose back-pointers are well formed and
whose events show, in order, the payloads and labels of the events of `[start, stop]`, every read
with no cursor, `Iterate` and `Scan` alike, sees the same writes as before, and the log can go on.

* `Mirrors.of_map` — mirroring looks at an event's payload and label table only.
* `Recorded.compress` — such a `Compress` keeps a run's invariant, with the same writes: the
  merged file is closed and linked at `start`, and the files of `closed` and `current` still
  mirror the writes (`compress_map`).
* `compress_reads_see_writes` — after any run, such a `Compress`, and any further `Write`s and
  `Rotate`s whose commits keep increasing, every read with no cursor sees exactly the log's
  writes: `Scan`'s label chains, followed across the merged file, included.
-/

namespace Esdb.Cluster

open Esdb.Binary Esdb.Stream

/-- Mirroring looks at an event's payload and label table only: events showing the same ones
mirror the same writes.
Source: spec §4.4, Write algorithm
Kind: L -/
theorem Mirrors.of_map {evs evs' : List Event} {ws : List (Bytes × List Bytes)}
    (h : evs'.map (fun e => (e.data, GoMap.keys e.offsets)) =
      evs.map fun e => (e.data, GoMap.keys e.offsets))
    (hm : Mirrors evs ws) : Mirrors evs' ws := by
  have key : ∀ E : List Event, Mirrors E ws ↔ List.Forall₂ (fun p w => p.1 = w.1 ∧
      ∀ L, L ∈ p.2 ↔ L ∈ w.2) (E.map fun e => (e.data, GoMap.keys e.offsets)) ws :=
    fun _ => (List.forall₂_map_left_iff (R := fun (p w : Bytes × List Bytes) => p.1 = w.1 ∧
      ∀ L, L ∈ p.2 ↔ L ∈ w.2) (f := fun e : Event => (e.data, GoMap.keys e.offsets))).symm
  rw [key, h, ← key]
  exact hm

namespace Recorded

variable {db : DB} {ws : List (Bytes × List Bytes)}

/-- A `Compress(start, stop)` of a closed `start` and `stop ≥ start`, whose `.tmpstream` is a
closed stream file with linked events showing, in order, the payloads and labels of the events
of the closed files of `[start, stop]`, keeps a recorded state recorded with the same writes.
Source: src/cmd/esdb-reader.go `DB.Compress`
Kind: L -/
theorem compress (hr : Recorded db ws) {start stop : UInt64} (hstart : start ∈ db.closed)
    (hss : start ≤ stop) {f : StreamFile} (htmp : db.tmpfiles.get? start = some (.stream f))
    (hfc : f.closed = true) (hl : Log.Linked f.log)
    (hev : f.log.reverse.map (fun e => (e.data, GoMap.keys e.offsets)) =
      ((db.closed.filter fun c => start ≤ c ∧ c ≤ stop).flatMap (fileEvents db.files)).map
        fun e => (e.data, GoMap.keys e.offsets)) :
    Recorded (db.compress start stop) ws := by
  have hs := hr.settled
  obtain ⟨hs', hfiles⟩ := hs.compress stop hstart htmp hfc hl.nodup
  have hcur : (db.compress start stop).current = db.current := (DB.compress_frame db start stop).1
  have hne : start ≠ db.current := UInt64.ne_of_lt (hs.lt_current hstart)
  refine ⟨hs', fun c hc => ?_, ?_, fun h => ?_⟩
  · -- the merged file is linked, the others are those of the run
    rw [hfiles]
    by_cases hcs : start = c
    · subst hcs
      simpa [fileStream] using hl
    · simpa [fileStream, GoMap.get?_set, hcs] using hr.linked c (List.mem_of_mem_filter hc)
  · rw [hfiles, hcur, DB.compress_closed]
    exact Mirrors.of_map (compress_map _ hs.closedInv.sorted hstart hss (by simpa using hne) hev)
      hr.mirrors
  · rw [hcur] at h
    rw [hfiles, hcur, ← hr.max_empty h]
    simp [fileEvents, fileStream, GoMap.get?_set, hne]

end Recorded

/-- After any run from a directory with no stream files, with commits increasing from 2, a
`Compress(start, stop)` of a closed `start` and `stop ≥ start`, whose `.tmpstream` is a closed
stream file with linked events showing, in order, the payloads and labels of the events of the
closed files of `[start, stop]`, is invisible to readers, then and later: after it and any
further `Write`s and `Rotate`s whose commits keep increasing, every command succeeds and every
read with no cursor, `Iterate` and `Scan(name, value)` alike, sees exactly the writes of the
whole log.
Source: src/cmd/esdb-reader.go `DB.Compress`, `DB.Iterate`, `DB.Scan`, `DB.Write`, `DB.Rotate`
Kind: P -/
theorem compress_reads_see_writes {tmpfiles : GoMap UInt64 DiskFile} {log more : List Command}
    {db : DB} (hlog : ((log ++ more).map Command.commit).Chain (· < ·) 1)
    (hdb : replay [] tmpfiles log = .ok db) {start stop : UInt64} (hstart : start ∈ db.closed)
    (hss : start ≤ stop) {f : StreamFile} (htmp : db.tmpfiles.get? start = some (.stream f))
    (hfc : f.closed = true) (hl : Log.Linked f.log)
    (hev : f.log.reverse.map (fun e => (e.data, GoMap.keys e.offsets)) =
      ((db.closed.filter fun c => start ≤ c ∧ c ≤ stop).flatMap (fileEvents db.files)).map
        fun e => (e.data, GoMap.keys e.offsets))
    (recover : UInt64 → Except DBError (Option StreamFile)) :
    ∃ db', (db.compress start stop).applyAll more = .ok db' ∧
      ReadsSee recover db' ((log ++ more).flatMap Command.written) := by
  have hr := (replay_recorded (chain_commit_left hlog) hdb).compress hstart hss htmp hfc hl hev
  have hcur : (db.compress start stop).current = db.current := (DB.compress_frame db start stop).1
  obtain ⟨db', h, hr'⟩ := hr.applyAll more (Nat.le_of_eq (congrArg UInt64.toNat hcur))
    (replay_chain_rest hlog hdb)
  exact ⟨db', h, by simpa using hr'.served.readsSee recover⟩

/-- The `.tmpstream` a compaction of the files holding `a`, labelled `x:1`, and then `b` writes:
both events, the label's chain linked.
Source: none: infrastructure
Kind: D -/
def mergedPair : StreamFile := ⟨Log.ofWrites [([97], [label [120] [49]]), ([98], [])], true⟩

/-- The log of the compaction example: `a` labelled `x:1` under commit 2, a rotation to 3, `b`
under 4 and a rotation to 5, so that commits 1 and 3 are closed.
Source: none: infrastructure
Kind: D -/
def pairLog : List Command :=
  [.write 2 [97] [([120], [49])] 1, .rotate 3 0, .write 4 [98] [] 2, .rotate 5 0]

/-- Compressing the two closed files of `pairLog` into `mergedPair`, then writing `c` labelled
`x:1`: every read with no cursor sees the three writes. -/
theorem compress_reads_see_writes_merged_pair :
    ∃ db, replay [] [(1, .stream mergedPair)] pairLog = .ok db ∧
      ((pairLog ++ [Command.write 6 [99] [([120], [49])] 3]).map Command.commit).Chain (· < ·) 1 ∧
      (1 : UInt64) ∈ db.closed ∧ (1 : UInt64) ≤ 3 ∧
      db.tmpfiles.get? 1 = some (.stream mergedPair) ∧ mergedPair.closed = true ∧
      Log.Linked mergedPair.log ∧
      mergedPair.log.reverse.map (fun e => (e.data, GoMap.keys e.offsets)) =
        ((db.closed.filter fun c => 1 ≤ c ∧ c ≤ 3).flatMap (fileEvents db.files)).map
          (fun e => (e.data, GoMap.keys e.offsets)) ∧
      ∃ db', (db.compress 1 3).applyAll [.write 6 [99] [([120], [49])] 3] = .ok db' ∧
        ReadsSee (fun _ => .ok none) db'
          ((pairLog ++ [Command.write 6 [99] [([120], [49])] 3]).flatMap Command.written) :=
  have hlog : ((pairLog ++ [Command.write 6 [99] [([120], [49])] 3]).map Command.commit).Chain
      (· < ·) 1 :=
    .cons (by decide) (.cons (by decide) (.cons (by decide) (.cons (by decide)
      (.cons (by decide) .nil))))
  ⟨_, rfl, hlog, by decide, by decide, rfl, rfl, Log.linked_ofWrites _, rfl,
    @compress_reads_see_writes [(1, .stream mergedPair)] pairLog _ _ hlog rfl 1 3 (by decide)
      (by decide) mergedPair rfl rfl (Log.linked_ofWrites _) rfl _⟩

end Esdb.Cluster
