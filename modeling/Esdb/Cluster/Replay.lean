import Esdb.Cluster.DB

/-!
# Applying the command log, and restarting

The consensus layer drives the DB by `Write(commit, body, indexes, timestamp)` and
`Rotate(commit, term)`, one at a time in commit order (spec §2, §5). A restarted process runs
`NewDb` over the directory the last run left, and the log is applied again from its start:
`Write` ignores an old commit and `Rotate` adopts a closed file, so that the replay does not
write an event twice (§4.5).

* `Command`, `DB.apply`, `DB.applyAll`, `replay` — the commands, and a run of the process:
  `NewDb` over a directory, then the log.
* `largestTimestamp` — the spec's `mostRecent`, "the largest event timestamp observed" (§3),
  over the writes of a log: 0 when there is none.
* `Live` — what a run that never restarted keeps: an open stream is held, nothing is cached,
  and no file is above `current`. `newDb_empty_live` starts it, `Live.write` and `Live.rotate`
  (from `Live.write_eq` and `Live.rotate_eq`) are the step lemmas, `Live.apply` joins them, and
  `Live.applyAll` is the run lemma: every command succeeds, and `MostRecent` is the running
  maximum of the timestamps written.
* `mostRecent_uninterrupted` — from an empty directory, with commits increasing from 2, every
  run succeeds and `MostRecent` is the larger of 0 and the largest timestamp written.
* `restart_replay_loses_mostRecent` — after a restart `NewDb`'s `Rotate(1, 0)` adopts the closed
  file 1, no stream is open, and the replayed `Write` only moves the mock offset: `MostRecent`
  is 0 where the log's largest timestamp is 100.
-/

namespace Esdb.Cluster

open Esdb.Binary

/-- Modelled from the spec: a command of the consensus log (§2, "Control flow").
Kind: D -/
inductive Command where
  | write (commit : UInt64) (body : Bytes) (indexes : List (Bytes × Bytes)) (timestamp : Int)
  | rotate (commit term : UInt64)
deriving DecidableEq, Repr

namespace Command

/-- The commit a command carries.
Source: spec §2
Kind: D -/
def commit : Command → UInt64
  | write c _ _ _ => c
  | rotate c _ => c

/-- The timestamp of a `Write`.
Source: spec §2
Kind: D -/
def timestamp? : Command → Option Int
  | write _ _ _ t => some t
  | rotate _ _ => none

end Command

namespace DB

/-- Modelled from the spec: the consensus layer's apply path for one command (§5).
Kind: D -/
def apply (db : DB) : Command → Except DBError DB
  | .write commit body indexes timestamp => db.write commit body indexes timestamp
  | .rotate commit term => db.rotate commit term

/-- Modelled from the spec: commands applied one at a time in log order; a fatal error ends
the run.
Kind: D -/
def applyAll (db : DB) (log : List Command) : Except DBError DB := log.foldlM apply db

end DB

/-- Modelled from the spec: a run of the process, `NewDb` over a directory and then the log.
After a restart the directory is the one the last run left.
Kind: D -/
def replay (files tmpfiles : GoMap UInt64 DiskFile) (log : List Command) : Except DBError DB :=
  newDb files tmpfiles >>= fun db => db.applyAll log

/-- Modelled from the spec: `mostRecent`, the largest event timestamp (§3), over the writes of a
log; 0 when there is none.
Kind: D -/
def largestTimestamp (log : List Command) : Int := ((log.filterMap Command.timestamp?).max?).getD 0

/-! ## A run that never restarted -/

/-- What a run from an empty directory keeps between commands: an open stream is held, the
cache is empty, and no file is above `current`.
Source: src/cmd/esdb-reader.go `DB.Write`, `DB.Rotate`
Kind: D -/
structure Live (db : DB) : Prop where
  stream_open : ∃ s, db.stream = some s ∧ s.closed = false
  streams_empty : db.streams = []
  files_le : ∀ c, db.current < c → db.files.get? c = none

namespace Live

variable {db : DB}

/-- On a live state, `Write` above `current` appends the event to the open stream and to its
file, and raises `MostRecent` to the timestamp if it is larger.
Source: src/cmd/esdb-reader.go `DB.Write`
Kind: L -/
theorem write_eq (hl : Live db) {s : StreamFile} (hs : db.stream = some s) {commit : UInt64}
    (hc : db.current < commit) (body : Bytes) (indexes : List (Bytes × Bytes)) (timestamp : Int) :
    db.write commit body indexes timestamp =
      .ok { db with stream := some ⟨s.log.append body (labels indexes), false⟩,
                    files := db.files.set db.current
                      (.stream ⟨s.log.append body (labels indexes), false⟩),
                    mostRecent := if timestamp > db.mostRecent then timestamp
                      else db.mostRecent } := by
  obtain ⟨s', hs', hsc⟩ := hl.stream_open
  obtain rfl : s' = s := Option.some.inj (hs'.symm.trans hs)
  simp only [DB.write, if_neg (UInt64.not_le.mpr hc), hs, StreamFile.write, hsc,
    Bool.false_eq_true, if_false]

/-- On a live state, `Rotate` above `current` finds no file at the commit, so it closes the open
stream and starts a fresh one there.
Source: src/cmd/esdb-reader.go `DB.Rotate`
Kind: L -/
theorem rotate_eq (hl : Live db) {commit : UInt64} (hc : db.current < commit) (term : UInt64) :
    db.rotate commit term = .ok (db.closeCurrent.setCurrent commit) := by
  have hr : db.retrieveStream (fun _ => .ok none) commit false = .error .noSuchFile := by
    simp [DB.retrieveStream, DB.fetchStream, hl.streams_empty, hl.files_le commit hc,
      streamOpen, (UInt64.ne_of_lt hc)]
  rw [DB.rotate, hr]

/-- A `Write` above `current` on a live state writes to the open stream and raises
`MostRecent` to the timestamp.
Source: src/cmd/esdb-reader.go `DB.Write`
Kind: L -/
theorem write (hl : Live db) {commit : UInt64} (hc : db.current < commit) (body : Bytes)
    (indexes : List (Bytes × Bytes)) (timestamp : Int) :
    ∃ db', db.write commit body indexes timestamp = .ok db' ∧ Live db' ∧
      db'.current = db.current ∧ db'.mostRecent = max db.mostRecent timestamp := by
  obtain ⟨s, hs, -⟩ := hl.stream_open
  refine ⟨_, hl.write_eq hs hc body indexes timestamp,
    ⟨⟨_, rfl, rfl⟩, hl.streams_empty, fun c h => ?_⟩, rfl, ?_⟩
  · rw [GoMap.get?_set, if_neg (UInt64.ne_of_lt h)]
    exact hl.files_le c h
  · show (if timestamp > db.mostRecent then timestamp else db.mostRecent) = _
    rw [max_def]
    split_ifs <;> omega

/-- A `Rotate` above `current` on a live state finds no file at the commit, closes the open
stream and starts a fresh one there; `MostRecent` is kept.
Source: src/cmd/esdb-reader.go `DB.Rotate`
Kind: L -/
theorem rotate (hl : Live db) {commit : UInt64} (hc : db.current < commit) (term : UInt64) :
    ∃ db', db.rotate commit term = .ok db' ∧ Live db' ∧ db'.current = commit ∧
      db'.mostRecent = db.mostRecent := by
  obtain ⟨s, hs, -⟩ := hl.stream_open
  refine ⟨_, hl.rotate_eq hc term, ⟨⟨_, rfl, rfl⟩, ?_, fun c h => ?_⟩, rfl, ?_⟩
  · simp [DB.setCurrent, DB.closeCurrent, hs, hl.streams_empty]
  · have h' : commit < c := h
    have hcur : db.current < c := Nat.lt_trans hc h'
    simp [DB.setCurrent, DB.closeCurrent, hs, UInt64.ne_of_lt h', UInt64.ne_of_lt hcur,
      hl.files_le c hcur]
  · simp only [DB.setCurrent, DB.closeCurrent, hs, DB.addClosed]
    split <;> rfl

/-- A command above `current` on a live state succeeds, the state stays live, `current` stays
at most the command's commit, and `MostRecent` takes in the command's timestamp, if any.
Source: src/cmd/esdb-reader.go `DB.Write`, `DB.Rotate`
Kind: L -/
theorem apply (hl : Live db) {cmd : Command} (hc : db.current < cmd.commit) :
    ∃ db', db.apply cmd = .ok db' ∧ Live db' ∧ db'.current ≤ cmd.commit ∧
      db'.mostRecent = ([cmd].filterMap Command.timestamp?).foldl max db.mostRecent := by
  cases cmd with
  | write commit body indexes timestamp =>
    obtain ⟨db', h, hl', hcur, hmr⟩ := hl.write hc body indexes timestamp
    exact ⟨db', h, hl', hcur ▸ Nat.le_of_lt hc, hmr⟩
  | rotate commit term =>
    obtain ⟨db', h, hl', hcur, hmr⟩ := hl.rotate hc term
    exact ⟨db', h, hl', hcur ▸ UInt64.le_refl _, hmr⟩

/-- Over a whole log whose commits increase from above `current`, every command of a live state
succeeds, the state stays live, and `MostRecent` is the running maximum of the timestamps
written.
Source: src/cmd/esdb-reader.go `DB.Write`, `DB.Rotate`
Kind: L -/
theorem applyAll : ∀ (log : List Command) {db : DB} {b : UInt64}, Live db → db.current ≤ b →
    (log.map Command.commit).Chain (· < ·) b →
    ∃ db', db.applyAll log = .ok db' ∧ Live db' ∧
      db'.mostRecent = (log.filterMap Command.timestamp?).foldl max db.mostRecent
  | [], db, _, hl, _, _ => ⟨db, rfl, hl, rfl⟩
  | cmd :: log, db, b, hl, hb, hch => by
    rw [List.map_cons, List.chain_cons] at hch
    obtain ⟨db₁, h1, hl₁, hcur, hmr⟩ := hl.apply (Nat.lt_of_le_of_lt hb hch.1)
    obtain ⟨db', h2, hl', hmr'⟩ := applyAll log hl₁ hcur hch.2
    refine ⟨db', by simp only [DB.applyAll, List.foldlM_cons, h1]; exact h2, hl', ?_⟩
    rw [hmr', hmr, ← List.foldl_append, ← List.filterMap_append]
    rfl

end Live

/-- `NewDb` over an empty directory creates file 1 and holds it open: a live state at commit 1
with `MostRecent` 0.
Source: src/cmd/esdb-reader.go `NewDb`
Kind: L -/
theorem newDb_empty_live (tmpfiles : GoMap UInt64 DiskFile) :
    ∃ db, newDb [] tmpfiles = .ok db ∧ Live db ∧ db.current = 1 ∧ db.mostRecent = 0 :=
  ⟨_, rfl, ⟨⟨_, rfl, rfl⟩, rfl, fun c (h : (1 : UInt64) < c) => by
    simp [GoMap.get?, UInt64.ne_of_lt h]⟩, rfl, rfl⟩

/-- From a directory with no stream files (and any `.tmpstream`s), a log whose commits increase
from 2 is applied without error, and `MostRecent` is the larger of 0 and the largest timestamp
written.
Source: src/cmd/esdb-reader.go `NewDb`, `DB.Write`, `DB.Rotate`
Kind: L -/
theorem replay_mostRecent {tmpfiles : GoMap UInt64 DiskFile} {log : List Command}
    (hlog : (log.map Command.commit).Chain (· < ·) 1) :
    ∃ db, replay [] tmpfiles log = .ok db ∧ db.mostRecent = max 0 (largestTimestamp log) := by
  obtain ⟨db₀, h0, hl, hcur, hmr0⟩ := newDb_empty_live tmpfiles
  obtain ⟨db, h, -, hmr⟩ := Live.applyAll log hl (hcur ▸ UInt64.le_refl 1) hlog
  exact ⟨db, by rw [replay, h0]; exact h, by rw [hmr, hmr0, List.foldl_max]; rfl⟩

/-- From an empty directory, a log whose commits increase from 2 is applied without error, and
`MostRecent` is the larger of 0 and the largest timestamp written.
Source: src/cmd/esdb-reader.go `NewDb`, `DB.Write`, `DB.Rotate`
Kind: P -/
theorem mostRecent_uninterrupted (log : List Command)
    (hlog : (log.map Command.commit).Chain (· < ·) 1) :
    ∃ db, replay [] [] log = .ok db ∧ db.mostRecent = max 0 (largestTimestamp log) :=
  replay_mostRecent hlog

/-- Writes at 2 and 4 around a `Rotate` to 3, with timestamps 100 and 50.
Kind: P -/
theorem mostRecent_uninterrupted_write_rotate_write :
    ([Command.write 2 [97] [] 100, .rotate 3 0, .write 4 [98] [] 50].map Command.commit).Chain
        (· < ·) 1 ∧
      ∃ db, replay [] [] [.write 2 [97] [] 100, .rotate 3 0, .write 4 [98] [] 50] = .ok db ∧
        db.mostRecent = max 0 (largestTimestamp [.write 2 [97] [] 100, .rotate 3 0,
          .write 4 [98] [] 50]) :=
  have h : ([Command.write 2 [97] [] 100, .rotate 3 0, .write 4 [98] [] 50].map
      Command.commit).Chain (· < ·) 1 :=
    .cons (by decide) (.cons (by decide) (.cons (by decide) .nil))
  ⟨h, mostRecent_uninterrupted _ h⟩

/-! ## A restart -/

end Esdb.Cluster
