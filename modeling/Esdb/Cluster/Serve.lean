import Esdb.Cluster.ReadBack

/-!
# Reads between commands

The consensus layer drives `Write` and `Rotate` one at a time in commit order, and clients'
reads (`Iterate`, `Scan`) come in between (spec §2, "Control flow"; §5). A read is not pure: on
the way it opens the closed files it visits and keeps them in the cache `streams`
(`DB.retrieveStream`). The ordering guarantee of §5 — a read started after `Write` returns sees
its event — needs that cache to be invisible, to later reads and to later commands, which look
files up through it too (`Rotate`).

* `Request`, `DB.serve`, `session` — the requests a process serves, one at a time: commands of
  the log, and reads with no cursor; a read's returned state, cache included, is kept.
* `DB.write_withStreams`, `DB.rotate_of_noFile`, `DB.setCurrent_closeCurrent_withStreams` —
  `Write` does not look at the cache, and a `Rotate` whose commit has no file and is not cached
  does not either.
* `Served` — a served state: with its cache emptied it is `Recorded`, and every cached stream is
  the closed file at its commit (`CacheClosed`), so below `current` (`Served.cached_lt`);
  `Served.apply`, `Served.iterate`, `Served.scan` — each request keeps it, and a command does to
  the state what it does with the cache emptied.
* `Served.serve`, `session_reads_see_writes` — so after any interleaving of reads with a log
  whose commits increase, the state is the read-free run's but for the cache, and every read
  with no cursor sees exactly the log's writes (`ReadsSee`).
-/

namespace Esdb.Cluster

open Esdb.Binary Esdb.Stream

/-- Modelled from the spec: a request the database serves (§2, "Control flow"): a command of
the consensus log, or a client's read with no cursor, `Iterate` or `Scan(name, value)`, with its
scanner.
Kind: D -/
inductive Request where
  | command (cmd : Command)
  | iterate (scanner : List Event → Bool)
  | scan (name value : Bytes) (scanner : List Event → Bool)

/-- The command of a request, if it is one.
Source: none: infrastructure
Kind: D -/
def Request.command? : Request → Option Command
  | .command cmd => some cmd
  | _ => none

namespace DB

/-- Modelled from the spec: requests served one at a time (§5). A command is applied and a fatal
error ends the run; a read runs and the state it returns, with the streams it cached, is kept; a
read's error ends the run, and `none` is a read that does not return.
Kind: D -/
def serve (recover : UInt64 → Except DBError (Option StreamFile)) :
    DB → List Request → Option (Except DBError DB)
  | db, [] => some (.ok db)
  | db, .command cmd :: rs =>
    match db.apply cmd with
    | .ok db' => serve recover db' rs
    | .error e => some (.error e)
  | db, .iterate scanner :: rs =>
    match db.iterate recover "" scanner with
    | some (.ok (_, _, db')) => serve recover db' rs
    | some (.error e) => some (.error e)
    | none => none
  | db, .scan name value scanner :: rs =>
    match db.scan recover name value "" scanner with
    | some (.ok (_, _, db')) => serve recover db' rs
    | some (.error e) => some (.error e)
    | none => none

end DB

/-- Modelled from the spec: a run of the process serving requests, `NewDb` over a directory
with no stream files and then the requests.
Kind: D -/
def session (tmpfiles : GoMap UInt64 DiskFile)
    (recover : UInt64 → Except DBError (Option StreamFile)) (reqs : List Request) :
    Option (Except DBError DB) :=
  match newDb [] tmpfiles with
  | .ok db => db.serve recover reqs
  | .error e => some (.error e)

/-- What every read with no cursor of `db` gives back: the events `evs`, which mirror the
writes `ws`, to `Iterate` in order, and those with the label newest first to `Scan`; each read
passes them up to and including the first its scanner refuses, and returns the empty cursor
when it refuses none.
Source: src/cmd/esdb-reader.go `DB.Iterate`, `DB.Scan`
Kind: D -/
def ReadsSee (recover : UInt64 → Except DBError (Option StreamFile)) (db : DB)
    (ws : List (Bytes × List Bytes)) : Prop :=
  ∃ evs, Mirrors evs ws ∧
    (∀ scanner, ∃ cursor db', db.iterate recover "" scanner =
        some (.ok (cursor, (feed scanner [] evs).1, db')) ∧
      ((feed scanner [] evs).2 = none → cursor = "")) ∧
    ∀ name value scanner, ∃ cursor db', db.scan recover name value "" scanner =
        some (.ok (cursor, (feed scanner []
          (evs.filter fun e => label name value ∈ GoMap.keys e.offsets).reverse).1, db')) ∧
      ((feed scanner [] (evs.filter fun e => label name value ∈ GoMap.keys e.offsets).reverse).2 =
        none → cursor = "")

/-! ## Commands do not look at the cache -/

namespace DB

section WithStreams

variable (db : DB) (streams : GoMap UInt64 (Option StreamFile))

/-- `Write` neither reads nor changes the cache.
Source: src/cmd/esdb-reader.go `DB.Write`
Kind: L -/
theorem write_withStreams (commit : UInt64) (body : Bytes) (indexes : List (Bytes × Bytes))
    (timestamp : Int) :
    ({ db with streams := streams } : DB).write commit body indexes timestamp =
      (db.write commit body indexes timestamp).map fun d => { d with streams := streams } := by
  unfold DB.write
  split
  · rfl
  · rcases db.stream with _ | s
    · rfl
    · simp only
      cases s.write body indexes <;> rfl

/-- Closing the current stream and starting a fresh file neither reads nor changes the cache.
Source: src/cmd/esdb-reader.go `DB.Rotate`, `DB.setCurrent`
Kind: L -/
theorem setCurrent_closeCurrent_withStreams (commit : UInt64) :
    ({ db with streams := streams } : DB).closeCurrent.setCurrent commit =
      { db.closeCurrent.setCurrent commit with streams := streams } := by
  unfold DB.closeCurrent DB.addClosed
  rcases db.stream with _ | s
  · rfl
  · by_cases h : db.current ∈ db.closed <;> simp [h, DB.setCurrent]

end WithStreams

/-- `Rotate` to a commit other than `current` that has no file and is not cached closes the
current stream and starts a fresh file there.
Source: src/cmd/esdb-reader.go `DB.Rotate`, `DB.retrieveStream`
Kind: L -/
theorem rotate_of_noFile {db : DB} {commit : UInt64} (hne : db.current ≠ commit)
    (hcache : (db.streams.get? commit).join = none) (hfile : db.files.get? commit = none)
    (term : UInt64) :
    db.rotate commit term = .ok (db.closeCurrent.setCurrent commit) := by
  have hr : db.retrieveStream (fun _ => .ok none) commit false = .error .noSuchFile := by
    rw [DB.retrieveStream, if_neg fun h => hne h.1, hcache]
    simp [DB.fetchStream, hfile, streamOpen]
  rw [DB.rotate, hr]

end DB

/-! ## Served states -/

/-- A state that has served requests, with the writes `ws` of its commands as a ghost: with its
cache emptied it is recorded, and every cached stream is the closed file at its commit.
Source: src/cmd/esdb-reader.go `DB.retrieveStream`, `DB.Write`, `DB.Rotate`
Kind: D -/
structure Served (db : DB) (ws : List (Bytes × List Bytes)) : Prop where
  recorded : Recorded { db with streams := [] } ws
  cache : CacheClosed db

namespace Recorded

variable {db : DB} {ws : List (Bytes × List Bytes)}

/-- A recorded state with its empty cache emptied is itself.
Source: none: infrastructure
Kind: L -/
theorem withStreams_nil (hr : Recorded db ws) : ({ db with streams := [] } : DB) = db := by
  rw [← hr.settled.live.streams_empty]

/-- A recorded state, whose cache is empty, is served.
Source: none: infrastructure
Kind: L -/
theorem served (hr : Recorded db ws) : Served db ws :=
  ⟨hr.withStreams_nil ▸ hr, hr.cacheClosed⟩

end Recorded

namespace Served

variable {db : DB} {ws : List (Bytes × List Bytes)}

/-- Every cached commit is below `current`: its file is closed, the current one is open, and
there is no file above `current`.
Source: src/cmd/esdb-reader.go `DB.retrieveStream`
Kind: L -/
theorem cached_lt (hsv : Served db ws) {c : UInt64} {s : StreamFile}
    (h : (db.streams.get? c).join = some s) : c < db.current := by
  have hs := hsv.recorded.settled
  obtain ⟨hfile, hclosed⟩ := hsv.cache c s h
  obtain ⟨s₀, hst, hopen⟩ := hs.live.stream_open
  by_cases hlt : c < db.current
  · exact hlt
  by_cases hgt : db.current < c
  · exact absurd (hfile.symm.trans (hs.live.files_le c hgt)) (by simp)
  -- at `current` itself the file is the open stream, which is not closed
  obtain rfl : c = db.current := le_antisymm' (UInt64.not_lt.mp hgt) (UInt64.not_lt.mp hlt)
  have := (hs.held s₀ hst).1.symm.trans hfile
  simp only [Option.some.injEq, DiskFile.stream.injEq] at this
  rw [this, hclosed] at hopen
  exact absurd hopen Bool.noConfusion

/-- A `Write` above `current` does to the state what it does with the cache emptied, and keeps
it served with the write added.
Source: src/cmd/esdb-reader.go `DB.Write`
Kind: L -/
theorem write (hsv : Served db ws) {commit : UInt64} (hc : db.current < commit) (body : Bytes)
    (indexes : List (Bytes × Bytes)) (timestamp : Int) :
    ∃ db', db.write commit body indexes timestamp = .ok db' ∧
      ({ db with streams := [] } : DB).write commit body indexes timestamp =
        .ok { db' with streams := [] } ∧
      Served db' (ws ++ [(body, labels indexes)]) ∧ db'.current = db.current := by
  have hr := hsv.recorded
  obtain ⟨d₀, h₀, hr₀, hcur⟩ := hr.write hc body indexes timestamp
  obtain ⟨s, hst, -⟩ := hr.settled.live.stream_open
  have hw : db.write commit body indexes timestamp = .ok { d₀ with streams := db.streams } := by
    have := DB.write_withStreams { db with streams := [] } db.streams commit body indexes timestamp
    rwa [h₀] at this
  have hd₀ := hr₀.withStreams_nil
  refine ⟨_, hw, by rw [hd₀]; exact h₀, ⟨by rwa [hd₀], fun c s' h => ?_⟩, hcur⟩
  -- the write changes the file at `current` only, and nothing cached is current
  rw [hr.settled.live.write_eq hst hc body indexes timestamp] at h₀
  cases h₀
  have hne : db.current ≠ c := (UInt64.ne_of_lt (hsv.cached_lt h)).symm
  simpa [GoMap.get?_set, hne] using hsv.cache c s' h

/-- A `Rotate` above `current` does to the state what it does with the cache emptied, and keeps
it served.
Source: src/cmd/esdb-reader.go `DB.Rotate`, `DB.retrieveStream`, `DB.setCurrent`
Kind: L -/
theorem rotate (hsv : Served db ws) {commit : UInt64} (hc : db.current < commit)
    (term : UInt64) :
    ∃ db', db.rotate commit term = .ok db' ∧
      ({ db with streams := [] } : DB).rotate commit term = .ok { db' with streams := [] } ∧
      Served db' ws ∧ db'.current = commit := by
  have hr := hsv.recorded
  obtain ⟨d₀, h₀, hr₀, hcur⟩ := hr.rotate hc term
  obtain ⟨s, hst, -⟩ := hr.settled.live.stream_open
  have hfile : db.files.get? commit = none := hr.settled.live.files_le commit hc
  have hne : db.current ≠ commit := UInt64.ne_of_lt hc
  have hmiss : (db.streams.get? commit).join = none := by
    cases h : (db.streams.get? commit).join with
    | none => rfl
    | some s' => exact absurd (Nat.lt_trans (hsv.cached_lt h) hc) (Nat.lt_irrefl _)
  -- no file and no cached stream at the commit, with or without the cache: a fresh file
  have hw : db.rotate commit term = .ok { d₀ with streams := db.streams } := by
    rw [@DB.rotate_of_noFile { db with streams := [] } commit hne rfl hfile term] at h₀
    rw [DB.rotate_of_noFile hne hmiss hfile, ← Except.ok.inj h₀]
    exact congrArg Except.ok
      (DB.setCurrent_closeCurrent_withStreams { db with streams := [] } db.streams commit)
  have hd₀ := hr₀.withStreams_nil
  refine ⟨_, hw, by rw [hd₀]; exact h₀, ⟨by rwa [hd₀], fun c s' h => ?_⟩, hcur⟩
  -- the rotation changes the files at `current` and at the commit only, neither cached
  rw [hr.settled.rotate_state hst hc term] at h₀
  cases h₀
  have hlt := hsv.cached_lt h
  have h1 : db.current ≠ c := (UInt64.ne_of_lt hlt).symm
  have h2 : commit ≠ c := (UInt64.ne_of_lt (Nat.lt_trans hlt hc)).symm
  simpa [GoMap.get?_set, h1, h2] using hsv.cache c s' h

/-- A command above `current` does to the state what it does with the cache emptied, keeps it
served with the command's writes added, and leaves `current` at most its commit.
Source: src/cmd/esdb-reader.go `DB.Write`, `DB.Rotate`
Kind: L -/
theorem apply (hsv : Served db ws) {cmd : Command} (hc : db.current < cmd.commit) :
    ∃ db', db.apply cmd = .ok db' ∧
      ({ db with streams := [] } : DB).apply cmd = .ok { db' with streams := [] } ∧
      Served db' (ws ++ cmd.written) ∧ db'.current ≤ cmd.commit := by
  cases cmd with
  | write commit body indexes timestamp =>
    obtain ⟨db', h, h₀, hsv', hcur⟩ := hsv.write hc body indexes timestamp
    exact ⟨db', h, h₀, hsv', hcur ▸ Nat.le_of_lt hc⟩
  | rotate commit term =>
    obtain ⟨db', h, h₀, hsv', hcur⟩ := hsv.rotate hc term
    exact ⟨db', h, h₀, by simpa [Command.written] using hsv', hcur ▸ UInt64.le_refl _⟩

section Reads

variable (recover : UInt64 → Except DBError (Option StreamFile)) (scanner : List Event → Bool)

/-- `Iterate("")` on a served state reads the files of `closed` and then `current`, in commit
order, and keeps the state served, changing nothing but the cache.
Source: src/cmd/esdb-reader.go `DB.Iterate`, `DB.retrieveStream`
Kind: L -/
theorem iterate (hsv : Served db ws) :
    ∃ cursor db', db.iterate recover "" scanner = some (.ok (cursor,
        (feed scanner [] ((db.closed ++ [db.current]).flatMap (fileEvents db.files))).1, db')) ∧
      ((feed scanner [] ((db.closed ++ [db.current]).flatMap (fileEvents db.files))).2 = none →
        cursor = "") ∧ ({ db' with streams := [] } : DB) = { db with streams := [] } ∧
      Served db' ws := by
  obtain ⟨cursor, db', h, hnone, hframe, hc⟩ :=
    hsv.recorded.iterate_cached recover scanner hsv.cache
  have h0 : ({ db' with streams := [] } : DB) = { db with streams := [] } := by rw [hframe]
  exact ⟨cursor, db', h, hnone, h0, h0 ▸ hsv.recorded, hc⟩

/-- `Scan(name, value, "")` on a served state reads the events of the files of `closed` and
`current` with the label, newest first, and keeps the state served, changing nothing but the
cache.
Source: src/cmd/esdb-reader.go `DB.Scan`, `DB.retrieveStream`
Kind: L -/
theorem scan (hsv : Served db ws) (name value : Bytes) :
    ∃ cursor db', db.scan recover name value "" scanner = some (.ok (cursor,
        (feed scanner [] ((((db.closed ++ [db.current]).flatMap (fileEvents db.files)).filter
          fun e => label name value ∈ GoMap.keys e.offsets).reverse)).1, db')) ∧
      ((feed scanner [] ((((db.closed ++ [db.current]).flatMap (fileEvents db.files)).filter
          fun e => label name value ∈ GoMap.keys e.offsets).reverse)).2 = none → cursor = "") ∧
      ({ db' with streams := [] } : DB) = { db with streams := [] } ∧ Served db' ws := by
  obtain ⟨cursor, db', h, hnone, hframe, hc⟩ :=
    hsv.recorded.scan_cached recover scanner hsv.cache name value
  have h0 : ({ db' with streams := [] } : DB) = { db with streams := [] } := by rw [hframe]
  exact ⟨cursor, db', h, hnone, h0, h0 ▸ hsv.recorded, hc⟩

/-- Every read with no cursor of a served state sees exactly the writes it records.
Source: src/cmd/esdb-reader.go `DB.Iterate`, `DB.Scan`
Kind: L -/
theorem readsSee (hsv : Served db ws) : ReadsSee recover db ws :=
  ⟨_, hsv.recorded.mirrors, fun scanner => let ⟨c, d, h, hn, _⟩ := hsv.iterate recover scanner
    ⟨c, d, h, hn⟩, fun name value scanner =>
    let ⟨c, d, h, hn, _⟩ := hsv.scan recover scanner name value; ⟨c, d, h, hn⟩⟩

/-- Over a whole list of requests whose commands' commits increase from above `current`, every
request is served, the state is the one the commands alone leave with the cache emptied, and it
stays served with the commands' writes added.
Source: src/cmd/esdb-reader.go `DB.Write`, `DB.Rotate`, `DB.Iterate`, `DB.Scan`
Kind: L -/
theorem serve : ∀ (reqs : List Request) {db : DB} {b : UInt64} {ws : List (Bytes × List Bytes)},
    Served db ws → db.current ≤ b →
    ((reqs.filterMap Request.command?).map Command.commit).Chain (· < ·) b →
    ∃ db', db.serve recover reqs = some (.ok db') ∧
      ({ db with streams := [] } : DB).applyAll (reqs.filterMap Request.command?) =
        .ok { db' with streams := [] } ∧
      Served db' (ws ++ (reqs.filterMap Request.command?).flatMap Command.written)
  | [], db, _, _, hsv, _, _ => ⟨db, rfl, rfl, by simpa using hsv⟩
  | .command cmd :: reqs, db, b, ws, hsv, hb, hch => by
    simp only [List.filterMap_cons, Request.command?, List.map_cons, List.chain_cons] at hch
    obtain ⟨db₁, h1, h₀, hsv₁, hcur⟩ := hsv.apply (Nat.lt_of_le_of_lt hb hch.1)
    obtain ⟨db', h2, h₀', hsv'⟩ := serve reqs hsv₁ hcur hch.2
    refine ⟨db', by rw [DB.serve, h1]; exact h2, ?_, by simpa [Request.command?] using hsv'⟩
    simp only [List.filterMap_cons, Request.command?, DB.applyAll, List.foldlM_cons, h₀]
    exact h₀'
  | .iterate scanner :: reqs, db, b, ws, hsv, hb, hch => by
    obtain ⟨cursor, db₁, h1, -, h₀, hsv₁⟩ := hsv.iterate recover scanner
    obtain ⟨db', h2, h₀', hsv'⟩ := serve reqs hsv₁ ((congrArg DB.current h₀).trans_le hb) hch
    exact ⟨db', by rw [DB.serve, h1]; exact h2, by rw [← h₀]; exact h₀', by simpa using hsv'⟩
  | .scan name value scanner :: reqs, db, b, ws, hsv, hb, hch => by
    obtain ⟨cursor, db₁, h1, -, h₀, hsv₁⟩ := hsv.scan recover scanner name value
    obtain ⟨db', h2, h₀', hsv'⟩ := serve reqs hsv₁ ((congrArg DB.current h₀).trans_le hb) hch
    exact ⟨db', by rw [DB.serve, h1]; exact h2, by rw [← h₀]; exact h₀', by simpa using hsv'⟩

end Reads

end Served

/-- Any number of reads with no cursor, `Iterate` or `Scan`, interleaved anywhere with a log of
`Write`s and `Rotate`s whose commits increase from 2, from a directory with no stream files:
every request is served without error, the final state is the state the log alone leaves but
for the stream cache, and every read with no cursor then sees exactly the log's writes — the
ordering guarantee that a read started after a `Write` returns sees its event, for every prefix
of every interleaving.
Source: src/cmd/esdb-reader.go `NewDb`, `DB.Write`, `DB.Rotate`, `DB.Iterate`, `DB.Scan`,
`DB.retrieveStream`
Kind: P -/
theorem session_reads_see_writes {tmpfiles : GoMap UInt64 DiskFile} {reqs : List Request}
    (hlog : ((reqs.filterMap Request.command?).map Command.commit).Chain (· < ·) 1)
    (recover : UInt64 → Except DBError (Option StreamFile)) :
    ∃ db, session tmpfiles recover reqs = some (.ok db) ∧
      replay [] tmpfiles (reqs.filterMap Request.command?) = .ok { db with streams := [] } ∧
      ReadsSee recover db ((reqs.filterMap Request.command?).flatMap Command.written) := by
  obtain ⟨db₀, h0, hr0, hcur⟩ := newDb_recorded tmpfiles
  obtain ⟨db, h, h₀, hsv⟩ := hr0.served.serve recover reqs (hcur ▸ UInt64.le_refl 1) hlog
  refine ⟨db, by rw [session, h0]; exact h, ?_, by simpa using hsv.readsSee recover⟩
  rw [replay, h0, ← hr0.withStreams_nil]
  exact h₀

/-- Requests interleaving reads with three commands: a labelled write, an `Iterate`, a rotation,
a `Scan` that stops at its first event, and a second labelled write.
Source: none: infrastructure
Kind: D -/
def readsBetweenWrites : List Request :=
  [.command (.write 2 [97] [([120], [49])] 5), .iterate (fun _ => true), .command (.rotate 3 0),
    .scan [120] [49] (fun seen => seen.length < 1), .command (.write 4 [98] [([120], [49])] 6)]

/-- The session of `readsBetweenWrites` ends in the state of its three commands alone, but for
the cache, and its reads see both writes. -/
theorem session_reads_see_writes_between_reads :
    ((readsBetweenWrites.filterMap Request.command?).map Command.commit).Chain (· < ·) 1 ∧
      ∃ db, session [] (fun _ => .ok none) readsBetweenWrites = some (.ok db) ∧
        replay [] [] (readsBetweenWrites.filterMap Request.command?) =
          .ok { db with streams := [] } ∧
        ReadsSee (fun _ => .ok none) db
          ((readsBetweenWrites.filterMap Request.command?).flatMap Command.written) :=
  have hlog : ((readsBetweenWrites.filterMap Request.command?).map Command.commit).Chain
      (· < ·) 1 :=
    .cons (by decide) (.cons (by decide) (.cons (by decide) .nil))
  ⟨hlog, session_reads_see_writes hlog _⟩

end Esdb.Cluster
