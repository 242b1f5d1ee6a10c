import Esdb.Cluster.Cache

/-!
# A node joining from a peer's snapshot

A node that joins the cluster starts on an empty directory (`NewDb`), installs a snapshot of a
peer (`Recovery` of the peer's `Save`), and then applies the rest of the log as every node does.
The snapshot carries `current`, `MostRecent` and the closed commits, but no file: the closed files
stay on the peer, and `retrieveStream` finds them missing and fetches them with `RecoverStream`.
When the snapshot is taken while the peer's current file is still empty (right after a
`Rotate`), the joined node answers every read as the peer does, then and after any further log.

* `peerRecover` — `RecoverStream` from a peer's directory: the closed file it holds there.
* `Joined` — `B` is `A` but for the files below `current`, which it fetches as `A` reads them.
* `Joined.readSim` — so every lookup agrees, and with it every page of `Iterate` and `Scan`.
* `Joined.write`, `Joined.rotate`, `Joined.applyAll` — the log's commands keep the relation.
* `Joined.recovery` — a fresh node after `Recovery(Save())` of a settled state whose current
  file is empty is so related to it, fetching from its directory.
* `joined_pages_agree` — after the rest of the log, the joined node pages with `Iterate` and
  `Scan`, from any cursor, as the peer does, and saves the same snapshot.
* `joined_reads_lose_open_file` — when the snapshot is taken after writes to the peer's current
  file, `Recovery` starts that file afresh and the peer is never asked for it: the joined node
  reads the writes before that file and those after the snapshot, and never these.
-/

namespace Esdb.Cluster

open Esdb.Binary Esdb.Stream

/-- Modelled from the spec: `RecoverStream(dir, filename)` (§6), which fetches a closed stream
file from a peer. Here the peer's directory is `files`; a file it does not hold closed is
reported missing, and a file it cannot open fails as opening it does.
Kind: D -/
def peerRecover (files : GoMap UInt64 DiskFile) (commit : UInt64) :
    Except DBError (Option StreamFile) :=
  match streamOpen (files.get? commit) with
  | .ok f => if f.closed then .ok (some f) else .error .noSuchFile
  | .error e => .error e

namespace DB

variable {recover : UInt64 → Except DBError (Option StreamFile)} {c : UInt64} {m : Bool}

/-- The cache-miss lookup reads the file at the commit only.
Source: src/cmd/esdb-reader.go `DB.retrieveStream`
Kind: L -/
theorem fetchStream_congr {db db' : DB} (h : db'.files.get? c = db.files.get? c) :
    db'.fetchStream recover c m = db.fetchStream recover c m := by
  simp only [fetchStream, h]

/-- Fetching with recovery from one's own directory reads the file as the peer would serve it.
Source: src/cmd/esdb-reader.go `DB.retrieveStream`
Kind: L -/
theorem fetchStream_peerRecover (db : DB) (c : UInt64) :
    db.fetchStream (peerRecover db.files) c true = peerRecover db.files c := by
  unfold fetchStream peerRecover
  rcases streamOpen (db.files.get? c) with e | ⟨log, _ | _⟩
  · by_cases he : e = .noSuchFile <;> simp [he]
  · rfl
  · rfl

/-- A commit with no file, or a fresh open one, is missing: with `fetchMissing` it is recovered.
Source: src/cmd/esdb-reader.go `DB.retrieveStream`
Kind: L -/
theorem fetchStream_of_missing {db : DB}
    (h : db.files.get? c = none ∨ db.files.get? c = some (.stream StreamFile.empty)) :
    db.fetchStream recover c true = recover c := by
  rcases h with h | h <;> simp [fetchStream, h, streamOpen, StreamFile.empty]

end DB

/-- `B` is `A` but for the files below `current` (and its mock offset and temporary files): the
same commits, `MostRecent`, held stream and cache, the same files from `current` up, and every
other commit fetched, with recovery from the peer's directory `peer`, as `A` fetches it.
Source: src/cmd/esdb-reader.go `DB.retrieveStream`, `DB.Recovery`
Kind: D -/
structure Joined (peer : GoMap UInt64 DiskFile) (A B : DB) : Prop where
  closed : B.closed = A.closed
  current : B.current = A.current
  mostRecent : B.mostRecent = A.mostRecent
  stream : B.stream = A.stream
  streams : B.streams = A.streams
  held : A.stream.isSome
  fetch : ∀ c, c ≠ A.current →
    B.fetchStream (peerRecover peer) c true = A.fetchStream (peerRecover peer) c true
  above : ∀ c, A.current ≤ c → B.files.get? c = A.files.get? c

namespace Joined

variable {peer : GoMap UInt64 DiskFile} {A B : DB}

/-- A lookup in related states returns the same stream, or fails with the same error, and
leaves them related: the held stream and the cache are the same, and a miss is a commit below
or above `current`, fetched alike.
Source: src/cmd/esdb-reader.go `DB.retrieveStream`
Kind: L -/
theorem retrieveStream (hj : Joined peer A B) (c : UInt64) :
    (∀ e, A.retrieveStream (peerRecover peer) c true = .error e →
      B.retrieveStream (peerRecover peer) c true = .error e) ∧
    ∀ s A', A.retrieveStream (peerRecover peer) c true = .ok (s, A') →
      ∃ B', B.retrieveStream (peerRecover peer) c true = .ok (s, B') ∧ Joined peer A' B' := by
  unfold DB.retrieveStream
  rw [hj.current, hj.stream, hj.streams]
  by_cases hheld : A.current = c ∧ A.stream.isSome
  · -- the held stream, in both
    simp only [if_pos hheld]
    refine ⟨fun _ h => (nomatch h), fun s A' he => ?_⟩
    cases he
    exact ⟨_, rfl, hj⟩
  simp only [if_neg hheld]
  rcases (A.streams.get? c).join with _ | f
  · -- a miss: fetched alike, and cached alike
    rw [hj.fetch c fun h => hheld ⟨h.symm, hj.held⟩]
    rcases A.fetchStream (peerRecover peer) c true with e | o
    · exact ⟨fun _ he => he, fun _ _ h => (nomatch h)⟩
    · refine ⟨fun _ h => (nomatch h), fun s A' he => ?_⟩
      cases he
      exact ⟨_, rfl, hj.closed, rfl, hj.mostRecent, rfl, rfl, hj.held, hj.fetch, hj.above⟩
  · refine ⟨fun _ h => (nomatch h), fun s A' he => ?_⟩
    cases he
    exact ⟨_, rfl, hj⟩

/-- Related states answer reads alike, both recovering from the peer.
Source: src/cmd/esdb-reader.go `DB.Iterate`, `DB.Scan`, `DB.next`, `DB.prev`
Kind: L -/
theorem readSim (peer : GoMap UInt64 DiskFile) :
    ReadSim (Joined peer) (peerRecover peer) (peerRecover peer) :=
  ⟨fun hj c => hj.retrieveStream c,
    fun hj => by funext c; simp only [DB.next, hj.closed, hj.current],
    fun hj => by funext c; simp only [DB.prev, hj.closed],
    fun hj => by funext k r; simp only [DB.parseContinuation, hj.closed, hj.current],
    Joined.closed⟩

/-- The joined state of a live one is live: it holds the same open stream, caches nothing, and
has no file above `current`.
Source: src/cmd/esdb-reader.go `DB.Write`, `DB.Rotate`
Kind: L -/
theorem live (hj : Joined peer A B) (hl : Live A) : Live B :=
  ⟨hj.stream ▸ hl.stream_open, hj.streams.trans hl.streams_empty, fun c h =>
    have h' : A.current < c := hj.current ▸ h
    (hj.above c (Nat.le_of_lt h')).trans (hl.files_le c h')⟩

/-- A `Write` above `current` keeps states related: both append the event to the same held
stream and to its file.
Source: src/cmd/esdb-reader.go `DB.Write`
Kind: L -/
theorem write (hj : Joined peer A B) (hs : Settled A) {commit : UInt64}
    (hc : A.current < commit) {body : Bytes} {indexes : List (Bytes × Bytes)} {timestamp : Int}
    {A' : DB} (hA : A.write commit body indexes timestamp = .ok A') :
    ∃ B', B.write commit body indexes timestamp = .ok B' ∧ Joined peer A' B' := by
  obtain ⟨s, hst, -⟩ := hs.live.stream_open
  rw [hs.live.write_eq hst hc body indexes timestamp] at hA
  cases hA
  refine ⟨_, (hj.live hs.live).write_eq (hj.stream.trans hst) (hj.current ▸ hc) body indexes
    timestamp, hj.closed, hj.current, by simp only [hj.mostRecent], rfl, hj.streams, rfl,
    fun c hc' => ?_, fun c hle => ?_⟩
  · -- the file written is `current`'s, which is not fetched
    have hne : A.current ≠ c := Ne.symm hc'
    exact (DB.fetchStream_congr (by simp [hj.current, hne])).trans
      ((hj.fetch c hc').trans (DB.fetchStream_congr (by simp [hne])).symm)
  · simp only [GoMap.get?_set, hj.current]
    split_ifs
    · rfl
    · exact hj.above c hle

/-- A `Rotate` above `current` keeps states related: both close the same held stream into
`current`'s file, add it to `closed`, and start a fresh file at the commit.
Source: src/cmd/esdb-reader.go `DB.Rotate`, `DB.setCurrent`
Kind: L -/
theorem rotate (hj : Joined peer A B) (hs : Settled A) {commit term : UInt64}
    (hc : A.current < commit) {A' : DB} (hA : A.rotate commit term = .ok A') :
    ∃ B', B.rotate commit term = .ok B' ∧ Joined peer A' B' := by
  obtain ⟨s, hst, -⟩ := hs.live.stream_open
  have hBst : B.stream = some s := hj.stream.trans hst
  have hBnc : B.current ∉ B.closed := by rw [hj.current, hj.closed]; exact hs.current_not_closed
  rw [hs.live.rotate_eq hc term, DB.closeCurrent_setCurrent A commit hst hs.current_not_closed]
    at hA
  cases hA
  refine ⟨_, ((hj.live hs.live).rotate_eq (hj.current ▸ hc) term).trans
    (congrArg _ (DB.closeCurrent_setCurrent B commit hBst hBnc)),
    by simp only [hj.closed, hj.current], rfl, hj.mostRecent, rfl, hj.streams, rfl,
    fun c hc' => ?_, fun c hle => ?_⟩
  · have hcc : commit ≠ c := Ne.symm hc'
    by_cases hcur : A.current = c
    · -- the commit just closed: both files are the closed held stream
      exact DB.fetchStream_congr (by simp [hj.current, hcur, hcc])
    · exact (DB.fetchStream_congr (by simp [hj.current, hcur, hcc])).trans
        ((hj.fetch c (Ne.symm hcur)).trans (DB.fetchStream_congr (by simp [hcur, hcc])).symm)
  · -- from the new `current` up: the fresh file, then files neither has
    rcases eq_or_ne commit c with rfl | hcc
    · simp
    · have hlt : A.current < c := Nat.lt_of_lt_of_le hc hle
      simp only [GoMap.get?_set, hj.current, if_neg hcc, if_neg (UInt64.ne_of_lt hlt)]
      exact hj.above c (Nat.le_of_lt hlt)

/-- A command above `current` keeps states related.
Source: src/cmd/esdb-reader.go `DB.Write`, `DB.Rotate`
Kind: L -/
theorem apply (hj : Joined peer A B) (hs : Settled A) {cmd : Command}
    (hc : A.current < cmd.commit) {A' : DB} (hA : A.apply cmd = .ok A') :
    ∃ B', B.apply cmd = .ok B' ∧ Joined peer A' B' := by
  cases cmd with
  | write commit body indexes timestamp => exact hj.write hs hc hA
  | rotate commit term => exact hj.rotate hs hc (show A.rotate commit term = .ok A' from hA)

/-- Over a whole log whose commits increase from above `current`, both states apply every
command and stay related.
Source: src/cmd/esdb-reader.go `DB.Write`, `DB.Rotate`
Kind: L -/
theorem applyAll : ∀ (log : List Command) {A B : DB} {b : UInt64}, Joined peer A B →
    Settled A → A.current ≤ b → (log.map Command.commit).Chain (· < ·) b →
    ∃ A' B', A.applyAll log = .ok A' ∧ B.applyAll log = .ok B' ∧ Joined peer A' B'
  | [], A, B, _, hj, _, _, _ => ⟨A, B, rfl, rfl, hj⟩
  | cmd :: log, A, B, b, hj, hs, hb, hch => by
    rw [List.map_cons, List.chain_cons] at hch
    have hc : A.current < cmd.commit := Nat.lt_of_le_of_lt hb hch.1
    obtain ⟨A₁, h1, hs₁, hcur⟩ := hs.apply hc
    obtain ⟨B₁, hB₁, hj₁⟩ := hj.apply hs hc h1
    obtain ⟨A', B', h2, hB₂, hj'⟩ := applyAll log hj₁ hs₁ hcur hch.2
    exact ⟨A', B', (DB.applyAll_cons log h1).trans h2, (DB.applyAll_cons log hB₁).trans hB₂, hj'⟩

/-- A fresh node that installs the snapshot of a settled state is related to that state with
its current file emptied, fetching from its directory: `Recovery` takes the commits and
`MostRecent`, and `setCurrent` starts an empty current file, while every other commit is missing
and is fetched from the peer, which serves what it holds.
Source: src/cmd/esdb-reader.go `NewDb`, `DB.Save`, `DB.Recovery`, `DB.setCurrent`,
`DB.retrieveStream`
Kind: L -/
theorem recovery {A B₀ : DB} {tmpB : GoMap UInt64 DiskFile} (hs : Settled A)
    (hM : -2 ^ 63 ≤ A.mostRecent ∧ A.mostRecent < 2 ^ 63) (hlen : A.closed.length < 2 ^ 63)
    (hB₀ : newDb [] tmpB = .ok B₀) : Joined A.files (A.setCurrent A.current) (B₀.recovery A.save) := by
  obtain rfl : ⟨[], 1, 0, some StreamFile.empty, [], 10, [(1, .stream StreamFile.empty)], tmpB⟩ =
      B₀ := Except.ok.inj hB₀
  have hcl : (A.closed.foldl DB.addClosed
      { DB.setCurrent ⟨[], 1, 0, some StreamFile.empty, [], 10,
          [(1, .stream StreamFile.empty)], tmpB⟩ A.current with mostRecent := A.mostRecent }).closed =
      A.closed :=
    foldl_addClosed_closed _ _ (hs.closedInv.sorted.imp UInt64.ne_of_lt) fun _ _ h => nomatch h
  have hpos : 0 < A.current := hs.pos.current_pos (by
    obtain ⟨s, hst, -⟩ := hs.live.stream_open
    rw [hst]; rfl)
  rw [recovery_save_state _ _ hM hlen]
  rw [foldl_addClosed] at hcl ⊢
  refine ⟨hcl, rfl, rfl, rfl, hs.live.streams_empty.symm, rfl, fun c hc => ?_, fun c hle => ?_⟩
  · -- below `current` the node has no file but the fresh one `NewDb` made: it asks the peer
    have hne : A.current ≠ c := Ne.symm hc
    have hA : (A.setCurrent A.current).files.get? c = A.files.get? c := by
      simp [DB.setCurrent, hne]
    rw [DB.fetchStream_congr hA, DB.fetchStream_peerRecover, DB.fetchStream_of_missing]
    by_cases h1 : (1 : UInt64) = c <;> simp [DB.setCurrent, GoMap.get?, hne, h1]
  · rcases eq_or_ne A.current c with rfl | hne
    · simp [DB.setCurrent]
    · have hlt : A.current < c := lt_of_le_of_ne' hle hne
      have h1 : (1 : UInt64) ≠ c := UInt64.ne_of_lt (Nat.lt_of_le_of_lt hpos hlt)
      simp [DB.setCurrent, GoMap.get?, hne, h1, hs.live.files_le c hlt]

/-- When the current file is empty already, emptying it changes nothing a relation looks at.
Source: src/cmd/esdb-reader.go `DB.setCurrent`
Kind: L -/
theorem of_setCurrent (hj : Joined peer (A.setCurrent A.current) B) (hs : Settled A)
    (hempty : A.stream = some StreamFile.empty) : Joined peer A B := by
  have h : A.setCurrent A.current = { A with mockoffset := 10 } := by
    rw [DB.setCurrent, GoMap.set_of_get? (hs.held _ hempty).1, ← hempty]
  rw [h] at hj
  exact ⟨hj.closed, hj.current, hj.mostRecent, hj.stream, hj.streams, hj.held, hj.fetch, hj.above⟩

end Joined

/-- A node joining after a run from a directory with no stream files, with commits increasing
from 2, by installing a snapshot of the run taken while its current file is empty (as after a
`Rotate`, and with `MostRecent` and the number of closed commits in the int64 range `Save`
writes), then applying the rest of the log, applies every command, saves the same snapshot as
the run, and pages with `Iterate`, or with `Scan` for any label, from any cursor, with any
scanners, exactly as the run does, when both fetch missing files from the run's directory.
Source: src/cmd/esdb-reader.go `NewDb`, `DB.Save`, `DB.Recovery`, `DB.retrieveStream`,
`DB.Write`, `DB.Rotate`, `DB.Iterate`, `DB.Scan`
Kind: P -/
theorem joined_pages_agree {tmpfiles tmpB : GoMap UInt64 DiskFile} {P S : List Command} {A : DB}
    (hlog : ((P ++ S).map Command.commit).Chain (· < ·) 1)
    (hA : replay [] tmpfiles P = .ok A) (hempty : A.stream = some StreamFile.empty)
    (hM : -2 ^ 63 ≤ A.mostRecent ∧ A.mostRecent < 2 ^ 63) (hlen : A.closed.length < 2 ^ 63) :
    ∃ B₀ A' B', newDb [] tmpB = .ok B₀ ∧ A.applyAll S = .ok A' ∧
      (B₀.recovery A.save).applyAll S = .ok B' ∧ B'.save = A'.save ∧
      ∀ cursor ss, B'.iteratePages (peerRecover A.files) cursor ss =
          A'.iteratePages (peerRecover A.files) cursor ss ∧
        ∀ name value, B'.scanPages (peerRecover A.files) name value cursor ss =
          A'.scanPages (peerRecover A.files) name value cursor ss := by
  have hs := replay_settled (chain_commit_left hlog) hA
  have hB₀ : newDb [] tmpB =
      .ok ⟨[], 1, 0, some StreamFile.empty, [], 10, [(1, .stream StreamFile.empty)], tmpB⟩ := rfl
  obtain ⟨A', B', h1, h2, hj⟩ := Joined.applyAll S
    ((Joined.recovery hs hM hlen hB₀).of_setCurrent hs hempty) hs (UInt64.le_refl _)
    (replay_chain_rest hlog hA)
  refine ⟨_, A', B', hB₀, h1, h2, by simp only [DB.save, hj.closed, hj.current, hj.mostRecent],
    fun cursor ss => ⟨(Joined.readSim _).iteratePages ss cursor hj,
      fun name value => (Joined.readSim _).scanPages name value ss cursor hj⟩⟩

/-- The log a peer ran before the snapshot: `a` labelled `x:1` under commit 2, then a rotation
to 3, which leaves the current file empty.
Source: none: infrastructure
Kind: D -/
def joinLog : List Command := [.write 2 [97] [([120], [49])] 5, .rotate 3 0]

/-- The log after the snapshot: `b` labelled `x:1` under 4, a rotation to 5, and `c` under 6.
Source: none: infrastructure
Kind: D -/
def joinRest : List Command :=
  [.write 4 [98] [([120], [49])] 6, .rotate 5 0, .write 6 [99] [] 7]

/-- A node joins from the snapshot taken after `joinLog`, fetching commit 1 from the peer, and
then pages as the peer does through the rest of the log. -/
theorem joined_pages_agree_after_rotate :
    ((joinLog ++ joinRest).map Command.commit).Chain (· < ·) 1 ∧
    ∃ A, replay [] [] joinLog = .ok A ∧ A.stream = some StreamFile.empty ∧
      (-2 ^ 63 ≤ A.mostRecent ∧ A.mostRecent < 2 ^ 63) ∧ A.closed.length < 2 ^ 63 ∧
      ∃ B₀ A' B', newDb [] [] = .ok B₀ ∧ A.applyAll joinRest = .ok A' ∧
        (B₀.recovery A.save).applyAll joinRest = .ok B' ∧ B'.save = A'.save ∧
        ∀ cursor ss, B'.iteratePages (peerRecover A.files) cursor ss =
            A'.iteratePages (peerRecover A.files) cursor ss ∧
          ∀ name value, B'.scanPages (peerRecover A.files) name value cursor ss =
            A'.scanPages (peerRecover A.files) name value cursor ss :=
  have hlog : ((joinLog ++ joinRest).map Command.commit).Chain (· < ·) 1 :=
    .cons (by decide) (.cons (by decide) (.cons (by decide) (.cons (by decide)
      (.cons (by decide) .nil))))
  ⟨hlog, _, rfl, rfl, by decide, by decide,
    @joined_pages_agree [] [] joinLog joinRest _ hlog rfl rfl (by decide) (by decide)⟩

/-! ## Writes the snapshot does not carry -/

/-- What is recorded looks at `closed`, `current`, the held stream, the cache and the files only.
Source: none: infrastructure
Kind: L -/
theorem Recorded.of_same {db db' : DB} {ws : List (Bytes × List Bytes)} (hr : Recorded db ws)
    (hcl : db'.closed = db.closed) (hcur : db'.current = db.current)
    (hst : db'.stream = db.stream) (hss : db'.streams = db.streams) (hf : db'.files = db.files) :
    Recorded db' ws := by
  obtain ⟨closed, current, mostRecent, stream, streams, mockoffset, files, tmpfiles⟩ := db'
  simp only at hcl hcur hst hss hf
  subst hcl hcur hst hss hf
  let ⟨⟨⟨hso, hse, hfl⟩, ⟨h1, h2, h3⟩, ⟨p1, p2⟩, hheld, hcf⟩, hl, hm, hme⟩ := hr
  exact ⟨⟨⟨hso, hse, hfl⟩, ⟨h1, h2, h3⟩, ⟨p1, p2⟩, hheld, hcf⟩, hl, hm, hme⟩

/-- A run of `Write`s only keeps `closed` and `current`.
Source: src/cmd/esdb-reader.go `DB.Write`
Kind: L -/
theorem applyAll_writes_frame : ∀ (log : List Command) {db fin : DB},
    (∀ c t, Command.rotate c t ∉ log) → db.applyAll log = .ok fin →
    fin.closed = db.closed ∧ fin.current = db.current
  | [], _, _, _, h => by
    cases Except.ok.inj h
    exact ⟨rfl, rfl⟩
  | cmd :: log, db, fin, hw, h => by
    cases cmd with
    | rotate c t => exact absurd (List.mem_cons_self _ _) (hw c t)
    | write c b i t =>
      rcases h1 : db.write c b i t with e | db₁
      · rw [DB.applyAll, List.foldlM_cons, DB.apply, h1] at h
        cases h
      · obtain ⟨hcl, hcur, -⟩ := DB.write_frame h1
        obtain ⟨hcl', hcur'⟩ := applyAll_writes_frame log
          (fun c t hm => hw c t (List.mem_cons_of_mem _ hm))
          ((DB.applyAll_cons log (show db.apply (.write c b i t) = .ok db₁ from h1)).symm.trans h)
        exact ⟨hcl'.trans hcl, hcur'.trans hcur⟩

/-- A node joining from a snapshot taken after writes to the current file never reads them:
after a run from a directory with no stream files, with commits increasing from 2, that reaches
a state whose current file is empty (as after a `Rotate`) and then only writes, a node that
installs a snapshot of the run (with `MostRecent` and the number of closed commits in the int64
range `Save` writes) into a fresh directory, then applies any further log, applies every command,
and every read with no cursor, fetching missing files from the run's directory, sees exactly
the writes before the snapshot's current file and those after the snapshot: `Recovery` starts
the current file afresh, and the peer is never asked for it.
Source: src/cmd/esdb-reader.go `NewDb`, `DB.Save`, `DB.Recovery`, `DB.setCurrent`,
`DB.retrieveStream`, `DB.Write`, `DB.Rotate`, `DB.Iterate`, `DB.Scan`
Kind: P -/
theorem joined_reads_lose_open_file {tmpfiles tmpB : GoMap UInt64 DiskFile}
    {pre post S : List Command} {A₀ A : DB}
    (hlog : ((pre ++ post ++ S).map Command.commit).Chain (· < ·) 1)
    (hA₀ : replay [] tmpfiles pre = .ok A₀) (hempty : A₀.stream = some StreamFile.empty)
    (hpost : ∀ c t, Command.rotate c t ∉ post) (hA : A₀.applyAll post = .ok A)
    (hM : -2 ^ 63 ≤ A.mostRecent ∧ A.mostRecent < 2 ^ 63) (hlen : A.closed.length < 2 ^ 63) :
    ∃ B₀ B', newDb [] tmpB = .ok B₀ ∧ (B₀.recovery A.save).applyAll S = .ok B' ∧
      ReadsSee (peerRecover A.files) B' ((pre ++ S).flatMap Command.written) := by
  have hch : ((pre ++ post).map Command.commit).Chain (· < ·) 1 := chain_commit_left hlog
  have hrun : replay [] tmpfiles (pre ++ post) = .ok A := by
    rw [replay_append, hA₀]; exact hA
  have hs₀ := replay_settled (chain_commit_left hch) hA₀
  have hs := replay_settled hch hrun
  obtain ⟨hcl, hcur⟩ := applyAll_writes_frame post hpost hA
  obtain ⟨x, hx⟩ := hs.run_files post hs₀ (UInt64.le_refl _) (replay_chain_rest hch hA₀) hA hcur.symm
  -- the snapshot's state with its current file emptied is the run's before the writes
  have hr : Recorded (A.setCurrent A.current) (pre.flatMap Command.written) :=
    (replay_recorded (chain_commit_left hch) hA₀).of_same hcl hcur hempty.symm
      (hs.live.streams_empty.trans hs₀.live.streams_empty.symm)
      (by rw [DB.setCurrent, hx, hcur, GoMap.set_set, GoMap.set_of_get? (hs₀.held _ hempty).1])
  have hB₀ : newDb [] tmpB =
      .ok ⟨[], 1, 0, some StreamFile.empty, [], 10, [(1, .stream StreamFile.empty)], tmpB⟩ := rfl
  have hS := replay_chain_rest hlog hrun
  obtain ⟨A', B', h1, h2, hj⟩ := Joined.applyAll S (Joined.recovery hs hM hlen hB₀)
    hr.settled (UInt64.le_refl _) hS
  obtain ⟨A'', h1', hr'⟩ := hr.applyAll S (UInt64.le_refl _) hS
  cases h1.symm.trans h1'
  exact ⟨_, B', hB₀, h2, (Joined.readSim _).readsSee hj
    (by rw [List.flatMap_append]; exact hr'.served.readsSee _)⟩

/-- A write to the current file after the rotation of `joinLog`, before the snapshot.
Source: none: infrastructure
Kind: D -/
def joinOpen : List Command := [.write 4 [98] [([120], [49])] 6]

/-- A node joins from the snapshot taken after `joinLog` and `joinOpen`, then rotates and writes
`c`: it reads `a` and `c`, never `b`. -/
theorem joined_reads_lose_open_file_after_write :
    ((joinLog ++ joinOpen ++ [Command.rotate 5 0, .write 6 [99] [] 7]).map Command.commit).Chain
      (· < ·) 1 ∧
    ∃ A₀ A, replay [] [] joinLog = .ok A₀ ∧ A₀.stream = some StreamFile.empty ∧
      (∀ c t, Command.rotate c t ∉ joinOpen) ∧ A₀.applyAll joinOpen = .ok A ∧
      (-2 ^ 63 ≤ A.mostRecent ∧ A.mostRecent < 2 ^ 63) ∧ A.closed.length < 2 ^ 63 ∧
      ∃ B₀ B', newDb [] [] = .ok B₀ ∧
        (B₀.recovery A.save).applyAll [Command.rotate 5 0, .write 6 [99] [] 7] = .ok B' ∧
        ReadsSee (peerRecover A.files) B'
          ((joinLog ++ [Command.rotate 5 0, .write 6 [99] [] 7]).flatMap Command.written) :=
  have hlog : ((joinLog ++ joinOpen ++ [Command.rotate 5 0, .write 6 [99] [] 7]).map
      Command.commit).Chain (· < ·) 1 :=
    .cons (by decide) (.cons (by decide) (.cons (by decide) (.cons (by decide)
      (.cons (by decide) .nil))))
  have hpost : ∀ c t, Command.rotate c t ∉ joinOpen := by simp [joinOpen]
  ⟨hlog, _, _, rfl, rfl, hpost, rfl, by decide, by decide,
    @joined_reads_lose_open_file [] [] joinLog joinOpen _ _ _ hlog rfl rfl hpost rfl
      (by decide) (by decide)⟩

end Esdb.Cluster
