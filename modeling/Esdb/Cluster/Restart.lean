import Esdb.Cluster.Serve

/-!
# Restarts

A process stopped between two commands is restarted by running `NewDb` over the directory it
left and applying the consensus log again from its start (spec §4.5). The replay must neither
lose nor repeat an event. `Rotate` adopts each file the last run closed as it finds it, and a
`Write` while an adopted file is current only moves the mock offset; the file the last run held
open is not closed, so `Rotate` creates it afresh and the replayed `Write`s rebuild it. From
there on the restarted process is the last run but for `MostRecent`, which only the rebuilt
file's writes raise, and for its cache, which holds the adopted files.

* `restartLoop`, `restartRun` — a process restarted after each segment of the log but the last;
  `restartRun_synced` — it ends in step with the uninterrupted run.
* `Settled.step` — what one command does to a settled state: a `Write` changes only the
  current file, a `Rotate` closes `current` and moves to its commit.
* `Settled.run_extends`, `Settled.run_files`, `Settled.chain_rest`, `Settled.current_above` —
  so along a run, `closed` followed by `current` only grows at its end, the temporary files
  stay, once `current` is where the run ends only its file changes, the commits still to come
  are above `current`, and the run ends where it started or above every commit it started below.
* `CachedFrom`, `Synced` — the restarted process is the run's state but for `MostRecent` and a
  cache of closed files. `Synced.write`, `Synced.rotate` are its step lemmas and
  `Synced.applyAll` its run lemma: a synced process stays synced whatever commands follow.
* `Adopting` — the replay before it reaches the file the last run ended holding open:
  `closed` holds `current` too, no stream is open and the files are the directory's.
  `Adopting.newDb`, `Adopting.write`, `Adopting.rotate` are the step lemmas, `Adopting.applyAll`
  the run lemma.
* `restart_replay` — replaying a run's log over the directory it left gives back its state but
  for `MostRecent` and the cache.
* `restart_mostRecent` — after a restart, `MostRecent` takes in only the timestamps written
  above the commit the last run held open.
* `restartLoop_append`, `mostRecent_since_last_restart` — a process's last restart is one more
  replay, so in every state of a restarted process `MostRecent` is the larger of 0 and the
  largest timestamp among the log's writes above the commit the process held when it last
  stopped (all of them, with no restart).
* `restarts_reads_see_writes` — after any number of restarts, the state is the uninterrupted
  run's but for `MostRecent` and the cache, and every read with no cursor sees exactly the
  log's writes.
-/

namespace Esdb.Cluster

open Esdb.Binary Esdb.Stream

/-! ## A process restarted between commands -/

/-- Modelled from the spec: the runs after the first of a process restarted after each segment
of the log but the last (§4.5). Each is `NewDb` over the directory, stream files and temporary
files, that the previous run left, and the log so far, its own segment included, applied again
from its start; `db` is the previous run's state and `log` the log it applied.
Kind: D -/
def restartLoop : DB → List Command → List (List Command) → Except DBError DB
  | db, _, [] => .ok db
  | db, log, seg :: segs =>
    replay db.files db.tmpfiles (log ++ seg) >>= fun db' => restartLoop db' (log ++ seg) segs

/-- Modelled from the spec: a process applying the log `first ++ segs.flatten` from a directory
with no stream files, restarted after `first` and after each segment of `segs` but the last.
Kind: D -/
def restartRun (tmpfiles : GoMap UInt64 DiskFile) (first : List Command)
    (segs : List (List Command)) : Except DBError DB :=
  replay [] tmpfiles first >>= fun db => restartLoop db first segs

/-- A run of a log followed by more commands is the run of the log, then those commands.
Source: none: infrastructure
Kind: L -/
theorem replay_append (files tmpfiles : GoMap UInt64 DiskFile) (P S : List Command) :
    replay files tmpfiles (P ++ S) = replay files tmpfiles P >>= fun db => db.applyAll S := by
  simp only [replay, DB.applyAll, List.foldlM_append, bind_assoc]

/-- A run of a log whose first command succeeds is the run of the rest from where it leaves.
Source: none: infrastructure
Kind: L -/
theorem DB.applyAll_cons {db db₁ : DB} {cmd : Command} (log : List Command)
    (h : db.apply cmd = .ok db₁) : db.applyAll (cmd :: log) = db₁.applyAll log := by
  simp only [DB.applyAll, List.foldlM_cons, h]
  rfl

/-- Increasing commits of a log and more commands are increasing commits of the log.
Source: none: infrastructure
Kind: L -/
theorem chain_commit_left {P S : List Command} {b : UInt64}
    (h : ((P ++ S).map Command.commit).Chain (· < ·) b) :
    (P.map Command.commit).Chain (· < ·) b := by
  rw [List.map_append] at h
  exact List.Chain'.left_of_append
    (show List.Chain' (· < ·) ((b :: P.map Command.commit) ++ S.map Command.commit) from h)

/-- Every command of a log whose commits increase from `b` is above `b`.
Source: none: infrastructure
Kind: L -/
theorem chain_commit_lt : ∀ {log : List Command} {b : UInt64},
    (log.map Command.commit).Chain (· < ·) b → ∀ c ∈ log, b < c.commit
  | [], _, _, _, hc => absurd hc (List.not_mem_nil _)
  | d :: log, _, h, c, hc => by
    rw [List.map_cons, List.chain_cons] at h
    rcases List.mem_cons.mp hc with rfl | hc
    · exact h.1
    · exact Nat.lt_trans h.1 (chain_commit_lt h.2 c hc)

/-! ## What a run leaves -/

namespace Settled

/-- A commit of `closed` or `current` is at most `current`.
Source: spec §3
Kind: L -/
theorem le_current {db : DB} (hs : Settled db) {c : UInt64} (hc : c ∈ db.closed ++ [db.current]) :
    c ≤ db.current := by
  rcases List.mem_append.mp hc with h | h
  · exact Nat.le_of_lt (hs.lt_current h)
  · exact (List.mem_singleton.mp h) ▸ UInt64.le_refl _

/-- What one command above `current` does to a settled state: a `Write` keeps `closed` and
`current` and changes only the current file, a `Rotate` closes `current` and moves to the
commit. The temporary files stay.
Source: src/cmd/esdb-reader.go `DB.Write`, `DB.Rotate`
Kind: L -/
theorem step {db : DB} (hs : Settled db) {cmd : Command} (hc : db.current < cmd.commit) :
    ∃ db₁, db.apply cmd = .ok db₁ ∧ Settled db₁ ∧ db₁.current ≤ cmd.commit ∧
      db₁.tmpfiles = db.tmpfiles ∧
      ((db₁.closed = db.closed ∧ db₁.current = db.current ∧
          ∃ x, db₁.files = db.files.set db.current x) ∨
        db₁.closed = db.closed ++ [db.current] ∧ db₁.current = cmd.commit) := by
  obtain ⟨s, hst, -⟩ := hs.live.stream_open
  cases cmd with
  | write commit body indexes timestamp =>
    have hc : db.current < commit := hc
    have h := hs.live.write_eq hst hc body indexes timestamp
    obtain ⟨_, h1, hs₁, -⟩ := hs.write hc body indexes timestamp
    cases h.symm.trans h1
    exact ⟨_, h, hs₁, Nat.le_of_lt hc, rfl, .inl ⟨rfl, rfl, _, rfl⟩⟩
  | rotate commit term =>
    have hc : db.current < commit := hc
    have h := hs.rotate_state hst hc term
    obtain ⟨_, h1, hs₁, -⟩ := hs.rotate hc term
    cases h.symm.trans h1
    exact ⟨_, h, hs₁, UInt64.le_refl _, rfl, .inr ⟨rfl, rfl⟩⟩

/-- Along a run whose commits increase, `closed` followed by `current` only grows at its end:
from any state of the run it is a prefix of where the run ends. The temporary files stay.
Source: src/cmd/esdb-reader.go `DB.Write`, `DB.Rotate`
Kind: L -/
theorem run_extends : ∀ (log : List Command) {db fin : DB} {b : UInt64}, Settled db →
    db.current ≤ b → (log.map Command.commit).Chain (· < ·) b → db.applyAll log = .ok fin →
    (db.closed ++ [db.current]) <+: (fin.closed ++ [fin.current]) ∧ db.tmpfiles = fin.tmpfiles
  | [], _, _, _, _, _, _, h => by
    cases Except.ok.inj h
    exact ⟨List.prefix_refl _, rfl⟩
  | cmd :: log, db, fin, b, hs, hb, hch, h => by
    rw [List.map_cons, List.chain_cons] at hch
    obtain ⟨db₁, h1, hs₁, hcur, htmp₁, hstep⟩ := hs.step (Nat.lt_of_le_of_lt hb hch.1)
    obtain ⟨hpre, htmp⟩ :=
      run_extends log hs₁ hcur hch.2 ((DB.applyAll_cons log h1).symm.trans h)
    refine ⟨?_, htmp₁.symm.trans htmp⟩
    -- one command: `closed ++ [current]` stays, or gains the commit at its end
    rcases hstep with ⟨hcl, hcu, -⟩ | ⟨hcl, hcu⟩
    · rwa [hcl, hcu] at hpre
    · rw [hcl, hcu] at hpre
      exact (List.prefix_append _ [cmd.commit]).trans hpre

/-- Once `current` is where a run ends, the rest of the run only writes to its file: the run
ends with the files as they are but for that one.
Source: src/cmd/esdb-reader.go `DB.Write`, `DB.Rotate`
Kind: L -/
theorem run_files {fin : DB} (hfin : Settled fin) : ∀ (log : List Command) {db : DB} {b : UInt64},
    Settled db → db.current ≤ b → (log.map Command.commit).Chain (· < ·) b →
    db.applyAll log = .ok fin → db.current = fin.current →
    ∃ x, fin.files = db.files.set db.current x
  | [], db, _, hs, _, _, h, _ => by
    cases Except.ok.inj h
    obtain ⟨s, hst, -⟩ := hs.live.stream_open
    exact ⟨_, (GoMap.set_of_get? (hs.held s hst).1).symm⟩
  | cmd :: log, db, b, hs, hb, hch, h, hcf => by
    rw [List.map_cons, List.chain_cons] at hch
    have hc : db.current < cmd.commit := Nat.lt_of_le_of_lt hb hch.1
    obtain ⟨db₁, h1, hs₁, hcur, -, hstep⟩ := hs.step hc
    have h2 : db₁.applyAll log = .ok fin := (DB.applyAll_cons log h1).symm.trans h
    rcases hstep with ⟨-, hcu, x, hx⟩ | ⟨-, hcu⟩
    · obtain ⟨x', hx'⟩ := run_files hfin log hs₁ hcur hch.2 h2 (hcu.trans hcf)
      exact ⟨x', by rw [hx', hx, hcu, GoMap.set_set]⟩
    · -- a rotation would leave `current` above where the run ends
      have hle := hfin.le_current ((run_extends log hs₁ hcur hch.2 h2).1.subset
        (List.mem_append_right _ (List.mem_singleton_self db₁.current)))
      rw [hcu, ← hcf] at hle
      exact absurd (Nat.lt_of_lt_of_le hc hle) (Nat.lt_irrefl _)

/-- After a run, the commits still to come are above `current`.
Source: src/cmd/esdb-reader.go `DB.Write`, `DB.Rotate`
Kind: L -/
theorem chain_rest : ∀ (log S : List Command) {db fin : DB} {b : UInt64}, Settled db →
    db.current ≤ b → ((log ++ S).map Command.commit).Chain (· < ·) b →
    db.applyAll log = .ok fin → (S.map Command.commit).Chain (· < ·) fin.current
  | [], S, db, _, b, _, hb, hch, h => by
    have hab : ∀ ⦃c : UInt64⦄, b < c → db.current < c := fun _ h => Nat.lt_of_le_of_lt hb h
    cases Except.ok.inj h
    exact hch.imp' (fun _ _ h => h) hab
  | cmd :: log, S, db, fin, b, hs, hb, hch, h => by
    rw [List.cons_append, List.map_cons, List.chain_cons] at hch
    obtain ⟨db₁, h1, hs₁, hcur⟩ := hs.apply (Nat.lt_of_le_of_lt hb hch.1)
    have h2 : db₁.applyAll log = .ok fin := (DB.applyAll_cons log h1).symm.trans h
    exact chain_rest log S hs₁ hcur hch.2 h2

/-- A run ends at the `current` it started from, or above every commit it started below.
Source: src/cmd/esdb-reader.go `DB.Write`, `DB.Rotate`
Kind: L -/
theorem current_above : ∀ (log : List Command) {db fin : DB} {b : UInt64}, Settled db →
    db.current ≤ b → (log.map Command.commit).Chain (· < ·) b → db.applyAll log = .ok fin →
    fin.current = db.current ∨ b < fin.current
  | [], _, _, _, _, _, _, h => by
    cases Except.ok.inj h
    exact .inl rfl
  | cmd :: log, db, fin, b, hs, hb, hch, h => by
    rw [List.map_cons, List.chain_cons] at hch
    obtain ⟨db₁, h1, hs₁, hcur, -, hstep⟩ := hs.step (Nat.lt_of_le_of_lt hb hch.1)
    rcases current_above log hs₁ hcur hch.2 ((DB.applyAll_cons log h1).symm.trans h)
      with h' | h'
    · rcases hstep with ⟨-, e, -⟩ | ⟨-, e⟩
      · exact .inl (h'.trans e)
      · exact .inr (h' ▸ e ▸ hch.1)
    · exact .inr (Nat.lt_trans hch.1 h')

end Settled

/-! ## A restarted process in step with the run -/

/-- The cache of a restarted process: each stream in it is the closed file that `files` holds
at a commit of `closed`.
Source: src/cmd/esdb-reader.go `DB.retrieveStream`, `DB.Rotate`
Kind: D -/
def CachedFrom (files : GoMap UInt64 DiskFile) (closed : List UInt64)
    (streams : GoMap UInt64 (Option StreamFile)) : Prop :=
  ∀ c f, (streams.get? c).join = some f → c ∈ closed ∧ files.get? c = some (.stream f) ∧
    f.closed = true

namespace CachedFrom

variable {files : GoMap UInt64 DiskFile} {closed : List UInt64}
  {streams : GoMap UInt64 (Option StreamFile)}

/-- Nothing at a commit above every commit of `closed` is cached.
Source: none: infrastructure
Kind: L -/
theorem get?_above (h : CachedFrom files closed streams) {x : UInt64}
    (hx : ∀ c ∈ closed, c < x) : (streams.get? x).join = none := by
  cases hj : (streams.get? x).join with
  | none => rfl
  | some f => exact absurd (hx x (h x f hj).1) (UInt64.lt_irrefl x)

/-- More closed commits keep the cache's description.
Source: none: infrastructure
Kind: L -/
theorem mono (h : CachedFrom files closed streams) {closed' : List UInt64}
    (hsub : closed ⊆ closed') : CachedFrom files closed' streams :=
  fun c f hc => let ⟨h1, h2, h3⟩ := h c f hc; ⟨hsub h1, h2, h3⟩

/-- Caching at a commit what the description allows there keeps it.
Source: none: infrastructure
Kind: L -/
theorem set (h : CachedFrom files closed streams) {x : UInt64} {o : Option StreamFile}
    (hx : ∀ f, o = some f → x ∈ closed ∧ files.get? x = some (.stream f) ∧ f.closed = true) :
    CachedFrom files closed (streams.set x o) := fun c f hc => by
  rw [GoMap.get?_set] at hc
  split at hc
  · subst ‹x = c›
    exact hx f hc
  · exact h c f hc

/-- An empty cache fits every description.
Source: none: infrastructure
Kind: L -/
theorem nil : CachedFrom files closed [] := fun _ _ h => nomatch h

/-- Files that agree at the closed commits keep the cache's description.
Source: none: infrastructure
Kind: L -/
theorem files_eq (h : CachedFrom files closed streams) {files' : GoMap UInt64 DiskFile}
    (hf : ∀ c ∈ closed, files'.get? c = files.get? c) : CachedFrom files' closed streams :=
  fun c f hc => let ⟨h1, h2, h3⟩ := h c f hc; ⟨h1, (hf c h1).trans h2, h3⟩

end CachedFrom

/-- A restarted process `R` in step with the run's state `O`: it is `O` but for `MostRecent`
and a cache of closed files at closed commits.
Source: src/cmd/esdb-reader.go `DB.Write`, `DB.Rotate`, `DB.retrieveStream`
Kind: D -/
def Synced (R O : DB) : Prop :=
  ∃ m streams, R = { O with mostRecent := m, streams := streams } ∧
    CachedFrom O.files O.closed streams

namespace Synced

variable {R O O' : DB}

/-- A `Write` above `current` keeps a restarted process in step: both write the event to the
same open stream.
Source: src/cmd/esdb-reader.go `DB.Write`
Kind: L -/
theorem write (hsy : Synced R O) (hs : Settled O) {commit : UInt64} (hc : O.current < commit)
    {body : Bytes} {indexes : List (Bytes × Bytes)} {timestamp : Int}
    (hO : O.write commit body indexes timestamp = .ok O') :
    ∃ R', R.write commit body indexes timestamp = .ok R' ∧ Synced R' O' ∧
      R'.mostRecent = max R.mostRecent timestamp := by
  obtain ⟨m, streams, rfl, hcache⟩ := hsy
  obtain ⟨s, hst, hsc⟩ := hs.live.stream_open
  rw [hs.live.write_eq hst hc body indexes timestamp] at hO
  cases hO
  refine ⟨_, ?_, ⟨if timestamp > m then timestamp else m, streams, rfl, fun c f h => ?_⟩,
    (max_def_lt m timestamp).symm⟩
  · simp only [DB.write, if_neg (UInt64.not_le.mpr hc), hst, StreamFile.write, hsc,
      Bool.false_eq_true, if_false]
  · -- a cached commit is closed, so not the current one written to
    obtain ⟨hc', hf, hfc⟩ := hcache c f h
    refine ⟨hc', ?_, hfc⟩
    rw [GoMap.get?_set, if_neg fun (h : O.current = c) => hs.current_not_closed (h ▸ hc')]
    exact hf

/-- A `Rotate` above `current` keeps a restarted process in step: neither has a file or a
cached stream at the commit, so both close the open stream and start a fresh file there.
Source: src/cmd/esdb-reader.go `DB.Rotate`, `DB.retrieveStream`, `DB.setCurrent`
Kind: L -/
theorem rotate (hsy : Synced R O) (hs : Settled O) {commit term : UInt64}
    (hc : O.current < commit) (hO : O.rotate commit term = .ok O') :
    ∃ R', R.rotate commit term = .ok R' ∧ Synced R' O' ∧ R'.mostRecent = R.mostRecent := by
  obtain ⟨m, streams, rfl, hcache⟩ := hsy
  obtain ⟨s, hst, -⟩ := hs.live.stream_open
  rw [hs.rotate_state hst hc term] at hO
  cases hO
  have hmiss : (streams.get? commit).join = none :=
    hcache.get?_above fun c h => Nat.lt_trans (hs.lt_current h) hc
  refine ⟨_, ?_, ⟨m, streams, rfl, fun c f h => ?_⟩, rfl⟩
  · rw [@DB.rotate_of_noFile { O with mostRecent := m, streams := streams } commit
      (UInt64.ne_of_lt hc) hmiss (hs.live.files_le commit hc) term]
    simp [DB.closeCurrent, hst, DB.addClosed, hs.current_not_closed, DB.setCurrent]
  · -- the files change at the closed `current` and at the new commit, neither cached
    obtain ⟨hc', hf, hfc⟩ := hcache c f h
    have h1 : O.current ≠ c := fun h => hs.current_not_closed (h ▸ hc')
    have h2 : commit ≠ c := (UInt64.ne_of_lt (Nat.lt_trans (hs.lt_current hc') hc)).symm
    exact ⟨List.mem_append_left _ hc', by simpa [GoMap.get?_set, h1, h2] using hf, hfc⟩

/-- A restarted process in step with a run stays in step over every log whose commits increase
from above `current`: both apply every command, and its `MostRecent` takes in every timestamp.
Source: src/cmd/esdb-reader.go `DB.Write`, `DB.Rotate`
Kind: L -/
theorem applyAll : ∀ (log : List Command) {R O : DB} {b : UInt64}, Synced R O → Settled O →
    O.current ≤ b → (log.map Command.commit).Chain (· < ·) b →
    ∃ R' O', O.applyAll log = .ok O' ∧ R.applyAll log = .ok R' ∧ Synced R' O' ∧
      R'.mostRecent = (log.filterMap Command.timestamp?).foldl max R.mostRecent
  | [], R, O, _, hsy, _, _, _ => ⟨R, O, rfl, rfl, hsy, rfl⟩
  | cmd :: log, R, O, b, hsy, hs, hb, hch => by
    rw [List.map_cons, List.chain_cons] at hch
    have hc : O.current < cmd.commit := Nat.lt_of_le_of_lt hb hch.1
    obtain ⟨O₁, h1, hs₁, hcur⟩ := hs.apply hc
    obtain ⟨R₁, hR₁, hsy₁, hmr₁⟩ : ∃ R₁, R.apply cmd = .ok R₁ ∧ Synced R₁ O₁ ∧
        R₁.mostRecent = ([cmd].filterMap Command.timestamp?).foldl max R.mostRecent := by
      cases cmd with
      | write commit body indexes timestamp =>
        exact hsy.write hs hc (show O.write commit body indexes timestamp = .ok O₁ from h1)
      | rotate commit term => exact hsy.rotate hs hc (show O.rotate commit term = .ok O₁ from h1)
    obtain ⟨R', O', h2, hR₂, hsy', hmr'⟩ := applyAll log hsy₁ hs₁ hcur hch.2
    refine ⟨R', O', (DB.applyAll_cons log h1).trans h2, (DB.applyAll_cons log hR₁).trans hR₂,
      hsy', ?_⟩
    rw [hmr', hmr₁, ← List.foldl_append, ← List.filterMap_append]
    rfl

end Synced

/-! ## Adopting the files the last run closed -/

namespace DB

/-- `Rotate` to a commit other than `current`, not cached, whose file is closed adopts it: the
stream is cached, the commit joins `closed`, and no stream is open.
Source: src/cmd/esdb-reader.go `DB.Rotate`, `DB.retrieveStream`
Kind: L -/
theorem rotate_of_closedFile {db : DB} {commit : UInt64} (hne : db.current ≠ commit)
    (hcache : (db.streams.get? commit).join = none) {f : StreamFile}
    (hfile : db.files.get? commit = some (.stream f)) (hfc : f.closed = true) (term : UInt64) :
    db.rotate commit term = .ok
      { ({ db with streams := db.streams.set commit (some f) } : DB).addClosed commit with
        stream := none, mockoffset := 10, current := commit } := by
  rw [DB.rotate, DB.retrieveStream, if_neg fun h => hne h.1, hcache]
  simp [DB.fetchStream, hfile, streamOpen, hfc]

/-- `Rotate` to a commit other than `current`, not cached, whose file is still open finds it
missing: the miss is cached, and a fresh file replaces it.
Source: src/cmd/esdb-reader.go `DB.Rotate`, `DB.retrieveStream`, `DB.setCurrent`
Kind: L -/
theorem rotate_of_openFile {db : DB} {commit : UInt64} (hne : db.current ≠ commit)
    (hcache : (db.streams.get? commit).join = none) {f : StreamFile}
    (hfile : db.files.get? commit = some (.stream f)) (hfc : f.closed = false) (term : UInt64) :
    db.rotate commit term =
      .ok (({ db with streams := db.streams.set commit none } : DB).closeCurrent.setCurrent
        commit) := by
  rw [DB.rotate, DB.retrieveStream, if_neg fun h => hne h.1, hcache]
  simp [DB.fetchStream, hfile, streamOpen, hfc]

end DB

/-- A restarted process `R` replaying the run's state `O` before it reaches the file the run
`fin` ended holding open: `current` is a commit `fin` closed, whose file `R` adopted, so no
stream is open, `closed` holds `current` too, and the files are those `fin` left.
Source: src/cmd/esdb-reader.go `DB.Rotate`, `DB.Write`
Kind: D -/
def Adopting (fin R O : DB) : Prop :=
  ∃ m streams mo, R = { O with
      closed := O.closed ++ [O.current], mostRecent := m, stream := none, streams := streams,
      mockoffset := mo, files := fin.files } ∧
    O.current ∈ fin.closed ∧ CachedFrom fin.files (O.closed ++ [O.current]) streams

namespace Adopting

variable {fin R O O' : DB}

/-- A `Write` while an adopted file is current only moves the mock offset.
Source: src/cmd/esdb-reader.go `DB.Write`
Kind: L -/
theorem write (had : Adopting fin R O) (hs : Settled O) {commit : UInt64}
    (hc : O.current < commit) {body : Bytes} {indexes : List (Bytes × Bytes)} {timestamp : Int}
    (hO : O.write commit body indexes timestamp = .ok O') :
    ∃ R', R.write commit body indexes timestamp = .ok R' ∧ Adopting fin R' O' ∧
      R'.mostRecent = R.mostRecent := by
  obtain ⟨m, streams, mo, rfl, hcur, hcache⟩ := had
  obtain ⟨s, hst, -⟩ := hs.live.stream_open
  rw [hs.live.write_eq hst hc body indexes timestamp] at hO
  cases hO
  exact ⟨_, by simp only [DB.write, if_neg (UInt64.not_le.mpr hc)],
    ⟨m, streams, mo + (serialize body indexes).length, rfl, hcur, hcache⟩, rfl⟩

/-- A `Rotate` to a commit the run closed adopts its file again; a `Rotate` to the commit the
run ended at starts a fresh file there, as the run did, and from then on the restarted process
is in step with the run. `hfw` is what the rest of the run does to that file: only it changes.
Source: src/cmd/esdb-reader.go `DB.Rotate`, `DB.retrieveStream`, `DB.setCurrent`
Kind: L -/
theorem rotate (had : Adopting fin R O) (hs : Settled O) (hfin : Settled fin)
    {commit term : UInt64} (hc : O.current < commit) (hO : O.rotate commit term = .ok O')
    (hmem : O'.current ∈ fin.closed ++ [fin.current])
    (hfw : O'.current = fin.current → ∃ x, fin.files = O'.files.set O'.current x) :
    ∃ R', R.rotate commit term = .ok R' ∧
      (Adopting fin R' O' ∨ Synced R' O' ∧ commit = fin.current) ∧
      R'.mostRecent = R.mostRecent := by
  obtain ⟨m, streams, mo, hR, -, hcache⟩ := had
  obtain ⟨s, hst, -⟩ := hs.live.stream_open
  rw [hs.rotate_state hst hc term] at hO
  cases hO
  have hbelow : ∀ c ∈ O.closed ++ [O.current], c ≠ commit := fun c h he =>
    absurd (he ▸ hs.le_current h) (UInt64.not_le.mpr hc)
  have hne : R.current ≠ commit := by rw [hR]; exact UInt64.ne_of_lt hc
  have hmiss : (R.streams.get? commit).join = none := by
    rw [hR]; exact hcache.get?_above fun _ h => Nat.lt_of_le_of_lt (hs.le_current h) hc
  rcases List.mem_append.mp hmem with hcl | hcf
  · -- a file the run closed: adopt it again
    obtain ⟨f, hf, hfc, -⟩ := hfin.closed_files commit hcl
    have hnot : commit ∉ R.closed := by rw [hR]; exact fun h => hbelow commit h rfl
    refine ⟨_, DB.rotate_of_closedFile hne hmiss (by rw [hR]; exact hf) hfc term,
      .inl ⟨m, streams.set commit (some f), 10, ?_, hcl, ?_⟩, ?_⟩
    · subst hR; simp only [DB.addClosed, if_neg hnot]
    · exact (hcache.mono (List.subset_append_left _ _)).set fun f' h => by
        cases h; exact ⟨List.mem_append_right _ (List.mem_singleton_self _), hf, hfc⟩
    · simp only [DB.addClosed, if_neg hnot]
  · -- the file the run ended holding open: start it afresh, as the run did
    obtain ⟨x, hx⟩ := hfw (List.mem_singleton.mp hcf)
    obtain ⟨s', hst', hsc'⟩ := hfin.live.stream_open
    have hf := (hfin.held s' hst').1
    rw [← List.mem_singleton.mp hcf] at hf
    refine ⟨_, DB.rotate_of_openFile hne hmiss (by rw [hR]; exact hf) hsc' term,
      .inr ⟨⟨m, streams.set commit none, ?_, ?_⟩, List.mem_singleton.mp hcf⟩, ?_⟩
    · subst hR; simp only [DB.closeCurrent, DB.setCurrent, hx, GoMap.set_set]
    · refine (hcache.files_eq fun c h => ?_).set fun _ h => nomatch h
      simp only [hx, GoMap.get?_set, if_neg (hbelow c h).symm]
    · subst hR; rfl

/-- A command above `current` keeps the restarted process adopting, or, as the rotation to
where the run ends, brings it in step with the run; `hmem` and `hfw` say where the run goes
from the state the command leaves. `MostRecent` is kept.
Source: src/cmd/esdb-reader.go `DB.Write`, `DB.Rotate`
Kind: L -/
theorem apply (had : Adopting fin R O) (hs : Settled O) (hfin : Settled fin) {cmd : Command}
    (hc : O.current < cmd.commit) (hO : O.apply cmd = .ok O')
    (hmem : O'.current ∈ fin.closed ++ [fin.current])
    (hfw : O'.current = fin.current → ∃ x, fin.files = O'.files.set O'.current x) :
    ∃ R', R.apply cmd = .ok R' ∧
      (Adopting fin R' O' ∨ Synced R' O' ∧ cmd.commit = fin.current) ∧
      R'.mostRecent = R.mostRecent := by
  cases cmd with
  | write commit body indexes timestamp =>
    obtain ⟨R', h, had', hmr⟩ :=
      had.write hs hc (show O.write commit body indexes timestamp = .ok O' from hO)
    exact ⟨R', h, .inl had', hmr⟩
  | rotate commit term =>
    exact had.rotate hs hfin hc (show O.rotate commit term = .ok O' from hO) hmem hfw

/-- `NewDb` over the directory a run left: `Rotate(1, 0)` adopts commit 1's file if the run
closed it, and otherwise starts it afresh, in step with the run's own `NewDb`. `MostRecent`
starts at 0.
Source: src/cmd/esdb-reader.go `NewDb`, `DB.Rotate`, `DB.retrieveStream`
Kind: L -/
theorem newDb {tmpfiles : GoMap UInt64 DiskFile} (hfin : Settled fin)
    (h₀ : newDb [] tmpfiles = .ok O) (hmem : O.current ∈ fin.closed ++ [fin.current])
    (hfw : O.current = fin.current → ∃ x, fin.files = O.files.set O.current x) :
    ∃ R, newDb fin.files O.tmpfiles = .ok R ∧
      (Adopting fin R O ∨ Synced R O ∧ O.current = fin.current) ∧ R.mostRecent = 0 := by
  obtain rfl : O = ⟨[], 1, 0, some StreamFile.empty, [], 10, [(1, .stream StreamFile.empty)],
      tmpfiles⟩ := Except.ok.inj (h₀.symm.trans rfl)
  rcases List.mem_append.mp hmem with hcl | hcf
  · -- commit 1 was closed: adopt it
    obtain ⟨f, hf, hfc, -⟩ := hfin.closed_files 1 hcl
    exact ⟨_, @DB.rotate_of_closedFile ⟨[], 0, 0, none, [], 0, fin.files, tmpfiles⟩ 1
      (by decide : (0 : UInt64) ≠ 1) rfl f hf hfc 0, .inl ⟨0, [(1, some f)], 10, rfl, hcl,
        CachedFrom.nil.set fun _ h => by
          cases h; exact ⟨List.mem_singleton_self _, hf, hfc⟩⟩, rfl⟩
  · -- commit 1 is where the run ended: start it afresh
    obtain ⟨x, hx⟩ := hfw (List.mem_singleton.mp hcf)
    obtain ⟨s, hst, hsc⟩ := hfin.live.stream_open
    have hf := (hfin.held s hst).1
    rw [← List.mem_singleton.mp hcf] at hf
    refine ⟨_, @DB.rotate_of_openFile ⟨[], 0, 0, none, [], 0, fin.files, tmpfiles⟩ 1
      (by decide : (0 : UInt64) ≠ 1) rfl s hf hsc 0,
      .inr ⟨⟨0, [(1, none)], ?_, CachedFrom.nil.set fun _ h => nomatch h⟩,
        List.mem_singleton.mp hcf⟩, rfl⟩
    simp only [DB.closeCurrent, DB.setCurrent, hx, GoMap.set_set]
    rfl

/-- Over the rest of the run, the restarted process adopts files until it reaches the one the
run ended at, and is in step with the run from there on; `MostRecent` takes in only the
timestamps written above that commit.
Source: src/cmd/esdb-reader.go `DB.Write`, `DB.Rotate`
Kind: L -/
theorem applyAll (hfin : Settled fin) : ∀ (log : List Command) {R O : DB} {b : UInt64},
    Adopting fin R O → Settled O → O.current ≤ b → (log.map Command.commit).Chain (· < ·) b →
    O.applyAll log = .ok fin → ∃ R', R.applyAll log = .ok R' ∧ Synced R' fin ∧
      R'.mostRecent = ((log.filter fun c => fin.current < c.commit).filterMap
        Command.timestamp?).foldl max R.mostRecent
  | [], _, _, _, had, hs, _, _, h => by
    -- the run cannot end at a commit it closed
    cases Except.ok.inj h
    obtain ⟨-, -, -, -, hcur, -⟩ := had
    exact absurd hcur hs.current_not_closed
  | cmd :: log, R, O, b, had, hs, hb, hch, h => by
    rw [List.map_cons, List.chain_cons] at hch
    have hc : O.current < cmd.commit := Nat.lt_of_le_of_lt hb hch.1
    obtain ⟨O₁, h1, hs₁, hcur⟩ := hs.apply hc
    have h2 : O₁.applyAll log = .ok fin := (DB.applyAll_cons log h1).symm.trans h
    obtain ⟨R₁, hR₁, had₁ | ⟨hsy₁, hcf⟩, hmr₁⟩ := had.apply hs hfin hc h1
      ((Settled.run_extends log hs₁ hcur hch.2 h2).1.subset
        (List.mem_append_right _ (List.mem_singleton_self _)))
      (Settled.run_files hfin log hs₁ hcur hch.2 h2)
    · -- still adopting: the command is below where the run ends, and is left out
      have hlt : cmd.commit < fin.current :=
        (Settled.current_above log hs₁ hcur hch.2 h2).resolve_left fun e => by
          obtain ⟨-, -, -, -, hmem₁, -⟩ := had₁
          exact hfin.current_not_closed (e ▸ hmem₁)
      obtain ⟨R', hR', hsy', hmr'⟩ := applyAll hfin log had₁ hs₁ hcur hch.2 h2
      refine ⟨R', (DB.applyAll_cons log hR₁).trans hR', hsy', ?_⟩
      rw [List.filter_cons_of_neg (by simp only [decide_eq_true_eq]; exact Nat.lt_asymm hlt),
        hmr', hmr₁]
    · -- in step from the rotation to where the run ends: every later command is above it
      obtain ⟨R', O', h2', hR', hsy', hmr'⟩ := hsy₁.applyAll log hs₁ hcur hch.2
      cases Except.ok.inj (h2.symm.trans h2')
      refine ⟨R', (DB.applyAll_cons log hR₁).trans hR', hsy', ?_⟩
      rw [List.filter_cons_of_neg
          (by simp only [decide_eq_true_eq, hcf]; exact UInt64.lt_irrefl _),
        List.filter_eq_self.mpr fun c hc' => decide_eq_true (hcf ▸ chain_commit_lt hch.2 c hc'),
        hmr', hmr₁]

end Adopting

/-! ## Restarts -/

/-- After a run of a log from a directory with no stream files, the commits still to come are
above `current`.
Source: src/cmd/esdb-reader.go `NewDb`, `DB.Write`, `DB.Rotate`
Kind: L -/
theorem replay_chain_rest {tmpfiles : GoMap UInt64 DiskFile} {P S : List Command} {fin : DB}
    (hch : ((P ++ S).map Command.commit).Chain (· < ·) 1) (h : replay [] tmpfiles P = .ok fin) :
    (S.map Command.commit).Chain (· < ·) fin.current := by
  obtain ⟨O₀, h₀, hr₀, hcur⟩ := newDb_recorded tmpfiles
  rw [replay, h₀] at h
  exact Settled.chain_rest P S hr₀.settled (hcur ▸ UInt64.le_refl 1) hch h

/-- Replaying a run's log over the directory it left, with its temporary files, gives back the
run's state but for `MostRecent` and the cache: no event is lost or written twice.
`MostRecent` takes in only the timestamps written above the commit the run ended at.
Source: src/cmd/esdb-reader.go `NewDb`, `DB.Write`, `DB.Rotate`, `DB.retrieveStream`
Kind: L -/
theorem restart_replay {tmpfiles : GoMap UInt64 DiskFile} {log : List Command} {fin : DB}
    (hlog : (log.map Command.commit).Chain (· < ·) 1) (h : replay [] tmpfiles log = .ok fin) :
    ∃ R, replay fin.files fin.tmpfiles log = .ok R ∧ Synced R fin ∧
      R.mostRecent = ((log.filter fun c => fin.current < c.commit).filterMap
        Command.timestamp?).foldl max 0 := by
  have hfin := replay_settled hlog h
  obtain ⟨O₀, h₀, hr₀, hcur⟩ := newDb_recorded tmpfiles
  have h' : O₀.applyAll log = .ok fin := by rw [replay, h₀] at h; exact h
  have hb : O₀.current ≤ 1 := hcur ▸ UInt64.le_refl 1
  obtain ⟨hpre, htmp⟩ := Settled.run_extends log hr₀.settled hb hlog h'
  obtain ⟨R₀, hR₀, had | ⟨hsy, hcf⟩, hmr₀⟩ := Adopting.newDb hfin h₀
    (hpre.subset (List.mem_append_right _ (List.mem_singleton_self _)))
    (Settled.run_files hfin log hr₀.settled hb hlog h')
  · obtain ⟨R, hR, hsy, hmr⟩ := had.applyAll hfin log hr₀.settled hb hlog h'
    exact ⟨R, by rw [← htmp, replay, hR₀]; exact hR, hsy, by rw [hmr, hmr₀]⟩
  · -- the run never rotated: every command is above commit 1
    obtain ⟨R, O', h2, hR, hsy', hmr⟩ := hsy.applyAll log hr₀.settled hb hlog
    cases Except.ok.inj (h'.symm.trans h2)
    have h1 : fin.current = 1 := hcf.symm.trans hcur
    refine ⟨R, by rw [← htmp, replay, hR₀]; exact hR, hsy', ?_⟩
    rw [List.filter_eq_self.mpr fun c hc => decide_eq_true (h1 ▸ chain_commit_lt hlog c hc), hmr,
      hmr₀]

/-- A restart over the directory a run of `log` left, applying `log ++ seg`, succeeds, and its
`MostRecent` takes in only the timestamps written above the commit the run ended at.
Source: src/cmd/esdb-reader.go `NewDb`, `DB.Write`, `DB.Rotate`, `DB.retrieveStream`
Kind: L -/
theorem replay_restart_mostRecent {tmpfiles : GoMap UInt64 DiskFile} {log seg : List Command}
    {fin : DB} (hlog : ((log ++ seg).map Command.commit).Chain (· < ·) 1)
    (h : replay [] tmpfiles log = .ok fin) :
    ∃ R, replay fin.files fin.tmpfiles (log ++ seg) = .ok R ∧
      R.mostRecent =
        max 0 (largestTimestamp ((log ++ seg).filter fun c => fin.current < c.commit)) := by
  have hl := chain_commit_left hlog
  have hrest := replay_chain_rest hlog h
  obtain ⟨R, hR, hsy, hmr⟩ := restart_replay hl h
  obtain ⟨R', -, -, hR', -, hmr'⟩ :=
    hsy.applyAll seg (replay_settled hl h) (UInt64.le_refl _) hrest
  refine ⟨R', by rw [replay_append, hR]; exact hR', ?_⟩
  have hseg : (seg.filter fun c => fin.current < c.commit) = seg :=
    List.filter_eq_self.mpr fun c hc => decide_eq_true (chain_commit_lt hrest c hc)
  rw [hmr', hmr, ← List.foldl_append, ← List.filterMap_append, List.filter_append, hseg,
    List.foldl_max]
  rfl

/-- After a restart, `MostRecent` is the larger of 0 and the largest timestamp among the writes
above the commit the last run held open: those the restart replays into the file it starts
afresh, and those after. The writes to the files it adopts are not counted.
Source: src/cmd/esdb-reader.go `NewDb`, `DB.Write`, `DB.Rotate`, `DB.retrieveStream`
Kind: P -/
theorem restart_mostRecent {tmpfiles : GoMap UInt64 DiskFile} {log seg : List Command} {fin : DB}
    (hlog : ((log ++ seg).map Command.commit).Chain (· < ·) 1)
    (h : replay [] tmpfiles log = .ok fin) :
    ∃ R, replay fin.files fin.tmpfiles (log ++ seg) = .ok R ∧
      R.mostRecent =
        max 0 (largestTimestamp ((log ++ seg).filter fun c => fin.current < c.commit)) :=
  replay_restart_mostRecent hlog h

/-- A run writes at 2 with timestamp 100, rotates to 3 and writes at 4 with timestamp 50; the
restart adopts file 1, starts file 3 afresh, and writes once more at 5 with timestamp 70: only
the writes at 4 and 5 count. -/
theorem restart_mostRecent_after_rotate :
    ∃ fin, replay [] [] [.write 2 [97] [] 100, .rotate 3 0, .write 4 [98] [] 50] = .ok fin ∧
      (([Command.write 2 [97] [] 100, .rotate 3 0, .write 4 [98] [] 50] ++
        [Command.write 5 [99] [] 70]).map Command.commit).Chain (· < ·) 1 ∧
      ∃ R, replay fin.files fin.tmpfiles ([Command.write 2 [97] [] 100, .rotate 3 0,
          .write 4 [98] [] 50] ++ [Command.write 5 [99] [] 70]) = .ok R ∧
        R.mostRecent = max 0 (largestTimestamp (([Command.write 2 [97] [] 100, .rotate 3 0,
          .write 4 [98] [] 50] ++ [Command.write 5 [99] [] 70]).filter
            fun c => fin.current < c.commit)) :=
  have hlog : (([Command.write 2 [97] [] 100, .rotate 3 0, .write 4 [98] [] 50] ++
      [Command.write 5 [99] [] 70]).map Command.commit).Chain (· < ·) 1 :=
    .cons (by decide) (.cons (by decide) (.cons (by decide) (.cons (by decide) .nil)))
  ⟨_, rfl, hlog, restart_mostRecent hlog rfl⟩

/-- Each restart of `restartLoop` keeps the process in step with the uninterrupted run of the
log so far.
Source: src/cmd/esdb-reader.go `NewDb`, `DB.Write`, `DB.Rotate`
Kind: L -/
theorem restartLoop_synced {tmpfiles : GoMap UInt64 DiskFile} :
    ∀ (segs : List (List Command)) {log : List Command} {db fin : DB},
      ((log ++ segs.flatten).map Command.commit).Chain (· < ·) 1 →
      replay [] tmpfiles log = .ok fin → Synced db fin →
      ∃ db' fin', restartLoop db log segs = .ok db' ∧
        replay [] tmpfiles (log ++ segs.flatten) = .ok fin' ∧ Synced db' fin'
  | [], _, db, fin, _, h, hsy => ⟨db, fin, rfl, by simpa using h, hsy⟩
  | seg :: segs, log, db, fin, hch, h, hsy => by
    rw [List.flatten_cons, ← List.append_assoc] at hch ⊢
    have hch₁ := chain_commit_left hch
    have hlog := chain_commit_left hch₁
    -- the restart gives back the run so far, and both apply the segment
    obtain ⟨R, hR, hsyR, -⟩ := restart_replay hlog h
    obtain ⟨R', fin', h2, hR', hsy', -⟩ :=
      hsyR.applyAll seg (replay_settled hlog h) (UInt64.le_refl _) (replay_chain_rest hch₁ h)
    have hfiles : db.files = fin.files ∧ db.tmpfiles = fin.tmpfiles := by
      obtain ⟨_, _, rfl, -⟩ := hsy; exact ⟨rfl, rfl⟩
    have hstep : replay fin.files fin.tmpfiles (log ++ seg) = .ok R' := by
      rw [replay_append, hR]; exact hR'
    obtain ⟨db', fin'', hloop, hrun, hsy''⟩ :=
      restartLoop_synced segs hch (by rw [replay_append, h]; exact h2) hsy'
    exact ⟨db', fin'', by rw [restartLoop, hfiles.1, hfiles.2, hstep]; exact hloop, hrun, hsy''⟩

/-- A process restarted after any segments of a log whose commits increase from 2 applies every
command, and ends in step with the uninterrupted run.
Source: src/cmd/esdb-reader.go `NewDb`, `DB.Write`, `DB.Rotate`
Kind: L -/
theorem restartRun_synced {tmpfiles : GoMap UInt64 DiskFile} {first : List Command}
    {segs : List (List Command)}
    (hlog : ((first ++ segs.flatten).map Command.commit).Chain (· < ·) 1) :
    ∃ db db₀, restartRun tmpfiles first segs = .ok db ∧
      replay [] tmpfiles (first ++ segs.flatten) = .ok db₀ ∧ Synced db db₀ := by
  obtain ⟨O₀, h₀, hr₀, hcur⟩ := newDb_recorded tmpfiles
  obtain ⟨fin, hO, -⟩ :=
    hr₀.settled.applyAll first (hcur ▸ UInt64.le_refl 1) (chain_commit_left hlog)
  have h : replay [] tmpfiles first = .ok fin := by rw [replay, h₀]; exact hO
  -- the first run is in step with itself, its cache empty
  obtain ⟨db, db₀, hloop, hrun, hsy⟩ := restartLoop_synced segs hlog h
    ⟨fin.mostRecent, [], (replay_recorded (chain_commit_left hlog) h).withStreams_nil.symm,
      CachedFrom.nil⟩
  exact ⟨db, db₀, by rw [restartRun, h]; exact hloop, hrun, hsy⟩

/-- What is recorded does not depend on `MostRecent`.
Source: none: infrastructure
Kind: L -/
theorem Recorded.withMostRecent {db : DB} {ws : List (Bytes × List Bytes)} (hr : Recorded db ws)
    (m : Int) : Recorded { db with mostRecent := m, streams := [] } ws :=
  let ⟨⟨⟨hso, _, hfl⟩, ⟨h1, h2, h3⟩, ⟨p1, p2⟩, hheld, hcf⟩, hl, hm, hme⟩ := hr
  ⟨⟨⟨hso, rfl, hfl⟩, ⟨h1, h2, h3⟩, ⟨p1, p2⟩, hheld, hcf⟩, hl, hm, hme⟩

/-- A process restarted after any segments of a log whose commits increase from 2, each restart
`NewDb` over the directory the last run left and the log so far applied again: every command
succeeds, the state is the uninterrupted run's but for `MostRecent` and the cache of adopted
files, and every read with no cursor sees exactly the log's writes, none lost or repeated.
Source: src/cmd/esdb-reader.go `NewDb`, `DB.Write`, `DB.Rotate`, `DB.retrieveStream`,
`DB.addClosed`, `DB.setCurrent`, `DB.Iterate`, `DB.Scan`
Kind: P -/
theorem restarts_reads_see_writes {tmpfiles : GoMap UInt64 DiskFile} {first : List Command}
    {segs : List (List Command)}
    (hlog : ((first ++ segs.flatten).map Command.commit).Chain (· < ·) 1)
    (recover : UInt64 → Except DBError (Option StreamFile)) :
    ∃ db db₀, restartRun tmpfiles first segs = .ok db ∧
      replay [] tmpfiles (first ++ segs.flatten) = .ok db₀ ∧
      (∃ m streams, db = { db₀ with mostRecent := m, streams := streams }) ∧
      ReadsSee recover db ((first ++ segs.flatten).flatMap Command.written) := by
  obtain ⟨db, db₀, hdb, hrun, m, streams, rfl, hcache⟩ := restartRun_synced hlog
  exact ⟨_, db₀, hdb, hrun, ⟨m, streams, rfl⟩, Served.readsSee recover
    ⟨(replay_recorded hlog hrun).withMostRecent m, fun c s h => (hcache c s h).2⟩⟩

/-- A log of two runs restarted twice: the first restart adopts commit 1's closed file and
starts commit 3's open one afresh; the second does the same after a labelled write to it. -/
theorem restarts_reads_see_writes_twice :
    (([Command.write 2 [97] [] 5, .rotate 3 0] ++
      [[Command.write 4 [98] [([120], [49])] 6], [.rotate 5 0, .write 6 [99] [] 7]].flatten).map
        Command.commit).Chain (· < ·) 1 ∧
    ∃ db db₀, restartRun [] [.write 2 [97] [] 5, .rotate 3 0]
        [[.write 4 [98] [([120], [49])] 6], [.rotate 5 0, .write 6 [99] [] 7]] = .ok db ∧
      replay [] [] ([Command.write 2 [97] [] 5, .rotate 3 0] ++
        [[Command.write 4 [98] [([120], [49])] 6], [.rotate 5 0, .write 6 [99] [] 7]].flatten) =
        .ok db₀ ∧
      (∃ m streams, db = { db₀ with mostRecent := m, streams := streams }) ∧
      ReadsSee (fun _ => .ok none) db (([Command.write 2 [97] [] 5, .rotate 3 0] ++
        [[Command.write 4 [98] [([120], [49])] 6], [.rotate 5 0, .write 6 [99] [] 7]].flatten
        ).flatMap Command.written) :=
  have hlog : (([Command.write 2 [97] [] 5, .rotate 3 0] ++
      [[Command.write 4 [98] [([120], [49])] 6], [.rotate 5 0, .write 6 [99] [] 7]].flatten).map
        Command.commit).Chain (· < ·) 1 :=
    .cons (by decide) (.cons (by decide) (.cons (by decide) (.cons (by decide)
      (.cons (by decide) .nil))))
  ⟨hlog, restarts_reads_see_writes hlog _⟩

end Esdb.Cluster
