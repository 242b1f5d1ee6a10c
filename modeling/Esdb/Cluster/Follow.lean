import Esdb.Cluster.Pages
import Esdb.Cluster.Restart

/-!
# Following the log while it grows

A client tails the log a page at a time: `Iterate` from the cursor the previous page returned
(the `continuation` the `/events` handler of src/cmd/esdb-reader.go hands back), while the
consensus layer goes on applying `Write`s and `Rotate`s in between (spec §2, "Control flow";
§5). A cursor names a commit and an offset in its file. A write appends to the current file and
a rotation closes it and starts another, so a cursor returned before them still names the same
point of the log after them, now followed by the new events.

* `Follow`, `DB.follow` — the requests: commands of the log and pages from the client's cursor,
  served one at a time, each read's cache kept.
* `followOf` — what the client reads, from the events: a write appends its event to the log and
  to what the client has left; a page is fed what is left, and leaves what follows the event it
  stopped at, or the whole log again when it read to the end.
* `CursorAt` — a cursor standing before the events `R`: the empty cursor before the whole log,
  or `buildContinuation` of a commit of `forwardWalk` and an offset just past some of its
  file's events. `Recorded.write_files`, `Recorded.rotate_files` say once what each command
  does to the files; from them `CursorAt.apply` (each command keeps the cursor, with its event
  added to `R`) and `Recorded.applyAll_grows` (every file only grows), and `CursorAt.page` (a
  page reads `R` and leaves the cursor before the rest).
* `follow_pages` — from a directory with no stream files, with commits increasing from 2 and
  every file shorter than `2^63` bytes at the end, any interleaving of commands and pages reads
  exactly `followOf` the events that mirror the writes: while the client's pages stop, no event
  is skipped or read twice, however the log grows and rotates in between.
-/

namespace Esdb.Cluster

open Esdb.Binary Esdb.Stream

/-- Modelled from the spec: what happens while a client tails the log, one at a time (§5): a
command of the consensus log, or a page the client reads with `Iterate` from the cursor the
previous page returned (the first from the empty cursor), with its scanner.
Kind: D -/
inductive Follow where
  | command (cmd : Command)
  | page (scanner : List Event → Bool)

/-- The command of a request, if it is one.
Source: none: infrastructure
Kind: D -/
def Follow.command? : Follow → Option Command
  | .command cmd => some cmd
  | .page _ => none

namespace DB

/-- Modelled from the spec: commands and a client's pages served one at a time. A command is
applied and a fatal error ends the run; a page is read with `Iterate` from the client's cursor
on the state the last request left, the state it returns is kept with its cache, and the cursor
it returns is the next page's; its error ends the run, and `none` is a read that does not
return.
Kind: D -/
def follow (recover : UInt64 → Except DBError (Option StreamFile)) :
    DB → String → List Follow → Option (Except DBError (List (List Event)))
  | _, _, [] => some (.ok [])
  | db, cursor, .command cmd :: rs =>
    match db.apply cmd with
    | .ok db' => follow recover db' cursor rs
    | .error e => some (.error e)
  | db, cursor, .page scanner :: rs =>
    match db.iterate recover cursor scanner with
    | some (.ok (cursor', page, db')) =>
      (follow recover db' cursor' rs).map fun r => r.map (page :: ·)
    | some (.error e) => some (.error e)
    | none => none

end DB

/-- The pages a client tailing the log reads, from the log's events `G`, paging from `R`, with
`F` the events of the writes to come: a command's write takes its event from `F` and appends it
to `G` and to `R`; a page is fed, from scratch, what is left, and after a page whose scanner
refused its `k`-th event what follows that event is left, after one whose scanner refused none
all of `G`.
Source: spec §4.5, "Iterate"; src/cmd/esdb-reader.go `DB.Iterate`, `DB.Write`
Kind: D -/
def followOf : List Event → List Event → List Event → List Follow → List (List Event)
  | _, _, _, [] => []
  | G, R, F, .command cmd :: rs =>
    followOf (G ++ F.take cmd.written.length) (R ++ F.take cmd.written.length)
      (F.drop cmd.written.length) rs
  | G, R, F, .page s :: rs => (feed s [] R).1 ::
    match (feed s [] R).2 with
    | some k => followOf G (R.drop k) F rs
    | none => followOf G G F rs

/-! ## Where a cursor stands -/

/-- Where a client's cursor stands on `db`, before the events `R`: the empty cursor, before the
events of the files of `closed` and then `current`; or `buildContinuation` of a commit of the
walk a forward read takes and the offset just past the first `j` events of its file, before
the rest of the walk's events.
Source: src/cmd/esdb-reader.go `DB.Iterate`, `buildContinuation`
Kind: D -/
def CursorAt (db : DB) (cursor : String) (R : List Event) : Prop :=
  cursor = "" ∧ R = (db.closed ++ [db.current]).flatMap (fileEvents db.files) ∨
    ∃ y W j, (y :: W) <:+ db.forwardWalk ∧ j ≤ (fileEvents db.files y).length ∧
      cursor = buildContinuation y ((fileStream db.files y).offsetAfter j) ∧
      R = walkEvents (fileStream db.files) y j W

section Files

variable {files files' : GoMap UInt64 DiskFile}

/-- A nonempty suffix of a list ending in `c` is a suffix of the rest followed by `c`.
Source: none: infrastructure
Kind: L -/
theorem suffix_concat_cases {L W : List UInt64} {c y : UInt64} (h : (y :: W) <:+ L ++ [c]) :
    ∃ S, y :: W = S ++ [c] ∧ S <:+ L := by
  obtain ⟨t, ht⟩ := h
  obtain ⟨S, b, hS⟩ := (List.eq_nil_or_concat (y :: W)).resolve_left (List.cons_ne_nil _ _)
  rw [List.concat_eq_append] at hS
  rw [hS, ← List.append_assoc] at ht
  obtain ⟨h1, h2⟩ := List.append_inj' ht rfl
  obtain rfl : b = c := List.singleton_inj.mp h2
  exact ⟨S, hS, t, h1⟩

/-- The events of the walk from just past the first `j` of `y`'s are those of `y` and the rest
of the walk, all but the first `j`.
Source: none: infrastructure
Kind: L -/
theorem walkEvents_eq_drop {y : UInt64} {W : List UInt64} {j : Nat}
    (hj : j ≤ (fileEvents files y).length) :
    walkEvents (fileStream files) y j W = ((y :: W).flatMap (fileEvents files)).drop j := by
  rw [List.flatMap_cons, List.drop_append_of_le_length hj]
  rfl

/-- The events of commits whose files' events agree agree.
Source: none: infrastructure
Kind: L -/
theorem flatMap_fileEvents_congr {l : List UInt64}
    (h : ∀ z ∈ l, fileEvents files' z = fileEvents files z) :
    l.flatMap (fileEvents files') = l.flatMap (fileEvents files) :=
  congrArg List.flatten (List.map_congr_left h)

/-- The walk's events are read off the files' events only.
Source: none: infrastructure
Kind: L -/
theorem walkEvents_congr {y : UInt64} {W : List UInt64}
    (h : ∀ z ∈ y :: W, fileEvents files' z = fileEvents files z) (j : Nat) :
    walkEvents (fileStream files') y j W = walkEvents (fileStream files) y j W :=
  congrArg₂ (· ++ ·) (congrArg (List.drop j) (h y (List.mem_cons_self y W)))
    (flatMap_fileEvents_congr fun z hz => h z (List.mem_cons_of_mem y hz))

/-- A walk extended by more commits passes their events after its own.
Source: none: infrastructure
Kind: L -/
theorem walkEvents_append (file : UInt64 → StreamFile) (y : UInt64) (j : Nat)
    (W V : List UInt64) :
    walkEvents file y j (W ++ V) =
      walkEvents file y j W ++ V.flatMap fun z => (file z).log.reverse := by
  rw [walkEvents, walkEvents, List.flatMap_append, List.append_assoc]

/-- The offset just past the first `j` events of a file does not move when events are added
after them.
Source: spec §4.4
Kind: L -/
theorem offsetAfter_of_grows {y : UInt64} {j : Nat}
    (h : fileEvents files y <+: fileEvents files' y) (hj : j ≤ (fileEvents files y).length) :
    (fileStream files' y).offsetAfter j = (fileStream files y).offsetAfter j := by
  obtain ⟨X, hX⟩ := h
  simp only [StreamFile.offsetAfter]
  rw [show (fileStream files' y).log.reverse = fileEvents files y ++ X from hX.symm,
    List.take_append_of_le_length hj]
  rfl

/-- A file whose events are followed by more is at least as long.
Source: spec §4.4
Kind: L -/
theorem offset_le_of_grows {y : UInt64} (h : fileEvents files y <+: fileEvents files' y) :
    (fileStream files y).offset ≤ (fileStream files' y).offset := by
  obtain ⟨X, hX⟩ := h
  have hf : ∀ f : StreamFile, f.offset = magicHeader.length + (Log.flat f.log.reverse).length :=
    fun f => by rw [StreamFile.offset, Log.endOffset_eq, Log.records_eq_flat]
  rw [hf, hf, show (fileStream files' y).log.reverse = fileEvents files y ++ X from hX.symm,
    Log.flat_append, List.length_append]
  exact Nat.add_le_add_left (Nat.le_add_right _ _) _

/-- A cursor at any offset just past some of a walk commit's events stands before the rest of
the walk's events: an offset past the file's last event is the one just past it.
Source: src/cmd/esdb-reader.go `buildContinuation`
Kind: L -/
theorem CursorAt.at {db : DB} {y : UInt64} {W : List UInt64} (hsuf : (y :: W) <:+ db.forwardWalk)
    (j : Nat) : CursorAt db (buildContinuation y ((fileStream db.files y).offsetAfter j))
      (walkEvents (fileStream db.files) y j W) := by
  refine .inr ⟨y, W, min j (fileEvents db.files y).length, hsuf, Nat.min_le_right _ _, ?_, ?_⟩
  · rw [StreamFile.offsetAfter, StreamFile.offsetAfter, ← List.take_take, List.take_of_length_le
      (show (fileStream db.files y).log.reverse.length ≤ (fileEvents db.files y).length from
        Nat.le_refl _)]
  · rcases Nat.le_total j (fileEvents db.files y).length with h | h
    · rw [Nat.min_eq_left h]
    · have hl : (fileStream db.files y).log.reverse.length ≤ (fileEvents db.files y).length :=
        Nat.le_refl _
      rw [Nat.min_eq_right h, walkEvents, walkEvents, List.drop_of_length_le (hl.trans h),
        List.drop_of_length_le hl]

/-- A cursor at a commit of a later state's walk, whose file has grown at the end since the cursor
was built, still stands just past the same events.
Source: src/cmd/esdb-reader.go `buildContinuation`
Kind: L -/
theorem CursorAt.of_grows {db db' : DB} {y : UInt64} {W : List UInt64} {j : Nat}
    {R : List Event} (hsuf : (y :: W) <:+ db'.forwardWalk)
    (hpre : fileEvents db.files y <+: fileEvents db'.files y)
    (hj : j ≤ (fileEvents db.files y).length) (hR : R = walkEvents (fileStream db'.files) y j W) :
    CursorAt db' (buildContinuation y ((fileStream db.files y).offsetAfter j)) R :=
  .inr ⟨y, W, j, hsuf, Nat.le_trans hj hpre.length_le, by rw [offsetAfter_of_grows hpre hj], hR⟩

end Files

/-! ## What each command does to the files -/

namespace Recorded

variable {db db' : DB} {ws : List (Bytes × List Bytes)}

/-- A `Write` above `current` keeps `closed` and `current` and appends one event, mirroring the
write, to the current file's, leaving every other file's events as they were.
Source: src/cmd/esdb-reader.go `DB.Write`
Kind: L -/
theorem write_files (hr : Recorded db ws) {commit : UInt64} (hc : db.current < commit)
    {body : Bytes} {indexes : List (Bytes × Bytes)} {timestamp : Int}
    (h : db.write commit body indexes timestamp = .ok db') :
    db'.closed = db.closed ∧ db'.current = db.current ∧
      (∀ z, z ≠ db.current → fileEvents db'.files z = fileEvents db.files z) ∧
      ∃ e, Mirrors [e] [(body, labels indexes)] ∧
        fileEvents db'.files db.current = fileEvents db.files db.current ++ [e] := by
  obtain ⟨s, hst, -⟩ := hr.settled.live.stream_open
  rw [hr.settled.live.write_eq hst hc body indexes timestamp] at h
  cases h
  have hf := fileStream_of_get (hr.settled.held s hst).1
  refine ⟨rfl, rfl, fun z hz => by simp [fileEvents, fileStream, GoMap.get?_set, Ne.symm hz],
    newEvent body (Log.backPointers s.log (labels indexes)), .cons ⟨rfl, by simp [newEvent]⟩ .nil,
    ?_⟩
  simp only [fileEvents, hf]
  simp [fileStream, GoMap.get?_set, Log.append]

/-- A `Rotate` above `current` adds `current` to `closed`, moves `current` to the commit, whose
file has no events, and leaves every other file's events as they were.
Source: src/cmd/esdb-reader.go `DB.Rotate`, `DB.setCurrent`
Kind: L -/
theorem rotate_files (hr : Recorded db ws) {commit : UInt64} (hc : db.current < commit)
    {term : UInt64} (h : db.rotate commit term = .ok db') :
    db'.closed = db.closed ++ [db.current] ∧ db'.current = commit ∧
      fileEvents db'.files commit = [] ∧
      ∀ z, z ≠ commit → fileEvents db'.files z = fileEvents db.files z := by
  obtain ⟨s, hst, -⟩ := hr.settled.live.stream_open
  rw [hr.settled.rotate_state hst hc term] at h
  cases h
  have hf := fileStream_of_get (hr.settled.held s hst).1
  refine ⟨rfl, rfl, by simp [fileEvents, fileStream, GoMap.get?_set, StreamFile.empty],
    fun z hz => ?_⟩
  by_cases hzc : db.current = z
  · subst hzc
    simp only [fileEvents, hf]
    simp [fileStream, GoMap.get?_set, Ne.symm hz, StreamFile.close]
  · simp [fileEvents, fileStream, GoMap.get?_set, Ne.symm hz, hzc]

/-- Every commit is below the commit of a command above `current`.
Source: none: infrastructure
Kind: L -/
theorem ne_commit (hr : Recorded db ws) {commit : UInt64} (hc : db.current < commit) {z : UInt64}
    (hz : z ∈ db.closed ++ [db.current]) : z ≠ commit := by
  refine UInt64.ne_of_lt (Nat.lt_of_le_of_lt ?_ hc)
  rcases List.mem_append.mp hz with hz | hz
  · exact Nat.le_of_lt (hr.settled.lt_current hz)
  · exact Nat.le_of_eq (congrArg UInt64.toNat (List.mem_singleton.mp hz))

/-- A command above `current` keeps every closed or current commit closed or current, and only
adds events after those of its file.
Source: src/cmd/esdb-reader.go `DB.Write`, `DB.Rotate`
Kind: L -/
theorem apply_grows (hr : Recorded db ws) {cmd : Command} (hc : db.current < cmd.commit)
    (h : db.apply cmd = .ok db') :
    ∀ z ∈ db.closed ++ [db.current],
      z ∈ db'.closed ++ [db'.current] ∧ fileEvents db.files z <+: fileEvents db'.files z := by
  intro z hz
  cases cmd with
  | write commit body indexes timestamp =>
    obtain ⟨hcl, hcu, hsame, e, -, hlast⟩ :=
      hr.write_files hc (show db.write commit body indexes timestamp = .ok db' from h)
    refine ⟨by rwa [hcl, hcu], ?_⟩
    by_cases hzc : z = db.current
    · rw [hzc, hlast]
      exact List.prefix_append _ _
    · exact ⟨[], by rw [List.append_nil, hsame z hzc]⟩
  | rotate commit term =>
    obtain ⟨hcl, hcu, -, hsame⟩ :=
      hr.rotate_files hc (show db.rotate commit term = .ok db' from h)
    rw [hcl, hcu, hsame z (hr.ne_commit hc hz)]
    exact ⟨List.mem_append_left _ hz, List.prefix_refl _⟩

/-- Over a whole log whose commits increase from above `current`, every closed or current commit
stays closed or current, and its file only grows at the end.
Source: src/cmd/esdb-reader.go `DB.Write`, `DB.Rotate`
Kind: L -/
theorem applyAll_grows : ∀ (log : List Command) {db fin : DB} {b : UInt64}
    {ws : List (Bytes × List Bytes)}, Recorded db ws → db.current ≤ b →
    (log.map Command.commit).Chain (· < ·) b → db.applyAll log = .ok fin →
    ∀ z ∈ db.closed ++ [db.current],
      z ∈ fin.closed ++ [fin.current] ∧ fileEvents db.files z <+: fileEvents fin.files z
  | [], _, _, _, _, _, _, _, h => by
    cases h
    exact fun z hz => ⟨hz, List.prefix_refl _⟩
  | cmd :: log, db, fin, b, ws, hr, hb, hch, h => by
    rw [List.map_cons, List.chain_cons] at hch
    have hc := Nat.lt_of_le_of_lt hb hch.1
    obtain ⟨db₁, h1, hr₁, hcur⟩ := hr.apply hc
    rw [DB.applyAll_cons log h1] at h
    intro z hz
    obtain ⟨hm, hp⟩ := hr.apply_grows hc h1 z hz
    obtain ⟨hm', hp'⟩ := applyAll_grows log hr₁ hcur hch.2 h z hm
    exact ⟨hm', hp.trans hp'⟩

/-- Every file of a state is as short as it is at the end of any run from it: a bound on the
files at the end bounds them all along.
Source: src/cmd/esdb-reader.go `DB.Write`, `DB.Rotate`
Kind: L -/
theorem offset_lt_of_applyAll (hr : Recorded db ws) {b : UInt64} {log : List Command}
    {fin : DB} (hb : db.current ≤ b) (hch : (log.map Command.commit).Chain (· < ·) b)
    (h : db.applyAll log = .ok fin)
    (hsize : ∀ c ∈ fin.closed ++ [fin.current], (fileStream fin.files c).offset < 2 ^ 63) :
    ∀ c ∈ db.closed ++ [db.current], (fileStream db.files c).offset < 2 ^ 63 := fun c hc =>
  let ⟨hm, hp⟩ := applyAll_grows log hr hb hch h c hc
  Nat.lt_of_le_of_lt (offset_le_of_grows hp) (hsize c hm)

end Recorded

/-! ## A cursor through commands and pages -/

namespace CursorAt

variable {db db' : DB} {ws : List (Bytes × List Bytes)} {cursor : String} {R : List Event}

/-- A `Write` above `current` keeps a cursor where it stands, now before the write's event too,
which is added at the end of the log.
Source: src/cmd/esdb-reader.go `DB.Write`, `buildContinuation`
Kind: L -/
theorem write (hcur : CursorAt db cursor R) (hr : Recorded db ws) {commit : UInt64}
    (hc : db.current < commit) {body : Bytes} {indexes : List (Bytes × Bytes)} {timestamp : Int}
    (h : db.write commit body indexes timestamp = .ok db') :
    ∃ e, Mirrors [e] [(body, labels indexes)] ∧
      (db'.closed ++ [db'.current]).flatMap (fileEvents db'.files) =
        (db.closed ++ [db.current]).flatMap (fileEvents db.files) ++ [e] ∧
      CursorAt db' cursor (R ++ [e]) := by
  obtain ⟨hcl, hcu, hsame, e, he, hlast⟩ := hr.write_files hc h
  have hcur_nc := hr.settled.current_not_closed
  -- the write adds its event after those of every list of commits ending in `current`
  have hadd : ∀ S, S <:+ db.closed → (S ++ [db.current]).flatMap (fileEvents db'.files) =
      (S ++ [db.current]).flatMap (fileEvents db.files) ++ [e] := fun S hS => by
    have hS' : ∀ z ∈ S, fileEvents db'.files z = fileEvents db.files z :=
      fun z hz => hsame z fun he => hcur_nc (he ▸ hS.subset hz)
    rw [List.flatMap_append, List.flatMap_append, flatMap_fileEvents_congr hS',
      List.flatMap_singleton, List.flatMap_singleton, hlast, List.append_assoc]
  have hG : (db'.closed ++ [db'.current]).flatMap (fileEvents db'.files) =
      (db.closed ++ [db.current]).flatMap (fileEvents db.files) ++ [e] := by
    rw [hcl, hcu]
    exact hadd _ (List.suffix_refl _)
  refine ⟨e, he, hG, ?_⟩
  rcases hcur with ⟨rfl, rfl⟩ | ⟨y, W, j, hsuf, hj, rfl, rfl⟩
  · exact .inl ⟨rfl, hG.symm⟩
  have hmax : db.current < maxUint64 := Nat.lt_of_lt_of_le hc (le_maxUint64 _)
  have hwalk : db'.forwardWalk = db.forwardWalk := by unfold DB.forwardWalk; rw [hcl, hcu]
  have hpre : fileEvents db.files y <+: fileEvents db'.files y := by
    by_cases hy : y = db.current
    · rw [hy, hlast]; exact List.prefix_append _ _
    · exact ⟨[], by rw [List.append_nil, hsame y hy]⟩
  obtain ⟨S, hyW, hS⟩ := suffix_concat_cases (DB.forwardWalk_of_lt hmax ▸ hsuf)
  have hj' : j ≤ ((y :: W).flatMap (fileEvents db.files)).length := by
    rw [List.flatMap_cons, List.length_append]
    exact Nat.le_add_right_of_le hj
  refine CursorAt.of_grows (hwalk ▸ hsuf) hpre hj ?_
  rw [walkEvents_eq_drop (Nat.le_trans hj hpre.length_le), walkEvents_eq_drop hj, hyW, hadd S hS,
    ← hyW, List.drop_append_of_le_length hj']

/-- A `Rotate` above `current` keeps a cursor where it stands: the new current file, after the
rest of the walk, has no events.
Source: src/cmd/esdb-reader.go `DB.Rotate`, `buildContinuation`
Kind: L -/
theorem rotate (hcur : CursorAt db cursor R) (hr : Recorded db ws) {commit : UInt64}
    (hc : db.current < commit) {term : UInt64} (h : db.rotate commit term = .ok db') :
    (db'.closed ++ [db'.current]).flatMap (fileEvents db'.files) =
        (db.closed ++ [db.current]).flatMap (fileEvents db.files) ∧
      CursorAt db' cursor R := by
  obtain ⟨hcl, hcu, hnew, hsame⟩ := hr.rotate_files hc h
  have hsame' : ∀ z ∈ db.closed ++ [db.current], fileEvents db'.files z = fileEvents db.files z :=
    fun z hz => hsame z (hr.ne_commit hc hz)
  have hG : (db'.closed ++ [db'.current]).flatMap (fileEvents db'.files) =
      (db.closed ++ [db.current]).flatMap (fileEvents db.files) := by
    rw [hcl, hcu, List.flatMap_append, List.flatMap_singleton, hnew, List.append_nil]
    exact flatMap_fileEvents_congr hsame'
  refine ⟨hG, ?_⟩
  rcases hcur with ⟨rfl, rfl⟩ | ⟨y, W, j, hsuf, hj, rfl, rfl⟩
  · exact .inl ⟨rfl, hG.symm⟩
  -- the walk gains the new commit, unless it is `MaxUint64`, and its file is empty
  have hmax : db.current < maxUint64 := Nat.lt_of_lt_of_le hc (le_maxUint64 _)
  have hnil : db'.closed ≠ [] := by simp [hcl]
  set N := if commit < maxUint64 then [commit] else [] with hN
  have hwalk : db'.forwardWalk = db.forwardWalk ++ N := by
    rw [DB.forwardWalk_of_lt hmax, DB.forwardWalk, if_neg hnil, hcl, hcu]
  have hyW : ∀ z ∈ y :: W, fileEvents db'.files z = fileEvents db.files z :=
    fun z hz => hsame' z (DB.mem_of_mem_forwardWalk (hsuf.subset hz))
  have hN0 : N.flatMap (fileEvents db'.files) = [] := by
    rw [hN]; split <;> simp [hnew]
  have hpre : fileEvents db.files y <+: fileEvents db'.files y :=
    ⟨[], by rw [List.append_nil, hyW y (List.mem_cons_self y W)]⟩
  obtain ⟨t, ht⟩ := hsuf
  refine CursorAt.of_grows (show (y :: (W ++ N)) <:+ db'.forwardWalk from
    ⟨t, by rw [hwalk, ← ht]; simp⟩) hpre hj ?_
  rw [walkEvents_append, walkEvents_congr hyW,
    show (N.flatMap fun z => (fileStream db'.files z).log.reverse) = [] from hN0, List.append_nil]

/-- A command above `current` keeps a cursor where it stands, now before the command's events
too, which are added at the end of the log.
Source: src/cmd/esdb-reader.go `DB.Write`, `DB.Rotate`, `buildContinuation`
Kind: L -/
theorem apply (hcur : CursorAt db cursor R) (hr : Recorded db ws) {cmd : Command}
    (hc : db.current < cmd.commit) (h : db.apply cmd = .ok db') :
    ∃ E, Mirrors E cmd.written ∧
      (db'.closed ++ [db'.current]).flatMap (fileEvents db'.files) =
        (db.closed ++ [db.current]).flatMap (fileEvents db.files) ++ E ∧
      CursorAt db' cursor (R ++ E) := by
  cases cmd with
  | write commit body indexes timestamp =>
    obtain ⟨e, he, hG, hcur'⟩ := hcur.write hr hc h
    exact ⟨[e], he, hG, hcur'⟩
  | rotate commit term =>
    obtain ⟨hG, hcur'⟩ := hcur.rotate hr hc (show db.rotate commit term = .ok db' from h)
    exact ⟨[], .nil, by rw [hG, List.append_nil], by rwa [List.append_nil]⟩

/-- A page read with `Iterate` from a cursor on a served state whose files are shorter than
`2^63` bytes feeds the scanner what the cursor stands before and keeps the state served,
changing nothing but the cache. The cursor it returns stands before the whole log when the
scanner refused nothing, and before what follows the refused event otherwise.
Source: src/cmd/esdb-reader.go `DB.Iterate`, `DB.parseContinuation`, `buildContinuation`
Kind: L -/
theorem page (hcur : CursorAt db cursor R) (hsv : Served db ws)
    (hsize : ∀ c ∈ db.closed ++ [db.current], (fileStream db.files c).offset < 2 ^ 63)
    (recover : UInt64 → Except DBError (Option StreamFile)) (scanner : List Event → Bool) :
    ∃ cursor' db', db.iterate recover cursor scanner =
        some (.ok (cursor', (feed scanner [] R).1, db')) ∧
      ({ db' with streams := [] } : DB) = { db with streams := [] } ∧ Served db' ws ∧
      ((feed scanner [] R).2 = none →
        CursorAt db' cursor' ((db.closed ++ [db.current]).flatMap (fileEvents db.files))) ∧
      ∀ k, (feed scanner [] R).2 = some k → CursorAt db' cursor' (R.drop k) := by
  have hr := hsv.recorded
  obtain ⟨x, W, hxW, hpc, hch, hread, hlist, hfuel⟩ := hr.walk_eq
  have hw : db.forwardWalk = x :: W := hxW.symm
  -- the point of the walk the page starts at
  obtain ⟨y, W', i, o, hsuf, hpcy, ho, rfl⟩ : ∃ y W' i o, (y :: W') <:+ (x :: W) ∧
      db.parseContinuation cursor false = (y, o) ∧
      (o = 0 ∧ i = 0 ∨ o = (fileStream db.files y).offsetAfter i) ∧
      R = walkEvents (fileStream db.files) y i W' := by
    rcases hcur with ⟨rfl, rfl⟩ | ⟨y, W', j, hsuf, -, rfl, rfl⟩
    · exact ⟨x, W, 0, 0, List.suffix_refl _, hpc, .inl ⟨rfl, rfl⟩, hlist.symm⟩
    · have hy := hsuf.subset (List.mem_cons_self y W')
      have hlt : (fileStream db.files y).offsetAfter j < 2 ^ 63 :=
        Nat.lt_of_le_of_lt ((fileStream db.files y).offsetAfter_le j)
          (hsize y (DB.mem_of_mem_forwardWalk hy))
      rw [hw] at hsuf hy
      refine ⟨y, W', j, _, hsuf, parseContinuation_buildContinuation db _ _ false
        (Nat.pos_of_ne_zero fun h => (hread y hy).1 (UInt64.toNat.inj h)) ⟨by omega, ?_⟩,
        .inr rfl, rfl⟩
      exact_mod_cast hlt
  obtain ⟨cursor', db', h, hnone, hstop, hframe, hc'⟩ :=
    iterate_walk recover scanner hsv.cache hch hread hfuel hsuf hpcy ho
  have h0 : ({ db' with streams := [] } : DB) = { db with streams := [] } := by rw [hframe]
  refine ⟨cursor', db', h, h0, ⟨h0 ▸ hr, hc'⟩, fun hk => ?_, fun k hk => ?_⟩
  · rw [hframe, hnone hk]
    exact .inl ⟨rfl, rfl⟩
  · obtain ⟨y', W'', j, hsuf', rfl, hrest⟩ := hstop k hk
    rw [hframe, ← hrest]
    exact CursorAt.at (show (y' :: W'') <:+ db.forwardWalk by rw [hw]; exact hsuf') j

end CursorAt

/-! ## Tailing the log -/

/-- Over a whole list of commands and pages, whose commands' commits increase from above
`current`, from a served state with a cursor before `R`, every request is served and the pages
are `followOf` the state's events, `R`, and events that mirror the commands' writes, as long as
the files are shorter than `2^63` bytes at the end of the commands.
Source: src/cmd/esdb-reader.go `DB.Write`, `DB.Rotate`, `DB.Iterate`
Kind: L -/
theorem follow_at (recover : UInt64 → Except DBError (Option StreamFile)) :
    ∀ (reqs : List Follow) {db : DB} {ws : List (Bytes × List Bytes)} {b : UInt64}
      {cursor : String} {R : List Event}, Served db ws → CursorAt db cursor R → db.current ≤ b →
    ((reqs.filterMap Follow.command?).map Command.commit).Chain (· < ·) b →
    (∀ fin, ({ db with streams := [] } : DB).applyAll (reqs.filterMap Follow.command?) =
      .ok fin → ∀ c ∈ fin.closed ++ [fin.current], (fileStream fin.files c).offset < 2 ^ 63) →
    ∃ F, Mirrors F ((reqs.filterMap Follow.command?).flatMap Command.written) ∧
      db.follow recover cursor reqs = some (.ok
        (followOf ((db.closed ++ [db.current]).flatMap (fileEvents db.files)) R F reqs))
  | [], _, _, _, _, _, _, _, _, _, _ => ⟨[], .nil, rfl⟩
  | .command cmd :: reqs, db, ws, b, cursor, R, hsv, hcur, hb, hch, hfin => by
    simp only [List.filterMap_cons, Follow.command?, List.map_cons, List.chain_cons,
      List.flatMap_cons] at hch hfin ⊢
    have hc := Nat.lt_of_le_of_lt hb hch.1
    obtain ⟨db₁, h1, h₀, hsv₁, hcur₁⟩ := hsv.apply hc
    obtain ⟨E, hE, hG, hcur'⟩ :=
      CursorAt.apply (show CursorAt { db with streams := [] } cursor R from hcur) hsv.recorded hc h₀
    obtain ⟨F, hF, hrest⟩ := follow_at recover reqs hsv₁ hcur' hcur₁ hch.2
      fun fin h => hfin fin (by rw [DB.applyAll_cons _ h₀]; exact h)
    refine ⟨E ++ F, List.rel_append hE hF, ?_⟩
    have hG' : (db₁.closed ++ [db₁.current]).flatMap (fileEvents db₁.files) =
        (db.closed ++ [db.current]).flatMap (fileEvents db.files) ++ E := hG
    simp only [DB.follow, h1]
    rw [hrest, hG', followOf, List.take_left' hE.length_eq, List.drop_left' hE.length_eq]
  | .page s :: reqs, db, ws, b, cursor, R, hsv, hcur, hb, hch, hfin => by
    simp only [List.filterMap_cons, Follow.command?] at hch hfin ⊢
    obtain ⟨fin, hrun, -⟩ := hsv.recorded.applyAll _ hb hch
    obtain ⟨cursor', db₁, h, h0, hsv₁, hnone, hstop⟩ := hcur.page hsv
      (hsv.recorded.offset_lt_of_applyAll hb hch hrun (hfin fin hrun)) recover s
    have hb₁ : db₁.current ≤ b := (congrArg DB.current h0).trans_le hb
    have hG : (db₁.closed ++ [db₁.current]).flatMap (fileEvents db₁.files) =
        (db.closed ++ [db.current]).flatMap (fileEvents db.files) :=
      (congrArg (fun d : DB => (d.closed ++ [d.current]).flatMap (fileEvents d.files)) h0 :)
    simp only [DB.follow, h]
    rcases hk : (feed s [] R).2 with _ | k
    · -- the page read to the end: the next one reads the whole log again
      obtain ⟨F, hF, hrest⟩ := follow_at recover reqs hsv₁ (hnone hk) hb₁ hch (h0 ▸ hfin)
      refine ⟨F, hF, ?_⟩
      rw [hrest, hG]
      simp only [Option.map_some', followOf, hk]
      rfl
    · -- the page stopped: the next one reads what follows the refused event
      obtain ⟨F, hF, hrest⟩ := follow_at recover reqs hsv₁ (hstop k hk) hb₁ hch (h0 ▸ hfin)
      refine ⟨F, hF, ?_⟩
      rw [hrest, hG]
      simp only [Option.map_some', followOf, hk]
      rfl

/-- From a directory with no stream files, a client tailing the log with `Iterate`, each page
from the cursor the previous one returned and the first from the empty cursor, while `Write`s
and `Rotate`s whose commits increase from 2 are applied in between, with every file shorter
than `2^63` bytes at the end: every request is served, and the pages are exactly `followOf` the
events that mirror the log's writes. A page after one that stopped is fed precisely the events
after the refused one, with every event written since appended, whatever rotations came in
between: none is skipped or read twice. A page after one that read to the end is fed the
whole log again, from its oldest event.
Source: src/cmd/esdb-reader.go `NewDb`, `DB.Write`, `DB.Rotate`, `DB.Iterate`,
`DB.parseContinuation`, `buildContinuation`
Kind: P -/
theorem follow_pages {tmpfiles : GoMap UInt64 DiskFile} {reqs : List Follow} {fin : DB}
    (hlog : ((reqs.filterMap Follow.command?).map Command.commit).Chain (· < ·) 1)
    (hfin : replay [] tmpfiles (reqs.filterMap Follow.command?) = .ok fin)
    (hsize : ∀ c ∈ fin.closed ++ [fin.current], (fileStream fin.files c).offset < 2 ^ 63)
    (recover : UInt64 → Except DBError (Option StreamFile)) :
    ∃ db F, newDb [] tmpfiles = .ok db ∧
      Mirrors F ((reqs.filterMap Follow.command?).flatMap Command.written) ∧
      db.follow recover "" reqs = some (.ok (followOf [] [] F reqs)) := by
  obtain ⟨db, h0, hr, hcur⟩ := newDb_recorded tmpfiles
  -- nothing is written yet: the empty cursor stands before no events
  have hG : (db.closed ++ [db.current]).flatMap (fileEvents db.files) = [] :=
    List.forall₂_nil_right_iff.mp hr.mirrors
  obtain ⟨F, hF, h⟩ := follow_at recover reqs hr.served (.inl ⟨rfl, hG.symm⟩)
    (hcur ▸ UInt64.le_refl 1) hlog fun fin' h' => by
      rw [hr.withStreams_nil] at h'
      rw [replay, h0] at hfin
      exact (Except.ok.inj (hfin.symm.trans h')) ▸ hsize
  exact ⟨db, F, h0, hF, by rw [h, hG]⟩

/-- A client tailing the log: a labelled write, a page that stops at its first event, a
rotation and a second write, a page that reads to the end, and a page that stops at its first
event again.
Source: none: infrastructure
Kind: D -/
def tailAcrossRotate : List Follow :=
  [.command (.write 2 [97] [] 5), .page fun seen => seen.length < 1,
    .command (.rotate 3 0), .command (.write 4 [98] [] 6), .page fun _ => true,
    .page fun seen => seen.length < 1]

/-- Tailing across a rotation: the pages are `followOf` the two writes' events — the first
event, then the second alone, then the first again. -/
theorem follow_pages_across_rotate :
    ∃ fin, replay [] [] (tailAcrossRotate.filterMap Follow.command?) = .ok fin ∧
      ((tailAcrossRotate.filterMap Follow.command?).map Command.commit).Chain (· < ·) 1 ∧
      (∀ c ∈ fin.closed ++ [fin.current], (fileStream fin.files c).offset < 2 ^ 63) ∧
      ∃ db F, newDb [] [] = .ok db ∧
        Mirrors F ((tailAcrossRotate.filterMap Follow.command?).flatMap Command.written) ∧
        db.follow (fun _ => .ok none) "" tailAcrossRotate =
          some (.ok (followOf [] [] F tailAcrossRotate)) :=
  have hlog : ((tailAcrossRotate.filterMap Follow.command?).map Command.commit).Chain
      (· < ·) 1 :=
    .cons (by decide) (.cons (by decide) (.cons (by decide) .nil))
  ⟨_, rfl, hlog, by decide, follow_pages hlog rfl (by decide) _⟩

end Esdb.Cluster
