import Esdb.Cluster.StreamFile

/-!
# The stream manager (`src/cmd/esdb-reader.go`, package `cluster`, type `DB`)

A line-by-line model of the `DB` operations that change its state, over a directory modelled
as two maps from commit to file: `events.<commit>.stream` (`files`) and
`events.<commit>.tmpstream` (`tmpfiles`).

* `DB` — `closed`, `current`, `MostRecent`, the open stream `stream` (with its file's
  contents), the cache `streams`, `mockoffset` and the directory.
* `DB.retrieveStream` — the held stream for `current`, else the cache, else `Open` the file:
  an open (footerless) file counts as missing, a missing one is fetched by the peer recovery
  collaborator `recover` when `fetchMissing` is set; only a success is cached.
* `DB.Write`, `DB.Rotate`, `NewDb`, `DB.Compress`, `DB.addClosed`, `DB.setCurrent`,
  `DB.prev`, `DB.next` — as in the source. `log.Fatal` is an `Except.error`: the process ends.
* `rotate_eq` — what `Rotate` does, in its two outcomes: adopt a closed file at the commit, or
  close the held stream and open a fresh file at the commit (the inversion lemma later proofs
  use instead of unfolding `Rotate`).
* `foldl_select` — the selection loop `prev` and `next` share; from it `prev_spec`,
  `next_spec`: `prev` is the largest closed commit below its argument (0 if none); `next` the
  smallest commit of `closed` or `current` above it (0 if none, and also when that commit is
  `MaxUint64`).

Timers, logging, the directory path, `RotateThreshold`, `SnapshotBuffer` and the consensus
snapshot `Rotate` starts are left out: no modelled state depends on them.
-/

namespace Esdb.Cluster

open Esdb.Binary Esdb.Stream

/-- `math.MaxUint64`.
Source: Go `math.MaxUint64`
Kind: D -/
def maxUint64 : UInt64 := 18446744073709551615

/-- `DB`: the closed commits in the order they were added, the current commit, the largest
timestamp written, the open stream (`nil` after adopting a closed file), the cache of opened
streams (a cached `nil` is `some none`), the offset reported while no stream is open, and the
directory's stream and temporary files.
Source: src/cmd/esdb-reader.go `DB`
Kind: D -/
structure DB where
  /-- Commits of closed files, in the order `addClosed` met them. -/
  closed : List UInt64
  /-- The commit naming the current file. -/
  current : UInt64
  /-- The largest timestamp of a `Write` to an open stream. -/
  mostRecent : Int
  /-- `db.stream`: the stream open at `current`, with its file's contents. -/
  stream : Option StreamFile
  /-- `db.streams`: commit ↦ opened stream. -/
  streams : GoMap UInt64 (Option StreamFile)
  /-- `db.mockoffset`. -/
  mockoffset : Int
  /-- `events.<commit>.stream`. -/
  files : GoMap UInt64 DiskFile
  /-- `events.<commit>.tmpstream`. -/
  tmpfiles : GoMap UInt64 DiskFile
deriving DecidableEq, Repr

/-- Modelled from the spec: `stream.Serialize(body, indexes, {})`, the event's bytes with every
back-pointer 0 (§4.2).
Kind: D -/
def serialize (body : Bytes) (indexes : List (Bytes × Bytes)) : Bytes :=
  (newEvent body (Log.backPointers [] (labels indexes))).push

namespace DB

/-- `Offset()`: the mock offset when no stream is open, else the stream's.
Source: src/cmd/esdb-reader.go `DB.Offset`
Kind: D -/
def offset (db : DB) : Int :=
  match db.stream with
  | none => db.mockoffset
  | some s => s.offset

/-- `addClosed(commit)`: append the commit unless it is already there.
Source: src/cmd/esdb-reader.go `DB.addClosed`
Kind: D -/
def addClosed (db : DB) (commit : UInt64) : DB :=
  if commit ∈ db.closed then db else { db with closed := db.closed ++ [commit] }

/-- `setCurrent(commit)`: make it current, remove its file and create a fresh stream there
(the model's `Remove` and `New` do not fail).
Source: src/cmd/esdb-reader.go `DB.setCurrent`
Kind: D -/
def setCurrent (db : DB) (commit : UInt64) : DB :=
  { db with current := commit, mockoffset := 10,
            files := db.files.set commit (.stream StreamFile.empty),
            stream := some StreamFile.empty }

/-- `Write(commit, body, indexes, timestamp)`: an old commit is ignored; with no open stream
only the mock offset moves; otherwise the stream writes (a failure is fatal) and `MostRecent`
takes the timestamp if it is larger.
Source: src/cmd/esdb-reader.go `DB.Write`
Kind: D -/
def write (db : DB) (commit : UInt64) (body : Bytes) (indexes : List (Bytes × Bytes))
    (timestamp : Int) : Except DBError DB :=
  if commit ≤ db.current then .ok db
  else match db.stream with
    | none => .ok { db with mockoffset := db.mockoffset + (serialize body indexes).length }
    | some s => match s.write body indexes with
      | .error e => .error e
      | .ok s' => .ok { db with stream := some s', files := db.files.set db.current (.stream s'),
                                mostRecent := if timestamp > db.mostRecent then timestamp
                                  else db.mostRecent }

/-- The cache-miss branch of `retrieveStream`: `Open` the file; a missing file, or one without
a footer, is missing, and is fetched with the peer recovery collaborator `recover` when
`fetchMissing` is set; otherwise the opened closed stream, or `nil` for an open file, or the
`Open` error.
Source: src/cmd/esdb-reader.go `DB.retrieveStream`
Kind: D -/
def fetchStream (db : DB) (recover : UInt64 → Except DBError (Option StreamFile))
    (commit : UInt64) (fetchMissing : Bool) : Except DBError (Option StreamFile) :=
  let (s, err, missing) : Option StreamFile × Option DBError × Bool :=
    match streamOpen (db.files.get? commit) with
    | .ok f => if f.closed then (some f, none, false) else (none, none, true)
    | .error e => (none, some e, decide (e = .noSuchFile))
  if missing ∧ fetchMissing then recover commit
  else match err with
    | some e => .error e
    | none => .ok s

/-- `retrieveStream(commit, fetchMissing)`: the open stream when `commit` is current; else the
cached stream; else `fetchStream`, whose result is cached unless it is an error.
Source: src/cmd/esdb-reader.go `DB.retrieveStream`
Kind: D -/
def retrieveStream (db : DB) (recover : UInt64 → Except DBError (Option StreamFile))
    (commit : UInt64) (fetchMissing : Bool) : Except DBError (Option StreamFile × DB) :=
  if db.current = commit ∧ db.stream.isSome then .ok (db.stream, db)
  else match (db.streams.get? commit).join with
    | some s => .ok (some s, db)
    | none =>
      match db.fetchStream recover commit fetchMissing with
      | .ok s => .ok (s, { db with streams := db.streams.set commit s })
      | .error e => .error e

/-- `Rotate`'s close of the open stream, if any: close it (its file gets the footer) and add
the current commit to `closed`.
Source: src/cmd/esdb-reader.go `DB.Rotate`
Kind: D -/
def closeCurrent (db : DB) : DB :=
  match db.stream with
  | none => db
  | some s => { db.addClosed db.current with files := db.files.set db.current (.stream s.close) }

/-- `Rotate(commit, term)`: look the commit's file up without recovery (an error other than
`no such file or directory` is fatal). A closed file is adopted: added to `closed`, the open
stream dropped, the commit made current. Otherwise the open stream is closed and its commit
added to `closed`, and a fresh file is created at the commit. (`term` only feeds the
consensus snapshot.)
Source: src/cmd/esdb-reader.go `DB.Rotate`
Kind: D -/
def rotate (db : DB) (commit _term : UInt64) : Except DBError DB :=
  match db.retrieveStream (fun _ => .ok none) commit false with
  | .error .noSuchFile => .ok (db.closeCurrent.setCurrent commit)
  | .error e => .error e
  | .ok (s, db') =>
    if s.any StreamFile.closed then
      .ok { db'.addClosed commit with stream := none, mockoffset := 10, current := commit }
    else .ok (db'.closeCurrent.setCurrent commit)

/-- `forgetStream(commit)`: drop the cached stream.
Source: src/cmd/esdb-reader.go `DB.forgetStream`
Kind: D -/
def forgetStream (db : DB) (commit : UInt64) : DB :=
  { db with streams := db.streams.delete commit }

/-- `Compress(start, stop)`: keep the closed commits outside `(start, stop]` (forgetting the
others' cached streams), forget `start`'s, move `start`'s temporary file into place if there
is one, and shrink `closed`.
Source: src/cmd/esdb-reader.go `DB.Compress`
Kind: D -/
def compress (db : DB) (start stop : UInt64) : DB :=
  let db' := db.closed.foldl
    (fun db' commit => if commit ≤ start ∨ commit > stop then db' else db'.forgetStream commit) db
  let db' := db'.forgetStream start
  let db' := match db'.tmpfiles.get? start with
    | some f => { db' with files := db'.files.set start f, tmpfiles := db'.tmpfiles.delete start }
    | none => db'
  { db' with closed := db.closed.filter fun commit => commit ≤ start ∨ commit > stop }

/-- `prev(commit)`: the largest closed commit below `commit`, 0 if none.
Source: src/cmd/esdb-reader.go `DB.prev`
Kind: D -/
def prev (db : DB) (commit : UInt64) : UInt64 :=
  db.closed.foldl (fun result c => if c < commit ∧ c > result then c else result) 0

/-- `next(commit)`: the smallest commit of `closed` or `current` above `commit`; 0 if none, and
also when that commit is `MaxUint64`, the search's starting value.
Source: src/cmd/esdb-reader.go `DB.next`
Kind: D -/
def next (db : DB) (commit : UInt64) : UInt64 :=
  let result := db.closed.foldl (fun result c => if c > commit ∧ c < result then c else result)
    maxUint64
  let result := if db.current > commit ∧ db.current < result then db.current else result
  if result = maxUint64 then 0 else result

end DB

/-- `NewDb(path)` over a directory: an empty `DB` that runs `Rotate(1, 0)`.
Source: src/cmd/esdb-reader.go `NewDb`
Kind: D -/
def newDb (files tmpfiles : GoMap UInt64 DiskFile) : Except DBError DB :=
  DB.rotate ⟨[], 0, 0, none, [], 0, files, tmpfiles⟩ 1 0

/-- `NewDb` over a directory, then `Rotate(c, 0)` for each commit `c` in turn.
Source: src/cmd/esdb-reader.go `NewDb`, `DB.Rotate`
Kind: D -/
def newDbRotating (files : GoMap UInt64 DiskFile) (commits : List UInt64) : Except DBError DB :=
  newDb files [] >>= fun db => commits.foldlM (fun db c => db.rotate c 0) db

namespace DB

/-! ## Field lemmas -/

section Fields

variable (db : DB) (commit : UInt64)

@[simp] theorem addClosed_closed :
    (db.addClosed commit).closed = if commit ∈ db.closed then db.closed else db.closed ++ [commit] := by
  unfold addClosed; split <;> rfl

theorem addClosed_of_mem (h : commit ∈ db.closed) : db.addClosed commit = db := by
  unfold addClosed; rw [if_pos h]

@[simp] theorem addClosed_current : (db.addClosed commit).current = db.current := by
  unfold addClosed; split <;> rfl

@[simp] theorem addClosed_stream : (db.addClosed commit).stream = db.stream := by
  unfold addClosed; split <;> rfl

@[simp] theorem addClosed_files : (db.addClosed commit).files = db.files := by
  unfold addClosed; split <;> rfl

@[simp] theorem addClosed_streams : (db.addClosed commit).streams = db.streams := by
  unfold addClosed; split <;> rfl

@[simp] theorem setCurrent_closed : (db.setCurrent commit).closed = db.closed := rfl
@[simp] theorem setCurrent_current : (db.setCurrent commit).current = commit := rfl
@[simp] theorem setCurrent_stream :
    (db.setCurrent commit).stream = some StreamFile.empty := rfl

@[simp] theorem closeCurrent_current : db.closeCurrent.current = db.current := by
  unfold closeCurrent; split <;> simp

theorem closeCurrent_closed :
    db.closeCurrent.closed = if db.stream.isSome ∧ db.current ∉ db.closed
      then db.closed ++ [db.current] else db.closed := by
  unfold closeCurrent; split <;> simp_all

/-- With a stream open at a commit not yet closed, closing it and starting a fresh file at
`commit` closes `current` and its file, and holds a fresh stream at `commit`.
Source: src/cmd/esdb-reader.go `DB.Rotate`, `DB.setCurrent`
Kind: L -/
theorem closeCurrent_setCurrent {s : StreamFile} (hst : db.stream = some s)
    (hnc : db.current ∉ db.closed) :
    db.closeCurrent.setCurrent commit =
      { db with closed := db.closed ++ [db.current], current := commit, mockoffset := 10,
                files := (db.files.set db.current (.stream s.close)).set commit
                  (.stream StreamFile.empty),
                stream := some StreamFile.empty } := by
  simp [closeCurrent, setCurrent, hst, addClosed, hnc]

@[simp] theorem compress_closed (start stop : UInt64) :
    (db.compress start stop).closed = db.closed.filter fun c => c ≤ start ∨ c > stop := rfl

end Fields

/-! ## What `Rotate` does -/

/-- `Rotate` ends one of two ways: it adopts a closed file found at the commit (through the
cache or by opening it, which may fill the cache), or — after finding no file, an open one or
a cached `nil` — it closes the open stream and starts a fresh file at the commit; any other
lookup error is fatal.
Source: src/cmd/esdb-reader.go `DB.Rotate`
Kind: L -/
theorem rotate_eq {db db' : DB} {commit term : UInt64} (h : db.rotate commit term = .ok db') :
    (∃ s db₁, db.retrieveStream (fun _ => .ok none) commit false = .ok (some s, db₁) ∧
        s.closed = true ∧
        db' = { db₁.addClosed commit with stream := none, mockoffset := 10, current := commit }) ∨
      (∃ db₁, (db₁ = db ∨ ∃ s, db.retrieveStream (fun _ => .ok none) commit false = .ok (s, db₁) ∧
          s.any StreamFile.closed = false) ∧
        db' = db₁.closeCurrent.setCurrent commit) := by
  unfold rotate at h
  split at h
  · exact .inr ⟨db, .inl rfl, (Except.ok.inj h).symm⟩
  · cases h
  · rename_i s db₁ hr
    split at h
    · rename_i hc
      cases s with
      | none => cases hc
      | some s => exact .inl ⟨s, db₁, hr, hc, (Except.ok.inj h).symm⟩
    · rename_i hc
      exact .inr ⟨db₁, .inr ⟨s, hr, by simpa using hc⟩, (Except.ok.inj h).symm⟩

/-- A successful lookup changes only the cache.
Source: src/cmd/esdb-reader.go `DB.retrieveStream`
Kind: L -/
theorem retrieveStream_eq {db db₁ : DB} {recover : UInt64 → Except DBError (Option StreamFile)}
    {commit : UInt64} {fetchMissing : Bool} {s : Option StreamFile}
    (h : db.retrieveStream recover commit fetchMissing = .ok (s, db₁)) :
    ∃ streams, db₁ = { db with streams := streams } := by
  unfold retrieveStream at h
  split at h
  · exact ⟨db.streams, by cases h; rfl⟩
  · split at h
    · exact ⟨db.streams, by cases h; rfl⟩
    · split at h
      · cases h; exact ⟨_, rfl⟩
      · cases h

/-- A stream found other than as the open stream is in the cache afterwards.
Source: src/cmd/esdb-reader.go `DB.retrieveStream`
Kind: L -/
theorem retrieveStream_cached {db db₁ : DB} {recover : UInt64 → Except DBError (Option StreamFile)}
    {commit : UInt64} {fetchMissing : Bool} {s : StreamFile}
    (h : db.retrieveStream recover commit fetchMissing = .ok (some s, db₁))
    (hheld : ¬(db.current = commit ∧ db.stream.isSome)) :
    (db₁.streams.get? commit).join = some s := by
  unfold retrieveStream at h
  rw [if_neg hheld] at h
  split at h
  · rename_i hs; cases h; exact hs
  · split at h
    · cases h; simp
    · cases h

/-- `Rotate` to a commit whose closed stream is cached, and not open, adopts it.
Source: src/cmd/esdb-reader.go `DB.Rotate`
Kind: L -/
theorem rotate_of_cached {db : DB} {commit term : UInt64} {s : StreamFile}
    (hheld : ¬(db.current = commit ∧ db.stream.isSome)) (hc : (db.streams.get? commit).join = some s)
    (hs : s.closed = true) :
    db.rotate commit term =
      .ok { db.addClosed commit with stream := none, mockoffset := 10, current := commit } := by
  simp only [rotate, retrieveStream, if_neg hheld, hc, Option.any_some, hs, if_true]

/-- `Rotate` to the current commit, just after `setCurrent` opened a fresh stream there, closes
that stream, adds the commit to `closed`, and opens another fresh stream: only `closed` changes.
Source: src/cmd/esdb-reader.go `DB.Rotate`, `DB.setCurrent`
Kind: L -/
theorem rotate_of_fresh {db : DB} {commit term : UInt64} {files : GoMap UInt64 DiskFile}
    (hcur : db.current = commit) (hst : db.stream = some StreamFile.empty)
    (hmo : db.mockoffset = 10) (hfiles : db.files = files.set commit (.stream StreamFile.empty)) :
    db.rotate commit term = .ok (db.addClosed commit) := by
  obtain ⟨closed, current, mostRecent, stream, streams, mockoffset, files', tmpfiles⟩ := db
  simp only at hcur hst hmo hfiles
  subst hcur hst hmo hfiles
  simp only [rotate, retrieveStream, and_self, Option.isSome_some, if_true, Option.any_some,
    StreamFile.empty, Bool.false_eq_true, if_false, Except.ok.injEq]
  simp only [closeCurrent, setCurrent, addClosed, GoMap.set_set]
  split <;> rfl

/-- Either way, `Rotate` leaves the state as it found it but for the cache, then adopts the
commit or opens a fresh stream at it.
Source: src/cmd/esdb-reader.go `DB.Rotate`
Kind: L -/
theorem rotate_cases {db db' : DB} {commit term : UInt64} (h : db.rotate commit term = .ok db') :
    ∃ streams, db' = { ({ db with streams := streams }.addClosed commit) with
        stream := none, mockoffset := 10, current := commit } ∨
      db' = ({ db with streams := streams } : DB).closeCurrent.setCurrent commit := by
  rcases rotate_eq h with ⟨s, db₁, hr, -, rfl⟩ | ⟨db₁, hdb₁, rfl⟩
  · obtain ⟨streams, rfl⟩ := retrieveStream_eq hr
    exact ⟨streams, .inl rfl⟩
  · rcases hdb₁ with rfl | ⟨s, hr, -⟩
    · exact ⟨db₁.streams, .inr rfl⟩
    · obtain ⟨streams, rfl⟩ := retrieveStream_eq hr
      exact ⟨streams, .inr rfl⟩

/-- `Write` changes neither `closed`, `current`, nor whether a stream is open.
Source: src/cmd/esdb-reader.go `DB.Write`
Kind: L -/
theorem write_frame {db db' : DB} {commit : UInt64} {body : Bytes}
    {indexes : List (Bytes × Bytes)} {timestamp : Int}
    (h : db.write commit body indexes timestamp = .ok db') :
    db'.closed = db.closed ∧ db'.current = db.current ∧ db'.stream.isSome = db.stream.isSome := by
  unfold write at h
  split at h
  · cases h; exact ⟨rfl, rfl, rfl⟩
  · split at h
    · cases h; exact ⟨rfl, rfl, rfl⟩
    · split at h
      · cases h
      · cases h; exact ⟨rfl, rfl, by simp_all⟩

/-- `Compress` changes neither `current` nor the open stream.
Source: src/cmd/esdb-reader.go `DB.Compress`
Kind: L -/
theorem compress_frame (db : DB) (start stop : UInt64) :
    (db.compress start stop).current = db.current ∧ (db.compress start stop).stream = db.stream := by
  have fold : ∀ (l : List UInt64) (d : DB),
      let d' := l.foldl (fun db' commit =>
        if commit ≤ start ∨ commit > stop then db' else db'.forgetStream commit) d
      d'.current = d.current ∧ d'.stream = d.stream := by
    intro l
    induction l with
    | nil => intro d; exact ⟨rfl, rfl⟩
    | cons c l ih =>
      intro d
      rw [List.foldl_cons]
      obtain ⟨h1, h2⟩ := ih (if c ≤ start ∨ c > stop then d else d.forgetStream c)
      refine ⟨h1.trans ?_, h2.trans ?_⟩ <;> split <;> rfl
  obtain ⟨h1, h2⟩ := fold db.closed db
  unfold compress
  simp only
  split <;> exact ⟨h1, h2⟩

end DB

/-! ## `prev` and `next` -/

/-- `a ≤ b < c` gives `a < c` on `uint64`.
Source: none: infrastructure
Kind: L -/
theorem lt_of_le_of_lt' {a b c : UInt64} (hab : a ≤ b) (hbc : b < c) : a < c :=
  Nat.lt_of_le_of_lt hab hbc

/-- `a ≤ b` and `a ≠ b` give `a < b` on `uint64`.
Source: none: infrastructure
Kind: L -/
theorem lt_of_le_of_ne' {a b : UInt64} (hab : a ≤ b) (hne : a ≠ b) : a < b :=
  Nat.lt_of_le_of_ne hab fun he => hne (UInt64.toNat.inj he)

/-- `≤` is antisymmetric on `uint64`.
Source: none: infrastructure
Kind: L -/
theorem le_antisymm' {a b : UInt64} (hab : a ≤ b) (hba : b ≤ a) : a = b :=
  UInt64.toNat.inj (Nat.le_antisymm hab hba)

/-- Every `uint64` is at most `math.MaxUint64`.
Source: Go `math.MaxUint64`
Kind: L -/
theorem le_maxUint64 (x : UInt64) : x ≤ maxUint64 :=
  Nat.le_pred_of_lt x.toNat_lt_size

/-- The loop of `prev` and `next`: over `l`, keep each element that satisfies `P` and beats the
one kept so far (`B`, a strict order). What is kept is the start `r` or an element of `l` that
satisfies `P` and beats `r`, and no element of `l` that satisfies `P` beats it.
Source: src/cmd/esdb-reader.go `DB.prev`, `DB.next`
Kind: L -/
theorem foldl_select (P : UInt64 → Prop) [DecidablePred P] (B : UInt64 → UInt64 → Prop)
    [DecidableRel B] (hirr : ∀ a, ¬ B a a) (htrans : ∀ a b c, B a b → B b c → B a c) :
    ∀ (l : List UInt64) (r : UInt64),
      let r' := l.foldl (fun r c => if P c ∧ B c r then c else r) r
      (r' = r ∨ r' ∈ l ∧ P r' ∧ B r' r) ∧ ∀ c ∈ l, P c → ¬ B c r'
  | [], _ => ⟨.inl rfl, by simp⟩
  | c :: l, r => by
    -- nothing beats what is kept if it beats neither what was kept before nor the one kept
    have keep : ∀ {x s r' : UInt64}, ¬ B x s → (r' = s ∨ B r' s) → ¬ B x r' := fun hx h hb =>
      h.elim (fun e => hx (e ▸ hb)) fun h' => hx (htrans _ _ _ hb h')
    simp only [List.foldl_cons]
    split
    · rename_i hsel
      obtain ⟨h1, h2⟩ := foldl_select P B hirr htrans l c
      refine ⟨.inr ?_, fun x hx hpx => ?_⟩
      · rcases h1 with h | ⟨hm, hp, hb⟩
        · rw [h]; exact ⟨List.mem_cons_self c l, hsel⟩
        · exact ⟨List.mem_cons_of_mem c hm, hp, htrans _ _ _ hb hsel.2⟩
      · rcases List.mem_cons.mp hx with rfl | hx
        · exact keep (hirr _) (h1.imp_right fun h => h.2.2)
        · exact h2 x hx hpx
    · rename_i hnot
      obtain ⟨h1, h2⟩ := foldl_select P B hirr htrans l r
      refine ⟨h1.imp_right fun ⟨hm, hp, hb⟩ => ⟨List.mem_cons_of_mem c hm, hp, hb⟩,
        fun x hx hpx => ?_⟩
      rcases List.mem_cons.mp hx with rfl | hx
      · exact keep (fun h => hnot ⟨hpx, h⟩) (h1.imp_right fun h => h.2.2)
      · exact h2 x hx hpx

namespace DB

/-- `prev(commit)` is 0 or a closed commit below `commit`, and no closed commit below
`commit` is larger.
Source: src/cmd/esdb-reader.go `DB.prev`
Kind: L -/
theorem prev_spec (db : DB) (commit : UInt64) :
    (db.prev commit = 0 ∨ db.prev commit ∈ db.closed ∧ db.prev commit < commit) ∧
      ∀ c ∈ db.closed, c < commit → c ≤ db.prev commit := by
  obtain ⟨h1, h2⟩ := foldl_select (· < commit) (fun c r => c > r) UInt64.lt_irrefl
    (fun _ _ _ hab hbc => Nat.lt_trans hbc hab) db.closed 0
  exact ⟨h1.imp_right fun h => ⟨h.1, h.2.1⟩, fun c hc hlt => UInt64.not_lt.mp (h2 c hc hlt)⟩

/-- `next(commit)` is 0 or a commit of `closed` or `current` above `commit`; and when some
commit of `closed` or `current` above `commit` is below `MaxUint64`, `next(commit)` is above
`commit` and at most that commit.
Source: src/cmd/esdb-reader.go `DB.next`
Kind: L -/
theorem next_spec (db : DB) (commit : UInt64) :
    (db.next commit = 0 ∨ (db.next commit ∈ db.closed ∨ db.next commit = db.current) ∧
        commit < db.next commit) ∧
      ∀ c, (c ∈ db.closed ∨ c = db.current) → commit < c → c < maxUint64 →
        commit < db.next commit ∧ db.next commit ≤ c := by
  unfold next
  simp only
  set r := db.closed.foldl (fun result c => if c > commit ∧ c < result then c else result)
    maxUint64
  obtain ⟨h1, h2⟩ : (r = maxUint64 ∨ r ∈ db.closed ∧ commit < r ∧ r < maxUint64) ∧
      ∀ c ∈ db.closed, commit < c → ¬ c < r :=
    foldl_select (commit < ·) (· < ·) UInt64.lt_irrefl (fun _ _ _ => Nat.lt_trans) db.closed _
  by_cases hcur : db.current > commit ∧ db.current < r
  · have hne : db.current ≠ maxUint64 := fun h =>
      UInt64.lt_irrefl _ (lt_of_le_of_lt' (le_maxUint64 r) (h ▸ hcur.2))
    rw [if_pos hcur, if_neg hne]
    refine ⟨.inr ⟨.inr rfl, hcur.1⟩, fun c hc hlt _ => ⟨hcur.1, ?_⟩⟩
    rcases hc with hc | rfl
    · exact Nat.le_of_lt (Nat.lt_of_lt_of_le hcur.2 (UInt64.not_lt.mp (h2 c hc hlt)))
    · exact UInt64.le_refl _
  · rw [if_neg hcur]
    split
    · rename_i hm
      refine ⟨.inl rfl, fun c hc hlt hmax => absurd hc ?_⟩
      rintro (hc | rfl)
      · exact h2 c hc hlt (hm ▸ hmax)
      · exact hcur ⟨hlt, hm ▸ hmax⟩
    · rename_i hm
      obtain ⟨hm', hlt, -⟩ := h1.resolve_left hm
      refine ⟨.inr ⟨.inl hm', hlt⟩, fun c hc hc' _ => ⟨hlt, ?_⟩⟩
      rcases hc with hc | rfl
      · exact UInt64.not_lt.mp (h2 c hc hc')
      · exact UInt64.not_lt.mp fun h => hcur ⟨hc', h⟩

end DB

end Esdb.Cluster
