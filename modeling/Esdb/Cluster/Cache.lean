import Esdb.Cluster.Pages
import Esdb.Cluster.Restart

/-!
# The stream cache is invisible to reads

`retrieveStream` serves a stream from the cache when it holds one, and otherwise opens the file,
or recovers it, and caches what it got. A closed file in the cache is the stream opening that
file gives, so a state whose cache holds more closed files than another's, and which differs
from it in nothing else but `MostRecent`, answers every read as the other does: the same cursor,
the same events, the same error, from any cursor and with any recovery. A restarted process is
such a state beside the run it restarts (`Synced`).

* `CacheExt` — `B` is `A` but for `MostRecent` and closed files cached in `B` only.
* `CacheExt.retrieveStream` — a lookup returns the same stream, or fails the same way, and the
  states stay related.
* `ReadSim` — what a read needs of two related states; `ReadSim.iterateLoop` and
  `ReadSim.scanLoop` (with `ReadAgree`) — the loops of `Iterate` and `Scan` then end alike, and
  so do single reads (`ReadSim.iterate`, `ReadSim.scan`, with `PageAgree`), whole sequences of
  pages from any cursor (`ReadSim.iteratePages`, `ReadSim.scanPages`), and what reads with no
  cursor see (`ReadSim.readsSee`).
* `CacheExt.readSim`, `iteratePages_cacheExt`, `scanPages_cacheExt` — a larger cache is such a
  relation.
* `restarts_pages_agree` — after any number of restarts, paging with `Iterate` or `Scan` from
  any cursor reads what the uninterrupted run's state reads.
-/

namespace Esdb.Cluster

open Esdb.Binary Esdb.Stream

/-- `B` is `A` but for `MostRecent` and its cache, which holds what `A`'s holds and, besides,
closed files at their commits.
Source: src/cmd/esdb-reader.go `DB.retrieveStream`
Kind: D -/
def CacheExt (A B : DB) : Prop :=
  ∃ m streams, B = { A with mostRecent := m, streams := streams } ∧
    ∀ c, (streams.get? c).join = (A.streams.get? c).join ∨
      (A.streams.get? c).join = none ∧ ∃ f, (streams.get? c).join = some f ∧
        A.files.get? c = some (.stream f) ∧ f.closed = true

namespace CacheExt

variable {A B : DB}

/-- Related states step through commits alike.
Source: none: infrastructure
Kind: L -/
theorem next_eq (h : CacheExt A B) : B.next = A.next := by
  obtain ⟨_, _, rfl, -⟩ := h; rfl

/-- Related states step back through commits alike.
Source: none: infrastructure
Kind: L -/
theorem prev_eq (h : CacheExt A B) : B.prev = A.prev := by
  obtain ⟨_, _, rfl, -⟩ := h; rfl

/-- Related states parse a cursor alike.
Source: none: infrastructure
Kind: L -/
theorem parseContinuation_eq (h : CacheExt A B) : B.parseContinuation = A.parseContinuation := by
  obtain ⟨_, _, rfl, -⟩ := h; rfl

/-- Related states close the same commits.
Source: none: infrastructure
Kind: L -/
theorem closed_eq (h : CacheExt A B) : B.closed = A.closed := by
  obtain ⟨_, _, rfl, -⟩ := h; rfl

/-- Caching one more stream in both, or in the one that lacks a closed file the other holds,
keeps states related.
Source: none: infrastructure
Kind: L -/
theorem set {m : Int} {streams : GoMap UInt64 (Option StreamFile)}
    (hs : ∀ c, (streams.get? c).join = (A.streams.get? c).join ∨
      (A.streams.get? c).join = none ∧ ∃ f, (streams.get? c).join = some f ∧
        A.files.get? c = some (.stream f) ∧ f.closed = true)
    {x : UInt64} {o : Option StreamFile} {streams' : GoMap UInt64 (Option StreamFile)}
    (hx : (streams'.get? x).join = o) (hrest : ∀ c, x ≠ c → streams'.get? c = streams.get? c) :
    CacheExt { A with streams := A.streams.set x o }
      { A with mostRecent := m, streams := streams' } := by
  refine ⟨m, streams', rfl, fun c => ?_⟩
  rcases eq_or_ne x c with rfl | hne
  · exact .inl (by simp only [GoMap.get?_set, if_pos rfl, hx]; rfl)
  · simpa only [GoMap.get?_set, if_neg hne, hrest c hne] using hs c

/-- A lookup in related states returns the same stream, or fails with the same error, and
leaves them related: a closed file cached in `B` only is the stream `A` opens, and caches.
Source: src/cmd/esdb-reader.go `DB.retrieveStream`, `DB.fetchStream`
Kind: L -/
theorem retrieveStream (h : CacheExt A B) (recover : UInt64 → Except DBError (Option StreamFile))
    (c : UInt64) (fetchMissing : Bool) :
    (∀ e, A.retrieveStream recover c fetchMissing = .error e →
      B.retrieveStream recover c fetchMissing = .error e) ∧
    ∀ s A', A.retrieveStream recover c fetchMissing = .ok (s, A') →
      ∃ B', B.retrieveStream recover c fetchMissing = .ok (s, B') ∧ CacheExt A' B' := by
  obtain ⟨m, streams, rfl, hs⟩ := h
  have hfetch : ({ A with mostRecent := m, streams := streams } : DB).fetchStream =
      A.fetchStream := rfl
  unfold DB.retrieveStream
  dsimp only
  rw [hfetch]
  by_cases hheld : A.current = c ∧ A.stream.isSome
  · -- the held stream, in both
    simp only [if_pos hheld]
    refine ⟨fun _ h => (nomatch h), fun s A' he => ?_⟩
    cases he
    exact ⟨_, rfl, m, streams, rfl, hs⟩
  simp only [if_neg hheld]
  rcases hs c with heq | ⟨hA, f, hB, hf, hfc⟩
  · -- the same lookup in both
    rw [heq]
    rcases (A.streams.get? c).join with _ | f
    · rcases A.fetchStream recover c fetchMissing with e | o
      · exact ⟨fun _ he => he, fun _ _ h => nomatch h⟩
      · refine ⟨fun _ h => (nomatch h), fun s A' he => ?_⟩
        cases he
        exact ⟨_, rfl, set hs (by simp) fun c' hne => by simp [GoMap.get?_set, hne]⟩
    · refine ⟨fun _ h => (nomatch h), fun s A' he => ?_⟩
      cases he
      exact ⟨_, rfl, m, streams, rfl, hs⟩
  · -- a closed file cached in `B` only: `A` opens it
    have hfs : A.fetchStream recover c fetchMissing = .ok (some f) := by
      simp [DB.fetchStream, hf, streamOpen, hfc]
    rw [hA, hB, hfs]
    refine ⟨fun _ h => (nomatch h), fun s A' he => ?_⟩
    cases he
    exact ⟨_, rfl, set hs (by rw [hB]) fun _ _ => rfl⟩

end CacheExt

/-! ## The read loops -/

/-- Two results of a read loop agree: neither returns, both fail with the same error, or both
return the same value, on states related by `P`.
Source: none: infrastructure
Kind: D -/
inductive ReadAgree {α : Type} (P : DB → DB → Prop) :
    Option (Except DBError (DB × α)) → Option (Except DBError (DB × α)) → Prop
  | none : ReadAgree P none none
  | error (e : DBError) : ReadAgree P (some (.error e)) (some (.error e))
  | ok {a b : DB} (x : α) : P a b → ReadAgree P (some (.ok (a, x))) (some (.ok (b, x)))

/-- Two results of a read agree: neither returns, both fail with the same error, or both
return the same cursor and events, on states related by `P`.
Source: none: infrastructure
Kind: D -/
inductive PageAgree (P : DB → DB → Prop) :
    Option (Except DBError (String × List Event × DB)) →
      Option (Except DBError (String × List Event × DB)) → Prop
  | none : PageAgree P none none
  | error (e : DBError) : PageAgree P (some (.error e)) (some (.error e))
  | ok {a b : DB} (cursor : String) (evs : List Event) :
      P a b → PageAgree P (some (.ok (cursor, evs, a))) (some (.ok (cursor, evs, b)))

/-- What a read needs of two states, `A` recovering missing files with `rA` and `B` with `rB`,
to answer alike: a lookup returns the same stream, or fails the same way, and leaves them
related, and cursors are parsed and commits stepped through alike.
Source: src/cmd/esdb-reader.go `DB.Iterate`, `DB.Scan`, `DB.retrieveStream`
Kind: D -/
structure ReadSim (P : DB → DB → Prop) (rA rB : UInt64 → Except DBError (Option StreamFile)) :
    Prop where
  retrieve : ∀ {A B : DB}, P A B → ∀ c,
    (∀ e, A.retrieveStream rA c true = .error e → B.retrieveStream rB c true = .error e) ∧
    ∀ s A', A.retrieveStream rA c true = .ok (s, A') →
      ∃ B', B.retrieveStream rB c true = .ok (s, B') ∧ P A' B'
  next : ∀ {A B : DB}, P A B → B.next = A.next
  prev : ∀ {A B : DB}, P A B → B.prev = A.prev
  parse : ∀ {A B : DB}, P A B → B.parseContinuation = A.parseContinuation
  closed : ∀ {A B : DB}, P A B → B.closed = A.closed

namespace ReadSim

variable {P : DB → DB → Prop} {rA rB : UInt64 → Except DBError (Option StreamFile)}
  (hs : ReadSim P rA rB) (scanner : List Event → Bool)
include hs

/-- `Iterate`'s loop ends alike on related states: each lookup returns the same stream, and
`next` steps alike.
Source: src/cmd/esdb-reader.go `DB.Iterate`
Kind: L -/
theorem iterateLoop :
    ∀ (fuel : Nat) (commit : UInt64) (offset : Int) (seen : List Event) {A B : DB},
      P A B → ReadAgree P (DB.iterateLoop rA scanner fuel A commit offset seen)
        (DB.iterateLoop rB scanner fuel B commit offset seen)
  | 0, _, _, _, _, _, _ => .none
  | fuel + 1, commit, offset, seen, A, B, h => by
    obtain ⟨herr, hok⟩ := hs.retrieve h commit
    simp only [DB.iterateLoop]
    split_ifs
    · exact .ok _ h
    rcases hA : A.retrieveStream rA commit true with e | ⟨_ | s, A'⟩
    · rw [herr e hA]; exact .error e
    · obtain ⟨B', hB, -⟩ := hok _ _ hA
      rw [hB]; exact .error _
    obtain ⟨B', hB, h'⟩ := hok _ _ hA
    rw [hB]
    dsimp only
    rcases s.iterate offset scanner seen with _ | ⟨seen', _ | offset'⟩
    · exact .none
    · exact .error _
    dsimp only
    rw [hs.next h']
    split_ifs
    · exact .ok _ h'
    · exact iterateLoop fuel _ 0 seen' h'

/-- `Scan`'s loop ends alike on related states: each lookup returns the same stream, and `prev`
steps alike.
Source: src/cmd/esdb-reader.go `DB.Scan`
Kind: L -/
theorem scanLoop (name value : Bytes) :
    ∀ (fuel : Nat) (commit : UInt64) (offset : Int) (seen : List Event) {A B : DB},
      P A B → ReadAgree P (DB.scanLoop rA name value scanner fuel A commit offset seen)
        (DB.scanLoop rB name value scanner fuel B commit offset seen)
  | 0, _, _, _, _, _, _ => .none
  | fuel + 1, commit, offset, seen, A, B, h => by
    obtain ⟨herr, hok⟩ := hs.retrieve h commit
    simp only [DB.scanLoop]
    split_ifs
    · exact .ok _ h
    rcases hA : A.retrieveStream rA commit true with e | ⟨_ | s, A'⟩
    · rw [herr e hA]; exact .error e
    · obtain ⟨B', hB, -⟩ := hok _ _ hA
      rw [hB]; exact .error _
    obtain ⟨B', hB, h'⟩ := hok _ _ hA
    rw [hB]
    dsimp only
    rcases s.scanIndex name value offset scanner seen with _ | ⟨seen', _ | _⟩
    · exact .none
    · exact .error _
    dsimp only
    rw [hs.prev h']
    split_ifs
    · exact .ok _ h'
    · exact scanLoop name value fuel _ 0 seen' h'

/-- One `Iterate` from any cursor ends alike on related states.
Source: src/cmd/esdb-reader.go `DB.Iterate`
Kind: L -/
theorem iterate {A B : DB} (h : P A B) (cursor : String) :
    PageAgree P (A.iterate rA cursor scanner) (B.iterate rB cursor scanner) := by
  simp only [DB.iterate, hs.parse h, hs.closed h]
  rcases A.parseContinuation cursor false with ⟨commit, offset⟩
  have hl := hs.iterateLoop scanner (A.closed.length + 3) commit offset [] h
  generalize DB.iterateLoop rA scanner (A.closed.length + 3) A commit offset [] = a at hl ⊢
  generalize DB.iterateLoop rB scanner (A.closed.length + 3) B commit offset [] = b at hl ⊢
  cases hl with
  | none => exact .none
  | error e => exact .error e
  | ok x h' => exact .ok _ _ h'

/-- One `Scan` from any cursor ends alike on related states.
Source: src/cmd/esdb-reader.go `DB.Scan`
Kind: L -/
theorem scan {A B : DB} (h : P A B) (name value : Bytes) (cursor : String) :
    PageAgree P (A.scan rA name value cursor scanner) (B.scan rB name value cursor scanner) := by
  simp only [DB.scan, hs.parse h, hs.closed h]
  rcases A.parseContinuation cursor true with ⟨commit, offset⟩
  have hl := hs.scanLoop scanner name value (A.closed.length + 2) commit offset [] h
  generalize DB.scanLoop rA name value scanner (A.closed.length + 2) A commit offset [] = a
    at hl ⊢
  generalize DB.scanLoop rB name value scanner (A.closed.length + 2) B commit offset [] = b
    at hl ⊢
  cases hl with
  | none => exact .none
  | error e => exact .error e
  | ok x h' =>
    simp only [Option.map_some', Except.map, hs.prev h']
    exact .ok _ _ h'

omit scanner

/-- Paging with `Iterate` from any cursor reads the same pages on related states.
Source: src/cmd/esdb-reader.go `DB.Iterate`
Kind: L -/
theorem iteratePages :
    ∀ (ss : List (List Event → Bool)) (cursor : String) {A B : DB}, P A B →
      B.iteratePages rB cursor ss = A.iteratePages rA cursor ss
  | [], _, _, _, _ => rfl
  | s :: ss, cursor, A, B, h => by
    have hp := hs.iterate s h cursor
    simp only [DB.iteratePages]
    generalize A.iterate rA cursor s = a at hp ⊢
    generalize B.iterate rB cursor s = b at hp ⊢
    cases hp with
    | none => rfl
    | error e => rfl
    | ok c evs h' => simp only [iteratePages ss c h']

/-- Paging with `Scan` from any cursor reads the same pages on related states.
Source: src/cmd/esdb-reader.go `DB.Scan`
Kind: L -/
theorem scanPages (name value : Bytes) :
    ∀ (ss : List (List Event → Bool)) (cursor : String) {A B : DB}, P A B →
      B.scanPages rB name value cursor ss = A.scanPages rA name value cursor ss
  | [], _, _, _, _ => rfl
  | s :: ss, cursor, A, B, h => by
    have hp := hs.scan s h name value cursor
    simp only [DB.scanPages]
    generalize A.scan rA name value cursor s = a at hp ⊢
    generalize B.scan rB name value cursor s = b at hp ⊢
    cases hp with
    | none => rfl
    | error e => rfl
    | ok c evs h' => simp only [scanPages name value ss c h']

end ReadSim

/-- What every read with no cursor sees is seen alike on related states recovering alike.
Source: src/cmd/esdb-reader.go `DB.Iterate`, `DB.Scan`
Kind: L -/
theorem ReadSim.readsSee {P : DB → DB → Prop} {r : UInt64 → Except DBError (Option StreamFile)}
    (hs : ReadSim P r r) {A B : DB} (h : P A B) {ws : List (Bytes × List Bytes)}
    (hr : ReadsSee r A ws) : ReadsSee r B ws := by
  obtain ⟨evs, hm, hit, hsc⟩ := hr
  refine ⟨evs, hm, fun scanner => ?_, fun name value scanner => ?_⟩
  · obtain ⟨c, A', hA, hn⟩ := hit scanner
    have hp := hs.iterate scanner h ""
    rw [hA] at hp
    generalize B.iterate r "" scanner = b at hp ⊢
    cases hp with
    | ok _ _ _ => exact ⟨c, _, rfl, hn⟩
  · obtain ⟨c, A', hA, hn⟩ := hsc name value scanner
    have hp := hs.scan scanner h name value ""
    rw [hA] at hp
    generalize B.scan r name value "" scanner = b at hp ⊢
    cases hp with
    | ok _ _ _ => exact ⟨c, _, rfl, hn⟩

/-! ## Pages -/

/-- A cache holding more closed files than another's answers lookups alike.
Source: src/cmd/esdb-reader.go `DB.retrieveStream`
Kind: L -/
theorem CacheExt.readSim (recover : UInt64 → Except DBError (Option StreamFile)) :
    ReadSim CacheExt recover recover :=
  ⟨fun h c => h.retrieveStream recover c true, CacheExt.next_eq, CacheExt.prev_eq,
    CacheExt.parseContinuation_eq, CacheExt.closed_eq⟩

/-- Paging with `Iterate` from any cursor reads the same pages on related states.
Source: src/cmd/esdb-reader.go `DB.Iterate`, `DB.retrieveStream`
Kind: L -/
theorem iteratePages_cacheExt (recover : UInt64 → Except DBError (Option StreamFile))
    (ss : List (List Event → Bool)) (cursor : String) {A B : DB} (h : CacheExt A B) :
    B.iteratePages recover cursor ss = A.iteratePages recover cursor ss :=
  (CacheExt.readSim recover).iteratePages ss cursor h

/-- Paging with `Scan` from any cursor reads the same pages on related states.
Source: src/cmd/esdb-reader.go `DB.Scan`, `DB.retrieveStream`
Kind: L -/
theorem scanPages_cacheExt (recover : UInt64 → Except DBError (Option StreamFile))
    (name value : Bytes) (ss : List (List Event → Bool)) (cursor : String) {A B : DB}
    (h : CacheExt A B) :
    B.scanPages recover name value cursor ss = A.scanPages recover name value cursor ss :=
  (CacheExt.readSim recover).scanPages name value ss cursor h

/-! ## After restarts -/

/-- A restarted process in step with a run whose cache is empty is related to it: what it
caches are closed files.
Source: none: infrastructure
Kind: L -/
theorem Synced.cacheExt {R O : DB} (hsy : Synced R O) (hO : O.streams = []) : CacheExt O R := by
  obtain ⟨m, streams, rfl, hcache⟩ := hsy
  refine ⟨m, streams, rfl, fun c => ?_⟩
  rw [hO]
  rcases hj : (streams.get? c).join with _ | f
  · exact .inl rfl
  · exact .inr ⟨rfl, f, rfl, (hcache c f hj).2⟩

/-- After any number of restarts of a log whose commits increase from 2, a client paging with
`Iterate`, or with `Scan` for any label, from any cursor, with any scanners and any recovery,
reads exactly the pages, or the error, that the uninterrupted run's state gives: the files the
restarts adopted into the cache, and the `MostRecent` they lost, are invisible to reads.
Source: src/cmd/esdb-reader.go `NewDb`, `DB.Rotate`, `DB.retrieveStream`, `DB.Iterate`,
`DB.Scan`
Kind: P -/
theorem restarts_pages_agree {tmpfiles : GoMap UInt64 DiskFile} {first : List Command}
    {segs : List (List Command)}
    (hlog : ((first ++ segs.flatten).map Command.commit).Chain (· < ·) 1)
    (recover : UInt64 → Except DBError (Option StreamFile)) (cursor : String)
    (ss : List (List Event → Bool)) :
    ∃ db db₀, restartRun tmpfiles first segs = .ok db ∧
      replay [] tmpfiles (first ++ segs.flatten) = .ok db₀ ∧
      db.iteratePages recover cursor ss = db₀.iteratePages recover cursor ss ∧
      ∀ name value, db.scanPages recover name value cursor ss =
        db₀.scanPages recover name value cursor ss := by
  obtain ⟨db, db₀, hdb, hrun, hsy⟩ := restartRun_synced hlog
  have h := hsy.cacheExt (replay_settled hlog hrun).live.streams_empty
  exact ⟨db, db₀, hdb, hrun, iteratePages_cacheExt recover ss cursor h,
    fun name value => scanPages_cacheExt recover name value ss cursor h⟩

/-- A run writes a labelled event at 2 and rotates to 3; after a restart it writes another at 4.
A client holding the cursor `1:0` from before the restart pages on. -/
theorem restarts_pages_agree_from_cursor :
    (([Command.write 2 [97] [([120], [49])] 5, .rotate 3 0] ++
      [[Command.write 4 [98] [([120], [49])] 6]].flatten).map Command.commit).Chain (· < ·) 1 ∧
    ∃ db db₀, restartRun [] [.write 2 [97] [([120], [49])] 5, .rotate 3 0]
        [[.write 4 [98] [([120], [49])] 6]] = .ok db ∧
      replay [] [] ([Command.write 2 [97] [([120], [49])] 5, .rotate 3 0] ++
        [[Command.write 4 [98] [([120], [49])] 6]].flatten) = .ok db₀ ∧
      db.iteratePages (fun _ => .ok none) "1:0" [fun seen => seen.length < 1, fun _ => true] =
        db₀.iteratePages (fun _ => .ok none) "1:0" [fun seen => seen.length < 1, fun _ => true] ∧
      ∀ name value, db.scanPages (fun _ => .ok none) name value "1:0"
          [fun seen => seen.length < 1, fun _ => true] =
        db₀.scanPages (fun _ => .ok none) name value "1:0"
          [fun seen => seen.length < 1, fun _ => true] :=
  have hlog : (([Command.write 2 [97] [([120], [49])] 5, .rotate 3 0] ++
      [[Command.write 4 [98] [([120], [49])] 6]].flatten).map Command.commit).Chain (· < ·) 1 :=
    .cons (by decide) (.cons (by decide) (.cons (by decide) .nil))
  ⟨hlog, restarts_pages_agree hlog _ _ _⟩

end Esdb.Cluster
