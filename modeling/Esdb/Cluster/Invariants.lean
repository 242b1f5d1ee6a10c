import Mathlib.Data.List.Chain
import Esdb.Cluster.Cursor
import Esdb.Cluster.Snapshot

/-!
# What every run of the stream manager keeps

* `Reach` — the states reached from `NewDb` over any directory by `Write`s, by `Rotate`s to a
  commit above the current one, and by `Compress`.
* `ClosedInv` — `closed` is strictly increasing, no closed commit is above `current`, and while
  a stream is open `current` is not closed. `ClosedInv.rotate`, `ClosedInv.write`,
  `ClosedInv.compress` are the step lemmas; `Reach.closedInv` the run lemma.
* `closed_sorted_below_current` — the invariant on every reachable state, and what the reads
  draw from it: a forward read with no cursor starts at the oldest closed commit, and
  `prev(MaxUint64)` is the newest closed commit when that is below `MaxUint64`.
* `rotate_current_or_max_breaks_invariant` — a `Rotate` to the current commit (here right after
  `NewDb`, whose own `Rotate(1, 0)` made 1 current) closes the open stream, adds 1 to `closed`
  and opens a fresh stream at 1; and a closed file at `MaxUint64` adopted by a `Rotate` is
  missed by `prev(MaxUint64)`.
* `next_walks_iterateOrder` — on every reachable state with `current` below `MaxUint64`, a
  forward `Iterate` with no cursor walks the closed commits in increasing order and then
  `current` (`iterateOrder`), stepping by `next`, and stops after `current`.
* `CommitsPos`, `Reach.commitsPos` — no closed commit is 0, nor `current` while a stream is open;
  `prev_walks_iterateOrder_reverse` — so a `Scan` with no cursor walks the same commits
  backwards, stepping by `prev` from `current` and stopping after the oldest.
* `rotate_twice` — `Rotate(c, t)` twice is `Rotate(c, t)` once, except that when the first
  opened a fresh stream at `c` the second closes it, adds `c` to `closed` and opens another;
  its one hypothesis, that the stream held is open, holds on every reachable state
  (`Reach.stream_open`).
* `rotate_twice_closes_fresh_stream` — right after `NewDb`, `Rotate(2, 0)` once leaves closed
  `[1]`, twice `[1, 2]`.
* `newDb_fatal_on_torn_header` — `NewDb` over a directory whose first file was cut inside its
  header fails (the process exits), where over an empty directory it succeeds.
-/

namespace Esdb.Cluster

open Esdb.Binary Esdb.Stream

/-- The states reached from `NewDb` over any directory by `Write`s, `Rotate`s to commits above
the current one (as the consensus layer issues them, in increasing commit order after
`NewDb`'s `Rotate(1, 0)`), and `Compress`.
Source: src/cmd/esdb-reader.go `NewDb`, `DB.Write`, `DB.Rotate`, `DB.Compress`
Kind: D -/
inductive Reach : DB → Prop where
  | newDb {files tmpfiles : GoMap UInt64 DiskFile} {db : DB} :
      newDb files tmpfiles = .ok db → Reach db
  | write {db db' : DB} {commit : UInt64} {body : Bytes} {indexes : List (Bytes × Bytes)}
      {timestamp : Int} :
      Reach db → db.write commit body indexes timestamp = .ok db' → Reach db'
  | rotate {db db' : DB} {commit term : UInt64} :
      Reach db → db.current < commit → db.rotate commit term = .ok db' → Reach db'
  | compress {db : DB} (start stop : UInt64) : Reach db → Reach (db.compress start stop)

/-- The invariant of `closed` (spec §3, "Stream Manager state"): strictly increasing, no
commit above `current`, and `current` not closed while a stream is open.
Source: spec §3
Kind: D -/
structure ClosedInv (db : DB) : Prop where
  sorted : db.closed.Pairwise (· < ·)
  le_current : ∀ c ∈ db.closed, c ≤ db.current
  current_not_closed : db.stream.isSome → db.current ∉ db.closed

/-- A commit above every element extends a strictly increasing list.
Source: none: infrastructure
Kind: L -/
theorem pairwise_append_of_lt {l : List UInt64} {x : UInt64} (hl : l.Pairwise (· < ·))
    (hx : ∀ c ∈ l, c < x) : (l ++ [x]).Pairwise (· < ·) :=
  List.pairwise_append.mpr ⟨hl, List.pairwise_singleton _ _, fun a ha b hb => by
    rw [List.mem_singleton.mp hb]; exact hx a ha⟩

namespace ClosedInv

variable {db db' : DB}

/-- The empty state `NewDb` starts from.
Source: src/cmd/esdb-reader.go `NewDb`
Kind: L -/
theorem empty (files tmpfiles : GoMap UInt64 DiskFile) :
    ClosedInv ⟨[], 0, 0, none, [], 0, files, tmpfiles⟩ :=
  ⟨List.Pairwise.nil, fun _ h => absurd h (List.not_mem_nil _), fun h => absurd h (by simp)⟩

/-- A `Rotate` to a commit above `current` keeps the invariant: an adopted commit, or the
commit of the stream it closes, goes at the end of `closed`, above everything there.
Source: src/cmd/esdb-reader.go `DB.Rotate`
Kind: L -/
theorem rotate {commit term : UInt64} (hi : ClosedInv db) (hc : db.current < commit)
    (h : db.rotate commit term = .ok db') : ClosedInv db' := by
  have hlt : ∀ c ∈ db.closed, c < commit := fun c hcm => lt_of_le_of_lt' (hi.le_current c hcm) hc
  have hnot : commit ∉ db.closed := fun hm => UInt64.lt_irrefl commit (hlt commit hm)
  obtain ⟨streams, rfl | rfl⟩ := DB.rotate_cases h
  · -- adopted: `closed ++ [commit]`, no stream open
    refine ⟨?_, ?_, fun h => absurd h (by simp)⟩
    · simpa [hnot] using pairwise_append_of_lt hi.sorted hlt
    · intro c hcm
      simp only [DB.addClosed_closed, hnot, if_false, List.mem_append, List.mem_singleton] at hcm
      rcases hcm with hcm | rfl
      · exact Nat.le_of_lt (hlt c hcm)
      · exact UInt64.le_refl c
  · -- a fresh stream at `commit`: the closed stream's commit, if any, is appended
    have hcl : ∀ c ∈ ({ db with streams := streams } : DB).closeCurrent.closed, c < commit := by
      intro c hcm
      rw [DB.closeCurrent_closed] at hcm
      split at hcm
      · rcases List.mem_append.mp hcm with hcm | hcm
        · exact hlt c hcm
        · rw [List.mem_singleton.mp hcm]; exact hc
      · exact hlt c hcm
    refine ⟨?_, fun c hcm => Nat.le_of_lt (hcl c hcm), fun _ hm => UInt64.lt_irrefl _ (hcl _ hm)⟩
    simp only [DB.setCurrent_closed, DB.closeCurrent_closed]
    split
    · rename_i hs
      exact pairwise_append_of_lt hi.sorted fun c hcm =>
        lt_of_le_of_ne' (hi.le_current c hcm) fun he => hs.2 (he ▸ hcm)
    · exact hi.sorted

/-- A `Write` keeps the invariant: it changes none of the fields it reads.
Source: src/cmd/esdb-reader.go `DB.Write`
Kind: L -/
theorem write {commit : UInt64} {body : Bytes} {indexes : List (Bytes × Bytes)} {timestamp : Int}
    (hi : ClosedInv db) (h : db.write commit body indexes timestamp = .ok db') : ClosedInv db' := by
  obtain ⟨h1, h2, h3⟩ := DB.write_frame h
  exact ⟨h1 ▸ hi.sorted, h1 ▸ h2 ▸ hi.le_current, h1 ▸ h2 ▸ h3 ▸ hi.current_not_closed⟩

/-- `Compress` keeps the invariant: `closed` only loses commits.
Source: src/cmd/esdb-reader.go `DB.Compress`
Kind: L -/
theorem compress (start stop : UInt64) (hi : ClosedInv db) : ClosedInv (db.compress start stop) := by
  obtain ⟨h1, h2⟩ := DB.compress_frame db start stop
  refine ⟨?_, ?_, ?_⟩
  · rw [DB.compress_closed]; exact hi.sorted.filter _
  · intro c hcm
    rw [DB.compress_closed] at hcm
    rw [h1]; exact hi.le_current c (List.mem_of_mem_filter hcm)
  · intro hs hm
    rw [h1, DB.compress_closed] at hm
    rw [h2] at hs
    exact hi.current_not_closed hs (List.mem_of_mem_filter hm)

end ClosedInv

/-- Every reachable state keeps the invariant.
Source: src/cmd/esdb-reader.go `NewDb`, `DB.Write`, `DB.Rotate`, `DB.Compress`
Kind: L -/
theorem Reach.closedInv {db : DB} (h : Reach db) : ClosedInv db := by
  induction h with
  | newDb h => exact (ClosedInv.empty _ _).rotate (show (0 : UInt64) < 1 by decide) h
  | write _ h ih => exact ih.write h
  | rotate _ hc h ih => exact ih.rotate hc h
  | compress start stop _ ih => exact ih.compress start stop

/-! ## What the reads draw from the invariant -/

/-- In a strictly increasing list every element is at most the last.
Source: none: infrastructure
Kind: L -/
theorem le_of_getLast? {l : List UInt64} (hs : l.Pairwise (· < ·)) {c : UInt64}
    (hc : l.getLast? = some c) : ∀ x ∈ l, x ≤ c := by
  obtain ⟨init, rfl⟩ := List.getLast?_eq_some_iff.mp hc
  intro x hx
  rcases List.mem_append.mp hx with hx | hx
  · exact Nat.le_of_lt ((List.pairwise_append.mp hs).2.2 x hx c (List.mem_singleton_self c))
  · rw [List.mem_singleton.mp hx]; exact UInt64.le_refl c

/-- With `closed` strictly increasing, `prev(MaxUint64)` is its last element when that is below
`MaxUint64`.
Source: src/cmd/esdb-reader.go `DB.prev`, `DB.Continuation`
Kind: L -/
theorem prev_max_eq_getLast {db : DB} (hs : db.closed.Pairwise (· < ·)) {c : UInt64}
    (hc : db.closed.getLast? = some c) (hmax : c < maxUint64) : db.prev maxUint64 = c := by
  obtain ⟨hp, hge⟩ := DB.prev_spec db maxUint64
  have hcm := List.mem_of_getLast?_eq_some hc
  refine le_antisymm' ?_ (hge c hcm hmax)
  rcases hp with hp | ⟨hp, -⟩
  · rw [hp]; exact Nat.zero_le _
  · exact le_of_getLast? hs hc _ hp

/-- A forward read with no cursor starts at the first closed commit, at most every other one
when `closed` is increasing, or at `current` when there is none.
Source: src/cmd/esdb-reader.go `DB.parseContinuation`
Kind: L -/
theorem parseContinuation_empty_forward {db : DB} (hs : db.closed.Pairwise (· < ·)) :
    (db.parseContinuation "" false).2 = 0 ∧
      (∀ c ∈ db.closed, (db.parseContinuation "" false).1 ∈ db.closed ∧
        (db.parseContinuation "" false).1 ≤ c) ∧
      (db.closed = [] → (db.parseContinuation "" false).1 = db.current) := by
  unfold DB.parseContinuation
  cases hcl : db.closed with
  | nil => simp
  | cons c₀ rest =>
    rw [hcl] at hs
    refine ⟨rfl, fun c hc => ⟨List.mem_cons_self c₀ rest, ?_⟩, fun h => absurd h (by simp)⟩
    rcases List.mem_cons.mp hc with rfl | hc
    · exact UInt64.le_refl c
    · exact Nat.le_of_lt (List.rel_of_pairwise_cons hs hc)

/-- On every state reached from `NewDb` over any directory by `Write`s, `Rotate`s to commits
above the current one and `Compress`: `closed` is strictly increasing, no closed commit is
above `current`, and `current` is not closed while a stream is open; so a forward read with no
cursor starts at the oldest closed commit (or `current` when none is closed), and
`prev(MaxUint64)` is the newest closed commit when that is below `MaxUint64`.
Source: src/cmd/esdb-reader.go `DB.Rotate`, `DB.addClosed`, `DB.parseContinuation`, `DB.prev`
Kind: P -/
theorem closed_sorted_below_current {db : DB} (h : Reach db) :
    ClosedInv db ∧
      ((db.parseContinuation "" false).2 = 0 ∧
        (∀ c ∈ db.closed, (db.parseContinuation "" false).1 ∈ db.closed ∧
          (db.parseContinuation "" false).1 ≤ c) ∧
        (db.closed = [] → (db.parseContinuation "" false).1 = db.current)) ∧
      ∀ c, db.closed.getLast? = some c → c < maxUint64 → db.prev maxUint64 = c :=
  ⟨h.closedInv, parseContinuation_empty_forward h.closedInv.sorted,
    fun _ hc hmax => prev_max_eq_getLast h.closedInv.sorted hc hmax⟩

/-- `NewDb` over an empty directory, then `Rotate(2, 0)`: closed `[1]`, current 2.
Kind: P -/
theorem closed_sorted_below_current_after_rotate :
    let db : DB := ⟨[1], 2, 0, some StreamFile.empty, [], 10,
      [(1, .stream ⟨[], true⟩), (2, .stream StreamFile.empty)], []⟩
    Reach db ∧ (ClosedInv db ∧
      ((db.parseContinuation "" false).2 = 0 ∧
        (∀ c ∈ db.closed, (db.parseContinuation "" false).1 ∈ db.closed ∧
          (db.parseContinuation "" false).1 ≤ c) ∧
        (db.closed = [] → (db.parseContinuation "" false).1 = db.current)) ∧
      ∀ c, db.closed.getLast? = some c → c < maxUint64 → db.prev maxUint64 = c) :=
  ⟨@Reach.rotate _ _ 2 0 (@Reach.newDb [] [] _ rfl) (by decide) rfl,
    closed_sorted_below_current (@Reach.rotate _ _ 2 0 (@Reach.newDb [] [] _ rfl) (by decide) rfl)⟩

/-- Two runs outside `Reach` that break what `closed_sorted_below_current` states. `NewDb` over
an empty directory, then `Rotate(1, 0)`: closed `[1]` and current 1 with a stream open. `NewDb`
over a directory holding a closed file at `MaxUint64`, then `Rotate(MaxUint64, 0)` (commits
increasing): closed `[MaxUint64]`, and `prev(MaxUint64)` is 0.
Source: src/cmd/esdb-reader.go `DB.Rotate`, `DB.prev`
Kind: P -/
theorem rotate_current_or_max_breaks_invariant :
    (newDbRotating [] [1]).toOption.map (fun db => (db.closed, db.current, db.stream.isSome)) =
        some ([1], 1, true) ∧
      (newDbRotating [(maxUint64, .stream ⟨[], true⟩)] [maxUint64]).toOption.map
        (fun db => (db.closed, db.prev maxUint64)) = some ([maxUint64], 0) := by
  refine ⟨?_, ?_⟩
  · decide
  · decide

/-! ## The order `Iterate` walks the files in -/

/-- The commits a whole forward `Iterate` is to visit: the closed ones in increasing order, then
`current` unless it is itself closed.
Source: spec §4.5, "Iterate (forward, unindexed)"
Kind: D -/
def DB.iterateOrder (db : DB) : List UInt64 :=
  db.closed ++ if db.current ∈ db.closed then [] else [db.current]

/-- The commits `iterateOrder` holds.
Source: none: infrastructure
Kind: L -/
theorem DB.mem_iterateOrder {db : DB} {x : UInt64} :
    x ∈ db.iterateOrder ↔ x ∈ db.closed ∨ x = db.current := by
  unfold DB.iterateOrder
  split
  · rename_i h
    rw [List.append_nil]
    exact ⟨.inl, fun h' => h'.elim id fun he => he ▸ h⟩
  · simp

/-- A forward read with no cursor starts at the head of `iterateOrder`.
Source: src/cmd/esdb-reader.go `DB.parseContinuation`
Kind: L -/
theorem DB.iterateOrder_head? (db : DB) :
    db.iterateOrder.head? = some (db.parseContinuation "" false).1 := by
  unfold DB.iterateOrder DB.parseContinuation
  cases db.closed <;> simp

/-- A step function that, from each element of a list sorted by a strict order `lt`, lands on
an element of the list above it and not above any element above it, maps each element to the
next one.
Source: none: infrastructure
Kind: L -/
theorem chain_of_succ {α : Type} (lt : α → α → Prop) (hirr : ∀ a, ¬ lt a a)
    (htrans : ∀ a b c, lt a b → lt b c → lt a c) (f : α → α) :
    ∀ (L : List α), L.Pairwise lt →
      (∀ x ∈ L, ∀ y ∈ L, lt x y → lt x (f x) ∧ ¬ lt y (f x) ∧ f x ∈ L) →
      L.Chain' (fun a b => f a = b)
  | [], _, _ => List.chain'_nil
  | [_], _, _ => List.chain'_singleton _
  | a :: b :: rest, hs, hf => by
    have hab : lt a b := List.rel_of_pairwise_cons hs (List.mem_cons_self b rest)
    have hs' := hs.of_cons
    refine List.chain'_cons.mpr
      ⟨?_, chain_of_succ lt hirr htrans f (b :: rest) hs' fun x hx y hy hxy => ?_⟩
    · -- `f a` is in the list, above `a` and not above `b`: it is `b`
      obtain ⟨h1, h2, h3⟩ := hf a (List.mem_cons_self _ _) b
        (List.mem_cons_of_mem _ (List.mem_cons_self _ _)) hab
      rcases List.mem_cons.mp h3 with h | h
      · exact absurd h1 (by rw [h]; exact hirr a)
      rcases List.mem_cons.mp h with h | h
      · exact h
      · exact absurd (List.rel_of_pairwise_cons hs' h) h2
    · -- from the tail `f` never lands back on `a`, which is below all of it
      obtain ⟨h1, h2, h3⟩ := hf x (List.mem_cons_of_mem _ hx) y (List.mem_cons_of_mem _ hy) hxy
      refine ⟨h1, h2, (List.mem_cons.mp h3).resolve_left fun h => ?_⟩
      rw [h] at h1
      exact hirr a (htrans _ _ _ (List.rel_of_pairwise_cons hs hx) h1)

namespace ClosedInv

section IterateOrder

variable {db : DB} (hi : ClosedInv db)
include hi

/-- `iterateOrder` is strictly increasing.
Source: spec §3
Kind: L -/
theorem iterateOrder_sorted : db.iterateOrder.Pairwise (· < ·) := by
  unfold DB.iterateOrder
  split
  · simpa using hi.sorted
  · rename_i hn
    exact pairwise_append_of_lt hi.sorted fun c hc =>
      lt_of_le_of_ne' (hi.le_current c hc) fun he => hn (he ▸ hc)

/-- Nothing in `iterateOrder` is above `current`.
Source: spec §3
Kind: L -/
theorem le_current_of_mem_iterateOrder {x : UInt64} (hx : x ∈ db.iterateOrder) :
    x ≤ db.current := by
  rcases DB.mem_iterateOrder.mp hx with hx | rfl
  · exact hi.le_current x hx
  · exact UInt64.le_refl _

/-- `iterateOrder` ends at `current`: when `current` is closed it is the largest closed commit.
Source: spec §3
Kind: L -/
theorem iterateOrder_getLast? : db.iterateOrder.getLast? = some db.current := by
  unfold DB.iterateOrder
  split
  · rename_i hm
    rw [List.append_nil]
    cases hc : db.closed.getLast? with
    | none => simp [List.getLast?_eq_none_iff.mp hc] at hm
    | some c =>
      rw [le_antisymm' (hi.le_current c (List.mem_of_getLast?_eq_some hc))
        (le_of_getLast? hi.sorted hc _ hm)]
  · simp

/-- No commit of `closed` or `current` is above `current`, so `next(current)` is 0.
Source: src/cmd/esdb-reader.go `DB.next`
Kind: L -/
theorem next_current : db.next db.current = 0 := by
  rcases (DB.next_spec db db.current).1 with h | ⟨hm, hlt⟩
  · exact h
  · exact absurd (Nat.lt_of_lt_of_le hlt
      (hi.le_current_of_mem_iterateOrder (DB.mem_iterateOrder.mpr hm))) (UInt64.lt_irrefl _)

/-- Below `current < MaxUint64`, `next(x)` for any `x` under some `y` of `iterateOrder` is a
commit of `iterateOrder` above `x` and at most `y`.
Source: src/cmd/esdb-reader.go `DB.next`
Kind: L -/
theorem next_succ {x y : UInt64} (hmax : db.current < maxUint64) (hy : y ∈ db.iterateOrder)
    (hxy : x < y) : x < db.next x ∧ ¬ y < db.next x ∧ db.next x ∈ db.iterateOrder := by
  obtain ⟨h1, h2⟩ := (DB.next_spec db x).2 y (DB.mem_iterateOrder.mp hy) hxy
    (Nat.lt_of_le_of_lt (hi.le_current_of_mem_iterateOrder hy) hmax)
  refine ⟨h1, UInt64.not_lt.mpr h2, DB.mem_iterateOrder.mpr ?_⟩
  rcases (DB.next_spec db x).1 with h | ⟨hm, -⟩
  · rw [h] at h1; exact absurd h1 (Nat.not_lt_zero _)
  · exact hm

end IterateOrder

end ClosedInv

/-- On every reachable state with `current` below `MaxUint64`, the commits a forward `Iterate`
with no cursor visits are `iterateOrder`: it starts at its head, `next` steps from each commit
to the following one, and from the last, `current`, to 0, where the loop ends.
Source: src/cmd/esdb-reader.go `DB.Iterate`, `DB.next`, `DB.parseContinuation`
Kind: P -/
theorem next_walks_iterateOrder {db : DB} (h : Reach db) (hmax : db.current < maxUint64) :
    db.iterateOrder.head? = some (db.parseContinuation "" false).1 ∧
      db.iterateOrder.Chain' (fun a b => db.next a = b) ∧
      db.iterateOrder.getLast? = some db.current ∧ db.next db.current = 0 :=
  have hi := h.closedInv
  ⟨db.iterateOrder_head?, chain_of_succ (· < ·) UInt64.lt_irrefl (fun _ _ _ => Nat.lt_trans) _ _
    hi.iterateOrder_sorted fun _ _ _ hy hxy => hi.next_succ hmax hy hxy,
    hi.iterateOrder_getLast?, hi.next_current⟩

/-- `NewDb` over an empty directory, then `Rotate(2, 0)`: the walk is 1, then 2, then 0.
Kind: P -/
theorem next_walks_iterateOrder_after_rotate :
    let db : DB := ⟨[1], 2, 0, some StreamFile.empty, [], 10,
      [(1, .stream ⟨[], true⟩), (2, .stream StreamFile.empty)], []⟩
    Reach db ∧ db.current < maxUint64 ∧
      (db.iterateOrder.head? = some (db.parseContinuation "" false).1 ∧
        db.iterateOrder.Chain' (fun a b => db.next a = b) ∧
        db.iterateOrder.getLast? = some db.current ∧ db.next db.current = 0) :=
  ⟨@Reach.rotate _ _ 2 0 (@Reach.newDb [] [] _ rfl) (by decide) rfl, by decide,
    next_walks_iterateOrder (@Reach.rotate _ _ 2 0 (@Reach.newDb [] [] _ rfl) (by decide) rfl)
      (by decide)⟩

/-- No commit in play is 0, the value at which the read loops stop: the closed commits, and
`current` while a stream is open.
Source: src/cmd/esdb-reader.go `DB.Scan`, `DB.Iterate`
Kind: D -/
structure CommitsPos (db : DB) : Prop where
  closed_pos : ∀ c ∈ db.closed, 0 < c
  current_pos : db.stream.isSome → 0 < db.current

namespace CommitsPos

variable {db db' : DB}

/-- A `Rotate` to a commit above `current` adds to `closed` only that commit or the current one
while its stream is open.
Source: src/cmd/esdb-reader.go `DB.Rotate`
Kind: L -/
theorem rotate {commit term : UInt64} (hp : CommitsPos db) (hc : db.current < commit)
    (h : db.rotate commit term = .ok db') : CommitsPos db' := by
  have hpos : 0 < commit := Nat.lt_of_le_of_lt (Nat.zero_le _) hc
  obtain ⟨streams, rfl | rfl⟩ := DB.rotate_cases h
  · -- adopted: `commit` may join `closed`, no stream open
    refine ⟨fun c hcm => ?_, fun h => absurd h (by simp)⟩
    simp only [DB.addClosed_closed] at hcm
    split at hcm
    · exact hp.closed_pos c hcm
    · rcases List.mem_append.mp hcm with hcm | hcm
      · exact hp.closed_pos c hcm
      · rw [List.mem_singleton.mp hcm]; exact hpos
  · -- a fresh stream at `commit`: the closed stream's commit may join `closed`
    refine ⟨fun c hcm => ?_, fun _ => hpos⟩
    rw [DB.setCurrent_closed, DB.closeCurrent_closed] at hcm
    split at hcm
    · rename_i hs
      rcases List.mem_append.mp hcm with hcm | hcm
      · exact hp.closed_pos c hcm
      · rw [List.mem_singleton.mp hcm]; exact hp.current_pos hs.1
    · exact hp.closed_pos c hcm

/-- A `Write` changes none of the fields the invariant reads.
Source: src/cmd/esdb-reader.go `DB.Write`
Kind: L -/
theorem write {commit : UInt64} {body : Bytes} {indexes : List (Bytes × Bytes)} {timestamp : Int}
    (hp : CommitsPos db) (h : db.write commit body indexes timestamp = .ok db') :
    CommitsPos db' := by
  obtain ⟨h1, h2, h3⟩ := DB.write_frame h
  exact ⟨h1 ▸ hp.closed_pos, h2 ▸ h3 ▸ hp.current_pos⟩

/-- `Compress` only drops closed commits.
Source: src/cmd/esdb-reader.go `DB.Compress`
Kind: L -/
theorem compress (start stop : UInt64) (hp : CommitsPos db) :
    CommitsPos (db.compress start stop) := by
  obtain ⟨h1, h2⟩ := DB.compress_frame db start stop
  refine ⟨fun c hcm => hp.closed_pos c ?_, by rw [h1, h2]; exact hp.current_pos⟩
  rw [DB.compress_closed] at hcm
  exact List.mem_of_mem_filter hcm

end CommitsPos

/-- Every reachable state keeps `CommitsPos`.
Source: src/cmd/esdb-reader.go `NewDb`, `DB.Write`, `DB.Rotate`, `DB.Compress`
Kind: L -/
theorem Reach.commitsPos {db : DB} (h : Reach db) : CommitsPos db := by
  induction h with
  | newDb h =>
    exact CommitsPos.rotate ⟨fun _ h => absurd h (List.not_mem_nil _), fun h => absurd h (by simp)⟩
      (show (0 : UInt64) < 1 by decide) h
  | write _ h ih => exact ih.write h
  | rotate _ hc h ih => exact ih.rotate hc h
  | compress start stop _ ih => exact ih.compress start stop

/-- Under the invariant, with no closed commit 0, `prev` steps `iterateOrder` backwards: from
each commit to the one before it.
Source: src/cmd/esdb-reader.go `DB.prev`
Kind: L -/
theorem ClosedInv.prev_chain {db : DB} (hi : ClosedInv db) (hp : CommitsPos db) :
    db.iterateOrder.reverse.Chain' (fun a b => db.prev a = b) :=
  chain_of_succ (· > ·) UInt64.lt_irrefl (fun _ _ _ hab hbc => Nat.lt_trans hbc hab) _ _
    (List.pairwise_reverse.mpr hi.iterateOrder_sorted) fun x hx y hy hxy => by
    -- below `x`, the closest commit is closed and positive, so `prev` finds it
    rw [List.mem_reverse] at hx hy
    have hyc : y ∈ db.closed := (DB.mem_iterateOrder.mp hy).resolve_right fun he =>
      UInt64.lt_irrefl y (Nat.lt_of_lt_of_le hxy (he ▸ hi.le_current_of_mem_iterateOrder hx))
    obtain ⟨h1, h2⟩ := DB.prev_spec db x
    have hyle := h2 y hyc hxy
    rcases h1 with h0 | ⟨hm, hlt⟩
    · rw [h0] at hyle
      exact absurd (Nat.lt_of_lt_of_le (hp.closed_pos y hyc) hyle) (Nat.lt_irrefl 0)
    · exact ⟨hlt, UInt64.not_lt.mpr hyle, List.mem_reverse.mpr (DB.mem_iterateOrder.mpr (.inl hm))⟩

/-- Under the invariant nothing closed is below the commit a forward read with no cursor
starts at: `prev` of it is 0.
Source: src/cmd/esdb-reader.go `DB.prev`, `DB.parseContinuation`
Kind: L -/
theorem ClosedInv.prev_first {db : DB} (hi : ClosedInv db) :
    db.prev (db.parseContinuation "" false).1 = 0 := by
  rcases (DB.prev_spec db _).1 with h0 | ⟨hm, hlt⟩
  · exact h0
  · exact absurd (Nat.lt_of_le_of_lt ((parseContinuation_empty_forward hi.sorted).2.1 _ hm).2 hlt)
      (Nat.lt_irrefl _)

/-- On every reachable state, the commits a `Scan` with no cursor walks are `iterateOrder`
backwards: it starts at `current`, `prev` steps from each commit to the one before it, and
from the oldest to 0, where the loop ends.
Source: src/cmd/esdb-reader.go `DB.Scan`, `DB.prev`, `DB.parseContinuation`
Kind: P -/
theorem prev_walks_iterateOrder_reverse {db : DB} (h : Reach db) :
    db.iterateOrder.reverse.head? = some (db.parseContinuation "" true).1 ∧
      db.iterateOrder.reverse.Chain' (fun a b => db.prev a = b) ∧
      db.prev (db.parseContinuation "" false).1 = 0 := by
  have hi := h.closedInv
  refine ⟨?_, hi.prev_chain h.commitsPos, hi.prev_first⟩
  -- the walk starts at `current`, the last of `iterateOrder`
  rw [List.head?_reverse, hi.iterateOrder_getLast?]
  unfold DB.parseContinuation
  cases db.closed <;> rfl

/-- `NewDb` over an empty directory, then `Rotate(2, 0)`: the walk back is 2, then 1, then 0.
Kind: P -/
theorem prev_walks_iterateOrder_reverse_after_rotate :
    let db : DB := ⟨[1], 2, 0, some StreamFile.empty, [], 10,
      [(1, .stream ⟨[], true⟩), (2, .stream StreamFile.empty)], []⟩
    Reach db ∧
      (db.iterateOrder.reverse.head? = some (db.parseContinuation "" true).1 ∧
        db.iterateOrder.reverse.Chain' (fun a b => db.prev a = b) ∧
        db.prev (db.parseContinuation "" false).1 = 0) :=
  ⟨@Reach.rotate _ _ 2 0 (@Reach.newDb [] [] _ rfl) (by decide) rfl,
    prev_walks_iterateOrder_reverse
      (@Reach.rotate _ _ 2 0 (@Reach.newDb [] [] _ rfl) (by decide) rfl)⟩

/-! ## `Rotate` twice -/

/-- `Rotate` holds no stream (it adopted a closed file) or a fresh one.
Source: src/cmd/esdb-reader.go `DB.Rotate`, `DB.setCurrent`
Kind: L -/
theorem DB.rotate_stream_open {db db' : DB} {commit term : UInt64}
    (h : db.rotate commit term = .ok db') : ∀ s, db'.stream = some s → s.closed = false := by
  obtain ⟨streams, rfl | rfl⟩ := DB.rotate_cases h <;> intro s hs <;> cases hs
  rfl

/-- In every reachable state the stream held, if any, is open: `Rotate` holds none or a fresh
one, `Write` writes only to an open stream and leaves it open, and `Compress` leaves it alone.
Source: src/cmd/esdb-reader.go `NewDb`, `DB.Rotate`, `DB.Write`, `DB.Compress`
Kind: L -/
theorem Reach.stream_open {db : DB} (h : Reach db) : ∀ s, db.stream = some s → s.closed = false := by
  induction h with
  | newDb h => exact DB.rotate_stream_open h
  | rotate _ _ h _ => exact DB.rotate_stream_open h
  | compress start stop _ ih => exact fun s hs => ih s ((DB.compress_frame _ start stop).2 ▸ hs)
  | @write db db' _ _ _ _ _ h ih =>
    intro s hs
    unfold DB.write at h
    split at h
    · cases h; exact ih s hs
    · split at h
      · cases h; exact ih s hs
      · split at h
        · cases h
        · rename_i s₀ _ s' hw
          cases h
          cases hs
          unfold StreamFile.write at hw
          split at hw
          · cases hw
          · cases hw; rfl

/-- `Rotate(c, t)` applied again to its own result: when the first adopted a closed file at
`c`, nothing changes; when it opened a fresh stream at `c`, the second closes that stream, adds
`c` to `closed` and opens another fresh stream at `c` — the state of the first plus `c` in
`closed`. (The open stream, if any, is open, as in every state the operations reach:
`Reach.stream_open`.)
Source: src/cmd/esdb-reader.go `DB.Rotate`, `DB.retrieveStream`, `DB.setCurrent`
Kind: P -/
theorem rotate_twice {db db₁ : DB} {commit term : UInt64}
    (hopen : ∀ s, db.stream = some s → s.closed = false) (h : db.rotate commit term = .ok db₁) :
    db₁.rotate commit term = .ok (if db₁.stream.isSome then db₁.addClosed commit else db₁) := by
  rcases DB.rotate_eq h with ⟨s, db₀, hr, hs, hdb₁⟩ | ⟨db₀, -, rfl⟩
  · -- adopted: the file is now cached, so the second `Rotate` adopts it again
    have hheld : ¬(db.current = commit ∧ db.stream.isSome) := fun hc => by
      unfold DB.retrieveStream at hr
      rw [if_pos hc] at hr
      have hst : db.stream = some s := congrArg Prod.fst (Except.ok.inj hr)
      rw [hopen s hst] at hs; cases hs
    have hst : db₁.stream = none := by rw [hdb₁]
    have hcur : db₁.current = commit := by rw [hdb₁]
    have hmo : db₁.mockoffset = 10 := by rw [hdb₁]
    have hmem : commit ∈ db₁.closed := by
      rw [hdb₁, DB.addClosed_closed]; split <;> simp_all
    have hc : (db₁.streams.get? commit).join = some s := by
      rw [hdb₁]; simpa using DB.retrieveStream_cached hr hheld
    rw [DB.rotate_of_cached (by simp [hst]) hc hs, DB.addClosed_of_mem _ _ hmem, hst]
    simp only [Option.isSome_none, Bool.false_eq_true, if_false]
    rw [← hst, ← hmo, ← hcur]
  · -- a fresh stream: the second `Rotate` finds it open, closes it and starts another
    exact DB.rotate_of_fresh rfl rfl rfl rfl

/-- From the state `NewDb` leaves over an empty directory, `Rotate(2, 0)` twice.
Kind: P -/
theorem rotate_twice_after_newDb :
    let db : DB := ⟨[], 1, 0, some StreamFile.empty, [], 10, [(1, .stream StreamFile.empty)], []⟩
    let db₁ : DB := ⟨[1], 2, 0, some StreamFile.empty, [], 10,
      [(1, .stream ⟨[], true⟩), (2, .stream StreamFile.empty)], []⟩
    (∀ s, db.stream = some s → s.closed = false) ∧ db.rotate 2 0 = .ok db₁ ∧
      db₁.rotate 2 0 = .ok (if db₁.stream.isSome then db₁.addClosed 2 else db₁) :=
  by
  intro db db₁
  have hopen : ∀ s, db.stream = some s → s.closed = false := fun s hs => by
    rw [← Option.some.inj (hs : some StreamFile.empty = some s)]; rfl
  exact ⟨hopen, rfl, @rotate_twice db db₁ 2 0 hopen rfl⟩

/-- Right after `NewDb` over an empty directory, `Rotate(2, 0)` once leaves closed `[1]`, and
twice leaves closed `[1, 2]`, with 2 both current and closed.
Source: src/cmd/esdb-reader.go `DB.Rotate`
Kind: P -/
theorem rotate_twice_closes_fresh_stream :
    (newDbRotating [] [2]).toOption.map DB.closed = some [1] ∧
      (newDbRotating [] [2, 2]).toOption.map DB.closed = some [1, 2] := by
  refine ⟨?_, ?_⟩
  · decide
  · decide

/-! ## A crash inside a header -/

/-- `NewDb` over an empty directory creates `events.1.stream` holding only the 11-byte header.
A crash after the file was created and two bytes of the header written leaves `"es"`;
`NewDb` over that directory opens the file in `Rotate(1, 0)`, fails with `CorruptedHeader`, and
that error is fatal.
Source: src/cmd/esdb-reader.go `NewDb`, `DB.Rotate`, `DB.retrieveStream`; src/cluster/rotate_command.go `scan`
Kind: P -/
theorem newDb_fatal_on_torn_header :
    (newDb [] []).toOption.map DB.files = some [(1, .stream StreamFile.empty)] ∧
      newDb [(1, .corrupt [101, 115])] [] = .error .corruptedHeader :=
  ⟨by decide, rfl⟩

end Esdb.Cluster
