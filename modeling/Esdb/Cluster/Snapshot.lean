import Esdb.Cluster.DB

/-!
# Snapshots: `Save` and `Recovery`

The blob is `int64 current | int64 MostRecent | uvarint n | n × int64 closed-commit` (§6).

* `toInt64`, `ofInt64` — Go's `int64(c)` on a `uint64` and `uint64(i)` on an `int64`;
  `ofInt64_toInt64` — every commit in `0 .. 2^64 - 1` survives the trip through `int64`.
* `readInt64_putInt64` — an int64 written little-endian reads back.
* `DB.Save`, `DB.Recovery` — as in the source: `Recovery` calls `setCurrent` and then
  `addClosed` for each saved commit, so it adds to the `closed` list the receiving `DB` already
  has (`recoverClosed_save`).
* `recovery_restores_into_empty` — into a `DB` with no closed commits, `Recovery(Save())`
  gives back `current`, `MostRecent` and `closed`.
* `recovery_appends_to_closed` — into a `DB` with closed commits `[1, 5]`, a snapshot with
  closed commits `[1, 2]` leaves `[1, 5, 2]`.
-/

namespace Esdb.Cluster

open Esdb.Binary Esdb.Stream

/-- `int64(c)`: the same 64 bits read as a two's complement integer.
Source: Go conversion `int64(uint64)`
Kind: D -/
def toInt64 (c : UInt64) : Int := if c.toNat < 2 ^ 63 then c.toNat else (c.toNat : Int) - 2 ^ 64

/-- `uint64(i)`: the 64 bits of an int64 read as unsigned.
Source: Go conversion `uint64(int64)`
Kind: D -/
def ofInt64 (i : Int) : UInt64 := UInt64.ofNat (i % 2 ^ 64).toNat

/-- Modelled from the spec: `binary.ReadInt64`, absent from `src/`: eight little-endian bytes
as a two's complement int64 (§6); the model reads 0 and consumes the rest when fewer than
eight bytes are left.
Kind: D -/
def readInt64 (bs : Bytes) : Int × Bytes :=
  match readUint 8 bs with
  | some (v, rest) => (if v < 2 ^ 63 then v else (v : Int) - 2 ^ 64, rest)
  | none => (0, [])

/-- Modelled from the spec: `binary.ReadUvarint`, absent from `src/`; the model reads 0 and
consumes the rest on a varint cut short.
Kind: D -/
def readUvarintOr0 (bs : Bytes) : Nat × Bytes := (readUvarint bs).getD (0, [])

namespace DB

/-- `Save()`: `current` and `MostRecent` as int64s, the number of closed commits as a uvarint,
then each closed commit as an int64.
Source: src/cmd/esdb-reader.go `DB.Save`
Kind: D -/
def save (db : DB) : Bytes :=
  putInt64 (toInt64 db.current) ++ putInt64 db.mostRecent ++ putUvarint db.closed.length ++
    (db.closed.map fun c => putInt64 (toInt64 c)).flatten

/-- The loop of `Recovery`: `count` times, read an int64 and `addClosed` it.
Source: src/cmd/esdb-reader.go `DB.Recovery`
Kind: D -/
def recoverClosed : Nat → DB → Bytes → DB
  | 0, db, _ => db
  | count + 1, db, b =>
    let (c, b) := readInt64 b
    recoverClosed count (db.addClosed (ofInt64 c)) b

/-- `Recovery(b)`: `setCurrent` to the first int64, take `MostRecent` from the second, then
`addClosed` each of the counted int64s (a count past the `int` range runs no rounds).
Source: src/cmd/esdb-reader.go `DB.Recovery`
Kind: D -/
def recovery (db : DB) (b : Bytes) : DB :=
  let (cur, b) := readInt64 b
  let db := db.setCurrent (ofInt64 cur)
  let (mr, b) := readInt64 b
  let db := { db with mostRecent := mr }
  let (count, b) := readUvarintOr0 b
  recoverClosed (if count < 2 ^ 63 then count else 0) db b

end DB

/-! ## Round trips -/

/-- Every `uint64` survives `uint64(int64(c))`.
Source: src/cmd/esdb-reader.go `DB.Save`, `DB.Recovery`
Kind: L -/
theorem ofInt64_toInt64 (c : UInt64) : ofInt64 (toInt64 c) = c := by
  have hc : c.toNat < 2 ^ 64 := c.toNat_lt_size
  refine UInt64.toNat.inj ?_
  show (toInt64 c % 2 ^ 64).toNat % UInt64.size = c.toNat
  rw [show UInt64.size = 2 ^ 64 from rfl]
  unfold toInt64
  split <;> omega

/-- `int64(c)` is in the int64 range.
Source: Go conversion `int64(uint64)`
Kind: L -/
theorem toInt64_range (c : UInt64) : -2 ^ 63 ≤ toInt64 c ∧ toInt64 c < 2 ^ 63 := by
  have hc : c.toNat < 2 ^ 64 := c.toNat_lt_size
  unfold toInt64
  split <;> omega

/-- An int64 written as eight little-endian bytes reads back, with the bytes after it.
Source: spec §6
Kind: L -/
theorem readInt64_putInt64 {x : Int} (h : -2 ^ 63 ≤ x ∧ x < 2 ^ 63) (rest : Bytes) :
    readInt64 (putInt64 x ++ rest) = (x, rest) := by
  simp only [readInt64, putInt64, readUint_putUint]
  have : (x % 2 ^ 64).toNat % 256 ^ 8 = (x % 2 ^ 64).toNat := Nat.mod_eq_of_lt (by omega)
  rw [this]
  split <;> simp only [Prod.mk.injEq, and_true] <;> omega

/-- `Recovery`'s loop over the closed commits of a `Save` adds them in order: the ones already
in `closed`, and repeats, are skipped.
Source: src/cmd/esdb-reader.go `DB.Recovery`, `DB.addClosed`
Kind: L -/
theorem recoverClosed_save : ∀ (l : List UInt64) (db : DB) (rest : Bytes),
    DB.recoverClosed l.length db ((l.map fun c => putInt64 (toInt64 c)).flatten ++ rest) =
      l.foldl DB.addClosed db
  | [], _, _ => rfl
  | c :: l, db, rest => by
    simp only [List.length_cons, List.map_cons, List.flatten_cons, List.append_assoc,
      DB.recoverClosed, readInt64_putInt64 (toInt64_range c), ofInt64_toInt64, List.foldl_cons]
    exact recoverClosed_save l _ rest

/-- `addClosed` rounds change only `closed`.
Source: src/cmd/esdb-reader.go `DB.addClosed`
Kind: L -/
theorem foldl_addClosed : ∀ (l : List UInt64) (db : DB),
    l.foldl DB.addClosed db =
      { db with closed := l.foldl (fun cl c => if c ∈ cl then cl else cl ++ [c]) db.closed }
  | [], _ => rfl
  | c :: l, db => by
    rw [List.foldl_cons, foldl_addClosed l, List.foldl_cons]
    unfold DB.addClosed
    split <;> rfl

/-- Adding commits that are new and distinct appends them.
Source: src/cmd/esdb-reader.go `DB.addClosed`
Kind: L -/
theorem foldl_addClosed_closed : ∀ (l : List UInt64) (db : DB), l.Nodup →
    (∀ c ∈ l, c ∉ db.closed) → (l.foldl DB.addClosed db).closed = db.closed ++ l
  | [], _, _, _ => by simp
  | c :: l, db, hnd, hnew => by
    rw [List.nodup_cons] at hnd
    have hc : c ∉ db.closed := hnew c (List.mem_cons_self c l)
    rw [List.foldl_cons, foldl_addClosed_closed l _ hnd.2 ?_]
    · simp [hc]
    · intro x hx
      simp only [DB.addClosed_closed, hc, if_false, List.mem_append, List.mem_singleton, not_or]
      exact ⟨hnew x (List.mem_cons_of_mem c hx), fun h => hnd.1 (h ▸ hx)⟩

/-- `Recovery(Save())` is `setCurrent` to `S`'s current commit, `S`'s `MostRecent`, and
`addClosed` of each of `S`'s closed commits.
Source: src/cmd/esdb-reader.go `DB.Save`, `DB.Recovery`
Kind: L -/
theorem recovery_save_state (S T : DB) (hM : -2 ^ 63 ≤ S.mostRecent ∧ S.mostRecent < 2 ^ 63)
    (hlen : S.closed.length < 2 ^ 63) :
    T.recovery S.save =
      S.closed.foldl DB.addClosed { T.setCurrent S.current with mostRecent := S.mostRecent } := by
  simp only [DB.recovery, DB.save, List.append_assoc, readInt64_putInt64 (toInt64_range _),
    readInt64_putInt64 hM, ofInt64_toInt64, readUvarintOr0, readUvarint_putUvarint,
    Option.getD_some, hlen, if_true]
  rw [← List.append_nil (List.flatten _), recoverClosed_save]

/-- What `Recovery(Save())` leaves: `S`'s current commit and `MostRecent`, and `T`'s closed
commits followed by `S`'s that `T` lacks.
Source: src/cmd/esdb-reader.go `DB.Save`, `DB.Recovery`
Kind: L -/
theorem recovery_save (S T : DB) (hM : -2 ^ 63 ≤ S.mostRecent ∧ S.mostRecent < 2 ^ 63)
    (hlen : S.closed.length < 2 ^ 63) :
    (T.recovery S.save).current = S.current ∧ (T.recovery S.save).mostRecent = S.mostRecent ∧
      (T.recovery S.save).closed = (S.closed.foldl DB.addClosed T).closed := by
  rw [recovery_save_state S T hM hlen, foldl_addClosed, foldl_addClosed]
  exact ⟨rfl, rfl, rfl⟩

/-- Into a `DB` with no closed commits (such as a fresh one), `Recovery(Save())` of a `DB` whose
closed commits are distinct restores its current commit, `MostRecent` and closed commits.
Source: src/cmd/esdb-reader.go `DB.Save`, `DB.Recovery`
Kind: P -/
theorem recovery_restores_into_empty {S T : DB} (hT : T.closed = []) (hS : S.closed.Nodup)
    (hM : -2 ^ 63 ≤ S.mostRecent ∧ S.mostRecent < 2 ^ 63) (hlen : S.closed.length < 2 ^ 63) :
    (T.recovery S.save).current = S.current ∧ (T.recovery S.save).mostRecent = S.mostRecent ∧
      (T.recovery S.save).closed = S.closed := by
  obtain ⟨h1, h2, h3⟩ := recovery_save S T hM hlen
  refine ⟨h1, h2, ?_⟩
  rw [h3, foldl_addClosed_closed _ _ hS (by simp [hT]), hT, List.nil_append]

/-- A snapshot of a `DB` with closed commits `[1, 2]`, current 3 and `MostRecent` 200, recovered
into a fresh `DB`.
Kind: P -/
theorem recovery_restores_into_empty_fresh :
    let S : DB := ⟨[1, 2], 3, 200, none, [], 10, [], []⟩
    let T : DB := ⟨[], 1, 0, some StreamFile.empty, [], 10, [(1, .stream StreamFile.empty)], []⟩
    T.closed = [] ∧ S.closed.Nodup ∧ (-2 ^ 63 ≤ S.mostRecent ∧ S.mostRecent < 2 ^ 63) ∧
      S.closed.length < 2 ^ 63 ∧
      ((T.recovery S.save).current = S.current ∧ (T.recovery S.save).mostRecent = S.mostRecent ∧
        (T.recovery S.save).closed = S.closed) :=
  ⟨rfl, by decide, by decide, by decide,
    recovery_restores_into_empty rfl (by decide) (by decide) (by decide)⟩

/-- `T`: `NewDb` over an empty directory, `Rotate(5)`, `Rotate(6)` — closed `[1, 5]`. `S`: the
same with `Rotate(2)`, `Rotate(3)` — closed `[1, 2]`, current 3. `T.Recovery(S.Save())` takes
`S`'s current commit but leaves closed `[1, 5, 2]`: it keeps `T`'s commit 5, which `S` does
not have, and the list is no longer in increasing order.
Source: src/cmd/esdb-reader.go `DB.Recovery`, `DB.addClosed`
Kind: P -/
theorem recovery_appends_to_closed :
    (newDbRotating [] [5, 6]).toOption.map DB.closed = some [1, 5] ∧
      (newDbRotating [] [2, 3]).toOption.map DB.closed = some [1, 2] ∧
      ((newDbRotating [] [5, 6]).toOption.bind fun t => (newDbRotating [] [2, 3]).toOption.map
        fun s => ((t.recovery s.save).current, (t.recovery s.save).closed)) = some (3, [1, 5, 2]) := by
  refine ⟨?_, ?_, ?_⟩
  · decide
  · decide
  · rfl

end Esdb.Cluster
