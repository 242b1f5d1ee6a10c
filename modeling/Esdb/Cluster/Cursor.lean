import Esdb.Cluster.DB

/-!
# Continuation cursors and the cross-file reads

* `formatUint`, `formatInt`, `ParseUint`, `ParseInt` — decimal printing as `fmt.Sprint` does
  it and `strconv.ParseUint(s, 10, 64)` / `strconv.ParseInt(s, 10, 64)` with their error
  results (a syntax error gives 0, an out-of-range value the bound).
* `buildContinuation`, `DB.parseContinuation`, `DB.Continuation` — the cursor `"commit:offset"`.
* `cursor_round_trip` — for every commit in `1 .. 2^64 - 1`, every int64 offset and either
  direction, `parseContinuation` reads the cursor back as the commit and offset it was built
  from (`parseUint_formatUint`, `parseInt_formatInt`, `splitColon_append`); the cursor is empty
  exactly for commit 0.
* `DB.Scan`, `DB.Iterate` — walk the files by `prev` (newest first, following each file's
  chain for the label) or by `next` (oldest first), calling the per-file reads of
  `Esdb.Cluster.StreamFile` until the scanner stops or no commit is left. The loops get fuel
  one more than the number of commits they can visit.
* `scan_cursor_restarts_file` — `Scan` returns the cursor `commit:0` when the scanner stops
  inside a file, so the next call starts again at that file's chain head: the event it stopped
  at comes back.
* `iterate_cursor_restarts_log` — `Iterate` that runs past the newest file returns the empty
  cursor, so the next call starts again at the oldest file.
-/

namespace Esdb.Cluster

open Esdb.Binary Esdb.Stream

/-! ## Decimal cursors -/

/-- The decimal digits of `n`, most significant first, for `fuel` above the number of digits.
Source: Go `fmt.Sprint` on an integer
Kind: D -/
def decimalDigits : Nat → Nat → List Char
  | 0, _ => []
  | fuel + 1, n =>
    (if n < 10 then [] else decimalDigits fuel (n / 10)) ++ [Char.ofNat (48 + n % 10)]

/-- `fmt.Sprint` of an unsigned integer.
Source: Go `fmt.Sprint`
Kind: D -/
def formatUint (n : Nat) : List Char := decimalDigits (n + 1) n

/-- `fmt.Sprint` of a signed integer: a minus sign before a negative one.
Source: Go `fmt.Sprint`
Kind: D -/
def formatInt (n : Int) : List Char :=
  if n < 0 then '-' :: formatUint n.natAbs else formatUint n.toNat

/-- `strconv.NumError`'s two causes.
Source: Go `strconv.ErrSyntax`, `strconv.ErrRange`
Kind: D -/
inductive NumError where
  | errSyntax
  | errRange
deriving DecidableEq, Repr

/-- The digit loop of `ParseUint(s, 10, 64)`: a byte that is not a digit is a syntax error
(value 0); a value that would pass `2^64 - 1` is a range error (value `2^64 - 1`).
Source: Go `strconv.ParseUint`
Kind: D -/
def parseUintLoop : List Char → Nat → Nat × Option NumError
  | [], n => (n, none)
  | c :: cs, n =>
    if '0' ≤ c ∧ c ≤ '9' then
      if (2 ^ 64 - 1) / 10 + 1 ≤ n then (2 ^ 64 - 1, some .errRange)
      else
        let n1 := n * 10 + (c.toNat - 48)
        if 2 ^ 64 - 1 < n1 then (2 ^ 64 - 1, some .errRange) else parseUintLoop cs n1
    else (0, some .errSyntax)

/-- `strconv.ParseUint(s, 10, 64)`: the value and the error; the empty string is a syntax
error.
Source: Go `strconv.ParseUint`
Kind: D -/
def parseUint (s : List Char) : Nat × Option NumError :=
  if s = [] then (0, some .errSyntax) else parseUintLoop s 0

/-- `strconv.ParseInt(s, 10, 64)`'s value: an optional sign, then `ParseUint`; a syntax error
gives 0, a magnitude past the int64 range the nearest bound.
Source: Go `strconv.ParseInt`
Kind: D -/
def parseInt (s : List Char) : Int :=
  let (neg, digits) := match s with
    | '+' :: rest => (false, rest)
    | '-' :: rest => (true, rest)
    | s => (false, s)
  if s = [] then 0
  else
    let (un, err) := parseUint digits
    if err = some .errSyntax then 0
    else if !neg ∧ 2 ^ 63 ≤ un then 2 ^ 63 - 1
    else if neg ∧ 2 ^ 63 < un then -2 ^ 63
    else if neg then -(un : Int) else un

/-- `strings.SplitN(s, ":", 2)` when it yields two parts: before and after the first colon.
Source: Go `strings.SplitN`
Kind: D -/
def splitColon : List Char → Option (List Char × List Char)
  | [] => none
  | c :: cs =>
    if c = ':' then some ([], cs) else (splitColon cs).map fun (a, b) => (c :: a, b)

/-- `buildContinuation(commit, offset)`: `"commit:offset"`, or `""` for commit 0.
Source: src/cmd/esdb-reader.go `buildContinuation`
Kind: D -/
def buildContinuation (commit : UInt64) (offset : Int) : String :=
  if commit > 0 then String.mk (formatUint commit.toNat ++ ':' :: formatInt offset) else ""

namespace DB

/-- `parseContinuation(continuation, reverse)`: by default `current`, or for a forward read the
first closed commit, at offset 0; a cursor with a colon gives its parsed commit and offset
(parse errors ignored).
Source: src/cmd/esdb-reader.go `DB.parseContinuation`
Kind: D -/
def parseContinuation (db : DB) (continuation : String) (reverse : Bool) : UInt64 × Int :=
  let commit := match reverse, db.closed with
    | false, c :: _ => c
    | _, _ => db.current
  if continuation = "" then (commit, 0)
  else match splitColon continuation.toList with
    | some (a, b) => (UInt64.ofNat (parseUint a).1, parseInt b)
    | none => (commit, 0)

/-- `Continuation(name, value)`: the current file at the label's chain head when the open
stream has one, else the newest closed commit below `MaxUint64` at offset 0.
Source: src/cmd/esdb-reader.go `DB.Continuation`
Kind: D -/
def continuation (db : DB) (name value : Bytes) : String :=
  match db.stream with
  | some s =>
    if s.first name value > 0 then buildContinuation db.current (s.first name value)
    else buildContinuation (db.prev maxUint64) 0
  | none => buildContinuation (db.prev maxUint64) 0

/-- The loop of `Scan`: while not stopped and `commit > 0`, fetch the file (with recovery),
scan its chain for the label from `offset`, record in `offset` the back-pointer of each event
passed and in `stopped` the scanner's refusal; when not stopped, step to `prev(commit)` at
offset 0. Returns the cache, commit, offset, events passed and `stopped`.
Source: src/cmd/esdb-reader.go `DB.Scan`
Kind: D -/
def scanLoop (recover : UInt64 → Except DBError (Option StreamFile)) (name value : Bytes)
    (scanner : List Event → Bool) :
    Nat → DB → UInt64 → Int → List Event →
      Option (Except DBError (DB × UInt64 × Int × List Event × Bool))
  | 0, _, _, _, _ => none
  | fuel + 1, db, commit, offset, seen =>
    if commit = 0 then some (.ok (db, commit, offset, seen, false))
    else match db.retrieveStream recover commit true with
      | .error e => some (.error e)
      | .ok (none, _) => some (.error .nilStream)
      | .ok (some s, db) =>
        match s.scanIndex name value offset scanner seen with
        | none => none
        | some (_, .error e) => some (.error e)
        | some (seen', .ok ()) =>
          let visited := seen'.drop seen.length
          let offset : Int := match visited.getLast? with
            | some e => (e.offsets.get? (label name value)).getD 0
            | none => offset
          if !visited.isEmpty && !scanner seen' then some (.ok (db, commit, offset, seen', true))
          else scanLoop recover name value scanner fuel db (db.prev commit) 0 seen'

/-- `Scan(name, value, continuation, scanner)`: from the cursor (default `current`), run the
loop; if it stopped where the chain ended, step back one commit; return the cursor
`commit:0`, with the events passed to the scanner (oldest call first) and the cache.
Source: src/cmd/esdb-reader.go `DB.Scan`
Kind: D -/
def scan (db : DB) (recover : UInt64 → Except DBError (Option StreamFile)) (name value : Bytes)
    (continuation : String) (scanner : List Event → Bool) :
    Option (Except DBError (String × List Event × DB)) :=
  let (commit, offset) := db.parseContinuation continuation true
  (scanLoop recover name value scanner (db.closed.length + 2) db commit offset []).map
    fun r => r.map fun (db', commit, offset, seen, stopped) =>
      let commit := if stopped ∧ offset = 0 then db'.prev commit else commit
      (buildContinuation commit 0, seen, db')

/-- The loop of `Iterate`: while not stopped and `commit > 0`, fetch the file (with recovery),
iterate it from `offset` (which takes the offset it returns), and when not stopped step to
`next(commit)` at offset 0.
Source: src/cmd/esdb-reader.go `DB.Iterate`
Kind: D -/
def iterateLoop (recover : UInt64 → Except DBError (Option StreamFile))
    (scanner : List Event → Bool) :
    Nat → DB → UInt64 → Int → List Event → Option (Except DBError (DB × UInt64 × Int × List Event))
  | 0, _, _, _, _ => none
  | fuel + 1, db, commit, offset, seen =>
    if commit = 0 then some (.ok (db, commit, offset, seen))
    else match db.retrieveStream recover commit true with
      | .error e => some (.error e)
      | .ok (none, _) => some (.error .nilStream)
      | .ok (some s, db) =>
        match s.iterate offset scanner seen with
        | none => none
        | some (_, .error e) => some (.error e)
        | some (seen', .ok offset) =>
          if !(seen'.drop seen.length).isEmpty && !scanner seen' then
            some (.ok (db, commit, offset, seen'))
          else iterateLoop recover scanner fuel db (db.next commit) 0 seen'

/-- `Iterate(continuation, scanner)`: from the cursor (default the first closed commit), run
the loop and return the cursor `commit:offset`, with the events passed to the scanner and the
cache.
Source: src/cmd/esdb-reader.go `DB.Iterate`
Kind: D -/
def iterate (db : DB) (recover : UInt64 → Except DBError (Option StreamFile))
    (continuation : String) (scanner : List Event → Bool) :
    Option (Except DBError (String × List Event × DB)) :=
  let (commit, offset) := db.parseContinuation continuation false
  (iterateLoop recover scanner (db.closed.length + 3) db commit offset []).map
    fun r => r.map fun (db', commit, offset, seen) => (buildContinuation commit offset, seen, db')

end DB

/-! ## The cursor round trip -/

/-- The character `fmt.Sprint` prints for a digit `k < 10` is a decimal digit of value `k`.
Source: Go `fmt.Sprint`, `strconv.ParseUint`
Kind: L -/
theorem digit_char {k : Nat} (hk : k < 10) :
    '0' ≤ Char.ofNat (48 + k) ∧ Char.ofNat (48 + k) ≤ '9' ∧ (Char.ofNat (48 + k)).toNat - 48 = k :=
  (by decide : ∀ j : Fin 10, '0' ≤ Char.ofNat (48 + j.val) ∧ Char.ofNat (48 + j.val) ≤ '9' ∧
    (Char.ofNat (48 + j.val)).toNat - 48 = j.val) ⟨k, hk⟩

/-- A printed number is decimal digits only.
Source: Go `fmt.Sprint`
Kind: L -/
theorem decimalDigits_digit : ∀ (fuel n : Nat), ∀ c ∈ decimalDigits fuel n, '0' ≤ c ∧ c ≤ '9'
  | 0, _, _, h => absurd h (List.not_mem_nil _)
  | fuel + 1, n, c, h => by
    simp only [decimalDigits, List.mem_append, List.mem_singleton] at h
    rcases h with h | rfl
    · split at h
      · exact absurd h (List.not_mem_nil _)
      · exact decimalDigits_digit fuel (n / 10) c h
    · exact (digit_char (Nat.mod_lt n (by decide))).imp_right And.left

/-- `formatUint` prints at least one digit.
Source: Go `fmt.Sprint`
Kind: L -/
theorem formatUint_ne_nil (n : Nat) : formatUint n ≠ [] := by
  simp [formatUint, decimalDigits]

/-- `ParseUint`'s loop reads the digits of any `n < 2^64` back as `n`: every prefix it has
accumulated is at most `n`, so no range check fires.
Source: Go `strconv.ParseUint`, `fmt.Sprint`
Kind: L -/
theorem parseUintLoop_decimalDigits : ∀ (fuel n : Nat) (cs : List Char), n < fuel →
    n ≤ 2 ^ 64 - 1 → parseUintLoop (decimalDigits fuel n ++ cs) 0 = parseUintLoop cs n
  | 0, _, _, h, _ => absurd h (Nat.not_lt_zero _)
  | fuel + 1, n, cs, hf, hn => by
    have hd := digit_char (Nat.mod_lt n (by decide))
    -- the digits of `n / 10` first, then the last digit
    have hprefix : parseUintLoop ((if n < 10 then [] else decimalDigits fuel (n / 10)) ++
        (Char.ofNat (48 + n % 10) :: cs)) 0 =
          parseUintLoop (Char.ofNat (48 + n % 10) :: cs) (n / 10) := by
      split
      · rename_i h; rw [Nat.div_eq_of_lt h]; rfl
      · exact parseUintLoop_decimalDigits fuel (n / 10) _ (by omega) (by omega)
    rw [decimalDigits, List.append_assoc, List.singleton_append, hprefix, parseUintLoop,
      if_pos ⟨hd.1, hd.2.1⟩, if_neg (by omega), hd.2.2, if_neg (by omega)]
    congr 1
    omega

/-- `strconv.ParseUint` inverts `fmt.Sprint` on every `uint64`.
Source: Go `strconv.ParseUint`, `fmt.Sprint`
Kind: L -/
theorem parseUint_formatUint {n : Nat} (hn : n ≤ 2 ^ 64 - 1) :
    parseUint (formatUint n) = (n, none) := by
  rw [parseUint, if_neg (formatUint_ne_nil n), formatUint, ← List.append_nil (decimalDigits _ n),
    parseUintLoop_decimalDigits _ n [] (Nat.lt_succ_self n) hn]
  rfl

/-- `strconv.ParseInt` inverts `fmt.Sprint` on every `int64`: a minus sign and the magnitude
(at most `2^63`), or the digits of a value below `2^63`.
Source: Go `strconv.ParseInt`, `fmt.Sprint`
Kind: L -/
theorem parseInt_formatInt {o : Int} (h1 : -2 ^ 63 ≤ o) (h2 : o < 2 ^ 63) :
    parseInt (formatInt o) = o := by
  unfold formatInt
  split
  · -- negative: the sign is read, then the magnitude
    simp only [parseInt, parseUint_formatUint (show o.natAbs ≤ 2 ^ 64 - 1 by omega)]
    rw [if_neg (List.cons_ne_nil _ _), if_neg nofun, if_neg (by simp), if_neg (by simp; omega),
      if_pos trivial]
    omega
  · -- non-negative: the first digit is no sign
    obtain ⟨c, cs, hcs⟩ : ∃ c cs, formatUint o.toNat = c :: cs :=
      List.exists_cons_of_ne_nil (formatUint_ne_nil _)
    have hc := decimalDigits_digit _ _ c (by rw [← formatUint, hcs]; exact List.mem_cons_self c cs)
    have hP := parseUint_formatUint (show o.toNat ≤ 2 ^ 64 - 1 by omega)
    have hplus : c ≠ '+' := fun h => absurd (h ▸ hc.1) (by decide)
    have hminus : c ≠ '-' := fun h => absurd (h ▸ hc.1) (by decide)
    rw [hcs] at hP ⊢
    simp [parseInt, hplus, hminus, hP]
    rw [if_neg (by omega)]
    exact sup_eq_left.mpr (by omega)

/-- `strings.SplitN(s, ":", 2)` splits at the first colon.
Source: Go `strings.SplitN`
Kind: L -/
theorem splitColon_append : ∀ {a : List Char} (b : List Char), (∀ c ∈ a, c ≠ ':') →
    splitColon (a ++ ':' :: b) = some (a, b)
  | [], _, _ => rfl
  | c :: a, b, h => by
    rw [List.cons_append, splitColon, if_neg (h c (List.mem_cons_self c a)),
      splitColon_append b fun x hx => h x (List.mem_cons_of_mem c hx)]
    rfl

/-- `buildContinuation` gives the empty cursor exactly for commit 0.
Source: src/cmd/esdb-reader.go `buildContinuation`
Kind: L -/
theorem buildContinuation_eq_empty_iff (commit : UInt64) (offset : Int) :
    buildContinuation commit offset = "" ↔ commit = 0 := by
  unfold buildContinuation
  split
  · rename_i hc
    refine ⟨fun h => absurd (congrArg String.data h) ?_, fun h => by subst h; exact absurd hc (by decide)⟩
    simp [formatUint_ne_nil]
  · rename_i hc
    exact ⟨fun _ => UInt64.toNat.inj (Nat.eq_zero_of_not_pos hc), fun _ => rfl⟩

/-- A cursor built from a commit in `1 .. 2^64 - 1` and an int64 offset parses back to them, in
either direction and whatever the `DB`.
Source: src/cmd/esdb-reader.go `buildContinuation`, `DB.parseContinuation`
Kind: L -/
theorem parseContinuation_buildContinuation (db : DB) (commit : UInt64) (offset : Int)
    (reverse : Bool) (hc : 0 < commit) (ho : -2 ^ 63 ≤ offset ∧ offset < 2 ^ 63) :
    db.parseContinuation (buildContinuation commit offset) reverse = (commit, offset) := by
  have hne : buildContinuation commit offset ≠ "" :=
    fun h => absurd ((buildContinuation_eq_empty_iff _ _).mp h ▸ hc) (by decide)
  have hcolon : ∀ c ∈ formatUint commit.toNat, c ≠ ':' := fun c hc' h =>
    absurd (h ▸ (decimalDigits_digit _ _ c hc').2) (by decide)
  unfold DB.parseContinuation
  simp only
  rw [if_neg hne]
  unfold buildContinuation
  rw [if_pos hc]
  show (match splitColon (formatUint commit.toNat ++ ':' :: formatInt offset) with
    | some (a, b) => (UInt64.ofNat (parseUint a).1, parseInt b)
    | none => _) = _
  rw [splitColon_append _ hcolon]
  simp only [parseUint_formatUint (Nat.le_pred_of_lt commit.toNat_lt_size),
    parseInt_formatInt ho.1 ho.2]
  exact Prod.ext (UInt64.toNat.inj (Nat.mod_eq_of_lt commit.toNat_lt_size)) rfl

/-- For every commit in `1 .. 2^64 - 1`, every int64 offset and either direction, parsing the
cursor `buildContinuation` gives returns the commit and the offset; and the cursor is empty
exactly when the commit is 0.
Source: src/cmd/esdb-reader.go `buildContinuation`, `DB.parseContinuation`
Kind: P -/
theorem cursor_round_trip (db : DB) (commit : UInt64) (offset : Int) (reverse : Bool)
    (hc : 0 < commit) (ho : -2 ^ 63 ≤ offset ∧ offset < 2 ^ 63) :
    db.parseContinuation (buildContinuation commit offset) reverse = (commit, offset) ∧
      ∀ c o, buildContinuation c o = "" ↔ c = 0 :=
  ⟨parseContinuation_buildContinuation db commit offset reverse hc ho,
    buildContinuation_eq_empty_iff⟩

/-- The extremes: commit `MaxUint64` with offset `-2^63`, read forward on a fresh `DB`.
Kind: P -/
theorem cursor_round_trip_extremes :
    0 < maxUint64 ∧ (-2 ^ 63 ≤ (-2 ^ 63 : Int) ∧ (-2 ^ 63 : Int) < 2 ^ 63) ∧
      ((⟨[], 1, 0, none, [], 10, [], []⟩ : DB).parseContinuation
          (buildContinuation maxUint64 (-2 ^ 63)) false = (maxUint64, -2 ^ 63) ∧
        ∀ c o, buildContinuation c o = "" ↔ c = 0) :=
  ⟨by decide, ⟨by decide, by decide⟩, cursor_round_trip _ _ _ _ (by decide) ⟨by decide, by decide⟩⟩

example : buildContinuation 12 (-3) = "12:-3" := by decide

/-! ## The cursors lose the resume position -/

/-- The state after `NewDb` over an empty directory and `Write(2, "a")`, `Write(3, "b")`,
`Write(4, "c")`, each with the index `u:1`.
Source: spec §8, scenario S1
Kind: D -/
def threeWrites : Except DBError DB := do
  let db ← newDb [] []
  let db ← db.write 2 [97] [([117], [49])] 100
  let db ← db.write 3 [98] [([117], [49])] 200
  db.write 4 [99] [([117], [49])] 300

/-- On `threeWrites`, `Scan("u", "1", "")` with a scanner that stops after its first event
passes `c` and returns `"1:0"` although the chain goes on at `b`; `Scan("u", "1", "1:0")` with
a scanner that never stops then passes `c`, `b`, `a`: `c` again, where the resumed scan should
pass `b`, `a`.
Source: src/cmd/esdb-reader.go `DB.Scan`, `DB.parseContinuation`
Kind: P -/
theorem scan_cursor_restarts_file :
    (threeWrites.toOption.bind fun db =>
      (db.scan (fun _ => .ok none) [117] [49] "" fun seen => decide (seen.length < 1)).bind
        Except.toOption).map (fun r => (r.1, r.2.1.map Event.data,
          ((r.2.2.scan (fun _ => .ok none) [117] [49] r.1 fun _ => true).bind Except.toOption).map
            fun r' => r'.2.1.map Event.data)) =
      some ("1:0", [[99]], some [[99], [98], [97]]) := by
  decide

/-- On `NewDb` over an empty directory and `Write(2, "a")`, `Iterate("")` with a scanner that
never stops passes `a` and, having run past the newest file, returns the cursor `""`; resuming
with that cursor passes `a` again, where a resumed read should pass nothing.
Source: src/cmd/esdb-reader.go `DB.Iterate`, `DB.next`, `buildContinuation`
Kind: P -/
theorem iterate_cursor_restarts_log :
    ((newDb [] [] >>= fun db => db.write 2 [97] [] 100).toOption.bind fun db =>
      (db.iterate (fun _ => .ok none) "" fun _ => true).bind Except.toOption).map
        (fun r => (r.1, r.2.1.map Event.data,
          ((r.2.2.iterate (fun _ => .ok none) r.1 fun _ => true).bind Except.toOption).map
            fun r' => r'.2.1.map Event.data)) =
      some ("", [[97]], some [[97]]) := by
  decide

end Esdb.Cluster
