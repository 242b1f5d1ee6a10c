import Mathlib.Data.List.Basic
import Mathlib.Algebra.Group.Nat.Basic
import Mathlib.Algebra.Group.Int

/-!
# Byte encodings: uvarints and little-endian fixed-width integers

The stream file format (§6 of the spec) is built from two primitive encodings. Both come from
the `binary` helper package, which `src/` does not contain, and from Go's `encoding/binary`:

* `putUvarint` / `readUvarint` — the unsigned varint of `binary.PutUvarint`: seven payload bits
  a byte, low group first, the high bit set on every byte but the last. Decoding what was
  encoded gives the number back and leaves the bytes after it (`readUvarint_putUvarint`); a
  proper prefix of an encoding is refused (`readUvarint_take_putUvarint`).
* `putUint` / `readUint` — `w`-byte little-endian unsigned integers, the int32 end-of-events
  sentinel and the int64 fields (`readUint_putUint`).

Go's decoder also refuses encodings of values past `2^64`; the model reads a varint of any
length, since every value the store writes (lengths, offsets, counts) fits in 64 bits.
-/

namespace Esdb.Binary

/-- A byte string: Go's `[]byte`, and also Go's `string`, which is a byte string too.
Source: Go `[]byte`
Kind: D -/
abbrev Bytes := List UInt8

/-- A byte read back as a number is the number mod 256.
Source: none: infrastructure
Kind: L -/
@[simp] theorem toNat_toUInt8 (n : Nat) : n.toUInt8.toNat = n % 256 := rfl

/-! ## Unsigned varints -/

/-- The loop of Go's `binary.PutUvarint`, `for x >= 0x80 { buf[i] = byte(x) | 0x80; x >>= 7 }`
then `buf[i] = byte(x)`, run for at most `fuel` rounds.
Source: Go `encoding/binary.PutUvarint`
Kind: D -/
def uvarintLoop : Nat → Nat → Bytes
  | 0, x => [x.toUInt8]
  | fuel + 1, x =>
    if x < 128 then [x.toUInt8] else (x % 128 + 128).toUInt8 :: uvarintLoop fuel (x / 128)

/-- `binary.PutUvarint`: the loop with fuel `x`, which it never uses up
(`putUvarint_eq`).
Source: Go `encoding/binary.PutUvarint`
Kind: D -/
def putUvarint (x : Nat) : Bytes := uvarintLoop x x

/-- `binary.Uvarint` / `binary.ReadUvarint`: the number at the start of the bytes and the bytes
after it, `none` when the bytes end inside it.
Source: Go `encoding/binary.Uvarint`
Kind: D -/
def readUvarint : Bytes → Option (Nat × Bytes)
  | [] => none
  | b :: rest =>
    if b.toNat < 128 then some (b.toNat, rest)
    else match readUvarint rest with
      | some (m, r) => some (b.toNat - 128 + 128 * m, r)
      | none => none

/-- Any fuel at least `x` gives the same bytes.
Source: none: infrastructure
Kind: L -/
theorem uvarintLoop_fuel : ∀ (f₁ f₂ : Nat) {x : Nat}, x ≤ f₁ → x ≤ f₂ →
    uvarintLoop f₁ x = uvarintLoop f₂ x
  | 0, 0, _, _, _ => rfl
  | 0, _ + 1, x, h, _ => by
    obtain rfl : x = 0 := by omega
    simp [uvarintLoop]
  | _ + 1, 0, x, _, h => by
    obtain rfl : x = 0 := by omega
    simp [uvarintLoop]
  | f₁ + 1, f₂ + 1, x, h₁, h₂ => by
    simp only [uvarintLoop]
    split
    · rfl
    · rw [uvarintLoop_fuel f₁ f₂ (by omega) (by omega)]

/-- The recursion of `putUvarint`, as `binary.PutUvarint` runs it.
Source: none: infrastructure
Kind: L -/
theorem putUvarint_eq (x : Nat) : putUvarint x =
    if x < 128 then [x.toUInt8] else (x % 128 + 128).toUInt8 :: putUvarint (x / 128) := by
  unfold putUvarint
  rcases x with _ | x
  · rfl
  · rw [uvarintLoop]
    split
    · rfl
    · rw [uvarintLoop_fuel x ((x + 1) / 128) (by omega) le_rfl]

theorem putUvarint_of_lt {x : Nat} (h : x < 128) : putUvarint x = [x.toUInt8] := by
  rw [putUvarint_eq, if_pos h]

theorem putUvarint_ne_nil (x : Nat) : putUvarint x ≠ [] := by
  rw [putUvarint_eq]; split <;> simp

theorem putUvarint_length_pos (x : Nat) : 0 < (putUvarint x).length :=
  List.length_pos.mpr (putUvarint_ne_nil x)

/-- Decoding what `putUvarint` wrote gives the number back and the bytes after it.
Source: Go `encoding/binary` round trip
Kind: L -/
theorem readUvarint_putUvarint (x : Nat) (rest : Bytes) :
    readUvarint (putUvarint x ++ rest) = some (x, rest) := by
  induction x using Nat.strongRecOn with
  | ind x ih =>
    rw [putUvarint_eq]
    split
    · simp [readUvarint, Nat.mod_eq_of_lt (by omega : x < 256), *]
    · have hb : (x % 128 + 128).toUInt8.toNat = x % 128 + 128 := by simp; omega
      simp only [List.cons_append, readUvarint, hb, List.append_eq, ih (x / 128) (by omega)]
      simp only [show ¬(x % 128 + 128 < 128) by omega, if_false, Option.some.injEq,
        Prod.mk.injEq, and_true]
      omega

/-- Bytes that all carry the continuation bit end inside a number: they are refused.
Source: Go `encoding/binary.Uvarint`
Kind: L -/
theorem readUvarint_of_all_continue :
    ∀ bs : Bytes, (∀ b ∈ bs, 128 ≤ b.toNat) → readUvarint bs = none
  | [], _ => rfl
  | b :: bs, h => by
    have hb := h b (List.mem_cons_self b bs)
    simp [readUvarint, show ¬(b.toNat < 128) by omega,
      readUvarint_of_all_continue bs fun c hc => h c (List.mem_cons_of_mem b hc)]

/-- Every byte of an encoding but the last carries the continuation bit.
Source: Go `encoding/binary.PutUvarint`
Kind: L -/
theorem continue_of_mem_take_putUvarint (x : Nat) :
    ∀ b ∈ (putUvarint x).take ((putUvarint x).length - 1), 128 ≤ b.toNat := by
  induction x using Nat.strongRecOn with
  | ind x ih =>
    rw [putUvarint_eq]
    split
    · simp
    · intro b hb
      have hne := putUvarint_length_pos (x / 128)
      rw [List.length_cons, Nat.add_sub_cancel, ← Nat.sub_add_cancel hne, List.take_succ_cons,
        List.mem_cons] at hb
      rcases hb with rfl | hb
      · simp; omega
      · exact ih (x / 128) (by omega) b hb

/-- A proper prefix of an encoding is refused.
Source: Go `encoding/binary.Uvarint`
Kind: L -/
theorem readUvarint_take_putUvarint {x j : Nat} (hj : j < (putUvarint x).length) :
    readUvarint ((putUvarint x).take j) = none := by
  have hpre : (putUvarint x).take j =
      ((putUvarint x).take ((putUvarint x).length - 1)).take j := by
    rw [List.take_take, min_eq_left (by omega)]
  refine readUvarint_of_all_continue _ fun b hb => continue_of_mem_take_putUvarint x b ?_
  exact List.mem_of_mem_take (hpre ▸ hb)

/-- What `readUvarint` leaves is a suffix of what it was given, shorter by at least one.
Source: none: infrastructure
Kind: L -/
theorem readUvarint_rest : ∀ {bs rest : Bytes} {x : Nat}, readUvarint bs = some (x, rest) →
    ∃ pre, pre ≠ [] ∧ bs = pre ++ rest
  | [], _, _, h => by simp [readUvarint] at h
  | b :: bs, rest, x, h => by
    simp only [readUvarint] at h
    split at h
    · obtain ⟨-, rfl⟩ := Prod.mk.inj (Option.some.inj h)
      exact ⟨[b], by simp, rfl⟩
    · split at h
      · rename_i m r hr
        obtain ⟨-, rfl⟩ := Prod.mk.inj (Option.some.inj h)
        obtain ⟨pre, -, rfl⟩ := readUvarint_rest hr
        exact ⟨b :: pre, by simp, rfl⟩
      · simp at h

/-! ## Little-endian fixed-width integers -/

/-- The `w` low bytes of `x`, least significant first: `binary.LittleEndian.PutUintN`.
Source: Go `encoding/binary.LittleEndian`
Kind: D -/
def putUint : Nat → Nat → Bytes
  | 0, _ => []
  | w + 1, x => (x % 256).toUInt8 :: putUint w (x / 256)

/-- A `w`-byte little-endian unsigned integer and the bytes after it; `none` when fewer than
`w` bytes are left.
Source: Go `encoding/binary.LittleEndian`
Kind: D -/
def readUint : Nat → Bytes → Option (Nat × Bytes)
  | 0, bs => some (0, bs)
  | _ + 1, [] => none
  | w + 1, b :: bs => (readUint w bs).map fun (m, r) => (b.toNat + 256 * m, r)

@[simp] theorem putUint_length (w x : Nat) : (putUint w x).length = w := by
  induction w generalizing x <;> simp [putUint, *]

/-- Reading back `w` little-endian bytes gives the value mod `256^w`.
Source: Go `encoding/binary.LittleEndian` round trip
Kind: L -/
theorem readUint_putUint (w x : Nat) (rest : Bytes) :
    readUint w (putUint w x ++ rest) = some (x % 256 ^ w, rest) := by
  induction w generalizing x with
  | zero => simp [readUint, putUint, Nat.mod_one]
  | succ w ih =>
    simp only [putUint, List.cons_append, readUint, List.append_eq, ih, Option.map_some',
      toNat_toUInt8, Nat.mod_mod]
    rw [Nat.pow_succ', Nat.mod_mul]

/-- Modelled from the spec: `binary.WriteInt32`, whose package is absent from `src/`; §6 says
the file format is little-endian throughout, so four bytes, two's complement.
Kind: D -/
def putInt32 (x : Int) : Bytes := putUint 4 (x % 2 ^ 32).toNat

/-- Modelled from the spec: `binary.WriteInt64`, whose package is absent from `src/`; eight
little-endian bytes, two's complement (§6, "int64 little-endian").
Kind: D -/
def putInt64 (x : Int) : Bytes := putUint 8 (x % 2 ^ 64).toNat

end Esdb.Binary
