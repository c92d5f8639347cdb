import Mathlib.Algebra.GroupWithZero.Nat
import Mathlib.Data.List.Basic
import Mathlib.Data.Vector.Basic
import Mathlib.Tactic.Common

/-!
# `MiniJam.Lib.Scale`: bytes, fixed-width integers and the SCALE encoding

Bytes are lists of `UInt8`, and an array of `n` bytes is Mathlib's `List.Vector`. The SCALE
encoding of a fixed-width integer is its little-endian bytes, of an array its bytes, of a
structure its fields in order. A vector or a slice has its length in front, in the compact
form.

`leVal_leBytes` is the round trip of fixed-width integers; `decodeLe_append` is the form
a decoder of a structure uses, one field at a time.

The saturating additions at the end are those of the fixed-width counters.
-/

set_option autoImplicit false

/-- A byte string. -/
abbrev Bytes : Type := List UInt8

/-- An array of `n` bytes. -/
abbrev FixedBytes (n : Nat) : Type := List.Vector UInt8 n

namespace FixedBytes

variable {n : Nat}

/-- `n` copies of one byte. -/
def fill (n : Nat) (b : UInt8) : FixedBytes n := List.Vector.replicate n b

/-- A byte string of the right length as an array. -/
def tryFrom (bytes : Bytes) : Option (FixedBytes n) :=
  if h : bytes.length = n then some ⟨bytes, h⟩ else none

/-- The bytes as numbers, the form in which arrays are compared. -/
def key (v : FixedBytes n) : List Nat := v.toList.map UInt8.toNat

theorem key_injective : Function.Injective (key : FixedBytes n → List Nat) := by
  intro v w h
  have hinj : Function.Injective UInt8.toNat := fun a b => UInt8.toNat_inj.mp
  exact List.Vector.toList_injective (List.map_injective_iff.mpr hinj h)

end FixedBytes

namespace Scale

/-- The `n` little-endian bytes of a number. -/
def leBytes : Nat → Nat → Bytes
  | 0, _ => []
  | n + 1, x => UInt8.ofNat (x % 256) :: leBytes n (x / 256)

/-- The number a little-endian byte string stands for. -/
def leVal : Bytes → Nat
  | [] => 0
  | b :: bs => b.toNat + 256 * leVal bs

@[simp] theorem length_leBytes (n x : Nat) : (leBytes n x).length = n := by
  induction n generalizing x with
  | zero => rfl
  | succ n ih => simp [leBytes, ih]

/-- Each byte by its place. -/
theorem leBytes_eq_ofFn (n x : Nat) :
    leBytes n x = List.ofFn fun i : Fin n => UInt8.ofNat (x / 256 ^ i.val) := by
  induction n generalizing x with
  | zero => rfl
  | succ n ih =>
    have hbyte : UInt8.ofNat (x % 256) = UInt8.ofNat x := by
      apply UInt8.toNat_inj.mp
      simp
    rw [leBytes, ih, List.ofFn_succ, hbyte]
    simp [Nat.pow_succ', Nat.div_div_eq_div_mul]

/-- The value of the little-endian bytes of a number. -/
theorem leVal_leBytes (n x : Nat) : leVal (leBytes n x) = x % 256 ^ n := by
  induction n generalizing x with
  | zero => simp [leBytes, leVal, Nat.mod_one]
  | succ n ih =>
    have hbyte : (UInt8.ofNat (x % 256)).toNat = x % 256 := by
      simp
    rw [leBytes, leVal, ih, hbyte, Nat.pow_succ', Nat.mod_mul]

/-- Split off the `n` bytes of a fixed-width integer. -/
def decodeLe (n : Nat) (bs : Bytes) : Option (Nat × Bytes) :=
  if n ≤ bs.length then some (leVal (bs.take n), bs.drop n) else none

/-- A number is read back from the front. -/
theorem decodeLe_append (n x : Nat) (bs : Bytes) (hx : x < 256 ^ n) :
    decodeLe n (leBytes n x ++ bs) = some (x, bs) := by
  unfold decodeLe
  rw [if_pos (by simp), List.take_append_of_le_length (by simp),
    List.drop_append_of_le_length (by simp), List.take_of_length_le (by simp),
    List.drop_of_length_le (by simp), leVal_leBytes, Nat.mod_eq_of_lt hx, List.nil_append]

/-- The encoding of a fixed-width integer. -/
def encodeU8 (x : UInt8) : Bytes := [x]
@[inherit_doc encodeU8] def encodeU16 (x : UInt16) : Bytes := leBytes 2 x.toNat
@[inherit_doc encodeU8] def encodeU32 (x : UInt32) : Bytes := leBytes 4 x.toNat
@[inherit_doc encodeU8] def encodeU64 (x : UInt64) : Bytes := leBytes 8 x.toNat

@[simp] theorem length_encodeU64 (x : UInt64) : (encodeU64 x).length = 8 := length_leBytes 8 _

@[simp] theorem length_encodeU32 (x : UInt32) : (encodeU32 x).length = 4 := length_leBytes 4 _

theorem encodeU64_injective : Function.Injective encodeU64 := by
  intro x y h
  have hx : x.toNat < 256 ^ 8 := x.toNat_lt
  have hy : y.toNat < 256 ^ 8 := y.toNat_lt
  have hvalue := congrArg leVal h
  unfold encodeU64 at hvalue
  rw [leVal_leBytes, leVal_leBytes, Nat.mod_eq_of_lt hx, Nat.mod_eq_of_lt hy] at hvalue
  exact UInt64.toNat_inj.mp hvalue

/-- The compact encoding of a number: one, two or four bytes with the mode in the two low
bits, or a byte that counts the little-endian bytes after it. -/
def compact (n : Nat) : Bytes :=
  if n < 2 ^ 6 then leBytes 1 (n * 4)
  else if n < 2 ^ 14 then leBytes 2 (n * 4 + 1)
  else if n < 2 ^ 30 then leBytes 4 (n * 4 + 2)
  else
    let width := max 4 ((Nat.log2 n + 8) / 8)
    leBytes 1 ((width - 4) * 4 + 3) ++ leBytes width n

/-- The encoding of a byte vector: its length, then its bytes. -/
def encodeBytes (bs : Bytes) : Bytes := compact bs.length ++ bs

end Scale

/-! ### Words from bytes -/

/-- Bits that are put above those of a word are added to it. -/
theorem UInt64.toNat_or_shiftLeft {low high : UInt64} {k : Nat} (hk : k < 64)
    (hlow : low.toNat < 2 ^ k) (hfits : high.toNat * 2 ^ k < 2 ^ 64) :
    (low ||| high <<< UInt64.ofNat k).toNat = low.toNat + high.toNat * 2 ^ k := by
  have hshift : (UInt64.ofNat k).toNat % 64 = k := by
    rw [UInt64.toNat_ofNat', Nat.mod_eq_of_lt (a := k) (by omega), Nat.mod_eq_of_lt hk]
  rw [UInt64.toNat_or, UInt64.toNat_shiftLeft, hshift, Nat.shiftLeft_eq, Nat.mod_eq_of_lt hfits,
    Nat.or_comm, Nat.mul_comm, ← Nat.two_pow_add_eq_or_of_lt hlow, Nat.add_comm]

/-- Bytes that are or-ed into a word one after the other, from the `i`-th place on. -/
def UInt64.orBytes : (i : Nat) → Bytes → (low : UInt64) → UInt64
  | _, [], low => low
  | i, b :: bytes, low => orBytes (i + 1) bytes (low ||| b.toUInt64 <<< UInt64.ofNat (8 * i))

/-- Each byte is added at its place. -/
theorem UInt64.toNat_orBytes {bytes : Bytes} {i : Nat} {low : UInt64}
    (hlow : low.toNat < 256 ^ i) (hroom : i + bytes.length ≤ 8) :
    (UInt64.orBytes i bytes low).toNat = low.toNat + 256 ^ i * Scale.leVal bytes := by
  induction bytes generalizing i low with
  | nil => simp [UInt64.orBytes, Scale.leVal]
  | cons b bytes ih =>
    rw [List.length_cons] at hroom
    have hb := b.toNat_lt
    have hpow : 256 ^ i = 2 ^ (8 * i) := by rw [Nat.pow_mul]
    have hfits : b.toUInt64.toNat * 2 ^ (8 * i) < 2 ^ 64 := by
      rw [UInt8.toNat_toUInt64]
      calc b.toNat * 2 ^ (8 * i) < 2 ^ 8 * 2 ^ (8 * i) :=
            Nat.mul_lt_mul_of_pos_right hb (Nat.two_pow_pos _)
        _ = 2 ^ (8 + 8 * i) := by rw [Nat.pow_add]
        _ ≤ 2 ^ 64 := Nat.pow_le_pow_right (by decide) (by omega)
    -- The bits are disjoint, so the disjunction is the sum.
    have hword : (low ||| b.toUInt64 <<< UInt64.ofNat (8 * i)).toNat =
        low.toNat + b.toNat * 256 ^ i := by
      rw [UInt64.toNat_or_shiftLeft (by omega) (hpow ▸ hlow) hfits, UInt8.toNat_toUInt64, hpow]
    have hnext : (low ||| b.toUInt64 <<< UInt64.ofNat (8 * i)).toNat < 256 ^ (i + 1) := by
      have hmul : b.toNat * 256 ^ i ≤ 255 * 256 ^ i := Nat.mul_le_mul_right _ (by omega)
      rw [hword, Nat.pow_succ]
      omega
    rw [UInt64.orBytes, ih hnext (by omega), hword, Scale.leVal, Nat.pow_succ, Nat.mul_add,
      Nat.mul_assoc, Nat.mul_comm b.toNat, Nat.add_assoc]

/-! ### Saturating counters -/

/-- The largest value of a 32-bit counter. -/
def u32Max : Nat := 2 ^ 32 - 1

/-- Addition on a 32-bit counter kept as a number. -/
def satAdd32 (a b : Nat) : Nat := min (a + b) u32Max

/-- Saturating addition of 32-bit integers. -/
def UInt32.satAdd (a b : UInt32) : UInt32 := UInt32.ofNat (min (a.toNat + b.toNat) u32Max)

/-- A saturating addition stops at the maximum. -/
theorem UInt32.toNat_satAdd (a b : UInt32) :
    (a.satAdd b).toNat = min (a.toNat + b.toNat) u32Max := by
  unfold UInt32.satAdd
  rw [UInt32.toNat_ofNat_of_lt']
  simp only [u32Max, UInt32.size]
  omega

/-- A saturating addition does not go down. -/
theorem UInt32.le_satAdd (a b : UInt32) : a ≤ a.satAdd b := by
  rw [UInt32.le_iff_toNat_le, UInt32.toNat_satAdd]
  have := a.toNat_lt
  unfold u32Max
  omega

/-- Addition of a positive number goes up, except from the largest one. -/
theorem UInt32.satAdd_le_self_iff (a b : UInt32) :
    a.satAdd b ≤ a ↔ b = 0 ∨ a.toNat = u32Max := by
  have hle : a.toNat ≤ u32Max := Nat.le_pred_of_lt a.toNat_lt
  rw [UInt32.le_iff_toNat_le, UInt32.toNat_satAdd, ← UInt32.toNat_inj, UInt32.toNat_zero]
  omega

theorem UInt32.satAdd_le_satAdd {a b : UInt32} (h : a ≤ b) (c : UInt32) :
    a.satAdd c ≤ b.satAdd c := by
  rw [UInt32.le_iff_toNat_le] at h ⊢
  rw [UInt32.toNat_satAdd, UInt32.toNat_satAdd]
  omega

/-- Saturating addition of 64-bit integers. -/
def UInt64.satAdd (a b : UInt64) : UInt64 :=
  UInt64.ofNat (min (a.toNat + b.toNat) (2 ^ 64 - 1))

/-- Below the largest value a saturating increment adds one. -/
theorem UInt64.toNat_satAdd_one {a : UInt64} (h : a.toNat < 2 ^ 64 - 1) :
    (a.satAdd 1).toNat = a.toNat + 1 := by
  have hone : (1 : UInt64).toNat = 1 := rfl
  unfold UInt64.satAdd
  rw [UInt64.toNat_ofNat_of_lt' (by simp only [UInt64.size]; omega), hone]
  omega

/-- Saturating addition of bytes. -/
def UInt8.satAdd (a b : UInt8) : UInt8 := UInt8.ofNat (min (a.toNat + b.toNat) 255)

/-- Addition of 64-bit integers, when it does not overflow. -/
def UInt64.checkedAdd (a b : UInt64) : Option UInt64 :=
  if a.toNat + b.toNat < 2 ^ 64 then some (a + b) else none

theorem UInt64.toNat_of_checkedAdd {a b c : UInt64} (h : a.checkedAdd b = some c) :
    c.toNat = a.toNat + b.toNat := by
  unfold UInt64.checkedAdd at h
  split_ifs at h with hfits
  cases h
  rw [UInt64.toNat_add]
  omega

theorem UInt64.lt_of_checkedAdd {a b : UInt64} (h : a.checkedAdd 1 = some b) : a < b := by
  have hvalue := UInt64.toNat_of_checkedAdd h
  have hone : (1 : UInt64).toNat = 1 := rfl
  rw [UInt64.lt_iff_toNat_lt]
  omega

/-- A saturating increment below a bound is a proper increment. -/
theorem UInt8.toNat_satAdd_one {a b : UInt8} (h : a.satAdd 1 < b) :
    (a.satAdd 1).toNat = a.toNat + 1 := by
  have hb : b.toNat < 256 := b.toNat_lt
  have hone : (1 : UInt8).toNat = 1 := rfl
  have hvalue : (a.satAdd 1).toNat = min (a.toNat + 1) 255 := by
    unfold UInt8.satAdd
    rw [UInt8.toNat_ofNat_of_lt' (by simp only [UInt8.size]; omega), hone]
  rw [UInt8.lt_iff_toNat_lt] at h
  omega

theorem UInt8.lt_satAdd_one {a b : UInt8} (h : a.satAdd 1 < b) : a < a.satAdd 1 := by
  rw [UInt8.lt_iff_toNat_lt, UInt8.toNat_satAdd_one h]
  omega
