import MiniJam.Lib.JamNatural
import MiniJam.Sdk.Calls
import Mathlib.Data.UInt

/-!
# `MiniJam.Proofs.SdkNaturals`: the SDK reads natural numbers

`decode_fnencode` counts the one bits at the top of the first byte, up to eight, and refuses
eight. So it reads back every number that `MiniJam.Lib.JamNatural` writes in one of the forms of
one to eight bytes (`decodeFnencode_encode`), and it refuses the longest form
(`decodeFnencode_longest`): the numbers from `2 ^ 56` on do not come back
(`fnencode_roundTrips_iff`). A form that is cut off is refused without a read behind the end
(`decodeFnencode_short`).
-/

set_option autoImplicit false

namespace MiniJam.Sdk

open Scale JamNatural

variable {load : Nat → Option UInt8} {size offset x : Nat}

/-! ### The first byte -/

/-- What the code reads off the first byte of a form with fewer than eight bytes after it. -/
theorem leadingOnes_mark : ∀ l < 8, ∀ high < 2 ^ (7 - l),
    leadingOnes (UInt8.ofNat (mark l + high)) 8 0 = l ∧
    (UInt8.ofNat (mark l + high) &&& ((0x7f : UInt8) >>> UInt8.ofNat l)).toNat = high ∧
    (UInt8.ofNat (mark l + high) < 0x80 ↔ l = 0) := by
  decide +kernel

/-- The first byte of the longest form. -/
theorem mark_add_high (hx : x < 2 ^ 64) (hlong : 2 ^ 56 ≤ x) :
    UInt8.ofNat (mark (width x) + high x) = 0xff := by
  have hwidth : width x = 8 := by
    rcases width_cases x with ⟨hlt, -⟩ | ⟨heq, -⟩
    · exact absurd ((width_lt_iff x).mp hlt) (by omega)
    · exact heq
  have hhigh : high x = 0 := by
    rw [high, hwidth]
    exact Nat.div_eq_of_lt hx
  rw [hwidth, hhigh]
  rfl

theorem encode_zero (x : Nat) : (encode x)[0]? = some (UInt8.ofNat (mark (width x) + high x)) :=
  rfl

/-! ### The bytes after it -/

/-- The loop or-s the bytes that it reads into what it has. -/
theorem readLow_eq {bytes : Bytes} {i : Nat} (low : UInt64)
    (hload : ∀ j < bytes.length, load (offset + i + j) = bytes[j]?) :
    readLow load offset bytes.length i low = some (UInt64.orBytes i bytes low) := by
  induction bytes generalizing i low with
  | nil => rfl
  | cons b bytes ih =>
    have hfirst : load (offset + i) = some b := hload 0 (by simp)
    rw [List.length_cons, readLow, hfirst]
    refine ih _ fun j hj => ?_
    have hnext := hload (j + 1) (by simpa using hj)
    rwa [show offset + i + (j + 1) = offset + (i + 1) + j by omega] at hnext

/-! ### Whole numbers -/

/-- The first byte is there, so it is read. -/
theorem decodeFnencode_first {first : UInt8} (hoffset : offset < size)
    (hfirst : load offset = some first) :
    decodeFnencode load size offset =
      if first < 0x80 then some (offset + 1, some first.toUInt64)
      else if leadingOnes first 8 0 = 0 ∨ leadingOnes first 8 0 > 7 ∨
          size - (offset + 1) < leadingOnes first 8 0 then some (offset + 1, none)
      else (readLow load (offset + 1) (leadingOnes first 8 0) 0 0).bind fun low =>
        some (offset + 1 + leadingOnes first 8 0,
          some ((first &&& ((0x7f : UInt8) >>> UInt8.ofNat (leadingOnes first 8 0))).toUInt64 <<<
            UInt64.ofNat (8 * leadingOnes first 8 0) ||| low)) := by
  unfold decodeFnencode
  rw [if_neg (Nat.not_le.mpr hoffset), hfirst]
  rfl

/-- A number below `2 ^ 56` is read back, wherever it stands. -/
theorem decodeFnencode_encode (hx : x < 2 ^ 56)
    (hload : ∀ i < (encode x).length, load (offset + i) = (encode x)[i]?)
    (hsize : offset + (encode x).length ≤ size) :
    decodeFnencode load size offset =
      some (offset + (encode x).length, some (UInt64.ofNat x)) := by
  have hwidth := (width_lt_iff x).mpr hx
  have hhigh := high_lt hwidth
  obtain ⟨hones, hbits, hsmall⟩ := leadingOnes_mark _ hwidth _ hhigh
  have hvalue := high_add_leVal x
  rw [length_encode] at hload hsize ⊢
  have hfirst : load offset = some (UInt8.ofNat (mark (width x) + high x)) :=
    hload 0 (Nat.succ_pos _)
  rw [decodeFnencode_first (by omega) hfirst, hones]
  by_cases hzero : width x = 0
  · -- The byte is the number.
    rw [if_pos (hsmall.mpr hzero), hzero]
    have hbyte : high x = x := by rw [high, hzero, Nat.pow_zero, Nat.div_one]
    rw [hzero, hbyte] at hhigh
    refine congrArg (fun v => some (offset + 1, some v)) (UInt64.toNat_inj.mp ?_)
    rw [UInt8.toNat_toUInt64, UInt8.toNat_ofNat', UInt64.toNat_ofNat', hbyte, mark]
    omega
  · rw [if_neg (mt hsmall.mp hzero), if_neg (by omega)]
    have hbytes : (leBytes (width x) x).length = width x := length_leBytes _ _
    have hrest : ∀ j < (leBytes (width x) x).length,
        load (offset + 1 + 0 + j) = (leBytes (width x) x)[j]? := by
      intro j hj
      rw [hbytes] at hj
      have hnext := hload (j + 1) (by omega)
      rwa [show offset + (j + 1) = offset + 1 + 0 + j by omega] at hnext
    have hread : readLow load (offset + 1) (width x) 0 0 =
        some (UInt64.orBytes 0 (leBytes (width x) x) 0) := by
      have hall := readLow_eq 0 hrest
      rwa [hbytes] at hall
    rw [hread, Option.bind_some]
    have hlowValue : (UInt64.orBytes 0 (leBytes (width x) x) 0).toNat =
        leVal (leBytes (width x) x) := by
      rw [UInt64.toNat_orBytes (by decide) (by omega)]
      simp
    refine congrArg some (Prod.ext (by simp; omega) (congrArg some (UInt64.toNat_inj.mp ?_)))
    -- The bits of the first byte stand above the bytes after it.
    have hpow : 256 ^ width x = 2 ^ (8 * width x) := by rw [Nat.pow_mul]
    have hlowLt : (UInt64.orBytes 0 (leBytes (width x) x) 0).toNat < 2 ^ (8 * width x) := by
      rw [hlowValue, leVal_leBytes, ← hpow]
      exact Nat.mod_lt x (Nat.pow_pos (by decide))
    rw [hpow] at hvalue
    have hfits : (UInt8.ofNat (mark (width x) + high x) &&&
        ((0x7f : UInt8) >>> UInt8.ofNat (width x))).toUInt64.toNat * 2 ^ (8 * width x) <
          2 ^ 64 := by
      rw [UInt8.toNat_toUInt64, hbits]
      omega
    rw [UInt64.or_comm, UInt64.toNat_or_shiftLeft (by omega) hlowLt hfits, UInt8.toNat_toUInt64,
      hbits, hlowValue, UInt64.toNat_ofNat', Nat.mod_eq_of_lt (by omega)]
    rwa [Nat.add_comm]

/-- The longest form is refused. -/
theorem decodeFnencode_longest (hx : x < 2 ^ 64) (hlong : 2 ^ 56 ≤ x) (hoffset : offset < size)
    (hload : load offset = (encode x)[0]?) :
    decodeFnencode load size offset = some (offset + 1, none) := by
  rw [encode_zero, mark_add_high hx hlong] at hload
  rw [decodeFnencode_first hoffset hload]
  have hones : leadingOnes 0xff 8 0 = 8 := by decide
  rw [hones, if_neg (by decide), if_pos (by omega)]

/-- A form that is cut off is refused, and only what is there is read. -/
theorem decodeFnencode_short (hx : x < 2 ^ 64) {k : Nat} (hk : k < (encode x).length)
    (hload : ∀ i < k, load (offset + i) = (encode x)[i]?) :
    ∃ offset', decodeFnencode load (offset + k) offset = some (offset', none) := by
  cases k with
  | zero => exact ⟨offset, if_pos (Nat.le_refl offset)⟩
  | succ k =>
    have hfirst : load offset = (encode x)[0]? := hload 0 (Nat.succ_pos k)
    by_cases hlong : 2 ^ 56 ≤ x
    · exact ⟨_, decodeFnencode_longest hx hlong (by omega) hfirst⟩
    · have hwidth := (width_lt_iff x).mpr (Nat.not_le.mp hlong)
      obtain ⟨hones, -, hsmall⟩ := leadingOnes_mark _ hwidth _ (high_lt hwidth)
      rw [length_encode] at hk
      rw [encode_zero] at hfirst
      refine ⟨offset + 1, ?_⟩
      rw [decodeFnencode_first (by omega) hfirst, hones, if_neg (by rw [hsmall]; omega),
        if_pos (by omega)]

/-- An array of `size` bytes at the start of a buffer. -/
def arrayOf (buffer : Bytes) (size i : Nat) : Option UInt8 :=
  if i < size then buffer[i]? else none

theorem arrayOf_append (before after : Bytes) {code : Bytes} {i : Nat} (hi : i < code.length)
    (hsize : before.length + i < size) :
    arrayOf (before ++ code ++ after) size (before.length + i) = code[i]? := by
  unfold arrayOf
  rw [if_pos hsize, List.append_assoc, List.getElem?_append_right (by omega),
    Nat.add_sub_cancel_left, List.getElem?_append_left hi]

/-- The number comes back from its encoding, at any place of any buffer, and every encoding
that is cut off is refused. -/
def RoundTrips (x : UInt64) : Prop :=
  (∀ before after : Bytes,
    let buffer := before ++ encode x.toNat ++ after
    decodeFnencode (arrayOf buffer buffer.length) buffer.length before.length =
      some (before.length + (encode x.toNat).length, some x)) ∧
  ∀ (before after : Bytes) (k : Nat), k < (encode x.toNat).length →
    ∃ offset, decodeFnencode (arrayOf (before ++ encode x.toNat ++ after) (before.length + k))
      (before.length + k) before.length = some (offset, none)

/-- The numbers below `2 ^ 56` come back, and no others. -/
theorem fnencode_roundTrips_iff (x : UInt64) : RoundTrips x ↔ x < 2 ^ 56 := by
  have hx := x.toNat_lt
  have hbound : (2 ^ 56 : UInt64).toNat = 2 ^ 56 := by decide
  rw [UInt64.lt_iff_toNat_lt, hbound]
  constructor
  · rintro ⟨hback, -⟩
    -- From 2 ^ 56 on the code has nine bytes, which are not decoded.
    by_contra hlong
    have hfails := hback [] []
    dsimp only at hfails
    rw [decodeFnencode_longest hx (Nat.not_lt.mp hlong) (by simp) (by simp [arrayOf])] at hfails
    simp at hfails
  · intro hsmall
    refine ⟨fun before after => ?_, fun before after k hk => ?_⟩
    · intro buffer
      have hlength : buffer.length =
          before.length + (encode x.toNat).length + after.length := by
        rw [List.length_append, List.length_append]
      have hdecode : decodeFnencode (arrayOf buffer buffer.length) buffer.length before.length =
          some (before.length + (encode x.toNat).length, some (UInt64.ofNat x.toNat)) :=
        decodeFnencode_encode hsmall
          (fun i hi => arrayOf_append before after hi (by omega)) (by omega)
      rwa [UInt64.ofNat_toNat] at hdecode
    · exact decodeFnencode_short hx hk fun i hi =>
        arrayOf_append before after (by omega) (by omega)

/-- The first number that does not come back. -/
theorem fnencode_longest_refused : ¬ RoundTrips (2 ^ 56) ∧
    encode (2 ^ 56 : UInt64).toNat = [0xff, 0, 0, 0, 0, 0, 0, 0, 1] ∧
    decodeFnencode (arrayOf [0xff, 0, 0, 0, 0, 0, 0, 0, 1] 9) 9 0 = some (1, none) := by
  refine ⟨fun h => ?_, by decide +kernel, by decide +kernel⟩
  have hback := h.1 [] []
  revert hback
  decide +kernel

end MiniJam.Sdk
