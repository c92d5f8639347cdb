import MiniJam.Lib.Scale

/-!
# `MiniJam.Lib.Hex`: bytes as hexadecimal text

Two ASCII digits stand for a byte, the high half first. A text is read in either case and
written in lower case. `decode_encode` is the round trip, and `isSome_decode` says which texts
are read.
-/

set_option autoImplicit false

namespace Hex

/-- `0` to `9`, `a` to `f`, `A` to `F`. -/
def IsDigit (c : UInt8) : Prop :=
  (0x30 ≤ c ∧ c ≤ 0x39) ∨ (0x61 ≤ c ∧ c ≤ 0x66) ∨ (0x41 ≤ c ∧ c ≤ 0x46)

instance : DecidablePred IsDigit := fun c => by
  unfold IsDigit
  infer_instance

/-- The value of a digit. -/
def digit (c : UInt8) : Option UInt8 :=
  if 0x30 ≤ c ∧ c ≤ 0x39 then some (c - 0x30)
  else if 0x61 ≤ c ∧ c ≤ 0x66 then some (c - 0x61 + 10)
  else if 0x41 ≤ c ∧ c ≤ 0x46 then some (c - 0x41 + 10)
  else none

/-- The bytes of a text. -/
def decode : Bytes → Option Bytes
  | [] => some []
  | [_] => none
  | high :: low :: rest => do
    let high ← digit high
    let low ← digit low
    let bytes ← decode rest
    some ((high * 16 + low) :: bytes)

/-- The digit of a value below 16, in lower case. -/
def lower (n : UInt8) : UInt8 := if n < 10 then 0x30 + n else 0x61 + (n - 10)

/-- The text of bytes. -/
def encode (bytes : Bytes) : Bytes := bytes.flatMap fun b => [lower (b / 16), lower (b % 16)]

/-! ### Digits -/

theorem isSome_digit (c : UInt8) : (digit c).isSome ↔ IsDigit c := by
  unfold digit IsDigit
  split
  · simp_all
  · split
    · simp_all
    · split <;> simp_all

/-- A fact about a byte holds when it holds of each of the 256 bytes. -/
theorem forall_byte {P : UInt8 → Prop} (h : ∀ n < 256, P (UInt8.ofNat n)) (b : UInt8) : P b := by
  have hb := h b.toNat b.toNat_lt
  rwa [UInt8.ofNat_toNat] at hb

theorem digit_lt {c n : UInt8} (h : digit c = some n) : n < 16 := by
  have hall : ∀ c : UInt8, ∀ n ∈ digit c, n < 16 := forall_byte (by decide +kernel)
  exact hall c n h

theorem digit_lower : ∀ n : UInt8, n < 16 → digit (lower n) = some n :=
  forall_byte (by decide +kernel)

/-- A byte and its halves. -/
theorem halves : ∀ b : UInt8, b / 16 < 16 ∧ b % 16 < 16 ∧ b / 16 * 16 + b % 16 = b :=
  forall_byte (by decide +kernel)

/-- The halves of a byte may be put together by a shift. -/
theorem shift_or {high low : UInt8} (hhigh : high < 16) (hlow : low < 16) :
    high <<< 4 ||| low = high * 16 + low := by
  have hall : ∀ high < 16, ∀ low < 16,
      UInt8.ofNat high <<< 4 ||| UInt8.ofNat low = UInt8.ofNat high * 16 + UInt8.ofNat low := by
    decide +kernel
  have h := hall high.toNat hhigh low.toNat hlow
  rwa [UInt8.ofNat_toNat, UInt8.ofNat_toNat] at h

/-! ### Texts -/

/-- What is written is read back. -/
theorem decode_encode (bytes : Bytes) : decode (encode bytes) = some bytes := by
  induction bytes with
  | nil => rfl
  | cons b bytes ih =>
    obtain ⟨hhigh, hlow, hbyte⟩ := halves b
    show decode (lower (b / 16) :: lower (b % 16) :: encode bytes) = some (b :: bytes)
    rw [decode, digit_lower _ hhigh, digit_lower _ hlow, ih]
    simp [hbyte]

/-- The texts that are read: an even number of digits. -/
theorem isSome_decode (text : Bytes) :
    (decode text).isSome ↔ text.length % 2 = 0 ∧ ∀ c ∈ text, IsDigit c := by
  fun_induction decode text with
  | case1 => simp
  | case2 c => simp
  | case3 high low rest ih =>
    have hlength : (high :: low :: rest).length % 2 = rest.length % 2 :=
      Nat.add_mod_right rest.length 2
    rw [hlength, List.forall_mem_cons, List.forall_mem_cons, ← isSome_digit, ← isSome_digit]
    -- All three parts are read, or the text is not.
    cases digit high <;> cases digit low <;> cases hrest : decode rest <;>
      simp_all

theorem decode_of_odd {text : Bytes} (hodd : ¬ text.length % 2 = 0) : decode text = none := by
  rw [← Option.not_isSome_iff_eq_none, isSome_decode]
  intro h
  exact hodd h.1

end Hex
