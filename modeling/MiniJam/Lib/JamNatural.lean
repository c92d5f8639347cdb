import MiniJam.Lib.Scale

/-!
# `MiniJam.Lib.JamNatural`: the variable-length encoding of natural numbers

A number below `2 ^ 64` is written with one to nine bytes. The one bits at the top of the
first byte count the bytes that follow it. The bits below the zero after them are the high
bits of the number, and the bytes that follow are its low part, the lowest byte first. With
`l` bytes after the first there is room for numbers below `2 ^ (7 * (l + 1))`, up to `l = 7`.
The first byte of the longest form is all ones and has no bits of the number.
-/

set_option autoImplicit false

namespace JamNatural

open Scale

/-- The number of bytes after the first one. -/
def width (x : Nat) : Nat :=
  ((List.range 8).find? fun l => decide (x < 2 ^ (7 * (l + 1)))).getD 8

/-- `l` one bits at the top of a byte. -/
def mark (l : Nat) : Nat := 256 - 2 ^ (8 - l)

/-- The bits of the number in the first byte. -/
def high (x : Nat) : Nat := x / 256 ^ width x

def encode (x : Nat) : Bytes :=
  UInt8.ofNat (mark (width x) + high x) :: leBytes (width x) x

example : encode 0 = [0] ∧ encode 128 = [128, 128] ∧ encode (2 ^ 14) = [0xc0, 0, 0x40] ∧
    encode (2 ^ 56) = [0xff, 0, 0, 0, 0, 0, 0, 0, 1] := by decide

@[simp] theorem length_encode (x : Nat) : (encode x).length = width x + 1 := by
  simp [encode]

/-- The width is the first one that has room, if there is one. -/
theorem width_cases (x : Nat) :
    width x < 8 ∧ x < 2 ^ (7 * (width x + 1)) ∨ width x = 8 ∧ 2 ^ 56 ≤ x := by
  unfold width
  cases hfound : (List.range 8).find? fun l => decide (x < 2 ^ (7 * (l + 1))) with
  | some l =>
    have hroom := List.find?_some hfound
    have hrange := List.mem_range.mp (List.mem_of_find?_eq_some hfound)
    exact Or.inl ⟨hrange, of_decide_eq_true hroom⟩
  | none =>
    have hlast := List.find?_eq_none.mp hfound 7 (by decide)
    rw [decide_eq_true_iff, Nat.not_lt] at hlast
    exact Or.inr ⟨rfl, hlast⟩

/-- The longest form is for the numbers from `2 ^ 56` on. -/
theorem width_lt_iff (x : Nat) : width x < 8 ↔ x < 2 ^ 56 := by
  rcases width_cases x with ⟨hlt, hroom⟩ | ⟨heq, hlarge⟩
  · refine iff_of_true hlt (Nat.lt_of_lt_of_le hroom ?_)
    exact Nat.pow_le_pow_right (by decide) (by omega)
  · omega

/-- In the shorter forms the first byte has `7 - l` bits of the number. -/
theorem high_lt {x : Nat} (h : width x < 8) : high x < 2 ^ (7 - width x) := by
  have hroom : x < 2 ^ (7 * (width x + 1)) := by
    rcases width_cases x with ⟨-, hroom⟩ | ⟨heq, -⟩
    · exact hroom
    · omega
  rw [high, Nat.div_lt_iff_lt_mul (Nat.pow_pos (by decide))]
  calc x < 2 ^ (7 * (width x + 1)) := hroom
    _ = 2 ^ (7 - width x) * 2 ^ (8 * width x) := by
      rw [← Nat.pow_add]
      congr 1
      omega
    _ = 2 ^ (7 - width x) * 256 ^ width x := by rw [Nat.pow_mul]

/-- A number is its bits in the first byte and its bytes after it. -/
theorem high_add_leVal (x : Nat) :
    high x * 256 ^ width x + leVal (leBytes (width x) x) = x := by
  rw [leVal_leBytes, high]
  exact Nat.div_add_mod' x _

end JamNatural
