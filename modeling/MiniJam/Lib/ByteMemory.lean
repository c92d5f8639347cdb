import MiniJam.Lib.Scale

/-!
# `MiniJam.Lib.ByteMemory`: a memory of bytes

A memory has addresses below a limit. An address may be readable, and then has a byte, and it
may be writable. An address that is writable and has no byte is one that nobody has written
yet: to read it is as wrong as to read outside of the memory.

Ranges are read and written as a whole. A read of a range gives the bytes of its addresses
(`load_of_read`), a write makes it read back what was written (`read_of_write`) and leaves
every other address (`load_of_write_outside`).
-/

set_option autoImplicit false

structure ByteMemory (limit : Nat) where
  load : Nat → Option UInt8
  writable : Nat → Bool
  load_lt : ∀ a, load a ≠ none → a < limit
  writable_lt : ∀ a, writable a = true → a < limit

namespace ByteMemory

variable {limit : Nat} {m m' : ByteMemory limit} {a n i : Nat} {bytes : Bytes}

/-- Every address of the range has a byte. -/
def Readable (m : ByteMemory limit) (a n : Nat) : Prop := ∀ i < n, (m.load (a + i)).isSome = true

def Writable (m : ByteMemory limit) (a n : Nat) : Prop := ∀ i < n, m.writable (a + i) = true

instance : Decidable (m.Readable a n) := inferInstanceAs (Decidable (∀ i < n, _))

instance : Decidable (m.Writable a n) := inferInstanceAs (Decidable (∀ i < n, _))

/-- The bytes of a range. -/
def read (m : ByteMemory limit) (a : Nat) : Nat → Option Bytes
  | 0 => some []
  | n + 1 => do
    let b ← m.load a
    let rest ← m.read (a + 1) n
    some (b :: rest)

/-- Put bytes into a range that is writable. -/
def put (m : ByteMemory limit) (a : Nat) (bytes : Bytes) (h : m.Writable a bytes.length) :
    ByteMemory limit where
  load x := if a ≤ x ∧ x < a + bytes.length then bytes[x - a]? else m.load x
  writable := m.writable
  load_lt x hx := by
    split_ifs at hx with hin
    · have hwritable := h (x - a) (by omega)
      rw [show a + (x - a) = x by omega] at hwritable
      exact m.writable_lt x hwritable
    · exact m.load_lt x hx
  writable_lt := m.writable_lt

def write (m : ByteMemory limit) (a : Nat) (bytes : Bytes) : Option (ByteMemory limit) :=
  if h : m.Writable a bytes.length then some (m.put a bytes h) else none

/-- The memory with a range that nobody has written yet. -/
def forget (m : ByteMemory limit) (a n : Nat) : ByteMemory limit where
  load x := if a ≤ x ∧ x < a + n then none else m.load x
  writable := m.writable
  load_lt x hx := by
    split_ifs at hx
    · exact absurd rfl hx
    · exact m.load_lt x hx
  writable_lt := m.writable_lt

/-! ### Ranges -/

/-- A readable range is within the memory. -/
theorem Readable.add_le (h : m.Readable a n) (hn : 0 < n) : a + n ≤ limit := by
  have hlast := h (n - 1) (by omega)
  have hlt := m.load_lt (a + (n - 1)) (Option.isSome_iff_ne_none.mp hlast)
  omega

theorem Writable.add_le (h : m.Writable a n) (hn : 0 < n) : a + n ≤ limit := by
  have hlt := m.writable_lt _ (h (n - 1) (by omega))
  omega

theorem Writable.mono {k : Nat} (h : m.Writable a n) (hk : k ≤ n) : m.Writable a k :=
  fun i hi => h i (by omega)

theorem Writable.of_eq (h : m.Writable a n) (heq : m'.writable = m.writable) :
    m'.Writable a n := fun i hi => (congrFun heq _).trans (h i hi)

/-! ### Reads -/

/-- A read returns the bytes of its addresses. -/
theorem read_eq_some_iff : m.read a n = some bytes ↔
    bytes.length = n ∧ ∀ i < n, m.load (a + i) = bytes[i]? := by
  induction n generalizing a bytes with
  | zero => simp [read, eq_comm]
  | succ n ih =>
    rw [read]
    refine Option.bind_eq_some_iff.trans ?_
    constructor
    · rintro ⟨b, hb, h⟩
      obtain ⟨rest, hrest, h⟩ := Option.bind_eq_some_iff.mp h
      cases h
      obtain ⟨hlength, hload⟩ := ih.mp hrest
      refine ⟨by simp [hlength], fun i hi => ?_⟩
      cases i with
      | zero => exact hb
      | succ i =>
        have hnext := hload i (by omega)
        rwa [Nat.add_right_comm] at hnext
    · rintro ⟨hlength, hload⟩
      cases bytes with
      | nil => cases hlength
      | cons b rest =>
        refine ⟨b, hload 0 (by omega), Option.bind_eq_some_iff.mpr ⟨rest, ih.mpr ?_, rfl⟩⟩
        refine ⟨by simpa using hlength, fun i hi => ?_⟩
        have hnext := hload (i + 1) (by omega)
        rwa [← Nat.add_assoc, Nat.add_right_comm] at hnext

theorem length_of_read (h : m.read a n = some bytes) : bytes.length = n :=
  (read_eq_some_iff.mp h).1

/-- The bytes of a range that was read. -/
theorem load_of_read (h : m.read a n = some bytes) (hi : i < n) : m.load (a + i) = bytes[i]? :=
  (read_eq_some_iff.mp h).2 i hi

/-- What was read is readable. -/
theorem Readable.of_read (h : m.read a n = some bytes) : m.Readable a n := by
  intro i hi
  rw [load_of_read h hi, List.getElem?_eq_getElem (by rw [length_of_read h]; exact hi)]
  rfl

/-- A readable range can be read. -/
theorem Readable.exists_read (h : m.Readable a n) : ∃ bytes, m.read a n = some bytes := by
  refine ⟨(List.range n).map fun i => (m.load (a + i)).getD 0, read_eq_some_iff.mpr ⟨by simp, ?_⟩⟩
  intro i hi
  obtain ⟨b, hb⟩ := Option.isSome_iff_exists.mp (h i hi)
  simp [hi, hb]

/-! ### Writes -/

/-- A writable range is written. -/
theorem write_of_writable (h : m.Writable a bytes.length) :
    m.write a bytes = some (m.put a bytes h) := dif_pos h

theorem write_nil : ∃ m', m.write a [] = some m' ∧ ∀ x, m'.load x = m.load x := by
  have hnone : m.Writable a ([] : Bytes).length := fun i hi => absurd hi (Nat.not_lt_zero i)
  exact ⟨_, write_of_writable hnone, fun x => if_neg (by simp)⟩

/-- A write changes no permission. -/
theorem writable_of_write (h : m.write a bytes = some m') : m'.writable = m.writable := by
  unfold write at h
  split_ifs at h
  cases h
  rfl

/-- A write leaves what is outside of its range. -/
theorem load_of_write_outside (h : m.write a bytes = some m') {x : Nat}
    (hx : x < a ∨ a + bytes.length ≤ x) : m'.load x = m.load x := by
  unfold write at h
  split_ifs at h
  cases h
  exact if_neg (by omega)

theorem load_of_write (h : m.write a bytes = some m') (hi : i < bytes.length) :
    m'.load (a + i) = bytes[i]? := by
  unfold write at h
  split_ifs at h
  cases h
  have hin : a ≤ a + i ∧ a + i < a + bytes.length := by omega
  show (if a ≤ a + i ∧ a + i < a + bytes.length then bytes[a + i - a]? else _) = _
  rw [if_pos hin, Nat.add_sub_cancel_left]

/-- What was written is read back. -/
theorem read_of_write (h : m.write a bytes = some m') : m'.read a bytes.length = some bytes :=
  read_eq_some_iff.mpr ⟨rfl, fun _ hi => load_of_write h hi⟩

/-! ### Ranges nobody has written -/

theorem load_forget_outside {x : Nat} (hx : x < a ∨ a + n ≤ x) :
    (m.forget a n).load x = m.load x := if_neg (by omega)

end ByteMemory
