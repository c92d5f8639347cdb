import MiniJam.Lib.Collections

/-!
# `MiniJam.Lib.Framing`: encodings that can be read off the front

An encoding is self-delimiting when what it writes can be told from what follows it. Fields
that are self-delimiting can be put one after the other and be read again, one by one; that
is how the injectivity of a structure's encoding is shown.

Values of one length are self-delimiting (`of_length`), so is a value with its length in
front of it (`framed`), and a list with the number of its entries in front, when its entries
are (`counted`). The length is written by a parameter that has to be readable up to a bound.
-/

set_option autoImplicit false

namespace Framing

variable {α α' β : Type}

/-- What is written can be told from what follows it. -/
def SelfDelimiting (enc : α → List β) : Prop :=
  ∀ a b r s, enc a ++ r = enc b ++ s → a = b ∧ r = s

namespace SelfDelimiting

variable {enc : α → List β}

theorem injective (h : SelfDelimiting enc) : Function.Injective enc := by
  intro a b heq
  have hnil : enc a ++ [] = enc b ++ [] := by rw [heq]
  exact (h a b [] [] hnil).1

/-- A value that is not the only one has an encoding that is not empty. -/
theorem ne_nil (h : SelfDelimiting enc) {a b : α} (hne : a ≠ b) : enc a ≠ [] := by
  intro hnil
  have heq : enc a ++ enc b = enc b ++ [] := by rw [hnil, List.nil_append, List.append_nil]
  exact hne (h a b (enc b) [] heq).1

theorem of_length (n : Nat) (hlength : ∀ a, (enc a).length = n)
    (hinj : Function.Injective enc) : SelfDelimiting enc := by
  intro a b r s heq
  obtain ⟨hfield, hrest⟩ := List.append_inj heq (by rw [hlength, hlength])
  exact ⟨hinj hfield, hrest⟩

/-- As many entries on both sides. -/
theorem flatMap (h : SelfDelimiting enc) {xs ys : List α} (hlength : xs.length = ys.length)
    {r s : List β} (heq : xs.flatMap enc ++ r = ys.flatMap enc ++ s) : xs = ys ∧ r = s := by
  induction xs generalizing ys with
  | nil =>
    cases ys with
    | nil => exact ⟨rfl, heq⟩
    | cons y ys => cases hlength
  | cons x xs ih =>
    cases ys with
    | nil => cases hlength
    | cons y ys =>
      rw [List.flatMap_cons, List.flatMap_cons, List.append_assoc, List.append_assoc] at heq
      obtain ⟨rfl, htail⟩ := h _ _ _ _ heq
      obtain ⟨rfl, hrest⟩ := ih (Nat.succ.inj hlength) htail
      exact ⟨rfl, hrest⟩

end SelfDelimiting

section
variable {count : Nat → List β} {bound : Nat}

/-- Numbers up to the bound are written so that they can be read again. -/
def ReadableUpTo (count : Nat → List β) (bound : Nat) : Prop :=
  ∀ m n r s, m ≤ bound → n ≤ bound → count m ++ r = count n ++ s → m = n ∧ r = s

theorem ReadableUpTo.mono {bound' : Nat} (h : ReadableUpTo count bound) (hle : bound' ≤ bound) :
    ReadableUpTo count bound' :=
  fun m n r s hm hn => h m n r s (hm.trans hle) (hn.trans hle)

variable {enc : α → List β}

/-- A value behind its length. -/
theorem framed (hcount : ReadableUpTo count bound) (hlength : ∀ a, (enc a).length ≤ bound)
    (hinj : Function.Injective enc) : SelfDelimiting fun a => count (enc a).length ++ enc a := by
  intro a b r s heq
  rw [List.append_assoc, List.append_assoc] at heq
  obtain ⟨hsame, heq⟩ := hcount _ _ _ _ (hlength a) (hlength b) heq
  obtain ⟨hfield, hrest⟩ := List.append_inj heq hsame
  exact ⟨hinj hfield, hrest⟩

/-- A list behind the number of its entries. -/
theorem counted (hcount : ReadableUpTo count bound) (henc : SelfDelimiting enc) :
    SelfDelimiting fun v : BoundedVec α bound => count v.toList.length ++ v.toList.flatMap enc := by
  intro a b r s heq
  rw [List.append_assoc, List.append_assoc] at heq
  obtain ⟨hsame, heq⟩ := hcount _ _ _ _ a.length_le b.length_le heq
  obtain ⟨hlist, hrest⟩ := henc.flatMap hsame heq
  exact ⟨Subtype.ext hlist, hrest⟩

end

end Framing
