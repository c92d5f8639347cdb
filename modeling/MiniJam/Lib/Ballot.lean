import Mathlib.Data.List.Count
import Mathlib.Tactic.Common

/-!
# `MiniJam.Lib.Ballot`: a ballot that the first threshold reached decides

Votes come one after the other, the latest first in the list. `true` supports, `false`
opposes. A ballot is decided by the first of two thresholds that is reached, and support is
looked at first. Later votes do not change the decision.

`Ballot.locked_accepted` finds in an accepted ballot the moment of its decision: a first part
of the votes with enough support, while the opposition was short of its threshold.

With fewer votes than the two thresholds together, both cannot be reached. Then the counts alone
decide, and the order of the votes does not matter (`Ballot.locked_perm`).
-/

set_option autoImplicit false

namespace Ballot

variable {supportThreshold opposeThreshold : Nat} {votes : List Bool}

/-- The decision the votes have locked: `some true` when they accept. -/
def locked (supportThreshold opposeThreshold : Nat) : List Bool → Option Bool
  | [] => none
  | vote :: earlier =>
    match locked supportThreshold opposeThreshold earlier with
    | some decision => some decision
    | none =>
      if supportThreshold ≤ (vote :: earlier).count true then some true
      else if opposeThreshold ≤ (vote :: earlier).count false then some false
      else none

/-- While a ballot is open, both sides are short of their thresholds, unless nobody has
voted. -/
theorem short_of_locked_none (h : locked supportThreshold opposeThreshold votes = none) :
    votes = [] ∨ votes.count true < supportThreshold ∧ votes.count false < opposeThreshold := by
  cases votes with
  | nil => exact Or.inl rfl
  | cons vote earlier =>
    right
    unfold locked at h
    split at h
    · cases h
    · split_ifs at h with hsupport hoppose
      exact ⟨Nat.not_le.mp hsupport, Nat.not_le.mp hoppose⟩

/-- An accepted ballot reached the support threshold before the opposition reached its own.
With an opposition threshold of zero, it did so without any opposition. -/
theorem locked_accepted (hthreshold : 1 ≤ supportThreshold)
    (h : locked supportThreshold opposeThreshold votes = some true) :
    ∃ later earlier, votes = later ++ earlier ∧ supportThreshold ≤ earlier.count true ∧
      earlier.count false < max opposeThreshold 1 := by
  induction votes with
  | nil => cases h
  | cons vote earlier ih =>
    unfold locked at h
    split at h
    · -- The decision is older than the latest vote.
      rename_i decision hdecision
      obtain ⟨later, first, hsplit, hsupport, hoppose⟩ := ih (hdecision.trans h)
      exact ⟨vote :: later, first, by rw [hsplit]; rfl, hsupport, hoppose⟩
    · rename_i hopen
      have hsupport : supportThreshold ≤ (vote :: earlier).count true := by
        by_contra hshort
        rw [if_neg hshort] at h
        split_ifs at h
        cases h
      refine ⟨[], vote :: earlier, rfl, hsupport, ?_⟩
      -- The latest vote was the supporting one that was missing.
      have hvote : vote = true ∧ earlier.count false < max opposeThreshold 1 := by
        rcases short_of_locked_none hopen with rfl | ⟨hshort, hoppose⟩
        · cases vote with
          | false => simp at hsupport; omega
          | true => exact ⟨rfl, by rw [List.count_nil]; omega⟩
        · cases vote with
          | false => simp at hsupport; omega
          | true => exact ⟨rfl, by omega⟩
      rw [hvote.1, List.count_cons_of_ne (by decide)]
      exact hvote.2

theorem count_true_add_false (votes : List Bool) :
    votes.count true + votes.count false = votes.length := by
  induction votes with
  | nil => rfl
  | cons vote votes ih =>
    cases vote with
    | true => simp; omega
    | false => simp; omega

/-- What the counts of a ballot decide when nothing was decided before. -/
def decided (supportThreshold opposeThreshold : Nat) (votes : List Bool) : Option Bool :=
  if supportThreshold ≤ votes.count true then some true
  else if opposeThreshold ≤ votes.count false then some false
  else none

/-- With fewer votes than the two thresholds together, the counts decide. -/
theorem locked_eq_decided (hshort : votes.length < supportThreshold + opposeThreshold)
    (hvotes : votes ≠ []) :
    locked supportThreshold opposeThreshold votes =
      decided supportThreshold opposeThreshold votes := by
  induction votes with
  | nil => exact absurd rfl hvotes
  | cons vote earlier ih =>
    rw [List.length_cons] at hshort
    -- A decision of the earlier votes stands, because its side only grows and the other side
    -- stays short.
    have hstands : ∀ decision, locked supportThreshold opposeThreshold earlier = some decision →
        decided supportThreshold opposeThreshold (vote :: earlier) = some decision := by
      intro decision hlocked
      have hnonempty : earlier ≠ [] := by
        rintro rfl
        cases hlocked
      rw [ih (by omega) hnonempty] at hlocked
      have hcount := count_true_add_false (vote :: earlier)
      have htrue := List.count_le_count_cons (a := true) (b := vote) (l := earlier)
      have hfalse := List.count_le_count_cons (a := false) (b := vote) (l := earlier)
      rw [List.length_cons] at hcount
      unfold decided at hlocked ⊢
      split_ifs at hlocked with hsupport hoppose
      · cases hlocked
        rw [if_pos (Nat.le_trans hsupport htrue)]
      · cases hlocked
        rw [if_neg (by omega), if_pos (Nat.le_trans hoppose hfalse)]
    unfold locked
    cases hlocked : locked supportThreshold opposeThreshold earlier with
    | some decision => exact (hstands decision hlocked).symm
    | none => rfl

/-- Then the order of the votes does not matter. -/
theorem locked_perm {votes' : List Bool}
    (hshort : votes.length < supportThreshold + opposeThreshold) (hperm : votes.Perm votes') :
    locked supportThreshold opposeThreshold votes =
      locked supportThreshold opposeThreshold votes' := by
  by_cases hvotes : votes = []
  · subst hvotes
    rw [List.nil_perm.mp hperm]
  · have hvotes' : votes' ≠ [] := fun hnil => hvotes (List.perm_nil.mp (hnil ▸ hperm))
    rw [locked_eq_decided hshort hvotes, locked_eq_decided (hperm.length_eq ▸ hshort) hvotes']
    unfold decided
    rw [hperm.count_eq, hperm.count_eq]

end Ballot
