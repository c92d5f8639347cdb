import Mathlib.Algebra.Group.Nat.Defs
import Mathlib.Tactic.Common

/-!
# `MiniJam.Lib.Fungible`: balances with holds

The interface of a currency whose accounts have a free balance and balances on hold under
reasons. The ledger is a type of the currency's own. Nothing is assumed about when an
operation fails. `LawfulCurrency` states what a successful operation does to the holds:

* `hold` raises one hold by the amount, `release` (exact) lowers it by the amount;
* `slash` takes from one hold as much of the amount as is there, and returns what it took
  as a credit and what it could not take as the remainder;
* `resolve` and `transfer` move free balance and touch no hold.
-/

set_option autoImplicit false

/-- An amount of the currency. -/
abbrev Balance : Type := Nat

/-- The largest balance, a 128-bit integer. -/
def balanceMax : Balance := 2 ^ 128 - 1

/-- Saturating addition of balances. -/
def Balance.satAdd (a b : Balance) : Balance := min (a + b) balanceMax

/-- Additions saturate together. -/
theorem Balance.satAdd_min (a b : Balance) :
    Balance.satAdd (min a balanceMax) b = min (a + b) balanceMax := by
  show (min (min a balanceMax + b) balanceMax : Nat) = min (a + b) balanceMax
  omega

/-- A fraction in parts per billion. -/
abbrev Perbill : Type := { parts : Nat // parts ≤ 1000000000 }

/-- The part of an amount, rounded down. -/
def Perbill.mulFloor (p : Perbill) (x : Balance) : Balance := x * p.val / 1000000000

/-- A part is not more than the whole. -/
theorem Perbill.mulFloor_le (p : Perbill) (x : Balance) : p.mulFloor x ≤ x := by
  unfold Perbill.mulFloor
  apply Nat.div_le_of_le_mul
  rw [Nat.mul_comm 1000000000 x]
  exact Nat.mul_le_mul_left x p.property

/-- The part of more is more by the difference at most. -/
theorem Perbill.mulFloor_add_le (p : Perbill) (x d : Balance) :
    p.mulFloor (x + d) ≤ p.mulFloor x + d := by
  unfold Perbill.mulFloor
  have hparts : (x + d) * p.val ≤ x * p.val + d * 1000000000 := by
    rw [Nat.add_mul]
    exact Nat.add_le_add_left (Nat.mul_le_mul_left d p.property) _
  calc (x + d) * p.val / 1000000000
      ≤ (x * p.val + d * 1000000000) / 1000000000 := Nat.div_le_div_right hparts
    _ = x * p.val / 1000000000 + d := Nat.add_mul_div_right _ _ (by decide)

/-- The operations of a currency over the ledger `L`. -/
structure Currency (Account Reason L : Type) where
  balance : L → Account → Balance
  balanceOnHold : L → Reason → Account → Balance
  hold : Reason → Account → Balance → L → Option L
  release : Reason → Account → Balance → L → Option L
  slash : Reason → Account → Balance → L → Balance × Balance × L
  resolve : Account → Balance → L → Option L
  transfer : Account → Account → Balance → L → Option L

/-- What a currency's operations do to the balances on hold. -/
structure LawfulCurrency {Account Reason L : Type} (c : Currency Account Reason L) : Prop where
  /-- A hold adds the amount to one hold. -/
  hold_same : ∀ r a x l l', c.hold r a x l = some l' →
    c.balanceOnHold l' r a = c.balanceOnHold l r a + x
  hold_other : ∀ r a x l l', c.hold r a x l = some l' → ∀ r' a', (r', a') ≠ (r, a) →
    c.balanceOnHold l' r' a' = c.balanceOnHold l r' a'
  /-- An exact release takes the amount from one hold. -/
  release_same : ∀ r a x l l', c.release r a x l = some l' →
    c.balanceOnHold l' r a + x = c.balanceOnHold l r a
  release_other : ∀ r a x l l', c.release r a x l = some l' → ∀ r' a', (r', a') ≠ (r, a) →
    c.balanceOnHold l' r' a' = c.balanceOnHold l r' a'
  /-- A slash takes as much of the amount as the hold has. -/
  slash_credit : ∀ r a x l, (c.slash r a x l).1 = min x (c.balanceOnHold l r a)
  slash_remainder : ∀ r a x l, (c.slash r a x l).2.1 = x - (c.slash r a x l).1
  slash_same : ∀ r a x l,
    c.balanceOnHold (c.slash r a x l).2.2 r a + (c.slash r a x l).1 = c.balanceOnHold l r a
  slash_other : ∀ r a x l r' a', (r', a') ≠ (r, a) →
    c.balanceOnHold (c.slash r a x l).2.2 r' a' = c.balanceOnHold l r' a'
  /-- A credit is resolved into free balance. -/
  resolve_holds : ∀ a x l l', c.resolve a x l = some l' →
    c.balanceOnHold l' = c.balanceOnHold l
  /-- A transfer moves free balance. -/
  transfer_holds : ∀ a b x l l', c.transfer a b x l = some l' →
    c.balanceOnHold l' = c.balanceOnHold l

section Holds
variable {Account Reason L : Type} [DecidableEq Account] {c : Currency Account Reason L}
  {r : Reason} {a : Account} {x : Balance} {l l' : L}

/-- The holds after a `hold`. -/
theorem LawfulCurrency.hold_eq (hc : LawfulCurrency c) (h : c.hold r a x l = some l') :
    c.balanceOnHold l' r =
      Function.update (c.balanceOnHold l r) a (c.balanceOnHold l r a + x) := by
  refine Function.eq_update_iff.mpr ⟨hc.hold_same r a x l l' h, fun a' ha => ?_⟩
  exact hc.hold_other r a x l l' h r a' fun heq => ha (congrArg Prod.snd heq)

theorem LawfulCurrency.release_eq (hc : LawfulCurrency c) (h : c.release r a x l = some l') :
    c.balanceOnHold l' r =
      Function.update (c.balanceOnHold l r) a (c.balanceOnHold l r a - x) := by
  refine Function.eq_update_iff.mpr ⟨?_, fun a' ha => ?_⟩
  · exact Nat.eq_sub_of_add_eq (hc.release_same r a x l l' h)
  · exact hc.release_other r a x l l' h r a' fun heq => ha (congrArg Prod.snd heq)

theorem LawfulCurrency.slash_eq (hc : LawfulCurrency c) (r : Reason) (a : Account) (x : Balance)
    (l : L) :
    c.balanceOnHold (c.slash r a x l).2.2 r =
      Function.update (c.balanceOnHold l r) a (c.balanceOnHold l r a - (c.slash r a x l).1) := by
  refine Function.eq_update_iff.mpr ⟨?_, fun a' ha => ?_⟩
  · exact Nat.eq_sub_of_add_eq (hc.slash_same r a x l)
  · exact hc.slash_other r a x l r a' fun heq => ha (congrArg Prod.snd heq)

end Holds

/-! ### A reference currency -/

/-- A ledger that keeps the free and the held balances as functions. -/
structure Book (Account Reason : Type) where
  free : Account → Balance
  held : Reason → Account → Balance

namespace Book

variable {Account Reason : Type} [DecidableEq Account] [DecidableEq Reason]

/-- Set one free balance. -/
def setFree (l : Book Account Reason) (a : Account) (x : Balance) : Book Account Reason :=
  { l with free := fun a' => if a' = a then x else l.free a' }

/-- Set one held balance. -/
def setHeld (l : Book Account Reason) (r : Reason) (a : Account) (x : Balance) :
    Book Account Reason :=
  { l with held := fun r' a' => if (r', a') = (r, a) then x else l.held r' a' }

/-- The currency of a book: an operation fails when the balance it takes from is too
small. -/
def currency : Currency Account Reason (Book Account Reason) where
  balance l a := l.free a
  balanceOnHold l r a := l.held r a
  hold r a x l :=
    if x ≤ l.free a then some ((l.setFree a (l.free a - x)).setHeld r a (l.held r a + x))
    else none
  release r a x l :=
    if x ≤ l.held r a then some ((l.setHeld r a (l.held r a - x)).setFree a (l.free a + x))
    else none
  slash r a x l :=
    (min x (l.held r a), x - min x (l.held r a), l.setHeld r a (l.held r a - min x (l.held r a)))
  resolve a x l := some (l.setFree a (l.free a + x))
  transfer a b x l :=
    if x ≤ l.free a then
      let l := l.setFree a (l.free a - x)
      some (l.setFree b (l.free b + x))
    else none

theorem currency_lawful : LawfulCurrency (currency : Currency Account Reason _) where
  hold_same r a x l l' h := by
    simp only [currency] at h ⊢
    split_ifs at h
    cases h
    simp [setHeld, setFree]
  hold_other r a x l l' h r' a' hne := by
    simp only [currency] at h ⊢
    split_ifs at h
    cases h
    simp only [setHeld, setFree, if_neg hne]
  release_same r a x l l' h := by
    simp only [currency] at h ⊢
    split_ifs at h with hle
    cases h
    simp only [setHeld, setFree, if_true]
    exact Nat.sub_add_cancel hle
  release_other r a x l l' h r' a' hne := by
    simp only [currency] at h ⊢
    split_ifs at h
    cases h
    simp only [setHeld, setFree, if_neg hne]
  slash_credit r a x l := rfl
  slash_remainder r a x l := rfl
  slash_same r a x l := by
    simp only [currency, setHeld, if_true]
    exact Nat.sub_add_cancel (Nat.min_le_right _ _)
  slash_other r a x l r' a' hne := by
    simp only [currency, setHeld, if_neg hne]
  resolve_holds a x l l' h := by
    simp only [currency, Option.some.injEq] at h ⊢
    rw [← h]
    rfl
  transfer_holds a b x l l' h := by
    simp only [currency] at h ⊢
    split_ifs at h
    cases h
    rfl

end Book
