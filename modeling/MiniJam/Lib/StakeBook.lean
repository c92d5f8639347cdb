import Mathlib.Data.Nat.Basic
import Mathlib.Logic.Function.Basic
import Mathlib.Logic.Relation

/-!
# `MiniJam.Lib.StakeBook`: stakes, scheduled updates and the balances behind them

A registry of members. Each member has an owner, an active stake and at most one of two things: a
scheduled update, which may set a new stake, or a chunk of stake that waits for its release. The
stake is backed by a balance of the owner on hold.

`Member.Move` says how a member changes. An increase is held when it is scheduled, a decrease is
put aside when it is applied, and a slash takes the same amount from stake and hold. A scheduled
stake is an amount and not a difference: it would undo a slash that comes in between, while the
hold stays short. So `Move.slash` asks for a member without a scheduled stake. `Steps.sound` shows
that this is enough: in every registry the moves reach, each stake is backed together with its
chunk.
-/

set_option autoImplicit false

namespace StakeBook

/-! ### One member -/

/-- A member's stake and the balance its owner has on hold. -/
structure Member where
  active : Nat
  /-- The scheduled update, with the stake it sets. -/
  update : Option (Option Nat)
  /-- The stake that waits for its release. -/
  chunk : Option Nat
  held : Nat

/-- How a member changes. -/
inductive Member.Move (m : Member) : Member → Prop where
  /-- An update is scheduled, and the increase is held. -/
  | schedule {stake : Option Nat} (hupdate : m.update = none) (hchunk : m.chunk = none) :
      Move m { m with
        update := some stake
        held := m.held + (stake.getD m.active - m.active) }
  /-- A slash of a member without a scheduled stake. -/
  | slash {amount : Nat} (hactive : amount ≤ m.active) (hheld : amount ≤ m.held)
      (hspared : ∀ stake, m.update ≠ some (some stake)) :
      Move m { m with active := m.active - amount, held := m.held - amount }
  /-- An update that sets no stake is done. -/
  | applyOther (hupdate : m.update = some none) : Move m { m with update := none }
  /-- A scheduled stake becomes the active one, and a decrease is put aside. -/
  | applyStake {amount : Nat} (hupdate : m.update = some (some amount)) :
      Move m { m with
        update := none
        active := amount
        chunk := if amount < m.active then some (m.active - amount) else m.chunk }
  /-- A chunk is released from the hold. -/
  | release {amount : Nat} (hchunk : m.chunk = some amount) (hheld : amount ≤ m.held) :
      Move m { m with chunk := none, held := m.held - amount }

/-- A member whose stake, chunk and scheduled stake the hold covers. -/
structure Member.Sound (m : Member) : Prop where
  exclusive : ∀ stake, m.update = some stake → m.chunk = none
  backed : m.active + m.chunk.getD 0 ≤ m.held
  covered : ∀ amount, m.update = some (some amount) → amount ≤ m.held

/-- A move keeps the stake of a member backed. -/
theorem Member.Move.sound {m m' : Member} (h : m.Move m') (hm : m.Sound) : m'.Sound := by
  have hbacked := hm.backed
  cases h with
  | @schedule stake hupdate hchunk =>
    refine ⟨fun _ _ => hchunk, Nat.le_add_right_of_le hbacked, fun amount hamount => ?_⟩
    cases hamount
    have hactive : m.active ≤ m.held := Nat.le_of_add_right_le hbacked
    show amount ≤ m.held + (amount - m.active)
    omega
  | @slash amount hactive hheld hspared =>
    refine ⟨hm.exclusive, ?_, fun stake hstake => absurd hstake (hspared stake)⟩
    show m.active - amount + m.chunk.getD 0 ≤ m.held - amount
    omega
  | applyOther hupdate =>
    exact ⟨fun _ h => (nomatch h), hbacked, fun _ h => (nomatch h)⟩
  | @applyStake amount hupdate =>
    refine ⟨fun _ h => (nomatch h), ?_, fun _ h => (nomatch h)⟩
    show amount + (if amount < m.active then some (m.active - amount) else m.chunk).getD 0 ≤ m.held
    split_ifs with hless
    · show amount + (m.active - amount) ≤ m.held
      omega
    · -- There is no chunk while an update is scheduled.
      rw [hm.exclusive _ hupdate]
      exact hm.covered amount hupdate
  | @release amount hchunk hheld =>
    rw [hchunk, Option.getD_some] at hbacked
    refine ⟨fun _ _ => rfl, Nat.le_sub_of_add_le hbacked, fun stake hstake => ?_⟩
    -- There is no update while a chunk waits.
    have hnone := hm.exclusive _ hstake
    rw [hchunk] at hnone
    cases hnone

end StakeBook

/-! ### The registry -/

/-- The stakes of the members `ι`, owned by accounts. -/
@[ext] structure StakeBook (ι Account : Type) where
  /-- The ids that were given out. -/
  used : ι → Prop
  /-- The member of an account. -/
  index : Account → Option ι
  /-- The owner and the active stake of a member. -/
  stake : ι → Option (Account × Nat)
  update : ι → Option (Option Nat)
  chunk : ι → Option Nat
  /-- The balance of an account on hold. -/
  held : Account → Nat

namespace StakeBook

variable {ι Account : Type} {b b' : StakeBook ι Account} {id : ι} {owner : Account} {active : Nat}

/-- The view of one member. -/
def member (b : StakeBook ι Account) (id : ι) (owner : Account) (active : Nat) : Member where
  active := active
  update := b.update id
  chunk := b.chunk id
  held := b.held owner

/-- What holds of every registry the moves reach. An account owns one member at most. -/
structure Sound (b : StakeBook ι Account) : Prop where
  unused : ∀ id, ¬ b.used id → b.stake id = none ∧ b.update id = none ∧ b.chunk id = none
  indexed : ∀ id owner active, b.stake id = some (owner, active) → b.index owner = some id
  registered : ∀ owner id, b.index owner = some id → ∃ active, b.stake id = some (owner, active)
  members : ∀ id owner active, b.stake id = some (owner, active) →
    (b.member id owner active).Sound

/-- Two members have different owners. -/
theorem Sound.owner_ne {id' : ι} {owner' : Account} {active' : Nat} (hb : b.Sound)
    (h : b.stake id = some (owner, active)) (h' : b.stake id' = some (owner', active'))
    (hne : id' ≠ id) : owner' ≠ owner := by
  rintro rfl
  have hindex := hb.indexed _ _ _ h
  rw [hb.indexed _ _ _ h'] at hindex
  cases hindex
  exact hne rfl

/-- A registry without members is sound. -/
theorem sound_empty (hindex : ∀ owner, b.index owner = none) (hstake : ∀ id, b.stake id = none)
    (hupdate : ∀ id, b.update id = none) (hchunk : ∀ id, b.chunk id = none) : b.Sound where
  unused id _ := ⟨hstake id, hupdate id, hchunk id⟩
  indexed id owner active h := by
    rw [hstake] at h
    cases h
  registered owner id h := by
    rw [hindex] at h
    cases h
  members id owner active h := by
    rw [hstake] at h
    cases h

variable [DecidableEq ι] [DecidableEq Account]

/-- The registry with one member replaced. -/
def put (b : StakeBook ι Account) (id : ι) (owner : Account) (m : Member) : StakeBook ι Account :=
  { b with
    stake := Function.update b.stake id (some (owner, m.active))
    update := Function.update b.update id m.update
    chunk := Function.update b.chunk id m.chunk
    held := Function.update b.held owner m.held }

/-- One move of the registry. -/
inductive Step (b : StakeBook ι Account) : StakeBook ι Account → Prop where
  /-- A new member, with its stake on hold. -/
  | register {id : ι} {owner : Account} {amount : Nat} {used : ι → Prop} (hid : ¬ b.used id)
      (howner : b.index owner = none) (hused : ∀ w, used w ↔ b.used w ∨ w = id) :
      Step b { b with
        used := used
        index := Function.update b.index owner (some id)
        stake := Function.update b.stake id (some (owner, amount))
        held := Function.update b.held owner (b.held owner + amount) }
  /-- A member changes. -/
  | move {id : ι} {owner : Account} {active : Nat} {m : Member}
      (hstake : b.stake id = some (owner, active)) (hmove : (b.member id owner active).Move m) :
      Step b (b.put id owner m)
  /-- An update of nobody is dropped. -/
  | drop {id : ι} (hstake : b.stake id = none) :
      Step b { b with update := Function.update b.update id none }

/-- Any number of moves. -/
abbrev Steps : StakeBook ι Account → StakeBook ι Account → Prop := Relation.ReflTransGen Step

theorem Sound.put {m : Member} (hb : b.Sound) (hstake : b.stake id = some (owner, active))
    (hm : m.Sound) : (b.put id owner m).Sound where
  unused id' hid' := by
    have hne : id' ≠ id := by
      rintro rfl
      rw [(hb.unused id' hid').1] at hstake
      cases hstake
    obtain ⟨hnone, hupdate, hchunk⟩ := hb.unused id' hid'
    exact ⟨(Function.update_of_ne hne ..).trans hnone, (Function.update_of_ne hne ..).trans hupdate,
      (Function.update_of_ne hne ..).trans hchunk⟩
  indexed id' owner' active' h := by
    by_cases hid : id' = id
    · subst hid
      cases (Function.update_self ..).symm.trans h
      exact hb.indexed _ _ _ hstake
    · exact hb.indexed id' owner' active' ((Function.update_of_ne hid ..).symm.trans h)
  registered owner' id' h := by
    obtain ⟨active', hstake'⟩ := hb.registered owner' id' h
    by_cases hid : id' = id
    · subst hid
      rw [hstake] at hstake'
      cases hstake'
      exact ⟨m.active, Function.update_self ..⟩
    · exact ⟨active', (Function.update_of_ne hid ..).trans hstake'⟩
  members id' owner' active' h := by
    by_cases hid : id' = id
    · subst hid
      cases (Function.update_self ..).symm.trans h
      have hview : (b.put id' owner m).member id' owner m.active = m := by
        simp only [member, StakeBook.put, Function.update_self]
      rw [hview]
      exact hm
    · -- Another member has another owner, whose hold is not touched.
      have hstake' := (Function.update_of_ne hid ..).symm.trans h
      have howner := hb.owner_ne hstake hstake' hid
      have hview : (b.put id owner m).member id' owner' active' = b.member id' owner' active' := by
        simp only [member, StakeBook.put, Function.update_of_ne hid, Function.update_of_ne howner]
      rw [hview]
      exact hb.members id' owner' active' hstake'

theorem Sound.register {amount : Nat} {used : ι → Prop} (hb : b.Sound) (hid : ¬ b.used id)
    (howner : b.index owner = none) (hused : ∀ w, used w ↔ b.used w ∨ w = id) :
    Sound { b with
      used := used
      index := Function.update b.index owner (some id)
      stake := Function.update b.stake id (some (owner, amount))
      held := Function.update b.held owner (b.held owner + amount) } where
  unused id' hid' := by
    obtain ⟨hunused, hne⟩ := not_or.mp fun h => hid' ((hused id').mpr h)
    obtain ⟨hnone, hrest⟩ := hb.unused id' hunused
    exact ⟨(Function.update_of_ne hne ..).trans hnone, hrest⟩
  indexed id' owner' active' h := by
    by_cases heq : id' = id
    · subst heq
      cases (Function.update_self ..).symm.trans h
      exact Function.update_self ..
    · -- An account that is indexed already is not the new owner.
      have hindex := hb.indexed id' owner' active' ((Function.update_of_ne heq ..).symm.trans h)
      have hne : owner' ≠ owner := by
        rintro rfl
        rw [howner] at hindex
        cases hindex
      exact (Function.update_of_ne hne ..).trans hindex
  registered owner' id' h := by
    by_cases heq : owner' = owner
    · subst heq
      cases (Function.update_self ..).symm.trans h
      exact ⟨amount, Function.update_self ..⟩
    · obtain ⟨active', hstake⟩ :=
        hb.registered owner' id' ((Function.update_of_ne heq ..).symm.trans h)
      -- A member that exists has another id than the new one.
      have hne : id' ≠ id := by
        rintro rfl
        rw [(hb.unused id' hid).1] at hstake
        cases hstake
      exact ⟨active', (Function.update_of_ne hne ..).trans hstake⟩
  members id' owner' active' h := by
    by_cases heq : id' = id
    · subst heq
      cases (Function.update_self ..).symm.trans h
      obtain ⟨-, hupdate, hchunk⟩ := hb.unused id' hid
      simp only [member, Function.update_self, hupdate, hchunk]
      exact ⟨fun _ _ => rfl, Nat.le_add_left _ _, fun _ h => (nomatch h)⟩
    · have hstake := (Function.update_of_ne heq ..).symm.trans h
      have hne : owner' ≠ owner := by
        rintro rfl
        rw [hb.indexed id' owner' active' hstake] at howner
        cases howner
      simp only [member, Function.update_of_ne hne]
      exact hb.members id' owner' active' hstake

omit [DecidableEq Account] in
theorem Sound.drop (hb : b.Sound) (hstake : b.stake id = none) :
    Sound { b with update := Function.update b.update id none } where
  unused id' hid' := by
    obtain ⟨hnone, hupdate, hchunk⟩ := hb.unused id' hid'
    refine ⟨hnone, ?_, hchunk⟩
    by_cases heq : id' = id
    · subst heq
      exact Function.update_self ..
    · exact (Function.update_of_ne heq ..).trans hupdate
  indexed := hb.indexed
  registered := hb.registered
  members id' owner' active' h := by
    have hne : id' ≠ id := by
      rintro rfl
      rw [hstake] at h
      cases h
    simp only [member, Function.update_of_ne hne]
    exact hb.members id' owner' active' h

theorem Step.sound (h : Step b b') (hb : b.Sound) : b'.Sound := by
  cases h with
  | register hid howner hused => exact hb.register hid howner hused
  | move hstake hmove => exact hb.put hstake (hmove.sound (hb.members _ _ _ hstake))
  | drop hstake => exact hb.drop hstake

/-- Moves keep every stake backed. -/
theorem Steps.sound (h : Steps b b') (hb : b.Sound) : b'.Sound := by
  induction h with
  | refl => exact hb
  | tail _ hstep ih => exact hstep.sound ih

end StakeBook
