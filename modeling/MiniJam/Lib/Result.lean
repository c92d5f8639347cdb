import Mathlib.Data.List.Forall2
import Mathlib.Tactic.Common

/-!
# `MiniJam.Lib.Result`: computations that return a value or an error

Inversion of a sequence in `Except`, and of a loop that collects values. `Except.Fails` bounds
the errors of a computation by those of its parts.
-/

set_option autoImplicit false

/-- An element on the left of related lists has a related element. -/
theorem List.Forall₂.exists_of_mem_left {α β : Type} {R : α → β → Prop} {as : List α}
    {bs : List β} (h : List.Forall₂ R as bs) {a : α} (ha : a ∈ as) : ∃ b ∈ bs, R a b := by
  induction h with
  | nil => simp at ha
  | cons hab _ ih =>
    rcases List.mem_cons.mp ha with rfl | ha
    · exact ⟨_, by simp, hab⟩
    · obtain ⟨b, hb, hab⟩ := ih ha
      exact ⟨b, by simp [hb], hab⟩

/-- An element on the right of related lists has a related element. -/
theorem List.Forall₂.exists_of_mem_right {α β : Type} {R : α → β → Prop} {as : List α}
    {bs : List β} (h : List.Forall₂ R as bs) {b : β} (hb : b ∈ bs) : ∃ a ∈ as, R a b :=
  h.flip.exists_of_mem_left hb

namespace Except

variable {ε α β : Type} {f : α → Except ε β} {m : Except ε α}

/-- A sequence that returns a value has run both of its parts to a value. -/
theorem bind_ok_iff {b : β} : (m >>= f) = .ok b ↔ ∃ a, m = .ok a ∧ f a = .ok b := by
  cases m with
  | error e => simp [bind, Except.bind]
  | ok a => simp [bind, Except.bind]

/-- The error `e` unless `p` holds. -/
def ensure (p : Prop) [Decidable p] (e : ε) : Except ε Unit := if p then .ok () else .error e

variable {e : ε}

theorem ensure_ok_iff {p : Prop} [Decidable p] {u : Unit} : ensure p e = .ok u ↔ p := by
  unfold ensure
  split_ifs with hp <;> simp [hp]

/-- The condition held, and the rest returned. -/
theorem ensure_bind_ok_iff {p : Prop} [Decidable p] {f : Unit → Except ε β} {b : β} :
    (ensure p e >>= f) = .ok b ↔ p ∧ f () = .ok b := by
  rw [bind_ok_iff]
  constructor
  · rintro ⟨u, hp, h⟩
    exact ⟨ensure_ok_iff.mp hp, h⟩
  · rintro ⟨hp, h⟩
    exact ⟨(), ensure_ok_iff.mpr hp, h⟩

/-- The value of an option, or the error `e`. -/
def okOr (o : Option α) (e : ε) : Except ε α := o.elim (.error e) .ok

/-- There was a value. -/
theorem okOr_ok_iff {o : Option α} {a : α} : okOr o e = .ok a ↔ o = some a := by
  cases o <;> simp [okOr]

theorem mapError_ok_iff {ε' : Type} {g : ε → ε'} {a : α} : m.mapError g = .ok a ↔ m = .ok a := by
  cases m with
  | error e => simp [Except.mapError]
  | ok a' => simp [Except.mapError]

/-- A loop that returns has returned on each element, in order. -/
theorem mapM_ok_iff {as : List α} {bs : List β} :
    as.mapM f = .ok bs ↔ List.Forall₂ (fun a b => f a = .ok b) as bs := by
  induction as generalizing bs with
  | nil => cases bs <;> simp [pure, Except.pure]
  | cons a as ih =>
    rw [List.mapM_cons, bind_ok_iff]
    constructor
    · rintro ⟨b, hb, h⟩
      obtain ⟨bs', hbs', h⟩ := bind_ok_iff.mp h
      cases h
      exact .cons hb (ih.mp hbs')
    · intro h
      cases h with
      | cons hb hbs => exact ⟨_, hb, bind_ok_iff.mpr ⟨_, ih.mpr hbs, rfl⟩⟩

/-- What the value of a computation satisfies can be tested. -/
instance decidableExistsOk (r : Except ε α) (P : α → Prop) [DecidablePred P] :
    Decidable (∃ a, r = .ok a ∧ P a) :=
  match r with
  | .ok a => decidable_of_iff (P a) (by simp)
  | .error _ => isFalse (by simp)

instance decidableOk (r : Except ε α) : Decidable (∃ a, r = .ok a) :=
  match r with
  | .ok a => isTrue ⟨a, rfl⟩
  | .error _ => isFalse (by simp)

instance decidableError [DecidableEq ε] (r : Except ε α) (e : ε) : Decidable (r = .error e) :=
  match r with
  | .ok _ => isFalse nofun
  | .error e' => decidable_of_iff (e' = e) (by simp)

theorem eq_ok_of_toOption {r : Except ε α} {a : α} (h : r.toOption = some a) : r = .ok a := by
  cases r with
  | error e => cases h
  | ok b =>
    cases h
    rfl

/-- A loop whose body returns on every element returns. -/
theorem mapM_ok_of_forall {as : List α} (h : ∀ a ∈ as, ∃ b, f a = .ok b) :
    ∃ bs, as.mapM f = .ok bs := by
  induction as with
  | nil => exact ⟨[], rfl⟩
  | cons a as ih =>
    obtain ⟨b, hb⟩ := h a (by simp)
    obtain ⟨bs, hbs⟩ := ih fun a' ha' => h a' (by simp [ha'])
    exact ⟨b :: bs, mapM_ok_iff.mpr (.cons hb (mapM_ok_iff.mp hbs))⟩

/-! ### Which errors a computation can return -/

/-- Every error the computation returns satisfies `E`. -/
def Fails (E : ε → Prop) (m : Except ε α) : Prop := ∀ e, m = .error e → E e

variable {E : ε → Prop}

theorem Fails.ok (a : α) : Fails E (.ok a : Except ε α) := fun _ h => by cases h

theorem Fails.error (h : E e) : Fails E (.error e : Except ε α) := fun _ h' => by
  cases h'
  exact h

theorem Fails.bind (hm : Fails E m) (hf : ∀ a, Fails E (f a)) : Fails E (m >>= f) := by
  intro e h
  cases m with
  | error e' =>
    cases h
    exact hm e rfl
  | ok a => exact hf a e h

theorem Fails.mapM (hf : ∀ a, Fails E (f a)) (as : List α) : Fails E (as.mapM f) := by
  induction as with
  | nil => exact Fails.ok []
  | cons a as ih =>
    rw [List.mapM_cons]
    exact (hf a).bind fun _ => ih.bind fun _ => Fails.ok _

end Except
