import Mathlib.Order.Defs.Unbundled
import Mathlib.Tactic.Common

/-!
# `MiniJam.Lib.Tx`: stateful computations with errors, rollback and panics

A computation over a storage `σ` returns a value together with the storage it left, returns an
error together with the storage it left, or panics. An error does not undo the writes made before
it: only `transaction` does, by putting the storage back to what it was at its start.

The rules come in two forms. The `_ok` and `_err` equivalences invert a run: a run of `m >>= f`
that ends in a value splits into a run of `m` and a run of `f`. `Tx.Rel R m` says that every run
of `m`, whatever its result, relates the storage before to the storage after by `R`. For a
reflexive and transitive `R` it is closed under sequencing, loops and transactions, so a frame
condition or an invariant is proved for a whole computation from its parts.
-/

set_option autoImplicit false

/-- How a computation over the storage `σ` ends. -/
inductive Outcome (σ ε α : Type) where
  | ok (a : α) (s : σ)
  | err (e : ε) (s : σ)
  | panicked

/-- A computation over the storage `σ` with errors in `ε`. -/
def Tx (σ ε α : Type) : Type := σ → Outcome σ ε α

namespace Outcome

variable {σ ε α : Type}

/-- `P` holds of the storage this outcome leaves. A panic leaves none. -/
def All (P : σ → Prop) : Outcome σ ε α → Prop
  | ok _ s => P s
  | err _ s => P s
  | panicked => True

/-- The value and the storage of a computation that returned. -/
def returned : Outcome σ ε α → Option (α × σ)
  | ok a s => some (a, s)
  | _ => none

variable {o : Outcome σ ε α}

/-- A run that returned ended in a value. -/
theorem eq_ok_of_returned {a : α} {s : σ} (h : o.returned = some (a, s)) : o = .ok a s := by
  cases o with
  | ok a' s' =>
    cases h
    rfl
  | err e s' => cases h
  | panicked => cases h

/-- The error of a computation that failed. -/
def error : Outcome σ ε α → Option ε
  | err e _ => some e
  | _ => none

/-- A run with an error ended in it. -/
theorem eq_err_of_error {e : ε} (h : o.error = some e) : ∃ s, o = .err e s := by
  cases o with
  | ok a s => cases h
  | err e' s =>
    cases h
    exact ⟨s, rfl⟩
  | panicked => cases h

/-- What a computation returned and left can be tested. -/
instance decidableExistsOk (o : Outcome σ ε α) (P : α → σ → Prop) [∀ a s, Decidable (P a s)] :
    Decidable (∃ a s, o = .ok a s ∧ P a s) :=
  match o with
  | .ok a s => decidable_of_iff (P a s) (by simp)
  | .err _ _ => isFalse (by simp)
  | .panicked => isFalse (by simp)

instance (o : Outcome σ ε Unit) (P : σ → Prop) [DecidablePred P] :
    Decidable (∃ s, o = .ok () s ∧ P s) :=
  decidable_of_iff (∃ u s, o = .ok u s ∧ P s)
    ⟨fun ⟨_, s, h⟩ => ⟨s, h⟩, fun ⟨s, h⟩ => ⟨(), s, h⟩⟩

instance decidablePanicked (o : Outcome σ ε α) : Decidable (o = .panicked) :=
  match o with
  | .ok _ _ => isFalse (by simp)
  | .err _ _ => isFalse (by simp)
  | .panicked => isTrue rfl

end Outcome

namespace Tx

variable {σ ε α β : Type}

/-- Return `a` and leave the storage as it is. -/
protected def pure (a : α) : Tx σ ε α := fun s => .ok a s

/-- Run `m`, then `f` on its value. An error or a panic of `m` ends the run. -/
protected def bind (m : Tx σ ε α) (f : α → Tx σ ε β) : Tx σ ε β := fun s =>
  match m s with
  | .ok a s₁ => f a s₁
  | .err e s₁ => .err e s₁
  | .panicked => .panicked

instance : Monad (Tx σ ε) where
  pure := Tx.pure
  bind := Tx.bind

/-- The storage itself. -/
def read : Tx σ ε σ := fun s => .ok s s

/-- A value read from the storage. -/
def gets (f : σ → α) : Tx σ ε α := fun s => .ok (f s) s

/-- Replace the storage by its image. -/
def modify (f : σ → σ) : Tx σ ε Unit := fun s => .ok () (f s)

/-- End the run with an error, keeping the writes made so far. -/
def throw (e : ε) : Tx σ ε α := fun s => .err e s

/-- End the run with a panic. -/
def abort : Tx σ ε α := fun _ => .panicked

/-- End the run with the error `e` unless `c` holds. -/
def ensure (c : Prop) [Decidable c] (e : ε) : Tx σ ε Unit := fun s =>
  if c then .ok () s else .err e s

/-- The value of an option, or the error `e`. -/
def okOr (o : Option α) (e : ε) : Tx σ ε α := fun s =>
  match o with
  | some a => .ok a s
  | none => .err e s

/-- The result of a computation that does not touch the storage. -/
def lift (r : Except ε α) : Tx σ ε α := fun s =>
  match r with
  | .ok a => .ok a s
  | .error e => .err e s

/-- The value of an option, or a panic. -/
def expect (o : Option α) : Tx σ ε α := fun s =>
  match o with
  | some a => .ok a s
  | none => .panicked

/-- Run `m` and hand its result to the caller as a value. The writes of a failed `m`
stay. -/
def attempt {ε' : Type} (m : Tx σ ε α) : Tx σ ε' (Except ε α) := fun s =>
  match m s with
  | .ok a s₁ => .ok (.ok a) s₁
  | .err e s₁ => .ok (.error e) s₁
  | .panicked => .panicked

/-- Run `m` for its writes only. -/
def ignore {ε' : Type} (m : Tx σ ε α) : Tx σ ε' Unit := fun s =>
  match m s with
  | .ok _ s₁ => .ok () s₁
  | .err _ s₁ => .ok () s₁
  | .panicked => .panicked

/-- Panic unless `c` holds. -/
def check (c : Prop) [Decidable c] : Tx σ ε Unit := fun s => if c then .ok () s else .panicked

/-- Run `m`, and put the storage back to its start when `m` fails. -/
def transaction (m : Tx σ ε α) : Tx σ ε α := fun s =>
  match m s with
  | .ok a s₁ => .ok a s₁
  | .err e _ => .err e s
  | .panicked => .panicked

/-- Translate the error of `m`. -/
def mapErr {ε' : Type} (g : ε → ε') (m : Tx σ ε α) : Tx σ ε' α := fun s =>
  match m s with
  | .ok a s₁ => .ok a s₁
  | .err e s₁ => .err (g e) s₁
  | .panicked => .panicked

/-- Run `f` on each element in order. The first error ends the loop. -/
def forEach (f : α → Tx σ ε Unit) : List α → Tx σ ε Unit
  | [] => Tx.pure ()
  | a :: as => Tx.bind (f a) fun _ => forEach f as

/-- Run `f` on each element in order and collect the values. -/
def mapEach (f : α → Tx σ ε β) : List α → Tx σ ε (List β)
  | [] => Tx.pure []
  | a :: as => Tx.bind (f a) fun b => Tx.bind (mapEach f as) fun bs => Tx.pure (b :: bs)

/-- Run a computation over a part `τ` of the storage. -/
def zoom {τ : Type} (get : σ → τ) (set : τ → σ → σ) (m : Tx τ ε α) : Tx σ ε α := fun s =>
  match m (get s) with
  | .ok a t => .ok a (set t s)
  | .err e t => .err e (set t s)
  | .panicked => .panicked

/-! ### Equations for a run -/

section Apply
variable {s : σ}

@[simp] theorem pure_apply (a : α) : (pure a : Tx σ ε α) s = .ok a s := rfl

@[simp] theorem throw_apply (e : ε) : (throw e : Tx σ ε α) s = .err e s := rfl

@[simp] theorem modify_apply (f : σ → σ) : (modify f : Tx σ ε Unit) s = .ok () (f s) := rfl

theorem ensure_apply (c : Prop) [Decidable c] (e : ε) :
    (ensure c e : Tx σ ε Unit) s = if c then .ok () s else .err e s := rfl

theorem bind_apply (m : Tx σ ε α) (f : α → Tx σ ε β) :
    (m >>= f) s = match m s with
      | .ok a s₁ => f a s₁
      | .err e s₁ => .err e s₁
      | .panicked => .panicked := rfl

/-- A part that returns is followed by the rest. -/
theorem bind_apply_of_ok {m : Tx σ ε α} {a : α} {s₁ : σ} (h : m s = .ok a s₁)
    (f : α → Tx σ ε β) : (m >>= f) s = f a s₁ := by
  rw [bind_apply, h]

@[simp] theorem pure_bind_apply (a : α) (f : α → Tx σ ε β) :
    ((pure a : Tx σ ε α) >>= f) s = f a s := rfl

@[simp] theorem read_bind_apply (f : σ → Tx σ ε β) : (read >>= f) s = f s s := rfl

@[simp] theorem gets_bind_apply (g : σ → α) (f : α → Tx σ ε β) :
    (gets g >>= f) s = f (g s) s := rfl

@[simp] theorem modify_bind_apply (g : σ → σ) (f : Unit → Tx σ ε β) :
    (modify g >>= f) s = f () (g s) := rfl

@[simp] theorem throw_bind_apply (e : ε) (f : α → Tx σ ε β) :
    ((throw e : Tx σ ε α) >>= f) s = .err e s := rfl

@[simp] theorem okOr_some_bind_apply (a : α) (e : ε) (f : α → Tx σ ε β) :
    (okOr (some a) e >>= f) s = f a s := rfl

@[simp] theorem expect_some_bind_apply (a : α) (f : α → Tx σ ε β) :
    ((expect (some a) : Tx σ ε α) >>= f) s = f a s := rfl

theorem ensure_bind_apply (c : Prop) [Decidable c] (e : ε) (f : Unit → Tx σ ε β) :
    (ensure c e >>= f) s = if c then f () s else .err e s := by
  rw [bind_apply, ensure_apply]
  split_ifs <;> rfl

theorem forEach_cons (f : α → Tx σ ε Unit) (a : α) (as : List α) :
    forEach f (a :: as) = f a >>= fun _ => forEach f as := rfl

theorem mapEach_cons (f : α → Tx σ ε β) (a : α) (as : List α) :
    mapEach f (a :: as) = f a >>= fun b => mapEach f as >>= fun bs => pure (b :: bs) := rfl

/-- Sequences may be bracketed in any way. -/
theorem bind_assoc {γ : Type} (m : Tx σ ε α) (f : α → Tx σ ε β) (g : β → Tx σ ε γ) :
    m >>= f >>= g = m >>= fun a => f a >>= g := by
  funext s
  simp only [bind_apply]
  cases m s <;> rfl

end Apply

/-! ### Inverting a run -/

section Invert
variable {s s' : σ} {a : α} {b : β} {e : ε} {m : Tx σ ε α} {f : α → Tx σ ε β}

/-- A sequence that returns a value has run both of its parts to a value. -/
theorem bind_ok : (m >>= f) s = .ok b s' ↔ ∃ a s₁, m s = .ok a s₁ ∧ f a s₁ = .ok b s' := by
  rw [bind_apply]
  cases m s with
  | ok a s₁ => simp [and_assoc]
  | err e s₁ => simp
  | panicked => simp

/-- A sequence that fails has failed in one of its parts. -/
theorem bind_err :
    (m >>= f) s = .err e s' ↔
      m s = .err e s' ∨ ∃ a s₁, m s = .ok a s₁ ∧ f a s₁ = .err e s' := by
  rw [bind_apply]
  cases m s with
  | ok a s₁ => simp [and_assoc]
  | err e s₁ => simp
  | panicked => simp

variable {c : Prop} {ε' : Type}

/-- A guarded run that returns a value has met its guard. -/
theorem ensure_bind_ok [Decidable c] {f : Unit → Tx σ ε β} :
    (ensure c e >>= f) s = .ok b s' ↔ c ∧ f () s = .ok b s' := by
  rw [ensure_bind_apply]
  split_ifs with h <;> simp [h]

theorem ensure_ok [Decidable c] {u : Unit} : ensure c e s = .ok u s' ↔ c ∧ s = s' := by
  rw [ensure_apply]
  split_ifs with h <;> simp [h]

variable {o : Option α}

theorem okOr_ok : okOr o e s = .ok a s' ↔ o = some a ∧ s = s' := by
  cases o <;> simp [okOr]

/-- There was a value, and the rest ran on it. -/
theorem okOr_bind_ok : (okOr o e >>= f) s = .ok b s' ↔ ∃ a, o = some a ∧ f a s = .ok b s' := by
  simp only [bind_ok, okOr_ok]
  constructor
  · rintro ⟨a, s₁, ⟨rfl, rfl⟩, h⟩
    exact ⟨a, rfl, h⟩
  · rintro ⟨a, rfl, h⟩
    exact ⟨a, s, ⟨rfl, rfl⟩, h⟩

theorem lift_ok {r : Except ε α} : (lift r) s = .ok a s' ↔ r = .ok a ∧ s = s' := by
  cases r <;> simp [lift]

/-- The pure part returned, and the rest ran on its value. -/
theorem lift_bind_ok {r : Except ε α} :
    (lift r >>= f) s = .ok b s' ↔ ∃ a, r = .ok a ∧ f a s = .ok b s' := by
  rw [bind_apply]
  cases r <;> simp [lift]

theorem expect_ok : (expect o : Tx σ ε α) s = .ok a s' ↔ o = some a ∧ s = s' := by
  cases o <;> simp [expect]

/-- The value that was expected was there. -/
theorem expect_bind_ok : (expect o >>= f) s = .ok b s' ↔ ∃ a, o = some a ∧ f a s = .ok b s' := by
  simp only [bind_ok, expect_ok]
  constructor
  · rintro ⟨a, s₁, ⟨rfl, rfl⟩, h⟩
    exact ⟨a, rfl, h⟩
  · rintro ⟨a, rfl, h⟩
    exact ⟨a, s, ⟨rfl, rfl⟩, h⟩

/-- A transaction that returns keeps what was written. -/
theorem transaction_ok : transaction m s = .ok a s' ↔ m s = .ok a s' := by
  unfold transaction
  cases m s <;> simp

/-- A failed transaction leaves the storage it started from. -/
theorem transaction_err (h : transaction m s = .err e s') : s' = s := by
  unfold transaction at h
  cases hm : m s <;> simp_all

/-- An attempt returns where the computation returned or failed. -/
theorem attempt_ok {r : Except ε α} :
    (attempt m : Tx σ ε' (Except ε α)) s = .ok r s' ↔
      (∃ a, m s = .ok a s' ∧ r = .ok a) ∨ ∃ e, m s = .err e s' ∧ r = .error e := by
  unfold attempt
  cases m s with
  | ok a s₁ => simp; grind
  | err e s₁ => simp; grind
  | panicked => simp

/-- An ignored result keeps what was written, also before an error. -/
theorem ignore_ok {u : Unit} :
    (ignore m : Tx σ ε' Unit) s = .ok u s' ↔
      (∃ a, m s = .ok a s') ∨ ∃ e, m s = .err e s' := by
  unfold ignore
  cases m s <;> simp

/-- An ignored computation that undoes what it did when it fails. -/
theorem ignore_undone {m : Tx σ ε Unit} (herr : ∀ e s', m s = .err e s' → s' = s)
    (h : (ignore m : Tx σ ε' Unit) s = .ok () s') : s' = s ∨ m s = .ok () s' := by
  rcases ignore_ok.mp h with ⟨_, h⟩ | ⟨e, h⟩
  · exact Or.inr h
  · exact Or.inl (herr e s' h)

/-- The condition held, and the rest ran. -/
theorem check_bind_ok [Decidable c] {f : Unit → Tx σ ε β} :
    (check c >>= f) s = .ok b s' ↔ c ∧ f () s = .ok b s' := by
  rw [bind_apply]
  unfold check
  split_ifs with h <;> simp [h]

/-- Renaming errors leaves values. -/
theorem mapErr_ok {g : ε → ε'} : mapErr g m s = .ok a s' ↔ m s = .ok a s' := by
  unfold mapErr
  cases m s <;> simp

/-- A run on a part of the storage returned. -/
theorem zoom_ok {τ : Type} {get : σ → τ} {set : τ → σ → σ} {m : Tx τ ε α} :
    zoom get set m s = .ok a s' ↔ ∃ t, m (get s) = .ok a t ∧ set t s = s' := by
  unfold zoom
  cases m (get s) <;> simp [and_assoc]

/-- A run on a part of the storage failed. -/
theorem zoom_err {τ : Type} {get : σ → τ} {set : τ → σ → σ} {m : Tx τ ε α} :
    zoom get set m s = .err e s' ↔ ∃ t, m (get s) = .err e t ∧ set t s = s' := by
  unfold zoom
  cases m (get s) <;> simp [and_assoc]

end Invert

/-! ### What every run of a computation does to the storage -/

/-- Every run of `m` relates the storage before it to the storage after it by `R`,
whether it returns or fails. -/
def Rel (R : σ → σ → Prop) (m : Tx σ ε α) : Prop := ∀ s, (m s).All (R s)

section Rel
variable {R : σ → σ → Prop} {s s' : σ} {m : Tx σ ε α}

/-- What holds of every run holds of one that returns. -/
theorem Rel.of_ok (h : Rel R m) {a : α} (hm : m s = .ok a s') : R s s' := by
  have := h s
  rwa [hm] at this

/-- What holds of every run holds of one that fails. -/
theorem Rel.of_err (h : Rel R m) {e : ε} (hm : m s = .err e s') : R s s' := by
  have := h s
  rwa [hm] at this

/-- A relation is shown for both ways to end. -/
theorem Rel.intro (hok : ∀ s a s', m s = .ok a s' → R s s')
    (herr : ∀ s e s', m s = .err e s' → R s s') : Rel R m := by
  intro s
  cases hm : m s with
  | ok a s' => exact hok s a s' hm
  | err e s' => exact herr s e s' hm
  | panicked => trivial

/-- A relation may be weakened. -/
theorem Rel.mono {Q : σ → σ → Prop} (h : Rel R m) (hRQ : ∀ s s', R s s' → Q s s') : Rel Q m :=
  Rel.intro (fun _ _ _ hm => hRQ _ _ (h.of_ok hm)) (fun _ _ _ hm => hRQ _ _ (h.of_err hm))

theorem Rel.modify {f : σ → σ} (h : ∀ s, R s (f s)) : Rel R (Tx.modify f : Tx σ ε Unit) :=
  fun s => h s

theorem Rel.ite {c : Prop} [Decidable c] {n : Tx σ ε α} (hm : Rel R m) (hn : Rel R n) :
    Rel R (if c then m else n) := by
  split_ifs
  · exact hm
  · exact hn

variable {ε' : Type}

theorem Rel.attempt (h : Rel R m) : Rel R (Tx.attempt m : Tx σ ε' (Except ε α)) := by
  intro s
  have hs := h s
  unfold Tx.attempt
  cases hm : m s <;> simp_all [Outcome.All]

theorem Rel.ignore (h : Rel R m) : Rel R (Tx.ignore m : Tx σ ε' Unit) := by
  intro s
  have hs := h s
  unfold Tx.ignore
  cases hm : m s <;> simp_all [Outcome.All]

theorem Rel.mapErr {g : ε → ε'} (h : Rel R m) : Rel R (Tx.mapErr g m) := by
  intro s
  have hs := h s
  unfold Tx.mapErr
  cases hm : m s <;> simp_all [Outcome.All]

variable [Std.Refl R]

theorem Rel.pure (a : α) : Rel R (pure a : Tx σ ε α) := fun s => Std.Refl.refl s

theorem Rel.read : Rel R (Tx.read : Tx σ ε σ) := fun s => Std.Refl.refl s

theorem Rel.throw (e : ε) : Rel R (Tx.throw e : Tx σ ε α) := fun s => Std.Refl.refl s

theorem Rel.ensure (c : Prop) [Decidable c] (e : ε) :
    Rel R (Tx.ensure c e : Tx σ ε Unit) := by
  intro s
  rw [ensure_apply]
  split_ifs
  · exact Std.Refl.refl s
  · exact Std.Refl.refl s

theorem Rel.okOr (o : Option α) (e : ε) : Rel R (Tx.okOr o e : Tx σ ε α) := by
  intro s
  cases o
  · exact Std.Refl.refl s
  · exact Std.Refl.refl s

theorem Rel.expect (o : Option α) : Rel R (Tx.expect o : Tx σ ε α) := by
  intro s
  cases o
  · trivial
  · exact Std.Refl.refl s

theorem Rel.check (c : Prop) [Decidable c] : Rel R (Tx.check c : Tx σ ε Unit) := by
  intro s
  unfold Tx.check
  split_ifs
  · exact Std.Refl.refl s
  · trivial

/-- A transaction needs the relation for its successful runs only. -/
theorem Rel.transaction_of_ok (hok : ∀ s a s', m s = .ok a s' → R s s') :
    Rel R (Tx.transaction m) := by
  refine Rel.intro (fun s a s' h => hok s a s' (transaction_ok.mp h)) (fun s e s' h => ?_)
  rw [transaction_err h]
  exact Std.Refl.refl s

/-- A transaction that fails has written nothing. -/
theorem Rel.transaction (h : Rel R m) : Rel R (Tx.transaction m) :=
  Rel.transaction_of_ok fun _ _ _ hm => h.of_ok hm

variable [IsTrans σ R]

omit [Std.Refl R] in
/-- The rule for a sequence. -/
theorem Rel.bind {f : α → Tx σ ε β} (hm : Rel R m) (hf : ∀ a, Rel R (f a)) : Rel R (m >>= f) := by
  refine Rel.intro (fun s b s' h => ?_) (fun s e s' h => ?_)
  · obtain ⟨a, s₁, h₁, h₂⟩ := bind_ok.mp h
    exact IsTrans.trans _ _ _ (hm.of_ok h₁) ((hf a).of_ok h₂)
  · rcases bind_err.mp h with h₁ | ⟨a, s₁, h₁, h₂⟩
    · exact hm.of_err h₁
    · exact IsTrans.trans _ _ _ (hm.of_ok h₁) ((hf a).of_err h₂)

/-- The rule for a loop. -/
theorem Rel.forEach {f : α → Tx σ ε Unit} {as : List α} (hf : ∀ a ∈ as, Rel R (f a)) :
    Rel R (Tx.forEach f as) := by
  induction as with
  | nil => exact Rel.pure ()
  | cons a as ih =>
    rw [forEach_cons]
    exact Rel.bind (hf a (by simp)) fun _ => ih fun b hb => hf b (by simp [hb])

end Rel

/-! ### How a computation can end -/

/-- Every run of `m` returns a value or fails with an error in `E`. It never panics. -/
def Ends (E : ε → Prop) (m : Tx σ ε α) : Prop :=
  ∀ s, match m s with
    | .ok _ _ => True
    | .err e _ => E e
    | .panicked => False

section Ends
variable {E : ε → Prop} {m : Tx σ ε α}

/-- The error is one of those allowed. -/
theorem Ends.of_err (h : Ends E m) {s s' : σ} {e : ε} (hm : m s = .err e s') : E e := by
  have := h s
  rwa [hm] at this

/-- A run that ends does not panic. -/
theorem Ends.not_panicked (h : Ends E m) (s : σ) : m s ≠ .panicked := by
  intro hm
  have := h s
  rwa [hm] at this

/-- A computation without errors returns. -/
theorem Ends.returns (h : Ends (fun _ => False) m) (s : σ) : ∃ a s', m s = .ok a s' := by
  have := h s
  cases hm : m s with
  | ok a s' => exact ⟨a, s', rfl⟩
  | err e s' => rw [hm] at this; exact this.elim
  | panicked => rw [hm] at this; exact this.elim

theorem Ends.pure (a : α) : Ends E (pure a : Tx σ ε α) := fun _ => trivial

theorem Ends.read : Ends E (Tx.read : Tx σ ε σ) := fun _ => trivial

theorem Ends.modify (f : σ → σ) : Ends E (Tx.modify f : Tx σ ε Unit) := fun _ => trivial

theorem Ends.ensure (c : Prop) [Decidable c] {e : ε} (he : E e) :
    Ends E (Tx.ensure c e : Tx σ ε Unit) := by
  intro s
  rw [ensure_apply]
  split_ifs
  · trivial
  · exact he

theorem Ends.okOr (o : Option α) {e : ε} (he : E e) : Ends E (Tx.okOr o e : Tx σ ε α) := by
  intro s
  cases o
  · exact he
  · trivial

theorem Ends.ite {c : Prop} [Decidable c] {n : Tx σ ε α} (hm : Ends E m) (hn : Ends E n) :
    Ends E (if c then m else n) := by
  split_ifs
  · exact hm
  · exact hn

/-- The rule for a sequence. -/
theorem Ends.bind {f : α → Tx σ ε β} (hm : Ends E m) (hf : ∀ a, Ends E (f a)) :
    Ends E (m >>= f) := by
  intro s
  have hms := hm s
  rw [bind_apply]
  cases h : m s with
  | ok a s₁ => exact hf a s₁
  | err e s₁ => rwa [h] at hms
  | panicked => rwa [h] at hms

/-- The rule for a loop. -/
theorem Ends.forEach {f : α → Tx σ ε Unit} (hf : ∀ a, Ends E (f a)) (as : List α) :
    Ends E (Tx.forEach f as) := by
  induction as with
  | nil => exact Ends.pure ()
  | cons a as ih => exact Ends.bind (hf a) fun _ => ih

end Ends

/-- No run of `m` fails with an error. It returns a value or panics. -/
def NoErr (m : Tx σ ε α) : Prop := ∀ s e s', m s ≠ .err e s'

theorem NoErr.pure (a : α) : NoErr (pure a : Tx σ ε α) := fun _ _ _ h => by cases h

theorem NoErr.read : NoErr (Tx.read : Tx σ ε σ) := fun _ _ _ h => by cases h

theorem NoErr.modify (f : σ → σ) : NoErr (Tx.modify f : Tx σ ε Unit) := fun _ _ _ h => by cases h

theorem NoErr.expect (o : Option α) : NoErr (Tx.expect o : Tx σ ε α) := by
  intro s e s' h
  cases o with
  | none => cases h
  | some a => cases h

/-- The rule for a sequence. -/
theorem NoErr.bind {m : Tx σ ε α} {f : α → Tx σ ε β} (hm : NoErr m) (hf : ∀ a, NoErr (f a)) :
    NoErr (m >>= f) := by
  intro s e s' h
  rcases bind_err.mp h with h | ⟨a, s₁, -, h⟩
  · exact hm s e s' h
  · exact hf a s₁ e s' h

/-- The rule for a loop. -/
theorem NoErr.forEach {f : α → Tx σ ε Unit} (hf : ∀ a, NoErr (f a)) (as : List α) :
    NoErr (Tx.forEach f as) := by
  induction as with
  | nil => exact NoErr.pure ()
  | cons a as ih => exact NoErr.bind (hf a) fun _ => ih

/-- An ignored error is no error. -/
theorem NoErr.ignore {ε' : Type} (m : Tx σ ε α) : NoErr (Tx.ignore m : Tx σ ε' Unit) := by
  intro s e s' h
  unfold Tx.ignore at h
  cases hm : m s with
  | ok a s₁ => rw [hm] at h; cases h
  | err e s₁ => rw [hm] at h; cases h
  | panicked => rw [hm] at h; cases h

theorem NoErr.ite {c : Prop} [Decidable c] {m n : Tx σ ε α} (hm : NoErr m) (hn : NoErr n) :
    NoErr (if c then m else n) := by
  split_ifs
  · exact hm
  · exact hn

/-- A loop over two lists is two loops. -/
theorem forEach_append (f : α → Tx σ ε Unit) (as bs : List α) :
    forEach f (as ++ bs) = forEach f as >>= fun _ => forEach f bs := by
  induction as with
  | nil => rfl
  | cons a as ih => rw [List.cons_append, forEach_cons, forEach_cons, ih, bind_assoc]

variable {R : σ → σ → Prop}

/-- In a loop over different elements, an element is run on once, and the rest of the loop
does what it does to the others. -/
theorem forEach_ok_once [Std.Refl R] [IsTrans σ R] {f : α → Tx σ ε Unit} {as : List α}
    (hnodup : as.Nodup) {a : α} (ha : a ∈ as) (hothers : ∀ b ∈ as, b ≠ a → Rel R (f b)) {s s' : σ}
    (h : forEach f as s = .ok () s') : ∃ s₁ s₂, R s s₁ ∧ f a s₁ = .ok () s₂ ∧ R s₂ s' := by
  induction as generalizing s with
  | nil => cases ha
  | cons b as ih =>
    rw [forEach_cons] at h
    obtain ⟨_, s₁, hb, hrest⟩ := bind_ok.mp h
    obtain ⟨hnot, hnodup⟩ := List.nodup_cons.mp hnodup
    by_cases hab : a = b
    · -- The element is the first one, and it does not come again.
      subst hab
      refine ⟨s, s₁, Std.Refl.refl s, hb, (Rel.forEach fun c hc => ?_).of_ok hrest⟩
      exact hothers c (List.mem_cons_of_mem a hc) fun hca => hnot (hca ▸ hc)
    · have hmem : a ∈ as := (List.mem_cons.mp ha).resolve_left hab
      obtain ⟨s₂, s₃, h₁, h₂, h₃⟩ := ih hnodup hmem
        (fun c hc => hothers c (List.mem_cons_of_mem b hc)) hrest
      have hfirst := (hothers b (List.mem_cons_self ..) (Ne.symm hab)).of_ok hb
      exact ⟨s₂, s₃, IsTrans.trans _ _ _ hfirst h₁, h₂, h₃⟩

/-- A loop relates its ends by `R` when each iteration does so from every storage that meets a
condition, and `R` keeps the condition. -/
theorem forEach_ok_of [Std.Refl R] [IsTrans σ R] {C : σ → Prop} {f : α → Tx σ ε Unit} {as : List α}
    (hkeep : ∀ s s', R s s' → C s → C s') (hf : ∀ a ∈ as, ∀ s s', C s → f a s = .ok () s' → R s s')
    {s s' : σ} (hs : C s) (h : forEach f as s = .ok () s') : R s s' := by
  induction as generalizing s with
  | nil =>
    cases h
    exact Std.Refl.refl _
  | cons a as ih =>
    rw [forEach_cons] at h
    obtain ⟨_, s₁, ha, hrest⟩ := bind_ok.mp h
    have hfirst := hf a (List.mem_cons_self ..) s s₁ hs ha
    exact IsTrans.trans _ _ _ hfirst
      (ih (fun b hb => hf b (List.mem_cons_of_mem a hb)) (hkeep _ _ hfirst hs) hrest)

/-- What every iteration keeps holds after the loop. -/
theorem forEach_invariant {I : σ → Prop} {f : α → Tx σ ε Unit} {as : List α}
    (hf : ∀ a ∈ as, ∀ s s', I s → f a s = .ok () s' → I s') {s s' : σ} (hs : I s)
    (h : forEach f as s = .ok () s') : I s' := by
  induction as generalizing s with
  | nil =>
    cases h
    exact hs
  | cons a as ih =>
    rw [forEach_cons] at h
    obtain ⟨_, s₁, ha, hrest⟩ := bind_ok.mp h
    exact ih (fun b hb => hf b (List.mem_cons_of_mem a hb))
      (hf a (List.mem_cons_self ..) s s₁ hs ha) hrest

/-- A loop over entries with different keys, where an iteration leaves the entries of other
keys as they are: each iteration starts from a storage that still has its entry. -/
theorem forEach_ok_entries {κ ν : Type} [Std.Refl R] [IsTrans σ R] (lookup : σ → κ → Option ν)
    {f : κ × ν → Tx σ ε Unit} {entries : List (κ × ν)}
    (hother : ∀ entry s s', f entry s = .ok () s' → ∀ k, k ≠ entry.1 → lookup s' k = lookup s k)
    (hf : ∀ entry s s', lookup s entry.1 = some entry.2 → f entry s = .ok () s' → R s s')
    (hnodup : (entries.map Prod.fst).Nodup) {s s' : σ}
    (hs : ∀ entry ∈ entries, lookup s entry.1 = some entry.2)
    (h : forEach f entries s = .ok () s') :
    R s s' := by
  induction entries generalizing s with
  | nil =>
    cases h
    exact Std.Refl.refl _
  | cons entry entries ih =>
    rw [forEach_cons] at h
    obtain ⟨_, s₁, hentry, hrest⟩ := bind_ok.mp h
    rw [List.map_cons, List.nodup_cons] at hnodup
    refine IsTrans.trans _ _ _ (hf entry s s₁ (hs entry (List.mem_cons_self ..)) hentry)
      (ih hnodup.2 (fun entry' hmem => ?_) hrest)
    have hne : entry'.1 ≠ entry.1 := fun heq => hnodup.1 (heq ▸ List.mem_map_of_mem hmem)
    rw [hother entry s s₁ hentry _ hne]
    exact hs entry' (List.mem_cons_of_mem entry hmem)

/-- A loop over entries with different keys, where an iteration changes what is seen of its own
key by `R` and nothing that is seen of another: the same holds of the whole loop. -/
theorem forEach_ok_views {κ ν V : Type} (view : σ → κ → V) {R : κ × ν → V → V → Prop}
    {f : κ × ν → Tx σ ε Unit} {entries : List (κ × ν)}
    (hother : ∀ entry s s', f entry s = .ok () s' → ∀ k, k ≠ entry.1 → view s' k = view s k)
    (hown : ∀ entry s s', f entry s = .ok () s' → R entry (view s entry.1) (view s' entry.1))
    (hnodup : (entries.map Prod.fst).Nodup) {s s' : σ} (h : forEach f entries s = .ok () s') :
    (∀ entry ∈ entries, R entry (view s entry.1) (view s' entry.1)) ∧
      ∀ k, k ∉ entries.map Prod.fst → view s' k = view s k := by
  induction entries generalizing s with
  | nil =>
    cases h
    exact ⟨by simp, fun _ _ => rfl⟩
  | cons entry entries ih =>
    rw [forEach_cons] at h
    obtain ⟨_, s₁, hentry, hrest⟩ := bind_ok.mp h
    rw [List.map_cons, List.nodup_cons] at hnodup
    obtain ⟨hlisted, hunlisted⟩ := ih hnodup.2 hrest
    refine ⟨fun entry' hmem => ?_, fun k hk => ?_⟩
    · rcases List.mem_cons.mp hmem with rfl | hmem
      · -- The rest of the list does not come back to this key.
        rw [hunlisted _ hnodup.1]
        exact hown entry' s s₁ hentry
      · have hne : entry'.1 ≠ entry.1 := fun heq => hnodup.1 (heq ▸ List.mem_map_of_mem hmem)
        rw [← hother entry s s₁ hentry _ hne]
        exact hlisted entry' hmem
    · rw [List.map_cons, List.mem_cons, not_or] at hk
      rw [hunlisted k hk.2, hother entry s s₁ hentry k hk.1]

end Tx
