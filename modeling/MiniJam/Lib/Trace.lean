import MiniJam.Lib.Tx

/-!
# `MiniJam.Lib.Trace`: runs of a labelled transition system

A run is kept as its history: the transitions taken so far, the latest first. Every prefix
of a run is a run, so a statement about the last state of every run is a statement about
every state a run reaches.

`Trace.invariant` is the induction rule. The invariant may speak about the history, which
is how a fact about an earlier moment is carried to the present one.

A system of computations is one where every label stands for a run of a `Tx`. `Tx.Step` is
its step relation, and `Tx.perform` runs it on concrete labels.
-/

set_option autoImplicit false

/-- One transition of a run. -/
structure Transition (σ Λ : Type) where
  pre : σ
  label : Λ
  post : σ

/-- `Trace init step h s`: a run from an initial state with the history `h` is now in the
state `s`. -/
inductive Trace {σ Λ : Type} (init : σ → Prop) (step : σ → Λ → σ → Prop) :
    List (Transition σ Λ) → σ → Prop
  | start {s : σ} (hs : init s) : Trace init step [] s
  | extend {h : List (Transition σ Λ)} {s : σ} {l : Λ} {s' : σ} (hr : Trace init step h s)
      (hs : step s l s') : Trace init step (⟨s, l, s'⟩ :: h) s'

namespace Trace

variable {σ Λ : Type} {init : σ → Prop} {step : σ → Λ → σ → Prop} {h : List (Transition σ Λ)}
  {s : σ}

/-- A property of the history and the present state holds after every run when it holds at
the start and one step keeps it. -/
theorem invariant {I : List (Transition σ Λ) → σ → Prop} (hinit : ∀ s, init s → I [] s)
    (hstep : ∀ h s l s', I h s → step s l s' → I (⟨s, l, s'⟩ :: h) s') (hr : Trace init step h s) :
    I h s := by
  induction hr with
  | start hs => exact hinit _ hs
  | extend _ hs ih => exact hstep _ _ _ _ ih hs

/-- The form of `invariant` for a property of the present state. -/
theorem invariant_state {I : σ → Prop} (hinit : ∀ s, init s → I s)
    (hstep : ∀ s l s', I s → step s l s' → I s') (hr : Trace init step h s) : I s :=
  hr.invariant (I := fun _ s => I s) hinit fun _ s l s' hi hs => hstep s l s' hi hs

variable {init' : σ → Prop} {t : Transition σ Λ}

/-- A run whose steps are steps of a larger system is a run of that system. -/
theorem mono {step' : σ → Λ → σ → Prop} (hinit : ∀ s, init s → init' s)
    (hstep : ∀ s l s', step s l s' → step' s l s') (hr : Trace init step h s) :
    Trace init' step' h s := by
  induction hr with
  | start hs => exact .start (hinit _ hs)
  | extend _ hs ih => exact .extend ih (hstep _ _ _ hs)

/-- A run whose steps are, under other labels, steps of another system is a run of it. -/
theorem relabel {Λ' : Type} {step' : σ → Λ' → σ → Prop} (f : Λ → Λ') (hinit : ∀ s, init s → init' s)
    (hstep : ∀ s l s', step s l s' → step' s (f l) s') (hr : Trace init step h s) :
    Trace init' step' (h.map fun t => ⟨t.pre, f t.label, t.post⟩) s := by
  induction hr with
  | start hs => exact .start (hinit _ hs)
  | extend _ hs ih => exact .extend ih (hstep _ _ _ hs)

/-- The state a run started in. -/
def first (h : List (Transition σ Λ)) (s : σ) : σ := (h.getLast?.map Transition.pre).getD s

theorem first_cons (h : List (Transition σ Λ)) (s : σ) (l : Λ) (s' : σ) :
    first (⟨s, l, s'⟩ :: h) s' = first h s := by
  cases h with
  | nil => rfl
  | cons t h =>
    unfold first
    rw [List.getLast?_cons_cons]
    cases hlast : (t :: h).getLast? with
    | none => simp at hlast
    | some t' => rfl

/-- Every transition of the history is a step. -/
theorem steps (hr : Trace init step h s) : ∀ t ∈ h, step t.pre t.label t.post := by
  induction hr with
  | start _ => simp
  | extend _ hs ih => exact List.forall_mem_cons.mpr ⟨hs, ih⟩

/-- A transition of a run was taken from a state that a run reached. -/
theorem before {later earlier : List (Transition σ Λ)}
    (hr : Trace init step (later ++ t :: earlier) s) :
    Trace init step earlier t.pre ∧ step t.pre t.label t.post := by
  induction later generalizing s with
  | nil =>
    cases hr with
    | extend hr hs => exact ⟨hr, hs⟩
  | cons t' later ih =>
    cases hr with
    | extend hr _ => exact ih hr

/-- What holds of every state a run reaches holds around each of its transitions. -/
theorem around {I : σ → Prop} (hI : ∀ h s, Trace init step h s → I s) (hr : Trace init step h s)
    (ht : t ∈ h) : I t.pre ∧ I t.post := by
  obtain ⟨later, earlier, rfl⟩ := List.append_of_mem ht
  obtain ⟨hpre, hstep⟩ := hr.before
  exact ⟨hI _ _ hpre, hI _ _ (hpre.extend hstep)⟩

/-- A run and a later run from the state it reached are one run. -/
theorem append {h' : List (Transition σ Λ)} {s' : σ} (hr : Trace init step h s)
    (hlater : Trace (· = s) step h' s') : Trace init step (h' ++ h) s' := by
  induction hlater with
  | start hs =>
    subst hs
    exact hr
  | extend _ hs ih => exact .extend ih hs

/-- The transition gives the item a value that it did not have. -/
def Gives {α : Type} (f : σ → Option α) (t : Transition σ Λ) : Prop :=
  f t.post ≠ none ∧ f t.post ≠ f t.pre

/-- At most one transition of the history gives the item a value. -/
def GivenOnce {α : Type} (f : σ → Option α) (h : List (Transition σ Λ)) : Prop :=
  h.Pairwise fun t t' => ¬ (Gives f t ∧ Gives f t')

/-- An item that keeps every value it has is given one value at most. -/
theorem givenOnce_of_stable {α : Type} {f : σ → Option α} (hr : Trace init step h s)
    (hstable : ∀ t ∈ h, ∀ a, f t.pre = some a → f t.post = some a) : GivenOnce f h := by
  -- Once the item was given a value, it still has one.
  have hboth : GivenOnce f h ∧ ((∃ t ∈ h, Gives f t) → f s ≠ none) := by
    induction hr with
    | start _ => exact ⟨List.Pairwise.nil, by simp⟩
    | @extend h s l s' _ _ ih =>
      obtain ⟨honce, hhas⟩ := ih fun t ht => hstable t (List.mem_cons_of_mem _ ht)
      have hkeeps : ∀ a, f s = some a → f s' = some a := hstable _ List.mem_cons_self
      refine ⟨List.pairwise_cons.mpr ⟨fun t ht hgives => ?_, honce⟩, ?_⟩
      · obtain ⟨a, ha⟩ := Option.ne_none_iff_exists'.mp (hhas ⟨t, ht, hgives.2⟩)
        exact hgives.1.2 ((hkeeps a ha).trans ha.symm)
      · rintro ⟨t, ht, hgives⟩
        rcases List.mem_cons.mp ht with rfl | ht
        · exact hgives.1
        · obtain ⟨a, ha⟩ := Option.ne_none_iff_exists'.mp (hhas ⟨t, ht, hgives⟩)
          simp [hkeeps a ha]
  exact hboth.1

end Trace

/-! ### Systems of computations -/

namespace Tx

variable {A σ ε : Type} (run : A → Tx σ ε Unit)

/-- One step: an action with the error it returned, if any. A panic has no successor state. -/
def Step (s : σ) (l : A × Option ε) (s' : σ) : Prop :=
  match l.2 with
  | none => run l.1 s = .ok () s'
  | some e => run l.1 s = .err e s'

/-- Take the actions in order, as long as each returns. The history grows at its head. -/
def perform (h : List (Transition σ (A × Option ε))) (s : σ) :
    List A → Option (List (Transition σ (A × Option ε)) × σ)
  | [] => some (h, s)
  | a :: as =>
    match run a s with
    | .ok () s' => perform (⟨s, (a, none), s'⟩ :: h) s' as
    | _ => none

/-- Take the actions from the storage a computation returned. -/
def reach (start : Outcome σ ε Unit) (as : List A) :
    Option (List (Transition σ (A × Option ε)) × σ) :=
  match start with
  | .ok () s => perform run [] s as
  | _ => none

variable {run}

variable {init : σ → Prop}

/-- What `perform` reaches from a run is a run. -/
theorem perform_trace {h h' : List (Transition σ (A × Option ε))} {s s' : σ} {as : List A}
    (hr : Trace init (Step run) h s) (hp : perform run h s as = some (h', s')) :
    Trace init (Step run) h' s' := by
  induction as generalizing h s with
  | nil =>
    cases hp
    exact hr
  | cons a as ih =>
    rw [perform] at hp
    split at hp
    · rename_i s₁ hrun
      exact ih (hr.extend (l := (a, none)) hrun) hp
    · cases hp

/-- What holds of the history and the storage reached holds of a run. -/
theorem exists_trace {start : Outcome σ ε Unit} (hstart : ∀ s, start = .ok () s → init s)
    (as : List A) (P : List (Transition σ (A × Option ε)) → σ → Prop)
    (h : ∃ reached ∈ reach run start as, P reached.1 reached.2) :
    ∃ h s, Trace init (Step run) h s ∧ P h s := by
  obtain ⟨reached, hreach, h⟩ := h
  cases start with
  | ok u s => exact ⟨reached.1, reached.2, perform_trace (.start (hstart s rfl)) hreach, h⟩
  | err e s => cases hreach
  | panicked => cases hreach

end Tx
