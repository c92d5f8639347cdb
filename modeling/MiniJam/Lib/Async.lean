import Mathlib.Logic.Function.Basic
import Mathlib.Logic.Relation
import MiniJam.Lib.Trace

/-!
# `MiniJam.Lib.Async`: asynchronous calls that share locks

An `Async` is a call as the tree of what it does next: it takes or gives back a lock, accesses
the shared data, waits for an answer from outside, or is done. A guard that is dropped at the
end of a scope is `guarded`.

A `Pool` is a family of calls that are polled at the same time, with the owners of the locks,
the shared data and the world that answers. In one `Step` one call does the next thing it has
to do, or the world moves. A call at a lock that is taken has no step: it waits.

`wp` is the rule to reason about one call. It carries a local state of the reasoner's choice
through the tree. The pieces of a call compose by `wp_bind` and `wp_guarded`.
-/

set_option autoImplicit false

/-- A call that uses locks from `L`, asks `Q`, is answered with `A` and shares `σ`. -/
inductive Async (L Q : Type) (A : Q → Type) (σ α : Type) : Type where
  | done (a : α)
  | lock (m : L) (next : Async L Q A σ α)
  | unlock (m : L) (next : Async L Q A σ α)
  /-- Read the shared data and update it. -/
  | access (f : σ → σ) (next : σ → Async L Q A σ α)
  | await (q : Q) (next : A q → Async L Q A σ α)

namespace Async

variable {L Q σ α β : Type} {A : Q → Type}

protected def bind : Async L Q A σ α → (α → Async L Q A σ β) → Async L Q A σ β
  | done a, f => f a
  | lock m next, f => lock m (next.bind f)
  | unlock m next, f => unlock m (next.bind f)
  | access g next, f => access g fun s => (next s).bind f
  | await q next, f => await q fun a => (next a).bind f

instance : Monad (Async L Q A σ) where
  pure := done
  bind := Async.bind

/-- Give back locks in order. -/
def unlockAll (locks : List L) (next : Async L Q A σ α) : Async L Q A σ α := locks.foldr unlock next

/-- Hold a lock for the length of a scope. -/
def guarded (m : L) (body : Async L Q A σ α) : Async L Q A σ α :=
  lock m (body >>= fun a => unlock m (done a))

/-! ### Reasoning about one call -/

/-- What each thing a call can do means for the local state `X`, as a predicate on what follows
to a predicate on what is before. -/
structure Logic (L Q : Type) (A : Q → Type) (σ X : Type) where
  lock : L → (X → Prop) → X → Prop
  unlock : L → (X → Prop) → X → Prop
  access : (σ → σ) → (σ → X → Prop) → X → Prop
  await : (q : Q) → (A q → X → Prop) → X → Prop

variable {X : Type} (R : Logic L Q A σ X)

/-- From the local state `x` the call keeps to the rules and ends with a value and a local state
that `P` holds of. -/
def wp : Async L Q A σ α → (α → X → Prop) → X → Prop
  | done a, P => P a
  | lock m next, P => R.lock m (next.wp P)
  | unlock m next, P => R.unlock m (next.wp P)
  | access f next, P => R.access f fun s => (next s).wp P
  | await q next, P => R.await q fun a => (next a).wp P

/-- The rule for a sequence. -/
theorem wp_bind (t : Async L Q A σ α) (f : α → Async L Q A σ β) (P : β → X → Prop) :
    (t >>= f).wp R P = t.wp R fun a => (f a).wp R P := by
  induction t with
  | done a => rfl
  | lock m next ih => exact congrArg (R.lock m) ih
  | unlock m next ih => exact congrArg (R.unlock m) ih
  | access g next ih => exact congrArg (R.access g) (funext ih)
  | await q next ih => exact congrArg (R.await q) (funext ih)

/-- The rule for a guard. -/
theorem wp_guarded (m : L) (body : Async L Q A σ α) (P : α → X → Prop) :
    (guarded m body).wp R P = R.lock m (body.wp R fun a => R.unlock m (P a)) := by
  show R.lock m ((body >>= fun a => unlock m (done a)).wp R P) = _
  rw [wp_bind]
  rfl

/-- More is known before when more is asked for after. -/
structure Logic.Monotone (R : Logic L Q A σ X) : Prop where
  lock : ∀ m {P P' : X → Prop}, (∀ x, P x → P' x) → ∀ x, R.lock m P x → R.lock m P' x
  unlock : ∀ m {P P' : X → Prop}, (∀ x, P x → P' x) → ∀ x, R.unlock m P x → R.unlock m P' x
  access : ∀ f {P P' : σ → X → Prop}, (∀ s x, P s x → P' s x) →
    ∀ x, R.access f P x → R.access f P' x
  await : ∀ q {P P' : A q → X → Prop}, (∀ a x, P a x → P' a x) →
    ∀ x, R.await q P x → R.await q P' x

variable {R}

theorem wp_mono (hR : R.Monotone) {t : Async L Q A σ α} {P P' : α → X → Prop}
    (hP : ∀ a x, P a x → P' a x) {x : X} (h : t.wp R P x) : t.wp R P' x := by
  induction t generalizing x with
  | done a => exact hP a x h
  | lock m next ih => exact hR.lock m (fun _ => ih) x h
  | unlock m next ih => exact hR.unlock m (fun _ => ih) x h
  | access f next ih => exact hR.access f (fun s _ => ih s) x h
  | await q next ih => exact hR.await q (fun a _ => ih a) x h

end Async

/-! ### Calls at the same time -/

/-- The world that answers: what it may answer and how that changes it, and how it changes on
its own. -/
structure World (Q : Type) (A : Q → Type) (W : Type) where
  answers : W → (q : Q) → A q → W → Prop
  moves : W → W → Prop

/-- A world that gives any answer and remembers what was asked and answered, the latest first. -/
def World.log (Q : Type) (A : Q → Type) : World Q A (List (Sigma A)) where
  answers w q a w' := w' = ⟨q, a⟩ :: w
  moves _ _ := False

/-- Calls that are polled at the same time. -/
structure Pool (ι L Q : Type) (A : Q → Type) (σ W α : Type) where
  calls : ι → Async L Q A σ α
  owner : L → Option ι
  shared : σ
  world : W

namespace Pool

variable {ι L Q σ W α : Type} {A : Q → Type}

/-- What happened in a step. -/
inductive Event (ι L Q : Type) (A : Q → Type) where
  | lock (i : ι) (m : L)
  | unlock (i : ι) (m : L)
  | access (i : ι)
  | answer (i : ι) (q : Q) (a : A q)
  | move

/-- The pool before its calls do anything. -/
def start (calls : ι → Async L Q A σ α) (shared : σ) (world : W) : Pool ι L Q A σ W α where
  calls := calls
  owner _ := none
  shared := shared
  world := world

section
variable [DecidableEq ι] [DecidableEq L]

/-- The pool with the next of a call. -/
def put (s : Pool ι L Q A σ W α) (i : ι) (next : Async L Q A σ α) : Pool ι L Q A σ W α :=
  { s with calls := Function.update s.calls i next }

/-- The pool with an owner of a lock. -/
def give (s : Pool ι L Q A σ W α) (m : L) (owner : Option ι) : Pool ι L Q A σ W α :=
  { s with owner := Function.update s.owner m owner }

/-- One step of one call, or of the world. -/
inductive Step (E : World Q A W) (s : Pool ι L Q A σ W α) :
    Event ι L Q A → Pool ι L Q A σ W α → Prop where
  | lock {i : ι} {m : L} {next : Async L Q A σ α} (hcall : s.calls i = .lock m next)
      (hfree : s.owner m = none) : Step E s (.lock i m) ((s.put i next).give m (some i))
  | unlock {i : ι} {m : L} {next : Async L Q A σ α} (hcall : s.calls i = .unlock m next) :
      Step E s (.unlock i m) ((s.put i next).give m none)
  | access {i : ι} {f : σ → σ} {next : σ → Async L Q A σ α} (hcall : s.calls i = .access f next) :
      Step E s (.access i) { s.put i (next s.shared) with shared := f s.shared }
  | answer {i : ι} {q : Q} {next : A q → Async L Q A σ α} {a : A q} {w : W}
      (hcall : s.calls i = .await q next) (hanswer : E.answers s.world q a w) :
      Step E s (.answer i q a) { s.put i (next a) with world := w }
  | move {w : W} (hmove : E.moves s.world w) : Step E s .move { s with world := w }

end

/-- The answers of the history are ones that `ok` allows their call. -/
def Answered (ok : ι → W → (q : Q) → A q → Prop)
    (h : List (Transition (Pool ι L Q A σ W α) (Event ι L Q A))) : Prop :=
  ∀ t ∈ h, ∀ i q a, t.label = .answer i q a → ok i t.pre.world q a

/-- The test of `Answered`. -/
def answered (ok : ι → W → (q : Q) → A q → Bool)
    (h : List (Transition (Pool ι L Q A σ W α) (Event ι L Q A))) : Bool :=
  h.all fun t => match t.label with
    | .answer i q a => ok i t.pre.world q a
    | _ => true

theorem answered_sound {ok : ι → W → (q : Q) → A q → Bool}
    {h : List (Transition (Pool ι L Q A σ W α) (Event ι L Q A))} (hok : answered ok h = true) :
    Answered (fun i w q a => ok i w q a = true) h := by
  intro t ht i q a hlabel
  have hone := List.all_eq_true.mp hok t ht
  rwa [hlabel] at hone

/-! ### Schedules

To run a pool, somebody plays the world: asked in a world, they answer and give the world after
it, or they have no answer. -/

section
variable [DecidableEq ι] [DecidableEq L] {κ : Type} (player : κ → W → (q : Q) → Option (A q × W))

/-- Poll a call, with a player for the world if it asks. A call that is done or waits has no
step. -/
def poll (s : Pool ι L Q A σ W α) (i : ι) (k : κ) :
    Option (Event ι L Q A × Pool ι L Q A σ W α) :=
  match s.calls i with
  | .done _ => none
  | .lock m next =>
    match s.owner m with
    | none => some (.lock i m, (s.put i next).give m (some i))
    | some _ => none
  | .unlock m next => some (.unlock i m, (s.put i next).give m none)
  | .access f next => some (.access i, { s.put i (next s.shared) with shared := f s.shared })
  | .await q next =>
    match player k s.world q with
    | none => none
    | some (a, w) => some (.answer i q a, { s.put i (next a) with world := w })

/-- Poll calls in order, as long as each has a step. The history grows at its head. -/
def schedule (h : List (Transition (Pool ι L Q A σ W α) (Event ι L Q A)))
    (s : Pool ι L Q A σ W α) : List (ι × κ) →
    Option (List (Transition (Pool ι L Q A σ W α) (Event ι L Q A)) × Pool ι L Q A σ W α)
  | [] => some (h, s)
  | (i, k) :: rest =>
    match s.poll player i k with
    | none => none
    | some (e, s') => schedule (⟨s, e, s'⟩ :: h) s' rest

variable {player} {E : World Q A W} {s s' : Pool ι L Q A σ W α}

theorem poll_step (hplayer : ∀ k w q a w', player k w q = some (a, w') → E.answers w q a w') {i : ι}
    {k : κ} {e : Event ι L Q A} (h : s.poll player i k = some (e, s')) : Step E s e s' := by
  unfold poll at h
  split at h
  · cases h
  · rename_i m next hcall
    split at h
    · rename_i hfree
      cases h
      exact .lock hcall hfree
    · cases h
  · rename_i m next hcall
    cases h
    exact .unlock hcall
  · rename_i f next hcall
    cases h
    exact .access hcall
  · rename_i q next hcall
    split at h
    · cases h
    · rename_i a w hplayed
      cases h
      exact .answer hcall (hplayer _ _ _ _ _ hplayed)

theorem schedule_trace (hplayer : ∀ k w q a w', player k w q = some (a, w') → E.answers w q a w')
    {init : Pool ι L Q A σ W α → Prop}
    {h h' : List (Transition (Pool ι L Q A σ W α) (Event ι L Q A))} {polls : List (ι × κ)}
    (hr : Trace init (Step E) h s) (hs : schedule player h s polls = some (h', s')) :
    Trace init (Step E) h' s' := by
  induction polls generalizing h s with
  | nil =>
    cases hs
    exact hr
  | cons item rest ih =>
    rw [schedule] at hs
    split at hs
    · cases hs
    · rename_i hpoll
      exact ih (hr.extend (poll_step hplayer hpoll)) hs

/-- What holds of the history and the pool a schedule reaches holds of a run. -/
theorem exists_trace (hplayer : ∀ k w q a w', player k w q = some (a, w') → E.answers w q a w')
    (s : Pool ι L Q A σ W α) (polls : List (ι × κ))
    (P : List (Transition (Pool ι L Q A σ W α) (Event ι L Q A)) → Pool ι L Q A σ W α → Prop)
    (h : ∃ reached ∈ schedule player [] s polls, P reached.1 reached.2) :
    ∃ h s', Trace (· = s) (Step E) h s' ∧ P h s' := by
  obtain ⟨reached, hreached, h⟩ := h
  exact ⟨reached.1, reached.2, schedule_trace hplayer (.start rfl) hreached, h⟩

/-- A world that remembers, with fixed answers. -/
def record (answer : (q : Q) → A q) (w : List (Sigma A)) (q : Q) :
    Option (A q × List (Sigma A)) := some (answer q, ⟨q, answer q⟩ :: w)

/-- The form of `exists_trace` for a world that remembers. -/
theorem exists_trace_log (s : Pool ι L Q A σ (List (Sigma A)) α)
    (polls : List (ι × ((q : Q) → A q)))
    (P : List (Transition (Pool ι L Q A σ (List (Sigma A)) α) (Event ι L Q A)) →
      Pool ι L Q A σ (List (Sigma A)) α → Prop)
    (h : ∃ reached ∈ schedule record [] s polls, P reached.1 reached.2) :
    ∃ h s', Trace (· = s) (Step (World.log Q A)) h s' ∧ P h s' := by
  refine exists_trace (fun answer w q a w' hplayed => ?_) s polls P h
  cases hplayed
  rfl

end

end Pool
