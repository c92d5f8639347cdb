import MiniJam.Lib.Async

/-!
# `MiniJam.Lib.Monitor`: data that one lock protects

A `Monitor` is a lock with what holds of the world and the shared data whenever nobody has the
lock, and what holds of them always. A call only touches the data and the world while it has
the lock, so between two of its actions no other call does anything: the data stay as they were
and the world only moves on its own.

`Monitor.logic` is the rule for one call. A call that takes the lock learns the invariant, and a
call that gives it back owes it. `Guarded.of_trace` puts the calls of a pool together.
-/

set_option autoImplicit false

/-- One world is another at a later moment, whatever was asked in between. -/
def World.Later {Q W : Type} {A : Q → Type} (E : World Q A W) : W → W → Prop :=
  Relation.ReflTransGen fun w w' => E.moves w w' ∨ ∃ q a, E.answers w q a w'

/-- One world is another after moves of its own. -/
def World.Drifts {Q W : Type} {A : Q → Type} (E : World Q A W) : W → W → Prop :=
  Relation.ReflTransGen E.moves

theorem World.Drifts.later {Q W : Type} {A : Q → Type} {E : World Q A W} {w w' : W}
    (h : E.Drifts w w') : E.Later w w' := by
  induction h with
  | refl => exact .refl
  | tail _ hmove ih => exact ih.tail (.inl hmove)

/-- A world that only answers does not drift. -/
theorem World.drifts_log {Q : Type} {A : Q → Type} {w w' : List (Sigma A)}
    (h : (World.log Q A).Drifts w w') : w' = w := by
  induction h with
  | refl => rfl
  | tail _ hmove _ => exact hmove.elim

/-- A lock, what holds while it is free, and what holds always. -/
structure Monitor (L σ W : Type) where
  gate : L
  inv : W → σ → Prop
  always : W → σ → Prop

namespace Monitor

/-- Where a call is: without the lock, with the world it last saw, or with the lock, with the
world and the data after its last action. -/
inductive Place (σ W : Type) where
  | outside (w : W)
  | inside (w : W) (s : σ)

variable {L Q σ W α : Type} {A : Q → Type} (M : Monitor L σ W) (E : World Q A W)

/-- What a world does on its own keeps what the monitor says. -/
structure Stable : Prop where
  inv : ∀ w w' s, E.moves w w' → M.inv w s → M.inv w' s
  always : ∀ w w' s, E.moves w w' → M.always w s → M.always w' s

/-- The rules for a call whose answers are as `ok` says. -/
def logic [DecidableEq L] (ok : W → (q : Q) → A q → Prop) : Async.Logic L Q A σ (Place σ W) where
  lock m P
    | .outside w₀ =>
      if m = M.gate then ∀ w s, E.Later w₀ w → M.inv w s → P (.inside w s) else P (.outside w₀)
    | .inside w s => m ≠ M.gate ∧ P (.inside w s)
  unlock m P
    | .outside w => m ≠ M.gate ∧ P (.outside w)
    | .inside w s => if m = M.gate then M.inv w s ∧ P (.outside w) else P (.inside w s)
  access f P
    | .outside _ => False
    | .inside w s => M.always w (f s) ∧ P s (.inside w (f s))
  await q P
    | .outside _ => False
    | .inside w s => ∀ w₁ a w₂, E.Drifts w w₁ → ok w₁ q a → E.answers w₁ q a w₂ →
        M.always w₂ s ∧ P a (.inside w₂ s)

variable {M E}

/-- The invariant holds on while the world moves on its own. -/
theorem Stable.inv_of_drifts (hE : M.Stable E) {w w' : W} {shared : σ} (h : E.Drifts w w')
    (hinv : M.inv w shared) : M.inv w' shared := by
  induction h with
  | refl => exact hinv
  | tail _ hmove ih => exact hE.inv _ _ _ hmove ih

theorem Stable.always_of_drifts (hE : M.Stable E) {w w' : W} {shared : σ} (h : E.Drifts w w')
    (halways : M.always w shared) : M.always w' shared := by
  induction h with
  | refl => exact halways
  | tail _ hmove ih => exact hE.always _ _ _ hmove ih

/-! ### One call -/

section
variable [DecidableEq L] {ok : W → (q : Q) → A q → Prop} {m : L} {x : Place σ W}

/-- The postcondition of a rule may be weakened. -/
theorem logic_monotone : (M.logic E ok).Monotone where
  lock m P P' hP x h := by
    cases x with
    | outside w₀ =>
      simp only [logic] at h ⊢
      split
      · rename_i hm
        rw [if_pos hm] at h
        exact fun w s hlater hinv => hP _ (h w s hlater hinv)
      · rename_i hm
        rw [if_neg hm] at h
        exact hP _ h
    | inside w s => exact ⟨h.1, hP _ h.2⟩
  unlock m P P' hP x h := by
    cases x with
    | outside w => exact ⟨h.1, hP _ h.2⟩
    | inside w s =>
      simp only [logic] at h ⊢
      split
      · rename_i hm
        rw [if_pos hm] at h
        exact ⟨h.1, hP _ h.2⟩
      · rename_i hm
        rw [if_neg hm] at h
        exact hP _ h
  access f P P' hP x h := by
    cases x with
    | outside w => exact h
    | inside w s => exact ⟨h.1, hP _ _ h.2⟩
  await q P P' hP x h := by
    cases x with
    | outside w => exact h
    | inside w s =>
      intro w₁ a w₂ hdrifts hok hanswer
      exact ⟨(h w₁ a w₂ hdrifts hok hanswer).1, hP _ _ (h w₁ a w₂ hdrifts hok hanswer).2⟩

/-- Other locks mean nothing to the monitor. -/
theorem logic_lock_of_ne (hm : m ≠ M.gate) (P : Place σ W → Prop) :
    (M.logic E ok).lock m P x ↔ P x := by
  cases x with
  | outside w => simp only [logic, if_neg hm]
  | inside w s => simp only [logic, ne_eq, hm, not_false_eq_true, true_and]

@[inherit_doc logic_lock_of_ne]
theorem logic_unlock_of_ne (hm : m ≠ M.gate) (P : Place σ W → Prop) :
    (M.logic E ok).unlock m P x ↔ P x := by
  cases x with
  | outside w => simp only [logic, ne_eq, hm, not_false_eq_true, true_and]
  | inside w s => simp only [logic, if_neg hm]

theorem logic_lock_gate {w₀ : W} (P : Place σ W → Prop) :
    (M.logic E ok).lock M.gate P (.outside w₀) ↔
      ∀ w s, E.Later w₀ w → M.inv w s → P (.inside w s) := by
  simp only [logic, if_pos]

theorem logic_unlock_gate {w : W} {s : σ} (P : Place σ W → Prop) :
    (M.logic E ok).unlock M.gate P (.inside w s) ↔ M.inv w s ∧ P (.outside w) := by
  simp only [logic, if_pos]

variable {body : Async L Q A σ α} {P : α → Place σ W → Prop}

theorem wp_guarded_of_ne (hm : m ≠ M.gate) (h : body.wp (M.logic E ok) P x) :
    (Async.guarded m body).wp (M.logic E ok) P x := by
  rw [Async.wp_guarded, logic_lock_of_ne hm]
  refine Async.wp_mono logic_monotone (fun a x hP => ?_) h
  exact (logic_unlock_of_ne hm _).mpr hP

/-- A call that takes the lock works from the invariant to the invariant. -/
theorem wp_guarded_gate {w₀ : W}
    (h : ∀ w s, E.Later w₀ w → M.inv w s →
      body.wp (M.logic E ok) (fun a x => (M.logic E ok).unlock M.gate (P a) x) (.inside w s)) :
    (Async.guarded M.gate body).wp (M.logic E ok) P (.outside w₀) := by
  rw [Async.wp_guarded, logic_lock_gate]
  exact h

end

/-! ### Pre- and postconditions

Between taking and giving back the lock a call is inside, and what is known there is about the
world and the data only. -/

/-- The call is inside, where `I` holds. -/
def Inside (I : W → σ → Prop) : Place σ W → Prop
  | .outside _ => False
  | .inside w s => I w s

section
variable [DecidableEq L]

/-- Inside, the call takes `pre` to `post`. -/
def Triple (M : Monitor L σ W) (E : World Q A W) (ok : W → (q : Q) → A q → Prop)
    (pre : W → σ → Prop) (t : Async L Q A σ α) (post : α → W → σ → Prop) : Prop :=
  ∀ w s, pre w s → t.wp (M.logic E ok) (fun a => Inside (post a)) (.inside w s)

variable {β : Type} {ok : W → (q : Q) → A q → Prop} {pre pre' : W → σ → Prop}
  {t : Async L Q A σ α} {post post' : α → W → σ → Prop}

theorem Triple.done {a : α} (h : ∀ w s, pre w s → post a w s) :
    Triple M E ok pre (.done a) post := h

/-- The rule of consequence. -/
theorem Triple.conseq (ht : Triple M E ok pre t post) (hpre : ∀ w s, pre' w s → pre w s)
    (hpost : ∀ a w s, post a w s → post' a w s) : Triple M E ok pre' t post' := by
  intro w s h
  refine Async.wp_mono logic_monotone (fun a x hx => ?_) (ht w s (hpre w s h))
  cases x with
  | outside w => exact hx
  | inside w s => exact hpost a w s hx

/-- The rule for a sequence. -/
theorem Triple.bind {f : α → Async L Q A σ β} {mid : α → W → σ → Prop}
    {post : β → W → σ → Prop} (ht : Triple M E ok pre t mid)
    (hf : ∀ a, Triple M E ok (mid a) (f a) post) : Triple M E ok pre (t >>= f) post := by
  intro w s h
  rw [Async.wp_bind]
  refine Async.wp_mono logic_monotone (fun a x hx => ?_) (ht w s h)
  cases x with
  | outside w => exact hx.elim
  | inside w s => exact hf a w s hx

/-- The rule for the shared data. -/
theorem Triple.access {f : σ → σ} {next : σ → Async L Q A σ α} {mid : σ → W → σ → Prop}
    (halways : ∀ w s, pre w s → M.always w (f s)) (hmid : ∀ w s, pre w s → mid s w (f s))
    (hnext : ∀ s, Triple M E ok (mid s) (next s) post) :
    Triple M E ok pre (.access f next) post :=
  fun w s h => ⟨halways w s h, hnext s w (f s) (hmid w s h)⟩

theorem Triple.await {q : Q} {next : A q → Async L Q A σ α} {mid : A q → W → σ → Prop}
    (hmid : ∀ w s, pre w s → ∀ w₁ a w₂, E.Drifts w w₁ → ok w₁ q a → E.answers w₁ q a w₂ →
      M.always w₂ s ∧ mid a w₂ s)
    (hnext : ∀ a, Triple M E ok (mid a) (next a) post) :
    Triple M E ok pre (.await q next) post := by
  intro w s h w₁ a w₂ hdrifts hok hanswer
  obtain ⟨halways, hmid⟩ := hmid w s h w₁ a w₂ hdrifts hok hanswer
  exact ⟨halways, hnext a w₂ s hmid⟩

theorem Triple.guarded {m : L} (hm : m ≠ M.gate) (ht : Triple M E ok pre t post) :
    Triple M E ok pre (Async.guarded m t) post := fun w s h => wp_guarded_of_ne hm (ht w s h)

/-- A call that holds the lock for the length of its work. -/
theorem Triple.gate {R : α → W → Prop}
    (ht : Triple M E ok M.inv t fun a w s => M.inv w s ∧ R a w) (w₀ : W) :
    (Async.guarded M.gate t).wp (M.logic E ok) (fun a x => ∃ w, x = .outside w ∧ R a w)
      (.outside w₀) := by
  refine wp_guarded_gate fun w s _ hinv => ?_
  refine Async.wp_mono logic_monotone (fun a x hx => ?_) (ht w s hinv)
  cases x with
  | outside w => exact hx.elim
  | inside w s => exact (logic_unlock_gate _).mpr ⟨hx.1, w, rfl, hx.2⟩

end

/-! ### Pools -/

section
variable {ι : Type}

/-- A place fits the pool: it says who has the lock, and what it knows is still so. -/
def Fits (M : Monitor L σ W) (E : World Q A W) (s : Pool ι L Q A σ W α) (i : ι) :
    Place σ W → Prop
  | .outside w => s.owner M.gate ≠ some i ∧ E.Later w s.world
  | .inside w shared => s.owner M.gate = some i ∧ shared = s.shared ∧ E.Drifts w s.world

variable {i : ι}

/-- A call without the lock is outside. -/
theorem Fits.outside {s : Pool ι L Q A σ W α} {x : Place σ W} (h : Fits M E s i x)
    (howner : s.owner M.gate ≠ some i) : ∃ w, x = .outside w ∧ E.Later w s.world := by
  cases x with
  | outside w => exact ⟨w, rfl, h.2⟩
  | inside w shared => exact absurd h.1 howner

/-- Nobody but its owner has the lock. -/
theorem owner_ne_of_some {owner : Option ι} (h : owner = some i) {j : ι} (hj : j ≠ i) :
    owner ≠ some j := fun hother => hj (Option.some.inj (hother.symm.trans h))

variable [DecidableEq L]

/-- Every call of the pool keeps to the rules of the monitor and ends as `P` says. -/
structure Guarded (M : Monitor L σ W) (E : World Q A W) (ok : ι → W → (q : Q) → A q → Prop)
    (P : ι → α → Place σ W → Prop) (s : Pool ι L Q A σ W α) : Prop where
  calls : ∀ i, ∃ x, (s.calls i).wp (M.logic E (ok i)) (P i) x ∧ Fits M E s i x
  inv : s.owner M.gate = none → M.inv s.world s.shared
  always : M.always s.world s.shared

variable {ok : ι → W → (q : Q) → A q → Prop} {P : ι → α → Place σ W → Prop}
  {s s' : Pool ι L Q A σ W α}

theorem Guarded.move (h : Guarded M E ok P s) (hE : M.Stable E) {w' : W}
    (hmove : E.moves s.world w') : Guarded M E ok P { s with world := w' } := by
  refine ⟨fun i => ?_, fun hnone => hE.inv _ _ _ hmove (h.inv hnone),
    hE.always _ _ _ hmove h.always⟩
  obtain ⟨x, hx, hfits⟩ := h.calls i
  refine ⟨x, hx, ?_⟩
  cases x with
  | outside w => exact ⟨hfits.1, hfits.2.tail (.inl hmove)⟩
  | inside w shared => exact ⟨hfits.1, hfits.2.1, hfits.2.2.tail hmove⟩

variable [DecidableEq ι]

/-- The calls after one did something with the lock: the others are outside and stay there. -/
theorem Guarded.calls_of_turn (h : Guarded M E ok P s) (x : Place σ W)
    (hcalls : ∀ j, j ≠ i → s'.calls j = s.calls j)
    (hcall : (s'.calls i).wp (M.logic E (ok i)) (P i) x) (hfits : Fits M E s' i x)
    (hothers : ∀ j, j ≠ i → s.owner M.gate ≠ some j ∧ s'.owner M.gate ≠ some j)
    (hlater : E.Later s.world s'.world) (j : ι) :
    ∃ x, (s'.calls j).wp (M.logic E (ok j)) (P j) x ∧ Fits M E s' j x := by
  by_cases hj : j = i
  · subst hj
    exact ⟨x, hcall, hfits⟩
  · obtain ⟨y, hy, hfits⟩ := h.calls j
    obtain ⟨w, rfl, hw⟩ := hfits.outside (hothers j hj).1
    exact ⟨.outside w, (hcalls j hj).symm ▸ hy, (hothers j hj).2, hw.trans hlater⟩

/-- One of the calls passes another lock, which changes nothing for the monitor. -/
theorem Guarded.of_other (h : Guarded M E ok P s) {x : Place σ W}
    (hcalls : ∀ j, j ≠ i → s'.calls j = s.calls j)
    (hcall : (s'.calls i).wp (M.logic E (ok i)) (P i) x) (hfits : Fits M E s i x)
    (howner : s'.owner M.gate = s.owner M.gate) (hshared : s'.shared = s.shared)
    (hworld : s'.world = s.world) : Guarded M E ok P s' := by
  have hkeeps : ∀ j y, Fits M E s j y → Fits M E s' j y := by
    intro j y hy
    cases y <;> simpa only [Fits, howner, hshared, hworld] using hy
  refine ⟨fun j => ?_, fun hnone => ?_, ?_⟩
  · by_cases hj : j = i
    · subst hj
      exact ⟨x, hcall, hkeeps j x hfits⟩
    · obtain ⟨y, hy, hfits⟩ := h.calls j
      exact ⟨y, (hcalls j hj).symm ▸ hy, hkeeps j y hfits⟩
  · rw [hworld, hshared]
    exact h.inv (howner.symm.trans hnone)
  · rw [hworld, hshared]
    exact h.always

variable {next : Async L Q A σ α}

theorem Guarded.lock (h : Guarded M E ok P s) {m : L} (hcall : s.calls i = .lock m next)
    (hfree : s.owner m = none) : Guarded M E ok P ((s.put i next).give m (some i)) := by
  obtain ⟨x, hx, hfits⟩ := h.calls i
  rw [hcall] at hx
  have hnext : ((s.put i next).give m (some i)).calls i = next := Function.update_self ..
  have hcalls : ∀ j, j ≠ i → ((s.put i next).give m (some i)).calls j = s.calls j :=
    fun j hj => Function.update_of_ne hj _ _
  by_cases hm : m = M.gate
  · -- The lock was free, so the call was outside and learns the invariant.
    subst hm
    have howner : ((s.put i next).give M.gate (some i)).owner M.gate = some i :=
      Function.update_self ..
    obtain ⟨w₀, rfl, hlater⟩ := hfits.outside (by rw [hfree]; exact nofun)
    have hinside := (logic_lock_gate _).mp hx s.world s.shared hlater (h.inv hfree)
    refine ⟨h.calls_of_turn (.inside s.world s.shared) hcalls ?_ ⟨howner, rfl, .refl⟩
      (fun j hj => ⟨?_, owner_ne_of_some howner hj⟩) .refl, fun hnone => ?_, h.always⟩
    · rw [hnext]
      exact hinside
    · rw [hfree]
      exact nofun
    · exact absurd (howner.symm.trans hnone) nofun
  · refine h.of_other hcalls ?_ hfits (Function.update_of_ne (Ne.symm hm) ..) rfl rfl
    rw [hnext]
    exact (logic_lock_of_ne hm _).mp hx

theorem Guarded.unlock (h : Guarded M E ok P s) (hE : M.Stable E) {m : L}
    (hcall : s.calls i = .unlock m next) : Guarded M E ok P ((s.put i next).give m none) := by
  obtain ⟨x, hx, hfits⟩ := h.calls i
  rw [hcall] at hx
  have hnext : ((s.put i next).give m none).calls i = next := Function.update_self ..
  have hcalls : ∀ j, j ≠ i → ((s.put i next).give m none).calls j = s.calls j :=
    fun j hj => Function.update_of_ne hj _ _
  by_cases hm : m = M.gate
  · subst hm
    have howner : ((s.put i next).give M.gate none).owner M.gate = none := Function.update_self ..
    cases x with
    | outside w => exact absurd rfl hx.1
    | inside w shared =>
      obtain ⟨hhas, rfl, hdrifts⟩ := hfits
      obtain ⟨hinv, houtside⟩ := (logic_unlock_gate _).mp hx
      -- The call has restored the invariant, and now nobody is inside.
      have hnobody : ∀ j, ((s.put i next).give M.gate none).owner M.gate ≠ some j := by
        intro j
        rw [howner]
        exact nofun
      refine ⟨h.calls_of_turn (.outside w) hcalls ?_ ⟨hnobody i, hdrifts.later⟩
        (fun j hj => ⟨owner_ne_of_some hhas hj, hnobody j⟩) .refl,
        fun _ => hE.inv_of_drifts hdrifts hinv, h.always⟩
      rw [hnext]
      exact houtside
  · refine h.of_other hcalls ?_ hfits (Function.update_of_ne (Ne.symm hm) ..) rfl rfl
    rw [hnext]
    exact (logic_unlock_of_ne hm _).mp hx

theorem Guarded.access (h : Guarded M E ok P s) (hE : M.Stable E) {f : σ → σ}
    {next : σ → Async L Q A σ α} (hcall : s.calls i = .access f next) :
    Guarded M E ok P { s.put i (next s.shared) with shared := f s.shared } := by
  obtain ⟨x, hx, hfits⟩ := h.calls i
  rw [hcall] at hx
  cases x with
  | outside w => exact hx.elim
  | inside w shared =>
    obtain ⟨hhas, rfl, hdrifts⟩ := hfits
    refine ⟨h.calls_of_turn (.inside w (f s.shared)) (fun j hj => Function.update_of_ne hj _ _) ?_
      ⟨hhas, rfl, hdrifts⟩ (fun j hj => ⟨owner_ne_of_some hhas hj, owner_ne_of_some hhas hj⟩)
      .refl, fun hnone => ?_, hE.always_of_drifts hdrifts hx.1⟩
    · rw [show (s.put i (next s.shared)).calls i = next s.shared from Function.update_self ..]
      exact hx.2
    · exact absurd (hhas.symm.trans hnone) nofun

theorem Guarded.answer (h : Guarded M E ok P s) {q : Q} {next : A q → Async L Q A σ α} {a : A q}
    {w₂ : W} (hcall : s.calls i = .await q next) (hok : ok i s.world q a)
    (hanswer : E.answers s.world q a w₂) :
    Guarded M E ok P { s.put i (next a) with world := w₂ } := by
  obtain ⟨x, hx, hfits⟩ := h.calls i
  rw [hcall] at hx
  cases x with
  | outside w => exact hx.elim
  | inside w shared =>
    obtain ⟨hhas, rfl, hdrifts⟩ := hfits
    obtain ⟨halways, hinside⟩ := hx s.world a w₂ hdrifts hok hanswer
    refine ⟨h.calls_of_turn (.inside w₂ s.shared) (fun j hj => Function.update_of_ne hj _ _) ?_
      ⟨hhas, rfl, .refl⟩ (fun j hj => ⟨owner_ne_of_some hhas hj, owner_ne_of_some hhas hj⟩)
      (.single (.inr ⟨q, a, hanswer⟩)), fun hnone => ?_, halways⟩
    · rw [show (s.put i (next a)).calls i = next a from Function.update_self ..]
      exact hinside
    · exact absurd (hhas.symm.trans hnone) nofun

/-- One step keeps the calls to the rules. -/
theorem Guarded.step (h : Guarded M E ok P s) (hE : M.Stable E) {e : Pool.Event ι L Q A}
    (hok : ∀ i q a, e = .answer i q a → ok i s.world q a) (hstep : Pool.Step E s e s') :
    Guarded M E ok P s' := by
  cases hstep with
  | lock hcall hfree => exact h.lock hcall hfree
  | unlock hcall => exact h.unlock hE hcall
  | access hcall => exact h.access hE hcall
  | answer hcall hanswer => exact h.answer hcall (hok _ _ _ rfl) hanswer
  | move hmove => exact h.move hE hmove

/-- Calls that keep to the rules from the start keep to them in every run. -/
theorem Guarded.of_trace {calls : ι → Async L Q A σ α} {shared : σ} {w : W} (hE : M.Stable E)
    (hinv : M.inv w shared) (halways : M.always w shared)
    (hcalls : ∀ i, (calls i).wp (M.logic E (ok i)) (P i) (.outside w))
    {h : List (Transition (Pool ι L Q A σ W α) (Pool.Event ι L Q A))}
    (hr : Trace (· = Pool.start calls shared w) (Pool.Step E) h s) (hok : Pool.Answered ok h) :
    Guarded M E ok P s := by
  induction hr with
  | start hs =>
    subst hs
    exact ⟨fun i => ⟨_, hcalls i, by simp [Pool.start], .refl⟩, fun _ => hinv, halways⟩
  | extend hr hstep ih =>
    refine (ih fun t ht => hok t (List.mem_cons_of_mem _ ht)).step hE (fun i q a he => ?_) hstep
    exact hok _ List.mem_cons_self i q a he

end

end Monitor
