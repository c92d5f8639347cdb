import MiniJam.Proofs.IngressSteps
import MiniJam.Runtime.Reference

/-!
# `MiniJam.Proofs.Quarantine`: the quarantine of the execution queue

`quarantine_pending` puts the execution queue in the place of the quarantined one. No other
step writes the quarantined queue (`quarantineStep_keeps`). So the items of an earlier
quarantine last until the next one, and they are kept for good as long as every quarantine
finds the quarantined queue empty (`quarantined_items_stay`). A second quarantine loses them
(`second_quarantine_loses`).

The steps are those of the chain together with acceptances at any moment, from any storage.
-/

set_option autoImplicit false

namespace MiniJam.Jam

variable {AccountId Ledger : Type} {T : Config AccountId Ledger} {s s' : State T}

/-- The label of a `quarantine_pending` that succeeded. -/
def IsQuarantine (l : Chain.Label T ⊕ WorkId) : Prop :=
  ∃ origin, l = .inl (.extrinsic origin .quarantinePending, none)

instance (l : Chain.Label T ⊕ WorkId) : Decidable (IsQuarantine l) :=
  decidable_of_bool (l matches .inl (.extrinsic _ .quarantinePending, none)) <| by
    constructor
    · split
      · exact fun _ => ⟨_, rfl⟩
      · nofun
    · rintro ⟨origin, rfl⟩
      rfl

variable [DecidableEq AccountId]

/-- The steps around the execution queue: those of the chain, and acceptances on their own. -/
inductive QuarantineStep (T : Config AccountId Ledger) (s : State T) :
    Chain.Label T ⊕ WorkId → State T → Prop where
  | chain {l : Chain.Label T} {s' : State T} (h : Chain.Step T s l s') :
      QuarantineStep T s (.inl l) s'
  | accept {workId : WorkId} {s' : State T} (h : acceptCandidate workId s = .ok () s') :
      QuarantineStep T s (.inr workId) s'

variable {l : Chain.Label T ⊕ WorkId}

/-- A quarantine replaces the quarantined queue by the execution queue. -/
theorem quarantineStep_replaces (h : QuarantineStep T s l s') (hl : IsQuarantine l) :
    s'.quarantinedExecutionQueue = s.executionQueue := by
  obtain ⟨origin, rfl⟩ := hl
  cases h with
  | chain h =>
    obtain ⟨-, rfl⟩ := quarantinePending_ok (Tx.transaction_ok.mp h)
    rfl

/-- Every other step leaves the quarantined queue. -/
theorem quarantineStep_keeps (h : QuarantineStep T s l s') (hl : ¬ IsQuarantine l) :
    s'.quarantinedExecutionQueue = s.quarantinedExecutionQueue := by
  cases h with
  | chain h =>
    refine (ingressStep_of_step h).quarantine.resolve_right ?_
    rintro ⟨origin, hlabel⟩
    exact hl ⟨origin, congrArg Sum.inl hlabel⟩
  | accept h =>
    have hwithin := ((acceptItems_frame _).acceptCandidate fun _ _ => rfl).of_ok h
    exact hwithin.unchanged _ fun _ _ => rfl

/-- In every run in which each `quarantine_pending` finds the quarantined queue empty, every
item that one of them moved out of the execution queue is in the quarantined queue, in every
state reached. -/
theorem quarantined_items_stay
    (h : List (Transition (State T) (Chain.Label T ⊕ WorkId))) (s : State T)
    (hr : Trace (fun _ => True) (QuarantineStep T) h s)
    (hempty : ∀ t ∈ h, IsQuarantine t.label → t.pre.quarantinedExecutionQueue.toList = []) :
    ∀ t ∈ h, IsQuarantine t.label → ∀ item ∈ t.pre.executionQueue.toList,
      item ∈ s.quarantinedExecutionQueue.toList := by
  revert hempty
  refine Trace.invariant (I := fun h s =>
    (∀ t ∈ h, IsQuarantine t.label → t.pre.quarantinedExecutionQueue.toList = []) →
      ∀ t ∈ h, IsQuarantine t.label → ∀ item ∈ t.pre.executionQueue.toList,
        item ∈ s.quarantinedExecutionQueue.toList) ?_ ?_ hr
  · intro s _ _ t ht
    cases ht
  · intro h s l s' ih hstep hempty t ht hquarantine item hitem
    have hold : ∀ t ∈ h, IsQuarantine t.label → ∀ item ∈ t.pre.executionQueue.toList,
        item ∈ s.quarantinedExecutionQueue.toList :=
      ih fun t ht => hempty t (List.mem_cons_of_mem _ ht)
    by_cases hl : IsQuarantine l
    · rw [quarantineStep_replaces hstep hl]
      rcases List.mem_cons.mp ht with rfl | ht
      · exact hitem
      · -- An earlier item would be in a queue that this quarantine found empty.
        have hlost := hold t ht hquarantine item hitem
        rw [hempty _ List.mem_cons_self hl] at hlost
        cases hlost
    · rw [quarantineStep_keeps hstep hl]
      rcases List.mem_cons.mp ht with rfl | ht
      · exact absurd hquarantine hl
      · exact hold t ht hquarantine item hitem

open Reference

/-- What holds after the actions, with the history as one of these steps. -/
theorem exists_quarantineTrace (actions : List (Action (runtime consumeAll)))
    (P : List (Transition (State (runtime consumeAll)) (Chain.Label _ ⊕ WorkId)) →
      State (runtime consumeAll) → Prop)
    (h : ∃ r ∈ reached _ actions,
      P (r.1.map fun t => ⟨t.pre, .inl t.label, t.post⟩) r.2) :
    ∃ h s, Trace (fun _ => True) (QuarantineStep (runtime consumeAll)) h s ∧
      P h s := by
  obtain ⟨h, s, hrun, hP⟩ := exists_history _ actions
    (fun h s => P (h.map fun t => ⟨t.pre, .inl t.label, t.post⟩) s) h
  exact ⟨_, s, hrun.relabel Sum.inl (fun _ _ => trivial) fun _ _ _ hstep => .chain hstep, hP⟩

/-- One accepted work and one quarantine: the item it moved is there. -/
theorem quarantined_items_stay_once : ∃ h s,
    Trace (fun _ => True) (QuarantineStep (runtime consumeAll)) h s ∧
    (∀ t ∈ h, IsQuarantine t.label → t.pre.quarantinedExecutionQueue.toList = []) ∧
    (∃ t ∈ h, IsQuarantine t.label ∧ t.pre.executionQueue.toList ≠ []) ∧
    ∀ t ∈ h, IsQuarantine t.label → ∀ item ∈ t.pre.executionQueue.toList,
      item ∈ s.quarantinedExecutionQueue.toList := by
  obtain ⟨h, s, htrace, hempty, hmoves⟩ := exists_quarantineTrace
    (voteThrough 0 2 1 ++
      [.jamOnInitialize 1, .extrinsic .root .quarantinePending, .onFinalize 1])
    (fun h _ =>
      (∀ t ∈ h, IsQuarantine t.label → t.pre.quarantinedExecutionQueue.toList = []) ∧
      ∃ t ∈ h, IsQuarantine t.label ∧ t.pre.executionQueue.toList ≠ []) (by decide +kernel)
  exact ⟨h, s, htrace, hempty, hmoves, quarantined_items_stay h s htrace hempty⟩

/-- Two works, each accepted and then quarantined: the item of the first is in neither queue,
and its work is still accepted. -/
theorem second_quarantine_loses : ∃ h s,
    Trace (fun _ => True) (QuarantineStep (runtime consumeAll)) h s ∧
    ∃ t ∈ h, IsQuarantine t.label ∧ ∃ item ∈ t.pre.executionQueue.toList,
      item ∉ s.quarantinedExecutionQueue.toList ∧ item ∉ s.executionQueue.toList ∧
      ∃ work, s.works.lookup item.workId = some work ∧ work.status = .accepted :=
  exists_quarantineTrace
    (voteThrough 0 2 1 ++ [.jamOnInitialize 1, .extrinsic .root .quarantinePending] ++
      voteThrough 1 2 2 ++ [.jamOnInitialize 1, .extrinsic .root .quarantinePending])
    _ (by decide +kernel)

end MiniJam.Jam
