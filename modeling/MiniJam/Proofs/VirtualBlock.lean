import MiniJam.Jam.Execution
import MiniJam.Proofs.Footprints

/-!
# `MiniJam.Proofs.VirtualBlock`: what the end-of-block hook can do

`onFinalize_cases` inverts a run of the hook that returns: the output of the executor was
committed, or the block was refused and its failure handled, from the storage the block
started from. A fatal failure panics, so it is not among them.

A refusal is decided before anything is written, and the commit itself fails only fatally
(`commitOutput_ends`). `commitOutput_ok` splits a commit into its five parts,
and the footprint lemmas say which storage items each part may write.
-/

set_option autoImplicit false

namespace MiniJam.Jam

variable {AccountId Ledger : Type} {T : Config AccountId Ledger} {s s' : State T}
  {block : BlockNumber}

/-! ### The queue split -/

/-- The split keeps every item, and no more items are due than the limit allows. -/
theorem splitQueue_spec (maxReports : Nat) (paused : Bool) (block : BlockNumber)
    (queue : List ExecutionItem) :
    ((splitQueue maxReports paused block queue).1 ++
      (splitQueue maxReports paused block queue).2).Perm queue ∧
    (splitQueue maxReports paused block queue).1.length ≤ maxReports := by
  -- The invariant of the fold, over the items already looked at.
  suffices h : ∀ (queue : List ExecutionItem) (acc : List ExecutionItem × List ExecutionItem),
      acc.1.length ≤ maxReports →
      let r := queue.foldl (fun acc item =>
        if !paused ∧ item.executeAt ≤ block ∧ acc.1.length < maxReports then
          (acc.1 ++ [item], acc.2)
        else (acc.1, acc.2 ++ [item])) acc
      (r.1 ++ r.2).Perm (acc.1 ++ acc.2 ++ queue) ∧ r.1.length ≤ maxReports by
    simpa [splitQueue] using h queue ([], []) (Nat.zero_le _)
  intro queue
  induction queue with
  | nil =>
    intro acc hacc
    exact ⟨by simp, hacc⟩
  | cons item queue ih =>
    intro acc hacc
    rw [List.foldl_cons]
    split_ifs with hdue
    · obtain ⟨hperm, hlen⟩ := ih (acc.1 ++ [item], acc.2) (by simp; omega)
      refine ⟨hperm.trans ?_, hlen⟩
      simp only [List.append_assoc, List.singleton_append]
      exact (List.perm_middle.symm).append_left acc.1
    · obtain ⟨hperm, hlen⟩ := ih (acc.1, acc.2 ++ [item]) hacc
      refine ⟨hperm.trans ?_, hlen⟩
      simp

/-- When reports are not paused and every item is old enough and has room, all are due. -/
theorem splitQueue_all {maxReports : Nat} {queue : List ExecutionItem}
    (hlength : queue.length ≤ maxReports) (hage : ∀ item ∈ queue, item.executeAt ≤ block) :
    splitQueue maxReports false block queue = (queue, []) := by
  -- By induction, for any accumulator that has room.
  suffices h : ∀ (queue : List ExecutionItem) (acc : List ExecutionItem × List ExecutionItem),
      acc.1.length + queue.length ≤ maxReports → (∀ item ∈ queue, item.executeAt ≤ block) →
      queue.foldl (fun acc item =>
        if !false ∧ item.executeAt ≤ block ∧ acc.1.length < maxReports then
          (acc.1 ++ [item], acc.2)
        else (acc.1, acc.2 ++ [item])) acc = (acc.1 ++ queue, acc.2) by
    exact h queue ([], []) (by simpa using hlength) hage
  intro queue
  induction queue with
  | nil =>
    intro acc _ _
    rw [List.foldl_nil, List.append_nil]
  | cons item queue ih =>
    intro acc hroom hage
    rw [List.length_cons] at hroom
    have hdue : (!false) = true ∧ item.executeAt ≤ block ∧ acc.1.length < maxReports :=
      ⟨rfl, hage item (List.mem_cons_self ..), by omega⟩
    rw [List.foldl_cons, if_pos hdue, ih (acc.1 ++ [item], acc.2)
      (by rw [List.length_append, List.length_singleton]; omega)
      fun i hi => hage i (List.mem_cons_of_mem item hi)]
    rw [List.append_assoc, List.singleton_append]

/-- The due and the retained items together are the queue. -/
theorem due_append_retained_perm (s : State T) (block : BlockNumber) :
    (dueItems s block ++ retainedItems s block).Perm s.executionQueue.toList :=
  ((sortByKey_perm _ _).append_right _).trans (splitQueue_spec _ _ _ _).1

/-- An item of the queue is due or retained. -/
theorem mem_queue_iff {item : ExecutionItem} :
    item ∈ s.executionQueue.toList ↔ item ∈ dueItems s block ∨ item ∈ retainedItems s block := by
  rw [← (due_append_retained_perm s block).mem_iff, List.mem_append]

/-- No more items are due than a block takes. -/
theorem length_dueItems_le (s : State T) (block : BlockNumber) :
    (dueItems s block).length ≤ T.maxExecutionReports.toNat := by
  rw [dueItems, (sortByKey_perm _ _).length_eq]
  exact (splitQueue_spec _ _ _ _).2

/-- What stays in the queue fits the queue. -/
theorem length_retainedItems_le (s : State T) (block : BlockNumber) :
    (retainedItems s block).length ≤ T.maxPendingWorks.toNat := by
  have := (due_append_retained_perm s block).length_eq
  have := s.executionQueue.length_le
  simp at *
  omega

/-- What is retained fits into the queue. -/
theorem tryFrom_retainedItems (s : State T) (block : BlockNumber) :
    ∃ bounded : BoundedVec ExecutionItem T.maxPendingWorks.toNat,
      BoundedVec.tryFrom (retainedItems s block) = some bounded ∧
      bounded.toList = retainedItems s block :=
  ⟨⟨_, length_retainedItems_le s block⟩, BoundedVec.tryFrom_eq_some.mpr rfl, rfl⟩

/-! ### Footprints of the parts of a commit -/

theorem applyChange_within (change : ProtocolStateChange) :
    Tx.Rel protocolStateItems.Within (applyChange change : X T Unit) := by
  unfold applyChange
  cases change.operation with
  | remove => exact Tx.Rel.modify fun _ => rfl
  | upsert => exact Tx.Rel.bind (Tx.Rel.okOr _ _) fun _ => Tx.Rel.modify fun _ => rfl
  | update => exact Tx.Rel.bind (Tx.Rel.okOr _ _) fun _ => Tx.Rel.modify fun _ => rfl

theorem applyDelta_within (delta : ValidatedDelta) :
    Tx.Rel protocolStateItems.Within (applyDelta delta : X T Unit) :=
  Tx.Rel.forEach fun change _ => applyChange_within change

theorem processAllocation_within {ε : Type} (allocationId : UInt64)
    (pending : PendingAllocation AccountId) :
    Tx.Rel allocationItems.Within (processAllocation allocationId pending :
      Tx (State T) ε Unit) :=
  Tx.Rel.bind (Tx.Rel.modify fun _ => rfl) fun _ => Tx.Rel.modify fun _ => rfl

theorem consumeAllocationAfterTransition_within (allocationId : UInt64) :
    Tx.Rel allocationItems.Within (consumeAllocationAfterTransition allocationId : X T Unit) :=
  Tx.Rel.bind Tx.Rel.read fun _ => Tx.Rel.bind (Tx.Rel.ensure _ _) fun _ =>
    Tx.Rel.bind (Tx.Rel.okOr _ _) fun _ => processAllocation_within _ _

theorem consumeIfConfirmed_within (changes : List ProtocolStateChange)
    (pending : PendingAllocation AccountId) :
    Tx.Rel allocationItems.Within (consumeIfConfirmed changes pending : X T Unit) := by
  unfold consumeIfConfirmed
  dsimp only
  split
  · exact Tx.Rel.pure ()
  · refine Tx.Rel.bind (Tx.Rel.okOr _ _) fun value => Tx.Rel.bind (Tx.Rel.ensure _ _) fun _ => ?_
    exact Tx.Rel.ite (consumeAllocationAfterTransition_within _) (Tx.Rel.pure ())

theorem consumeSuccessfulAllocations_within (changes : List ProtocolStateChange) :
    Tx.Rel allocationItems.Within (consumeSuccessfulAllocations changes : X T Unit) :=
  Tx.Rel.bind Tx.Rel.read fun _ => Tx.Rel.forEach fun _ _ => consumeIfConfirmed_within _ _

theorem consumePreimages_within (consumed : List Hash) :
    Tx.Rel preimageItems.Within (consumePreimages consumed : X T Unit) :=
  Tx.Rel.ite (Tx.Rel.pure ()) (Tx.Rel.modify fun _ => rfl)

theorem consumeSystemOps_within (consumed : List Hash) :
    Tx.Rel systemOpItems.Within (consumeSystemOps consumed : X T Unit) :=
  Tx.Rel.ite (Tx.Rel.pure ()) (Tx.Rel.modify fun _ => rfl)

theorem importReport_within (output : MiniJamExecutionOutput) (workId : WorkId) :
    Tx.Rel importItems.Within (importReport output workId : X T Unit) := by
  refine Tx.Rel.bind Tx.Rel.read fun s => Tx.Rel.bind (Tx.Rel.okOr _ _) fun found => ?_
  refine Tx.Rel.ite ?_ (Tx.Rel.pure ())
  refine Tx.Rel.bind (Tx.Rel.okOr _ _) fun work => ?_
  exact Tx.Rel.bind (Tx.Rel.modify fun _ => rfl) fun _ => Tx.Rel.modify fun _ => rfl

theorem importReports_within (output : MiniJamExecutionOutput) (workIds : List WorkId) :
    Tx.Rel importItems.Within (Tx.forEach (importReport output) workIds : X T Unit) :=
  Tx.Rel.forEach fun _ _ => importReport_within _ _

/-! ### Inverting a commit -/

variable {input : MiniJamExecutionInput} {output : MiniJamExecutionOutput} {delta : ValidatedDelta}

/-- A commit runs its five parts in order and then records the receipt. -/
theorem commitOutput_ok {workIds : List WorkId} {summary : BlockStfSummary}
    (h : commitOutput workIds input output delta s = .ok summary s') :
    ∃ s₁ s₂ s₃ s₄ s₅, applyDelta delta s = .ok () s₁ ∧
      consumeSuccessfulAllocations delta.changes s₁ = .ok () s₂ ∧
      consumePreimages output.consumedPreimages.toList s₂ = .ok () s₃ ∧
      consumeSystemOps output.consumedSystemOps.toList s₃ = .ok () s₄ ∧
      Tx.forEach (importReport output) workIds s₄ = .ok () s₅ ∧
      s' = { s₅ with lastExecutionReceipt := some output.receiptHash } := by
  obtain ⟨_, s₁, h₁, h⟩ := Tx.bind_ok.mp h
  obtain ⟨_, s₂, h₂, h⟩ := Tx.bind_ok.mp h
  obtain ⟨_, s₃, h₃, h⟩ := Tx.bind_ok.mp h
  obtain ⟨_, s₄, h₄, h⟩ := Tx.bind_ok.mp h
  obtain ⟨_, s₅, h₅, h⟩ := Tx.bind_ok.mp h
  obtain ⟨rfl, rfl⟩ : _ = summary ∧ _ = s' := by simpa using h
  exact ⟨s₁, s₂, s₃, s₄, s₅, h₁, h₂, h₃, h₄, h₅, rfl⟩

/-- A commit imports the reports after the other parts, which write items of their own. -/
theorem commitOutput_imports {workIds : List WorkId} {summary : BlockStfSummary}
    (h : commitOutput workIds input output delta s = .ok summary s') :
    ∃ s₁ s₂, consumeItems.Within s s₁ ∧ Tx.forEach (importReport output) workIds s₁ = .ok () s₂ ∧
      s' = { s₂ with lastExecutionReceipt := some output.receiptHash } := by
  obtain ⟨s₁, s₂, s₃, s₄, s₅, h₁, h₂, h₃, h₄, h₅, hs'⟩ := commitOutput_ok h
  obtain ⟨_, rfl⟩ := ((applyDelta_within delta).of_ok h₁).exists_put
  obtain ⟨_, rfl⟩ := ((consumeSuccessfulAllocations_within _).of_ok h₂).exists_put
  obtain ⟨_, rfl⟩ := ((consumePreimages_within _).of_ok h₃).exists_put
  obtain ⟨_, rfl⟩ := ((consumeSystemOps_within _).of_ok h₄).exists_put
  refine ⟨_, s₅, ?_, h₅, hs'⟩
  exact rfl

theorem applyChange_ends (change : ProtocolStateChange) :
    Tx.Ends (· = .fatal) (applyChange change : X T Unit) := by
  unfold applyChange
  cases change.operation with
  | remove => exact Tx.Ends.modify _
  | upsert => exact Tx.Ends.bind (Tx.Ends.okOr _ rfl) fun _ => Tx.Ends.modify _
  | update => exact Tx.Ends.bind (Tx.Ends.okOr _ rfl) fun _ => Tx.Ends.modify _

theorem consumeIfConfirmed_ends (changes : List ProtocolStateChange)
    (pending : PendingAllocation AccountId) :
    Tx.Ends (· = .fatal) (consumeIfConfirmed changes pending : X T Unit) := by
  unfold consumeIfConfirmed
  dsimp only
  split
  · exact Tx.Ends.pure ()
  · refine Tx.Ends.bind (Tx.Ends.okOr _ rfl) fun value =>
      Tx.Ends.bind (Tx.Ends.ensure _ rfl) fun _ => Tx.Ends.ite ?_ (Tx.Ends.pure ())
    exact Tx.Ends.bind Tx.Ends.read fun _ => Tx.Ends.bind (Tx.Ends.ensure _ rfl) fun _ =>
      Tx.Ends.bind (Tx.Ends.okOr _ rfl) fun _ =>
        Tx.Ends.bind (Tx.Ends.modify _) fun _ => Tx.Ends.modify _

theorem importReport_ends (output : MiniJamExecutionOutput) (workId : WorkId) :
    Tx.Ends (· = .fatal) (importReport output workId : X T Unit) := by
  refine Tx.Ends.bind Tx.Ends.read fun s => Tx.Ends.bind (Tx.Ends.okOr _ rfl) fun found =>
    Tx.Ends.ite ?_ (Tx.Ends.pure ())
  exact Tx.Ends.bind (Tx.Ends.okOr _ rfl) fun _ =>
    Tx.Ends.bind (Tx.Ends.modify _) fun _ => Tx.Ends.modify _

/-- A commit that fails part way fails fatally. -/
theorem commitOutput_ends (workIds : List WorkId) (input : MiniJamExecutionInput)
    (output : MiniJamExecutionOutput) (delta : ValidatedDelta) :
    Tx.Ends (· = .fatal) (commitOutput workIds input output delta : X T BlockStfSummary) := by
  refine Tx.Ends.bind (Tx.Ends.forEach applyChange_ends _) fun _ =>
    Tx.Ends.bind (Tx.Ends.bind Tx.Ends.read fun _ =>
      Tx.Ends.forEach (consumeIfConfirmed_ends _) _) fun _ =>
    Tx.Ends.bind (Tx.Ends.ite (Tx.Ends.pure ()) (Tx.Ends.modify _)) fun _ =>
    Tx.Ends.bind (Tx.Ends.ite (Tx.Ends.pure ()) (Tx.Ends.modify _)) fun _ =>
    Tx.Ends.bind (Tx.Ends.forEach (importReport_ends output) _) fun _ =>
    Tx.Ends.bind (Tx.Ends.modify _) fun _ => Tx.Ends.pure _

/-! ### Inverting the hook -/

/-- The block built an input, the executor answered it, and the output passed the check. -/
structure Answered (s : State T) (block : BlockNumber) (input : MiniJamExecutionInput)
    (output : MiniJamExecutionOutput) (delta : ValidatedDelta) : Prop where
  input_eq : executionInput s block (dueItems s block) = .ok input
  execute_eq : T.executor.execute input s.protocolReader = .ok output
  validate_eq : validateExecutionOutput T.workers.crypto input output s.protocolReader = .ok delta

/-- The input of a block with the checked output the executor answers it with, if there is
one. -/
def answered (s : State T) (block : BlockNumber) :
    Option (MiniJamExecutionInput × MiniJamExecutionOutput × ValidatedDelta) :=
  match executionInput s block (dueItems s block) with
  | .error _ => none
  | .ok input =>
    match T.executor.execute input s.protocolReader with
    | .error _ => none
    | .ok output =>
      match validateExecutionOutput T.workers.crypto input output s.protocolReader with
      | .error _ => none
      | .ok delta => some (input, output, delta)

theorem answered_eq_some (h : answered s block = some (input, output, delta)) :
    Answered s block input output delta := by
  unfold answered at h
  split at h
  · cases h
  · rename_i input' hinput
    split at h
    · cases h
    · rename_i output' hexecute
      split at h
      · cases h
      · rename_i delta' hvalidate
        cases h
        exact ⟨hinput, hexecute, hvalidate⟩

theorem Answered.answered_eq (h : Answered s block input output delta) :
    answered s block = some (input, output, delta) := by
  unfold answered
  rw [h.input_eq]
  dsimp only
  rw [h.execute_eq]
  dsimp only
  rw [h.validate_eq]

theorem answered_eq_none (h : ∀ input output delta, ¬ Answered s block input output delta) :
    answered s block = none := by
  cases hanswered : answered s block with
  | none => rfl
  | some answer => exact absurd (answered_eq_some hanswered) (h _ _ _)

/-- Why a virtual block was not committed: its input could not be built, the executor
refused it, its output failed the check, or the commit ran into a fatal failure. -/
inductive Refused (s : State T) (block : BlockNumber) : ExecutionFailure → Prop where
  | input {e : ExecutionFailure} (h : executionInput s block (dueItems s block) = .error e) :
      Refused s block e
  | executor {input : MiniJamExecutionInput} {e : MiniJamError}
      (hinput : executionInput s block (dueItems s block) = .ok input)
      (h : T.executor.execute input s.protocolReader = .error e) :
      Refused s block (executionFailure ((dueItems s block).map ExecutionItem.workId) input e)
  | output {input : MiniJamExecutionInput} {output : MiniJamExecutionOutput}
      {e : ValidationError} (hinput : executionInput s block (dueItems s block) = .ok input)
      (hexecute : T.executor.execute input s.protocolReader = .ok output)
      (h : validateExecutionOutput T.workers.crypto input output s.protocolReader = .error e) :
      Refused s block (mapValidationError input e)
  | commit {input : MiniJamExecutionInput} {output : MiniJamExecutionOutput}
      {delta : ValidatedDelta} {s₁ : State T} (ha : Answered s block input output delta)
      (h : commitOutput ((dueItems s block).map ExecutionItem.workId) input output delta s =
        .err .fatal s₁) :
      Refused s block .fatal

/-- The committed storage: what the commit left, with the retained items as the queue. -/
def withQueue (s : State T) (queue : BoundedVec ExecutionItem T.maxPendingWorks.toNat) :
    State T := { s with executionQueue := queue }

/-- The inner function either commits an answered block or refuses it. -/
theorem executeBlockStfInner_cases (s : State T) (block : BlockNumber) :
    (∃ input output delta, Answered s block input output delta ∧
      executeBlockStfInner block (dueItems s block) s =
        commitOutput ((dueItems s block).map ExecutionItem.workId) input output delta s) ∨
    ∃ e, Refused s block e ∧ executeBlockStfInner block (dueItems s block) s = .err e s := by
  unfold executeBlockStfInner
  rw [Tx.read_bind_apply, Tx.bind_apply]
  cases hinput : executionInput s block (dueItems s block) with
  | error e => exact Or.inr ⟨e, .input hinput, rfl⟩
  | ok input =>
    dsimp only [Tx.lift]
    cases hexecute : T.executor.execute input s.protocolReader with
    | error e => exact Or.inr ⟨_, .executor hinput hexecute, rfl⟩
    | ok output =>
      dsimp only
      cases hvalidate : validateExecutionOutput T.workers.crypto input output
          s.protocolReader with
      | error e => exact Or.inr ⟨_, .output hinput hexecute hvalidate, rfl⟩
      | ok delta => exact Or.inl ⟨input, output, delta, ⟨hinput, hexecute, hvalidate⟩, rfl⟩

/-- The transaction commits an answered block with the retained queue, or it refuses the
block and leaves the storage as it was. -/
theorem runBlockStf_cases (s : State T) (block : BlockNumber) :
    (∃ input output delta summary s₁ queue, Answered s block input output delta ∧
      commitOutput ((dueItems s block).map ExecutionItem.workId) input output delta s =
        .ok summary s₁ ∧
      queue.toList = retainedItems s block ∧
      runBlockStf block s = .ok summary (withQueue s₁ queue)) ∨
    ∃ e, Refused s block e ∧ runBlockStf block s = .err e s := by
  obtain ⟨queue, htry, hqueue⟩ := tryFrom_retainedItems s block
  unfold runBlockStf
  rw [Tx.read_bind_apply]
  unfold Tx.transaction
  rw [Tx.bind_apply]
  rcases executeBlockStfInner_cases s block with ⟨input, output, delta, ha, heq⟩ | ⟨e, hr, heq⟩
  · rw [heq]
    have hends := commitOutput_ends (T := T) ((dueItems s block).map ExecutionItem.workId) input
      output delta
    cases hc : commitOutput ((dueItems s block).map ExecutionItem.workId) input output delta s with
    | ok summary s₁ =>
      refine Or.inl ⟨input, output, delta, summary, s₁, queue, ha, hc, hqueue, ?_⟩
      rw [htry]
      rfl
    | err e s₁ =>
      cases hends.of_err hc
      exact Or.inr ⟨_, .commit ha hc, rfl⟩
    | panicked => exact absurd hc (hends.not_panicked s)
  · rw [heq]
    exact Or.inr ⟨e, hr, rfl⟩

variable {e : ExecutionFailure}

/-- The transaction around a failed block leaves the storage it started from, whatever the
block had written. -/
theorem runBlockStf_of_err {s₁ : State T}
    (h : executeBlockStfInner block (dueItems s block) s = .err e s₁) :
    runBlockStf block s = .err e s := by
  unfold runBlockStf
  rw [Tx.read_bind_apply]
  unfold Tx.transaction
  rw [Tx.bind_apply, h]

/-- The hook handles a failure from the storage the block started from. -/
theorem onFinalize_of_run_err (h : runBlockStf block s = .err e s) :
    onFinalize block s = handleFailure e s := by
  unfold onFinalize executeBlockStf
  rw [Tx.bind_apply]
  unfold Tx.attempt
  rw [h]

/-- What a run of the hook that returns has done. -/
theorem onFinalize_cases (h : onFinalize block s = .ok () s') :
    (∃ input output delta summary s₁ queue, Answered s block input output delta ∧
      commitOutput ((dueItems s block).map ExecutionItem.workId) input output delta s =
        .ok summary s₁ ∧
      queue.toList = retainedItems s block ∧
      s' = { withQueue s₁ queue with
        events := s₁.events ++ [.blockStfExecuted block summary] }) ∨
    ∃ e, Refused s block e ∧ e ≠ .fatal ∧ handleFailure e s = .ok () s' := by
  rcases runBlockStf_cases s block with
    ⟨input, output, delta, summary, s₁, queue, ha, hc, hqueue, heq⟩ | ⟨e, hr, heq⟩
  · unfold onFinalize executeBlockStf at h
    rw [Tx.bind_apply] at h
    unfold Tx.attempt at h
    rw [heq] at h
    cases h
    exact Or.inl ⟨input, output, delta, summary, s₁, queue, ha, hc, hqueue, rfl⟩
  · rw [onFinalize_of_run_err heq] at h
    refine Or.inr ⟨e, hr, ?_, h⟩
    rintro rfl
    cases h

/-- A block that was answered is refused only in its commit. -/
theorem Answered.refused_fatal (ha : Answered s block input output delta) (hr : Refused s block e) :
    e = .fatal := by
  cases hr with
  | input h =>
    rw [ha.input_eq] at h
    cases h
  | executor hinput h =>
    rw [ha.input_eq] at hinput
    cases hinput
    rw [ha.execute_eq] at h
    cases h
  | output hinput hexecute h =>
    rw [ha.input_eq] at hinput
    cases hinput
    rw [ha.execute_eq] at hexecute
    cases hexecute
    rw [ha.validate_eq] at h
    cases h
  | commit => rfl

/-- The input, the output and the delta of an answered block are determined. -/
theorem Answered.unique {input' : MiniJamExecutionInput} {output' : MiniJamExecutionOutput}
    {delta' : ValidatedDelta} (ha : Answered s block input output delta)
    (ha' : Answered s block input' output' delta') :
    input = input' ∧ output = output' ∧ delta = delta' := by
  obtain ⟨h₁, h₂, h₃⟩ := ha
  obtain ⟨h₁', h₂', h₃'⟩ := ha'
  rw [h₁] at h₁'
  cases h₁'
  rw [h₂] at h₂'
  cases h₂'
  rw [h₃] at h₃'
  cases h₃'
  exact ⟨rfl, rfl, rfl⟩

/-- A hook that returns from an answered block has committed its output. -/
theorem onFinalize_of_answered (ha : Answered s block input output delta)
    (h : onFinalize block s = .ok () s') :
    ∃ summary s₁ queue,
      commitOutput ((dueItems s block).map ExecutionItem.workId) input output delta s =
        .ok summary s₁ ∧
      queue.toList = retainedItems s block ∧
      s' = { withQueue s₁ queue with
        events := s₁.events ++ [.blockStfExecuted block summary] } := by
  rcases onFinalize_cases h with
    ⟨input', output', delta', summary, s₁, queue, ha', hc, hqueue, rfl⟩ | ⟨e, hr, hne, -⟩
  · obtain ⟨rfl, rfl, rfl⟩ := ha.unique ha'
    exact ⟨summary, s₁, queue, hc, hqueue, rfl⟩
  · exact absurd (ha.refused_fatal hr) hne

end MiniJam.Jam
