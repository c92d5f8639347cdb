import MiniJam.Proofs.AllocationOnce
import MiniJam.Proofs.SystemBatch

/-!
# `MiniJam.Proofs.ExecutedItems`: what a block takes out of the queues was executed

The executor's output names the items that a committed block takes out of the queues: preimages by
their hash, system operations by their id, allocations by a receipt among the state changes. The
output check compares none of these with the input. While a queue is paused its items are not in
the input, and an output that names them still removes them (`paused_operation_consumed`).

That is the only way: everything that leaves a queue was executed in the same block, and a paused
queue loses nothing, exactly when the output names no pending item of a paused queue
(`removed_items_executed_iff`). The way into the quarantine needs no condition: it is taken only
when the failed input held the items.
-/

set_option autoImplicit false

namespace MiniJam.Jam

open KeyedQueue

variable {AccountId Ledger : Type} {T : Config AccountId Ledger} {s s' : State T}
  {block : BlockNumber}

/-! ### The items of an input -/

variable {due : List ExecutionItem} {input : MiniJamExecutionInput}

/-- While the preimages are not paused, the input holds every pending one. -/
theorem BuiltInput.mem_preimages (h : BuiltInput s block due input)
    (hpaused : s.preimageImportPaused = false) {pending : PendingPreimage AccountId}
    (hmem : pending ∈ s.pendingPreimages.toList) : pending.canonical ∈ input.preimages.toList := by
  have hbatch := h.preimages
  unfold blockPreimages pendingPreimageBatch at hbatch
  rw [hpaused, if_neg Bool.false_ne_true] at hbatch
  rw [tryIntoBatch_ok.mp hbatch]
  exact List.mem_map_of_mem ((sortByKey_perm _ _).mem_iff.mpr hmem)

/-- While the preimages are paused, the input holds none. -/
theorem BuiltInput.preimages_paused (h : BuiltInput s block due input)
    (hpaused : s.preimageImportPaused = true) : input.preimages.toList = [] := by
  have hbatch := h.preimages
  unfold blockPreimages at hbatch
  rw [hpaused, if_pos rfl] at hbatch
  injection hbatch with hbatch
  rw [← hbatch]
  rfl

/-- The batch of system operations: the pending ones in order, then the allocations. -/
theorem BuiltInput.systemOps_eq (h : BuiltInput s block due input)
    (hpaused : s.systemOpsPaused = false) :
    ∃ ops, (pendingAllocationInputs s).mapM (allocationInputOp s) = .ok ops ∧
      input.systemOps.toList = sortedSystemOps s ++ ops := by
  have hbatch := h.systemOps
  unfold blockSystemOps pendingSystemOpsBatch at hbatch
  rw [hpaused, if_neg Bool.false_ne_true] at hbatch
  obtain ⟨ops, hops, hbatch⟩ := Except.bind_ok_iff.mp hbatch
  exact ⟨ops, hops, tryIntoBatch_ok.mp hbatch⟩

/-- While the system operations are not paused, the input holds every pending one. -/
theorem BuiltInput.mem_systemOps_of_pending (h : BuiltInput s block due input)
    (hpaused : s.systemOpsPaused = false) {pending : PendingSystemOp AccountId}
    (hmem : pending ∈ s.pendingSystemOps.toList) : pending.op ∈ input.systemOps.toList := by
  obtain ⟨ops, -, heq⟩ := h.systemOps_eq hpaused
  rw [heq]
  exact List.mem_append_left _ (List.mem_map_of_mem ((sortByKey_perm _ _).mem_iff.mpr hmem))

/-- While they are not paused, the input holds the operation of every pending allocation. -/
theorem BuiltInput.mem_systemOps_of_allocation (h : BuiltInput s block due input)
    (hpaused : s.systemOpsPaused = false) {id : UInt64} {pending : PendingAllocation AccountId}
    (hlookup : s.pendingAllocations.lookup id = some pending)
    (hfits : FitsJam pending.allocation.amount) :
    pending.allocation.systemOp T ∈ input.systemOps.toList := by
  obtain ⟨ops, hops, heq⟩ := h.systemOps_eq hpaused
  have hmem : pending.allocation.encode ∈ pendingAllocationInputs s :=
    List.mem_map_of_mem (mem_getPendingAllocations.mpr ⟨id, hlookup⟩)
  obtain ⟨op, hop, hconverted⟩ := (Except.mapM_ok_iff.mp hops).exists_of_mem_left hmem
  rw [allocationInputOp_encode hfits] at hconverted
  obtain ⟨-, -, rfl⟩ := allocationSystemOp_ok.mp hconverted
  rw [heq]
  exact List.mem_append_right _ hop

/-- While the system operations are paused, the input holds none. -/
theorem BuiltInput.systemOps_paused (h : BuiltInput s block due input)
    (hpaused : s.systemOpsPaused = true) : input.systemOps.toList = [] := by
  have hbatch := h.systemOps
  unfold blockSystemOps at hbatch
  rw [hpaused, if_pos rfl] at hbatch
  injection hbatch with hbatch
  rw [← hbatch]
  rfl

/-- An input with system operations was built while they were not paused. -/
theorem BuiltInput.systemOps_not_paused (h : BuiltInput s block due input)
    (hops : input.systemOps.toList ≠ []) : s.systemOpsPaused = false := by
  by_contra hpaused
  exact hops (h.systemOps_paused (by simpa using hpaused))

/-! ### Outputs that spare the paused queues -/

/-- The output names no pending item of a paused queue: a preimage by its hash, an operation
by its id, an allocation by a receipt of success. -/
def SparesPaused (s : State T) (output : MiniJamExecutionOutput) (delta : ValidatedDelta) : Prop :=
  (s.preimageImportPaused = true → ∀ pending ∈ s.pendingPreimages.toList,
    consumesPreimage T output.consumedPreimages.toList pending = false) ∧
  (s.systemOpsPaused = true →
    (∀ pending ∈ s.pendingSystemOps.toList,
      consumesSystemOp output.consumedSystemOps.toList pending = false) ∧
    ∀ pending ∈ getPendingAllocations s,
      ¬ Confirms delta.changes (allocationReceiptStateKey T pending.allocation.allocationId))

instance (s : State T) (output : MiniJamExecutionOutput) (delta : ValidatedDelta) :
    Decidable (SparesPaused s output delta) := inferInstanceAs (Decidable (_ ∧ _))

/-- What a step of the hook takes out of the queues was in the input of the block. -/
structure RemovesOnlyExecuted (s : State T) (block : BlockNumber) (s' : State T) : Prop where
  preimages : ∀ pending ∈ s.pendingPreimages.toList, pending ∉ s'.pendingPreimages.toList →
    ∃ input, executionInput s block (dueItems s block) = .ok input ∧
      pending.canonical ∈ input.preimages.toList
  systemOps : ∀ pending ∈ s.pendingSystemOps.toList, pending ∉ s'.pendingSystemOps.toList →
    ∃ input, executionInput s block (dueItems s block) = .ok input ∧
      pending.op ∈ input.systemOps.toList
  allocations : ∀ id pending, s.pendingAllocations.lookup id = some pending →
    s'.pendingAllocations.lookup id ≠ some pending →
    ∃ input, executionInput s block (dueItems s block) = .ok input ∧
      pending.allocation.systemOp T ∈ input.systemOps.toList

/-- The step takes nothing out of a paused queue. -/
structure KeepsPaused (s s' : State T) : Prop where
  preimages : s.preimageImportPaused = true →
    ∀ pending ∈ s.pendingPreimages.toList, pending ∈ s'.pendingPreimages.toList
  systemOps : s.systemOpsPaused = true →
    ∀ pending ∈ s.pendingSystemOps.toList, pending ∈ s'.pendingSystemOps.toList
  allocations : s.systemOpsPaused = true → ∀ id pending,
    s.pendingAllocations.lookup id = some pending → s'.pendingAllocations.lookup id = some pending

/-- The input holds nothing of a paused queue. -/
theorem RemovesOnlyExecuted.keepsPaused (h : RemovesOnlyExecuted s block s') :
    KeepsPaused s s' where
  preimages hpaused pending hmem := by
    by_contra hnot
    obtain ⟨input, hinput, hin⟩ := h.preimages pending hmem hnot
    rw [(executionInput_ok hinput).preimages_paused hpaused] at hin
    cases hin
  systemOps hpaused pending hmem := by
    by_contra hnot
    obtain ⟨input, hinput, hin⟩ := h.systemOps pending hmem hnot
    rw [(executionInput_ok hinput).systemOps_paused hpaused] at hin
    cases hin
  allocations hpaused id pending hlookup := by
    by_contra hnot
    obtain ⟨input, hinput, hin⟩ := h.allocations id pending hlookup hnot
    rw [(executionInput_ok hinput).systemOps_paused hpaused] at hin
    cases hin

section
variable [DecidableEq AccountId] {h : Chain.History T}

section
variable {output : MiniJamExecutionOutput} {delta : ValidatedDelta}
  (hcommit : CommitIngress s output delta s')
include hcommit

/-- A committed block removes what its output names, so one that keeps the paused queues
names nothing of them. -/
theorem KeepsPaused.sparesPaused (hr : Chain.Run T h s') (hids : ∀ id pending,
      s.pendingAllocations.lookup id = some pending → pending.allocation.allocationId = id)
    (hkeeps : KeepsPaused s s') : SparesPaused s output delta := by
  obtain ⟨_, hpreimages⟩ := hcommit.preimages
  obtain ⟨_, hops⟩ := hcommit.systemOps
  refine ⟨fun hpaused pending hmem => ?_, fun hpaused => ⟨fun pending hmem => ?_, ?_⟩⟩
  · exact (hpreimages.mem_iff hmem).mp (hkeeps.preimages hpaused pending hmem)
  · exact (hops.mem_iff hmem).mp (hkeeps.systemOps hpaused pending hmem)
  · -- A confirmed allocation is processed, and what is processed is not pending.
    intro pending hmem hconfirms
    obtain ⟨id, hlookup⟩ := mem_getPendingAllocations.mp hmem
    have hprocessed := hcommit.processes id pending hlookup hconfirms
    rw [hids id pending hlookup] at hprocessed
    have hgone : s'.pendingAllocations.lookup id = none :=
      (ledgerSound_of_run hr).registry.disjoint id hprocessed
    rw [hkeeps.allocations hpaused id pending hlookup] at hgone
    cases hgone

/-- What a committed block removes is in its input, or it is named and its queue is paused. -/
theorem SparesPaused.removesOnlyExecuted (hr : Chain.Run T h s)
    (hinput : executionInput s block (dueItems s block) = .ok input)
    (hspares : SparesPaused s output delta) : RemovesOnlyExecuted s block s' := by
  have hbuilt := executionInput_ok hinput
  constructor
  · intro pending hmem hnot
    refine ⟨input, hinput, hbuilt.mem_preimages ?_ hmem⟩
    -- A paused queue is spared, so the item would still be there.
    by_contra hpaused
    obtain ⟨_, hdrained⟩ := hcommit.preimages
    exact hnot ((hdrained.mem_iff hmem).mpr (hspares.1 (by simpa using hpaused) pending hmem))
  · intro pending hmem hnot
    refine ⟨input, hinput, hbuilt.mem_systemOps_of_pending ?_ hmem⟩
    by_contra hpaused
    obtain ⟨_, hdrained⟩ := hcommit.systemOps
    exact hnot ((hdrained.mem_iff hmem).mpr ((hspares.2 (by simpa using hpaused)).1 pending hmem))
  · intro id pending hlookup hnot
    refine ⟨input, hinput, hbuilt.mem_systemOps_of_allocation ?_ hlookup
      ((ledgerSound_of_run hr).fits id pending hlookup)⟩
    by_contra hpaused
    rcases (hcommit.registry.cases id).1 with hkept | ⟨hconfirms, -⟩
    · exact hnot (hkept.trans hlookup)
    · rw [← pendingAllocation_id hr id pending hlookup] at hconfirms
      exact (hspares.2 (by simpa using hpaused)).2 pending
        (mem_getPendingAllocations.mpr ⟨id, hlookup⟩) hconfirms

end

/-- A run of the hook whose output spares the paused queues removes executed items only. What
goes into the quarantine was in the input that failed. -/
theorem removesOnlyExecuted_of_hook (hr : Chain.Run T h s)
    (hspares : ∀ input output delta, Answered s block input output delta →
      SparesPaused s output delta)
    (hook : HookIngress s block s') : RemovesOnlyExecuted s block s' := by
  -- Queues that a step leaves alone lose nothing.
  have hkeeps : ∀ {α : Type} {x : α} {xs xs' : List α} {P : Prop},
      xs' = xs → x ∈ xs → x ∉ xs' → P := fun heq hmem hnot => absurd (heq ▸ hmem) hnot
  cases hook with
  | committed ha hcommit => exact (hspares _ _ _ ha).removesOnlyExecuted hcommit hr ha.input_eq
  | yielded hnot hkept =>
    have hpreimages := hkept.unchanged State.pendingPreimages fun _ _ => rfl
    have hops := hkept.unchanged State.pendingSystemOps fun _ _ => rfl
    have hallocations := hkept.unchanged State.pendingAllocations fun _ _ => rfl
    exact ⟨fun _ hmem hnot => hkeeps (congrArg _ hpreimages) hmem hnot,
      fun _ hmem hnot => hkeeps (congrArg _ hops) hmem hnot,
      fun _ _ hlookup hnot => absurd (hallocations ▸ hlookup) hnot⟩
  | @opsQuarantined outcome input _ hnot hinput hexecute hops hrun hquarantine =>
    have hbuilt := executionInput_ok hinput
    have hwithin := (quarantinePendingSystemOps_within _).of_ok hquarantine
    have hpreimages := hwithin.unchanged State.pendingPreimages fun _ _ => rfl
    have hallocations := hwithin.unchanged State.pendingAllocations fun _ _ => rfl
    exact ⟨fun _ hmem hnot => hkeeps (congrArg _ hpreimages) hmem hnot,
      fun _ hmem _ => ⟨input, hinput,
        hbuilt.mem_systemOps_of_pending (hbuilt.systemOps_not_paused hops) hmem⟩,
      fun _ _ hlookup hnot => absurd (hallocations ▸ hlookup) hnot⟩
  | @preimagesQuarantined code input _ hnot hinput hpreimages hrun hquarantine =>
    have hbuilt := executionInput_ok hinput
    have hwithin := (quarantinePendingPreimages_within _).of_ok hquarantine
    have hops := hwithin.unchanged State.pendingSystemOps fun _ _ => rfl
    have hallocations := hwithin.unchanged State.pendingAllocations fun _ _ => rfl
    have hpaused : s.preimageImportPaused = false := by
      by_contra hpaused
      exact hpreimages (hbuilt.preimages_paused (by simpa using hpaused))
    exact ⟨fun _ hmem _ => ⟨input, hinput, hbuilt.mem_preimages hpaused hmem⟩,
      fun _ hmem hnot => hkeeps (congrArg _ hops) hmem hnot,
      fun _ _ hlookup hnot => absurd (hallocations ▸ hlookup) hnot⟩

/-! ### Every state that is reached -/

/-- In every state that is reached, a run of the hook takes out of the queues only what was in
the input of the block, and nothing out of a paused queue, exactly when the checked output, if
there is one, names no pending item of a paused queue. -/
theorem removed_items_executed_iff (h : Chain.History T)
    (s s' : State T) (block : BlockNumber) (hr : Chain.Run T h s)
    (hfinalize : onFinalize block s = .ok () s') :
    RemovesOnlyExecuted s block s' ∧ KeepsPaused s s' ↔
      ∀ input output delta, Answered s block input output delta → SparesPaused s output delta := by
  have hook := onFinalize_ingress hfinalize
  have hstep : Chain.Step T s (.onFinalize block, none) s' := hfinalize
  constructor
  · rintro ⟨-, hkeeps⟩ input output delta ha
    cases hook with
    | committed ha' hcommit =>
      obtain ⟨-, rfl, rfl⟩ := ha.unique ha'
      exact hkeeps.sparesPaused hcommit (hr.extend hstep) (pendingAllocation_id hr)
    | yielded hnot => exact absurd ha (hnot _ _ _)
    | opsQuarantined hnot => exact absurd ha (hnot _ _ _)
    | preimagesQuarantined hnot => exact absurd ha (hnot _ _ _)
  · intro hspares
    have hremoves := removesOnlyExecuted_of_hook hr hspares hook
    exact ⟨hremoves, hremoves.keepsPaused⟩

end

/-! ### Runs with and without a pause -/

open Reference

/-- An operation, a preimage and an allocation for an executor that consumes its input. -/
def oneOfEach : List (Action (runtime consumeAll)) :=
  [.extrinsic (.signed alice) (.submitSystemOp createService),
    .extrinsic (.signed alice) (.submitPreimage (BoundedVec.takeFrom [7])),
    .extrinsic (.signed bob) (.submitAllocation ⟨5, 1, 7⟩)]

/-- All three are pending. -/
abbrev HasOneOfEach (s : State T) : Prop :=
  s.pendingSystemOps.toList.length = 1 ∧ s.pendingPreimages.toList.length = 1 ∧
    s.pendingAllocations.contains 5 = true

/-- A block while everything is paused keeps the three items. A later one without the pause
executes and removes them. -/
theorem removed_items_executed_iff_resumed : ∃ h s s' h₂ s₂ s₂',
    Chain.Run (runtime consumeAll) h s ∧ HasOneOfEach s ∧
    s.systemOpsPaused = true ∧ s.preimageImportPaused = true ∧ onFinalize 1 s = .ok () s' ∧
    KeepsPaused s s' ∧ Chain.Run (runtime consumeAll) h₂ s₂ ∧
    HasOneOfEach s₂ ∧ onFinalize 2 s₂ = .ok () s₂' ∧ s₂'.pendingSystemOps.toList = [] ∧
    s₂'.pendingPreimages.toList = [] ∧ s₂'.pendingAllocations.contains 5 = false ∧
    RemovesOnlyExecuted s₂ 2 s₂' := by
  obtain ⟨h, s, s', hrun, hfinalize, hone, hops, hpreimages, hspares⟩ := exists_step _
    (oneOfEach ++ [.extrinsic .root (.pauseExecution true)]) (.onFinalize 1)
    (fun s _ => HasOneOfEach s ∧ s.systemOpsPaused = true ∧ s.preimageImportPaused = true ∧
      ∀ a ∈ answered s 1, SparesPaused s a.2.1 a.2.2) (by decide +kernel)
  obtain ⟨h₂, s₂, s₂', hrun₂, hfinalize₂, hone₂, hops₂, hpreimages₂, hallocation₂, hspares₂⟩ :=
    exists_step _ (oneOfEach ++ [.extrinsic .root (.pauseExecution true), .onFinalize 1,
      .extrinsic .root (.pauseExecution false)]) (.onFinalize 2)
    (fun s s' => HasOneOfEach s ∧ s'.pendingSystemOps.toList = [] ∧
      s'.pendingPreimages.toList = [] ∧ s'.pendingAllocations.contains 5 = false ∧
      ∀ a ∈ answered s 2, SparesPaused s a.2.1 a.2.2) (by decide +kernel)
  have hkeeps := (removed_items_executed_iff h s s' 1 hrun hfinalize).mpr
    fun _ _ _ ha => hspares _ ha.answered_eq
  have hremoves := (removed_items_executed_iff h₂ s₂ s₂' 2 hrun₂ hfinalize₂).mpr
    fun _ _ _ ha => hspares₂ _ ha.answered_eq
  exact ⟨h, s, s', h₂, s₂, s₂', hrun, hone, hops, hpreimages, hfinalize, hkeeps.2, hrun₂, hone₂,
    hfinalize₂, hops₂, hpreimages₂, hallocation₂, hremoves.1⟩

/-- The first operation that the ingress relayer submits. -/
def firstRequestId : Hash :=
  SystemOpV2.computeRequestId crypto
    (systemOpSender (runtime consumeAll) alice) 0 createService

/-- An executor whose output names that operation, whatever the input is. -/
def namesFirstRequest (input : MiniJamExecutionInput) (state : ProtocolStateReader) :
    Except MiniJamError MiniJamExecutionOutput :=
  let output := { outputFor (fun _ => true) input state with
    consumedSystemOps := BoundedVec.takeFrom [firstRequestId] }
  .ok { output with receiptHash := output.computeReceiptHash crypto }

/-- The operation is queued and everything is paused. The output for the empty input names
the operation, passes the check, and the operation is gone. -/
theorem paused_operation_consumed : ∃ h s s' pending input output delta,
    Chain.Run (runtime namesFirstRequest) h s ∧ s.systemOpsPaused = true ∧
    Answered s 1 input output delta ∧ onFinalize 1 s = .ok () s' ∧
    pending ∈ s.pendingSystemOps.toList ∧ pending ∉ s'.pendingSystemOps.toList ∧
    pending.op ∉ input.systemOps.toList := by
  obtain ⟨h, s, s', hrun, hfinalize, hpaused, ⟨input, output, delta⟩, hanswered, pending, hmem,
      hempty, hnot⟩ := exists_step (runtime namesFirstRequest)
    [.extrinsic (.signed alice) (.submitSystemOp createService),
      .extrinsic .root (.pauseExecution true)]
    (.onFinalize 1)
    (fun s s' => s.systemOpsPaused = true ∧ ∃ answer ∈ answered s 1,
      ∃ pending ∈ s.pendingSystemOps.toList, pending ∉ s'.pendingSystemOps.toList ∧
        pending.op ∉ answer.1.systemOps.toList) (by decide +kernel)
  exact ⟨h, s, s', pending, input, output, delta, hrun, hpaused, answered_eq_some hanswered,
    hfinalize, hmem, hempty, hnot⟩

end MiniJam.Jam
