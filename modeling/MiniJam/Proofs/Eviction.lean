import MiniJam.Proofs.ExecutedItems
import MiniJam.Proofs.QueueIndex

/-!
# `MiniJam.Proofs.Eviction`: a failing batch of system operations

When the executor fails on a block without reports, the block gives up its batch of system
operations and the hook quarantines them. The batch has two sources, and the quarantine takes one
of them: the operations that were built from pending allocations stay pending as allocations, so
the next block builds and fails on them again (`failed_allocation_rebuilt`).

An operation of the failed batch that was neither queued again nor retried is in the input of a
later block exactly when the operations are not paused there and it is that of an allocation which
is still pending (`failed_operation_returns_iff`). A queued operation is evicted, and a quarantine
that overflows pauses them all.
-/

set_option autoImplicit false

namespace MiniJam.Jam

variable {AccountId Ledger : Type} {T : Config AccountId Ledger} {s s' : State T}
  {block : BlockNumber}

/-- The operations that the pending allocations convert to. -/
def State.allocationOps (s : State T) : List SystemOpV2 :=
  (getPendingAllocations s).map fun pending => pending.allocation.systemOp T

section
variable [DecidableEq AccountId]

/-! ### How an operation gets into a batch -/

variable {h : Chain.History T} {op : SystemOpV2}

/-- The operations of a batch are, unless they are paused, the pending ones and those of the
pending allocations. -/
theorem BuiltInput.mem_systemOps_iff (hr : Chain.Run T h s) {due : List ExecutionItem}
    {input : MiniJamExecutionInput} (hinput : BuiltInput s block due input) :
    op ∈ input.systemOps.toList ↔
      s.systemOpsPaused = false ∧ (op ∈ s.pendingOps ∨ op ∈ s.allocationOps) := by
  have hfits := (ledgerSound_of_run hr).fits
  constructor
  · intro hop
    have hpaused := hinput.systemOps_not_paused (List.ne_nil_of_mem hop)
    rcases hinput.mem_systemOps hop with ⟨pending, hpending, rfl⟩ | ⟨id, pending, hid, hconverted⟩
    · exact ⟨hpaused, Or.inl (List.mem_map_of_mem hpending)⟩
    · rw [allocationInputOp_encode (hfits id pending hid)] at hconverted
      obtain ⟨-, -, rfl⟩ := allocationSystemOp_ok.mp hconverted
      exact ⟨hpaused, Or.inr (List.mem_map_of_mem (mem_getPendingAllocations.mpr ⟨id, hid⟩))⟩
  · rintro ⟨hpaused, hop | hop⟩
    · obtain ⟨pending, hpending, rfl⟩ := List.mem_map.mp hop
      exact hinput.mem_systemOps_of_pending hpaused hpending
    · obtain ⟨pending, hpending, rfl⟩ := List.mem_map.mp hop
      obtain ⟨id, hid⟩ := mem_getPendingAllocations.mp hpending
      exact hinput.mem_systemOps_of_allocation hpaused hid (hfits id pending hid)

/-! ### Operations that are not queued again -/

/-- The transition brings an operation back into the queue: it is submitted, or root retries
it. -/
def BringsBack (t : Chain.TakenStep T) (op : SystemOpV2) : Prop :=
  op ∈ queuedOps t ∨
  ∃ origin, t.label = (.extrinsic origin (.retryQuarantinedSystemOp op.requestId), none)

omit [DecidableEq AccountId] in
/-- A step queues an operation only by bringing it back. -/
theorem not_mem_pendingOps_step (ha : op ∉ s.pendingOps) {l : Chain.Label T}
    (hstep : IngressStep ⟨s, l, s'⟩) (hnot : ¬ BringsBack ⟨s, l, s'⟩ op) :
    op ∉ s'.pendingOps := by
  intro hop
  rcases hstep.pendingOp hop with hold | hqueued | hretried
  · exact ha hold
  · exact hnot (Or.inl hqueued)
  · obtain ⟨origin, requestId, found, hl, hfound, rfl⟩ := mem_retriedOps hretried
    obtain rfl := findQuarantined_requestId hfound
    exact hnot (Or.inr ⟨origin, hl⟩)

/-- What is not queued stays so in every later run that does not bring it back. -/
theorem not_mem_pendingOps_later (ha : op ∉ s.pendingOps) (hr : Trace (· = s) (Chain.Step T) h s')
    (hnot : ∀ t ∈ h, ¬ BringsBack t op) : op ∉ s'.pendingOps := by
  revert hnot
  refine hr.invariant (I := fun h s' => (∀ t ∈ h, ¬ BringsBack t op) → op ∉ s'.pendingOps) ?_ ?_
  · intro s₀ hs _
    subst hs
    exact ha
  · intro h s l s' ih hstep hnot
    have hbefore := ih fun t ht => hnot t (List.mem_cons_of_mem _ ht)
    exact not_mem_pendingOps_step hbefore (ingressStep_of_step hstep) (hnot _ List.mem_cons_self)

/-! ### The failing batch -/

omit [DecidableEq AccountId] in
/-- The quarantine pauses the operations when it overflows. -/
theorem quarantinePendingSystemOps_paused {outcome : ExecutionOutcome}
    (hpaused : s.systemOpsPaused = false) (h : quarantinePendingSystemOps outcome s = .ok () s') :
    s'.systemOpsPaused = decide (T.maxPendingSystemOps.toNat <
      s.quarantinedSystemOps.toList.length + s.pendingSystemOps.toList.length) := by
  unfold quarantinePendingSystemOps at h
  rw [Tx.read_bind_apply, Tx.modify_bind_apply] at h
  split_ifs at h with hnil
  · cases h
    have hle := s.quarantinedSystemOps.length_le
    simp [hpaused, hnil, hle]
  · cases h
    simp [hpaused, BoundedVec.pushAll_overflows]

/-- In every state that is reached: when a block gives up its batch of system operations, the
hook returns, keeps the pending allocations, and pauses the operations exactly when the
quarantine overflows. An operation of the batch that no later step brings back is in the input
of a later block exactly when the operations are not paused there and it is that of a pending
allocation. -/
theorem failed_operation_returns_iff (h : Chain.History T)
    (s s₁ : State T) (block : BlockNumber) (outcome : ExecutionOutcome) (hr : Chain.Run T h s)
    (hfail : runBlockStf block s = .err (.systemOpsYielded outcome) s₁) :
    ∃ s' input, onFinalize block s = .ok () s' ∧
      executionInput s block (dueItems s block) = .ok input ∧
      s'.pendingAllocations = s.pendingAllocations ∧
      s'.systemOpsPaused = decide (T.maxPendingSystemOps.toNat <
        s.quarantinedSystemOps.toList.length + s.pendingSystemOps.toList.length) ∧
      ∀ op ∈ input.systemOps.toList, ∀ h' s'', Trace (· = s') (Chain.Step T) h' s'' →
        (∀ t ∈ h', ¬ BringsBack t op) → ∀ block' input',
        executionInput s'' block' (dueItems s'' block') = .ok input' →
        (op ∈ input'.systemOps.toList ↔
          s''.systemOpsPaused = false ∧ op ∈ s''.allocationOps) := by
  rcases runBlockStf_cases s block with ⟨_, _, _, _, _, _, _, -, -, hok⟩ | ⟨e, hrefused, herr⟩
  · rw [hok] at hfail
    cases hfail
  · rw [herr] at hfail
    cases hfail
    obtain ⟨input, hinput, -, hops⟩ := hrefused.systemOps
    obtain ⟨s', hhook, hwithin⟩ := handleFailure_returns
      (show ExecutionFailure.systemOpsYielded outcome ≠ .fatal from nofun) s
    have hfinalize : onFinalize block s = .ok () s' := (onFinalize_of_run_err herr).trans hhook
    have hpaused := (executionInput_ok hinput).systemOps_not_paused hops
    refine ⟨s', input, hfinalize, hinput, hwithin.unchanged State.pendingAllocations fun _ _ => rfl,
      quarantinePendingSystemOps_paused hpaused hhook, ?_⟩
    intro op hop h' s'' hlater hnot block' input' hinput'
    -- The hook leaves the queue empty, so the operation is not queued at the later block.
    have hempty : s'.pendingSystemOps.toList = [] :=
      congrArg KeyedQueue.Store.queue (quarantinePendingSystemOps_ok hhook)
    have hgone : op ∉ s'.pendingOps := by
      unfold State.pendingOps
      rw [hempty]
      exact List.not_mem_nil
    have hstep : Chain.Step T s (.onFinalize block, none) s' := hfinalize
    have hrun := (hr.extend hstep).append hlater
    rw [(executionInput_ok hinput').mem_systemOps_iff hrun,
      or_iff_right (not_mem_pendingOps_later hgone hlater hnot)]

end

/-! ### Runs with a failing block -/

open Reference

/-- A batch of a queued operation and that of an allocation fails. The next input holds the
second one and not the first. -/
theorem failed_operation_returns_iff_mixed : ∃ h s s' s₁ input input' queued allocated,
    Chain.Run failing h s ∧ runBlockStf 1 s = .err (.systemOpsYielded .trap) s₁ ∧
    onFinalize 1 s = .ok () s' ∧ executionInput s 1 (dueItems s 1) = .ok input ∧
    queued ∈ input.systemOps.toList ∧ allocated ∈ input.systemOps.toList ∧
    executionInput s' 2 (dueItems s' 2) = .ok input' ∧
    queued ∉ input'.systemOps.toList ∧ allocated ∈ input'.systemOps.toList := by
  obtain ⟨h, s, s', hrun, hfinalize, hfail, input, hinput, input', hinput', hpaused,
      ⟨queued, hqueued, hnot⟩, allocated, hallocated, hpending⟩ := exists_step failing
    [.extrinsic (.signed alice) (.submitSystemOp createService),
      .extrinsic (.signed bob) (.submitAllocation ⟨5, 1, 7⟩)] (.onFinalize 1)
    (fun s s' => (runBlockStf 1 s).error = some (.systemOpsYielded .trap) ∧
      ∃ input, executionInput s 1 (dueItems s 1) = .ok input ∧
      ∃ input', executionInput s' 2 (dueItems s' 2) = .ok input' ∧ s'.systemOpsPaused = false ∧
      (∃ queued ∈ input.systemOps.toList, queued ∉ s'.allocationOps) ∧
      ∃ allocated ∈ input.systemOps.toList, allocated ∈ s'.allocationOps) (by decide +kernel)
  obtain ⟨s₁, hfail⟩ := Outcome.eq_err_of_error hfail
  obtain ⟨s₂, input₂, hfinalize₂, hinput₂, -, -, hreturns⟩ :=
    failed_operation_returns_iff h s s₁ 1 .trap hrun hfail
  obtain rfl : s' = s₂ := by
    have heq := (show onFinalize 1 s = .ok () s' from hfinalize).symm.trans hfinalize₂
    injection heq
  obtain rfl : input = input₂ := Except.ok.inj (hinput.symm.trans hinput₂)
  have hiff := fun op hop => hreturns op hop [] s' (.start rfl) (by simp) 2 input' hinput'
  exact ⟨h, s, s', s₁, input, input', queued, allocated, hrun, hfail, hfinalize, hinput, hqueued,
    hallocated, hinput', fun hin => hnot ((hiff queued hqueued).mp hin).2,
    (hiff allocated hallocated).mpr ⟨hpaused, hpending⟩⟩

/-- The only operation of the failing batch comes from an allocation. It is in the input of
the next block again, and nothing was retried or submitted in between. -/
theorem failed_allocation_rebuilt : ∃ h s s' input input' op outcome s₁, Chain.Run failing h s ∧
    runBlockStf 1 s = .err (.systemOpsYielded outcome) s₁ ∧ onFinalize 1 s = .ok () s' ∧
    executionInput s 1 (dueItems s 1) = .ok input ∧ op ∈ input.systemOps.toList ∧
    executionInput s' 2 (dueItems s' 2) = .ok input' ∧ op ∈ input'.systemOps.toList := by
  obtain ⟨h, s, s', hrun, hfinalize, hfail, input, hinput, input', hinput', op, hop, hop'⟩ :=
    exists_step failing
      [.extrinsic (.signed bob) (.submitAllocation ⟨5, 1, 7⟩)] (.onFinalize 1)
      (fun s s' => (runBlockStf 1 s).error = some (.systemOpsYielded .trap) ∧
        ∃ input, executionInput s 1 (dueItems s 1) = .ok input ∧
        ∃ input', executionInput s' 2 (dueItems s' 2) = .ok input' ∧
        ∃ op ∈ input.systemOps.toList, op ∈ input'.systemOps.toList) (by decide +kernel)
  obtain ⟨s₁, hfail⟩ := Outcome.eq_err_of_error hfail
  exact ⟨h, s, s', input, input', op, .trap, s₁, hrun, hfail, hfinalize, hinput, hop, hinput',
    hop'⟩

end MiniJam.Jam
