import MiniJam.Proofs.VirtualBlock
import MiniJam.Proofs.WorkerCalls
import MiniJam.Runtime.Reference

/-!
# `MiniJam.Proofs.Atomicity`: a virtual block that fails leaves no trace of itself

The transaction around the virtual block puts the storage back, so what a failed block
leaves is what the handling of its failure writes: an event for a block that yields, the
queue and the quarantine of the system operations, or those of the preimages.
`failed_block_atomic` states this for every failure that is not fatal.
-/

set_option autoImplicit false

namespace MiniJam.Jam

variable {AccountId Ledger : Type} {T : Config AccountId Ledger} {s s' : State T}
  {block : BlockNumber}

/-- The storage items a virtual block commits to. -/
structure BlockItemsKept (s s' : State T) : Prop where
  protocolState : s'.protocolState = s.protocolState
  works : s'.works = s.works
  executionQueue : s'.executionQueue = s.executionQueue
  executionReceipts : s'.executionReceipts = s.executionReceipts
  lastExecutionReceipt : s'.lastExecutionReceipt = s.lastExecutionReceipt
  pendingAllocations : s'.pendingAllocations = s.pendingAllocations
  processedAllocations : s'.processedAllocations = s.processedAllocations
  allocationReceipts : s'.allocationReceipts = s.allocationReceipts
  pendingAllocationCount : s'.pendingAllocationCount = s.pendingAllocationCount

/-- What the handling of a failure may write. -/
def failureItems : ExecutionFailure → Footprint (State T)
  | .systemOpsYielded _ => systemOpQuarantineItems
  | .preimagesRejected _ => preimageQuarantineItems
  | _ => eventItems

variable {e : ExecutionFailure}

/-- No handling of a failure writes an item the block commits to. -/
theorem failureItems_kept (h : (failureItems e).Within s s') : BlockItemsKept s s' := by
  -- Each of the three footprints leaves these items alone by definition.
  obtain ⟨_, rfl⟩ := h.exists_put
  cases e <;> exact ⟨rfl, rfl, rfl, rfl, rfl, rfl, rfl, rfl, rfl⟩

theorem quarantinePendingSystemOps_within (outcome : ExecutionOutcome) :
    Tx.Rel systemOpQuarantineItems.Within (quarantinePendingSystemOps outcome : M T Unit) :=
  Tx.Rel.bind Tx.Rel.read fun _ => Tx.Rel.bind (Tx.Rel.modify fun _ => rfl) fun _ =>
    Tx.Rel.ite (Tx.Rel.pure ()) (Tx.Rel.modify fun _ => rfl)

theorem quarantinePendingSystemOps_returns (outcome : ExecutionOutcome) (s : State T) :
    ∃ s', quarantinePendingSystemOps outcome s = .ok () s' := by
  have hends : Tx.Ends (fun _ => False) (quarantinePendingSystemOps outcome : M T Unit) :=
    Tx.Ends.bind Tx.Ends.read fun _ => Tx.Ends.bind (Tx.Ends.modify _) fun _ =>
      Tx.Ends.ite (Tx.Ends.pure ()) (Tx.Ends.modify _)
  obtain ⟨_, s', h⟩ := hends.returns s
  exact ⟨s', h⟩

theorem quarantinePendingPreimages_within (code : ExecutionErrorCode) :
    Tx.Rel preimageQuarantineItems.Within (quarantinePendingPreimages code : M T Unit) :=
  Tx.Rel.bind Tx.Rel.read fun _ => Tx.Rel.bind (Tx.Rel.modify fun _ => rfl) fun _ =>
    Tx.Rel.ite (Tx.Rel.pure ()) (Tx.Rel.modify fun _ => rfl)

theorem quarantinePendingPreimages_returns (code : ExecutionErrorCode) (s : State T) :
    ∃ s', quarantinePendingPreimages code s = .ok () s' := by
  have hends : Tx.Ends (fun _ => False) (quarantinePendingPreimages code : M T Unit) :=
    Tx.Ends.bind Tx.Ends.read fun _ => Tx.Ends.bind (Tx.Ends.modify _) fun _ =>
      Tx.Ends.ite (Tx.Ends.pure ()) (Tx.Ends.modify _)
  obtain ⟨_, s', h⟩ := hends.returns s
  exact ⟨s', h⟩

/-- Handling a failure that is not fatal returns and writes only its own items. -/
theorem handleFailure_returns (hfatal : e ≠ .fatal) (s : State T) :
    ∃ s', handleFailure e s = .ok () s' ∧ (failureItems e).Within s s' := by
  cases e with
  | yielded workId outcome => exact ⟨_, rfl, rfl⟩
  | systemOpsYielded outcome =>
    obtain ⟨s', hs'⟩ := quarantinePendingSystemOps_returns outcome s
    exact ⟨s', hs', (quarantinePendingSystemOps_within outcome).of_ok hs'⟩
  | preimagesRejected code =>
    obtain ⟨s', hs'⟩ := quarantinePendingPreimages_returns code s
    exact ⟨s', hs', (quarantinePendingPreimages_within code).of_ok hs'⟩
  | fatal => exact absurd rfl hfatal

theorem handleFailure_ok (hfatal : e ≠ .fatal) (h : handleFailure e s = .ok () s') :
    (failureItems e).Within s s' := by
  obtain ⟨_, hreturned, hwithin⟩ := handleFailure_returns hfatal s
  cases h.symm.trans hreturned
  exact hwithin

/-- The hook returns or panics: no failure of the block becomes an error of the hook. -/
theorem onFinalize_ne_err (s : State T) (block : BlockNumber) (e : DispatchError)
    (s' : State T) : onFinalize block s ≠ .err e s' := by
  rcases runBlockStf_cases s block with ⟨_, _, _, _, _, _, -, -, -, heq⟩ | ⟨failure, -, heq⟩
  · unfold onFinalize executeBlockStf
    rw [Tx.bind_apply]
    unfold Tx.attempt
    rw [heq]
    exact nofun
  · rw [onFinalize_of_run_err heq]
    by_cases hfatal : failure = .fatal
    · rw [hfatal]
      exact nofun
    · obtain ⟨s₁, hs₁, -⟩ := handleFailure_returns hfatal s
      rw [hs₁]
      exact nofun

/-- Works that cannot move are left for a later block. -/
theorem progressWork_noErr (block : BlockNumber) (id : WorkId) :
    Tx.NoErr (progressWork block id : M T Unit) := by
  refine Tx.NoErr.bind Tx.NoErr.read fun s => ?_
  split
  · exact Tx.NoErr.pure ()
  · split
    · exact Tx.NoErr.ignore _
    · exact Tx.NoErr.ite (Tx.NoErr.ignore _) (Tx.NoErr.pure ())
    · split
      · exact Tx.NoErr.pure ()
      · split
        · exact Tx.NoErr.ignore _
        · exact Tx.NoErr.ignore _
        · exact Tx.NoErr.ignore _
    · exact Tx.NoErr.pure ()

/-- A step of the chain that fails leaves the storage: the hooks do not fail, and a call that
fails is undone. -/
theorem step_err [DecidableEq AccountId] {s s' : State T} {action : Action T} {e : DispatchError}
    (h : Chain.Step T s (action, some e) s') : s' = s := by
  cases action with
  | extrinsic origin call => exact Tx.transaction_err h
  | workersOnInitialize block =>
    have hfailed : (inWorkers (Workers.onInitialize block) : M T Unit) s = .err e s' := h
    obtain ⟨base, hbase, -⟩ := Tx.zoom_err.mp hfailed
    exact absurd hbase (Workers.onInitialize_noErr block s.base e base)
  | jamOnInitialize block => exact absurd h (Tx.NoErr.forEach (progressWork_noErr block) _ s e s')
  | onFinalize block => exact absurd h (onFinalize_ne_err s block e s')
  | consumeAllocation allocationId => exact Tx.transaction_err h
  | system blockNumber blockHash ledger => cases h

/-- When the virtual block fails and the failure is not fatal, the hook returns, every item
the block commits to is as before, and beyond the event log only the queue and quarantine of
the failure's own kind can differ: nothing for a block that yields, those of the system
operations, or those of the preimages. -/
theorem failed_block_atomic (s : State T) (block : BlockNumber) (e : ExecutionFailure)
    (s₁ : State T) (hfatal : e ≠ .fatal)
    (h : executeBlockStfInner block (dueItems s block) s = .err e s₁) :
    ∃ s', onFinalize block s = .ok () s' ∧ BlockItemsKept s s' ∧
      match e with
      | .systemOpsYielded _ => s' = { s with
          pendingSystemOps := s'.pendingSystemOps
          pendingSystemOpKeys := s'.pendingSystemOpKeys
          quarantinedSystemOps := s'.quarantinedSystemOps
          systemOpsPaused := s'.systemOpsPaused
          events := s'.events }
      | .preimagesRejected _ => s' = { s with
          pendingPreimages := s'.pendingPreimages
          pendingPreimageKeys := s'.pendingPreimageKeys
          quarantinedPreimages := s'.quarantinedPreimages
          preimageImportPaused := s'.preimageImportPaused
          events := s'.events }
      | _ => s' = { s with events := s'.events } := by
  obtain ⟨s', hs', hwithin⟩ := handleFailure_returns hfatal s
  have hhook := onFinalize_of_run_err (runBlockStf_of_err h)
  refine ⟨s', hhook.trans hs', failureItems_kept hwithin, ?_⟩
  cases e with
  | yielded workId outcome => exact hwithin.symm
  | systemOpsYielded outcome => exact hwithin.symm
  | preimagesRejected code => exact hwithin.symm
  | fatal => exact absurd rfl hfatal

open Reference

/-- A reachable block with an accepted work, refused by the executor: the block yields. -/
theorem failed_block_atomic_yielded : ∃ h s s₁,
    Chain.Run (runtime (refuse (.execution .outOfGas))) h s ∧
    executeBlockStfInner 1 (dueItems s 1) s = .err (.yielded 0 .outOfGas) s₁ ∧
    ∃ s', onFinalize 1 s = .ok () s' ∧ BlockItemsKept s s' ∧
      s' = { s with events := s'.events } := by
  obtain ⟨h, s, hrun, hs⟩ := exists_run
    (runtime (refuse (.execution .outOfGas)))
    (voteThrough 0 2 1 ++ [.jamOnInitialize 1])
    (fun s => (executeBlockStfInner 1 (dueItems s 1) s).error = some (.yielded 0 .outOfGas))
    (by decide +kernel)
  obtain ⟨s₁, herr⟩ := Outcome.eq_err_of_error hs
  exact ⟨h, s, s₁, hrun, herr, failed_block_atomic s 1 _ s₁ (by decide) herr⟩

end MiniJam.Jam
