import MiniJam.Proofs.IngressSteps
import MiniJam.Runtime.Reference

/-!
# `MiniJam.Proofs.SystemBatch`: the size of the system-operation batch

The batch of a virtual block holds the pending system operations followed by one operation
for each pending allocation. Both queues have a bound of 64 in the runtime, and so has the
batch, so the two queues together can be too long for it (`system_batch_overflows`). The
batch fits in every state of a run that admits an operation or an allocation only while the
two queues together have room for it (`system_batch_fits`).
-/

set_option autoImplicit false

namespace MiniJam.Jam

variable {AccountId Ledger : Type} {T : Config AccountId Ledger} {s s' : State T}

/-- The pending system operations and allocations together. -/
def State.batchLength (s : State T) : Nat :=
  s.pendingSystemOps.toList.length + s.pendingAllocations.keys.length

/-- The label of a call that put something into one of the two queues. -/
inductive IsAdmission : Chain.Label T → Prop where
  | submitSystemOp (origin : Origin AccountId) (command : SystemCommandV2) :
      IsAdmission (.extrinsic origin (.submitSystemOp command), none)
  | retrySystemOp (origin : Origin AccountId) (requestId : Hash) :
      IsAdmission (.extrinsic origin (.retryQuarantinedSystemOp requestId), none)
  | submitAllocation (origin : Origin AccountId) (allocation : AllocationV1) :
      IsAdmission (.extrinsic origin (.submitAllocation allocation), none)

/-- The list that is converted into the batch has one entry for each pending item. -/
theorem length_batch (s : State T) :
    (sortedSystemOps s).length + (pendingAllocationInputs s).length = s.batchLength := by
  unfold sortedSystemOps pendingAllocationInputs State.batchLength
  rw [List.length_map, (sortByKey_perm _ _).length_eq, List.length_map,
    length_getPendingAllocations]

/-- The batch is built when the allocations convert and the two queues together fit. -/
theorem pendingSystemOpsBatch_of_le {ops : List SystemOpV2} (hlength : s.batchLength ≤ 64)
    (hops : (pendingAllocationInputs s).mapM (allocationInputOp s) = .ok ops) :
    ∃ batch, pendingSystemOpsBatch s = .ok batch ∧ batch.toList = sortedSystemOps s ++ ops := by
  have hlen : ops.length = (pendingAllocationInputs s).length :=
    (Except.mapM_ok_iff.mp hops).length_eq.symm
  have hfits : (sortedSystemOps s ++ ops).length ≤ 64 := by
    rw [List.length_append, hlen, length_batch]
    exact hlength
  refine ⟨⟨_, hfits⟩, ?_, rfl⟩
  unfold pendingSystemOpsBatch
  rw [hops]
  exact tryIntoBatch_of_length_le hfits

/-- Only an admission brings an operation into the queue, and it brings one. -/
theorem flows_of_admission (t : Chain.TakenStep T) :
    queuedOps t ++ retriedOps t = [] ∨
      IsAdmission t.label ∧ (queuedOps t ++ retriedOps t).length ≤ 1 := by
  obtain ⟨pre, ⟨action, _ | e⟩, post⟩ := t
  · cases action with
    | extrinsic origin call =>
      cases call with
      | submitSystemOp command =>
        refine Or.inr ⟨.submitSystemOp _ _, ?_⟩
        cases origin <;> simp [queuedOps, retriedOps]
      | retryQuarantinedSystemOp requestId =>
        refine Or.inr ⟨.retrySystemOp _ _, ?_⟩
        cases hfound : pre.findQuarantined requestId <;> simp [queuedOps, retriedOps, hfound]
      | _ => exact Or.inl rfl
    | _ => exact Or.inl rfl
  · cases action with
    | extrinsic origin call => cases call <;> exact Or.inl rfl
    | _ => exact Or.inl rfl

/-- A step that is no admission does not lengthen the batch, an admission lengthens it by at
most one. -/
theorem IngressStep.batchLength {t : Chain.TakenStep T} (h : IngressStep t) :
    t.post.batchLength ≤ t.pre.batchLength ∨
      IsAdmission t.label ∧ t.post.batchLength ≤ t.pre.batchLength + 1 := by
  obtain ⟨_, hmoves, -⟩ := h.systemOps
  have hops := hmoves.queued.length_le
  rw [List.append_assoc, List.length_append, List.length_map, List.length_map] at hops
  have hops : t.post.pendingSystemOps.toList.length ≤
    t.pre.pendingSystemOps.toList.length + (queuedOps t ++ retriedOps t).length := hops
  unfold State.batchLength
  rcases h.registry with ⟨P, hprocesses, -⟩ | ⟨who, a, hl, hadmitted⟩
  · have hallocations : t.post.pendingAllocations.keys.length ≤
      t.pre.pendingAllocations.keys.length := hprocesses.length_le
    rcases flows_of_admission t with hnil | ⟨hadmission, hone⟩
    · rw [hnil, List.length_nil] at hops
      exact Or.inl (by omega)
    · exact Or.inr ⟨hadmission, by omega⟩
  · -- The admission of an allocation moves no operation.
    have hnil : queuedOps t ++ retriedOps t = [] := by
      unfold queuedOps retriedOps
      rw [hl]
      rfl
    have hpending : t.post.pendingAllocations =
        t.pre.pendingAllocations.insert a.allocationId ⟨who, a⟩ :=
      congrArg OnceRegistry.pending hadmitted.registry
    have herase : (t.pre.pendingAllocations.keys.erase a.allocationId).length ≤
        t.pre.pendingAllocations.keys.length := List.length_erase_le
    rw [hnil, List.length_nil] at hops
    rw [hpending, AList.keys_insert, List.length_cons]
    exact Or.inr ⟨hl ▸ .submitAllocation _ _, by omega⟩

section
variable [DecidableEq AccountId]

theorem batchLength_le {h : Chain.History T} {bound : Nat}
    (hr : Chain.Run T h s) (hroom : ∀ t ∈ h, IsAdmission t.label → t.pre.batchLength < bound) :
    s.batchLength ≤ bound := by
  revert hroom
  refine Trace.invariant (I := fun h s =>
    (∀ t ∈ h, IsAdmission t.label → t.pre.batchLength < bound) → s.batchLength ≤ bound) ?_ ?_ hr
  · intro s hgenesis _
    obtain ⟨_, hlength⟩ := genesis_initial hgenesis State.batchLength fun _ _ => rfl
    rw [hlength]
    exact Nat.zero_le _
  · intro h s l s' ih hstep hroom
    have hs : s.batchLength ≤ bound := ih fun t ht => hroom t (List.mem_cons_of_mem _ ht)
    rcases (ingressStep_of_step hstep).batchLength with hle | ⟨hadmission, hle⟩
    · exact hle.trans hs
    · have : s.batchLength < bound := hroom _ List.mem_cons_self hadmission
      exact hle.trans this

end

/-- In every run of the runtime that admits a system operation or an allocation only while
the two queues together hold fewer than 64 entries, the batch has at most 64 entries. So it
converts, and an input whose reports and allocations convert is built: no queue is too long
for its batch. -/
theorem system_batch_fits {Ledger : Type} (env : Environment Ledger)
    (h : List (Transition (State (Runtime.config env)) (Chain.Label (Runtime.config env))))
    (s : State (Runtime.config env)) (hr : Chain.Run (Runtime.config env) h s)
    (hroom : ∀ t ∈ h, IsAdmission t.label → t.pre.batchLength < 64) :
    (sortedSystemOps s).length + (pendingAllocationInputs s).length ≤ 64 ∧
    (∀ ops, (pendingAllocationInputs s).mapM (allocationInputOp s) = .ok ops →
      ∃ batch, pendingSystemOpsBatch s = .ok batch ∧
        batch.toList = sortedSystemOps s ++ ops) ∧
    ∀ block reports ops, (dueItems s block).mapM (dueReport s) = .ok reports →
      (pendingAllocationInputs s).mapM (allocationInputOp s) = .ok ops →
      ∃ input, executionInput s block (dueItems s block) = .ok input := by
  have hlength : s.batchLength ≤ 64 := batchLength_le hr hroom
  refine ⟨by rw [length_batch]; exact hlength,
    fun ops hops => pendingSystemOpsBatch_of_le hlength hops, ?_⟩
  intro block reports ops hreports hops
  have hforall := Except.mapM_ok_iff.mp hreports
  -- The other two batches are bounded by the queues they come from.
  have hdue : reports.length ≤ 4 := hforall.length_eq ▸ length_dueItems_le s block
  have hpreimages : ∃ batch, blockPreimages s = .ok batch := by
    unfold blockPreimages
    split_ifs
    · exact ⟨_, rfl⟩
    · refine ⟨_, tryIntoBatch_of_length_le ?_⟩
      rw [List.length_map, (sortByKey_perm _ _).length_eq]
      exact s.pendingPreimages.length_le
  have hsystemOps : ∃ batch, blockSystemOps s = .ok batch := by
    unfold blockSystemOps
    split_ifs
    · exact ⟨_, rfl⟩
    · obtain ⟨batch, hbatch, -⟩ := pendingSystemOpsBatch_of_le hlength hops
      exact ⟨batch, hbatch⟩
  obtain ⟨preimages, hpreimages⟩ := hpreimages
  obtain ⟨systemOps, hsystemOps⟩ := hsystemOps
  obtain ⟨batch, hbatch⟩ : ∃ batch : ReportBatch, batch.toList = reports :=
    ⟨⟨reports, hdue⟩, rfl⟩
  rw [← hbatch] at hforall
  obtain ⟨input, hinput, -⟩ := executionInput_of_parts hforall hpreimages hsystemOps
  exact ⟨input, hinput⟩

/-- The operation that creates a service. -/
def createService : SystemCommandV2 := .createService (FixedBytes.fill 32 0) 1 1 1

open Reference

/-- An allocation and a system operation, admitted to empty queues. -/
theorem system_batch_fits_two : ∃ h s,
    Chain.Run (runtime consumeAll) h s ∧
    (∀ t ∈ h, IsAdmission t.label → t.pre.batchLength < 64) ∧ s.batchLength = 2 ∧
    (sortedSystemOps s).length + (pendingAllocationInputs s).length ≤ 64 := by
  obtain ⟨h, s, hrun, hbelow, htwo⟩ := exists_history
    (runtime consumeAll)
    [.extrinsic (.signed bob) (.submitAllocation ⟨5, 1, 1⟩),
      .extrinsic (.signed alice) (.submitSystemOp createService)]
    (fun h s => (∀ t ∈ h, t.pre.batchLength < 64) ∧ s.batchLength = 2) (by decide +kernel)
  have hroom : ∀ t ∈ h, IsAdmission t.label → t.pre.batchLength < 64 := fun t ht _ => hbelow t ht
  exact ⟨h, s, hrun, hroom, htwo, (system_batch_fits _ h s hrun hroom).1⟩

/-- Sixty-four allocations, admitted one after the other, with one system operation. -/
def fullQueues {answer : MiniJamExecutionInput → ProtocolStateReader →
    Except MiniJamError MiniJamExecutionOutput} : List (Action (runtime answer)) :=
  (List.range 64).map (fun i => .extrinsic (.signed bob)
    (.submitAllocation ⟨UInt64.ofNat i, 1, 1⟩)) ++
  [.extrinsic (.signed alice) (.submitSystemOp createService)]

/-- Both queues within their bounds: the batch cannot be built and the hook panics. -/
theorem system_batch_overflows : ∃ h s,
    Chain.Run (runtime consumeAll) h s ∧
    64 < (sortedSystemOps s).length + (pendingAllocationInputs s).length ∧
    pendingSystemOpsBatch s = .error .fatal ∧ onFinalize 1 s = .panicked := by
  obtain ⟨h, s, hrun, hlong, hbatch, hpanic⟩ := exists_run
    (runtime consumeAll) fullQueues
    (fun s => 64 < (sortedSystemOps s).length + (pendingAllocationInputs s).length ∧
      pendingSystemOpsBatch s = .error .fatal ∧ onFinalize 1 s = .panicked) (by decide +kernel)
  exact ⟨h, s, hrun, hlong, hbatch, hpanic⟩

end MiniJam.Jam
