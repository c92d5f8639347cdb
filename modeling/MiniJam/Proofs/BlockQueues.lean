import MiniJam.Lib.KeyedQueue
import MiniJam.Lib.OnceRegistry
import MiniJam.Proofs.Atomicity
import MiniJam.Proofs.BlockInput

/-!
# `MiniJam.Proofs.BlockQueues`: what a block does to the queues

The parts of a committed block are inverted here. It drains the two queues by what its output
names, processes the allocations whose receipts its changes hold, and applies the changes to
the protocol state (`CommitIngress`). A block that is refused may move a queue into its
quarantine instead.
-/

set_option autoImplicit false

namespace MiniJam.Jam

open KeyedQueue

variable {AccountId Ledger : Type} {T : Config AccountId Ledger} {s s' : State T}
  {block : BlockNumber}

/-! ### The keys of the queues and the registry of the allocations -/

/-- The key of a pending preimage. -/
def PendingPreimage.key (preimage : PendingPreimage AccountId) : PreimageKeyV1 :=
  PreimageKeyV1.ofMetadata preimage.metadata

/-- The key of a pending system operation. -/
def PendingSystemOp.requestId (pending : PendingSystemOp AccountId) : Hash := pending.op.requestId

/-- The receipt of a pending allocation. -/
def PendingAllocation.pendingReceipt (pending : PendingAllocation AccountId) : AllocationReceipt :=
  ⟨pending.allocation, .pending⟩

/-- The receipt of an allocation that was processed. -/
def PendingAllocation.processedReceipt (pending : PendingAllocation AccountId) :
    AllocationReceipt := ⟨pending.allocation, .processed⟩

/-- The queue of the system operations, with its quarantine. -/
def State.opStore (s : State T) :
    Store (PendingSystemOp AccountId) (QuarantinedSystemOp AccountId) Hash where
  queue := s.pendingSystemOps.toList
  index := s.pendingSystemOpKeys
  quarantine := s.quarantinedSystemOps.toList

/-- The queue of the preimages, with its quarantine. -/
def State.preimageStore (s : State T) :
    Store (PendingPreimage AccountId) (QuarantinedPreimage AccountId) PreimageKeyV1 where
  queue := s.pendingPreimages.toList
  index := s.pendingPreimageKeys
  quarantine := s.quarantinedPreimages.toList

/-- The allocations as a registry. -/
def State.registry (s : State T) :
    OnceRegistry UInt64 (PendingAllocation AccountId) AllocationReceipt where
  pending := s.pendingAllocations
  processed := s.processedAllocations
  receipts := s.allocationReceipts
  count := s.pendingAllocationCount

/-! ### Allocations -/

/-- The storage after one pending allocation was processed. -/
def State.processed (s : State T) (allocationId : UInt64)
    (pending : PendingAllocation AccountId) : State T :=
  { s with
    pendingAllocations := s.pendingAllocations.erase allocationId
    processedAllocations := s.processedAllocations.insert allocationId ()
    pendingAllocationCount := s.pendingAllocationCount - 1
    allocationReceipts := s.allocationReceipts.insert allocationId
      ⟨pending.allocation, .processed⟩
    events := s.events ++ [.allocationProcessed allocationId pending.allocation.targetService
      pending.allocation.amount] }

theorem consumeAllocationAfterTransition_ok {allocationId : UInt64}
    (h : consumeAllocationAfterTransition allocationId s = .ok () s') :
    ∃ pending, s.pendingAllocations.lookup allocationId = some pending ∧
      s' = s.processed allocationId pending := by
  unfold consumeAllocationAfterTransition at h
  rw [Tx.read_bind_apply] at h
  obtain ⟨-, h⟩ := Tx.ensure_bind_ok.mp h
  obtain ⟨pending, hpending, h⟩ := Tx.okOr_bind_ok.mp h
  cases h
  exact ⟨pending, hpending, rfl⟩

/-- The changes hold a receipt at the key, and it reports success. -/
def Confirms (changes : List ProtocolStateChange) (key : StateKey) : Prop :=
  ∃ change, changes.find? (fun change => decide (change.key = key)) = some change ∧
    ∃ value, change.value = some value ∧ value.toList.head? = some 0

instance (changes : List ProtocolStateChange) (key : StateKey) : Decidable (Confirms changes key) :=
  inferInstanceAs (Decidable (∃ _, _ ∧ _))

variable {changes : List ProtocolStateChange} {pending : PendingAllocation AccountId}

/-- One turn of the consuming loop processes its allocation exactly when its receipt reports
success. -/
theorem consumeIfConfirmed_ok (h : consumeIfConfirmed changes pending s = .ok () s') :
    ¬ Confirms changes (allocationReceiptStateKey T pending.allocation.allocationId) ∧ s' = s ∨
      Confirms changes (allocationReceiptStateKey T pending.allocation.allocationId) ∧
        ∃ found, s.pendingAllocations.lookup pending.allocation.allocationId = some found ∧
          s' = s.processed pending.allocation.allocationId found := by
  unfold consumeIfConfirmed at h
  cases hchange : changes.find? (fun change => decide
      (change.key = allocationReceiptStateKey T pending.allocation.allocationId)) with
  | none =>
    simp only [hchange] at h
    cases h
    refine Or.inl ⟨?_, rfl⟩
    rintro ⟨change, hfound, -⟩
    cases hchange.symm.trans hfound
  | some change =>
    simp only [hchange] at h
    obtain ⟨value, hvalue, h⟩ := Tx.okOr_bind_ok.mp h
    obtain ⟨-, h⟩ := Tx.ensure_bind_ok.mp h
    -- Only a receipt that begins with the success code consumes.
    split_ifs at h with hhead
    · exact Or.inr ⟨⟨change, hchange, value, hvalue, hhead⟩, consumeAllocationAfterTransition_ok h⟩
    · cases h
      refine Or.inl ⟨?_, rfl⟩
      rintro ⟨change', hfound, value', hvalue', hhead'⟩
      cases hchange.symm.trans hfound
      cases hvalue.symm.trans hvalue'
      exact hhead hhead'

/-- The registry processes allocations whose receipts the changes hold. -/
abbrev ConfirmedProcesses (T : Config AccountId Ledger) (changes : List ProtocolStateChange) :
    OnceRegistry UInt64 (PendingAllocation AccountId) AllocationReceipt →
    OnceRegistry UInt64 (PendingAllocation AccountId) AllocationReceipt → Prop :=
  OnceRegistry.Processes PendingAllocation.processedReceipt fun id =>
    Confirms changes (allocationReceiptStateKey T id)

variable {pendings : List (PendingAllocation AccountId)}

/-- The turns over a list process allocations of the list. -/
theorem consumeEach_registry (h : Tx.forEach (consumeIfConfirmed changes) pendings s = .ok () s') :
    OnceRegistry.Processes PendingAllocation.processedReceipt
      (fun id => id ∈ pendings.map (fun pending => pending.allocation.allocationId) ∧
        Confirms changes (allocationReceiptStateKey T id)) s.registry s'.registry := by
  induction pendings generalizing s with
  | nil =>
    cases h
    exact .refl
  | cons pending pendings ih =>
    rw [Tx.forEach_cons] at h
    obtain ⟨_, s₁, h₁, h₂⟩ := Tx.bind_ok.mp h
    refine .trans ?_ ((ih h₂).mono fun id hid => ⟨List.mem_cons_of_mem _ hid.1, hid.2⟩)
    rcases consumeIfConfirmed_ok h₁ with ⟨-, rfl⟩ | ⟨hconfirms, found, hfound, rfl⟩
    · exact .refl
    · exact .single (.mk hfound ⟨List.mem_cons_self, hconfirms⟩)

/-- The turns process every allocation of the list that is confirmed. -/
theorem consumeEach_processes (h : Tx.forEach (consumeIfConfirmed changes) pendings s = .ok () s')
    (hmem : pending ∈ pendings)
    (hconfirms : Confirms changes (allocationReceiptStateKey T pending.allocation.allocationId)) :
    s'.processedAllocations.contains pending.allocation.allocationId = true := by
  induction pendings generalizing s with
  | nil => cases hmem
  | cons first pendings ih =>
    rw [Tx.forEach_cons] at h
    obtain ⟨_, s₁, h₁, h₂⟩ := Tx.bind_ok.mp h
    rcases List.mem_cons.mp hmem with rfl | hmem
    · -- It is processed in this turn, and stays so in the turns after it.
      rcases consumeIfConfirmed_ok h₁ with ⟨hnot, -⟩ | ⟨-, found, -, rfl⟩
      · exact absurd hconfirms hnot
      · refine ((consumeEach_registry h₂).cases _).2 ?_
        show ((s.processedAllocations.insert _ ()).lookup _).isSome = true
        rw [AList.lookup_insert]
        rfl
    · exact ih h₂ hmem

theorem mem_getPendingAllocations :
    pending ∈ getPendingAllocations s ↔ ∃ id, s.pendingAllocations.lookup id = some pending := by
  unfold getPendingAllocations
  rw [(sortByKey_perm _ _).mem_iff, List.mem_map]
  constructor
  · rintro ⟨⟨id, found⟩, hmem, rfl⟩
    exact ⟨id, (StorageMap.mem_iter T.workers.iterOrder_perm).mp hmem⟩
  · rintro ⟨id, hid⟩
    exact ⟨(id, pending), (StorageMap.mem_iter T.workers.iterOrder_perm).mpr hid, rfl⟩

theorem length_getPendingAllocations (s : State T) :
    (getPendingAllocations s).length = s.pendingAllocations.keys.length := by
  unfold getPendingAllocations
  rw [(sortByKey_perm _ _).length_eq, List.length_map,
    StorageMap.length_iter T.workers.iterOrder_perm]

/-! ### The protocol state -/

/-- What a change leaves at its key. -/
def writtenValue (change : ProtocolStateChange) : Option StateValue :=
  match change.operation with
  | .remove => none
  | _ => change.value

theorem applyChange_lookup {change : ProtocolStateChange}
    (h : applyChange change s = .ok () s') (key : StateKey) :
    s'.protocolState.lookup key =
      if key = change.key then writtenValue change else s.protocolState.lookup key := by
  unfold applyChange at h
  unfold writtenValue
  cases hop : change.operation with
  | remove =>
    simp only [hop] at h
    cases h
    exact StorageMap.lookup_erase_eq _ _ _
  | upsert =>
    simp only [hop] at h
    obtain ⟨value, hvalue, h⟩ := Tx.okOr_bind_ok.mp h
    cases h
    rw [hvalue]
    exact StorageMap.lookup_insert_eq _ _ _ _
  | update =>
    simp only [hop] at h
    obtain ⟨value, hvalue, h⟩ := Tx.okOr_bind_ok.mp h
    cases h
    rw [hvalue]
    exact StorageMap.lookup_insert_eq _ _ _ _

/-- After the changes a key has the value it had, or one that a change of the key wrote. -/
theorem applyChanges_lookup (h : Tx.forEach applyChange changes s = .ok () s') (key : StateKey) :
    s'.protocolState.lookup key = s.protocolState.lookup key ∨
      ∃ change ∈ changes, change.key = key ∧
        s'.protocolState.lookup key = writtenValue change := by
  induction changes generalizing s with
  | nil =>
    cases h
    exact Or.inl rfl
  | cons change changes ih =>
    rw [Tx.forEach_cons] at h
    obtain ⟨_, s₁, h₁, h₂⟩ := Tx.bind_ok.mp h
    rcases ih h₂ with hsame | ⟨later, hmem, hkey, hlater⟩
    · rw [hsame, applyChange_lookup h₁]
      split_ifs with hkey
      · exact Or.inr ⟨change, List.mem_cons_self, hkey.symm, rfl⟩
      · exact Or.inl rfl
    · exact Or.inr ⟨later, List.mem_cons_of_mem _ hmem, hkey, hlater⟩

/-! ### Consuming preimages and system operations -/

variable {consumed : List Hash}

/-- Consuming preimages takes out the named ones and keeps all others. -/
theorem consumePreimages_drained (h : consumePreimages consumed s = .ok () s') :
    ∃ removed, Drained (consumesPreimage T consumed) PendingPreimage.key
      s.pendingPreimages.toList s.pendingPreimageKeys s'.pendingPreimages.toList removed
      s'.pendingPreimageKeys := by
  unfold consumePreimages at h
  split_ifs at h with hnil
  · cases h
    exact ⟨[], .none fun entry _ => by simp [consumesPreimage, hnil]⟩
  · cases h
    exact ⟨_, drained_swapRetain _ _ _ _⟩

/-- Consuming system operations takes out the named ones and keeps all others. -/
theorem consumeSystemOps_drained (h : consumeSystemOps consumed s = .ok () s') :
    ∃ removed, Drained (consumesSystemOp consumed) PendingSystemOp.requestId
      s.pendingSystemOps.toList s.pendingSystemOpKeys s'.pendingSystemOps.toList removed
      s'.pendingSystemOpKeys := by
  unfold consumeSystemOps at h
  split_ifs at h with hnil
  · cases h
    exact ⟨[], .none fun entry _ => by simp [consumesSystemOp, hnil]⟩
  · cases h
    exact ⟨_, drained_swapRetain _ _ _ _⟩

/-! ### A committed block -/

/-- What a committed block does to the queues, the registry and the protocol state. -/
structure CommitIngress (s : State T) (output : MiniJamExecutionOutput) (delta : ValidatedDelta)
    (s' : State T) : Prop where
  preimages : ∃ removed, Drained (consumesPreimage T output.consumedPreimages.toList)
    PendingPreimage.key s.pendingPreimages.toList s.pendingPreimageKeys
    s'.pendingPreimages.toList removed s'.pendingPreimageKeys
  systemOps : ∃ removed, Drained (consumesSystemOp output.consumedSystemOps.toList)
    PendingSystemOp.requestId s.pendingSystemOps.toList s.pendingSystemOpKeys
    s'.pendingSystemOps.toList removed s'.pendingSystemOpKeys
  quarantinedPreimages : s'.quarantinedPreimages = s.quarantinedPreimages
  quarantinedSystemOps : s'.quarantinedSystemOps = s.quarantinedSystemOps
  quarantinedExecutionQueue : s'.quarantinedExecutionQueue = s.quarantinedExecutionQueue
  systemOpNonces : s'.systemOpNonces = s.systemOpNonces
  registry : ConfirmedProcesses T delta.changes s.registry s'.registry
  processes : ∀ id pending, s.pendingAllocations.lookup id = some pending →
    Confirms delta.changes (allocationReceiptStateKey T pending.allocation.allocationId) →
      s'.processedAllocations.contains pending.allocation.allocationId = true
  protocolState : ∃ s₁, applyDelta delta s = .ok () s₁ ∧ s'.protocolState = s₁.protocolState

theorem commitOutput_ingress {workIds : List WorkId} {input : MiniJamExecutionInput}
    {output : MiniJamExecutionOutput} {delta : ValidatedDelta} {summary : BlockStfSummary}
    (h : commitOutput workIds input output delta s = .ok summary s') :
    CommitIngress s output delta s' := by
  obtain ⟨s₁, s₂, s₃, s₄, s₅, h₁, h₂, h₃, h₄, h₅, rfl⟩ := commitOutput_ok h
  have hregistry := (consumeEach_registry h₂).mono fun _ hid => hid.2
  have hprocesses : ∀ pending ∈ _, _ → _ := fun _ => consumeEach_processes h₂
  have hpreimages := consumePreimages_drained h₃
  have hops := consumeSystemOps_drained h₄
  -- Each part writes items of its own, and everything else is the same by definition.
  obtain ⟨t₁, rfl⟩ := ((applyDelta_within delta).of_ok h₁).exists_put
  obtain ⟨t₂, rfl⟩ := ((consumeSuccessfulAllocations_within _).of_ok h₂).exists_put
  obtain ⟨t₃, rfl⟩ := ((consumePreimages_within _).of_ok h₃).exists_put
  obtain ⟨t₄, rfl⟩ := ((consumeSystemOps_within _).of_ok h₄).exists_put
  obtain ⟨t₅, rfl⟩ := ((importReports_within _ _).of_ok h₅).exists_put
  exact ⟨hpreimages, hops, rfl, rfl, rfl, rfl, hregistry, fun id pending hlookup =>
    hprocesses pending (mem_getPendingAllocations.mpr ⟨id, hlookup⟩), _, h₁, rfl⟩

/-! ### A refused block -/

/-- The pending system operations go into the quarantine as far as there is room. -/
theorem quarantinePendingSystemOps_ok {outcome : ExecutionOutcome}
    (h : quarantinePendingSystemOps outcome s = .ok () s') : s'.opStore =
      ⟨[], eraseKeys PendingSystemOp.requestId s.pendingSystemOps.toList s.pendingSystemOpKeys,
        s.quarantinedSystemOps.toList ++
          (s.pendingSystemOps.toList.map (quarantineSystemOp T outcome s.base.blockNumber)).take
            (T.maxPendingSystemOps.toNat - s.quarantinedSystemOps.toList.length)⟩ := by
  unfold quarantinePendingSystemOps at h
  rw [Tx.read_bind_apply, Tx.modify_bind_apply] at h
  rw [← BoundedVec.toList_pushAll]
  split_ifs at h with hnil
  · cases h
    rw [hnil]
    rfl
  · cases h
    rfl

/-- The pending preimages go into the quarantine as far as there is room. -/
theorem quarantinePendingPreimages_ok {code : ExecutionErrorCode}
    (h : quarantinePendingPreimages code s = .ok () s') : s'.preimageStore =
      ⟨[], eraseKeys PendingPreimage.key s.pendingPreimages.toList s.pendingPreimageKeys,
        s.quarantinedPreimages.toList ++
          (s.pendingPreimages.toList.map (quarantinePreimage T code s.base.blockNumber)).take
            (T.maxPendingPreimages.toNat - s.quarantinedPreimages.toList.length)⟩ := by
  unfold quarantinePendingPreimages at h
  rw [Tx.read_bind_apply, Tx.modify_bind_apply] at h
  rw [← BoundedVec.toList_pushAll]
  split_ifs at h with hnil
  · cases h
    rw [hnil]
    rfl
  · cases h
    rfl

end MiniJam.Jam
