import MiniJam.Jam.Works

/-!
# `MiniJam.Jam.Ingress`: preimages, system operations, allocations and administration

The calls that fill and empty the queues of the virtual block. Preimages and system
operations come from the ingress relayer, allocations from the allocation relayer, and the
rest from root. Each definition follows the function of the same name in
`pallets/minijam/src/lib.rs`.
-/

set_option autoImplicit false

namespace MiniJam.Jam

variable {AccountId Ledger : Type} [DecidableEq AccountId] {T : Config AccountId Ledger}

/-! ### Administration -/

def pauseExecution (origin : Origin AccountId) (paused : Bool) : M T Unit := do
  ensureRoot origin
  Tx.modify fun s => { s with
    reportImportPaused := paused
    preimageImportPaused := paused
    systemOpsPaused := paused }
  depositEvent (.importPaused paused)

def quarantinePending (origin : Origin AccountId) : M T Unit := do
  ensureRoot origin
  let s ← Tx.read
  let queue := s.executionQueue
  Tx.modify fun s => { s with
    executionQueue := BoundedVec.empty
    quarantinedExecutionQueue := queue }
  depositEvent (.executionQueueQuarantined queue.toList.length)

def setIngressRelayer (origin : Origin AccountId) (newRelayer : AccountId) : M T Unit := do
  ensureRoot origin
  let s ← Tx.read
  Tx.modify fun s => { s with ingressRelayer := some newRelayer }
  depositEvent (.ingressRelayerChanged s.ingressRelayer newRelayer)

def setAllocationRelayer (origin : Origin AccountId) (newRelayer : AccountId) : M T Unit := do
  ensureRoot origin
  let s ← Tx.read
  Tx.modify fun s => { s with allocationRelayer := some newRelayer }
  depositEvent (.allocationRelayerChanged s.allocationRelayer newRelayer)

/-! ### Preimages -/

def submitPreimage (origin : Origin AccountId) (canonicalPreimage : CanonicalPreimageBytes) :
    M T Unit := do
  let submitter ← ensureIngressRelayer origin
  let s ← Tx.read
  let metadata ← Tx.okOr (T.executor.validatePreimageSubmission canonicalPreimage.toList
    s.protocolReader).toOption (.jam .invalidPreimage)
  let key := PreimageKeyV1.ofMetadata metadata
  Tx.ensure (!s.pendingPreimageKeys.contains key) (.jam .duplicatePendingPreimage)
  let pending ← Tx.okOr (s.pendingPreimages.tryPush
    { submitter := submitter, canonical := canonicalPreimage, metadata := metadata })
    (.jam .tooManyPendingPreimages)
  Tx.modify fun s => { s with
    pendingPreimages := pending
    pendingPreimageKeys := s.pendingPreimageKeys.insert key () }
  depositEvent (.preimageQueued metadata.requester metadata.blobHash metadata.blobLen)

/-! ### System operations -/

def validateSystemCommand : SystemCommandV2 → M T Unit
  | .createService _ codeLen minItemGas minMemoGas => do
    Tx.ensure (codeLen > 0) (.jam .invalidSystemOp)
    Tx.ensure (minItemGas > 0) (.jam .invalidSystemOp)
    Tx.ensure (minMemoGas > 0) (.jam .invalidSystemOp)
  | .applyAllocation allocationId targetService amount => do
    Tx.ensure (allocationId > 0) (.jam .invalidSystemOp)
    Tx.ensure (targetService > 0) (.jam .invalidSystemOp)
    Tx.ensure (amount > 0) (.jam .invalidSystemOp)

def systemOpSender (T : Config AccountId Ledger) (account : AccountId) : FixedBytes 32 :=
  T.workers.crypto.blake2_256 (T.encodeAccount account)

def State.systemOpNonce (s : State T) (sender : FixedBytes 32) : UInt64 :=
  (s.systemOpNonces.lookup sender).getD 0

def submitSystemOp (origin : Origin AccountId) (command : SystemCommandV2) : M T Unit := do
  let submitter ← ensureIngressRelayer origin
  validateSystemCommand command
  let sender := systemOpSender T submitter
  let s ← Tx.read
  let nonce := s.systemOpNonce sender
  let op := SystemOpV2.new T.workers.crypto sender nonce command
  Tx.ensure (!s.pendingSystemOpKeys.contains op.requestId) (.jam .duplicatePendingSystemOp)
  let pending ← Tx.okOr (s.pendingSystemOps.tryPush { submitter := submitter, op := op })
    (.jam .tooManyPendingSystemOps)
  Tx.modify fun s => { s with
    pendingSystemOps := pending
    pendingSystemOpKeys := s.pendingSystemOpKeys.insert op.requestId ()
    systemOpNonces := s.systemOpNonces.insert sender (nonce.satAdd 1) }
  depositEvent (.systemOpQueued op.requestId sender)

/-- The first quarantined operation with a request id. -/
def State.findQuarantined (s : State T) (requestId : Hash) :
    Option (QuarantinedSystemOp AccountId) :=
  s.quarantinedSystemOps.toList.find? fun pending => decide (pending.op.requestId = requestId)

/-- Take the first quarantined operation with a request id out of the quarantine. -/
def State.removeQuarantined (s : State T) (requestId : Hash) : State T :=
  { s with
    quarantinedSystemOps := s.quarantinedSystemOps.removeFirst fun pending =>
      decide (pending.op.requestId = requestId) }

def dropQuarantinedSystemOp (origin : Origin AccountId) (requestId : Hash) : M T Unit := do
  ensureRoot origin
  let s ← Tx.read
  Tx.modify fun s => s.removeQuarantined requestId
  Tx.ensure (s.findQuarantined requestId).isSome (.jam .quarantinedSystemOpNotFound)
  depositEvent (.systemOpDropped requestId)

def retryQuarantinedSystemOp (origin : Origin AccountId) (requestId : Hash) : M T Unit := do
  ensureRoot origin
  let s ← Tx.read
  Tx.ensure (!s.pendingSystemOpKeys.contains requestId) (.jam .duplicatePendingSystemOp)
  Tx.modify fun s => s.removeQuarantined requestId
  let retry ← Tx.okOr (s.findQuarantined requestId) (.jam .quarantinedSystemOpNotFound)
  let pending ← Tx.okOr (s.pendingSystemOps.tryPush
    { submitter := retry.submitter, op := retry.op }) (.jam .tooManyPendingSystemOps)
  Tx.modify fun s => { s with
    pendingSystemOps := pending
    pendingSystemOpKeys := s.pendingSystemOpKeys.insert requestId () }
  depositEvent (.systemOpRetried requestId)

def clearQuarantinedSystemOps (origin : Origin AccountId) : M T Unit := do
  ensureRoot origin
  let s ← Tx.read
  Tx.modify fun s => { s with quarantinedSystemOps := BoundedVec.empty }
  depositEvent (.systemOpQuarantineCleared s.quarantinedSystemOps.toList.length)

/-! ### Service fuel -/

def State.serviceFuel (s : State T) (serviceId : UInt32) : ServiceFuelAccount :=
  (s.serviceFuelAccounts.lookup serviceId).getD { available := 0, reserved := 0 }

def fundService (origin : Origin AccountId) (serviceId : UInt32) (amount : Balance) :
    M T Unit := do
  let funder ← ensureSigned origin
  Tx.ensure (amount ≠ 0) (.jam .zeroFuelAmount)
  let s ← Tx.read
  Tx.ensure (s.serviceExists serviceId) (.jam .unknownService)
  currencyOp (T.currency.transfer funder T.fuelEscrowAccount amount)
  let account := s.serviceFuel serviceId
  let account := { account with available := Balance.satAdd account.available amount }
  let total := Balance.satAdd s.totalServiceFuel amount
  Tx.modify fun s => { s with
    serviceFuelAccounts := s.serviceFuelAccounts.insert serviceId account
    totalServiceFuel := total }
  let s ← Tx.read
  Tx.ensure (total ≤ T.currency.balance s.base.ledger T.fuelEscrowAccount)
    (.jam .fuelEscrowInvariant)
  depositEvent (.serviceFunded funder serviceId amount account.available)

/-! ### Allocations -/

def allocationRelayerAccount : M T AccountId := do
  let s ← Tx.read
  Tx.okOr (s.allocationRelayer <|> s.ingressRelayer) (.jam .allocationRelayerNotConfigured)

def ensureAllocationRelayer (origin : Origin AccountId) : M T AccountId := do
  let who ← ensureSigned origin
  let expected ← allocationRelayerAccount
  Tx.ensure (who = expected) (.jam .unauthorizedAllocation)
  pure who

/-- An amount as a 64-bit integer, saturating. -/
def jamAmount (amount : Balance) : UInt64 := UInt64.ofNat (min amount (2 ^ 64 - 1))

def submitAllocation (origin : Origin AccountId) (allocation : AllocationV1) : M T Unit := do
  let submitter ← ensureAllocationRelayer origin
  Tx.ensure (allocation.amount ≠ 0) (.jam .zeroAllocation)
  Tx.ensure ((jamAmount allocation.amount).toNat = allocation.amount)
    (.jam .allocationAmountOverflow)
  let s ← Tx.read
  Tx.ensure (s.serviceExists allocation.targetService) (.jam .unknownService)
  Tx.ensure (!s.processedAllocations.contains allocation.allocationId
    && !s.pendingAllocations.contains allocation.allocationId) (.jam .duplicateAllocation)
  Tx.ensure (s.pendingAllocationCount < T.maxPendingAllocations.toNat)
    (.jam .tooManyPendingAllocations)
  Tx.modify fun s => { s with
    pendingAllocations := s.pendingAllocations.insert allocation.allocationId
      { submitter := submitter, allocation := allocation }
    pendingAllocationCount := satAdd32 s.pendingAllocationCount 1
    allocationReceipts := s.allocationReceipts.insert allocation.allocationId
      { allocation := allocation, status := .pending } }
  depositEvent (.allocationQueued allocation.allocationId allocation.targetService
    allocation.amount)

/-- Move a pending allocation to the processed ones. -/
def processAllocation {ε : Type} (allocationId : UInt64)
    (pending : PendingAllocation AccountId) : Tx (State T) ε Unit := do
  Tx.modify fun s => { s with
    pendingAllocations := s.pendingAllocations.erase allocationId
    processedAllocations := s.processedAllocations.insert allocationId ()
    pendingAllocationCount := s.pendingAllocationCount - 1
    allocationReceipts := s.allocationReceipts.insert allocationId
      { allocation := pending.allocation, status := .processed } }
  depositEvent (.allocationProcessed allocationId pending.allocation.targetService
    pending.allocation.amount)

/-- A receipt of the system service that confirms a transition. -/
def confirmedReceipt (receipt : Bytes) : Bool :=
  decide (5 ≤ receipt.length) && decide (receipt.head? = some 0)

def consumeAllocation (allocationId : UInt64) : M T Unit := do
  let s ← Tx.read
  Tx.ensure (!s.processedAllocations.contains allocationId) (.jam .duplicateAllocation)
  let receipt ← Tx.okOr (s.protocolState.lookup (allocationReceiptStateKey T allocationId))
    (.jam .allocationTransitionNotConfirmed)
  Tx.ensure (confirmedReceipt receipt.toList) (.jam .allocationTransitionNotConfirmed)
  let pending ← Tx.okOr (s.pendingAllocations.lookup allocationId) (.jam .allocationNotFound)
  processAllocation allocationId pending

end MiniJam.Jam
