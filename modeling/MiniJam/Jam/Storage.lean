import MiniJam.Protocol.Executor
import MiniJam.Workers.Storage

/-!
# `MiniJam.Jam.Storage`: configuration and storage of the minijam pallet

The pallet sits on the workers pallet: its configuration extends the other's, and its state
holds the other's state in `base`. The jam codec (decoding of work packages and service
records, and the key of a service's storage entry) and the executor come from outside and
are parameters.

Service fuel is deprecated in the source. Its reservation, charging and settlement code has
no caller and is not modelled; the accounts that `fundService` still writes are.
-/

set_option autoImplicit false

namespace MiniJam.Jam

open Scale

/-! ### What the pallet takes from the jam codec -/

/-- The fields of a work item the pallet compares a report with. -/
structure WorkItem where
  service : UInt32
  codeHash : Hash
  refineGasLimit : UInt64
  accumulateGasLimit : UInt64

/-- A decoded work package: its items, and the encoding of its context. -/
structure WorkPackage where
  items : List WorkItem
  contextEncoding : Bytes

/-- The field of a service record the pallet reads. -/
structure ServiceInfo where
  minMemoGas : UInt64

/-- The jam codec. A decoder returns the value and the bytes it left. -/
structure Codec where
  decodeWorkPackage : Bytes → Option (WorkPackage × Bytes)
  decodeServiceInfo : Bytes → Option (ServiceInfo × Bytes)
  serviceStorageKey : UInt32 → Bytes → StateKey

/-! ### Configuration -/

/-- The configuration trait of the minijam pallet. -/
structure Config (AccountId Ledger : Type) where
  workers : Workers.Config AccountId Ledger
  currency : Currency AccountId HoldReason Ledger
  codec : Codec
  executor : MiniJamExecutor
  encodeAccount : AccountId → Bytes
  chainId : ChainId
  workDeposit : Balance
  candidateBond : Balance
  candidateRejectionSlash : Balance
  acceptedSubmitterReward : Balance
  rewardPool : AccountId
  fuelEscrowAccount : AccountId
  maxPendingAllocations : UInt32
  reportSubmissionDeadline : UInt32
  voteWindow : UInt32
  maxCandidateRounds : UInt8
  maxPendingWorks : UInt32
  maxExecutionReports : UInt32
  maxExecutionGas : UInt64
  maxWorkPackageBytes : UInt32
  maxBundleBytes : UInt64
  maxPendingPreimages : UInt32
  maxPendingSystemOps : UInt32

/-! ### Records -/

structure ServiceFuelAccount where
  available : Balance
  reserved : Balance

/-- The only value that crosses from the hub. -/
structure AllocationV1 where
  allocationId : UInt64
  targetService : UInt32
  amount : Balance
  deriving DecidableEq

namespace AllocationV1

/-- The SCALE encoding, with the runtime's 16-byte balances. -/
def encode (a : AllocationV1) : Bytes :=
  encodeU64 a.allocationId ++ encodeU32 a.targetService ++ leBytes 16 a.amount

/-- Decode an allocation and return the bytes after it. -/
def decode (bytes : Bytes) : Option (AllocationV1 × Bytes) := do
  let (allocationId, bytes) ← decodeLe 8 bytes
  let (targetService, bytes) ← decodeLe 4 bytes
  let (amount, bytes) ← decodeLe 16 bytes
  some (⟨UInt64.ofNat allocationId, UInt32.ofNat targetService, amount⟩, bytes)

/-- An allocation whose amount fits a balance decodes to itself, with nothing left. -/
theorem decode_encode (a : AllocationV1) (ha : a.amount < 2 ^ 128) :
    decode a.encode = some (a, []) := by
  have h8 : a.allocationId.toNat < 256 ^ 8 := a.allocationId.toNat_lt
  have h4 : a.targetService.toNat < 256 ^ 4 := a.targetService.toNat_lt
  have h16 : a.amount < 256 ^ 16 := by omega
  unfold decode encode encodeU64 encodeU32
  rw [List.append_assoc, decodeLe_append 8 _ _ h8]
  simp only [Option.bind_eq_bind, Option.bind_some]
  rw [decodeLe_append 4 _ _ h4]
  simp only [Option.bind_some]
  rw [← List.append_nil (leBytes 16 a.amount), decodeLe_append 16 _ _ h16]
  simp

end AllocationV1

structure PendingAllocation (AccountId : Type) where
  submitter : AccountId
  allocation : AllocationV1
  deriving DecidableEq

inductive AllocationStatus where
  | pending
  | processed
  deriving DecidableEq

structure AllocationReceipt where
  allocation : AllocationV1
  status : AllocationStatus

inductive WorkStatus where
  | insufficientWorkers
  | awaitingCandidate
  | voting
  | accepted
  | imported
  | failed
  deriving DecidableEq

structure ExecutionItem where
  workId : WorkId
  executeAt : BlockNumber
  deriving DecidableEq

structure WorkRecord (AccountId : Type) where
  owner : AccountId
  packageHash : Hash
  canonicalWorkPackage : Bytes
  bundleRef : ContentRef
  round : AssignmentRound
  status : WorkStatus
  candidateDeadline : BlockNumber
  deriving DecidableEq

structure CandidateRecord (AccountId : Type) where
  submitter : AccountId
  envelope : ReportEnvelopeV1
  voteDeadline : BlockNumber
  deriving DecidableEq

structure PreimageKeyV1 where
  requester : UInt32
  blobHash : Hash
  blobLen : UInt32
  deriving DecidableEq

def PreimageKeyV1.ofMetadata (metadata : PreimageMetadataV1) : PreimageKeyV1 where
  requester := metadata.requester
  blobHash := metadata.blobHash
  blobLen := metadata.blobLen

structure PendingPreimage (AccountId : Type) where
  submitter : AccountId
  canonical : CanonicalPreimageBytes
  metadata : PreimageMetadataV1
  deriving DecidableEq

structure PendingSystemOp (AccountId : Type) where
  submitter : AccountId
  op : SystemOpV2
  deriving DecidableEq

inductive ExecutionErrorCode where
  | outOfGas
  | trap
  | serviceFailure
  | invalidInput
  | invalidOutput
  | gasExceeded
  | deltaTooLarge
  deriving DecidableEq

def ExecutionErrorCode.ofOutcome : ExecutionOutcome → ExecutionErrorCode
  | .outOfGas => .outOfGas
  | .trap => .trap
  | .serviceFailure => .serviceFailure

structure QuarantinedSystemOp (AccountId : Type) where
  submitter : AccountId
  op : SystemOpV2
  canonicalHash : Hash
  errorCode : ExecutionErrorCode
  blockNumber : BlockNumber
  retryable : Bool

structure QuarantinedPreimage (AccountId : Type) where
  submitter : AccountId
  metadata : PreimageMetadataV1
  canonicalHash : Hash
  errorCode : ExecutionErrorCode
  blockNumber : BlockNumber
  retryable : Bool

structure BlockStfSummary where
  reportCount : Nat
  preimageCount : Nat
  systemOpCount : Nat
  receiptHash : Hash

/-- Why the virtual block was not committed. `fatal` becomes a panic. -/
inductive ExecutionFailure where
  | yielded (workId : WorkId) (outcome : ExecutionOutcome)
  | systemOpsYielded (outcome : ExecutionOutcome)
  | preimagesRejected (code : ExecutionErrorCode)
  | fatal
  deriving DecidableEq

inductive Event (AccountId : Type) where
  | ingressRelayerChanged (old : Option AccountId) (new : AccountId)
  | allocationRelayerChanged (old : Option AccountId) (new : AccountId)
  | workSubmitted (workId : WorkId) (owner : AccountId) (packageHash : Hash)
      (bundleRef : ContentRef) (status : WorkStatus)
  | allocationQueued (allocationId : UInt64) (targetService : UInt32) (amount : Balance)
  | allocationProcessed (allocationId : UInt64) (targetService : UInt32) (amount : Balance)
  | candidateSubmitted (workId : WorkId) (round : AssignmentRound) (submitter : AccountId)
      (reportHash : Hash)
  | candidateAccepted (workId : WorkId) (round : AssignmentRound)
  | candidateRejected (workId : WorkId) (round : AssignmentRound)
  | workRoundAdvanced (workId : WorkId) (round : AssignmentRound) (status : WorkStatus)
  | workFailed (workId : WorkId)
  | reportImported (workId : WorkId) (receiptHash : Hash)
  | preimageQueued (requester : UInt32) (blobHash : Hash) (blobLen : UInt32)
  | preimageFailed (requester : UInt32) (blobHash : Hash) (blobLen : UInt32)
      (errorCode : ExecutionErrorCode)
  | systemOpQueued (requestId : Hash) (sender : FixedBytes 32)
  | systemOpConsumed (requestId : Hash)
  | systemOpFailed (requestId : Hash) (outcome : ExecutionOutcome)
  | systemOpDropped (requestId : Hash)
  | systemOpRetried (requestId : Hash)
  | systemOpQuarantineCleared (count : Nat)
  | serviceFunded (funder : AccountId) (serviceId : UInt32) (amount newAvailable : Balance)
  | executionYielded (workId : WorkId) (outcome : ExecutionOutcome)
  | importPaused (paused : Bool)
  | blockStfExecuted (slot : UInt32) (summary : BlockStfSummary)
  | executionQueueQuarantined (count : Nat)

/-! ### Storage -/

section
variable {AccountId Ledger : Type}

/-- The storage of both pallets. -/
structure State (T : Config AccountId Ledger) where
  base : Workers.State T.workers
  events : List (Event AccountId)
  ingressRelayer : Option AccountId
  allocationRelayer : Option AccountId
  nextWorkId : WorkId
  works : StorageMap WorkId (WorkRecord AccountId)
  workByPackageHash : StorageMap Hash WorkId
  candidates : StorageMap Workers.RoundKey (CandidateRecord AccountId)
  pendingWorks : BoundedVec WorkId T.maxPendingWorks.toNat
  executionQueue : BoundedVec ExecutionItem T.maxPendingWorks.toNat
  quarantinedExecutionQueue : BoundedVec ExecutionItem T.maxPendingWorks.toNat
  protocolState : StorageMap StateKey StateValue
  executionReceipts : StorageMap WorkId Hash
  lastExecutionReceipt : Option Hash
  reportImportPaused : Bool
  preimageImportPaused : Bool
  systemOpsPaused : Bool
  pendingPreimages : BoundedVec (PendingPreimage AccountId) T.maxPendingPreimages.toNat
  pendingPreimageKeys : StorageMap PreimageKeyV1 Unit
  quarantinedPreimages : BoundedVec (QuarantinedPreimage AccountId) T.maxPendingPreimages.toNat
  pendingSystemOps : BoundedVec (PendingSystemOp AccountId) T.maxPendingSystemOps.toNat
  quarantinedSystemOps :
    BoundedVec (QuarantinedSystemOp AccountId) T.maxPendingSystemOps.toNat
  pendingSystemOpKeys : StorageMap Hash Unit
  systemOpNonces : StorageMap (FixedBytes 32) UInt64
  pendingAllocations : StorageMap UInt64 (PendingAllocation AccountId)
  processedAllocations : StorageMap UInt64 Unit
  allocationReceipts : StorageMap UInt64 AllocationReceipt
  pendingAllocationCount : Nat
  serviceFuelAccounts : StorageMap UInt32 ServiceFuelAccount
  totalServiceFuel : Balance

/-- The computations of the pallet's calls and hooks. -/
abbrev M (T : Config AccountId Ledger) (α : Type) : Type := Tx (State T) DispatchError α

/-- The computations of the virtual block. -/
abbrev X (T : Config AccountId Ledger) (α : Type) : Type := Tx (State T) ExecutionFailure α

/-- The storage before genesis, over a ledger. -/
def State.init (T : Config AccountId Ledger) (ledger : Ledger) : State T where
  base := Workers.State.init T.workers ledger
  events := []
  ingressRelayer := none
  allocationRelayer := none
  nextWorkId := 0
  works := ∅
  workByPackageHash := ∅
  candidates := ∅
  pendingWorks := BoundedVec.empty
  executionQueue := BoundedVec.empty
  quarantinedExecutionQueue := BoundedVec.empty
  protocolState := ∅
  executionReceipts := ∅
  lastExecutionReceipt := none
  reportImportPaused := false
  preimageImportPaused := false
  systemOpsPaused := false
  pendingPreimages := BoundedVec.empty
  pendingPreimageKeys := ∅
  quarantinedPreimages := BoundedVec.empty
  pendingSystemOps := BoundedVec.empty
  quarantinedSystemOps := BoundedVec.empty
  pendingSystemOpKeys := ∅
  systemOpNonces := ∅
  pendingAllocations := ∅
  processedAllocations := ∅
  allocationReceipts := ∅
  pendingAllocationCount := 0
  serviceFuelAccounts := ∅
  totalServiceFuel := 0

/-- Run a computation of the workers pallet on its part of the storage. -/
def inWorkers {T : Config AccountId Ledger} {α : Type} (m : Workers.M T.workers α) : M T α :=
  Tx.zoom State.base (fun base s => { s with base := base }) m

variable {T : Config AccountId Ledger}

def depositEvent {ε : Type} (e : Event AccountId) : Tx (State T) ε Unit :=
  Tx.modify fun s => { s with events := s.events ++ [e] }

/-- Run an operation of the currency on the ledger. -/
def currencyOp (f : Ledger → Option Ledger) : M T Unit := fun s =>
  match f s.base.ledger with
  | some ledger => .ok () { s with base := { s.base with ledger := ledger } }
  | none => .err .token s

end

/-! ### Protocol-state keys -/

/-- `SYSTEM_SERVICE_ID`. -/
def systemServiceId : UInt32 := 0

/-- `ALLOCATION_SYSTEM_SENDER`. -/
def allocationSystemSender : FixedBytes 32 := FixedBytes.fill 32 0xa1

def serviceInfoStateKey (serviceId : UInt32) : StateKey :=
  let byte (i : Nat) : UInt8 := UInt8.ofNat (serviceId.toNat / 256 ^ i % 256)
  ⟨[0xff, byte 0, 0, byte 1, 0, byte 2, 0, byte 3] ++ List.replicate 23 0, by simp⟩

section
variable {AccountId Ledger : Type} (T : Config AccountId Ledger)

def allocationReceiptStateKey (allocationId : UInt64) : StateKey :=
  T.codec.serviceStorageKey systemServiceId
    (ascii "system/allocation/" ++ encodeU64 allocationId)

variable {T}

def State.serviceExists (s : State T) (serviceId : UInt32) : Bool :=
  s.protocolState.contains (serviceInfoStateKey serviceId)

/-- `FrameProtocolState`: the protocol state as the executor reads it. -/
def State.protocolReader (s : State T) : ProtocolStateReader := fun key =>
  .ok ((s.protocolState.lookup key).map BoundedVec.toList)

end

end MiniJam.Jam
