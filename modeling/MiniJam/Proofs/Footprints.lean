import MiniJam.Jam.Storage
import MiniJam.Lib.Footprint

/-!
# `MiniJam.Proofs.Footprints`: the parts of the storage of the two pallets

Each footprint is a part of the storage that some functions stay within. The frame lemmas of
the other modules say which function stays within which part.
-/

set_option autoImplicit false

namespace MiniJam.Workers

variable {AccountId Ledger : Type} {T : Config AccountId Ledger}

/-- Everything but the rounds. -/
def roundlessItems : Footprint (State T) where
  put s s' := { s' with
    assignments := s.assignments
    assignmentKeys := s.assignmentKeys
    votes := s.votes
    votingRounds := s.votingRounds
    roundResults := s.roundResults }

/-- What assigning a work, opening a voting and clearing an assignment write. -/
def dutyItems : Footprint (State T) where
  put s s' := { s with
    assignments := s'.assignments
    assignmentEpochs := s'.assignmentEpochs
    assignedWorkCount := s'.assignedWorkCount
    dutyCounts := s'.dutyCounts
    assignmentKeys := s'.assignmentKeys
    votingRounds := s'.votingRounds
    openVoteRounds := s'.openVoteRounds
    votes := s'.votes }

/-- What opening a voting and clearing an assignment write. -/
def roundItems : Footprint (State T) where
  put s s' := { s with
    assignments := s'.assignments
    assignmentEpochs := s'.assignmentEpochs
    assignmentKeys := s'.assignmentKeys
    votingRounds := s'.votingRounds
    openVoteRounds := s'.openVoteRounds
    votes := s'.votes }

/-- What is about workers and their stakes. -/
def stakeItems : Footprint (State T) where
  put s s' := { s with
    ledger := s'.ledger
    events := s'.events
    nextWorkerId := s'.nextWorkerId
    workerCount := s'.workerCount
    workerByAccount := s'.workerByAccount
    workers := s'.workers
    pendingUpdates := s'.pendingUpdates
    unbonding := s'.unbonding
    currentEpoch := s'.currentEpoch
    activeWorkers := s'.activeWorkers
    equivocations := s'.equivocations }

/-- What votes and the settlement of rounds write. -/
def settleItems : Footprint (State T) where
  put s s' := { s with
    ledger := s'.ledger
    events := s'.events
    workers := s'.workers
    votingRounds := s'.votingRounds
    openVoteRounds := s'.openVoteRounds
    votes := s'.votes
    roundResults := s'.roundResults }

/-- What an epoch boundary writes. -/
def boundaryItems : Footprint (State T) where
  put s s' := { s with
    ledger := s'.ledger
    events := s'.events
    workers := s'.workers
    pendingUpdates := s'.pendingUpdates
    unbonding := s'.unbonding
    currentEpoch := s'.currentEpoch
    activeWorkers := s'.activeWorkers }

/-- What the genesis of the pallet writes. -/
def genesisItems : Footprint (State T) where
  put s s' := { s with
    ledger := s'.ledger
    nextWorkerId := s'.nextWorkerId
    workerCount := s'.workerCount
    workerByAccount := s'.workerByAccount
    workers := s'.workers
    activeWorkers := s'.activeWorkers }

end MiniJam.Workers

namespace MiniJam.Jam

variable {AccountId Ledger : Type} {T : Config AccountId Ledger}

/-! ### The parts of a committed block -/

/-- The protocol state. -/
def protocolStateItems : Footprint (State T) where
  put s s' := { s with protocolState := s'.protocolState }

/-- The allocation registries. -/
def allocationItems : Footprint (State T) where
  put s s' := { s with
    pendingAllocations := s'.pendingAllocations
    processedAllocations := s'.processedAllocations
    pendingAllocationCount := s'.pendingAllocationCount
    allocationReceipts := s'.allocationReceipts
    events := s'.events }

/-- The queue of preimages. -/
def preimageItems : Footprint (State T) where
  put s s' := { s with
    pendingPreimages := s'.pendingPreimages
    pendingPreimageKeys := s'.pendingPreimageKeys }

/-- The queue of system operations. -/
def systemOpItems : Footprint (State T) where
  put s s' := { s with
    pendingSystemOps := s'.pendingSystemOps
    pendingSystemOpKeys := s'.pendingSystemOpKeys
    events := s'.events }

/-- What a commit writes before it imports the reports. -/
def consumeItems : Footprint (State T) where
  put s s' := { allocationItems.put (preimageItems.put (systemOpItems.put s s') s') s' with
    protocolState := s'.protocolState }

/-- The works and their receipts. -/
def importItems : Footprint (State T) where
  put s s' := { s with
    works := s'.works
    executionReceipts := s'.executionReceipts
    events := s'.events }

/-! ### The parts a failed block may write -/

/-- The event log. -/
def eventItems : Footprint (State T) where
  put s s' := { s with events := s'.events }

/-- The queue and the quarantine of the system operations. -/
def systemOpQuarantineItems : Footprint (State T) where
  put s s' := { s with
    pendingSystemOps := s'.pendingSystemOps
    pendingSystemOpKeys := s'.pendingSystemOpKeys
    quarantinedSystemOps := s'.quarantinedSystemOps
    systemOpsPaused := s'.systemOpsPaused
    events := s'.events }

/-- The queue and the quarantine of the preimages. -/
def preimageQuarantineItems : Footprint (State T) where
  put s s' := { s with
    pendingPreimages := s'.pendingPreimages
    pendingPreimageKeys := s'.pendingPreimageKeys
    quarantinedPreimages := s'.quarantinedPreimages
    preimageImportPaused := s'.preimageImportPaused
    events := s'.events }

/-! ### The parts the calls and hooks write -/

/-- The storage of the workers pallet. -/
def baseItems : Footprint (State T) where
  put s s' := { s with base := s'.base }

/-- The ledger and the log. -/
def ledgerItems : Footprint (State T) where
  put s s' := { s with
    base := { s.base with ledger := s'.base.ledger }
    events := s'.events }

/-- What the life of a work writes. -/
def workItems : Footprint (State T) where
  put s s' := { s with
    base := s'.base
    events := s'.events
    nextWorkId := s'.nextWorkId
    works := s'.works
    workByPackageHash := s'.workByPackageHash
    candidates := s'.candidates
    pendingWorks := s'.pendingWorks }

/-- What the life of a work writes when works may be accepted. -/
def acceptItems : Footprint (State T) where
  put s s' := { workItems.put s s' with executionQueue := s'.executionQueue }

/-- Everything but the workers pallet, the works and the queues of accepted works. -/
def outerItems : Footprint (State T) where
  put s s' := { s' with
    base := s.base
    nextWorkId := s.nextWorkId
    works := s.works
    workByPackageHash := s.workByPackageHash
    candidates := s.candidates
    pendingWorks := s.pendingWorks
    executionQueue := s.executionQueue
    quarantinedExecutionQueue := s.quarantinedExecutionQueue }

/-- What the calls about the queues of the virtual block and the settings may write: of the outer
items those without the fuel. -/
def settingItems : Footprint (State T) where
  put s s' := { outerItems.put s s' with
    serviceFuelAccounts := s.serviceFuelAccounts
    totalServiceFuel := s.totalServiceFuel }

/-- Everything but the queues the virtual block is built from, the registries of the
allocations and the protocol state. -/
def ingresslessItems : Footprint (State T) where
  put s s' := { s' with
    protocolState := s.protocolState
    pendingPreimages := s.pendingPreimages
    pendingPreimageKeys := s.pendingPreimageKeys
    quarantinedPreimages := s.quarantinedPreimages
    pendingSystemOps := s.pendingSystemOps
    quarantinedSystemOps := s.quarantinedSystemOps
    pendingSystemOpKeys := s.pendingSystemOpKeys
    systemOpNonces := s.systemOpNonces
    pendingAllocations := s.pendingAllocations
    processedAllocations := s.processedAllocations
    allocationReceipts := s.allocationReceipts
    pendingAllocationCount := s.pendingAllocationCount }

/-- What the genesis of the minijam pallet writes. -/
def genesisSettingItems : Footprint (State T) where
  put s s' := { s with
    ingressRelayer := s'.ingressRelayer
    allocationRelayer := s'.allocationRelayer
    protocolState := s'.protocolState
    serviceFuelAccounts := s'.serviceFuelAccounts
    totalServiceFuel := s'.totalServiceFuel }

/-- What the genesis of the chain writes. -/
def genesisItems : Footprint (State T) where
  put s s' := { s with
    base := s'.base
    ingressRelayer := s'.ingressRelayer
    allocationRelayer := s'.allocationRelayer
    protocolState := s'.protocolState
    serviceFuelAccounts := s'.serviceFuelAccounts
    totalServiceFuel := s'.totalServiceFuel }

/-- Everything but the works. Of the workers pallet's storage only the ledger is written. -/
def worklessItems : Footprint (State T) where
  put s s' := { s' with
    base := { s.base with ledger := s'.base.ledger }
    nextWorkId := s.nextWorkId
    works := s.works
    candidates := s.candidates
    pendingWorks := s.pendingWorks }

/-- Everything that is in no view and not in the queue of accepted works. -/
def lifelessItems : Footprint (State T) where
  put s s' := { s' with
    base := Workers.roundlessItems.put s.base s'.base
    nextWorkId := s.nextWorkId
    works := s.works
    candidates := s.candidates
    pendingWorks := s.pendingWorks
    executionQueue := s.executionQueue }

end MiniJam.Jam
