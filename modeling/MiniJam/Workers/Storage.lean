import MiniJam.Runtime.Frame

/-!
# `MiniJam.Workers.Storage`: configuration and storage of the workers pallet

`Config` is the pallet's configuration trait: its constants, the currency and the host
functions it calls. The order in which a storage map is iterated belongs to the storage
back end, so it is part of the configuration and only known to be a reordering of the keys.

`State` holds the pallet's storage items together with what the pallet reads of the system:
the block number, the block hashes, the ledger of the currency and the event log. The log
is kept over blocks.
-/

set_option autoImplicit false

namespace MiniJam.Workers

/-- The configuration trait of the workers pallet. -/
structure Config (AccountId Ledger : Type) where
  currency : Currency AccountId HoldReason Ledger
  crypto : Crypto
  iterOrder : List WorkerId → List WorkerId
  iterOrder_perm : ∀ ids, (iterOrder ids).Perm ids
  minimumStake : Balance
  epochLength : UInt32
  maxCandidates : UInt32
  topWorkers : UInt32
  assignmentSeedDelay : UInt32
  workersPerWork : UInt32
  maxWorksPerRound : UInt32
  maxDutiesPerWorkerPerRound : UInt32
  supportThreshold : UInt32
  opposeThreshold : UInt32
  maxOpenVotes : UInt32
  chainId : ChainId
  protocolVersion : UInt16
  rewardPool : AccountId
  timelyVoteReward : Balance
  absenceSlash : Perbill
  minimumAbsenceSlash : Balance
  equivocationSlash : Perbill
  equivocationSuspension : UInt32

structure WorkerRecord (AccountId : Type) where
  owner : AccountId
  sessionKey : PublicKey
  activeStake : Balance
  effectiveEpoch : EpochIndex
  suspendedUntil : EpochIndex

structure PendingWorkerUpdate where
  sessionKey : Option PublicKey
  stake : Option Balance
  effectiveEpoch : EpochIndex

structure UnbondingChunk where
  amount : Balance
  unlockEpoch : EpochIndex

inductive RoundDecision where
  | accepted
  | rejected
  deriving DecidableEq

structure VotingRound where
  assignmentEpoch : EpochIndex
  candidateHash : Hash
  deadline : BlockNumber
  support : Nat
  oppose : Nat
  responses : Nat
  locked : Option RoundDecision

/-- A work together with one of its rounds, the key of most items. -/
abbrev RoundKey : Type := WorkId × AssignmentRound

/-- A duty: one worker in one round of one work. -/
abbrev DutyKey : Type := WorkId × AssignmentRound × WorkerId

section
variable {AccountId Ledger : Type}

/-- A worker set assigned to one round of a work. -/
abbrev Assignment (T : Config AccountId Ledger) : Type :=
  BoundedVec WorkerId T.workersPerWork.toNat

structure RoundResult (T : Config AccountId Ledger) where
  decision : Option RoundDecision
  absentees : Assignment T

inductive Event (T : Config AccountId Ledger) where
  | workerRegistered (workerId : WorkerId) (owner : AccountId) (effectiveEpoch : EpochIndex)
      (stake : Balance)
  | epochSnapshot (epoch : EpochIndex) (workers : BoundedVec WorkerId T.topWorkers.toNat)
  | workerUpdateScheduled (workerId : WorkerId) (effectiveEpoch : EpochIndex)
  | workerUpdateApplied (workerId : WorkerId) (epoch : EpochIndex)
  | stakeReleased (workerId : WorkerId) (amount : Balance)
  | voteSubmitted (workId : WorkId) (round : AssignmentRound) (workerId : WorkerId)
  | votingFinalized (workId : WorkId) (round : AssignmentRound)
      (decision : Option RoundDecision)
  | voteRewardPaid (workerId : WorkerId) (amount : Balance)
  | workerSlashed (workerId : WorkerId) (amount : Balance)
  | equivocationProven (workId : WorkId) (round : AssignmentRound) (workerId : WorkerId)
      (amount : Balance) (suspendedUntil : EpochIndex)

/-- The storage of the workers pallet and the part of the system it reads. -/
structure State (T : Config AccountId Ledger) where
  blockNumber : BlockNumber
  blockHash : BlockNumber → Hash
  ledger : Ledger
  events : List (Event T)
  nextWorkerId : WorkerId
  workerCount : Nat
  workerByAccount : StorageMap AccountId WorkerId
  workers : StorageMap WorkerId (WorkerRecord AccountId)
  pendingUpdates : StorageMap WorkerId PendingWorkerUpdate
  unbonding : StorageMap WorkerId UnbondingChunk
  currentEpoch : EpochIndex
  activeWorkers : BoundedVec WorkerId T.topWorkers.toNat
  assignments : StorageMap RoundKey (Assignment T)
  assignmentEpochs : StorageMap RoundKey EpochIndex
  assignedWorkCount : StorageMap (EpochIndex × AssignmentRound) Nat
  dutyCounts : StorageMap (EpochIndex × AssignmentRound × WorkerId) Nat
  assignmentKeys : StorageMap DutyKey PublicKey
  votingRounds : StorageMap RoundKey VotingRound
  openVoteRounds : BoundedVec RoundKey T.maxOpenVotes.toNat
  votes : StorageMap DutyKey Verdict
  roundResults : StorageMap RoundKey (RoundResult T)
  equivocations : StorageMap DutyKey Unit

/-- The computations of the pallet. -/
abbrev M (T : Config AccountId Ledger) (α : Type) : Type := Tx (State T) DispatchError α

/-- The storage before genesis, over a ledger. -/
def State.init (T : Config AccountId Ledger) (ledger : Ledger) : State T where
  blockNumber := 0
  blockHash := fun _ => FixedBytes.fill 32 0
  ledger := ledger
  events := []
  nextWorkerId := 0
  workerCount := 0
  workerByAccount := ∅
  workers := ∅
  pendingUpdates := ∅
  unbonding := ∅
  currentEpoch := 0
  activeWorkers := BoundedVec.empty
  assignments := ∅
  assignmentEpochs := ∅
  assignedWorkCount := ∅
  dutyCounts := ∅
  assignmentKeys := ∅
  votingRounds := ∅
  openVoteRounds := BoundedVec.empty
  votes := ∅
  roundResults := ∅
  equivocations := ∅

end

end MiniJam.Workers
