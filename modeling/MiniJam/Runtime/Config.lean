import MiniJam.Runtime.Chain

/-!
# `MiniJam.Runtime.Config`: the configuration of the runtime

The constants of `runtime/src/lib.rs` for both pallets. What the runtime takes from crates
outside the repository is an `Environment`: the balances pallet, the hash and signature
functions, the iteration order of the storage, the jam codec and the executor.
-/

set_option autoImplicit false

namespace MiniJam

/-- The account id of the runtime, `AccountId32`. -/
abbrev AccountId32 : Type := FixedBytes 32

/-- What the runtime takes from outside. -/
structure Environment (Ledger : Type) where
  currency : Currency AccountId32 HoldReason Ledger
  crypto : Crypto
  iterOrder : List UInt64 → List UInt64
  iterOrder_perm : ∀ ids, (iterOrder ids).Perm ids
  codec : Jam.Codec
  executor : MiniJamExecutor

namespace Runtime

/-- `UNIT`. -/
def unit : Balance := 1000000000000

/-- `MAX_EXECUTION_GAS`. -/
def maxExecutionGas : UInt64 := 6000000000

/-- `Perbill::from_percent`. -/
def percent (p : Nat) (hp : p ≤ 100) : Perbill := ⟨p * 10000000, by omega⟩

variable {Ledger : Type} (env : Environment Ledger)

/-- `impl pallet_minijam_workers::Config for Runtime`. -/
def workersConfig : Workers.Config AccountId32 Ledger where
  currency := env.currency
  crypto := env.crypto
  iterOrder := env.iterOrder
  iterOrder_perm := env.iterOrder_perm
  minimumStake := 1000 * unit
  epochLength := 100
  maxCandidates := 256
  topWorkers := 8
  assignmentSeedDelay := 10
  workersPerWork := 1
  maxWorksPerRound := 64
  maxDutiesPerWorkerPerRound := 64
  supportThreshold := 1
  opposeThreshold := 1
  maxOpenVotes := 64
  chainId := FixedBytes.fill 32 77
  protocolVersion := 1
  rewardPool := FixedBytes.fill 32 9
  timelyVoteReward := 0
  absenceSlash := percent 1 (by decide)
  minimumAbsenceSlash := unit
  equivocationSlash := percent 20 (by decide)
  equivocationSuspension := 2

/-- `impl pallet_minijam::Config for Runtime`. -/
def config : Jam.Config AccountId32 Ledger where
  workers := workersConfig env
  currency := env.currency
  codec := env.codec
  executor := env.executor
  encodeAccount := List.Vector.toList
  chainId := FixedBytes.fill 32 77
  workDeposit := 0
  candidateBond := 0
  candidateRejectionSlash := 0
  acceptedSubmitterReward := 0
  rewardPool := FixedBytes.fill 32 9
  fuelEscrowAccount := FixedBytes.fill 32 7
  maxPendingAllocations := 64
  reportSubmissionDeadline := 600
  voteWindow := 600
  maxCandidateRounds := 3
  maxPendingWorks := 64
  maxExecutionReports := 4
  maxExecutionGas := maxExecutionGas
  maxWorkPackageBytes := 1048576
  maxBundleBytes := 16777216
  maxPendingPreimages := 64
  maxPendingSystemOps := 64

end Runtime

end MiniJam
