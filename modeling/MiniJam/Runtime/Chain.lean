import MiniJam.Jam.Execution
import MiniJam.Lib.Trace

/-!
# `MiniJam.Runtime.Chain`: the two pallets as one transition system

A run of the chain starts from a genesis state and takes actions in any order: extrinsics of
any origin, the hooks of the two pallets with any block number, and changes the rest of the
runtime makes to the block number, the block hashes and the ledger. Real blocks order their
hooks and extrinsics; allowing every order makes what holds of all runs stronger.

An extrinsic that fails is a step too. It leaves the storage as it was
(`Chain.Step.extrinsic_err`). A panic has no successor state.
-/

set_option autoImplicit false

namespace MiniJam

open Jam

variable {AccountId Ledger : Type}

/-- The extrinsics of both pallets. -/
inductive Call (T : Jam.Config AccountId Ledger) where
  | register (sessionKey : PublicKey) (stake : Balance)
  | scheduleUpdate (sessionKey : Option PublicKey) (stake : Option Balance)
  | submitVote (workerId : WorkerId) (vote : WorkerVoteV1) (signature : Signature)
  | submitEquivocation (workerId : WorkerId) (first : WorkerVoteV1)
      (firstSignature : Signature) (second : WorkerVoteV1) (secondSignature : Signature)
  | submitWork (canonicalWorkPackage : BoundedVec UInt8 T.maxWorkPackageBytes.toNat)
      (bundleRef : ContentRef)
  | submitCandidate (envelope : ReportEnvelopeV1)
  | pauseExecution (paused : Bool)
  | quarantinePending
  | submitPreimage (canonicalPreimage : CanonicalPreimageBytes)
  | submitSystemOp (command : SystemCommandV2)
  | fundService (serviceId : UInt32) (amount : Balance)
  | dropQuarantinedSystemOp (requestId : Hash)
  | retryQuarantinedSystemOp (requestId : Hash)
  | clearQuarantinedSystemOps
  | setIngressRelayer (newRelayer : AccountId)
  | submitAllocation (allocation : AllocationV1)
  | setAllocationRelayer (newRelayer : AccountId)

/-- What can happen to the storage of the two pallets. -/
inductive Action (T : Jam.Config AccountId Ledger) where
  | extrinsic (origin : Origin AccountId) (call : Call T)
  | workersOnInitialize (block : BlockNumber)
  | jamOnInitialize (block : BlockNumber)
  | onFinalize (block : BlockNumber)
  | consumeAllocation (allocationId : UInt64)
  | system (blockNumber : BlockNumber) (blockHash : BlockNumber → Hash) (ledger : Ledger)

variable [DecidableEq AccountId] {T : Jam.Config AccountId Ledger}

/-- The body of an extrinsic. -/
def Call.body (origin : Origin AccountId) : Call T → Jam.M T Unit
  | .register sessionKey stake => inWorkers (Workers.register origin sessionKey stake)
  | .scheduleUpdate sessionKey stake =>
    inWorkers (Workers.scheduleUpdate origin sessionKey stake)
  | .submitVote workerId vote signature =>
    inWorkers (Workers.submitVote origin workerId vote signature)
  | .submitEquivocation workerId first firstSignature second secondSignature =>
    inWorkers (Workers.submitEquivocation origin workerId first firstSignature second
      secondSignature)
  | .submitWork canonicalWorkPackage bundleRef =>
    Jam.submitWork origin canonicalWorkPackage bundleRef
  | .submitCandidate envelope => Jam.submitCandidate origin envelope
  | .pauseExecution paused => Jam.pauseExecution origin paused
  | .quarantinePending => Jam.quarantinePending origin
  | .submitPreimage canonicalPreimage => Jam.submitPreimage origin canonicalPreimage
  | .submitSystemOp command => Jam.submitSystemOp origin command
  | .fundService serviceId amount => Jam.fundService origin serviceId amount
  | .dropQuarantinedSystemOp requestId => Jam.dropQuarantinedSystemOp origin requestId
  | .retryQuarantinedSystemOp requestId => Jam.retryQuarantinedSystemOp origin requestId
  | .clearQuarantinedSystemOps => Jam.clearQuarantinedSystemOps origin
  | .setIngressRelayer newRelayer => Jam.setIngressRelayer origin newRelayer
  | .submitAllocation allocation => Jam.submitAllocation origin allocation
  | .setAllocationRelayer newRelayer => Jam.setAllocationRelayer origin newRelayer

def Action.run : Action T → Jam.M T Unit
  | .extrinsic origin call => dispatch (call.body origin)
  | .workersOnInitialize block => inWorkers (Workers.onInitialize block)
  | .jamOnInitialize block => Jam.onInitialize block
  | .onFinalize block => Jam.onFinalize block
  | .consumeAllocation allocationId => dispatch (Jam.consumeAllocation allocationId)
  | .system blockNumber blockHash ledger =>
    Tx.modify fun s => { s with
      base := { s.base with
        blockNumber := blockNumber
        blockHash := blockHash
        ledger := ledger } }

/-! ### Genesis -/

structure GenesisConfig (AccountId : Type) where
  workers : List (AccountId × PublicKey × Balance)
  protocolState : List (Bytes × Bytes)
  serviceFuel : List (UInt32 × Balance)
  ingressRelayer : Option AccountId
  allocationRelayer : Option AccountId

def buildProtocolEntry (entry : Bytes × Bytes) : Jam.M T Unit := do
  let key : StateKey ← Tx.expect (FixedBytes.tryFrom entry.1)
  let value : StateValue ← Tx.expect (BoundedVec.tryFrom entry.2)
  Tx.modify fun s => { s with protocolState := s.protocolState.insert key value }

def buildServiceFuel (entry : UInt32 × Balance) : Jam.M T Unit :=
  if entry.2 = 0 then pure ()
  else Tx.modify fun s =>
    let account := s.serviceFuel entry.1
    { s with
      serviceFuelAccounts := s.serviceFuelAccounts.insert entry.1
        { account with available := Balance.satAdd account.available entry.2 }
      totalServiceFuel := Balance.satAdd s.totalServiceFuel entry.2 }

def genesisBuild (config : GenesisConfig AccountId) : Jam.M T Unit := do
  inWorkers (Workers.genesisBuild config.workers)
  Tx.modify fun s => { s with
    ingressRelayer := config.ingressRelayer
    allocationRelayer := config.allocationRelayer <|> config.ingressRelayer }
  Tx.forEach buildProtocolEntry config.protocolState
  Tx.forEach buildServiceFuel config.serviceFuel

/-! ### Runs -/

namespace Chain

/-- The states a chain can start from. -/
def Genesis (T : Jam.Config AccountId Ledger) (s : Jam.State T) : Prop :=
  ∃ config ledger, genesisBuild config (Jam.State.init T ledger) = .ok () s

/-- An action together with the error it returned, if any. -/
abbrev Label (T : Jam.Config AccountId Ledger) : Type := Action T × Option DispatchError

/-- A step that a run has taken. -/
abbrev TakenStep (T : Jam.Config AccountId Ledger) : Type := Transition (Jam.State T) (Label T)

/-- The steps of a run, the last one first. -/
abbrev History (T : Jam.Config AccountId Ledger) : Type := List (TakenStep T)

/-- What holds of the block that a step finalized can be tested. -/
instance decidableFinalized (l : Label T) (P : BlockNumber → Prop) [DecidablePred P] :
    Decidable (∃ block, l = (.onFinalize block, none) ∧ P block) := by
  rcases l with ⟨action, _ | e⟩
  · cases action with
    | onFinalize block => exact decidable_of_iff (P block) (by simp)
    | _ => exact isFalse (by simp)
  · exact isFalse (by simp)

/-- One step of the chain. -/
abbrev Step (T : Jam.Config AccountId Ledger) : Jam.State T → Label T → Jam.State T → Prop :=
  Tx.Step Action.run

/-- The history of a run and the state it has reached. -/
abbrev Run (T : Jam.Config AccountId Ledger) :
    History T → Jam.State T → Prop :=
  Trace (Genesis T) (Step T)

end Chain

end MiniJam
