import MiniJam.Lib.Trace
import MiniJam.Workers.Pallet

/-!
# `MiniJam.Workers.Run`: the workers pallet as a transition system

The pallet on its own, under every use another pallet could make of it: its extrinsics from
any origin, its block hook with any block number, and the three functions it offers to other
pallets, called in any order. The rest of the runtime may change the block number, the block
hashes and the ledger.

A failed extrinsic is undone. An offered function that fails leaves what it wrote, because
whether that is undone is up to its caller.
-/

set_option autoImplicit false

namespace MiniJam.Workers

variable {AccountId Ledger : Type}

/-- What can happen to the storage of the pallet. -/
inductive Action (AccountId Ledger : Type) where
  | register (origin : Origin AccountId) (sessionKey : PublicKey) (stake : Balance)
  | scheduleUpdate (origin : Origin AccountId) (sessionKey : Option PublicKey)
      (stake : Option Balance)
  | submitVote (origin : Origin AccountId) (workerId : WorkerId) (vote : WorkerVoteV1)
      (signature : Signature)
  | submitEquivocation (origin : Origin AccountId) (workerId : WorkerId)
      (first : WorkerVoteV1) (firstSignature : Signature) (second : WorkerVoteV1)
      (secondSignature : Signature)
  | openVoting (workId : WorkId) (round : AssignmentRound) (candidateHash : Hash)
      (deadline : BlockNumber)
  | assignWork (workId : WorkId) (round : AssignmentRound)
  | clearAssignment (workId : WorkId) (round : AssignmentRound)
  | onInitialize (block : BlockNumber)
  | system (blockNumber : BlockNumber) (blockHash : BlockNumber → Hash) (ledger : Ledger)

variable [DecidableEq AccountId] {T : Config AccountId Ledger}

def Action.run : Action AccountId Ledger → M T Unit
  | .register origin sessionKey stake => dispatch (Workers.register origin sessionKey stake)
  | .scheduleUpdate origin sessionKey stake =>
    dispatch (Workers.scheduleUpdate origin sessionKey stake)
  | .submitVote origin workerId vote signature =>
    dispatch (Workers.submitVote origin workerId vote signature)
  | .submitEquivocation origin workerId first firstSignature second secondSignature =>
    dispatch (Workers.submitEquivocation origin workerId first firstSignature second
      secondSignature)
  | .openVoting workId round candidateHash deadline =>
    Workers.openVoting workId round candidateHash deadline
  | .assignWork workId round => do
    let _ ← Workers.assignWork workId round
    pure ()
  | .clearAssignment workId round => Workers.clearAssignment workId round
  | .onInitialize block => Workers.onInitialize block
  | .system blockNumber blockHash ledger =>
    Tx.modify fun s => { s with
      blockNumber := blockNumber
      blockHash := blockHash
      ledger := ledger }

/-- The states the pallet can start from. -/
def Genesis (T : Config AccountId Ledger) (s : State T) : Prop :=
  ∃ workers ledger, genesisBuild workers (State.init T ledger) = .ok () s

/-- An action together with the error it returned, if any. -/
abbrev Label (AccountId Ledger : Type) : Type := Action AccountId Ledger × Option DispatchError

/-- The steps of a run, the last one first. -/
abbrev History (T : Config AccountId Ledger) : Type :=
  List (Transition (State T) (Label AccountId Ledger))

/-- The history of a run of the pallet and the state it has reached. -/
abbrev Run (T : Config AccountId Ledger) :
    History T → State T → Prop :=
  Trace (Genesis T) (Tx.Step Action.run)

end MiniJam.Workers
