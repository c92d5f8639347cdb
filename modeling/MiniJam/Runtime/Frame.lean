import MiniJam.Lib.Fungible
import MiniJam.Lib.Tx
import MiniJam.Protocol.Types

/-!
# `MiniJam.Runtime.Frame`: origins, hold reasons and dispatch errors

What both pallets take from the framework around them. An extrinsic is dispatched with an
origin, its body returns a `DispatchError` or nothing, and `dispatch` runs the body in a
storage layer: the writes of a failed extrinsic are undone.
-/

set_option autoImplicit false

namespace MiniJam

/-- Who sent an extrinsic. -/
inductive Origin (AccountId : Type) where
  | root
  | signed (who : AccountId)
  | unsigned

/-- The hold reasons of the two pallets in the runtime. -/
inductive HoldReason where
  | workerStake
  | workDeposit
  | candidateBond
  deriving DecidableEq

namespace Workers

/-- The errors of the workers pallet. -/
inductive Error where
  | alreadyRegistered
  | candidatePoolFull
  | stakeBelowMinimum
  | workerIdOverflow
  | invalidEpochLength
  | notRegistered
  | emptyUpdate
  | pendingUpdateExists
  | unbondingInProgress
  | tooManyWorks
  | insufficientWorkers
  | votingAlreadyOpen
  | tooManyOpenVotes
  | votingNotOpen
  | notAssigned
  | voteExpired
  | voteMismatch
  | alreadyVoted
  | invalidSignature
  | invalidEquivocationProof
  | equivocationAlreadyReported
  deriving DecidableEq

end Workers

namespace Jam

/-- The errors of the minijam pallet that its live calls return. -/
inductive Error where
  | ingressRelayerNotConfigured
  | unauthorizedIngress
  | workIdOverflow
  | tooManyPendingWorks
  | invalidWorkPackage
  | duplicateWorkPackage
  | invalidContentRef
  | workNotFound
  | candidateNotExpected
  | candidateAlreadySubmitted
  | candidateDeadlineExpired
  | invalidEnvelope
  | invalidReportHash
  | invalidReportProjection
  | candidateSubmitterNotWorker
  | candidateSubmitterNotAssigned
  | candidateProducerNotSelected
  | votingSetupFailed
  | inconsistentState
  | executionQueueFull
  | invalidPreimage
  | duplicatePendingPreimage
  | tooManyPendingPreimages
  | invalidSystemOp
  | duplicatePendingSystemOp
  | tooManyPendingSystemOps
  | quarantinedSystemOpNotFound
  | unknownService
  | zeroFuelAmount
  | fuelEscrowInvariant
  | allocationRelayerNotConfigured
  | unauthorizedAllocation
  | zeroAllocation
  | duplicateAllocation
  | tooManyPendingAllocations
  | allocationNotFound
  | allocationAmountOverflow
  | allocationTransitionNotConfirmed
  deriving DecidableEq

end Jam

/-- Why an extrinsic failed: a wrong origin, a currency operation, or a pallet's error. -/
inductive DispatchError where
  | badOrigin
  | token
  | other (message : String)
  | workers (e : Workers.Error)
  | jam (e : Jam.Error)
  deriving DecidableEq

section Origin
variable {σ AccountId : Type}

def ensureSigned : Origin AccountId → Tx σ DispatchError AccountId
  | .signed who => pure who
  | _ => Tx.throw .badOrigin

def ensureRoot : Origin AccountId → Tx σ DispatchError Unit
  | .root => pure ()
  | _ => Tx.throw .badOrigin

def ensureNone : Origin AccountId → Tx σ DispatchError Unit
  | .unsigned => pure ()
  | _ => Tx.throw .badOrigin

variable {o : Origin AccountId}

/-- The origin is signed. -/
theorem ensureSigned_bind_ok {β : Type} {f : AccountId → Tx σ DispatchError β} {s s' : σ} {b : β} :
    (ensureSigned o >>= f) s = .ok b s' ↔ ∃ who, o = .signed who ∧ f who s = .ok b s' := by
  cases o <;> simp [ensureSigned]

/-- The origin is root. -/
theorem ensureRoot_bind_ok {β : Type} {f : Unit → Tx σ DispatchError β} {s s' : σ} {b : β} :
    (ensureRoot o >>= f) s = .ok b s' ↔ o = .root ∧ f () s = .ok b s' := by
  cases o <;> simp [ensureRoot]

end Origin

/-- Run the body of an extrinsic in a storage layer. -/
def dispatch {σ : Type} (body : Tx σ DispatchError Unit) : Tx σ DispatchError Unit :=
  Tx.transaction body

end MiniJam
