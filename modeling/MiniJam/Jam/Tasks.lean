import MiniJam.Jam.Works

/-!
# `MiniJam.Jam.Tasks`: what workers are shown

Workers poll a view of the storage: the works that wait for a candidate. A work is dropped from
it when a part of it is missing or does not fit its type. Each definition follows the function of
the same name in `pallets/minijam/src/lib.rs`.
-/

set_option autoImplicit false

namespace MiniJam

abbrev CanonicalWorkPackageBytes : Type := BoundedVec UInt8 1048576
abbrev WorkerVoteAssignments : Type := BoundedVec WorkerId 8

/-- A work that waits for its candidate. -/
structure WorkerTaskV1 where
  workId : WorkId
  round : AssignmentRound
  assignmentEpoch : EpochIndex
  assignedWorkers : WorkerVoteAssignments
  candidateProducer : WorkerId
  packageHash : Hash
  canonicalWorkPackage : CanonicalWorkPackageBytes
  bundleRef : ContentRef

namespace Jam

variable {AccountId Ledger : Type} {T : Config AccountId Ledger}

/-- The task of one pending work. -/
def pendingWorkerTask (s : State T) (workId : WorkId) : Option WorkerTaskV1 := do
  let work ← s.works.lookup workId
  if work.status ≠ .awaitingCandidate then none
  else do
    let canonicalWorkPackage ← BoundedVec.tryFrom work.canonicalWorkPackage
    let assignment ← s.base.assignments.lookup (workId, work.round)
    let assignedWorkers ← BoundedVec.tryFrom assignment.toList
    let candidateProducer ← assignment.toList.min?
    let assignmentEpoch ← s.base.assignmentEpochs.lookup (workId, work.round)
    some
      { workId := workId
        round := work.round
        assignmentEpoch := assignmentEpoch
        assignedWorkers := assignedWorkers
        candidateProducer := candidateProducer
        packageHash := work.packageHash
        canonicalWorkPackage := canonicalWorkPackage
        bundleRef := work.bundleRef }

def pendingWorkerTasks (s : State T) : List WorkerTaskV1 :=
  sortByKey (fun task : WorkerTaskV1 =>
    toLex (task.workId.toNat, toLex (task.round.toNat, task.packageHash.key)))
    (s.pendingWorks.toList.filterMap (pendingWorkerTask s))

end Jam

end MiniJam
