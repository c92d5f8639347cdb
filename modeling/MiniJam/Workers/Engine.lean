import MiniJam.Lib.Result
import MiniJam.Workers.Pallet

/-!
# `MiniJam.Workers.Engine`: the worker engine off chain

`minijam-worker-engine`, over the records of that crate: `top_workers`, the assignment of a
batch of works, and the round of votes about one candidate report. The minimum stake is a
constant of the protocol crate there; here it is a parameter. The numbers of workers and of
votes are constants here as well.

A `BTreeMap` is a `StorageMap`. The counters of duties are `u32` in the source and stay below
the `u32` limit they are compared with.
-/

set_option autoImplicit false

namespace MiniJam.WorkerEngine

inductive WorkerStatus where
  | active
  | suspendedUntil (epoch : EpochIndex)
  | unbondingUntil (epoch : EpochIndex)
  | exited
  deriving DecidableEq

structure WorkerRecord where
  id : WorkerId
  activeStake : Balance
  sessionKey : PublicKey
  status : WorkerStatus
  deriving DecidableEq

def WorkerRecord.eligibleAt (minimumWorkerStake : Balance) (worker : WorkerRecord)
    (epoch : EpochIndex) : Bool :=
  decide (minimumWorkerStake ≤ worker.activeStake) &&
    match worker.status with
    | .active => true
    | .suspendedUntil until_ => decide (until_ ≤ epoch)
    | .unbondingUntil _ => false
    | .exited => false

/-- Highest stake first, lower id first among equal stakes. -/
def topWorkers (minimumWorkerStake : Balance) (workers : List WorkerRecord) (epoch : EpochIndex)
    (topN : Nat) : List WorkerRecord :=
  (sortByKey (fun worker => toLex (OrderDual.toDual worker.activeStake, worker.id.toNat))
    (workers.filter fun worker => worker.eligibleAt minimumWorkerStake epoch)).take topN

/-! ### Constants of the protocol crate -/

def workersPerWork : Nat := 3
def supportThreshold : Nat := 2
def opposeThreshold : Nat := 2

abbrev AssignedWorkers : Type := BoundedVec WorkerId 3

/-! ### Assigning a batch of works -/

inductive AssignmentError where
  | insufficientWorkers
  | capacityExceeded
  deriving DecidableEq

/-- What the score of a worker for a work is a hash of. -/
def scoreBytes (seed : Hash) (workId : WorkId) (round : AssignmentRound) (workerId : WorkerId) :
    Bytes :=
  ascii "minijam/assignment-v1" ++ seed.toList ++ Scale.encodeU64 workId ++ [round]
    ++ Scale.encodeU64 workerId

/-- The duties of a worker so far. -/
def dutiesOf (duties : StorageMap WorkerId Nat) (workerId : WorkerId) : Nat :=
  (duties.lookup workerId).getD 0

/-- The workers with duties left, by their scores and then by their ids. -/
def batchCandidates (c : Crypto) (seed : Hash) (pool : List WorkerRecord) (maxDuties : UInt32)
    (duties : StorageMap WorkerId Nat) (work : WorkId × AssignmentRound) :
    List (Hash × WorkerId) :=
  sortByKey (fun candidate => toLex (candidate.1.key, candidate.2.toNat))
    ((pool.filter fun worker => decide (dutiesOf duties worker.id < maxDuties.toNat)).map
      fun worker => (c.blake2_256 (scoreBytes seed work.1 work.2 worker.id), worker.id))

def addDuty (duties : StorageMap WorkerId Nat) (workerId : WorkerId) :
    StorageMap WorkerId Nat :=
  duties.insert workerId (dutiesOf duties workerId + 1)

/-- The duties and the assignments after a part of the works. -/
structure BatchState where
  duties : StorageMap WorkerId Nat
  assignments : StorageMap WorkId AssignedWorkers

/-- One work of the loop of `assign_batch`. -/
def assignOne (c : Crypto) (seed : Hash) (pool : List WorkerRecord) (maxDuties : UInt32)
    (b : BatchState) (work : WorkId × AssignmentRound) : Except AssignmentError BatchState := do
  let candidates := batchCandidates c seed pool maxDuties b.duties work
  Except.ensure (workersPerWork ≤ candidates.length) .capacityExceeded
  let selected := (candidates.take workersPerWork).map Prod.snd
  let workers ← Except.okOr (BoundedVec.tryFrom selected) .capacityExceeded
  .ok
    { duties := selected.foldl addDuty b.duties
      assignments := b.assignments.insert work.1 workers }

def assignBatch (c : Crypto) (seed : Hash) (works : List (WorkId × AssignmentRound))
    (pool : List WorkerRecord) (maxDuties : UInt32) :
    Except AssignmentError (StorageMap WorkId AssignedWorkers) := do
  Except.ensure (workersPerWork ≤ pool.length) .insufficientWorkers
  let b ← works.foldlM (assignOne c seed pool maxDuties) ⟨∅, ∅⟩
  .ok b.assignments

/-! ### The round of votes about a candidate -/

structure VoteRecord where
  workerId : WorkerId
  verdict : Verdict
  submittedAt : BlockNumber
  deriving DecidableEq

inductive LockedOutcome where
  | accepted
  | rejected
  deriving DecidableEq

inductive VoteError where
  | notAssigned
  | duplicateVote
  | closed
  | beforeCandidate
  | boundExceeded
  deriving DecidableEq

structure CandidateRound where
  workId : WorkId
  round : AssignmentRound
  assigned : AssignedWorkers
  reportHash : Option Hash
  reportDeadline : BlockNumber
  voteDeadline : Option BlockNumber
  votes : BoundedVec VoteRecord 3
  lockedOutcome : Option LockedOutcome

namespace CandidateRound

def new (workId : WorkId) (round : AssignmentRound) (assigned : AssignedWorkers)
    (reportDeadline : BlockNumber) : CandidateRound where
  workId := workId
  round := round
  assigned := assigned
  reportHash := none
  reportDeadline := reportDeadline
  voteDeadline := none
  votes := BoundedVec.empty
  lockedOutcome := none

/-- The round after the call, with what the call returned. -/
def openCandidate (r : CandidateRound) (reportHash : Hash) (now voteWindow : BlockNumber) :
    CandidateRound × Except VoteError Unit :=
  if r.reportHash.isSome ∨ r.reportDeadline < now then (r, .error .closed)
  else
    ({ r with
        reportHash := some reportHash
        voteDeadline := some (now.satAdd voteWindow) }, .ok ())

/-- Count the votes again, and lock the outcome they reach. -/
def updateLockedOutcome (r : CandidateRound) : CandidateRound :=
  let support := (r.votes.toList.filter fun vote => vote.verdict.isSupport).length
  let oppose := (r.votes.toList.filter fun vote => !vote.verdict.isSupport).length
  if supportThreshold ≤ support then { r with lockedOutcome := some .accepted }
  else if opposeThreshold ≤ oppose then { r with lockedOutcome := some .rejected }
  else r

def hasVoted (r : CandidateRound) (workerId : WorkerId) : Bool :=
  r.votes.toList.any fun vote => decide (vote.workerId = workerId)

/-- The round after the call, with what the call returned. -/
def recordVote (r : CandidateRound) (workerId : WorkerId) (verdict : Verdict)
    (now : BlockNumber) : CandidateRound × Except VoteError (Option LockedOutcome) :=
  match r.voteDeadline with
  | none => (r, .error .beforeCandidate)
  | some deadline =>
    if deadline < now then (r, .error .closed)
    else if workerId ∉ r.assigned.toList then (r, .error .notAssigned)
    else if r.hasVoted workerId then (r, .error .duplicateVote)
    else
      match r.votes.tryPush ⟨workerId, verdict, now⟩ with
      | none => (r, .error .boundExceeded)
      | some votes =>
        let r := { r with votes := votes }.updateLockedOutcome
        (r, .ok r.lockedOutcome)

def readyToFinalize (r : CandidateRound) (now : BlockNumber) : Bool :=
  r.voteDeadline.any fun deadline =>
    decide (deadline ≤ now) || r.votes.toList.length == r.assigned.toList.length

def finalOutcome (r : CandidateRound) (now : BlockNumber) : Option LockedOutcome :=
  if r.readyToFinalize now then some (r.lockedOutcome.getD .rejected) else none

def absentWorkers (r : CandidateRound) (now : BlockNumber) : List WorkerId :=
  if r.readyToFinalize now then r.assigned.toList.filter fun worker => !r.hasVoted worker
  else []

end CandidateRound

end MiniJam.WorkerEngine
