import MiniJam.Workers.Storage

/-!
# `MiniJam.Workers.Pallet`: the workers pallet

Registration and stake updates, the epoch snapshot, assignment of workers to works, voting
and its finalization, and equivocation reports. Each definition follows the function of the
same name in `pallets/minijam-workers/src/lib.rs`.

A call is written as the body of its extrinsic; `dispatch` adds the storage layer around
it. `finalizeVoting` has a transaction of its own, because the block hook calls it for many
rounds and ignores its error.
-/

set_option autoImplicit false

namespace MiniJam.Workers

open Scale

variable {AccountId Ledger : Type} [DecidableEq AccountId] {T : Config AccountId Ledger}

def depositEvent (e : Event T) : M T Unit :=
  Tx.modify fun s => { s with events := s.events ++ [e] }

/-- Run an operation of the currency on the ledger. -/
def currencyOp (f : Ledger → Option Ledger) : M T Unit := fun s =>
  match f s.ledger with
  | some ledger => .ok () { s with ledger := ledger }
  | none => .err .token s

/-- Slash the stake of `owner`, and put what was taken into the reward pool. Returns the
amount taken. -/
def slashStake (owner : AccountId) (requested : Balance) : M T Balance := do
  let s ← Tx.read
  let slashed := T.currency.slash .workerStake owner requested s.ledger
  let actual := requested - slashed.2.1
  Tx.modify fun s => { s with ledger := slashed.2.2 }
  let s ← Tx.read
  let ledger ← Tx.okOr (T.currency.resolve T.rewardPool slashed.1 s.ledger)
    (.other "reward pool cannot receive slash")
  Tx.modify fun s => { s with ledger := ledger }
  pure actual

/-! ### Assignment -/

/-- The hash that orders workers with equal duty counts. -/
def assignmentScore (T : Config AccountId Ledger) (seed : Hash) (epoch : EpochIndex)
    (round : AssignmentRound) (workId : WorkId) (workerId : WorkerId) : Hash :=
  T.crypto.blake2_256 (encodeBytes (ascii "minijam/assignment-v1") ++ seed.toList
    ++ encodeU32 epoch ++ encodeU8 round ++ encodeU64 workId ++ encodeU64 workerId)

/-- The block whose hash seeds the assignments of an epoch. -/
def seedBlock (T : Config AccountId Ledger) (epoch : EpochIndex) : BlockNumber :=
  UInt32.ofNat (min (epoch.toNat * T.epochLength.toNat - T.assignmentSeedDelay.toNat) u32Max)

def State.dutyCount (s : State T) (epoch : EpochIndex) (round : AssignmentRound)
    (workerId : WorkerId) : Nat :=
  (s.dutyCounts.lookup (epoch, round, workerId)).getD 0

def State.workCount (s : State T) (epoch : EpochIndex) (round : AssignmentRound) : Nat :=
  (s.assignedWorkCount.lookup (epoch, round)).getD 0

/-- The active workers with duties left, the least loaded first. -/
def assignmentCandidates (s : State T) (workId : WorkId) (round : AssignmentRound) :
    List WorkerId :=
  let epoch := s.currentEpoch
  let seed := s.blockHash (seedBlock T epoch)
  let candidates := s.activeWorkers.toList.filter fun workerId =>
    decide (s.dutyCount epoch round workerId < T.maxDutiesPerWorkerPerRound.toNat)
  sortByKey (fun workerId =>
    toLex (s.dutyCount epoch round workerId,
      toLex ((assignmentScore T seed epoch round workId workerId).key, workerId.toNat)))
    candidates

/-- One worker of a new assignment: count the duty and fix the session key. -/
def assignDuty (workId : WorkId) (round : AssignmentRound) (epoch : EpochIndex)
    (workerId : WorkerId) : M T Unit := do
  Tx.modify fun s => { s with
    dutyCounts := s.dutyCounts.insert (epoch, round, workerId)
      (satAdd32 (s.dutyCount epoch round workerId) 1) }
  let s ← Tx.read
  let worker ← Tx.expect (s.workers.lookup workerId)
  Tx.modify fun s => { s with
    assignmentKeys := s.assignmentKeys.insert (workId, round, workerId) worker.sessionKey }

def assignWork (workId : WorkId) (round : AssignmentRound) : M T (Assignment T) := do
  let s ← Tx.read
  match s.assignments.lookup (workId, round) with
  | some existing => pure existing
  | none =>
    let epoch := s.currentEpoch
    Tx.ensure (s.workCount epoch round < T.maxWorksPerRound.toNat) (.workers .tooManyWorks)
    let candidates := assignmentCandidates s workId round
    Tx.ensure (T.workersPerWork.toNat ≤ candidates.length) (.workers .insufficientWorkers)
    let assigned : Assignment T := BoundedVec.takeFrom candidates
    Tx.forEach (assignDuty workId round epoch) assigned.toList
    Tx.modify fun s => { s with
      assignedWorkCount := s.assignedWorkCount.insert (epoch, round)
        (satAdd32 (s.workCount epoch round) 1) }
    Tx.modify fun s => { s with
      assignments := s.assignments.insert (workId, round) assigned
      assignmentEpochs := s.assignmentEpochs.insert (workId, round) epoch }
    pure assigned

/-- Forget one worker's key and vote. -/
def clearDuty (workId : WorkId) (round : AssignmentRound) (s : State T)
    (workerId : WorkerId) : State T :=
  { s with
    assignmentKeys := s.assignmentKeys.erase (workId, round, workerId)
    votes := s.votes.erase (workId, round, workerId) }

def clearAssignment (workId : WorkId) (round : AssignmentRound) : M T Unit :=
  Tx.modify fun s =>
    let s := match s.assignments.lookup (workId, round) with
      | some assignment =>
        assignment.toList.foldl (clearDuty workId round)
          { s with assignments := s.assignments.erase (workId, round) }
      | none => s
    { s with assignmentEpochs := s.assignmentEpochs.erase (workId, round) }

/-! ### Voting -/

def openVoting (workId : WorkId) (round : AssignmentRound) (candidateHash : Hash)
    (deadline : BlockNumber) : M T Unit := do
  let s ← Tx.read
  Tx.ensure (s.assignments.contains (workId, round)) (.workers .notAssigned)
  Tx.ensure (!s.votingRounds.contains (workId, round)
    && !s.roundResults.contains (workId, round)) (.workers .votingAlreadyOpen)
  Tx.ensure (deadline > s.blockNumber) (.workers .voteExpired)
  let rounds ← Tx.okOr (s.openVoteRounds.tryPush (workId, round)) (.workers .tooManyOpenVotes)
  Tx.modify fun s => { s with openVoteRounds := rounds }
  let epoch ← Tx.okOr (s.assignmentEpochs.lookup (workId, round)) (.workers .notAssigned)
  Tx.modify fun s => { s with
    votingRounds := s.votingRounds.insert (workId, round)
      { assignmentEpoch := epoch
        candidateHash := candidateHash
        deadline := deadline
        support := 0
        oppose := 0
        responses := 0
        locked := none } }

def validateWorkerVote (workerId : WorkerId) (vote : WorkerVoteV1) (signature : Signature) :
    M T Unit := do
  let s ← Tx.read
  let voting ← Tx.okOr (s.votingRounds.lookup (vote.workId, vote.round))
    (.workers .votingNotOpen)
  let assignment ← Tx.okOr (s.assignments.lookup (vote.workId, vote.round))
    (.workers .notAssigned)
  Tx.ensure (workerId ∈ assignment.toList) (.workers .notAssigned)
  Tx.ensure (!s.votes.contains (vote.workId, vote.round, workerId)) (.workers .alreadyVoted)
  Tx.ensure (s.blockNumber ≤ voting.deadline) (.workers .voteExpired)
  Tx.ensure (vote.assignmentEpoch = voting.assignmentEpoch
    ∧ vote.candidateReportHash = voting.candidateHash
    ∧ vote.deadline = voting.deadline
    ∧ vote.chainId = T.chainId
    ∧ vote.protocolVersion = T.protocolVersion) (.workers .voteMismatch)
  let sessionKey ← Tx.okOr (s.assignmentKeys.lookup (vote.workId, vote.round, workerId))
    (.workers .notAssigned)
  Tx.ensure (T.crypto.sr25519Verify signature (vote.signingHash T.crypto) sessionKey)
    (.workers .invalidSignature)

/-- What the transaction pool is told of a valid transaction. -/
structure ValidTransaction where
  priority : UInt64
  provides : List Bytes
  longevity : UInt64
  propagate : Bool

/-- The tag of a vote, behind the prefix of the tags. -/
def voteTag (workerId : WorkerId) (vote : WorkerVoteV1) : Bytes :=
  encodeBytes (ascii "MiniJamWorkerVote") ++ encodeBytes
    (encodeBytes (ascii "minijam-worker-vote-v1") ++ encodeU64 vote.workId ++ encodeU8 vote.round
      ++ encodeU64 workerId)

/-- The answer to the transaction pool. There is none for `InvalidTransaction::BadProof`. -/
def validateUnsignedVote (workerId : WorkerId) (vote : WorkerVoteV1) (signature : Signature)
    (s : State T) : Option ValidTransaction := do
  let _ ← (validateWorkerVote workerId vote signature s).returned
  let longevity := max (vote.deadline.toNat - s.blockNumber.toNat) 1
  some
    { priority := 100
      provides := [voteTag workerId vote]
      longevity := UInt64.ofNat longevity
      propagate := true }

/-- The round after one more vote. The first threshold reached locks the decision. -/
def countVote (T : Config AccountId Ledger) (voting : VotingRound) (verdict : Verdict) :
    VotingRound :=
  let voting := match verdict with
    | .support => { voting with support := satAdd32 voting.support 1 }
    | .oppose _ => { voting with oppose := satAdd32 voting.oppose 1 }
  let voting := { voting with responses := satAdd32 voting.responses 1 }
  if voting.locked = none then
    if T.supportThreshold.toNat ≤ voting.support then
      { voting with locked := some .accepted }
    else if T.opposeThreshold.toNat ≤ voting.oppose then
      { voting with locked := some .rejected }
    else voting
  else voting

/-- The absence slash asked for: a fraction of the stake, at least the minimum, at most the
stake. -/
def absenceRequest (T : Config AccountId Ledger) (activeStake : Balance) : Balance :=
  min (max (T.absenceSlash.mulFloor activeStake) T.minimumAbsenceSlash) activeStake

/-- Settle one assigned worker at the end of a round: pay for a vote, slash an absence. -/
def settleDuty (workId : WorkId) (round : AssignmentRound) (workerId : WorkerId) :
    M T Unit := do
  let s ← Tx.read
  let worker ← Tx.okOr (s.workers.lookup workerId) (.workers .notRegistered)
  if s.votes.contains (workId, round, workerId) then do
    currencyOp (T.currency.transfer T.rewardPool worker.owner T.timelyVoteReward)
    depositEvent (.voteRewardPaid workerId T.timelyVoteReward)
  else do
    let actual ← slashStake worker.owner (absenceRequest T worker.activeStake)
    Tx.modify fun s => { s with
      workers := match s.workers.lookup workerId with
        | some record =>
          s.workers.insert workerId { record with activeStake := record.activeStake - actual }
        | none => s.workers }
    depositEvent (.workerSlashed workerId actual)

def finalizeVotingInner (workId : WorkId) (round : AssignmentRound) : M T Unit := do
  let s ← Tx.read
  let voting ← Tx.okOr (s.votingRounds.lookup (workId, round)) (.workers .votingNotOpen)
  Tx.modify fun s => { s with votingRounds := s.votingRounds.erase (workId, round) }
  let assignment ← Tx.okOr (s.assignments.lookup (workId, round)) (.workers .notAssigned)
  Tx.forEach (settleDuty workId round) assignment.toList
  Tx.modify fun s => { s with
    roundResults := s.roundResults.insert (workId, round)
      { decision := voting.locked
        absentees := BoundedVec.takeFrom (assignment.toList.filter fun workerId =>
          !s.votes.contains (workId, round, workerId)) }
    openVoteRounds := s.openVoteRounds.removeFirst fun key => decide (key = (workId, round)) }
  depositEvent (.votingFinalized workId round voting.locked)

def finalizeVoting (workId : WorkId) (round : AssignmentRound) : M T Unit :=
  Tx.transaction (finalizeVotingInner workId round)

/-- One turn of the loop below: finalize an open voting when its deadline has passed. -/
def finalizeIfDue (block : BlockNumber) (key : RoundKey) : M T Unit := do
  let s ← Tx.read
  match s.votingRounds.lookup key with
  | some voting =>
    if block > voting.deadline then Tx.ignore (finalizeVoting key.1 key.2) else pure ()
  | none => pure ()

def finalizeDueVotes (block : BlockNumber) : M T Unit := do
  let s ← Tx.read
  Tx.forEach (finalizeIfDue block) s.openVoteRounds.toList

/-! ### Epoch boundaries -/

/-- The worker of a due update, with the stake it gives up put aside. -/
def updateWorker (epoch : EpochIndex) (workerId : WorkerId) (update : PendingWorkerUpdate)
    (s : State T) : State T :=
  match s.workers.lookup workerId with
  | none => s
  | some worker =>
    let worker := match update.sessionKey with
      | some sessionKey => { worker with sessionKey := sessionKey }
      | none => worker
    match update.stake with
    | none =>
      { s with workers := s.workers.insert workerId { worker with effectiveEpoch := epoch } }
    | some stake =>
      { s with
        unbonding :=
          if stake < worker.activeStake then
            s.unbonding.insert workerId
              { amount := worker.activeStake - stake, unlockEpoch := epoch.satAdd 2 }
          else s.unbonding
        workers := s.workers.insert workerId
          { worker with activeStake := stake, effectiveEpoch := epoch } }

def applyPendingUpdate (epoch : EpochIndex) (entry : WorkerId × PendingWorkerUpdate) :
    M T Unit :=
  if entry.2.effectiveEpoch > epoch then pure ()
  else do
    Tx.modify (updateWorker epoch entry.1 entry.2)
    Tx.modify fun s => { s with pendingUpdates := s.pendingUpdates.erase entry.1 }
    depositEvent (.workerUpdateApplied entry.1 epoch)

def applyPendingUpdates (epoch : EpochIndex) : M T Unit := do
  let s ← Tx.read
  Tx.forEach (applyPendingUpdate epoch) (StorageMap.iter T.iterOrder s.pendingUpdates)

def releaseUnbonding (epoch : EpochIndex) (entry : WorkerId × UnbondingChunk) : M T Unit := do
  let s ← Tx.read
  if entry.2.unlockEpoch > epoch then pure ()
  else match s.workers.lookup entry.1 with
    | none => pure ()
    | some worker =>
      match T.currency.release .workerStake worker.owner entry.2.amount s.ledger with
      | none => pure ()
      | some ledger => do
        Tx.modify fun s => { s with
          ledger := ledger
          unbonding := s.unbonding.erase entry.1 }
        depositEvent (.stakeReleased entry.1 entry.2.amount)

def releaseMatureUnbonding (epoch : EpochIndex) : M T Unit := do
  let s ← Tx.read
  Tx.forEach (releaseUnbonding epoch) (StorageMap.iter T.iterOrder s.unbonding)

/-- Highest stake first, lower id first among equal stakes. -/
def rankWorkers (entries : List (WorkerId × Balance)) : List (WorkerId × Balance) :=
  sortByKey (fun entry => toLex (OrderDual.toDual entry.2, entry.1.toNat)) entries

/-- The workers that may be active in an epoch, in iteration order. A push past the bound
is dropped. -/
def eligibleWorkers (s : State T) (epoch : EpochIndex) :
    BoundedVec (WorkerId × Balance) T.maxCandidates.toNat :=
  (StorageMap.iter T.iterOrder s.workers).foldl (fun eligible entry =>
    if entry.2.effectiveEpoch ≤ epoch ∧ entry.2.suspendedUntil ≤ epoch then
      (eligible.tryPush (entry.1, entry.2.activeStake)).getD eligible
    else eligible) BoundedVec.empty

def onInitialize (block : BlockNumber) : M T Unit := do
  finalizeDueVotes block
  if T.epochLength = 0 then pure ()
  else if block = 0 ∨ block.toNat % T.epochLength.toNat ≠ 0 then pure ()
  else do
    let s ← Tx.read
    let epoch := s.currentEpoch.satAdd 1
    applyPendingUpdates epoch
    releaseMatureUnbonding epoch
    let s ← Tx.read
    let ranked := rankWorkers (eligibleWorkers s epoch).toList
    let workers := BoundedVec.takeFrom (ranked.map Prod.fst)
    Tx.modify fun s => { s with
      currentEpoch := epoch
      activeWorkers := workers }
    depositEvent (.epochSnapshot epoch workers)

/-! ### Calls -/

def register (origin : Origin AccountId) (sessionKey : PublicKey) (stake : Balance) :
    M T Unit := do
  let owner ← ensureSigned origin
  let s ← Tx.read
  Tx.ensure (!s.workerByAccount.contains owner) (.workers .alreadyRegistered)
  Tx.ensure (s.workerCount < T.maxCandidates.toNat) (.workers .candidatePoolFull)
  Tx.ensure (T.minimumStake ≤ stake) (.workers .stakeBelowMinimum)
  Tx.ensure (T.epochLength > 0) (.workers .invalidEpochLength)
  let workerId := s.nextWorkerId
  let nextWorkerId ← Tx.okOr (workerId.checkedAdd 1) (.workers .workerIdOverflow)
  currencyOp (T.currency.hold .workerStake owner stake)
  let effectiveEpoch := s.currentEpoch.satAdd 1
  Tx.modify fun s => { s with
    workers := s.workers.insert workerId
      { owner := owner
        sessionKey := sessionKey
        activeStake := stake
        effectiveEpoch := effectiveEpoch
        suspendedUntil := 0 }
    workerByAccount := s.workerByAccount.insert owner workerId
    nextWorkerId := nextWorkerId
    workerCount := satAdd32 s.workerCount 1 }
  depositEvent (.workerRegistered workerId owner effectiveEpoch stake)

/-- The part of a stake increase that goes on hold when the update is scheduled. -/
def holdIncrease (owner : AccountId) (activeStake : Balance) : Option Balance → M T Unit
  | none => pure ()
  | some newStake => do
    Tx.ensure (T.minimumStake ≤ newStake) (.workers .stakeBelowMinimum)
    if newStake > activeStake then
      currencyOp (T.currency.hold .workerStake owner (newStake - activeStake))
    else pure ()

def scheduleUpdate (origin : Origin AccountId) (sessionKey : Option PublicKey)
    (stake : Option Balance) : M T Unit := do
  let owner ← ensureSigned origin
  Tx.ensure (sessionKey.isSome || stake.isSome) (.workers .emptyUpdate)
  let s ← Tx.read
  let workerId ← Tx.okOr (s.workerByAccount.lookup owner) (.workers .notRegistered)
  Tx.ensure (!s.pendingUpdates.contains workerId) (.workers .pendingUpdateExists)
  Tx.ensure (!s.unbonding.contains workerId) (.workers .unbondingInProgress)
  let worker ← Tx.okOr (s.workers.lookup workerId) (.workers .notRegistered)
  holdIncrease owner worker.activeStake stake
  let effectiveEpoch := s.currentEpoch.satAdd 1
  Tx.modify fun s => { s with
    pendingUpdates := s.pendingUpdates.insert workerId
      { sessionKey := sessionKey, stake := stake, effectiveEpoch := effectiveEpoch } }
  depositEvent (.workerUpdateScheduled workerId effectiveEpoch)

/-- Votes are signed by the session key, so any signed account or nobody may send one. -/
def ensureSignedOrNone (origin : Origin AccountId) : M T Unit :=
  match origin with
  | .signed _ => pure ()
  | _ => ensureNone origin

def submitVote (origin : Origin AccountId) (workerId : WorkerId) (vote : WorkerVoteV1)
    (signature : Signature) : M T Unit := do
  ensureSignedOrNone origin
  validateWorkerVote workerId vote signature
  let s ← Tx.read
  let assignment ← Tx.okOr (s.assignments.lookup (vote.workId, vote.round))
    (.workers .notAssigned)
  let voting ← Tx.okOr (s.votingRounds.lookup (vote.workId, vote.round))
    (.workers .votingNotOpen)
  let voting := countVote T voting vote.verdict
  Tx.modify fun s => { s with
    votes := s.votes.insert (vote.workId, vote.round, workerId) vote.verdict
    votingRounds := s.votingRounds.insert (vote.workId, vote.round) voting }
  depositEvent (.voteSubmitted vote.workId vote.round workerId)
  if assignment.toList.length ≤ voting.responses then finalizeVoting vote.workId vote.round
  else pure ()

def submitEquivocation (origin : Origin AccountId) (workerId : WorkerId)
    (first : WorkerVoteV1) (firstSignature : Signature) (second : WorkerVoteV1)
    (secondSignature : Signature) : M T Unit := do
  let _ ← ensureSigned origin
  Tx.ensure (first.workId = second.workId ∧ first.round = second.round
    ∧ first.assignmentEpoch = second.assignmentEpoch ∧ first.deadline = second.deadline
    ∧ first.chainId = T.chainId ∧ second.chainId = T.chainId
    ∧ first.protocolVersion = T.protocolVersion
    ∧ second.protocolVersion = T.protocolVersion
    ∧ first.signingHash T.crypto ≠ second.signingHash T.crypto)
    (.workers .invalidEquivocationProof)
  let s ← Tx.read
  let proofKey : DutyKey := (first.workId, first.round, workerId)
  Tx.ensure (!s.equivocations.contains proofKey) (.workers .equivocationAlreadyReported)
  let sessionKey ← Tx.okOr (s.assignmentKeys.lookup proofKey) (.workers .notAssigned)
  Tx.ensure (T.crypto.sr25519Verify firstSignature (first.signingHash T.crypto) sessionKey
    && T.crypto.sr25519Verify secondSignature (second.signingHash T.crypto) sessionKey)
    (.workers .invalidSignature)
  let worker ← Tx.okOr (s.workers.lookup workerId) (.workers .notRegistered)
  let actual ← slashStake worker.owner (T.equivocationSlash.mulFloor worker.activeStake)
  let suspendedUntil := s.currentEpoch.satAdd T.equivocationSuspension
  Tx.modify fun s => { s with
    workers := s.workers.insert workerId
      { worker with activeStake := worker.activeStake - actual
                    suspendedUntil := suspendedUntil }
    equivocations := s.equivocations.insert proofKey () }
  depositEvent (.equivocationProven first.workId first.round workerId actual suspendedUntil)

/-! ### Genesis -/

/-- One genesis worker: its id is its position in the list. -/
def buildWorker (entry : (AccountId × PublicKey × Balance) × Nat) : M T Unit := do
  let owner := entry.1.1
  let sessionKey := entry.1.2.1
  let stake := entry.1.2.2
  Tx.check (T.minimumStake ≤ stake)
  let s ← Tx.read
  Tx.check (!s.workerByAccount.contains owner)
  let ledger ← Tx.expect (T.currency.hold .workerStake owner stake s.ledger)
  let workerId := UInt64.ofNat entry.2
  Tx.modify fun s => { s with
    ledger := ledger
    workers := s.workers.insert workerId
      { owner := owner
        sessionKey := sessionKey
        activeStake := stake
        effectiveEpoch := 0
        suspendedUntil := 0 }
    workerByAccount := s.workerByAccount.insert owner workerId }

def genesisBuild (workers : List (AccountId × PublicKey × Balance)) : M T Unit := do
  Tx.check (workers.length ≤ T.maxCandidates.toNat)
  Tx.forEach buildWorker workers.zipIdx
  let ranked := rankWorkers (workers.zipIdx.map fun entry =>
    (UInt64.ofNat entry.2, entry.1.2.2))
  Tx.modify fun s => { s with
    activeWorkers := BoundedVec.takeFrom (ranked.map Prod.fst)
    workerCount := workers.length
    nextWorkerId := UInt64.ofNat workers.length }

end MiniJam.Workers
