import MiniJam.Jam.Storage
import MiniJam.Workers.Pallet

/-!
# `MiniJam.Jam.Works`: the life of a work

Submission of a work and of its candidate report, and the block hook that moves a work
through its rounds: assignment of workers, a candidate, a vote, and then acceptance, a next
round or failure. Each definition follows the function of the same name in
`pallets/minijam/src/lib.rs`.
-/

set_option autoImplicit false

namespace MiniJam.Jam

variable {AccountId Ledger : Type} [DecidableEq AccountId] {T : Config AccountId Ledger}

def ensureIngressRelayer (origin : Origin AccountId) : M T AccountId := do
  let who ← ensureSigned origin
  let s ← Tx.read
  let expected ← Tx.okOr s.ingressRelayer (.jam .ingressRelayerNotConfigured)
  Tx.ensure (who = expected) (.jam .unauthorizedIngress)
  pure who

/-! ### Checks on submitted content -/

def validateContentRef (bundleRef : ContentRef) : M T Unit := do
  Tx.ensure (bundleRef.cidV1.toList ≠ []) (.jam .invalidContentRef)
  Tx.ensure (bundleRef.size > 0) (.jam .invalidContentRef)
  Tx.ensure (bundleRef.size ≤ T.maxBundleBytes) (.jam .invalidContentRef)

def decodeWorkPackage (bytes : Bytes) : M T WorkPackage := do
  let decoded ← Tx.okOr (T.codec.decodeWorkPackage bytes) (.jam .invalidWorkPackage)
  Tx.ensure (decoded.2 = []) (.jam .invalidWorkPackage)
  pure decoded.1

/-- One service result of a report against the work item at its position. -/
def resultMatches (entry : WorkItem × ServiceResultProjection) : Bool :=
  decide (entry.2.serviceId = entry.1.service ∧ entry.2.codeHash = entry.1.codeHash
    ∧ entry.2.refineGasUsed ≤ entry.1.refineGasLimit
    ∧ entry.2.accumulateGas ≤ entry.1.accumulateGasLimit)

def validateCandidateReport (work : WorkRecord AccountId) (envelope : ReportEnvelopeV1) :
    M T Unit := do
  let projection ← Tx.okOr (T.executor.projectReport envelope.canonicalReport.toList).toOption
    (.jam .invalidReportProjection)
  Tx.ensure (projection.packageHash = work.packageHash) (.jam .invalidReportProjection)
  Tx.ensure (envelope.projectedMetadata.packageHash = projection.packageHash
    ∧ envelope.projectedMetadata.contextHash = projection.contextHash
    ∧ envelope.projectedMetadata.exportsRoot = projection.exportsRoot
    ∧ envelope.projectedMetadata.accumulateGas = projection.totalAccumulateGas)
    (.jam .invalidReportProjection)
  let workPackage ← decodeWorkPackage work.canonicalWorkPackage
  Tx.ensure (projection.resultCount.toNat = workPackage.items.length
    ∧ projection.services.length = workPackage.items.length) (.jam .invalidReportProjection)
  Tx.ensure (projection.contextHash = T.workers.crypto.blake2_256 workPackage.contextEncoding)
    (.jam .invalidReportProjection)
  let totalReportGas ← Tx.okOr
    (projection.totalRefineGas.checkedAdd projection.totalAccumulateGas)
    (.jam .invalidReportProjection)
  Tx.ensure (totalReportGas ≤ T.maxExecutionGas) (.jam .invalidReportProjection)
  Tx.forEach (fun entry => Tx.ensure (resultMatches entry = true)
    (.jam .invalidReportProjection)) (workPackage.items.zip projection.services)

/-! ### Rounds -/

def prepareRound (workId : WorkId) : M T Unit := do
  let s ← Tx.read
  let work ← Tx.okOr (s.works.lookup workId) (.jam .workNotFound)
  let assigned ← Tx.attempt (inWorkers (Workers.assignWork workId work.round))
  let work := match assigned with
    | .ok _ =>
      { work with
        status := .awaitingCandidate
        candidateDeadline := s.base.blockNumber.satAdd T.reportSubmissionDeadline }
    | .error _ => { work with status := .insufficientWorkers }
  Tx.modify fun s => { s with works := s.works.insert workId work }
  depositEvent (.workRoundAdvanced workId work.round work.status)

def removePending (workId : WorkId) : M T Unit :=
  Tx.modify fun s => { s with
    pendingWorks := s.pendingWorks.removeFirst fun id => decide (id = workId) }

/-- Slash a hold in full and put it into the reward pool. A slash that cannot be taken in
full, or that the pool cannot receive, is an inconsistency. -/
def slashInFull (reason : HoldReason) (who : AccountId) (amount : Balance) : M T Unit := do
  let s ← Tx.read
  let slashed := T.currency.slash reason who amount s.base.ledger
  Tx.modify fun s => { s with base := { s.base with ledger := slashed.2.2 } }
  Tx.ensure (slashed.2.1 = 0) (.jam .inconsistentState)
  let s ← Tx.read
  let ledger ← Tx.okOr (T.currency.resolve T.rewardPool slashed.1 s.base.ledger)
    (.jam .inconsistentState)
  Tx.modify fun s => { s with base := { s.base with ledger := ledger } }

def settleRejectedCandidate (workId : WorkId) (round : AssignmentRound) : M T Unit := do
  let s ← Tx.read
  let candidate ← Tx.okOr (s.candidates.lookup (workId, round)) (.jam .inconsistentState)
  let slash := min T.candidateRejectionSlash T.candidateBond
  slashInFull .candidateBond candidate.submitter slash
  currencyOp (T.currency.release .candidateBond candidate.submitter (T.candidateBond - slash))

def failWork (workId : WorkId) (work : WorkRecord AccountId) : M T Unit := do
  slashInFull .workDeposit work.owner T.workDeposit
  Tx.modify fun s => { s with works := s.works.insert workId { work with status := .failed } }
  removePending workId
  inWorkers (Workers.clearAssignment workId work.round)
  depositEvent (.workFailed workId)

/-- Settle the candidate of a rejected round. -/
def rejectCandidate (workId : WorkId) (round : AssignmentRound) : M T Unit := do
  settleRejectedCandidate workId round
  depositEvent (.candidateRejected workId round)

/-- Put a work into its next round. -/
def nextRound (workId : WorkId) (work : WorkRecord AccountId) : M T Unit := do
  Tx.modify fun s => { s with
    works := s.works.insert workId
      { work with round := work.round.satAdd 1, status := .insufficientWorkers } }
  prepareRound workId

def advanceOrFailInner (workId : WorkId) (rejectedCandidate : Bool) : M T Unit := do
  let s ← Tx.read
  let work ← Tx.okOr (s.works.lookup workId) (.jam .workNotFound)
  (if rejectedCandidate then rejectCandidate workId work.round else pure ())
  inWorkers (Workers.clearAssignment workId work.round)
  if work.round.satAdd 1 ≥ T.maxCandidateRounds then failWork workId work
  else nextRound workId work

def advanceOrFail (workId : WorkId) (rejectedCandidate : Bool) : M T Unit :=
  Tx.transaction (advanceOrFailInner workId rejectedCandidate)

def acceptCandidateInner (workId : WorkId) : M T Unit := do
  let s ← Tx.read
  let work ← Tx.okOr (s.works.lookup workId) (.jam .workNotFound)
  let candidate ← Tx.okOr (s.candidates.lookup (workId, work.round)) (.jam .inconsistentState)
  validateCandidateReport work candidate.envelope
  currencyOp (T.currency.release .candidateBond candidate.submitter T.candidateBond)
  currencyOp (T.currency.transfer T.rewardPool candidate.submitter T.acceptedSubmitterReward)
  currencyOp (T.currency.release .workDeposit work.owner T.workDeposit)
  Tx.modify fun s => { s with
    works := s.works.insert workId { work with status := .accepted } }
  let queue ← Tx.okOr (s.executionQueue.tryPush
    { workId := workId, executeAt := s.base.blockNumber.satAdd 1 }) (.jam .executionQueueFull)
  Tx.modify fun s => { s with executionQueue := queue }
  removePending workId
  inWorkers (Workers.clearAssignment workId work.round)
  depositEvent (.candidateAccepted workId work.round)

def acceptCandidate (workId : WorkId) : M T Unit := Tx.transaction (acceptCandidateInner workId)

/-- The body of the block hook for one pending work. -/
def progressWork (block : BlockNumber) (workId : WorkId) : M T Unit := do
  let s ← Tx.read
  match s.works.lookup workId with
  | none => pure ()
  | some work =>
    match work.status with
    | .insufficientWorkers => Tx.ignore (prepareRound workId)
    | .awaitingCandidate =>
      if block > work.candidateDeadline then Tx.ignore (advanceOrFail workId false)
      else pure ()
    | .voting =>
      match s.base.roundResults.lookup (workId, work.round) with
      | none => pure ()
      | some result =>
        match result.decision with
        | some .accepted => Tx.ignore (acceptCandidate workId)
        | some .rejected => Tx.ignore (advanceOrFail workId true)
        | none => Tx.ignore (advanceOrFail workId true)
    | _ => pure ()

def onInitialize (block : BlockNumber) : M T Unit := do
  let s ← Tx.read
  Tx.forEach (progressWork block) s.pendingWorks.toList

/-! ### Calls -/

def submitWork (origin : Origin AccountId)
    (canonicalWorkPackage : BoundedVec UInt8 T.maxWorkPackageBytes.toNat)
    (bundleRef : ContentRef) : M T Unit := do
  let owner ← ensureIngressRelayer origin
  Tx.ensure (canonicalWorkPackage.toList ≠ []) (.jam .invalidWorkPackage)
  validateContentRef bundleRef
  let _ ← decodeWorkPackage canonicalWorkPackage.toList
  let packageHash := T.workers.crypto.blake2_256 canonicalWorkPackage.toList
  let s ← Tx.read
  Tx.ensure (!s.workByPackageHash.contains packageHash) (.jam .duplicateWorkPackage)
  let workId := s.nextWorkId
  let next ← Tx.okOr (workId.checkedAdd 1) (.jam .workIdOverflow)
  let pending ← Tx.okOr (s.pendingWorks.tryPush workId) (.jam .tooManyPendingWorks)
  Tx.modify fun s => { s with pendingWorks := pending }
  currencyOp (T.currency.hold .workDeposit owner T.workDeposit)
  Tx.modify fun s => { s with
    works := s.works.insert workId
      { owner := owner
        packageHash := packageHash
        canonicalWorkPackage := canonicalWorkPackage.toList
        bundleRef := bundleRef
        round := 0
        status := .insufficientWorkers
        candidateDeadline := 0 }
    workByPackageHash := s.workByPackageHash.insert packageHash workId
    nextWorkId := next }
  Tx.ignore (prepareRound workId)
  let s ← Tx.read
  let work ← Tx.okOr (s.works.lookup workId) (.jam .inconsistentState)
  depositEvent (.workSubmitted workId owner packageHash bundleRef work.status)

def submitCandidate (origin : Origin AccountId) (envelope : ReportEnvelopeV1) : M T Unit := do
  let submitter ← ensureSigned origin
  let s ← Tx.read
  let work ← Tx.okOr (s.works.lookup envelope.workId) (.jam .workNotFound)
  let workerId ← Tx.okOr (s.base.workerByAccount.lookup submitter)
    (.jam .candidateSubmitterNotWorker)
  let assignment ← Tx.okOr (s.base.assignments.lookup (envelope.workId, work.round))
    (.jam .candidateSubmitterNotAssigned)
  Tx.ensure (workerId ∈ assignment.toList) (.jam .candidateSubmitterNotAssigned)
  Tx.ensure (assignment.toList.min? = some workerId) (.jam .candidateProducerNotSelected)
  Tx.ensure (work.status = .awaitingCandidate) (.jam .candidateNotExpected)
  Tx.ensure (s.base.blockNumber ≤ work.candidateDeadline) (.jam .candidateDeadlineExpired)
  Tx.ensure (!s.candidates.contains (envelope.workId, work.round))
    (.jam .candidateAlreadySubmitted)
  Tx.ensure (envelope.protocolVersion = protocolVersionV1 ∧ envelope.chainId = T.chainId
    ∧ envelope.assignmentRound = work.round) (.jam .invalidEnvelope)
  Tx.ensure (envelope.computedReportHash T.workers.crypto = envelope.canonicalReportHash)
    (.jam .invalidReportHash)
  validateCandidateReport work envelope
  currencyOp (T.currency.hold .candidateBond submitter T.candidateBond)
  let voteDeadline := s.base.blockNumber.satAdd T.voteWindow
  Tx.mapErr (fun _ => .jam .votingSetupFailed)
    (inWorkers (Workers.openVoting envelope.workId work.round envelope.canonicalReportHash
      voteDeadline))
  Tx.modify fun s => { s with
    candidates := s.candidates.insert (envelope.workId, work.round)
      { submitter := submitter, envelope := envelope, voteDeadline := voteDeadline }
    works := s.works.insert envelope.workId { work with status := .voting } }
  depositEvent (.candidateSubmitted envelope.workId work.round submitter
    envelope.canonicalReportHash)

end MiniJam.Jam
