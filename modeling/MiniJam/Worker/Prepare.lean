import MiniJam.Worker.Lanes

/-!
# `MiniJam.Worker.Prepare`: candidates and votes from a local refinement

A worker recomputes the report of a work from its bundle. As the producer of the candidate it
submits the report. As a voter it compares the report with the candidate. Each definition follows
the function of the same name in `crates/minijam-worker/src/lib.rs`.

An extrinsic is kept as what it says. The source keeps the hex of its encoding.
-/

set_option autoImplicit false

namespace MiniJam

/-! ### Stage 0 -/

namespace Stage0

/-- `CORE_INDEX`. -/
def coreIndex : UInt16 := 0

/-- `AUTH_CODE_HOST`. -/
def authCodeHost : UInt32 := 0

/-- `AUTH_CODE_HASH`. -/
def authCodeHash : Hash := FixedBytes.fill 32 0

structure RefineContextV1 where
  anchor : Hash
  stateRoot : Hash
  lookupAnchor : Hash
  lookupAnchorSlot : UInt32

end Stage0

namespace Worker

/-! ### What the worker is given -/

/-- Where the worker reads the protocol state. -/
structure ProtocolStateSource where
  validateFinalizedContext : Stage0.RefineContextV1 → Except WorkerError Unit
  protocolStateValueAt : Hash → StateReader

/-- A key pair of `sr25519`. -/
structure Pair where
  publicKey : PublicKey
  sign : Hash → Signature

/-- An open voting with the report to check. -/
structure VoteTask where
  workId : WorkId
  round : AssignmentRound
  assignmentEpoch : EpochIndex
  candidateReportHash : Hash
  candidateReport : Bytes
  deadline : BlockNumber
  assignedWorkers : List WorkerId
  submittedVotes : List WorkerId
  packageHash : Hash
  canonicalWorkPackage : Bytes
  bundleRef : ContentRef
  deriving DecidableEq

/-! ### What the worker makes -/

/-- The extrinsics of a worker: a bare vote, and a candidate signed by the account. -/
inductive Extrinsic where
  | submitVote (workerId : WorkerId) (vote : WorkerVoteV1) (signature : Signature)
  | submitCandidate (signer : PublicKey) (nonce : UInt32) (genesisHash : Hash)
      (envelope : ReportEnvelopeV1)
  deriving DecidableEq

structure PreparedVoteSubmission where
  workerId : WorkerId
  vote : WorkerVoteV1
  signature : Signature
  extrinsic : Extrinsic
  deriving DecidableEq

structure PreparedCandidateSubmission where
  envelope : ReportEnvelopeV1
  exportedSegmentCount : Nat
  deriving DecidableEq

structure PreparedSignedCandidateSubmission where
  envelope : ReportEnvelopeV1
  nonce : UInt32
  extrinsic : Extrinsic
  deriving DecidableEq

def prepareVoteSubmission (c : Crypto) (workerId : WorkerId) (pair : Pair) (vote : WorkerVoteV1) :
    PreparedVoteSubmission :=
  let signature := pair.sign (vote.signingHash c)
  { workerId := workerId
    vote := vote
    signature := signature
    extrinsic := .submitVote workerId vote signature }

def prepareSignedCandidateSubmission (pair : Pair) (nonce : UInt32) (genesisHash : Hash)
    (envelope : ReportEnvelopeV1) : PreparedSignedCandidateSubmission where
  envelope := envelope
  nonce := nonce
  extrinsic := .submitCandidate pair.publicKey nonce genesisHash envelope

/-! ### The local refinement -/

/-- The part of `prepare_candidate_envelope_with_network_domain` that looks only at the bundle and
the task. -/
def checkWorkBundle (J : Jambda) (coreIndex : UInt16) (task : WorkTask) (bundleBytes : Bytes) :
    Except WorkerError Jambda.MiniJamWorkBundleV1 := do
  let (bundle, raw) ← (J.decodeBundle bundleBytes).mapError fun error =>
    .refine ("invalid Jambda work bundle: " ++ error)
  Except.ensure (raw = []) (.refine "Jambda work bundle contains trailing bytes")
  Except.ensure (bundle.version = J.bundleVersionV1)
    (.refine ("unsupported Jambda work bundle version " ++ toString bundle.version))
  Except.ensure (J.packageHashMatches bundle = true ∧ bundle.packageHash = task.packageHash)
    (.refine "Jambda work bundle package hash does not match task")
  Except.ensure (J.encodeWorkPackage bundle.workPackage = task.canonicalWorkPackage)
    (.refine "Jambda work bundle package does not match task canonical work package")
  Except.ensure (coreIndex = Stage0.coreIndex
    ∧ bundle.workPackage.authCodeHost = Stage0.authCodeHost
    ∧ bundle.workPackage.authCodeHash = Stage0.authCodeHash
    ∧ bundle.workPackage.authorization = [] ∧ bundle.workPackage.authorizerConfig = [])
    (.refine "work package does not use the fixed Stage 0 allow-all authorization")
  pure bundle

/-- The context of a package, as the state source checks it. -/
def refineContext (package : Jambda.WorkPackage) : Stage0.RefineContextV1 where
  anchor := package.context.anchor
  stateRoot := package.context.stateRoot
  lookupAnchor := package.context.lookupAnchor
  lookupAnchorSlot := package.context.lookupAnchorSlot

/-- The envelope of a report, without external proof and signatures. -/
def reportEnvelope (c : Crypto) (chainId : ChainId) (task : WorkTask)
    (canonicalReport : CanonicalReportBytes) (projectedMetadata : ReportMetadataV1) :
    ReportEnvelopeV1 where
  protocolVersion := protocolVersionV1
  chainId := chainId
  workId := task.workId
  assignmentRound := task.round
  canonicalReport := canonicalReport
  canonicalReportHash := c.blake2_256 canonicalReport.toList
  projectedMetadata := projectedMetadata

def prepareCandidateEnvelopeWithNetworkDomain (J : Jambda) (c : Crypto)
    (state : ProtocolStateSource) (chainId : ChainId) (coreIndex : UInt16) (task : WorkTask)
    (bundleBytes : Bytes) (networkDomain : Hash) :
    Except WorkerError PreparedCandidateSubmission := do
  let bundle ← checkWorkBundle J coreIndex task bundleBytes
  state.validateFinalizedContext (refineContext bundle.workPackage)
  let db := state.protocolStateValueAt bundle.workPackage.context.lookupAnchor
  (J.loadFromDb db).mapError fun error => .refine ("failed to load Jambda state: " ++ error)
  let input := J.intoWorkReportInput bundle coreIndex
  let output ← (J.computeWorkReport db input networkDomain).mapError fun error =>
    .refine ("Jambda refine failed: " ++ error)
  let projectedMetadata ← (J.projectReport output.report).mapError fun error =>
    .refine ("invalid generated report projection: " ++ error)
  let canonicalReport ← Except.okOr (BoundedVec.tryFrom output.report)
    (.refine "generated report exceeds envelope limit")
  pure
    { envelope := reportEnvelope c chainId task canonicalReport projectedMetadata
      exportedSegmentCount := output.exportedSegments.length }

/-- The work of a vote task. -/
def VoteTask.workTask (task : VoteTask) : WorkTask where
  workId := task.workId
  round := task.round
  assignmentEpoch := task.assignmentEpoch
  assignedWorkers := task.assignedWorkers
  candidateProducer := task.assignedWorkers.min?.getD 0
  packageHash := task.packageHash
  canonicalWorkPackage := task.canonicalWorkPackage
  bundleRef := task.bundleRef

/-- The worker is asked for a vote that it has not given. -/
def VoteTask.awaits (task : VoteTask) (workerId : WorkerId) : Bool :=
  decide (workerId ∈ task.assignedWorkers ∧ workerId ∉ task.submittedVotes)

/-- The vote of a task with a verdict. -/
def VoteTask.vote (task : VoteTask) (chainId : ChainId) (verdict : Verdict) : WorkerVoteV1 where
  workId := task.workId
  round := task.round
  assignmentEpoch := task.assignmentEpoch
  candidateReportHash := task.candidateReportHash
  verdict := verdict
  deadline := task.deadline
  chainId := chainId
  protocolVersion := protocolVersionV1

def prepareRefineBackedVoteWithNetworkDomain (J : Jambda) (c : Crypto)
    (state : ProtocolStateSource) (workerId : WorkerId) (pair : Pair) (chainId : ChainId)
    (coreIndex : UInt16) (task : VoteTask) (bundle : Bytes) (networkDomain : Hash) :
    Except WorkerError (Option PreparedVoteSubmission) :=
  if task.awaits workerId = false then .ok none
  else do
    Except.ensure (c.blake2_256 task.candidateReport = task.candidateReportHash)
      (.refine "candidate canonical report does not match its on-chain hash")
    let recomputed ← prepareCandidateEnvelopeWithNetworkDomain J c state chainId coreIndex
      task.workTask bundle networkDomain
    let candidateMetadata ← (J.projectReport task.candidateReport).mapError fun error =>
      .refine ("invalid candidate report projection: " ++ error)
    let verdict :=
      if recomputed.envelope.canonicalReportHash = task.candidateReportHash
        ∧ recomputed.envelope.projectedMetadata = candidateMetadata then .support
      else .oppose .invalidRefine
    pure (some (prepareVoteSubmission c workerId pair (task.vote chainId verdict)))

end Worker

end MiniJam
