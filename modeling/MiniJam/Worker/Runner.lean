import MiniJam.Jam.Tasks
import MiniJam.Worker.Prepare

/-!
# `MiniJam.Worker.Runner`: the loops that submit votes and candidates

A poll of the worker goes through the tasks that the chain shows, fetches the bundle of each task
that is its own, refines it and submits what it made. Each definition follows the function of the
same name in `crates/minijam-worker/src/lib.rs`.

What the chain and the fetcher answer during one poll is given. The storage of a poll is the list
of the extrinsics it has handed to the chain, in order. Metrics and diagnostics are left out.
-/

set_option autoImplicit false

namespace MiniJam.Worker

/-- A task of `decode_pending_work_tasks_response`. -/
def decodePendingWorkTask (task : WorkerTaskV1) : WorkTask where
  workId := task.workId
  round := task.round
  assignmentEpoch := task.assignmentEpoch
  assignedWorkers := task.assignedWorkers.toList
  candidateProducer := task.candidateProducer
  packageHash := task.packageHash
  canonicalWorkPackage := task.canonicalWorkPackage.toList
  bundleRef := task.bundleRef

/-- What the chain answers during one poll. -/
structure WorkerChain where
  pendingWorkTasks : Except WorkerError (List WorkTask)
  openVoteTasks : Except WorkerError (List VoteTask)
  accountNonce : PublicKey → Except WorkerError UInt32
  genesisHash : Except WorkerError Hash
  state : ProtocolStateSource
  submitRawExtrinsic : Extrinsic → Except WorkerError Hash

/-- A scheduler of the lane threads: it picks one of the results that they may return. -/
structure LaneScheduler (α : Type) where
  run : List WorkerTaskV2 → ExecutionLaneId → (WorkTask → Except WorkerError α) →
    List (LaneExecutionResult α)
  returns : ∀ tasks laneCount execute, laneCount > 0 →
    ExecuteTasksOnLanesScoped tasks laneCount execute (run tasks laneCount execute)

structure WorkerRunner where
  jambda : Jambda
  crypto : Crypto
  chain : WorkerChain
  /-- What the fetcher answers. The fetch is for the work and the round: one reference may be
  answered differently at different times. -/
  fetch : WorkId × AssignmentRound → ContentRef → Except WorkerEngine.FetchError Bytes
  decoder : WorkerEngine.WorkBundleDecoder
  maxBundleBytes : UInt64
  /-- The network domain of the environment. -/
  environment : Option Hash

/-- The worker is assigned to the work and has to produce its candidate. -/
def WorkTask.isProducer (task : WorkTask) (workerId : WorkerId) : Bool :=
  decide (workerId ∈ task.assignedWorkers ∧ task.candidateProducer = workerId)

/-- A poll with the extrinsics it has handed in. -/
abbrev Poll (α : Type) : Type := Tx (List Extrinsic) WorkerError α

namespace WorkerRunner

variable (runner : WorkerRunner)

def executionNetworkDomain : Except WorkerError Hash :=
  match runner.environment with
  | some networkDomain => .ok networkDomain
  | none => runner.chain.genesisHash

/-- The bundle of a task, fetched and verified. -/
def fetchBundle (request : WorkId × AssignmentRound) (bundleRef : ContentRef)
    (packageHash : Hash) : Except WorkerError Bytes := do
  let bundle ← (WorkerEngine.fetchVerifiedContent runner.crypto (runner.fetch request bundleRef)
    bundleRef runner.maxBundleBytes).mapError .fetch
  let _ ← (WorkerEngine.verifyWorkBundle runner.crypto bundleRef bundle runner.maxBundleBytes
    packageHash runner.decoder).mapError .bundle
  pure bundle

def submitRawExtrinsic (extrinsic : Extrinsic) : Poll Hash := do
  Tx.modify fun handed => handed ++ [extrinsic]
  Tx.lift (runner.chain.submitRawExtrinsic extrinsic)

section
variable (workerId : WorkerId) (pair : Pair) (chainId : ChainId) (coreIndex : UInt16)

/-! ### Votes -/

/-- The vote of one task: its bundle is fetched and verified, and the report refined. -/
def refineVote (networkDomain : Hash) (task : VoteTask) :
    Except WorkerError (Option PreparedVoteSubmission) := do
  let bundle ← runner.fetchBundle (task.workId, task.round) task.bundleRef task.packageHash
  prepareRefineBackedVoteWithNetworkDomain runner.jambda runner.crypto runner.chain.state workerId
    pair chainId coreIndex task bundle networkDomain

/-- The body of the loop over vote tasks. -/
def submitRefineVote (networkDomain : Hash) (task : VoteTask) : Poll (List Hash) := do
  let submission ← Tx.lift (runner.refineVote workerId pair chainId coreIndex networkDomain task)
  match submission with
  | none => pure []
  | some submission => do
    let hash ← runner.submitRawExtrinsic submission.extrinsic
    pure [hash]

def submitRefineVotes : Poll (List Hash) := do
  let tasks ← Tx.lift runner.chain.openVoteTasks
  let networkDomain ← Tx.lift runner.executionNetworkDomain
  let hashes ← Tx.mapEach
    (runner.submitRefineVote workerId pair chainId coreIndex networkDomain)
    (tasks.filter fun task => task.awaits workerId)
  pure hashes.flatten

/-! ### Candidates -/

/-- A task with its bundle. -/
def fetchCandidate (task : WorkTask) : Except WorkerError (WorkTask × Bytes) := do
  let bundle ← runner.fetchBundle (task.workId, task.round) task.bundleRef task.packageHash
  pure (task, bundle)

/-- What a lane executes. -/
def executeCandidate (genesisHash : Hash) (bundles : StorageMap WorkId Bytes) (task : WorkTask) :
    Except WorkerError PreparedCandidateSubmission := do
  let bundle ← Except.okOr (bundles.lookup task.workId)
    (.refine "candidate bundle missing from lane input")
  prepareCandidateEnvelopeWithNetworkDomain runner.jambda runner.crypto runner.chain.state chainId
    coreIndex task bundle genesisHash

/-- The loop over the executions, with the next nonce. -/
def submitCandidates (genesisHash : Hash) :
    UInt32 → List (LaneExecutionResult PreparedCandidateSubmission) → Poll (List Hash)
  | _, [] => pure []
  | nonce, execution :: executions => do
    let candidate ← Tx.lift execution.result
    let submission := prepareSignedCandidateSubmission pair nonce genesisHash candidate.envelope
    let hash ← runner.submitRawExtrinsic submission.extrinsic
    let hashes ← submitCandidates genesisHash (nonce.satAdd 1) executions
    pure (hash :: hashes)

def submitCandidateReportsWithLanes (scheduler : LaneScheduler PreparedCandidateSubmission)
    (executionLanes : ExecutionLaneId) : Poll (List Hash) := do
  Tx.ensure (executionLanes ≠ 0) (.refine "execution_lanes must be greater than zero")
  let tasks ← Tx.lift runner.chain.pendingWorkTasks
  let nonce ← Tx.lift (runner.chain.accountNonce pair.publicKey)
  let genesisHash ← Tx.lift runner.executionNetworkDomain
  let fetched ← Tx.lift
    ((tasks.filter fun task => task.isProducer workerId).mapM runner.fetchCandidate)
  let bundles : StorageMap WorkId Bytes :=
    fetched.foldl (fun bundles entry => bundles.insert entry.1.workId entry.2) ∅
  let laneTasks ← Tx.expect (assignTasksToLanes (fetched.map Prod.fst) executionLanes)
  let executions := scheduler.run laneTasks executionLanes
    (runner.executeCandidate chainId coreIndex genesisHash bundles)
  runner.submitCandidates pair genesisHash nonce (inWorkIdOrder executions)

end

end WorkerRunner

end MiniJam.Worker
