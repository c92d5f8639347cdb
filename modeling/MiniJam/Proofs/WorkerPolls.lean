import MiniJam.Lib.Log
import MiniJam.Proofs.Lanes
import MiniJam.Proofs.Recovery
import MiniJam.Proofs.RefineVotes
import MiniJam.Proofs.WorkSteps

/-!
# `MiniJam.Proofs.WorkerPolls`: what a poll of the worker hands to the chain

A poll ends at its first error, and what it has handed in by then stays. The votes are those of
the first tasks that await the worker, one for each, and none of them supports a report that the
worker has not recomputed from a bundle it has verified (`votes_recomputed`). The candidates, for
a worker that is shown the tasks of a state of the chain, are those of the first works the worker
produces for, in the order of the work ids, whatever the threads of the lanes do, with the nonces
of the account from the next one on (`candidates_numbered`).
-/

set_option autoImplicit false

namespace MiniJam.Worker

variable {J : Jambda} {c : Crypto} {state : ProtocolStateSource} {coreIndex : UInt16}
  {networkDomain : Hash} {workerId : WorkerId} {pair : Pair} {chainId : ChainId}

/-- What the chain shows. An error shows nothing. -/
def shown {α : Type} : Except WorkerError (List α) → List α
  | .ok tasks => tasks
  | .error _ => []

namespace WorkerRunner

variable (runner : WorkerRunner)

theorem submitRawExtrinsic_logs {α : Type} {V : α → Extrinsic → Prop} {a : α} {x : Extrinsic}
    (h : V a x) : Tx.Logs V [a] (runner.submitRawExtrinsic x) :=
  Tx.Logs.entry h _

/-! ### Votes -/

/-- The vote of a task with the verdict on a recomputed report: the bundle was fetched and
verified, the report was refined from it, and the verdict compares it with the candidate. -/
def Votes (workerId : WorkerId) (pair : Pair) (chainId : ChainId) (coreIndex : UInt16)
    (task : VoteTask) (x : Extrinsic) : Prop :=
  ∃ networkDomain bytes bundle output metadata candidateMetadata,
    runner.executionNetworkDomain = .ok networkDomain ∧
    runner.fetchBundle (task.workId, task.round) task.bundleRef task.packageHash = .ok bytes ∧
    runner.jambda.decodeBundle bytes = .ok (bundle, []) ∧
    Refines runner.jambda runner.chain.state coreIndex networkDomain task.canonicalWorkPackage
      bundle output metadata ∧
    runner.jambda.projectReport task.candidateReport = .ok candidateMetadata ∧
    runner.crypto.blake2_256 task.candidateReport = task.candidateReportHash ∧
    x = (prepareVoteSubmission runner.crypto workerId pair (task.vote chainId
      (verdictOn runner.crypto task output metadata candidateMetadata))).extrinsic

end WorkerRunner

/-- What an answer to a task was made from. -/
theorem recomputed_of_answered {task : VoteTask} {bytes : Bytes} {answer : PreparedVoteSubmission}
    (hawaits : task.awaits workerId = true)
    (h : prepareRefineBackedVoteWithNetworkDomain J c state workerId pair chainId coreIndex task
      bytes networkDomain = .ok (some answer)) :
    ∃ bundle output metadata candidateMetadata, J.decodeBundle bytes = .ok (bundle, []) ∧
      Refines J state coreIndex networkDomain task.canonicalWorkPackage bundle output metadata ∧
      J.projectReport task.candidateReport = .ok candidateMetadata ∧
      c.blake2_256 task.candidateReport = task.candidateReportHash ∧
      answer = prepareVoteSubmission c workerId pair (task.vote chainId
        (verdictOn c task output metadata candidateMetadata)) := by
  obtain ⟨prepared, candidateMetadata, hprepared, hprojected⟩ := prepared_of_answered hawaits h
  obtain ⟨bundle, hchecked, -⟩ := Except.bind_ok_iff.mp hprepared
  obtain ⟨⟨decoded, raw⟩, hdecoded, hchecks⟩ := Except.bind_ok_iff.mp hchecked
  obtain ⟨rfl, hrest⟩ := Except.ensure_bind_ok_iff.mp hchecks
  have hdecoded := Except.mapError_ok_iff.mp hdecoded
  -- The other checks of the bundle leave what was decoded.
  obtain rfl : decoded = bundle := by
    obtain ⟨-, hrest⟩ := Except.ensure_bind_ok_iff.mp hrest
    obtain ⟨-, hrest⟩ := Except.ensure_bind_ok_iff.mp hrest
    obtain ⟨-, hrest⟩ := Except.ensure_bind_ok_iff.mp hrest
    obtain ⟨-, hrest⟩ := Except.ensure_bind_ok_iff.mp hrest
    cases hrest
    rfl
  obtain ⟨output, metadata, hrefines⟩ := refines_of_prepared hdecoded hprepared
  have hcandidate : c.blake2_256 task.candidateReport = task.candidateReportHash := by
    unfold prepareRefineBackedVoteWithNetworkDomain at h
    rw [if_neg (by simp [hawaits])] at h
    exact (Except.ensure_bind_ok_iff.mp h).1
  have hanswer := answer_of_refines workerId pair chainId hawaits hcandidate hchecked hrefines
    hprojected
  cases h.symm.trans hanswer
  exact ⟨decoded, output, metadata, candidateMetadata, hdecoded, hrefines, hprojected, hcandidate,
    rfl⟩

/-- A poll hands in the votes of the first tasks that await the worker, in their order and one for
each. When it returns, it has handed in all of them. -/
theorem votes_recomputed (runner : WorkerRunner) (workerId : WorkerId) (pair : Pair)
    (chainId : ChainId) (coreIndex : UInt16) :
    Tx.Logs (runner.Votes workerId pair chainId coreIndex)
      ((shown runner.chain.openVoteTasks).filter fun task => task.awaits workerId)
      (runner.submitRefineVotes workerId pair chainId coreIndex) := by
  refine Tx.Logs.lift_bind fun tasks htasks => Tx.Logs.lift_bind fun networkDomain hdomain => ?_
  rw [htasks]
  have hloop : Tx.Logs (runner.Votes workerId pair chainId coreIndex)
      (tasks.filter fun task => task.awaits workerId) (Tx.mapEach
        (runner.submitRefineVote workerId pair chainId coreIndex networkDomain)
        (tasks.filter fun task => task.awaits workerId)) := by
    refine Tx.Logs.mapEach fun task htask => Tx.Logs.lift_bind fun answer hanswer => ?_
    have hawaits := (List.mem_filter.mp htask).2
    obtain ⟨bytes, hfetched, hanswer⟩ := Except.bind_ok_iff.mp hanswer
    cases answer with
    | none =>
      -- A task that awaits the worker is answered or fails.
      unfold prepareRefineBackedVoteWithNetworkDomain at hanswer
      rw [if_neg (by simp [hawaits])] at hanswer
      obtain ⟨-, hanswer⟩ := Except.ensure_bind_ok_iff.mp hanswer
      obtain ⟨_, -, hanswer⟩ := Except.bind_ok_iff.mp hanswer
      obtain ⟨_, -, hanswer⟩ := Except.bind_ok_iff.mp hanswer
      cases hanswer
    | some submission =>
      obtain ⟨bundle, output, metadata, candidateMetadata, hdecoded, hrefines, hprojected,
        hcandidate, rfl⟩ := recomputed_of_answered hawaits hanswer
      exact (runner.submitRawExtrinsic_logs ⟨networkDomain, bytes, bundle, output, metadata,
        candidateMetadata, hdomain, hfetched, hdecoded, hrefines, hprojected, hcandidate,
        rfl⟩).bind fun hash => Tx.Logs.pure [hash]
  have hboth := hloop.bind fun hashes => Tx.Logs.pure (ε := WorkerError) hashes.flatten
  rwa [List.append_nil] at hboth

/-! ### Candidates -/

/-- The items with the nonces from one on. -/
def withNonces {α : Type} : UInt32 → List α → List (α × UInt32)
  | _, [] => []
  | nonce, a :: as => (a, nonce) :: withNonces (nonce.satAdd 1) as

/-- The works whose candidate the worker has to produce, in the order of their ids. -/
def produced (workerId : WorkerId) (tasks : List WorkTask) : List WorkTask :=
  sortByKey (fun task => task.workId.toNat) (tasks.filter fun task => task.isProducer workerId)

/-- The results of the lanes, in the order in which they are submitted, are those of the tasks in
the order of their works. -/
theorem LaneScheduler.results_in_order {α : Type} (scheduler : LaneScheduler α)
    {tasks : List WorkTask} {laneCount : ExecutionLaneId} (hlanes : laneCount > 0)
    (hids : (tasks.map WorkTask.workId).Nodup) (execute : WorkTask → Except WorkerError α) :
    (inWorkIdOrder (scheduler.run (sortByKey WorkerTaskV2.key (tasks.map (inLane laneCount)))
        laneCount execute)).map LaneExecutionResult.result
      = (sortByKey (fun task => task.workId.toNat) tasks).map execute := by
  have hreturn := scheduler.returns (sortByKey WorkerTaskV2.key (tasks.map (inLane laneCount)))
    laneCount execute hlanes
  have horder := (laneResults_of_return hids (assignTasksToLanes_eq tasks hlanes) hreturn).inOrder
  have hresults := congrArg (List.map Prod.snd) horder
  unfold executeInOrder at hresults
  rw [List.map_map, List.map_map] at hresults
  exact hresults

namespace WorkerRunner

variable {runner : WorkerRunner}

/-- The candidate of a task, made from the bundle of that task, with a nonce. -/
def Submits (runner : WorkerRunner) (pair : Pair) (chainId : ChainId) (coreIndex : UInt16)
    (item : WorkTask × UInt32) (x : Extrinsic) : Prop :=
  ∃ genesisHash bytes prepared, runner.executionNetworkDomain = .ok genesisHash ∧
    runner.fetchBundle (item.1.workId, item.1.round) item.1.bundleRef item.1.packageHash
      = .ok bytes ∧
    prepareCandidateEnvelopeWithNetworkDomain runner.jambda runner.crypto runner.chain.state
      chainId coreIndex item.1 bytes genesisHash = .ok prepared ∧
    x = .submitCandidate pair.publicKey item.2 genesisHash prepared.envelope

variable {fetched : List (WorkTask × Bytes)} {tasks : List WorkTask}

/-- The tasks are fetched in order, each with its bundle. -/
theorem fetchCandidates_ok (h : tasks.mapM runner.fetchCandidate = .ok fetched) :
    fetched.map Prod.fst = tasks ∧ ∀ entry ∈ fetched,
      runner.fetchBundle (entry.1.workId, entry.1.round) entry.1.bundleRef entry.1.packageHash
        = .ok entry.2 := by
  have hall := Except.mapM_ok_iff.mp h
  clear h
  induction hall with
  | nil => exact ⟨rfl, nofun⟩
  | cons hfirst _ ih =>
    obtain ⟨bundle, hbundle, hpure⟩ := Except.bind_ok_iff.mp hfirst
    cases hpure
    exact ⟨congrArg _ ih.1, List.forall_mem_cons.mpr ⟨hbundle, ih.2⟩⟩

/-- The bundle that a lane finds under the id of a task is the one fetched for the task. -/
theorem mem_of_lookup_bundles {task : WorkTask} {bytes : Bytes}
    (hids : ((fetched.map Prod.fst).map WorkTask.workId).Nodup)
    (htask : task ∈ fetched.map Prod.fst)
    (h : (fetched.foldl (fun (bundles : StorageMap WorkId Bytes) entry =>
      bundles.insert entry.1.workId entry.2) ∅).lookup task.workId = some bytes) :
    (task, bytes) ∈ fetched := by
  obtain ⟨entry, hentry, rfl⟩ := List.mem_map.mp htask
  rw [List.map_map] at hids
  have hkeys : ((fetched.map fun entry => (entry.1.workId, entry.2)).map Prod.fst).Nodup := by
    rwa [List.map_map]
  have hfold : ((fetched.map fun entry => (entry.1.workId, entry.2)).foldl
      (fun (bundles : StorageMap WorkId Bytes) entry => bundles.insert entry.1 (id entry.2))
      ∅).lookup entry.1.workId = some bytes := by
    rwa [List.foldl_map]
  have h := (lookup_foldl_insert id hkeys ∅).mp hfold
  rcases h with ⟨v, hmem, rfl⟩ | ⟨-, h⟩
  · obtain ⟨found, hfound, heq⟩ := List.mem_map.mp hmem
    obtain ⟨hid, rfl⟩ := Prod.mk.inj heq
    obtain rfl := List.inj_on_of_nodup_map hids hfound hentry hid
    exact hfound
  · cases h

theorem submitCandidates_logs {genesisHash : Hash}
    {executions : List (LaneExecutionResult PreparedCandidateSubmission)}
    {execute : WorkTask → Except WorkerError PreparedCandidateSubmission}
    (hresults : executions.map LaneExecutionResult.result = tasks.map execute)
    (hmade : ∀ task ∈ tasks, ∀ prepared, execute task = .ok prepared → ∀ nonce,
      runner.Submits pair chainId coreIndex (task, nonce)
        (.submitCandidate pair.publicKey nonce genesisHash prepared.envelope)) (nonce : UInt32) :
    Tx.Logs (runner.Submits pair chainId coreIndex) (withNonces nonce tasks)
      (runner.submitCandidates pair genesisHash nonce executions) := by
  induction tasks generalizing executions nonce with
  | nil =>
    obtain rfl := List.map_eq_nil_iff.mp hresults
    exact Tx.Logs.pure []
  | cons task tasks ih =>
    obtain ⟨execution, executions, rfl, hresult, hresults⟩ := List.map_eq_cons_iff.mp hresults
    refine Tx.Logs.lift_bind fun prepared hprepared => ?_
    have hx := hmade task List.mem_cons_self prepared (hresult.symm.trans hprepared) nonce
    have hrest := ih hresults (fun task' htask' => hmade task' (List.mem_cons_of_mem _ htask'))
      (nonce.satAdd 1)
    have hboth := (runner.submitRawExtrinsic_logs hx).bind fun hash => hrest.bind fun hashes =>
      Tx.Logs.pure (hash :: hashes)
    rwa [List.append_nil] at hboth

end WorkerRunner

/-- The candidates of a poll, when no two tasks are of one work. -/
theorem submitCandidateReportsWithLanes_logs {runner : WorkerRunner}
    (scheduler : LaneScheduler PreparedCandidateSubmission) (executionLanes : ExecutionLaneId)
    {shown : List WorkTask} (hshown : runner.chain.pendingWorkTasks = .ok shown)
    {nonce : UInt32} (hnonce : runner.chain.accountNonce pair.publicKey = .ok nonce)
    (hids : ((shown.filter fun task => task.isProducer workerId).map WorkTask.workId).Nodup) :
    Tx.Logs (runner.Submits pair chainId coreIndex)
      (withNonces nonce (produced workerId shown))
      (runner.submitCandidateReportsWithLanes workerId pair chainId coreIndex scheduler
        executionLanes) := by
  refine Tx.Logs.ensure_bind fun hlanes => Tx.Logs.lift_bind fun tasks htasks =>
    Tx.Logs.lift_bind fun nonce' hnonce' => Tx.Logs.lift_bind fun genesisHash hdomain =>
    Tx.Logs.lift_bind fun fetched hfetched => ?_
  cases hshown.symm.trans htasks
  cases hnonce.symm.trans hnonce'
  obtain ⟨hfst, hbundle⟩ := WorkerRunner.fetchCandidates_ok hfetched
  unfold produced
  rw [← hfst] at hids ⊢
  have hpos : executionLanes > 0 := UInt16.pos_iff_ne_zero.mpr hlanes
  rw [assignTasksToLanes_eq _ hpos]
  refine WorkerRunner.submitCandidates_logs (scheduler.results_in_order hpos hids _)
    (fun task htask prepared hprepared nonce => ?_) nonce
  obtain ⟨bytes, hlookup, hprepared⟩ := Except.bind_ok_iff.mp hprepared
  have hmem := WorkerRunner.mem_of_lookup_bundles hids ((sortByKey_perm _ _).mem_iff.mp htask)
    (Except.okOr_ok_iff.mp hlookup)
  exact ⟨genesisHash, bytes, prepared, hdomain, hbundle _ hmem, hprepared, rfl⟩

/-! ### Candidates for the works of the chain -/

section
variable {AccountId Ledger : Type} {T : Jam.Config AccountId Ledger} {s : Jam.State T}

theorem pendingWorkerTask_id {id : WorkId} {task : WorkerTaskV1}
    (h : Jam.pendingWorkerTask s id = some task) : task.workId = id := by
  simp only [Jam.pendingWorkerTask, Option.bind_eq_bind, Option.bind_eq_some_iff] at h
  obtain ⟨work, -, h⟩ := h
  split_ifs at h
  simp only [Option.bind_eq_some_iff] at h
  obtain ⟨package, -, assignment, -, assigned, -, producer, -, epoch, -, htask⟩ := h
  cases htask
  rfl

variable [DecidableEq AccountId] {h : Chain.History T}

/-- The chain shows a work once. -/
theorem pendingWorkerTasks_nodup (hr : Chain.Run T h s) :
    ((Jam.pendingWorkerTasks s).map WorkerTaskV1.workId).Nodup := by
  refine ((sortByKey_perm _ _).map _).nodup_iff.mpr ?_
  rw [List.map_filterMap]
  refine List.Nodup.filterMap (fun id id' shown hid hid' => ?_)
    (Jam.workRun_of_run hr).pendingInv.nodup
  obtain ⟨task, htask, rfl⟩ := Option.map_eq_some_iff.mp hid
  obtain ⟨task', htask', heq⟩ := Option.map_eq_some_iff.mp hid'
  rw [← pendingWorkerTask_id htask, ← pendingWorkerTask_id htask', heq]

/-- A worker that is shown the tasks of a state of the chain hands in the candidates of the first
works it produces for, in the order of the work ids, with the nonces of the account from the next
one on. -/
theorem candidates_numbered (hr : Chain.Run T h s) (runner : WorkerRunner)
    (scheduler : LaneScheduler PreparedCandidateSubmission) (workerId : WorkerId) (pair : Pair)
    (chainId : ChainId) (coreIndex : UInt16) (executionLanes : ExecutionLaneId)
    (hshown : runner.chain.pendingWorkTasks
      = .ok ((Jam.pendingWorkerTasks s).map decodePendingWorkTask)) {nonce : UInt32}
    (hnonce : runner.chain.accountNonce pair.publicKey = .ok nonce) :
    Tx.Logs (runner.Submits pair chainId coreIndex)
      (withNonces nonce (produced workerId
        ((Jam.pendingWorkerTasks s).map decodePendingWorkTask)))
      (runner.submitCandidateReportsWithLanes workerId pair chainId coreIndex scheduler
        executionLanes) := by
  refine submitCandidateReportsWithLanes_logs scheduler executionLanes hshown hnonce ?_
  have hids : (((Jam.pendingWorkerTasks s).map decodePendingWorkTask).map
      WorkTask.workId).Nodup := by
    rw [List.map_map]
    exact pendingWorkerTasks_nodup hr
  exact hids.sublist (List.filter_sublist.map _)

end

/-! ### A poll that returns -/

namespace WorkerRunner

variable {runner : WorkerRunner}

/-- The loop returns when every execution has a candidate and the chain takes it. -/
theorem submitCandidates_returns (pair : Pair) (genesisHash : Hash)
    (hsubmits : ∀ x, ∃ hash, runner.chain.submitRawExtrinsic x = .ok hash)
    {executions : List (LaneExecutionResult PreparedCandidateSubmission)}
    (hok : ∀ result ∈ executions.map LaneExecutionResult.result, ∃ prepared, result = .ok prepared)
    (nonce : UInt32) (handed : List Extrinsic) : ∃ hashes handed',
      runner.submitCandidates pair genesisHash nonce executions handed = .ok hashes handed' := by
  induction executions generalizing nonce handed with
  | nil => exact ⟨[], handed, rfl⟩
  | cons execution executions ih =>
    obtain ⟨⟨prepared, hprepared⟩, hrest⟩ := List.forall_mem_cons.mp hok
    have hx := hsubmits (prepareSignedCandidateSubmission pair nonce genesisHash
      prepared.envelope).extrinsic
    obtain ⟨hash, hhash⟩ := hx
    obtain ⟨hashes, handed', hloop⟩ := ih hrest (nonce.satAdd 1) (handed ++
      [(prepareSignedCandidateSubmission pair nonce genesisHash prepared.envelope).extrinsic])
    refine ⟨hash :: hashes, handed', ?_⟩
    unfold submitCandidates submitRawExtrinsic
    rw [hprepared]
    refine Tx.bind_ok.mpr ⟨prepared, handed, rfl, Tx.bind_ok.mpr ⟨hash, _, ?_,
      Tx.bind_ok.mpr ⟨hashes, handed', hloop, rfl⟩⟩⟩
    rw [Tx.modify_bind_apply, hhash]
    rfl

/-- A poll returns when the bundles of its tasks are fetched and refined, and the chain takes the
candidates. -/
theorem submitCandidateReportsWithLanes_returns (runner : WorkerRunner) (pair : Pair)
    (scheduler : LaneScheduler PreparedCandidateSubmission) {executionLanes : ExecutionLaneId}
    (hlanes : executionLanes ≠ 0)
    (hsubmits : ∀ x, ∃ hash, runner.chain.submitRawExtrinsic x = .ok hash)
    {tasks : List WorkTask} (htasks : runner.chain.pendingWorkTasks = .ok tasks)
    {nonce : UInt32} (hnonce : runner.chain.accountNonce pair.publicKey = .ok nonce)
    {genesisHash : Hash} (hdomain : runner.executionNetworkDomain = .ok genesisHash)
    {fetched : List (WorkTask × Bytes)} (hfetched : (tasks.filter fun task =>
      task.isProducer workerId).mapM runner.fetchCandidate = .ok fetched)
    (hids : ((fetched.map Prod.fst).map WorkTask.workId).Nodup)
    (hexecute : ∀ task ∈ fetched.map Prod.fst, ∃ prepared,
      runner.executeCandidate chainId coreIndex genesisHash (fetched.foldl (fun bundles entry =>
        bundles.insert entry.1.workId entry.2) ∅) task = .ok prepared) (handed : List Extrinsic) :
    ∃ hashes handed', runner.submitCandidateReportsWithLanes workerId pair chainId coreIndex
      scheduler executionLanes handed = .ok hashes handed' := by
  have hpos : executionLanes > 0 := UInt16.pos_iff_ne_zero.mpr hlanes
  have hresults := scheduler.results_in_order hpos hids
    (runner.executeCandidate chainId coreIndex genesisHash (fetched.foldl
      (fun bundles entry => bundles.insert entry.1.workId entry.2) ∅))
  obtain ⟨hashes, handed', hloop⟩ := submitCandidates_returns pair genesisHash hsubmits
    (fun result hresult => by
      rw [hresults] at hresult
      obtain ⟨task, htask, rfl⟩ := List.mem_map.mp hresult
      exact hexecute task ((sortByKey_perm _ _).mem_iff.mp htask)) nonce handed
  refine ⟨hashes, handed', Tx.ensure_bind_ok.mpr ⟨hlanes, ?_⟩⟩
  refine Tx.lift_bind_ok.mpr ⟨tasks, htasks, Tx.lift_bind_ok.mpr ⟨nonce, hnonce, ?_⟩⟩
  refine Tx.lift_bind_ok.mpr ⟨genesisHash, hdomain, Tx.lift_bind_ok.mpr ⟨fetched, hfetched, ?_⟩⟩
  exact Tx.expect_bind_ok.mpr ⟨_, assignTasksToLanes_eq _ hpos, hloop⟩

end WorkerRunner

/-- The threads have some schedule. -/
theorem exists_laneScheduler {α : Type} : Nonempty (LaneScheduler α) := by
  have hrun : ∀ (tasks : List WorkerTaskV2) (laneCount : ExecutionLaneId)
      (execute : WorkTask → Except WorkerError α), ∃ results, laneCount > 0 →
        ExecuteTasksOnLanesScoped tasks laneCount execute results := by
    intro tasks laneCount execute
    by_cases hlanes : laneCount > 0
    · obtain ⟨results, hresults⟩ := exists_lanesReturn false execute tasks hlanes
      exact ⟨results, fun _ => hresults⟩
    · exact ⟨[], fun h => absurd h hlanes⟩
  choose run hreturns using hrun
  exact ⟨⟨run, hreturns⟩⟩

section
open Reference

/-- A package of this slot. -/
def slotPackage (slot : UInt32) : Jambda.WorkPackage :=
  { emptyPackage [] with context := { (emptyPackage []).context with lookupAnchorSlot := slot } }

/-- Two works, as the chain shows them to the worker, and their bundles. -/
def twoPackages : List (WorkId × Jambda.WorkPackage) := [(0, slotPackage 3), (1, slotPackage 4)]

def twoWorks : List WorkTask :=
  twoPackages.map fun (workId, package) => (voteTask workId package []).workTask

def twoBundles : List (WorkId × Bytes) :=
  twoPackages.map fun (workId, package) => (workId, bundleCodec.encode (bundleOf package))

/-- The submission of a package. -/
def submitPackage (package : Jambda.WorkPackage) : Action (runtime consumeAll) :=
  .extrinsic (.signed alice) (.submitWork (BoundedVec.takeFrom (packageCodec.encode package))
    (contentRefOf (bundleCodec.encode (bundleOf package))))

/-- Two works are submitted, and their producer is shown them. Its poll fetches both bundles and
hands in both candidates, whatever the threads of the lanes do. -/
theorem candidates_numbered_two_works : ∃ h s, Chain.Run (runtime consumeAll) h s ∧
    (Jam.pendingWorkerTasks s).map decodePendingWorkTask = twoWorks ∧
    Nonempty (LaneScheduler PreparedCandidateSubmission) ∧ ∀ scheduler, ∃ hashes first second,
      (runner [] twoWorks twoBundles).submitCandidateReportsWithLanes 0 Reference.pair
        (FixedBytes.fill 32 42) 0 scheduler 2 [] = .ok hashes [first, second] ∧
      List.Forall₂
        ((runner [] twoWorks twoBundles).Submits Reference.pair (FixedBytes.fill 32 42) 0)
        (withNonces 0 twoWorks) [first, second] := by
  obtain ⟨h, s, hrun, hshown⟩ := exists_run (runtime consumeAll)
    (twoPackages.map fun entry => submitPackage entry.2)
    (fun s => (Jam.pendingWorkerTasks s).map decodePendingWorkTask = twoWorks) (by decide +kernel)
  refine ⟨h, s, hrun, hshown, exists_laneScheduler, fun scheduler => ?_⟩
  -- Both bundles are there and both can be refined.
  have hfetched : ∃ fetched, (twoWorks.filter fun task => task.isProducer 0).mapM
      (runner [] twoWorks twoBundles).fetchCandidate = .ok fetched ∧
      ((fetched.map Prod.fst).map WorkTask.workId).Nodup ∧
      ∀ task ∈ fetched.map Prod.fst, ∃ prepared, (runner [] twoWorks twoBundles).executeCandidate
        (FixedBytes.fill 32 42) 0 (FixedBytes.fill 32 0) (fetched.foldl (fun bundles entry =>
          bundles.insert entry.1.workId entry.2) ∅) task = .ok prepared := by
    decide +kernel
  obtain ⟨fetched, hfetched, hids, hexecute⟩ := hfetched
  obtain ⟨hashes, handed, hpoll⟩ := WorkerRunner.submitCandidateReportsWithLanes_returns
    (runner [] twoWorks twoBundles) _ scheduler (show (2 : ExecutionLaneId) ≠ 0 by decide)
    (fun _ => ⟨_, rfl⟩) rfl rfl rfl hfetched hids hexecute []
  have hlogs := candidates_numbered hrun (runner [] twoWorks twoBundles) scheduler 0 Reference.pair
    (FixedBytes.fill 32 42) 0 2 (congrArg Except.ok hshown.symm) rfl
  rw [hshown, show produced 0 twoWorks = twoWorks by decide +kernel] at hlogs
  obtain ⟨new, rfl, hnew⟩ := (hlogs []).1 hashes handed hpoll
  obtain ⟨first, second, rfl⟩ := List.length_eq_two.mp hnew.length_eq.symm
  exact ⟨hashes, first, second, hpoll, hnew⟩

end

end MiniJam.Worker
