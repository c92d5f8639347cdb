import MiniJam.Worker.Reference

/-!
# `MiniJam.Proofs.RefineVotes`: what a worker answers to a vote task

A worker that is asked for a vote recomputes the report. When it can, it answers with a signed
vote, and the vote supports the candidate exactly when the recomputed report is the candidate.
The recomputation has many ways to fail, and each of them is passed on as an error: the worker
then answers nothing, although the task and the bundle decide that the candidate is wrong.
-/

set_option autoImplicit false

namespace MiniJam.Worker

variable {J : Jambda} {c : Crypto} {state : ProtocolStateSource} {coreIndex : UInt16}
  {networkDomain : Hash}

/-! ### The checks that the verification has made -/

variable {bytes : Bytes}

/-- A bundle that was verified decodes, without trailing bytes, to a bundle of the current version
with the package hash of the task. -/
theorem decoded_of_verified {reference : ContentRef} {maxBytes : UInt64} {packageHash : Hash}
    {verified : WorkerEngine.VerifiedWorkBundle}
    (h : WorkerEngine.verifyWorkBundle c reference bytes maxBytes packageHash
      (WorkerEngine.miniJamWorkBundleDecoder J) = .ok verified) :
    ∃ bundle, J.decodeBundle bytes = .ok (bundle, []) ∧ bundle.version = J.bundleVersionV1 ∧
      J.packageHashMatches bundle = true ∧ bundle.packageHash = packageHash := by
  obtain ⟨_, -, h⟩ := Except.bind_ok_iff.mp h
  obtain ⟨hash, hdecoder, h⟩ := Except.bind_ok_iff.mp h
  obtain ⟨hhash, -⟩ := Except.ensure_bind_ok_iff.mp h
  obtain ⟨bundle, hbundle, hpure⟩ := Except.bind_ok_iff.mp (Except.mapError_ok_iff.mp hdecoder)
  obtain ⟨⟨decoded, input⟩, hdecode, hbundle⟩ := Except.bind_ok_iff.mp hbundle
  obtain ⟨hinput, hbundle⟩ := Except.ensure_bind_ok_iff.mp hbundle
  obtain ⟨hversion, hbundle⟩ := Except.ensure_bind_ok_iff.mp hbundle
  obtain ⟨hmatches, hbundle⟩ := Except.ensure_bind_ok_iff.mp hbundle
  cases hbundle
  cases hpure
  cases hinput
  exact ⟨bundle, Except.mapError_ok_iff.mp hdecode, hversion, hmatches, hhash⟩

/-! ### The recomputation -/

/-- The package uses the one authorization of Stage 0, on the one core. -/
def UsesStage0 (coreIndex : UInt16) (package : Jambda.WorkPackage) : Prop :=
  coreIndex = Stage0.coreIndex ∧ package.authCodeHost = Stage0.authCodeHost ∧
    package.authCodeHash = Stage0.authCodeHash ∧ package.authorization = [] ∧
    package.authorizerConfig = []

/-- The package of a bundle can be refined: it is the task's, it is authorized, its context is
accepted, and refining it gives a report that can be projected and fits into an envelope. -/
structure Refines (J : Jambda) (state : ProtocolStateSource) (coreIndex : UInt16)
    (networkDomain : Hash) (canonicalWorkPackage : Bytes) (bundle : Jambda.MiniJamWorkBundleV1)
    (output : Jambda.WorkReportOutput) (metadata : ReportMetadataV1) : Prop where
  package : J.encodeWorkPackage bundle.workPackage = canonicalWorkPackage
  stage0 : UsesStage0 coreIndex bundle.workPackage
  context : state.validateFinalizedContext (refineContext bundle.workPackage) = .ok ()
  loaded : J.loadFromDb (state.protocolStateValueAt bundle.workPackage.context.lookupAnchor)
    = .ok ()
  refined : J.computeWorkReport
    (state.protocolStateValueAt bundle.workPackage.context.lookupAnchor)
    (J.intoWorkReportInput bundle coreIndex) networkDomain = .ok output
  projected : J.projectReport output.report = .ok metadata
  fits : output.report.length ≤ 1048576

variable {bundle : Jambda.MiniJamWorkBundleV1} {task : WorkTask} {chainId : ChainId}
  {output : Jambda.WorkReportOutput} {metadata : ReportMetadataV1}

/-- The checks pass on a bundle that was verified, when its package is the task's and is
authorized. -/
theorem checkWorkBundle_of_decoded (hdecoded : J.decodeBundle bytes = .ok (bundle, []))
    (hversion : bundle.version = J.bundleVersionV1) (hmatches : J.packageHashMatches bundle = true)
    (hhash : bundle.packageHash = task.packageHash)
    (hpackage : J.encodeWorkPackage bundle.workPackage = task.canonicalWorkPackage)
    (hstage0 : UsesStage0 coreIndex bundle.workPackage) :
    checkWorkBundle J coreIndex task bytes = .ok bundle := by
  refine Except.bind_ok_iff.mpr ⟨(bundle, []), Except.mapError_ok_iff.mpr hdecoded, ?_⟩
  refine Except.ensure_bind_ok_iff.mpr ⟨rfl, ?_⟩
  refine Except.ensure_bind_ok_iff.mpr ⟨hversion, ?_⟩
  refine Except.ensure_bind_ok_iff.mpr ⟨⟨hmatches, hhash⟩, ?_⟩
  refine Except.ensure_bind_ok_iff.mpr ⟨hpackage, ?_⟩
  exact Except.ensure_bind_ok_iff.mpr ⟨hstage0, rfl⟩

/-- The envelope of a package that can be refined. -/
theorem prepareCandidateEnvelope_of_refines
    (hchecked : checkWorkBundle J coreIndex task bytes = .ok bundle)
    (h : Refines J state coreIndex networkDomain task.canonicalWorkPackage bundle output metadata) :
    prepareCandidateEnvelopeWithNetworkDomain J c state chainId coreIndex task bytes networkDomain
      = .ok ⟨reportEnvelope c chainId task ⟨output.report, h.fits⟩ metadata,
          output.exportedSegments.length⟩ := by
  have hfits : (BoundedVec.tryFrom output.report : Option CanonicalReportBytes)
      = some ⟨output.report, h.fits⟩ := BoundedVec.tryFrom_eq_some.mpr rfl
  refine Except.bind_ok_iff.mpr ⟨bundle, hchecked, ?_⟩
  refine Except.bind_ok_iff.mpr ⟨(), h.context, ?_⟩
  refine Except.bind_ok_iff.mpr ⟨(), Except.mapError_ok_iff.mpr h.loaded, ?_⟩
  refine Except.bind_ok_iff.mpr ⟨output, Except.mapError_ok_iff.mpr h.refined, ?_⟩
  refine Except.bind_ok_iff.mpr ⟨metadata, Except.mapError_ok_iff.mpr h.projected, ?_⟩
  exact Except.bind_ok_iff.mpr ⟨⟨output.report, h.fits⟩, Except.okOr_ok_iff.mpr hfits, rfl⟩

/-- What a worker prepares was refined from the bundle. -/
theorem refines_of_prepared {prepared : PreparedCandidateSubmission}
    (hbundle : J.decodeBundle bytes = .ok (bundle, []))
    (h : prepareCandidateEnvelopeWithNetworkDomain J c state chainId coreIndex task bytes
      networkDomain = .ok prepared) :
    ∃ output metadata,
      Refines J state coreIndex networkDomain task.canonicalWorkPackage bundle output metadata := by
  obtain ⟨bundle', hchecked, h⟩ := Except.bind_ok_iff.mp h
  obtain ⟨⟨decoded, raw⟩, hdecoded, hchecked⟩ := Except.bind_ok_iff.mp hchecked
  cases hbundle.symm.trans (Except.mapError_ok_iff.mp hdecoded)
  -- Of the five checks of the bundle the last two are kept.
  obtain ⟨-, hchecked⟩ := Except.ensure_bind_ok_iff.mp hchecked
  obtain ⟨-, hchecked⟩ := Except.ensure_bind_ok_iff.mp hchecked
  obtain ⟨-, hchecked⟩ := Except.ensure_bind_ok_iff.mp hchecked
  obtain ⟨hpackage, hchecked⟩ := Except.ensure_bind_ok_iff.mp hchecked
  obtain ⟨hstage0, hchecked⟩ := Except.ensure_bind_ok_iff.mp hchecked
  cases hchecked
  obtain ⟨_, hcontext, h⟩ := Except.bind_ok_iff.mp h
  obtain ⟨_, hloaded, h⟩ := Except.bind_ok_iff.mp h
  obtain ⟨output, hrefined, h⟩ := Except.bind_ok_iff.mp h
  obtain ⟨metadata, hprojected, h⟩ := Except.bind_ok_iff.mp h
  obtain ⟨report, hfits, -⟩ := Except.bind_ok_iff.mp h
  have hreport := BoundedVec.tryFrom_eq_some.mp (Except.okOr_ok_iff.mp hfits)
  refine ⟨output, metadata, hpackage, hstage0, hcontext, Except.mapError_ok_iff.mp hloaded,
    Except.mapError_ok_iff.mp hrefined, Except.mapError_ok_iff.mp hprojected, ?_⟩
  rw [← hreport]
  exact report.length_le

/-- The recomputed report and its metadata are determined. -/
theorem Refines.unique {canonicalWorkPackage : Bytes} {output' : Jambda.WorkReportOutput}
    {metadata' : ReportMetadataV1}
    (h : Refines J state coreIndex networkDomain canonicalWorkPackage bundle output metadata)
    (h' : Refines J state coreIndex networkDomain canonicalWorkPackage bundle output' metadata') :
    output' = output ∧ metadata' = metadata := by
  cases h.refined.symm.trans h'.refined
  cases h.projected.symm.trans h'.projected
  exact ⟨rfl, rfl⟩

/-! ### The answer -/

section
variable {workerId : WorkerId} {pair : Pair} {chainId : ChainId} {task : VoteTask} {bytes : Bytes}
  {candidateMetadata : ReportMetadataV1}

/-- The vote on a candidate, from a recomputed report. -/
theorem prepareRefineBackedVote_of_prepared {prepared : PreparedCandidateSubmission}
    (hawaits : task.awaits workerId = true)
    (hcandidate : c.blake2_256 task.candidateReport = task.candidateReportHash)
    (hprepared : prepareCandidateEnvelopeWithNetworkDomain J c state chainId coreIndex
      task.workTask bytes networkDomain = .ok prepared)
    (hprojected : J.projectReport task.candidateReport = .ok candidateMetadata) :
    prepareRefineBackedVoteWithNetworkDomain J c state workerId pair chainId coreIndex task bytes
        networkDomain
      = .ok (some (prepareVoteSubmission c workerId pair (task.vote chainId
          (if prepared.envelope.canonicalReportHash = task.candidateReportHash
            ∧ prepared.envelope.projectedMetadata = candidateMetadata then .support
          else .oppose .invalidRefine)))) := by
  unfold prepareRefineBackedVoteWithNetworkDomain
  rw [if_neg (by simp [hawaits])]
  refine Except.ensure_bind_ok_iff.mpr ⟨hcandidate, ?_⟩
  refine Except.bind_ok_iff.mpr ⟨prepared, hprepared, ?_⟩
  exact Except.bind_ok_iff.mpr ⟨candidateMetadata, Except.mapError_ok_iff.mpr hprojected, rfl⟩

/-- The parts of an answer. -/
theorem prepared_of_answered {submission : PreparedVoteSubmission}
    (hawaits : task.awaits workerId = true)
    (h : prepareRefineBackedVoteWithNetworkDomain J c state workerId pair chainId coreIndex task
      bytes networkDomain = .ok (some submission)) :
    ∃ prepared candidateMetadata,
      prepareCandidateEnvelopeWithNetworkDomain J c state chainId coreIndex task.workTask bytes
        networkDomain = .ok prepared ∧
      J.projectReport task.candidateReport = .ok candidateMetadata := by
  unfold prepareRefineBackedVoteWithNetworkDomain at h
  rw [if_neg (by simp [hawaits])] at h
  obtain ⟨-, h⟩ := Except.ensure_bind_ok_iff.mp h
  obtain ⟨prepared, hprepared, h⟩ := Except.bind_ok_iff.mp h
  obtain ⟨candidateMetadata, hprojected, -⟩ := Except.bind_ok_iff.mp h
  exact ⟨prepared, candidateMetadata, hprepared, Except.mapError_ok_iff.mp hprojected⟩

/-- The report that the worker recomputes is the candidate, and so is its metadata. -/
def Confirms (J : Jambda) (state : ProtocolStateSource) (coreIndex : UInt16) (networkDomain : Hash)
    (task : VoteTask) (bundle : Jambda.MiniJamWorkBundleV1) : Prop :=
  ∃ output metadata,
    Refines J state coreIndex networkDomain task.canonicalWorkPackage bundle output metadata ∧
      output.report = task.candidateReport ∧ J.projectReport task.candidateReport = .ok metadata

/-- The worker answers with a signed vote, which supports the candidate exactly if the recomputed
report is the candidate. -/
def Answers (J : Jambda) (c : Crypto) (state : ProtocolStateSource) (workerId : WorkerId)
    (pair : Pair) (chainId : ChainId) (coreIndex : UInt16) (networkDomain : Hash) (task : VoteTask)
    (bytes : Bytes) (bundle : Jambda.MiniJamWorkBundleV1) : Prop :=
  ∃ submission verdict,
    prepareRefineBackedVoteWithNetworkDomain J c state workerId pair chainId coreIndex task bytes
      networkDomain = .ok (some submission) ∧
    submission.workerId = workerId ∧
    submission.vote = task.vote chainId verdict ∧
    (verdict = .support ↔ Confirms J state coreIndex networkDomain task bundle) ∧
    submission.signature = pair.sign (submission.vote.signingHash c) ∧
    submission.extrinsic = .submitVote workerId submission.vote submission.signature

/-- The verdict on a candidate, from the recomputed report: the hashes are compared. -/
def verdictOn (c : Crypto) (task : VoteTask) (output : Jambda.WorkReportOutput)
    (metadata candidateMetadata : ReportMetadataV1) : Verdict :=
  if c.blake2_256 output.report = task.candidateReportHash ∧ metadata = candidateMetadata then
    .support
  else .oppose .invalidRefine

variable {output : Jambda.WorkReportOutput} {metadata : ReportMetadataV1}

theorem verdictOn_support_iff :
    verdictOn c task output metadata candidateMetadata = .support ↔
      c.blake2_256 output.report = task.candidateReportHash ∧ metadata = candidateMetadata := by
  unfold verdictOn
  split_ifs with h
  · simp [h]
  · simp [h]

variable (workerId pair chainId) in
/-- The answer to a task whose package can be refined and whose candidate can be projected. -/
theorem answer_of_refines (hawaits : task.awaits workerId = true)
    (hcandidate : c.blake2_256 task.candidateReport = task.candidateReportHash)
    (hchecked : checkWorkBundle J coreIndex task.workTask bytes = .ok bundle)
    (hrefines : Refines J state coreIndex networkDomain task.canonicalWorkPackage bundle output
      metadata) (hprojected : J.projectReport task.candidateReport = .ok candidateMetadata) :
    prepareRefineBackedVoteWithNetworkDomain J c state workerId pair chainId coreIndex task bytes
        networkDomain
      = .ok (some (prepareVoteSubmission c workerId pair (task.vote chainId
          (verdictOn c task output metadata candidateMetadata)))) :=
  prepareRefineBackedVote_of_prepared hawaits hcandidate
    (prepareCandidateEnvelope_of_refines hchecked hrefines) hprojected

/-- The candidate is confirmed if it is the recomputed report. -/
theorem confirms_iff
    (hrefines : Refines J state coreIndex networkDomain task.canonicalWorkPackage bundle output
      metadata) (hprojected : J.projectReport task.candidateReport = .ok candidateMetadata) :
    Confirms J state coreIndex networkDomain task bundle ↔
      output.report = task.candidateReport ∧ metadata = candidateMetadata := by
  constructor
  · rintro ⟨output', metadata', hrefines', hreport, hmetadata⟩
    obtain ⟨rfl, rfl⟩ := hrefines.unique hrefines'
    cases hmetadata.symm.trans hprojected
    exact ⟨hreport, rfl⟩
  · rintro ⟨hreport, rfl⟩
    exact ⟨output, metadata, hrefines, hreport, hprojected⟩

/-- The worker answers exactly the tasks whose package can be refined and whose candidate can be
projected, and does not collide with the recomputed report. On every other task that awaits it
there is no answer, or a wrong one. -/
theorem refine_vote_answered_iff {maxBytes : UInt64} {verified : WorkerEngine.VerifiedWorkBundle}
    {bundle : Jambda.MiniJamWorkBundleV1} (hawaits : task.awaits workerId = true)
    (hcandidate : c.blake2_256 task.candidateReport = task.candidateReportHash)
    (hverified : WorkerEngine.verifyWorkBundle c task.bundleRef bytes maxBytes task.packageHash
      (WorkerEngine.miniJamWorkBundleDecoder J) = .ok verified)
    (hbundle : J.decodeBundle bytes = .ok (bundle, [])) :
    Answers J c state workerId pair chainId coreIndex networkDomain task bytes bundle ↔
      ∃ output metadata candidateMetadata,
        Refines J state coreIndex networkDomain task.canonicalWorkPackage bundle output metadata ∧
          J.projectReport task.candidateReport = .ok candidateMetadata ∧
          (c.blake2_256 output.report = c.blake2_256 task.candidateReport →
            metadata = candidateMetadata → output.report = task.candidateReport) := by
  obtain ⟨decoded, hdecoded, hversion, hmatches, hhash⟩ := decoded_of_verified hverified
  cases hbundle.symm.trans hdecoded
  have hchecks : ∀ output metadata,
      Refines J state coreIndex networkDomain task.canonicalWorkPackage bundle output metadata →
      checkWorkBundle J coreIndex task.workTask bytes = .ok bundle := fun output metadata h =>
    checkWorkBundle_of_decoded hbundle hversion hmatches hhash h.package h.stage0
  constructor
  · rintro ⟨submission, verdict, hanswer, -, hvote, hsupport, -, -⟩
    obtain ⟨prepared, candidateMetadata, hprepared, hprojected⟩ :=
      prepared_of_answered hawaits hanswer
    obtain ⟨output, metadata, hrefines⟩ := refines_of_prepared hbundle hprepared
    refine ⟨output, metadata, candidateMetadata, hrefines, hprojected, fun hsame hmetadata => ?_⟩
    -- The hashes and the metadata agree, so the answer is support, and it is right.
    have hcomputed := answer_of_refines workerId pair chainId hawaits hcandidate
      (hchecks output metadata hrefines) hrefines hprojected
    cases hanswer.symm.trans hcomputed
    have hverdict : verdictOn c task output metadata candidateMetadata = verdict :=
      congrArg WorkerVoteV1.verdict hvote
    have hconfirms := hsupport.mp (hverdict.symm.trans
      (verdictOn_support_iff.mpr ⟨hsame.trans hcandidate, hmetadata⟩))
    exact ((confirms_iff hrefines hprojected).mp hconfirms).1
  · rintro ⟨output, metadata, candidateMetadata, hrefines, hprojected, hcollision⟩
    refine ⟨_, _, answer_of_refines workerId pair chainId hawaits hcandidate
      (hchecks output metadata hrefines) hrefines hprojected, rfl, rfl, ?_, rfl, rfl⟩
    rw [verdictOn_support_iff, confirms_iff hrefines hprojected, ← hcandidate]
    constructor
    · rintro ⟨hsame, hmetadata⟩
      exact ⟨hcollision hsame hmetadata, hmetadata⟩
    · rintro ⟨hreport, hmetadata⟩
      exact ⟨congrArg c.blake2_256 hreport, hmetadata⟩

end

section
open Reference

/-- The bytes of the bundle of a package. -/
def bundleBytes (package : Jambda.WorkPackage) : Bytes := bundleCodec.encode (bundleOf package)

/-- The voting on a report that is the recomputed one. -/
def honestTask : VoteTask :=
  voteTask 7 (emptyPackage []) (1 :: packageCodec.encode (emptyPackage []))

/-- The voting on a report of a package with an authorization of its own. -/
def unauthorizedTask : VoteTask := voteTask 7 (emptyPackage [1]) [2]

/-- A candidate that is the recomputed report is answered, and the answer supports it. -/
theorem refine_vote_answered_iff_honest :
    Answers (jambda refineAll) crypto stateSource 0 Reference.pair (FixedBytes.fill 32 42) 0
        (FixedBytes.fill 32 0) honestTask (bundleBytes (emptyPackage []))
        (bundleOf (emptyPackage [])) ∧
      Confirms (jambda refineAll) stateSource 0 (FixedBytes.fill 32 0) honestTask
        (bundleOf (emptyPackage [])) := by
  have hawaits : honestTask.awaits 0 = true := by decide
  have hverified : WorkerEngine.verifyWorkBundle crypto honestTask.bundleRef
      (bundleBytes (emptyPackage [])) 4096 honestTask.packageHash
      (WorkerEngine.miniJamWorkBundleDecoder (jambda refineAll))
        = .ok ⟨bundleBytes (emptyPackage []), honestTask.packageHash⟩ := by decide +kernel
  have hbundle : (jambda refineAll).decodeBundle (bundleBytes (emptyPackage []))
      = .ok (bundleOf (emptyPackage []), []) := by decide +kernel
  have hprojected : (jambda refineAll).projectReport honestTask.candidateReport
      = .ok ⟨digest 32 (packageCodec.encode (emptyPackage [])), digest 32 [1],
          FixedBytes.fill 32 0, 1⟩ := rfl
  have hrefines : Refines (jambda refineAll) stateSource 0 (FixedBytes.fill 32 0)
      honestTask.canonicalWorkPackage (bundleOf (emptyPackage []))
      ⟨honestTask.candidateReport, []⟩
      ⟨digest 32 (packageCodec.encode (emptyPackage [])), digest 32 [1], FixedBytes.fill 32 0, 1⟩ :=
    ⟨rfl, ⟨rfl, rfl, rfl, rfl, rfl⟩, rfl, rfl, rfl, hprojected, by decide +kernel⟩
  have hcandidate : crypto.blake2_256 honestTask.candidateReport
      = honestTask.candidateReportHash := rfl
  exact ⟨(refine_vote_answered_iff hawaits hcandidate hverified hbundle).mpr
    ⟨_, _, _, hrefines, hprojected, fun _ _ => rfl⟩,
    (confirms_iff hrefines hprojected).mpr ⟨rfl, rfl⟩⟩

/-- The bundle was verified, and its package uses an authorization of its own. No report can be
recomputed from it, so the candidate is wrong. The worker does not oppose it: it answers with an
error. -/
theorem unauthorized_task_unanswered :
    unauthorizedTask.awaits 0 = true ∧
      crypto.blake2_256 unauthorizedTask.candidateReport = unauthorizedTask.candidateReportHash ∧
      WorkerEngine.verifyWorkBundle crypto unauthorizedTask.bundleRef
        (bundleBytes (emptyPackage [1])) 4096 unauthorizedTask.packageHash
        (WorkerEngine.miniJamWorkBundleDecoder (jambda refineAll))
          = .ok ⟨bundleBytes (emptyPackage [1]), unauthorizedTask.packageHash⟩ ∧
      prepareRefineBackedVoteWithNetworkDomain (jambda refineAll) crypto stateSource 0
        Reference.pair (FixedBytes.fill 32 42) 0 unauthorizedTask (bundleBytes (emptyPackage [1]))
        (FixedBytes.fill 32 0)
          = .error (.refine
            "work package does not use the fixed Stage 0 allow-all authorization") :=
  ⟨by decide, rfl, by decide +kernel, by decide +kernel⟩

end

end MiniJam.Worker
