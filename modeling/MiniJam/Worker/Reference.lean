import MiniJam.Lib.Codec
import MiniJam.Runtime.Reference
import MiniJam.Worker.Runner

/-!
# `MiniJam.Worker.Reference`: an environment the worker runs in

A stand-in for the Jambda crates: codecs that are lawful by construction, and a refine function
that is given. A report is the byte one, followed by its package. Nothing general is proved from
this module. It serves the concrete inputs that show a hypothesis to be satisfiable or a property
to fail.
-/

set_option autoImplicit false

namespace MiniJam.Reference

open LawfulCodec

/-! ### Codecs -/

def contextCodec : LawfulCodec Jambda.RefineContext :=
  ((fixed 32).prod ((fixed 32).prod ((fixed 32).prod ((fixed 32).prod
    (u32.prod (list (fixed 32))))))).map
    (fun (anchor, stateRoot, beefyRoot, lookupAnchor, lookupAnchorSlot, prerequisites) =>
      ⟨anchor, stateRoot, beefyRoot, lookupAnchor, lookupAnchorSlot, prerequisites⟩)
    (fun context => (context.anchor, context.stateRoot, context.beefyRoot, context.lookupAnchor,
      context.lookupAnchorSlot, context.prerequisites))
    (fun _ => rfl)

def importCodec : LawfulCodec Jambda.ImportSpec :=
  ((fixed 32).prod u16).map (fun (root, index) => ⟨root, index⟩)
    (fun spec => (spec.root, spec.index)) (fun _ => rfl)

def extrinsicCodec : LawfulCodec Jambda.ExtrinsicSpec :=
  ((fixed 32).prod u32).map (fun (hash, len) => ⟨hash, len⟩)
    (fun spec => (spec.hash, spec.len)) (fun _ => rfl)

def itemCodec : LawfulCodec Jambda.WorkItem :=
  (u32.prod ((fixed 32).prod (u64.prod (u64.prod (u16.prod ((list u8).prod
    ((list importCodec).prod (list extrinsicCodec)))))))).map
    (fun (service, codeHash, refineGasLimit, accumulateGasLimit, exportCount, payload,
        importSegments, extrinsic) =>
      ⟨service, codeHash, refineGasLimit, accumulateGasLimit, exportCount, payload,
        importSegments, extrinsic⟩)
    (fun item => (item.service, item.codeHash, item.refineGasLimit, item.accumulateGasLimit,
      item.exportCount, item.payload, item.importSegments, item.extrinsic))
    (fun _ => rfl)

def packageCodec : LawfulCodec Jambda.WorkPackage :=
  (u32.prod ((fixed 32).prod (contextCodec.prod ((list u8).prod ((list u8).prod
    (list itemCodec)))))).map
    (fun (authCodeHost, authCodeHash, context, authorization, authorizerConfig, items) =>
      ⟨authCodeHost, authCodeHash, context, authorization, authorizerConfig, items⟩)
    (fun package => (package.authCodeHost, package.authCodeHash, package.context,
      package.authorization, package.authorizerConfig, package.items))
    (fun _ => rfl)

def bundleCodec : LawfulCodec Jambda.MiniJamWorkBundleV1 :=
  (u16.prod ((fixed 32).prod (packageCodec.prod ((list (list (list u8))).prod
    ((list (list (list u8))).prod (list (list (fixed 32)))))))).map
    (fun (version, packageHash, workPackage, externalData, importSegments, proofs) =>
      ⟨version, packageHash, workPackage, externalData, importSegments, ⟨proofs⟩⟩)
    (fun bundle => (bundle.version, bundle.packageHash, bundle.workPackage, bundle.externalData,
      bundle.importSegments, bundle.importProofs.proofs))
    (fun _ => rfl)

/-! ### Jambda -/

/-- The metadata of a report that is the byte one, followed by its package. -/
def reportMetadata : Bytes → Except String ReportMetadataV1
  | [] => .error "empty report"
  | gas :: package => .ok
    { packageHash := digest 32 package
      contextHash := digest 32 [1]
      exportsRoot := FixedBytes.fill 32 0
      accumulateGas := gas.toUInt64 }

/-- The bundle of an input. -/
def bundleFor (input : Jambda.WorkReportInput) : Jambda.MiniJamWorkBundleV1 where
  version := 1
  packageHash := crypto.blake2_256 (packageCodec.encode input.workPackage)
  workPackage := input.workPackage
  externalData := input.externalData
  importSegments := input.importSegments
  importProofs := input.importProofs

def jambda (refine : Jambda.WorkReportInput → Except String Bytes) : Jambda where
  bundleVersionV1 := 1
  maxRefineGas := 5000000000
  encodeContext := contextCodec.encode
  encodeWorkPackage := packageCodec.encode
  decodeWorkPackage := packageCodec.decode
  jamHash package := crypto.blake2_256 (packageCodec.encode package)
  encodeBundle := bundleCodec.encode
  decodeBundle bytes := (bundleCodec.decode bytes).elim (.error "invalid bundle") .ok
  newBundle := bundleFor
  packageHashMatches bundle :=
    decide (crypto.blake2_256 (packageCodec.encode bundle.workPackage) = bundle.packageHash)
  intoWorkReportInput bundle coreIndex :=
    ⟨coreIndex, bundle.workPackage, bundle.externalData, bundle.importSegments,
      bundle.importProofs⟩
  encodeAuditableBundle input := bundleCodec.encode (bundleFor input)
  loadFromDb _ := .ok ()
  computeWorkReport _ input _ := (refine input).map fun report => ⟨report, []⟩
  projectReport := reportMetadata

/-- Every package refines to the byte one, followed by the package. -/
def refineAll (input : Jambda.WorkReportInput) : Except String Bytes :=
  .ok (1 :: packageCodec.encode input.workPackage)

/-- Every context is accepted, and the state is empty. -/
def stateSource : Worker.ProtocolStateSource where
  validateFinalizedContext _ := .ok ()
  protocolStateValueAt _ _ := .ok none

/-- The key pair of the worker. -/
def pair : Worker.Pair where
  publicKey := aliceKey
  sign := sign aliceKey

/-! ### A work -/

/-- A package without items, with this authorization. -/
def emptyPackage (authorization : Bytes) : Jambda.WorkPackage where
  authCodeHost := Stage0.authCodeHost
  authCodeHash := Stage0.authCodeHash
  context :=
    { anchor := FixedBytes.fill 32 5
      stateRoot := FixedBytes.fill 32 9
      beefyRoot := FixedBytes.fill 32 4
      lookupAnchor := FixedBytes.fill 32 5
      lookupAnchorSlot := 0
      prerequisites := [] }
  authorization := authorization
  authorizerConfig := []
  items := []

/-- The bundle of a package without data. -/
def bundleOf (package : Jambda.WorkPackage) : Jambda.MiniJamWorkBundleV1 :=
  bundleFor ⟨0, package, [], [], {}⟩

/-- The reference to a content. -/
def contentRefOf (bytes : Bytes) : ContentRef where
  cidV1 := BoundedVec.takeFrom [1]
  contentHash := crypto.blake2_256 bytes
  size := UInt64.ofNat bytes.length

/-- The voting on the report `report` of the package. -/
def voteTask (workId : WorkId) (package : Jambda.WorkPackage) (report : Bytes) :
    Worker.VoteTask where
  workId := workId
  round := 0
  assignmentEpoch := 0
  candidateReportHash := crypto.blake2_256 report
  candidateReport := report
  deadline := 100
  assignedWorkers := [0]
  submittedVotes := []
  packageHash := crypto.blake2_256 (packageCodec.encode package)
  canonicalWorkPackage := packageCodec.encode package
  bundleRef := contentRefOf (bundleCodec.encode (bundleOf package))

/-- A worker that is shown these tasks. The fetcher finds the bundles of the given works only, and
the chain accepts every extrinsic. -/
def runner (votes : List Worker.VoteTask) (works : List Worker.WorkTask)
    (contents : List (WorkId × Bytes)) : Worker.WorkerRunner where
  jambda := jambda refineAll
  crypto := crypto
  chain :=
    { pendingWorkTasks := .ok works
      openVoteTasks := .ok votes
      accountNonce := fun _ => .ok 0
      genesisHash := .ok (FixedBytes.fill 32 0)
      state := stateSource
      submitRawExtrinsic := fun _ => .ok (FixedBytes.fill 32 1) }
  fetch request _ := (contents.lookup request.1).elim (.error .notFound) .ok
  decoder := WorkerEngine.miniJamWorkBundleDecoder (jambda refineAll)
  maxBundleBytes := 4096
  environment := none

end MiniJam.Reference
