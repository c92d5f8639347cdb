import MiniJam.Lib.Result
import MiniJam.Protocol.Executor

/-!
# `MiniJam.Worker.Bundle`: work packages, work bundles and their verification

A work bundle is a work package with the data its items refer to. Its types, its codec and the
refine function come from the Jambda crates, which are not part of the repository. `Jambda` lists
what the repository calls there. Nothing is assumed about it here. The fields of the types are
those the repository fills in or looks at.

The checks are those of `crates/minijam-worker-engine/src/lib.rs`. Each definition follows the
function of the same name.
-/

set_option autoImplicit false

namespace MiniJam

/-! ### Errors -/

namespace WorkerEngine

inductive ContentVerificationError where
  | emptyCid
  | sizeLimitExceeded
  | sizeMismatch
  | hashMismatch
  deriving DecidableEq

inductive WorkBundleDecodeError where
  | invalidEncoding
  | trailingBytes
  | unsupportedVersion
  | packageHashMismatch
  deriving DecidableEq

inductive WorkBundleVerificationError where
  | content (error : ContentVerificationError)
  | decode (error : WorkBundleDecodeError)
  | packageHashMismatch
  deriving DecidableEq

inductive FetchError where
  | invalidReference
  | notFound
  | transport (message : String)
  | verification (error : ContentVerificationError)
  deriving DecidableEq

end WorkerEngine

/-- The errors of the worker. -/
inductive WorkerError where
  | chain (message : String)
  | fetch (error : WorkerEngine.FetchError)
  | bundle (error : WorkerEngine.WorkBundleVerificationError)
  | refine (message : String)
  | signing (message : String)
  deriving DecidableEq

/-! ### Jambda -/

namespace Jambda

structure RefineContext where
  anchor : Hash
  stateRoot : Hash
  beefyRoot : Hash
  lookupAnchor : Hash
  lookupAnchorSlot : UInt32
  prerequisites : List Hash
  deriving DecidableEq

structure ExtrinsicSpec where
  hash : Hash
  len : UInt32
  deriving DecidableEq

structure ImportSpec where
  root : Hash
  index : UInt16
  deriving DecidableEq

structure WorkItem where
  service : UInt32
  codeHash : Hash
  refineGasLimit : UInt64
  accumulateGasLimit : UInt64
  exportCount : UInt16
  payload : Bytes
  importSegments : List ImportSpec
  extrinsic : List ExtrinsicSpec
  deriving DecidableEq

structure WorkPackage where
  authCodeHost : UInt32
  authCodeHash : Hash
  context : RefineContext
  authorization : Bytes
  authorizerConfig : Bytes
  items : List WorkItem
  deriving DecidableEq

/-- The proofs of the imported segments. -/
structure ImportProofBundle where
  proofs : List (List Hash) := []
  deriving DecidableEq

/-- What a report is computed from. -/
structure WorkReportInput where
  coreIndex : UInt16
  workPackage : WorkPackage
  externalData : List (List Bytes)
  importSegments : List (List Bytes)
  importProofs : ImportProofBundle

structure MiniJamWorkBundleV1 where
  version : UInt16
  packageHash : Hash
  workPackage : WorkPackage
  externalData : List (List Bytes)
  importSegments : List (List Bytes)
  importProofs : ImportProofBundle
  deriving DecidableEq

/-- A computed report, as its encoding, and the segments it exports. -/
structure WorkReportOutput where
  report : Bytes
  exportedSegments : List Bytes

end Jambda

/-- The protocol state of one block, as a worker reads it. -/
abbrev StateReader : Type := StateKey → Except WorkerError (Option Bytes)

/-- What the repository calls in the Jambda crates. A decoder returns the value and the bytes it
left. An error that ends in a message is its text. -/
structure Jambda where
  /-- `MINIJAM_WORK_BUNDLE_VERSION_V1`. -/
  bundleVersionV1 : UInt16
  /-- `MiniJamSpec::MAX_REFINE_GAS`. -/
  maxRefineGas : UInt64
  encodeContext : Jambda.RefineContext → Bytes
  encodeWorkPackage : Jambda.WorkPackage → Bytes
  decodeWorkPackage : Bytes → Option (Jambda.WorkPackage × Bytes)
  jamHash : Jambda.WorkPackage → Hash
  encodeBundle : Jambda.MiniJamWorkBundleV1 → Bytes
  decodeBundle : Bytes → Except String (Jambda.MiniJamWorkBundleV1 × Bytes)
  /-- `MiniJamWorkBundleV1::new`. -/
  newBundle : Jambda.WorkReportInput → Jambda.MiniJamWorkBundleV1
  packageHashMatches : Jambda.MiniJamWorkBundleV1 → Bool
  intoWorkReportInput : Jambda.MiniJamWorkBundleV1 → UInt16 → Jambda.WorkReportInput
  /-- `WorkReportInput::encode_auditable_bundle`. -/
  encodeAuditableBundle : Jambda.WorkReportInput → Bytes
  /-- `StateBackend::load_from_db`. -/
  loadFromDb : StateReader → Except String Unit
  /-- `compute_work_report_with_network_domain`. -/
  computeWorkReport : StateReader → Jambda.WorkReportInput → Hash →
    Except String Jambda.WorkReportOutput
  /-- `MiniJamExecutive::project_report`. -/
  projectReport : Bytes → Except String ReportMetadataV1

/-! ### The checks of the worker engine -/

namespace WorkerEngine

/-- A `WorkBundleDecoder`: the package hash of a bundle. -/
abbrev WorkBundleDecoder : Type := Bytes → Except WorkBundleDecodeError Hash

/-- `MiniJamWorkBundleDecoder::decode`. -/
def decodeWorkBundle (J : Jambda) (bytes : Bytes) :
    Except WorkBundleDecodeError Jambda.MiniJamWorkBundleV1 := do
  let (bundle, input) ← (J.decodeBundle bytes).mapError fun _ => .invalidEncoding
  Except.ensure (input = []) .trailingBytes
  Except.ensure (bundle.version = J.bundleVersionV1) .unsupportedVersion
  Except.ensure (J.packageHashMatches bundle = true) .packageHashMismatch
  pure bundle

/-- `MiniJamWorkBundleDecoder`. -/
def miniJamWorkBundleDecoder (J : Jambda) : WorkBundleDecoder := fun bytes => do
  let bundle ← decodeWorkBundle J bytes
  pure bundle.packageHash

structure VerifiedWorkBundle where
  bytes : Bytes
  packageHash : Hash
  deriving DecidableEq

def verifyContentRef (c : Crypto) (reference : ContentRef) (bytes : Bytes) (maxBytes : UInt64) :
    Except ContentVerificationError Unit := do
  Except.ensure (reference.cidV1.toList ≠ []) .emptyCid
  Except.ensure (reference.size ≤ maxBytes) .sizeLimitExceeded
  Except.ensure (UInt64.ofNat bytes.length = reference.size) .sizeMismatch
  Except.ensure (c.blake2_256 bytes = reference.contentHash) .hashMismatch

def verifyWorkBundle (c : Crypto) (reference : ContentRef) (bytes : Bytes) (maxBytes : UInt64)
    (expectedPackageHash : Hash) (decoder : WorkBundleDecoder) :
    Except WorkBundleVerificationError VerifiedWorkBundle := do
  (verifyContentRef c reference bytes maxBytes).mapError .content
  let packageHash ← (decoder bytes).mapError .decode
  Except.ensure (packageHash = expectedPackageHash) .packageHashMismatch
  pure ⟨bytes, packageHash⟩

/-- What a fetcher answered, if it is what the reference says. -/
def fetchVerifiedContent (c : Crypto) (answer : Except FetchError Bytes) (reference : ContentRef)
    (maxBytes : UInt64) : Except FetchError Bytes := do
  let bytes ← answer
  (verifyContentRef c reference bytes maxBytes).mapError .verification
  pure bytes

end WorkerEngine

end MiniJam
