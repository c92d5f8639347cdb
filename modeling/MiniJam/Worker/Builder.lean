import MiniJam.Worker.Prepare

/-!
# `MiniJam.Worker.Builder`: building a work package

What `crates/minijam-work-package-builder/src/lib.rs` makes from a payload and its extrinsics: the
work package, its bundle, and the reference under which the bundle can be fetched. Each definition
follows the function of the same name. The codec is the one of `Jambda`, and the content identifier
is the one of `Crypto`.
-/

set_option autoImplicit false

namespace MiniJam.WorkPackageBuilder

structure BuildWorkInput where
  serviceId : UInt32
  serviceCodeHash : Hash
  payload : Bytes
  extrinsics : List Bytes
  anchorHash : Hash
  stateRoot : Hash
  lookupAnchorSlot : UInt32

structure BuiltWorkPackage where
  workPackage : Jambda.WorkPackage
  canonicalWorkPackage : Bytes
  bundle : Jambda.MiniJamWorkBundleV1
  bundleBytes : Bytes
  packageHash : Hash
  contentRef : ContentRef
  deriving DecidableEq

inductive BuildError where
  | extrinsicTooLarge
  | bundleTooLarge
  | invalidMultihash (message : String)
  | cidTooLarge
  deriving DecidableEq

def contentRef (c : Crypto) (bytes : Bytes) : Except BuildError ContentRef := do
  let contentHash := c.blake2_256 bytes
  let cid ← (c.cidV1 rawCodec blake2b256Multihash contentHash.toList).mapError .invalidMultihash
  let cidV1 ← Except.okOr (BoundedVec.tryFrom cid) .cidTooLarge
  Except.ensure (bytes.length < UInt64.size) .bundleTooLarge
  pure ⟨cidV1, contentHash, UInt64.ofNat bytes.length⟩

/-! ### The package -/

/-- The body of the loop over extrinsics. -/
def extrinsicSpec (c : Crypto) (bytes : Bytes) : Except BuildError Jambda.ExtrinsicSpec := do
  Except.ensure (bytes.length < UInt32.size) .extrinsicTooLarge
  pure ⟨c.blake2_256 bytes, UInt32.ofNat bytes.length⟩

/-- The one item of a package. -/
def workItem (J : Jambda) (input : BuildWorkInput) (extrinsicSpecs : List Jambda.ExtrinsicSpec) :
    Jambda.WorkItem where
  service := input.serviceId
  codeHash := input.serviceCodeHash
  refineGasLimit := J.maxRefineGas
  accumulateGasLimit := J.maxRefineGas
  exportCount := 0
  payload := input.payload
  importSegments := []
  extrinsic := extrinsicSpecs

def workPackage (J : Jambda) (input : BuildWorkInput)
    (extrinsicSpecs : List Jambda.ExtrinsicSpec) : Jambda.WorkPackage where
  authCodeHost := Stage0.authCodeHost
  authCodeHash := Stage0.authCodeHash
  context :=
    { anchor := input.anchorHash
      stateRoot := input.stateRoot
      beefyRoot := FixedBytes.fill 32 0
      lookupAnchor := input.anchorHash
      lookupAnchorSlot := input.lookupAnchorSlot
      prerequisites := [] }
  authorization := []
  authorizerConfig := []
  items := [workItem J input extrinsicSpecs]

def buildWorkPackage (J : Jambda) (c : Crypto) (input : BuildWorkInput) :
    Except BuildError BuiltWorkPackage := do
  let extrinsicSpecs ← input.extrinsics.mapM (extrinsicSpec c)
  let workPackage := workPackage J input extrinsicSpecs
  let reportInput : Jambda.WorkReportInput :=
    { coreIndex := Stage0.coreIndex
      workPackage := workPackage
      externalData := [input.extrinsics]
      importSegments := [[]]
      importProofs := {} }
  let bundleBytes := J.encodeAuditableBundle reportInput
  let contentRef ← contentRef c bundleBytes
  pure
    { workPackage := workPackage
      canonicalWorkPackage := J.encodeWorkPackage workPackage
      bundle := J.newBundle reportInput
      bundleBytes := bundleBytes
      packageHash := J.jamHash workPackage
      contentRef := contentRef }

end MiniJam.WorkPackageBuilder
