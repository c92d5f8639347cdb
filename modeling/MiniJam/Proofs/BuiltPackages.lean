import MiniJam.Proofs.RefineVotes
import MiniJam.Proofs.Snapshot
import MiniJam.Proofs.WorkSteps
import MiniJam.Proofs.WorkersRuns
import MiniJam.Worker.Builder

/-!
# `MiniJam.Proofs.BuiltPackages`: what the builder makes passes every check

A built package meets three checkers: the pallet, when the relayer submits it; the bundle
verifier, when a worker has fetched it; and the worker, before it refines it. Each decodes and
hashes the bytes by itself. With a codec whose decoder inverts its encoder, all of them find what
the builder put in.
-/

set_option autoImplicit false

namespace MiniJam

open Worker WorkPackageBuilder

/-! ### The codec -/

/-- What the builder, the pallet and the workers rely on outside the repository: a decoder takes
exactly the encoding off the front of any bytes, a package is identified by the hash of its
encoding, a new bundle is of the current version and names the package it is made from, and the two
ways to encode a bundle coincide. A content identifier exists. -/
structure Jambda.Lawful (J : Jambda) (c : Crypto) : Prop where
  decode_workPackage : ∀ package rest,
    J.decodeWorkPackage (J.encodeWorkPackage package ++ rest) = some (package, rest)
  decode_bundle : ∀ bundle rest,
    J.decodeBundle (J.encodeBundle bundle ++ rest) = .ok (bundle, rest)
  jamHash_eq : ∀ package, J.jamHash package = c.blake2_256 (J.encodeWorkPackage package)
  new_version : ∀ input, (J.newBundle input).version = J.bundleVersionV1
  new_package : ∀ input, (J.newBundle input).workPackage = input.workPackage
  new_hash : ∀ input, (J.newBundle input).packageHash = J.jamHash input.workPackage
  new_matches : ∀ input, J.packageHashMatches (J.newBundle input) = true
  auditable_eq : ∀ input, J.encodeAuditableBundle input = J.encodeBundle (J.newBundle input)
  cid : c.LawfulCid

namespace Jambda.Lawful

variable {J : Jambda} {c : Crypto}

/-- An encoding is not empty, since there is more than one package. -/
theorem encodeWorkPackage_ne_nil (hJ : J.Lawful c) (package : WorkPackage) :
    J.encodeWorkPackage package ≠ [] := by
  let codec : LawfulCodec WorkPackage :=
    ⟨J.encodeWorkPackage, J.decodeWorkPackage, hJ.decode_workPackage⟩
  have hother : package ≠ { package with authorization := 0 :: package.authorization } := by
    intro h
    simpa using congrArg WorkPackage.authorization h
  exact codec.selfDelimiting.ne_nil hother

theorem encodeBundle_ne_nil (hJ : J.Lawful c) (bundle : MiniJamWorkBundleV1) :
    J.encodeBundle bundle ≠ [] := by
  let codec : LawfulCodec MiniJamWorkBundleV1 :=
    { encode := J.encodeBundle
      decode := fun bytes => (J.decodeBundle bytes).toOption
      decode_encode := fun bundle rest => by rw [hJ.decode_bundle, Except.toOption] }
  have hother : bundle ≠ { bundle with externalData := [] :: bundle.externalData } := by
    intro h
    simpa using congrArg MiniJamWorkBundleV1.externalData h
  exact codec.selfDelimiting.ne_nil hother

theorem decode_workPackage_self (hJ : J.Lawful c) (package : WorkPackage) :
    J.decodeWorkPackage (J.encodeWorkPackage package) = some (package, []) := by
  have hdecode := hJ.decode_workPackage package []
  rwa [List.append_nil] at hdecode

theorem decode_bundle_self (hJ : J.Lawful c) (bundle : MiniJamWorkBundleV1) :
    J.decodeBundle (J.encodeBundle bundle) = .ok (bundle, []) := by
  have hdecode := hJ.decode_bundle bundle []
  rwa [List.append_nil] at hdecode

end Jambda.Lawful

/-! ### What the builder makes -/

section
variable {J : Jambda} {c : Crypto} {input : BuildWorkInput} {built : BuiltWorkPackage}

/-- The reference names the bytes: their hash and their length, under an identifier. -/
theorem contentRef_ok (hc : c.LawfulCid) {bytes : Bytes} {reference : ContentRef}
    (h : contentRef c bytes = .ok reference) :
    reference.cidV1.toList ≠ [] ∧ reference.contentHash = c.blake2_256 bytes ∧
      reference.size = UInt64.ofNat bytes.length ∧ bytes.length < UInt64.size := by
  obtain ⟨cid, hcid, h⟩ := Except.bind_ok_iff.mp h
  obtain ⟨cidV1, hbounded, h⟩ := Except.bind_ok_iff.mp h
  obtain ⟨hsize, h⟩ := Except.ensure_bind_ok_iff.mp h
  cases h
  refine ⟨?_, rfl, rfl, hsize⟩
  rw [BoundedVec.tryFrom_eq_some.mp (Except.okOr_ok_iff.mp hbounded)]
  obtain ⟨cid', hcid', hne, -⟩ := hc (c.blake2_256 bytes)
  cases (Except.mapError_ok_iff.mp hcid).symm.trans hcid'
  exact hne

/-- A built package: its encoding, its hash, and the reference to its bundle. -/
structure Built (J : Jambda) (c : Crypto) (built : BuiltWorkPackage) : Prop where
  canonical : built.canonicalWorkPackage = J.encodeWorkPackage built.workPackage
  packageHash : built.packageHash = J.jamHash built.workPackage
  bundlePackage : built.bundle.workPackage = built.workPackage
  bundleHash : built.bundle.packageHash = built.packageHash
  version : built.bundle.version = J.bundleVersionV1
  hashMatches : J.packageHashMatches built.bundle = true
  bundleBytes : built.bundleBytes = J.encodeBundle built.bundle
  reference : contentRef c built.bundleBytes = .ok built.contentRef
  stage0 : UsesStage0 Stage0.coreIndex built.workPackage

theorem built_of_build (hJ : J.Lawful c) (h : buildWorkPackage J c input = .ok built) :
    Built J c built := by
  obtain ⟨specs, -, h⟩ := Except.bind_ok_iff.mp h
  obtain ⟨reference, hreference, h⟩ := Except.bind_ok_iff.mp h
  cases h
  exact ⟨rfl, rfl, hJ.new_package _, hJ.new_hash _, hJ.new_version _, hJ.new_matches _,
    hJ.auditable_eq _, hreference, rfl, rfl, rfl, rfl, rfl⟩

/-! ### The workers -/

/-- The verifier accepts the bundle, within any limit that the bundle is within. -/
theorem Built.verifyWorkBundle (hJ : J.Lawful c) (hb : Built J c built) {maxBytes : UInt64}
    (hmax : built.bundleBytes.length ≤ maxBytes.toNat) :
    WorkerEngine.verifyWorkBundle c built.contentRef built.bundleBytes maxBytes built.packageHash
        (WorkerEngine.miniJamWorkBundleDecoder J)
      = .ok ⟨built.bundleBytes, built.packageHash⟩ := by
  obtain ⟨hcid, hhash, hsize, hlength⟩ := contentRef_ok hJ.cid hb.reference
  have hdecode : J.decodeBundle built.bundleBytes = .ok (built.bundle, []) := by
    rw [hb.bundleBytes]
    exact hJ.decode_bundle_self _
  have hlimit : built.contentRef.size ≤ maxBytes := by
    rw [hsize, UInt64.le_iff_toNat_le, UInt64.toNat_ofNat_of_lt' hlength]
    exact hmax
  -- First the content, then the decoder, then the hash of the package.
  have hcontent : WorkerEngine.verifyContentRef c built.contentRef built.bundleBytes maxBytes
      = .ok () := by
    refine Except.ensure_bind_ok_iff.mpr ⟨hcid, ?_⟩
    refine Except.ensure_bind_ok_iff.mpr ⟨hlimit, ?_⟩
    refine Except.ensure_bind_ok_iff.mpr ⟨hsize.symm, ?_⟩
    exact Except.ensure_ok_iff.mpr hhash.symm
  have hbundle : WorkerEngine.decodeWorkBundle J built.bundleBytes = .ok built.bundle := by
    refine Except.bind_ok_iff.mpr ⟨(built.bundle, []), Except.mapError_ok_iff.mpr hdecode, ?_⟩
    refine Except.ensure_bind_ok_iff.mpr ⟨rfl, ?_⟩
    refine Except.ensure_bind_ok_iff.mpr ⟨hb.version, ?_⟩
    exact Except.ensure_bind_ok_iff.mpr ⟨hb.hashMatches, rfl⟩
  have hdecoder : WorkerEngine.miniJamWorkBundleDecoder J built.bundleBytes
      = .ok built.packageHash :=
    Except.bind_ok_iff.mpr ⟨built.bundle, hbundle, congrArg Except.ok hb.bundleHash⟩
  refine Except.bind_ok_iff.mpr ⟨(), Except.mapError_ok_iff.mpr hcontent, ?_⟩
  refine Except.bind_ok_iff.mpr ⟨built.packageHash, Except.mapError_ok_iff.mpr hdecoder, ?_⟩
  exact Except.ensure_bind_ok_iff.mpr ⟨rfl, rfl⟩

/-- The worker accepts the bundle for a task with this package, before it looks at the context. -/
theorem Built.checkWorkBundle (hJ : J.Lawful c) (hb : Built J c built) {task : WorkTask}
    (hhash : task.packageHash = built.packageHash)
    (hcanonical : task.canonicalWorkPackage = built.canonicalWorkPackage) :
    Worker.checkWorkBundle J Stage0.coreIndex task built.bundleBytes = .ok built.bundle := by
  have hdecode : J.decodeBundle built.bundleBytes = .ok (built.bundle, []) := by
    rw [hb.bundleBytes]
    exact hJ.decode_bundle_self _
  refine checkWorkBundle_of_decoded hdecode hb.version hb.hashMatches ?_ ?_ ?_
  · rw [hb.bundleHash, hhash]
  · rw [hb.bundlePackage, hcanonical, hb.canonical]
  · rw [hb.bundlePackage]
    exact hb.stage0

end

/-! ### The pallet -/

/-- A package as the pallet sees it. -/
def Jambda.WorkPackage.forPallet (J : Jambda) (package : Jambda.WorkPackage) : Jam.WorkPackage where
  items := package.items.map fun item =>
    ⟨item.service, item.codeHash, item.refineGasLimit, item.accumulateGasLimit⟩
  contextEncoding := J.encodeContext package.context

namespace Jam

variable {AccountId Ledger : Type} [DecidableEq AccountId] {T : Config AccountId Ledger}
  {s : State T}

/-- The pallet decodes packages as the Jambda crates do. -/
def DecodesAs (T : Config AccountId Ledger) (J : Jambda) : Prop :=
  ∀ bytes, T.codec.decodeWorkPackage bytes
    = (J.decodeWorkPackage bytes).map fun (package, rest) => (package.forPallet J, rest)

/-- Nothing but the package itself keeps the pallet from recording a package with this hash: the
hash is new, there is a work id and a place in the queue, and the deposit can be held. -/
structure Admits (s : State T) (relayer : AccountId) (packageHash : Hash) : Prop where
  unregistered : s.workByPackageHash.contains packageHash = false
  numbered : s.nextWorkId.checkedAdd 1 ≠ none
  queued : s.pendingWorks.tryPush s.nextWorkId ≠ none
  held : T.currency.hold .workDeposit relayer T.workDeposit s.base.ledger ≠ none

/-- The work is recorded under its id, and the id under the package hash. -/
structure Records (s : State T) (workId : WorkId) (packageHash : Hash)
    (canonicalWorkPackage : Bytes) (bundleRef : ContentRef) : Prop where
  indexed : s.workByPackageHash.lookup packageHash = some workId
  stored : ∃ work, s.works.lookup workId = some work ∧ work.packageHash = packageHash ∧
    work.canonicalWorkPackage = canonicalWorkPackage ∧ work.bundleRef = bundleRef

variable {bundleRef : ContentRef}

/-- Preparing the round of a work returns, and leaves what was submitted. -/
theorem prepareRound_records (hs : Workers.Roster s.base) {id : WorkId} {packageHash : Hash}
    {canonicalWorkPackage : Bytes} (h : Records s id packageHash canonicalWorkPackage bundleRef) :
    ∃ s', (Tx.ignore (prepareRound id) : M T Unit) s = .ok () s' ∧
      Records s' id packageHash canonicalWorkPackage bundleRef := by
  obtain ⟨hindexed, work, hwork, hhash, hpackage, href⟩ := h
  have hreturns : ∃ assigned base, Tx.attempt (inWorkers (Workers.assignWork id work.round)) s
      = (.ok assigned { s with base := base } : Outcome (State T) DispatchError _) := by
    cases hassign : Workers.assignWork id work.round s.base with
    | ok assignment base =>
      exact ⟨.ok assignment, base, by simp [Tx.attempt, inWorkers, Tx.zoom, hassign]⟩
    | err e base =>
      exact ⟨.error e, base, by simp [Tx.attempt, inWorkers, Tx.zoom, hassign]⟩
    | panicked => exact absurd hassign (hs.assignWork_no_panic id work.round)
  obtain ⟨assigned, base, hassigned⟩ := hreturns
  unfold prepareRound Tx.ignore
  rw [Tx.read_bind_apply, hwork, Tx.okOr_some_bind_apply, Tx.bind_apply_of_ok hassigned]
  refine ⟨_, rfl, hindexed, ?_⟩
  cases assigned with
  | ok _ => exact ⟨_, AList.lookup_insert _, hhash, hpackage, href⟩
  | error _ => exact ⟨_, AList.lookup_insert _, hhash, hpackage, href⟩

/-- The relayer submits a package that passes the checks on its content. It is recorded, unless
something else is in the way. -/
theorem submitWork_of_valid (hs : Workers.Roster s.base) {relayer : AccountId}
    (hrelayer : s.ingressRelayer = some relayer)
    {package : BoundedVec UInt8 T.maxWorkPackageBytes.toNat} {decoded : WorkPackage}
    (hpackage : package.toList ≠ []) (hcontent : validateContentRef bundleRef s = .ok () s)
    (hdecode : decodeWorkPackage package.toList s = .ok decoded s) :
    (Admits s relayer (T.workers.crypto.blake2_256 package.toList) →
      ∃ s', submitWork (.signed relayer) package bundleRef s = .ok () s' ∧
        Records s' s.nextWorkId (T.workers.crypto.blake2_256 package.toList) package.toList
          bundleRef) ∧
    (¬ Admits s relayer (T.workers.crypto.blake2_256 package.toList) →
      ∃ e s', submitWork (.signed relayer) package bundleRef s = .err e s' ∧
        e ∈ [.jam .duplicateWorkPackage, .jam .workIdOverflow, .jam .tooManyPendingWorks,
          .token]) := by
  have horigin : ensureIngressRelayer (.signed relayer) s = .ok relayer s := by
    simp [ensureIngressRelayer, ensureSigned, hrelayer, Tx.ensure_bind_apply]
  unfold submitWork
  rw [Tx.bind_apply_of_ok horigin, Tx.ensure_bind_apply, if_pos hpackage,
    Tx.bind_apply_of_ok hcontent, Tx.bind_apply_of_ok hdecode, Tx.read_bind_apply,
    Tx.ensure_bind_apply]
  -- Each of the remaining checks is a field of `Admits`.
  cases hnew : s.workByPackageHash.contains (T.workers.crypto.blake2_256 package.toList) with
  | true =>
    refine ⟨fun hadmits => ?_, fun _ => ⟨.jam .duplicateWorkPackage, s, by simp, by simp⟩⟩
    exact absurd hadmits.unregistered (by simp [hnew])
  | false =>
  rw [if_pos (by simp)]
  cases hnext : s.nextWorkId.checkedAdd 1 with
  | none => exact ⟨fun hadmits => absurd hnext hadmits.numbered, fun _ => ⟨_, s, rfl, by simp⟩⟩
  | some next =>
  rw [Tx.okOr_some_bind_apply]
  cases hpush : s.pendingWorks.tryPush s.nextWorkId with
  | none => exact ⟨fun hadmits => absurd hpush hadmits.queued, fun _ => ⟨_, s, rfl, by simp⟩⟩
  | some pending =>
  rw [Tx.okOr_some_bind_apply, Tx.modify_bind_apply]
  cases hhold : T.currency.hold .workDeposit relayer T.workDeposit s.base.ledger with
  | none =>
    refine ⟨fun hadmits => absurd hhold hadmits.held, fun _ =>
      ⟨.token, { s with pendingWorks := pending }, ?_, by simp⟩⟩
    simp [Tx.bind_apply, currencyOp, hhold]
  | some ledger =>
  have hadmits : Admits s relayer (T.workers.crypto.blake2_256 package.toList) :=
    ⟨hnew, by simp [hnext], by simp [hpush], by simp [hhold]⟩
  refine ⟨fun _ => ?_, fun hnot => absurd hadmits hnot⟩
  have hop : currencyOp (T.currency.hold .workDeposit relayer T.workDeposit)
      { s with pendingWorks := pending } = .ok () { s with
        pendingWorks := pending
        base := { s.base with ledger := ledger } } := by
    simp [currencyOp, hhold]
  rw [Tx.bind_apply_of_ok hop, Tx.modify_bind_apply]
  obtain ⟨s', hprepare, hrecords⟩ := prepareRound_records (s := { s with
      pendingWorks := pending
      base := { s.base with ledger := ledger }
      works := s.works.insert s.nextWorkId
        ⟨relayer, T.workers.crypto.blake2_256 package.toList, package.toList, bundleRef, 0,
          .insufficientWorkers, 0⟩
      workByPackageHash := s.workByPackageHash.insert
        (T.workers.crypto.blake2_256 package.toList) s.nextWorkId
      nextWorkId := next })
    ⟨hs.numbered.of_owners (fun _ => rfl) rfl, hs.counted, hs.bounded, hs.scheduled, hs.active,
      hs.distinct⟩
    ⟨AList.lookup_insert _, _, AList.lookup_insert _, rfl, rfl, rfl⟩
  rw [Tx.bind_apply_of_ok hprepare, Tx.read_bind_apply]
  obtain ⟨hindexed, work, hwork, hstored⟩ := hrecords
  rw [hwork, Tx.okOr_some_bind_apply]
  exact ⟨_, rfl, hindexed, work, hwork, hstored⟩

omit [DecidableEq AccountId] in
/-- The pallet's checks on the content of a built package pass. -/
theorem validates_of_built {J : Jambda} {built : BuiltWorkPackage}
    (hJ : J.Lawful T.workers.crypto) (hcodec : DecodesAs T J) (hb : Built J T.workers.crypto built)
    (hbundle : built.bundleBytes.length ≤ T.maxBundleBytes.toNat) (s : State T) :
    built.canonicalWorkPackage ≠ [] ∧ validateContentRef built.contentRef s = .ok () s ∧
      decodeWorkPackage built.canonicalWorkPackage s
        = .ok (built.workPackage.forPallet J) s ∧
      T.workers.crypto.blake2_256 built.canonicalWorkPackage = built.packageHash := by
  obtain ⟨hcid, -, hsize, hlength⟩ := contentRef_ok hJ.cid hb.reference
  have hsizeNat : built.contentRef.size.toNat = built.bundleBytes.length := by
    rw [hsize, UInt64.toNat_ofNat_of_lt' hlength]
  have hnonempty : 0 < built.bundleBytes.length := by
    rw [hb.bundleBytes]
    exact List.length_pos_iff.mpr (hJ.encodeBundle_ne_nil _)
  have hpositive : built.contentRef.size > 0 := by
    rw [gt_iff_lt, UInt64.lt_iff_toNat_lt, hsizeNat]
    exact hnonempty
  have hfits : built.contentRef.size ≤ T.maxBundleBytes := by
    rw [UInt64.le_iff_toNat_le, hsizeNat]
    exact hbundle
  refine ⟨?_, ?_, ?_, ?_⟩
  · rw [hb.canonical]
    exact hJ.encodeWorkPackage_ne_nil _
  · unfold validateContentRef
    rw [Tx.ensure_bind_apply, if_pos hcid, Tx.ensure_bind_apply, if_pos hpositive,
      Tx.ensure_apply, if_pos hfits]
  · unfold decodeWorkPackage
    rw [hb.canonical, hcodec, hJ.decode_workPackage_self, Option.map_some,
      Tx.okOr_some_bind_apply, Tx.ensure_bind_apply, if_pos rfl]
    rfl
  · rw [hb.canonical, hb.packageHash, hJ.jamHash_eq]

/-- A built package is accepted end to end. The relayer's submission is recorded under the
package hash, unless the hash is registered, there is no work id or no place in the queue, or the
deposit cannot be held. The verifier and the worker accept the bundle. -/
theorem built_packages_accepted {J : Jambda} (hJ : J.Lawful T.workers.crypto)
    (hcodec : DecodesAs T J) {input : BuildWorkInput} {built : BuiltWorkPackage}
    (hbuilt : buildWorkPackage J T.workers.crypto input = .ok built)
    (hpackage : built.canonicalWorkPackage.length ≤ T.maxWorkPackageBytes.toNat)
    (hbundle : built.bundleBytes.length ≤ T.maxBundleBytes.toNat) :
    (∀ h s, Chain.Run T h s → Workers.Roster s.base) ∧
    (∀ (s : State T) relayer, Workers.Roster s.base → s.ingressRelayer = some relayer →
      (Admits s relayer built.packageHash →
        ∃ s', submitWork (.signed relayer) ⟨built.canonicalWorkPackage, hpackage⟩ built.contentRef s
            = .ok () s' ∧
          Records s' s.nextWorkId built.packageHash built.canonicalWorkPackage built.contentRef) ∧
      (¬ Admits s relayer built.packageHash →
        ∃ e s', submitWork (.signed relayer) ⟨built.canonicalWorkPackage, hpackage⟩
            built.contentRef s = .err e s' ∧
          e ∈ [.jam .duplicateWorkPackage, .jam .workIdOverflow, .jam .tooManyPendingWorks,
            .token])) ∧
    (∀ maxBytes : UInt64, built.bundleBytes.length ≤ maxBytes.toNat →
      WorkerEngine.verifyWorkBundle T.workers.crypto built.contentRef built.bundleBytes maxBytes
          built.packageHash (WorkerEngine.miniJamWorkBundleDecoder J)
        = .ok ⟨built.bundleBytes, built.packageHash⟩) ∧
    ∀ task : WorkTask, task.packageHash = built.packageHash →
      task.canonicalWorkPackage = built.canonicalWorkPackage →
      checkWorkBundle J Stage0.coreIndex task built.bundleBytes = .ok built.bundle := by
  have hb := built_of_build hJ hbuilt
  refine ⟨?_, ?_, ?_, ?_⟩
  · -- What a submission needs of the storage holds in every run.
    intro h s hr
    exact Workers.roster_of_run (workersRun_of_run hr).choose_spec
  · intro s relayer hs hrelayer
    obtain ⟨hnonempty, hcontent, hdecode, hhash⟩ := validates_of_built hJ hcodec hb hbundle s
    let package : BoundedVec UInt8 T.maxWorkPackageBytes.toNat :=
      ⟨built.canonicalWorkPackage, hpackage⟩
    have hpackage : package.toList ≠ [] := hnonempty
    rw [← hhash]
    exact submitWork_of_valid hs hrelayer hpackage hcontent hdecode
  · intro maxBytes hmax
    exact hb.verifyWorkBundle hJ hmax
  · intro task hhash hcanonical
    exact hb.checkWorkBundle hJ hhash hcanonical

section
open Reference

/-- The runtime whose pallet decodes packages with the codec of the reference. -/
def builderRuntime : Config AccountId32 Reference.Ledger :=
  Runtime.config { environment consumeAll with
    codec := { Reference.codec with
      decodeWorkPackage := fun bytes => (packageCodec.decode bytes).map fun (package, rest) =>
        (package.forPallet (jambda refineAll), rest) } }

theorem jambda_lawful : (jambda refineAll).Lawful builderRuntime.workers.crypto where
  decode_workPackage := packageCodec.decode_encode
  decode_bundle bundle rest := by
    show (bundleCodec.decode (bundleCodec.encode bundle ++ rest)).elim _ _ = _
    rw [bundleCodec.decode_encode]
    rfl
  jamHash_eq _ := rfl
  new_version _ := rfl
  new_package _ := rfl
  new_hash _ := rfl
  new_matches _ := decide_eq_true rfl
  auditable_eq _ := rfl
  cid digest := ⟨_, rfl, List.cons_ne_nil _ _, by simp⟩

/-- A call of service 42 with two extrinsics. -/
def counterInput : BuildWorkInput where
  serviceId := 42
  serviceCodeHash := FixedBytes.fill 32 17
  payload := [1]
  extrinsics := [[1, 2], [3]]
  anchorHash := FixedBytes.fill 32 34
  stateRoot := FixedBytes.fill 32 51
  lookupAnchorSlot := 9

/-- What was built fits the limits of the runtime. -/
def Fits (built : BuiltWorkPackage) : Prop :=
  built.canonicalWorkPackage.length ≤ builderRuntime.maxWorkPackageBytes.toNat ∧
    built.bundleBytes.length ≤ builderRuntime.maxBundleBytes.toNat

instance (built : BuiltWorkPackage) : Decidable (Fits built) := inferInstanceAs (Decidable (_ ∧ _))

/-- What holds of a build and of the chain after genesis. -/
theorem exists_built (P : BuiltWorkPackage → State builderRuntime → Prop)
    (h : ∃ r ∈ reached builderRuntime [], ∃ built,
      buildWorkPackage (jambda refineAll) crypto counterInput = .ok built ∧
        Fits built ∧ P built r.2) :
    ∃ built h s, buildWorkPackage (jambda refineAll) crypto counterInput = .ok built ∧ Fits built ∧
      Chain.Run builderRuntime h s ∧ P built s := by
  obtain ⟨h, s, hr, built, hbuilt, hfits, hP⟩ := exists_run builderRuntime [] (fun s => ∃ built,
    buildWorkPackage (jambda refineAll) crypto counterInput = .ok built ∧ Fits built ∧ P built s) h
  exact ⟨built, h, s, hbuilt, hfits, hr, hP⟩

/-- The first work of a chain is recorded. -/
theorem built_packages_accepted_first :
    ∃ built s s', buildWorkPackage (jambda refineAll) crypto counterInput = .ok built ∧
      ∃ hpackage, submitWork (T := builderRuntime) (.signed alice)
          ⟨built.canonicalWorkPackage, hpackage⟩ built.contentRef s = .ok () s' ∧
        s'.workByPackageHash.lookup built.packageHash = some 0 := by
  obtain ⟨built, h, s, hbuilt, hfits, hr, hrelayer, hzero, hnew, hnext, hpush, hhold⟩ :=
    exists_built (fun built s => s.ingressRelayer = some alice ∧ s.nextWorkId = 0 ∧
      s.workByPackageHash.contains built.packageHash = false ∧
      (s.nextWorkId.checkedAdd 1).isSome ∧ (s.pendingWorks.tryPush s.nextWorkId).isSome ∧
      (builderRuntime.currency.hold .workDeposit alice builderRuntime.workDeposit
        s.base.ledger).isSome) (by decide +kernel)
  obtain ⟨hroster, haccepted, -⟩ := built_packages_accepted jambda_lawful (fun _ => rfl) hbuilt
    hfits.1 hfits.2
  have hadmits : Admits s alice built.packageHash :=
    ⟨hnew, Option.ne_none_iff_isSome.mpr hnext, Option.ne_none_iff_isSome.mpr hpush,
      Option.ne_none_iff_isSome.mpr hhold⟩
  obtain ⟨s', hsubmit, hrecords⟩ := (haccepted s alice (hroster h s hr) hrelayer).1 hadmits
  refine ⟨built, s, s', hbuilt, hfits.1, hsubmit, ?_⟩
  rw [hrecords.indexed, hzero]

/-- The state, with only the last work id left. -/
def atLastId (s : State builderRuntime) : State builderRuntime :=
  { s with nextWorkId := 18446744073709551615 }

/-- The hash is new, there is room in the queue and the deposit can be held. Still the work is not
recorded, because the last work id was given out. -/
theorem built_package_without_id :
    ∃ (built : BuiltWorkPackage) (s : State builderRuntime),
      buildWorkPackage (jambda refineAll) crypto counterInput = .ok built ∧
      Workers.Roster s.base ∧ s.ingressRelayer = some alice ∧
      s.workByPackageHash.contains built.packageHash = false ∧
      s.pendingWorks.tryPush s.nextWorkId ≠ none ∧
      builderRuntime.currency.hold .workDeposit alice builderRuntime.workDeposit s.base.ledger
        ≠ none ∧
      built.bundleBytes.length ≤ builderRuntime.maxBundleBytes.toNat ∧
      ∃ hpackage s', submitWork (.signed alice) ⟨built.canonicalWorkPackage, hpackage⟩
        built.contentRef s = .err (.jam .workIdOverflow) s' := by
  obtain ⟨built, h, s, hbuilt, hfits, hr, hrelayer, hnew, hpush, hhold, hpackage, herror⟩ :=
    exists_built (fun built s => s.ingressRelayer = some alice ∧
      s.workByPackageHash.contains built.packageHash = false ∧
      (s.pendingWorks.tryPush (atLastId s).nextWorkId).isSome ∧
      (builderRuntime.currency.hold .workDeposit alice builderRuntime.workDeposit
        s.base.ledger).isSome ∧
      ∃ hpackage : built.canonicalWorkPackage.length ≤ builderRuntime.maxWorkPackageBytes.toNat,
        (submitWork (.signed alice) ⟨built.canonicalWorkPackage, hpackage⟩ built.contentRef
          (atLastId s)).error = some (.jam .workIdOverflow)) (by decide +kernel)
  obtain ⟨s', hsubmit⟩ := Outcome.eq_err_of_error herror
  exact ⟨built, atLastId s, hbuilt, Workers.roster_of_run (workersRun_of_run hr).choose_spec,
    hrelayer,
    hnew, Option.ne_none_iff_isSome.mpr hpush, Option.ne_none_iff_isSome.mpr hhold, hfits.2,
    hfits.1, s', hsubmit⟩

end

end Jam

end MiniJam
