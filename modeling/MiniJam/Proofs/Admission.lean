import MiniJam.Proofs.BlockQueues
import MiniJam.Runtime.Chain

/-!
# `MiniJam.Proofs.Admission`: what the calls and the genesis write

The calls around the works stay within a part of the storage each (`workItems`,
`settingItems`). The calls of the queues are inverted: what a successful one has checked, and
the storage it leaves.
-/

set_option autoImplicit false

namespace MiniJam.Jam

variable {AccountId Ledger : Type} {T : Config AccountId Ledger} {s s' : State T}

/-! ### Footprints -/

variable {α : Type} {R : State T → State T → Prop} {requestId : Hash}

/-- The workers pallet writes its own storage. -/
theorem inWorkers_within (m : Workers.M T.workers α) :
    Tx.Rel baseItems.Within (inWorkers m : M T α) := by
  intro s
  unfold inWorkers Tx.zoom
  cases m s.base with
  | ok a base => exact rfl
  | err e base => exact rfl
  | panicked => trivial

/-- The currency writes the ledger. -/
theorem currencyOp_within (f : Ledger → Option Ledger) :
    Tx.Rel ledgerItems.Within (currencyOp f : M T Unit) := by
  intro s
  unfold currencyOp
  cases f s.base.ledger with
  | none => exact rfl
  | some ledger => exact rfl

variable {m : M T α} {command : SystemCommandV2} {serviceId : UInt32}

/-- What stays in the workers pallet's storage stays in the life of a work. -/
theorem baseItems_work (h : Tx.Rel baseItems.Within m) : Tx.Rel workItems.Within m :=
  h.mono fun _ _ hw => hw.mono fun _ _ => rfl

/-- What moves works may also accept them. -/
theorem workItems_accept (h : Tx.Rel workItems.Within m) : Tx.Rel acceptItems.Within m :=
  h.mono fun _ _ hw => hw.mono fun _ _ => rfl

/-- Moving money is part of the life of a work. -/
theorem ledgerItems_work (h : Tx.Rel ledgerItems.Within m) : Tx.Rel workItems.Within m :=
  h.mono fun _ _ hw => hw.mono fun _ _ => rfl

/-- An event is logged. -/
theorem depositEvent_within (e : Event AccountId) :
    Tx.Rel ledgerItems.Within (depositEvent e : M T Unit) := Tx.Rel.modify fun _ => rfl

theorem depositEvent_work (e : Event AccountId) :
    Tx.Rel workItems.Within (depositEvent e : M T Unit) :=
  ledgerItems_work (depositEvent_within e)

/-! ### The life of a work -/

/-- The check of the origin writes nothing. -/
theorem ensureSigned_within {σ : Type} {R : σ → σ → Prop} [Std.Refl R]
    (origin : Origin AccountId) :
    Tx.Rel R (ensureSigned origin : Tx σ DispatchError AccountId) := by
  cases origin with
  | signed who => exact Tx.Rel.pure who
  | root => exact Tx.Rel.throw _
  | unsigned => exact Tx.Rel.throw _

/-- Decoding writes nothing. -/
theorem decodeWorkPackage_within [Std.Refl R] [IsTrans (State T) R] (bytes : Bytes) :
    Tx.Rel R (decodeWorkPackage bytes : M T WorkPackage) :=
  Tx.Rel.bind (Tx.Rel.okOr _ _) fun _ => Tx.Rel.bind (Tx.Rel.ensure _ _) fun _ => Tx.Rel.pure _

/-- The check of a reference writes nothing. -/
theorem validateContentRef_within [Std.Refl R] [IsTrans (State T) R] (bundleRef : ContentRef) :
    Tx.Rel R (validateContentRef bundleRef : M T Unit) :=
  Tx.Rel.bind (Tx.Rel.ensure _ _) fun _ => Tx.Rel.bind (Tx.Rel.ensure _ _) fun _ =>
    Tx.Rel.ensure _ _

/-- The check of a report writes nothing. -/
theorem validateCandidateReport_within [Std.Refl R] [IsTrans (State T) R]
    (work : WorkRecord AccountId) (envelope : ReportEnvelopeV1) :
    Tx.Rel R (validateCandidateReport work envelope : M T Unit) :=
  Tx.Rel.bind (Tx.Rel.okOr _ _) fun _ => Tx.Rel.bind (Tx.Rel.ensure _ _) fun _ =>
    Tx.Rel.bind (Tx.Rel.ensure _ _) fun _ => Tx.Rel.bind (decodeWorkPackage_within _) fun _ =>
    Tx.Rel.bind (Tx.Rel.ensure _ _) fun _ => Tx.Rel.bind (Tx.Rel.ensure _ _) fun _ =>
    Tx.Rel.bind (Tx.Rel.okOr _ _) fun _ => Tx.Rel.bind (Tx.Rel.ensure _ _) fun _ =>
    Tx.Rel.forEach fun _ _ => Tx.Rel.ensure _ _

/-- A slash moves money only. -/
theorem slashInFull_within (reason : HoldReason) (who : AccountId) (amount : Balance) :
    Tx.Rel ledgerItems.Within (slashInFull reason who amount : M T Unit) :=
  Tx.Rel.bind Tx.Rel.read fun _ => Tx.Rel.bind (Tx.Rel.modify fun _ => rfl) fun _ =>
    Tx.Rel.bind (Tx.Rel.ensure _ _) fun _ => Tx.Rel.bind Tx.Rel.read fun _ =>
    Tx.Rel.bind (Tx.Rel.okOr _ _) fun _ => Tx.Rel.modify fun _ => rfl

/-- Settling a rejected candidate moves money only. -/
theorem settleRejectedCandidate_within (workId : WorkId) (round : AssignmentRound) :
    Tx.Rel ledgerItems.Within (settleRejectedCandidate workId round : M T Unit) :=
  Tx.Rel.bind Tx.Rel.read fun _ => Tx.Rel.bind (Tx.Rel.okOr _ _) fun _ =>
    Tx.Rel.bind (slashInFull_within _ _ _) fun _ => currencyOp_within _

/-- Rejecting a candidate moves money only. -/
theorem rejectCandidate_within (workId : WorkId) (round : AssignmentRound) :
    Tx.Rel ledgerItems.Within (rejectCandidate workId round : M T Unit) :=
  Tx.Rel.bind (settleRejectedCandidate_within _ _) fun _ => depositEvent_within _

/-- A relation that holds across each part of the functions that move the work `id`. It then
holds across these functions. -/
structure WorkFrame (R : State T → State T → Prop) (id : WorkId) : Prop where
  money : ∀ s s', ledgerItems.Within s s' → R s s'
  record : ∀ (s : State T) (work : WorkRecord AccountId),
    R s { s with works := s.works.insert id work }
  pending : Tx.Rel R (removePending id : M T Unit)
  assign : ∀ r, Tx.Rel R (inWorkers (Workers.assignWork id r) : M T (Workers.Assignment T.workers))
  clear : ∀ r, Tx.Rel R (inWorkers (Workers.clearAssignment id r) : M T Unit)

namespace WorkFrame

variable {R : State T → State T → Prop} [Std.Refl R] [IsTrans (State T) R] {id : WorkId}

omit [Std.Refl R] [IsTrans (State T) R] in
/-- Moving money respects the frame. -/
theorem ledger (hf : WorkFrame R id) (h : Tx.Rel ledgerItems.Within m) :
    Tx.Rel R m := h.mono hf.money

/-- Preparing a round respects the frame. -/
theorem prepareRound (hf : WorkFrame R id) : Tx.Rel R (Jam.prepareRound id : M T Unit) := by
  refine Tx.Rel.bind Tx.Rel.read fun s => Tx.Rel.bind (Tx.Rel.okOr _ _) fun work => ?_
  refine Tx.Rel.bind (Tx.Rel.attempt (hf.assign _)) fun assigned => ?_
  exact Tx.Rel.bind (Tx.Rel.modify fun s => hf.record s _) fun _ =>
    hf.ledger (depositEvent_within _)

omit [Std.Refl R] in
/-- Giving up a work respects the frame. -/
theorem failWork (hf : WorkFrame R id) (work : WorkRecord AccountId) :
    Tx.Rel R (Jam.failWork id work : M T Unit) :=
  Tx.Rel.bind (hf.ledger (slashInFull_within _ _ _)) fun _ =>
    Tx.Rel.bind (Tx.Rel.modify fun s => hf.record s _) fun _ =>
    Tx.Rel.bind hf.pending fun _ => Tx.Rel.bind (hf.clear _) fun _ =>
      hf.ledger (depositEvent_within _)

/-- The next round respects the frame. -/
theorem nextRound (hf : WorkFrame R id) (work : WorkRecord AccountId) :
    Tx.Rel R (Jam.nextRound id work : M T Unit) :=
  Tx.Rel.bind (Tx.Rel.modify fun s => hf.record s _) fun _ => hf.prepareRound

/-- The end of a round respects the frame. -/
theorem advanceOrFail (hf : WorkFrame R id) (rejectedCandidate : Bool) :
    Tx.Rel R (Jam.advanceOrFail id rejectedCandidate : M T Unit) := by
  refine Tx.Rel.transaction ?_
  refine Tx.Rel.bind Tx.Rel.read fun s => Tx.Rel.bind (Tx.Rel.okOr _ _) fun work => ?_
  refine Tx.Rel.bind (Tx.Rel.ite (hf.ledger (rejectCandidate_within _ _))
    (Tx.Rel.pure ())) fun _ => ?_
  exact Tx.Rel.bind (hf.clear _) fun _ => Tx.Rel.ite (hf.failWork work) (hf.nextRound work)

/-- Accepting a candidate respects the frame, when the queue may grow. -/
theorem acceptCandidate (hf : WorkFrame R id)
    (hqueue : ∀ (s : State T) queue, R s { s with executionQueue := queue }) :
    Tx.Rel R (Jam.acceptCandidate id : M T Unit) := by
  refine Tx.Rel.transaction ?_
  refine Tx.Rel.bind Tx.Rel.read fun s => Tx.Rel.bind (Tx.Rel.okOr _ _) fun work => ?_
  refine Tx.Rel.bind (Tx.Rel.okOr _ _) fun candidate => ?_
  refine Tx.Rel.bind (validateCandidateReport_within _ _) fun _ => ?_
  -- The three currency operations, then the work, the queue and the cleared assignment.
  refine Tx.Rel.bind (hf.ledger (currencyOp_within _)) fun _ => ?_
  refine Tx.Rel.bind (hf.ledger (currencyOp_within _)) fun _ => ?_
  refine Tx.Rel.bind (hf.ledger (currencyOp_within _)) fun _ => ?_
  refine Tx.Rel.bind (Tx.Rel.modify fun s => hf.record s _) fun _ => ?_
  refine Tx.Rel.bind (Tx.Rel.okOr _ _) fun queue => ?_
  refine Tx.Rel.bind (Tx.Rel.modify fun s => hqueue s _) fun _ => ?_
  exact Tx.Rel.bind hf.pending fun _ => Tx.Rel.bind (hf.clear _) fun _ =>
    hf.ledger (depositEvent_within _)

/-- Progress of a work respects the frame. -/
theorem progressWork (hf : WorkFrame R id)
    (hqueue : ∀ (s : State T) queue, R s { s with executionQueue := queue })
    (block : BlockNumber) : Tx.Rel R (Jam.progressWork block id : M T Unit) := by
  refine Tx.Rel.bind Tx.Rel.read fun s => ?_
  cases s.works.lookup id with
  | none => exact Tx.Rel.pure ()
  | some work =>
    dsimp only
    cases work.status with
    | insufficientWorkers => exact Tx.Rel.ignore hf.prepareRound
    | awaitingCandidate =>
      exact Tx.Rel.ite (Tx.Rel.ignore (hf.advanceOrFail _)) (Tx.Rel.pure ())
    | voting =>
      dsimp only
      cases s.base.roundResults.lookup (id, work.round) with
      | none => exact Tx.Rel.pure ()
      | some result =>
        dsimp only
        rcases result.decision with _ | ⟨_ | _⟩
        · exact Tx.Rel.ignore (hf.advanceOrFail _)
        · exact Tx.Rel.ignore (hf.acceptCandidate hqueue)
        · exact Tx.Rel.ignore (hf.advanceOrFail _)
    | accepted => exact Tx.Rel.pure ()
    | imported => exact Tx.Rel.pure ()
    | failed => exact Tx.Rel.pure ()

end WorkFrame

theorem workItems_frame (id : WorkId) : WorkFrame (T := T) workItems.Within id where
  money _ _ hw := hw.mono fun _ _ => rfl
  record _ _ := rfl
  pending := Tx.Rel.modify fun _ => rfl
  assign _ := baseItems_work (inWorkers_within _)
  clear _ := baseItems_work (inWorkers_within _)

theorem acceptItems_frame (id : WorkId) : WorkFrame (T := T) acceptItems.Within id where
  money _ _ hw := hw.mono fun _ _ => rfl
  record _ _ := rfl
  pending := Tx.Rel.modify fun _ => rfl
  assign _ := workItems_accept (baseItems_work (inWorkers_within _))
  clear _ := workItems_accept (baseItems_work (inWorkers_within _))

theorem prepareRound_within (workId : WorkId) :
    Tx.Rel workItems.Within (prepareRound workId : M T Unit) :=
  (workItems_frame workId).prepareRound

theorem advanceOrFail_within (workId : WorkId) (rejectedCandidate : Bool) :
    Tx.Rel workItems.Within (advanceOrFail workId rejectedCandidate : M T Unit) :=
  (workItems_frame workId).advanceOrFail rejectedCandidate

theorem progressWork_within (block : BlockNumber) (workId : WorkId) :
    Tx.Rel acceptItems.Within (progressWork block workId : M T Unit) :=
  (acceptItems_frame workId).progressWork (fun _ _ => rfl) block

theorem onInitialize_within (block : BlockNumber) :
    Tx.Rel acceptItems.Within (onInitialize block : M T Unit) :=
  Tx.Rel.bind Tx.Rel.read fun _ => Tx.Rel.forEach fun _ _ => progressWork_within _ _

section
variable [DecidableEq AccountId]

theorem ensureIngressRelayer_within [Std.Refl R] [IsTrans (State T) R] (origin : Origin AccountId) :
    Tx.Rel R (ensureIngressRelayer origin : M T AccountId) :=
  Tx.Rel.bind (ensureSigned_within origin) fun _ => Tx.Rel.bind Tx.Rel.read fun _ =>
    Tx.Rel.bind (Tx.Rel.okOr _ _) fun _ => Tx.Rel.bind (Tx.Rel.ensure _ _) fun _ => Tx.Rel.pure _

/-- A submitted work is entered into the books of the works, and its round is prepared. -/
theorem WorkFrame.submitWork [Std.Refl R] [IsTrans (State T) R] (hf : ∀ id, WorkFrame R id)
    (hbooks : ∀ (s : State T) pending works hashes next, R s { s with
      pendingWorks := pending, works := works, workByPackageHash := hashes, nextWorkId := next })
    (origin : Origin AccountId) (package : BoundedVec UInt8 T.maxWorkPackageBytes.toNat)
    (bundleRef : ContentRef) : Tx.Rel R (Jam.submitWork origin package bundleRef : M T Unit) := by
  refine Tx.Rel.bind (ensureIngressRelayer_within _) fun owner => ?_
  refine Tx.Rel.bind (Tx.Rel.ensure _ _) fun _ => ?_
  refine Tx.Rel.bind (validateContentRef_within _) fun _ => ?_
  refine Tx.Rel.bind (decodeWorkPackage_within _) fun _ => Tx.Rel.bind Tx.Rel.read fun s => ?_
  refine Tx.Rel.bind (Tx.Rel.ensure _ _) fun _ => Tx.Rel.bind (Tx.Rel.okOr _ _) fun next => ?_
  refine Tx.Rel.bind (Tx.Rel.okOr _ _) fun pending => ?_
  refine Tx.Rel.bind (Tx.Rel.modify fun s => hbooks s _ _ _ _) fun _ => ?_
  refine Tx.Rel.bind ((hf 0).ledger (currencyOp_within _)) fun _ => ?_
  refine Tx.Rel.bind (Tx.Rel.modify fun s => hbooks s _ _ _ _) fun _ => ?_
  refine Tx.Rel.bind (Tx.Rel.ignore (hf _).prepareRound) fun _ => ?_
  exact Tx.Rel.bind Tx.Rel.read fun _ => Tx.Rel.bind (Tx.Rel.okOr _ _) fun _ =>
    (hf 0).ledger (depositEvent_within _)

/-- What submitting a work writes. -/
theorem submitWork_within (origin : Origin AccountId)
    (package : BoundedVec UInt8 T.maxWorkPackageBytes.toNat) (bundleRef : ContentRef) :
    Tx.Rel workItems.Within (submitWork origin package bundleRef : M T Unit) :=
  WorkFrame.submitWork workItems_frame (fun _ _ _ _ _ => rfl) origin package bundleRef

theorem submitCandidate_within (origin : Origin AccountId) (envelope : ReportEnvelopeV1) :
    Tx.Rel workItems.Within (submitCandidate origin envelope : M T Unit) := by
  refine Tx.Rel.bind (ensureSigned_within _) fun submitter => Tx.Rel.bind Tx.Rel.read fun s => ?_
  refine Tx.Rel.bind (Tx.Rel.okOr _ _) fun work => Tx.Rel.bind (Tx.Rel.okOr _ _) fun id => ?_
  refine Tx.Rel.bind (Tx.Rel.okOr _ _) fun assignment => ?_
  -- The seven checks of the submitter, the work and the envelope.
  refine Tx.Rel.bind (Tx.Rel.ensure _ _) fun _ => Tx.Rel.bind (Tx.Rel.ensure _ _) fun _ => ?_
  refine Tx.Rel.bind (Tx.Rel.ensure _ _) fun _ => Tx.Rel.bind (Tx.Rel.ensure _ _) fun _ => ?_
  refine Tx.Rel.bind (Tx.Rel.ensure _ _) fun _ => Tx.Rel.bind (Tx.Rel.ensure _ _) fun _ => ?_
  refine Tx.Rel.bind (Tx.Rel.ensure _ _) fun _ => ?_
  refine Tx.Rel.bind (validateCandidateReport_within _ _) fun _ => ?_
  refine Tx.Rel.bind (ledgerItems_work (currencyOp_within _)) fun _ => ?_
  refine Tx.Rel.bind (Tx.Rel.mapErr (baseItems_work (inWorkers_within _))) fun _ => ?_
  exact Tx.Rel.bind (Tx.Rel.modify fun _ => rfl) fun _ => depositEvent_work _

end

/-! ### Inverting the calls -/

variable {origin : Origin AccountId}

theorem quarantinePending_ok (h : quarantinePending origin s = .ok () s') :
    origin = .root ∧ s' = { s with
      executionQueue := BoundedVec.empty
      quarantinedExecutionQueue := s.executionQueue
      events := s.events ++ [.executionQueueQuarantined s.executionQueue.toList.length] } := by
  obtain ⟨horigin, h⟩ := ensureRoot_bind_ok.mp h
  cases h
  exact ⟨horigin, rfl⟩

theorem ensureIngressRelayer_bind_ok [DecidableEq AccountId] {β : Type} {f : AccountId → M T β}
    {b : β} :
    (ensureIngressRelayer origin >>= f) s = .ok b s' ↔
      ∃ who, origin = .signed who ∧ s.ingressRelayer = some who ∧ f who s = .ok b s' := by
  rw [Tx.bind_ok]
  constructor
  · rintro ⟨who, s₁, h, hf⟩
    obtain ⟨who', horigin, h₁⟩ := ensureSigned_bind_ok.mp h
    obtain ⟨expected, hexpected, h₂⟩ := Tx.okOr_bind_ok.mp h₁
    obtain ⟨hwho, h₃⟩ := Tx.ensure_bind_ok.mp h₂
    cases h₃
    exact ⟨who, horigin, hwho.symm ▸ hexpected, hf⟩
  · rintro ⟨who, rfl, hrelayer, hf⟩
    refine ⟨who, s, ensureSigned_bind_ok.mpr ⟨who, rfl, ?_⟩, hf⟩
    exact Tx.okOr_bind_ok.mpr ⟨who, hrelayer, Tx.ensure_bind_ok.mpr ⟨rfl, rfl⟩⟩

/-- The allocation relayer, which is the ingress relayer while none of its own is set. -/
def State.allocationRelayerOf (s : State T) : Option AccountId :=
  s.allocationRelayer <|> s.ingressRelayer

theorem ensureAllocationRelayer_bind_ok [DecidableEq AccountId] {β : Type} {f : AccountId → M T β}
    {b : β} :
    (ensureAllocationRelayer origin >>= f) s = .ok b s' ↔
      ∃ who, origin = .signed who ∧ s.allocationRelayerOf = some who ∧ f who s = .ok b s' := by
  rw [Tx.bind_ok]
  constructor
  · rintro ⟨who, s₁, h, hf⟩
    obtain ⟨who', horigin, h₁⟩ := ensureSigned_bind_ok.mp h
    obtain ⟨expected, s₂, hexpected, h₂⟩ := Tx.bind_ok.mp h₁
    obtain ⟨hrelayer, hs⟩ := Tx.okOr_ok.mp hexpected
    obtain ⟨hwho, h₃⟩ := Tx.ensure_bind_ok.mp h₂
    cases h₃
    cases hs
    exact ⟨who, horigin, hwho.symm ▸ hrelayer, hf⟩
  · rintro ⟨who, rfl, hrelayer, hf⟩
    refine ⟨who, s, ensureSigned_bind_ok.mpr ⟨who, rfl, ?_⟩, hf⟩
    exact Tx.okOr_bind_ok.mpr ⟨who, hrelayer, Tx.ensure_bind_ok.mpr ⟨rfl, rfl⟩⟩

theorem submitPreimage_ok [DecidableEq AccountId] {canonical : CanonicalPreimageBytes}
    (h : submitPreimage origin canonical s = .ok () s') :
    ∃ who metadata pending, origin = .signed who ∧ s.ingressRelayer = some who ∧
      (T.executor.validatePreimageSubmission canonical.toList s.protocolReader).toOption =
        some metadata ∧
      s.pendingPreimageKeys.contains (PreimageKeyV1.ofMetadata metadata) = false ∧
      pending.toList = s.pendingPreimages.toList ++ [⟨who, canonical, metadata⟩] ∧
      s' = { s with
        pendingPreimages := pending
        pendingPreimageKeys :=
          s.pendingPreimageKeys.insert (PreimageKeyV1.ofMetadata metadata) ()
        events := s.events ++
          [.preimageQueued metadata.requester metadata.blobHash metadata.blobLen] } := by
  obtain ⟨who, horigin, hrelayer, h₁⟩ := ensureIngressRelayer_bind_ok.mp h
  rw [Tx.read_bind_apply] at h₁
  obtain ⟨metadata, hmetadata, h₂⟩ := Tx.okOr_bind_ok.mp h₁
  obtain ⟨hkey, h₃⟩ := Tx.ensure_bind_ok.mp h₂
  obtain ⟨pending, hpending, h₄⟩ := Tx.okOr_bind_ok.mp h₃
  cases h₄
  rw [Bool.not_eq_true'] at hkey
  exact ⟨who, metadata, pending, horigin, hrelayer, hmetadata, hkey,
    BoundedVec.tryPush_eq_some.mp hpending, rfl⟩

theorem validateSystemCommand_ok (h : validateSystemCommand command s = .ok () s') : s' = s := by
  cases command with
  | createService codeHash codeLen minItemGas minMemoGas =>
    obtain ⟨-, h⟩ := Tx.ensure_bind_ok.mp h
    obtain ⟨-, h⟩ := Tx.ensure_bind_ok.mp h
    exact (Tx.ensure_ok.mp h).2.symm
  | applyAllocation allocationId targetService amount =>
    obtain ⟨-, h⟩ := Tx.ensure_bind_ok.mp h
    obtain ⟨-, h⟩ := Tx.ensure_bind_ok.mp h
    exact (Tx.ensure_ok.mp h).2.symm

/-- The operation a call of `submitSystemOp` queues. -/
def State.nextSystemOp (s : State T) (who : AccountId) (command : SystemCommandV2) :
    SystemOpV2 :=
  SystemOpV2.new T.workers.crypto (systemOpSender T who)
    (s.systemOpNonce (systemOpSender T who)) command

theorem submitSystemOp_ok [DecidableEq AccountId]
    (h : submitSystemOp origin command s = .ok () s') :
    ∃ who pending, origin = .signed who ∧ s.ingressRelayer = some who ∧
      s.pendingSystemOpKeys.contains (s.nextSystemOp who command).requestId = false ∧
      pending.toList = s.pendingSystemOps.toList ++ [⟨who, s.nextSystemOp who command⟩] ∧
      s' = { s with
        pendingSystemOps := pending
        pendingSystemOpKeys :=
          s.pendingSystemOpKeys.insert (s.nextSystemOp who command).requestId ()
        systemOpNonces := s.systemOpNonces.insert (systemOpSender T who)
          ((s.systemOpNonce (systemOpSender T who)).satAdd 1)
        events := s.events ++
          [.systemOpQueued (s.nextSystemOp who command).requestId (systemOpSender T who)] } := by
  obtain ⟨who, horigin, hrelayer, h₁⟩ := ensureIngressRelayer_bind_ok.mp h
  obtain ⟨_, s₁, hvalid, h₂⟩ := Tx.bind_ok.mp h₁
  rw [validateSystemCommand_ok hvalid, Tx.read_bind_apply] at h₂
  obtain ⟨hkey, h₃⟩ := Tx.ensure_bind_ok.mp h₂
  obtain ⟨pending, hpending, h₄⟩ := Tx.okOr_bind_ok.mp h₃
  cases h₄
  rw [Bool.not_eq_true'] at hkey
  exact ⟨who, pending, horigin, hrelayer, hkey, BoundedVec.tryPush_eq_some.mp hpending, rfl⟩

theorem retryQuarantinedSystemOp_ok (h : retryQuarantinedSystemOp origin requestId s = .ok () s') :
    ∃ retry pending, origin = .root ∧ s.findQuarantined requestId = some retry ∧
      pending.toList = s.pendingSystemOps.toList ++ [⟨retry.submitter, retry.op⟩] ∧
      s' = { s.removeQuarantined requestId with
        pendingSystemOps := pending
        pendingSystemOpKeys := s.pendingSystemOpKeys.insert requestId ()
        events := s.events ++ [.systemOpRetried requestId] } := by
  obtain ⟨horigin, h₁⟩ := ensureRoot_bind_ok.mp h
  rw [Tx.read_bind_apply] at h₁
  obtain ⟨-, h₂⟩ := Tx.ensure_bind_ok.mp h₁
  rw [Tx.modify_bind_apply] at h₂
  obtain ⟨retry, hretry, h₃⟩ := Tx.okOr_bind_ok.mp h₂
  obtain ⟨pending, hpending, h₄⟩ := Tx.okOr_bind_ok.mp h₃
  cases h₄
  exact ⟨retry, pending, horigin, hretry, BoundedVec.tryPush_eq_some.mp hpending, rfl⟩

/-- A retry is refused while an operation with the id is pending. -/
theorem retryQuarantinedSystemOp_new (h : retryQuarantinedSystemOp origin requestId s = .ok () s') :
    s.pendingSystemOpKeys.contains requestId = false := by
  obtain ⟨-, h⟩ := ensureRoot_bind_ok.mp h
  rw [Tx.read_bind_apply] at h
  obtain ⟨hkey, -⟩ := Tx.ensure_bind_ok.mp h
  rwa [Bool.not_eq_true'] at hkey

theorem dropQuarantinedSystemOp_ok (h : dropQuarantinedSystemOp origin requestId s = .ok () s') :
    s' = { s.removeQuarantined requestId with
      events := s.events ++ [.systemOpDropped requestId] } := by
  obtain ⟨-, h⟩ := ensureRoot_bind_ok.mp h
  rw [Tx.read_bind_apply, Tx.modify_bind_apply] at h
  obtain ⟨-, h⟩ := Tx.ensure_bind_ok.mp h
  cases h
  rfl

theorem clearQuarantinedSystemOps_ok (h : clearQuarantinedSystemOps origin s = .ok () s') :
    s' = { s with
      quarantinedSystemOps := BoundedVec.empty
      events := s.events ++
        [.systemOpQuarantineCleared s.quarantinedSystemOps.toList.length] } := by
  obtain ⟨-, h⟩ := ensureRoot_bind_ok.mp h
  cases h
  rfl

theorem submitAllocation_ok [DecidableEq AccountId] {allocation : AllocationV1}
    (h : submitAllocation origin allocation s = .ok () s') :
    ∃ who, origin = .signed who ∧ s.allocationRelayerOf = some who ∧ allocation.amount ≠ 0 ∧
      (jamAmount allocation.amount).toNat = allocation.amount ∧
      s.serviceExists allocation.targetService = true ∧
      s.processedAllocations.contains allocation.allocationId = false ∧
      s.pendingAllocations.contains allocation.allocationId = false ∧
      s.pendingAllocationCount < T.maxPendingAllocations.toNat ∧
      s' = { s with
        pendingAllocations := s.pendingAllocations.insert allocation.allocationId
          ⟨who, allocation⟩
        pendingAllocationCount := satAdd32 s.pendingAllocationCount 1
        allocationReceipts := s.allocationReceipts.insert allocation.allocationId
          ⟨allocation, .pending⟩
        events := s.events ++ [.allocationQueued allocation.allocationId
          allocation.targetService allocation.amount] } := by
  obtain ⟨who, horigin, hrelayer, h⟩ := ensureAllocationRelayer_bind_ok.mp h
  obtain ⟨hzero, h⟩ := Tx.ensure_bind_ok.mp h
  obtain ⟨hfits, h⟩ := Tx.ensure_bind_ok.mp h
  rw [Tx.read_bind_apply] at h
  obtain ⟨hservice, h⟩ := Tx.ensure_bind_ok.mp h
  obtain ⟨hnew, h⟩ := Tx.ensure_bind_ok.mp h
  obtain ⟨hroom, h⟩ := Tx.ensure_bind_ok.mp h
  cases h
  rw [Bool.and_eq_true, Bool.not_eq_true', Bool.not_eq_true'] at hnew
  exact ⟨who, horigin, hrelayer, hzero, hfits, hservice, hnew.1, hnew.2, hroom, rfl⟩

theorem consumeAllocation_ok {allocationId : UInt64}
    (h : consumeAllocation allocationId s = .ok () s') :
    ∃ pending, s.pendingAllocations.lookup allocationId = some pending ∧
      s' = s.processed allocationId pending := by
  unfold consumeAllocation at h
  rw [Tx.read_bind_apply] at h
  obtain ⟨-, h⟩ := Tx.ensure_bind_ok.mp h
  obtain ⟨receipt, -, h⟩ := Tx.okOr_bind_ok.mp h
  obtain ⟨-, h⟩ := Tx.ensure_bind_ok.mp h
  obtain ⟨pending, hpending, h⟩ := Tx.okOr_bind_ok.mp h
  cases h
  exact ⟨pending, hpending, rfl⟩

theorem currencyOp_ok {f : Ledger → Option Ledger}
    (h : (currencyOp f : M T Unit) s = .ok () s') :
    ∃ ledger, f s.base.ledger = some ledger ∧
      s' = { s with base := { s.base with ledger := ledger } } := by
  unfold currencyOp at h
  split at h
  · rename_i ledger hledger
    cases h
    exact ⟨ledger, hledger, rfl⟩
  · cases h

/-- A funding is paid to the escrow account, which covers the new total. -/
theorem fundService_paid {amount : Balance}
    (h : fundService origin serviceId amount s = .ok () s') :
    ∃ funder ledger event, origin = .signed funder ∧ amount ≠ 0 ∧
      s.serviceExists serviceId = true ∧
      T.currency.transfer funder T.fuelEscrowAccount amount s.base.ledger = some ledger ∧
      Balance.satAdd s.totalServiceFuel amount ≤
        T.currency.balance ledger T.fuelEscrowAccount ∧
      s' = { s with
        base := { s.base with ledger := ledger }
        serviceFuelAccounts := s.serviceFuelAccounts.insert serviceId { s.serviceFuel serviceId with
          available := Balance.satAdd (s.serviceFuel serviceId).available amount }
        totalServiceFuel := Balance.satAdd s.totalServiceFuel amount
        events := s.events ++ [event] } := by
  obtain ⟨funder, horigin, h⟩ := ensureSigned_bind_ok.mp h
  obtain ⟨hamount, h⟩ := Tx.ensure_bind_ok.mp h
  rw [Tx.read_bind_apply] at h
  obtain ⟨hexists, h⟩ := Tx.ensure_bind_ok.mp h
  obtain ⟨_, s₁, htransfer, h⟩ := Tx.bind_ok.mp h
  obtain ⟨ledger, hledger, rfl⟩ := currencyOp_ok htransfer
  rw [Tx.modify_bind_apply, Tx.read_bind_apply] at h
  obtain ⟨hcovered, h⟩ := Tx.ensure_bind_ok.mp h
  cases h
  exact ⟨funder, ledger, _, horigin, hamount, hexists, hledger, hcovered, rfl⟩

theorem fundService_ok {amount : Balance} (h : fundService origin serviceId amount s = .ok () s') :
    ∃ funder ledger accounts total event, origin = .signed funder ∧
      T.currency.transfer funder T.fuelEscrowAccount amount s.base.ledger = some ledger ∧
      s' = { s with
        base := { s.base with ledger := ledger }
        serviceFuelAccounts := accounts
        totalServiceFuel := total
        events := s.events ++ [event] } := by
  obtain ⟨funder, ledger, _, horigin, -, -, hledger, -, rfl⟩ := fundService_paid h
  exact ⟨funder, ledger, _, _, _, horigin, hledger, rfl⟩

/-- The calls about the queues of the virtual block, and the settings. -/
def Call.isOuter : Call T → Bool
  | .register .. | .scheduleUpdate .. | .submitVote .. | .submitEquivocation .. => false
  | .submitWork .. | .submitCandidate .. | .quarantinePending | .fundService .. => false
  | _ => true

variable [DecidableEq AccountId]

theorem settings_of_call {call : Call T} (hcall : Call.isOuter call = true)
    (h : call.body origin s = .ok () s') : settingItems.Within s s' := by
  cases call with
  | pauseExecution paused =>
    obtain ⟨-, h⟩ := ensureRoot_bind_ok.mp h
    cases h
    rfl
  | submitPreimage preimage =>
    obtain ⟨_, _, _, -, -, -, -, -, rfl⟩ := submitPreimage_ok h
    rfl
  | submitSystemOp command =>
    obtain ⟨_, _, -, -, -, -, rfl⟩ := submitSystemOp_ok h
    rfl
  | dropQuarantinedSystemOp requestId =>
    rw [dropQuarantinedSystemOp_ok h]
    rfl
  | retryQuarantinedSystemOp requestId =>
    obtain ⟨_, _, -, -, -, rfl⟩ := retryQuarantinedSystemOp_ok h
    rfl
  | clearQuarantinedSystemOps =>
    rw [clearQuarantinedSystemOps_ok h]
    rfl
  | setIngressRelayer newRelayer =>
    obtain ⟨-, h⟩ := ensureRoot_bind_ok.mp h
    cases h
    rfl
  | submitAllocation allocation =>
    obtain ⟨_, -, -, -, -, -, -, -, -, rfl⟩ := submitAllocation_ok h
    rfl
  | setAllocationRelayer newRelayer =>
    obtain ⟨-, h⟩ := ensureRoot_bind_ok.mp h
    cases h
    rfl
  | _ => cases hcall

theorem outer_of_call {call : Call T} (hcall : Call.isOuter call = true)
    (h : call.body origin s = .ok () s') : outerItems.Within s s' :=
  (settings_of_call hcall h).mono fun _ _ => rfl

/-! ### Genesis -/

/-- The genesis of the workers pallet comes first, and the rest leaves it. -/
theorem genesisBuild_ok {config : GenesisConfig AccountId} {ledger : Ledger}
    (h : genesisBuild config (State.init T ledger) = .ok () s) : ∃ base,
    Workers.genesisBuild config.workers (Workers.State.init T.workers ledger) = .ok () base ∧
      genesisSettingItems.Within { State.init T ledger with base := base } s := by
  obtain ⟨_, s₁, hworkers, hrest⟩ := Tx.bind_ok.mp h
  obtain ⟨base, hbase, rfl⟩ := Tx.zoom_ok.mp hworkers
  refine ⟨base, hbase, ?_⟩
  have hsettings : Tx.Rel genesisSettingItems.Within (do
      Tx.modify fun s => { s with
        ingressRelayer := config.ingressRelayer
        allocationRelayer := config.allocationRelayer <|> config.ingressRelayer }
      Tx.forEach buildProtocolEntry config.protocolState
      Tx.forEach buildServiceFuel config.serviceFuel : M T Unit) := by
    refine Tx.Rel.bind (Tx.Rel.modify fun _ => rfl) fun _ =>
      Tx.Rel.bind (Tx.Rel.forEach fun entry _ => ?_) fun _ => Tx.Rel.forEach fun entry _ => ?_
    · exact Tx.Rel.bind (Tx.Rel.expect _) fun _ => Tx.Rel.bind (Tx.Rel.expect _) fun _ =>
        Tx.Rel.modify fun _ => rfl
    · exact Tx.Rel.ite (Tx.Rel.pure ()) (Tx.Rel.modify fun _ => rfl)
  exact hsettings.of_ok hrest

/-- At genesis an item that the genesis does not write has its initial value. -/
theorem genesis_initial (h : Chain.Genesis T s) (f : State T → α)
    (hf : ∀ s s', f (genesisItems.put s s') = f s) : ∃ ledger, f s = f (State.init T ledger) := by
  obtain ⟨config, ledger, hbuild⟩ := h
  obtain ⟨base, -, hwithin⟩ := genesisBuild_ok hbuild
  have hworkers : genesisItems.Within (State.init T ledger)
      { State.init T ledger with base := base } := rfl
  have hsettings : genesisItems.Within { State.init T ledger with base := base } s :=
    hwithin.mono fun _ _ => rfl
  exact ⟨ledger, (hsettings.unchanged f hf).trans (hworkers.unchanged f hf)⟩

end MiniJam.Jam
