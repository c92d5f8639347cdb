import MiniJam.Proofs.Atomicity
import MiniJam.Proofs.WorkLife

/-!
# `MiniJam.Proofs.WorkSteps`: the chain refines the life of a work

`workStep_of_step` says what a step of the chain does to a work: it creates it, it is an
accepted vote in one of its rounds, or it is one step of its life. It needs that the block
hook meets every pending work once and that the next id is free, which `PendingInv` says and
every run keeps. `WorkRun` is a run as what its steps do to the works, and `life_invariant` is
the rule for proving a property of a work over all such runs.
-/

set_option autoImplicit false

namespace MiniJam.Jam

open Workers (RoundView Settles Clears VoteChecked)

variable {AccountId Ledger : Type} {T : Config AccountId Ledger} {s s' : State T}

/-! ### Moves of a work -/

/-- A vote as it was sent. -/
structure CastVote where
  workerId : WorkerId
  vote : WorkerVoteV1
  signature : Signature

/-- The vote a step accepted, if it is a vote. -/
def castVote : Chain.Label T → Option CastVote
  | (.extrinsic _ (.submitVote workerId vote signature), none) => some ⟨workerId, vote, signature⟩
  | _ => none

theorem castVote_err (action : Action T) (e : DispatchError) :
    castVote ((action, some e) : Chain.Label T) = none := by
  cases action with
  | extrinsic origin call => cases call <;> rfl
  | _ => rfl

/-- What a step does to the work `id`. -/
inductive LifeMove (s : State T) (l : Chain.Label T) (s' : State T) (id : WorkId) : Prop where
  /-- The work lives on, and the step is no vote for it. -/
  | quiet (hl : ∀ c, castVote l = some c → c.vote.workId ≠ id)
      (hstep : LifeStep (s.view id) (s'.view id))
  | create {work : WorkRecord AccountId} (hl : castVote l = none) (hid : id = s.nextWorkId)
      (hnext : s.nextWorkId.checkedAdd 1 = some s'.nextWorkId)
      (habsent : s.works.lookup id = none) (hround : work.round = 0)
      (hprepares : Prepares ((s.view id).setWork work) work (s'.view id))
  /-- A vote for a round of the work is checked and counted. -/
  | vote {c : CastVote} {voting : Workers.VotingRound}
      {assignment : Workers.Assignment T.workers} {key : PublicKey}
      {rounds : AssignmentRound → RoundView T.workers} (hl : castVote l = some c)
      (hid : c.vote.workId = id)
      (hchecked : VoteChecked T.workers ((s.view id).rounds c.vote.round) c.workerId c.vote
        c.signature voting assignment key)
      (hcast : Settles (((s.view id).rounds c.vote.round).cast c.workerId c.vote.verdict voting)
        (rounds c.vote.round))
      (hothers : ∀ r, r ≠ c.vote.round → Settles ((s.view id).rounds r) (rounds r))
      (hview : s'.view id = { s.view id with rounds := rounds })

variable {l : Chain.Label T} {origin : Origin AccountId}
  {h : Chain.History T} {id : WorkId} {bundleRef : ContentRef}
  {output : MiniJamExecutionOutput} {workIds : List WorkId}

theorem LifeMove.of_view_eq (hl : castVote l = none) (h : s'.view id = s.view id) :
    LifeMove s l s' id :=
  .quiet (fun _ hc => by rw [hl] at hc; cases hc) (LifeStep.of_view_eq h)

/-- A move of an accepted work. -/
theorem LifeMove.passed (h : LifeMove s l s' id) {work : WorkRecord AccountId}
    (hwork : s.works.lookup id = some work) (hpassed : work.status.Passed) :
    ∃ work', s'.works.lookup id = some work' ∧ work'.status.Passed ∧
      work'.round = work.round ∧ (s'.view id).candidates = (s.view id).candidates := by
  cases h with
  | quiet _ hstep => exact hstep.passed hwork hpassed
  | create _ _ _ habsent =>
    rw [hwork] at habsent
    cases habsent
  | vote _ _ _ _ _ hview =>
    refine ⟨work, ?_, hpassed, rfl, by rw [hview]⟩
    exact (show (s'.view id).work = (s.view id).work by rw [hview]).trans hwork

/-! ### The pending works -/

/-- The pending works are different, and they and all works are older than the next id. -/
structure PendingInv (s : State T) : Prop where
  nodup : s.pendingWorks.toList.Nodup
  pending_lt : ∀ id ∈ s.pendingWorks.toList, id < s.nextWorkId
  works_lt : ∀ id, s.works.lookup id ≠ none → id < s.nextWorkId

/-- What a step does to the pending works: some leave, or the next work enters. -/
inductive PendingStep (s s' : State T) : Prop where
  | kept (hnext : s'.nextWorkId = s.nextWorkId)
      (hpending : s'.pendingWorks.toList.Subperm s.pendingWorks.toList)
  | pushed (hnext : s.nextWorkId.checkedAdd 1 = some s'.nextWorkId)
      (hpending : s'.pendingWorks.toList.Subperm (s.pendingWorks.toList ++ [s.nextWorkId]))

/-! ### The queue of accepted works -/

/-- The work was accepted. -/
def State.PassedWork (s : State T) (id : WorkId) : Prop :=
  ∃ work, s.works.lookup id = some work ∧ work.status.Passed

/-- What a step adds to the queue is of works that were accepted. -/
def QueueStepped (s s' : State T) : Prop :=
  ∀ item ∈ s'.executionQueue.toList,
    item ∈ s.executionQueue.toList ∨ s'.PassedWork item.workId

theorem queueStepped_of_subset
    (h : ∀ item ∈ s'.executionQueue.toList, item ∈ s.executionQueue.toList) :
    QueueStepped s s' := fun item hitem => Or.inl (h item hitem)

theorem queueStepped_of_work (h : workItems.Within s s') : QueueStepped s s' :=
  queueStepped_of_subset fun item hitem => by
    rwa [h.unchanged State.executionQueue fun _ _ => rfl] at hitem

/-! ### Submitting a work -/

theorem validateContentRef_ok (h : validateContentRef bundleRef s = .ok () s') : s' = s := by
  obtain ⟨-, h⟩ := Tx.ensure_bind_ok.mp h
  obtain ⟨-, h⟩ := Tx.ensure_bind_ok.mp h
  exact (Tx.ensure_ok.mp h).2.symm

theorem decodeWorkPackage_ok {bytes : Bytes} {package : WorkPackage}
    (h : decodeWorkPackage bytes s = .ok package s') :
    T.codec.decodeWorkPackage bytes = some (package, []) ∧ s' = s := by
  obtain ⟨⟨package', rest⟩, hdecode, h⟩ := Tx.okOr_bind_ok.mp h
  obtain ⟨hrest, h⟩ := Tx.ensure_bind_ok.mp h
  cases h
  cases hrest
  exact ⟨hdecode, rfl⟩

/-- A submitted work is created under the next id, and its first round is prepared. -/
theorem submitWork_ok [DecidableEq AccountId]
    {package : BoundedVec UInt8 T.maxWorkPackageBytes.toNat}
    (h : submitWork origin package bundleRef s = .ok () s') :
    s.nextWorkId.checkedAdd 1 = some s'.nextWorkId ∧
      s'.pendingWorks.toList.Subperm (s.pendingWorks.toList ++ [s.nextWorkId]) ∧
      (∀ id, id ≠ s.nextWorkId → s'.view id = s.view id) ∧
      ∃ work : WorkRecord AccountId, work.round = 0 ∧
        work.canonicalWorkPackage = package.toList ∧
        Prepares ((s.view s.nextWorkId).setWork work) work (s'.view s.nextWorkId) := by
  obtain ⟨owner, -, -, h₁⟩ := ensureIngressRelayer_bind_ok.mp h
  obtain ⟨-, h₂⟩ := Tx.ensure_bind_ok.mp h₁
  obtain ⟨_, s₁, hcontent, h₃⟩ := Tx.bind_ok.mp h₂
  rw [validateContentRef_ok hcontent] at h₃
  obtain ⟨_, s₁', hpackage, h₄⟩ := Tx.bind_ok.mp h₃
  rw [(decodeWorkPackage_ok hpackage).2, Tx.read_bind_apply] at h₄
  obtain ⟨-, h₅⟩ := Tx.ensure_bind_ok.mp h₄
  obtain ⟨next, hnext, h₆⟩ := Tx.okOr_bind_ok.mp h₅
  obtain ⟨pending, hpending, h₇⟩ := Tx.okOr_bind_ok.mp h₆
  rw [Tx.modify_bind_apply] at h₇
  obtain ⟨_, s₂, hhold, h₈⟩ := Tx.bind_ok.mp h₇
  obtain ⟨_, s₃, hcreate, h₉⟩ := Tx.bind_ok.mp h₈
  obtain ⟨_, s₄, hprepare, h₁₀⟩ := Tx.bind_ok.mp h₉
  rw [Tx.read_bind_apply] at h₁₀
  obtain ⟨work', -, hevent⟩ := Tx.okOr_bind_ok.mp h₁₀
  -- The deposit moves money only, and after the creation the round is prepared.
  have hmoney := (currencyOp_within _).of_ok hhold
  have hview₂ : ∀ id, s₂.view id = s.view id := fun id => (view_of_ledger hmoney id).trans rfl
  have hview₃ : s₃.view s.nextWorkId = (s.view s.nextWorkId).setWork
      ⟨owner, T.workers.crypto.blake2_256 package.toList, package.toList, bundleRef, 0,
        .insufficientWorkers, 0⟩ := by
    rw [← hview₂]
    cases hcreate
    exact WorkView.ext (AList.lookup_insert _) rfl rfl
  have htouches := IsTrans.trans _ _ _
    ((Tx.Rel.ignore (touches_frame s.nextWorkId).prepareRound).of_ok hprepare)
    (touches_of_ledger s.nextWorkId ((depositEvent_within _).of_ok hevent))
  refine ⟨?_, ?_, fun id hid => ?_, ?_⟩
  · rw [htouches.nextWorkId, hnext]
    cases hcreate
    rfl
  · have hqueue : s₂.pendingWorks = pending := hmoney.unchanged State.pendingWorks fun _ _ => rfl
    have hpush := htouches.pending
    cases hcreate
    rwa [show s₂.pendingWorks = pending from hqueue, BoundedVec.tryPush_eq_some.mp hpending]
      at hpush
  · rw [htouches.others id hid, ← hview₂]
    cases hcreate
    exact WorkView.ext (AList.lookup_insert_ne hid) rfl rfl
  · refine ⟨⟨owner, T.workers.crypto.blake2_256 package.toList, package.toList, bundleRef, 0,
      .insufficientWorkers, 0⟩, rfl, rfl, ?_⟩
    rw [view_of_ledger ((depositEvent_within _).of_ok hevent), ← hview₃]
    rcases Tx.ignore_ok.mp hprepare with ⟨_, hprepare⟩ | ⟨e, hprepare⟩
    · obtain ⟨work, hwork, hprepares⟩ := prepareRound_ok hprepare
      have hrecord : (s₃.view s.nextWorkId).work = some work := hwork
      rw [hview₃] at hrecord
      rwa [Option.some.inj hrecord]
    · rw [(prepareRound_err hprepare).2, hview₃]
      exact Prepares.short

/-! ### Submitting a candidate -/

theorem view_storeCandidate (id : WorkId) (r : AssignmentRound)
    (candidate : CandidateRecord AccountId) (work : WorkRecord AccountId) (s : State T) :
    State.view { s with
      candidates := s.candidates.insert (id, r) candidate
      works := s.works.insert id work } id =
      ((s.view id).setCandidate r candidate).setWork work := by
  refine WorkView.ext (AList.lookup_insert _) (funext fun r' => ?_) rfl
  show (s.candidates.insert (id, r) candidate).lookup (id, r') =
    Function.update (s.view id).candidates r (some candidate) r'
  by_cases hr : r' = r
  · rw [hr, AList.lookup_insert, Function.update_self]
  · rw [AList.lookup_insert_ne (key_ne hr), Function.update_of_ne hr]
    rfl

/-- The check of a candidate writes nothing. -/
theorem validateCandidateReport_ok {work : WorkRecord AccountId} {envelope : ReportEnvelopeV1}
    (h : validateCandidateReport work envelope s = .ok () s') : s' = s :=
  (validateCandidateReport_within (R := Eq) work envelope).of_ok h |>.symm

/-- A submitted candidate was expected and is valid. Its bond is held, its voting opens, and it is
stored. -/
theorem submitCandidate_ok [DecidableEq AccountId] {envelope : ReportEnvelopeV1}
    (h : submitCandidate origin envelope s = .ok () s') :
    ∃ submitter work ledger base, s.works.lookup envelope.workId = some work ∧
      work.status = .awaitingCandidate ∧
      s.candidates.lookup (envelope.workId, work.round) = none ∧
      envelope.computedReportHash T.workers.crypto = envelope.canonicalReportHash ∧
      validateCandidateReport work envelope s = .ok () s ∧
      T.currency.hold .candidateBond submitter T.candidateBond s.base.ledger = some ledger ∧
      Workers.openVoting envelope.workId work.round envelope.canonicalReportHash
        (s.base.blockNumber.satAdd T.voteWindow) { s.base with ledger := ledger } = .ok () base ∧
      s' = { s with
        base := base
        candidates := s.candidates.insert (envelope.workId, work.round)
          ⟨submitter, envelope, s.base.blockNumber.satAdd T.voteWindow⟩
        works := s.works.insert envelope.workId { work with status := .voting }
        events := s.events ++ [.candidateSubmitted envelope.workId work.round submitter
          envelope.canonicalReportHash] } := by
  obtain ⟨submitter, -, h₁⟩ := ensureSigned_bind_ok.mp h
  rw [Tx.read_bind_apply] at h₁
  obtain ⟨work, hwork, h₂⟩ := Tx.okOr_bind_ok.mp h₁
  obtain ⟨workerId, -, h₃⟩ := Tx.okOr_bind_ok.mp h₂
  obtain ⟨assignment, -, h₄⟩ := Tx.okOr_bind_ok.mp h₃
  -- Of the seven checks the third, the fifth and the last are kept.
  obtain ⟨-, h₅⟩ := Tx.ensure_bind_ok.mp h₄
  obtain ⟨-, h₆⟩ := Tx.ensure_bind_ok.mp h₅
  obtain ⟨hstatus, h₇⟩ := Tx.ensure_bind_ok.mp h₆
  obtain ⟨-, h₈⟩ := Tx.ensure_bind_ok.mp h₇
  obtain ⟨hnew, h₉⟩ := Tx.ensure_bind_ok.mp h₈
  rw [Bool.not_eq_true'] at hnew
  obtain ⟨-, h₁₀⟩ := Tx.ensure_bind_ok.mp h₉
  obtain ⟨hhash, h₁₁⟩ := Tx.ensure_bind_ok.mp h₁₀
  obtain ⟨_, s₁, hvalid, h₁₂⟩ := Tx.bind_ok.mp h₁₁
  obtain rfl := validateCandidateReport_ok hvalid
  obtain ⟨_, s₂, hbond, h₁₃⟩ := Tx.bind_ok.mp h₁₂
  obtain ⟨ledger, hledger, rfl⟩ := currencyOp_ok hbond
  obtain ⟨_, s₃, hopen, hstore⟩ := Tx.bind_ok.mp h₁₃
  obtain ⟨base, hbase, rfl⟩ := Tx.zoom_ok.mp (Tx.mapErr_ok.mp hopen)
  cases hstore
  exact ⟨submitter, work, ledger, base, hwork, hstatus, StorageMap.lookup_of_not_contains hnew,
    hhash, hvalid, hledger, hbase, rfl⟩

/-- A submitted candidate is one step in the life of its work. -/
theorem submitCandidate_life [DecidableEq AccountId] {envelope : ReportEnvelopeV1}
    (h : submitCandidate origin envelope s = .ok () s') :
    Touches envelope.workId s s' ∧
      LifeStep (s.view envelope.workId) (s'.view envelope.workId) ∧
      ∃ work, s.works.lookup envelope.workId = some work ∧ work.status = .awaitingCandidate := by
  obtain ⟨submitter, work, ledger, base, hwork, hstatus, hnew, hhash, hvalid, -, hbase, rfl⟩ :=
    submitCandidate_ok h
  have hkept : ∀ k : Workers.RoundKey, k ≠ (envelope.workId, work.round) →
      Workers.RoundKept k s.base base := by
    intro k hk
    exact (Workers.openVoting_kept hk hbase :)
  refine ⟨⟨fun id hid => WorkView.ext (AList.lookup_insert_ne hid) ?_ ?_, rfl,
    List.Subperm.refl _⟩, ?_, work, hwork, hstatus⟩
  · exact funext fun r => AList.lookup_insert_ne fun hk => hid (congrArg Prod.fst hk)
  · exact funext fun r => hkept _ (ne_of_fst_ne hid)
  · obtain ⟨-, -, epoch, hround⟩ := Workers.openVoting_ok hbase
    have hopened : State.view { s with base := base } envelope.workId =
        (s.view envelope.workId).setRound work.round
          (base.round (envelope.workId, work.round)) :=
      view_withBase fun r' hr => hkept _ (key_ne hr)
    have hstored := view_storeCandidate envelope.workId work.round
      ⟨submitter, envelope, s.base.blockNumber.satAdd T.voteWindow⟩ { work with status := .voting }
      { s with base := base }
    rw [hopened, hround] at hstored
    refine hstored.symm ▸ ?_
    exact @LifeStep.candidate _ _ _ _ work ⟨submitter, envelope, _⟩ _ _ hwork hstatus hnew hhash
      ⟨s, s, hvalid⟩

/-! ### Steps without a vote or a new work -/

/-- Every work lives on, works leave the pending ones at most, and accepted works may enter
the queue. -/
structure Quiet (s s' : State T) : Prop where
  lives : ∀ id, LifeStep (s.view id) (s'.view id)
  nextWorkId : s'.nextWorkId = s.nextWorkId
  pending : s'.pendingWorks.toList.Subperm s.pendingWorks.toList
  queue : QueueStepped s s'

/-- Nothing of what makes up the views has changed. -/
theorem Quiet.of_eq (hbase : ∀ k, Workers.RoundKept k s.base s'.base)
    (hworks : s'.works = s.works) (hcandidates : s'.candidates = s.candidates)
    (hnext : s'.nextWorkId = s.nextWorkId) (hpending : s'.pendingWorks = s.pendingWorks)
    (hqueue : ∀ item ∈ s'.executionQueue.toList, item ∈ s.executionQueue.toList) :
    Quiet s s' where
  lives id := LifeStep.of_view_eq (WorkView.ext (congrArg (AList.lookup id) hworks)
    (funext fun r => congrArg (AList.lookup (id, r)) hcandidates)
    (funext fun r => hbase (id, r)))
  nextWorkId := hnext
  pending := by rw [hpending]
  queue := queueStepped_of_subset hqueue

theorem Quiet.of_lifeless (h : lifelessItems.Within s s') : Quiet s s' := by
  have hquiet : Quiet s (lifelessItems.put s s') :=
    .of_eq (fun _ => rfl) rfl rfl rfl rfl fun _ hitem => hitem
  rwa [h] at hquiet

theorem Quiet.of_touches (h : Touches id s s') (hstep : LifeStep (s.view id) (s'.view id))
    (hqueue : QueueStepped s s') :
    Quiet s s' where
  lives id' := by
    by_cases hid : id' = id
    · exact hid ▸ hstep
    · exact LifeStep.of_view_eq (h.others id' hid)
  nextWorkId := h.nextWorkId
  pending := h.pending
  queue := hqueue

/-- A computation of the workers pallet that settles rounds at most. -/
theorem Quiet.of_settled {m : Workers.M T.workers Unit}
    (hm : ∀ base, m s.base = .ok () base → ∀ k, Workers.RoundSettled k s.base base)
    (h : inWorkers m s = .ok () s') : Quiet s s' := by
  obtain ⟨base, hbase, rfl⟩ := Tx.zoom_ok.mp h
  exact ⟨fun id => .settle fun r => hm base hbase (id, r), rfl, List.Subperm.refl _,
    queueStepped_of_subset fun _ hitem => hitem⟩

/-! ### The hooks -/

/-- The view of the work is as it was. -/
def ViewKept (id : WorkId) (s s' : State T) : Prop := s'.view id = s.view id

instance (id : WorkId) : Std.Refl (ViewKept (T := T) id) := ⟨fun _ => rfl⟩

instance (id : WorkId) : IsTrans (State T) (ViewKept id) where
  trans _ _ _ h₁ h₂ := Eq.trans h₂ h₁

/-- The next id stays and works leave the pending ones at most. -/
def PendingShrinks (s s' : State T) : Prop :=
  s'.nextWorkId = s.nextWorkId ∧ s'.pendingWorks.toList.Subperm s.pendingWorks.toList

instance : Std.Refl (PendingShrinks (T := T)) := ⟨fun _ => ⟨rfl, List.Subperm.refl _⟩⟩

instance : IsTrans (State T) PendingShrinks where
  trans _ _ _ h₁ h₂ := ⟨h₂.1.trans h₁.1, h₂.2.trans h₁.2⟩

/-- Accepted works stay accepted, and what enters the queue is of accepted works. -/
structure AcceptsInto (s s' : State T) : Prop where
  passed : ∀ id, s.PassedWork id → s'.PassedWork id
  queue : QueueStepped s s'

instance : Std.Refl (AcceptsInto (T := T)) := ⟨fun _ => ⟨fun _ h => h, fun _ h => Or.inl h⟩⟩

instance : IsTrans (State T) AcceptsInto where
  trans _ _ _ h₁ h₂ :=
    { passed := fun id h => h₂.passed id (h₁.passed id h)
      queue := fun item hitem => (h₂.queue item hitem).elim
        (fun hitem => (h₁.queue item hitem).imp_right (h₂.passed _)) Or.inr }

theorem progressWork_accepts (block : BlockNumber) (id : WorkId) :
    Tx.Rel AcceptsInto (progressWork block id : M T Unit) := by
  refine Tx.Rel.intro (fun s a s' h => ?_) (fun s e s' h => ?_)
  · obtain ⟨⟨hlives, henqueues⟩, -⟩ := progressWork_ok h
    have htouches := (progressWork_touches block id).of_ok h
    constructor
    · rintro id' ⟨work, hwork, hpassed⟩
      by_cases hid : id' = id
      · subst hid
        obtain ⟨work', hwork', hpassed', -⟩ := hlives.passed hwork hpassed
        exact ⟨work', hwork', hpassed'⟩
      · exact ⟨work, (congrArg WorkView.work (htouches.others id' hid)).trans hwork, hpassed⟩
    · intro item hitem
      refine (henqueues item hitem).imp_right ?_
      rintro ⟨hid, work, hwork, hstatus⟩
      exact ⟨work, hid ▸ hwork, Or.inl hstatus⟩
  · exact absurd h (progressWork_noErr block id s e s')

variable {block : BlockNumber}

/-- The block hook moves each pending work by one step of its life. -/
theorem onInitialize_quiet (hnodup : s.pendingWorks.toList.Nodup)
    (h : onInitialize block s = .ok () s') : Quiet s s' := by
  have hloop : Tx.forEach (progressWork block) s.pendingWorks.toList s = .ok () s' := h
  have hshrinks : PendingShrinks s s' := (Tx.Rel.forEach fun id _ =>
    (progressWork_touches block id).mono fun _ _ ht => ⟨ht.nextWorkId, ht.pending⟩).of_ok hloop
  have hother : ∀ id id', id' ≠ id → Tx.Rel (ViewKept (T := T) id) (progressWork block id') :=
    fun id id' hid => (progressWork_touches block id').mono fun _ _ ht => ht.others id hid.symm
  have haccepts : AcceptsInto s s' :=
    (Tx.Rel.forEach fun id _ => progressWork_accepts block id).of_ok hloop
  refine ⟨fun id => ?_, hshrinks.1, hshrinks.2, haccepts.queue⟩
  by_cases hid : id ∈ s.pendingWorks.toList
  · -- The hook comes to the work once. Before and after that it is busy with other works.
    obtain ⟨s₁, s₂, hbefore, hprogress, hafter⟩ := Tx.forEach_ok_once (R := ViewKept id) hnodup
      hid (fun id' _ hne => hother id id' hne) hloop
    have hstep := (progressWork_ok hprogress).lives
    rwa [hbefore, ← show s'.view id = s₂.view id from hafter] at hstep
  · refine LifeStep.of_view_eq ((Tx.Rel.forEach (R := ViewKept id) fun id' hid' =>
      hother id id' ?_).of_ok hloop)
    rintro rfl
    exact hid hid'

/-- The import loop marks works of the batch and leaves the others. -/
theorem importReports_work (h : Tx.forEach (importReport output) workIds s = .ok () s')
    (id : WorkId) :
    s'.works.lookup id = s.works.lookup id ∨ id ∈ workIds ∧ ∃ work,
      s.works.lookup id = some work ∧
      s'.works.lookup id = some { work with status := .imported } := by
  induction workIds generalizing s with
  | nil =>
    cases h
    exact Or.inl rfl
  | cons workId workIds ih =>
    rw [Tx.forEach_cons] at h
    obtain ⟨_, s₁, hfirst, hrest⟩ := Tx.bind_ok.mp h
    have hone : s₁.works.lookup id = s.works.lookup id ∨ id = workId ∧ ∃ work,
        s.works.lookup id = some work ∧
        s₁.works.lookup id = some { work with status := .imported } := by
      rcases importReport_ok hfirst with ⟨-, work, hwork, rfl⟩ | ⟨-, rfl⟩
      · by_cases hid : id = workId
        · subst hid
          exact Or.inr ⟨rfl, work, hwork, AList.lookup_insert _⟩
        · exact Or.inl (AList.lookup_insert_ne hid)
      · exact Or.inl rfl
    rcases ih hrest with hkept | ⟨hmem, work, hwork, himported⟩
    · rcases hone with hkept' | ⟨rfl, work, hwork, himported⟩
      · exact Or.inl (hkept.trans hkept')
      · exact Or.inr ⟨List.mem_cons_self .., work, hwork, hkept.trans himported⟩
    · refine Or.inr ⟨List.mem_cons_of_mem _ hmem, ?_⟩
      rcases hone with hkept | ⟨-, work', hwork', himported'⟩
      · exact ⟨work, hkept ▸ hwork, himported⟩
      · -- Marked twice is marked once.
        rw [hwork] at himported'
        cases himported'
        exact ⟨work', hwork', himported⟩

/-- What a commit does to the works: those of its batch may become imported, and nothing else
of a view changes. -/
theorem commitOutput_works {input : MiniJamExecutionInput} {delta : ValidatedDelta}
    {summary : BlockStfSummary} (h : commitOutput workIds input output delta s = .ok summary s') :
    s'.base = s.base ∧ s'.candidates = s.candidates ∧ s'.nextWorkId = s.nextWorkId ∧
      s'.pendingWorks = s.pendingWorks ∧ ∀ id, s'.works.lookup id = s.works.lookup id ∨
        id ∈ workIds ∧ ∃ work, s.works.lookup id = some work ∧
          s'.works.lookup id = some { work with status := .imported } := by
  -- The parts before the import loop write other items.
  obtain ⟨s₄, s₅, hbefore, h₅, rfl⟩ := commitOutput_imports h
  let items : State T → _ := fun s => (s.base, s.candidates, s.nextWorkId, s.pendingWorks)
  have hitems : items s₅ = items s :=
    (((importReports_within output workIds).of_ok h₅).unchanged items fun _ _ => rfl).trans
      (hbefore.unchanged items fun _ _ => rfl)
  have hworks : s₄.works = s.works := hbefore.unchanged State.works fun _ _ => rfl
  simp only [items, Prod.mk.injEq] at hitems
  obtain ⟨hbase, hcandidates, hnext, hpending⟩ := hitems
  refine ⟨hbase, hcandidates, hnext, hpending, fun id => ?_⟩
  rw [← hworks]
  exact importReports_work h₅ id

/-- The virtual block imports accepted works, and nothing else happens to a work. -/
theorem onFinalize_works (h : onFinalize block s = .ok () s') :
    s'.base = s.base ∧ s'.candidates = s.candidates ∧ s'.nextWorkId = s.nextWorkId ∧
      s'.pendingWorks = s.pendingWorks ∧
      (∀ item ∈ s'.executionQueue.toList, item ∈ s.executionQueue.toList) ∧
      ∀ id, s'.works.lookup id = s.works.lookup id ∨ ∃ work, s.works.lookup id = some work ∧
        work.status = .accepted ∧ s'.works.lookup id = some { work with status := .imported } := by
  rcases onFinalize_cases h with
    ⟨input, output, delta, summary, s₁, queue, hanswered, hcommit, hqueue, rfl⟩ |
      ⟨e, -, hne, hhandle⟩
  · obtain ⟨hbase, hcandidates, hnext, hpending, hworks⟩ := commitOutput_works hcommit
    have hretained : ∀ item ∈ queue.toList, item ∈ s.executionQueue.toList := by
      intro item hitem
      rw [hqueue] at hitem
      exact mem_queue_iff.mpr (Or.inr hitem)
    refine ⟨hbase, hcandidates, hnext, hpending, hretained, fun id => ?_⟩
    refine (hworks id).imp_right ?_
    rintro ⟨hmem, work, hwork, himported⟩
    -- An imported work was due, and the input is built from accepted works.
    obtain ⟨item, hitem, rfl⟩ := List.mem_map.mp hmem
    obtain ⟨work', -, hwork', hstatus, -⟩ :=
      (executionInput_ok hanswered.input_eq).due_accepted hitem
    rw [hwork] at hwork'
    cases hwork'
    exact ⟨work, hwork, hstatus, himported⟩
  · -- However a failure is handled, no work is written.
    let items : State T → _ := fun s =>
      (s.base, s.candidates, s.nextWorkId, s.pendingWorks, s.executionQueue, s.works)
    have hitems : items s' = items s := by
      refine (handleFailure_ok hne hhandle).unchanged items fun _ _ => ?_
      cases e <;> rfl
    simp only [items, Prod.mk.injEq] at hitems
    obtain ⟨hbase, hcandidates, hnext, hpending, hqueue, hworks⟩ := hitems
    refine ⟨hbase, hcandidates, hnext, hpending, fun item hitem => ?_, fun id => Or.inl ?_⟩
    · rwa [hqueue] at hitem
    · rw [hworks]

theorem onFinalize_quiet (h : onFinalize block s = .ok () s') : Quiet s s' := by
  obtain ⟨hbase, hcandidates, hnext, hpending, hqueue, hworks⟩ := onFinalize_works h
  have hsub : s'.pendingWorks.toList.Subperm s.pendingWorks.toList := by rw [hpending]
  refine ⟨fun id => ?_, hnext, hsub, queueStepped_of_subset hqueue⟩
  have hrounds : ∀ r, s'.base.round (id, r) = s.base.round (id, r) := fun r => by rw [hbase]
  have hstored : ∀ r, s'.candidates.lookup (id, r) = s.candidates.lookup (id, r) :=
    fun r => by rw [hcandidates]
  rcases hworks id with hkept | ⟨work, hwork, hstatus, himported⟩
  · exact LifeStep.of_view_eq (WorkView.ext hkept (funext hstored) (funext hrounds))
  · have hview : s'.view id = (s.view id).setWork { work with status := .imported } :=
      WorkView.ext himported (funext hstored) (funext hrounds)
    rw [hview]
    exact LifeStep.imported hwork hstatus

/-! ### Every step -/

/-- What a step does to all works. -/
structure WorkStep (s : State T) (l : Chain.Label T) (s' : State T) : Prop where
  moves : ∀ id, LifeMove s l s' id
  pending : PendingStep s s'
  queue : QueueStepped s s'

theorem Quiet.workStep (h : Quiet s s') (hl : castVote l = none) :
    WorkStep s l s' where
  moves id := .quiet (fun c hc => by rw [hl] at hc; cases hc) (h.lives id)
  pending := .kept h.nextWorkId h.pending
  queue := h.queue

/-- An accepted vote moves the work it is for. -/
theorem workStep_of_vote {workerId : WorkerId} {vote : WorkerVoteV1} {signature : Signature}
    (h : (inWorkers (Workers.submitVote origin workerId vote signature) : M T Unit) s = .ok () s') :
    WorkStep s (.extrinsic origin (.submitVote workerId vote signature), none) s' := by
  obtain ⟨base, hbase, rfl⟩ := Tx.zoom_ok.mp h
  obtain ⟨⟨voting, assignment, key, hchecked, hcast⟩, hothers⟩ := Workers.submitVote_ok hbase
  refine ⟨fun id => ?_, .kept rfl (List.Subperm.refl _),
    queueStepped_of_subset fun _ hitem => hitem⟩
  by_cases hid : vote.workId = id
  · subst hid
    have hview : State.view { s with base := base } vote.workId =
      { s.view vote.workId with rounds := fun r => base.round (vote.workId, r) } := rfl
    refine .vote rfl rfl hchecked ?_ ?_ hview
    · exact hcast
    · exact fun r hr => hothers _ (key_ne hr)
  · refine .quiet (fun c hc => ?_) (.settle fun r => hothers (id, r) fun hk =>
      hid (congrArg Prod.fst hk).symm)
    cases hc
    exact hid

variable [DecidableEq AccountId]

/-- What a successful extrinsic does to the works. -/
theorem workStep_of_call (hpending : PendingInv s) {call : Call T}
    (h : call.body origin s = .ok () s') : WorkStep s (.extrinsic origin call, none) s' := by
  cases call with
  | register sessionKey stake =>
    exact (Quiet.of_settled (fun _ hbase =>
      Workers.settled_of_within (Workers.register_within hbase)) h).workStep rfl
  | scheduleUpdate sessionKey stake =>
    exact (Quiet.of_settled (fun _ hbase =>
      Workers.settled_of_within (Workers.scheduleUpdate_within hbase)) h).workStep rfl
  | submitVote workerId vote signature => exact workStep_of_vote h
  | submitEquivocation workerId first firstSignature second secondSignature =>
    exact (Quiet.of_settled (fun _ hbase =>
      Workers.settled_of_within (Workers.submitEquivocation_within hbase)) h).workStep rfl
  | submitWork package bundleRef =>
    obtain ⟨hnext, hpushed, hothers, work, hround, -, hprepares⟩ := submitWork_ok h
    refine ⟨fun id => ?_, .pushed hnext hpushed,
      queueStepped_of_work ((submitWork_within _ _ _).of_ok h)⟩
    by_cases hid : id = s.nextWorkId
    · subst hid
      -- The next id is free, because works are older than it.
      have habsent : s.works.lookup s.nextWorkId = none := by
        by_contra hsome
        exact absurd (hpending.works_lt _ hsome) (UInt64.lt_irrefl _)
      exact .create rfl rfl hnext habsent hround hprepares
    · exact .of_view_eq rfl (hothers id hid)
  | submitCandidate envelope =>
    obtain ⟨htouches, hstep, -⟩ := submitCandidate_life h
    exact (Quiet.of_touches htouches hstep
      (queueStepped_of_work ((submitCandidate_within _ _).of_ok h))).workStep rfl
  | quarantinePending =>
    obtain ⟨-, hs⟩ := quarantinePending_ok h
    exact (hs ▸ Quiet.of_eq (fun _ => rfl) rfl rfl rfl rfl fun _ hitem =>
      absurd hitem List.not_mem_nil : Quiet s s').workStep rfl
  | fundService serviceId amount =>
    obtain ⟨_, _, _, _, _, -, -, hs⟩ := fundService_ok h
    exact (Quiet.of_lifeless (hs ▸ rfl)).workStep rfl
  | _ => exact (Quiet.of_lifeless ((outer_of_call rfl h).mono fun _ _ => rfl)).workStep rfl

/-- What a step of the chain does to the works. -/
theorem workStep_of_step (hpending : PendingInv s) (h : Chain.Step T s l s') : WorkStep s l s' := by
  obtain ⟨action, _ | e⟩ := l
  · cases action with
    | extrinsic origin call => exact workStep_of_call hpending (Tx.transaction_ok.mp h)
    | workersOnInitialize block =>
      exact (Quiet.of_settled (fun _ hbase k =>
        (Workers.onInitialize_settled block k).of_ok hbase) h).workStep rfl
    | jamOnInitialize block => exact (onInitialize_quiet hpending.nodup h).workStep rfl
    | onFinalize block => exact (onFinalize_quiet h).workStep rfl
    | consumeAllocation allocationId =>
      obtain ⟨pending, -, hs⟩ := consumeAllocation_ok (Tx.transaction_ok.mp h)
      exact (Quiet.of_lifeless (hs ▸ rfl)).workStep rfl
    | system blockNumber blockHash ledger =>
      cases h
      exact Quiet.workStep (Quiet.of_lifeless rfl) rfl
  · rw [step_err h]
    exact Quiet.workStep (Quiet.of_lifeless rfl) (castVote_err action e)

/-! ### Every run -/

omit [DecidableEq AccountId] in
theorem WorkStep.pendingInv (hstep : WorkStep s l s') (h : PendingInv s) : PendingInv s' := by
  -- A work that is there now was there before, or it is the one just created.
  have hworks : ∀ id, s'.works.lookup id ≠ none → id < s.nextWorkId ∨
      id = s.nextWorkId ∧ s.nextWorkId.checkedAdd 1 = some s'.nextWorkId := by
    intro id hsome
    cases hstep.moves id with
    | quiet _ hlife =>
      refine Or.inl (h.works_lt id fun habsent => hsome ?_)
      exact hlife.absent habsent
    | create _ hid hnext => exact Or.inr ⟨hid, hnext⟩
    | vote _ _ _ _ _ hview =>
      refine Or.inl (h.works_lt id fun habsent => hsome ?_)
      exact (congrArg WorkView.work hview).trans habsent
  cases hstep.pending with
  | kept hnext hpending =>
    refine ⟨hpending.nodup h.nodup, fun id hid => ?_, fun id hsome => ?_⟩
    · rw [hnext]
      exact h.pending_lt id (hpending.subset hid)
    · rcases hworks id hsome with hlt | ⟨-, hoverflow⟩
      · rwa [hnext]
      · exact absurd (hnext ▸ UInt64.lt_of_checkedAdd hoverflow) (UInt64.lt_irrefl _)
  | pushed hnext hpending =>
    have hlt := UInt64.lt_of_checkedAdd hnext
    refine ⟨hpending.nodup (List.nodup_append.mpr ⟨h.nodup, List.nodup_singleton _, ?_⟩),
      fun id hid => ?_, fun id hsome => ?_⟩
    · rintro id hid id' hid' rfl
      rw [List.mem_singleton.mp hid'] at hid
      exact absurd (h.pending_lt _ hid) (UInt64.lt_irrefl _)
    · rcases List.mem_append.mp (hpending.subset hid) with hold | hnew
      · exact UInt64.lt_trans (h.pending_lt id hold) hlt
      · rwa [List.mem_singleton.mp hnew]
    · rcases hworks id hsome with hold | ⟨rfl, -⟩
      · exact UInt64.lt_trans hold hlt
      · exact hlt

/-- At genesis nothing is kept about any work. -/
theorem genesis_view (h : Chain.Genesis T s) (id : WorkId) (r : AssignmentRound) :
    (s.view id).work = none ∧ (s.view id).candidates r = none ∧
      (s.view id).rounds r = ⟨none, fun _ => none, fun _ => none, none, none⟩ := by
  obtain ⟨config, ledger, hbuild⟩ := h
  obtain ⟨base, hbase, hwithin⟩ := genesisBuild_ok hbuild
  have hview : s.view id = (State.init T ledger).view id := by
    rw [hwithin.unchanged (fun s => s.view id) fun _ _ => rfl]
    exact WorkView.ext rfl rfl (funext fun r =>
      Workers.roundKept_of_within ((Workers.genesisBuild_within _).of_ok hbase) (id, r))
  rw [hview]
  exact ⟨rfl, rfl, rfl⟩

theorem pendingInv_genesis (h : Chain.Genesis T s) : PendingInv s := by
  obtain ⟨ledger, hpending⟩ := genesis_initial h State.pendingWorks fun _ _ => rfl
  have hnil : s.pendingWorks.toList = [] := by
    rw [hpending]
    rfl
  refine ⟨by rw [hnil]; exact List.nodup_nil, fun id hid => ?_, fun id hsome => ?_⟩
  · rw [hnil] at hid
    cases hid
  · exact absurd (genesis_view h id 0).1 hsome

/-- A run as what its steps do to the works. -/
abbrev WorkRun (T : Config AccountId Ledger) :
    Chain.History T → State T → Prop :=
  Trace (Chain.Genesis T) WorkStep

theorem WorkRun.pendingInv (hr : WorkRun T h s) : PendingInv s :=
  hr.invariant_state (I := PendingInv) (fun _ hs => pendingInv_genesis hs)
    fun _ _ _ hi hstep => hstep.pendingInv hi

/-- Every run of the chain is one. -/
theorem workRun_of_run (hr : Chain.Run T h s) : WorkRun T h s := by
  induction hr with
  | start hs => exact .start hs
  | extend _ hs ih => exact .extend ih (workStep_of_step ih.pendingInv hs)

/-- A property of one work and the history holds after every run when it holds at genesis and
what a step does to the work keeps it. -/
theorem life_invariant {I : Chain.History T → State T → Prop}
    (id : WorkId) (hinit : ∀ s, Chain.Genesis T s → I [] s)
    (hmove : ∀ h s l s', I h s → LifeMove s l s' id → I (⟨s, l, s'⟩ :: h) s') (hr : WorkRun T h s) :
    I h s :=
  hr.invariant hinit fun h s l s' hi hstep => hmove h s l s' hi (hstep.moves id)

end MiniJam.Jam
