import MiniJam.Proofs.Admission
import MiniJam.Proofs.Import
import MiniJam.Proofs.Rounds

/-!
# `MiniJam.Proofs.WorkLife`: what a step does to one work

The two pallets keep a record, candidates and rounds for every work. `WorkView` collects
what they keep about one work, and `LifeStep` is the life of a work in these terms alone:
assignment of workers, a candidate, acceptance, a next round, failure and import.

The functions that move a work are inverted here: each touches its own work only, and what
it does to the view of that work is one step of its life.
-/

set_option autoImplicit false

namespace MiniJam.Jam

open Workers (RoundView Settles Clears VoteChecked)

variable {AccountId Ledger : Type} {T : Config AccountId Ledger} {s s' : State T}

/-! ### The view of a work -/

/-- What the two pallets keep about one work. -/
@[ext] structure WorkView (T : Config AccountId Ledger) where
  work : Option (WorkRecord AccountId)
  candidates : AssignmentRound → Option (CandidateRecord AccountId)
  rounds : AssignmentRound → RoundView T.workers

def State.view (s : State T) (id : WorkId) : WorkView T where
  work := s.works.lookup id
  candidates r := s.candidates.lookup (id, r)
  rounds r := s.base.round (id, r)

namespace WorkView

variable (v : WorkView T)

def setWork (work : WorkRecord AccountId) : WorkView T := { v with work := some work }

def setRound (r : AssignmentRound) (round : RoundView T.workers) : WorkView T :=
  { v with rounds := Function.update v.rounds r round }

def setCandidate (r : AssignmentRound) (candidate : CandidateRecord AccountId) : WorkView T :=
  { v with candidates := Function.update v.candidates r (some candidate) }

@[simp] theorem setRound_rounds_self (r : AssignmentRound) (round : RoundView T.workers) :
    (v.setRound r round).rounds r = round := Function.update_self ..

variable {r r' : AssignmentRound}

theorem setRound_rounds_of_ne (h : r' ≠ r) (round : RoundView T.workers) :
    (v.setRound r round).rounds r' = v.rounds r' :=
  Function.update_of_ne h ..

@[simp] theorem setCandidate_candidates_self (r : AssignmentRound)
    (candidate : CandidateRecord AccountId) :
    (v.setCandidate r candidate).candidates r = some candidate := Function.update_self ..

theorem setCandidate_candidates_of_ne (h : r' ≠ r) (candidate : CandidateRecord AccountId) :
    (v.setCandidate r candidate).candidates r' = v.candidates r' := Function.update_of_ne h ..

end WorkView

/-- The report of the envelope was checked against the package of the work. -/
def ReportChecked (T : Config AccountId Ledger) (work : WorkRecord AccountId)
    (envelope : ReportEnvelopeV1) : Prop :=
  ∃ s s' : State T, validateCandidateReport work envelope s = .ok () s'

/-! ### The life of a work -/

/-- Preparing a round: workers are assigned, or the round had some, or there are too few. -/
inductive Prepares (v : WorkView T) (work : WorkRecord AccountId) : WorkView T → Prop where
  | assigned {assignment : Workers.Assignment T.workers} {keys : WorkerId → Option PublicKey}
      {deadline : BlockNumber} (hfree : (v.rounds work.round).assignment = none) :
      Prepares v work ((v.setRound work.round { v.rounds work.round with
        assignment := some assignment, keys := keys }).setWork
          { work with status := .awaitingCandidate, candidateDeadline := deadline })
  | existing {assignment : Workers.Assignment T.workers} {deadline : BlockNumber}
      (hassigned : (v.rounds work.round).assignment = some assignment) :
      Prepares v work (v.setWork
        { work with status := .awaitingCandidate, candidateDeadline := deadline })
  | short : Prepares v work (v.setWork { work with status := .insufficientWorkers })

/-- A round is under way: a candidate or its votes are awaited. -/
def WorkStatus.underWay : WorkStatus → Bool
  | .awaitingCandidate => true
  | .voting => true
  | _ => false

/-- One step in the life of a work after its creation. -/
inductive LifeStep (v : WorkView T) : WorkView T → Prop where
  /-- Some votings of the work close, or nothing happens. -/
  | settle {rounds : AssignmentRound → RoundView T.workers}
      (hsettles : ∀ r, Settles (v.rounds r) (rounds r)) : LifeStep v { v with rounds := rounds }
  | prepare {work : WorkRecord AccountId} {v' : WorkView T} (hwork : v.work = some work)
      (hstatus : work.status = .insufficientWorkers) (hprepares : Prepares v work v') :
      LifeStep v v'
  /-- A checked report is stored and its voting opens. -/
  | candidate {work : WorkRecord AccountId} {candidate : CandidateRecord AccountId}
      {epoch : EpochIndex} {deadline : BlockNumber} (hwork : v.work = some work)
      (hstatus : work.status = .awaitingCandidate)
      (hnew : v.candidates work.round = none)
      (hhash : candidate.envelope.computedReportHash T.workers.crypto =
        candidate.envelope.canonicalReportHash)
      (hchecked : ReportChecked T work candidate.envelope) :
      LifeStep v (((v.setRound work.round { v.rounds work.round with
        voting := some ⟨epoch, candidate.envelope.canonicalReportHash, deadline, 0, 0, 0,
          none⟩ }).setCandidate work.round candidate).setWork { work with status := .voting })
  | fail {work : WorkRecord AccountId} {round : RoundView T.workers}
      (hwork : v.work = some work) (hstatus : work.status.underWay = true)
      (hclears : Clears (v.rounds work.round) round) :
      LifeStep v ((v.setRound work.round round).setWork { work with status := .failed })
  /-- The work enters its next round. -/
  | advance {work : WorkRecord AccountId} {round : RoundView T.workers} {v' : WorkView T}
      (hwork : v.work = some work) (hstatus : work.status.underWay = true)
      (hclears : Clears (v.rounds work.round) round)
      (hnext : work.round.satAdd 1 < T.maxCandidateRounds)
      (hprepares : Prepares ((v.setRound work.round round).setWork
          { work with round := work.round.satAdd 1, status := .insufficientWorkers })
        { work with round := work.round.satAdd 1, status := .insufficientWorkers } v') :
      LifeStep v v'
  | accept {work : WorkRecord AccountId} {result : Workers.RoundResult T.workers}
      {round : RoundView T.workers}
      (hwork : v.work = some work) (hstatus : work.status = .voting)
      (hresult : (v.rounds work.round).result = some result)
      (hdecision : result.decision = some .accepted)
      (hclears : Clears (v.rounds work.round) round) :
      LifeStep v ((v.setRound work.round round).setWork { work with status := .accepted })
  | imported {work : WorkRecord AccountId} (hwork : v.work = some work)
      (hstatus : work.status = .accepted) :
      LifeStep v (v.setWork { work with status := .imported })

/-- Nothing happens to the work. -/
theorem LifeStep.stay (v : WorkView T) : LifeStep v v := .settle fun _ => Or.inl rfl

variable {id : WorkId}

/-- A work that is left alone. -/
theorem LifeStep.of_view_eq (h : s'.view id = s.view id) : LifeStep (s.view id) (s'.view id) := by
  rw [h]
  exact LifeStep.stay _

/-- A work that does not exist does not come into being in a step of its life. -/
theorem LifeStep.absent {v v' : WorkView T} (h : LifeStep v v') (habsent : v.work = none) :
    v'.work = none := by
  cases h with
  | settle hsettles => exact habsent
  | prepare hwork => rw [habsent] at hwork; cases hwork
  | candidate hwork => rw [habsent] at hwork; cases hwork
  | fail hwork => rw [habsent] at hwork; cases hwork
  | advance hwork => rw [habsent] at hwork; cases hwork
  | accept hwork => rw [habsent] at hwork; cases hwork
  | imported hwork => rw [habsent] at hwork; cases hwork

/-- The work was accepted, and it may have been imported since. -/
def WorkStatus.Passed (status : WorkStatus) : Prop := status = .accepted ∨ status = .imported

variable {work : WorkRecord AccountId}

/-- An accepted work stays accepted or becomes imported, in the same round and with the same
candidates. -/
theorem LifeStep.passed {v v' : WorkView T} (h : LifeStep v v') (hwork : v.work = some work)
    (hpassed : work.status.Passed) :
    ∃ work', v'.work = some work' ∧ work'.status.Passed ∧ work'.round = work.round ∧
      v'.candidates = v.candidates := by
  -- Every other step is one of a work that is not accepted yet.
  have hnot : ∀ {work' : WorkRecord AccountId}, v.work = some work' →
      work'.status ≠ .insufficientWorkers ∧ work'.status ≠ .awaitingCandidate ∧
        work'.status ≠ .voting := by
    intro work' hwork'
    rw [hwork] at hwork'
    cases hwork'
    rcases hpassed with h | h <;> rw [h] <;> exact ⟨nofun, nofun, nofun⟩
  have hunder : ∀ {work' : WorkRecord AccountId}, v.work = some work' →
      work'.status.underWay = false := by
    intro work' hwork'
    rw [hwork] at hwork'
    cases hwork'
    rcases hpassed with h | h <;> rw [h] <;> rfl
  cases h with
  | settle hsettles => exact ⟨work, hwork, hpassed, rfl, rfl⟩
  | prepare hwork' hstatus => exact absurd hstatus (hnot hwork').1
  | candidate hwork' hstatus => exact absurd hstatus (hnot hwork').2.1
  | fail hwork' hstatus => rw [hunder hwork'] at hstatus; cases hstatus
  | advance hwork' hstatus => rw [hunder hwork'] at hstatus; cases hstatus
  | accept hwork' hstatus => exact absurd hstatus (hnot hwork').2.2
  | imported hwork' =>
    rw [hwork] at hwork'
    cases hwork'
    exact ⟨_, rfl, Or.inr rfl, rfl, rfl⟩

/-! ### Computations for one work -/

theorem view_of_ledger (h : ledgerItems.Within s s') (id : WorkId) : s'.view id = s.view id :=
  h.unchanged (fun s => s.view id) fun _ _ => rfl

/-- What a computation for one work may do to the rest of the storage: the views of the
other works and the next id stay, and works leave the pending ones at most. -/
structure Touches (id : WorkId) (s s' : State T) : Prop where
  others : ∀ id', id' ≠ id → s'.view id' = s.view id'
  nextWorkId : s'.nextWorkId = s.nextWorkId
  pending : s'.pendingWorks.toList.Subperm s.pendingWorks.toList

instance (id : WorkId) : Std.Refl (Touches (T := T) id) :=
  ⟨fun _ => ⟨fun _ _ => rfl, rfl, List.Subperm.refl _⟩⟩

instance (id : WorkId) : IsTrans (State T) (Touches id) where
  trans _ _ _ h₁ h₂ :=
    { others := fun id' hid => (h₂.others id' hid).trans (h₁.others id' hid)
      nextWorkId := h₂.nextWorkId.trans h₁.nextWorkId
      pending := h₂.pending.trans h₁.pending }

theorem touches_of_ledger (id : WorkId) (h : ledgerItems.Within s s') : Touches id s s' where
  others id' _ := view_of_ledger h id'
  nextWorkId := h.unchanged State.nextWorkId fun _ _ => rfl
  pending := by rw [h.unchanged State.pendingWorks fun _ _ => rfl]

/-- A write to the record of a work touches that work. -/
theorem touches_insertWork (id : WorkId) (work : WorkRecord AccountId) (s : State T) :
    Touches id s { s with works := s.works.insert id work } where
  others _ hid := WorkView.ext (AList.lookup_insert_ne hid) rfl rfl
  nextWorkId := rfl
  pending := List.Subperm.refl _

variable {base : Workers.State T.workers}

/-- The workers pallet keeps the rounds of other works. -/
theorem touches_withBase (h : ∀ k : Workers.RoundKey, k.1 ≠ id → Workers.RoundKept k s.base base) :
    Touches id s { s with base := base } :=
  ⟨fun id' hid => WorkView.ext rfl rfl (funext fun r => h (id', r) hid), rfl, List.Subperm.refl _⟩

theorem inWorkers_touches {α : Type} {m : Workers.M T.workers α}
    (h : ∀ k : Workers.RoundKey, k.1 ≠ id → Tx.Rel (Workers.RoundKept k) m) :
    Tx.Rel (Touches id) (inWorkers m : M T α) := by
  refine .intro (fun s a s' hm => ?_) (fun s e s' hm => ?_)
  · obtain ⟨base, hbase, rfl⟩ := Tx.zoom_ok.mp hm
    exact touches_withBase fun k hk => (h k hk).of_ok hbase
  · obtain ⟨base, hbase, rfl⟩ := Tx.zoom_err.mp hm
    exact touches_withBase fun k hk => (h k hk).of_err hbase

theorem ne_of_fst_ne {k : Workers.RoundKey} {r : AssignmentRound} (h : k.1 ≠ id) :
    k ≠ (id, r) := fun hk => h (congrArg Prod.fst hk)

theorem touches_frame (id : WorkId) : WorkFrame (T := T) (Touches id) id where
  money _ _ := touches_of_ledger id
  record s work := touches_insertWork id work s
  pending := Tx.Rel.modify fun s => ⟨fun _ _ => rfl, rfl, s.pendingWorks.removeFirst_subperm _⟩
  assign _ := inWorkers_touches fun _ hk => Workers.assignWork_kept (ne_of_fst_ne hk)
  clear _ := inWorkers_touches fun _ hk => Workers.clearAssignment_kept (ne_of_fst_ne hk)

/-- Progress of one work touches that work. -/
theorem progressWork_touches (block : BlockNumber) (id : WorkId) :
    Tx.Rel (Touches id) (progressWork block id : M T Unit) :=
  -- The queue of accepted works is in no view.
  (touches_frame id).progressWork (fun _ _ => ⟨fun _ _ => rfl, rfl, List.Subperm.refl _⟩) block

/-! ### What the computations do to their work -/

theorem view_insertWork (id : WorkId) (work : WorkRecord AccountId) (s : State T) :
    State.view { s with works := s.works.insert id work } id = (s.view id).setWork work :=
  WorkView.ext (AList.lookup_insert _) rfl rfl

/-- A round of the work in another storage of the workers pallet. -/
theorem view_withBase {r : AssignmentRound}
    (hothers : ∀ r', r' ≠ r → Workers.RoundKept (id, r') s.base base) :
    State.view { s with base := base } id = (s.view id).setRound r (base.round (id, r)) := by
  refine WorkView.ext rfl rfl (funext fun r' => ?_)
  show base.round (id, r') = Function.update (s.view id).rounds r (base.round (id, r)) r'
  by_cases hr : r' = r
  · rw [hr, Function.update_self]
  · rw [Function.update_of_ne hr]
    exact hothers r' hr

theorem key_ne {r r' : AssignmentRound} (h : r' ≠ r) : (id, r') ≠ (id, r) :=
  fun hk => h (congrArg Prod.snd hk)

theorem clearAssignment_view {r : AssignmentRound}
    (h : inWorkers (Workers.clearAssignment id r) s = .ok () s') :
    ∃ round, Clears ((s.view id).rounds r) round ∧ s'.view id = (s.view id).setRound r round := by
  obtain ⟨base, hbase, rfl⟩ := Tx.zoom_ok.mp h
  obtain ⟨hclears, hothers⟩ := Workers.clearAssignment_ok hbase
  exact ⟨base.round (id, r), hclears, view_withBase fun r' hr => hothers _ (key_ne hr)⟩

/-- A prepared round. -/
theorem prepareRound_ok (h : prepareRound id s = .ok () s') :
    ∃ work, s.works.lookup id = some work ∧ Prepares (s.view id) work (s'.view id) := by
  unfold prepareRound at h
  rw [Tx.read_bind_apply] at h
  obtain ⟨work, hwork, h₁⟩ := Tx.okOr_bind_ok.mp h
  obtain ⟨assigned, s₁, hassigned, h₂⟩ := Tx.bind_ok.mp h₁
  refine ⟨work, hwork, ?_⟩
  rcases Tx.attempt_ok.mp hassigned with ⟨assignment, hassign, rfl⟩ | ⟨e, hassign, rfl⟩
  · have hview : s'.view id = (s₁.view id).setWork
        { work with
          status := .awaitingCandidate
          candidateDeadline := s.base.blockNumber.satAdd T.reportSubmissionDeadline } := by
      cases h₂
      exact view_insertWork id _ s₁
    obtain ⟨base, hbase, rfl⟩ := Tx.zoom_ok.mp hassign
    rw [hview]
    rcases Workers.assignWork_ok hbase with ⟨hexisting, rfl⟩ | ⟨hfree, keys, hround⟩
    · exact Prepares.existing hexisting
    · rw [view_withBase fun r' hr => (Workers.assignWork_kept (key_ne hr)).of_ok hbase, hround]
      exact Prepares.assigned hfree
  · have hview : s'.view id =
        (s₁.view id).setWork { work with status := .insufficientWorkers } := by
      cases h₂
      exact view_insertWork id _ s₁
    -- An assignment that fails has written nothing.
    obtain ⟨base, hbase, rfl⟩ := Tx.zoom_err.mp hassign
    rw [hview, Workers.assignWork_err hbase]
    exact Prepares.short

/-- A round is not prepared only when the work is missing. -/
theorem prepareRound_err {e : DispatchError} (h : prepareRound id s = .err e s') :
    s.works.lookup id = none ∧ s' = s := by
  unfold prepareRound at h
  rw [Tx.read_bind_apply] at h
  rcases Tx.bind_err.mp h with h₁ | ⟨work, s₁, -, h₁⟩
  · cases hwork : s.works.lookup id with
    | none =>
      rw [hwork] at h₁
      cases h₁
      exact ⟨rfl, rfl⟩
    | some work =>
      rw [hwork] at h₁
      cases h₁
  · rcases Tx.bind_err.mp h₁ with h₂ | ⟨assigned, s₂, -, h₂⟩
    · unfold Tx.attempt at h₂
      cases hm : inWorkers (Workers.assignWork id work.round) s₁ <;> rw [hm] at h₂ <;> cases h₂
    · cases h₂

/-- A round that is over: the work fails or enters its next round. -/
theorem advanceOrFail_ok {rejectedCandidate : Bool} (hwork : s.works.lookup id = some work)
    (hstatus : work.status.underWay = true)
    (h : advanceOrFailInner id rejectedCandidate s = .ok () s') :
    LifeStep (s.view id) (s'.view id) := by
  unfold advanceOrFailInner at h
  rw [Tx.read_bind_apply] at h
  obtain ⟨work', hwork', h₁⟩ := Tx.okOr_bind_ok.mp h
  rw [hwork] at hwork'
  cases hwork'
  obtain ⟨_, s₁, hreject, h₂⟩ := Tx.bind_ok.mp h₁
  obtain ⟨_, s₂, hclear, h₃⟩ := Tx.bind_ok.mp h₂
  -- Settling the candidate moves money only.
  have hview₁ : s₁.view id = s.view id := by
    have hwithin : Tx.Rel ledgerItems.Within (if rejectedCandidate = true then
        rejectCandidate id work.round else (pure () : M T Unit)) :=
      Tx.Rel.ite (rejectCandidate_within _ _) (Tx.Rel.pure ())
    exact view_of_ledger (hwithin.of_ok hreject) id
  obtain ⟨round, hclears, hview₂⟩ := clearAssignment_view hclear
  rw [hview₁] at hclears hview₂
  split_ifs at h₃ with hlast
  · obtain ⟨_, s₃, hslash, h₄⟩ := Tx.bind_ok.mp h₃
    rw [Tx.modify_bind_apply] at h₄
    obtain ⟨_, s₄, hremove, h₅⟩ := Tx.bind_ok.mp h₄
    obtain ⟨_, s₅, hclear', h₆⟩ := Tx.bind_ok.mp h₅
    have hview₃ := view_of_ledger ((slashInFull_within _ _ _).of_ok hslash) id
    have hview₄ : s₄.view id = (s₃.view id).setWork { work with status := .failed } := by
      cases hremove
      exact view_insertWork id _ s₃
    obtain ⟨round', hclears', hview₅⟩ := clearAssignment_view hclear'
    have hview₆ := view_of_ledger ((depositEvent_within _).of_ok h₆) id
    rw [hview₄, hview₃, hview₂] at hclears' hview₅
    -- The assignment is cleared a second time, which changes nothing more.
    have hround : Clears ((s.view id).rounds work.round) round' := by
      refine hclears.trans ?_
      rwa [show (((s.view id).setRound work.round round).setWork
        { work with status := .failed }).rounds work.round = round from
          WorkView.setRound_rounds_self ..] at hclears'
    rw [hview₆, hview₅, show ((((s.view id).setRound work.round round).setWork
      { work with status := .failed }).setRound work.round round') =
        ((s.view id).setRound work.round round').setWork { work with status := .failed } from
        WorkView.ext rfl rfl (Function.update_idem ..)]
    exact LifeStep.fail hwork hstatus hround
  · obtain ⟨_, s₃, hmodify, hprepare⟩ := Tx.bind_ok.mp h₃
    have hview₃ : s₃.view id = (s₂.view id).setWork
        { work with round := work.round.satAdd 1, status := .insufficientWorkers } := by
      cases hmodify
      exact view_insertWork id _ s₂
    obtain ⟨work₃, hwork₃, hprepares⟩ := prepareRound_ok hprepare
    have hrecord : work₃ =
        { work with round := work.round.satAdd 1, status := .insufficientWorkers } := by
      have : (s₃.view id).work = some work₃ := hwork₃
      rw [hview₃] at this
      exact (Option.some.inj this).symm
    rw [hview₃, hview₂, hrecord] at hprepares
    exact LifeStep.advance hwork hstatus hclears (UInt8.not_le.mp hlast) hprepares

/-- What a computation for a work does to it, and to the queue of accepted works: the work
takes one step of its life, and an item that enters the queue is of this work, which is
accepted then. -/
structure Progresses (id : WorkId) (s s' : State T) : Prop where
  lives : LifeStep (s.view id) (s'.view id)
  enqueues : ∀ item ∈ s'.executionQueue.toList, item ∈ s.executionQueue.toList ∨
    item.workId = id ∧ ∃ work, s'.works.lookup id = some work ∧ work.status = .accepted

/-- The same, with what happens to the queue in full: it stays, or the work goes from voting to
accepted and is put at its end, due in the next block. -/
structure Advances (id : WorkId) (s s' : State T) : Prop extends Progresses id s s' where
  queue : s'.executionQueue = s.executionQueue ∨
    (∃ work, s.works.lookup id = some work ∧ work.status = .voting) ∧
      (∃ work, s'.works.lookup id = some work ∧ work.status = .accepted) ∧
      s'.executionQueue.toList =
        s.executionQueue.toList ++ [⟨id, s.base.blockNumber.satAdd 1⟩]

theorem Advances.stay (id : WorkId) (s : State T) : Advances id s s :=
  ⟨⟨LifeStep.stay _, fun _ hitem => Or.inl hitem⟩, Or.inl rfl⟩

/-- A step of a life that leaves the queue. -/
theorem Advances.of_lives (hwithin : workItems.Within s s')
    (hlives : LifeStep (s.view id) (s'.view id)) : Advances id s s' := by
  have hqueue : s'.executionQueue = s.executionQueue :=
    hwithin.unchanged State.executionQueue fun _ _ => rfl
  refine ⟨⟨hlives, fun item hitem => Or.inl ?_⟩, Or.inl hqueue⟩
  rwa [hqueue] at hitem

/-- An accepted candidate. -/
theorem acceptCandidate_ok {result : Workers.RoundResult T.workers}
    (hwork : s.works.lookup id = some work) (hstatus : work.status = .voting)
    (hresult : s.base.roundResults.lookup (id, work.round) = some result)
    (hdecision : result.decision = some .accepted) (h : acceptCandidateInner id s = .ok () s') :
    Advances id s s' := by
  unfold acceptCandidateInner at h
  rw [Tx.read_bind_apply] at h
  obtain ⟨work', hwork', h₁⟩ := Tx.okOr_bind_ok.mp h
  rw [hwork] at hwork'
  cases hwork'
  obtain ⟨candidate, -, h₂⟩ := Tx.okOr_bind_ok.mp h₁
  obtain ⟨_, s₁, hvalid, h₃⟩ := Tx.bind_ok.mp h₂
  obtain ⟨_, s₂, hbond, h₄⟩ := Tx.bind_ok.mp h₃
  obtain ⟨_, s₃, hreward, h₅⟩ := Tx.bind_ok.mp h₄
  obtain ⟨_, s₄, hdeposit, h₆⟩ := Tx.bind_ok.mp h₅
  rw [Tx.modify_bind_apply] at h₆
  obtain ⟨queue, hqueue, h₇⟩ := Tx.okOr_bind_ok.mp h₆
  rw [Tx.modify_bind_apply] at h₇
  obtain ⟨_, s₅, hremove, h₈⟩ := Tx.bind_ok.mp h₇
  obtain ⟨_, s₆, hclear, h₉⟩ := Tx.bind_ok.mp h₈
  -- Everything before the record is written moves money only.
  have hmoney : ledgerItems.Within s s₄ :=
    IsTrans.trans _ _ _ ((validateCandidateReport_within _ _).of_ok hvalid)
      (IsTrans.trans _ _ _ ((currencyOp_within _).of_ok hbond)
        (IsTrans.trans _ _ _ ((currencyOp_within _).of_ok hreward)
          ((currencyOp_within _).of_ok hdeposit)))
  have hview₅ : s₅.view id = (s.view id).setWork { work with status := .accepted } := by
    rw [← view_of_ledger hmoney id]
    cases hremove
    exact view_insertWork id _ s₄
  obtain ⟨round, hclears, hview₆⟩ := clearAssignment_view hclear
  have hview : s'.view id = s₆.view id := view_of_ledger ((depositEvent_within _).of_ok h₉) id
  rw [hview₅] at hclears hview₆
  rw [hview₆] at hview
  have hpushed : s'.executionQueue.toList =
      s.executionQueue.toList ++ [⟨id, s.base.blockNumber.satAdd 1⟩] := by
    have hlast : workItems.Within s₅ s' := IsTrans.trans _ _ _
      ((baseItems_work (inWorkers_within _)).of_ok hclear) ((depositEvent_work _).of_ok h₉)
    rw [hlast.unchanged State.executionQueue fun _ _ => rfl, ← BoundedVec.tryPush_eq_some.mp hqueue]
    cases hremove
    rfl
  have haccepted : ∃ work, s'.works.lookup id = some work ∧ work.status = .accepted :=
    ⟨_, congrArg WorkView.work hview, rfl⟩
  refine ⟨⟨?_, fun item hitem => ?_⟩, Or.inr ⟨⟨work, hwork, hstatus⟩, haccepted, hpushed⟩⟩
  · rw [hview]
    exact LifeStep.accept hwork hstatus hresult hdecision hclears
  · rw [hpushed, List.mem_append] at hitem
    refine hitem.imp_right fun hnew => ?_
    rw [List.mem_singleton.mp hnew]
    exact ⟨rfl, haccepted⟩

/-- Progress of a pending work does nothing, prepares a round, ends one or accepts a candidate. -/
theorem progressWork_cases {block : BlockNumber} (h : progressWork block id s = .ok () s') :
    s' = s ∨ ∃ work, s.works.lookup id = some work ∧
      (work.status = .insufficientWorkers ∧ prepareRound id s = .ok () s' ∨
      (∃ rejectedCandidate,
        work.status = (if rejectedCandidate then .voting else .awaitingCandidate) ∧
        advanceOrFail id rejectedCandidate s = .ok () s') ∨
      work.status = .voting ∧
        (∃ result, s.base.roundResults.lookup (id, work.round) = some result ∧
          result.decision = some .accepted) ∧
        acceptCandidate id s = .ok () s') := by
  unfold progressWork at h
  rw [Tx.read_bind_apply] at h
  cases hwork : s.works.lookup id with
  | none =>
    rw [hwork] at h
    cases h
    exact Or.inl rfl
  | some work =>
    rw [hwork] at h
    dsimp only at h
    -- Each attempt is a transaction: one that fails leaves the storage as it was.
    have hover : ∀ rejectedCandidate,
        (Tx.ignore (advanceOrFail id rejectedCandidate) : M T Unit) s = .ok () s' →
        s' = s ∨ advanceOrFail id rejectedCandidate s = .ok () s' :=
      fun _ h => Tx.ignore_undone (fun _ _ => Tx.transaction_err) h
    cases hstatus : work.status with
    | insufficientWorkers =>
      rw [hstatus] at h
      exact (Tx.ignore_undone (fun _ _ h => (prepareRound_err h).2) h).imp_right fun h =>
        ⟨work, rfl, Or.inl ⟨hstatus, h⟩⟩
    | awaitingCandidate =>
      rw [hstatus] at h
      dsimp only at h
      split_ifs at h
      · exact (hover false h).imp_right fun h => ⟨work, rfl, Or.inr (Or.inl ⟨false, hstatus, h⟩)⟩
      · cases h
        exact Or.inl rfl
    | voting =>
      rw [hstatus] at h
      dsimp only at h
      cases hresult : s.base.roundResults.lookup (id, work.round) with
      | none =>
        rw [hresult] at h
        cases h
        exact Or.inl rfl
      | some result =>
        rw [hresult] at h
        dsimp only at h
        -- A tie or too few votes end the round as a rejection does.
        rcases hdecision : result.decision with _ | ⟨_ | _⟩ <;> rw [hdecision] at h
        · exact (hover true h).imp_right fun h => ⟨work, rfl, Or.inr (Or.inl ⟨true, hstatus, h⟩)⟩
        · exact (Tx.ignore_undone (fun _ _ => Tx.transaction_err) h).imp_right fun h =>
            ⟨work, rfl, Or.inr (Or.inr ⟨hstatus, ⟨result, hresult, hdecision⟩, h⟩)⟩
        · exact (hover true h).imp_right fun h => ⟨work, rfl, Or.inr (Or.inl ⟨true, hstatus, h⟩)⟩
    | accepted => rw [hstatus] at h; cases h; exact Or.inl rfl
    | imported => rw [hstatus] at h; cases h; exact Or.inl rfl
    | failed => rw [hstatus] at h; cases h; exact Or.inl rfl

/-- Progress of a pending work. -/
theorem progressWork_ok {block : BlockNumber} (h : progressWork block id s = .ok () s') :
    Advances id s s' := by
  rcases progressWork_cases h with rfl | ⟨work, hwork, ⟨hstatus, h⟩ | ⟨rejected, hstatus, h⟩ |
    ⟨hstatus, ⟨result, hresult, hdecision⟩, h⟩⟩
  · exact Advances.stay id _
  · obtain ⟨work', hwork', hprepares⟩ := prepareRound_ok h
    cases hwork.symm.trans hwork'
    exact .of_lives ((prepareRound_within _).of_ok h) (LifeStep.prepare hwork hstatus hprepares)
  · have hunderWay : work.status.underWay = true := by cases rejected <;> rw [hstatus] <;> rfl
    exact .of_lives ((advanceOrFail_within _ _).of_ok h)
      (advanceOrFail_ok hwork hunderWay (Tx.transaction_ok.mp h))
  · exact acceptCandidate_ok hwork hstatus hresult hdecision (Tx.transaction_ok.mp h)

end MiniJam.Jam
