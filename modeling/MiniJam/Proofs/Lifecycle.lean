import MiniJam.Proofs.RoundBook
import MiniJam.Proofs.RoundHistory
import MiniJam.Proofs.WorkMoves
import MiniJam.Proofs.WorkersRuns

/-!
# `MiniJam.Proofs.Lifecycle`: the storage of the two pallets agrees about every work

The status of a work is in one map of the minijam pallet. What the status promises is spread over
the list of the pending works, the candidates, the queue of accepted works, and five items of the
workers pallet. `Lifecycle` says that all of them agree.

Three invariants are put together: the `WorkBook` of the minijam pallet, the `RoundBook` of the
workers pallet, and `RoundState`, which connects the two for the current round of every work.
`lifecycle_of_run` has the result for every run of the chain.

The virtual block gives up with a fatal error when an item of its queue does not have an accepted
work with a candidate. `DueItemsSafe` says that this cannot happen.
-/

set_option autoImplicit false

namespace MiniJam.Jam

variable {AccountId Ledger : Type} {T : Config AccountId Ledger} {s s' : State T}

/-! ### Due items -/

/-- The parts of a commit before the reports are imported. -/
def commitBeforeImport (output : MiniJamExecutionOutput) (delta : ValidatedDelta) :
    X T Unit := do
  applyDelta delta
  consumeSuccessfulAllocations delta.changes
  consumePreimages output.consumedPreimages.toList
  consumeSystemOps output.consumedSystemOps.toList

variable {output : MiniJamExecutionOutput} {delta : ValidatedDelta}

/-- A commit fails in one of these parts or in the import of a report. -/
theorem commitOutput_err {workIds : List WorkId} {input : MiniJamExecutionInput}
    {e : ExecutionFailure} (h : commitOutput workIds input output delta s = .err e s') :
    commitBeforeImport output delta s = .err e s' ∨ ∃ s₁,
      commitBeforeImport output delta s = .ok () s₁ ∧
      Tx.forEach (importReport output) workIds s₁ = .err e s' := by
  have hsplit : (commitOutput workIds input output delta : X T BlockStfSummary) = (do
      commitBeforeImport output delta
      Tx.forEach (importReport output) workIds
      Tx.modify fun s => { s with lastExecutionReceipt := some output.receiptHash }
      pure ⟨input.reports.toList.length, input.preimages.toList.length,
        input.systemOps.toList.length, output.receiptHash⟩) := by
    unfold commitOutput commitBeforeImport
    simp only [Tx.bind_assoc]
  rw [hsplit] at h
  rcases Tx.bind_err.mp h with hbefore | ⟨_, s₁, hbefore, h⟩
  · exact Or.inl hbefore
  · rcases Tx.bind_err.mp h with himport | ⟨_, s₂, -, h⟩
    · exact Or.inr ⟨s₁, hbefore, himport⟩
    · -- The receipt is written without a check.
      cases h

/-- No item that is due makes the virtual block fail: each has a report, the reports fit their
batch when the configuration asks for no more than a batch, and a commit that fails has failed
before it came to the import of the reports. -/
structure DueItemsSafe (s : State T) (block : BlockNumber) : Prop where
  reports : ∃ reports, (dueItems s block).mapM (dueReport s) = .ok reports ∧
    (T.maxExecutionReports.toNat ≤ 4 → ∃ batch : ReportBatch, tryIntoBatch reports = .ok batch)
  imports : ∀ input output delta e s',
    commitOutput ((dueItems s block).map ExecutionItem.workId) input output delta s = .err e s' →
    commitBeforeImport output delta s = .err e s'

/-- The import of a work that has a candidate goes through. -/
theorem importReport_returns (output : MiniJamExecutionOutput) {id : WorkId}
    (h : candidateForWork s id ≠ none) : ∃ s', importReport output id s = .ok () s' := by
  obtain ⟨⟨round, candidate⟩, hfound⟩ := Option.ne_none_iff_exists'.mp h
  obtain ⟨work, hwork, -⟩ := candidateForWork_eq_some.mp hfound
  unfold importReport
  rw [Tx.read_bind_apply, hfound]
  by_cases hconsumed : candidate.envelope.canonicalReportHash ∈ output.consumedReports.toList
  · refine ⟨{ s with
      works := s.works.insert id { work with status := .imported }
      executionReceipts := s.executionReceipts.insert id output.receiptHash
      events := s.events ++ [.reportImported id output.receiptHash] }, ?_⟩
    show (if _ then _ else _ : X T Unit) s = _
    rw [if_pos hconsumed, hwork]
    rfl
  · refine ⟨s, ?_⟩
    show (if _ then _ else _ : X T Unit) s = _
    rw [if_neg hconsumed]
    rfl

/-- An import leaves every candidate, so one import after the other goes through. -/
theorem importReports_return (output : MiniJamExecutionOutput) {ids : List WorkId}
    (h : ∀ id ∈ ids, candidateForWork s id ≠ none) :
    ∃ s', Tx.forEach (importReport output) ids s = .ok () s' := by
  induction ids generalizing s with
  | nil => exact ⟨s, rfl⟩
  | cons id ids ih =>
    obtain ⟨s₁, hfirst⟩ := importReport_returns output (h id List.mem_cons_self)
    obtain ⟨s', hrest⟩ := ih (s := s₁) fun id' hid' => by
      rw [(importReport_outcome hfirst id').candidate]
      exact h id' (List.mem_cons_of_mem _ hid')
    refine ⟨s', ?_⟩
    rw [Tx.forEach_cons]
    exact Tx.bind_ok.mpr ⟨(), s₁, hfirst, hrest⟩

theorem commitBeforeImport_candidates (h : commitBeforeImport output delta s = .ok () s')
    (id : WorkId) : candidateForWork s' id = candidateForWork s id := by
  obtain ⟨_, s₁, h₁, h⟩ := Tx.bind_ok.mp h
  obtain ⟨_, s₂, h₂, h⟩ := Tx.bind_ok.mp h
  obtain ⟨_, s₃, h₃, h₄⟩ := Tx.bind_ok.mp h
  let found : State T → _ := fun s => candidateForWork s id
  calc found s' = found s₃ := ((consumeSystemOps_within _).of_ok h₄).unchanged found fun _ _ => rfl
    _ = found s₂ := ((consumePreimages_within _).of_ok h₃).unchanged found fun _ _ => rfl
    _ = found s₁ :=
      ((consumeSuccessfulAllocations_within _).of_ok h₂).unchanged found fun _ _ => rfl
    _ = found s := ((applyDelta_within _).of_ok h₁).unchanged found fun _ _ => rfl

/-- A queue of accepted works with candidates is safe at every block. -/
theorem dueItemsSafe_of_queue (hqueue : ∀ item ∈ s.executionQueue.toList, ∃ work candidate,
      s.works.lookup item.workId = some work ∧ work.status = .accepted ∧
      s.candidates.lookup (item.workId, work.round) = some candidate) (block : BlockNumber) :
    DueItemsSafe s block := by
  have hdue : ∀ item ∈ dueItems s block, item ∈ s.executionQueue.toList :=
    fun item hitem => mem_queue_iff.mpr (Or.inl hitem)
  constructor
  · have hfound : ∀ item ∈ dueItems s block, ∃ report, dueReport s item = .ok report := by
      intro item hitem
      obtain ⟨work, candidate, hwork, hstatus, hcandidate⟩ := hqueue item (hdue item hitem)
      exact ⟨_, dueReport_ok.mpr ⟨work, candidate, hwork, hstatus, hcandidate, rfl⟩⟩
    obtain ⟨reports, hreports⟩ := Except.mapM_ok_of_forall hfound
    refine ⟨reports, hreports, fun hmax => ⟨_, tryIntoBatch_of_length_le ?_⟩⟩
    rw [← (Except.mapM_ok_iff.mp hreports).length_eq]
    exact (length_dueItems_le s block).trans hmax
  · intro input output delta e s' hfailed
    rcases commitOutput_err hfailed with hbefore | ⟨s₁, hbefore, himport⟩
    · exact hbefore
    · -- The candidates are still there when the import begins.
      have hfound : ∀ id ∈ (dueItems s block).map ExecutionItem.workId,
          candidateForWork s₁ id ≠ none := by
        intro id hid
        obtain ⟨item, hitem, rfl⟩ := List.mem_map.mp hid
        obtain ⟨work, candidate, hwork, -, hcandidate⟩ := hqueue item (hdue item hitem)
        rw [commitBeforeImport_candidates hbefore,
          candidateForWork_eq_some.mpr ⟨work, hwork, rfl, hcandidate⟩]
        simp
      obtain ⟨s₂, hreturned⟩ := importReports_return output hfound
      rw [hreturned] at himport
      cases himport

/-! ### The lifecycle -/

/-- What the two pallets keep about the works agrees. -/
structure Lifecycle (s : State T) : Prop where
  pending_nodup : s.pendingWorks.toList.Nodup
  pending_iff : ∀ id, id ∈ s.pendingWorks.toList ↔ ∃ work, s.works.lookup id = some work ∧
    (work.status = .insufficientWorkers ∨ work.status = .awaitingCandidate ∨
      work.status = .voting)
  insufficient : ∀ id work, s.works.lookup id = some work → work.status = .insufficientWorkers →
    s.base.assignments.lookup (id, work.round) = none
  awaiting : ∀ id work, s.works.lookup id = some work → work.status = .awaitingCandidate →
    (∃ assignment epoch, s.base.assignments.lookup (id, work.round) = some assignment ∧
      s.base.assignmentEpochs.lookup (id, work.round) = some epoch ∧
      ∀ w ∈ assignment.toList, ∃ key,
        s.base.assignmentKeys.lookup (id, work.round, w) = some key) ∧
    s.candidates.lookup (id, work.round) = none ∧
    s.base.votingRounds.lookup (id, work.round) = none ∧
    s.base.roundResults.lookup (id, work.round) = none
  /-- The voting is open, or it is closed and has a result, and never both. -/
  voting : ∀ id work, s.works.lookup id = some work → work.status = .voting →
    (∃ candidate, s.candidates.lookup (id, work.round) = some candidate) ∧
    Xor (∃ voting, s.base.votingRounds.lookup (id, work.round) = some voting)
      (∃ result, s.base.roundResults.lookup (id, work.round) = some result)
  open_nodup : s.base.openVoteRounds.toList.Nodup
  open_iff : ∀ k, k ∈ s.base.openVoteRounds.toList ↔
    ∃ voting, s.base.votingRounds.lookup k = some voting
  queue_nodup : (s.executionQueue.toList.map ExecutionItem.workId).Nodup
  queue_accepted : ∀ item ∈ s.executionQueue.toList, ∃ work candidate,
    s.works.lookup item.workId = some work ∧ work.status = .accepted ∧
    s.candidates.lookup (item.workId, work.round) = some candidate
  due_safe : ∀ block, DueItemsSafe s block

theorem WorkStatus.isPending_iff (status : WorkStatus) : status.isPending = true ↔
    status = .insufficientWorkers ∨ status = .awaitingCandidate ∨ status = .voting := by
  cases status <;> simp [WorkStatus.isPending]

section
variable [DecidableEq AccountId] {h : Chain.History T}
  {work : WorkRecord AccountId} {id : WorkId}

/-- What the history says about the current round of a work. -/
theorem roundState_of_run (hr : Chain.Run T h s) (hwork : s.works.lookup id = some work) :
    RoundState h (id, work.round) (s.base.round (id, work.round))
      (s.candidates.lookup (id, work.round)) work.status :=
  ((workLived_some (v := s.view id) hwork).mp (workLived_of_run (workRun_of_run hr) id)).1

/-- The books of the rounds agree in every state of the chain, because the chain is one use
of the workers pallet. -/
theorem chain_roundBook_sound (hr : Chain.Run T h s) : s.base.roundBook.Sound := by
  obtain ⟨h', hrun⟩ := workersRun_of_run hr
  exact Workers.roundBook_sound hrun

theorem insufficient_of_run (hr : Chain.Run T h s) (hwork : s.works.lookup id = some work)
    (hstatus : work.status = .insufficientWorkers) :
    s.base.assignments.lookup (id, work.round) = none := by
  have hround := roundState_of_run hr hwork
  rw [hstatus] at hround
  cases hround with
  | fresh hfresh => exact hfresh.assignment
  | accepted hpassed => rcases hpassed with h | h <;> cases h

theorem awaiting_of_run (hr : Chain.Run T h s) (hwork : s.works.lookup id = some work)
    (hstatus : work.status = .awaitingCandidate) :
    (∃ assignment epoch, s.base.assignments.lookup (id, work.round) = some assignment ∧
      s.base.assignmentEpochs.lookup (id, work.round) = some epoch ∧
      ∀ w ∈ assignment.toList, ∃ key,
        s.base.assignmentKeys.lookup (id, work.round, w) = some key) ∧
    s.candidates.lookup (id, work.round) = none ∧
    s.base.votingRounds.lookup (id, work.round) = none ∧
    s.base.roundResults.lookup (id, work.round) = none := by
  have hround := roundState_of_run hr hwork
  rw [hstatus] at hround
  cases hround with
  | @awaiting t₀ assignment _ hassigned _ hvoting hresult hstored _ =>
    have hbook := chain_roundBook_sound hr
    have hassigned : s.base.assignments.lookup (id, work.round) = some assignment := hassigned
    -- The epoch and the keys are not part of the round's history, but they come with it.
    have hepoch : s.base.assignmentEpochs.lookup (id, work.round) ≠ none := by
      intro hnone
      have hfree : s.base.assignments.lookup (id, work.round) = none := (hbook.epoch _).mp hnone
      rw [hassigned] at hfree
      cases hfree
    obtain ⟨epoch, hepoch⟩ := Option.ne_none_iff_exists'.mp hepoch
    refine ⟨⟨assignment, epoch, hassigned, hepoch, fun w hw => ?_⟩, hstored, hvoting, hresult⟩
    exact Option.ne_none_iff_exists'.mp (hbook.keys _ assignment hassigned w hw)
  | accepted hpassed => rcases hpassed with h | h <;> cases h

theorem voting_of_run (hr : Chain.Run T h s) (hwork : s.works.lookup id = some work)
    (hstatus : work.status = .voting) :
    (∃ candidate, s.candidates.lookup (id, work.round) = some candidate) ∧
    Xor (∃ voting, s.base.votingRounds.lookup (id, work.round) = some voting)
      (∃ result, s.base.roundResults.lookup (id, work.round) = some result) := by
  have hround := roundState_of_run hr hwork
  rw [hstatus] at hround
  cases hround with
  | opened _ hstored _ _ hvoting _ _ _ hresult =>
    refine ⟨⟨_, hstored⟩, Or.inl ⟨⟨_, hvoting⟩, ?_⟩⟩
    rintro ⟨result, hsome⟩
    have hresult : s.base.roundResults.lookup (id, work.round) = none := hresult
    rw [hsome] at hresult
    cases hresult
  | closed _ hstored hvoting hresult =>
    refine ⟨⟨_, hstored⟩, Or.inr ⟨⟨_, hresult⟩, ?_⟩⟩
    rintro ⟨voting, hsome⟩
    have hvoting : s.base.votingRounds.lookup (id, work.round) = none := hvoting
    rw [hsome] at hvoting
    cases hvoting
  | accepted hpassed => rcases hpassed with h | h <;> cases h

/-- In every state of every run of the chain the storage of the two pallets agrees about every
work, and so no item that is due makes the virtual block fail. -/
theorem lifecycle_of_run (h : Chain.History T) (s : State T)
    (hr : Chain.Run T h s) : Lifecycle s := by
  have hbook := workBook_sound hr
  have hrounds := chain_roundBook_sound hr
  have hqueue : ∀ item ∈ s.executionQueue.toList, ∃ work candidate,
      s.works.lookup item.workId = some work ∧ work.status = .accepted ∧
      s.candidates.lookup (item.workId, work.round) = some candidate := by
    intro item hitem
    obtain ⟨work, hwork, hstatus⟩ := hbook.queue_accepted item hitem
    obtain ⟨candidate, hcandidate⟩ := hbook.candidate item.workId work hwork (by rw [hstatus]; rfl)
    exact ⟨work, candidate, hwork, hstatus, hcandidate⟩
  exact
    { pending_nodup := hbook.pending_nodup
      pending_iff := fun id => by
        rw [show id ∈ s.pendingWorks.toList ↔ _ from hbook.pending_iff id]
        simp only [WorkStatus.isPending_iff]
        rfl
      insufficient := fun id work => insufficient_of_run hr
      awaiting := fun id work => awaiting_of_run hr
      voting := fun id work => voting_of_run hr
      open_nodup := hrounds.open_nodup
      open_iff := fun k => (hrounds.open_iff k).trans Option.ne_none_iff_exists'
      queue_nodup := hbook.queue_nodup
      queue_accepted := hqueue
      due_safe := dueItemsSafe_of_queue hqueue }

end

open Reference

/-- The reference runtime with room for three works in a round. -/
abbrev threeWorks : Config AccountId32 Reference.Ledger :=
  { runtime consumeAll with
    workers := { (runtime consumeAll).workers with maxWorksPerRound := 3 } }

/-- Four works that have come as far as they can: the first is accepted and due, the second
is voted on, the third awaits a candidate, and there are no workers left for the fourth. -/
theorem lifecycle_of_run_four_works : ∃ h s, Chain.Run threeWorks h s ∧
    (∀ id status, (id, status) ∈ [((0 : WorkId), WorkStatus.accepted), (1, .voting),
      (2, .awaitingCandidate), (3, .insufficientWorkers)] →
      (s.works.lookup id).map WorkRecord.status = some status) ∧
    s.pendingWorks.toList = [1, 2, 3] ∧ s.base.openVoteRounds.toList = [(1, 0)] ∧
    (dueItems s 1).map ExecutionItem.workId = [0] ∧ Lifecycle s := by
  obtain ⟨h, s, hrun, hstatus, hpending, hopen, hdue⟩ := exists_run threeWorks
    (voteThrough 0 2 1 ++ [.jamOnInitialize 1] ++
      (voteThrough 1 2 2).take 2 ++ (voteThrough 2 2 3).take 1 ++
      (voteThrough 3 2 4).take 1)
    (fun s => (∀ entry ∈ [((0 : WorkId), WorkStatus.accepted), (1, .voting),
        (2, .awaitingCandidate), (3, .insufficientWorkers)],
        (s.works.lookup entry.1).map WorkRecord.status = some entry.2) ∧
      s.pendingWorks.toList = [1, 2, 3] ∧ s.base.openVoteRounds.toList = [(1, 0)] ∧
      (dueItems s 1).map ExecutionItem.workId = [0]) (by decide +kernel)
  exact ⟨h, s, hrun, fun id status hmem => hstatus (id, status) hmem, hpending, hopen, hdue,
    lifecycle_of_run h s hrun⟩

end MiniJam.Jam
