import MiniJam.Proofs.BlockInput
import MiniJam.Runtime.Reference

/-!
# `MiniJam.Proofs.Import`: what becomes of the queued works

The queue is split before the executor runs: the due items leave it whatever the executor
consumed. A due work is marked as imported only when its report hash is among the consumed
ones, so a due work that the executor did not consume is in neither place.
`import_keeps_works_iff` says that this is the only way to lose one.
-/

set_option autoImplicit false

namespace MiniJam.Jam

variable {AccountId Ledger : Type} {T : Config AccountId Ledger} {s s' : State T}
  {block : BlockNumber} {output : MiniJamExecutionOutput}

/-- The report of the work in its current round is one the executor consumed. -/
def ReportConsumed (s : State T) (output : MiniJamExecutionOutput) (workId : WorkId) : Prop :=
  ∃ found, candidateForWork s workId = some found ∧
    found.2.envelope.canonicalReportHash ∈ output.consumedReports.toList

/-- The work is recorded as imported, with a receipt. -/
def Imported (s : State T) (workId : WorkId) : Prop :=
  (∃ work, s.works.lookup workId = some work ∧ work.status = .imported) ∧
    ∃ receipt, s.executionReceipts.lookup workId = some receipt

instance (s : State T) (workId : WorkId) : Decidable (Imported s workId) :=
  decidable_of_iff ((∃ work, s.works.lookup workId = some work ∧ work.status = .imported) ∧
    (s.executionReceipts.lookup workId).isSome) (by simp [Imported, Option.isSome_iff_exists])

variable {workId : WorkId}

/-- The candidate of a work depends on the round of the work only. -/
theorem candidateForWork_congr
    (hround : (s'.works.lookup workId).map WorkRecord.round =
      (s.works.lookup workId).map WorkRecord.round) (hcandidates : s'.candidates = s.candidates) :
    candidateForWork s' workId = candidateForWork s workId := by
  unfold candidateForWork
  rw [hcandidates]
  cases h : s.works.lookup workId with
  | none =>
    rw [h, Option.map_none, Option.map_eq_none_iff] at hround
    rw [hround]
  | some work =>
    rw [h, Option.map_some, Option.map_eq_some_iff] at hround
    obtain ⟨work', hwork', hround⟩ := hround
    rw [hwork']
    simp only [Option.bind_eq_bind, Option.bind_some]
    rw [hround]

/-- One import: the work is marked when its report was consumed, and nothing happens
otherwise. -/
theorem importReport_ok (h : importReport output workId s = .ok () s') :
    (ReportConsumed s output workId ∧ ∃ work, s.works.lookup workId = some work ∧
      s' = { s with
        works := s.works.insert workId { work with status := .imported }
        executionReceipts := s.executionReceipts.insert workId output.receiptHash
        events := s.events ++ [.reportImported workId output.receiptHash] }) ∨
    (¬ ReportConsumed s output workId ∧ s' = s) := by
  unfold importReport at h
  rw [Tx.read_bind_apply] at h
  obtain ⟨found, hfound, h⟩ := Tx.okOr_bind_ok.mp h
  split_ifs at h with hconsumed
  · obtain ⟨work, hwork, h⟩ := Tx.okOr_bind_ok.mp h
    cases h
    exact Or.inl ⟨⟨found, hfound, hconsumed⟩, work, hwork, rfl⟩
  · cases h
    refine Or.inr ⟨?_, rfl⟩
    rintro ⟨found', hfound', hconsumed'⟩
    rw [hfound] at hfound'
    cases hfound'
    exact hconsumed hconsumed'

/-- One import leaves the round of every work. -/
theorem importReport_round (h : importReport output workId s = .ok () s') (id : WorkId) :
    (s'.works.lookup id).map WorkRecord.round =
      (s.works.lookup id).map WorkRecord.round := by
  rcases importReport_ok h with ⟨-, work, hwork, rfl⟩ | ⟨-, rfl⟩
  · rw [StorageMap.lookup_insert_eq]
    split_ifs with hid
    · rw [hid, hwork]
      rfl
    · rfl
  · rfl

/-- What a loop of imports leaves at one work. -/
structure ImportOutcome (s : State T) (output : MiniJamExecutionOutput) (workIds : List WorkId)
    (s' : State T) (id : WorkId) : Prop where
  candidate : candidateForWork s' id = candidateForWork s id
  consumed : id ∈ workIds → ReportConsumed s output id → Imported s' id
  kept : ¬ (id ∈ workIds ∧ ReportConsumed s output id) →
    s'.works.lookup id = s.works.lookup id ∧
      s'.executionReceipts.lookup id = s.executionReceipts.lookup id
  imported : Imported s id → Imported s' id

theorem importReport_outcome (h : importReport output workId s = .ok () s') (id : WorkId) :
    ImportOutcome s output [workId] s' id where
  candidate := candidateForWork_congr (importReport_round h id)
    (((importReport_within output workId).of_ok h).unchanged State.candidates fun _ _ => rfl)
  consumed hid hconsumed := by
    obtain rfl : id = workId := by simpa using hid
    rcases importReport_ok h with ⟨-, work, -, rfl⟩ | ⟨hnot, -⟩
    · simp only [Imported, StorageMap.lookup_insert_eq, if_true]
      exact ⟨⟨_, rfl, rfl⟩, _, rfl⟩
    · exact absurd hconsumed hnot
  kept hnot := by
    rcases importReport_ok h with ⟨hconsumed, work, -, rfl⟩ | ⟨-, rfl⟩
    · have hne : id ≠ workId := by
        rintro rfl
        exact hnot ⟨by simp, hconsumed⟩
      simp only [StorageMap.lookup_insert_eq, if_neg hne, and_self]
    · exact ⟨rfl, rfl⟩
  imported himported := by
    rcases importReport_ok h with ⟨-, work, -, rfl⟩ | ⟨-, rfl⟩
    · obtain ⟨⟨work', hwork', hstatus⟩, receipt, hreceipt⟩ := himported
      simp only [Imported, StorageMap.lookup_insert_eq]
      split_ifs with hid
      · exact ⟨⟨_, rfl, rfl⟩, _, rfl⟩
      · exact ⟨⟨work', hwork', hstatus⟩, receipt, hreceipt⟩
    · exact himported

variable {workIds : List WorkId}

/-- The loop over the works of a batch. -/
theorem importReports_outcome (h : Tx.forEach (importReport output) workIds s = .ok () s')
    (id : WorkId) : ImportOutcome s output workIds s' id := by
  induction workIds generalizing s with
  | nil =>
    cases h
    exact ⟨rfl, by simp, fun _ => ⟨rfl, rfl⟩, fun h => h⟩
  | cons workId workIds ih =>
    rw [Tx.forEach_cons] at h
    obtain ⟨_, s₁, h₁, h₂⟩ := Tx.bind_ok.mp h
    have first := importReport_outcome h₁ id
    have rest := ih h₂
    -- The first import leaves the candidate, so the same reports count as consumed later.
    have hsame : ReportConsumed s₁ output id ↔ ReportConsumed s output id := by
      unfold ReportConsumed
      rw [first.candidate]
    refine ⟨rest.candidate.trans first.candidate, ?_, ?_, ?_⟩
    · intro hid hconsumed
      by_cases hrest : id ∈ workIds
      · exact rest.consumed hrest (hsame.mpr hconsumed)
      · have hid : id = workId := by simpa [hrest] using hid
        exact rest.imported (first.consumed (by simp [hid]) hconsumed)
    · intro hnot
      have hfirst := first.kept fun ⟨hid, hc⟩ => hnot ⟨by simp_all, hc⟩
      have hrest := rest.kept fun ⟨hid, hc⟩ => hnot ⟨by simp [hid], hsame.mp hc⟩
      exact ⟨hrest.1.trans hfirst.1, hrest.2.trans hfirst.2⟩
    · intro himported
      exact rest.imported (first.imported himported)

/-- What a commit leaves at one work. -/
theorem commitOutput_outcome {input : MiniJamExecutionInput} {delta : ValidatedDelta}
    {summary : BlockStfSummary} (h : commitOutput workIds input output delta s = .ok summary s')
    (id : WorkId) : ImportOutcome s output workIds s' id := by
  -- The parts before the imports touch neither works, candidates nor receipts.
  obtain ⟨s₄, s₅, hbefore, h₅, rfl⟩ := commitOutput_imports h
  have hworks := hbefore.unchanged State.works fun _ _ => rfl
  have hcandidates := hbefore.unchanged State.candidates fun _ _ => rfl
  have hreceipts := hbefore.unchanged State.executionReceipts fun _ _ => rfl
  have hfound : candidateForWork s₄ id = candidateForWork s id :=
    candidateForWork_congr (by rw [hworks]) hcandidates
  obtain ⟨hcandidate, hconsumed, hkept, himported⟩ := importReports_outcome h₅ id
  refine ⟨hcandidate.trans hfound, ?_, ?_, ?_⟩
  · unfold ReportConsumed at *
    rw [hfound] at hconsumed
    exact hconsumed
  · unfold ReportConsumed at *
    rw [hfound, hworks, hreceipts] at hkept
    exact hkept
  · unfold Imported at *
    rw [hworks, hreceipts] at himported
    exact himported

/-- A block whose output is checked and committed keeps every queued work, in the queue or
as imported, exactly when the executor consumed the report of every due item (an item that
is queued twice may also stay by its second copy). -/
theorem import_keeps_works_iff {input : MiniJamExecutionInput} {delta : ValidatedDelta}
    (ha : Answered s block input output delta) (h : executeBlockStf block s = .ok () s') :
    (∀ item ∈ s.executionQueue.toList,
      item ∈ s'.executionQueue.toList ∨ Imported s' item.workId) ↔
    ∀ item ∈ dueItems s block,
      item ∈ retainedItems s block ∨ ReportConsumed s output item.workId := by
  obtain ⟨summary, s₁, queue, hcommit, hqueue, rfl⟩ := onFinalize_of_answered ha h
  have hbuilt := executionInput_ok ha.input_eq
  constructor
  · intro hall item hdue
    rcases hall item (mem_queue_iff.mpr (Or.inl hdue)) with hstays | himported
    · exact Or.inl (hqueue ▸ hstays)
    · -- The work was accepted before, so it can only be imported by this commit.
      refine Or.inr ?_
      by_contra hnot
      obtain ⟨⟨work, hwork, hstatus⟩, -⟩ := himported
      obtain ⟨work', -, hwork', hstatus', -⟩ := hbuilt.due_accepted hdue
      have hkept := ((commitOutput_outcome hcommit item.workId).kept fun hc => hnot hc.2).1
      have hwork : s₁.works.lookup item.workId = some work := hwork
      rw [hkept, hwork'] at hwork
      cases hwork
      rw [hstatus'] at hstatus
      cases hstatus
  · intro hall item hitem
    rcases mem_queue_iff.mp hitem with hdue | hretained
    · rcases hall item hdue with hstays | hconsumed
      · exact Or.inl (hqueue.symm ▸ hstays)
      · exact Or.inr ((commitOutput_outcome hcommit item.workId).consumed
          (List.mem_map_of_mem hdue) hconsumed)
    · exact Or.inl (hqueue.symm ▸ hretained)

open Reference

/-- With an executor that consumes every report, the accepted work of a run is imported: the
equivalence at a reachable block, with both sides true. -/
theorem import_keeps_works_consumed : ∃ h s s' input output delta,
    Chain.Run (runtime consumeAll) h s ∧
    Answered s 1 input output delta ∧ executeBlockStf 1 s = .ok () s' ∧
    s.executionQueue.toList ≠ [] ∧
    ((∀ item ∈ s.executionQueue.toList,
      item ∈ s'.executionQueue.toList ∨ Imported s' item.workId) ↔
    ∀ item ∈ dueItems s 1,
      item ∈ retainedItems s 1 ∨ ReportConsumed s output item.workId) := by
  obtain ⟨h, s, hrun, hne, ⟨input, output, delta⟩, ha, s', hexecute, -⟩ := exists_run
    (runtime consumeAll) (voteThrough 0 2 1 ++ [.jamOnInitialize 1])
    (fun s => s.executionQueue.toList ≠ [] ∧ ∃ answer ∈ answered s 1,
      ∃ s', executeBlockStf 1 s = .ok () s' ∧ ∀ item ∈ s.executionQueue.toList,
        Imported s' item.workId) (by decide +kernel)
  exact ⟨h, s, s', input, output, delta, hrun, answered_eq_some ha, hexecute, hne,
    import_keeps_works_iff (answered_eq_some ha) hexecute⟩

/-- With an executor that consumes no report, the accepted work of a run is lost: its block
commits, the item has left the queue, and the work is not imported. -/
theorem import_loses_unconsumed : ∃ h s s' input output delta,
    Chain.Run (runtime skipReports) h s ∧
    Answered s 1 input output delta ∧ executeBlockStf 1 s = .ok () s' ∧
    ¬ ∀ item ∈ s.executionQueue.toList,
      item ∈ s'.executionQueue.toList ∨ Imported s' item.workId := by
  obtain ⟨h, s, hrun, ⟨input, output, delta⟩, ha, s', hexecute, hlost⟩ := exists_run
    (runtime skipReports) (voteThrough 0 2 1 ++ [.jamOnInitialize 1])
    (fun s => ∃ answer ∈ answered s 1, ∃ s', executeBlockStf 1 s = .ok () s' ∧
      ¬ ∀ item ∈ s.executionQueue.toList,
        item ∈ s'.executionQueue.toList ∨ Imported s' item.workId) (by decide +kernel)
  exact ⟨h, s, s', input, output, delta, hrun, answered_eq_some ha, hexecute, hlost⟩

end MiniJam.Jam
