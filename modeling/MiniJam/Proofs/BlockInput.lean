import MiniJam.Lib.Result
import MiniJam.Proofs.VirtualBlock

/-!
# `MiniJam.Proofs.BlockInput`: what an executor input is made of

`executionInput_ok` inverts the construction of an input: its reports are the canonical
reports of the due items, in order, and every due item belongs to an accepted work with a
candidate in its current round; its preimages and system operations are the pending ones, or
none where they are paused.
-/

set_option autoImplicit false

namespace MiniJam.Jam

variable {AccountId Ledger : Type} {T : Config AccountId Ledger} {s : State T} {block : BlockNumber}

theorem tryIntoBatch_ok {α : Type} {n : Nat} {l : List α} {batch : BoundedVec α n} :
    tryIntoBatch l = .ok batch ↔ batch.toList = l := by
  unfold tryIntoBatch
  rw [← BoundedVec.tryFrom_eq_some]
  cases (BoundedVec.tryFrom l : Option (BoundedVec α n)) <;> simp

theorem tryIntoBatch_of_length_le {α : Type} {n : Nat} {l : List α} (h : l.length ≤ n) :
    tryIntoBatch l = .ok (⟨l, h⟩ : BoundedVec α n) := tryIntoBatch_ok.mpr rfl

theorem candidateForWork_eq_some {workId : WorkId} {round : AssignmentRound}
    {candidate : CandidateRecord AccountId} :
    candidateForWork s workId = some (round, candidate) ↔
      ∃ work, s.works.lookup workId = some work ∧ work.round = round ∧
        s.candidates.lookup (workId, round) = some candidate := by
  unfold candidateForWork
  simp only [Option.bind_eq_bind, Option.bind_eq_some_iff, Option.some.injEq, Prod.mk.injEq]
  constructor
  · rintro ⟨work, hwork, candidate', hcandidate, rfl, rfl⟩
    exact ⟨work, hwork, rfl, hcandidate⟩
  · rintro ⟨work, hwork, rfl, hcandidate⟩
    exact ⟨work, hwork, candidate, hcandidate, rfl, rfl⟩

variable {item : ExecutionItem} {input : MiniJamExecutionInput}

/-- A due item has a report only when its work is accepted and has a candidate. -/
theorem dueReport_ok {report : CanonicalReportBytes} :
    dueReport s item = .ok report ↔
      ∃ work candidate, s.works.lookup item.workId = some work ∧ work.status = .accepted ∧
        s.candidates.lookup (item.workId, work.round) = some candidate ∧
        candidate.envelope.canonicalReport = report := by
  unfold dueReport
  constructor
  · intro h
    split at h
    · cases h
    · rename_i round candidate hfound
      obtain ⟨work, hwork, rfl, hcandidate⟩ := candidateForWork_eq_some.mp hfound
      rw [hwork] at h
      dsimp only at h
      split_ifs at h with hbad
      cases h
      exact ⟨work, candidate, hwork, by simpa using hbad, hcandidate, rfl⟩
  · rintro ⟨work, candidate, hwork, hstatus, hcandidate, rfl⟩
    rw [candidateForWork_eq_some.mpr ⟨work, hwork, rfl, hcandidate⟩, hwork]
    simp [hstatus]

/-- The parts of an input that was built. -/
structure BuiltInput (s : State T) (block : BlockNumber) (due : List ExecutionItem)
    (input : MiniJamExecutionInput) : Prop where
  reports : List.Forall₂ (fun item report => dueReport s item = .ok report) due
    input.reports.toList
  preimages : blockPreimages s = .ok input.preimages
  systemOps : blockSystemOps s = .ok input.systemOps
  maxGas : input.maxGas = T.maxExecutionGas

variable {due : List ExecutionItem}

/-- An input that was built has the parts the pallet puts into it. -/
theorem executionInput_ok (h : executionInput s block due = .ok input) :
    BuiltInput s block due input := by
  unfold executionInput at h
  obtain ⟨reports, hreports, h⟩ := Except.bind_ok_iff.mp h
  obtain ⟨batch, hbatch, h⟩ := Except.bind_ok_iff.mp h
  obtain ⟨preimages, hpreimages, h⟩ := Except.bind_ok_iff.mp h
  obtain ⟨systemOps, hsystemOps, h⟩ := Except.bind_ok_iff.mp h
  cases h
  refine ⟨?_, hpreimages, hsystemOps, rfl⟩
  rw [tryIntoBatch_ok.mp hbatch]
  exact Except.mapM_ok_iff.mp hreports

/-- An input is built when its parts are there. -/
theorem executionInput_of_parts {reports : ReportBatch} {preimages : PreimageBatch}
    {systemOps : SystemOpBatch}
    (hreports : List.Forall₂ (fun item report => dueReport s item = .ok report) due reports.toList)
    (hpreimages : blockPreimages s = .ok preimages)
    (hsystemOps : blockSystemOps s = .ok systemOps) :
    ∃ input, executionInput s block due = .ok input ∧ input.reports = reports := by
  unfold executionInput
  rw [Except.mapM_ok_iff.mpr hreports, hpreimages, hsystemOps]
  refine ⟨_, Except.bind_ok_iff.mpr ⟨_, rfl, Except.bind_ok_iff.mpr
    ⟨reports, tryIntoBatch_ok.mpr rfl, rfl⟩⟩, rfl⟩

/-- Every due item of an input that was built belongs to an accepted work with a candidate. -/
theorem BuiltInput.due_accepted (h : BuiltInput s block due input) (hitem : item ∈ due) :
    ∃ work candidate, s.works.lookup item.workId = some work ∧ work.status = .accepted ∧
      s.candidates.lookup (item.workId, work.round) = some candidate := by
  obtain ⟨report, -, hreport⟩ := h.reports.exists_of_mem_left hitem
  obtain ⟨work, candidate, hwork, hstatus, hcandidate, -⟩ := dueReport_ok.mp hreport
  exact ⟨work, candidate, hwork, hstatus, hcandidate⟩

end MiniJam.Jam
