import MiniJam.Proofs.WorkSteps
import MiniJam.Runtime.Reference

/-!
# `MiniJam.Proofs.GasBudget`: the gas of the reports of one block

A report is checked against `MaxExecutionGas` on its own when it is submitted and again when it is
accepted. A block hands up to `MaxExecutionReports` of the accepted reports to the executor with
`MaxExecutionGas` for all of them. Nobody adds up their gas.

The sum is within the budget for every queue of checked reports exactly when it is for a full
block of reports with the gas of the largest one that passes the check (`gas_budget_iff`). The
queue of every run is one of checked reports.
-/

set_option autoImplicit false

namespace MiniJam.Jam

variable {AccountId Ledger : Type} {T : Config AccountId Ledger} {s s' : State T}

/-! ### Gas and checked reports -/

/-- The accumulate gas a report projects. -/
def reportGas (T : Config AccountId Ledger) (report : Bytes) : Nat :=
  match T.executor.projectReport report with
  | .ok projection => projection.totalAccumulateGas.toNat
  | .error _ => 0

/-- The accumulate gas of all reports of an input. -/
def inputGas (T : Config AccountId Ledger) (input : MiniJamExecutionInput) : Nat :=
  (input.reports.toList.map fun report => reportGas T report.toList).sum

/-- The number of reports one input can have: at most `MaxExecutionReports` are due, they come
from a queue of `MaxPendingWorks`, and the batch holds four. -/
def maxBlockReports (T : Config AccountId Ledger) : Nat :=
  min (min T.maxExecutionReports.toNat T.maxPendingWorks.toNat) 4

/-- Every queued item has a report that passed the check of candidate reports. -/
def QueueChecked (s : State T) : Prop :=
  ∀ item ∈ s.executionQueue.toList, ∃ work candidate,
    s.works.lookup item.workId = some work ∧
    s.candidates.lookup (item.workId, work.round) = some candidate ∧
    ReportChecked T work candidate.envelope

variable {work : WorkRecord AccountId} {block : BlockNumber}

/-! ### The queue of every run -/

/-- A work that is voted on or was accepted has a checked candidate in its round. -/
def HasChecked (v : WorkView T) : Prop :=
  ∀ work, v.work = some work → work.status = .voting ∨ work.status.Passed →
    ∃ candidate, v.candidates work.round = some candidate ∧ ReportChecked T work candidate.envelope

theorem Prepares.hasChecked {v v' : WorkView T} (h : Prepares v work v') : HasChecked v' := by
  -- A prepared round awaits its candidate or its workers.
  intro work' hwork' hstatus
  cases h with
  | assigned _ => cases hwork'; rcases hstatus with h | h | h <;> cases h
  | existing _ => cases hwork'; rcases hstatus with h | h | h <;> cases h
  | short => cases hwork'; rcases hstatus with h | h | h <;> cases h

theorem LifeStep.hasChecked {v v' : WorkView T} (h : LifeStep v v') (hv : HasChecked v) :
    HasChecked v' := by
  cases h with
  | settle hsettles => exact hv
  | prepare _ _ hprepares => exact hprepares.hasChecked
  | candidate hwork hstatus hnew hhash hchecked =>
    intro work' hwork' _
    cases hwork'
    exact ⟨_, WorkView.setCandidate_candidates_self _ _ _, hchecked⟩
  | fail hwork _ _ =>
    intro work' hwork' hstatus
    cases hwork'
    rcases hstatus with h | h | h <;> cases h
  | advance _ _ _ _ hprepares => exact hprepares.hasChecked
  | accept hwork hstatus _ _ _ =>
    obtain ⟨candidate, hcandidate, hchecked⟩ := hv _ hwork (Or.inl hstatus)
    intro work' hwork' _
    cases hwork'
    exact ⟨candidate, hcandidate, hchecked⟩
  | imported hwork hstatus =>
    obtain ⟨candidate, hcandidate, hchecked⟩ := hv _ hwork (Or.inr (Or.inl hstatus))
    intro work' hwork' _
    cases hwork'
    exact ⟨candidate, hcandidate, hchecked⟩

theorem LifeMove.hasChecked {l : Chain.Label T} {id : WorkId} (h : LifeMove s l s' id)
    (hv : HasChecked (s.view id)) : HasChecked (s'.view id) := by
  cases h with
  | quiet _ hstep => exact hstep.hasChecked hv
  | create _ _ _ _ _ hprepares => exact hprepares.hasChecked
  | vote _ _ _ _ _ hview => exact hview ▸ hv

/-- In every run the queue holds accepted works with checked reports. -/
theorem queueChecked_of_run [DecidableEq AccountId]
    {h : Chain.History T} (hr : WorkRun T h s) : QueueChecked s := by
  -- Queued works have passed, and what has passed has a checked report.
  have hinv : (∀ id, HasChecked (s.view id)) ∧
      ∀ item ∈ s.executionQueue.toList, s.PassedWork item.workId := by
    refine hr.invariant_state (I := fun s => (∀ id, HasChecked (s.view id)) ∧
      ∀ item ∈ s.executionQueue.toList, s.PassedWork item.workId) (fun s hs => ?_)
      (fun s l s' hi hstep => ?_)
    · constructor
      · intro id work hwork
        rw [(genesis_view hs id 0).1] at hwork
        cases hwork
      · obtain ⟨ledger, hqueue⟩ := genesis_initial hs State.executionQueue fun _ _ => rfl
        rw [hqueue]
        exact fun item hitem => absurd hitem List.not_mem_nil
    · refine ⟨fun id => (hstep.moves id).hasChecked (hi.1 id), fun item hitem => ?_⟩
      rcases hstep.queue item hitem with hold | hpassed
      · obtain ⟨work, hwork, hpassed⟩ := hi.2 item hold
        obtain ⟨work', hwork', hpassed', -⟩ := (hstep.moves item.workId).passed hwork hpassed
        exact ⟨work', hwork', hpassed'⟩
      · exact hpassed
  intro item hitem
  obtain ⟨work, hwork, hpassed⟩ := hinv.2 item hitem
  obtain ⟨candidate, hcandidate, hchecked⟩ := hinv.1 item.workId work hwork (Or.inr hpassed)
  exact ⟨work, candidate, hwork, hcandidate, hchecked⟩

/-! ### Full blocks -/

/-- A block of checked reports, each of which fits as often as a block has reports, is within
the budget. -/
theorem inputGas_le {input : MiniJamExecutionInput} (hqueue : QueueChecked s)
    (hinput : executionInput s block (dueItems s block) = .ok input)
    (hfits : ∀ work envelope, ReportChecked T work envelope →
      maxBlockReports T * reportGas T envelope.canonicalReport.toList ≤
        T.maxExecutionGas.toNat) : inputGas T input ≤ input.maxGas.toNat := by
  have hbuilt := executionInput_ok hinput
  rw [hbuilt.maxGas]
  refine List.sum_le_of_mul_le (n := maxBlockReports T) ?_ ?_
  · -- Neither the batch nor the queue has more reports.
    have hlength := hbuilt.reports.length_eq
    have hdue := length_dueItems_le s block
    have hpending := (due_append_retained_perm s block).length_eq
    have hbound := s.executionQueue.length_le
    have hbatch := input.reports.length_le
    rw [List.length_append] at hpending
    rw [List.length_map]
    unfold maxBlockReports
    omega
  · intro gas hgas
    obtain ⟨report, hreport, rfl⟩ := List.mem_map.mp hgas
    obtain ⟨item, hitem, hdue⟩ := hbuilt.reports.exists_of_mem_right hreport
    obtain ⟨work, candidate, hwork, -, hcandidate, rfl⟩ := dueReport_ok.mp hdue
    obtain ⟨work', candidate', hwork', hcandidate', hchecked⟩ :=
      hqueue item (mem_queue_iff.mpr (Or.inl hitem))
    rw [hwork] at hwork'
    cases hwork'
    rw [hcandidate] at hcandidate'
    cases hcandidate'
    exact hfits work candidate.envelope hchecked

/-- The works of a full block. -/
def fullBlockIds (T : Config AccountId Ledger) : List WorkId :=
  (List.range (maxBlockReports T)).map UInt64.ofNat

theorem length_fullBlockIds : (fullBlockIds T).length = maxBlockReports T := by
  rw [fullBlockIds, List.length_map, List.length_range]

/-- A storage with a full block of due works. All have the same package and report, and
nothing else is handed to the executor. -/
def fullBlock (s : State T) (work : WorkRecord AccountId) (envelope : ReportEnvelopeV1) :
    State T :=
  { s with
    works := StorageMap.fill (fullBlockIds T) { work with status := .accepted }
    candidates := StorageMap.fill ((fullBlockIds T).map fun id => (id, work.round))
      { submitter := work.owner, envelope := envelope, voteDeadline := 0 }
    executionQueue := ⟨(fullBlockIds T).map fun id => ⟨id, 0⟩, by
      rw [List.length_map, length_fullBlockIds]
      unfold maxBlockReports
      omega⟩
    reportImportPaused := false
    preimageImportPaused := true
    systemOpsPaused := true }

section FullBlock
variable {work : WorkRecord AccountId} {envelope : ReportEnvelopeV1}

theorem fullBlock_item {item : ExecutionItem}
    (hitem : item ∈ (fullBlock s work envelope).executionQueue.toList) :
    (fullBlock s work envelope).works.lookup item.workId =
        some { work with status := .accepted } ∧
      (fullBlock s work envelope).candidates.lookup (item.workId, work.round) =
        some ⟨work.owner, envelope, 0⟩ ∧ item.executeAt = 0 := by
  obtain ⟨id, hid, rfl⟩ := List.mem_map.mp hitem
  have hkey : (id, work.round) ∈ (fullBlockIds T).map fun id => (id, work.round) :=
    List.mem_map_of_mem hid
  exact ⟨StorageMap.lookup_fill hid _, StorageMap.lookup_fill hkey _, rfl⟩

theorem fullBlock_checked (hchecked : ReportChecked T work envelope) :
    QueueChecked (fullBlock s work envelope) := by
  intro item hitem
  obtain ⟨hwork, hcandidate, -⟩ := fullBlock_item hitem
  exact ⟨_, _, hwork, hcandidate, hchecked⟩

/-- The input of a full block has its report as often as a block can. -/
theorem fullBlock_input (s : State T) (work : WorkRecord AccountId)
    (envelope : ReportEnvelopeV1) : ∃ input,
    executionInput (fullBlock s work envelope) 0 (dueItems (fullBlock s work envelope) 0) =
      .ok input ∧
    input.reports.toList = List.replicate (maxBlockReports T) envelope.canonicalReport := by
  have hage : ∀ item ∈ (fullBlock s work envelope).executionQueue.toList,
      item.executeAt ≤ (0 : BlockNumber) := fun item hitem => by
    rw [(fullBlock_item hitem).2.2]
    exact UInt32.le_refl _
  have hlength : (fullBlock s work envelope).executionQueue.toList.length = maxBlockReports T :=
    (List.length_map _).trans length_fullBlockIds
  have hroom : maxBlockReports T ≤ T.maxExecutionReports.toNat := by
    unfold maxBlockReports
    omega
  -- Every item is due, in some order.
  have hdue : (dueItems (fullBlock s work envelope) 0).Perm
      (fullBlock s work envelope).executionQueue.toList := by
    have hsplit := splitQueue_all (hlength.trans_le hroom) hage
    unfold dueItems
    rw [show (fullBlock s work envelope).reportImportPaused = false from rfl, hsplit]
    exact sortByKey_perm _ _
  have hreports : List.Forall₂
      (fun item report => dueReport (fullBlock s work envelope) item = .ok report)
      (dueItems (fullBlock s work envelope) 0)
      (List.replicate (maxBlockReports T) envelope.canonicalReport) := by
    rw [← hlength, ← hdue.length_eq, ← List.map_const', List.forall₂_map_right_iff,
      List.forall₂_same]
    intro item hitem
    obtain ⟨hwork, hcandidate, -⟩ := fullBlock_item (hdue.mem_iff.mp hitem)
    exact dueReport_ok.mpr ⟨_, _, hwork, rfl, hcandidate, rfl⟩
  have hbatch : (List.replicate (maxBlockReports T) envelope.canonicalReport).length ≤ 4 := by
    rw [List.length_replicate]
    unfold maxBlockReports
    omega
  let batch : ReportBatch := ⟨_, hbatch⟩
  obtain ⟨input, hinput, hbuilt⟩ := executionInput_of_parts (s := fullBlock s work envelope)
    (show List.Forall₂ _ _ batch.toList from hreports) rfl rfl
  exact ⟨input, hinput, by rw [hbuilt]; rfl⟩

end FullBlock

/-! ### The budget of a block -/

/-- The reports of every input built from checked reports are within the gas handed to the
executor exactly when the largest report that passes the check fits as often as a block has
reports. The queue of every run is made of checked reports. -/
theorem gas_budget_iff [DecidableEq AccountId] (T : Config AccountId Ledger) :
    ((∀ (s : State T) block input, QueueChecked s →
        executionInput s block (dueItems s block) = .ok input →
          input.maxGas = T.maxExecutionGas ∧ inputGas T input ≤ input.maxGas.toNat) ↔
      ∀ work envelope, ReportChecked T work envelope →
        maxBlockReports T * reportGas T envelope.canonicalReport.toList ≤
          T.maxExecutionGas.toNat) ∧
    ∀ h (s : State T), Chain.Run T h s → QueueChecked s := by
  refine ⟨⟨fun hbudget work envelope hchecked => ?_, fun hfits s block input hqueue hinput =>
    ⟨(executionInput_ok hinput).maxGas, inputGas_le hqueue hinput hfits⟩⟩,
    fun _ _ hr => queueChecked_of_run (workRun_of_run hr)⟩
  -- A block full of the one report has its gas as often as a block has reports.
  obtain ⟨s, s', hvalid⟩ := hchecked
  obtain ⟨input, hinput, hreports⟩ := fullBlock_input s work envelope
  obtain ⟨hmax, hgas⟩ := hbudget _ 0 input (fullBlock_checked ⟨s, s', hvalid⟩) hinput
  rw [hmax] at hgas
  unfold inputGas at hgas
  rw [hreports, List.map_replicate, List.sum_replicate_nat] at hgas
  exact hgas

open Reference

/-- The runtime configuration with gas for four of the largest reports. -/
def wideBudget : Config AccountId32 Reference.Ledger :=
  { runtime consumeAll with maxExecutionGas := 1020000000000 }

/-- A report has its gas in billions in one byte. -/
theorem reportGas_wideBudget_le (report : Bytes) : reportGas wideBudget report ≤ 255000000000 := by
  cases report with
  | nil => exact Nat.zero_le _
  | cons gas package =>
    show (gas.toUInt64 * 1000000000).toNat ≤ 255000000000
    have hgas := gas.toNat_lt
    rw [UInt64.toNat_mul, UInt8.toNat_toUInt64]
    exact (Nat.mod_le _ _).trans (Nat.mul_le_mul_right 1000000000 (Nat.le_of_lt_succ hgas))

/-- Four reports fit into a block whatever they are, and the block after two accepted works is
within its budget. -/
theorem gas_budget_iff_wide : ∃ h, ∃ s : State wideBudget, ∃ input,
    Chain.Run wideBudget h s ∧ maxBlockReports wideBudget = 4 ∧
      executionInput s 1 (dueItems s 1) = .ok input ∧ input.reports.toList.length = 2 ∧
      inputGas wideBudget input ≤ input.maxGas.toNat := by
  obtain ⟨h, s, hrun, input, hinput, htwo⟩ := exists_run wideBudget
    (voteThrough 0 4 1 ++ voteThrough 1 4 2 ++ [.jamOnInitialize 1])
    (fun s => ∃ input, executionInput s 1 (dueItems s 1) = .ok input ∧
      input.reports.toList.length = 2) (by decide +kernel)
  have hbudget := (gas_budget_iff wideBudget).1.mpr fun _ envelope _ =>
    Nat.mul_le_mul_left 4 (reportGas_wideBudget_le envelope.canonicalReport.toList)
  have hqueue := (gas_budget_iff wideBudget).2 h s hrun
  exact ⟨h, s, input, hrun, by decide, hinput, htwo, (hbudget s 1 input hqueue hinput).2⟩

/-- With the runtime's own configuration two accepted reports of 4 billion gas each are handed
to the executor with a budget of 6 billion. -/
theorem two_reports_exceed_budget :
    ∃ h, ∃ s : State (runtime consumeAll), ∃ input,
      Chain.Run _ h s ∧ QueueChecked s ∧ executionInput s 1 (dueItems s 1) = .ok input ∧
        input.maxGas = 6000000000 ∧
        input.maxGas.toNat < inputGas (runtime consumeAll) input := by
  obtain ⟨h, s, hrun, input, hinput, hgas⟩ := exists_run
    (runtime consumeAll)
    (voteThrough 0 4 1 ++ voteThrough 1 4 2 ++ [.jamOnInitialize 1])
    (fun s => ∃ input, executionInput s 1 (dueItems s 1) = .ok input ∧
      input.maxGas = 6000000000 ∧
      input.maxGas.toNat < inputGas (runtime consumeAll) input)
    (by decide +kernel)
  exact ⟨h, s, input, hrun, queueChecked_of_run (workRun_of_run hrun), hinput, hgas⟩

end MiniJam.Jam
