import MiniJam.Lib.LeastLoaded
import MiniJam.Proofs.Suspension

/-!
# `MiniJam.Proofs.Duties`: the duties of an epoch

An assignment takes the active workers that have duties left, least loaded first, and a hash
decides between equal loads. That is the choice of `MiniJam.Lib.LeastLoaded`, so in every state
the duties of the active workers are spread evenly, whatever the hash says.

The counters are kept per epoch and never reset. While the epoch does not saturate, a boundary
goes to an epoch that nobody has counted in yet (`DutiesSpread.fresh`), so the spread starts
anew for the new active workers.
-/

set_option autoImplicit false

namespace MiniJam.Workers

variable {AccountId Ledger : Type} {T : Config AccountId Ledger} {s s' : State T}

/-! ### One assignment -/

variable {round : AssignmentRound}

/-- The duties of an assignment are counted for its workers, in its epoch and round. -/
theorem assignDuties_counts {workId : WorkId} {epoch : EpochIndex} {ids : List WorkerId}
    (hids : ids.Nodup) (h : Tx.forEach (assignDuty workId round epoch) ids s = .ok () s') :
    s'.assignedWorkCount = s.assignedWorkCount ∧ ∀ epoch' round' id,
      s'.dutyCount epoch' round' id =
        if epoch' = epoch ∧ round' = round ∧ id ∈ ids then satAdd32 (s.dutyCount epoch round id) 1
        else s.dutyCount epoch' round' id := by
  induction ids generalizing s with
  | nil =>
    cases h
    exact ⟨rfl, by simp⟩
  | cons first ids ih =>
    rw [Tx.forEach_cons] at h
    obtain ⟨_, s₁, hfirst, hrest⟩ := Tx.bind_ok.mp h
    obtain ⟨hnot, hids⟩ := List.nodup_cons.mp hids
    obtain ⟨hworks, hcounts⟩ := ih hids hrest
    obtain ⟨worker, -, hs₁⟩ := assignDuty_ok hfirst
    have hone : ∀ epoch' round' id, s₁.dutyCount epoch' round' id =
        if epoch' = epoch ∧ round' = round ∧ id = first then
          satAdd32 (s.dutyCount epoch round first) 1
        else s.dutyCount epoch' round' id := by
      intro epoch' round' id
      unfold State.dutyCount
      rw [hs₁, StorageMap.lookup_insert_eq]
      simp only [Prod.mk.injEq]
      split_ifs <;> rfl
    refine ⟨hworks.trans (by rw [hs₁]), fun epoch' round' id => ?_⟩
    rw [hcounts, hone, hone]
    simp only [List.mem_cons]
    by_cases hid : id = first
    · -- The first worker does not come again.
      subst hid
      simp [hnot]
    · simp [hid]

/-- The candidates of an assignment are sorted by their duties. -/
theorem assignmentCandidates_chooses (hdistinct : s.activeWorkers.toList.Nodup) (workId : WorkId)
    (round : AssignmentRound) (k : Nat) :
    LeastLoaded.Chooses s.activeWorkers.toList (s.dutyCount s.currentEpoch round)
      T.maxDutiesPerWorkerPerRound.toNat ((assignmentCandidates s workId round).take k) := by
  refine .take hdistinct (sortByKey_perm _ _) ?_ k
  refine (pairwise_sortByKey _ _).imp fun {a b} hle => ?_
  rcases Prod.Lex.toLex_le_toLex.mp hle with hlt | ⟨heq, -⟩
  · exact Nat.le_of_lt hlt
  · exact Nat.le_of_eq heq

theorem length_assignmentCandidates (workId : WorkId) (round : AssignmentRound) :
    (assignmentCandidates s workId round).length =
      (s.activeWorkers.toList.filter fun id => decide
        (s.dutyCount s.currentEpoch round id < T.maxDutiesPerWorkerPerRound.toNat)).length :=
  (sortByKey_perm _ _).length_eq

/-- What a new assignment returns and counts. -/
structure Assigns (s s' : State T) (round : AssignmentRound) (assignment : Assignment T) :
    Prop where
  chooses : LeastLoaded.Chooses s.activeWorkers.toList (s.dutyCount s.currentEpoch round)
    T.maxDutiesPerWorkerPerRound.toNat assignment.toList
  length : assignment.toList.length = T.workersPerWork.toNat
  works : ∀ epoch' round', s'.workCount epoch' round' =
    if epoch' = s.currentEpoch ∧ round' = round then s.workCount epoch' round' + 1
    else s.workCount epoch' round'
  duties : ∀ epoch' round' id, s'.dutyCount epoch' round' id =
    if epoch' = s.currentEpoch ∧ round' = round ∧ id ∈ assignment.toList then
      s.dutyCount epoch' round' id + 1
    else s.dutyCount epoch' round' id

theorem satAdd32_one {n : Nat} {bound : UInt32} (h : n < bound.toNat) : satAdd32 n 1 = n + 1 := by
  have hbound := bound.toNat_lt
  unfold satAdd32 u32Max
  omega

variable {assignment : Assignment T}

/-- The counters are below their bounds, so they do not saturate. -/
theorem assignWork_assigns {workId : WorkId} (hdistinct : s.activeWorkers.toList.Nodup)
    (hnew : s.assignments.lookup (workId, round) = none)
    (h : assignWork workId round s = .ok assignment s') : Assigns s s' round assignment := by
  rcases assignWork_cases h with ⟨hold, -⟩ | ⟨-, hworks, hfew, hassignment, s₁, hduties, hs'⟩
  · rw [hnew] at hold
    cases hold
  have hchooses : LeastLoaded.Chooses s.activeWorkers.toList (s.dutyCount s.currentEpoch round)
      T.maxDutiesPerWorkerPerRound.toNat assignment.toList := by
    rw [hassignment]
    exact assignmentCandidates_chooses hdistinct workId round _
  obtain ⟨hkept, hcounts⟩ := assignDuties_counts hchooses.nodup hduties
  have hwork : ∀ epoch' round', s₁.workCount epoch' round' = s.workCount epoch' round' := by
    intro epoch' round'
    unfold State.workCount
    rw [hkept]
  refine ⟨hchooses, ?_, fun epoch' round' => ?_, fun epoch' round' id => ?_⟩
  · rw [hassignment]
    exact List.length_take_of_le hfew
  · have hinsert : s'.workCount epoch' round' =
        if epoch' = s.currentEpoch ∧ round' = round then
          satAdd32 (s₁.workCount s.currentEpoch round) 1
        else s₁.workCount epoch' round' := by
      unfold State.workCount
      rw [hs', StorageMap.lookup_insert_eq]
      simp only [Prod.mk.injEq]
      split_ifs <;> rfl
    -- Below their 32-bit bounds the counts do not saturate.
    rw [hinsert, hwork, hwork, satAdd32_one hworks]
    split_ifs with hkey
    · rw [hkey.1, hkey.2]
    · rfl
  · have hsame : s'.dutyCount epoch' round' id = s₁.dutyCount epoch' round' id := by
      unfold State.dutyCount
      rw [hs']
    rw [hsame, hcounts]
    split_ifs with hkey
    · rw [hkey.1, hkey.2.1, satAdd32_one (hchooses.below id hkey.2.2)]
    · rfl

/-! ### Every run -/

/-- The duties of the current epoch are spread evenly over the active workers in every round,
and nobody has counted in a later epoch. -/
structure DutiesSpread (s : State T) : Prop where
  spread : ∀ round, LeastLoaded.Spread s.activeWorkers.toList (s.dutyCount s.currentEpoch round)
    T.maxDutiesPerWorkerPerRound.toNat
    (T.workersPerWork.toNat * s.workCount s.currentEpoch round)
  fresh : ∀ epoch, s.currentEpoch < epoch → ∀ round, s.workCount epoch round = 0 ∧
    ∀ id, s.dutyCount epoch round id = 0

/-- A work for a round that has none. -/
theorem DutiesSpread.assigns (hs : DutiesSpread s) (hdistinct : s.activeWorkers.toList.Nodup)
    (h : Assigns s s' round assignment) (hepoch : s'.currentEpoch = s.currentEpoch)
    (hactive : s'.activeWorkers = s.activeWorkers) : DutiesSpread s' := by
  refine ⟨fun round' => ?_, fun epoch hlater round' => ?_⟩
  · rw [hepoch, hactive]
    by_cases hround : round' = round
    · subst hround
      have hload : ∀ id ∈ s.activeWorkers.toList, s'.dutyCount s.currentEpoch round' id =
          if id ∈ assignment.toList then s.dutyCount s.currentEpoch round' id + 1
          else s.dutyCount s.currentEpoch round' id := by
        intro id _
        rw [h.duties]
        simp
      have hnext := (hs.spread round').choose hdistinct h.chooses hload
      rwa [h.length, ← Nat.mul_add_one, ← (h.works _ _).trans (if_pos ⟨rfl, rfl⟩)] at hnext
    · -- The counters of the other rounds are as they were.
      have hload : s'.dutyCount s.currentEpoch round' = s.dutyCount s.currentEpoch round' :=
        funext fun id => (h.duties _ _ id).trans (if_neg fun h => hround h.2.1)
      have hwork : s'.workCount s.currentEpoch round' = s.workCount s.currentEpoch round' :=
        (h.works _ _).trans (if_neg fun h => hround h.2)
      rw [hload, hwork]
      exact hs.spread round'
  · rw [hepoch] at hlater
    have hne : epoch ≠ s.currentEpoch := fun h => UInt32.lt_irrefl _ (h ▸ hlater)
    refine ⟨?_, fun id => ?_⟩
    · rw [h.works, if_neg fun h => hne h.1]
      exact (hs.fresh epoch hlater round').1
    · rw [h.duties, if_neg fun h => hne h.1]
      exact (hs.fresh epoch hlater round').2 id

/-- The counters are as they were. -/
theorem DutiesSpread.of_same (hs : DutiesSpread s) (hepoch : s'.currentEpoch = s.currentEpoch)
    (hactive : s'.activeWorkers = s.activeWorkers) (hduties : s'.dutyCounts = s.dutyCounts)
    (hworks : s'.assignedWorkCount = s.assignedWorkCount) : DutiesSpread s' := by
  have hduty : s'.dutyCount = s.dutyCount := by
    unfold State.dutyCount
    rw [hduties]
  have hwork : s'.workCount = s.workCount := by
    unfold State.workCount
    rw [hworks]
  obtain ⟨hspread, hfresh⟩ := hs
  refine ⟨?_, ?_⟩
  · rw [hepoch, hactive, hduty, hwork]
    exact hspread
  · rw [hepoch, hduty, hwork]
    exact hfresh

/-- The next epoch starts with no duties. -/
theorem DutiesSpread.next_epoch (hs : DutiesSpread s)
    (hepoch : s'.currentEpoch = s.currentEpoch.satAdd 1) (hroom : s.currentEpoch.toNat < u32Max)
    (hduties : s'.dutyCounts = s.dutyCounts)
    (hworks : s'.assignedWorkCount = s.assignedWorkCount) : DutiesSpread s' := by
  have hnext : s.currentEpoch < s'.currentEpoch := by
    have hone : (1 : UInt32).toNat = 1 := rfl
    rw [hepoch, UInt32.lt_iff_toNat_lt, UInt32.toNat_satAdd]
    omega
  have hfresh : ∀ epoch, s.currentEpoch < epoch → ∀ round, s'.workCount epoch round = 0 ∧
      ∀ id, s'.dutyCount epoch round id = 0 := by
    unfold State.workCount State.dutyCount
    rw [hduties, hworks]
    exact hs.fresh
  refine ⟨fun round => ?_, fun epoch hlater => hfresh epoch (UInt32.lt_trans hnext hlater)⟩
  obtain ⟨hwork, hduty⟩ := hfresh _ hnext round
  rw [hwork, Nat.mul_zero]
  exact .of_zero fun id _ => hduty id

theorem counts_of_docks (h : Docks s s') :
    s'.dutyCounts = s.dutyCounts ∧ s'.assignedWorkCount = s.assignedWorkCount :=
  ⟨h.within.unchanged State.dutyCounts fun _ _ => rfl,
    h.within.unchanged State.assignedWorkCount fun _ _ => rfl⟩

section
variable [DecidableEq AccountId] {a : Action AccountId Ledger}

/-- Only a new assignment counts. -/
theorem WorkersMove.counts (h : WorkersMove s s' a) :
    s'.dutyCounts = s.dutyCounts ∧ s'.assignedWorkCount = s.assignedWorkCount ∨
      ∃ workId round assignment, assignWork workId round s = .ok assignment s' := by
  cases h with
  | register hnew hroom hnext hs' =>
    rw [hs']
    exact Or.inl ⟨rfl, rfl⟩
  | schedule hworker hpending hchunk hs' =>
    rw [hs']
    exact Or.inl ⟨rfl, rfl⟩
  | vote hdocks => exact Or.inl (counts_of_docks hdocks)
  | suspend hworker hs' =>
    rw [hs']
    exact Or.inl ⟨rfl, rfl⟩
  | duties _ _ hassigned =>
    rcases hassigned with hwithin | hassign
    · exact Or.inl ⟨hwithin.unchanged State.dutyCounts fun _ _ => rfl,
        hwithin.unchanged State.assignedWorkCount fun _ _ => rfl⟩
    · exact Or.inr hassign
  | settle hdocks => exact Or.inl (counts_of_docks hdocks)
  | boundary hdue hboundary hcrosses =>
    obtain ⟨hduties, hworks⟩ := counts_of_docks ((finalizeDueVotes_docks _).of_ok hdue)
    rw [← hduties, ← hworks]
    exact Or.inl ⟨hcrosses.within.unchanged State.dutyCounts fun _ _ => rfl,
      hcrosses.within.unchanged State.assignedWorkCount fun _ _ => rfl⟩
  | system hs' =>
    rw [hs']
    exact Or.inl ⟨rfl, rfl⟩

theorem DutiesSpread.move (hs : DutiesSpread s) (hdistinct : s.activeWorkers.toList.Nodup)
    (hmove : WorkersMove s s' a) (hroom : a.crosses T = true → s.currentEpoch.toNat < u32Max) :
    DutiesSpread s' := by
  rcases hmove.counts with ⟨hduties, hworks⟩ | ⟨workId, round, assignment, hassign⟩
  · rcases hmove.epoch with ⟨-, hepoch, hactive⟩ | ⟨hcrosses, hepoch, -⟩
    · exact hs.of_same hepoch hactive hduties hworks
    · exact hs.next_epoch hepoch (hroom hcrosses) hduties hworks
  · have hwithin := (assignWork_duties workId round).of_ok hassign
    cases hexisting : s.assignments.lookup (workId, round) with
    | none =>
      exact hs.assigns hdistinct (assignWork_assigns hdistinct hexisting hassign)
        (hwithin.unchanged State.currentEpoch fun _ _ => rfl)
        (hwithin.unchanged State.activeWorkers fun _ _ => rfl)
    | some existing =>
      rcases assignWork_cases hassign with ⟨-, rfl⟩ | ⟨hnew, -⟩
      · exact hs
      · rw [hexisting] at hnew
        cases hnew

theorem dutiesSpread_of_run {h : History T}
    (hr : Run T h s)
    (hepochs : ∀ t ∈ h, t.label.1.crosses T = true → t.pre.currentEpoch.toNat < u32Max) :
    DutiesSpread s := by
  induction hr with
  | @start s hs =>
    obtain ⟨workers, ledger, hbuild⟩ := hs
    have hwithin := (genesisBuild_genesisItems workers).of_ok hbuild
    have hempty : ∀ epoch round, s.workCount epoch round = 0 ∧
        ∀ id, s.dutyCount epoch round id = 0 := by
      unfold State.workCount State.dutyCount
      rw [hwithin.unchanged State.dutyCounts fun _ _ => rfl,
        hwithin.unchanged State.assignedWorkCount fun _ _ => rfl]
      exact fun _ _ => ⟨rfl, fun _ => rfl⟩
    refine ⟨fun round => ?_, fun epoch _ => hempty epoch⟩
    rw [(hempty _ round).1, Nat.mul_zero]
    exact .of_zero fun id _ => (hempty _ round).2 id
  | @extend h s l s' hr hstep ih =>
    obtain ⟨hroom, hearlier⟩ := List.forall_mem_cons.mp hepochs
    have hs := ih hearlier
    rcases workersMove_of_step (roundBook_sound hr) hstep with ⟨-, hmove⟩ | ⟨-, rfl⟩
    · exact hs.move (roster_of_run hr).distinct hmove hroom
    · exact hs

/-! ### Capacity -/

/-- A new work is assigned exactly when the round takes works and there are enough candidates. -/
theorem Roster.assignWork_succeeds_iff (hs : Roster s) {workId : WorkId}
    (hnew : s.assignments.lookup (workId, round) = none) :
    (∃ assignment s', assignWork workId round s = .ok assignment s') ↔
      s.workCount s.currentEpoch round < T.maxWorksPerRound.toNat ∧
        T.workersPerWork.toNat ≤ (assignmentCandidates s workId round).length := by
  constructor
  · rintro ⟨assignment, s', h⟩
    rcases assignWork_cases h with ⟨hold, -⟩ | ⟨-, hworks, hfew, -⟩
    · rw [hnew] at hold
      cases hold
    · exact ⟨hworks, hfew⟩
  · rintro ⟨hworks, hfew⟩
    exact hs.assignWork_returns hnew hworks hfew

omit [DecidableEq AccountId] in
/-- Enough candidates are left exactly while the works of the round are below the capacity. -/
theorem DutiesSpread.candidates_iff (hs : DutiesSpread s) (hk : 1 ≤ T.workersPerWork.toNat)
    (workId : WorkId) (round : AssignmentRound) :
    T.workersPerWork.toNat ≤ (assignmentCandidates s workId round).length ↔
      T.workersPerWork.toNat ≤ s.activeWorkers.toList.length ∧
        s.workCount s.currentEpoch round < s.activeWorkers.toList.length *
          T.maxDutiesPerWorkerPerRound.toNat / T.workersPerWork.toNat := by
  rw [length_assignmentCandidates, (hs.spread round).room, ← Nat.mul_add_one, Nat.mul_comm,
    ← Nat.le_div_iff_mul_le hk]
  rfl

/-- Duties are balanced and the capacity is exact. In every round of the current epoch the
duties of any two active workers differ by one at most, none exceeds the limit, and they sum up
to the works of the round times the workers of a work. A new work gets distinct active workers,
and it gets them exactly when there are enough active workers and the round has room. -/
theorem duties_balanced {h : History T}
    (hr : Run T h s)
    (hepochs : ∀ t ∈ h, t.label.1.crosses T = true → t.pre.currentEpoch.toNat < u32Max)
    (hk : 1 ≤ T.workersPerWork.toNat) (round : AssignmentRound) :
    s.activeWorkers.toList.Nodup ∧
      LeastLoaded.Spread s.activeWorkers.toList (s.dutyCount s.currentEpoch round)
        T.maxDutiesPerWorkerPerRound.toNat
        (T.workersPerWork.toNat * s.workCount s.currentEpoch round) ∧
      ∀ workId, s.assignments.lookup (workId, round) = none →
        (∀ assignment s', assignWork workId round s = .ok assignment s' →
          assignment.toList.length = T.workersPerWork.toNat ∧ assignment.toList.Nodup ∧
            ∀ id ∈ assignment.toList, id ∈ s.activeWorkers.toList) ∧
        ((∃ assignment s', assignWork workId round s = .ok assignment s') ↔
          T.workersPerWork.toNat ≤ s.activeWorkers.toList.length ∧
            s.workCount s.currentEpoch round < min T.maxWorksPerRound.toNat
              (s.activeWorkers.toList.length * T.maxDutiesPerWorkerPerRound.toNat /
                T.workersPerWork.toNat)) := by
  have hroster := roster_of_run hr
  have hspread := dutiesSpread_of_run hr hepochs
  refine ⟨hroster.distinct, hspread.spread round, fun workId hnew =>
    ⟨fun assignment s' h => ?_, ?_⟩⟩
  · have hassigns := assignWork_assigns hroster.distinct hnew h
    exact ⟨hassigns.length, hassigns.chooses.nodup, hassigns.chooses.mem⟩
  · rw [hroster.assignWork_succeeds_iff hnew, hspread.candidates_iff hk workId round,
      Nat.lt_min]
    tauto

end

/-- Two workers share three works, and there is room for another one. -/
theorem duties_balanced_two_workers :
    ∃ h, ∃ s : State referenceWorkers, Run referenceWorkers h s ∧
      s.activeWorkers.toList = [0, 1] ∧ s.workCount s.currentEpoch 0 = 3 ∧
      (∀ t ∈ h, t.label.1.crosses referenceWorkers = true →
        t.pre.currentEpoch.toNat < u32Max) ∧
      1 ≤ referenceWorkers.workersPerWork.toNat ∧
      LeastLoaded.Spread [0, 1] (s.dutyCount s.currentEpoch 0)
        referenceWorkers.maxDutiesPerWorkerPerRound.toNat
        (referenceWorkers.workersPerWork.toNat * 3) ∧
      s.assignments.lookup (3, 0) = none ∧
      ∃ assignment s', assignWork 3 0 s = .ok assignment s' := by
  obtain ⟨h, s, hrun, hactive, hworks, hnew, hepochs⟩ := Reference.exists_workersHistory
    referenceWorkers
    [.register (.signed Reference.bob) (FixedBytes.fill 32 4) (1000 * Runtime.unit),
      .onInitialize 100, .assignWork 0 0, .assignWork 1 0, .assignWork 2 0]
    (fun h s => s.activeWorkers.toList = [0, 1] ∧ s.workCount s.currentEpoch 0 = 3 ∧
      s.assignments.lookup (3, 0) = none ∧
      ∀ t ∈ h, t.label.1.crosses referenceWorkers = true →
        t.pre.currentEpoch.toNat < u32Max) (by decide +kernel)
  have hk : 1 ≤ referenceWorkers.workersPerWork.toNat := by decide
  obtain ⟨-, hspread, hnext⟩ := duties_balanced hrun hepochs hk 0
  have hreturns := (hnext 3 hnew).2.mpr (by rw [hactive, hworks]; decide)
  rw [hactive, hworks] at hspread
  exact ⟨h, s, hrun, hactive, hworks, hepochs, hk, hspread, hnew, hreturns⟩

end MiniJam.Workers
