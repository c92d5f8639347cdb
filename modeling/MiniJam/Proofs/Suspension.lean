import MiniJam.Proofs.Snapshot

/-!
# `MiniJam.Proofs.Suspension`: duties of suspended workers

A proven equivocation suspends its worker for some epochs. The suspension is written to the
worker's record at once, but duties are given to the workers of the snapshot, which is only taken
at an epoch boundary. So a worker that is active when it is reported goes on getting duties until
the epoch ends (`suspended_worker_assigned`).

Apart from that a worker that gets a duty is suspended only if it was reported since the last
boundary, and a suspension is never shortened (`assigned_worker_not_suspended_iff`).
-/

set_option autoImplicit false

namespace MiniJam.Workers

variable {AccountId Ledger : Type} {T : Config AccountId Ledger} {s s' : State T}

/-! ### Reports and boundaries in a history -/

instance (block : BlockNumber) : Decidable (EpochBoundary T block) :=
  inferInstanceAs (Decidable (_ ∧ _ ∧ _))

/-- Whether the action crosses an epoch boundary. -/
def Action.crosses (T : Config AccountId Ledger) : Action AccountId Ledger → Bool
  | .onInitialize block => decide (EpochBoundary T block)
  | _ => false

/-- Whether the action reports an equivocation of the worker. -/
def Action.reports (id : WorkerId) : Action AccountId Ledger → Bool
  | .submitEquivocation _ workerId _ _ _ _ => workerId == id
  | _ => false

/-- Whether the step is a report of the worker that succeeded. -/
def provesAgainst (id : WorkerId) (t : Transition (State T) (Label AccountId Ledger)) : Bool :=
  t.label.2.isNone && t.label.1.reports id

/-- Whether an equivocation of the worker was proven since the last epoch boundary. -/
def provenThisEpoch (id : WorkerId) :
    History T → Bool
  | [] => false
  | t :: earlier =>
    !(t.label.2.isNone && t.label.1.crosses T) && (provesAgainst id t || provenThisEpoch id earlier)

/-! ### Suspensions -/

/-- Until when the worker is suspended. -/
def State.suspension (s : State T) (id : WorkerId) : Option EpochIndex :=
  (s.workers.lookup id).map WorkerRecord.suspendedUntil

theorem suspension_ne_none {id : WorkerId} : s.suspension id ≠ none ↔ s.ownerOf id ≠ none := by
  unfold State.suspension State.ownerOf
  rw [ne_eq, ne_eq, Option.map_eq_none_iff, Option.map_eq_none_iff]

theorem suspension_insert {workerId : WorkerId} {worker : WorkerRecord AccountId}
    (h : s'.workers = s.workers.insert workerId worker) (id : WorkerId) :
    s'.suspension id = if id = workerId then some worker.suspendedUntil else s.suspension id := by
  unfold State.suspension
  rw [h, StorageMap.lookup_insert_eq]
  split_ifs <;> rfl

theorem Docked.suspension {v v' : WorkerView AccountId} (h : Docked v v') :
    v'.record.map WorkerRecord.suspendedUntil = v.record.map WorkerRecord.suspendedUntil := by
  rcases h with rfl | ⟨worker, stake, hworker, rfl⟩
  · rfl
  · rw [hworker]
    rfl

theorem CrossesBoundary.suspension (h : CrossesBoundary s s') (id : WorkerId) :
    s'.suspension id = s.suspension id := by
  show (s'.worker id).record.map _ = _
  rw [(h.worker id).record.1, WorkerView.applyDue_record fun _ _ _ => rfl]
  rfl

/-- The workers that a boundary selects are not suspended in the new epoch. -/
theorem CrossesBoundary.not_suspended (h : CrossesBoundary s s')
    (hfits : s'.workers.keys.length ≤ T.maxCandidates.toNat) {id : WorkerId}
    (hid : id ∈ s'.activeWorkers.toList) :
    ∃ epoch, s'.suspension id = some epoch ∧ epoch ≤ s'.currentEpoch := by
  obtain ⟨ranked, hranked, hids⟩ := rankWorkers_ranked s'.currentEpoch hfits
  rw [h.active, hids] at hid
  obtain ⟨entry, hentry, rfl⟩ := List.mem_map.mp (List.mem_of_mem_take hid)
  obtain ⟨hworker, -, hsuspended⟩ := (hranked.complete entry.1 entry.2).mp hentry
  refine ⟨entry.2.suspendedUntil, ?_, hsuspended⟩
  unfold State.suspension
  rw [hworker, Option.map_some]

section
variable [DecidableEq AccountId]

variable {a : Action AccountId Ledger} {h : History T}

/-- A move keeps the suspension of a worker, registers the worker, or proves an equivocation of
it. -/
theorem WorkersMove.suspension (h : WorkersMove s s' a) (hs : Roster s) (id : WorkerId) :
    s'.suspension id = s.suspension id ∨
      s.suspension id = none ∧ s'.suspension id = some 0 ∨
      a.reports id = true ∧
        s'.suspension id = some (s.currentEpoch.satAdd T.equivocationSuspension) := by
  cases h with
  | @register origin sessionKey stake owner next ledger hnew hroom hnext hs' =>
    rw [suspension_insert (congrArg State.workers hs')]
    split_ifs with hid
    · refine Or.inr (Or.inl ⟨?_, rfl⟩)
      -- The next id is the first one that was not given out.
      by_contra hgiven
      have := (hs.numbered.given id).mp (suspension_ne_none.mp hgiven)
      rw [hid] at this
      exact Nat.lt_irrefl _ this
    · exact Or.inl rfl
  | schedule hworker hpending hchunk hs' =>
    rw [hs']
    exact Or.inl rfl
  | vote hdocks => exact Or.inl (hdocks.docked id).suspension
  | @suspend origin workerId first second _ _ worker ledger actual hworker hs' =>
    rw [suspension_insert (congrArg State.workers hs')]
    split_ifs with hid
    · subst hid
      exact Or.inr (Or.inr ⟨beq_self_eq_true id, rfl⟩)
    · exact Or.inl rfl
  | duties _ hwithin _ => exact Or.inl (hwithin.unchanged (fun s => s.suspension id) fun _ _ => rfl)
  | settle hdocks => exact Or.inl (hdocks.docked id).suspension
  | boundary hdue hboundary hcrosses =>
    left
    rw [hcrosses.suspension]
    exact (((finalizeDueVotes_docks _).of_ok hdue).docked id).suspension
  | system hs' =>
    rw [hs']
    exact Or.inl rfl

variable {id : WorkerId} {l : Label AccountId Ledger}

/-- A report that succeeds suspends its worker. -/
theorem WorkersMove.reported (h : WorkersMove s s' a) (ha : a.reports id = true) :
    s'.suspension id = some (s.currentEpoch.satAdd T.equivocationSuspension) := by
  cases h with
  | suspend hworker hs' =>
    cases eq_of_beq ha
    rw [suspension_insert (congrArg State.workers hs'), if_pos rfl]
  | @duties a hoffered hwithin hassigned =>
    cases a with
    | submitEquivocation => cases hoffered
    | _ => cases ha
  | _ => cases ha

/-- A move that does not cross a boundary keeps the epoch and the active workers. One that does
goes to the next epoch. -/
theorem WorkersMove.epoch (h : WorkersMove s s' a) :
    a.crosses T = false ∧ s'.currentEpoch = s.currentEpoch ∧ s'.activeWorkers = s.activeWorkers ∨
      a.crosses T = true ∧ s'.currentEpoch = s.currentEpoch.satAdd 1 ∧
        ∃ s₁, CrossesBoundary s₁ s' := by
  cases h with
  | register hnew hroom hnext hs' =>
    rw [hs']
    exact Or.inl ⟨rfl, rfl, rfl⟩
  | schedule hworker hpending hchunk hs' =>
    rw [hs']
    exact Or.inl ⟨rfl, rfl, rfl⟩
  | vote hdocks =>
    exact Or.inl ⟨rfl, hdocks.within.unchanged State.currentEpoch fun _ _ => rfl,
      hdocks.within.unchanged State.activeWorkers fun _ _ => rfl⟩
  | suspend hworker hs' =>
    rw [hs']
    exact Or.inl ⟨rfl, rfl, rfl⟩
  | @duties a hoffered hwithin hassigned =>
    refine Or.inl ⟨?_, hwithin.unchanged State.currentEpoch fun _ _ => rfl,
      hwithin.unchanged State.activeWorkers fun _ _ => rfl⟩
    -- The hook is not offered to other pallets.
    cases a with
    | onInitialize block => cases hoffered
    | _ => rfl
  | settle hdocks hnot =>
    exact Or.inl ⟨decide_eq_false hnot, hdocks.within.unchanged State.currentEpoch fun _ _ => rfl,
      hdocks.within.unchanged State.activeWorkers fun _ _ => rfl⟩
  | boundary hdue hboundary hcrosses =>
    have hdocks := (finalizeDueVotes_docks _).of_ok hdue
    refine Or.inr ⟨decide_eq_true hboundary, ?_, _, hcrosses⟩
    rw [hcrosses.epoch, hdocks.within.unchanged State.currentEpoch fun _ _ => rfl]
  | system hs' =>
    rw [hs']
    exact Or.inl ⟨rfl, rfl, rfl⟩

theorem WorkersMove.epoch_le (h : WorkersMove s s' a) : s.currentEpoch ≤ s'.currentEpoch := by
  rcases h.epoch with ⟨-, hepoch, -⟩ | ⟨-, hepoch, -⟩
  · exact UInt32.le_of_eq hepoch.symm
  · rw [hepoch]
    exact UInt32.le_satAdd _ _

/-! ### Every run -/

/-- What a run says about suspensions: none was written for a later epoch than a proof can
write now, none that a proof wrote was shortened, an active worker is suspended only if it was
reported in this epoch, and one that was reported in it is suspended from now on. -/
structure SuspensionsKept (h : History T)
    (s : State T) : Prop where
  started : ∀ id epoch, s.suspension id = some epoch →
    epoch ≤ s.currentEpoch.satAdd T.equivocationSuspension
  kept : ∀ id, ∀ t ∈ h, provesAgainst id t = true → ∃ epoch, s.suspension id = some epoch ∧
    t.pre.currentEpoch.satAdd T.equivocationSuspension ≤ epoch
  active : ∀ id ∈ s.activeWorkers.toList, provenThisEpoch id h = false →
    ∃ epoch, s.suspension id = some epoch ∧ epoch ≤ s.currentEpoch
  reported : ∀ id, provenThisEpoch id h = true →
    s.suspension id = some (s.currentEpoch.satAdd T.equivocationSuspension)

omit [DecidableEq AccountId] in
/-- A step that failed proves nothing and crosses no boundary. -/
theorem SuspensionsKept.failed (hs : SuspensionsKept h s) (hl : l.2 ≠ none) :
    SuspensionsKept (⟨s, l, s⟩ :: h) s := by
  have hnone : l.2.isNone = false :=
    Option.isNone_eq_false_iff.mpr (Option.isSome_iff_ne_none.mpr hl)
  have hsame : ∀ id, provenThisEpoch id (⟨s, l, s⟩ :: h) = provenThisEpoch id h := fun id => by
    simp [provenThisEpoch, provesAgainst, hnone]
  refine ⟨hs.started, fun id t ht hproves => ?_, fun id hid hspared => ?_, fun id hproven => ?_⟩
  · rcases List.mem_cons.mp ht with rfl | ht
    · simp [provesAgainst, hnone] at hproves
    · exact hs.kept id t ht hproves
  · exact hs.active id hid (hsame id ▸ hspared)
  · exact hs.reported id (hsame id ▸ hproven)

/-- What is kept of a suspension that was there before the move. -/
theorem WorkersMove.suspension_le (h : WorkersMove s s' a) (hs : Roster s) {epoch : EpochIndex}
    (hid : s.suspension id = some epoch)
    (hstarted : epoch ≤ s.currentEpoch.satAdd T.equivocationSuspension) :
    ∃ epoch', s'.suspension id = some epoch' ∧ epoch ≤ epoch' := by
  rcases h.suspension hs id with hsame | ⟨hnone, -⟩ | ⟨-, hnew⟩
  · exact ⟨epoch, hsame.trans hid, UInt32.le_refl _⟩
  · rw [hid] at hnone
    cases hnone
  · exact ⟨_, hnew, hstarted⟩

/-- A step that succeeded keeps what a run says about suspensions. -/
theorem SuspensionsKept.move (hs : SuspensionsKept h s) (hroster : Roster s) (hl : l.2 = none)
    (hmove : WorkersMove s s' l.1) : SuspensionsKept (⟨s, l, s'⟩ :: h) s' := by
  refine ⟨fun id epoch huntil => ?_, fun id t ht hproves => ?_, fun id hid hspared => ?_,
    fun id hproven => ?_⟩
  · have hmono : s.currentEpoch.satAdd T.equivocationSuspension ≤
        s'.currentEpoch.satAdd T.equivocationSuspension :=
      UInt32.satAdd_le_satAdd hmove.epoch_le _
    rcases hmove.suspension hroster id with hsame | ⟨-, hzero⟩ | ⟨-, hnew⟩
    · exact UInt32.le_trans (hs.started id epoch (hsame.symm.trans huntil)) hmono
    · rw [hzero] at huntil
      cases huntil
      exact UInt32.zero_le
    · rw [hnew] at huntil
      cases huntil
      exact hmono
  · rcases List.mem_cons.mp ht with rfl | ht
    · exact ⟨_, hmove.reported (Bool.and_eq_true_iff.mp hproves).2, UInt32.le_refl _⟩
    · obtain ⟨epoch, huntil, hle⟩ := hs.kept id t ht hproves
      obtain ⟨epoch', hepoch', hle'⟩ := hmove.suspension_le hroster huntil (hs.started id _ huntil)
      exact ⟨epoch', hepoch', UInt32.le_trans hle hle'⟩
  · rcases hmove.epoch with ⟨hcrosses, hepoch, hactive⟩ | ⟨-, -, s₁, hcrosses⟩
    · -- The worker was active before, and neither this step nor an earlier one reported it.
      simp only [provenThisEpoch, provesAgainst, hl, hcrosses, Option.isNone_none, Bool.true_and,
        Bool.not_false, Bool.or_eq_false_iff] at hspared
      rw [hactive] at hid
      obtain ⟨epoch, huntil, hle⟩ := hs.active id hid hspared.2
      rcases hmove.suspension hroster id with hsame | ⟨hnone, -⟩ | ⟨hreports, -⟩
      · exact ⟨epoch, hsame.trans huntil, hepoch ▸ hle⟩
      · rw [huntil] at hnone
        cases hnone
      · rw [hspared.1] at hreports
        cases hreports
    · exact hcrosses.not_suspended (hroster.move hmove).fits hid
  · rcases hmove.epoch with ⟨hcrosses, hepoch, -⟩ | ⟨hcrosses, -⟩
    · simp only [provenThisEpoch, provesAgainst, hl, hcrosses, Option.isNone_none, Bool.true_and,
        Bool.not_false, Bool.or_eq_true] at hproven
      rw [hepoch]
      rcases hproven with hreports | hbefore
      · exact hmove.reported hreports
      · -- The epoch is the same, so a second report writes the same suspension.
        rcases hmove.suspension hroster id with hsame | ⟨hnone, -⟩ | ⟨-, hnew⟩
        · exact hsame.trans (hs.reported id hbefore)
        · exact nomatch (hs.reported id hbefore).symm.trans hnone
        · exact hnew
    · simp [provenThisEpoch, hl, hcrosses] at hproven

/-- No worker of the genesis is suspended. -/
theorem genesis_suspension (h : Genesis T s) {epoch : EpochIndex}
    (hid : s.suspension id = some epoch) : epoch = 0 := by
  obtain ⟨workers, ledger, h⟩ := h
  unfold genesisBuild at h
  obtain ⟨-, h⟩ := Tx.check_bind_ok.mp h
  obtain ⟨_, s₁, hbuild, h⟩ := Tx.bind_ok.mp h
  have hall : ∀ id, s₁.suspension id = none ∨ s₁.suspension id = some 0 := by
    refine Tx.forEach_invariant
      (I := fun s => ∀ id, s.suspension id = none ∨ s.suspension id = some 0)
      (fun entry _ s s' hs hentry id => ?_) (fun _ => Or.inl rfl) hbuild
    obtain ⟨ledger, -, -, -, hs'⟩ := buildWorker_ok hentry
    rw [suspension_insert (congrArg State.workers hs')]
    split_ifs
    · exact Or.inr rfl
    · exact hs id
  cases h
  rcases hall id with hnone | hzero
  · exact nomatch hid.symm.trans hnone
  · exact Option.some.inj (hid.symm.trans hzero)

/-- In every run suspensions are kept. -/
theorem suspensionsKept_of_run (hr : Run T h s) : SuspensionsKept h s := by
  induction hr with
  | @start s hs =>
    refine ⟨fun id epoch huntil => ?_, fun _ _ ht => absurd ht List.not_mem_nil,
      fun id hid _ => ?_, nofun⟩
    · rw [genesis_suspension hs huntil]
      exact UInt32.zero_le
    · have hregistered := suspension_ne_none.mpr ((genesis_roster hs).active id hid)
      obtain ⟨epoch, huntil⟩ := Option.ne_none_iff_exists'.mp hregistered
      refine ⟨epoch, huntil, ?_⟩
      rw [genesis_suspension hs huntil]
      exact UInt32.zero_le
  | @extend h s l s' hr hstep ih =>
    rcases workersMove_of_step (roundBook_sound hr) hstep with ⟨hl, hmove⟩ | ⟨hl, rfl⟩
    · exact ih.move (roster_of_run hr) hl hmove
    · exact ih.failed hl

/-- A worker that gets a new duty is not suspended exactly when no equivocation of it was proven
in the current epoch, or a proof suspends for no epoch, or the epochs have run out. Then all
suspensions that were proven against it before have run out. -/
theorem assigned_worker_not_suspended_iff
    {h : History T} (hr : Run T h s) {workId : WorkId}
    {round : AssignmentRound} {assignment : Assignment T}
    (hnew : s.assignments.lookup (workId, round) = none)
    (hassign : assignWork workId round s = .ok assignment s') {id : WorkerId}
    (hid : id ∈ assignment.toList) :
    ∃ worker, s.workers.lookup id = some worker ∧
      (worker.suspendedUntil ≤ s.currentEpoch ↔ provenThisEpoch id h = false ∨
        T.equivocationSuspension = 0 ∨ s.currentEpoch.toNat = u32Max) ∧
      (worker.suspendedUntil ≤ s.currentEpoch → ∀ t ∈ h, provesAgainst id t = true →
        t.pre.currentEpoch.satAdd T.equivocationSuspension ≤ s.currentEpoch) := by
  have hkept := suspensionsKept_of_run hr
  have hactive : id ∈ s.activeWorkers.toList := by
    rcases assignWork_cases hassign with ⟨hold, -⟩ | ⟨-, -, -, rfl, -⟩
    · rw [hnew] at hold
      cases hold
    · exact mem_active_of_candidate (List.mem_of_mem_take hid)
  have hregistered := suspension_ne_none.mpr ((roster_of_run hr).active id hactive)
  obtain ⟨epoch, huntil⟩ := Option.ne_none_iff_exists'.mp hregistered
  obtain ⟨worker, hworker, rfl⟩ := Option.map_eq_some_iff.mp huntil
  refine ⟨worker, hworker, ?_, fun hle t ht hproves => ?_⟩
  · cases hproven : provenThisEpoch id h with
    | false =>
      obtain ⟨epoch, hepoch, hle⟩ := hkept.active id hactive hproven
      cases huntil.symm.trans hepoch
      exact iff_of_true hle (Or.inl rfl)
    | true =>
      -- Reported in this epoch, a worker is suspended unless the period is zero.
      have hsuspended := Option.some.inj (huntil.symm.trans (hkept.reported id hproven))
      rw [hsuspended, UInt32.satAdd_le_self_iff, or_iff_right Bool.false_ne_true.symm]
  · obtain ⟨epoch, hepoch, hproven⟩ := hkept.kept id t ht hproves
    cases huntil.symm.trans hepoch
    exact UInt32.le_trans hproven hle

end

/-- A worker that was reported in the first epoch gets duties again in the fourth one. -/
theorem assigned_worker_not_suspended_again :
    ∃ h, ∃ s : State referenceWorkers, Run referenceWorkers h s ∧
      s.assignments.lookup (1, 0) = none ∧ (∃ t ∈ h, provesAgainst 0 t = true) ∧
      (∃ assignment s', assignWork 1 0 s = .ok assignment s' ∧ assignment.toList = [0]) ∧
      ∃ worker, s.workers.lookup 0 = some worker ∧ worker.suspendedUntil ≤ s.currentEpoch := by
  obtain ⟨h, s, hrun, hproves, hspared, hnew, assignment, s', hassign, hlist⟩ :=
    Reference.exists_workersHistory referenceWorkers
    [.assignWork 0 0, equivocation, .onInitialize 100, .onInitialize 200, .onInitialize 300]
    (fun h s => (∃ t ∈ h, provesAgainst 0 t = true) ∧ provenThisEpoch 0 h = false ∧
      s.assignments.lookup (1, 0) = none ∧
      ∃ assignment s', assignWork 1 0 s = .ok assignment s' ∧ assignment.toList = [0])
    (by decide +kernel)
  obtain ⟨worker, hworker, hiff, -⟩ := assigned_worker_not_suspended_iff hrun hnew hassign
    (show 0 ∈ assignment.toList by rw [hlist]; exact List.mem_singleton_self 0)
  exact ⟨h, s, hrun, hnew, hproves, ⟨assignment, s', hassign, hlist⟩, worker, hworker,
    hiff.mpr (Or.inl hspared)⟩

/-- A worker is reported and suspended until epoch 2. In the same epoch, which is epoch 0, it
gets a new duty. -/
theorem suspended_worker_assigned :
    ∃ h, ∃ s : State referenceWorkers, Run referenceWorkers h s ∧ s.currentEpoch = 0 ∧
      s.assignments.lookup (1, 0) = none ∧ (∃ t ∈ h, provesAgainst 0 t = true) ∧
      (∃ assignment s', assignWork 1 0 s = .ok assignment s' ∧ assignment.toList = [0]) ∧
      ∃ worker, s.workers.lookup 0 = some worker ∧ worker.suspendedUntil = 2 :=
  Reference.exists_workersHistory referenceWorkers [.assignWork 0 0, equivocation] _
    (by decide +kernel)

end MiniJam.Workers
