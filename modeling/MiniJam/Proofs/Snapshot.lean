import MiniJam.Proofs.WorkerMoves

/-!
# `MiniJam.Proofs.Snapshot`: the registry and the snapshot of an epoch

`Roster` is what the registry keeps in every state: the count is the number of workers, the index
and the owners are inverse to each other, ids are given out in order, and the active workers are
registered. Only a registration and an epoch boundary write an owner or the active workers.

The boundary collects the eligible workers with a push that drops what does not fit. By the count
it drops nobody, so the snapshot is the first `TopWorkers` of all eligible workers
(`epoch_snapshot_exact`). `RankedFor` says which list that is without the order of the storage:
highest stake first, lower id first among equal stakes.
-/

set_option autoImplicit false

namespace MiniJam.Workers

variable {AccountId Ledger : Type} {T : Config AccountId Ledger} {s s' : State T}

/-! ### The ranking of an epoch -/

/-- All workers that may be active in an epoch, highest stake first, and lower id first among
equal stakes. -/
structure RankedFor (s : State T) (epoch : EpochIndex)
    (ranked : List (WorkerId × WorkerRecord AccountId)) : Prop where
  complete : ∀ id worker, (id, worker) ∈ ranked ↔ s.workers.lookup id = some worker ∧
    worker.effectiveEpoch ≤ epoch ∧ worker.suspendedUntil ≤ epoch
  ordered : ranked.Pairwise fun a b =>
    b.2.activeStake < a.2.activeStake ∨ a.2.activeStake = b.2.activeStake ∧ a.1 < b.1

/-- A ranking has no worker twice. -/
theorem RankedFor.nodup {epoch : EpochIndex} {ranked : List (WorkerId × WorkerRecord AccountId)}
    (h : RankedFor s epoch ranked) : (ranked.map Prod.fst).Nodup := by
  refine List.pairwise_map.mpr (h.ordered.imp_of_mem fun {a b} ha hb hab heq => ?_)
  -- Two entries with one id are one entry, and an entry does not come before itself.
  have hsame : a.2 = b.2 := by
    have hworker := ((h.complete a.1 a.2).mp ha).1
    rw [heq, ((h.complete b.1 b.2).mp hb).1] at hworker
    exact (Option.some.inj hworker).symm
  rcases hab with hstake | ⟨-, hid⟩
  · rw [hsame] at hstake
    exact Nat.lt_irrefl _ hstake
  · rw [heq] at hid
    exact UInt64.lt_irrefl _ hid

/-- What the boundary sorts is such a ranking, when nobody was dropped from it. -/
theorem rankWorkers_ranked (epoch : EpochIndex)
    (hcount : s.workers.keys.length ≤ T.maxCandidates.toNat) :
    ∃ ranked, RankedFor s epoch ranked ∧
      (rankWorkers (eligibleWorkers s epoch).toList).map Prod.fst = ranked.map Prod.fst := by
  let key := fun entry : WorkerId × WorkerRecord AccountId =>
    toLex (OrderDual.toDual entry.2.activeStake, entry.1.toNat)
  let eligible := (StorageMap.iter T.iterOrder s.workers).filter fun entry =>
    decide (entry.2.effectiveEpoch ≤ epoch ∧ entry.2.suspendedUntil ≤ epoch)
  -- The ids are distinct, so no two keys are equal and the order is strict.
  have hdistinct : (eligible.map key).Nodup := by
    have hids : (eligible.map Prod.fst).Nodup :=
      (StorageMap.nodup_iter_keys T.iterOrder_perm s.workers).sublist
        (List.filter_sublist.map Prod.fst)
    refine List.pairwise_map.mpr ((List.pairwise_map.mp hids).imp fun hne heq => hne ?_)
    exact UInt64.toNat_inj.mp (Prod.mk.inj (toLex.injective heq)).2
  refine ⟨sortByKey key eligible, ⟨fun id worker => ?_, ?_⟩, ?_⟩
  · rw [(sortByKey_perm key eligible).mem_iff, List.mem_filter,
      StorageMap.mem_iter T.iterOrder_perm, decide_eq_true_eq]
  · refine (pairwise_lt_sortByKey hdistinct).imp fun {a b} hlt => ?_
    rcases Prod.Lex.toLex_lt_toLex.mp hlt with hstake | ⟨hstake, hid⟩
    · exact Or.inl (OrderDual.toDual_lt_toDual.mp hstake)
    · exact Or.inr ⟨OrderDual.toDual.injective hstake, UInt64.lt_iff_toNat_lt.mpr hid⟩
  · unfold rankWorkers
    rw [eligibleWorkers_toList hcount, ← map_sortByKey key
      (fun entry : WorkerId × WorkerRecord AccountId => (entry.1, entry.2.activeStake))
      fun _ => rfl, List.map_map]
    rfl

/-! ### The roster -/

theorem ownerOf_ne_none {id : WorkerId} :
    s.ownerOf id ≠ none ↔ ∃ worker, s.workers.lookup id = some worker := by
  unfold State.ownerOf
  rw [ne_eq, Option.map_eq_none_iff, ← ne_eq, Option.ne_none_iff_exists']

section
variable [DecidableEq AccountId]

/-- The ids below `n` have been given out, one worker for each. The index and the owners are
inverse to each other. -/
structure Numbered (s : State T) (n : Nat) : Prop where
  counted : s.workers.keys.length = n
  given : ∀ id, s.ownerOf id ≠ none ↔ id.toNat < n
  indexed : ∀ owner id, s.workerByAccount.lookup owner = some id ↔ s.ownerOf id = some owner

/-- The registry agrees with itself. -/
structure Roster (s : State T) : Prop where
  numbered : Numbered s s.nextWorkerId.toNat
  counted : s.workerCount = s.workers.keys.length
  bounded : s.workerCount ≤ T.maxCandidates.toNat
  scheduled : ∀ id, s.pendingUpdates.lookup id ≠ none → s.ownerOf id ≠ none
  active : ∀ id ∈ s.activeWorkers.toList, s.ownerOf id ≠ none
  distinct : s.activeWorkers.toList.Nodup

theorem Roster.fits (hs : Roster s) : s.workers.keys.length ≤ T.maxCandidates.toNat := by
  rw [← hs.counted]
  exact hs.bounded

theorem Numbered.of_owners {n : Nat} (hs : Numbered s n)
    (howners : ∀ id, s'.ownerOf id = s.ownerOf id)
    (hindex : s'.workerByAccount = s.workerByAccount) : Numbered s' n := by
  refine ⟨?_, fun id => ?_, fun owner id => ?_⟩
  · rw [← hs.counted]
    refine StorageMap.length_keys_congr fun id => ?_
    have howner := howners id
    unfold State.ownerOf at howner
    rw [← Option.map_eq_none_iff (f := WorkerRecord.owner), howner, Option.map_eq_none_iff]
  · rw [howners]
    exact hs.given id
  · rw [hindex, howners]
    exact hs.indexed owner id

variable {id : WorkerId} {worker : WorkerRecord AccountId} {v v' : WorkerView AccountId}
  {round : AssignmentRound}

/-- A new worker under the next id. -/
theorem Numbered.insert (hs : Numbered s id.toNat)
    (hnew : s.workerByAccount.lookup worker.owner = none)
    (hworkers : s'.workers = s.workers.insert id worker)
    (hindex : s'.workerByAccount = s.workerByAccount.insert worker.owner id) :
    Numbered s' (id.toNat + 1) ∧ ∀ id', s.ownerOf id' ≠ none → s'.ownerOf id' ≠ none := by
  have howner : ∀ id', s'.ownerOf id' = if id' = id then some worker.owner else s.ownerOf id' := by
    intro id'
    unfold State.ownerOf
    rw [hworkers, StorageMap.lookup_insert_eq]
    split_ifs <;> rfl
  -- The id is the first one that was not given out, so nobody has it.
  have hfree : s.ownerOf id = none := by
    by_contra hid
    exact Nat.lt_irrefl _ ((hs.given id).mp hid)
  refine ⟨⟨?_, fun id' => ?_, fun owner id' => ?_⟩, fun id' hid' => ?_⟩
  · have hnone : s.workers.lookup id = none := by
      unfold State.ownerOf at hfree
      rwa [Option.map_eq_none_iff] at hfree
    rw [hworkers, StorageMap.length_keys_insert_of_none hnone, hs.counted]
  · rw [howner]
    split_ifs with hid
    · simp [hid]
    · have hne : id'.toNat ≠ id.toNat := fun h => hid (UInt64.toNat_inj.mp h)
      rw [hs.given]
      omega
  · rw [hindex, StorageMap.lookup_insert_eq, howner]
    by_cases hown : owner = worker.owner
    · -- The owner had no worker, so no other worker is its own.
      subst hown
      have hold := hs.indexed worker.owner id'
      rw [hnew] at hold
      rw [if_pos rfl]
      split_ifs with hid
      · simp [hid]
      · simp only [Option.some.injEq, Ne.symm hid, false_iff]
        exact fun h => nomatch hold.mpr h
    · rw [if_neg hown]
      split_ifs with hid
      · rw [hs.indexed, hid, hfree]
        simp [Ne.symm hown]
      · exact hs.indexed owner id'
  · rw [howner]
    split_ifs
    · simp
    · exact hid'

/-! ### Genesis -/

theorem buildWorkers_numbered {workers : List (AccountId × PublicKey × Balance)} {n : Nat}
    (hn : n + workers.length < 2 ^ 64) (hs : Numbered s n)
    (h : Tx.forEach buildWorker (workers.zipIdx n) s = .ok () s') :
    Numbered s' (n + workers.length) := by
  induction workers generalizing n s with
  | nil =>
    cases h
    exact hs
  | cons entry workers ih =>
    rw [List.length_cons] at hn ⊢
    rw [List.zipIdx_cons, Tx.forEach_cons] at h
    obtain ⟨_, s₁, hbuild, h⟩ := Tx.bind_ok.mp h
    obtain ⟨ledger, -, hnew, -, hs₁⟩ := buildWorker_ok hbuild
    have hlt : n < 2 ^ 64 := by omega
    have hid : (UInt64.ofNat n).toNat = n := UInt64.toNat_ofNat_of_lt' hlt
    have hone : Numbered s₁ (n + 1) := by
      rw [← hid] at hs ⊢
      rw [hs₁]
      exact (hs.insert hnew rfl rfl).1
    have hrest := ih (by omega) hone h
    rwa [Nat.add_assoc, Nat.add_comm 1] at hrest

omit [DecidableEq AccountId] in
/-- The ids of the genesis workers: the positions of a list. -/
theorem zipIdx_ids (workers : List (AccountId × PublicKey × Balance)) :
    ((workers.zipIdx.map fun entry => (UInt64.ofNat entry.2, entry.1.2.2)).map Prod.fst) =
      (List.range workers.length).map UInt64.ofNat := by
  rw [List.map_map, List.range_eq_range', ← List.zipIdx_map_snd, List.map_map]
  rfl

/-- The genesis registers its workers under their positions, and ranks them. -/
theorem genesis_roster (h : Genesis T s) : Roster s := by
  obtain ⟨workers, ledger, h⟩ := h
  have hwithin := (genesisBuild_genesisItems workers).of_ok h
  unfold genesisBuild at h
  obtain ⟨hbound, h⟩ := Tx.check_bind_ok.mp h
  obtain ⟨_, s₁, hbuild, h⟩ := Tx.bind_ok.mp h
  have hlength : workers.length < 2 ^ 64 := by
    have := T.maxCandidates.toNat_lt
    omega
  have hempty : Numbered (State.init T ledger) 0 :=
    ⟨rfl, fun _ => iff_of_false (fun h => h rfl) (Nat.not_lt_zero _),
      fun _ _ => iff_of_false nofun nofun⟩
  have hnumbered := buildWorkers_numbered (by omega) hempty hbuild
  rw [Nat.zero_add] at hnumbered
  -- The snapshot holds ids of the list, each at most once.
  have hranked : ((rankWorkers (workers.zipIdx.map fun entry =>
      (UInt64.ofNat entry.2, entry.1.2.2))).map Prod.fst).Perm
      ((List.range workers.length).map UInt64.ofNat) := by
    rw [← zipIdx_ids]
    exact (sortByKey_perm _ _).map Prod.fst
  have hvalue : ∀ i, i < workers.length → (UInt64.ofNat i).toNat = i := fun i hi =>
    UInt64.toNat_ofNat_of_lt' (Nat.lt_trans hi hlength)
  have hnext : (UInt64.ofNat workers.length).toNat = workers.length :=
    UInt64.toNat_ofNat_of_lt' hlength
  cases h
  refine ⟨?_, hnumbered.counted.symm, hbound, fun id hid => ?_, fun id hid => ?_, ?_⟩
  · show Numbered _ (UInt64.ofNat workers.length).toNat
    rw [hnext]
    exact hnumbered.of_owners (fun _ => rfl) rfl
  · exact absurd (by rw [hwithin.unchanged State.pendingUpdates fun _ _ => rfl]; rfl) hid
  · have hmem := hranked.mem_iff.mp (List.mem_of_mem_take hid)
    obtain ⟨i, hi, rfl⟩ := List.mem_map.mp hmem
    rw [List.mem_range] at hi
    refine (hnumbered.given _).mpr ?_
    rw [hvalue i hi]
    exact hi
  · refine List.Nodup.sublist (List.take_sublist _ _) (hranked.nodup_iff.mpr ?_)
    refine List.Nodup.map_on (fun i hi j hj heq => ?_) List.nodup_range
    rw [List.mem_range] at hi hj
    rw [← hvalue i hi, ← hvalue j hj, heq]

/-! ### Every run -/

omit [DecidableEq AccountId] in
theorem Docked.owner (h : Docked v v') :
    v'.record.map WorkerRecord.owner = v.record.map WorkerRecord.owner := by
  rcases h with rfl | ⟨worker, stake, hworker, rfl⟩
  · rfl
  · rw [hworker]
    rfl

omit [DecidableEq AccountId] in
theorem ReleasedAt.record {epoch : EpochIndex} (h : ReleasedAt epoch v v') :
    v'.record = v.record ∧ v'.pending = v.pending := by
  rcases h with rfl | ⟨chunk, -, -, rfl⟩
  · exact ⟨rfl, rfl⟩
  · exact ⟨rfl, rfl⟩

omit [DecidableEq AccountId] in
/-- A boundary keeps the owner of a worker, and schedules nothing. -/
theorem CrossesBoundary.owner (h : CrossesBoundary s s') (id : WorkerId) :
    s'.ownerOf id = s.ownerOf id ∧
      (s'.pendingUpdates.lookup id ≠ none → s.pendingUpdates.lookup id ≠ none) := by
  obtain ⟨hrecord, hpending⟩ := (h.worker id).record
  refine ⟨?_, fun hscheduled => ?_⟩
  · show (s'.worker id).record.map _ = _
    rw [hrecord, WorkerView.applyDue_record fun _ _ _ => rfl]
    rfl
  · rcases (s.worker id).applyDue_cases s'.currentEpoch with ⟨hsame, -⟩ | ⟨update, hupdate, -⟩
    · rw [hsame] at hpending
      exact fun hnone => hscheduled (hpending.trans hnone)
    · exact fun hnone => nomatch hupdate.symm.trans hnone

/-- Nothing was written but records, which keep their owners, and parts the roster does not
read. -/
theorem Roster.of_owners (hs : Roster s) (howners : ∀ id, s'.ownerOf id = s.ownerOf id)
    (hindex : s'.workerByAccount = s.workerByAccount) (hcount : s'.workerCount = s.workerCount)
    (hnext : s'.nextWorkerId = s.nextWorkerId) (hpending : s'.pendingUpdates = s.pendingUpdates)
    (hactive : s'.activeWorkers = s.activeWorkers) : Roster s' := by
  have hnumbered := hs.numbered.of_owners howners hindex
  refine ⟨?_, ?_, ?_, fun id hid => ?_, fun id hid => ?_, ?_⟩
  · rw [hnext]
    exact hnumbered
  · rw [hcount, hs.counted, hs.numbered.counted, hnumbered.counted]
  · rw [hcount]
    exact hs.bounded
  · rw [hpending] at hid
    rw [howners]
    exact hs.scheduled id hid
  · rw [hactive] at hid
    rw [howners]
    exact hs.active id hid
  · rw [hactive]
    exact hs.distinct

theorem Roster.docks (hs : Roster s) (h : Docks s s') : Roster s' := by
  have howners : ∀ id, s'.ownerOf id = s.ownerOf id := fun id => (h.docked id).owner
  obtain ⟨_, rfl⟩ := h.within.exists_put
  exact hs.of_owners howners rfl rfl rfl rfl rfl

theorem Roster.crosses (hs : Roster s) (h : CrossesBoundary s s') : Roster s' := by
  have howners : ∀ id, s'.ownerOf id = s.ownerOf id := fun id => (h.owner id).1
  have hnumbered := hs.numbered.of_owners howners
    (h.within.unchanged State.workerByAccount fun _ _ => rfl)
  have hcount : s'.workerCount = s.workerCount :=
    h.within.unchanged State.workerCount fun _ _ => rfl
  have hnext : s'.nextWorkerId = s.nextWorkerId :=
    h.within.unchanged State.nextWorkerId fun _ _ => rfl
  have hcounted : s'.workerCount = s'.workers.keys.length := by
    rw [hcount, hs.counted, hs.numbered.counted, hnumbered.counted]
  have hbounded : s'.workerCount ≤ T.maxCandidates.toNat := by
    rw [hcount]
    exact hs.bounded
  -- The new active workers come from a ranking of registered workers.
  have hfits : s'.workers.keys.length ≤ T.maxCandidates.toNat := by
    rw [← hcounted]
    exact hbounded
  refine ⟨?_, hcounted, hbounded, fun id hid => ?_, fun id hid => ?_, ?_⟩
  · rw [hnext]
    exact hnumbered
  · rw [howners]
    exact hs.scheduled id ((h.owner id).2 hid)
  · rw [h.active] at hid
    exact ownerOf_ne_none.mpr (lookup_of_ranked hfits (List.mem_of_mem_take hid))
  · obtain ⟨ranked, hranked, hids⟩ := rankWorkers_ranked s'.currentEpoch hfits
    rw [h.active, hids]
    exact hranked.nodup.sublist (List.take_sublist _ _)

theorem Roster.move {a : Action AccountId Ledger} (hs : Roster s) (h : WorkersMove s s' a) :
    Roster s' := by
  cases h with
  | @register origin sessionKey stake owner next ledger hnew hroom hnext hs' =>
    have hinsert : Numbered s' (s.nextWorkerId.toNat + 1) ∧
        ∀ id, s.ownerOf id ≠ none → s'.ownerOf id ≠ none := by
      rw [hs']
      exact hs.numbered.insert hnew rfl rfl
    obtain ⟨hnumbered, hgrow⟩ := hinsert
    -- The new worker takes the next number, and the count follows.
    have hcount : s'.workerCount = s.workerCount + 1 := by rw [hs']
    refine ⟨?_, ?_, ?_, fun id hid => hgrow id ?_, fun id hid => hgrow id ?_, ?_⟩
    · rw [show s'.nextWorkerId = next by rw [hs'], hnext]
      exact hnumbered
    · rw [hcount, hs.counted, hs.numbered.counted, hnumbered.counted]
    · rw [hcount]
      exact hroom
    · rw [show s'.pendingUpdates = s.pendingUpdates by rw [hs']] at hid
      exact hs.scheduled id hid
    · rw [show s'.activeWorkers = s.activeWorkers by rw [hs']] at hid
      exact hs.active id hid
    · rw [show s'.activeWorkers = s.activeWorkers by rw [hs']]
      exact hs.distinct
  | @schedule origin sessionKey stake id worker ledger hworker hpending hchunk hs' =>
    subst hs'
    refine ⟨hs.numbered.of_owners (fun _ => rfl) rfl, hs.counted, hs.bounded, fun id' hid => ?_,
      hs.active, hs.distinct⟩
    rw [StorageMap.lookup_insert_eq] at hid
    split_ifs at hid with hsame
    · rw [hsame]
      exact ownerOf_ne_none.mpr ⟨worker, hworker⟩
    · exact hs.scheduled id' hid
  | vote hdocks => exact hs.docks hdocks
  | @suspend origin workerId first second _ _ worker ledger actual hworker hs' =>
    subst hs'
    refine hs.of_owners (fun id => ?_) rfl rfl rfl rfl rfl
    -- A suspension rewrites the record of the same owner.
    show ((s.workers.insert workerId _).lookup id).map WorkerRecord.owner = _
    rw [StorageMap.lookup_insert_eq]
    split_ifs with hid
    · unfold State.ownerOf
      rw [hid, hworker]
      rfl
    · rfl
  | duties _ hwithin _ =>
    obtain ⟨_, rfl⟩ := hwithin.exists_put
    exact hs.of_owners (fun _ => rfl) rfl rfl rfl rfl rfl
  | settle hdocks => exact hs.docks hdocks
  | boundary hdue hboundary hcrosses =>
    exact (hs.docks ((finalizeDueVotes_docks _).of_ok hdue)).crosses hcrosses
  | system hs' =>
    subst hs'
    exact hs.of_owners (fun _ => rfl) rfl rfl rfl rfl rfl

/-- The registry agrees with itself in every state of every run of the pallet. -/
theorem roster_of_run {h : History T}
    (hr : Run T h s) : Roster s :=
  workers_invariant (fun _ hs => genesis_roster hs) (fun _ _ _ hs hmove => hs.move hmove) hr

/-! ### The snapshot -/

omit [DecidableEq AccountId] in
/-- Duties can be given to registered workers. -/
theorem assignDuties_return (workId : WorkId) (round : AssignmentRound) (epoch : EpochIndex)
    {ids : List WorkerId} (hids : ∀ id ∈ ids, s.ownerOf id ≠ none) :
    ∃ s', Tx.forEach (assignDuty workId round epoch) ids s = .ok () s' := by
  induction ids generalizing s with
  | nil => exact ⟨s, rfl⟩
  | cons id ids ih =>
    obtain ⟨worker, hworker⟩ := ownerOf_ne_none.mp (hids id List.mem_cons_self)
    have hfirst : ∃ s₁, (assignDuty workId round epoch id : M T Unit) s = .ok () s₁ := by
      unfold assignDuty
      rw [Tx.modify_bind_apply, Tx.read_bind_apply, hworker]
      exact ⟨_, rfl⟩
    obtain ⟨s₁, hfirst⟩ := hfirst
    have hlater : ∀ id' ∈ ids, s₁.ownerOf id' ≠ none := by
      intro id' hid'
      obtain ⟨_, -, rfl⟩ := assignDuty_ok hfirst
      exact hids id' (List.mem_cons_of_mem _ hid')
    obtain ⟨s', hrest⟩ := ih hlater
    exact ⟨s', Tx.bind_ok.mpr ⟨(), s₁, hfirst, hrest⟩⟩

omit [DecidableEq AccountId] in
theorem mem_active_of_candidate {workId : WorkId} (hid : id ∈ assignmentCandidates s workId round) :
    id ∈ s.activeWorkers.toList :=
  List.mem_of_mem_filter ((sortByKey_perm _ _).mem_iff.mp hid)

/-- Every worker that can be chosen has a record, so its key is found. -/
theorem Roster.assignWork_returns (hs : Roster s) {workId : WorkId}
    (hnew : s.assignments.lookup (workId, round) = none)
    (hworks : s.workCount s.currentEpoch round < T.maxWorksPerRound.toNat)
    (hfew : T.workersPerWork.toNat ≤ (assignmentCandidates s workId round).length) :
    ∃ assignment s', assignWork workId round s = .ok assignment s' := by
  have hregistered : ∀ id ∈ (BoundedVec.takeFrom (assignmentCandidates s workId round) :
      Assignment T).toList, s.ownerOf id ≠ none := fun id hid =>
    hs.active id (mem_active_of_candidate (List.mem_of_mem_take hid))
  obtain ⟨s₁, hduties⟩ := assignDuties_return workId round s.currentEpoch hregistered
  unfold assignWork
  rw [Tx.read_bind_apply, hnew]
  dsimp only
  rw [Tx.ensure_bind_apply, if_pos hworks, Tx.ensure_bind_apply, if_pos hfew, Tx.bind_apply,
    hduties]
  exact ⟨_, _, rfl⟩

theorem Roster.assignWork_no_panic (hs : Roster s) (workId : WorkId) (round : AssignmentRound) :
    assignWork workId round s ≠ .panicked := by
  intro h
  have hpanicked := h
  unfold assignWork at h
  rw [Tx.read_bind_apply] at h
  cases hexisting : s.assignments.lookup (workId, round) with
  | some existing =>
    rw [hexisting] at h
    cases h
  | none =>
    rw [hexisting] at h
    dsimp only at h
    rw [Tx.ensure_bind_apply] at h
    split_ifs at h with hworks
    rw [Tx.ensure_bind_apply] at h
    split_ifs at h with hfew
    obtain ⟨assignment, s', hreturns⟩ := hs.assignWork_returns hexisting hworks hfew
    rw [hreturns] at hpanicked
    cases hpanicked

/-- What an epoch boundary leaves: the updates that are due have been applied, nobody who is
eligible was left out, and the first ones of the ranking are active. -/
structure TakesSnapshot (s s' : State T) : Prop where
  epoch : s'.currentEpoch = s.currentEpoch.satAdd 1
  applied : ∀ id update, s.pendingUpdates.lookup id = some update →
    update.effectiveEpoch ≤ s'.currentEpoch → s'.pendingUpdates.lookup id = none ∧
      ∃ worker, s'.workers.lookup id = some worker ∧ worker.effectiveEpoch = s'.currentEpoch ∧
        (∀ key ∈ update.sessionKey, worker.sessionKey = key) ∧
        ∀ stake ∈ update.stake, worker.activeStake = stake
  collected : ∀ id worker, s'.workers.lookup id = some worker →
    worker.effectiveEpoch ≤ s'.currentEpoch → worker.suspendedUntil ≤ s'.currentEpoch →
    (id, worker.activeStake) ∈ (eligibleWorkers s' s'.currentEpoch).toList
  selected : ∃ ranked, RankedFor s' s'.currentEpoch ranked ∧
    s'.activeWorkers.toList = (ranked.map Prod.fst).take T.topWorkers.toNat

omit [DecidableEq AccountId] in
/-- An update that is due is gone after the boundary, and its worker is as it says. -/
theorem CrossesBoundary.applied (h : CrossesBoundary s s') {update : PendingWorkerUpdate}
    (hworker : s.workers.lookup id = some worker)
    (hupdate : s.pendingUpdates.lookup id = some update)
    (hdue : update.effectiveEpoch ≤ s'.currentEpoch) :
    s'.pendingUpdates.lookup id = none ∧
      s'.workers.lookup id = some (update.applyTo s'.currentEpoch worker) := by
  obtain ⟨hrecord, hpending⟩ := (h.worker id).record
  rcases (s.worker id).applyDue_cases s'.currentEpoch with
    ⟨-, hlater⟩ | ⟨update', hupdate', -, hnow⟩
  · exact absurd (hlater update hupdate) (UInt32.not_lt.mpr hdue)
  · cases hupdate.symm.trans hupdate'
    rw [hnow] at hrecord hpending
    refine ⟨hpending, hrecord.trans ?_⟩
    rw [show (s.worker id).record = some worker from hworker, Option.map_some]

/-- The registry is exact in every state of every run, and so is the snapshot every epoch
boundary takes. The key of a chosen worker is always found. -/
theorem epoch_snapshot_exact {h : History T}
    (hr : Run T h s) :
    Roster s ∧
      (∀ t ∈ h, ∀ block, t.label.1 = .onInitialize block → EpochBoundary T block →
        TakesSnapshot t.pre t.post) ∧
      ∀ workId round, assignWork workId round s ≠ .panicked := by
  have hs := roster_of_run hr
  refine ⟨hs, fun t ht block hlabel hboundary => ?_, hs.assignWork_no_panic⟩
  have haround := hr.around (I := Roster) (fun _ _ hr => roster_of_run hr) ht
  have hhook := onInitialize_of_step (hr.steps t ht) hlabel
  obtain ⟨s₁, hdue, ⟨hnot, -⟩ | ⟨-, hcrosses⟩⟩ := onInitialize_crosses hhook
  · exact absurd hboundary hnot
  have hdocks := (finalizeDueVotes_docks block).of_ok hdue
  refine ⟨?_, fun id update hupdate hdueBy => ?_, fun id worker hworker heffective hsuspended => ?_,
    ?_⟩
  · rw [hcrosses.epoch, hdocks.within.unchanged State.currentEpoch fun _ _ => rfl]
  · -- The votings that are settled first leave the update, and the worker stays registered.
    rw [← hdocks.within.unchanged State.pendingUpdates fun _ _ => rfl] at hupdate
    have hregistered := (haround.1.docks hdocks).scheduled id (by rw [hupdate]; exact nofun)
    obtain ⟨worker, hworker⟩ := ownerOf_ne_none.mp hregistered
    obtain ⟨hgone, happlied⟩ := hcrosses.applied hworker hupdate hdueBy
    refine ⟨hgone, _, happlied, rfl, fun key hkey => ?_, fun stake hstake => ?_⟩
    · simp [PendingWorkerUpdate.applyTo, Option.mem_def.mp hkey]
    · simp [PendingWorkerUpdate.applyTo, Option.mem_def.mp hstake]
  · rw [eligibleWorkers_toList haround.2.fits]
    refine List.mem_map.mpr ⟨(id, worker), List.mem_filter.mpr ⟨?_, ?_⟩, rfl⟩
    · exact (StorageMap.mem_iter T.iterOrder_perm).mpr hworker
    · exact decide_eq_true ⟨heffective, hsuspended⟩
  · obtain ⟨ranked, hranked, hids⟩ :=
      rankWorkers_ranked t.post.currentEpoch haround.2.fits
    exact ⟨ranked, hranked, by rw [← hids]; exact hcrosses.active⟩

end

/-- Two workers with one stake: the one with the lower id comes first. -/
theorem epoch_snapshot_exact_tie :
    ∃ h, ∃ s : State referenceWorkers, Run referenceWorkers h s ∧
      s.activeWorkers.toList = [0, 1] ∧ Roster s ∧
      (∃ t ∈ h, t.label.1 = .onInitialize 100 ∧ TakesSnapshot t.pre t.post) ∧
      assignWork 0 0 s ≠ .panicked := by
  obtain ⟨h, s, hrun, hactive, t, ht, hlabel⟩ := Reference.exists_workersHistory referenceWorkers
    [.register (.signed Reference.bob) (FixedBytes.fill 32 4) (1000 * Runtime.unit),
      .scheduleUpdate (.signed Reference.bob) (some (FixedBytes.fill 32 6)) none,
      .onInitialize 100]
    (fun h s => s.activeWorkers.toList = [0, 1] ∧ ∃ t ∈ h, t.label.1 = .onInitialize 100)
    (by decide +kernel)
  obtain ⟨hroster, hsnapshots, hkeys⟩ := epoch_snapshot_exact hrun
  exact ⟨h, s, hrun, hactive, hroster,
    ⟨t, ht, hlabel, hsnapshots t ht 100 hlabel ⟨by decide, by decide, by decide⟩⟩, hkeys 0 0⟩

end MiniJam.Workers
