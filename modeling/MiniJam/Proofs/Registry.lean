import MiniJam.Proofs.RoundBook

/-!
# `MiniJam.Proofs.Registry`: workers and their owners

A worker is registered under an id, and the index has the id of every owner. Nothing removes a
worker or changes its owner. So the index leads from the owner of a worker back to the worker,
and the workers of an assignment stay registered (`registered_of_run`).
-/

set_option autoImplicit false

namespace MiniJam.Workers

variable {AccountId Ledger : Type} {T : Config AccountId Ledger} {s s' : State T}

/-- The owner of a worker. -/
def State.ownerOf (s : State T) (id : WorkerId) : Option AccountId :=
  (s.workers.lookup id).map WorkerRecord.owner

section
variable [DecidableEq AccountId]

/-- The index has every worker under its owner, and assignments are full and of registered
workers. -/
structure Registered (s : State T) : Prop where
  indexed : ∀ id owner, s.ownerOf id = some owner → s.workerByAccount.lookup owner = some id
  full : ∀ k assignment, s.assignments.lookup k = some assignment →
    assignment.toList.length = T.workersPerWork.toNat
  assigned : ∀ k assignment, s.assignments.lookup k = some assignment →
    ∀ id ∈ assignment.toList, s.ownerOf id ≠ none

/-- Owners and the index stay, and assignments are cleared at most. -/
structure KeepsOwners (s s' : State T) : Prop where
  owners : ∀ id, s'.ownerOf id = s.ownerOf id
  index : s'.workerByAccount = s.workerByAccount
  assignments : ∀ k assignment, s'.assignments.lookup k = some assignment →
    s.assignments.lookup k = some assignment

omit [DecidableEq AccountId] in
instance : Std.Refl (KeepsOwners (T := T)) := ⟨fun _ => ⟨fun _ => rfl, rfl, fun _ _ h => h⟩⟩

omit [DecidableEq AccountId] in
instance : IsTrans (State T) KeepsOwners where
  trans _ _ _ h₁ h₂ :=
    { owners := fun id => (h₂.owners id).trans (h₁.owners id)
      index := h₂.index.trans h₁.index
      assignments := fun k a h => h₁.assignments k a (h₂.assignments k a h) }

/-- Where owners stay, the invariant holds on. -/
theorem KeepsOwners.registered (h : KeepsOwners s s') (hs : Registered s) : Registered s' where
  indexed id owner howner := by
    rw [h.owners] at howner
    rw [h.index]
    exact hs.indexed id owner howner
  full k assignment ha := hs.full k assignment (h.assignments k assignment ha)
  assigned k assignment ha id hid := by
    rw [h.owners]
    exact hs.assigned k assignment (h.assignments k assignment ha) id hid

end

/-! ### What keeps the owners -/

/-- Nothing about workers and assignments is written. -/
theorem KeepsOwners.of_same (hworkers : s'.workers = s.workers)
    (hindex : s'.workerByAccount = s.workerByAccount)
    (hassignments : s'.assignments = s.assignments) : KeepsOwners s s' where
  owners id := by
    unfold State.ownerOf
    rw [hworkers]
  index := hindex
  assignments k a h := by rwa [hassignments] at h

/-- A worker's record is replaced by one with the same owner. -/
theorem KeepsOwners.of_record {id : WorkerId} {worker record : WorkerRecord AccountId}
    (hworker : s.workers.lookup id = some worker) (howner : record.owner = worker.owner)
    (hworkers : s'.workers = s.workers.insert id record)
    (hindex : s'.workerByAccount = s.workerByAccount)
    (hassignments : s'.assignments = s.assignments) : KeepsOwners s s' where
  owners id' := by
    unfold State.ownerOf
    rw [hworkers, StorageMap.lookup_insert_eq]
    split_ifs with hid
    · rw [hid, hworker, Option.map_some, Option.map_some, howner]
    · rfl
  index := hindex
  assignments k a h := by rwa [hassignments] at h

/-- A settlement leaves the owners. -/
theorem SettlementWrite.keepsOwners (h : SettlementWrite s s') : KeepsOwners s s' := by
  cases h with
  | close => exact .of_same rfl rfl rfl
  | pay => exact .of_same rfl rfl rfl
  | dock hworker =>
    refine .of_record hworker ?_ rfl rfl rfl
    rfl
  | conclude => exact .of_same rfl rfl rfl

/-- An epoch boundary leaves the owners. -/
theorem BoundaryWrite.keepsOwners (h : BoundaryWrite s s') : KeepsOwners s s' := by
  cases h with
  | drop => exact .of_same rfl rfl rfl
  | apply hpending hworker =>
    refine .of_record hworker ?_ rfl rfl rfl
    rfl
  | release => exact .of_same rfl rfl rfl
  | snapshot => exact .of_same rfl rfl rfl

theorem finalizeVoting_keepsOwners (workId : WorkId) (round : AssignmentRound) :
    Tx.Rel KeepsOwners (finalizeVoting workId round : M T Unit) :=
  finalizeVoting_rel (fun _ _ h => h.keepsOwners) workId round

theorem clearAssignment_keepsOwners {workId : WorkId} {round : AssignmentRound}
    (h : clearAssignment workId round s = .ok () s') : KeepsOwners s s' := by
  obtain ⟨keys, votes, rfl, -, -⟩ := clearAssignment_writes h
  refine ⟨fun _ => rfl, rfl, fun k assignment ha => ?_⟩
  rw [StorageMap.lookup_erase_eq] at ha
  split_ifs at ha
  exact ha

/-! ### What changes the registry -/

section
variable [DecidableEq AccountId]

/-- A new worker, under an owner that the index does not have. -/
theorem Registered.insert {id : WorkerId} {worker : WorkerRecord AccountId} (hs : Registered s)
    (hnew : s.workerByAccount.lookup worker.owner = none)
    (hworkers : s'.workers = s.workers.insert id worker)
    (hindex : s'.workerByAccount = s.workerByAccount.insert worker.owner id)
    (hassignments : s'.assignments = s.assignments) : Registered s' := by
  have howner : ∀ id', s'.ownerOf id' = if id' = id then some worker.owner else s.ownerOf id' := by
    intro id'
    unfold State.ownerOf
    rw [hworkers, StorageMap.lookup_insert_eq]
    split_ifs <;> rfl
  refine ⟨fun id' owner h => ?_, fun k a h => ?_, fun k a h id' hid' => ?_⟩
  · rw [howner] at h
    rw [hindex, StorageMap.lookup_insert_eq]
    split_ifs at h with hid
    · cases h
      rw [if_pos rfl, hid]
    · have hold := hs.indexed id' owner h
      -- The new owner was not registered.
      rw [if_neg, hold]
      rintro rfl
      rw [hnew] at hold
      cases hold
  · rw [hassignments] at h
    exact hs.full k a h
  · rw [hassignments] at h
    rw [howner]
    split_ifs
    · simp
    · exact hs.assigned k a h id' hid'

theorem register_registered {origin : Origin AccountId} {sessionKey : PublicKey} {stake : Balance}
    (hs : Registered s) (h : register origin sessionKey stake s = .ok () s') : Registered s' := by
  obtain ⟨owner, next, ledger, -, hnew, -, -, -, -, rfl⟩ := register_ok h
  exact hs.insert hnew rfl rfl rfl

theorem genesis_registered (h : Genesis T s) : Registered s := by
  obtain ⟨workers, ledger, h⟩ := h
  unfold genesisBuild at h
  obtain ⟨-, h⟩ := Tx.check_bind_ok.mp h
  obtain ⟨_, s₁, hbuild, h⟩ := Tx.bind_ok.mp h
  have hinit : Registered (State.init T ledger) :=
    ⟨fun _ _ h => (nomatch h), fun _ _ h => (nomatch h), fun _ _ h => (nomatch h)⟩
  have hs₁ : Registered s₁ := by
    refine Tx.forEach_invariant (fun entry _ s s' hs hentry => ?_) hinit hbuild
    obtain ⟨ledger, -, hnew, -, rfl⟩ := buildWorker_ok hentry
    exact hs.insert hnew rfl rfl rfl
  cases h
  exact ⟨hs₁.indexed, hs₁.full, hs₁.assigned⟩

theorem assignWork_registered {workId : WorkId} {round : AssignmentRound}
    {assignment : Assignment T} (hs : Registered s)
    (h : assignWork workId round s = .ok assignment s') : Registered s' := by
  rcases assignWork_cases h with ⟨-, rfl⟩ | ⟨-, -, henough, rfl, s₁, hduties, rfl⟩
  · exact hs
  · obtain ⟨counts, keys, rfl, hkeys, -⟩ := assignDuties_writes hduties
    -- The new assignment has as many workers as a work needs, and duties were given to them.
    refine ⟨hs.indexed, fun k a ha => ?_, fun k a ha id hid => ?_⟩
    · rw [StorageMap.lookup_insert_eq] at ha
      split_ifs at ha
      · cases ha
        exact (List.length_take ..).trans (Nat.min_eq_left henough)
      · exact hs.full k a ha
    · rw [StorageMap.lookup_insert_eq] at ha
      split_ifs at ha
      · cases ha
        obtain ⟨worker, hworker, -⟩ := hkeys id hid
        simp [State.ownerOf, hworker]
      · exact hs.assigned k a ha id hid

/-! ### Every run -/

theorem registered_of_action {a : Action AccountId Ledger} (hs : Registered s)
    (h : a.run s = .ok () s') : Registered s' := by
  cases a with
  | register origin sessionKey stake => exact register_registered hs (Tx.transaction_ok.mp h)
  | scheduleUpdate origin sessionKey stake =>
    obtain ⟨_, _, _, _, -, -, -, -, -, -, -, rfl⟩ := scheduleUpdate_ok (Tx.transaction_ok.mp h)
    exact ⟨hs.indexed, hs.full, hs.assigned⟩
  | submitVote origin workerId vote signature =>
    exact (submitVote_rel (fun _ _ => KeepsOwners.of_same rfl rfl rfl)
      (finalizeVoting_keepsOwners _ _) (Tx.transaction_ok.mp h)).registered hs
  | submitEquivocation origin workerId first firstSignature second secondSignature =>
    obtain ⟨worker, _, _, _, hworker, -, -, rfl⟩ :=
      submitEquivocation_ok (Tx.transaction_ok.mp h)
    refine KeepsOwners.registered (.of_record hworker ?_ rfl rfl rfl) hs
    rfl
  | openVoting workId round candidateHash deadline =>
    obtain ⟨_, _, -, -, -, rfl⟩ := openVoting_writes h
    exact ⟨hs.indexed, hs.full, hs.assigned⟩
  | assignWork workId round =>
    obtain ⟨assignment, s₁, hassign, h⟩ := Tx.bind_ok.mp h
    cases h
    exact assignWork_registered hs hassign
  | clearAssignment workId round => exact (clearAssignment_keepsOwners h).registered hs
  | onInitialize block =>
    exact ((onInitialize_rel finalizeVoting_keepsOwners (fun _ _ h => h.keepsOwners)
      block).of_ok h).registered hs
  | system blockNumber blockHash ledger =>
    cases h
    exact ⟨hs.indexed, hs.full, hs.assigned⟩

/-- In every state of every run of the pallet owners and assignments agree with the workers. -/
theorem registered_of_run {h : History T}
    (hr : Run T h s) : Registered s :=
  hr.ok_invariant (fun _ hs => genesis_registered hs) fun _ _ hs ha => registered_of_action hs ha

end

end MiniJam.Workers
