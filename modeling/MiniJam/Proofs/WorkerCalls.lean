import MiniJam.Workers.Pallet

/-!
# `MiniJam.Proofs.WorkerCalls`: what a function of the workers pallet leaves

One lemma for each function of the pallet that writes says what the function checked and gives the
storage it leaves when it returns. The proofs about stakes, keys, owners, rounds and suspensions
start from these and do not open the functions again.

Finalizing a voting and crossing an epoch boundary are loops. `SettlementWrite` and
`BoundaryWrite` list what an iteration writes, and a relation that holds of each write holds of
the whole loop (`finalizeVoting_rel`, `onInitialize_rel`).
-/

set_option autoImplicit false

namespace MiniJam.Workers

variable {AccountId Ledger : Type} {T : Config AccountId Ledger} {s s' : State T}
  {origin : Origin AccountId} {workId : WorkId} {round : AssignmentRound} {id : WorkerId}

/-! ### The ledger -/

theorem currencyOp_ok {f : Ledger → Option Ledger} (h : currencyOp f s = .ok () s') :
    ∃ ledger, f s.ledger = some ledger ∧ s' = { s with ledger := ledger } := by
  unfold currencyOp at h
  cases hf : f s.ledger with
  | none =>
    rw [hf] at h
    cases h
  | some ledger =>
    rw [hf] at h
    cases h
    exact ⟨ledger, rfl, rfl⟩

variable {owner : AccountId} {update : PendingWorkerUpdate}

/-- A slash takes from the hold and puts what it took into the reward pool. -/
theorem slashStake_writes {requested actual : Balance}
    (h : slashStake owner requested s = .ok actual s') :
    actual ≤ requested ∧ ∃ ledger, s' = { s with ledger := ledger } := by
  unfold slashStake at h
  rw [Tx.read_bind_apply, Tx.modify_bind_apply, Tx.read_bind_apply] at h
  obtain ⟨ledger, -, h⟩ := Tx.okOr_bind_ok.mp h
  cases h
  exact ⟨Nat.sub_le _ _, ledger, rfl⟩

/-- Scheduling a stake checks it, and holds an increase. -/
theorem holdIncrease_writes {active : Balance} {stake : Option Balance}
    (h : holdIncrease owner active stake s = .ok () s') :
    (∀ amount, stake = some amount → T.minimumStake ≤ amount) ∧
      ∃ ledger, s' = { s with ledger := ledger } := by
  cases stake with
  | none =>
    cases h
    exact ⟨fun _ h => (nomatch h), s.ledger, rfl⟩
  | some newStake =>
    obtain ⟨hminimum, h⟩ := Tx.ensure_bind_ok.mp h
    refine ⟨fun _ h => by cases h; exact hminimum, ?_⟩
    split_ifs at h
    · obtain ⟨ledger, -, rfl⟩ := currencyOp_ok h
      exact ⟨ledger, rfl⟩
    · cases h
      exact ⟨s.ledger, rfl⟩

/-! ### The calls -/

section
variable [DecidableEq AccountId]

/-- A registration gives the next id to an account that has none. -/
theorem register_ok {sessionKey : PublicKey} {stake : Balance}
    (h : register origin sessionKey stake s = .ok () s') :
    ∃ owner next ledger, origin = .signed owner ∧ s.workerByAccount.lookup owner = none ∧
      s.workerCount < T.maxCandidates.toNat ∧ T.minimumStake ≤ stake ∧
      next.toNat = s.nextWorkerId.toNat + 1 ∧
      T.currency.hold .workerStake owner stake s.ledger = some ledger ∧
      s' = { s with
        ledger := ledger
        workers := s.workers.insert s.nextWorkerId
          ⟨owner, sessionKey, stake, s.currentEpoch.satAdd 1, 0⟩
        workerByAccount := s.workerByAccount.insert owner s.nextWorkerId
        nextWorkerId := next
        workerCount := s.workerCount + 1
        events := s.events ++
          [.workerRegistered s.nextWorkerId owner (s.currentEpoch.satAdd 1) stake] } := by
  unfold register at h
  obtain ⟨owner, horigin, h⟩ := ensureSigned_bind_ok.mp h
  rw [Tx.read_bind_apply] at h
  obtain ⟨hnew, h⟩ := Tx.ensure_bind_ok.mp h
  obtain ⟨hcount, h⟩ := Tx.ensure_bind_ok.mp h
  obtain ⟨hstake, h⟩ := Tx.ensure_bind_ok.mp h
  obtain ⟨-, h⟩ := Tx.ensure_bind_ok.mp h
  obtain ⟨next, hnext, h⟩ := Tx.okOr_bind_ok.mp h
  obtain ⟨_, s₁, hcurrency, h⟩ := Tx.bind_ok.mp h
  obtain ⟨ledger, hhold, rfl⟩ := currencyOp_ok hcurrency
  rw [Bool.not_eq_true'] at hnew
  -- The count is below a 32-bit bound, so it does not saturate.
  have hadd : satAdd32 s.workerCount 1 = s.workerCount + 1 := by
    have hmax := T.maxCandidates.toNat_lt
    unfold satAdd32 u32Max
    omega
  refine ⟨owner, next, ledger, horigin, StorageMap.lookup_of_not_contains hnew, hcount, hstake,
    UInt64.toNat_of_checkedAdd hnext, hhold, ?_⟩
  rw [← hadd]
  cases h
  rfl

/-- An update is scheduled for a registered worker that has neither an update nor a chunk. -/
theorem scheduleUpdate_ok {sessionKey : Option PublicKey} {stake : Option Balance}
    (h : scheduleUpdate origin sessionKey stake s = .ok () s') :
    ∃ owner id worker ledger, origin = .signed owner ∧
      s.workerByAccount.lookup owner = some id ∧ s.pendingUpdates.lookup id = none ∧
      s.unbonding.lookup id = none ∧ s.workers.lookup id = some worker ∧
      (∀ amount, stake = some amount → T.minimumStake ≤ amount) ∧
      holdIncrease owner worker.activeStake stake s = .ok () { s with ledger := ledger } ∧
      s' = { s with
        ledger := ledger
        pendingUpdates := s.pendingUpdates.insert id
          ⟨sessionKey, stake, s.currentEpoch.satAdd 1⟩
        events := s.events ++ [.workerUpdateScheduled id (s.currentEpoch.satAdd 1)] } := by
  unfold scheduleUpdate at h
  obtain ⟨owner, horigin, h⟩ := ensureSigned_bind_ok.mp h
  obtain ⟨-, h⟩ := Tx.ensure_bind_ok.mp h
  rw [Tx.read_bind_apply] at h
  obtain ⟨id, hindex, h⟩ := Tx.okOr_bind_ok.mp h
  obtain ⟨hpending, h⟩ := Tx.ensure_bind_ok.mp h
  obtain ⟨hunbonding, h⟩ := Tx.ensure_bind_ok.mp h
  obtain ⟨worker, hworker, h⟩ := Tx.okOr_bind_ok.mp h
  obtain ⟨_, s₁, hhold, h⟩ := Tx.bind_ok.mp h
  obtain ⟨hminimum, ledger, rfl⟩ := holdIncrease_writes hhold
  rw [Bool.not_eq_true'] at hpending hunbonding
  refine ⟨owner, id, worker, ledger, horigin, hindex, StorageMap.lookup_of_not_contains hpending,
    StorageMap.lookup_of_not_contains hunbonding, hworker, hminimum, hhold, ?_⟩
  cases h
  rfl

end

/-- A proven equivocation slashes the worker and suspends it from the current epoch on. -/
theorem submitEquivocation_ok {workerId : WorkerId} {first second : WorkerVoteV1}
    {firstSignature secondSignature : Signature}
    (h : submitEquivocation origin workerId first firstSignature second secondSignature s =
      .ok () s') :
    ∃ worker key ledger actual, s.workers.lookup workerId = some worker ∧
      s.assignmentKeys.lookup (first.workId, first.round, workerId) = some key ∧
      slashStake worker.owner (T.equivocationSlash.mulFloor worker.activeStake) s =
        .ok actual { s with ledger := ledger } ∧
      s' = { s with
        ledger := ledger
        workers := s.workers.insert workerId { worker with
          activeStake := worker.activeStake - actual
          suspendedUntil := s.currentEpoch.satAdd T.equivocationSuspension }
        equivocations := s.equivocations.insert (first.workId, first.round, workerId) ()
        events := s.events ++ [.equivocationProven first.workId first.round workerId actual
          (s.currentEpoch.satAdd T.equivocationSuspension)] } := by
  unfold submitEquivocation at h
  obtain ⟨_, -, h⟩ := ensureSigned_bind_ok.mp h
  obtain ⟨-, h⟩ := Tx.ensure_bind_ok.mp h
  rw [Tx.read_bind_apply] at h
  obtain ⟨-, h⟩ := Tx.ensure_bind_ok.mp h
  obtain ⟨key, hkey, h⟩ := Tx.okOr_bind_ok.mp h
  obtain ⟨-, h⟩ := Tx.ensure_bind_ok.mp h
  obtain ⟨worker, hworker, h⟩ := Tx.okOr_bind_ok.mp h
  obtain ⟨actual, s₁, hslash, h⟩ := Tx.bind_ok.mp h
  obtain ⟨-, ledger, rfl⟩ := slashStake_writes hslash
  refine ⟨worker, key, ledger, actual, hworker, hkey, hslash, ?_⟩
  cases h
  rfl

/-! ### The end of a voting -/

/-- A worker that has voted is paid from the reward pool. One that has not is slashed. -/
theorem settleDuty_ok (h : settleDuty workId round id s = .ok () s') :
    ∃ worker, s.workers.lookup id = some worker ∧
      ((s.votes.contains (workId, round, id) = true ∧ ∃ ledger,
          T.currency.transfer T.rewardPool worker.owner T.timelyVoteReward s.ledger = some ledger ∧
          s' = { s with
            ledger := ledger
            events := s.events ++ [.voteRewardPaid id T.timelyVoteReward] }) ∨
        s.votes.contains (workId, round, id) = false ∧ ∃ ledger actual,
          slashStake worker.owner (absenceRequest T worker.activeStake) s =
            .ok actual { s with ledger := ledger } ∧
          s' = { s with
            ledger := ledger
            workers := s.workers.insert id
              { worker with activeStake := worker.activeStake - actual }
            events := s.events ++ [.workerSlashed id actual] }) := by
  unfold settleDuty at h
  rw [Tx.read_bind_apply] at h
  obtain ⟨worker, hworker, h⟩ := Tx.okOr_bind_ok.mp h
  refine ⟨worker, hworker, ?_⟩
  split_ifs at h with hvoted
  · obtain ⟨_, s₁, hpaid, h⟩ := Tx.bind_ok.mp h
    obtain ⟨ledger, htransfer, rfl⟩ := currencyOp_ok hpaid
    cases h
    exact Or.inl ⟨hvoted, ledger, htransfer, rfl⟩
  · obtain ⟨actual, s₁, hslash, h⟩ := Tx.bind_ok.mp h
    obtain ⟨-, ledger, rfl⟩ := slashStake_writes hslash
    rw [Tx.modify_bind_apply] at h
    simp only [hworker] at h
    cases h
    exact Or.inr ⟨Bool.eq_false_of_not_eq_true hvoted, ledger, actual, hslash, rfl⟩

/-- The voting is closed, the assigned workers are settled one after the other, and the result
is stored. -/
theorem finalizeVoting_ok (h : finalizeVoting workId round s = .ok () s') :
    ∃ voting assignment s₁, s.votingRounds.lookup (workId, round) = some voting ∧
      s.assignments.lookup (workId, round) = some assignment ∧
      Tx.forEach (settleDuty workId round) assignment.toList
        { s with votingRounds := s.votingRounds.erase (workId, round) } = .ok () s₁ ∧
      s' = { s₁ with
        roundResults := s₁.roundResults.insert (workId, round)
          ⟨voting.locked, BoundedVec.takeFrom (assignment.toList.filter fun id =>
            !s₁.votes.contains (workId, round, id))⟩
        openVoteRounds := s₁.openVoteRounds.removeFirst fun key => decide (key = (workId, round))
        events := s₁.events ++ [.votingFinalized workId round voting.locked] } := by
  have h := Tx.transaction_ok.mp h
  unfold finalizeVotingInner at h
  rw [Tx.read_bind_apply] at h
  obtain ⟨voting, hvoting, h⟩ := Tx.okOr_bind_ok.mp h
  rw [Tx.modify_bind_apply] at h
  obtain ⟨assignment, hassignment, h⟩ := Tx.okOr_bind_ok.mp h
  obtain ⟨_, s₁, hsettle, h⟩ := Tx.bind_ok.mp h
  cases h
  exact ⟨voting, assignment, s₁, hvoting, hassignment, hsettle, rfl⟩

/-- The voting of the round is open, and the block is after its deadline. -/
def State.Overdue (s : State T) (block : BlockNumber) (k : RoundKey) : Prop :=
  ∃ voting, s.votingRounds.lookup k = some voting ∧ voting.deadline < block

instance (block : BlockNumber) (k : RoundKey) : Decidable (s.Overdue block k) :=
  inferInstanceAs (Decidable (∃ _, _ ∧ _))

/-- A voting that is overdue is finalized, or its settlement fails and nothing changes. -/
theorem finalizeIfDue_ok {block : BlockNumber} {k : RoundKey}
    (h : finalizeIfDue block k s = .ok () s') :
    (s' = s ∧ ¬ s.Overdue block k) ∨ s.Overdue block k ∧
      (finalizeVoting k.1 k.2 s = .ok () s' ∨
        s' = s ∧ ∃ e, finalizeVoting k.1 k.2 s = .err e s) := by
  unfold finalizeIfDue at h
  rw [Tx.read_bind_apply] at h
  cases hvoting : s.votingRounds.lookup k with
  | none =>
    rw [hvoting] at h
    cases h
    refine Or.inl ⟨rfl, ?_⟩
    rintro ⟨voting, hopen, -⟩
    cases hopen.symm.trans hvoting
  | some voting =>
    rw [hvoting] at h
    dsimp only at h
    split_ifs at h with hdue
    · refine Or.inr ⟨⟨voting, hvoting, hdue⟩, ?_⟩
      rcases Tx.ignore_ok.mp h with ⟨_, hfinal⟩ | ⟨e, hfailed⟩
      · exact Or.inl hfinal
      · -- A failed attempt is undone by its transaction.
        cases Tx.transaction_err hfailed
        exact Or.inr ⟨rfl, e, hfailed⟩
    · cases h
      refine Or.inl ⟨rfl, ?_⟩
      rintro ⟨voting', hopen, hpast⟩
      cases hopen.symm.trans hvoting
      exact hdue hpast

/-- One write in the settlement of a voting. -/
inductive SettlementWrite (s : State T) : State T → Prop where
  | close (k : RoundKey) : SettlementWrite s { s with votingRounds := s.votingRounds.erase k }
  | pay {id : WorkerId} {worker : WorkerRecord AccountId} {ledger : Ledger}
      (htransfer : T.currency.transfer T.rewardPool worker.owner T.timelyVoteReward s.ledger =
        some ledger) :
      SettlementWrite s { s with
        ledger := ledger
        events := s.events ++ [.voteRewardPaid id T.timelyVoteReward] }
  | dock {id : WorkerId} {worker : WorkerRecord AccountId} {ledger : Ledger} {actual : Balance}
      (hworker : s.workers.lookup id = some worker)
      (hslash : slashStake worker.owner (absenceRequest T worker.activeStake) s =
        .ok actual { s with ledger := ledger }) :
      SettlementWrite s { s with
        ledger := ledger
        workers := s.workers.insert id { worker with activeStake := worker.activeStake - actual }
        events := s.events ++ [.workerSlashed id actual] }
  | conclude (k : RoundKey) (result : RoundResult T) :
      SettlementWrite s { s with
        roundResults := s.roundResults.insert k result
        openVoteRounds := s.openVoteRounds.removeFirst fun key => decide (key = k)
        events := s.events ++ [.votingFinalized k.1 k.2 result.decision] }

theorem settleDuty_write (h : settleDuty workId round id s = .ok () s') : SettlementWrite s s' := by
  obtain ⟨worker, hworker, ⟨-, ledger, htransfer, rfl⟩ | ⟨-, ledger, actual, hslash, rfl⟩⟩ :=
    settleDuty_ok h
  · exact .pay htransfer
  · exact .dock hworker hslash

section
variable {R : State T → State T → Prop} [Std.Refl R] [IsTrans (State T) R]

/-- What holds of every settled duty holds of all of them. -/
theorem settleDuties_rel
    (hR : ∀ id (s s' : State T), settleDuty workId round id s = .ok () s' → R s s')
    {ids : List WorkerId} (h : Tx.forEach (settleDuty workId round) ids s = .ok () s') : R s s' :=
  Tx.forEach_ok_of (C := fun _ => True) (fun _ _ _ _ => trivial)
    (fun id _ s s' _ hduty => hR id s s' hduty) trivial h

theorem finalizeVoting_rel (hR : ∀ s s' : State T, SettlementWrite s s' → R s s')
    (workId : WorkId) (round : AssignmentRound) :
    Tx.Rel R (finalizeVoting workId round : M T Unit) := by
  refine Tx.Rel.transaction_of_ok fun s _ s' h => ?_
  obtain ⟨voting, assignment, s₁, -, -, hsettle, rfl⟩ :=
    finalizeVoting_ok (Tx.transaction_ok.mpr h)
  have hloop := settleDuties_rel (fun _ _ _ hduty => hR _ _ (settleDuty_write hduty)) hsettle
  exact IsTrans.trans _ _ _ (hR _ _ (.close (workId, round)))
    (IsTrans.trans _ _ _ hloop (hR _ _ (.conclude (workId, round) ⟨voting.locked, _⟩)))

/-- A voting that cannot be finalized is left for a later block. -/
theorem finalizeDueVotes_rel
    (hR : ∀ workId round, Tx.Rel R (finalizeVoting workId round : M T Unit))
    (block : BlockNumber) : Tx.Rel R (finalizeDueVotes block : M T Unit) := by
  refine .bind .read fun s => .forEach fun key _ => .bind .read fun s => ?_
  split
  · exact .ite (.ignore (hR _ _)) (.pure ())
  · exact .pure ()

end

/-! ### Assignments -/

variable {epoch : EpochIndex}

/-- A duty is counted, and its worker's key is fixed. -/
theorem assignDuty_ok (h : assignDuty workId round epoch id s = .ok () s') :
    ∃ worker, s.workers.lookup id = some worker ∧ s' = { s with
      dutyCounts := s.dutyCounts.insert (epoch, round, id)
        (satAdd32 (s.dutyCount epoch round id) 1)
      assignmentKeys := s.assignmentKeys.insert (workId, round, id) worker.sessionKey } := by
  unfold assignDuty at h
  rw [Tx.modify_bind_apply, Tx.read_bind_apply] at h
  obtain ⟨worker, hworker, h⟩ := Tx.expect_bind_ok.mp h
  cases h
  exact ⟨worker, hworker, rfl⟩

/-- The duties of an assignment are counted, and the keys of its workers are fixed. -/
theorem assignDuties_writes {ids : List WorkerId}
    (h : Tx.forEach (assignDuty workId round epoch) ids s = .ok () s') :
    ∃ counts keys, s' = { s with dutyCounts := counts, assignmentKeys := keys } ∧
      (∀ id ∈ ids, ∃ worker, s.workers.lookup id = some worker ∧
        keys.lookup (workId, round, id) = some worker.sessionKey) ∧
      ∀ duty, keys.lookup duty = s.assignmentKeys.lookup duty ∨
        ∃ id ∈ ids, duty = (workId, round, id) := by
  induction ids generalizing s with
  | nil =>
    cases h
    exact ⟨_, _, rfl, fun _ hid => absurd hid List.not_mem_nil, fun _ => Or.inl rfl⟩
  | cons first ids ih =>
    rw [Tx.forEach_cons] at h
    obtain ⟨_, s₁, hfirst, hrest⟩ := Tx.bind_ok.mp h
    obtain ⟨worker, hworker, rfl⟩ := assignDuty_ok hfirst
    obtain ⟨counts, keys, rfl, hkeys, hothers⟩ := ih hrest
    refine ⟨counts, keys, rfl, fun id hid => ?_, fun duty => ?_⟩
    · rcases List.mem_cons.mp hid with rfl | hid
      · -- A later turn for the same worker writes its key again.
        rcases hothers (workId, round, id) with hkept | ⟨_, hlater, heq⟩
        · exact ⟨worker, hworker, hkept.trans (AList.lookup_insert _)⟩
        · cases heq
          exact hkeys id hlater
      · exact hkeys id hid
    · rcases hothers duty with hkept | ⟨id, hid, heq⟩
      · by_cases hduty : duty = (workId, round, first)
        · exact Or.inr ⟨first, List.mem_cons_self .., hduty⟩
        · exact Or.inl (hkept.trans (AList.lookup_insert_ne hduty))
      · exact Or.inr ⟨id, List.mem_cons_of_mem _ hid, heq⟩

/-- An assignment returns the worker set the round has, or chooses one and writes the duties of
its workers. -/
theorem assignWork_cases {assignment : Assignment T}
    (h : assignWork workId round s = .ok assignment s') :
    s.assignments.lookup (workId, round) = some assignment ∧ s' = s ∨
      s.assignments.lookup (workId, round) = none ∧
      s.workCount s.currentEpoch round < T.maxWorksPerRound.toNat ∧
      T.workersPerWork.toNat ≤ (assignmentCandidates s workId round).length ∧
      assignment = BoundedVec.takeFrom (assignmentCandidates s workId round) ∧
      ∃ s₁, Tx.forEach (assignDuty workId round s.currentEpoch) assignment.toList s = .ok () s₁ ∧
        s' = { s₁ with
          assignedWorkCount := s₁.assignedWorkCount.insert (s.currentEpoch, round)
            (satAdd32 (s₁.workCount s.currentEpoch round) 1)
          assignments := s₁.assignments.insert (workId, round) assignment
          assignmentEpochs := s₁.assignmentEpochs.insert (workId, round) s.currentEpoch } := by
  unfold assignWork at h
  rw [Tx.read_bind_apply] at h
  cases hexisting : s.assignments.lookup (workId, round) with
  | some existing =>
    rw [hexisting] at h
    cases h
    exact Or.inl ⟨rfl, rfl⟩
  | none =>
    rw [hexisting] at h
    obtain ⟨hroom, h⟩ := Tx.ensure_bind_ok.mp h
    obtain ⟨henough, h⟩ := Tx.ensure_bind_ok.mp h
    obtain ⟨_, s₁, hduties, h⟩ := Tx.bind_ok.mp h
    cases h
    exact Or.inr ⟨rfl, hroom, henough, rfl, s₁, hduties, rfl⟩

/-- An assignment that fails has written nothing. -/
theorem assignWork_err {e : DispatchError} (h : assignWork workId round s = .err e s') :
    s' = s := by
  unfold assignWork at h
  rw [Tx.read_bind_apply] at h
  cases hexisting : s.assignments.lookup (workId, round) with
  | some existing =>
    rw [hexisting] at h
    cases h
  | none =>
    rw [hexisting] at h
    dsimp only at h
    rw [Tx.ensure_bind_apply] at h
    split_ifs at h
    · rw [Tx.ensure_bind_apply] at h
      split_ifs at h
      · -- After the guards nothing fails with an error.
        refine absurd h (Tx.NoErr.bind (.forEach (fun workerId => ?_) _)
          (fun _ => .bind (.modify _) fun _ => .bind (.modify _) fun _ => .pure _) s e s')
        exact .bind (.modify _) fun _ => .bind .read fun _ => .bind (.expect _) fun _ => .modify _
      · cases h
        rfl
    · cases h
      rfl

/-- What holds of an assignment that is made holds of every attempt. -/
theorem assignWork_rel {R : State T → State T → Prop} [Std.Refl R]
    (h : ∀ s (assignment : Assignment T) s', assignWork workId round s = .ok assignment s' →
      R s s') : Tx.Rel R (assignWork workId round : M T (Assignment T)) :=
  .intro h fun s _ _ herr => by rw [assignWork_err herr]; exact Std.Refl.refl s

/-- Entries of a round are removed at most. -/
structure Forgets {V : Type} (k : RoundKey) (m m' : StorageMap DutyKey V) : Prop where
  others : ∀ duty : DutyKey, (duty.1, duty.2.1) ≠ k → m'.lookup duty = m.lookup duty
  subset : ∀ duty v, m'.lookup duty = some v → m.lookup duty = some v

theorem Forgets.erase {V : Type} {k : RoundKey} {m m' : StorageMap DutyKey V}
    (h : Forgets k (m.erase (k.1, k.2, id)) m') : Forgets k m m' where
  others duty hduty := by
    refine (h.others duty hduty).trans (AList.lookup_erase_ne ?_)
    rintro rfl
    exact hduty rfl
  subset duty v hv := by
    have hlookup := h.subset duty v hv
    rw [StorageMap.lookup_erase_eq] at hlookup
    split_ifs at hlookup
    exact hlookup

theorem clearDuties_writes (k : RoundKey) (ids : List WorkerId) (s : State T) :
    ∃ keys votes, ids.foldl (clearDuty k.1 k.2) s =
        { s with assignmentKeys := keys, votes := votes } ∧
      Forgets k s.assignmentKeys keys ∧ Forgets k s.votes votes := by
  induction ids generalizing s with
  | nil =>
    exact ⟨_, _, rfl, ⟨fun _ _ => rfl, fun _ _ h => h⟩, ⟨fun _ _ => rfl, fun _ _ h => h⟩⟩
  | cons id ids ih =>
    obtain ⟨keys, votes, hs, hkeys, hvotes⟩ := ih (clearDuty k.1 k.2 s id)
    exact ⟨keys, votes, hs, hkeys.erase, hvotes.erase⟩

/-- Clearing an assignment forgets it and its epoch, and keys and votes of its round. -/
theorem clearAssignment_writes (h : clearAssignment workId round s = .ok () s') :
    ∃ keys votes, s' = { s with
        assignments := s.assignments.erase (workId, round)
        assignmentEpochs := s.assignmentEpochs.erase (workId, round)
        assignmentKeys := keys
        votes := votes } ∧
      Forgets (workId, round) s.assignmentKeys keys ∧ Forgets (workId, round) s.votes votes := by
  unfold clearAssignment at h
  rw [Tx.modify_apply] at h
  cases hassigned : s.assignments.lookup (workId, round) with
  | none =>
    -- There is no assignment to forget, and forgetting it changes nothing.
    rw [hassigned] at h
    cases h
    rw [StorageMap.erase_of_lookup_eq_none hassigned]
    exact ⟨_, _, rfl, ⟨fun _ _ => rfl, fun _ _ h => h⟩, ⟨fun _ _ => rfl, fun _ _ h => h⟩⟩
  | some assignment =>
    rw [hassigned] at h
    obtain ⟨keys, votes, hs, hkeys, hvotes⟩ := clearDuties_writes (workId, round)
      assignment.toList { s with assignments := s.assignments.erase (workId, round) }
    simp only [hs] at h
    cases h
    exact ⟨keys, votes, rfl, hkeys, hvotes⟩

/-- A voting is opened in an assigned round that has neither a voting nor a result. -/
theorem openVoting_writes {candidateHash : Hash} {deadline : BlockNumber}
    (h : openVoting workId round candidateHash deadline s = .ok () s') :
    ∃ rounds epoch, s.votingRounds.lookup (workId, round) = none ∧
      s.roundResults.lookup (workId, round) = none ∧
      s.openVoteRounds.tryPush (workId, round) = some rounds ∧ s' = { s with
        openVoteRounds := rounds
        votingRounds := s.votingRounds.insert (workId, round)
          ⟨epoch, candidateHash, deadline, 0, 0, 0, none⟩ } := by
  unfold openVoting at h
  rw [Tx.read_bind_apply] at h
  obtain ⟨-, h⟩ := Tx.ensure_bind_ok.mp h
  obtain ⟨hnew, h⟩ := Tx.ensure_bind_ok.mp h
  obtain ⟨-, h⟩ := Tx.ensure_bind_ok.mp h
  obtain ⟨rounds, hrounds, h⟩ := Tx.okOr_bind_ok.mp h
  rw [Tx.modify_bind_apply] at h
  obtain ⟨epoch, -, h⟩ := Tx.okOr_bind_ok.mp h
  cases h
  simp only [StorageMap.contains, Bool.and_eq_true, Bool.not_eq_true', Option.isSome_eq_false_iff,
    Option.isNone_iff_eq_none] at hnew
  exact ⟨rounds, epoch, hnew.1, hnew.2, hrounds, rfl⟩

/-! ### Epoch boundaries -/

/-- The worker after an update that is due. -/
def PendingWorkerUpdate.applyTo (update : PendingWorkerUpdate) (epoch : EpochIndex)
    (worker : WorkerRecord AccountId) : WorkerRecord AccountId :=
  { worker with
    sessionKey := update.sessionKey.getD worker.sessionKey
    activeStake := update.stake.getD worker.activeStake
    effectiveEpoch := epoch }

/-- The chunks after an update: a decrease of the stake is put aside. -/
def PendingWorkerUpdate.putAside (update : PendingWorkerUpdate) (epoch : EpochIndex)
    (id : WorkerId) (worker : WorkerRecord AccountId)
    (unbonding : StorageMap WorkerId UnbondingChunk) : StorageMap WorkerId UnbondingChunk :=
  if update.stake.getD worker.activeStake < worker.activeStake then
    unbonding.insert id
      ⟨worker.activeStake - update.stake.getD worker.activeStake, epoch.satAdd 2⟩
  else unbonding

theorem updateWorker_of_none (hworker : s.workers.lookup id = none) :
    updateWorker epoch id update s = s := by
  unfold updateWorker
  rw [hworker]

/-- A due update rewrites the worker, and puts a decrease of its stake aside. -/
theorem updateWorker_of_some {worker : WorkerRecord AccountId}
    (hworker : s.workers.lookup id = some worker) :
    updateWorker epoch id update s = { s with
      workers := s.workers.insert id (update.applyTo epoch worker)
      unbonding := update.putAside epoch id worker s.unbonding } := by
  obtain ⟨sessionKey, stake, effectiveEpoch⟩ := update
  unfold updateWorker
  rw [hworker]
  cases sessionKey with
  | none =>
    cases stake with
    | none => simp [PendingWorkerUpdate.applyTo, PendingWorkerUpdate.putAside]
    | some stake => rfl
  | some key =>
    cases stake with
    | none => simp [PendingWorkerUpdate.applyTo, PendingWorkerUpdate.putAside]
    | some stake => rfl

/-- An update that is not due is left, and one that is due is applied to its worker. -/
theorem applyPendingUpdate_ok {entry : WorkerId × PendingWorkerUpdate}
    (h : applyPendingUpdate epoch entry s = .ok () s') :
    epoch < entry.2.effectiveEpoch ∧ s' = s ∨ entry.2.effectiveEpoch ≤ epoch ∧
      (s.workers.lookup entry.1 = none ∧ s' = { s with
          pendingUpdates := s.pendingUpdates.erase entry.1
          events := s.events ++ [.workerUpdateApplied entry.1 epoch] } ∨
        ∃ worker, s.workers.lookup entry.1 = some worker ∧ s' = { s with
          workers := s.workers.insert entry.1 (entry.2.applyTo epoch worker)
          unbonding := entry.2.putAside epoch entry.1 worker s.unbonding
          pendingUpdates := s.pendingUpdates.erase entry.1
          events := s.events ++ [.workerUpdateApplied entry.1 epoch] }) := by
  unfold applyPendingUpdate at h
  split_ifs at h with hlater
  · cases h
    exact Or.inl ⟨hlater, rfl⟩
  · refine Or.inr ⟨UInt32.not_lt.mp hlater, ?_⟩
    rw [Tx.modify_bind_apply] at h
    cases hworker : s.workers.lookup entry.1 with
    | none =>
      rw [updateWorker_of_none hworker] at h
      cases h
      exact Or.inl ⟨rfl, rfl⟩
    | some worker =>
      rw [updateWorker_of_some hworker] at h
      cases h
      exact Or.inr ⟨worker, rfl, rfl⟩

/-- A release lowers the hold by the chunk and removes it, or does nothing. -/
theorem releaseUnbonding_ok {entry : WorkerId × UnbondingChunk}
    (h : releaseUnbonding epoch entry s = .ok () s') :
    s' = s ∨ ∃ worker ledger, s.workers.lookup entry.1 = some worker ∧
      entry.2.unlockEpoch ≤ epoch ∧
      T.currency.release .workerStake worker.owner entry.2.amount s.ledger = some ledger ∧
      s' = { s with
        ledger := ledger
        unbonding := s.unbonding.erase entry.1
        events := s.events ++ [.stakeReleased entry.1 entry.2.amount] } := by
  unfold releaseUnbonding at h
  rw [Tx.read_bind_apply] at h
  -- A chunk stays that is not due, has no worker or cannot be released.
  split_ifs at h with hlater
  · cases h
    exact Or.inl rfl
  cases hworker : s.workers.lookup entry.1 with
  | none =>
    rw [hworker] at h
    cases h
    exact Or.inl rfl
  | some worker =>
    rw [hworker] at h
    cases hrelease : T.currency.release .workerStake worker.owner entry.2.amount s.ledger with
    | none =>
      simp only [hrelease] at h
      cases h
      exact Or.inl rfl
    | some ledger =>
      simp only [hrelease] at h
      cases h
      exact Or.inr ⟨worker, ledger, rfl, UInt32.not_lt.mp hlater, hrelease, rfl⟩

/-- A block at which an epoch ends. -/
def EpochBoundary (T : Config AccountId Ledger) (block : BlockNumber) : Prop :=
  T.epochLength ≠ 0 ∧ block ≠ 0 ∧ block.toNat % T.epochLength.toNat = 0

/-- The hook finalizes votings first. At an epoch boundary it then applies the updates, releases
stake and takes the snapshot. -/
theorem onInitialize_parts {block : BlockNumber} (h : onInitialize block s = .ok () s') :
    ∃ s₁, finalizeDueVotes block s = .ok () s₁ ∧
      (¬ EpochBoundary T block ∧ s' = s₁ ∨
        EpochBoundary T block ∧ ∃ s₂ s₃,
          applyPendingUpdates (s₁.currentEpoch.satAdd 1) s₁ = .ok () s₂ ∧
          releaseMatureUnbonding (s₁.currentEpoch.satAdd 1) s₂ = .ok () s₃ ∧
          s' = { s₃ with
            currentEpoch := s₁.currentEpoch.satAdd 1
            activeWorkers := BoundedVec.takeFrom
              ((rankWorkers (eligibleWorkers s₃ (s₁.currentEpoch.satAdd 1)).toList).map Prod.fst)
            events := s₃.events ++ [.epochSnapshot (s₁.currentEpoch.satAdd 1)
              (BoundedVec.takeFrom ((rankWorkers
                (eligibleWorkers s₃ (s₁.currentEpoch.satAdd 1)).toList).map Prod.fst))] }) := by
  unfold onInitialize at h
  obtain ⟨_, s₁, hdue, h⟩ := Tx.bind_ok.mp h
  refine ⟨s₁, hdue, ?_⟩
  unfold EpochBoundary
  -- Without an epoch length, and between two boundaries, the hook ends here.
  split_ifs at h with hlength hboundary
  · cases h
    exact Or.inl ⟨fun hb => hb.1 hlength, rfl⟩
  · cases h
    refine Or.inl ⟨fun hb => ?_, rfl⟩
    rcases hboundary with hzero | hmod
    · exact hb.2.1 hzero
    · exact hmod hb.2.2
  · rw [Tx.read_bind_apply] at h
    obtain ⟨_, s₂, happly, h⟩ := Tx.bind_ok.mp h
    obtain ⟨_, s₃, hrelease, h⟩ := Tx.bind_ok.mp h
    rw [not_or, not_not] at hboundary
    refine Or.inr ⟨⟨hlength, hboundary.1, hboundary.2⟩, s₂, s₃, happly, hrelease, ?_⟩
    cases h
    rfl

/-- Votings that cannot be settled and stakes that cannot be released are left for later, so the
block hook does not fail. -/
theorem onInitialize_noErr (block : BlockNumber) : Tx.NoErr (onInitialize block : M T Unit) := by
  refine .bind (.bind .read fun s => .forEach (fun key => .bind .read fun s => ?_) _) fun _ => ?_
  · split
    · exact .ite (.ignore _) (.pure ())
    · exact .pure ()
  refine .ite (.pure ()) (.ite (.pure ()) (.bind .read fun s => .bind ?_ fun _ =>
    .bind ?_ fun _ => ?_))
  · refine .bind .read fun s => .forEach (fun entry => .ite (.pure ()) ?_) _
    exact .bind (.modify _) fun _ => .bind (.modify _) fun _ => .modify _
  · refine .bind .read fun s => .forEach (fun entry => .bind .read fun s => .ite (.pure ()) ?_) _
    split
    · exact .pure ()
    · split
      · exact .pure ()
      · exact .bind (.modify _) fun _ => .modify _
  · exact .bind .read fun s => .bind (.modify _) fun _ => .modify _

/-- One write at an epoch boundary. An iteration finds the entry it is for, because the others
leave it. -/
inductive BoundaryWrite (s : State T) : State T → Prop where
  | drop {id : WorkerId} {update : PendingWorkerUpdate} {epoch : EpochIndex}
      (hpending : s.pendingUpdates.lookup id = some update)
      (hworker : s.workers.lookup id = none) :
      BoundaryWrite s { s with
        pendingUpdates := s.pendingUpdates.erase id
        events := s.events ++ [.workerUpdateApplied id epoch] }
  | apply {id : WorkerId} {update : PendingWorkerUpdate} {epoch : EpochIndex}
      {worker : WorkerRecord AccountId} (hpending : s.pendingUpdates.lookup id = some update)
      (hworker : s.workers.lookup id = some worker) :
      BoundaryWrite s { s with
        workers := s.workers.insert id (update.applyTo epoch worker)
        unbonding := update.putAside epoch id worker s.unbonding
        pendingUpdates := s.pendingUpdates.erase id
        events := s.events ++ [.workerUpdateApplied id epoch] }
  | release {id : WorkerId} {chunk : UnbondingChunk} {worker : WorkerRecord AccountId}
      {ledger : Ledger} (hchunk : s.unbonding.lookup id = some chunk)
      (hworker : s.workers.lookup id = some worker)
      (hrelease : T.currency.release .workerStake worker.owner chunk.amount s.ledger =
        some ledger) :
      BoundaryWrite s { s with
        ledger := ledger
        unbonding := s.unbonding.erase id
        events := s.events ++ [.stakeReleased id chunk.amount] }
  | snapshot (epoch : EpochIndex) (workers : BoundedVec WorkerId T.topWorkers.toNat) :
      BoundaryWrite s { s with
        currentEpoch := epoch
        activeWorkers := workers
        events := s.events ++ [.epochSnapshot epoch workers] }

section
variable {R : State T → State T → Prop} [Std.Refl R] [IsTrans (State T) R]

theorem applyPendingUpdates_rel (hR : ∀ s s' : State T, BoundaryWrite s s' → R s s')
    (h : applyPendingUpdates epoch s = .ok () s') : R s s' := by
  unfold applyPendingUpdates at h
  rw [Tx.read_bind_apply] at h
  refine Tx.forEach_ok_entries (fun s id => s.pendingUpdates.lookup id)
    (fun entry s₁ s₂ h id hid => ?_) (fun entry s₁ s₂ hentry h => ?_)
    (StorageMap.nodup_iter_keys T.iterOrder_perm _)
    (fun entry hentry => (StorageMap.mem_iter T.iterOrder_perm).mp hentry) h
  · rcases applyPendingUpdate_ok h with ⟨-, rfl⟩ | ⟨-, ⟨-, rfl⟩ | ⟨worker, -, rfl⟩⟩
    · rfl
    · exact AList.lookup_erase_ne hid
    · exact AList.lookup_erase_ne hid
  · rcases applyPendingUpdate_ok h with ⟨-, rfl⟩ | ⟨-, ⟨hworker, rfl⟩ | ⟨worker, hworker, rfl⟩⟩
    · exact Std.Refl.refl _
    · exact hR _ _ (.drop hentry hworker)
    · exact hR _ _ (.apply hentry hworker)

theorem releaseMatureUnbonding_rel (hR : ∀ s s' : State T, BoundaryWrite s s' → R s s')
    (h : releaseMatureUnbonding epoch s = .ok () s') : R s s' := by
  unfold releaseMatureUnbonding at h
  rw [Tx.read_bind_apply] at h
  refine Tx.forEach_ok_entries (fun s id => s.unbonding.lookup id)
    (fun entry s₁ s₂ h id hid => ?_) (fun entry s₁ s₂ hentry h => ?_)
    (StorageMap.nodup_iter_keys T.iterOrder_perm _)
    (fun entry hentry => (StorageMap.mem_iter T.iterOrder_perm).mp hentry) h
  · rcases releaseUnbonding_ok h with rfl | ⟨_, _, -, -, -, rfl⟩
    · rfl
    · exact AList.lookup_erase_ne hid
  · rcases releaseUnbonding_ok h with rfl | ⟨worker, ledger, hworker, -, hrelease, rfl⟩
    · exact Std.Refl.refl _
    · exact hR _ _ (.release hentry hworker hrelease)

/-- After the votings the hook makes the writes of a boundary, or none. -/
theorem onInitialize_boundary {block : BlockNumber}
    (hR : ∀ s s' : State T, BoundaryWrite s s' → R s s')
    (h : onInitialize block s = .ok () s') :
    ∃ s₁, finalizeDueVotes block s = .ok () s₁ ∧ R s₁ s' := by
  obtain ⟨s₁, hdue, ⟨-, rfl⟩ | ⟨-, s₂, s₃, happly, hrelease, rfl⟩⟩ := onInitialize_parts h
  · exact ⟨s', hdue, Std.Refl.refl _⟩
  · exact ⟨s₁, hdue, IsTrans.trans _ _ _ (applyPendingUpdates_rel hR happly)
      (IsTrans.trans _ _ _ (releaseMatureUnbonding_rel hR hrelease) (hR _ _ (.snapshot _ _)))⟩

theorem onInitialize_rel
    (hfinal : ∀ workId round, Tx.Rel R (finalizeVoting workId round : M T Unit))
    (hboundary : ∀ s s' : State T, BoundaryWrite s s' → R s s') (block : BlockNumber) :
    Tx.Rel R (onInitialize block : M T Unit) := by
  refine .intro (fun s _ s' h => ?_) fun s e s' h => absurd h (onInitialize_noErr block s e s')
  obtain ⟨s₁, hdue, hcrossed⟩ := onInitialize_boundary hboundary h
  exact IsTrans.trans _ _ _ ((finalizeDueVotes_rel hfinal block).of_ok hdue) hcrossed

end

/-! ### Genesis -/

/-- A genesis worker gets its position as its id. -/
theorem buildWorker_ok [DecidableEq AccountId] {entry : AccountId × PublicKey × Balance}
    {n : Nat} (h : buildWorker (entry, n) s = .ok () s') :
    ∃ ledger, T.minimumStake ≤ entry.2.2 ∧ s.workerByAccount.lookup entry.1 = none ∧
      T.currency.hold .workerStake entry.1 entry.2.2 s.ledger = some ledger ∧
      s' = { s with
        ledger := ledger
        workers := s.workers.insert (UInt64.ofNat n) ⟨entry.1, entry.2.1, entry.2.2, 0, 0⟩
        workerByAccount := s.workerByAccount.insert entry.1 (UInt64.ofNat n) } := by
  unfold buildWorker at h
  obtain ⟨hstake, h⟩ := Tx.check_bind_ok.mp h
  rw [Tx.read_bind_apply] at h
  obtain ⟨hnew, h⟩ := Tx.check_bind_ok.mp h
  obtain ⟨ledger, hhold, h⟩ := Tx.expect_bind_ok.mp h
  rw [Bool.not_eq_true'] at hnew
  refine ⟨ledger, hstake, StorageMap.lookup_of_not_contains hnew, hhold, ?_⟩
  cases h
  rfl

end MiniJam.Workers
