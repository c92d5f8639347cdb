import Mathlib.Algebra.Order.BigOperators.Group.List
import Mathlib.Algebra.Order.Group.Nat
import Mathlib.Order.Iterate
import MiniJam.Proofs.Stake
import MiniJam.Workers.Engine

/-!
# `MiniJam.Proofs.Selection`: which workers an epoch boundary selects

The pallet asks for the minimum stake when a worker registers or changes its stake. A slash lowers
the stake later, and the epoch boundary does not look at the minimum again. The engine's
`top_workers` does.

What an action slashes can be read off the storage before it (`LeavesMinimum`): an equivocation
its worker, a finalized round its absentees. As long as no slash takes a worker below the minimum,
every stake in the storage reaches it (`Staked`), and the two selections agree
(`epoch_selects_top_workers`). `slashed_worker_selected` is a run with a slash that goes below.
-/

set_option autoImplicit false

namespace MiniJam.Workers

variable {AccountId Ledger : Type} {T : Config AccountId Ledger} {s s' : State T}

/-! ### What absences cost -/

/-- The stake that an absence leaves. -/
def stakeLeft (T : Config AccountId Ledger) (stake : Balance) : Balance :=
  stake - absenceRequest T stake

/-- A higher stake leaves more. -/
theorem stakeLeft_mono (T : Config AccountId Ledger) : Monotone (stakeLeft T) := by
  intro stake higher hle
  obtain ⟨more, rfl⟩ := Nat.exists_eq_add_of_le hle
  have hpart := T.absenceSlash.mulFloor_add_le stake more
  have hleft : ∀ x d part part' least : Nat, part' ≤ part + d →
      x - min (max part least) x ≤ x + d - min (max part' least) (x + d) := by omega
  exact hleft _ _ _ _ _ hpart

/-- More absences leave less. -/
theorem stakeLeft_iterate_antitone (T : Config AccountId Ledger) :
    Antitone fun n => (stakeLeft T)^[n] :=
  Function.antitone_iterate_of_le_id fun _ => Nat.sub_le _ _

/-- The workers that were assigned to the round and have not voted. -/
def State.absentees (s : State T) (k : RoundKey) : List WorkerId :=
  (s.assignments.lookup k).elim [] fun assignment =>
    assignment.toList.filter fun id => !s.votes.contains (k.1, k.2, id)

/-- How often the worker is absent from those of the rounds that are overdue. -/
def State.dueAbsences (s : State T) (block : BlockNumber) (rounds : List RoundKey) (id : WorkerId) :
    Nat :=
  (rounds.map fun k => if s.Overdue block k then (s.absentees k).count id else 0).sum

/-- From one storage to the next each worker pays for `n` absences at most, and nothing else
changes about the workers and their duties. -/
structure Charges (n : WorkerId → Nat) (s s' : State T) : Prop where
  pending : s'.pendingUpdates = s.pendingUpdates
  count : s'.workerCount = s.workerCount
  keys : s'.workers.keys.length ≤ s.workers.keys.length
  votes : s'.votes = s.votes
  assignments : s'.assignments = s.assignments
  votings : ∀ k voting, s'.votingRounds.lookup k = some voting →
    s.votingRounds.lookup k = some voting
  stakes : ∀ id worker', s'.workers.lookup id = some worker' → ∃ worker,
    s.workers.lookup id = some worker ∧
      (stakeLeft T)^[n id] worker.activeStake ≤ worker'.activeStake

variable {n n' : WorkerId → Nat}

/-- Nothing is charged where the workers stay as they are. -/
theorem Charges.of_same (hpending : s'.pendingUpdates = s.pendingUpdates)
    (hcount : s'.workerCount = s.workerCount) (hworkers : s'.workers = s.workers)
    (hvotes : s'.votes = s.votes) (hassignments : s'.assignments = s.assignments)
    (hvotings : ∀ k voting, s'.votingRounds.lookup k = some voting →
      s.votingRounds.lookup k = some voting) : Charges (fun _ => 0) s s' := by
  refine ⟨hpending, hcount, by rw [hworkers], hvotes, hassignments, hvotings, fun id worker h => ?_⟩
  rw [hworkers] at h
  exact ⟨worker, h, Nat.le_refl _⟩

theorem Charges.mono (h : Charges n s s') (hle : ∀ id, n id ≤ n' id) : Charges n' s s' where
  __ := h
  stakes id worker' hworker' := by
    obtain ⟨worker, hworker, hstake⟩ := h.stakes id worker' hworker'
    exact ⟨worker, hworker, (stakeLeft_iterate_antitone T (hle id) _).trans hstake⟩

theorem Charges.trans {s'' : State T} (h : Charges n s s') (h' : Charges n' s' s'') :
    Charges (fun id => n id + n' id) s s'' where
  pending := h'.pending.trans h.pending
  count := h'.count.trans h.count
  keys := h'.keys.trans h.keys
  votes := h'.votes.trans h.votes
  assignments := h'.assignments.trans h.assignments
  votings k voting hvoting := h.votings k voting (h'.votings k voting hvoting)
  stakes id worker'' hworker'' := by
    obtain ⟨worker', hworker', hstake'⟩ := h'.stakes id worker'' hworker''
    obtain ⟨worker, hworker, hstake⟩ := h.stakes id worker' hworker'
    refine ⟨worker, hworker, ?_⟩
    rw [Nat.add_comm, Function.iterate_add_apply]
    exact ((stakeLeft_mono T).iterate (n' id) hstake).trans hstake'

/-- The absentees depend on the votes and assignments only. -/
theorem Charges.absentees (h : Charges n s s') (k : RoundKey) : s'.absentees k = s.absentees k := by
  unfold State.absentees
  rw [h.assignments, h.votes]

/-- A round that is overdue later was overdue before. -/
theorem Charges.dueAbsences_le (h : Charges n s s') (block : BlockNumber) (rounds : List RoundKey)
    (id : WorkerId) : s'.dueAbsences block rounds id ≤ s.dueAbsences block rounds id := by
  refine List.sum_le_sum fun k _ => ?_
  rw [h.absentees]
  split_ifs with hlater hbefore
  · exact Nat.le_refl _
  · obtain ⟨voting, hvoting, hpast⟩ := hlater
    exact absurd ⟨voting, h.votings k voting hvoting, hpast⟩ hbefore
  · exact Nat.zero_le _
  · exact Nat.le_refl _

variable {id : WorkerId} {k : RoundKey} {block : BlockNumber}

/-- Settling a duty charges an absence to a worker that has not voted. -/
theorem settleDuty_charges (h : settleDuty k.1 k.2 id s = .ok () s') :
    Charges (([id].filter fun id => !s.votes.contains (k.1, k.2, id)).count ·) s s' := by
  obtain ⟨worker, hworker, ⟨-, ledger, -, rfl⟩ | ⟨habsent, ledger, actual, hslash, rfl⟩⟩ :=
    settleDuty_ok h
  · exact .mono (n := fun _ => 0) (.of_same rfl rfl rfl rfl rfl fun _ _ h => h)
      fun _ => Nat.zero_le _
  · refine ⟨rfl, rfl, ?_, rfl, rfl, fun _ _ h => h, fun id' worker' h => ?_⟩
    · rw [StorageMap.length_keys_insert_of_lookup hworker]
    · rw [StorageMap.lookup_insert_eq] at h
      split_ifs at h with hid
      · cases h
        subst hid
        refine ⟨worker, hworker, ?_⟩
        have hone : ([id'].filter fun id => !s.votes.contains (k.1, k.2, id)).count id' = 1 := by
          simp [habsent]
        rw [hone]
        exact Nat.sub_le_sub_left (slashStake_writes hslash).1 _
      · exact ⟨worker', h, stakeLeft_iterate_antitone T (Nat.zero_le _) _⟩

/-- The duties of a round are settled one after the other, on the same votes. -/
theorem settleDuties_charges {ids : List WorkerId}
    (h : Tx.forEach (settleDuty k.1 k.2) ids s = .ok () s') :
    Charges ((ids.filter fun id => !s.votes.contains (k.1, k.2, id)).count ·) s s' := by
  induction ids generalizing s with
  | nil =>
    cases h
    exact .of_same rfl rfl rfl rfl rfl fun _ _ h => h
  | cons id ids ih =>
    rw [Tx.forEach_cons] at h
    obtain ⟨_, s₁, hduty, h⟩ := Tx.bind_ok.mp h
    have hfirst := settleDuty_charges hduty
    have hrest := ih h
    rw [hfirst.votes] at hrest
    refine (hfirst.trans hrest).mono fun id' => ?_
    rw [← List.count_append, ← List.filter_append, List.singleton_append]

/-- A round charges each of its absentees once for each time it is assigned. -/
theorem finalizeVoting_charges (h : finalizeVoting k.1 k.2 s = .ok () s') :
    Charges ((s.absentees k).count ·) s s' := by
  obtain ⟨voting, assignment, s₁, -, hassignment, hsettle, rfl⟩ := finalizeVoting_ok h
  have hclose : Charges (fun _ => 0) s { s with votingRounds := s.votingRounds.erase k } := by
    refine .of_same rfl rfl rfl rfl rfl fun k' voting' h' => ?_
    rw [StorageMap.lookup_erase_eq] at h'
    split_ifs at h'
    exact h'
  have hsettled := hclose.trans (settleDuties_charges hsettle)
  refine .mono (.trans hsettled (.of_same rfl rfl rfl rfl rfl fun _ _ h => h)) fun id => ?_
  have hassignment : s.assignments.lookup k = some assignment := hassignment
  unfold State.absentees
  rw [hassignment, Option.elim_some, Nat.zero_add, Nat.add_zero]

/-- The hook charges the absences of the rounds that are overdue. -/
theorem finalizeIfDue_charges {rounds : List RoundKey}
    (h : Tx.forEach (finalizeIfDue block) rounds s = .ok () s') :
    Charges (s.dueAbsences block rounds) s s' := by
  induction rounds generalizing s with
  | nil =>
    cases h
    exact .of_same rfl rfl rfl rfl rfl fun _ _ h => h
  | cons k rounds ih =>
    rw [Tx.forEach_cons] at h
    obtain ⟨_, s₁, hround, hrounds⟩ := Tx.bind_ok.mp h
    have hcons : ∀ id, s.dueAbsences block (k :: rounds) id =
        (if s.Overdue block k then (s.absentees k).count id else 0) +
          s.dueAbsences block rounds id :=
      fun id => List.sum_cons
    rcases finalizeIfDue_ok hround with ⟨rfl, -⟩ | ⟨hdue, hfinal | ⟨rfl, -⟩⟩
    · exact (ih hrounds).mono fun id => (hcons id).symm ▸ Nat.le_add_left _ _
    · have hfirst := finalizeVoting_charges hfinal
      refine (hfirst.trans (ih hrounds)).mono fun id => ?_
      rw [hcons, if_pos hdue]
      exact Nat.add_le_add_left (hfirst.dueAbsences_le block rounds id) _
    · exact (ih hrounds).mono fun id => (hcons id).symm ▸ Nat.le_add_left _ _

/-! ### Stakes at or above the minimum -/

/-- Every stake and every scheduled stake is at least the minimum, and there are not more
workers than there may be. -/
structure Staked (s : State T) : Prop where
  active : ∀ id worker, s.workers.lookup id = some worker → T.minimumStake ≤ worker.activeStake
  scheduled : ∀ id update stake, s.pendingUpdates.lookup id = some update →
    update.stake = some stake → T.minimumStake ≤ stake
  counted : s.workers.keys.length ≤ s.workerCount
  bounded : s.workerCount ≤ T.maxCandidates.toNat

/-- The workers that are charged can pay for it and keep the minimum stake. -/
def State.CanPay (s : State T) (n : WorkerId → Nat) : Prop :=
  ∀ id worker, s.workers.lookup id = some worker → 0 < n id →
    T.minimumStake ≤ (stakeLeft T)^[n id] worker.activeStake

instance (n : WorkerId → Nat) : Decidable (s.CanPay n) :=
  inferInstanceAs (Decidable (∀ id worker, s.workers.lookup id = some worker → _))

/-- Charges that can be paid keep the stakes at or above the minimum. -/
theorem Charges.staked (h : Charges n s s') (hs : Staked s) (hpay : s.CanPay n) : Staked s' where
  active id worker' hworker' := by
    obtain ⟨worker, hworker, hstake⟩ := h.stakes id worker' hworker'
    rcases Nat.eq_zero_or_pos (n id) with hzero | hpos
    · rw [hzero] at hstake
      exact (hs.active id worker hworker).trans hstake
    · exact (hpay id worker hworker hpos).trans hstake
  scheduled id update stake hupdate hstake := by
    rw [h.pending] at hupdate
    exact hs.scheduled id update stake hupdate hstake
  counted := by
    rw [h.count]
    exact h.keys.trans hs.counted
  bounded := by
    rw [h.count]
    exact hs.bounded

/-- What is said about stakes reads the workers and their updates. -/
theorem Staked.of_same (hs : Staked s) (hworkers : s'.workers = s.workers)
    (hpending : s'.pendingUpdates = s.pendingUpdates) (hcount : s'.workerCount = s.workerCount) :
    Staked s' :=
  ⟨hworkers ▸ hs.active, hpending ▸ hs.scheduled, by rw [hworkers, hcount]; exact hs.counted,
    hcount ▸ hs.bounded⟩

/-- Every worker that the action slashes when it succeeds keeps the minimum stake. An
equivocation slashes its worker. A block hook charges the absences in the rounds past their
deadline, and a vote those in its round, when it is the last one the round waits for. -/
def LeavesMinimum (s : State T) : Action AccountId Ledger → Prop
  | .submitEquivocation _ workerId _ _ _ _ => ∀ worker ∈ s.workers.lookup workerId,
      T.minimumStake + T.equivocationSlash.mulFloor worker.activeStake ≤ worker.activeStake
  | .onInitialize block => s.CanPay (s.dueAbsences block s.openVoteRounds.toList)
  | .submitVote _ workerId vote _ => ∀ voting ∈ s.votingRounds.lookup (vote.workId, vote.round),
      ∀ assignment ∈ s.assignments.lookup (vote.workId, vote.round),
        assignment.toList.length ≤ (countVote T voting vote.verdict).responses →
        (s.recordVote workerId vote voting).CanPay
          (((s.recordVote workerId vote voting).absentees (vote.workId, vote.round)).count ·)
  | _ => True

instance (a : Action AccountId Ledger) : Decidable (LeavesMinimum s a) := by
  induction a using Action.casesOn <;> unfold LeavesMinimum <;> infer_instance

/-! ### The epoch boundary -/

theorem Staked.erase_pending (h : Staked s) {id' : WorkerId} {update : PendingWorkerUpdate}
    {stake : Balance} (hupdate : (s.pendingUpdates.erase id).lookup id' = some update)
    (hstake : update.stake = some stake) : T.minimumStake ≤ stake := by
  rw [StorageMap.lookup_erase_eq] at hupdate
  split_ifs at hupdate
  exact h.scheduled id' update stake hupdate hstake

/-- The stakes stay at or above the minimum from one storage to the next. -/
def KeepsStaked (s s' : State T) : Prop := Staked s → Staked s'

instance : Std.Refl (KeepsStaked (T := T)) := ⟨fun _ hs => hs⟩

instance : IsTrans (State T) KeepsStaked := ⟨fun _ _ _ h h' hs => h' (h hs)⟩

/-- A due update sets a stake that was checked when it was scheduled. -/
theorem BoundaryWrite.staked (h : BoundaryWrite s s') : KeepsStaked s s' := by
  intro hs
  cases h with
  | drop => exact ⟨hs.active, fun _ _ _ => hs.erase_pending, hs.counted, hs.bounded⟩
  | @apply id update epoch worker hpending hworker =>
    refine ⟨fun id' worker' hworker' => ?_, fun _ _ _ => hs.erase_pending, ?_, hs.bounded⟩
    · rw [StorageMap.lookup_insert_eq] at hworker'
      split_ifs at hworker' with hid
      · cases hworker'
        show T.minimumStake ≤ update.stake.getD worker.activeStake
        cases hstake : update.stake with
        | none => exact hs.active id worker hworker
        | some stake => exact hs.scheduled id update stake hpending hstake
      · exact hs.active id' worker' hworker'
    · show (s.workers.insert id (update.applyTo epoch worker)).keys.length ≤ s.workerCount
      rw [StorageMap.length_keys_insert_of_lookup hworker]
      exact hs.counted
  | release => exact hs.of_same rfl rfl rfl
  | snapshot => exact hs.of_same rfl rfl rfl

theorem onInitialize_staked (hs : Staked s)
    (hpay : s.CanPay (s.dueAbsences block s.openVoteRounds.toList))
    (h : onInitialize block s = .ok () s') : Staked s' := by
  obtain ⟨s₁, hdue, hboundary⟩ := onInitialize_boundary (fun _ _ hw => hw.staked) h
  exact hboundary ((finalizeIfDue_charges hdue).staked hs hpay)

/-! ### Genesis and calls -/

variable {origin : Origin AccountId}

theorem submitEquivocation_staked {workerId : WorkerId} {first second : WorkerVoteV1}
    {firstSignature secondSignature : Signature} (hs : Staked s)
    (hleaves : ∀ worker ∈ s.workers.lookup workerId,
      T.minimumStake + T.equivocationSlash.mulFloor worker.activeStake ≤ worker.activeStake)
    (h : submitEquivocation origin workerId first firstSignature second secondSignature s =
      .ok () s') : Staked s' := by
  obtain ⟨worker, _, ledger, actual, hworker, -, hslash, rfl⟩ := submitEquivocation_ok h
  refine ⟨fun id worker' hworker' => ?_, hs.scheduled, ?_, hs.bounded⟩
  · rw [StorageMap.lookup_insert_eq] at hworker'
    split_ifs at hworker'
    · cases hworker'
      have hactual := (slashStake_writes hslash).1
      exact Nat.le_sub_of_add_le ((Nat.add_le_add_left hactual _).trans (hleaves worker hworker))
    · exact hs.active id worker' hworker'
  · show (s.workers.insert workerId _).keys.length ≤ s.workerCount
    rw [StorageMap.length_keys_insert_of_lookup hworker]
    exact hs.counted

theorem submitVote_staked {workerId : WorkerId} {vote : WorkerVoteV1} {signature : Signature}
    (hs : Staked s) (hleaves : LeavesMinimum s (.submitVote origin workerId vote signature))
    (h : submitVote origin workerId vote signature s = .ok () s') : Staked s' := by
  obtain ⟨voting, assignment, key, hchecked, ⟨hlast, hfinal⟩ | ⟨-, rfl⟩⟩ := submitVote_recorded h
  · have hrecorded : Staked (s.recordVote workerId vote voting) := hs.of_same rfl rfl rfl
    exact (finalizeVoting_charges (k := (vote.workId, vote.round)) hfinal).staked hrecorded
      (hleaves voting hchecked.voting_eq assignment hchecked.assignment_eq hlast)
  · exact hs.of_same rfl rfl rfl

/-- Duties are given and taken without a look at the stakes. -/
theorem Staked.of_duties (hs : Staked s) (h : dutyItems.Within s s') : Staked s' :=
  hs.of_same (h.unchanged State.workers fun _ _ => rfl)
    (h.unchanged State.pendingUpdates fun _ _ => rfl) (h.unchanged State.workerCount fun _ _ => rfl)

section
variable [DecidableEq AccountId]

theorem buildWorkers_staked {workers : List (AccountId × PublicKey × Balance)} {n : Nat}
    (hactive : ∀ id worker, s.workers.lookup id = some worker → T.minimumStake ≤ worker.activeStake)
    (h : Tx.forEach buildWorker (workers.zipIdx n) s = .ok () s') :
    (∀ id worker, s'.workers.lookup id = some worker → T.minimumStake ≤ worker.activeStake) ∧
      s'.workers.keys.length ≤ s.workers.keys.length + workers.length ∧
      s'.pendingUpdates = s.pendingUpdates := by
  induction workers generalizing n s with
  | nil =>
    cases h
    exact ⟨hactive, Nat.le_refl _, rfl⟩
  | cons entry workers ih =>
    rw [List.zipIdx_cons, Tx.forEach_cons] at h
    obtain ⟨_, s₁, hbuild, h⟩ := Tx.bind_ok.mp h
    obtain ⟨ledger, hstake, -, -, rfl⟩ := buildWorker_ok hbuild
    obtain ⟨hactive', hlength, hpending⟩ := ih (n := n + 1) (fun id worker hworker => by
      rw [StorageMap.lookup_insert_eq] at hworker
      split_ifs at hworker
      · cases hworker
        exact hstake
      · exact hactive id worker hworker) h
    have hinsert := StorageMap.length_keys_insert_le s.workers (UInt64.ofNat n)
      (⟨entry.1, entry.2.1, entry.2.2, 0, 0⟩ : WorkerRecord AccountId)
    refine ⟨hactive', ?_, hpending⟩
    rw [List.length_cons]
    have hlength' : s'.workers.keys.length ≤ (s.workers.insert (UInt64.ofNat n)
      (⟨entry.1, entry.2.1, entry.2.2, 0, 0⟩ : WorkerRecord AccountId)).keys.length +
        workers.length := hlength
    omega

theorem genesis_staked (h : Genesis T s) : Staked s := by
  obtain ⟨workers, ledger, h⟩ := h
  unfold genesisBuild at h
  obtain ⟨hbound, h⟩ := Tx.check_bind_ok.mp h
  obtain ⟨_, s₁, hbuild, h⟩ := Tx.bind_ok.mp h
  obtain ⟨hactive, hlength, hpending⟩ :=
    buildWorkers_staked (fun id worker hworker => by cases hworker) hbuild
  cases h
  refine ⟨hactive, fun id update stake hupdate _ => ?_, ?_, hbound⟩
  · rw [hpending] at hupdate
    cases hupdate
  · have hzero : (State.init T ledger).workers.keys.length = 0 := rfl
    rw [hzero, Nat.zero_add] at hlength
    exact hlength

theorem register_staked {sessionKey : PublicKey} {stake : Balance} (hs : Staked s)
    (h : register origin sessionKey stake s = .ok () s') : Staked s' := by
  obtain ⟨owner, next, ledger, -, -, hcount, hstake, -, -, rfl⟩ := register_ok h
  refine ⟨fun id worker hworker => ?_, hs.scheduled, ?_, hcount⟩
  · rw [StorageMap.lookup_insert_eq] at hworker
    split_ifs at hworker
    · cases hworker
      exact hstake
    · exact hs.active id worker hworker
  · exact (StorageMap.length_keys_insert_le _ _ _).trans (Nat.succ_le_succ hs.counted)

theorem scheduleUpdate_staked {sessionKey : Option PublicKey} {stake : Option Balance}
    (hs : Staked s) (h : scheduleUpdate origin sessionKey stake s = .ok () s') : Staked s' := by
  obtain ⟨owner, id, worker, ledger, -, -, -, -, -, hminimum, -, rfl⟩ := scheduleUpdate_ok h
  refine ⟨hs.active, fun id' update amount hupdate hstake => ?_, hs.counted, hs.bounded⟩
  rw [StorageMap.lookup_insert_eq] at hupdate
  split_ifs at hupdate
  · cases hupdate
    exact hminimum amount hstake
  · exact hs.scheduled id' update amount hupdate hstake

/-- Every action keeps the stakes at or above the minimum, when it leaves the workers it
slashes with the minimum. -/
theorem action_staked {a : Action AccountId Ledger} (hs : Staked s) (hleaves : LeavesMinimum s a)
    (h : a.run s = .ok () s') : Staked s' := by
  cases a with
  | register origin sessionKey stake => exact register_staked hs (Tx.transaction_ok.mp h)
  | scheduleUpdate origin sessionKey stake =>
    exact scheduleUpdate_staked hs (Tx.transaction_ok.mp h)
  | submitVote origin workerId vote signature =>
    exact submitVote_staked hs hleaves (Tx.transaction_ok.mp h)
  | submitEquivocation origin workerId first firstSignature second secondSignature =>
    exact submitEquivocation_staked hs hleaves (Tx.transaction_ok.mp h)
  | openVoting workId round candidateHash deadline =>
    exact hs.of_duties (duties_of_rounds (openVoting_rounds h))
  | assignWork workId round =>
    exact hs.of_duties ((Tx.Rel.bind (assignWork_duties _ _) fun _ => .pure ()).of_ok h)
  | clearAssignment workId round =>
    exact hs.of_duties (duties_of_rounds (clearAssignment_rounds h))
  | onInitialize block => exact onInitialize_staked hs hleaves h
  | system blockNumber blockHash ledger =>
    cases h
    exact hs.of_same rfl rfl rfl

/-- The hook never fails, so a step that runs it is a successful one. -/
theorem onInitialize_of_step {l : Label AccountId Ledger} (hstep : Tx.Step Action.run s l s')
    (hlabel : l.1 = .onInitialize block) : onInitialize block s = .ok () s' := by
  obtain ⟨a, e⟩ := l
  subst hlabel
  cases e with
  | none => exact hstep
  | some e => exact absurd hstep (onInitialize_noErr block s e s')

/-- Along a run whose slashes leave the minimum, stakes are at or above it. -/
theorem staked_of_run {h : History T} (hr : Run T h s)
    (hleaves : ∀ t ∈ h, t.label.2 = none → LeavesMinimum t.pre t.label.1) :
    Staked s ∧ ∀ t ∈ h, Staked t.pre ∧ Staked t.post := by
  induction hr with
  | start hs => exact ⟨genesis_staked hs, by simp⟩
  | @extend h s l s' hr hstep ih =>
    obtain ⟨hpre, hbefore⟩ := ih fun t ht => hleaves t (List.mem_cons_of_mem _ ht)
    have hpost : Staked s' := by
      obtain ⟨a, _ | e⟩ := l
      · exact action_staked hpre (hleaves _ List.mem_cons_self rfl) hstep
      · rw [action_err (roundBook_sound hr) hstep]
        exact hpre
    refine ⟨hpost, fun t ht => ?_⟩
    rcases List.mem_cons.mp ht with rfl | ht
    · exact ⟨hpre, hpost⟩
    · exact hbefore t ht

end

/-! ### The two selections -/

/-- A worker of the pallet as the engine sees it in an epoch. -/
def engineRecord (epoch : EpochIndex) (entry : WorkerId × WorkerRecord AccountId) :
    WorkerEngine.WorkerRecord where
  id := entry.1
  activeStake := entry.2.activeStake
  sessionKey := entry.2.sessionKey
  status := if entry.2.suspendedUntil > epoch then .suspendedUntil entry.2.suspendedUntil
    else .active

/-- The workers that are effective in an epoch, as the engine sees them. -/
def engineWorkers (s : State T) (epoch : EpochIndex) : List WorkerEngine.WorkerRecord :=
  ((StorageMap.iter T.iterOrder s.workers).filter fun entry =>
    decide (entry.2.effectiveEpoch ≤ epoch)).map (engineRecord epoch)

/-- Nothing is dropped when every entry fits. -/
theorem foldl_tryPush {α β : Type} {n : Nat} (test : α → Prop) [DecidablePred test] (f : α → β)
    (l : List α) (v : BoundedVec β n) (hfits : v.toList.length + l.length ≤ n) :
    (l.foldl (fun v a => if test a then (v.tryPush (f a)).getD v else v) v).toList =
      v.toList ++ (l.filter fun a => decide (test a)).map f := by
  induction l generalizing v with
  | nil => simp
  | cons a l ih =>
    rw [List.length_cons] at hfits
    rw [List.foldl_cons]
    by_cases ha : test a
    · obtain ⟨w, hw⟩ : ∃ w, v.tryPush (f a) = some w := by
        cases hpush : v.tryPush (f a) with
        | none =>
          have := BoundedVec.tryPush_eq_none.mp hpush
          omega
        | some w => exact ⟨w, rfl⟩
      have hlist := BoundedVec.tryPush_eq_some.mp hw
      rw [if_pos ha, hw, Option.getD_some, ih w (by rw [hlist]; simp; omega), hlist]
      simp [ha]
    · rw [if_neg ha, ih v (by omega)]
      simp [ha]

variable {epoch : EpochIndex}

theorem eligibleWorkers_toList (hcount : s.workers.keys.length ≤ T.maxCandidates.toNat) :
    (eligibleWorkers s epoch).toList =
      ((StorageMap.iter T.iterOrder s.workers).filter fun entry =>
        decide (entry.2.effectiveEpoch ≤ epoch ∧ entry.2.suspendedUntil ≤ epoch)).map
        fun entry => (entry.1, entry.2.activeStake) := by
  unfold eligibleWorkers
  rw [foldl_tryPush (fun entry : WorkerId × WorkerRecord AccountId =>
    entry.2.effectiveEpoch ≤ epoch ∧ entry.2.suspendedUntil ≤ epoch)]
  · rfl
  · rw [StorageMap.length_iter T.iterOrder_perm]
    simpa using hcount

/-- With stakes at or above the minimum, the engine finds the same workers eligible. -/
theorem filter_eligibleAt (hs : Staked s) :
    ((engineWorkers s epoch).filter fun worker => worker.eligibleAt T.minimumStake epoch).map
        (fun worker => (worker.id, worker.activeStake)) = (eligibleWorkers s epoch).toList := by
  rw [eligibleWorkers_toList (hs.counted.trans hs.bounded)]
  unfold engineWorkers
  rw [List.filter_map, List.map_map, List.filter_filter]
  -- As all have the minimum stake, engine and pallet test the same.
  have hall : ∀ entry ∈ StorageMap.iter T.iterOrder s.workers,
      T.minimumStake ≤ entry.2.activeStake := fun entry hentry =>
    hs.active entry.1 entry.2 ((StorageMap.mem_iter T.iterOrder_perm).mp hentry)
  have htest : ∀ entry ∈ StorageMap.iter T.iterOrder s.workers,
      (((fun worker => worker.eligibleAt T.minimumStake epoch) ∘ engineRecord epoch) entry &&
        decide (entry.2.effectiveEpoch ≤ epoch)) =
      decide (entry.2.effectiveEpoch ≤ epoch ∧ entry.2.suspendedUntil ≤ epoch) := by
    intro entry hentry
    have hstake := hall entry hentry
    simp only [Function.comp_apply, WorkerEngine.WorkerRecord.eligibleAt, engineRecord, hstake,
      decide_true, Bool.true_and]
    by_cases hsuspended : entry.2.suspendedUntil > epoch
    · have hnot : ¬ entry.2.suspendedUntil ≤ epoch := UInt32.not_le.mpr hsuspended
      simp [hsuspended, hnot]
    · have hle : entry.2.suspendedUntil ≤ epoch := UInt32.not_lt.mp hsuspended
      simp [hsuspended, hle]
  rw [List.filter_congr htest]
  rfl

/-- The engine selects the workers the pallet ranks first, whatever order it is given them
in. -/
theorem topWorkers_eq (hs : Staked s) {records : List WorkerEngine.WorkerRecord}
    (hperm : records.Perm (engineWorkers s epoch)) (n : Nat) :
    (WorkerEngine.topWorkers T.minimumStake records epoch n).map WorkerEngine.WorkerRecord.id =
      ((rankWorkers (eligibleWorkers s epoch).toList).map Prod.fst).take n := by
  have hsame : ((records.filter fun worker => worker.eligibleAt T.minimumStake epoch).map
      fun worker => (worker.id, worker.activeStake)).Perm (eligibleWorkers s epoch).toList := by
    rw [← filter_eligibleAt hs]
    exact (hperm.filter _).map _
  unfold WorkerEngine.topWorkers rankWorkers
  rw [← sortByKey_eq_of_perm hsame, ← map_sortByKey
    (fun worker : WorkerEngine.WorkerRecord =>
      toLex (OrderDual.toDual worker.activeStake, worker.id.toNat))
    (fun worker : WorkerEngine.WorkerRecord => (worker.id, worker.activeStake)) fun _ => rfl,
    List.map_map, List.map_take]
  · rfl
  · -- The key of a worker is its stake and its id.
    intro a _ b _ heq
    obtain ⟨hstake, hid⟩ := Prod.mk.inj (toLex.injective heq)
    exact Prod.ext (UInt64.toNat_inj.mp hid) (OrderDual.toDual.injective hstake)

/-- A selected worker is one of the eligible ones. -/
theorem lookup_of_ranked (hcount : s.workers.keys.length ≤ T.maxCandidates.toNat)
    (hid : id ∈ (rankWorkers (eligibleWorkers s epoch).toList).map Prod.fst) :
    ∃ worker, s.workers.lookup id = some worker := by
  obtain ⟨pair, hpair, rfl⟩ := List.mem_map.mp hid
  have hmem := (sortByKey_perm _ _).mem_iff.mp hpair
  rw [eligibleWorkers_toList hcount] at hmem
  obtain ⟨entry, hentry, rfl⟩ := List.mem_map.mp hmem
  exact ⟨entry.2, (StorageMap.mem_iter T.iterOrder_perm).mp (List.mem_of_mem_filter hentry)⟩

/-- What the hook leaves after an epoch boundary. -/
theorem onInitialize_selects (h : onInitialize block s = .ok () s')
    (hboundary : EpochBoundary T block) :
    s'.activeWorkers.toList =
      ((rankWorkers (eligibleWorkers s' s'.currentEpoch).toList).map Prod.fst).take
        T.topWorkers.toNat := by
  obtain ⟨s₁, -, ⟨hnot, -⟩ | ⟨-, s₂, s₃, -, -, rfl⟩⟩ := onInitialize_parts h
  · exact absurd hboundary hnot
  · -- The snapshot writes the epoch and the selection, and the eligible workers read neither.
    rfl

/-- In every run of the workers pallet in which each slash leaves its worker with the minimum
stake, an epoch boundary selects workers with at least the minimum stake, and exactly those
the engine's `top_workers` selects among the same workers. -/
theorem epoch_selects_top_workers [DecidableEq AccountId] (T : Config AccountId Ledger)
    {h : History T} {s : State T} (hr : Run T h s)
    (hleaves : ∀ t ∈ h, t.label.2 = none → LeavesMinimum t.pre t.label.1) :
    ∀ t ∈ h, ∀ block, t.label.1 = .onInitialize block → EpochBoundary T block →
      (∀ id ∈ t.post.activeWorkers.toList, ∃ worker, t.post.workers.lookup id = some worker ∧
        T.minimumStake ≤ worker.activeStake) ∧
      ∀ records : List WorkerEngine.WorkerRecord,
        records.Perm (engineWorkers t.post t.post.currentEpoch) →
        (WorkerEngine.topWorkers T.minimumStake records t.post.currentEpoch
          T.topWorkers.toNat).map WorkerEngine.WorkerRecord.id = t.post.activeWorkers.toList := by
  intro t ht block hlabel hboundary
  have hpost := ((staked_of_run hr hleaves).2 t ht).2
  have hstep : onInitialize block t.pre = .ok () t.post :=
    onInitialize_of_step (hr.steps t ht) hlabel
  have hselected := onInitialize_selects hstep hboundary
  constructor
  · intro id hid
    rw [hselected] at hid
    obtain ⟨worker, hworker⟩ :=
      lookup_of_ranked (hpost.counted.trans hpost.bounded) (List.mem_of_mem_take hid)
    exact ⟨worker, hworker, hpost.active id worker hworker⟩
  · intro records hperm
    rw [hselected]
    exact topWorkers_eq hpost hperm _

/-! ### Runs -/

instance (a : Action AccountId Ledger) (block : BlockNumber) :
    Decidable (a = .onInitialize block) :=
  decidable_of_bool (match a with
    | .onInitialize block' => block' = block
    | _ => false) <| by
      split <;> simp_all

/-- A worker with twice the minimum is slashed for its absence, and selected by both. -/
theorem epoch_selects_top_workers_after_slash :
    ∃ h, ∃ s : State referenceWorkers, Run referenceWorkers h s ∧
      ∃ t ∈ h, t.label.1 = .onInitialize 200 ∧
        (t.pre.workers.lookup 0).map WorkerRecord.activeStake = some (2000 * Runtime.unit) ∧
        (t.post.workers.lookup 0).map WorkerRecord.activeStake = some (1980 * Runtime.unit) ∧
        t.post.activeWorkers.toList = [0] ∧
        (∀ id ∈ t.post.activeWorkers.toList, ∃ worker, t.post.workers.lookup id = some worker ∧
          referenceWorkers.minimumStake ≤ worker.activeStake) ∧
        (WorkerEngine.topWorkers referenceWorkers.minimumStake
          (engineWorkers t.post t.post.currentEpoch) t.post.currentEpoch
          referenceWorkers.topWorkers.toNat).map WorkerEngine.WorkerRecord.id =
            t.post.activeWorkers.toList := by
  obtain ⟨h, s, hrun, hleaves, t, ht, hlabel, hpre, hpost, hactive⟩ :=
    Reference.exists_workersHistory referenceWorkers
    [.scheduleUpdate (.signed Reference.alice) none (some (2000 * Runtime.unit)),
      .onInitialize 100, .assignWork 0 0, .openVoting 0 0 (FixedBytes.fill 32 1) 150,
      .onInitialize 200]
    (fun h _ => (∀ t ∈ h, t.label.2 = none → LeavesMinimum t.pre t.label.1) ∧
      ∃ t ∈ h, t.label.1 = .onInitialize 200 ∧
        (t.pre.workers.lookup 0).map WorkerRecord.activeStake = some (2000 * Runtime.unit) ∧
        (t.post.workers.lookup 0).map WorkerRecord.activeStake = some (1980 * Runtime.unit) ∧
        t.post.activeWorkers.toList = [0]) (by decide +kernel)
  have hselected := epoch_selects_top_workers referenceWorkers hrun hleaves t ht 200 hlabel
    ⟨by decide, by decide, by decide⟩
  exact ⟨h, s, hrun, t, ht, hlabel, hpre, hpost, hactive, hselected.1,
    hselected.2 _ (List.Perm.refl _)⟩

/-- A worker at the minimum is slashed for its absence in the hook that ends the epoch. The
pallet selects it all the same, and the engine selects nobody. -/
theorem slashed_worker_selected :
    ∃ h, ∃ s : State referenceWorkers, Run referenceWorkers h s ∧
      ∃ t ∈ h, t.label.1 = .onInitialize 100 ∧ EpochBoundary referenceWorkers 100 ∧
        t.post.activeWorkers.toList = [0] ∧
        (∃ worker, t.post.workers.lookup 0 = some worker ∧
          worker.activeStake < referenceWorkers.minimumStake) ∧
        WorkerEngine.topWorkers referenceWorkers.minimumStake
          (engineWorkers t.post t.post.currentEpoch) t.post.currentEpoch
          referenceWorkers.topWorkers.toNat = [] := by
  obtain ⟨h, s, hrun, t, ht, hlabel, hactive, hworker, hempty⟩ :=
    Reference.exists_workersHistory referenceWorkers
    [.assignWork 0 0, .openVoting 0 0 (FixedBytes.fill 32 1) 50, .onInitialize 100]
    (fun h _ => ∃ t ∈ h, t.label.1 = .onInitialize 100 ∧ t.post.activeWorkers.toList = [0] ∧
      (∃ worker, t.post.workers.lookup 0 = some worker ∧
        worker.activeStake < referenceWorkers.minimumStake) ∧
      (WorkerEngine.topWorkers referenceWorkers.minimumStake
        (engineWorkers t.post t.post.currentEpoch) t.post.currentEpoch
        referenceWorkers.topWorkers.toNat).isEmpty = true) (by decide +kernel)
  exact ⟨h, s, hrun, t, ht, hlabel, ⟨by decide, by decide, by decide⟩, hactive, hworker,
    List.isEmpty_iff.mp hempty⟩

end MiniJam.Workers
