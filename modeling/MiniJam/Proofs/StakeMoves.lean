import MiniJam.Lib.StakeBook
import MiniJam.Proofs.Rounds

/-!
# `MiniJam.Proofs.StakeMoves`: how the workers pallet moves stakes

`State.book` reads the pallet's storage as a `StakeBook`. Each function of the pallet makes moves
of the book or none: a registration, a scheduled update, a slash, an applied update, a release.

One move has a condition the code does not check. A slash moves the book only when no stake is
scheduled for the worker (`State.Unscheduled`). The functions that slash are therefore stated
under conditions on the storage before them: none of the workers they would slash has a stake
scheduled.
-/

set_option autoImplicit false

namespace MiniJam.Workers

open StakeBook (Steps)

variable {AccountId Ledger : Type} [DecidableEq AccountId] {T : Config AccountId Ledger}
  {s s' : State T}

/-! ### The book of a storage -/

/-- The balances on hold as worker stake. -/
def stakeHolds (T : Config AccountId Ledger) (ledger : Ledger) : AccountId → Balance :=
  T.currency.balanceOnHold ledger .workerStake

/-- The stakes in the storage of the pallet. -/
def State.book (s : State T) : StakeBook WorkerId AccountId where
  used id := id.toNat < s.nextWorkerId.toNat
  index := s.workerByAccount.lookup
  stake id := (s.workers.lookup id).map fun worker => (worker.owner, worker.activeStake)
  update id := (s.pendingUpdates.lookup id).map PendingWorkerUpdate.stake
  chunk id := (s.unbonding.lookup id).map UnbondingChunk.amount
  held := stakeHolds T s.ledger

variable {id : WorkerId} {worker : WorkerRecord AccountId} {origin : Origin AccountId}

/-- The stake of a registered worker. -/
theorem book_stake (h : s.workers.lookup id = some worker) :
    s.book.stake id = some (worker.owner, worker.activeStake) := by
  show (s.workers.lookup id).map _ = _
  rw [h, Option.map_some]

/-- Writing the stake that is there changes nothing. -/
theorem book_stake_update (h : s.workers.lookup id = some worker) :
    s.book.stake = Function.update s.book.stake id (some (worker.owner, worker.activeStake)) :=
  (Function.update_eq_self_iff.mpr (book_stake h).symm).symm

/-- The book moves. -/
def BookMoves (s s' : State T) : Prop := Steps s.book s'.book

instance : Std.Refl (BookMoves (T := T)) := ⟨fun _ => .refl⟩

instance : IsTrans (State T) BookMoves := ⟨fun _ _ _ h₁ h₂ => h₁.trans h₂⟩

/-- A registry that is the same. -/
theorem BookMoves.of_eq (h : s'.book = s.book) : BookMoves s s' := by
  unfold BookMoves
  rw [h]

/-- Duties are not in the registry. -/
theorem BookMoves.of_duties (h : dutyItems.Within s s') : BookMoves s s' :=
  .of_eq (h.unchanged State.book fun _ _ => rfl)

variable {owner : AccountId}

/-- A move of one worker: what the storage has for it and on hold for its owner changes to
the member after the move. -/
theorem BookMoves.of_move {active : Balance} {m : StakeBook.Member}
    (hworker : s.book.stake id = some (owner, active))
    (hmove : (s.book.member id owner active).Move m) (hnext : s'.nextWorkerId = s.nextWorkerId)
    (hindex : s'.workerByAccount = s.workerByAccount)
    (hstake : s'.book.stake = Function.update s.book.stake id (some (owner, m.active)))
    (hupdate : s'.book.update = Function.update s.book.update id m.update)
    (hchunk : s'.book.chunk = Function.update s.book.chunk id m.chunk)
    (hheld : s'.book.held = Function.update s.book.held owner m.held) : BookMoves s s' := by
  have hput : s'.book = s.book.put id owner m := by
    refine StakeBook.ext ?_ ?_ hstake hupdate hchunk hheld
    · funext w
      show (w.toNat < s'.nextWorkerId.toNat) = (w.toNat < s.nextWorkerId.toNat)
      rw [hnext]
    · show s'.workerByAccount.lookup = s.workerByAccount.lookup
      rw [hindex]
  unfold BookMoves
  rw [hput]
  exact .single (.move hworker hmove)

/-! ### Slashes -/

/-- A slash takes what the hold has, and changes the ledger only. -/
theorem slashStake_ok {requested actual : Balance} (hc : LawfulCurrency T.currency)
    (h : slashStake owner requested s = .ok actual s') :
    actual ≤ stakeHolds T s.ledger owner ∧
      stakeHolds T s'.ledger = Function.update (stakeHolds T s.ledger) owner
        (stakeHolds T s.ledger owner - actual) := by
  unfold slashStake at h
  rw [Tx.read_bind_apply, Tx.modify_bind_apply, Tx.read_bind_apply] at h
  obtain ⟨ledger, hresolve, h⟩ := Tx.okOr_bind_ok.mp h
  cases h
  have hcredit := hc.slash_credit .workerStake owner requested s.ledger
  have hremainder := hc.slash_remainder .workerStake owner requested s.ledger
  have hle : (T.currency.slash .workerStake owner requested s.ledger).1 ≤ requested := by
    rw [hcredit]
    exact Nat.min_le_left _ _
  -- The amount reported is the credit.
  have hactual : requested - (T.currency.slash .workerStake owner requested s.ledger).2.1 =
      (T.currency.slash .workerStake owner requested s.ledger).1 := by
    rw [hremainder]
    exact Nat.sub_sub_self hle
  refine ⟨?_, ?_⟩
  · rw [hactual, hcredit]
    exact Nat.min_le_right _ _
  · show stakeHolds T ledger = _
    rw [hactual]
    unfold stakeHolds
    rw [hc.resolve_holds _ _ _ _ hresolve]
    exact hc.slash_eq .workerStake owner requested s.ledger

/-- No stake is scheduled for the worker. -/
def State.Unscheduled (s : State T) (id : WorkerId) : Prop :=
  ∀ update ∈ s.pendingUpdates.lookup id, update.stake = none

instance (id : WorkerId) : Decidable (s.Unscheduled id) :=
  inferInstanceAs (Decidable (∀ update ∈ s.pendingUpdates.lookup id, update.stake = none))

/-- A slash of a worker without a scheduled stake. -/
theorem book_slash {record : WorkerRecord AccountId} {actual : Balance} {ledger : Ledger}
    (hworker : s.workers.lookup id = some worker) (hspared : s.Unscheduled id)
    (hactive : actual ≤ worker.activeStake) (hheld : actual ≤ stakeHolds T s.ledger worker.owner)
    (hledger : stakeHolds T ledger = Function.update (stakeHolds T s.ledger) worker.owner
      (stakeHolds T s.ledger worker.owner - actual)) (howner : record.owner = worker.owner)
    (hstake : record.activeStake = worker.activeStake - actual) :
    BookMoves s { s with ledger := ledger, workers := s.workers.insert id record } := by
  have hnone : ∀ stake, s.book.update id ≠ some (some stake) := by
    intro stake hstake
    obtain ⟨update, hlookup, hupdate⟩ := Option.map_eq_some_iff.mp hstake
    rw [hspared update hlookup] at hupdate
    cases hupdate
  refine .of_move (book_stake hworker) (.slash hactive hheld hnone) rfl rfl ?_
    (Function.update_eq_self _ _).symm (Function.update_eq_self _ _).symm hledger
  refine (StorageMap.map_lookup_insert _ _ _ _).trans ?_
  rw [howner, hstake]
  rfl

/-! ### Settling rounds -/

/-- Between the two storages stakes moved and votings were closed, and the rest that decides
about slashes is as it was. -/
structure Settling (s s' : State T) : Prop where
  moves : BookMoves s s'
  pending : s'.pendingUpdates = s.pendingUpdates
  votes : s'.votes = s.votes
  assignments : s'.assignments = s.assignments
  votings : ∀ k voting, s'.votingRounds.lookup k = some voting →
    s.votingRounds.lookup k = some voting

instance : Std.Refl (Settling (T := T)) := ⟨fun _ => ⟨.refl, rfl, rfl, rfl, fun _ _ h => h⟩⟩

instance : IsTrans (State T) Settling where
  trans _ _ _ h₁ h₂ := ⟨h₁.moves.trans h₂.moves, h₂.pending.trans h₁.pending,
    h₂.votes.trans h₁.votes, h₂.assignments.trans h₁.assignments,
    fun k voting h => h₁.votings k voting (h₂.votings k voting h)⟩

/-- The workers that were assigned to a round and did not vote have no stake scheduled. -/
def State.RoundSpares (s : State T) (k : RoundKey) : Prop :=
  ∀ assignment ∈ s.assignments.lookup k, ∀ id ∈ assignment.toList,
    s.votes.contains (k.1, k.2, id) = false → s.Unscheduled id

theorem Settling.roundSpares (h : Settling s s') {k : RoundKey} (hs : s.RoundSpares k) :
    s'.RoundSpares k := by
  intro assignment hassignment id hid habsent update hupdate
  rw [h.assignments] at hassignment
  rw [h.votes] at habsent
  rw [h.pending] at hupdate
  exact hs assignment hassignment id hid habsent update hupdate

omit [DecidableEq AccountId] in
theorem absenceRequest_le (T : Config AccountId Ledger) (activeStake : Balance) :
    absenceRequest T activeStake ≤ activeStake := Nat.min_le_right _ _

/-- Settling a duty pays out of the reward pool or slashes the absent worker. -/
theorem settleDuty_settling {workId : WorkId} {round : AssignmentRound}
    (hc : LawfulCurrency T.currency)
    (hspared : s.votes.contains (workId, round, id) = false → s.Unscheduled id)
    (h : settleDuty workId round id s = .ok () s') : Settling s s' := by
  obtain ⟨worker, hworker, ⟨-, ledger, htransfer, rfl⟩ | ⟨habsent, ledger, actual, hslash, rfl⟩⟩ :=
    settleDuty_ok h
  · refine ⟨.of_eq ?_, rfl, rfl, rfl, fun _ _ h => h⟩
    have hkept : stakeHolds T ledger = stakeHolds T s.ledger :=
      congrFun (hc.transfer_holds _ _ _ _ _ htransfer) .workerStake
    exact StakeBook.ext rfl rfl rfl rfl rfl hkept
  · obtain ⟨hheld, hledger⟩ := slashStake_ok hc hslash
    have hactive := Nat.le_trans (slashStake_writes hslash).1
      (absenceRequest_le T worker.activeStake)
    exact ⟨book_slash hworker (hspared habsent) hactive hheld hledger rfl rfl, rfl, rfl, rfl,
      fun _ _ h => h⟩

theorem finalizeVoting_settling {k : RoundKey} (hc : LawfulCurrency T.currency)
    (hspares : s.RoundSpares k) (h : finalizeVoting k.1 k.2 s = .ok () s') : Settling s s' := by
  obtain ⟨voting, assignment, s₁, -, hassignment, hsettle, rfl⟩ := finalizeVoting_ok h
  -- Closing the voting changes no stake, and neither does storing the result.
  have hclose : Settling s { s with votingRounds := s.votingRounds.erase (k.1, k.2) } := by
    refine ⟨.of_eq rfl, rfl, rfl, rfl, fun k' voting' h' => ?_⟩
    rw [StorageMap.lookup_erase_eq] at h'
    split_ifs at h'
    exact h'
  have hloop : Settling { s with votingRounds := s.votingRounds.erase (k.1, k.2) } s₁ := by
    refine Tx.forEach_ok_of
      (C := fun s => s.assignments.lookup k = some assignment ∧ s.RoundSpares k)
      (fun s₂ s₃ hR hC => ⟨hR.assignments ▸ hC.1, hR.roundSpares hC.2⟩)
      (fun id hid s₂ s₃ hC hduty => ?_) ⟨hassignment, hclose.roundSpares hspares⟩ hsettle
    exact settleDuty_settling hc (hC.2 assignment hC.1 id hid) hduty
  exact IsTrans.trans _ _ _ (IsTrans.trans _ _ _ hclose hloop)
    ⟨.of_eq rfl, rfl, rfl, rfl, fun _ _ h => h⟩

/-- The rounds a block finalizes spare the workers with a scheduled stake. -/
def State.DueSpares (s : State T) (block : BlockNumber) (rounds : List RoundKey) : Prop :=
  ∀ k ∈ rounds, s.Overdue block k → s.RoundSpares k

variable {block : BlockNumber} {stake : Option Balance} {workerId : WorkerId}

theorem finalizeDueVotes_settling (hc : LawfulCurrency T.currency)
    (hspares : s.DueSpares block s.openVoteRounds.toList)
    (h : finalizeDueVotes block s = .ok () s') :
    Settling s s' := by
  unfold finalizeDueVotes at h
  rw [Tx.read_bind_apply] at h
  refine Tx.forEach_ok_of (R := Settling)
    (C := fun s₁ => s₁.DueSpares block s.openVoteRounds.toList)
    (fun s₁ s₂ hR hC k hk hdue => ?_) (fun k hk s₁ s₂ hC hround => ?_) hspares h
  · obtain ⟨voting, hvoting, hpast⟩ := hdue
    exact hR.roundSpares (hC k hk ⟨voting, hR.votings k voting hvoting, hpast⟩)
  · rcases finalizeIfDue_ok hround with ⟨rfl, -⟩ | ⟨hdue, hfinal | ⟨rfl, -⟩⟩
    · exact Std.Refl.refl _
    · exact finalizeVoting_settling hc (hC k hk hdue) hfinal
    · exact Std.Refl.refl _

/-! ### Epoch boundaries -/

/-- The chunks after a decrease was put aside. -/
theorem chunk_putAside (s : State T) (id : WorkerId) (worker : WorkerRecord AccountId)
    (update : PendingWorkerUpdate) (epoch : EpochIndex) :
    (fun id' => ((update.putAside epoch id worker s.unbonding).lookup id').map
        UnbondingChunk.amount) =
      Function.update s.book.chunk id
        (if update.stake.getD worker.activeStake < worker.activeStake then
          some (worker.activeStake - update.stake.getD worker.activeStake)
        else s.book.chunk id) := by
  unfold PendingWorkerUpdate.putAside
  split_ifs
  · exact StorageMap.map_lookup_insert _ _ _ _
  · exact (Function.update_eq_self _ _).symm

theorem book_applied {update : PendingWorkerUpdate} {epoch : EpochIndex}
    (hpending : s.pendingUpdates.lookup id = some update)
    (hworker : s.workers.lookup id = some worker) :
    BookMoves s { s with
      workers := s.workers.insert id (update.applyTo epoch worker)
      unbonding := update.putAside epoch id worker s.unbonding
      pendingUpdates := s.pendingUpdates.erase id
      events := s.events ++ [.workerUpdateApplied id epoch] } := by
  have hupdate : s.book.update id = some update.stake := by
    show (s.pendingUpdates.lookup id).map _ = _
    rw [hpending, Option.map_some]
  have herased := StorageMap.map_lookup_erase s.pendingUpdates id PendingWorkerUpdate.stake
  have hinsert : (fun id' => ((s.workers.insert id (update.applyTo epoch worker)).lookup
      id').map fun worker => (worker.owner, worker.activeStake)) =
      Function.update s.book.stake id
        (some (worker.owner, update.stake.getD worker.activeStake)) :=
    StorageMap.map_lookup_insert _ _ _ _
  have hchunk := chunk_putAside s id worker update epoch
  cases hstake : update.stake with
  | none =>
    -- An update without a stake puts no chunk aside.
    rw [hstake, Option.getD_none] at hinsert hchunk
    rw [hstake] at hupdate
    refine .of_move (book_stake hworker) (.applyOther hupdate) rfl rfl hinsert herased
      (hchunk.trans ?_) (Function.update_eq_self _ _).symm
    rw [if_neg (Nat.lt_irrefl _)]
    rfl
  | some stake =>
    rw [hstake, Option.getD_some] at hinsert hchunk
    rw [hstake] at hupdate
    exact .of_move (book_stake hworker) (.applyStake hupdate) rfl rfl hinsert herased hchunk
      (Function.update_eq_self _ _).symm

theorem BoundaryWrite.bookMoves (hc : LawfulCurrency T.currency) (h : BoundaryWrite s s') :
    BookMoves s s' := by
  cases h with
  | @drop id update epoch hpending hworker =>
    have hnone : s.book.stake id = none := by
      show (s.workers.lookup id).map _ = _
      rw [hworker, Option.map_none]
    have hbook : State.book { s with pendingUpdates := s.pendingUpdates.erase id } =
        { s.book with update := Function.update s.book.update id none } :=
      StakeBook.ext rfl rfl rfl (StorageMap.map_lookup_erase _ _ _) rfl rfl
    exact .single (hbook ▸ .drop hnone)
  | apply hpending hworker => exact book_applied hpending hworker
  | @release id chunk worker ledger hchunk hworker hrelease =>
    have hamount : s.book.chunk id = some chunk.amount := by
      show (s.unbonding.lookup id).map _ = _
      rw [hchunk, Option.map_some]
    have hheld : chunk.amount ≤ s.book.held worker.owner :=
      Nat.le_of_add_left_le (hc.release_same _ _ _ _ _ hrelease).le
    exact .of_move (book_stake hworker) (.release hamount hheld) rfl rfl
      (book_stake_update hworker) (Function.update_eq_self _ _).symm
      (StorageMap.map_lookup_erase _ _ _) (hc.release_eq hrelease)
  | snapshot => exact .of_eq rfl

theorem onInitialize_moves (hc : LawfulCurrency T.currency)
    (hspares : s.DueSpares block s.openVoteRounds.toList) (h : onInitialize block s = .ok () s') :
    BookMoves s s' := by
  obtain ⟨s₁, hdue, hcrossed⟩ := onInitialize_boundary (fun _ _ hw => hw.bookMoves hc) h
  exact IsTrans.trans _ _ _ (finalizeDueVotes_settling hc hspares hdue).moves hcrossed

/-! ### Calls -/

/-- The book with the ids below `n` given out. -/
def State.bookUpTo (s : State T) (n : Nat) : StakeBook WorkerId AccountId :=
  { s.book with used := fun id => id.toNat < n }

/-- A new worker with the next id and its stake on hold. -/
theorem bookUpTo_register {n : Nat} {ledger : Ledger} (hc : LawfulCurrency T.currency)
    (hid : id.toNat = n) (hnew : s.workerByAccount.lookup worker.owner = none)
    (hhold : T.currency.hold .workerStake worker.owner worker.activeStake s.ledger = some ledger)
    (hledger : s'.ledger = ledger) (hworkers : s'.workers = s.workers.insert id worker)
    (hindex : s'.workerByAccount = s.workerByAccount.insert worker.owner id)
    (hpending : s'.pendingUpdates = s.pendingUpdates) (hunbonding : s'.unbonding = s.unbonding) :
    StakeBook.Step (s.bookUpTo n) (s'.bookUpTo (n + 1)) := by
  have hfresh : ¬ (s.bookUpTo n).used id := by
    show ¬ id.toNat < n
    omega
  have hused : ∀ w : WorkerId, w.toNat < n + 1 ↔ (s.bookUpTo n).used w ∨ w = id := by
    intro w
    show w.toNat < n + 1 ↔ w.toNat < n ∨ w = id
    rw [← UInt64.toNat_inj]
    omega
  -- The ids, the index, one stake and one hold change, and nothing else.
  have hbook : s'.bookUpTo (n + 1) = { s.bookUpTo n with
      used := fun id => id.toNat < n + 1
      index := Function.update (s.bookUpTo n).index worker.owner (some id)
      stake := Function.update (s.bookUpTo n).stake id (some (worker.owner, worker.activeStake))
      held := Function.update (s.bookUpTo n).held worker.owner
        ((s.bookUpTo n).held worker.owner + worker.activeStake) } := by
    refine StakeBook.ext rfl ?_ ?_ ?_ ?_ ?_
    · show s'.workerByAccount.lookup = _
      rw [hindex]
      refine Function.eq_update_iff.mpr ⟨AList.lookup_insert _, fun a ha => ?_⟩
      exact AList.lookup_insert_ne ha
    · show (fun id' => (s'.workers.lookup id').map _) = _
      rw [hworkers]
      exact StorageMap.map_lookup_insert _ _ _ _
    · show (fun id' => (s'.pendingUpdates.lookup id').map _) = _
      rw [hpending]
      rfl
    · show (fun id' => (s'.unbonding.lookup id').map _) = _
      rw [hunbonding]
      rfl
    · show stakeHolds T s'.ledger = _
      rw [hledger]
      exact hc.hold_eq hhold
  rw [hbook]
  exact .register hfresh hnew hused

theorem register_moves {sessionKey : PublicKey} {stake : Balance} (hc : LawfulCurrency T.currency)
    (h : register origin sessionKey stake s = .ok () s') : BookMoves s s' := by
  obtain ⟨owner, next, ledger, -, hnew, -, -, hnext, hhold, hs'⟩ := register_ok h
  have hstep : StakeBook.Step s.book (s'.bookUpTo (s.nextWorkerId.toNat + 1)) := by
    rw [hs']
    exact bookUpTo_register (s := s) hc rfl hnew hhold rfl rfl rfl rfl rfl
  rw [← hnext, show s'.bookUpTo next.toNat = s'.book by rw [hs']; rfl] at hstep
  exact .single hstep

/-- Scheduling holds the increase of the stake, if there is one. -/
theorem holdIncrease_ok {active : Balance} (hc : LawfulCurrency T.currency)
    (h : holdIncrease owner active stake s = .ok () s') :
    stakeHolds T s'.ledger = Function.update (stakeHolds T s.ledger) owner
      (stakeHolds T s.ledger owner + (stake.getD active - active)) := by
  have hnothing : ∀ n : Balance, n ≤ active → stakeHolds T s.ledger =
      Function.update (stakeHolds T s.ledger) owner
        (stakeHolds T s.ledger owner + (n - active)) := by
    intro n hn
    rw [Nat.sub_eq_zero_of_le hn, Nat.add_zero, Function.update_eq_self]
  cases stake with
  | none =>
    cases h
    exact hnothing active (Nat.le_refl _)
  | some newStake =>
    obtain ⟨-, h⟩ := Tx.ensure_bind_ok.mp h
    split_ifs at h with hmore
    · obtain ⟨ledger, hhold, rfl⟩ := currencyOp_ok h
      exact hc.hold_eq hhold
    · cases h
      exact hnothing newStake (Nat.le_of_not_lt hmore)

theorem scheduleUpdate_moves {sessionKey : Option PublicKey} (hc : LawfulCurrency T.currency)
    (hsound : s.book.Sound) (h : scheduleUpdate origin sessionKey stake s = .ok () s') :
    BookMoves s s' := by
  obtain ⟨owner, id, worker, ledger, -, hindex, hpending, hunbonding, hworker, -, hhold, rfl⟩ :=
    scheduleUpdate_ok h
  have hledger := holdIncrease_ok hc hhold
  -- The caller is the owner the worker was registered for.
  obtain ⟨active, hregistered⟩ := hsound.registered owner id hindex
  rw [book_stake hworker] at hregistered
  cases hregistered
  have hupdate : s.book.update id = none := by
    show (s.pendingUpdates.lookup id).map _ = none
    rw [hpending, Option.map_none]
  have hchunk : s.book.chunk id = none := by
    show (s.unbonding.lookup id).map _ = none
    rw [hunbonding, Option.map_none]
  exact .of_move (book_stake hworker) (.schedule hupdate hchunk) rfl rfl
    (book_stake_update hworker) (StorageMap.map_lookup_insert _ _ _ _)
    (Function.update_eq_self _ _).symm hledger

theorem submitEquivocation_moves {first second : WorkerVoteV1}
    {firstSignature secondSignature : Signature} (hc : LawfulCurrency T.currency)
    (hspared : s.Unscheduled workerId)
    (h : submitEquivocation origin workerId first firstSignature second secondSignature s =
      .ok () s') : BookMoves s s' := by
  obtain ⟨worker, _, ledger, actual, hworker, -, hslash, rfl⟩ := submitEquivocation_ok h
  obtain ⟨hheld, hledger⟩ := slashStake_ok hc hslash
  have hactive := (slashStake_writes hslash).1.trans (Perbill.mulFloor_le _ _)
  exact book_slash hworker hspared hactive hheld hledger rfl rfl

/-- The workers that are absent when a vote is the last one its round waits for have no stake
scheduled. -/
def State.LastVoteSpares (s : State T) (workerId : WorkerId) (vote : WorkerVoteV1) : Prop :=
  ∀ voting ∈ s.votingRounds.lookup (vote.workId, vote.round),
    ∀ assignment ∈ s.assignments.lookup (vote.workId, vote.round),
      assignment.toList.length ≤ (countVote T voting vote.verdict).responses →
        ∀ id ∈ assignment.toList, id ≠ workerId →
          s.votes.contains (vote.workId, vote.round, id) = false → s.Unscheduled id

/-- A vote moves stakes only when it is the last of its round. -/
theorem submitVote_moves {vote : WorkerVoteV1} {signature : Signature}
    (hc : LawfulCurrency T.currency) (hspares : s.LastVoteSpares workerId vote)
    (h : submitVote origin workerId vote signature s = .ok () s') : BookMoves s s' := by
  obtain ⟨voting, assignment, key, hchecked, ⟨hlast, hfinal⟩ | ⟨-, rfl⟩⟩ :=
    submitVote_recorded h
  · have hround : (s.recordVote workerId vote voting).RoundSpares (vote.workId, vote.round) := by
      intro assignment' hassignment' id hid habsent
      cases hassignment'.symm.trans hchecked.assignment_eq
      -- The voter is present, and the others voted before or did not.
      simp only [State.recordVote, StorageMap.contains, StorageMap.lookup_insert_eq] at habsent
      by_cases hvoter : id = workerId
      · rw [if_pos (by rw [hvoter])] at habsent
        cases habsent
      · rw [if_neg fun heq => hvoter (congrArg (fun key : DutyKey => key.2.2) heq)] at habsent
        exact hspares voting hchecked.voting_eq assignment hchecked.assignment_eq hlast id hid
          hvoter habsent
    exact IsTrans.trans s (s.recordVote workerId vote voting) _ (.of_eq rfl)
      (finalizeVoting_settling hc hround hfinal).moves
  · exact .of_eq rfl

end MiniJam.Workers
