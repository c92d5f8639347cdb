import MiniJam.Proofs.Registry
import MiniJam.Proofs.Tally
import MiniJam.Runtime.Reference

/-!
# `MiniJam.Proofs.VoteRewards`: when a valid vote is recorded

The last awaited vote of a round settles the round in the same dispatch, and the settlement pays
every assigned worker from the reward pool. A transfer that fails undoes the vote, although the
vote itself was valid (`valid_last_vote_refused`). A vote that is not the last one needs no
transfer, and the last one is recorded exactly when the pool pays the owners of all assigned
workers (`valid_vote_recorded_iff`).
-/

set_option autoImplicit false

namespace MiniJam.Workers

variable {AccountId Ledger : Type} {T : Config AccountId Ledger} {s s' : State T}

/-- The reward pool pays the reward of a timely vote to each of the owners. -/
def payRewards (T : Config AccountId Ledger) : List AccountId → Ledger → Option Ledger
  | [], ledger => some ledger
  | owner :: owners, ledger =>
    (T.currency.transfer T.rewardPool owner T.timelyVoteReward ledger).bind (payRewards T owners)

/-- All assigned workers other than this one have voted in the round. -/
def State.OthersVoted (s : State T) (k : RoundKey) (workerId : WorkerId) : Prop :=
  ∀ assignment, s.assignments.lookup k = some assignment → ∀ id ∈ assignment.toList,
    id ≠ workerId → s.votes.lookup (k.1, k.2, id) ≠ none

instance (k : RoundKey) (workerId : WorkerId) : Decidable (s.OthersVoted k workerId) :=
  have (assignment : Assignment T) : Decidable (∀ id ∈ assignment.toList, id ≠ workerId →
      s.votes.lookup (k.1, k.2, id) ≠ none) := List.decidableBAll _ _
  inferInstanceAs (Decidable (∀ assignment, s.assignments.lookup k = some assignment → _))

/-- The reward pool can pay the owners of all workers assigned to the round. -/
def State.PaysRound (s : State T) (k : RoundKey) : Prop :=
  ∀ assignment, s.assignments.lookup k = some assignment →
    payRewards T (assignment.toList.filterMap s.ownerOf) s.ledger ≠ none

instance (k : RoundKey) : Decidable (s.PaysRound k) :=
  decidable_of_iff (∀ assignment ∈ s.assignments.lookup k,
    (payRewards T (assignment.toList.filterMap s.ownerOf) s.ledger).isSome = true)
    (by simp only [Option.isSome_iff_ne_none, State.PaysRound, Option.mem_def])

/-! ### The settlement of a round in which everybody has voted -/

/-- Settling a worker that has voted is a transfer to its owner. -/
theorem settleDuty_voted {k : RoundKey} {id : WorkerId} {worker : WorkerRecord AccountId}
    (hworker : s.workers.lookup id = some worker)
    (hvoted : s.votes.contains (k.1, k.2, id) = true) :
    settleDuty k.1 k.2 id s =
      match T.currency.transfer T.rewardPool worker.owner T.timelyVoteReward s.ledger with
      | some ledger => .ok () { s with
          ledger := ledger
          events := s.events ++ [.voteRewardPaid id T.timelyVoteReward] }
      | none => .err .token s := by
  unfold settleDuty
  rw [Tx.read_bind_apply, hworker, Tx.okOr_some_bind_apply, if_pos hvoted, Tx.bind_apply]
  unfold currencyOp
  cases T.currency.transfer T.rewardPool worker.owner T.timelyVoteReward s.ledger <;> rfl

/-- Settling workers that have voted succeeds exactly when their owners can be paid. -/
theorem settleDuties_pays_iff {k : RoundKey} {ids : List WorkerId}
    (hregistered : ∀ id ∈ ids, s.ownerOf id ≠ none)
    (hvoted : ∀ id ∈ ids, s.votes.contains (k.1, k.2, id) = true) :
    (∃ s', Tx.forEach (settleDuty k.1 k.2) ids s = .ok () s') ↔
      payRewards T (ids.filterMap s.ownerOf) s.ledger ≠ none := by
  induction ids generalizing s with
  | nil => exact iff_of_true ⟨s, rfl⟩ (Option.some_ne_none _)
  | cons id ids ih =>
    obtain ⟨owner, howner⟩ := Option.ne_none_iff_exists'.mp (hregistered id List.mem_cons_self)
    obtain ⟨worker, hworker, rfl⟩ := Option.map_eq_some_iff.mp howner
    have hone := settleDuty_voted hworker (hvoted id List.mem_cons_self)
    rw [List.filterMap_cons_some howner, Tx.forEach_cons, Tx.bind_apply, hone]
    unfold payRewards
    cases T.currency.transfer T.rewardPool worker.owner T.timelyVoteReward s.ledger with
    | none => exact iff_of_false (fun ⟨_, h⟩ => nomatch h) fun h => h rfl
    | some ledger =>
      -- The payment changes neither the workers nor the votes.
      exact ih (fun id' hid' => hregistered id' (List.mem_cons_of_mem _ hid'))
        fun id' hid' => hvoted id' (List.mem_cons_of_mem _ hid')

/-- A round in which everybody has voted is finalized exactly when the workers can be paid. -/
theorem finalizeVoting_pays_iff {k : RoundKey} {voting : VotingRound} {assignment : Assignment T}
    (hvoting : s.votingRounds.lookup k = some voting)
    (hassigned : s.assignments.lookup k = some assignment)
    (hregistered : ∀ id ∈ assignment.toList, s.ownerOf id ≠ none)
    (hvoted : ∀ id ∈ assignment.toList, s.votes.contains (k.1, k.2, id) = true) :
    (∃ s', finalizeVoting k.1 k.2 s = .ok () s') ↔
      payRewards T (assignment.toList.filterMap s.ownerOf) s.ledger ≠ none := by
  refine Iff.trans ⟨?_, ?_⟩ (settleDuties_pays_iff (s := { s with
    votingRounds := s.votingRounds.erase k }) hregistered hvoted)
  · rintro ⟨s', hfinal⟩
    obtain ⟨_, assignment', s₁, -, hassigned', hsettle, -⟩ := finalizeVoting_ok hfinal
    cases hassigned'.symm.trans hassigned
    exact ⟨s₁, hsettle⟩
  · rintro ⟨s₁, hsettle⟩
    have hinner : ∃ s', finalizeVotingInner k.1 k.2 s = .ok () s' := by
      unfold finalizeVotingInner
      rw [Tx.read_bind_apply, show s.votingRounds.lookup (k.1, k.2) = some voting from hvoting,
        Tx.okOr_some_bind_apply, Tx.modify_bind_apply,
        show s.assignments.lookup (k.1, k.2) = some assignment from hassigned,
        Tx.okOr_some_bind_apply, Tx.bind_apply_of_ok hsettle]
      exact ⟨_, rfl⟩
    exact hinner.imp fun _ h => Tx.transaction_ok.mpr h

/-! ### A valid vote -/

/-- A valid vote is recorded, and then the round is finalized when it was the last. -/
theorem submitVote_of_valid {origin : Origin AccountId} {workerId : WorkerId}
    {vote : WorkerVoteV1} {signature : Signature} (horigin : origin ≠ .root)
    (hvalid : validateWorkerVote workerId vote signature s = .ok () s) :
    ∃ voting assignment key, VoteChecked T (s.round (vote.workId, vote.round)) workerId vote
        signature voting assignment key ∧
      submitVote origin workerId vote signature s =
        if assignment.toList.length ≤ (countVote T voting vote.verdict).responses then
          finalizeVoting vote.workId vote.round (s.recordVote workerId vote voting)
        else .ok () (s.recordVote workerId vote voting) := by
  obtain ⟨-, voting, assignment, key, hchecked⟩ := validateWorkerVote_ok hvalid
  refine ⟨voting, assignment, key, hchecked, ?_⟩
  have hsender : (ensureSignedOrNone origin : M T Unit) s = .ok () s := by
    cases origin with
    | signed who => rfl
    | root => exact absurd rfl horigin
    | unsigned => rfl
  unfold submitVote
  rw [Tx.bind_apply_of_ok hsender, Tx.bind_apply_of_ok hvalid, Tx.read_bind_apply,
    show s.assignments.lookup (vote.workId, vote.round) = some assignment from
      hchecked.assignment_eq, Tx.okOr_some_bind_apply,
    show s.votingRounds.lookup (vote.workId, vote.round) = some voting from
      hchecked.voting_eq, Tx.okOr_some_bind_apply, Tx.modify_bind_apply]
  unfold depositEvent
  rw [Tx.modify_bind_apply]
  split_ifs <;> rfl

end MiniJam.Workers

namespace MiniJam.Jam

open Workers (RoundKey)

variable {AccountId Ledger : Type} [DecidableEq AccountId] {T : Config AccountId Ledger}
variable {s : State T} {h : Chain.History T}

section
variable {workerId : WorkerId} {vote : WorkerVoteV1} {signature : Signature}
variable {voting : Workers.VotingRound} {assignment : Workers.Assignment T.workers}
variable {key : PublicKey}

/-- A vote completes its round exactly when everybody else has voted. -/
theorem last_vote_iff (hr : Chain.Run T h s)
    (hchecked : Workers.VoteChecked T.workers (s.base.round (vote.workId, vote.round)) workerId
      vote signature voting assignment key) :
    assignment.toList.length ≤ (Workers.countVote T.workers voting vote.verdict).responses ↔
      s.base.OthersVoted (vote.workId, vote.round) workerId := by
  constructor
  · intro hlast assignment' hassigned id hid hne
    cases hassigned.symm.trans hchecked.assignment_eq
    have hvoted := all_voted hr (c := ⟨workerId, vote, signature⟩) hchecked hlast id hid
    rwa [show ((s.base.round (vote.workId, vote.round)).cast workerId vote.verdict
      voting).votes id = s.base.votes.lookup (vote.workId, vote.round, id) from
        if_neg hne] at hvoted
  · intro hothers
    obtain ⟨assignment', htallied⟩ := tallied_of_run hr hchecked.voting_eq
    cases htallied.assigned.symm.trans hchecked.assignment_eq
    have hdistinct := (Workers.clean_of_run (workersRun_of_run hr).choose_spec
      (vote.workId, vote.round)).distinct assignment hchecked.assignment_eq
    -- Among distinct workers only the voter itself is awaited.
    have hawaited : assignment.toList.countP (fun id => decide
        ¬((s.base.round (vote.workId, vote.round)).votes id).isSome = true) ≤ 1 := by
      refine (List.countP_mono_left fun id hid hnone => ?_).trans
        (List.nodup_iff_count_le_one.mp hdistinct workerId)
      rw [beq_iff_eq]
      by_contra hne
      exact of_decide_eq_true hnone (Option.isSome_iff_ne_none.mpr
        (hothers assignment hchecked.assignment_eq id hid hne))
    have hlength := assignment.toList.length_eq_countP_add_countP
      fun id => ((s.base.round (vote.workId, vote.round)).votes id).isSome
    have hbound := assignment.length_le
    have hworkers := T.workers.workersPerWork.toNat_lt
    rw [countVote_responses, htallied.responses]
    unfold satAdd32 u32Max
    omega

/-- The dispatch of a valid vote fails only in the settlement of its round. -/
theorem submitVote_of_valid_iff (hr : Chain.Run T h s) {origin : Origin AccountId}
    (horigin : origin ≠ .root)
    (hvalid : Workers.validateWorkerVote workerId vote signature s.base = .ok () s.base) :
    (∃ base, Workers.submitVote origin workerId vote signature s.base = .ok () base) ↔
      (s.base.OthersVoted (vote.workId, vote.round) workerId →
        s.base.PaysRound (vote.workId, vote.round)) := by
  obtain ⟨voting, assignment, key, hchecked, heq⟩ := Workers.submitVote_of_valid horigin hvalid
  have hpays : s.base.PaysRound (vote.workId, vote.round) ↔
      Workers.payRewards T.workers (assignment.toList.filterMap s.base.ownerOf) s.base.ledger ≠
        none := by
    refine ⟨fun h => h assignment hchecked.assignment_eq, fun h assignment' hassigned => ?_⟩
    cases hassigned.symm.trans hchecked.assignment_eq
    exact h
  rw [heq, ← last_vote_iff hr hchecked, hpays]
  split_ifs with hlast
  · -- With the last vote everybody has voted, so the settlement only pays.
    have hregistered := Workers.registered_of_run (workersRun_of_run hr).choose_spec
    refine (Workers.finalizeVoting_pays_iff (k := (vote.workId, vote.round))
      (s := s.base.recordVote workerId vote voting) (AList.lookup_insert _) hchecked.assignment_eq
      (hregistered.assigned _ assignment hchecked.assignment_eq) fun id hid => ?_).trans
      ⟨fun h _ => h, fun h => h hlast⟩
    have hvoted := all_voted hr (c := ⟨workerId, vote, signature⟩) hchecked hlast id hid
    rw [← Workers.recordVote_cast] at hvoted
    exact Option.isSome_iff_ne_none.mpr hvoted
  · exact iff_of_true ⟨_, rfl⟩ fun h => absurd h hlast

/-- In every state that a run reaches, a vote that the validation accepts is dispatched without
an error and recorded exactly when the reward pool can pay the assigned workers or somebody else
is awaited in its round. -/
theorem valid_vote_recorded_iff (hr : Chain.Run T h s) {origin : Origin AccountId}
    (horigin : origin ≠ .root)
    (hvalid : Workers.validateWorkerVote workerId vote signature s.base = .ok () s.base) :
    (∃ s', Chain.Step T s (.extrinsic origin (.submitVote workerId vote signature), none) s' ∧
      s'.base.votes.lookup (vote.workId, vote.round, workerId) = some vote.verdict) ↔
      (s.base.OthersVoted (vote.workId, vote.round) workerId →
        s.base.PaysRound (vote.workId, vote.round)) := by
  rw [← submitVote_of_valid_iff hr horigin hvalid]
  have hdispatch : ∀ s', Chain.Step T s
      (.extrinsic origin (.submitVote workerId vote signature), none) s' ↔
      ∃ base, Workers.submitVote origin workerId vote signature s.base = .ok () base ∧
        { s with base := base } = s' := by
    intro s'
    show dispatch (inWorkers (Workers.submitVote origin workerId vote signature) : M T Unit) s =
      .ok () s' ↔ _
    exact Tx.transaction_ok.trans Tx.zoom_ok
  constructor
  · rintro ⟨s', hstep, -⟩
    obtain ⟨base, hbase, -⟩ := (hdispatch s').mp hstep
    exact ⟨base, hbase⟩
  · rintro ⟨base, hbase⟩
    refine ⟨{ s with base := base }, (hdispatch _).mpr ⟨base, hbase, rfl⟩, ?_⟩
    obtain ⟨⟨voting', assignment', key', -, hcast⟩, -⟩ := Workers.submitVote_closes hbase
    have hcounted : ((s.base.round (vote.workId, vote.round)).cast workerId vote.verdict
        voting').votes workerId = some vote.verdict := if_pos rfl
    -- Closing the round leaves the votes.
    rcases hcast with ⟨-, _, _, -, -, hclosed⟩ | ⟨-, hopen⟩
    · exact (congrFun (congrArg Workers.RoundView.votes hclosed) workerId).trans hcounted
    · exact (congrFun (congrArg Workers.RoundView.votes hopen) workerId).trans hcounted

end

omit [DecidableEq AccountId] in
/-- A validation that returns writes nothing. -/
theorem validateWorkerVote_of_returned {base : Workers.State T.workers} {workerId : WorkerId}
    {vote : WorkerVoteV1} {signature : Signature}
    (h : (Workers.validateWorkerVote workerId vote signature base).returned.isSome = true) :
    Workers.validateWorkerVote workerId vote signature base = .ok () base := by
  obtain ⟨⟨_, base'⟩, hreturned⟩ := Option.isSome_iff_exists.mp h
  have hok := Outcome.eq_ok_of_returned hreturned
  rwa [(Workers.validateWorkerVote_ok hok).1] at hok

section
open Reference

/-- The runtime configuration with this reward for a timely vote. -/
def paidVotes (reward : Balance) : Config AccountId32 Reference.Ledger :=
  { runtime consumeAll with
    workers := { Runtime.workersConfig (environment consumeAll) with
      timelyVoteReward := reward } }

/-- The vote of the genesis worker for the first work, as it is signed. -/
def firstVote : Signature := sign aliceKey ((supportVote 0 2 1).signingHash crypto)

/-- The only vote of a round, with a reward that the pool has. -/
theorem valid_vote_recorded_iff_paid :
    ∃ h, ∃ s s' : State (paidVotes Runtime.unit), Chain.Run _ h s ∧
      Workers.validateWorkerVote 0 (supportVote 0 2 1) firstVote s.base = .ok () s.base ∧
      s.base.OthersVoted (0, 0) 0 ∧ s.base.PaysRound (0, 0) ∧
      Chain.Step _ s (.extrinsic .unsigned (.submitVote 0 (supportVote 0 2 1) firstVote), none)
        s' ∧ s'.base.votes.lookup (0, 0, 0) = some .support := by
  obtain ⟨h, s, hrun, hvalid, hothers, hpays⟩ := exists_run (paidVotes Runtime.unit)
    ((voteThrough 0 2 1).take 2) (fun s =>
      (Workers.validateWorkerVote 0 (supportVote 0 2 1) firstVote s.base).returned.isSome = true ∧
      s.base.OthersVoted (0, 0) 0 ∧ s.base.PaysRound (0, 0)) (by decide +kernel)
  have hvalid := validateWorkerVote_of_returned hvalid
  have hunsigned : (Origin.unsigned : Origin AccountId32) ≠ .root := nofun
  obtain ⟨s', hstep, hvote⟩ := (valid_vote_recorded_iff hrun hunsigned hvalid).mpr fun _ => hpays
  exact ⟨h, s, s', hrun, hvalid, hothers, hpays, hstep, hvote⟩

/-- A valid vote of the only assigned worker is refused, because the reward pool cannot pay the
reward. -/
theorem valid_last_vote_refused :
    ∃ h, ∃ s : State (paidVotes (10 ^ 30)), Chain.Run _ h s ∧
      Workers.validateWorkerVote 0 (supportVote 0 2 1) firstVote s.base = .ok () s.base ∧
      Chain.Step _ s (.extrinsic .unsigned (.submitVote 0 (supportVote 0 2 1) firstVote),
        some .token) s := by
  obtain ⟨h, s, hrun, hvalid, hrefused⟩ := exists_run (paidVotes (10 ^ 30))
    ((voteThrough 0 2 1).take 2) (fun s =>
      (Workers.validateWorkerVote 0 (supportVote 0 2 1) firstVote s.base).returned.isSome = true ∧
      (Action.run (.extrinsic .unsigned (.submitVote 0 (supportVote 0 2 1) firstVote)) s).error =
        some .token) (by decide +kernel)
  obtain ⟨s', hrefused⟩ := Outcome.eq_err_of_error hrefused
  have hsame : s' = s := Tx.transaction_err hrefused
  rw [hsame] at hrefused
  exact ⟨h, s, hrun, validateWorkerVote_of_returned hvalid, hrefused⟩

end

end MiniJam.Jam
