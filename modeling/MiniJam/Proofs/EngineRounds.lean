import MiniJam.Workers.Engine

/-!
# `MiniJam.Proofs.EngineRounds`: when the outcome of a round is final

`record_vote` takes votes up to the deadline, and `ready_to_finalize` calls the round ready from
the deadline on, both with the block of the deadline included. So in that block a round has an
outcome and can still take votes. A vote that comes then changes who is absent, and it can turn a
rejection into an acceptance (`vote_at_deadline_changes_outcome`). The pallet settles a round only
in a block after its deadline.

That is the only way: an outcome is final exactly when the round takes no more votes
(`outcome_final_iff`). It takes none after the deadline, none when every assigned worker has
voted, and none when its three places are taken.
-/

set_option autoImplicit false

namespace MiniJam.WorkerEngine

/-- The arguments of a call of `record_vote`. -/
structure VoteCall where
  workerId : WorkerId
  verdict : Verdict
  now : BlockNumber

namespace CandidateRound

variable {r : CandidateRound} {n m now : BlockNumber}

/-- The round after a sequence of calls, whatever they return. -/
def recordVotes (r : CandidateRound) (calls : List VoteCall) : CandidateRound :=
  calls.foldl (fun r call => (r.recordVote call.workerId call.verdict call.now).1) r

/-- No vote is taken from block `n` on. -/
def Settled (r : CandidateRound) (n : BlockNumber) : Prop :=
  (∀ deadline, r.voteDeadline = some deadline → deadline < n) ∨
    (∀ worker ∈ r.assigned.toList, r.hasVoted worker = true) ∨ r.votes.toList.length = 3

/-! ### One call -/

/-- A settled round takes no vote. -/
theorem recordVote_of_settled (h : r.Settled n) (hnow : n ≤ now) (workerId : WorkerId)
    (verdict : Verdict) : (r.recordVote workerId verdict now).1 = r := by
  unfold recordVote
  cases hdeadline : r.voteDeadline with
  | none => rfl
  | some deadline =>
    dsimp only
    split_ifs with hclosed hassigned hvoted
    · rfl
    · rfl
    · -- The vote passes all checks, so only a full round is left.
      rcases h with hlate | hall | hfull
      · exact absurd (UInt32.lt_of_lt_of_le (hlate deadline hdeadline) hnow) hclosed
      · exact absurd (hall workerId hassigned) hvoted
      · have hnone : r.votes.tryPush ⟨workerId, verdict, now⟩ = none :=
          BoundedVec.tryPush_eq_none.mpr hfull
        rw [hnone]
    · rfl

/-- Locking the outcome leaves the votes. -/
theorem updateLockedOutcome_votes (r : CandidateRound) : r.updateLockedOutcome.votes = r.votes := by
  unfold updateLockedOutcome
  dsimp only
  split_ifs <;> rfl

theorem updateLockedOutcome_deadline (r : CandidateRound) :
    r.updateLockedOutcome.voteDeadline = r.voteDeadline := by
  unfold updateLockedOutcome
  dsimp only
  split_ifs <;> rfl

variable {deadline : BlockNumber}

/-- A worker that is still missing can vote until the deadline. -/
theorem recordVote_taken (hdeadline : r.voteDeadline = some deadline) (hnow : now ≤ deadline)
    {workerId : WorkerId} (hassigned : workerId ∈ r.assigned.toList)
    (hmissing : r.hasVoted workerId = false) (hroom : r.votes.toList.length ≠ 3)
    (verdict : Verdict) :
    (r.recordVote workerId verdict now).1.hasVoted workerId = true ∧
      (r.recordVote workerId verdict now).1.voteDeadline = some deadline := by
  obtain ⟨votes, hvotes⟩ : ∃ votes, r.votes.tryPush ⟨workerId, verdict, now⟩ = some votes := by
    refine Option.ne_none_iff_exists'.mp fun hnone => ?_
    exact hroom (BoundedVec.tryPush_eq_none.mp hnone)
  have hround : (r.recordVote workerId verdict now).1 =
      { r with votes := votes }.updateLockedOutcome := by
    unfold recordVote
    rw [hdeadline]
    dsimp only
    rw [if_neg (UInt32.not_lt.mpr hnow), if_neg (not_not.mpr hassigned), hmissing, hvotes]
    rfl
  rw [hround, updateLockedOutcome_deadline]
  refine ⟨?_, hdeadline⟩
  unfold hasVoted
  rw [updateLockedOutcome_votes, BoundedVec.tryPush_eq_some.mp hvotes]
  simp

/-! ### Sequences of calls -/

theorem recordVotes_of_settled (h : r.Settled n) {calls : List VoteCall}
    (hcalls : ∀ call ∈ calls, n ≤ call.now) : r.recordVotes calls = r := by
  induction calls with
  | nil => rfl
  | cons call calls ih =>
    obtain ⟨hfirst, hrest⟩ := List.forall_mem_cons.mp hcalls
    show (r.recordVote call.workerId call.verdict call.now).1.recordVotes calls = r
    rw [recordVote_of_settled h hfirst]
    exact ih hrest

/-- A round that is ready stays ready while its votes stay. -/
theorem readyToFinalize_mono (h : r.readyToFinalize n = true) (hle : n ≤ m) :
    r.readyToFinalize m = true := by
  unfold readyToFinalize at h ⊢
  obtain ⟨deadline, hdeadline, hready⟩ := (Option.any_eq_true _ _).mp h
  refine (Option.any_eq_true _ _).mpr ⟨deadline, hdeadline, ?_⟩
  rw [Bool.or_eq_true, decide_eq_true_eq] at hready ⊢
  exact hready.imp_left fun hdue => UInt32.le_trans hdue hle

theorem readyToFinalize_at_deadline (hdeadline : r.voteDeadline = some deadline) :
    r.readyToFinalize deadline = true := by
  unfold readyToFinalize
  rw [hdeadline]
  simp

theorem ready_of_finalOutcome {o : LockedOutcome} (h : r.finalOutcome n = some o) :
    r.readyToFinalize n = true ∧ o = r.lockedOutcome.getD .rejected := by
  unfold finalOutcome at h
  split_ifs at h with hready
  · cases h
    exact ⟨hready, rfl⟩

theorem absentWorkers_of_ready (h : r.readyToFinalize n = true) :
    r.absentWorkers n = r.assigned.toList.filter fun worker => !r.hasVoted worker := by
  unfold absentWorkers
  rw [if_pos h]

/-- Once a round has an outcome, later votes leave the outcome and the absent workers exactly
when no vote is taken any more: the deadline is over, every assigned worker has voted, or the
three places are taken. -/
theorem outcome_final_iff {o : LockedOutcome} (hfinal : r.finalOutcome n = some o) :
    (∀ calls : List VoteCall, (∀ call ∈ calls, n ≤ call.now) → ∀ m, n ≤ m →
      (r.recordVotes calls).finalOutcome m = some o ∧
      (r.recordVotes calls).absentWorkers m = r.absentWorkers n) ↔
    (∀ deadline, r.voteDeadline = some deadline → deadline < n) ∨
      (∀ worker ∈ r.assigned.toList, r.hasVoted worker = true) ∨ r.votes.toList.length = 3 := by
  obtain ⟨hready, rfl⟩ := ready_of_finalOutcome hfinal
  constructor
  · intro hstable
    by_contra hopen
    simp only [not_or, not_forall, Bool.not_eq_true] at hopen
    obtain ⟨⟨deadline, hdeadline, hnow⟩, ⟨worker, hassigned, hmissing⟩, hroom⟩ := hopen
    -- The missing worker votes now. At the deadline it is no longer absent.
    obtain ⟨hvoted, hkept⟩ := recordVote_taken hdeadline (UInt32.not_lt.mp hnow) hassigned
      hmissing hroom .support
    have habsent : (r.recordVote worker .support n).1.absentWorkers deadline = r.absentWorkers n :=
      (hstable [⟨worker, .support, n⟩] (by simp) deadline (UInt32.not_lt.mp hnow)).2
    have hmem : worker ∈ r.absentWorkers n := by
      rw [absentWorkers_of_ready hready]
      simp [hassigned, hmissing]
    rw [← habsent, absentWorkers_of_ready (readyToFinalize_at_deadline hkept), List.mem_filter,
      hvoted] at hmem
    cases hmem.2
  · intro hsettled calls hcalls m hm
    have hreadyLater := readyToFinalize_mono hready hm
    rw [recordVotes_of_settled hsettled hcalls, absentWorkers_of_ready hreadyLater,
      absentWorkers_of_ready hready]
    unfold finalOutcome
    rw [if_pos hreadyLater]
    exact ⟨rfl, rfl⟩

/-! ### A round with three workers -/

/-- A round for three workers with the deadline 11, and a first vote in block 5. -/
def oneVote : CandidateRound :=
  (((new 1 0 ⟨[1, 2, 3], by decide⟩ 100).openCandidate (FixedBytes.fill 32 0) 1 10).1.recordVote 1
    .support 5).1

/-- After the deadline the round is rejected with two absent workers, for good. -/
theorem outcome_final_iff_after_deadline :
    oneVote.finalOutcome 12 = some .rejected ∧
    ∀ calls : List VoteCall, (∀ call ∈ calls, 12 ≤ call.now) → ∀ m, 12 ≤ m →
      (oneVote.recordVotes calls).finalOutcome m = some .rejected ∧
      (oneVote.recordVotes calls).absentWorkers m = oneVote.absentWorkers 12 := by
  have hfinal : oneVote.finalOutcome 12 = some .rejected := by decide
  refine ⟨hfinal, (outcome_final_iff hfinal).mpr (Or.inl ?_)⟩
  intro deadline hdeadline
  cases hdeadline
  decide

/-- In the block of the deadline the round is rejected with two absent workers. The second
worker votes in that block, and then the round is accepted with one absent worker. -/
theorem vote_at_deadline_changes_outcome :
    oneVote.finalOutcome 11 = some .rejected ∧ oneVote.absentWorkers 11 = [2, 3] ∧
    (oneVote.recordVotes [⟨2, .support, 11⟩]).finalOutcome 11 = some .accepted ∧
    (oneVote.recordVotes [⟨2, .support, 11⟩]).absentWorkers 11 = [3] := by decide

end CandidateRound

end MiniJam.WorkerEngine
