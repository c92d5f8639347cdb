import MiniJam.Lib.Ballot
import MiniJam.Proofs.Footprints
import MiniJam.Proofs.WorkerCalls

/-!
# `MiniJam.Proofs.Rounds`: what the workers pallet does to a round

The pallet keeps five items for each round of a work: the assignment, the session keys fixed with
it, the votes, the open voting and the result. `RoundView` collects them. `RoundKept` says that a
round was left alone, and `RoundSettled` that at most its open voting was closed, with the locked
decision as the result.

Every call and hook other than a vote settles rounds at most, with the absent workers in the
result (`Finalizes`). The three functions the minijam pallet calls touch their own round only.
What they do to it, and what a vote does, is inverted here.
-/

set_option autoImplicit false

namespace MiniJam.Workers

variable {AccountId Ledger : Type} {T : Config AccountId Ledger} {s s' : State T} {k : RoundKey}

/-! ### Rounds left alone, and rounds settled -/

/-- What the pallet keeps for one round of a work. -/
@[ext] structure RoundView (T : Config AccountId Ledger) where
  assignment : Option (Assignment T)
  keys : WorkerId → Option PublicKey
  votes : WorkerId → Option Verdict
  voting : Option VotingRound
  result : Option (RoundResult T)

def State.round (s : State T) (k : RoundKey) : RoundView T where
  assignment := s.assignments.lookup k
  keys w := s.assignmentKeys.lookup (k.1, k.2, w)
  votes w := s.votes.lookup (k.1, k.2, w)
  voting := s.votingRounds.lookup k
  result := s.roundResults.lookup k

/-- Duties of different rounds are different. -/
theorem duty_ne {k k' : RoundKey} (h : k' ≠ k) (w w' : WorkerId) :
    ((k'.1, k'.2, w) : DutyKey) ≠ (k.1, k.2, w') := by
  intro heq
  injection heq with h₁ h₂
  injection h₂ with h₂ _
  exact h (Prod.ext h₁ h₂)

/-- The round is as it was. -/
def RoundKept (k : RoundKey) (s s' : State T) : Prop := s'.round k = s.round k

instance (k : RoundKey) : Std.Refl (RoundKept (T := T) k) := ⟨fun _ => rfl⟩

instance (k : RoundKey) : IsTrans (State T) (RoundKept k) where
  trans _ _ _ h₁ h₂ := Eq.trans h₂ h₁

/-- A round is as it was, or its open voting was closed with the locked decision. -/
def Settles (v v' : RoundView T) : Prop :=
  v' = v ∨ ∃ voting result, v.voting = some voting ∧ result.decision = voting.locked ∧
    v' = { v with voting := none, result := some result }

variable {v₁ v₂ v₃ v : RoundView T} {voting : VotingRound}

/-- Settling twice is settling once. -/
theorem Settles.trans (h₁ : Settles v₁ v₂) (h₂ : Settles v₂ v₃) : Settles v₁ v₃ := by
  rcases h₁ with rfl | ⟨voting, result, hvoting, hdecision, rfl⟩
  · exact h₂
  · -- A closed voting is not open, so the second part leaves it.
    rcases h₂ with rfl | ⟨voting', _, hvoting', -⟩
    · exact Or.inr ⟨voting, result, hvoting, hdecision, rfl⟩
    · cases hvoting'

variable {v' : RoundView T} {origin : Origin AccountId} {candidateHash : Hash}
  {deadline : BlockNumber}

/-- Settling leaves the assignment. -/
theorem Settles.assignment_eq (h : Settles v v') : v'.assignment = v.assignment := by
  rcases h with rfl | ⟨voting, result, -, -, rfl⟩
  · rfl
  · rfl

/-- A round without an open voting is as it was. -/
theorem Settles.eq_of_closed (h : Settles v v') (hv : v.voting = none) : v' = v := by
  rcases h with h | ⟨voting, result, hvoting, -, -⟩
  · exact h
  · rw [hv] at hvoting
    cases hvoting

/-- The round is as it was or was settled. -/
def RoundSettled (k : RoundKey) (s s' : State T) : Prop := Settles (s.round k) (s'.round k)

instance (k : RoundKey) : Std.Refl (RoundSettled (T := T) k) := ⟨fun _ => Or.inl rfl⟩

instance (k : RoundKey) : IsTrans (State T) (RoundSettled k) where
  trans _ _ _ h₁ h₂ := Settles.trans h₁ h₂

/-- A change of stakes leaves the rounds. -/
theorem roundKept_of_within (h : stakeItems.Within s s') (k : RoundKey) :
    RoundKept k s s' := h.unchanged (fun s => s.round k) fun _ _ => rfl

/-- A change of stakes settles nothing. -/
theorem settled_of_within (h : stakeItems.Within s s') (k : RoundKey) : RoundSettled k s s' :=
  Or.inl (roundKept_of_within h k)

variable {workId : WorkId} {round : AssignmentRound}

/-! ### Functions outside the rounds -/

/-- A registration writes no round. -/
theorem register_within [DecidableEq AccountId] {sessionKey : PublicKey} {stake : Balance}
    (h : register origin sessionKey stake s = .ok () s') : stakeItems.Within s s' := by
  obtain ⟨_, _, _, -, -, -, -, -, -, rfl⟩ := register_ok h
  rfl

/-- A scheduled update writes no round. -/
theorem scheduleUpdate_within [DecidableEq AccountId] {sessionKey : Option PublicKey}
    {stake : Option Balance} (h : scheduleUpdate origin sessionKey stake s = .ok () s') :
    stakeItems.Within s s' := by
  obtain ⟨_, _, _, _, -, -, -, -, -, -, -, rfl⟩ := scheduleUpdate_ok h
  rfl

/-- A slash writes no round. -/
theorem submitEquivocation_within {workerId : WorkerId} {first second : WorkerVoteV1}
    {firstSignature secondSignature : Signature}
    (h : submitEquivocation origin workerId first firstSignature second secondSignature s =
      .ok () s') : stakeItems.Within s s' := by
  obtain ⟨_, _, _, _, -, -, -, rfl⟩ := submitEquivocation_ok h
  rfl

theorem settleDuties_within {ids : List WorkerId}
    (h : Tx.forEach (settleDuty workId round) ids s = .ok () s') : stakeItems.Within s s' := by
  refine settleDuties_rel (fun id s s' hduty => ?_) h
  obtain ⟨_, -, ⟨-, _, -, rfl⟩ | ⟨-, _, _, -, rfl⟩⟩ := settleDuty_ok hduty
  · rfl
  · rfl

theorem BoundaryWrite.within (h : BoundaryWrite s s') : boundaryItems.Within s s' := by
  cases h with
  | drop => rfl
  | apply => rfl
  | release => rfl
  | snapshot => rfl

theorem BoundaryWrite.stake (h : BoundaryWrite s s') : stakeItems.Within s s' :=
  h.within.mono fun _ _ => rfl

theorem genesisBuild_genesisItems [DecidableEq AccountId]
    (workers : List (AccountId × PublicKey × Balance)) :
    Tx.Rel genesisItems.Within (genesisBuild workers : M T Unit) := by
  refine .bind (.check _) fun _ => .bind (.forEach fun entry _ => ?_) fun _ => .modify fun _ => rfl
  exact .bind (.check _) fun _ => .bind .read fun _ => .bind (.check _) fun _ =>
    .bind (.expect _) fun _ => .modify fun _ => rfl

/-- The genesis starts no round. -/
theorem genesisBuild_within [DecidableEq AccountId]
    (workers : List (AccountId × PublicKey × Balance)) :
    Tx.Rel stakeItems.Within (genesisBuild workers : M T Unit) :=
  (genesisBuild_genesisItems workers).mono fun _ _ h => h.mono fun _ _ => rfl

/-! ### Closing votings -/

/-- The assigned workers of a round that have not voted. -/
def RoundView.absentees (v : RoundView T) (assignment : Assignment T) : Assignment T :=
  BoundedVec.takeFrom (assignment.toList.filter fun id => (v.votes id).isNone)

theorem RoundView.toList_absentees (v : RoundView T) (assignment : Assignment T) :
    (v.absentees assignment).toList = assignment.toList.filter fun id => (v.votes id).isNone :=
  BoundedVec.toList_takeFrom (Nat.le_trans (List.length_filter_le _ _) assignment.length_le)

/-- The voting of a round is closed with the decision it has locked and the absentees. -/
def Finalizes (v v' : RoundView T) : Prop :=
  ∃ voting assignment, v.voting = some voting ∧ v.assignment = some assignment ∧
    v' = { v with voting := none, result := some ⟨voting.locked, v.absentees assignment⟩ }

theorem finalizeVoting_finalizes (h : finalizeVoting k.1 k.2 s = .ok () s') :
    Finalizes (s.round k) (s'.round k) ∧ ∀ k', k' ≠ k → s'.round k' = s.round k' := by
  obtain ⟨voting, assignment, s₁, hvoting, hassigned, hsettle, rfl⟩ := finalizeVoting_ok h
  have hloop := settleDuties_within hsettle
  -- The loop over the assigned workers touches no round.
  have hkept : ∀ k', s₁.round k' =
      State.round { s with votingRounds := s.votingRounds.erase k } k' :=
    fun k' => roundKept_of_within hloop k'
  constructor
  · obtain ⟨hassignment, hkeys, hvotes, hvotings, -⟩ := RoundView.ext_iff.mp (hkept k)
    refine ⟨voting, assignment, hvoting, hassigned, RoundView.ext hassignment hkeys hvotes
      (hvotings.trans (AList.lookup_erase _ _)) ((AList.lookup_insert _).trans ?_)⟩
    have hvoted : ∀ id, s₁.votes.lookup (k.1, k.2, id) = s.votes.lookup (k.1, k.2, id) :=
      congrFun hvotes
    simp only [RoundView.absentees, State.round, StorageMap.contains, hvoted,
      Option.not_isSome]
  · intro k' hk
    obtain ⟨hassignment, hkeys, hvotes, hvotings, hresults⟩ := RoundView.ext_iff.mp (hkept k')
    exact RoundView.ext hassignment hkeys hvotes (hvotings.trans (AList.lookup_erase_ne hk))
      ((AList.lookup_insert_ne hk).trans hresults)

theorem Finalizes.settles (h : Finalizes v v') : Settles v v' := by
  obtain ⟨voting, assignment, hvoting, -, rfl⟩ := h
  exact Or.inr ⟨voting, _, hvoting, rfl, rfl⟩

theorem finalizeVoting_settled (workId : WorkId) (round : AssignmentRound) (k : RoundKey) :
    Tx.Rel (RoundSettled k) (finalizeVoting workId round : M T Unit) := by
  refine .transaction_of_ok fun s _ s' h => ?_
  obtain ⟨hfinalizes, hothers⟩ :=
    finalizeVoting_finalizes (k := (workId, round)) (Tx.transaction_ok.mpr h)
  by_cases hk : k = (workId, round)
  · exact hk ▸ hfinalizes.settles
  · exact Or.inl (hothers k hk)

/-- The block hook settles rounds at most. -/
theorem onInitialize_settled (block : BlockNumber) (k : RoundKey) :
    Tx.Rel (RoundSettled k) (onInitialize block : M T Unit) :=
  onInitialize_rel (fun workId round => finalizeVoting_settled workId round k)
    (fun _ _ h => settled_of_within h.stake k) block

/-! ### Clearing an assignment -/

/-- A round without its assignment. Its keys and votes are forgotten with it. -/
def Clears (v v' : RoundView T) : Prop :=
  ∃ keys votes, v' = { v with assignment := none, keys := keys, votes := votes }

theorem Clears.trans (h₁ : Clears v₁ v₂) (h₂ : Clears v₂ v₃) : Clears v₁ v₃ := by
  obtain ⟨_, _, rfl⟩ := h₁
  obtain ⟨keys, votes, rfl⟩ := h₂
  exact ⟨keys, votes, rfl⟩

theorem clearAssignment_ok (h : clearAssignment workId round s = .ok () s') :
    Clears (s.round (workId, round)) (s'.round (workId, round)) ∧
      ∀ k, k ≠ (workId, round) → RoundKept k s s' := by
  obtain ⟨keys, votes, rfl, hkeys, hvotes⟩ := clearAssignment_writes h
  refine ⟨⟨_, _, RoundView.ext (AList.lookup_erase _ _) rfl rfl rfl rfl⟩, fun k hk => ?_⟩
  exact RoundView.ext (AList.lookup_erase_ne hk) (funext fun _ => hkeys.others _ hk)
    (funext fun _ => hvotes.others _ hk) rfl rfl

/-- Clearing a round leaves every other round. -/
theorem clearAssignment_kept (hk : k ≠ (workId, round)) :
    Tx.Rel (RoundKept k) (clearAssignment workId round : M T Unit) :=
  .intro (fun _ _ _ h => (clearAssignment_ok h).2 k hk) fun _ _ _ h => by cases h

/-! ### Assigning workers -/

/-- Assigning a round leaves every other round. -/
theorem assignWork_kept (hk : k ≠ (workId, round)) :
    Tx.Rel (RoundKept k) (assignWork workId round : M T (Assignment T)) := by
  refine assignWork_rel fun s assignment s' h => ?_
  rcases assignWork_cases h with ⟨-, rfl⟩ | ⟨-, -, -, -, s₁, hduties, rfl⟩
  · exact rfl
  · obtain ⟨counts, keys, rfl, -, hothers⟩ := assignDuties_writes hduties
    refine RoundView.ext (AList.lookup_insert_ne hk) (funext fun w => ?_) rfl rfl rfl
    refine (hothers (k.1, k.2, w)).resolve_right ?_
    rintro ⟨id, -, heq⟩
    exact duty_ne (k := (workId, round)) hk w id heq

/-- An assignment returns the worker set the round has, or it assigns one and fixes keys for
it. -/
theorem assignWork_ok {assignment : Assignment T}
    (h : assignWork workId round s = .ok assignment s') :
    (s.round (workId, round)).assignment = some assignment ∧ s' = s ∨
      (s.round (workId, round)).assignment = none ∧ ∃ keys, s'.round (workId, round) =
        { s.round (workId, round) with assignment := some assignment, keys := keys } := by
  rcases assignWork_cases h with hexisting | ⟨hfree, -, -, -, s₁, hduties, rfl⟩
  · exact Or.inl hexisting
  · obtain ⟨counts, keys, rfl, -, -⟩ := assignDuties_writes hduties
    exact Or.inr ⟨hfree, _, RoundView.ext (AList.lookup_insert _) rfl rfl rfl rfl⟩

/-! ### Opening a voting -/

theorem openVoting_kept (hk : k ≠ (workId, round))
    (h : openVoting workId round candidateHash deadline s = .ok () s') : RoundKept k s s' := by
  obtain ⟨rounds, epoch, -, -, -, rfl⟩ := openVoting_writes h
  exact RoundView.ext rfl rfl rfl (AList.lookup_insert_ne hk) rfl

/-- A voting is opened, without votes, in a round that has neither a voting nor a result. -/
theorem openVoting_ok (h : openVoting workId round candidateHash deadline s = .ok () s') :
    (s.round (workId, round)).voting = none ∧ (s.round (workId, round)).result = none ∧
      ∃ epoch, s'.round (workId, round) = { s.round (workId, round) with
        voting := some ⟨epoch, candidateHash, deadline, 0, 0, 0, none⟩ } := by
  obtain ⟨rounds, epoch, hclosed, hnew, -, rfl⟩ := openVoting_writes h
  exact ⟨hclosed, hnew, epoch, RoundView.ext rfl rfl rfl (AList.lookup_insert _) rfl⟩

/-! ### Functions that write about duties only -/

theorem openVoting_rounds (h : openVoting workId round candidateHash deadline s = .ok () s') :
    roundItems.Within s s' := by
  obtain ⟨_, _, -, -, -, rfl⟩ := openVoting_writes h
  rfl

theorem clearAssignment_rounds (h : clearAssignment workId round s = .ok () s') :
    roundItems.Within s s' := by
  obtain ⟨_, _, rfl, -, -⟩ := clearAssignment_writes h
  rfl

/-- What is written about rounds is about duties. -/
theorem duties_of_rounds (h : roundItems.Within s s') : dutyItems.Within s s' :=
  h.mono fun _ _ => rfl

theorem assignWork_duties (workId : WorkId) (round : AssignmentRound) :
    Tx.Rel dutyItems.Within (assignWork workId round : M T (Assignment T)) := by
  refine assignWork_rel fun s assignment s' h => ?_
  rcases assignWork_cases h with ⟨-, rfl⟩ | ⟨-, -, -, -, s₁, hduties, rfl⟩
  · rfl
  · obtain ⟨_, _, rfl, -, -⟩ := assignDuties_writes hduties
    rfl

/-! ### Voting -/

/-- What was checked of a vote that is accepted in a round. -/
structure VoteChecked (T : Config AccountId Ledger) (v : RoundView T) (workerId : WorkerId)
    (vote : WorkerVoteV1) (signature : Signature) (voting : VotingRound)
    (assignment : Assignment T) (key : PublicKey) : Prop where
  voting_eq : v.voting = some voting
  assignment_eq : v.assignment = some assignment
  key_eq : v.keys workerId = some key
  first : v.votes workerId = none
  member : workerId ∈ assignment.toList
  candidateHash : vote.candidateReportHash = voting.candidateHash
  verified : T.crypto.sr25519Verify signature (vote.signingHash T.crypto) key = true

section
variable {origin : Origin AccountId} {workerId : WorkerId} {vote : WorkerVoteV1}
  {signature : Signature}

theorem validateWorkerVote_ok (h : validateWorkerVote workerId vote signature s = .ok () s') :
    s' = s ∧ ∃ voting assignment key, VoteChecked T (s.round (vote.workId, vote.round)) workerId
      vote signature voting assignment key := by
  unfold validateWorkerVote at h
  rw [Tx.read_bind_apply] at h
  obtain ⟨voting, hvoting, h⟩ := Tx.okOr_bind_ok.mp h
  obtain ⟨assignment, hassignment, h⟩ := Tx.okOr_bind_ok.mp h
  obtain ⟨hmember, h⟩ := Tx.ensure_bind_ok.mp h
  obtain ⟨hfirst, h⟩ := Tx.ensure_bind_ok.mp h
  obtain ⟨-, h⟩ := Tx.ensure_bind_ok.mp h
  obtain ⟨hmatch, h⟩ := Tx.ensure_bind_ok.mp h
  obtain ⟨key, hkey, h⟩ := Tx.okOr_bind_ok.mp h
  obtain ⟨hverified, hs⟩ := Tx.ensure_ok.mp h
  rw [Bool.not_eq_true', StorageMap.contains, Option.isSome_eq_false_iff,
    Option.isNone_iff_eq_none] at hfirst
  exact ⟨hs.symm, voting, assignment, key, hvoting, hassignment, hkey, hfirst, hmember,
    hmatch.2.1, hverified⟩

/-- The storage with one more vote recorded. -/
def State.recordVote (s : State T) (workerId : WorkerId) (vote : WorkerVoteV1)
    (voting : VotingRound) : State T :=
  { s with
    votes := s.votes.insert (vote.workId, vote.round, workerId) vote.verdict
    votingRounds := s.votingRounds.insert (vote.workId, vote.round)
      (countVote T voting vote.verdict)
    events := s.events ++ [.voteSubmitted vote.workId vote.round workerId] }

/-- An accepted vote is checked and recorded. The round is finalized when it was the last. -/
theorem submitVote_recorded
    (h : submitVote origin workerId vote signature s = .ok () s') :
    ∃ voting assignment key, VoteChecked T (s.round (vote.workId, vote.round)) workerId vote
        signature voting assignment key ∧
      (assignment.toList.length ≤ (countVote T voting vote.verdict).responses ∧
          finalizeVoting vote.workId vote.round (s.recordVote workerId vote voting) = .ok () s' ∨
        (countVote T voting vote.verdict).responses < assignment.toList.length ∧
          s' = s.recordVote workerId vote voting) := by
  unfold submitVote at h
  obtain ⟨_, s₀, horigin, h₁⟩ := Tx.bind_ok.mp h
  have hs₀ : s₀ = s := by
    cases origin with
    | signed who => cases horigin; rfl
    | root => cases horigin
    | unsigned => cases horigin; rfl
  rw [hs₀] at h₁
  obtain ⟨_, s₁, hvalid, h₂⟩ := Tx.bind_ok.mp h₁
  obtain ⟨hs₁, voting, assignment, key, hchecked⟩ := validateWorkerVote_ok hvalid
  rw [hs₁, Tx.read_bind_apply] at h₂
  -- The reads after the check find what the check found.
  obtain ⟨assignment', hassignment', h₃⟩ := Tx.okOr_bind_ok.mp h₂
  cases hassignment'.symm.trans hchecked.assignment_eq
  obtain ⟨voting', hvoting', h₄⟩ := Tx.okOr_bind_ok.mp h₃
  cases hvoting'.symm.trans hchecked.voting_eq
  refine ⟨voting, assignment, key, hchecked, ?_⟩
  rw [Tx.modify_bind_apply] at h₄
  obtain ⟨_, s₂, hevent, h₅⟩ := Tx.bind_ok.mp h₄
  cases hevent
  split_ifs at h₅ with hlast
  · exact Or.inl ⟨hlast, h₅⟩
  · cases h₅
    exact Or.inr ⟨Nat.not_le.mp hlast, rfl⟩

/-- A round after one more vote. -/
def RoundView.cast (v : RoundView T) (workerId : WorkerId) (verdict : Verdict)
    (voting : VotingRound) : RoundView T :=
  { v with
    votes := fun w => if w = workerId then some verdict else v.votes w
    voting := some (countVote T voting verdict) }

theorem recordVote_cast (s : State T) (workerId : WorkerId) (vote : WorkerVoteV1)
    (voting : VotingRound) :
    (s.recordVote workerId vote voting).round (vote.workId, vote.round) =
      (s.round (vote.workId, vote.round)).cast workerId vote.verdict voting := by
  refine RoundView.ext rfl rfl (funext fun w => ?_) (AList.lookup_insert _) rfl
  simp only [State.round, State.recordVote, RoundView.cast, StorageMap.lookup_insert_eq,
    Prod.mk.injEq, true_and]

theorem recordVote_kept (hk : k ≠ (vote.workId, vote.round))
    (workerId : WorkerId) (voting : VotingRound) :
    RoundKept k s (s.recordVote workerId vote voting) :=
  RoundView.ext rfl rfl (funext fun _ => AList.lookup_insert_ne (duty_ne hk _ _))
    (AList.lookup_insert_ne hk) rfl

/-- An accepted vote is counted. It closes the round exactly when the responses have reached the
number of the assigned workers. -/
theorem submitVote_closes (h : submitVote origin workerId vote signature s = .ok () s') :
    (∃ voting assignment key, VoteChecked T (s.round (vote.workId, vote.round)) workerId vote
        signature voting assignment key ∧
      (assignment.toList.length ≤ (countVote T voting vote.verdict).responses ∧
          Finalizes ((s.round (vote.workId, vote.round)).cast workerId vote.verdict voting)
            (s'.round (vote.workId, vote.round)) ∨
        (countVote T voting vote.verdict).responses < assignment.toList.length ∧
          s'.round (vote.workId, vote.round) =
            (s.round (vote.workId, vote.round)).cast workerId vote.verdict voting)) ∧
    ∀ k, k ≠ (vote.workId, vote.round) → s'.round k = s.round k := by
  obtain ⟨voting, assignment, key, hchecked, hlast⟩ := submitVote_recorded h
  constructor
  · refine ⟨voting, assignment, key, hchecked, ?_⟩
    rw [← recordVote_cast]
    rcases hlast with ⟨hall, hfinal⟩ | ⟨hmissing, rfl⟩
    · exact Or.inl ⟨hall, (finalizeVoting_finalizes hfinal).1⟩
    · exact Or.inr ⟨hmissing, rfl⟩
  · intro k hk
    have hrecorded : (s.recordVote workerId vote voting).round k = s.round k :=
      recordVote_kept hk workerId voting
    rcases hlast with ⟨-, hfinal⟩ | ⟨-, rfl⟩
    · exact ((finalizeVoting_finalizes hfinal).2 k hk).trans hrecorded
    · exact hrecorded

/-- An accepted vote is checked, counted and recorded. The round may then be settled with
it, and other rounds are left alone. -/
theorem submitVote_ok (h : submitVote origin workerId vote signature s = .ok () s') :
    (∃ voting assignment key, VoteChecked T (s.round (vote.workId, vote.round)) workerId vote
        signature voting assignment key ∧
      Settles ((s.round (vote.workId, vote.round)).cast workerId vote.verdict voting)
        (s'.round (vote.workId, vote.round))) ∧
    ∀ k, k ≠ (vote.workId, vote.round) → RoundSettled k s s' := by
  obtain ⟨⟨voting, assignment, key, hchecked, hlast⟩, hothers⟩ := submitVote_closes h
  refine ⟨⟨voting, assignment, key, hchecked, ?_⟩, fun k hk => Or.inl (hothers k hk)⟩
  rcases hlast with ⟨-, hfinal⟩ | ⟨-, hcast⟩
  · exact hfinal.settles
  · exact Or.inl hcast

/-- What holds of a recorded vote and of a finalization holds of a vote that is accepted. -/
theorem submitVote_rel {R : State T → State T → Prop} [IsTrans (State T) R]
    (hrecord : ∀ voting, (s.round (vote.workId, vote.round)).voting = some voting →
      R s (s.recordVote workerId vote voting))
    (hfinal : Tx.Rel R (finalizeVoting vote.workId vote.round : M T Unit))
    (h : submitVote origin workerId vote signature s = .ok () s') : R s s' := by
  obtain ⟨voting, assignment, key, hchecked, ⟨-, hlast⟩ | ⟨-, rfl⟩⟩ := submitVote_recorded h
  · exact IsTrans.trans _ _ _ (hrecord voting hchecked.voting_eq) (hfinal.of_ok hlast)
  · exact hrecord voting hchecked.voting_eq

end

/-! ### Counting the votes of a round -/

/-- The decision of a ballot as the pallet records it. -/
def decisionOf : Bool → RoundDecision
  | true => .accepted
  | false => .rejected

/-- The counters and the lock of a voting are those of a ballot with these votes. -/
structure Counts (T : Config AccountId Ledger) (votes : List Bool) (voting : VotingRound) :
    Prop where
  support : voting.support = min (votes.count true) u32Max
  oppose : voting.oppose = min (votes.count false) u32Max
  locked : voting.locked = (Ballot.locked T.supportThreshold.toNat T.opposeThreshold.toNat
    votes).map decisionOf

theorem counts_nil (hsupport : voting.support = 0) (hoppose : voting.oppose = 0)
    (hlocked : voting.locked = none) : Counts T [] voting :=
  ⟨hsupport, hoppose, hlocked⟩

/-- A saturated counter reaches a threshold exactly when the count does. -/
theorem threshold_le_min (threshold : UInt32) (n : Nat) :
    threshold.toNat ≤ min n u32Max ↔ threshold.toNat ≤ n := by
  have : threshold.toNat < 2 ^ 32 := threshold.toNat_lt
  unfold u32Max
  omega

theorem countVote_candidateHash (voting : VotingRound) (verdict : Verdict) :
    (countVote T voting verdict).candidateHash = voting.candidateHash := by
  unfold countVote
  cases verdict with
  | support =>
    dsimp only
    split_ifs <;> rfl
  | oppose reason =>
    dsimp only
    split_ifs <;> rfl

theorem countVote_counts {votes : List Bool} (h : Counts T votes voting) (verdict : Verdict) :
    Counts T (verdict.isSupport :: votes) (countVote T voting verdict) := by
  obtain ⟨hsupport, hoppose, hlocked⟩ := h
  -- The counters after the vote, before the lock is looked at.
  obtain ⟨counted, hcounted, hs, ho, hl⟩ : ∃ counted : VotingRound,
      countVote T voting verdict = (if counted.locked = none then
        if T.supportThreshold.toNat ≤ counted.support then
          { counted with locked := some .accepted }
        else if T.opposeThreshold.toNat ≤ counted.oppose then
          { counted with locked := some .rejected }
        else counted
      else counted) ∧
      counted.support = min ((verdict.isSupport :: votes).count true) u32Max ∧
      counted.oppose = min ((verdict.isSupport :: votes).count false) u32Max ∧
      counted.locked = voting.locked := by
    cases verdict with
    | support =>
      refine ⟨_, rfl, ?_, ?_, rfl⟩
      · simp only [satAdd32, hsupport, Verdict.isSupport, List.count_cons_self]
        omega
      · simp only [hoppose, Verdict.isSupport, List.count_cons_of_ne, ne_eq, reduceCtorEq,
          not_false_eq_true]
    | oppose reason =>
      refine ⟨_, rfl, ?_, ?_, rfl⟩
      · simp only [hsupport, Verdict.isSupport, List.count_cons_of_ne, ne_eq, reduceCtorEq,
          not_false_eq_true]
      · simp only [satAdd32, hoppose, Verdict.isSupport, List.count_cons_self]
        omega
  have hstep := Ballot.locked.eq_2 T.supportThreshold.toNat T.opposeThreshold.toNat
    verdict.isSupport votes
  cases hdecided : Ballot.locked T.supportThreshold.toNat T.opposeThreshold.toNat votes with
  | some decision =>
    rw [hdecided] at hstep hlocked
    have hlock : counted.locked = some (decisionOf decision) := hl.trans hlocked
    rw [hcounted, if_neg (by simp [hlock])]
    exact ⟨hs, ho, by rw [hstep, hlock]; rfl⟩
  | none =>
    rw [hdecided] at hstep hlocked
    have hlock : counted.locked = none := hl.trans hlocked
    rw [hcounted, if_pos hlock]
    have hreached := threshold_le_min T.supportThreshold
      ((verdict.isSupport :: votes).count true)
    have hopposed := threshold_le_min T.opposeThreshold
      ((verdict.isSupport :: votes).count false)
    rw [← hs] at hreached
    rw [← ho] at hopposed
    by_cases hsup : T.supportThreshold.toNat ≤ counted.support
    · rw [if_pos hsup]
      rw [if_pos (hreached.mp hsup)] at hstep
      exact ⟨hs, ho, by rw [hstep]; rfl⟩
    · rw [if_neg hsup]
      rw [if_neg fun h => hsup (hreached.mpr h)] at hstep
      by_cases hopp : T.opposeThreshold.toNat ≤ counted.oppose
      · rw [if_pos hopp]
        rw [if_pos (hopposed.mp hopp)] at hstep
        exact ⟨hs, ho, by rw [hstep]; rfl⟩
      · rw [if_neg hopp]
        rw [if_neg fun h => hopp (hopposed.mpr h)] at hstep
        exact ⟨hs, ho, by rw [hstep, hlock]; rfl⟩

end MiniJam.Workers
