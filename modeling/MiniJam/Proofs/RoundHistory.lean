import MiniJam.Proofs.WorkSteps

/-!
# `MiniJam.Proofs.RoundHistory`: what has happened in the rounds of a work

Votes and keys are deleted when a work is accepted, so the storage does not show why it was
accepted. The history does. `RoundState` says, for every status of a work, what the storage
keeps about its round and what has happened in it so far: who was assigned in which step, and
which votes were accepted since. Each step of the life of a work and each vote keeps it, and
`workLived_of_run` proves it for all works in all runs.
-/

set_option autoImplicit false

namespace MiniJam.Jam

open Workers (RoundView RoundKey Settles Clears VoteChecked Counts decisionOf)

variable {AccountId Ledger : Type} {T : Config AccountId Ledger} {s s' : State T}
  {l : Chain.Label T} {k : RoundKey}
variable {h : Chain.History T}

/-! ### What the history says about a round -/

/-- The votes accepted in a round, the latest first. -/
def acceptedVotes (k : RoundKey) (h : Chain.History T) :
    List CastVote :=
  h.filterMap fun t => (castVote t.label).filter fun c => decide ((c.vote.workId, c.vote.round) = k)

/-- The step assigned this worker set to the round. -/
structure Assigns (t : Chain.TakenStep T) (k : RoundKey)
    (assignment : Workers.Assignment T.workers) : Prop where
  pre : t.pre.base.assignments.lookup k = none
  post : t.post.base.assignments.lookup k = some assignment

/-- The round was assigned in the step `t₀` and in no other. -/
structure AssignedOnce (h : Chain.History T) (k : RoundKey)
    (t₀ : Chain.TakenStep T) (assignment : Workers.Assignment T.workers) :
    Prop where
  mem : t₀ ∈ h
  assigns : Assigns t₀ k assignment
  unique : ∀ t ∈ h, ∀ a, Assigns t k a → t = t₀

/-- A vote of an assigned worker for the stored report, signed with the key that was fixed
when the round was assigned in `t₀`. -/
structure VoteValid (t₀ : Chain.TakenStep T) (k : RoundKey)
    (assignment : Workers.Assignment T.workers) (candidate : CandidateRecord AccountId)
    (c : CastVote) : Prop where
  member : c.workerId ∈ assignment.toList
  reportHash : c.vote.candidateReportHash = candidate.envelope.canonicalReportHash
  verified : ∃ key, t₀.post.base.assignmentKeys.lookup (k.1, k.2, c.workerId) = some key ∧
    T.workers.crypto.sr25519Verify c.signature (c.vote.signingHash T.workers.crypto) key = true

/-- The ballot of a round: its votes as verdicts. -/
def ballot (k : RoundKey) (h : Chain.History T) : List Bool :=
  (acceptedVotes k h).map fun c => c.vote.verdict.isSupport

/-- A round with a report: when it was assigned, and what its votes are. -/
structure VotesValid (h : Chain.History T) (k : RoundKey)
    (t₀ : Chain.TakenStep T) (assignment : Workers.Assignment T.workers)
    (candidate : CandidateRecord AccountId) : Prop where
  once : AssignedOnce h k t₀ assignment
  hash : candidate.envelope.computedReportHash T.workers.crypto =
    candidate.envelope.canonicalReportHash
  valid : ∀ c ∈ acceptedVotes k h, VoteValid t₀ k assignment candidate c
  distinct : ((acceptedVotes k h).map CastVote.workerId).Nodup

/-- A round that has not begun. -/
structure RoundFresh (h : Chain.History T) (k : RoundKey)
    (round : RoundView T.workers) (stored : Option (CandidateRecord AccountId)) : Prop where
  assignment : round.assignment = none
  voting : round.voting = none
  result : round.result = none
  candidate : stored = none
  votes : acceptedVotes k h = []
  unassigned : ∀ t ∈ h, ∀ a, ¬ Assigns t k a

/-- The round of a work in each of its statuses. -/
inductive RoundState (h : Chain.History T) (k : RoundKey)
    (round : RoundView T.workers) (stored : Option (CandidateRecord AccountId)) :
    WorkStatus → Prop where
  | fresh (hfresh : RoundFresh h k round stored) :
      RoundState h k round stored .insufficientWorkers
  | awaiting {t₀ : Chain.TakenStep T}
      {assignment : Workers.Assignment T.workers} (honce : AssignedOnce h k t₀ assignment)
      (hassigned : round.assignment = some assignment)
      (hkeys : round.keys = (t₀.post.base.round k).keys) (hvoting : round.voting = none)
      (hresult : round.result = none) (hstored : stored = none)
      (hvotes : acceptedVotes k h = []) : RoundState h k round stored .awaitingCandidate
  | opened {t₀ : Chain.TakenStep T}
      {assignment : Workers.Assignment T.workers} {candidate : CandidateRecord AccountId}
      {voting : Workers.VotingRound} (hvalid : VotesValid h k t₀ assignment candidate)
      (hstored : stored = some candidate) (hassigned : round.assignment = some assignment)
      (hkeys : round.keys = (t₀.post.base.round k).keys) (hvoting : round.voting = some voting)
      (hhash : voting.candidateHash = candidate.envelope.canonicalReportHash)
      (hcounts : Counts T.workers (ballot k h) voting)
      (hrecorded : ∀ c ∈ acceptedVotes k h, round.votes c.workerId ≠ none)
      (hresult : round.result = none) : RoundState h k round stored .voting
  | closed {t₀ : Chain.TakenStep T}
      {assignment : Workers.Assignment T.workers} {candidate : CandidateRecord AccountId}
      {result : Workers.RoundResult T.workers} (hvalid : VotesValid h k t₀ assignment candidate)
      (hstored : stored = some candidate) (hvoting : round.voting = none)
      (hresult : round.result = some result)
      (hdecision : result.decision = (Ballot.locked T.workers.supportThreshold.toNat
        T.workers.opposeThreshold.toNat (ballot k h)).map decisionOf) :
      RoundState h k round stored .voting
  | accepted {t₀ : Chain.TakenStep T}
      {assignment : Workers.Assignment T.workers} {candidate : CandidateRecord AccountId}
      {status : WorkStatus} (hstatus : status = .accepted ∨ status = .imported)
      (hvalid : VotesValid h k t₀ assignment candidate) (hstored : stored = some candidate)
      (hvoting : round.voting = none)
      (hlocked : Ballot.locked T.workers.supportThreshold.toNat
        T.workers.opposeThreshold.toNat (ballot k h) = some true) :
      RoundState h k round stored status
  | failed : RoundState h k round stored .failed

/-- The rounds of a work: the current one is as its status says, and later ones have not
begun. A work that does not exist has begun no round. -/
def WorkLived (h : Chain.History T) (id : WorkId)
    (v : WorkView T) : Prop :=
  match v.work with
  | none => ∀ r, RoundFresh h (id, r) (v.rounds r) (v.candidates r)
  | some work =>
    RoundState h (id, work.round) (v.rounds work.round) (v.candidates work.round) work.status ∧
      ∀ r, work.round < r → RoundFresh h (id, r) (v.rounds r) (v.candidates r)

/-! ### One more step -/

theorem acceptedVotes_quiet (hl : ∀ c, castVote l = some c → (c.vote.workId, c.vote.round) ≠ k) :
    acceptedVotes k (⟨s, l, s'⟩ :: h) = acceptedVotes k h := by
  unfold acceptedVotes
  rw [List.filterMap_cons_none]
  cases hc : castVote l with
  | none => rfl
  | some c =>
    refine Option.filter_eq_none_iff.mpr fun c' hc' => ?_
    cases hc'
    simpa using hl c hc

variable {c : CastVote} {status : WorkStatus} {work : WorkRecord AccountId}

theorem acceptedVotes_vote (hl : castVote l = some c) (hk : (c.vote.workId, c.vote.round) = k) :
    acceptedVotes k (⟨s, l, s'⟩ :: h) = c :: acceptedVotes k h := by
  unfold acceptedVotes
  rw [List.filterMap_cons_some]
  rw [hl]
  exact Option.filter_eq_some_iff.mpr ⟨rfl, by simpa using hk⟩

variable {t₀ : Chain.TakenStep T} {assignment : Workers.Assignment T.workers}
  {candidate : CandidateRecord AccountId} {stored : Option (CandidateRecord AccountId)}
  {id : WorkId}

theorem AssignedOnce.cons (ho : AssignedOnce h k t₀ assignment)
    (hnot : ∀ a, ¬ Assigns ⟨s, l, s'⟩ k a) : AssignedOnce (⟨s, l, s'⟩ :: h) k t₀ assignment where
  mem := List.mem_cons_of_mem _ ho.mem
  assigns := ho.assigns
  unique t ht a ha := by
    rcases List.mem_cons.mp ht with rfl | ht
    · exact absurd ha (hnot a)
    · exact ho.unique t ht a ha

/-- A step that leaves the assignment assigns nothing. -/
theorem not_assigns_of_eq (heq : (s'.base.round k).assignment = (s.base.round k).assignment)
    (a : Workers.Assignment T.workers) : ¬ Assigns ⟨s, l, s'⟩ k a := fun ha => by
  have hpost : (s'.base.round k).assignment = some a := ha.post
  rw [heq, show (s.base.round k).assignment = none from ha.pre] at hpost
  cases hpost

theorem not_assigns_of_some (hsome : (s.base.round k).assignment = some assignment)
    (a : Workers.Assignment T.workers) : ¬ Assigns ⟨s, l, s'⟩ k a := fun ha => by
  rw [show (s.base.round k).assignment = none from ha.pre] at hsome
  cases hsome

theorem not_assigns_of_none (hnone : (s'.base.round k).assignment = none)
    (a : Workers.Assignment T.workers) : ¬ Assigns ⟨s, l, s'⟩ k a := fun ha => by
  rw [show (s'.base.round k).assignment = some a from ha.post] at hnone
  cases hnone

theorem VotesValid.cons (hv : VotesValid h k t₀ assignment candidate)
    (hnot : ∀ a, ¬ Assigns ⟨s, l, s'⟩ k a)
    (hvotes : acceptedVotes k (⟨s, l, s'⟩ :: h) = acceptedVotes k h) :
    VotesValid (⟨s, l, s'⟩ :: h) k t₀ assignment candidate where
  once := hv.once.cons hnot
  hash := hv.hash
  valid := by rw [hvotes]; exact hv.valid
  distinct := by rw [hvotes]; exact hv.distinct

variable {round : RoundView T.workers} {v : WorkView T} {voting : Workers.VotingRound}

theorem RoundFresh.cons {stored' : Option (CandidateRecord AccountId)}
    (hf : RoundFresh h k round stored) (hpost : s'.base.round k = round)
    (hstored : stored' = stored) (hvotes : acceptedVotes k (⟨s, l, s'⟩ :: h) = acceptedVotes k h) :
    RoundFresh (⟨s, l, s'⟩ :: h) k (s'.base.round k) stored' where
  assignment := hpost ▸ hf.assignment
  voting := hpost ▸ hf.voting
  result := hpost ▸ hf.result
  candidate := hstored ▸ hf.candidate
  votes := hvotes.trans hf.votes
  unassigned t ht a ha := by
    rcases List.mem_cons.mp ht with rfl | ht
    · have hsome : (s'.base.round k).assignment = some a := ha.post
      rw [hpost, hf.assignment] at hsome
      cases hsome
    · exact hf.unassigned t ht a ha

/-- A step that neither assigns the round nor votes in it is one more step of its history. -/
theorem RoundState.cons (hs : RoundState h k (s.base.round k) stored status)
    (hassignment : (s'.base.round k).assignment = (s.base.round k).assignment)
    (hvotes : acceptedVotes k (⟨s, l, s'⟩ :: h) = acceptedVotes k h) :
    RoundState (⟨s, l, s'⟩ :: h) k (s.base.round k) stored status := by
  have hballot : ballot k (⟨s, l, s'⟩ :: h) = ballot k h := congrArg (List.map _) hvotes
  have hnot : ∀ a, ¬ Assigns ⟨s, l, s'⟩ k a := not_assigns_of_eq hassignment
  cases hs with
  | fresh hfresh =>
    refine .fresh { hfresh with votes := hvotes.trans hfresh.votes, unassigned := ?_ }
    intro t ht a ha
    rcases List.mem_cons.mp ht with rfl | ht
    · exact hnot a ha
    · exact hfresh.unassigned t ht a ha
  | awaiting honce hassigned hkeys hvoting hresult hstored hnone =>
    exact .awaiting (honce.cons hnot) hassigned hkeys hvoting hresult hstored
      (hvotes.trans hnone)
  | opened hvalid hstored hassigned hkeys hvoting hhash hcounts hrecorded hresult =>
    refine .opened (hvalid.cons hnot hvotes) hstored hassigned hkeys hvoting hhash ?_ ?_ hresult
    · rwa [hballot]
    · rwa [hvotes]
  | closed hvalid hstored hvoting hresult hdecision =>
    exact .closed (hvalid.cons hnot hvotes) hstored hvoting hresult (by rwa [hballot])
  | accepted hstatus hvalid hstored hvoting hlocked =>
    exact .accepted hstatus (hvalid.cons hnot hvotes) hstored hvoting (by rwa [hballot])
  | failed => exact .failed

/-- A round that settles stays as its status says. -/
theorem RoundState.of_settles {round' : RoundView T.workers}
    (hs : RoundState h k round stored status) (hsettles : Settles round round') :
    RoundState h k round' stored status := by
  rcases hsettles with rfl | ⟨voting, result, hvoting, hdecision, rfl⟩
  · exact hs
  · -- Only an open voting can close. Its result is the decision its votes have locked.
    cases hs with
    | fresh hfresh => rw [hfresh.voting] at hvoting; cases hvoting
    | awaiting _ _ _ hnone => rw [hnone] at hvoting; cases hvoting
    | opened hvalid hstored _ _ hopen _ hcounts =>
      rw [hvoting] at hopen
      cases hopen
      exact .closed hvalid hstored rfl rfl (hdecision.trans hcounts.locked)
    | closed _ _ hnone => rw [hnone] at hvoting; cases hvoting
    | accepted _ _ _ hnone => rw [hnone] at hvoting; cases hvoting
    | failed => exact .failed

theorem RoundState.settle (hs : RoundState h k (s.base.round k) stored status)
    (hsettles : Settles (s.base.round k) (s'.base.round k))
    (hvotes : acceptedVotes k (⟨s, l, s'⟩ :: h) = acceptedVotes k h) :
    RoundState (⟨s, l, s'⟩ :: h) k (s'.base.round k) stored status :=
  (hs.cons hsettles.assignment_eq hvotes).of_settles hsettles

theorem RoundFresh.settle (hf : RoundFresh h k (s.base.round k) stored)
    (hsettles : Settles (s.base.round k) (s'.base.round k))
    (hvotes : acceptedVotes k (⟨s, l, s'⟩ :: h) = acceptedVotes k h) :
    RoundFresh (⟨s, l, s'⟩ :: h) k (s'.base.round k) stored :=
  hf.cons (hsettles.eq_of_closed hf.voting) rfl hvotes

/-! ### One more step of the life of a work -/

theorem workLived_some (hwork : v.work = some work) :
    WorkLived h id v ↔
      RoundState h (id, work.round) (v.rounds work.round) (v.candidates work.round)
        work.status ∧
      ∀ r, work.round < r → RoundFresh h (id, r) (v.rounds r) (v.candidates r) := by
  unfold WorkLived
  rw [hwork]

theorem workLived_setWork :
    WorkLived h id (v.setWork work) ↔
      RoundState h (id, work.round) (v.rounds work.round) (v.candidates work.round)
        work.status ∧
      ∀ r, work.round < r → RoundFresh h (id, r) (v.rounds r) (v.candidates r) := Iff.rfl

/-- Preparing a round that has not begun. -/
theorem WorkLived.prepares (hprepares : Prepares v work (s'.view id))
    (hfresh : ∀ r, work.round ≤ r → RoundFresh h (id, r) (v.rounds r) (v.candidates r))
    (hpre : (s.base.round (id, work.round)).assignment = none)
    (hvotes : ∀ r, acceptedVotes (id, r) (⟨s, l, s'⟩ :: h) = acceptedVotes (id, r) h) :
    WorkLived (⟨s, l, s'⟩ :: h) id (s'.view id) := by
  have hnow := hfresh work.round (UInt8.le_refl _)
  generalize hv : s'.view id = v' at hprepares
  -- Later rounds are as before, whatever happened to this one.
  have hlater : ∀ r, work.round < r → v'.rounds r = v.rounds r → v'.candidates = v.candidates →
      RoundFresh (⟨s, l, s'⟩ :: h) (id, r) (v'.rounds r) (v'.candidates r) := by
    intro r hr hround hcandidates
    have hpost : s'.base.round (id, r) = v.rounds r :=
      (congrFun (congrArg WorkView.rounds hv) r).trans hround
    have := (hfresh r (UInt8.le_of_lt hr)).cons hpost (congrFun hcandidates r) (hvotes r)
    rwa [hpost, ← hround] at this
  cases hprepares with
  | @assigned assignment keys deadline hfree =>
    have hround : s'.base.round (id, work.round) =
        { v.rounds work.round with assignment := some assignment, keys := keys } :=
      (congrFun (congrArg WorkView.rounds hv) work.round).trans
        (WorkView.setRound_rounds_self ..)
    have honce : AssignedOnce (⟨s, l, s'⟩ :: h) (id, work.round) ⟨s, l, s'⟩ assignment := by
      refine ⟨List.mem_cons_self .., ⟨hpre, congrArg RoundView.assignment hround⟩, ?_⟩
      intro t ht a ha
      rcases List.mem_cons.mp ht with rfl | ht
      · rfl
      · exact absurd ha (hnow.unassigned t ht a)
    refine workLived_setWork.mpr ⟨?_, fun r hr => hlater r hr ?_ rfl⟩
    · rw [WorkView.setRound_rounds_self]
      exact .awaiting honce rfl (by rw [hround]) hnow.voting hnow.result hnow.candidate
        ((hvotes _).trans hnow.votes)
    · exact WorkView.setRound_rounds_of_ne _ (UInt8.ne_of_lt hr).symm _
  | existing hassigned =>
    rw [hnow.assignment] at hassigned
    cases hassigned
  | short =>
    refine workLived_setWork.mpr ⟨.fresh ?_, fun r hr => hlater r hr rfl rfl⟩
    have hpost : s'.base.round (id, work.round) = v.rounds work.round :=
      congrFun (congrArg WorkView.rounds hv) work.round
    have := hnow.cons hpost (rfl : v.candidates work.round = _) (hvotes work.round)
    rwa [hpost] at this

/-- A round whose candidate comes in. -/
theorem RoundState.open_voting {epoch : EpochIndex} {deadline : BlockNumber}
    (hs : RoundState h k (s.base.round k) stored .awaitingCandidate)
    (hhash : candidate.envelope.computedReportHash T.workers.crypto =
      candidate.envelope.canonicalReportHash)
    (hvotes : acceptedVotes k (⟨s, l, s'⟩ :: h) = acceptedVotes k h) :
    RoundState (⟨s, l, s'⟩ :: h) k { s.base.round k with
      voting := some ⟨epoch, candidate.envelope.canonicalReportHash, deadline, 0, 0, 0, none⟩ }
      (some candidate) .voting := by
  cases hs with
  | accepted hbad => rcases hbad with hbad | hbad <;> cases hbad
  | awaiting honce hassigned hkeys hvoting hresult hstored hnone =>
    -- Nobody could vote before, so the ballot is empty.
    have hempty : acceptedVotes k (⟨s, l, s'⟩ :: h) = [] := hvotes.trans hnone
    refine .opened ⟨honce.cons (not_assigns_of_some hassigned), hhash, ?_, ?_⟩ rfl hassigned
      hkeys rfl rfl ?_ ?_ hresult
    · rw [hempty]
      exact fun c hc => absurd hc List.not_mem_nil
    · rw [hempty]
      exact List.nodup_nil
    · rw [show ballot k (⟨s, l, s'⟩ :: h) = [] from congrArg (List.map _) hempty]
      exact Workers.counts_nil rfl rfl rfl
    · rw [hempty]
      exact fun c hc => absurd hc List.not_mem_nil

/-- A round whose result accepts its candidate. -/
theorem RoundState.accept {result : Workers.RoundResult T.workers}
    {keys : WorkerId → Option PublicKey} {votes : WorkerId → Option Verdict}
    (hs : RoundState h k (s.base.round k) stored .voting)
    (hresult : (s.base.round k).result = some result) (hdecision : result.decision = some .accepted)
    (hpost : (s'.base.round k).assignment = none)
    (hvotes : acceptedVotes k (⟨s, l, s'⟩ :: h) = acceptedVotes k h) :
    RoundState (⟨s, l, s'⟩ :: h) k
      { s.base.round k with assignment := none, keys := keys, votes := votes } stored
      .accepted := by
  cases hs with
  | accepted hbad => rcases hbad with hbad | hbad <;> cases hbad
  | opened _ _ _ _ _ _ _ _ hnone =>
    rw [hresult] at hnone
    cases hnone
  | closed hvalid hstored hvoting hresult' hdecision' =>
    rw [hresult] at hresult'
    cases hresult'
    rw [hdecision] at hdecision'
    refine .accepted (Or.inl rfl) (hvalid.cons (not_assigns_of_none hpost) hvotes) hstored
      hvoting ?_
    rw [show ballot k (⟨s, l, s'⟩ :: h) = ballot k h from congrArg (List.map _) hvotes]
    -- An accepted result comes from a locked ballot.
    obtain ⟨decision, hlocked, hdecided⟩ := Option.map_eq_some_iff.mp hdecision'.symm
    cases decision with
    | true => exact hlocked
    | false => cases hdecided

variable {rounds : AssignmentRound → RoundView T.workers}

/-- New rounds for a work, from what becomes of the account of each round. -/
theorem WorkLived.of_rounds (hlived : WorkLived h id (s.view id))
    (hview : s'.view id = { s.view id with rounds := rounds })
    (hfresh : ∀ r, RoundFresh h (id, r) ((s.view id).rounds r) ((s.view id).candidates r) →
      RoundFresh (⟨s, l, s'⟩ :: h) (id, r) (s'.base.round (id, r)) ((s.view id).candidates r))
    (hstate : ∀ r status,
      RoundState h (id, r) ((s.view id).rounds r) ((s.view id).candidates r) status →
      RoundState (⟨s, l, s'⟩ :: h) (id, r) (s'.base.round (id, r)) ((s.view id).candidates r)
        status) :
    WorkLived (⟨s, l, s'⟩ :: h) id (s'.view id) := by
  have hwork' : (s'.view id).work = (s.view id).work := by rw [hview]
  have hcandidates : (s'.view id).candidates = (s.view id).candidates := by rw [hview]
  unfold WorkLived at hlived ⊢
  rw [hwork', hcandidates]
  cases hwork : (s.view id).work with
  | none =>
    rw [hwork] at hlived
    exact fun r => hfresh r (hlived r)
  | some work =>
    rw [hwork] at hlived
    exact ⟨hstate _ _ hlived.1, fun r hr => hfresh r (hlived.2 r hr)⟩

/-- The rounds of a work settle at most. -/
theorem WorkLived.settle (hlived : WorkLived h id (s.view id))
    (hview : s'.view id = { s.view id with rounds := rounds })
    (hsettles : ∀ r, Settles ((s.view id).rounds r) (rounds r))
    (hvotes : ∀ r, acceptedVotes (id, r) (⟨s, l, s'⟩ :: h) = acceptedVotes (id, r) h) :
    WorkLived (⟨s, l, s'⟩ :: h) id (s'.view id) := by
  have hround : ∀ r, s'.base.round (id, r) = rounds r :=
    fun r => congrFun (congrArg WorkView.rounds hview) r
  exact hlived.of_rounds hview (fun r hf => hf.settle (hround r ▸ hsettles r) (hvotes r))
    fun r _ hs => hs.settle (hround r ▸ hsettles r) (hvotes r)

/-- One step of the life of a work. -/
theorem WorkLived.step (hlived : WorkLived h id (s.view id))
    (hvotes : ∀ r, acceptedVotes (id, r) (⟨s, l, s'⟩ :: h) = acceptedVotes (id, r) h)
    (hstep : LifeStep (s.view id) (s'.view id)) : WorkLived (⟨s, l, s'⟩ :: h) id (s'.view id) := by
  generalize hv : s'.view id = v' at hstep
  have hround : ∀ r, s'.base.round (id, r) = v'.rounds r :=
    fun r => congrFun (congrArg WorkView.rounds hv) r
  -- Later rounds are as before when the step is about the current one.
  have hlater : ∀ r, RoundFresh h (id, r) ((s.view id).rounds r) ((s.view id).candidates r) →
      v'.rounds r = (s.view id).rounds r → v'.candidates r = (s.view id).candidates r →
      RoundFresh (⟨s, l, s'⟩ :: h) (id, r) (v'.rounds r) (v'.candidates r) := by
    intro r hfresh hrounds hcandidates
    have := hfresh.cons ((hround r).trans hrounds) hcandidates (hvotes r)
    rwa [hround r] at this
  cases hstep with
  | settle hsettles => exact hv ▸ hlived.settle hv hsettles hvotes
  | prepare hwork hstatus hprepares =>
    rename_i work
    obtain ⟨hstate, hafter⟩ := (workLived_some hwork).mp hlived
    rw [hstatus] at hstate
    cases hstate with
    | accepted hbad => rcases hbad with hbad | hbad <;> cases hbad
    | fresh hfresh =>
      rw [← hv] at hprepares ⊢
      refine WorkLived.prepares hprepares (fun r hr => ?_) hfresh.assignment hvotes
      by_cases heq : work.round = r
      · exact heq ▸ hfresh
      · exact hafter r (UInt8.lt_of_le_of_ne hr heq)
  | candidate hwork hstatus hnew hhash hchecked =>
    rename_i work candidate epoch deadline
    obtain ⟨hstate, hafter⟩ := (workLived_some hwork).mp hlived
    rw [hstatus] at hstate
    refine workLived_setWork.mpr ⟨?_, fun r hr => hlater r (hafter r hr)
      (WorkView.setRound_rounds_of_ne _ (UInt8.ne_of_lt hr).symm _)
      (WorkView.setCandidate_candidates_of_ne _ (UInt8.ne_of_lt hr).symm _)⟩
    have hrounds : ∀ v : WorkView T, ∀ r round, ∀ c : CandidateRecord AccountId,
        ((v.setRound r round).setCandidate r c).rounds r = round :=
      fun v r round c => WorkView.setRound_rounds_self v r round
    rw [hrounds, WorkView.setCandidate_candidates_self]
    exact hstate.open_voting hhash (hvotes work.round)
  | fail hwork hstatus hclears =>
    obtain ⟨-, hafter⟩ := (workLived_some hwork).mp hlived
    exact workLived_setWork.mpr ⟨.failed, fun r hr => hlater r (hafter r hr)
      (WorkView.setRound_rounds_of_ne _ (UInt8.ne_of_lt hr).symm _) rfl⟩
  | advance hwork hstatus hclears hnext hprepares =>
    rename_i work round
    obtain ⟨-, hafter⟩ := (workLived_some hwork).mp hlived
    have hlt := UInt8.lt_satAdd_one hnext
    rw [← hv] at hprepares ⊢
    refine WorkLived.prepares hprepares (fun r hr => ?_) (hafter _ hlt).assignment hvotes
    have hr : work.round < r := UInt8.lt_of_lt_of_le hlt hr
    have hrounds := WorkView.setRound_rounds_of_ne (s.view id) (UInt8.ne_of_lt hr).symm round
    exact hrounds ▸ hafter r hr
  | accept hwork hstatus hresult hdecision hclears =>
    rename_i work result round
    obtain ⟨hstate, hafter⟩ := (workLived_some hwork).mp hlived
    rw [hstatus] at hstate
    obtain ⟨keys, votes, rfl⟩ := hclears
    refine workLived_setWork.mpr ⟨?_, fun r hr => hlater r (hafter r hr)
      (WorkView.setRound_rounds_of_ne _ (UInt8.ne_of_lt hr).symm _) rfl⟩
    rw [WorkView.setRound_rounds_self]
    have hpost : (s'.base.round (id, work.round)).assignment = none := by
      rw [hround]
      exact congrArg RoundView.assignment (WorkView.setRound_rounds_self _ _ _)
    exact hstate.accept hresult hdecision hpost (hvotes work.round)
  | imported hwork hstatus =>
    rename_i work
    obtain ⟨hstate, hafter⟩ := (workLived_some hwork).mp hlived
    refine workLived_setWork.mpr ⟨?_, fun r hr => hlater r (hafter r hr) rfl rfl⟩
    have hstate' := hstate.cons (congrArg RoundView.assignment (hround work.round)) (hvotes _)
    rw [hstatus] at hstate'
    cases hstate' with
    | accepted _ hvalid hstored hvoting hlocked =>
      exact .accepted (Or.inr rfl) hvalid hstored hvoting hlocked

/-! ### One more vote -/

/-- A vote that is accepted in a round with an open voting. -/
theorem VotesValid.vote (hv : VotesValid h k t₀ assignment candidate)
    (hnot : ∀ a, ¬ Assigns ⟨s, l, s'⟩ k a)
    (hvotes : acceptedVotes k (⟨s, l, s'⟩ :: h) = c :: acceptedVotes k h)
    (hvalid : VoteValid t₀ k assignment candidate c)
    (hnew : ∀ c' ∈ acceptedVotes k h, c'.workerId ≠ c.workerId) :
    VotesValid (⟨s, l, s'⟩ :: h) k t₀ assignment candidate where
  once := hv.once.cons hnot
  hash := hv.hash
  valid := by
    rw [hvotes]
    intro c' hc'
    rcases List.mem_cons.mp hc' with rfl | hc'
    · exact hvalid
    · exact hv.valid c' hc'
  distinct := by
    rw [hvotes, List.map_cons, List.nodup_cons]
    refine ⟨fun hmem => ?_, hv.distinct⟩
    obtain ⟨c', hc', hsame⟩ := List.mem_map.mp hmem
    exact hnew c' hc' hsame

/-- A round in which a vote is accepted. -/
theorem RoundState.vote {key : PublicKey} (hs : RoundState h k (s.base.round k) stored status)
    (hchecked : VoteChecked T.workers (s.base.round k) c.workerId c.vote c.signature voting
      assignment key)
    (hcast : Settles ((s.base.round k).cast c.workerId c.vote.verdict voting) (s'.base.round k))
    (hvotes : acceptedVotes k (⟨s, l, s'⟩ :: h) = c :: acceptedVotes k h) :
    RoundState (⟨s, l, s'⟩ :: h) k (s'.base.round k) stored status := by
  have hopen := hchecked.voting_eq
  cases hs with
  | fresh hfresh => rw [hfresh.voting] at hopen; cases hopen
  | awaiting _ _ _ hnone => rw [hnone] at hopen; cases hopen
  | closed _ _ hnone => rw [hnone] at hopen; cases hopen
  | accepted _ _ _ hnone => rw [hnone] at hopen; cases hopen
  | failed => exact .failed
  | opened hvalid hstored hassigned hkeys hvoting hhash hcounts hrecorded hresult =>
    rename_i t₀ assignment' candidate voting'
    rw [hvoting] at hopen
    cases hopen
    obtain rfl : assignment' = assignment :=
      Option.some.inj (hassigned.symm.trans hchecked.assignment_eq)
    have hvote : VoteValid t₀ k assignment' candidate c := by
      refine ⟨hchecked.member, hchecked.candidateHash.trans hhash, key, ?_, hchecked.verified⟩
      exact (congrFun hkeys c.workerId).symm.trans hchecked.key_eq
    -- A worker whose vote is recorded cannot vote again.
    have hnew : ∀ c' ∈ acceptedVotes k h, c'.workerId ≠ c.workerId := by
      intro c' hc' hsame
      have := hrecorded c' hc'
      rw [hsame, hchecked.first] at this
      exact this rfl
    have hvalid' := hvalid.vote (not_assigns_of_some hassigned) hvotes hvote hnew
    refine RoundState.of_settles ?_ hcast
    refine .opened hvalid' hstored hassigned hkeys rfl ?_ ?_ ?_ hresult
    · rw [Workers.countVote_candidateHash]
      exact hhash
    · rw [show ballot k (⟨s, l, s'⟩ :: h) = c.vote.verdict.isSupport :: ballot k h from
        congrArg (List.map _) hvotes]
      exact Workers.countVote_counts hcounts c.vote.verdict
    · rw [hvotes]
      intro c' hc'
      show (if c'.workerId = c.workerId then some c.vote.verdict
        else (s.base.round k).votes c'.workerId) ≠ none
      split_ifs with hsame
      · exact Option.some_ne_none _
      · refine hrecorded c' ((List.mem_cons.mp hc').resolve_left ?_)
        rintro rfl
        exact hsame rfl

/-- A vote for a round of the work. -/
theorem WorkLived.vote {key : PublicKey} (hlived : WorkLived h id (s.view id))
    (hl : castVote l = some c) (hid : c.vote.workId = id)
    (hchecked : VoteChecked T.workers ((s.view id).rounds c.vote.round) c.workerId c.vote
      c.signature voting assignment key)
    (hcast : Settles (((s.view id).rounds c.vote.round).cast c.workerId c.vote.verdict voting)
      (rounds c.vote.round))
    (hothers : ∀ r, r ≠ c.vote.round → Settles ((s.view id).rounds r) (rounds r))
    (hview : s'.view id = { s.view id with rounds := rounds }) :
    WorkLived (⟨s, l, s'⟩ :: h) id (s'.view id) := by
  have hround : ∀ r, s'.base.round (id, r) = rounds r :=
    fun r => congrFun (congrArg WorkView.rounds hview) r
  have hquiet : ∀ r, r ≠ c.vote.round →
      acceptedVotes (id, r) (⟨s, l, s'⟩ :: h) = acceptedVotes (id, r) h := by
    intro r hr
    refine acceptedVotes_quiet fun c' hc' hk => ?_
    rw [hl] at hc'
    cases hc'
    exact hr (congrArg Prod.snd hk).symm
  refine hlived.of_rounds hview (fun r hf => ?_) fun r _ hs => ?_
  · -- No vote is accepted in a round that has not begun.
    have hbegun : r ≠ c.vote.round := by
      rintro rfl
      have hopen := hchecked.voting_eq
      rw [hf.voting] at hopen
      cases hopen
    exact hf.settle (hround r ▸ hothers r hbegun) (hquiet r hbegun)
  · by_cases hr : r = c.vote.round
    · exact hs.vote (hr ▸ hchecked) (hround _ ▸ hr ▸ hcast)
        (acceptedVotes_vote hl (Prod.ext hid hr.symm))
    · exact hs.settle (hround _ ▸ hothers _ hr) (hquiet _ hr)

/-! ### Every run -/

/-- What a step does to a work keeps the account of its rounds. -/
theorem WorkLived.move (hlived : WorkLived h id (s.view id)) (hmove : LifeMove s l s' id) :
    WorkLived (⟨s, l, s'⟩ :: h) id (s'.view id) := by
  cases hmove with
  | quiet hl hstep =>
    exact hlived.step (fun r => acceptedVotes_quiet fun c hc hk =>
      hl c hc (congrArg Prod.fst hk)) hstep
  | create hl hid hnext habsent hround hprepares =>
    have hfresh : ∀ r, RoundFresh h (id, r) ((s.view id).rounds r) ((s.view id).candidates r) := by
      unfold WorkLived at hlived
      rwa [show (s.view id).work = none from habsent] at hlived
    refine WorkLived.prepares hprepares (fun r _ => hfresh r) (hfresh _).assignment fun r => ?_
    refine acceptedVotes_quiet fun c hc => ?_
    rw [hl] at hc
    cases hc
  | vote hl hid hchecked hcast hothers hview =>
    exact hlived.vote hl hid hchecked hcast hothers hview

theorem workLived_of_run [DecidableEq AccountId] (hr : WorkRun T h s) (id : WorkId) :
    WorkLived h id (s.view id) := by
  refine life_invariant (I := fun h s => WorkLived h id (s.view id)) id (fun s hs => ?_)
    (fun h s l s' hlived hmove => hlived.move hmove) hr
  unfold WorkLived
  rw [(genesis_view hs id 0).1]
  intro r
  obtain ⟨-, hcandidate, hround⟩ := genesis_view hs id r
  rw [hround]
  exact ⟨rfl, rfl, rfl, hcandidate, rfl, fun t ht => absurd ht List.not_mem_nil⟩

end MiniJam.Jam
