import MiniJam.Proofs.Finalization
import MiniJam.Proofs.OpenVotings
import MiniJam.Runtime.Reference

/-!
# `MiniJam.Proofs.Tally`: the votes of a round and its decision

`RoundMove` is what a step of the chain does to one round in terms of its voting: the voting
opens, a vote is counted, the voting is closed by its last vote or by the block hook after its
deadline, or nothing of this happens. In every run the counters of an open voting count the stored
votes of the assigned workers, the votes in the order of their acceptance have locked its
decision, and somebody is still awaited (`roundTally_of_run`).

Fewer votes than the two thresholds together cannot reach both, so then the decision of a round
depends on the set of its votes only.
-/

set_option autoImplicit false

namespace MiniJam.Jam

open Workers (RoundKey RoundView VotingRound VoteChecked Finalizes Expires countVote decisionOf
  finalizationAttempt)

variable {AccountId Ledger : Type} {T : Config AccountId Ledger} {s s' : State T}
  {l : Chain.Label T} {k : RoundKey}
variable {h : Chain.History T}

/-! ### What a step does to a round -/

/-- What a step does to a round and its voting. -/
inductive RoundMove (s : State T) (l : Chain.Label T) (s' : State T) (k : RoundKey) : Prop where
  | kept (hquiet : ∀ c, castVote l = some c → (c.vote.workId, c.vote.round) ≠ k)
      (hround : s'.base.round k = s.base.round k)
  /-- The voting is closed before and after, and the round has the result it had. -/
  | unheld (hquiet : ∀ c, castVote l = some c → (c.vote.workId, c.vote.round) ≠ k)
      (hclosed : (s.base.round k).voting = none)
      (hkept : VotingKept (s.base.round k) (s'.base.round k))
  | opens {work : WorkRecord AccountId}
      (hquiet : ∀ c, castVote l = some c → (c.vote.workId, c.vote.round) ≠ k)
      (hclosed : (s.base.round k).voting = none) (hround : work.round = k.2)
      (hopens : Opens (s.view k.1) (s'.view k.1) work)
  /-- A vote is counted. The last one closes the voting. -/
  | vote {c : CastVote} {voting : VotingRound} {assignment : Workers.Assignment T.workers}
      {key : PublicKey} (hl : castVote l = some c) (hk : (c.vote.workId, c.vote.round) = k)
      (hchecked : VoteChecked T.workers (s.base.round k) c.workerId c.vote c.signature voting
        assignment key)
      (hcast : assignment.toList.length ≤ (countVote T.workers voting c.vote.verdict).responses ∧
          Finalizes ((s.base.round k).cast c.workerId c.vote.verdict voting) (s'.base.round k) ∨
        (countVote T.workers voting c.vote.verdict).responses < assignment.toList.length ∧
          s'.base.round k = (s.base.round k).cast c.workerId c.vote.verdict voting)
  /-- The block hook closes a voting that is overdue. -/
  | expires {block : BlockNumber} (hl : l = (.workersOnInitialize block, none))
      (hdue : (s.base.round k).Overdue block)
      (hfinal : Finalizes (s.base.round k) (s'.base.round k))

variable {work : WorkRecord AccountId}

/-- The round of a voting that opens. -/
theorem Opens.opened (h : Opens (s.view k.1) (s'.view k.1) work) (hround : work.round = k.2) :
    ∃ epoch hash deadline, s'.base.round k =
      { s.base.round k with voting := some ⟨epoch, hash, deadline, 0, 0, 0, none⟩ } := by
  obtain ⟨epoch, hash, deadline, hopened⟩ := h.round
  rw [hround] at hopened
  exact ⟨epoch, hash, deadline, hopened⟩

/-- A vote closes the round it is for at most. -/
theorem roundMove_of_vote {origin : Origin AccountId} {workerId : WorkerId} {vote : WorkerVoteV1}
    {signature : Signature}
    (h : (inWorkers (Workers.submitVote origin workerId vote signature) : M T Unit) s =
      .ok () s') (k : RoundKey) :
    RoundMove s (.extrinsic origin (.submitVote workerId vote signature), none) s' k := by
  obtain ⟨base, hbase, rfl⟩ := Tx.zoom_ok.mp h
  obtain ⟨⟨voting, assignment, key, hchecked, hcast⟩, hothers⟩ := Workers.submitVote_closes hbase
  by_cases hk : k = (vote.workId, vote.round)
  · subst hk
    exact .vote rfl rfl hchecked hcast
  · refine .kept (fun c hc => ?_) (hothers k hk)
    cases hc
    exact Ne.symm hk

/-- The block hook of the works leaves a work that waits for its result. -/
theorem onInitialize_waits {block : BlockNumber} {ids : List WorkId} {id : WorkId}
    (hwork : s.works.lookup id = some work) (hstatus : work.status = .voting)
    (hresult : s.base.roundResults.lookup (id, work.round) = none)
    (h : Tx.forEach (progressWork block) ids s = .ok () s') : s'.view id = s.view id := by
  refine Tx.forEach_invariant (I := fun s' => s'.view id = s.view id)
    (fun id' _ s₁ s₂ hview hprogress => ?_) rfl h
  by_cases hid : id' = id
  · subst hid
    have hwork₁ : s₁.works.lookup id' = some work := (congrArg WorkView.work hview).trans hwork
    have hround : s₁.base.round (id', work.round) = s.base.round (id', work.round) :=
      congrFun (congrArg WorkView.rounds hview) work.round
    have hresult₁ : s₁.base.roundResults.lookup (id', work.round) = none :=
      (congrArg RoundView.result hround).trans hresult
    rw [progressWork_waits hwork₁ hstatus hresult₁ hprogress]
    exact hview
  · exact (((progressWork_touches block id').of_ok hprogress).others id (Ne.symm hid)).trans hview

section
variable [DecidableEq AccountId] {voting : VotingRound}

/-- A work whose voting is open is in voting and waits for the result. -/
theorem openVoting_waits (hr : Chain.Run T h s) (hvoting : (s.base.round k).voting = some voting) :
    ∃ work, s.works.lookup k.1 = some work ∧ work.round = k.2 ∧ work.status = .voting ∧
      s.base.roundResults.lookup (k.1, work.round) = none := by
  obtain ⟨work, hwork, hround, hstatus⟩ := votingsCurrent_of_run hr hvoting
  refine ⟨work, hwork, hround, hstatus, ?_⟩
  rw [hround]
  exact (Workers.roundBook_sound (workersRun_of_run hr).choose_spec).unsettled k
    (ne_of_eq_of_ne hvoting (Option.some_ne_none voting))

/-- What a successful call does to a round whose voting is open. -/
theorem roundMove_of_call (hr : Chain.Run T h s) (hvoting : (s.base.round k).voting = some voting)
    {origin : Origin AccountId} {call : Call T} (hcall : call.body origin s = .ok () s') :
    RoundMove s (.extrinsic origin call, none) s' k := by
  obtain ⟨work, hwork, hround, hstatus, -⟩ := openVoting_waits hr hvoting
  -- A call of the workers pallet that has no part in the rounds.
  have hstake : ∀ {m : Workers.M T.workers Unit},
      (∀ base, m s.base = .ok () base → Workers.stakeItems.Within s.base base) →
      inWorkers m s = .ok () s' → s'.base.round k = s.base.round k := by
    intro m hm h
    obtain ⟨base, hbase, rfl⟩ := Tx.zoom_ok.mp h
    exact Workers.roundKept_of_within (hm base hbase) k
  have hview : s'.view k.1 = s.view k.1 → s'.base.round k = s.base.round k :=
    fun hsame => congrFun (congrArg WorkView.rounds hsame) k.2
  cases call with
  | register sessionKey stake =>
    exact .kept (fun c hc => nomatch hc) (hstake (fun _ => Workers.register_within) hcall)
  | scheduleUpdate sessionKey stake =>
    exact .kept (fun c hc => nomatch hc) (hstake (fun _ => Workers.scheduleUpdate_within) hcall)
  | submitVote workerId vote signature => exact roundMove_of_vote hcall k
  | submitEquivocation workerId first firstSignature second secondSignature =>
    exact .kept (fun c hc => nomatch hc)
      (hstake (fun _ => Workers.submitEquivocation_within) hcall)
  | submitWork package bundleRef =>
    obtain ⟨-, -, hothers, -⟩ := submitWork_ok hcall
    have hlt := (workRun_of_run hr).pendingInv.works_lt k.1
      (ne_of_eq_of_ne hwork (Option.some_ne_none work))
    exact .kept (fun c hc => nomatch hc) (hview (hothers k.1 (UInt64.ne_of_lt hlt)))
  | submitCandidate envelope =>
    obtain ⟨htouches, -, work', hwork', hawaiting⟩ := submitCandidate_life hcall
    have hne : k.1 ≠ envelope.workId := by
      intro heq
      rw [heq, hwork'] at hwork
      cases hwork
      rw [hstatus] at hawaiting
      cases hawaiting
    exact .kept (fun c hc => nomatch hc) (hview (htouches.others k.1 hne))
  | quarantinePending =>
    obtain ⟨-, rfl⟩ := quarantinePending_ok hcall
    exact .kept (fun c hc => nomatch hc) rfl
  | fundService serviceId amount =>
    obtain ⟨_, _, _, _, _, -, -, rfl⟩ := fundService_ok hcall
    exact .kept (fun c hc => nomatch hc) rfl
  | _ =>
    have hbase := (outer_of_call rfl hcall).unchanged (fun s => s.base.round k) fun _ _ => rfl
    exact .kept (fun c hc => nomatch hc) hbase

/-- What a step does to a round whose voting is open. -/
theorem roundMove_of_open (hr : Chain.Run T h s) (hvoting : (s.base.round k).voting = some voting)
    (hstep : Chain.Step T s l s') : RoundMove s l s' k := by
  obtain ⟨action, _ | e⟩ := l
  · cases action with
    | extrinsic origin call => exact roundMove_of_call hr hvoting (Tx.transaction_ok.mp hstep)
    | workersOnInitialize block =>
      have hhook : (inWorkers (Workers.onInitialize block) : M T Unit) s = .ok () s' := hstep
      obtain ⟨base, hbase, rfl⟩ := Tx.zoom_ok.mp hhook
      rcases Workers.onInitialize_expires hbase k with hsame | ⟨hdue, hfinal⟩
      · exact .kept (fun c hc => nomatch hc) hsame
      · exact .expires rfl hdue hfinal
    | jamOnInitialize block =>
      -- The work of an open voting waits for the result.
      obtain ⟨work, hwork, hround, hstatus, hresult⟩ := openVoting_waits hr hvoting
      have hview := onInitialize_waits hwork hstatus hresult hstep
      exact .kept (fun c hc => nomatch hc) (congrFun (congrArg WorkView.rounds hview) k.2)
    | onFinalize block =>
      have hbase := (onFinalize_works hstep).1
      exact .kept (fun c hc => nomatch hc) (congrArg (fun base => base.round k) hbase)
    | consumeAllocation allocationId =>
      obtain ⟨_, -, rfl⟩ := consumeAllocation_ok (Tx.transaction_ok.mp hstep)
      exact .kept (fun c hc => nomatch hc) rfl
    | system blockNumber blockHash ledger =>
      cases hstep
      exact .kept (fun c hc => nomatch hc) rfl
  · rw [step_err hstep]
    exact .kept (fun c hc => nomatch (castVote_err action e).symm.trans hc) rfl

theorem roundMove_of_step (hr : Chain.Run T h s) (hstep : Chain.Step T s l s') (k : RoundKey) :
    RoundMove s l s' k := by
  cases hvoting : (s.base.round k).voting with
  | some voting => exact roundMove_of_open hr hvoting hstep
  | none =>
    have hmove := (workStep_of_step (workRun_of_run hr).pendingInv hstep).moves k.1
    -- A vote is for a round whose voting is open.
    have hquiet : ∀ c, castVote l = some c → (c.vote.workId, c.vote.round) ≠ k := by
      rintro c hc rfl
      cases hmove with
      | quiet hl => exact hl c hc rfl
      | create hl =>
        rw [hl] at hc
        cases hc
      | vote hl _ hchecked =>
        cases hl.symm.trans hc
        cases hvoting.symm.trans hchecked.voting_eq
    rcases hmove.unopened (r := k.2) hvoting with hkept | ⟨work, hround, hopens⟩
    · exact .unheld hquiet hvoting hkept
    · exact .opens hquiet hvoting hround hopens

end

/-! ### The votes of a round -/

/-- The worker voted so in the round. -/
def VotedIn (h : Chain.History T) (k : RoundKey) (id : WorkerId)
    (verdict : Verdict) : Prop :=
  ∃ c ∈ acceptedVotes k h, c.workerId = id ∧ c.vote.verdict = verdict

/-- What is stored about an open voting besides the ballot. -/
structure Recorded (h : Chain.History T) (k : RoundKey)
    (v : RoundView T.workers) (voting : VotingRound) : Prop where
  votes : ∀ id verdict, v.votes id = some verdict ↔ VotedIn h k id verdict
  responses : voting.responses = (acceptedVotes k h).length
  awaited : ∀ assignment, v.assignment = some assignment →
    assignment.toList = [] ∨ voting.responses < assignment.toList.length

/-- A round whose voting is closed: its votes have locked the decision. -/
structure Concluded (h : Chain.History T) (k : RoundKey)
    (decision : Option Workers.RoundDecision) : Prop where
  distinct : ((acceptedVotes k h).map CastVote.workerId).Nodup
  length_le : (acceptedVotes k h).length ≤ T.workers.workersPerWork.toNat
  decision_eq : decision = (Ballot.locked T.workers.supportThreshold.toNat
    T.workers.opposeThreshold.toNat (ballot k h)).map decisionOf

/-- The votes of a round before, during and after its voting. -/
structure RoundTally (h : Chain.History T) (k : RoundKey)
    (v : RoundView T.workers) : Prop where
  unopened : v.voting = none → v.result = none → acceptedVotes k h = []
  opened : ∀ voting, v.voting = some voting → Recorded h k v voting
  closed : ∀ result, v.result = some result → Concluded h k result.decision

variable {assignment : Workers.Assignment T.workers} {voting : VotingRound}

theorem VotesValid.length_le {t₀ : Chain.TakenStep T}
    {candidate : CandidateRecord AccountId} (hv : VotesValid h k t₀ assignment candidate) :
    (acceptedVotes k h).length ≤ assignment.toList.length := by
  have hsub : (acceptedVotes k h).map CastVote.workerId ⊆ assignment.toList := by
    intro id hid
    obtain ⟨c, hc, rfl⟩ := List.mem_map.mp hid
    exact (hv.valid c hc).member
  rw [← List.length_map]
  exact (List.subperm_of_subset hv.distinct hsub).length_le

theorem countVote_responses (voting : VotingRound) (verdict : Verdict) :
    (countVote T.workers voting verdict).responses = satAdd32 voting.responses 1 := by
  unfold countVote
  cases verdict with
  | support =>
    dsimp only
    split_ifs <;> rfl
  | oppose reason =>
    dsimp only
    split_ifs <;> rfl

/-- A vote that is counted is recorded. -/
theorem Recorded.vote {c : CastVote} {key : PublicKey} (hrec : Recorded h k (s.base.round k) voting)
    (hchecked : VoteChecked T.workers (s.base.round k) c.workerId c.vote c.signature voting
      assignment key) (hvotes : acceptedVotes k (⟨s, l, s'⟩ :: h) = c :: acceptedVotes k h)
    (hawaited : (countVote T.workers voting c.vote.verdict).responses < assignment.toList.length) :
    Recorded (⟨s, l, s'⟩ :: h) k ((s.base.round k).cast c.workerId c.vote.verdict voting)
      (countVote T.workers voting c.vote.verdict) := by
  constructor
  · intro id verdict
    unfold VotedIn
    rw [hvotes]
    show (if id = c.workerId then some c.vote.verdict else (s.base.round k).votes id) =
      some verdict ↔ _
    split_ifs with hid
    · -- The worker had no vote, so the new one is its only one.
      subst hid
      refine ⟨fun heq => ⟨c, List.mem_cons_self .., rfl, Option.some.inj heq⟩, ?_⟩
      rintro ⟨c', hc', hsame, hverdict⟩
      rcases List.mem_cons.mp hc' with rfl | hold
      · rw [hverdict]
      · have hstored := (hrec.votes c.workerId verdict).mpr ⟨c', hold, hsame, hverdict⟩
        cases hchecked.first.symm.trans hstored
    · rw [hrec.votes]
      constructor
      · rintro ⟨c', hc', hsame, hverdict⟩
        exact ⟨c', List.mem_cons_of_mem _ hc', hsame, hverdict⟩
      · rintro ⟨c', hc', hsame, hverdict⟩
        refine ⟨c', (List.mem_cons.mp hc').resolve_left ?_, hsame, hverdict⟩
        rintro rfl
        exact hid hsame.symm
  · -- The counter does not saturate, because somebody was awaited.
    rw [countVote_responses, hvotes, List.length_cons, ← hrec.responses]
    rcases hrec.awaited assignment hchecked.assignment_eq with hnil | hlt
    · have hmember := hchecked.member
      rw [hnil] at hmember
      cases hmember
    · have hbound := T.workers.workersPerWork.toNat_lt
      have hlength := assignment.length_le
      unfold satAdd32 u32Max
      omega
  · intro assignment' hassigned
    cases hassigned.symm.trans hchecked.assignment_eq
    exact Or.inr hawaited

section
variable [DecidableEq AccountId]

/-- The decision of a voting that has just been closed. -/
theorem concluded_of_voting (hr : Chain.Run T h s) (hwork : s.works.lookup k.1 = some work)
    (hround : work.round = k.2) (hstatus : work.status = .voting)
    {result : Workers.RoundResult T.workers} (hresult : (s.base.round k).result = some result) :
    Concluded h k result.decision := by
  have hlived := ((workLived_some (v := s.view k.1) hwork).mp
    (workLived_of_run (workRun_of_run hr) k.1)).1
  rw [hround, hstatus] at hlived
  cases hlived with
  | accepted hbad => rcases hbad with hbad | hbad <;> cases hbad
  | opened _ _ _ _ _ _ _ _ hnone => cases hnone.symm.trans hresult
  | @closed _ assignment _ result' hvalid _ _ hresult' hdecision =>
    cases hresult'.symm.trans hresult
    exact ⟨hvalid.distinct, hvalid.length_le.trans assignment.length_le, hdecision⟩

variable {voting : VotingRound}

/-- A step that leaves a voting open or closes it leaves its work in voting. -/
theorem openVoting_stays (hr : Chain.Run T h s) (hvoting : (s.base.round k).voting = some voting)
    (hstep : Chain.Step T s l s') :
    ∃ work, s'.works.lookup k.1 = some work ∧ work.round = k.2 ∧ work.status = .voting := by
  obtain ⟨work, hwork, hround, hstatus, hresult⟩ := openVoting_waits hr hvoting
  obtain ⟨work', hwork', hcarried⟩ :=
    (carries_of_step (workRun_of_run hr).pendingInv hstep).kept k.1 work hwork
  cases hcarried.waits hstatus hresult
  exact ⟨work, hwork', hround, hstatus⟩

variable {v : RoundView T.workers}

/-- A round whose voting has just been closed. -/
theorem RoundTally.of_finalizes (hr : Chain.Run T h s)
    (hvoting : (s.base.round k).voting = some voting) (hstep : Chain.Step T s l s')
    (hfinal : Finalizes v (s'.base.round k)) :
    RoundTally (⟨s, l, s'⟩ :: h) k (s'.base.round k) := by
  obtain ⟨work, hwork, hround, hstatus⟩ := openVoting_stays hr hvoting hstep
  obtain ⟨voting', assignment, -, -, hclosed⟩ := hfinal
  refine ⟨fun _ hnone => ?_, fun voting'' hopen => ?_, fun result hresult => ?_⟩
  · rw [hclosed] at hnone
    cases hnone
  · rw [hclosed] at hopen
    cases hopen
  · exact concluded_of_voting (hr.extend hstep) hwork hround hstatus hresult

omit [DecidableEq AccountId] in
/-- A step that neither votes in the round nor touches its voting. -/
theorem RoundTally.of_quiet {v' : RoundView T.workers} (ht : RoundTally h k v)
    (hquiet : ∀ c, castVote l = some c → (c.vote.workId, c.vote.round) ≠ k)
    (hkept : VotingKept v v') (hsame : v.voting ≠ none → v' = v) :
    RoundTally (⟨s, l, s'⟩ :: h) k v' := by
  have hvotes : acceptedVotes k (⟨s, l, s'⟩ :: h) = acceptedVotes k h := acceptedVotes_quiet hquiet
  refine ⟨fun hvoting hresult => ?_, fun voting hvoting => ?_, fun result hresult => ?_⟩
  · rw [hvotes]
    exact ht.unopened (hkept.1.symm.trans hvoting) (hkept.2.symm.trans hresult)
  · have hopen : v.voting = some voting := hkept.1.symm.trans hvoting
    obtain ⟨hstored, hresponses, hawaited⟩ := ht.opened voting hopen
    rw [hsame (ne_of_eq_of_ne hopen (Option.some_ne_none voting))]
    refine ⟨fun id verdict => ?_, by rw [hvotes, hresponses], hawaited⟩
    unfold VotedIn
    rw [hvotes]
    exact hstored id verdict
  · obtain ⟨hdistinct, hlength, hdecision⟩ := ht.closed result (hkept.2.symm.trans hresult)
    refine ⟨by rwa [hvotes], by rwa [hvotes], ?_⟩
    unfold ballot
    rw [hvotes]
    exact hdecision

/-- The voting of a round opens without any vote. -/
theorem RoundTally.open (hr : Chain.Run T h s) (ht : RoundTally h k (s.base.round k))
    (hquiet : ∀ c, castVote l = some c → (c.vote.workId, c.vote.round) ≠ k)
    (hclosed : (s.base.round k).voting = none) (hround : work.round = k.2)
    (hopens : Opens (s.view k.1) (s'.view k.1) work) :
    RoundTally (⟨s, l, s'⟩ :: h) k (s'.base.round k) := by
  have hlived := ((workLived_some hopens.work_eq).mp (workLived_of_run (workRun_of_run hr) k.1)).1
  rw [hround, hopens.status] at hlived
  -- The work awaits its candidate, so its round has no result.
  have hnew : (s.base.round k).result = none := by
    cases hlived with
    | accepted hbad => rcases hbad with hbad | hbad <;> cases hbad
    | awaiting _ _ _ _ hresult => exact hresult
  obtain ⟨epoch, hash, deadline, hopened⟩ := hopens.opened hround
  have hempty : acceptedVotes k (⟨s, l, s'⟩ :: h) = [] :=
    (acceptedVotes_quiet hquiet).trans (ht.unopened hclosed hnew)
  have hclean := Workers.clean_of_run (workersRun_of_run hr).choose_spec k
  rw [hopened]
  refine ⟨fun hnone => ?_, fun voting hvoting => ?_, fun result hresult => ?_⟩
  · cases hnone
  · cases hvoting
    refine ⟨fun id verdict => ?_, by rw [hempty]; rfl, fun assignment hassigned => ?_⟩
    · unfold VotedIn
      rw [hempty]
      show (s.base.round k).votes id = some verdict ↔ _
      rw [hclean.unvoted hclosed hnew id]
      simp
    · rcases List.eq_nil_or_concat assignment.toList with hnil | ⟨ids, id, hids⟩
      · exact Or.inl hnil
      · exact Or.inr (by rw [hids]; simp)
  · cases hnew.symm.trans hresult

/-- In every run, what is stored about the voting of a round agrees with the votes accepted in
it. -/
theorem roundTally_of_run (hr : Chain.Run T h s) (k : RoundKey) :
    RoundTally h k (s.base.round k) := by
  induction hr with
  | @start s hs =>
    have hround : s.base.round k = ⟨none, fun _ => none, fun _ => none, none, none⟩ :=
      (genesis_view hs k.1 k.2).2.2
    rw [hround]
    refine ⟨fun _ _ => rfl, fun voting hvoting => ?_, fun result hresult => ?_⟩
    · cases hvoting
    · cases hresult
  | @extend h s l s' hr hstep ih =>
    cases roundMove_of_step hr hstep k with
    | kept hquiet hround =>
      rw [hround]
      exact ih.of_quiet hquiet ⟨rfl, rfl⟩ fun _ => rfl
    | unheld hquiet hclosed hkept =>
      exact ih.of_quiet hquiet hkept fun hopen => absurd hclosed hopen
    | opens hquiet hclosed hround hopens => exact ih.open hr hquiet hclosed hround hopens
    | @vote c voting assignment key hl hk hchecked hcast =>
      rcases hcast with ⟨-, hfinal⟩ | ⟨hawaited, hround⟩
      · exact .of_finalizes hr hchecked.voting_eq hstep hfinal
      · rw [hround]
        have hvotes : acceptedVotes k (⟨s, l, s'⟩ :: h) = c :: acceptedVotes k h :=
          acceptedVotes_vote hl hk
        have hrec := (ih.opened voting hchecked.voting_eq).vote hchecked hvotes hawaited
        refine ⟨fun hnone => ?_, fun voting' hvoting => ?_, fun result hresult => ?_⟩
        · cases hnone
        · cases hvoting
          exact hrec
        · -- An open voting has no result.
          have hsound := (Workers.roundBook_sound (workersRun_of_run hr).choose_spec).unsettled k
            (ne_of_eq_of_ne hchecked.voting_eq (Option.some_ne_none voting))
          cases hsound.symm.trans hresult
    | expires hl hdue hfinal =>
      obtain ⟨voting, hvoting, -⟩ := hdue
      exact .of_finalizes hr hvoting hstep hfinal

/-- The history of a round whose voting is open. -/
theorem votesValid_of_open (hr : Chain.Run T h s)
    (hvoting : (s.base.round k).voting = some voting) :
    ∃ t₀ assignment candidate, VotesValid h k t₀ assignment candidate ∧
      (s.base.round k).assignment = some assignment ∧
      Workers.Counts T.workers (ballot k h) voting := by
  obtain ⟨work, hwork, hround, hstatus, -⟩ := openVoting_waits hr hvoting
  have hlived := ((workLived_some (v := s.view k.1) hwork).mp
    (workLived_of_run (workRun_of_run hr) k.1)).1
  rw [hround, hstatus] at hlived
  cases hlived with
  | accepted hbad => rcases hbad with hbad | hbad <;> cases hbad
  | closed _ _ hnone => cases hnone.symm.trans hvoting
  | opened hvalid _ hassigned _ hopen _ hcounts =>
    cases hopen.symm.trans hvoting
    exact ⟨_, _, _, hvalid, hassigned, hcounts⟩

end

/-! ### The counters of an open voting -/

/-- The stored votes of the assigned workers, counted over the workers and over the votes. -/
theorem countP_votes {votes : WorkerId → Option Verdict} {ids : List WorkerId}
    {cast : List CastVote} (hids : ids.Nodup) (hcast : (cast.map CastVote.workerId).Nodup)
    (hmember : ∀ c ∈ cast, c.workerId ∈ ids)
    (hvotes : ∀ id verdict, votes id = some verdict ↔
      ∃ c ∈ cast, c.workerId = id ∧ c.vote.verdict = verdict) (p : Verdict → Bool) :
    ids.countP (fun id => (votes id).any p) = cast.countP fun c => p c.vote.verdict := by
  -- Both count the workers whose vote passes the test.
  rw [List.countP_eq_length_filter, List.countP_eq_length_filter,
    ← List.length_map (f := CastVote.workerId)]
  refine List.Perm.length_eq ((List.perm_ext_iff_of_nodup (hids.filter _)
    (hcast.sublist (List.filter_sublist.map _))).mpr fun id => ?_)
  rw [List.mem_filter, List.mem_map]
  constructor
  · rintro ⟨-, hp⟩
    cases hvote : votes id with
    | none =>
      rw [hvote] at hp
      cases hp
    | some verdict =>
      rw [hvote] at hp
      obtain ⟨c, hc, hid, hverdict⟩ := (hvotes id verdict).mp hvote
      refine ⟨c, List.mem_filter.mpr ⟨hc, ?_⟩, hid⟩
      rw [hverdict]
      exact hp
  · rintro ⟨c, hc, rfl⟩
    obtain ⟨hc, hp⟩ := List.mem_filter.mp hc
    refine ⟨hmember c hc, ?_⟩
    rw [(hvotes c.workerId c.vote.verdict).mpr ⟨c, hc, rfl, rfl⟩]
    exact hp

/-- An open voting: its counters count the stored votes of the assigned workers, which are the
votes accepted so far, these have locked its decision, and somebody is awaited. -/
structure Tallied (h : Chain.History T) (k : RoundKey)
    (v : RoundView T.workers) (voting : VotingRound)
    (assignment : Workers.Assignment T.workers) : Prop where
  assigned : v.assignment = some assignment
  stored : ∀ id verdict, v.votes id = some verdict ↔ VotedIn h k id verdict
  support : voting.support =
    assignment.toList.countP fun id => (v.votes id).any Verdict.isSupport
  oppose : voting.oppose =
    assignment.toList.countP fun id => (v.votes id).any fun verdict => !verdict.isSupport
  responses : voting.responses = assignment.toList.countP fun id => (v.votes id).isSome
  locked : voting.locked = (Ballot.locked T.workers.supportThreshold.toNat
    T.workers.opposeThreshold.toNat (ballot k h)).map decisionOf
  awaited : assignment.toList = [] ∨ ∃ id ∈ assignment.toList, v.votes id = none

theorem tallied_of_run [DecidableEq AccountId] (hr : Chain.Run T h s)
    (hvoting : (s.base.round k).voting = some voting) :
    ∃ assignment, Tallied h k (s.base.round k) voting assignment := by
  obtain ⟨t₀, assignment, candidate, hvalid, hassigned, hcounts⟩ := votesValid_of_open hr hvoting
  obtain ⟨hstored, hresponses, hawaited⟩ := (roundTally_of_run hr k).opened voting hvoting
  have hdistinct := (Workers.clean_of_run (workersRun_of_run hr).choose_spec k).distinct
    assignment hassigned
  have hcount := countP_votes hdistinct hvalid.distinct (fun c hc => (hvalid.valid c hc).member)
    hstored
  -- The counters are bounded by the number of assigned workers, so they do not saturate.
  have hbound : (acceptedVotes k h).length ≤ u32Max := by
    have hworkers := T.workers.workersPerWork.toNat_lt
    have hlength := hvalid.length_le.trans assignment.length_le
    unfold u32Max
    omega
  have hballot : ∀ b, (ballot k h).count b =
      (acceptedVotes k h).countP fun c => c.vote.verdict.isSupport == b := by
    intro b
    unfold ballot
    rw [List.count, List.countP_map]
    rfl
  have hcounter : ∀ b, min ((ballot k h).count b) u32Max = (ballot k h).count b := by
    intro b
    refine Nat.min_eq_left (Nat.le_trans ?_ hbound)
    rw [hballot]
    exact List.countP_le_length
  have hall : assignment.toList.countP (fun id => ((s.base.round k).votes id).isSome) =
      (acceptedVotes k h).length := by
    have htrue := hcount fun _ => true
    simp only [List.countP_true] at htrue
    rw [← htrue]
    refine List.countP_congr fun id _ => ?_
    cases (s.base.round k).votes id <;> simp
  refine ⟨assignment, hassigned, hstored, ?_, ?_, hresponses.trans hall.symm, hcounts.locked, ?_⟩
  · rw [hcounts.support, hcounter, hballot, hcount]
    simp
  · rw [hcounts.oppose, hcounter, hballot, hcount]
    simp
  · refine (hawaited assignment hassigned).imp_right fun hlt => ?_
    rw [hresponses, ← hall] at hlt
    by_contra hnone
    push Not at hnone
    refine absurd (List.countP_eq_length.mpr fun id hid => ?_) (Nat.ne_of_lt hlt)
    exact Option.isSome_iff_ne_none.mpr (hnone id hid)

/-! ### The end of a voting -/

/-- The step closed the voting of the round with this result: a vote with which all assigned
workers have voted, or the block hook after the deadline. The result holds the decision that
was locked, and the assigned workers without a vote. -/
def Concludes (t : Chain.TakenStep T) (k : RoundKey)
    (result : Workers.RoundResult T.workers) : Prop :=
  ∃ voting assignment, (t.pre.base.round k).voting = some voting ∧
    (t.post.base.round k).voting = none ∧
    (t.post.base.round k).assignment = some assignment ∧
    result.absentees.toList =
      assignment.toList.filter (fun id => ((t.post.base.round k).votes id).isNone) ∧
    ((∃ c, castVote t.label = some c ∧ (c.vote.workId, c.vote.round) = k ∧
        (∀ id ∈ assignment.toList, (t.post.base.round k).votes id ≠ none) ∧
        result.decision = (countVote T.workers voting c.vote.verdict).locked) ∨
      ∃ block, t.label = (.workersOnInitialize block, none) ∧ voting.deadline < block ∧
        result.decision = voting.locked)

/-- What a step can do to the decision of a round. -/
structure DecisionStep (t : Chain.TakenStep T) (k : RoundKey) : Prop where
  /-- A locked decision stays. -/
  locked : ∀ voting voting' decision, (t.pre.base.round k).voting = some voting →
    (t.post.base.round k).voting = some voting' → voting.locked = some decision →
    voting'.locked = some decision
  /-- A result stays. -/
  settled : ∀ result, (t.pre.base.round k).result = some result →
    (t.post.base.round k).result = some result
  concludes : ∀ result, (t.pre.base.round k).result = none →
    (t.post.base.round k).result = some result → Concludes t k result
  /-- The block hook closes an overdue voting unless its attempt fails. -/
  attempts : ∀ block, t.label = (.workersOnInitialize block, none) →
    (t.pre.base.round k).Overdue block →
    (∃ base, finalizationAttempt block k t.pre.base = .ok () base) ∧
        (t.post.base.round k).result ≠ none ∨
      (∃ e base, finalizationAttempt block k t.pre.base = .err e base) ∧
        t.post.base.round k = t.pre.base.round k

theorem countVote_locked {decision : Workers.RoundDecision}
    (hlocked : voting.locked = some decision) (verdict : Verdict) :
    (countVote T.workers voting verdict).locked = some decision := by
  unfold countVote
  cases verdict with
  | support => simp [hlocked]
  | oppose reason => simp [hlocked]

theorem finalizes_absentees {v v' : RoundView T.workers} {result : Workers.RoundResult T.workers}
    (hfinal : Finalizes v v') (hresult : v'.result = some result) :
    ∃ voting assignment, v.voting = some voting ∧ v'.voting = none ∧
      v'.assignment = some assignment ∧ v'.votes = v.votes ∧ result.decision = voting.locked ∧
      result.absentees.toList = assignment.toList.filter fun id => (v'.votes id).isNone := by
  obtain ⟨voting, assignment, hvoting, hassigned, rfl⟩ := hfinal
  cases hresult
  exact ⟨voting, assignment, hvoting, rfl, hassigned, rfl, rfl, v.toList_absentees assignment⟩

section
variable [DecidableEq AccountId]

/-- With the vote that brings the responses to the number of assigned workers, all of them have
voted. -/
theorem all_voted (hr : Chain.Run T h s) {c : CastVote} {key : PublicKey}
    (hchecked : VoteChecked T.workers (s.base.round k) c.workerId c.vote c.signature voting
      assignment key)
    (hlast : assignment.toList.length ≤ (countVote T.workers voting c.vote.verdict).responses) :
    ∀ id ∈ assignment.toList,
      ((s.base.round k).cast c.workerId c.vote.verdict voting).votes id ≠ none := by
  obtain ⟨t₀, assignment', candidate, hvalid, hassigned, -⟩ :=
    votesValid_of_open hr hchecked.voting_eq
  cases hassigned.symm.trans hchecked.assignment_eq
  obtain ⟨hstored, hresponses, -⟩ := (roundTally_of_run hr k).opened voting hchecked.voting_eq
  have hvoter : c.workerId ∉ (acceptedVotes k h).map CastVote.workerId := by
    intro hmem
    obtain ⟨c', hc', hsame⟩ := List.mem_map.mp hmem
    have hvote := (hstored c.workerId c'.vote.verdict).mpr ⟨c', hc', hsame, rfl⟩
    cases hchecked.first.symm.trans hvote
  have hsub : c.workerId :: (acceptedVotes k h).map CastVote.workerId ⊆ assignment.toList := by
    refine List.cons_subset.mpr ⟨hchecked.member, fun id hid => ?_⟩
    obtain ⟨c', hc', rfl⟩ := List.mem_map.mp hid
    exact (hvalid.valid c' hc').member
  -- As many different workers have voted as are assigned, so it is all of them.
  have hperm : (c.workerId :: (acceptedVotes k h).map CastVote.workerId).Perm
      assignment.toList := by
    refine (List.subperm_of_subset (List.nodup_cons.mpr ⟨hvoter, hvalid.distinct⟩)
      hsub).perm_of_length_le ?_
    rw [List.length_cons, List.length_map, ← hresponses]
    refine hlast.trans ?_
    rw [countVote_responses]
    unfold satAdd32
    omega
  intro id hid
  show (if id = c.workerId then some c.vote.verdict else (s.base.round k).votes id) ≠ none
  split_ifs with hsame
  · exact Option.some_ne_none _
  · obtain ⟨c', hc', hid'⟩ := List.mem_map.mp
      ((List.mem_cons.mp (hperm.mem_iff.mpr hid)).resolve_left hsame)
    rw [(hstored id c'.vote.verdict).mpr ⟨c', hc', hid', rfl⟩]
    exact Option.some_ne_none _

theorem concludes_of_step (hr : Chain.Run T h s) (hstep : Chain.Step T s l s') (k : RoundKey)
    {result : Workers.RoundResult T.workers} (hnew : (s.base.round k).result = none)
    (hresult : (s'.base.round k).result = some result) : Concludes ⟨s, l, s'⟩ k result := by
  -- Most moves leave the result.
  have hgone : (s'.base.round k).result = (s.base.round k).result → Concludes ⟨s, l, s'⟩ k result :=
    fun hsame => nomatch (hsame.trans hnew).symm.trans hresult
  cases roundMove_of_step hr hstep k with
  | kept _ hround => exact hgone (by rw [hround])
  | unheld _ _ hkept => exact hgone hkept.2
  | opens _ _ hround hopens =>
    obtain ⟨epoch, hash, deadline, hopened⟩ := hopens.opened hround
    have hsame := congrArg RoundView.result hopened
    exact hgone hsame
  | @vote c voting assignment key hl hk hchecked hcast =>
    rcases hcast with ⟨hlast, hfinal⟩ | ⟨-, hround⟩
    · obtain ⟨voting', assignment', hvoting', hclosed, hassigned', hvotes, hdecision,
        habsentees⟩ := finalizes_absentees hfinal hresult
      obtain ⟨_, _, -, hassigned, hcast⟩ := hfinal
      have hsame : assignment' = assignment := by
        have hpost := hassigned'
        rw [hcast] at hpost
        exact Option.some.inj (hpost.symm.trans hchecked.assignment_eq)
      subst hsame
      cases hvoting'
      refine ⟨voting, assignment', hchecked.voting_eq, hclosed, hassigned', habsentees,
        Or.inl ⟨c, hl, hk, fun id hid => ?_, hdecision⟩⟩
      rw [hvotes]
      exact all_voted hr hchecked hlast id hid
    · exact hgone (by rw [hround]; rfl)
  | @expires block hl hdue hfinal =>
    obtain ⟨voting, assignment, hvoting, hclosed, hassigned, -, hdecision, habsentees⟩ :=
      finalizes_absentees hfinal hresult
    obtain ⟨voting', hvoting', hlate⟩ := hdue
    cases hvoting.symm.trans hvoting'
    exact ⟨voting, assignment, hvoting, hclosed, hassigned, habsentees,
      Or.inr ⟨block, hl, hlate, hdecision⟩⟩

theorem decisionStep_of_step (hr : Chain.Run T h s) (hstep : Chain.Step T s l s') (k : RoundKey) :
    DecisionStep ⟨s, l, s'⟩ k := by
  have hsound := Workers.roundBook_sound (workersRun_of_run hr).choose_spec
  refine ⟨fun voting voting' decision hvoting hvoting' hlocked => ?_, fun result hresult => ?_,
    fun result hnew hresult => concludes_of_step hr hstep k hnew hresult,
    fun block hl hdue => ?_⟩
  · -- Only a vote changes a voting that stays open.
    cases roundMove_of_step hr hstep k with
    | kept _ hround =>
      rw [hround] at hvoting'
      cases hvoting.symm.trans hvoting'
      exact hlocked
    | unheld _ hclosed => cases hclosed.symm.trans hvoting
    | opens _ hclosed => cases hclosed.symm.trans hvoting
    | vote _ _ hchecked hcast =>
      cases hchecked.voting_eq.symm.trans hvoting
      rcases hcast with ⟨-, voting'', assignment, -, -, hfinal⟩ | ⟨-, hround⟩
      · rw [hfinal] at hvoting'
        cases hvoting'
      · rw [hround] at hvoting'
        cases hvoting'
        exact countVote_locked hlocked _
    | expires _ _ hfinal =>
      obtain ⟨voting'', assignment, -, -, hfinal⟩ := hfinal
      rw [hfinal] at hvoting'
      cases hvoting'
  · -- A round with a result has no open voting.
    have hclosed : (s.base.round k).voting = none := by
      by_contra hopen
      cases (hsound.unsettled k hopen).symm.trans hresult
    cases roundMove_of_step hr hstep k with
    | kept _ hround => rwa [hround]
    | unheld _ _ hkept => exact hkept.2.trans hresult
    | opens _ _ hround hopens =>
      obtain ⟨epoch, hash, deadline, hopened⟩ := hopens.opened hround
      have hsame := congrArg RoundView.result hopened
      exact hsame.trans hresult
    | vote _ _ hchecked => cases hclosed.symm.trans hchecked.voting_eq
    | expires _ hdue =>
      obtain ⟨voting, hvoting, -⟩ := hdue
      cases hclosed.symm.trans hvoting
  · cases hl
    have hhook : (inWorkers (Workers.onInitialize block) : M T Unit) s = .ok () s' := hstep
    obtain ⟨base, hbase, rfl⟩ := Tx.zoom_ok.mp hhook
    refine (Workers.onInitialize_attempts hsound hbase hdue).imp_left ?_
    rintro ⟨hattempt, voting, assignment, -, -, hfinal⟩
    refine ⟨hattempt, ?_⟩
    rw [hfinal]
    exact Option.some_ne_none _

/-! ### The decision -/

omit [DecidableEq AccountId] in
/-- Two rounds with the same votes have the same ballot up to its order. -/
theorem ballot_perm {h' : Chain.History T} {k' : RoundKey}
    (hdistinct : ((acceptedVotes k h).map CastVote.workerId).Nodup)
    (hdistinct' : ((acceptedVotes k' h').map CastVote.workerId).Nodup)
    (hsame : ∀ id verdict, VotedIn h k id verdict ↔ VotedIn h' k' id verdict) :
    (ballot k h).Perm (ballot k' h') := by
  -- Workers vote once, so the pairs of worker and verdict form a set.
  let pair : CastVote → WorkerId × Verdict := fun c => (c.workerId, c.vote.verdict)
  have hnodup : ∀ votes : List CastVote, (votes.map CastVote.workerId).Nodup →
      (votes.map pair).Nodup := by
    intro votes hids
    refine List.Nodup.of_map Prod.fst ?_
    rwa [List.map_map]
  have hmem : ∀ (h : Chain.History T) (k : RoundKey) (p : _),
      p ∈ (acceptedVotes k h).map pair ↔ VotedIn h k p.1 p.2 := by
    intro h k p
    unfold VotedIn
    simp only [List.mem_map, pair, Prod.ext_iff]
  have hperm : ((acceptedVotes k h).map pair).Perm ((acceptedVotes k' h').map pair) := by
    refine (List.perm_ext_iff_of_nodup (hnodup _ hdistinct) (hnodup _ hdistinct')).mpr fun p => ?_
    rw [hmem, hmem, hsame]
  have hballot : ∀ (h : Chain.History T) (k : RoundKey),
      ballot k h = ((acceptedVotes k h).map pair).map fun p => p.2.isSupport := by
    intro h k
    rw [List.map_map]
    rfl
  rw [hballot, hballot]
  exact hperm.map _

/-- In every run, the counters of each open voting count the stored votes of the assigned
workers, and its lock is what these votes have decided in their order. Each step leaves a locked
decision and a result, and closes a voting with the last awaited vote or when the block hook
comes to it after its deadline and does not fail. The log has each closed round once, and the
slashes for absence are those of the absentees. When the two thresholds together exceed the
number of assigned workers, rounds with the same votes have the same decision, in whatever
order they came. -/
theorem votes_tallied_and_decided (hr : Chain.Run T h s) :
    (∀ k voting, (s.base.round k).voting = some voting →
      ∃ assignment, Tallied h k (s.base.round k) voting assignment) ∧
    (∀ t ∈ h, ∀ k, DecisionStep t k) ∧
    Workers.FinalizationLog s.base ∧
    (T.workers.workersPerWork.toNat <
        T.workers.supportThreshold.toNat + T.workers.opposeThreshold.toNat →
      ∀ h' s', Chain.Run T h' s' → ∀ k k' result result',
        (s.base.round k).result = some result → (s'.base.round k').result = some result' →
        (∀ id verdict, VotedIn h k id verdict ↔ VotedIn h' k' id verdict) →
        result'.decision = result.decision) := by
  refine ⟨fun k voting hvoting => tallied_of_run hr hvoting, fun t ht k => ?_,
    Workers.finalizationLog_of_run (workersRun_of_run hr).choose_spec, ?_⟩
  · obtain ⟨later, earlier, rfl⟩ := List.append_of_mem ht
    obtain ⟨hpre, hstep⟩ := hr.before
    exact decisionStep_of_step hpre hstep k
  · intro hthresholds h' s' hr' k k' result result' hresult hresult' hsame
    obtain ⟨hdistinct, hlength, hdecision⟩ := (roundTally_of_run hr k).closed result hresult
    obtain ⟨hdistinct', -, hdecision'⟩ := (roundTally_of_run hr' k').closed result' hresult'
    -- The same workers voted the same way, so the ballots differ in order only.
    have hperm := ballot_perm hdistinct hdistinct' hsame
    have hshort : (ballot k h).length <
        T.workers.supportThreshold.toNat + T.workers.opposeThreshold.toNat := by
      unfold ballot
      rw [List.length_map]
      omega
    rw [hdecision, hdecision', Ballot.locked_perm hshort hperm]

end

open Reference

/-- In the runtime configuration: one round that its worker votes in, and one that it misses. -/
theorem votes_tallied_and_decided_missed_round :
    ∃ h, ∃ s : State (runtime consumeAll), Chain.Run _ h s ∧
      s.base.finalizations = [(0, 0), (1, 0)] ∧ s.base.absences = [0] ∧
      Workers.FinalizationLog s.base ∧ ∀ t ∈ h, ∀ k, DecisionStep t k := by
  obtain ⟨h, s, hrun, hfinal, habsent⟩ := exists_run
    (runtime consumeAll)
    (voteThrough 0 2 1 ++ (voteThrough 1 2 2).take 2 ++
      [.workersOnInitialize 1000001])
    (fun s => s.base.finalizations = [(0, 0), (1, 0)] ∧ s.base.absences = [0]) (by decide +kernel)
  obtain ⟨-, hsteps, hlog, -⟩ := votes_tallied_and_decided hrun
  exact ⟨h, s, hrun, hfinal, habsent, hlog, hsteps⟩

/-- The runtime configuration with a support threshold of zero. -/
def zeroSupport : Config AccountId32 Reference.Ledger :=
  { runtime consumeAll with
    workers := { Runtime.workersConfig (environment consumeAll) with
      supportThreshold := 0 } }

/-- With a support threshold of zero, a voting opens with the threshold reached and nothing
locked. -/
theorem zero_threshold_unlocked :
    ∃ h, ∃ s : State zeroSupport, ∃ voting, Chain.Run _ h s ∧
      (s.base.round (0, 0)).voting = some voting ∧
      zeroSupport.workers.supportThreshold.toNat ≤ voting.support ∧ voting.locked = none := by
  obtain ⟨h, s, hrun, voting, hvoting, hlocked⟩ := exists_run zeroSupport
    ((voteThrough 0 2 1).take 2)
    (fun s => ∃ voting, (s.base.round (0, 0)).voting = some voting ∧ voting.locked = none)
    (by decide +kernel)
  exact ⟨h, s, voting, hrun, hvoting, Nat.zero_le _, hlocked⟩

end MiniJam.Jam
