import MiniJam.Proofs.RoundHistory
import MiniJam.Runtime.Reference

/-!
# `MiniJam.Proofs.Quorum`: an accepted work had a quorum

`accepted_work_has_quorum` reads the quorum of an accepted or imported work out of the history of
its round: enough different assigned workers supported its candidate before the opposition reached
its threshold. The input of the virtual block hands over the report they voted on, because a
candidate is stored with the hash of its report and never replaced.

An opposition threshold of zero is reached by no votes at all. Support is looked at first, so a
work can still be accepted then, without any opposition.
-/

set_option autoImplicit false

namespace MiniJam.Jam

open Workers (RoundKey)

variable {AccountId Ledger : Type} {T : Config AccountId Ledger}
variable {s : State T} {k : RoundKey} {h : Chain.History T}
  {id : WorkId}

/-- A work that was accepted at some point of a run is in the same round now, with the same
candidate. -/
theorem accepted_stays [DecidableEq AccountId] (hr : Chain.Run T h s)
    {t : Chain.TakenStep T} (ht : t ∈ h) {work₀ : WorkRecord AccountId}
    (hwork₀ : t.pre.works.lookup id = some work₀) (haccepted : work₀.status = .accepted) :
    ∃ work, s.works.lookup id = some work ∧ work.status.Passed ∧ work.round = work₀.round ∧
      (s.view id).candidates = (t.pre.view id).candidates := by
  revert ht
  refine life_invariant (I := fun h s => t ∈ h → ∃ work, s.works.lookup id = some work ∧
    work.status.Passed ∧ work.round = work₀.round ∧
      (s.view id).candidates = (t.pre.view id).candidates) id
    (fun s _ ht => absurd ht List.not_mem_nil) (fun h s l s' ih hmove ht => ?_)
    (workRun_of_run hr)
  rcases List.mem_cons.mp ht with rfl | ht
  · exact hmove.passed hwork₀ (Or.inl haccepted)
  · obtain ⟨work, hwork, hpassed, hround, hcandidates⟩ := ih ht
    obtain ⟨work', hwork', hpassed', hround', hcandidates'⟩ := hmove.passed hwork hpassed
    exact ⟨work', hwork', hpassed', hround'.trans hround, hcandidates'.trans hcandidates⟩

/-! ### The quorum -/

theorem castVote_eq_some {l : Chain.Label T} {c : CastVote} (hl : castVote l = some c) :
    ∃ origin, l = (.extrinsic origin (.submitVote c.workerId c.vote c.signature), none) := by
  unfold castVote at hl
  split at hl
  · cases hl
    exact ⟨_, rfl⟩
  · cases hl

/-- An accepted vote was sent in one of the steps. -/
theorem mem_acceptedVotes {c : CastVote} (hc : c ∈ acceptedVotes k h) :
    ∃ t ∈ h, (∃ origin, t.label =
      (.extrinsic origin (.submitVote c.workerId c.vote c.signature), none)) ∧
        (c.vote.workId, c.vote.round) = k := by
  obtain ⟨t, ht, hfilter⟩ := List.mem_filterMap.mp hc
  obtain ⟨hcast, hk⟩ := Option.filter_eq_some_iff.mp hfilter
  exact ⟨t, ht, castVote_eq_some hcast, by simpa using hk⟩

/-- In the step the worker's vote was accepted in the round: it supports the report of the
candidate, and its signature verifies under the key fixed for the worker in the step `t₀`. -/
def SupportsIn (t₀ t : Chain.TakenStep T) (k : RoundKey)
    (candidate : CandidateRecord AccountId) (workerId : WorkerId) : Prop :=
  ∃ origin vote signature key,
    t.label = (.extrinsic origin (.submitVote workerId vote signature), none) ∧
    (vote.workId, vote.round) = k ∧ vote.verdict = .support ∧
    vote.candidateReportHash = candidate.envelope.canonicalReportHash ∧
    t₀.post.base.assignmentKeys.lookup (k.1, k.2, workerId) = some key ∧
    T.workers.crypto.sr25519Verify signature (vote.signingHash T.workers.crypto) key = true

/-- A quorum for the candidate of a round. The worker set was assigned in one step of the
history. At some point of the history, enough different members of it had supported the
candidate, and the opposition was short of its threshold. -/
def HadQuorum (h : Chain.History T) (k : RoundKey)
    (candidate : CandidateRecord AccountId) : Prop :=
  ∃ t₀ assignment later earlier, ∃ supporters : List WorkerId,
    AssignedOnce h k t₀ assignment ∧ h = later ++ earlier ∧ supporters.Nodup ∧
    T.workers.supportThreshold.toNat ≤ supporters.length ∧
    (∀ workerId ∈ supporters, workerId ∈ assignment.toList ∧
      ∃ t ∈ earlier, SupportsIn t₀ t k candidate workerId) ∧
    (ballot k earlier).count false < max T.workers.opposeThreshold.toNat 1

variable {candidate : CandidateRecord AccountId}

/-- Votes that accepted a report make a quorum for it. -/
theorem VotesValid.hadQuorum {t₀ : Chain.TakenStep T}
    {assignment : Workers.Assignment T.workers} (hv : VotesValid h k t₀ assignment candidate)
    (hthreshold : 1 ≤ T.workers.supportThreshold.toNat)
    (hlocked : Ballot.locked T.workers.supportThreshold.toNat
      T.workers.opposeThreshold.toNat (ballot k h) = some true) : HadQuorum h k candidate := by
  -- The ballot had a moment of decision, and so had the history.
  obtain ⟨laterVotes, earlierVotes, hsplit, hsupport, hoppose⟩ :=
    Ballot.locked_accepted hthreshold hlocked
  obtain ⟨laterCast, earlierCast, hcast, -, hearlier⟩ := List.map_eq_append_iff.mp hsplit
  obtain ⟨later, earlier, rfl, -, hvotes⟩ := List.filterMap_eq_append_iff.mp hcast
  have hballot : ballot k earlier = earlierVotes := by
    rw [← hearlier, ← hvotes]
    rfl
  have hmem : ∀ c ∈ acceptedVotes k earlier, c ∈ acceptedVotes k (later ++ earlier) := by
    intro c hc
    unfold acceptedVotes
    rw [List.filterMap_append]
    exact List.mem_append_right _ hc
  have hsub : (acceptedVotes k earlier).Sublist (acceptedVotes k (later ++ earlier)) := by
    unfold acceptedVotes
    rw [List.filterMap_append]
    exact List.sublist_append_right _ _
  refine ⟨t₀, assignment, later, earlier, ((acceptedVotes k earlier).filter fun c =>
    c.vote.verdict.isSupport).map CastVote.workerId, hv.once, rfl, ?_, ?_, ?_, ?_⟩
  · exact hv.distinct.sublist ((List.filter_sublist.trans hsub).map _)
  · rw [List.length_map, ← List.countP_eq_length_filter]
    rw [← hballot] at hsupport
    unfold ballot at hsupport
    rw [List.count, List.countP_map] at hsupport
    refine hsupport.trans (List.countP_mono_left fun c _ hc => ?_)
    simpa using hc
  · intro workerId hworker
    obtain ⟨c, hc, rfl⟩ := List.mem_map.mp hworker
    obtain ⟨hc, hsupports⟩ := List.mem_filter.mp hc
    obtain ⟨hmember, hhash, key, hkey, hverified⟩ := hv.valid c (hmem c hc)
    obtain ⟨t, ht, ⟨origin, hlabel⟩, hk⟩ := mem_acceptedVotes hc
    have hverdict : c.vote.verdict = .support := by
      cases hverdict : c.vote.verdict with
      | support => rfl
      | oppose reason => rw [hverdict] at hsupports; cases hsupports
    exact ⟨hmember, t, ht, origin, c.vote, c.signature, key, hlabel, hk, hverdict, hhash, hkey,
      hverified⟩
  · rwa [hballot]

/-- The report handed over for a work with a checked candidate hashes to what was voted on. -/
theorem report_hash_of_input {block : BlockNumber} {input : MiniJamExecutionInput}
    (hhash : candidate.envelope.computedReportHash T.workers.crypto =
      candidate.envelope.canonicalReportHash)
    (hcandidate : ∀ work, s.works.lookup id = some work → work.status = .accepted →
      s.candidates.lookup (id, work.round) = some candidate)
    (hinput : executionInput s block (dueItems s block) = .ok input) :
    List.Forall₂ (fun item report => item.workId = id →
      T.workers.crypto.blake2_256 report.toList = candidate.envelope.canonicalReportHash)
      (dueItems s block) input.reports.toList := by
  refine (executionInput_ok hinput).reports.imp fun item report hreport hid => ?_
  obtain ⟨work, candidate', hwork, hstatus, hcandidate', rfl⟩ := dueReport_ok.mp hreport
  rw [hid] at hwork hcandidate'
  rw [hcandidate work hwork hstatus] at hcandidate'
  cases hcandidate'
  exact hhash

/-- In every run, a work that is accepted or imported had a quorum for the candidate of its
round, and every input built on the way hands over a report of that hash for it. -/
theorem accepted_work_has_quorum [DecidableEq AccountId]
    (hthreshold : 1 ≤ T.workers.supportThreshold.toNat) (hr : Chain.Run T h s) {id : WorkId}
    {work : WorkRecord AccountId} (hwork : s.works.lookup id = some work)
    (hpassed : work.status = .accepted ∨ work.status = .imported) :
    ∃ candidate, s.candidates.lookup (id, work.round) = some candidate ∧
      HadQuorum h (id, work.round) candidate ∧
      ∀ s₀ ∈ s :: h.map Transition.pre, ∀ block input,
        executionInput s₀ block (dueItems s₀ block) = .ok input →
        List.Forall₂ (fun item report => item.workId = id →
          T.workers.crypto.blake2_256 report.toList = candidate.envelope.canonicalReportHash)
          (dueItems s₀ block) input.reports.toList := by
  have hlived := ((workLived_some (v := s.view id) hwork).mp
    (workLived_of_run (workRun_of_run hr) id)).1
  have hstate : ∃ t₀ assignment candidate, VotesValid h (id, work.round) t₀ assignment candidate ∧
      s.candidates.lookup (id, work.round) = some candidate ∧
      Ballot.locked T.workers.supportThreshold.toNat T.workers.opposeThreshold.toNat
        (ballot (id, work.round) h) = some true := by
    rcases hpassed with hstatus | hstatus <;> rw [hstatus] at hlived <;> cases hlived with
    | accepted _ hvalid hstored _ hlocked => exact ⟨_, _, _, hvalid, hstored, hlocked⟩
  obtain ⟨t₀, assignment, candidate, hvalid, hstored, hlocked⟩ := hstate
  refine ⟨candidate, hstored, hvalid.hadQuorum hthreshold hlocked, ?_⟩
  intro s₀ hs₀ block input hinput
  refine report_hash_of_input hvalid.hash (fun work₀ hwork₀ haccepted => ?_) hinput
  rcases List.mem_cons.mp hs₀ with rfl | hpast
  · rw [hwork] at hwork₀
    cases hwork₀
    exact hstored
  · -- The work was accepted then, so its candidate is still the same one.
    obtain ⟨t, ht, rfl⟩ := List.mem_map.mp hpast
    obtain ⟨work', hwork', -, hround, hcandidates⟩ := accepted_stays hr ht hwork₀ haccepted
    rw [hwork] at hwork'
    cases hwork'
    rw [← hround, ← hstored]
    exact (congrFun hcandidates work.round).symm

open Reference

/-- One supporting vote in the runtime configuration. -/
theorem accepted_work_has_quorum_single :
    ∃ h, ∃ s : State (runtime consumeAll), ∃ work candidate,
      Chain.Run _ h s ∧ s.works.lookup 0 = some work ∧ work.status = .accepted ∧
      HadQuorum h (0, work.round) candidate := by
  obtain ⟨h, s, hrun, work, hwork, hstatus⟩ := exists_run
    (runtime consumeAll) (voteThrough 0 2 1 ++ [.jamOnInitialize 1])
    (fun s => ∃ work, s.works.lookup 0 = some work ∧ work.status = .accepted) (by decide +kernel)
  obtain ⟨candidate, -, hquorum, -⟩ :=
    accepted_work_has_quorum (by decide) hrun hwork (Or.inl hstatus)
  exact ⟨h, s, work, candidate, hrun, hwork, hstatus, hquorum⟩

/-- The runtime configuration with an opposition threshold of zero. -/
def zeroOppose : Config AccountId32 Reference.Ledger :=
  { runtime consumeAll with
    workers := { Runtime.workersConfig (environment consumeAll) with
      opposeThreshold := 0 } }

/-- With an opposition threshold of zero a supported work is accepted, although no number of
opposing votes is below the threshold. -/
theorem accepted_at_zero_oppose_threshold :
    ∃ h, ∃ s : State zeroOppose, ∃ work, 1 ≤ zeroOppose.workers.supportThreshold.toNat ∧
      Chain.Run _ h s ∧ s.works.lookup 0 = some work ∧ work.status = .accepted ∧
      ∀ later earlier, h = later ++ earlier →
        ¬ (ballot (0, work.round) earlier).count false <
          zeroOppose.workers.opposeThreshold.toNat := by
  obtain ⟨h, s, hrun, work, hwork, hstatus⟩ := exists_run zeroOppose
    (voteThrough 0 2 1 ++ [.jamOnInitialize 1])
    (fun s => ∃ work, s.works.lookup 0 = some work ∧ work.status = .accepted) (by decide +kernel)
  exact ⟨h, s, work, by decide, hrun, hwork, hstatus, fun _ _ _ => Nat.not_lt_zero _⟩

end MiniJam.Jam
