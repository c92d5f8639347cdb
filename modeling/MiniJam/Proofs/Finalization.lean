import MiniJam.Proofs.Duties

/-!
# `MiniJam.Proofs.Finalization`: how votings end

A voting ends with the last awaited vote, or in the first block after its deadline in which its
settlement does not fail. Either way the locked decision becomes the result of the round, and
the assigned workers without a vote are its absentees (`Finalizes`).

The log tells the same. `FinalizationLog` reads off the events which rounds were finalized and
who was slashed for absence: each round at most once, and the absentees of these rounds, one
after the other, and nobody else.
-/

set_option autoImplicit false

namespace MiniJam.Workers

variable {AccountId Ledger : Type} {T : Config AccountId Ledger} {s s' : State T}

/-! ### The block hook -/

/-- The hook goes through the list of open votings. -/
theorem finalizeDueVotes_eq (block : BlockNumber) (s : State T) :
    finalizeDueVotes block s = Tx.forEach (finalizeIfDue block) s.openVoteRounds.toList s := rfl

/-- The voting of the round is open, and the block is after its deadline. -/
def RoundView.Overdue (block : BlockNumber) (v : RoundView T) : Prop :=
  ∃ voting, v.voting = some voting ∧ voting.deadline < block

variable {block : BlockNumber} {k : RoundKey}

/-- The round is as it was, or its voting was overdue and is closed now. -/
def Expires (block : BlockNumber) (v v' : RoundView T) : Prop :=
  v' = v ∨ v.Overdue block ∧ Finalizes v v'

/-- Two parts of the hook expire a voting once. -/
theorem Expires.trans {v₁ v₂ v₃ : RoundView T} (h₁ : Expires block v₁ v₂)
    (h₂ : Expires block v₂ v₃) :
    Expires block v₁ v₃ := by
  rcases h₁ with rfl | ⟨hdue, voting, assignment, hvoting, hassigned, rfl⟩
  · exact h₂
  · -- A closed voting is not closed again.
    rcases h₂ with rfl | ⟨⟨_, hopen, -⟩, -⟩
    · exact Or.inr ⟨hdue, voting, assignment, hvoting, hassigned, rfl⟩
    · cases hopen

def RoundExpires (block : BlockNumber) (k : RoundKey) (s s' : State T) : Prop :=
  Expires block (s.round k) (s'.round k)

instance (block : BlockNumber) (k : RoundKey) : Std.Refl (RoundExpires (T := T) block k) :=
  ⟨fun _ => Or.inl rfl⟩

instance (block : BlockNumber) (k : RoundKey) : IsTrans (State T) (RoundExpires block k) :=
  ⟨fun _ _ _ h₁ h₂ => Expires.trans h₁ h₂⟩

/-- A failed settlement is no error of the hook. -/
theorem finalizeIfDue_noErr (block : BlockNumber) (k : RoundKey) :
    Tx.NoErr (finalizeIfDue block k : M T Unit) := by
  refine Tx.NoErr.bind Tx.NoErr.read fun s => ?_
  split
  · exact Tx.NoErr.ite (Tx.NoErr.ignore _) (Tx.NoErr.pure ())
  · exact Tx.NoErr.pure ()

/-- The other rounds are as they were. -/
theorem finalizeIfDue_kept {k' : RoundKey} (hk : k' ≠ k) :
    Tx.Rel (RoundKept k') (finalizeIfDue block k : M T Unit) := by
  refine Tx.Rel.intro (fun s _ s' h => ?_) fun s e s' h =>
    absurd h (finalizeIfDue_noErr block k s e s')
  rcases finalizeIfDue_ok h with ⟨rfl, -⟩ | ⟨-, hfinal | ⟨rfl, -⟩⟩
  · exact Std.Refl.refl _
  · exact (finalizeVoting_finalizes hfinal).2 k' hk
  · exact Std.Refl.refl _

/-- A voting ends after its deadline only. -/
theorem finalizeIfDue_expires (block : BlockNumber) (k k' : RoundKey) :
    Tx.Rel (RoundExpires block k') (finalizeIfDue block k : M T Unit) := by
  by_cases hk : k' = k
  · subst hk
    refine Tx.Rel.intro (fun s _ s' h => ?_) fun s e s' h =>
      absurd h (finalizeIfDue_noErr block k' s e s')
    rcases finalizeIfDue_ok h with ⟨rfl, -⟩ | ⟨hdue, hfinal | ⟨rfl, -⟩⟩
    · exact Or.inl rfl
    · exact Or.inr ⟨hdue, (finalizeVoting_finalizes hfinal).1⟩
    · exact Or.inl rfl
  · exact (finalizeIfDue_kept hk).mono fun _ _ hkept => Or.inl hkept

/-- The attempt of the block hook to finalize a round: the open votings before it in the list
have had their turn. -/
def finalizationAttempt (block : BlockNumber) (k : RoundKey) (s : State T) :
    Outcome (State T) DispatchError Unit :=
  (Tx.forEach (finalizeIfDue block) (s.openVoteRounds.toList.takeWhile fun k' => decide (k' ≠ k))
    >>= fun _ => finalizeVoting k.1 k.2) s

/-- An overdue voting is closed by the block hook exactly when the attempt does not fail. -/
theorem finalizeDueVotes_attempts (hsound : s.roundBook.Sound)
    (h : finalizeDueVotes block s = .ok () s') (hdue : (s.round k).Overdue block) :
    (∃ s₁, finalizationAttempt block k s = .ok () s₁) ∧ Finalizes (s.round k) (s'.round k) ∨
      (∃ e s₁, finalizationAttempt block k s = .err e s₁) ∧ s'.round k = s.round k := by
  rw [finalizeDueVotes_eq] at h
  -- The round is listed once, so the loop splits at it.
  have hlisted : k ∈ s.openVoteRounds.toList := by
    refine (hsound.open_iff k).mpr ?_
    obtain ⟨voting, hvoting, -⟩ := hdue
    exact ne_of_eq_of_ne hvoting (Option.some_ne_none voting)
  obtain ⟨before, after, hsplit⟩ := List.append_of_mem hlisted
  have hnodup : (before ++ k :: after).Nodup := hsplit ▸ hsound.open_nodup
  have hbefore : ∀ k' ∈ before, k ≠ k' := by
    rintro k' hmem rfl
    exact (List.nodup_append.mp hnodup).2.2 k hmem k (List.mem_cons_self ..) rfl
  have hafter : ∀ k' ∈ after, k ≠ k' := by
    rintro k' hmem rfl
    exact (List.nodup_cons.mp (List.nodup_append.mp hnodup).2.1).1 hmem
  have htaken : s.openVoteRounds.toList.takeWhile (fun k' => decide (k' ≠ k)) = before := by
    rw [hsplit, List.takeWhile_append_of_pos fun k' hmem => decide_eq_true (hbefore k' hmem).symm]
    simp
  rw [hsplit, Tx.forEach_append] at h
  obtain ⟨_, s₁, hearlier, h⟩ := Tx.bind_ok.mp h
  obtain ⟨_, s₂, hnow, hlater⟩ := Tx.bind_ok.mp h
  have hkept₁ : s₁.round k = s.round k := (Tx.Rel.forEach (R := RoundKept k)
    fun k' hmem => finalizeIfDue_kept (hbefore k' hmem)).of_ok hearlier
  have hkept₂ : s'.round k = s₂.round k := (Tx.Rel.forEach (R := RoundKept k)
    fun k' hmem => finalizeIfDue_kept (hafter k' hmem)).of_ok hlater
  have hattempt : finalizationAttempt block k s = finalizeVoting k.1 k.2 s₁ := by
    unfold finalizationAttempt
    rw [htaken, Tx.bind_apply, hearlier]
  rw [hattempt, hkept₂, ← hkept₁]
  rw [← hkept₁] at hdue
  rcases finalizeIfDue_ok hnow with ⟨-, hnot⟩ | ⟨-, hfinal | ⟨rfl, e, hfailed⟩⟩
  · exact absurd hdue hnot
  · exact Or.inl ⟨⟨s₂, hfinal⟩, (finalizeVoting_finalizes hfinal).1⟩
  · exact Or.inr ⟨⟨e, s₂, hfailed⟩, rfl⟩

/-- What comes after the votings in the block hook touches no round. -/
theorem onInitialize_votings (h : onInitialize block s = .ok () s') :
    ∃ s₁, finalizeDueVotes block s = .ok () s₁ ∧ ∀ k, s'.round k = s₁.round k := by
  obtain ⟨s₁, hdue, hboundary⟩ := onInitialize_boundary (fun _ _ h => h.stake) h
  exact ⟨s₁, hdue, fun k => roundKept_of_within hboundary k⟩

/-- What the hook does to a round. -/
theorem onInitialize_expires (h : onInitialize block s = .ok () s') (k : RoundKey) :
    Expires block (s.round k) (s'.round k) := by
  obtain ⟨s₁, hdue, hkept⟩ := onInitialize_votings h
  rw [hkept]
  exact (Tx.Rel.forEach (R := RoundExpires block k)
    fun k' _ => finalizeIfDue_expires block k' k).of_ok hdue

/-- The hook tries to finalize every overdue voting. -/
theorem onInitialize_attempts (hsound : s.roundBook.Sound) (h : onInitialize block s = .ok () s')
    (hdue : (s.round k).Overdue block) :
    (∃ s₁, finalizationAttempt block k s = .ok () s₁) ∧ Finalizes (s.round k) (s'.round k) ∨
      (∃ e s₁, finalizationAttempt block k s = .err e s₁) ∧ s'.round k = s.round k := by
  obtain ⟨s₁, hvotings, hkept⟩ := onInitialize_votings h
  rw [hkept]
  exact finalizeDueVotes_attempts hsound hvotings hdue

/-! ### Rounds before their votings -/

/-- Nobody is assigned to a round twice, and nobody has voted in a round whose voting has not
been opened. -/
structure RoundView.Clean (v : RoundView T) : Prop where
  distinct : ∀ assignment, v.assignment = some assignment → assignment.toList.Nodup
  unvoted : v.voting = none → v.result = none → ∀ id, v.votes id = none

/-- Settling leaves a clean round clean. -/
theorem RoundView.Clean.of_settles {v v' : RoundView T} (hv : v.Clean) (h : Settles v v') :
    v'.Clean := by
  rcases h with rfl | ⟨voting, result, -, -, rfl⟩
  · exact hv
  · refine ⟨hv.distinct, fun _ hresult => ?_⟩
    cases hresult

/-- Forgetting duties adds no votes. -/
theorem clearAssignment_votes (h : clearAssignment k.1 k.2 s = .ok () s') {id : WorkerId}
    (hnone : (s.round k).votes id = none) : (s'.round k).votes id = none := by
  obtain ⟨keys, votes, rfl, -, hvotes⟩ := clearAssignment_writes h
  refine Option.eq_none_iff_forall_ne_some.mpr fun vote hvote => ?_
  cases hnone.symm.trans (hvotes.subset _ vote hvote)

variable {round : AssignmentRound} {a : Action AccountId Ledger}

theorem clearAssignment_clean {workId : WorkId} (h : clearAssignment workId round s = .ok () s')
    (hk : (s.round k).Clean) : (s'.round k).Clean := by
  by_cases hkey : k = (workId, round)
  · subst hkey
    obtain ⟨⟨keys, votes, hclears⟩, -⟩ := clearAssignment_ok h
    constructor
    · intro assignment hassigned
      rw [hclears] at hassigned
      cases hassigned
    · intro hvoting hresult id
      rw [hclears] at hvoting hresult
      exact clearAssignment_votes (k := (workId, round)) h (hk.unvoted hvoting hresult id)
  · have hkept : s'.round k = s.round k := (clearAssignment_ok h).2 k hkey
    rwa [hkept]

theorem assignWork_clean {workId : WorkId} {assignment : Assignment T}
    (hdistinct : s.activeWorkers.toList.Nodup) (h : assignWork workId round s = .ok assignment s')
    (hk : (s.round k).Clean) : (s'.round k).Clean := by
  by_cases hkey : k = (workId, round)
  · subst hkey
    rcases assignWork_ok h with ⟨-, rfl⟩ | ⟨hfree, keys, hassigned⟩
    · exact hk
    · rw [hassigned]
      refine ⟨fun assignment' hnew => ?_, hk.unvoted⟩
      cases hnew
      exact (assignWork_assigns hdistinct hfree h).chooses.nodup
  · have hkept : s'.round k = s.round k := (assignWork_kept hkey).of_ok h
    rwa [hkept]

theorem clean_of_action [DecidableEq AccountId] (hdistinct : s.activeWorkers.toList.Nodup)
    (h : a.run s = .ok () s') (hk : (s.round k).Clean) : (s'.round k).Clean := by
  cases a with
  | register origin sessionKey stake =>
    exact hk.of_settles (settled_of_within (register_within (Tx.transaction_ok.mp h)) k)
  | scheduleUpdate origin sessionKey stake =>
    exact hk.of_settles (settled_of_within (scheduleUpdate_within (Tx.transaction_ok.mp h)) k)
  | submitVote origin workerId vote signature =>
    obtain ⟨⟨voting, assignment, key, -, hcast⟩, hothers⟩ :=
      submitVote_ok (Tx.transaction_ok.mp h)
    by_cases hkey : k = (vote.workId, vote.round)
    · -- The voting is open with the vote, and it has a result when it is closed.
      subst hkey
      have hopen : ((s.round (vote.workId, vote.round)).cast workerId vote.verdict
          voting).Clean := by
        refine ⟨hk.distinct, fun hvoting => ?_⟩
        cases hvoting
      exact hopen.of_settles hcast
    · exact hk.of_settles (hothers k hkey)
  | submitEquivocation origin workerId first firstSignature second secondSignature =>
    exact hk.of_settles (settled_of_within (submitEquivocation_within (Tx.transaction_ok.mp h)) k)
  | openVoting workId round candidateHash deadline =>
    by_cases hkey : k = (workId, round)
    · subst hkey
      obtain ⟨-, -, epoch, hopened⟩ := openVoting_ok h
      rw [hopened]
      refine ⟨hk.distinct, fun hvoting => ?_⟩
      cases hvoting
    · have hkept : s'.round k = s.round k := openVoting_kept hkey h
      rwa [hkept]
  | assignWork workId round =>
    obtain ⟨assignment, s₁, hassign, h⟩ := Tx.bind_ok.mp h
    cases h
    exact assignWork_clean hdistinct hassign hk
  | clearAssignment workId round => exact clearAssignment_clean h hk
  | onInitialize block => exact hk.of_settles ((onInitialize_settled block k).of_ok h)
  | system blockNumber blockHash ledger =>
    cases h
    exact hk

variable {h : History T}

theorem clean_of_run [DecidableEq AccountId] (hr : Run T h s) (k : RoundKey) :
    (s.round k).Clean := by
  refine hr.ok_invariant (I := fun s => (s.round k).Clean) (fun s hs => ?_)
    fun a hrun hclean ha => clean_of_action (roster_of_run hrun).distinct ha hclean
  obtain ⟨workers, ledger, hbuild⟩ := hs
  have hround : s.round k = (State.init T ledger).round k :=
    roundKept_of_within ((genesisBuild_within workers).of_ok hbuild) k
  rw [hround]
  refine ⟨fun assignment hassigned => ?_, fun _ _ _ => rfl⟩
  cases hassigned

/-! ### The log of the finalized rounds -/

/-- The worker an event reports as slashed for its absence. -/
def Event.absentee : Event T → Option WorkerId
  | .workerSlashed workerId _ => some workerId
  | _ => none

/-- The round an event reports as finalized. -/
def Event.finalized : Event T → Option RoundKey
  | .votingFinalized workId round _ => some (workId, round)
  | _ => none

/-- The slashes for absence, the first one first. -/
def State.absences (s : State T) : List WorkerId := s.events.filterMap Event.absentee

/-- The finalized rounds, the first one first. -/
def State.finalizations (s : State T) : List RoundKey := s.events.filterMap Event.finalized

/-- The absentees of a round that has a result. -/
def State.absenteesOf (s : State T) (k : RoundKey) : List WorkerId :=
  (s.roundResults.lookup k).elim [] fun result => result.absentees.toList

/-- The log of the finalized rounds agrees with their results: each was finalized once, and the
slashes for absence are those of their absentees. -/
structure FinalizationLog (s : State T) : Prop where
  once : s.finalizations.Nodup
  finalized : ∀ k, k ∈ s.finalizations ↔ s.roundResults.lookup k ≠ none
  absences : s.absences = s.finalizations.flatMap s.absenteesOf

/-- Neither a result nor an event about the end of a round is written. -/
structure LogKept (s s' : State T) : Prop where
  results : s'.roundResults = s.roundResults
  absences : s'.absences = s.absences
  finalizations : s'.finalizations = s.finalizations

instance : Std.Refl (LogKept (T := T)) := ⟨fun _ => ⟨rfl, rfl, rfl⟩⟩

instance : IsTrans (State T) LogKept where
  trans _ _ _ h₁ h₂ := ⟨h₂.results.trans h₁.results, h₂.absences.trans h₁.absences,
    h₂.finalizations.trans h₁.finalizations⟩

theorem LogKept.of_events (hresults : s'.roundResults = s.roundResults)
    (hevents : s'.events = s.events) : LogKept s s' :=
  ⟨hresults, congrArg (List.filterMap _) hevents, congrArg (List.filterMap _) hevents⟩

theorem LogKept.of_event {e : Event T} (hresults : s'.roundResults = s.roundResults)
    (hevents : s'.events = s.events ++ [e]) (habsent : e.absentee = none)
    (hfinal : e.finalized = none) : LogKept s s' := by
  refine ⟨hresults, ?_, ?_⟩
  · unfold State.absences
    simp [hevents, habsent]
  · unfold State.finalizations
    simp [hevents, hfinal]

theorem FinalizationLog.of_kept (hs : FinalizationLog s) (h : LogKept s s') :
    FinalizationLog s' := by
  have hof : s'.absenteesOf = s.absenteesOf := by
    funext k
    unfold State.absenteesOf
    rw [h.results]
  constructor
  · rw [h.finalizations]
    exact hs.once
  · rw [h.finalizations, h.results]
    exact hs.finalized
  · rw [h.absences, h.finalizations, hof]
    exact hs.absences

/-- Settling the assigned workers of a round slashes those that have not voted. -/
theorem settleDuties_log {ids : List WorkerId}
    (h : Tx.forEach (settleDuty k.1 k.2) ids s = .ok () s') :
    s'.finalizations = s.finalizations ∧ s'.roundResults = s.roundResults ∧ s'.votes = s.votes ∧
      s'.absences =
        s.absences ++ ids.filter fun id => !s.votes.contains (k.1, k.2, id) := by
  induction ids generalizing s with
  | nil =>
    cases h
    exact ⟨rfl, rfl, rfl, (List.append_nil _).symm⟩
  | cons id ids ih =>
    rw [Tx.forEach_cons] at h
    obtain ⟨_, s₁, hduty, hrest⟩ := Tx.bind_ok.mp h
    obtain ⟨hfinal, hresults, hvotes, habsences⟩ := ih hrest
    obtain ⟨worker, -, ⟨hvoted, ledger, -, rfl⟩ | ⟨habsent, ledger, actual, -, rfl⟩⟩ :=
      settleDuty_ok hduty
    · refine ⟨hfinal.trans ?_, hresults, hvotes, habsences.trans ?_⟩
      · simp [State.finalizations, Event.finalized]
      · rw [List.filter_cons_of_neg (by simp [hvoted])]
        simp [State.absences, Event.absentee]
    · refine ⟨hfinal.trans ?_, hresults, hvotes, habsences.trans ?_⟩
      · simp [State.finalizations, Event.finalized]
      · rw [List.filter_cons_of_pos (by simp [habsent])]
        simp [State.absences, Event.absentee]

/-- One more round is finalized. -/
theorem FinalizationLog.closes (hs : FinalizationLog s) {result : RoundResult T}
    (hnew : s.roundResults.lookup k = none)
    (hresults : s'.roundResults = s.roundResults.insert k result)
    (hfinal : s'.finalizations = s.finalizations ++ [k])
    (habsences : s'.absences = s.absences ++ result.absentees.toList) : FinalizationLog s' := by
  have hunlisted : k ∉ s.finalizations := fun hmem => (hs.finalized k).mp hmem hnew
  constructor
  · rw [hfinal]
    refine List.nodup_append.mpr ⟨hs.once, List.nodup_singleton k, ?_⟩
    rintro k' hmem k'' hk'' rfl
    rw [List.mem_singleton.mp hk''] at hmem
    exact hunlisted hmem
  · intro k'
    rw [hfinal, hresults, List.mem_append, List.mem_singleton, hs.finalized k',
      StorageMap.lookup_insert_eq]
    by_cases hk : k' = k
    · simp [hk]
    · simp [hk]
  · -- The rounds that were finalized before have the results they had.
    have hold : s.finalizations.flatMap s'.absenteesOf = s.finalizations.flatMap s.absenteesOf := by
      refine List.flatMap_congr fun k' hmem => ?_
      have hk : k' ≠ k := fun heq => hunlisted (heq ▸ hmem)
      unfold State.absenteesOf
      rw [hresults, AList.lookup_insert_ne hk]
    have hnow : s'.absenteesOf k = result.absentees.toList := by
      unfold State.absenteesOf
      rw [hresults, AList.lookup_insert]
      rfl
    rw [habsences, hfinal, hs.absences, List.flatMap_append, hold, List.flatMap_singleton, hnow]

theorem finalizeVoting_log (hsound : s.roundBook.Sound) (hs : FinalizationLog s)
    (h : finalizeVoting k.1 k.2 s = .ok () s') : FinalizationLog s' := by
  obtain ⟨voting, assignment, s₁, hvoting, -, hsettle, hs'⟩ := finalizeVoting_ok h
  obtain ⟨hfinal, hresults, hvotes, habsences⟩ := settleDuties_log hsettle
  have hevents := congrArg State.events hs'
  have hclosed : s'.roundResults = s.roundResults.insert k ⟨voting.locked, BoundedVec.takeFrom
      (assignment.toList.filter fun id => !s.votes.contains (k.1, k.2, id))⟩ := by
    rw [hs', ← show s₁.roundResults = s.roundResults from hresults,
      ← show s₁.votes = s.votes from hvotes]
  refine hs.closes (hsound.unsettled k ?_) hclosed ?_ ?_
  · exact ne_of_eq_of_ne hvoting (Option.some_ne_none voting)
  · have hlast : s'.finalizations = s₁.finalizations ++ [k] := by
      unfold State.finalizations
      rw [hevents, List.filterMap_append]
      rfl
    rw [hlast, hfinal]
    rfl
  · have hlast : s'.absences = s₁.absences := by
      unfold State.absences
      rw [hevents, List.filterMap_append]
      exact List.append_nil _
    rw [hlast, habsences, BoundedVec.toList_takeFrom]
    · rfl
    · exact Nat.le_trans (List.length_filter_le _ _) assignment.length_le

theorem finalizeDueVotes_log (hsound : s.roundBook.Sound) (hs : FinalizationLog s)
    (h : finalizeDueVotes block s = .ok () s') : FinalizationLog s' := by
  rw [finalizeDueVotes_eq] at h
  have hboth : s'.roundBook.Sound ∧ FinalizationLog s' := by
    refine Tx.forEach_invariant (I := fun s => s.roundBook.Sound ∧ FinalizationLog s)
      (fun k _ s₁ s₂ hi hone => ?_) ⟨hsound, hs⟩ h
    rcases finalizeIfDue_ok hone with ⟨rfl, -⟩ | ⟨-, hfinal | ⟨rfl, -⟩⟩
    · exact hi
    · exact ⟨((finalizeVoting_roundMoves _ _).of_ok hfinal).sound hi.1,
        finalizeVoting_log hi.1 hi.2 hfinal⟩
    · exact hi
  exact hboth.2

/-! ### The other functions leave the log -/

theorem BoundaryWrite.logKept (h : BoundaryWrite s s') : LogKept s s' := by
  cases h with
  | _ => exact .of_event rfl rfl rfl rfl

theorem onInitialize_log (hsound : s.roundBook.Sound) (hs : FinalizationLog s)
    (h : onInitialize block s = .ok () s') : FinalizationLog s' := by
  obtain ⟨s₁, hdue, hkept⟩ := onInitialize_boundary (fun _ _ h => h.logKept) h
  exact (finalizeDueVotes_log hsound hs hdue).of_kept hkept

theorem submitVote_log {origin : Origin AccountId} {workerId : WorkerId} {vote : WorkerVoteV1}
    {signature : Signature} (hsound : s.roundBook.Sound) (hs : FinalizationLog s)
    (h : submitVote origin workerId vote signature s = .ok () s') : FinalizationLog s' := by
  obtain ⟨voting, assignment, key, hchecked, hlast⟩ := submitVote_recorded h
  have hrecorded : FinalizationLog (s.recordVote workerId vote voting) :=
    hs.of_kept (.of_event rfl rfl rfl rfl)
  rcases hlast with ⟨-, hfinal⟩ | ⟨-, rfl⟩
  · have hsound' := (recordVote_roundMoves hchecked.voting_eq workerId).sound hsound
    exact finalizeVoting_log (k := (vote.workId, vote.round)) hsound' hrecorded hfinal
  · exact hrecorded

theorem log_of_action [DecidableEq AccountId] (hsound : s.roundBook.Sound) (hs : FinalizationLog s)
    (h : a.run s = .ok () s') : FinalizationLog s' := by
  cases a with
  | register origin sessionKey stake =>
    obtain ⟨owner, next, ledger, -, -, -, -, -, -, rfl⟩ := register_ok (Tx.transaction_ok.mp h)
    exact hs.of_kept (.of_event rfl rfl rfl rfl)
  | scheduleUpdate origin sessionKey stake =>
    obtain ⟨owner, id, worker, ledger, -, -, -, -, -, -, -, rfl⟩ :=
      scheduleUpdate_ok (Tx.transaction_ok.mp h)
    exact hs.of_kept (.of_event rfl rfl rfl rfl)
  | submitVote origin workerId vote signature =>
    exact submitVote_log hsound hs (Tx.transaction_ok.mp h)
  | submitEquivocation origin workerId first firstSignature second secondSignature =>
    obtain ⟨worker, key, ledger, actual, -, -, -, rfl⟩ :=
      submitEquivocation_ok (Tx.transaction_ok.mp h)
    exact hs.of_kept (.of_event rfl rfl rfl rfl)
  | openVoting workId round candidateHash deadline =>
    obtain ⟨rounds, epoch, -, -, -, rfl⟩ := openVoting_writes h
    exact hs.of_kept (.of_events rfl rfl)
  | assignWork workId round =>
    obtain ⟨assignment, s₁, hassign, h⟩ := Tx.bind_ok.mp h
    cases h
    have hwithin := (assignWork_duties workId round).of_ok hassign
    exact hs.of_kept (.of_events (hwithin.unchanged State.roundResults fun _ _ => rfl)
      (hwithin.unchanged State.events fun _ _ => rfl))
  | clearAssignment workId round =>
    obtain ⟨keys, votes, rfl, -, -⟩ := clearAssignment_writes h
    exact hs.of_kept (.of_events rfl rfl)
  | onInitialize block => exact onInitialize_log hsound hs h
  | system blockNumber blockHash ledger =>
    cases h
    exact hs.of_kept (.of_events rfl rfl)

/-- In every run the log of the finalized rounds agrees with their results. -/
theorem finalizationLog_of_run [DecidableEq AccountId] (hr : Run T h s) : FinalizationLog s := by
  refine hr.ok_invariant (I := FinalizationLog) (fun s hs => ?_)
    fun a hrun hlog ha => log_of_action (roundBook_sound hrun) hlog ha
  obtain ⟨workers, ledger, hbuild⟩ := hs
  have hwithin := (genesisBuild_genesisItems workers).of_ok hbuild
  have hinit : FinalizationLog (State.init T ledger) :=
    ⟨List.nodup_nil, fun _ => iff_of_false List.not_mem_nil fun h => h rfl, rfl⟩
  exact hinit.of_kept (.of_events (hwithin.unchanged State.roundResults fun _ _ => rfl)
    (hwithin.unchanged State.events fun _ _ => rfl))

end MiniJam.Workers
