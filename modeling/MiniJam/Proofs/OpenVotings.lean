import MiniJam.Proofs.RoundHistory
import MiniJam.Proofs.WorkMoves
import MiniJam.Proofs.WorkersRuns
import MiniJam.Proofs.RoundBook

/-!
# `MiniJam.Proofs.OpenVotings`: an open voting belongs to a work that waits for it

A voting opens with the report of a work, and from then on nothing moves the work until the
voting has a result. So every open voting is the one of the current round of a work that is in
voting (`votingsCurrent_of_run`), and what `RoundState.opened` says about that round holds.

The package of a work is fixed at its submission, where its size is bounded
(`packagesFit_of_run`).
-/

set_option autoImplicit false

namespace MiniJam.Jam

open Workers (RoundKey)

variable {AccountId Ledger : Type} {T : Config AccountId Ledger} {s s' : State T}

/-! ### What a step of its life keeps of a work -/

variable {v v' : WorkView T} {work : WorkRecord AccountId} {r : AssignmentRound} {id : WorkId}

/-- Preparing a round leaves the package. -/
theorem Prepares.package (h : Prepares v work v') :
    ∃ work', v'.work = some work' ∧
      work'.canonicalWorkPackage = work.canonicalWorkPackage := by
  cases h with
  | assigned hfree => exact ⟨_, rfl, rfl⟩
  | existing hassigned => exact ⟨_, rfl, rfl⟩
  | short => exact ⟨_, rfl, rfl⟩

/-- A work keeps its package. -/
theorem LifeStep.package (h : LifeStep v v') (hwork : v.work = some work) :
    ∃ work', v'.work = some work' ∧
      work'.canonicalWorkPackage = work.canonicalWorkPackage := by
  -- The record that a step changes is the one of the view.
  have hsame : ∀ {work' : WorkRecord AccountId}, v.work = some work' → work' = work := by
    intro work' hwork'
    exact Option.some.inj (hwork'.symm.trans hwork)
  cases h with
  | settle hsettles => exact ⟨work, hwork, rfl⟩
  | prepare hwork' _ hprepares => exact hsame hwork' ▸ hprepares.package
  | candidate hwork' => exact hsame hwork' ▸ ⟨_, rfl, rfl⟩
  | fail hwork' => exact hsame hwork' ▸ ⟨_, rfl, rfl⟩
  | advance hwork' _ _ _ hprepares =>
    obtain ⟨work', hnew, hpackage⟩ := hprepares.package
    exact ⟨work', hnew, hpackage.trans (hsame hwork' ▸ rfl)⟩
  | accept hwork' => exact hsame hwork' ▸ ⟨_, rfl, rfl⟩
  | imported hwork' => exact hsame hwork' ▸ ⟨_, rfl, rfl⟩

/-- The voting of the round and its result are what they were. -/
def VotingKept (v v' : Workers.RoundView T.workers) : Prop :=
  v'.voting = v.voting ∧ v'.result = v.result

variable {round : Workers.RoundView T.workers}

/-- A round that is replaced by one with the same voting. -/
theorem WorkView.setRound_votingKept (h : VotingKept (v.rounds r) round) (r' : AssignmentRound) :
    VotingKept (v.rounds r') ((v.setRound r round).rounds r') := by
  by_cases hr : r' = r
  · rw [hr, setRound_rounds_self]
    exact h
  · rw [setRound_rounds_of_ne v hr]
    exact ⟨rfl, rfl⟩

theorem Prepares.votingKept (h : Prepares v work v') (r : AssignmentRound) :
    VotingKept (v.rounds r) (v'.rounds r) := by
  cases h with
  | assigned hfree =>
    refine WorkView.setRound_votingKept ?_ r
    exact ⟨rfl, rfl⟩
  | existing hassigned => exact ⟨rfl, rfl⟩
  | short => exact ⟨rfl, rfl⟩

theorem setRound_clears (h : Workers.Clears (v.rounds r) round) (r' : AssignmentRound) :
    VotingKept (v.rounds r') ((v.setRound r round).rounds r') := by
  refine WorkView.setRound_votingKept ?_ r'
  obtain ⟨keys, votes, rfl⟩ := h
  exact ⟨rfl, rfl⟩

/-- The voting of the round of a work opens. -/
structure Opens (v v' : WorkView T) (work : WorkRecord AccountId) : Prop where
  work_eq : v.work = some work
  status : work.status = .awaitingCandidate
  work_post : v'.work = some { work with status := .voting }
  round : ∃ epoch hash deadline, v'.rounds work.round =
    { v.rounds work.round with voting := some ⟨epoch, hash, deadline, 0, 0, 0, none⟩ }

/-- A round without an open voting: a step leaves it so with the result it has, or opens its
voting. -/
theorem LifeStep.unopened (h : LifeStep v v') (hclosed : (v.rounds r).voting = none) :
    VotingKept (v.rounds r) (v'.rounds r) ∨ ∃ work, work.round = r ∧ Opens v v' work := by
  cases h with
  | @settle rounds hsettles =>
    left
    have hsame : rounds r = v.rounds r := (hsettles r).eq_of_closed hclosed
    exact ⟨congrArg _ hsame, congrArg _ hsame⟩
  | prepare _ _ hprepares => exact Or.inl (hprepares.votingKept r)
  | @candidate work candidate epoch deadline hwork hstatus =>
    by_cases hr : r = work.round
    · exact Or.inr ⟨work, hr.symm, hwork, hstatus, rfl, epoch, _, deadline,
        WorkView.setRound_rounds_self v work.round _⟩
    · left
      have hsame := WorkView.setRound_rounds_of_ne v hr { v.rounds work.round with
        voting := some ⟨epoch, candidate.envelope.canonicalReportHash, deadline, 0, 0, 0, none⟩ }
      exact ⟨congrArg _ hsame, congrArg _ hsame⟩
  | fail _ _ hclears => exact Or.inl (setRound_clears hclears r)
  | advance _ _ hclears _ hprepares =>
    left
    have hcleared := setRound_clears hclears r
    have hprepared := hprepares.votingKept r
    exact ⟨hprepared.1.trans hcleared.1, hprepared.2.trans hcleared.2⟩
  | accept _ _ _ _ hclears => exact Or.inl (setRound_clears hclears r)
  | imported => exact Or.inl ⟨rfl, rfl⟩

variable {l : Chain.Label T} {block : BlockNumber}

theorem LifeMove.unopened (h : LifeMove s l s' id)
    (hclosed : ((s.view id).rounds r).voting = none) :
    VotingKept ((s.view id).rounds r) ((s'.view id).rounds r) ∨
      ∃ work, work.round = r ∧ Opens (s.view id) (s'.view id) work := by
  cases h with
  | quiet _ hstep => exact hstep.unopened hclosed
  | create _ _ _ _ _ hprepares => exact Or.inl (hprepares.votingKept r)
  | @vote c voting assignment key rounds _ _ hchecked _ hothers hview =>
    left
    -- The vote is for a round whose voting is open.
    have hr : r ≠ c.vote.round := by
      rintro rfl
      cases hclosed.symm.trans hchecked.voting_eq
    have hsame : rounds r = (s.view id).rounds r := (hothers r hr).eq_of_closed hclosed
    rw [hview]
    exact ⟨congrArg _ hsame, congrArg _ hsame⟩

/-- A voting that is open after a step was open before, or its work is in voting now. -/
theorem LifeMove.voting (h : LifeMove s l s' id) (hopen : ((s'.view id).rounds r).voting ≠ none) :
    ((s.view id).rounds r).voting ≠ none ∨
      ∃ work', s'.works.lookup id = some work' ∧ work'.round = r ∧ work'.status = .voting := by
  by_cases hclosed : ((s.view id).rounds r).voting = none
  · right
    rcases h.unopened hclosed with ⟨hkept, -⟩ | ⟨work, hround, hopens⟩
    · exact absurd (hkept.trans hclosed) hopen
    · exact ⟨_, hopens.work_post, hround, rfl⟩
  · exact Or.inl hclosed

/-! ### What a step keeps of all works -/

/-- The record of a work after a step: the package is the same, and a work whose voting has no
result is as it was. -/
structure Carried (s : State T) (id : WorkId) (work work' : WorkRecord AccountId) : Prop where
  package : work'.canonicalWorkPackage = work.canonicalWorkPackage
  waits : work.status = .voting → s.base.roundResults.lookup (id, work.round) = none →
    work' = work

/-- The works after a step: none is gone, and the package of a new one fits. -/
structure Carries (s s' : State T) : Prop where
  kept : ∀ id work, s.works.lookup id = some work →
    ∃ work', s'.works.lookup id = some work' ∧ Carried s id work work'
  created : ∀ id work', s.works.lookup id = none → s'.works.lookup id = some work' →
    work'.canonicalWorkPackage.length ≤ T.maxWorkPackageBytes.toNat

theorem Carries.of_works (h : s'.works = s.works) : Carries s s' := by
  refine ⟨fun id work hwork => ⟨work, h ▸ hwork, rfl, fun _ _ => rfl⟩, ?_⟩
  intro id work' hnone hsome
  rw [h, hnone] at hsome
  cases hsome

/-- A step for one work that exists. -/
theorem Carries.of_touches (h : Touches id s s') (hlives : LifeStep (s.view id) (s'.view id))
    (hwaits : ∀ work, s.works.lookup id = some work → work.status = .voting →
      s.base.roundResults.lookup (id, work.round) = none → s' = s) : Carries s s' := by
  have hothers : ∀ id', id' ≠ id → s'.works.lookup id' = s.works.lookup id' :=
    fun id' hid => congrArg WorkView.work (h.others id' hid)
  constructor
  · intro id' work hwork
    by_cases hid : id' = id
    · subst hid
      obtain ⟨work', hwork', hpackage⟩ := hlives.package hwork
      refine ⟨work', hwork', hpackage, fun hstatus hresult => ?_⟩
      cases hwaits work hwork hstatus hresult
      exact Option.some.inj (hwork'.symm.trans hwork)
    · exact ⟨work, (hothers id' hid).trans hwork, rfl, fun _ _ => rfl⟩
  · intro id' work' hnone hsome
    have habsent : s'.works.lookup id' = none := by
      by_cases hid : id' = id
      · subst hid
        exact hlives.absent hnone
      · exact (hothers id' hid).trans hnone
    rw [habsent] at hsome
    cases hsome

theorem Carries.trans {s₁ s₂ s₃ : State T} (h₁ : Carries s₁ s₂) (h₂ : Carries s₂ s₃)
    (hresults : s₂.base.roundResults = s₁.base.roundResults) : Carries s₁ s₃ := by
  constructor
  · intro id work hwork
    obtain ⟨work₂, hwork₂, hcarried₂⟩ := h₁.kept id work hwork
    obtain ⟨work₃, hwork₃, hcarried₃⟩ := h₂.kept id work₂ hwork₂
    refine ⟨work₃, hwork₃, hcarried₃.package.trans hcarried₂.package, fun hstatus hresult => ?_⟩
    obtain rfl := hcarried₂.waits hstatus hresult
    exact hcarried₃.waits hstatus (hresults ▸ hresult)
  · intro id work₃ hnone hwork₃
    cases hwork₂ : s₂.works.lookup id with
    | none => exact h₂.created id work₃ hwork₂ hwork₃
    | some work₂ =>
      obtain ⟨work, hwork, hcarried⟩ := h₂.kept id work₂ hwork₂
      cases hwork.symm.trans hwork₃
      rw [hcarried.package]
      exact h₁.created id work₂ hnone hwork₂

/-! ### The block hook -/

/-- A work in voting waits for the result. -/
theorem progressWork_waits (hwork : s.works.lookup id = some work) (hstatus : work.status = .voting)
    (hresult : s.base.roundResults.lookup (id, work.round) = none)
    (h : progressWork block id s = .ok () s') : s' = s := by
  unfold progressWork at h
  rw [Tx.read_bind_apply, hwork] at h
  simp only [hstatus, hresult] at h
  cases h
  rfl

theorem onInitialize_carries {ids : List WorkId}
    (h : Tx.forEach (progressWork block) ids s = .ok () s') : Carries s s' := by
  -- The loop also keeps the results, which is what a work in voting waits for.
  have hloop : Carries s s' ∧ s'.base.roundResults = s.base.roundResults := by
    refine Tx.forEach_invariant
      (I := fun s' => Carries s s' ∧ s'.base.roundResults = s.base.roundResults)
      (fun id _ s₁ s₂ hi hprogress => ?_) ⟨.of_works rfl, rfl⟩ h
    have hone : Carries s₁ s₂ := .of_touches ((progressWork_touches block id).of_ok hprogress)
      (progressWork_ok hprogress).lives
      fun work hwork hstatus hresult => progressWork_waits hwork hstatus hresult hprogress
    have hresults : s₂.base.roundResults = s₁.base.roundResults :=
      ((dutyless_frame (fun _ _ => rfl) (fun _ _ => rfl) id).progressWork (fun _ _ => rfl)
        block).of_ok hprogress
    exact ⟨hi.1.trans hone hi.2, hresults.trans hi.2⟩
  exact hloop.1

/-! ### Every step -/

section
variable [DecidableEq AccountId] {h : Chain.History T}

theorem carries_of_step (hpending : PendingInv s) (hstep : Chain.Step T s l s') : Carries s s' := by
  cases chainMove_of_step hstep with
  | workers hrun hs' =>
    rw [hs']
    exact .of_works rfl
  | @submitWork origin package bundleRef h =>
    obtain ⟨-, -, hothers, work, -, hpackage, hprepares⟩ := submitWork_ok h
    have hworks : ∀ id, id ≠ s.nextWorkId → s'.works.lookup id = s.works.lookup id :=
      fun id hid => congrArg WorkView.work (hothers id hid)
    constructor
    · intro id work hwork
      -- The next id is above those of all works.
      have hne : id ≠ s.nextWorkId :=
        UInt64.ne_of_lt (hpending.works_lt id (by rw [hwork]; exact nofun))
      exact ⟨work, (hworks id hne).trans hwork, rfl, fun _ _ => rfl⟩
    · intro id work' hnone hsome
      by_cases hid : id = s.nextWorkId
      · obtain ⟨work₁, hwork₁, hpackage₁⟩ := hprepares.package
        cases (hid ▸ hsome).symm.trans hwork₁
        rw [hpackage₁, hpackage]
        exact package.length_le
      · rw [hworks id hid, hnone] at hsome
        cases hsome
  | submitCandidate h =>
    obtain ⟨htouches, hlives, work, hwork, hstatus⟩ := submitCandidate_life h
    refine .of_touches htouches hlives fun work' hwork' hvoting _ => ?_
    -- The work awaits its candidate, so it is not in voting.
    cases hwork.symm.trans hwork'
    rw [hstatus] at hvoting
    cases hvoting
  | hook h => exact onInitialize_carries h
  | finalize h =>
    obtain ⟨-, -, -, -, -, hworks⟩ := onFinalize_works h
    constructor
    · intro id work hwork
      rcases hworks id with hsame | ⟨work', hwork', hstatus, himported⟩
      · exact ⟨work, hsame.trans hwork, rfl, fun _ _ => rfl⟩
      · -- Only accepted works are imported.
        cases hwork.symm.trans hwork'
        refine ⟨_, himported, rfl, fun hvoting _ => ?_⟩
        rw [hstatus] at hvoting
        cases hvoting
    · intro id work' hnone hsome
      rcases hworks id with hsame | ⟨work, hwork, -⟩
      · rw [hsame, hnone] at hsome
        cases hsome
      · rw [hnone] at hwork
        cases hwork
  | workless h => exact .of_works (h.unchanged State.works fun _ _ => rfl)

/-! ### Every run -/

/-- An open voting is the one of the current round of a work that is in voting. -/
theorem votingsCurrent_of_run (hr : Chain.Run T h s) {k : RoundKey} {voting : Workers.VotingRound}
    (hvoting : s.base.votingRounds.lookup k = some voting) :
    ∃ work, s.works.lookup k.1 = some work ∧ work.round = k.2 ∧ work.status = .voting := by
  suffices hall : ∀ k : RoundKey, s.base.votingRounds.lookup k ≠ none →
      ∃ work, s.works.lookup k.1 = some work ∧ work.round = k.2 ∧ work.status = .voting from
    hall k (by rw [hvoting]; exact nofun)
  clear hvoting voting k
  induction hr with
  | @start s hs =>
    intro k hopen
    have hnone : s.base.votingRounds.lookup k = none :=
      congrArg Workers.RoundView.voting (genesis_view hs k.1 k.2).2.2
    exact absurd hnone hopen
  | @extend h s l s' hr hs ih =>
    intro k hopen
    have hpending := (workRun_of_run hr).pendingInv
    rcases ((workStep_of_step hpending hs).moves k.1).voting (r := k.2) hopen with hold | hnew
    · -- The work was in voting already, and without a result nothing has moved it.
      obtain ⟨work, hwork, hround, hstatus⟩ := ih k hold
      have hsound := (Workers.roundBook_sound (workersRun_of_run hr).choose_spec).unsettled k hold
      obtain ⟨work', hwork', hcarried⟩ := (carries_of_step hpending hs).kept k.1 work hwork
      have hresult : s.base.roundResults.lookup (k.1, work.round) = none := hround ▸ hsound
      cases hcarried.waits hstatus hresult
      exact ⟨work, hwork', hround, hstatus⟩
    · exact hnew

end

end MiniJam.Jam
