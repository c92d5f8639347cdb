import MiniJam.Proofs.RoundBook
import MiniJam.Proofs.RoundHistory
import MiniJam.Proofs.WorkMoves
import MiniJam.Proofs.WorkersRuns

/-!
# `MiniJam.Proofs.SingleRuns`: the works in runs of single steps

The block hook of the minijam pallet comes to many works in one step of the chain. `SingleStep`
takes it apart: a step is an extrinsic, another hook, or the hook at one work. Every run of the
chain is made of single steps (`singleRun_of_run`), and what was proved about runs of the chain
holds of these runs too.

`Hop` is the graph of the rounds and statuses of a work. In a single step a work stays where it is
or takes one edge (`LifeMove.hop`). A pair of a work and a round is given an assignment, a
candidate and a result once: candidates and results are never removed, and by the history of a
round an assignment that was removed does not come back.
-/

set_option autoImplicit false

namespace MiniJam.Jam

open Workers (RoundKey Settles Clears)

variable {AccountId Ledger : Type} {T : Config AccountId Ledger} {s s' : State T}
  {l : Chain.Label T}
variable {h : Chain.History T}

/-! ### Single steps -/

section
variable [DecidableEq AccountId]

/-- A step of the chain with the hook of the minijam pallet taken apart. -/
inductive SingleStep (T : Config AccountId Ledger) (s : State T) :
    Chain.Label T → State T → Prop where
  | action {l : Chain.Label T} {s' : State T} (hl : ∀ block, l.1 ≠ .jamOnInitialize block)
      (hstep : Chain.Step T s l s') : SingleStep T s l s'
  /-- The hook comes to one work. -/
  | progress {block : BlockNumber} {id : WorkId} {s' : State T}
      (hprogress : progressWork block id s = .ok () s') :
      SingleStep T s (.jamOnInitialize block, none) s'

abbrev SingleRun (T : Config AccountId Ledger) :
    Chain.History T → State T → Prop :=
  Trace (Chain.Genesis T) (SingleStep T)

/-- The step is not one of the hook of the minijam pallet. -/
def NotHook (t : Chain.TakenStep T) : Prop :=
  ∀ block, t.label.1 ≠ .jamOnInitialize block

/-- The works that the hook comes to, one after the other. -/
theorem SingleRun.hook (hr : SingleRun T h s) {block : BlockNumber} {ids : List WorkId}
    (hloop : Tx.forEach (progressWork block) ids s = .ok () s') :
    ∃ h', SingleRun T h' s' ∧ (∀ t, NotHook t → (t ∈ h' ↔ t ∈ h)) ∧
      Trace.first h' s' = Trace.first h s := by
  induction ids generalizing h s with
  | nil =>
    cases hloop
    exact ⟨h, hr, fun _ _ => Iff.rfl, rfl⟩
  | cons id ids ih =>
    rw [Tx.forEach_cons] at hloop
    obtain ⟨_, s₁, hone, hrest⟩ := Tx.bind_ok.mp hloop
    obtain ⟨h', hr', hsame, hfirst⟩ := ih (hr.extend (.progress hone)) hrest
    refine ⟨h', hr', fun t ht => ?_, by rw [hfirst, Trace.first_cons]⟩
    rw [hsame t ht, List.mem_cons, or_iff_right]
    rintro rfl
    exact ht block rfl

/-- Every run of the chain is made of single steps, from the same first state. The steps of the
two runs that are not of the hook are the same. -/
theorem singleRun_of_run (hr : Chain.Run T h s) : ∃ h', SingleRun T h' s ∧
    (∀ t, NotHook t → (t ∈ h' ↔ t ∈ h)) ∧ Trace.first h' s = Trace.first h s := by
  induction hr with
  | start hs => exact ⟨[], .start hs, fun _ _ => Iff.rfl, rfl⟩
  | @extend h s l s' _ hstep ih =>
    obtain ⟨h', hr', hsame, hfirst⟩ := ih
    by_cases hl : ∀ block, l.1 ≠ .jamOnInitialize block
    · refine ⟨_, hr'.extend (.action hl hstep), fun t ht => ?_, ?_⟩
      · rw [List.mem_cons, List.mem_cons, hsame t ht]
      · rw [Trace.first_cons, Trace.first_cons, hfirst]
    · push Not at hl
      obtain ⟨block, hl⟩ := hl
      obtain ⟨action, _ | e⟩ := l
      · cases hl
        have hloop : Tx.forEach (progressWork block) s.pendingWorks.toList s = .ok () s' := hstep
        obtain ⟨h'', hr'', hsame', hfirst'⟩ := hr'.hook hloop
        refine ⟨h'', hr'', fun t ht => ?_, by rw [hfirst', hfirst, Trace.first_cons]⟩
        rw [hsame' t ht, hsame t ht, List.mem_cons, or_iff_right]
        rintro rfl
        exact ht block rfl
      · -- The hook does not fail.
        cases hl
        exact absurd hstep (Tx.NoErr.forEach (progressWork_noErr block) _ s e s')

/-- What a single step does to the works. -/
theorem SingleStep.workStep (hpending : PendingInv s) (hs : SingleStep T s l s') :
    WorkStep s l s' := by
  cases hs with
  | action _ hstep => exact workStep_of_step hpending hstep
  | progress hprogress =>
    exact (Quiet.of_touches ((progressWork_touches _ _).of_ok hprogress)
      (progressWork_ok hprogress).lives
      ((progressWork_accepts _ _).of_ok hprogress).queue).workStep rfl

theorem workRun_of_singleRun (hr : SingleRun T h s) : WorkRun T h s := by
  induction hr with
  | start hs => exact .start hs
  | extend _ hs ih => exact .extend ih (hs.workStep ih.pendingInv)

/-- A single step moves the books of the works, or it replaces the ledger. -/
theorem SingleStep.workMoves (hs : SingleStep T s l s') :
    WorkMoves s s' ∨ ∃ blockNumber blockHash ledger,
      l.1 = .system blockNumber blockHash ledger ∧
      s'.workBook = { s.workBook with ledger := ledger } := by
  cases hs with
  | action _ hstep => exact workMoves_of_step hstep
  | progress hprogress => exact Or.inl ((progressWork_workMoves _ _).of_ok hprogress)

theorem SingleStep.workBook_sound (hs : SingleStep T s l s') (hbook : s.workBook.Sound) :
    s'.workBook.Sound := by
  rcases hs.workMoves with hmoves | ⟨_, _, ledger, -, hledger⟩
  · exact WorkBook.Sound.of_steps hbook hmoves
  · rw [hledger]
    exact hbook.withLedger ledger

theorem SingleRun.workBook_sound (hr : SingleRun T h s) : s.workBook.Sound :=
  hr.invariant_state (I := fun s => s.workBook.Sound) (fun _ hs => genesis_workBook hs)
    fun _ _ _ hbook hs => hs.workBook_sound hbook

theorem SingleStep.baseMoves (hs : SingleStep T s l s') : BaseMoves s s' := by
  cases hs with
  | action _ hstep => exact baseMoves_of_step hstep
  | progress hprogress =>
    exact ((baseMoves_frame _).progressWork (fun _ _ => .of_eq rfl) _).of_ok hprogress

/-- The actions of the workers pallet move the books of its rounds. -/
theorem roundMoves_of_steps {base base' : Workers.State T.workers}
    (hsteps : Relation.ReflTransGen Workers.BaseStep base base') :
    Workers.RoundMoves base base' := by
  induction hsteps with
  | refl => exact .of_eq rfl
  | tail _ hstep ih =>
    obtain ⟨action, haction⟩ := hstep
    exact IsTrans.trans _ _ _ ih (Workers.roundMoves_of_action haction)

theorem SingleStep.roundMoves (hs : SingleStep T s l s') :
    Workers.RoundMoves s.base s'.base := roundMoves_of_steps hs.baseMoves

theorem SingleRun.roundBook_sound (hr : SingleRun T h s) : s.base.roundBook.Sound :=
  hr.invariant_state (I := fun s => s.base.roundBook.Sound)
    (fun _ hs => Workers.genesis_roundBook (genesis_base hs))
    fun _ _ _ hbook hs => Workers.RoundBook.Steps.sound hs.roundMoves hbook

end

/-! ### The graph of the stages -/

/-- Where a work stands. -/
def WorkRecord.stage (work : WorkRecord AccountId) : AssignmentRound × WorkStatus :=
  (work.round, work.status)

/-- The edges a work can take. -/
inductive Hop (T : Config AccountId Ledger) :
    AssignmentRound × WorkStatus → AssignmentRound × WorkStatus → Prop where
  | assigned {r : AssignmentRound} : Hop T (r, .insufficientWorkers) (r, .awaitingCandidate)
  | candidate {r : AssignmentRound} : Hop T (r, .awaitingCandidate) (r, .voting)
  | nextRound {r r' : AssignmentRound} {status status' : WorkStatus}
      (hstatus : status = .awaitingCandidate ∨ status = .voting)
      (hnext : r'.toNat = r.toNat + 1) (hbound : r' < T.maxCandidateRounds)
      (hstatus' : status' = .insufficientWorkers ∨ status' = .awaitingCandidate) :
      Hop T (r, status) (r', status')
  | failed {r : AssignmentRound} {status : WorkStatus}
      (hstatus : status = .awaitingCandidate ∨ status = .voting) :
      Hop T (r, status) (r, .failed)
  | accepted {r : AssignmentRound} : Hop T (r, .voting) (r, .accepted)
  | imported {r : AssignmentRound} : Hop T (r, .accepted) (r, .imported)

/-- An edge leads to a round below the bound. -/
theorem Hop.round_lt {stage stage' : AssignmentRound × WorkStatus} (hh : Hop T stage stage')
    (hbound : stage.1 < T.maxCandidateRounds) : stage'.1 < T.maxCandidateRounds := by
  cases hh with
  | nextRound _ _ hbound' => exact hbound'
  | _ => exact hbound

/-- The work stays where it is or takes one edge. -/
def StaysOrHops (T : Config AccountId Ledger) (work work' : WorkRecord AccountId) : Prop :=
  work'.stage = work.stage ∨ Hop T work.stage work'.stage

variable {work : WorkRecord AccountId} {v v' : WorkView T}

/-- The round grows or stays, and a work that failed or was imported stays for good. -/
theorem StaysOrHops.monotone {work' : WorkRecord AccountId} (hs : StaysOrHops T work work') :
    work.round ≤ work'.round ∧
      (work.status = .failed ∨ work.status = .imported → work'.stage = work.stage) := by
  obtain ⟨owner, hash, package, bundle, round, status, deadline⟩ := work
  obtain ⟨owner', hash', package', bundle', round', status', deadline'⟩ := work'
  rcases hs with hsame | hhop
  · cases hsame
    exact ⟨UInt8.le_refl _, fun _ => rfl⟩
  · simp only [WorkRecord.stage] at hhop ⊢
    cases hhop with
    | assigned => simp
    | candidate => simp
    | nextRound hstatus hnext =>
      refine ⟨?_, ?_⟩
      · show round ≤ round'
        rw [UInt8.le_iff_toNat_le]
        omega
      · rcases hstatus with rfl | rfl <;> simp
    | failed hstatus => rcases hstatus with rfl | rfl <;> simp
    | accepted => simp
    | imported => simp

theorem WorkStatus.underWay_iff (status : WorkStatus) :
    status.underWay = true ↔ status = .awaitingCandidate ∨ status = .voting := by
  cases status <;> simp [WorkStatus.underWay]

/-- A prepared work waits for a candidate or for workers, in the same round. -/
theorem Prepares.stage (hp : Prepares v work v') :
    ∃ work', v'.work = some work' ∧ work'.round = work.round ∧
      (work'.status = .insufficientWorkers ∨ work'.status = .awaitingCandidate) := by
  cases hp with
  | assigned _ => exact ⟨_, rfl, rfl, Or.inr rfl⟩
  | existing _ => exact ⟨_, rfl, rfl, Or.inr rfl⟩
  | short => exact ⟨_, rfl, rfl, Or.inl rfl⟩

/-- A step in the life of a work is along the graph. -/
theorem LifeStep.hop (hs : LifeStep v v') (hwork : v.work = some work) :
    ∃ work', v'.work = some work' ∧ StaysOrHops T work work' := by
  -- The work that moves is the one in the view.
  have hsame : ∀ {work' : WorkRecord AccountId}, v.work = some work' → work' = work :=
    fun hwork' => Option.some.inj (hwork'.symm.trans hwork)
  cases hs with
  | settle _ => exact ⟨work, hwork, Or.inl rfl⟩
  | prepare hwork' hstatus hprepares =>
    cases hsame hwork'
    obtain ⟨work', hprepared, hround, hstatus'⟩ := hprepares.stage
    refine ⟨work', hprepared, ?_⟩
    rcases hstatus' with hstatus' | hstatus'
    · refine Or.inl ?_
      simp [WorkRecord.stage, hround, hstatus, hstatus']
    · refine Or.inr ?_
      simp only [WorkRecord.stage, hround, hstatus, hstatus']
      exact .assigned
  | candidate hwork' hstatus =>
    cases hsame hwork'
    refine ⟨_, rfl, Or.inr ?_⟩
    simp only [WorkRecord.stage, hstatus]
    exact .candidate
  | fail hwork' hstatus =>
    cases hsame hwork'
    exact ⟨_, rfl, Or.inr (.failed ((WorkStatus.underWay_iff _).mp hstatus))⟩
  | advance hwork' hstatus _ hnext hprepares =>
    cases hsame hwork'
    obtain ⟨work', hprepared, hround, hstatus'⟩ := hprepares.stage
    refine ⟨work', hprepared, Or.inr ?_⟩
    simp only [WorkRecord.stage, hround]
    exact .nextRound ((WorkStatus.underWay_iff _).mp hstatus) (UInt8.toNat_satAdd_one hnext) hnext
      hstatus'
  | accept hwork' hstatus =>
    cases hsame hwork'
    refine ⟨_, rfl, Or.inr ?_⟩
    simp only [WorkRecord.stage, hstatus]
    exact .accepted
  | imported hwork' hstatus =>
    cases hsame hwork'
    refine ⟨_, rfl, Or.inr ?_⟩
    simp only [WorkRecord.stage, hstatus]
    exact .imported

variable {id : WorkId}

/-- A step moves every work along the graph. -/
theorem LifeMove.hop (hm : LifeMove s l s' id) (hwork : s.works.lookup id = some work) :
    ∃ work', s'.works.lookup id = some work' ∧ StaysOrHops T work work' := by
  cases hm with
  | quiet _ hstep => exact hstep.hop hwork
  | create _ _ _ habsent =>
    rw [hwork] at habsent
    cases habsent
  | vote _ _ _ _ _ hview =>
    exact ⟨work, (congrArg WorkView.work hview).trans hwork, Or.inl rfl⟩

/-- A step that brings a work into being puts it at the start of the graph. -/
theorem LifeMove.created (hm : LifeMove s l s' id) (habsent : s.works.lookup id = none)
    (hwork : s'.works.lookup id = some work) :
    work.round = 0 ∧ (work.status = .insufficientWorkers ∨ work.status = .awaitingCandidate) := by
  cases hm with
  | quiet _ hstep =>
    have hnone : s'.works.lookup id = none := hstep.absent habsent
    rw [hwork] at hnone
    cases hnone
  | create _ _ _ _ hround hprepares =>
    obtain ⟨work', hprepared, hround', hstatus⟩ := hprepares.stage
    cases hwork.symm.trans hprepared
    exact ⟨hround'.trans hround, hstatus⟩
  | vote _ _ _ _ _ hview =>
    have hnone : s'.works.lookup id = none := (congrArg WorkView.work hview).trans habsent
    rw [hwork] at hnone
    cases hnone

/-! ### What a round is given once -/

variable {r : AssignmentRound} {candidate : CandidateRecord AccountId}

/-- A candidate stays. -/
theorem LifeStep.candidates_eq (hs : LifeStep v v') (hc : v.candidates r = some candidate) :
    v'.candidates r = some candidate := by
  have hprepared : ∀ {v v' : WorkView T} {work : WorkRecord AccountId}, Prepares v work v' →
      v'.candidates = v.candidates := by
    intro v v' work hp
    cases hp <;> rfl
  cases hs with
  | settle _ => exact hc
  | prepare _ _ hprepares => rw [hprepared hprepares]; exact hc
  | @candidate work candidate' _ _ _ _ hnew =>
    have hr : r ≠ work.round := by
      rintro rfl
      rw [hc] at hnew
      cases hnew
    exact (WorkView.setCandidate_candidates_of_ne _ hr _).trans hc
  | fail => exact hc
  | advance _ _ _ _ hprepares => rw [hprepared hprepares]; exact hc
  | accept => exact hc
  | imported => exact hc

theorem LifeMove.candidates_eq {k : RoundKey} (hm : LifeMove s l s' k.1)
    (hc : s.candidates.lookup k = some candidate) : s'.candidates.lookup k = some candidate := by
  cases hm with
  | quiet _ hstep => exact hstep.candidates_eq (r := k.2) hc
  | create _ _ _ _ _ hprepares =>
    have hkept : (s'.view k.1).candidates k.2 = (s.view k.1).candidates k.2 := by
      generalize s'.view k.1 = v' at hprepares
      cases hprepares <;> rfl
    exact hkept.trans hc
  | vote _ _ _ _ _ hview =>
    exact (congrFun (congrArg WorkView.candidates hview) k.2).trans hc

/-- Preparing a round gives an assignment to the current round of the work, when it has none. -/
theorem Prepares.assignment (hp : Prepares v work v') (r : AssignmentRound) :
    (v'.rounds r).assignment = (v.rounds r).assignment ∨
      r = work.round ∧ (v.rounds r).assignment = none := by
  cases hp with
  | assigned hfree =>
    by_cases hr : r = work.round
    · exact Or.inr ⟨hr, hr ▸ hfree⟩
    · exact Or.inl (congrArg Workers.RoundView.assignment (WorkView.setRound_rounds_of_ne v hr _))
  | existing _ => exact Or.inl rfl
  | short => exact Or.inl rfl

/-- The assignment of a round after a step: as before, none, or a first one. -/
inductive AssignmentMove (v v' : WorkView T) (r : AssignmentRound) : Prop where
  | kept (heq : (v'.rounds r).assignment = (v.rounds r).assignment)
  | cleared (hnone : (v'.rounds r).assignment = none)
  /-- The work has no workers in this round yet, or it has not come to it. -/
  | first {work : WorkRecord AccountId} (hfree : (v.rounds r).assignment = none)
      (hwork : v.work = some work)
      (hearly : work.status = .insufficientWorkers ∧ r = work.round ∨ work.round < r)

theorem AssignmentMove.of_clears {r' : AssignmentRound} {round : Workers.RoundView T.workers}
    (hclears : Clears (v.rounds r') round) (hv : v'.rounds = (v.setRound r' round).rounds) :
    AssignmentMove v v' r := by
  by_cases hr : r = r'
  · obtain ⟨_, _, rfl⟩ := hclears
    subst hr
    exact .cleared (by rw [hv, WorkView.setRound_rounds_self])
  · exact .kept (by rw [hv, WorkView.setRound_rounds_of_ne _ hr])

theorem LifeStep.assignment (hs : LifeStep v v') (r : AssignmentRound) : AssignmentMove v v' r := by
  cases hs with
  | settle hsettles => exact .kept (hsettles r).assignment_eq
  | prepare hwork hstatus hprepares =>
    rcases hprepares.assignment r with heq | ⟨hr, hfree⟩
    · exact .kept heq
    · exact .first hfree hwork (Or.inl ⟨hstatus, hr⟩)
  | @candidate work =>
    refine .kept ?_
    by_cases hr : r = work.round
    · subst hr
      exact Eq.trans (congrArg Workers.RoundView.assignment
        (WorkView.setRound_rounds_self v work.round _)) rfl
    · exact congrArg Workers.RoundView.assignment (WorkView.setRound_rounds_of_ne v hr _)
  | fail _ _ hclears => exact .of_clears hclears rfl
  | @advance work round v' hwork hstatus hclears hnext hprepares =>
    have hlt := UInt8.lt_satAdd_one hnext
    rcases hprepares.assignment r with heq | ⟨hr, hfree⟩
    · -- Only the old round was cleared.
      by_cases hold : r = work.round
      · subst hold
        obtain ⟨_, _, rfl⟩ := hclears
        refine .cleared (heq.trans ?_)
        exact congrArg Workers.RoundView.assignment (WorkView.setRound_rounds_self v _ _)
      · exact .kept (heq.trans (congrArg Workers.RoundView.assignment
          (WorkView.setRound_rounds_of_ne v hold _)))
    · have hlater : work.round < r := hr ▸ hlt
      refine .first ?_ hwork (Or.inr hlater)
      rw [← hfree]
      exact (congrArg Workers.RoundView.assignment
        (WorkView.setRound_rounds_of_ne v (UInt8.ne_of_lt hlater).symm _)).symm
  | accept _ _ _ _ hclears => exact .of_clears hclears rfl
  | imported => exact .kept rfl

/-- A step that gives a round an assignment finds the round fresh. -/
theorem WorkLived.fresh_of_gives (hlived : WorkLived h id (s.view id)) (hm : LifeMove s l s' id)
    (hgives : Trace.Gives (fun s : State T => s.base.assignments.lookup (id, r)) ⟨s, l, s'⟩) :
    RoundFresh h (id, r) (s.base.round (id, r)) (s.candidates.lookup (id, r)) := by
  obtain ⟨hsome, hchanged⟩ := hgives
  cases hm with
  | quiet _ hstep =>
    cases hstep.assignment r with
    | kept heq => exact absurd heq hchanged
    | cleared hnone => exact absurd hnone hsome
    | first _ hwork hearly =>
      obtain ⟨hround, hlater⟩ := (workLived_some hwork).mp hlived
      -- The round waits for workers, or it is still to come.
      rcases hearly with ⟨hstatus, rfl⟩ | hlt
      · rw [hstatus] at hround
        cases hround with
        | fresh hfresh => exact hfresh
        | accepted hpassed => rcases hpassed with h | h <;> cases h
      · exact hlater r hlt
  | create _ _ _ habsent =>
    unfold WorkLived at hlived
    rw [show (s.view id).work = none from habsent] at hlived
    exact hlived r
  | @vote c voting assignment key rounds _ _ _ hcast hothers hview =>
    refine absurd ?_ hchanged
    have hround : (s'.view id).rounds r = rounds r := congrFun (congrArg WorkView.rounds hview) r
    show ((s'.view id).rounds r).assignment = ((s.view id).rounds r).assignment
    rw [hround]
    by_cases hr : r = c.vote.round
    · subst hr
      exact hcast.assignment_eq
    · exact (hothers r hr).assignment_eq

variable [DecidableEq AccountId]

/-- A round is assigned once. -/
theorem assignment_givenOnce (hr : WorkRun T h s) (k : RoundKey) :
    Trace.GivenOnce (fun s : State T => s.base.assignments.lookup k) h := by
  obtain ⟨id, r⟩ := k
  -- Every transition that gives the round an assignment is one that assigns it.
  have hinv : WorkLived h id (s.view id) ∧
      Trace.GivenOnce (fun s : State T => s.base.assignments.lookup (id, r)) h ∧
      ∀ t ∈ h, Trace.Gives (fun s : State T => s.base.assignments.lookup (id, r)) t →
        ∃ a, Assigns t (id, r) a := by
    induction hr with
    | start hs => exact ⟨workLived_of_run (.start hs) id, List.Pairwise.nil, by simp⟩
    | @extend h s l s' hr hstep ih =>
      obtain ⟨hlived, honce, hassigns⟩ := ih
      have hmove := hstep.moves id
      refine ⟨hlived.move hmove, List.pairwise_cons.mpr ⟨?_, honce⟩, ?_⟩
      · rintro t ht ⟨hgives, hgiven⟩
        obtain ⟨a, ha⟩ := hassigns t ht hgiven
        exact (hlived.fresh_of_gives hmove hgives).unassigned t ht a ha
      · intro t ht hgives
        rcases List.mem_cons.mp ht with rfl | ht
        · obtain ⟨a, ha⟩ := Option.ne_none_iff_exists'.mp hgives.1
          exact ⟨a, (hlived.fresh_of_gives hmove hgives).assignment, ha⟩
        · exact hassigns t ht hgives
  exact hinv.2.1

/-- A round is given one candidate. -/
theorem candidate_givenOnce (hr : WorkRun T h s) (k : RoundKey) :
    Trace.GivenOnce (fun s : State T => s.candidates.lookup k) h :=
  hr.givenOnce_of_stable fun t ht _ hc => ((hr.steps t ht).moves k.1).candidates_eq hc

/-- A round is given one result. -/
theorem result_givenOnce (hr : SingleRun T h s) (k : RoundKey) :
    Trace.GivenOnce (fun s : State T => s.base.roundResults.lookup k) h := by
  have hstable : ∀ t ∈ h, ∀ result, t.pre.base.roundResults.lookup k = some result →
      t.post.base.roundResults.lookup k = some result := by
    induction hr with
    | start _ => simp
    | extend hr hs ih =>
      refine List.forall_mem_cons.mpr ⟨fun result hresult => ?_, ih⟩
      exact hs.roundMoves.results_eq (SingleRun.roundBook_sound hr) hresult
  exact hr.givenOnce_of_stable hstable

end MiniJam.Jam
