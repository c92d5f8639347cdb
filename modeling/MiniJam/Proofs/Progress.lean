import MiniJam.Proofs.GasBudget
import MiniJam.Proofs.SingleRuns

/-!
# `MiniJam.Proofs.Progress`: works move forward and nothing is done twice

Every single step moves a work along the graph of its stages, in which the round never falls and
`Failed` and `Imported` have no edges. `work_progress` adds what a work is given once: an
assignment, a candidate and a result for each of its rounds, and one place in a committed input of
the executor.

A work enters the queue when it is accepted and leaves it with the commit that takes it
(`WorkBook.Done`). It is never voted on again, so it does not come back. Nor does the report with
another work: a report names the hash of its package, and no two works have the same package.
-/

set_option autoImplicit false

namespace MiniJam.Jam

open Workers (RoundKey)

variable {AccountId Ledger : Type} {T : Config AccountId Ledger} {s s' : State T}
  {l : Chain.Label T}
variable {h : Chain.History T}

/-! ### Works that have left the queue -/

namespace WorkBook

variable {b b' : WorkBook AccountId Ledger} {id : WorkId} {hash : Hash}

/-- The work was accepted and has left the queue. -/
structure Done (b : WorkBook AccountId Ledger) (id : WorkId) (hash : Hash) : Prop where
  passed : ∃ work, b.works.lookup id = some work ∧ work.status.Passed ∧ work.packageHash = hash
  unqueued : ∀ item ∈ b.executionQueue, item.workId ≠ id

variable {work' : WorkRecord AccountId}

/-- A step that writes the record of another work, and queues no other. -/
theorem Done.insert {id' : WorkId} (hd : b.Done id hash) (hid : id' ≠ id)
    (hworks : b'.works = b.works.insert id' work')
    (hqueue : ∀ item ∈ b'.executionQueue, item ∈ b.executionQueue ∨ item.workId = id') :
    b'.Done id hash := by
  constructor
  · rw [hworks, AList.lookup_insert_ne hid.symm]
    exact hd.passed
  · intro item hitem
    rcases hqueue item hitem with hold | hnew
    · exact hd.unqueued item hold
    · rw [hnew]
      exact hid

/-- A work that waits for something is another work. -/
theorem Done.ne (hd : b.Done id hash) {id' : WorkId} (hwork' : b.works.lookup id' = some work')
    (hstatus : work'.status.isPending = true) : id' ≠ id := by
  rintro rfl
  obtain ⟨work, hwork, hpassed, -⟩ := hd.passed
  cases hwork'.symm.trans hwork
  rcases hpassed with h | h <;> rw [h] at hstatus <;> cases hstatus

/-- An accepted work may be marked as imported, and its package is as it was. -/
theorem lookup_marked {works : StorageMap WorkId (WorkRecord AccountId)}
    {work : WorkRecord AccountId} (hwork : works.lookup id = some work)
    (hpassed : work.status.Passed) (imported : List WorkId) :
    ∃ work', (imported.foldl markImported works).lookup id = some work' ∧
      work'.status.Passed ∧ work'.packageHash = work.packageHash := by
  rw [lookup_foldl_markImported, hwork]
  split_ifs
  · exact ⟨{ work with status := .imported }, rfl, Or.inr rfl, rfl⟩
  · exact ⟨work, rfl, hpassed, rfl⟩

/-- A work that was done stays done. -/
theorem Step.done (hs : Step T b b') (hb : b.Sound) (hd : b.Done id hash) : b'.Done id hash := by
  cases hs with
  | create hnew hnext hdeposit =>
    -- A work that is done has an id below the next one.
    have hid : b.nextWorkId ≠ id := by
      rintro rfl
      obtain ⟨work, hwork, -⟩ := hd.passed
      exact UInt64.lt_irrefl _ (hb.works_lt _ work hwork)
    exact hd.insert hid rfl fun _ hitem => Or.inl hitem
  | prepare hwork hstatus hnew =>
    exact hd.insert (hd.ne hwork (by rw [hstatus]; rfl)) rfl fun _ hitem => Or.inl hitem
  | candidate hwork hstatus hnew hbond =>
    exact hd.insert (hd.ne hwork (by rw [hstatus]; rfl)) rfl fun _ hitem => Or.inl hitem
  | advance hwork hover hnext =>
    exact hd.insert (hd.ne hwork hover.status.1) rfl fun _ hitem => Or.inl hitem
  | fail hwork hover hdeposit =>
    exact hd.insert (hd.ne hwork hover.status.1) rfl fun _ hitem => Or.inl hitem
  | accept hwork hstatus hcandidate hpaid =>
    refine hd.insert (hd.ne hwork (by rw [hstatus]; rfl)) rfl fun item hitem => ?_
    rcases List.mem_append.mp hitem with hitem | hitem
    · exact Or.inl hitem
    · rw [List.mem_singleton.mp hitem]
      exact Or.inr rfl
  | @commit imported due retained hqueue himported =>
    constructor
    · obtain ⟨work, hwork, hpassed, rfl⟩ := hd.passed
      exact lookup_marked hwork hpassed imported
    · intro item hitem
      exact hd.unqueued item (hqueue.mem_iff.mp (List.mem_append_right _ hitem))
  | transfer htransfer => exact ⟨hd.passed, hd.unqueued⟩
  | workers hledger => exact ⟨hd.passed, hd.unqueued⟩

theorem Done.of_steps (hd : b.Done id hash) (hb : b.Sound)
    (hs : Relation.ReflTransGen (Step T) b b') : b'.Done id hash := by
  induction hs with
  | refl => exact hd
  | tail hsteps hstep ih => exact hstep.done (hb.of_steps hsteps) ih

end WorkBook

/-! ### Committed inputs -/

/-- The step committed a block, with this input for the executor. -/
def CommitsInput (t : Chain.TakenStep T) (block : BlockNumber)
    (input : MiniJamExecutionInput) : Prop :=
  t.label = (.onFinalize block, none) ∧ ∃ output delta, Answered t.pre block input output delta

/-- The step committed a block that the work was due in. -/
def CommitsWork (t : Chain.TakenStep T) (id : WorkId) : Prop :=
  ∃ block input, CommitsInput t block input ∧
    id ∈ (dueItems t.pre block).map ExecutionItem.workId

instance (t : Chain.TakenStep T) (id : WorkId) : Decidable (CommitsWork t id) :=
  decidable_of_iff (∃ block, t.label = (.onFinalize block, none) ∧
    (answered t.pre block).isSome ∧ id ∈ (dueItems t.pre block).map ExecutionItem.workId) <| by
    constructor
    · rintro ⟨block, hl, hanswered, hid⟩
      obtain ⟨⟨input, output, delta⟩, hanswered⟩ := Option.isSome_iff_exists.mp hanswered
      exact ⟨block, input, ⟨hl, output, delta, answered_eq_some hanswered⟩, hid⟩
    · rintro ⟨block, input, ⟨hl, output, delta, ha⟩, hid⟩
      exact ⟨block, hl, Option.isSome_of_eq_some ha.answered_eq, hid⟩

/-- The step committed a block whose input has the report. -/
def CommitsReport (t : Chain.TakenStep T) (report : CanonicalReportBytes) :
    Prop :=
  ∃ block input, CommitsInput t block input ∧ report ∈ input.reports.toList

/-- The package a report is for. -/
def reportPackage (T : Config AccountId Ledger) (report : CanonicalReportBytes) : Option Hash :=
  (T.executor.projectReport report.toList).toOption.map ReportProjectionV1.packageHash

/-- A report that was checked for a work is for its package. -/
theorem reportPackage_of_checked {work : WorkRecord AccountId} {envelope : ReportEnvelopeV1}
    (hchecked : ReportChecked T work envelope) :
    reportPackage T envelope.canonicalReport = some work.packageHash := by
  obtain ⟨s, s', hvalid⟩ := hchecked
  unfold validateCandidateReport at hvalid
  obtain ⟨projection, hprojection, hvalid⟩ := Tx.okOr_bind_ok.mp hvalid
  obtain ⟨hpackage, -⟩ := Tx.ensure_bind_ok.mp hvalid
  unfold reportPackage
  rw [hprojection, Option.map_some, hpackage]

variable {block : BlockNumber} {input : MiniJamExecutionInput}

/-- A committed report was that of a work in the queue. -/
theorem queued_of_report (hqueue : QueueChecked s)
    (hinput : executionInput s block (dueItems s block) = .ok input) {report : CanonicalReportBytes}
    (hreport : report ∈ input.reports.toList) :
    ∃ item ∈ dueItems s block, ∃ work, s.works.lookup item.workId = some work ∧
      reportPackage T report = some work.packageHash := by
  obtain ⟨item, hitem, hdue⟩ := (executionInput_ok hinput).reports.exists_of_mem_right hreport
  obtain ⟨work, candidate, hwork, -, hcandidate, rfl⟩ := dueReport_ok.mp hdue
  obtain ⟨work', candidate', hwork', hcandidate', hchecked⟩ :=
    hqueue item (mem_queue_iff.mpr (Or.inl hitem))
  cases hwork.symm.trans hwork'
  cases hcandidate.symm.trans hcandidate'
  exact ⟨item, hitem, work, hwork, reportPackage_of_checked hchecked⟩

/-- A work that is due in a committed block is done after it. -/
theorem done_of_commit {output : MiniJamExecutionOutput} {delta : ValidatedDelta}
    (hbook : s.workBook.Sound) (ha : Answered s block input output delta)
    (hreturned : onFinalize block s = .ok () s') {item : ExecutionItem}
    (hitem : item ∈ dueItems s block) {work : WorkRecord AccountId}
    (hwork : s.works.lookup item.workId = some work) :
    s'.workBook.Done item.workId work.packageHash := by
  obtain ⟨imported, hsub, hbook'⟩ := onFinalize_workBook ha hreturned
  have hnodup : ((dueItems s block ++ retainedItems s block).map ExecutionItem.workId).Nodup :=
    ((due_append_retained_perm s block).map _).nodup_iff.mpr hbook.queue_nodup
  rw [List.map_append] at hnodup
  have hdisjoint := (List.nodup_append.mp hnodup).2.2
  obtain ⟨work', hwork', haccepted⟩ :=
    hbook.queue_accepted item (mem_queue_iff.mpr (Or.inl hitem))
  cases hwork.symm.trans hwork'
  rw [hbook']
  constructor
  · exact WorkBook.lookup_marked hwork (Or.inl haccepted) imported
  · intro item' hitem' heq
    exact hdisjoint _ (List.mem_map_of_mem hitem) _ (List.mem_map_of_mem hitem') heq.symm

/-! ### Every run -/

variable [DecidableEq AccountId]

theorem SingleStep.done (hs : SingleStep T s l s') (hbook : s.workBook.Sound) {id : WorkId}
    {hash : Hash} (hd : s.workBook.Done id hash) : s'.workBook.Done id hash := by
  rcases hs.workMoves with hmoves | ⟨_, _, ledger, -, hledger⟩
  · exact hd.of_steps hbook hmoves
  · rw [hledger]
    exact ⟨hd.passed, hd.unqueued⟩

/-- A step that commits a block is a hook that returns. -/
theorem SingleStep.returned (hs : SingleStep T s l s') (hl : l = (.onFinalize block, none)) :
    onFinalize block s = .ok () s' := by
  subst hl
  cases hs with
  | action _ hstep => exact hstep

/-- What has been committed so far. -/
structure Committed (h : Chain.History T) (s : State T) : Prop where
  works_done : ∀ t ∈ h, ∀ id, CommitsWork t id → ∃ hash, s.workBook.Done id hash
  reports_done : ∀ t ∈ h, ∀ report, CommitsReport t report →
    ∃ id hash, reportPackage T report = some hash ∧ s.workBook.Done id hash
  work_once : h.Pairwise fun t t' => ∀ id, ¬ (CommitsWork t id ∧ CommitsWork t' id)
  report_once : h.Pairwise fun t t' => ∀ report,
    ¬ (CommitsReport t report ∧ CommitsReport t' report)

/-- One more step. -/
theorem Committed.step (hc : Committed h s) (hbook : s.workBook.Sound) (hqueue : QueueChecked s)
    (hs : SingleStep T s l s') : Committed (⟨s, l, s'⟩ :: h) s' := by
  -- A work in the queue is not done yet.
  have hnot : ∀ {block : BlockNumber} {id : WorkId} {hash : Hash},
      id ∈ (dueItems s block).map ExecutionItem.workId → ¬ s.workBook.Done id hash := by
    intro block id hash hid hd
    obtain ⟨item, hitem, rfl⟩ := List.mem_map.mp hid
    exact hd.unqueued item (mem_queue_iff.mpr (Or.inl hitem)) rfl
  refine ⟨fun t ht id hcommits => ?_, fun t ht report hcommits => ?_,
    List.pairwise_cons.mpr ⟨?_, hc.work_once⟩, List.pairwise_cons.mpr ⟨?_, hc.report_once⟩⟩
  · rcases List.mem_cons.mp ht with rfl | ht
    · obtain ⟨block, input, ⟨hl, output, delta, ha⟩, hid⟩ := hcommits
      obtain ⟨item, hitem, rfl⟩ := List.mem_map.mp hid
      obtain ⟨work, hwork, -⟩ := hbook.queue_accepted item (mem_queue_iff.mpr (Or.inl hitem))
      exact ⟨_, done_of_commit hbook ha (hs.returned hl) hitem hwork⟩
    · obtain ⟨hash, hd⟩ := hc.works_done t ht id hcommits
      exact ⟨hash, hs.done hbook hd⟩
  · rcases List.mem_cons.mp ht with rfl | ht
    · obtain ⟨block, input, ⟨hl, output, delta, ha⟩, hreport⟩ := hcommits
      obtain ⟨item, hitem, work, hwork, hpackage⟩ := queued_of_report hqueue ha.input_eq hreport
      exact ⟨_, _, hpackage, done_of_commit hbook ha (hs.returned hl) hitem hwork⟩
    · obtain ⟨id, hash, hpackage, hd⟩ := hc.reports_done t ht report hcommits
      exact ⟨id, hash, hpackage, hs.done hbook hd⟩
  · rintro t ht id ⟨⟨block, input, -, hid⟩, hearlier⟩
    obtain ⟨hash, hd⟩ := hc.works_done t ht id hearlier
    exact hnot hid hd
  · rintro t ht report ⟨⟨block, input, ⟨-, output, delta, ha⟩, hreport⟩, hearlier⟩
    obtain ⟨id, hash, hpackage, hd⟩ := hc.reports_done t ht report hearlier
    obtain ⟨item, hitem, work, hwork, hpackage'⟩ := queued_of_report hqueue ha.input_eq hreport
    -- Both works have the package the report names, so they are the same work.
    obtain ⟨work₀, hwork₀, -, hhash₀⟩ := hd.passed
    have hhash : work.packageHash = hash := Option.some.inj (hpackage'.symm.trans hpackage)
    have hid : some item.workId = some id :=
      ((hbook.indexed hash item.workId).mpr ⟨work, hwork, hhash⟩).symm.trans
        ((hbook.indexed hash id).mpr ⟨work₀, hwork₀, hhash₀⟩)
    cases hid
    exact hnot (List.mem_map_of_mem hitem) hd

theorem committed_of_run (hr : SingleRun T h s) : Committed h s := by
  induction hr with
  | start _ => exact ⟨by simp, by simp, List.Pairwise.nil, List.Pairwise.nil⟩
  | extend hr hs ih =>
    exact ih.step (SingleRun.workBook_sound hr) (queueChecked_of_run (workRun_of_singleRun hr)) hs

/-- What the steps of a run have done to the works. -/
structure WorkProgress (h : Chain.History T) (s : State T) : Prop where
  /-- A step leaves a work where it is or takes it along one edge of the graph. -/
  hops : ∀ t ∈ h, ∀ id work, t.pre.works.lookup id = some work →
    ∃ work', t.post.works.lookup id = some work' ∧ StaysOrHops T work work'
  created : ∀ t ∈ h, ∀ id work, t.pre.works.lookup id = none →
    t.post.works.lookup id = some work →
    work.round = 0 ∧ (work.status = .insufficientWorkers ∨ work.status = .awaitingCandidate)
  round_lt : ∀ id work, s.works.lookup id = some work → work.round < T.maxCandidateRounds
  /-- What a work was at any earlier moment. -/
  monotone : ∀ t ∈ h, ∀ id work, t.pre.works.lookup id = some work →
    ∃ work', s.works.lookup id = some work' ∧ work.round ≤ work'.round ∧
      (work.status = .failed ∨ work.status = .imported → work'.stage = work.stage)
  indexed : ∀ hash id, s.workByPackageHash.lookup hash = some id ↔
    ∃ work, s.works.lookup id = some work ∧ work.packageHash = hash
  bijection : Set.BijOn (fun hash => s.workByPackageHash.lookup hash)
    {hash | s.workByPackageHash.lookup hash ≠ none} (some '' {id | s.works.lookup id ≠ none})
  assigned_once : ∀ k, Trace.GivenOnce (fun s : State T => s.base.assignments.lookup k) h
  candidate_once : ∀ k, Trace.GivenOnce (fun s : State T => s.candidates.lookup k) h
  result_once : ∀ k, Trace.GivenOnce (fun s : State T => s.base.roundResults.lookup k) h
  /-- No two commits take the same work. -/
  committed_once : h.Pairwise fun t t' => ∀ id, ¬ (CommitsWork t id ∧ CommitsWork t' id)
  /-- No two commits take the same report. -/
  report_once : h.Pairwise fun t t' => ∀ report,
    ¬ (CommitsReport t report ∧ CommitsReport t' report)

/-- A work starts in round 0 and enters a round below the bound at most. -/
theorem round_lt_of_run (hrounds : 1 ≤ T.maxCandidateRounds) (hr : WorkRun T h s) (id : WorkId)
    (work : WorkRecord AccountId) (hwork : s.works.lookup id = some work) :
    work.round < T.maxCandidateRounds := by
  revert work
  refine life_invariant (I := fun _ s => ∀ work, s.works.lookup id = some work →
    work.round < T.maxCandidateRounds) id (fun s hs work hwork => ?_) ?_ hr
  · have hnone : s.works.lookup id = none := (genesis_view hs id 0).1
    rw [hwork] at hnone
    cases hnone
  · intro h s l s' ih hmove work' hwork'
    cases hwork : s.works.lookup id with
    | none =>
      rw [(hmove.created hwork hwork').1]
      exact UInt8.lt_iff_toNat_lt.mpr (UInt8.le_iff_toNat_le.mp hrounds)
    | some work =>
      have hbound := ih work hwork
      obtain ⟨work'', hwork'', hhop⟩ := hmove.hop hwork
      cases hwork'.symm.trans hwork''
      rcases hhop with hsame | hhop
      · have hround : work'.round = work.round := congrArg Prod.fst hsame
        rwa [hround]
      · exact hhop.round_lt hbound

/-- A work at an earlier moment and now. -/
theorem monotone_of_run (hr : WorkRun T h s) (t : Chain.TakenStep T)
    (ht : t ∈ h) (id : WorkId) (work : WorkRecord AccountId)
    (hwork : t.pre.works.lookup id = some work) :
    ∃ work', s.works.lookup id = some work' ∧ work.round ≤ work'.round ∧
      (work.status = .failed ∨ work.status = .imported → work'.stage = work.stage) := by
  revert ht
  refine life_invariant (I := fun h s => t ∈ h → ∃ work', s.works.lookup id = some work' ∧
    work.round ≤ work'.round ∧
      (work.status = .failed ∨ work.status = .imported → work'.stage = work.stage)) id
    (fun s _ ht => absurd ht List.not_mem_nil) (fun h s l s' ih hmove ht => ?_) hr
  rcases List.mem_cons.mp ht with rfl | ht
  · obtain ⟨work', hwork', hhop⟩ := hmove.hop hwork
    exact ⟨work', hwork', hhop.monotone⟩
  · obtain ⟨work₁, hwork₁, hround, hfinal⟩ := ih ht
    obtain ⟨work', hwork', hhop⟩ := hmove.hop hwork₁
    obtain ⟨hround', hfinal'⟩ := hhop.monotone
    refine ⟨work', hwork', UInt8.le_trans hround hround', fun hstatus => ?_⟩
    have hstage := hfinal hstatus
    have hsame : work₁.status = work.status := congrArg Prod.snd hstage
    rw [← hstage]
    exact hfinal' (by rwa [hsame])

omit [DecidableEq AccountId] in
/-- The index maps the package hashes of the works to the works, one to one. -/
theorem bijection_of_sound (hbook : s.workBook.Sound) :
    Set.BijOn (fun hash => s.workByPackageHash.lookup hash)
      {hash | s.workByPackageHash.lookup hash ≠ none}
      (some '' {id | s.works.lookup id ≠ none}) := by
  refine ⟨fun hash hhash => ?_, fun hash hhash hash' _ heq => ?_, ?_⟩
  · obtain ⟨id, hid⟩ := Option.ne_none_iff_exists'.mp hhash
    obtain ⟨work, hwork, -⟩ := (hbook.indexed hash id).mp hid
    exact ⟨id, Option.ne_none_iff_exists'.mpr ⟨work, hwork⟩, hid.symm⟩
  · obtain ⟨id, hid⟩ := Option.ne_none_iff_exists'.mp hhash
    have hid' : s.workByPackageHash.lookup hash' = some id := heq.symm.trans hid
    obtain ⟨work, hwork, hpackage⟩ := (hbook.indexed hash id).mp hid
    obtain ⟨work', hwork', hpackage'⟩ := (hbook.indexed hash' id).mp hid'
    cases hwork.symm.trans hwork'
    exact hpackage.symm.trans hpackage'
  · rintro _ ⟨id, hid, rfl⟩
    obtain ⟨work, hwork⟩ := Option.ne_none_iff_exists'.mp hid
    have hindex : s.workByPackageHash.lookup work.packageHash = some id :=
      (hbook.indexed work.packageHash id).mpr ⟨work, hwork, rfl⟩
    exact ⟨work.packageHash, Option.ne_none_iff_exists'.mpr ⟨id, hindex⟩, hindex⟩

/-- In every run with at least one round for a candidate, works move forward along the graph
and nothing is done twice. -/
theorem work_progress (hrounds : 1 ≤ T.maxCandidateRounds)
    (h : Chain.History T) (s : State T) (hr : SingleRun T h s) :
    WorkProgress h s := by
  have hwork := workRun_of_singleRun hr
  have hbook := SingleRun.workBook_sound hr
  have hcommitted := committed_of_run hr
  exact
    { hops := fun t ht id work => ((hwork.steps t ht).moves id).hop
      created := fun t ht id work hnone => ((hwork.steps t ht).moves id).created hnone
      round_lt := round_lt_of_run hrounds hwork
      monotone := monotone_of_run hwork
      indexed := hbook.indexed
      bijection := bijection_of_sound hbook
      assigned_once := assignment_givenOnce hwork
      candidate_once := candidate_givenOnce hwork
      result_once := result_givenOnce hr
      committed_once := hcommitted.work_once
      report_once := hcommitted.report_once }

open Reference

/-- One work that was imported, and one that missed its deadline and is in its second round. -/
theorem work_progress_two_works : ∃ h s,
    1 ≤ (runtime consumeAll).maxCandidateRounds ∧
    SingleRun (runtime consumeAll) h s ∧
    (s.works.lookup 0).map WorkRecord.stage = some (0, .imported) ∧
    (s.works.lookup 1).map WorkRecord.stage = some (1, .awaitingCandidate) ∧
    (∃ t ∈ h, CommitsWork t 0) ∧ WorkProgress h s := by
  obtain ⟨h, s, hrun, hfirst, hsecond, t, ht, hcommits⟩ :=
    exists_history (runtime consumeAll)
    (voteThrough 0 2 1 ++ [.jamOnInitialize 1, .onFinalize 1] ++
      (voteThrough 1 2 2).take 1 ++ [.jamOnInitialize 100000])
    (fun h s => (s.works.lookup 0).map WorkRecord.stage = some (0, .imported) ∧
      (s.works.lookup 1).map WorkRecord.stage = some (1, .awaitingCandidate) ∧
      ∃ t ∈ h, CommitsWork t 0) (by decide +kernel)
  have hl : ∀ block, t.label.1 ≠ .jamOnInitialize block := by
    obtain ⟨block, input, ⟨hl, -⟩, -⟩ := hcommits
    rw [hl]
    exact nofun
  obtain ⟨h', hsingle, hsame, -⟩ := singleRun_of_run hrun
  have hrounds : 1 ≤ (runtime consumeAll).maxCandidateRounds := by decide
  exact ⟨h', s, hrounds, hsingle, hfirst, hsecond, ⟨t, (hsame t hl).mpr ht, hcommits⟩,
    work_progress hrounds h' s hsingle⟩

end MiniJam.Jam
