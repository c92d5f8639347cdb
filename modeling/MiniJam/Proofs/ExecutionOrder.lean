import MiniJam.Lib.Fifo
import MiniJam.Proofs.Progress
import MiniJam.Proofs.Quarantine

/-!
# `MiniJam.Proofs.ExecutionOrder`: works are executed in the order of their acceptance

The virtual block scans the whole queue for items that are due, takes as many as fit, sorts what
it took by work id and writes back the rest. That is still first in, first out: items enter at the
end with the next block as their due block, and the chain's block number does not go back, so the
due blocks never decrease along the queue (`ExecutionOrdered.ordered`), and the scan takes a front
part (`splitQueue_append`).

The queue is then one of `MiniJam.Lib.Fifo`, and no work is overtaken (`works_executed_in_order`),
whatever is paused and whichever blocks fail.
-/

set_option autoImplicit false

namespace MiniJam.Jam

variable {AccountId Ledger : Type} {T : Config AccountId Ledger} {s s' : State T}
  {block : BlockNumber}

/-! ### The scan of an ordered queue -/

/-- The due blocks do not decrease. -/
def DueInOrder (queue : List ExecutionItem) : Prop :=
  queue.Pairwise fun item item' => item.executeAt ≤ item'.executeAt

/-- The scan of an ordered queue takes a front part of it. -/
theorem splitQueue_append {queue : List ExecutionItem} (hordered : DueInOrder queue)
    (maxReports : Nat) (paused : Bool) (block : BlockNumber) :
    (splitQueue maxReports paused block queue).1 ++ (splitQueue maxReports paused block queue).2 =
      queue := by
  -- Once an item was left behind, every later item is left behind, for the same reason.
  suffices h : ∀ (queue : List ExecutionItem) (acc : List ExecutionItem × List ExecutionItem),
      DueInOrder queue →
      (acc.2 ≠ [] → ∀ item ∈ queue,
        ¬ (!paused ∧ item.executeAt ≤ block ∧ acc.1.length < maxReports)) →
      let r := queue.foldl (fun acc item =>
        if !paused ∧ item.executeAt ≤ block ∧ acc.1.length < maxReports then
          (acc.1 ++ [item], acc.2)
        else (acc.1, acc.2 ++ [item])) acc
      r.1 ++ r.2 = acc.1 ++ acc.2 ++ queue by
    simpa [splitQueue] using h queue ([], []) hordered (by simp)
  intro queue
  induction queue with
  | nil =>
    intro acc _ _
    simp
  | cons item queue ih =>
    intro acc hordered hbehind
    obtain ⟨hfirst, hrest⟩ := List.pairwise_cons.mp hordered
    rw [List.foldl_cons]
    split_ifs with hdue
    · have hnone : acc.2 = [] := by
        by_contra hsome
        exact hbehind hsome item List.mem_cons_self hdue
      refine (ih (acc.1 ++ [item], acc.2) hrest fun hsome => absurd hnone hsome).trans ?_
      simp [hnone]
    · refine (ih (acc.1, acc.2 ++ [item]) hrest fun _ item' hitem' hdue' => hdue
        ⟨hdue'.1, UInt32.le_trans (hfirst item' hitem') hdue'.2.1, hdue'.2.2⟩).trans ?_
      simp

/-! ### What a step does to the queue -/

/-- The queue of a state. -/
abbrev queueOf (s : State T) : List ExecutionItem := s.executionQueue.toList

/-- Works are accepted: they were not before, and their items are at the end of the queue, due
in the next block. -/
structure Enqueues (s s' : State T) : Prop where
  clock : s'.base.blockNumber = s.base.blockNumber
  passed : ∀ id, s.PassedWork id → s'.PassedWork id
  queue : ∃ new : List ExecutionItem,
    s'.executionQueue.toList = s.executionQueue.toList ++ new ∧
    (new.map ExecutionItem.workId).Nodup ∧ ∀ item ∈ new,
      item.executeAt = s.base.blockNumber.satAdd 1 ∧ ¬ s.PassedWork item.workId ∧
        s'.PassedWork item.workId

instance : Std.Refl (Enqueues (T := T)) :=
  ⟨fun _ => ⟨rfl, fun _ h => h, [], by simp, by simp, by simp⟩⟩

instance : IsTrans (State T) Enqueues where
  trans s s₁ s' h₁ h₂ := by
    obtain ⟨new₁, hqueue₁, hnodup₁, hnew₁⟩ := h₁.queue
    obtain ⟨new₂, hqueue₂, hnodup₂, hnew₂⟩ := h₂.queue
    refine ⟨h₂.clock.trans h₁.clock, fun id h => h₂.passed id (h₁.passed id h), new₁ ++ new₂,
      by rw [hqueue₂, hqueue₁, List.append_assoc], ?_, fun item hitem => ?_⟩
    · -- The works of the first part are accepted when those of the second are not.
      rw [List.map_append]
      refine List.Nodup.append hnodup₁ hnodup₂ fun id hid₁ hid₂ => ?_
      obtain ⟨item₁, hitem₁, rfl⟩ := List.mem_map.mp hid₁
      obtain ⟨item₂, hitem₂, hsame⟩ := List.mem_map.mp hid₂
      exact (hnew₂ item₂ hitem₂).2.1 (hsame ▸ (hnew₁ item₁ hitem₁).2.2)
    · rcases List.mem_append.mp hitem with hitem | hitem
      · obtain ⟨hdue, hbefore, hafter⟩ := hnew₁ item hitem
        exact ⟨hdue, hbefore, h₂.passed _ hafter⟩
      · obtain ⟨hdue, hbefore, hafter⟩ := hnew₂ item hitem
        exact ⟨h₁.clock ▸ hdue, fun h => hbefore (h₁.passed _ h), hafter⟩

theorem progressWork_enqueues (block : BlockNumber) (id : WorkId) :
    Tx.Rel Enqueues (progressWork block id : M T Unit) := by
  refine Tx.Rel.intro (fun s _ s' h => ?_) fun s e s' h =>
    absurd h (progressWork_noErr block id s e s')
  have hclock : s'.base.blockNumber = s.base.blockNumber :=
    ((dutyless_frame (fun _ _ => rfl) (fun _ _ => rfl) id).progressWork (fun _ _ => rfl)
      block).of_ok h
  have haccepts := (progressWork_accepts block id).of_ok h
  have hadvances := progressWork_ok h
  refine ⟨hclock, haccepts.passed, ?_⟩
  rcases hadvances.queue with
    hkept | ⟨⟨work, hwork, hvoting⟩, ⟨work', hwork', haccepted⟩, hpushed⟩
  · exact ⟨[], by rw [hkept, List.append_nil], by simp, by simp⟩
  · refine ⟨[⟨id, s.base.blockNumber.satAdd 1⟩], hpushed, by simp, fun item hitem => ?_⟩
    rw [List.mem_singleton.mp hitem]
    have hbefore : ¬ s.PassedWork id := by
      rintro ⟨work₀, hwork₀, hpassed⟩
      cases hwork.symm.trans hwork₀
      rcases hpassed with h | h <;> rw [hvoting] at h <;> cases h
    exact ⟨rfl, hbefore, work', hwork', Or.inl haccepted⟩

/-- What a step does to the queue, when it is not a quarantine. -/
inductive QueueMove (s : State T) (l : Chain.Label T) (s' : State T) : Prop where
  | kept (hqueue : s'.executionQueue.toList = s.executionQueue.toList)
  | accepts (henqueues : Enqueues s s')
  | commits {block : BlockNumber} {input : MiniJamExecutionInput}
      {output : MiniJamExecutionOutput} {delta : ValidatedDelta}
      (hl : l = (.onFinalize block, none)) (ha : Answered s block input output delta)
      (hqueue : s'.executionQueue.toList = retainedItems s block)

/-- No other call than the quarantine writes the queue. -/
theorem call_executionQueue [DecidableEq AccountId] {origin : Origin AccountId} {call : Call T}
    (hl : ¬ IsQuarantine (.inl (.extrinsic origin call, none) : Chain.Label T ⊕ WorkId))
    (h : call.body origin s = .ok () s') : s'.executionQueue = s.executionQueue := by
  have hbase : ∀ {m : Workers.M T.workers Unit}, (inWorkers m : M T Unit) s = .ok () s' →
      s'.executionQueue = s.executionQueue := fun h =>
    ((inWorkers_within _).of_ok h).unchanged State.executionQueue fun _ _ => rfl
  have hwork : workItems.Within s s' → s'.executionQueue = s.executionQueue := fun h =>
    h.unchanged State.executionQueue fun _ _ => rfl
  cases call with
  | register sessionKey stake => exact hbase h
  | scheduleUpdate sessionKey stake => exact hbase h
  | submitVote workerId vote signature => exact hbase h
  | submitEquivocation workerId first firstSignature second secondSignature => exact hbase h
  | submitWork package bundleRef => exact hwork ((submitWork_within _ _ _).of_ok h)
  | submitCandidate envelope => exact hwork ((submitCandidate_within _ _).of_ok h)
  | quarantinePending => exact absurd ⟨origin, rfl⟩ hl
  | fundService serviceId amount =>
    obtain ⟨_, _, _, _, _, -, -, rfl⟩ := fundService_ok h
    rfl
  | _ => exact (outer_of_call rfl h).unchanged State.executionQueue fun _ _ => rfl

theorem queueMove_of_step [DecidableEq AccountId] {l : Chain.Label T}
    (hl : ¬ IsQuarantine (.inl l)) (h : Chain.Step T s l s') : QueueMove s l s' := by
  obtain ⟨action, _ | e⟩ := l
  · cases action with
    | extrinsic origin call =>
      exact .kept (congrArg BoundedVec.toList (call_executionQueue hl (Tx.transaction_ok.mp h)))
    | workersOnInitialize block =>
      exact .kept (((inWorkers_within _).of_ok h).unchanged queueOf fun _ _ => rfl)
    | jamOnInitialize block =>
      have hloop : Tx.forEach (progressWork block) s.pendingWorks.toList s = .ok () s' := h
      exact .accepts ((Tx.Rel.forEach fun id _ => progressWork_enqueues block id).of_ok hloop)
    | onFinalize block =>
      have hreturned : onFinalize block s = .ok () s' := h
      rcases onFinalize_cases hreturned with
        ⟨input, output, delta, summary, s₁, queue, ha, -, hqueue, rfl⟩ | ⟨e, -, hne, hhandle⟩
      · exact .commits rfl ha hqueue
      · exact .kept (congrArg WorkBook.executionQueue (handleFailure_workBook hne hhandle))
    | consumeAllocation allocationId =>
      obtain ⟨pending, -, hs⟩ := consumeAllocation_ok (Tx.transaction_ok.mp h)
      exact .kept (hs ▸ rfl)
    | system blockNumber blockHash ledger =>
      cases h
      exact .kept rfl
  · rw [step_err h]
    exact .kept rfl

/-! ### The order of the queue -/

/-- The works that entered the queue, the first one first. -/
def enteredWorks (h : Chain.History T) : List WorkId :=
  (Fifo.entered queueOf h).map ExecutionItem.workId

/-- The queue is served in order. -/
structure ExecutionOrdered (h : Chain.History T) (s : State T) :
    Prop where
  fifo : Fifo.InOrder queueOf ExecutionItem.workId h s
  passed : ∀ item ∈ Fifo.entered queueOf h, s.PassedWork item.workId
  ordered : DueInOrder s.executionQueue.toList
  next : ∀ item ∈ s.executionQueue.toList, item.executeAt ≤ s.base.blockNumber.satAdd 1

section
variable [DecidableEq AccountId] {h : Chain.History T}
  {l : Chain.Label T}

omit [DecidableEq AccountId] in
/-- In an ordered queue the items that are due stand before those that stay. -/
theorem queue_eq_due_append (hordered : DueInOrder s.executionQueue.toList)
    (block : BlockNumber) : ∃ front : List ExecutionItem, front.Perm (dueItems s block) ∧
      s.executionQueue.toList = front ++ retainedItems s block :=
  ⟨_, (sortByKey_perm _ _).symm, (splitQueue_append hordered _ _ _).symm⟩

theorem ExecutionOrdered.start (hs : Chain.Genesis T s) : ExecutionOrdered [] s := by
  obtain ⟨ledger, hqueue⟩ := genesis_initial hs queueOf fun _ _ => rfl
  have hempty : s.executionQueue.toList = [] := hqueue
  refine ⟨.start hempty, by simp [Fifo.entered], ?_, ?_⟩
  · rw [hempty]
    exact List.Pairwise.nil
  · simp [hempty]

omit [DecidableEq AccountId] in
/-- One more step, after which the block number is not lower. -/
theorem ExecutionOrdered.step (hi : ExecutionOrdered h s) (hwork : WorkStep s l s')
    (hmove : QueueMove s l s') (hclock : s.base.blockNumber ≤ s'.base.blockNumber) :
    ExecutionOrdered (⟨s, l, s'⟩ :: h) s' := by
  have hpassed : ∀ item ∈ Fifo.entered queueOf (⟨s, l, s'⟩ :: h), s'.PassedWork item.workId := by
    intro item hitem
    rcases List.mem_append.mp hitem with hold | hnew
    · obtain ⟨work, hlookup, hstatus⟩ := hi.passed item hold
      obtain ⟨work', hlookup', hstatus', -⟩ := (hwork.moves item.workId).passed hlookup hstatus
      exact ⟨work', hlookup', hstatus'⟩
    · obtain ⟨hin, hout⟩ := List.mem_filter.mp hnew
      exact (hwork.queue item hin).resolve_left (of_decide_eq_true hout)
  have hnext : ∀ item ∈ s.executionQueue.toList,
      item.executeAt ≤ s'.base.blockNumber.satAdd 1 := fun item hitem =>
    UInt32.le_trans (hi.next item hitem) (UInt32.satAdd_le_satAdd hclock 1)
  cases hmove with
  | kept hqueue =>
    refine ⟨hi.fifo.keep hqueue, hpassed, ?_, ?_⟩
    · rw [hqueue]
      exact hi.ordered
    · rwa [hqueue]
  | accepts henqueues =>
    obtain ⟨new, hqueue, hnodup, hnew⟩ := henqueues.queue
    have hfresh : ∀ item ∈ new,
        item.workId ∉ (Fifo.entered queueOf h).map ExecutionItem.workId := by
      intro item hitem hold
      obtain ⟨item', hitem', hsame⟩ := List.mem_map.mp hold
      exact (hnew item hitem).2.1 (hsame ▸ hi.passed item' hitem')
    refine ⟨hi.fifo.append hqueue hfresh hnodup, hpassed, ?_, fun item hitem => ?_⟩
    · rw [hqueue]
      refine List.pairwise_append.mpr ⟨hi.ordered, ?_, fun item hitem item' hitem' => ?_⟩
      · -- The new items are all due in the same block.
        refine List.pairwise_of_forall_mem_list fun item hitem item' hitem' => ?_
        rw [(hnew item hitem).1, (hnew item' hitem').1]
        exact UInt32.le_refl _
      · rw [(hnew item' hitem').1]
        exact hi.next item hitem
    · rw [hqueue] at hitem
      rcases List.mem_append.mp hitem with hold | hitem
      · exact hnext item hold
      · rw [(hnew item hitem).1, henqueues.clock]
        exact UInt32.le_refl _
  | commits hl ha hqueue =>
    -- In an ordered queue the items that are due are its front.
    obtain ⟨front, -, hfront⟩ := queue_eq_due_append hi.ordered _
    have hcut : s.executionQueue.toList = front ++ s'.executionQueue.toList := by
      rw [hqueue]
      exact hfront
    have hordered : DueInOrder s.executionQueue.toList := hi.ordered
    rw [hcut] at hordered hnext
    exact ⟨hi.fifo.take hcut, hpassed, (List.pairwise_append.mp hordered).2.1,
      fun item hitem => hnext item (List.mem_append_right _ hitem)⟩

/-- The queue is served in order in every run without a quarantine. -/
theorem executionOrdered_of_run (hr : Chain.Run T h s)
    (hquarantine : ∀ t ∈ h, ¬ IsQuarantine (.inl t.label))
    (hclock : ∀ t ∈ h, t.pre.base.blockNumber ≤ t.post.base.blockNumber) :
    ExecutionOrdered h s := by
  induction hr with
  | start hs => exact .start hs
  | extend hr hstep ih =>
    obtain ⟨hl, hquarantine⟩ := List.forall_mem_cons.mp hquarantine
    obtain ⟨hforward, hclock⟩ := List.forall_mem_cons.mp hclock
    exact (ih hquarantine hclock).step
      (workStep_of_step (workRun_of_run hr).pendingInv hstep) (queueMove_of_step hl hstep) hforward

/-! ### Committed works -/

/-- The step committed a block whose input has the report of the work. -/
def CommitsReportOf (t : Chain.TakenStep T) (id : WorkId) : Prop :=
  ∃ block input, CommitsInput t block input ∧ ∃ item ∈ dueItems t.pre block, item.workId = id ∧
    ∃ report ∈ input.reports.toList, dueReport t.pre item = .ok report

variable {t : Chain.TakenStep T}

omit [DecidableEq AccountId] in
/-- Every work that is due has its report in the input. -/
theorem commitsReportOf_of_commitsWork {id : WorkId} (h : CommitsWork t id) :
    CommitsReportOf t id := by
  obtain ⟨block, input, hinput, hid⟩ := h
  obtain ⟨item, hitem, rfl⟩ := List.mem_map.mp hid
  obtain ⟨hl, output, delta, ha⟩ := hinput
  obtain ⟨report, hreport, hdue⟩ :=
    (executionInput_ok ha.input_eq).reports.exists_of_mem_left hitem
  exact ⟨block, input, ⟨hl, output, delta, ha⟩, item, hitem, rfl, report, hreport, hdue⟩

/-- The works whose reports a step commits are those it takes out of the queue. -/
theorem commitsReportOf_iff (hstep : Chain.Step T t.pre t.label t.post)
    (hl : ¬ IsQuarantine (.inl t.label))
    (hnodup : (t.pre.executionQueue.toList.map ExecutionItem.workId).Nodup) (id : WorkId) :
    CommitsReportOf t id ↔ id ∈ (Fifo.leaving queueOf t).map ExecutionItem.workId := by
  constructor
  · rintro ⟨block, input, ⟨hlabel, output, delta, ha⟩, item, hitem, rfl, -⟩
    have hreturned : onFinalize block t.pre = .ok () t.post := by
      rw [hlabel] at hstep
      exact hstep
    obtain ⟨imported, -, hbook⟩ := onFinalize_workBook ha hreturned
    have hqueue : t.post.executionQueue.toList = retainedItems t.pre block :=
      congrArg WorkBook.executionQueue hbook
    refine List.mem_map_of_mem (List.mem_filter.mpr
      ⟨mem_queue_iff.mpr (Or.inl hitem), decide_eq_true fun hstays => ?_⟩)
    -- What is due does not stay, since no work is queued twice.
    have hboth := ((due_append_retained_perm t.pre block).map _).nodup_iff.mpr hnodup
    rw [List.map_append] at hboth
    exact (List.nodup_append.mp hboth).2.2 _ (List.mem_map_of_mem hitem) _
      (List.mem_map_of_mem (hqueue ▸ hstays)) rfl
  · intro hid
    obtain ⟨item, hitem, rfl⟩ := List.mem_map.mp hid
    obtain ⟨hin, hout⟩ := List.mem_filter.mp hitem
    have hgone : item ∉ t.post.executionQueue.toList := of_decide_eq_true hout
    cases queueMove_of_step hl hstep with
    | kept hqueue => exact absurd (hqueue ▸ hin) hgone
    | accepts henqueues =>
      obtain ⟨new, hqueue, -⟩ := henqueues.queue
      exact absurd (hqueue ▸ List.mem_append_left new hin) hgone
    | commits hlabel ha hqueue =>
      have hdue := (mem_queue_iff.mp hin).resolve_right fun hstays => hgone (hqueue ▸ hstays)
      exact commitsReportOf_of_commitsWork
        ⟨_, _, ⟨hlabel, _, _, ha⟩, List.mem_map_of_mem hdue⟩

/-- In every run without a quarantine, in which the block number never goes back: if the work
`a` entered the queue before the work `b`, and a step commits a block with the report of `b`,
then this step or an earlier one commits a block with the report of `a`, and no later one does.
No block has more reports than the limit. -/
theorem works_executed_in_order (h : Chain.History T) (s : State T)
    (hr : Chain.Run T h s) (hquarantine : ∀ t ∈ h, ¬ IsQuarantine (.inl t.label))
    (hclock : ∀ t ∈ h, t.pre.base.blockNumber ≤ t.post.base.blockNumber) :
    (∀ later t earlier, h = later ++ t :: earlier → ∀ a b : WorkId,
      [a, b].Sublist (enteredWorks h) → CommitsReportOf t b →
        (∃ t' ∈ t :: earlier, CommitsReportOf t' a) ∧ ∀ t' ∈ later, ¬ CommitsReportOf t' a) ∧
    ∀ t ∈ h, ∀ block input, CommitsInput t block input →
      input.reports.toList.length ≤ T.maxExecutionReports.toNat := by
  constructor
  · rintro later t earlier rfl a b hbefore hcommits
    have hleaves : ∀ t' ∈ later ++ t :: earlier, ∀ id, CommitsReportOf t' id ↔
        id ∈ (Fifo.leaving queueOf t').map ExecutionItem.workId := by
      intro t' ht'
      obtain ⟨later', earlier', hsplit⟩ := List.append_of_mem ht'
      rw [hsplit] at hr
      obtain ⟨hpre, hstep⟩ := hr.before
      exact commitsReportOf_iff hstep (hquarantine t' ht') (workBook_sound hpre).queue_nodup
    have hfifo := (executionOrdered_of_run hr hquarantine hclock).fifo
    have ht : t ∈ later ++ t :: earlier := List.mem_append_right _ List.mem_cons_self
    obtain ⟨⟨t', ht', ha⟩, hnone⟩ := hfifo.not_overtaken hbefore ((hleaves t ht b).mp hcommits)
    refine ⟨⟨t', ht', (hleaves t' (List.mem_append_right _ ht') a).mpr ha⟩, fun t' ht' hlate => ?_⟩
    exact hnone t' ht' ((hleaves t' (List.mem_append_left _ ht') a).mp hlate)
  · rintro t - block input ⟨-, output, delta, ha⟩
    rw [← (executionInput_ok ha.input_eq).reports.length_eq]
    exact length_dueItems_le t.pre block

open Reference

/-- Two works that are accepted in one block after the other and executed in one. -/
theorem works_executed_in_order_two : ∃ h s,
    Chain.Run (runtime consumeAll) h s ∧
    (∀ t ∈ h, ¬ IsQuarantine (.inl t.label)) ∧
    (∀ t ∈ h, t.pre.base.blockNumber ≤ t.post.base.blockNumber) ∧
    [0, 1].Sublist (enteredWorks h) ∧
    ∃ later t earlier, h = later ++ t :: earlier ∧ CommitsReportOf t 1 ∧
      (∃ t' ∈ t :: earlier, CommitsReportOf t' 0) ∧ ∀ t' ∈ later, ¬ CommitsReportOf t' 0 := by
  obtain ⟨h, s, hrun, hquarantine, hclock, hbefore, t, ht, hcommits⟩ :=
    exists_history (runtime consumeAll)
    (voteThrough 0 2 1 ++ [.jamOnInitialize 1] ++ voteThrough 1 2 2 ++
      [.jamOnInitialize 2, .onFinalize 2, .onFinalize 3])
    (fun h _ => (∀ t ∈ h, ¬ IsQuarantine (.inl t.label)) ∧
      (∀ t ∈ h, t.pre.base.blockNumber ≤ t.post.base.blockNumber) ∧
      [0, 1].Sublist (enteredWorks h) ∧ ∃ t ∈ h, CommitsWork t 1) (by decide +kernel)
  have hlast := commitsReportOf_of_commitsWork hcommits
  obtain ⟨later, earlier, hsplit⟩ := List.append_of_mem ht
  exact ⟨h, s, hrun, hquarantine, hclock, hbefore, later, t, earlier, hsplit, hlast,
    (works_executed_in_order h s hrun hquarantine hclock).1 later t earlier hsplit 0 1 hbefore
      hlast⟩

end

end MiniJam.Jam
