import Mathlib.Algebra.GroupWithZero.Nat
import MiniJam.Lib.Trace

/-!
# `MiniJam.Lib.JobPool`: threads that report over one channel

A caller has lists of jobs. It spawns a thread for each list that is not empty. A thread works
off its list in order and sends one message for each job. All threads send over one channel,
and the caller receives from it until every sender is gone and the channel is empty. A caller
that `joins` waits for the end of all threads before it receives.

The threads take their steps in any order, and a thread may start before the next one is
spawned. The clock is read when a job begins and again when its message is sent.

* `run_length`: each step takes one unit off a count, so a run has a bounded length.
* `done_or_step`: a pool that is not done has a step, so a run that cannot go on is done.
* `received_perm`: of a pool that is done, the caller has received one message for each job.
-/

set_option autoImplicit false

/-- A thread: the job it is at with the time it began, and the jobs after it. -/
structure JobThread (J : Type) where
  current : Option (J × Nat)
  jobs : List J

/-- The caller's lists, the threads it has spawned, and the channel to the caller. -/
structure JobPool (J M : Type) where
  clock : Nat
  lists : List (List J)
  threads : List (JobThread J)
  channel : List M
  received : List M

namespace JobThread

variable {J : Type}

def Ended (thread : JobThread J) : Prop := thread.current = none ∧ thread.jobs = []

/-- The jobs the thread has not reported on. -/
def pending (thread : JobThread J) : List J := thread.current.toList.map Prod.fst ++ thread.jobs

/-- How many steps of the pool the thread's jobs still take: begin, send and receive for each. -/
def work (thread : JobThread J) : Nat := 2 * thread.current.toList.length + 3 * thread.jobs.length

end JobThread

namespace JobPool

variable {J M : Type}

/-- The pool before the first thread is spawned. -/
def start (clock : Nat) (lists : List (List J)) : JobPool J M where
  clock := clock
  lists := lists
  threads := []
  channel := []
  received := []

/-- Every sender is gone. -/
def Closed (p : JobPool J M) : Prop := p.lists = [] ∧ ∀ thread ∈ p.threads, thread.Ended

/-- The caller has received everything. -/
def Done (p : JobPool J M) : Prop := p.Closed ∧ p.channel = []

inductive Event where
  | skip
  | spawn
  | begin (thread : Nat)
  | send (thread : Nat)
  | receive

/-- One step of the caller or of one of the threads. A thread is told from the others by the
number of threads before it. -/
inductive Step (report : J → Nat → Nat → M) (joins : Bool) :
    JobPool J M → Event → JobPool J M → Prop
  /-- The caller spawns no thread for an empty list. -/
  | skip {p : JobPool J M} {rest : List (List J)} (hlists : p.lists = [] :: rest) :
      Step report joins p .skip { p with lists := rest }
  | spawn {p : JobPool J M} {job : J} {jobs : List J} {rest : List (List J)}
      (hlists : p.lists = (job :: jobs) :: rest) :
      Step report joins p .spawn
        { p with lists := rest, threads := p.threads ++ [⟨none, job :: jobs⟩] }
  | begin {p : JobPool J M} {before after : List (JobThread J)} {job : J} {jobs : List J}
      {now : Nat} (hthread : p.threads = before ++ ⟨none, job :: jobs⟩ :: after)
      (hclock : p.clock ≤ now) :
      Step report joins p (.begin before.length)
        { p with clock := now, threads := before ++ ⟨some (job, now), jobs⟩ :: after }
  | send {p : JobPool J M} {before after : List (JobThread J)} {job : J} {began : Nat}
      {jobs : List J} {now : Nat}
      (hthread : p.threads = before ++ ⟨some (job, began), jobs⟩ :: after)
      (hclock : p.clock ≤ now) :
      Step report joins p (.send before.length)
        { p with
          clock := now
          threads := before ++ ⟨none, jobs⟩ :: after
          channel := p.channel ++ [report job began now] }
  | receive {p : JobPool J M} {message : M} {rest : List M} (hspawned : p.lists = [])
      (hjoined : joins = true → p.Closed) (hchannel : p.channel = message :: rest) :
      Step report joins p .receive
        { p with channel := rest, received := p.received ++ [message] }

/-- The runs of a pool that starts with these lists. -/
def Run (report : J → Nat → Nat → M) (joins : Bool) (lists : List (List J)) :
    List (Transition (JobPool J M) Event) → JobPool J M → Prop :=
  Trace (fun p => ∃ clock, p = start clock lists) (Step report joins)

variable {report : J → Nat → Nat → M} {joins : Bool} {lists : List (List J)}

/-! ### A run ends -/

/-- How many steps are left. -/
def work (p : JobPool J M) : Nat :=
  p.lists.length + 3 * p.lists.flatten.length + (p.threads.map JobThread.work).sum
    + p.channel.length

variable {p : JobPool J M}

/-- A step does one unit of the work. -/
theorem Step.work {p' : JobPool J M} {e : Event} (h : Step report joins p e p') :
    p'.work + 1 = p.work := by
  cases h with
  | skip hlists =>
    simp [JobPool.work, hlists]
    omega
  | spawn hlists =>
    simp [JobPool.work, JobThread.work, hlists]
    omega
  | begin hthread hclock =>
    simp [JobPool.work, JobThread.work, hthread]
    omega
  | send hthread hclock =>
    simp [JobPool.work, JobThread.work, hthread]
    omega
  | receive hspawned hjoined hchannel =>
    simp [JobPool.work, hchannel]
    omega

variable {h : List (Transition (JobPool J M) Event)}

/-- A run and the work it has left are as long as the lists ask for: one step for each list, and
three for each job. -/
theorem run_length (hr : Run report joins lists h p) :
    h.length + p.work = lists.length + 3 * lists.flatten.length := by
  refine hr.invariant (I := fun h p => h.length + p.work = lists.length + 3 * lists.flatten.length)
    ?_ ?_
  · rintro _ ⟨clock, rfl⟩
    simp [work, start]
  · intro h p e p' hcount hstep
    have hwork := hstep.work
    simp only [List.length_cons]
    omega

/-- A pool that is not done can go on. -/
theorem done_or_step (report : J → Nat → Nat → M) (joins : Bool) (p : JobPool J M) :
    p.Done ∨ ∃ e p', Step report joins p e p' := by
  by_cases hlists : p.lists = []
  · by_cases hended : ∀ thread ∈ p.threads, thread.Ended
    · -- Only messages are left.
      cases hchannel : p.channel with
      | nil => exact .inl ⟨⟨hlists, hended⟩, hchannel⟩
      | cons message rest =>
        exact .inr ⟨_, _, .receive hlists (fun _ => ⟨hlists, hended⟩) hchannel⟩
    · push Not at hended
      obtain ⟨thread, hmem, hbusy⟩ := hended
      obtain ⟨before, after, hthreads⟩ := List.append_of_mem hmem
      obtain ⟨current, jobs⟩ := thread
      cases current with
      | some at_ => exact .inr ⟨_, _, .send hthreads (Nat.le_refl _)⟩
      | none =>
        cases jobs with
        | nil => exact absurd ⟨rfl, rfl⟩ hbusy
        | cons job jobs => exact .inr ⟨_, _, .begin hthreads (Nat.le_refl _)⟩
  · obtain ⟨list, rest, hlists⟩ := List.exists_cons_of_ne_nil hlists
    cases list with
    | nil => exact .inr ⟨_, _, .skip hlists⟩
    | cons job jobs => exact .inr ⟨_, _, .spawn hlists⟩

/-- So a run can be continued until it is done. -/
theorem exists_done (hr : Run report joins lists h p) :
    ∃ h' p', Run report joins lists h' p' ∧ p'.Done := by
  -- Induction on the work that is left.
  induction hwork : p.work using Nat.strongRecOn generalizing h p with
  | ind n ih =>
    rcases done_or_step report joins p with hdone | ⟨e, p', hstep⟩
    · exact ⟨h, p, hr, hdone⟩
    · have hless := hstep.work
      exact ih p'.work (by omega) (hr.extend hstep) rfl

/-! ### No message is lost or sent twice -/

section
variable {β : Type} (viewJob : J → β) (viewMessage : M → β)

/-- What there is to see of the jobs without a report and of the reports. -/
def seen (p : JobPool J M) : List β :=
  p.lists.flatten.map viewJob ++ (p.threads.flatMap JobThread.pending).map viewJob
    ++ (p.received ++ p.channel).map viewMessage

variable {viewJob viewMessage}

/-- A step only moves it, when a message shows what its job shows. -/
theorem Step.seen_perm (hview : ∀ job began now, viewMessage (report job began now) = viewJob job)
    {p' : JobPool J M} {e : Event} (h : Step report joins p e p') :
    (p'.seen viewJob viewMessage).Perm (p.seen viewJob viewMessage) := by
  classical
  cases h with
  | skip hlists => simp [seen, hlists]
  | spawn hlists =>
    refine List.perm_iff_count.mpr fun b => ?_
    simp [seen, JobThread.pending, hlists, List.count_append, List.count_cons]
    omega
  | begin hthread hclock => simp [seen, JobThread.pending, hthread]
  | send hthread hclock =>
    refine List.perm_iff_count.mpr fun b => ?_
    simp [seen, JobThread.pending, hthread, hview, List.count_append, List.count_cons]
    omega
  | receive hspawned hjoined hchannel => simp [seen, hchannel]

variable (viewJob viewMessage) in
/-- When all is done, the caller has received one message for each job. -/
theorem received_perm (hview : ∀ job began now, viewMessage (report job began now) = viewJob job)
    (hr : Run report joins lists h p) (hdone : p.Done) :
    (p.received.map viewMessage).Perm (lists.flatten.map viewJob) := by
  have hseen : (p.seen viewJob viewMessage).Perm (lists.flatten.map viewJob) := by
    refine hr.invariant_state
      (I := fun p => (p.seen viewJob viewMessage).Perm (lists.flatten.map viewJob)) ?_ ?_
    · rintro _ ⟨clock, rfl⟩
      simp [seen, start]
    · intro p e p' hperm hstep
      exact (hstep.seen_perm hview).trans hperm
  obtain ⟨⟨hlists, hended⟩, hchannel⟩ := hdone
  have hpending : p.threads.flatMap JobThread.pending = [] := by
    rw [List.flatMap_eq_nil_iff]
    intro thread hmem
    obtain ⟨hcurrent, hjobs⟩ := hended thread hmem
    simp [JobThread.pending, hcurrent, hjobs]
  simpa [seen, hlists, hpending, hchannel] using hseen

end

end JobPool

/-! ### Spreading jobs over lists -/

/-- An element added to one of the lists is added to all of them together. -/
theorem List.flatten_modify_perm {α : Type} {lists : List (List α)} {i : Nat}
    (hi : i < lists.length) (a : α) :
    (lists.modify i fun list => list ++ [a]).flatten.Perm (lists.flatten ++ [a]) := by
  induction lists generalizing i with
  | nil => simp at hi
  | cons list lists ih =>
    cases i with
    | zero =>
      rw [List.modify_zero_cons, List.flatten_cons, List.flatten_cons, List.append_assoc,
        List.append_assoc]
      exact List.perm_append_comm.append_left list
    | succ i =>
      rw [List.modify_succ_cons, List.flatten_cons, List.flatten_cons, List.append_assoc]
      exact (ih (by simpa using hi)).append_left list

/-- Elements that are added one after the other, each to a list that there is. -/
theorem List.flatten_foldl_modify_perm {α : Type} (index : α → Nat) {as : List α}
    {lists : List (List α)} (h : ∀ a ∈ as, index a < lists.length) :
    (as.foldl (fun lists a => lists.modify (index a) fun list => list ++ [a]) lists).flatten.Perm
      (lists.flatten ++ as) := by
  induction as generalizing lists with
  | nil => simp
  | cons a as ih =>
    have ha := h a (by simp)
    have hlater : ∀ a' ∈ as,
        index a' < (lists.modify (index a) fun list => list ++ [a]).length := by
      intro a' ha'
      rw [List.length_modify]
      exact h a' (by simp [ha'])
    rw [List.foldl_cons]
    refine (ih hlater).trans ?_
    rw [List.append_cons]
    exact (List.flatten_modify_perm ha a).append_right as
