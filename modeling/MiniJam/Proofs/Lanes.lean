import MiniJam.Worker.Lanes

/-!
# `MiniJam.Proofs.Lanes`: lanes and schedules do not show in the results

A task lies in the lane of its work id, and that lane exists, so the lanes together hold every
task once. `JobPool.received_perm` then says that the caller receives one result for each task,
in an order that depends on the threads. Sorting removes that order: the keys are different,
because the work ids are, and a list has one sorted order of different keys.
-/

set_option autoImplicit false

namespace MiniJam.Worker

variable {α : Type}

/-! ### The lane of a task -/

/-- The lane of a work, where there is one. -/
def laneOf (laneCount : ExecutionLaneId) (workId : WorkId) : ExecutionLaneId :=
  (workId % laneCount.toUInt64).toUInt16

variable {laneCount : ExecutionLaneId}

theorem toNat_laneOf (h : laneCount > 0) (workId : WorkId) :
    (laneOf laneCount workId).toNat = workId.toNat % laneCount.toNat := by
  have hpos : 0 < laneCount.toNat := h
  have hless := Nat.mod_lt workId.toNat hpos
  have hbound := laneCount.toNat_lt
  simp only [laneOf, UInt64.toNat_toUInt16, UInt64.toNat_mod, UInt16.toNat_toUInt64]
  omega

theorem laneOf_lt (h : laneCount > 0) (workId : WorkId) :
    (laneOf laneCount workId).toNat < laneCount.toNat := by
  rw [toNat_laneOf h]
  exact Nat.mod_lt _ h

/-- A task with its lane. -/
def inLane (laneCount : ExecutionLaneId) (task : WorkTask) : WorkerTaskV2 where
  task := task
  executionLane := laneOf laneCount task.workId

/-- The key lane tasks are sorted by. -/
def WorkerTaskV2.key (task : WorkerTaskV2) : Lex (Nat × Nat) :=
  toLex (task.executionLane.toNat, task.task.workId.toNat)

theorem assignTasksToLanes_eq (tasks : List WorkTask) (h : laneCount > 0) :
    assignTasksToLanes tasks laneCount =
      some (sortByKey WorkerTaskV2.key (tasks.map (inLane laneCount))) := by
  have hlanes : ∀ task, WorkerTaskV2.fromV1 task laneCount = some (inLane laneCount task) := by
    intro task
    simp [WorkerTaskV2.fromV1, deterministicLaneForWork, h, inLane, laneOf]
  have hmap : tasks.mapM (fun task => WorkerTaskV2.fromV1 task laneCount)
      = some (tasks.map (inLane laneCount)) := by
    induction tasks with
    | nil => rfl
    | cons task tasks ih =>
      rw [List.mapM_cons, hlanes, ih]
      rfl
  rw [assignTasksToLanes, hmap]
  rfl

/-! ### The lanes hold every task once -/

theorem fillLanes_flatten_perm {tasks : List WorkerTaskV2}
    (hlane : ∀ task ∈ tasks, task.executionLane.toNat < laneCount.toNat) :
    (fillLanes tasks laneCount).flatten.Perm tasks := by
  have hindex : ∀ task ∈ tasks, min task.executionLane.toNat (laneCount.toNat - 1)
      < (List.replicate laneCount.toNat ([] : List WorkerTaskV2)).length := by
    intro task htask
    have hless := hlane task htask
    rw [List.length_replicate]
    omega
  have hperm := List.flatten_foldl_modify_perm
    (fun task : WorkerTaskV2 => min task.executionLane.toNat (laneCount.toNat - 1)) hindex
  have hempty : (List.replicate laneCount.toNat ([] : List WorkerTaskV2)).flatten = [] := by simp
  rw [hempty] at hperm
  exact hperm

theorem length_fillLanes (tasks : List WorkerTaskV2) (laneCount : ExecutionLaneId) :
    (fillLanes tasks laneCount).length = laneCount.toNat := by
  have hlength : ∀ lanes : List (List WorkerTaskV2),
      (tasks.foldl (fun lanes task =>
        lanes.modify (min task.executionLane.toNat (laneCount.toNat - 1))
          fun lane => lane ++ [task]) lanes).length = lanes.length := by
    induction tasks with
    | nil =>
      intro lanes
      rfl
    | cons task tasks ih =>
      intro lanes
      rw [List.foldl_cons, ih, List.length_modify]
  rw [fillLanes, hlength, List.length_replicate]

/-! ### What is returned -/

/-- The tasks executed one after the other, in the order of their works. -/
def executeInOrder (execute : WorkTask → Except WorkerError α) (tasks : List WorkTask) :
    List (WorkId × Except WorkerError α) :=
  (sortByKey (fun task => task.workId.toNat) tasks).map fun task => (task.workId, execute task)

/-- What is known of the results of `tasks`. -/
structure LaneResults (execute : WorkTask → Except WorkerError α) (tasks : List WorkTask)
    (laneCount : ExecutionLaneId) (results : List (LaneExecutionResult α)) : Prop where
  onePerTask : (results.map fun r => (r.workId, r.result)).Perm
    (tasks.map fun task => (task.workId, execute task))
  lane : ∀ r ∈ results, r.laneId.toNat = r.workId.toNat % laneCount.toNat
  sorted : results.Pairwise fun r r' =>
    toLex (r.laneId.toNat, r.workId.toNat) < toLex (r'.laneId.toNat, r'.workId.toNat)
  inOrder : (inWorkIdOrder results).map (fun r => (r.workId, r.result)) =
    executeInOrder execute tasks

section
variable {joins : Bool} {execute : WorkTask → Except WorkerError α} {tasks : List WorkTask}
  {laneCount : ExecutionLaneId} {assigned : List WorkerTaskV2}
  {results : List (LaneExecutionResult α)}

/-- The assigned tasks are the tasks with their lanes, in some order. -/
theorem assigned_perm (hlanes : laneCount > 0)
    (hassigned : assignTasksToLanes tasks laneCount = some assigned) :
    assigned.Perm (tasks.map (inLane laneCount)) := by
  rw [assignTasksToLanes_eq tasks hlanes] at hassigned
  cases hassigned
  exact sortByKey_perm _ _

theorem assigned_lane_lt (hlanes : laneCount > 0)
    (hassigned : assignTasksToLanes tasks laneCount = some assigned) :
    ∀ task ∈ assigned, task.executionLane.toNat < laneCount.toNat := by
  intro task htask
  obtain ⟨origin, -, rfl⟩ := List.mem_map.mp ((assigned_perm hlanes hassigned).mem_iff.mp htask)
  exact laneOf_lt hlanes origin.workId

/-- So the lanes hold the tasks, each in its lane. -/
theorem lanes_perm (hlanes : laneCount > 0)
    (hassigned : assignTasksToLanes tasks laneCount = some assigned) :
    (fillLanes assigned laneCount).flatten.Perm (tasks.map (inLane laneCount)) :=
  (fillLanes_flatten_perm (assigned_lane_lt hlanes hassigned)).trans
    (assigned_perm hlanes hassigned)

/-- One result for each task, with its lane. -/
theorem results_perm (hassigned : assignTasksToLanes tasks laneCount = some assigned)
    (h : LanesReturn joins execute assigned laneCount results) :
    (results.map fun r => (r.laneId, r.workId, r.result)).Perm
      (tasks.map fun task => (laneOf laneCount task.workId, task.workId, execute task)) := by
  obtain ⟨hlanes, history, pool, hrun, hdone, rfl⟩ := h
  have hreceived := JobPool.received_perm
    (fun task : WorkerTaskV2 => (task.executionLane, task.task.workId, execute task.task))
    (fun r : LaneExecutionResult α => (r.laneId, r.workId, r.result)) (fun _ _ _ => rfl) hrun hdone
  have htasks := (lanes_perm hlanes hassigned).map
    fun task : WorkerTaskV2 => (task.executionLane, task.task.workId, execute task.task)
  rw [List.map_map] at htasks
  exact (((sortByKey_perm _ pool.received).map _).trans hreceived).trans htasks

/-- The same without the lanes. -/
theorem results_perm_tasks (hassigned : assignTasksToLanes tasks laneCount = some assigned)
    (h : LanesReturn joins execute assigned laneCount results) :
    (results.map fun r => (r.workId, r.result)).Perm
      (tasks.map fun task => (task.workId, execute task)) := by
  have hperm := (results_perm hassigned h).map Prod.snd
  rw [List.map_map, List.map_map] at hperm
  exact hperm

/-- Executing in order does not look at the order the tasks come in. -/
theorem executeInOrder_perm {tasks' : List WorkTask} (hperm : tasks'.Perm tasks)
    (hids : (tasks.map WorkTask.workId).Nodup) :
    executeInOrder execute tasks' = executeInOrder execute tasks := by
  have hinj := List.inj_on_of_nodup_map hids
  have hsorted : sortByKey (fun task => task.workId.toNat) tasks
      = sortByKey (fun task => task.workId.toNat) tasks' :=
    sortByKey_eq_of_perm hperm.symm fun task htask other hother heq =>
      hinj htask hother (UInt64.toNat_inj.mp heq)
  rw [executeInOrder, executeInOrder, hsorted]

theorem laneResults_of_return (hids : (tasks.map WorkTask.workId).Nodup)
    (hassigned : assignTasksToLanes tasks laneCount = some assigned)
    (h : LanesReturn joins execute assigned laneCount results) :
    LaneResults execute tasks laneCount results := by
  have hlanes := h.1
  have hperm := results_perm hassigned h
  have htasks := results_perm_tasks hassigned h
  have hnodup : (results.map LaneExecutionResult.workId).Nodup := by
    have hworks := htasks.map Prod.fst
    rw [List.map_map, List.map_map] at hworks
    exact hworks.nodup_iff.mpr hids
  refine ⟨htasks, ?_, ?_, ?_⟩
  · intro r hr
    -- The result is the one of some task, and carries the lane of that task.
    have hview := hperm.mem_iff.mp (List.mem_map_of_mem hr)
    obtain ⟨task, -, heq⟩ := List.mem_map.mp hview
    simp only [Prod.mk.injEq] at heq
    obtain ⟨hlane, hid, -⟩ := heq
    rw [← hlane, ← hid]
    exact toNat_laneOf hlanes task.workId
  · obtain ⟨-, history, pool, hrun, hdone, rfl⟩ := h
    have hreceived := ((sortByKey_perm _ pool.received).map LaneExecutionResult.workId).nodup_iff.mp
      hnodup
    refine pairwise_lt_sortByKey ?_
    rw [List.nodup_map_iff_inj_on hreceived.of_map]
    intro r hr r' hr' heq
    have hid : r.workId = r'.workId := UInt64.toNat_inj.mp (congrArg (fun key => (ofLex key).2) heq)
    exact List.inj_on_of_nodup_map hreceived hr hr' hid
  · -- Both sides are the pairs of work and result, sorted by the work.
    have hresults : (inWorkIdOrder results).map (fun r => (r.workId, r.result)) =
        sortByKey (fun p => p.1.toNat) (results.map fun r => (r.workId, r.result)) := by
      refine map_sortByKey _ _ ?_ results
      intro r
      rfl
    have hexecuted : executeInOrder execute tasks = sortByKey (fun p => p.1.toNat)
        (tasks.map fun task => (task.workId, execute task)) := by
      refine map_sortByKey _ _ ?_ tasks
      intro task
      rfl
    rw [hresults, hexecuted]
    refine sortByKey_eq_of_perm htasks ?_
    intro p hp p' hp' heq
    obtain ⟨r, hr, rfl⟩ := List.mem_map.mp hp
    obtain ⟨r', hr', rfl⟩ := List.mem_map.mp hp'
    rw [List.inj_on_of_nodup_map hnodup hr hr' (UInt64.toNat_inj.mp heq)]

/-! ### Every schedule returns -/

/-- Some results are returned. -/
theorem exists_lanesReturn (joins : Bool) (execute : WorkTask → Except WorkerError α)
    (assigned : List WorkerTaskV2) (hlanes : laneCount > 0) :
    ∃ results, LanesReturn joins execute assigned laneCount results := by
  have hstart : LaneRun joins execute assigned laneCount []
      (JobPool.start 0 (fillLanes assigned laneCount)) := .start ⟨0, rfl⟩
  obtain ⟨h, pool, hrun, hdone⟩ := JobPool.exists_done hstart
  exact ⟨_, hlanes, h, pool, hrun, hdone, rfl⟩

/-- A run of the lanes has at most one step for each lane and three for each task. -/
theorem laneRun_length (hlanes : laneCount > 0)
    (hassigned : assignTasksToLanes tasks laneCount = some assigned)
    {h : List (Transition (LanePool α) JobPool.Event)} {pool : LanePool α}
    (hrun : LaneRun joins execute assigned laneCount h pool) :
    h.length ≤ laneCount.toNat + 3 * tasks.length := by
  have hcount := JobPool.run_length hrun
  have hlength := (lanes_perm hlanes hassigned).length_eq
  rw [List.length_map] at hlength
  rw [length_fillLanes, hlength] at hcount
  omega

/-- The lanes and their threads do not show. -/
theorem lanes_execute_in_order (execute : WorkTask → Except WorkerError α) (tasks : List WorkTask)
    (laneCount : ExecutionLaneId) (hlanes : laneCount ≥ 1)
    (hids : (tasks.map WorkTask.workId).Nodup) :
    ∃ assigned, assignTasksToLanes tasks laneCount = some assigned ∧
      (∀ joins h pool, LaneRun joins execute assigned laneCount h pool →
        h.length ≤ laneCount.toNat + 3 * tasks.length ∧
          (pool.Done ∨ ∃ e pool', JobPool.Step (laneResult execute) joins pool e pool')) ∧
      (∀ results, ExecuteTasksOnLanesScoped assigned laneCount execute results →
        LaneResults execute tasks laneCount results) ∧
      (∀ results, ExecuteTasksOnLanes assigned laneCount execute results →
        LaneResults execute tasks laneCount results) ∧
      ∀ tasks', tasks'.Perm tasks →
        executeInOrder execute tasks' = executeInOrder execute tasks := by
  have hpos : laneCount > 0 := UInt16.lt_iff_toNat_lt.mpr (UInt16.le_iff_toNat_le.mp hlanes)
  refine ⟨_, assignTasksToLanes_eq tasks hpos, ?_, ?_, ?_, ?_⟩
  · intro joins h pool hrun
    exact ⟨laneRun_length hpos (assignTasksToLanes_eq tasks hpos) hrun,
      JobPool.done_or_step (laneResult execute) joins pool⟩
  · exact fun results => laneResults_of_return hids (assignTasksToLanes_eq tasks hpos)
  · exact fun results => laneResults_of_return hids (assignTasksToLanes_eq tasks hpos)
  · exact fun tasks' hperm => executeInOrder_perm hperm hids

end

/-- A task of which only the work id matters. -/
def bareTask (workId : WorkId) : WorkTask where
  workId := workId
  round := 0
  assignmentEpoch := 0
  assignedWorkers := []
  candidateProducer := 0
  packageHash := FixedBytes.fill 32 0
  canonicalWorkPackage := []
  bundleRef := ⟨BoundedVec.empty, FixedBytes.fill 32 0, 0⟩

/-- Three tasks on two lanes: some results are returned, and in the order of the works they are
those of the tasks. -/
theorem lanes_execute_in_order_two_lanes :
    ∃ assigned results, assignTasksToLanes [bareTask 3, bareTask 1, bareTask 2] 2 = some assigned ∧
      ExecuteTasksOnLanesScoped assigned 2 (fun task => .ok task.workId.toNat) results ∧
      (inWorkIdOrder results).map (fun r => (r.workId, r.result)) =
        [(1, .ok 1), (2, .ok 2), (3, .ok 3)] := by
  obtain ⟨assigned, hassigned, -, hscoped, -⟩ := lanes_execute_in_order
    (fun task => .ok task.workId.toNat) [bareTask 3, bareTask 1, bareTask 2] 2 (by decide)
    (by decide)
  obtain ⟨results, hresults⟩ := exists_lanesReturn false
    (fun task => (.ok task.workId.toNat : Except WorkerError Nat)) assigned
    (show (2 : ExecutionLaneId) > 0 by decide)
  exact ⟨assigned, results, hassigned, hresults, (hscoped results hresults).inOrder⟩

end MiniJam.Worker
