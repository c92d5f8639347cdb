import MiniJam.Lib.JobPool
import MiniJam.Worker.Bundle

/-!
# `MiniJam.Worker.Lanes`: execution lanes

A worker spreads its tasks over lanes, executes the lanes at the same time, one thread for each,
and sorts the results. Each definition follows the function of the same name in
`crates/minijam-worker/src/lib.rs`. The threads and their channel are a `JobPool`. A failed
assertion is `none`.

`execute_tasks_on_lanes` joins its threads before it reads the channel.
`execute_tasks_on_lanes_scoped` reads the channel while they run. That is the parameter `joins`.
-/

set_option autoImplicit false

namespace MiniJam.Worker

/-- A work the worker may have to report on. -/
structure WorkTask where
  workId : WorkId
  round : AssignmentRound
  assignmentEpoch : EpochIndex
  assignedWorkers : List WorkerId
  candidateProducer : WorkerId
  packageHash : Hash
  canonicalWorkPackage : Bytes
  bundleRef : ContentRef
  deriving DecidableEq

abbrev ExecutionLaneId : Type := UInt16

def deterministicLaneForWork (workId : WorkId) (laneCount : ExecutionLaneId) :
    Option ExecutionLaneId :=
  if laneCount > 0 then some (workId % laneCount.toUInt64).toUInt16 else none

structure WorkerTaskV2 where
  task : WorkTask
  executionLane : ExecutionLaneId
  deriving DecidableEq

def WorkerTaskV2.fromV1 (task : WorkTask) (laneCount : ExecutionLaneId) : Option WorkerTaskV2 := do
  let executionLane ← deterministicLaneForWork task.workId laneCount
  some ⟨task, executionLane⟩

def assignTasksToLanes (tasks : List WorkTask) (laneCount : ExecutionLaneId) :
    Option (List WorkerTaskV2) := do
  let assigned ← tasks.mapM fun task => WorkerTaskV2.fromV1 task laneCount
  some (sortByKey (fun task => toLex (task.executionLane.toNat, task.task.workId.toNat)) assigned)

/-- What a lane thread sends about a task. An instant is a reading of the clock. -/
structure LaneExecutionResult (α : Type) where
  workId : WorkId
  laneId : ExecutionLaneId
  startedAt : Nat
  finishedAt : Nat
  result : Except WorkerError α

section
variable {α : Type}

/-- The tasks of each lane. A lane that does not exist is taken for the last one. -/
def fillLanes (tasks : List WorkerTaskV2) (laneCount : ExecutionLaneId) :
    List (List WorkerTaskV2) :=
  tasks.foldl
    (fun lanes task =>
      lanes.modify (min task.executionLane.toNat (laneCount.toNat - 1)) fun lane => lane ++ [task])
    (List.replicate laneCount.toNat [])

/-- The message about a task that was begun and finished at these times. -/
def laneResult (execute : WorkTask → Except WorkerError α) (task : WorkerTaskV2)
    (startedAt finishedAt : Nat) : LaneExecutionResult α where
  workId := task.task.workId
  laneId := task.executionLane
  startedAt := startedAt
  finishedAt := finishedAt
  result := execute task.task

abbrev LanePool (α : Type) : Type := JobPool WorkerTaskV2 (LaneExecutionResult α)

/-- The runs of the lane threads and their caller, until the caller sorts what it received. -/
def LaneRun (joins : Bool) (execute : WorkTask → Except WorkerError α)
    (tasks : List WorkerTaskV2) (laneCount : ExecutionLaneId) :
    List (Transition (LanePool α) JobPool.Event) → LanePool α → Prop :=
  JobPool.Run (laneResult execute) joins (fillLanes tasks laneCount)

/-- The order in which results are returned. -/
def sortResults (results : List (LaneExecutionResult α)) : List (LaneExecutionResult α) :=
  sortByKey (fun item => toLex (item.laneId.toNat, item.workId.toNat)) results

/-- The order in which the candidates of the results are submitted. -/
def inWorkIdOrder (results : List (LaneExecutionResult α)) : List (LaneExecutionResult α) :=
  sortByKey (fun execution => execution.workId.toNat) results

/-- `results` may be returned, under some schedule of the threads. -/
def LanesReturn (joins : Bool) (execute : WorkTask → Except WorkerError α)
    (tasks : List WorkerTaskV2) (laneCount : ExecutionLaneId)
    (results : List (LaneExecutionResult α)) : Prop :=
  laneCount > 0 ∧
    ∃ h pool, LaneRun joins execute tasks laneCount h pool ∧ pool.Done ∧
      results = sortResults pool.received

/-- What `execute_tasks_on_lanes` may return. -/
def ExecuteTasksOnLanes (tasks : List WorkerTaskV2) (laneCount : ExecutionLaneId)
    (execute : WorkTask → Except WorkerError α) : List (LaneExecutionResult α) → Prop :=
  LanesReturn true execute tasks laneCount

/-- What `execute_tasks_on_lanes_scoped` may return. -/
def ExecuteTasksOnLanesScoped (tasks : List WorkerTaskV2) (laneCount : ExecutionLaneId)
    (execute : WorkTask → Except WorkerError α) : List (LaneExecutionResult α) → Prop :=
  LanesReturn false execute tasks laneCount

end

end MiniJam.Worker
