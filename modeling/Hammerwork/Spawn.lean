/-
Spawning: the children a job makes when it completes.

A handler is registered for a queue; it checks the parent and makes the
child jobs. What is added to them here is the same for every handler:
the settings they inherit, the dependency on their parent, and their
parent's workflow. Nothing is enqueued yet
(`TestQueue.completeJobRunWithChildren` does that).

A child's dependency status is left as it came: a child whose only
dependency is the one added here does not wait for it.
-/
import Hammerwork.Job
import Hammerwork.Lib.Table

namespace Hammerwork

/-- How many children a job may spawn, and what they inherit. -/
structure SpawnConfig where
  maxSpawnCount : Option Nat
  inheritPriority : Bool
  inheritRetryStrategy : Bool
  inheritTimeout : Bool
  inheritTraceContext : Bool
  operationId : Option String

def SpawnConfig.default : SpawnConfig where
  maxSpawnCount := some 100
  inheritPriority := true
  inheritRetryStrategy := true
  inheritTimeout := false
  inheritTraceContext := true
  operationId := none

/-- A spawn handler: whether the parent may spawn, and what. -/
structure SpawnHandler where
  validateSpawn : Job → SpawnConfig → Except HammerworkError Unit
  spawnJobs : Job → SpawnConfig → Except HammerworkError (List Job)

/-- The handlers, by queue. -/
abbrev SpawnManager := Table String SpawnHandler

/-- The error for a parent with more children than it may have. -/
def spawnLimitExceeded (attempted limit : Nat) : HammerworkError :=
  .spawn s!"Spawn limit exceeded: attempted to spawn {attempted} jobs, limit is {limit}"

/-- A setting the child takes from a parent that has one. -/
def inherit {T : Type} (child parent : Option T) : Option T :=
  if parent.isSome then parent else child

namespace SpawnManager

/-- A child as its parent hands it on. -/
def prepareChild (job : Job) (config : SpawnConfig) (child : Job) : Job :=
  { child with
    priority := if config.inheritPriority then job.priority else child.priority
    retryStrategy :=
      if config.inheritRetryStrategy then inherit child.retryStrategy job.retryStrategy
      else child.retryStrategy
    timeout := if config.inheritTimeout then inherit child.timeout job.timeout else child.timeout
    traceId :=
      if config.inheritTraceContext then inherit child.traceId job.traceId else child.traceId
    correlationId :=
      if config.inheritTraceContext then inherit child.correlationId job.correlationId
      else child.correlationId
    parentSpanId :=
      if config.inheritTraceContext then inherit child.parentSpanId job.parentSpanId
      else child.parentSpanId
    spanContext :=
      if config.inheritTraceContext then inherit child.spanContext job.spanContext
      else child.spanContext
    dependsOn :=
      if job.id ∈ child.dependsOn then child.dependsOn else child.dependsOn ++ [job.id]
    workflowId := job.workflowId
    workflowName := job.workflowName }

/-- The children `job` spawns; none when its queue has no handler. -/
def prepareSpawn (manager : SpawnManager) (job : Job) (config : SpawnConfig) :
    Except HammerworkError (Option (List Job)) :=
  match manager.lookup job.queueName with
  | none => .ok none
  | some handler => do
      handler.validateSpawn job config
      let childJobs ← handler.spawnJobs job config
      match config.maxSpawnCount with
      | some maxCount =>
          if childJobs.length > maxCount then
            .error (spawnLimitExceeded childJobs.length maxCount)
          else
            return some (childJobs.map (prepareChild job config))
      | none => return some (childJobs.map (prepareChild job config))

variable {manager : SpawnManager} {job : Job} {config : SpawnConfig} {children : List Job}

theorem prepareChild_dependsOn (job : Job) (config : SpawnConfig) (child : Job) :
    job.id ∈ (prepareChild job config child).dependsOn := by
  unfold prepareChild
  dsimp only
  split
  case isTrue h => exact h
  case isFalse => exact List.mem_append_right _ (List.mem_singleton_self _)

/-- Prepared children are what a handler made, handed on; there are no
more of them than allowed. -/
theorem prepareSpawn_ok (h : manager.prepareSpawn job config = .ok (some children)) :
    ∃ made : List Job, children = made.map (prepareChild job config) ∧
      ∀ maxCount, config.maxSpawnCount = some maxCount → children.length ≤ maxCount := by
  unfold prepareSpawn at h
  split at h
  · cases h
  · next handler _ =>
    cases hvalid : handler.validateSpawn job config with
    | error e => rw [hvalid] at h; cases h
    | ok =>
        rw [hvalid] at h
        cases hmade : handler.spawnJobs job config with
        | error e => simp only [hmade] at h; cases h
        | ok made =>
            simp only [hmade, bind, Except.bind, pure, Except.pure] at h
            split at h
            · next maxCount hmax =>
              split at h
              · cases h
              · next hle =>
                cases h
                refine ⟨made, rfl, fun maxCount' hmax' => ?_⟩
                rw [hmax] at hmax'
                cases hmax'
                rw [List.length_map]
                omega
            · next hmax =>
              cases h
              refine ⟨made, rfl, fun maxCount' hmax' => ?_⟩
              rw [hmax] at hmax'
              cases hmax'

/-- Prepared children depend on their parent. -/
theorem prepareSpawn_dependsOn (h : manager.prepareSpawn job config = .ok (some children)) :
    ∀ child ∈ children, job.id ∈ child.dependsOn := by
  obtain ⟨made, rfl, -⟩ := prepareSpawn_ok h
  intro child hchild
  obtain ⟨child, -, rfl⟩ := List.mem_map.1 hchild
  exact prepareChild_dependsOn job config child

end SpawnManager

end Hammerwork
