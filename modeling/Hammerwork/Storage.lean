/-
The in-memory storage of the test queue, and the helpers its operations
are made of.

Everything the queue knows is in one `TestStorage`, guarded by one lock:
the jobs by id, an index of job ids by queue and status, batches,
workflows, the dependency maps that workflows add, leases, results and
paused queues. The index is redundant: a job's own record says which
queue it is in and what status it has.

The helpers below run inside somebody's lock section. One that can fail
returns an `Except`; one that cannot returns the storage. Each takes the
time of its section as an argument.

Hash maps are tables (`Lib.Table`): an iteration goes through the
entries in the table's order. The order itself is not specified, and a
step of the system may change it at any time (`Machine`).
-/
import Hammerwork.Lifecycle
import Hammerwork.Lib.Worklist

namespace Hammerwork

/-- Who paused a queue, and when. -/
structure QueuePauseInfo where
  queueName : String
  pausedAt : DateTime
  pausedBy : Option String
  reason : Option String

/-- Job ids by queue name and status. -/
abbrev QueueIndex := Table String (Table JobStatus (List JobId))

/-- In-memory storage for the test queue. -/
structure TestStorage where
  jobs : Table JobId Job
  queues : QueueIndex
  batches : Table BatchId JobBatch
  batchJobs : Table BatchId (List JobId)
  workflows : Table WorkflowId JobGroup
  dependencies : Table JobId (List JobId)
  dependents : Table JobId (List JobId)
  jobResults : Table JobId (Json × Option DateTime)
  pausedQueues : Table String QueuePauseInfo
  /-- job id ↦ (last heartbeat, lease expiry) -/
  leases : Table JobId (DateTime × DateTime)
  clock : DateTime

-- == index

namespace QueueIndex

/-- The ids indexed under a queue and a status. -/
def list (index : QueueIndex) (queueName : String) (status : JobStatus) : List JobId :=
  (((index.lookup queueName).getD ∅).lookup status).getD []

/-- Take `jobId` out of one list, if that list exists. -/
def drop (index : QueueIndex) (queueName : String) (status : JobStatus) (jobId : JobId) :
    QueueIndex :=
  index.modify queueName fun byStatus => byStatus.modify status (·.filter (· ≠ jobId))

/-- Take `jobId` out of every list of one queue. -/
def dropAll (index : QueueIndex) (queueName : String) (jobId : JobId) : QueueIndex :=
  index.modify queueName fun byStatus => byStatus.mapVals fun _ ids => ids.filter (· ≠ jobId)

/-- Append `jobId` to a list, unless it is there. -/
def add (index : QueueIndex) (queueName : String) (status : JobStatus) (jobId : JobId) :
    QueueIndex :=
  index.upsert queueName ∅ fun byStatus =>
    byStatus.upsert status [] fun ids => if jobId ∈ ids then ids else ids ++ [jobId]

/-- Append `jobId` to a list of an existing queue, whether or not it is
there. -/
def push (index : QueueIndex) (queueName : String) (status : JobStatus) (jobId : JobId) :
    QueueIndex :=
  index.modify queueName fun byStatus => byStatus.upsert status [] (· ++ [jobId])

end QueueIndex

namespace TestStorage

/-- An empty storage whose clock reads `clock`. -/
def new (clock : DateTime) : TestStorage where
  jobs := ∅
  queues := ∅
  batches := ∅
  batchJobs := ∅
  workflows := ∅
  dependencies := ∅
  dependents := ∅
  jobResults := ∅
  pausedQueues := ∅
  leases := ∅
  clock := clock

/-- Rewrite a stored job in place. -/
def modifyJob (s : TestStorage) (jobId : JobId) (f : Job → Job) : TestStorage :=
  { s with jobs := s.jobs.modify jobId f }

/-- End a job's lease. -/
def removeLease (s : TestStorage) (jobId : JobId) : TestStorage :=
  { s with leases := s.leases.erase jobId }

/-- Add a job to the index. -/
def addJobToQueue (s : TestStorage) (job : Job) : TestStorage :=
  { s with queues := QueueIndex.add s.queues job.queueName job.status job.id }

-- == status writes

/-- Check that a manual transition may start from the job's status. -/
def checkTransition (s : TestStorage) (jobId : JobId) (transition : JobTransition) :
    Except HammerworkError Unit :=
  match s.jobs.lookup jobId with
  | none => .error (jobNotFound jobId)
  | some job =>
      if transition.isAllowedFrom job.status then .ok ()
      else .error (transition.rejected jobId job.status)

/-- Update a job's status, in its record and in the index. -/
def updateJobStatus (s : TestStorage) (jobId : JobId) (newStatus : JobStatus) :
    Except HammerworkError TestStorage :=
  match s.jobs.lookup jobId with
  | none => .error (jobNotFound jobId)
  | some job =>
      .ok { s with
        queues := QueueIndex.add (QueueIndex.drop s.queues job.queueName job.status jobId)
          job.queueName newStatus jobId
        jobs := s.jobs.modify jobId fun job => { job with status := newStatus } }

/-- Put a recurring job back to `Pending` for its run at `nextRunAt`.
With `keepFailure` the last run's error and failure times stay. -/
def rescheduleInPlace (s : TestStorage) (jobId : JobId) (nextRunAt : DateTime)
    (keepFailure : Bool) : Except HammerworkError TestStorage := do
  let s ← s.updateJobStatus jobId .pending
  return (s.removeLease jobId).modifyJob jobId fun job =>
    { job with
      scheduledAt := nextRunAt
      nextRunAt := some nextRunAt
      attempts := 0
      startedAt := none
      completedAt := none
      failedAt := if keepFailure then job.failedAt else none
      timedOutAt := if keepFailure then job.timedOutAt else none
      errorMessage := if keepFailure then job.errorMessage else none }

/-- Move a job being enqueued onto the clock, keeping its delay. -/
def stampEnqueued (job : Job) (now : DateTime) : Job :=
  let delay := job.scheduledAt - job.createdAt
  { job with
    scheduledAt := (checkedAddSigned now delay).getD job.scheduledAt
    createdAt := now }

/-- Mark a job `Failed` as a side effect of another job's failure; one
still waiting on its dependencies records that they failed. -/
def failAsSideEffect (s : TestStorage) (jobId : JobId) (error : String) (now : DateTime) :
    TestStorage :=
  match s.updateJobStatus jobId .failed with
  | .error _ => s
  | .ok s =>
      (s.removeLease jobId).modifyJob jobId fun job =>
        { job with
          failedAt := some now
          errorMessage := some error
          dependencyStatus :=
            if job.dependencyStatus = .waiting then .failed else job.dependencyStatus }

-- == failure policy

/-- The workflow a job belongs to: the one its `workflowId` names, or
else one listing it. -/
def workflowOf (s : TestStorage) (jobId : JobId) : Option JobGroup :=
  match ((s.jobs.lookup jobId).bind (·.workflowId)).bind s.workflows.lookup with
  | some workflow => some workflow
  | none => s.workflows.values.find? fun w => w.jobs.any (·.id = jobId)

/-- The jobs that depend directly on `jobId`. -/
def directDependents (s : TestStorage) (jobId : JobId) : List JobId :=
  s.jobs.values.foldl
    (fun dependents job =>
      if jobId ∈ job.dependsOn ∧ job.id ∉ dependents then dependents ++ [job.id]
      else dependents)
    ((s.dependents.lookup jobId).getD [])

/-- Whether a job satisfies `p`, if it is stored. -/
def isJob (s : TestStorage) (jobId : JobId) (p : Job → Bool) : Bool :=
  (s.jobs.lookup jobId).any p

/-- A job that fails when a dependency of it does. -/
def canFailAsDependent (job : Job) : Bool :=
  job.status = .pending && job.dependencyStatus ≠ .failed

/-- Failing dependents is a worklist search: the neighbours of a job are
its direct dependents. -/
def dependentsSearch (now : DateTime) : Worklist TestStorage JobId where
  next s current := s.directDependents current
  fresh s id := s.isJob id canFailAsDependent
  act s current id := s.failAsSideEffect id (dependencyFailedMessage current) now

/-- Fail every pending job that (transitively) depends on
`failedJobId`. Every step but the first fails a job. -/
def failDependents (s : TestStorage) (failedJobId : JobId) (now : DateTime) :
    TestStorage × List JobId :=
  let search := (dependentsSearch now).run (s.jobs.keys.length + 1) s failedJobId
  (search.state, search.marked)

/-- Fail, in order, those of `jobIds` that are stored and satisfy
`p`. Returns the jobs that were failed. -/
def failEach (p : JobId → Job → Bool) (error : String) (now : DateTime) :
    List JobId → TestStorage → TestStorage × List JobId
  | [], s => (s, [])
  | id :: jobIds, s =>
      if s.isJob id (p id) then
        match failEach p error now jobIds (s.failAsSideEffect id error now) with
        | (s, failed) => (s, id :: failed)
      else
        failEach p error now jobIds s

/-- A job that a fail-fast policy fails. -/
def unstarted (job : Job) : Bool := job.status = .pending || job.status = .retrying

/-- Apply the failure policy of the workflow of `failedJobId`. Returns
the jobs that were failed. -/
def applyWorkflowFailure (s : TestStorage) (failedJobId : JobId) (now : DateTime) :
    TestStorage × List JobId :=
  match s.workflowOf failedJobId with
  | some workflow =>
      match workflow.failurePolicy with
      | .manual => (s, [])
      | .failFast =>
          let (s, failed) := failEach (fun id job => id ≠ failedJobId && unstarted job)
            (workflowFailedMessage failedJobId) now (workflow.jobs.map (·.id)) s
          let (s, more) := s.failDependents failedJobId now
          (s, failed ++ more.filter (· ∉ failed))
      | .continueOnFailure => s.failDependents failedJobId now
  | none => s.failDependents failedJobId now

/-- Fail the unstarted jobs of a fail-fast batch after one of its jobs
failed. Returns the jobs that were failed. -/
def applyBatchFailure (s : TestStorage) (failedJobId : JobId) (now : DateTime) :
    TestStorage × List JobId :=
  match (s.jobs.lookup failedJobId).bind (·.batchId) with
  | none => (s, [])
  | some batchId =>
      if (s.batches.lookup batchId).any (·.failureMode = .failFast) then
        failEach (fun _ job => unstarted job) (batchFailedMessage failedJobId) now
          ((s.batchJobs.lookup batchId).getD []) s
      else
        (s, [])

-- == dependencies

/-- The dependencies of a job: its `dependsOn` and those recorded for it
by `enqueueWorkflow`. -/
def dependenciesOf (s : TestStorage) (jobId : JobId) : List JobId :=
  let deps := ((s.jobs.lookup jobId).map (·.dependsOn)).getD []
  ((s.dependencies.lookup jobId).getD []).foldl
    (fun deps dep => if dep ∈ deps then deps else deps ++ [dep]) deps

/-- The status of a job; an archived job reports the status it was
archived with (its times stand in for it). -/
def statusWithArchived (s : TestStorage) (jobId : JobId) : Option JobStatus :=
  (s.jobs.lookup jobId).map fun job =>
    if job.status = .archived then
      if job.completedAt.isSome then .completed
      else if job.timedOutAt.isSome then .timedOut
      else if job.failedAt.isSome then .failed
      else .archived
    else job.status

/-- The statuses of those of `ids` that still exist. -/
def dependencyStates (s : TestStorage) (ids : List JobId) (id : JobId) : Option JobStatus :=
  if id ∈ ids then s.statusWithArchived id else none

/-- Add a spawned job to its workflow, raising the job count. -/
def joinWorkflow (s : TestStorage) (workflowId : WorkflowId) (jobId : JobId) : TestStorage :=
  match s.jobs.lookup jobId with
  | none => s
  | some job =>
      { s with workflows := s.workflows.modify workflowId fun workflow =>
          if workflow.jobs.any (·.id = jobId) then workflow
          else { workflow with
            jobs := workflow.jobs ++ [job]
            totalJobs := workflow.totalJobs + 1 } }

/-- Whether a job completed, archived or not. -/
def completedJob (job : Job) : Bool :=
  match job.status with
  | .completed => true
  | .archived => job.completedAt.isSome
  | _ => false

/-- Whether the dependency `jobId` completed. -/
def dependencyCompleted (s : TestStorage) (jobId : JobId) : Bool :=
  s.isJob jobId completedJob

/-- A pending job that its dependencies hold back. -/
def held (job : Job) : Bool :=
  job.status = .pending &&
    (job.dependencyStatus = .waiting ||
      (job.dependencyStatus = .none && job.scheduledAt = maxUtc))

/-- A held job, released at `now`. -/
def release (now : DateTime) (job : Job) : Job :=
  { job with
    dependencyStatus :=
      if job.dependencyStatus = .waiting then .satisfied else job.dependencyStatus
    scheduledAt := if job.scheduledAt = maxUtc then now else job.scheduledAt }

/-- Release those of `candidates` whose dependencies have all
completed. -/
def releaseReady (now : DateTime) :
    List JobId → TestStorage → TestStorage × List JobId
  | [], s => (s, [])
  | id :: candidates, s =>
      if (s.dependenciesOf id).all s.dependencyCompleted && s.isJob id (fun _ => true) then
        match releaseReady now candidates (s.modifyJob id (release now)) with
        | (s, resolved) => (s, id :: resolved)
      else
        releaseReady now candidates s

/-- Release the held dependents of `completedJobId` whose dependencies
have all completed. Returns the released jobs. -/
def resolveDependents (s : TestStorage) (completedJobId : JobId) (now : DateTime) :
    TestStorage × List JobId :=
  let candidates := ((s.jobs.values.filter held).map (·.id)).filter
    fun id => completedJobId ∈ s.dependenciesOf id
  releaseReady now (candidates.mergeSort (· ≤ ·)) s

/-- The state of a stored job, as a parent of jobs being enqueued. -/
def parentState (s : TestStorage) (parent : JobId) (job : Job) : ParentState :=
  let manual := (s.workflowOf parent).any (·.failurePolicy = .manual)
  match job.status with
  | .completed => .completed
  | .failed | .dead | .timedOut => if manual then .unfinished else .failed
  | .archived =>
      if job.completedAt.isSome then .completed
      else if (job.failedAt.or job.timedOutAt).isSome then .failed
      else .unfinished
  | _ => .unfinished

/-- The states of the stored dependencies of `jobs`. -/
def parentStates (s : TestStorage) (jobs : List Job) (parent : JobId) : Option ParentState :=
  if parent ∈ externalDependencies jobs then
    (s.jobs.lookup parent).map (s.parentState parent)
  else
    none

/-- Settle the dependency status of `jobs` about to be enqueued against
the stored state of their dependencies. -/
def settleNewDependents (s : TestStorage) (jobs : List Job) (now : DateTime) :
    List Job × List JobId :=
  Hammerwork.settleNewDependents jobs (s.parentStates jobs) now

end TestStorage

end Hammerwork
