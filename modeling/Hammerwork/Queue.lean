/-
The operations of the test queue.

An operation is one or more lock sections on the storage. A section is a
function from the storage to either an error, in which case it wrote
nothing, or the new storage and a value. An operation of one section is
committed as it is (`commit`); an operation of several sections
(`finishJobRun`, `completeJobRunWithChildren`,
`purgeExpiredEncryptedJobs`) keeps what its earlier sections wrote even
when a later one fails, so operations return a storage whether or not
they return an error (`Result`).

What the operations read besides the storage is in `Env`: the cron
library, the encryption settings, and the hash behind weighted claims.
The wall clock, which differs from the queue's own clock, is an
argument.
-/
import Hammerwork.Claim
import Hammerwork.Encryption

namespace Hammerwork

/-- What the queue is configured with. -/
structure Env where
  cron : CronLibrary
  encryption : PayloadEncryption
  hash : SeedHash

/-- What an operation returns, and the storage it leaves. -/
abbrev Result (α : Type) := Except HammerworkError α × TestStorage

/-- The result of an operation of one section. -/
def commit {α : Type} (s : TestStorage) :
    Except HammerworkError (TestStorage × α) → Result α
  | .error e => (.error e, s)
  | .ok (s', a) => (.ok a, s')

/-- How many stale jobs were reclaimed, and how. -/
structure StaleJobRecovery where
  requeued : List JobId
  dead : List JobId

/-- How many expired encrypted jobs were deleted. -/
structure EncryptedJobPurge where
  jobs : Nat
  archivedJobs : Nat

/-- Which finished jobs are archived, and how many at once. -/
structure ArchivalPolicy where
  archiveCompletedAfter : Option TimeDelta
  archiveFailedAfter : Option TimeDelta
  archiveDeadAfter : Option TimeDelta
  archiveTimedOutAfter : Option TimeDelta
  batchSize : Nat
  enabled : Bool

/-- Whether a job of status `status` and age `age` is archived. -/
def ArchivalPolicy.shouldArchive (policy : ArchivalPolicy) (status : JobStatus)
    (age : TimeDelta) : Bool :=
  policy.enabled &&
    match status with
    | .completed => policy.archiveCompletedAfter.any (· ≤ age)
    | .failed => policy.archiveFailedAfter.any (· ≤ age)
    | .dead => policy.archiveDeadAfter.any (· ≤ age)
    | .timedOut => policy.archiveTimedOutAfter.any (· ≤ age)
    | _ => false

/-- The most jobs one dequeue claims. -/
def maxDequeueBatchSize : Nat := 1000

/-- The error for a job without a cron schedule. -/
def notACronJob (jobId : JobId) : HammerworkError :=
  .queue s!"job {jobId} has no cron schedule, so it is not a recurring job"

/-- When to schedule a recurring job being enabled at `now`: none when
it is running, otherwise its next occurrence. -/
def enabledRecurringNextRun (cron : CronLibrary) (job : Job) (now : DateTime) :
    Except HammerworkError (Option DateTime) :=
  match job.getCronSchedule cron with
  | some (.ok schedule) =>
      if job.status = .running then
        .ok none
      else
        match schedule.nextExecution now with
        | some next => .ok (some next)
        | none => .error (.queue s!"the cron schedule of job {job.id} has no next occurrence")
  | some (.error e) =>
      let schedule := reprStr job.cronSchedule
      .error (.queue s!"job {job.id} has an invalid cron schedule {schedule}: {e}")
  | none => .error (notACronJob job.id)

/-- Reset an archived job so that it can be processed again. -/
def resetForRestore (job : Job) (now : DateTime) : Job :=
  { job with
    status := .pending
    attempts := 0
    scheduledAt := now
    startedAt := none
    completedAt := none
    failedAt := none
    timedOutAt := none
    errorMessage := none
    resultData := none
    resultStoredAt := none
    resultExpiresAt := none }

namespace TestQueue

-- == sections

/-- End a job as `Dead` or `TimedOut`. With `applyPolicy`, the failure
is applied to its workflow, its dependents and its batch; returns the
jobs failed with it. -/
def endWithFailure (s : TestStorage) (jobId : JobId) (status : JobStatus) (error : String)
    (applyPolicy : Bool) : Except HammerworkError (TestStorage × List JobId) := do
  let transition := if status = .timedOut then JobTransition.markTimedOut else .markDead
  s.checkTransition jobId transition
  let s ← s.updateJobStatus jobId status
  let now := s.clock
  let s := (s.removeLease jobId).modifyJob jobId fun job =>
    { job with
      timedOutAt := if status = .timedOut then some now else job.timedOutAt
      failedAt := if status = .timedOut then job.failedAt else some now
      errorMessage := some error }
  if !applyPolicy then
    return (s, [])
  let (s, cancelled) := s.applyWorkflowFailure jobId now
  let (s, more) := s.applyBatchFailure jobId now
  return (s, cancelled ++ more.filter (· ∉ cancelled))

/-- Complete a job and release its dependents. -/
def completeAndResolve (s : TestStorage) (jobId : JobId) :
    Except HammerworkError (TestStorage × List JobId) := do
  s.checkTransition jobId .complete
  let s ← s.updateJobStatus jobId .completed
  let now := s.clock
  let s := (s.removeLease jobId).modifyJob jobId fun job =>
    { job with completedAt := some now }
  return s.resolveDependents jobId now

/-- Hand out one job: it runs from now on, under a lease. -/
def claim (s : TestStorage) (jobId : JobId) (lease : Duration) :
    Except HammerworkError (TestStorage × Option Job) := do
  let s ← s.updateJobStatus jobId .running
  let now := s.clock
  let s := { s with leases := s.leases.insert jobId (now, leaseExpiry now lease) }
  let s := s.modifyJob jobId fun job =>
    { job with startedAt := some now, attempts := job.attempts + 1 }
  return (s, s.jobs.lookup jobId)

/-- Claim one job. -/
def claimOne (hash : SeedHash) (s : TestStorage) (queueName : String)
    (weights : Option PriorityWeights) (lease : Duration) :
    Except HammerworkError (TestStorage × Option Job) :=
  match s.getNextJob hash queueName weights with
  | none => .ok (s, none)
  | some jobId => claim s jobId lease

/-- Claim the jobs of a batch, one after another. -/
def claimEach (lease : Duration) : List JobId → TestStorage → Result (List Job)
  | [], s => (.ok [], s)
  | jobId :: jobIds, s =>
      match claim s jobId lease with
      | .error e => (.error e, s)
      | .ok (s, job) =>
          match claimEach lease jobIds s with
          | (.error e, s) => (.error e, s)
          | (.ok jobs, s) => (.ok (job.toList ++ jobs), s)

/-- Claim up to `maxJobs` jobs. -/
def claimMany (hash : SeedHash) (s : TestStorage) (queueName : String)
    (weights : Option PriorityWeights) (lease : Duration) (maxJobs : Nat) :
    Result (List Job) :=
  claimEach lease (s.getNextJobs hash queueName weights maxJobs) s

/-- Store jobs: the record and the index. -/
def insertJobs (jobs : List Job) (s : TestStorage) : TestStorage :=
  jobs.foldl (fun s job =>
    let s := s.addJobToQueue job
    { s with jobs := s.jobs.insert job.id job }) s

-- == enqueue and dequeue

/-- Enqueue one job. -/
def enqueue (env : Env) (s : TestStorage) (job : Job) :
    Except HammerworkError (TestStorage × JobId) := do
  job.validateDependencies
  let jobs ← env.encryption.sealJobs [job]
  let now := s.clock
  let jobs := jobs.map fun job => TestStorage.stampEnqueued job now
  let (jobs, _) := s.settleNewDependents jobs now
  return (insertJobs jobs s, job.id)

/-- Hand out jobs of a queue. -/
def dequeue (env : Env) (s : TestStorage) (queueName : String)
    (weights : Option PriorityWeights) (lease : Duration) (maxJobs : Nat) :
    Result (List Job) :=
  match min maxJobs maxDequeueBatchSize with
  | 0 => (.ok [], s)
  | 1 =>
      commit s <| (claimOne env.hash s queueName weights lease).map
        fun (s, job) => (s, job.toList)
  | maxJobs => claimMany env.hash s queueName weights lease maxJobs

/-- Whether the run `run` was dequeued as is the job's current one. -/
def runIsCurrent (s : TestStorage) (run : Job) : Bool :=
  s.isJob run.id (Guard.run run).admits

/-- Put a claimed job back, if `run` is still its current run. -/
def releaseJobRun (s : TestStorage) (run : Job) : Except HammerworkError (TestStorage × Bool) := do
  if !runIsCurrent s run then
    return (s, false)
  let s ← s.updateJobStatus run.id .pending
  let s := (s.removeLease run.id).modifyJob run.id fun job =>
    { job with startedAt := none, attempts := max (job.attempts - 1) 0 }
  return (s, true)

/-- Complete a job by hand. -/
def completeJob (s : TestStorage) (jobId : JobId) :
    Except HammerworkError (TestStorage × Unit) := do
  let (s, _) ← completeAndResolve s jobId
  return (s, ())

/-- Fail a job by hand: a terminal failure. -/
def failJob (s : TestStorage) (jobId : JobId) (errorMessage : String) :
    Except HammerworkError (TestStorage × Unit) := do
  s.checkTransition jobId .fail
  let s ← s.updateJobStatus jobId .failed
  let now := s.clock
  let s := (s.removeLease jobId).modifyJob jobId fun job =>
    { job with failedAt := some now, errorMessage := some errorMessage }
  let (s, _) := s.applyWorkflowFailure jobId now
  let (s, _) := s.applyBatchFailure jobId now
  return (s, ())

/-- The dependency status a job with dependencies gets when it is put
back; none for a job without. -/
def reevaluated (s : TestStorage) (job : Job) (action : String) :
    Except HammerworkError (Option DependencyStatus) :=
  if job.dependsOn.isEmpty then
    .ok none
  else
    (reevaluateDependencies job (s.dependencyStates job.dependsOn) action).map some

/-- Put a job back to `Pending` by hand, to run at `retryAt`. -/
def retryJob (s : TestStorage) (jobId : JobId) (retryAt : DateTime) :
    Except HammerworkError (TestStorage × Unit) := do
  s.checkTransition jobId .retry
  let dependencyStatus ← match s.jobs.lookup jobId with
    | some job => reevaluated s job "retried"
    | none => pure none
  let s ← s.updateJobStatus jobId .pending
  let s := (s.removeLease jobId).modifyJob jobId fun job =>
    { job with
      scheduledAt := retryAt
      startedAt := none
      dependencyStatus := dependencyStatus.getD job.dependencyStatus }
  return (s, ())

/-- Delete a job. -/
def deleteJob (s : TestStorage) (jobId : JobId) : Except HammerworkError (TestStorage × Unit) :=
  match s.jobs.lookup jobId with
  | none => .error (jobNotFound jobId)
  | some job =>
      .ok ({ s with
        jobs := s.jobs.erase jobId
        queues := QueueIndex.drop s.queues job.queueName job.status jobId
        batchJobs := match job.batchId with
          | some batchId => s.batchJobs.modify batchId (·.filter (· ≠ jobId))
          | none => s.batchJobs
        jobResults := s.jobResults.erase jobId
        dependencies := s.dependencies.erase jobId
        dependents := s.dependents.mapVals fun _ deps => deps.filter (· ≠ jobId) }, ())

-- == batches

/-- Enqueue a batch: all its jobs, or none. -/
def enqueueBatch (env : Env) (s : TestStorage) (batch : JobBatch) :
    Except HammerworkError (TestStorage × BatchId) := do
  validateDependencyLimits batch.jobs
  let sealedJobs ← env.encryption.sealJobs batch.jobs
  let now := s.clock
  let batch := { batch with jobs := sealedJobs, createdAt := now }
  let jobs := batch.jobs.map fun job =>
    TestStorage.stampEnqueued { job with batchId := some batch.id } now
  let (jobs, _) := s.settleNewDependents jobs now
  let s := insertJobs jobs s
  return ({ s with
    batchJobs := s.batchJobs.insert batch.id (jobs.map (·.id))
    batches := s.batches.insert batch.id batch }, batch.id)

/-- Remove a job's record and its entry in the index. -/
def removeJob (s : TestStorage) (jobId : JobId) : TestStorage :=
  match s.jobs.lookup jobId with
  | none => s
  | some job =>
      { s with
        jobs := s.jobs.erase jobId
        queues := QueueIndex.drop s.queues job.queueName job.status jobId }

/-- Delete a batch and its jobs. -/
def deleteBatch (s : TestStorage) (batchId : BatchId) :
    Except HammerworkError (TestStorage × Unit) :=
  let jobIds := (s.batchJobs.lookup batchId).getD []
  let s := jobIds.foldl removeJob { s with batchJobs := s.batchJobs.erase batchId }
  .ok ({ s with batches := s.batches.erase batchId }, ())

-- == dead jobs

/-- Mark a job dead. -/
def markJobDead (s : TestStorage) (jobId : JobId) (errorMessage : String) :
    Except HammerworkError (TestStorage × Unit) := do
  let (s, _) ← endWithFailure s jobId .dead errorMessage true
  return (s, ())

/-- Mark a running job timed out. -/
def markJobTimedOut (s : TestStorage) (jobId : JobId) (errorMessage : String) :
    Except HammerworkError (TestStorage × Unit) := do
  let (s, _) ← endWithFailure s jobId .timedOut errorMessage true
  return (s, ())

/-- Put a dead (or timed out) job back, with its attempts reset. -/
def retryDeadJob (s : TestStorage) (jobId : JobId) :
    Except HammerworkError (TestStorage × Unit) := do
  s.checkTransition jobId .retryDead
  let s ← s.updateJobStatus jobId .pending
  let now := s.clock
  let s := (s.removeLease jobId).modifyJob jobId fun job =>
    { job with
      attempts := 0
      errorMessage := none
      startedAt := none
      failedAt := none
      timedOutAt := none
      scheduledAt := now }
  return (s, ())

/-- Delete dead jobs that failed before `olderThan`; returns how
many. -/
def purgeDeadJobs (s : TestStorage) (olderThan : DateTime) :
    Except HammerworkError (TestStorage × Nat) :=
  let dead := s.jobs.entries.filter fun e =>
    e.2.status = .dead && e.2.failedAt.any (· < olderThan)
  .ok ((dead.map (·.1)).foldl removeJob s, dead.length)

-- == run outcomes

/-- The guard section of `finishJobRun`: none when the run is no longer
current, otherwise the next run of a recurring job that finished. -/
def finishGuard (cron : CronLibrary) (s : TestStorage) (run : Job) (outcome : JobOutcome) :
    Option (Option DateTime) :=
  match s.jobs.lookup run.id with
  | none => none
  | some current =>
      if !(Guard.run run).admits current then none
      else if outcome.terminalStatus.isSome && current.recurring then
        some (nextCronRun cron current s.clock)
      else
        some none

/-- A retry time computed on the wall clock, moved onto the queue's. -/
def retryAtOnClock (s : TestStorage) (retryAt wall : DateTime) : DateTime :=
  (checkedAddSigned s.clock (retryAt - wall)).getD retryAt

/-- Record the error (and the timeout) of a run that is retried. -/
def recordRunError (s : TestStorage) (jobId : JobId) (error : String) (timedOut : Bool) :
    TestStorage :=
  s.modifyJob jobId fun job =>
    { job with
      errorMessage := some error
      timedOutAt := if timedOut then some s.clock else job.timedOutAt }

/-- The outcome sections of `finishJobRun`. -/
def recordOutcome (s : TestStorage) (run : Job) (outcome : JobOutcome)
    (nextRunAt : Option DateTime) (wall : DateTime) :
    Except HammerworkError (TestStorage × RecordedOutcome) := do
  let applyPolicy := nextRunAt.isNone
  match outcome with
  | .completed =>
      if nextRunAt.isNone then
        let (s, unblocked) ← completeAndResolve s run.id
        return (s, { RecordedOutcome.new .completed with unblocked := unblocked })
      else
        return (s, .new .completed)
  | .retry retryAt error timedOut =>
      let (s, ()) ← retryJob s run.id (retryAtOnClock s retryAt wall)
      return (recordRunError s run.id error timedOut, .new .pending)
  | .dead error =>
      let (s, cancelled) ← endWithFailure s run.id .dead error applyPolicy
      return (s, { RecordedOutcome.new .dead with cancelled := cancelled })
  | .timedOut error =>
      let (s, cancelled) ← endWithFailure s run.id .timedOut error applyPolicy
      return (s, { RecordedOutcome.new .timedOut with cancelled := cancelled })

/-- Record how a run ended, if it is still current; a recurring job that
finished is rescheduled. -/
def finishJobRun (cron : CronLibrary) (s : TestStorage) (run : Job) (outcome : JobOutcome)
    (wall : DateTime) : Result (Option RecordedOutcome) :=
  match finishGuard cron s run outcome with
  | none => (.ok none, s)
  | some nextRunAt =>
      match recordOutcome s run outcome nextRunAt wall with
      | .error e => (.error e, s)
      | .ok (s, recorded) =>
          match nextRunAt with
          | none => (.ok (some recorded), s)
          | some next =>
              match s.rescheduleInPlace run.id next (recorded.status ≠ .completed) with
              | .error e => (.error e, s)
              | .ok s =>
                  (.ok (some { recorded with status := .pending, nextRunAt := some next }), s)

/-- Enqueue the children of a run, one by one, adding each to its
workflow. -/
def enqueueChildren (env : Env) : List Job → TestStorage → Result (List JobId)
  | [], s => (.ok [], s)
  | child :: children, s =>
      match enqueue env s child with
      | .error e => (.error e, s)
      | .ok (s, id) =>
          let s := match child.workflowId with
            | some workflowId => s.joinWorkflow workflowId id
            | none => s
          match enqueueChildren env children s with
          | (.error e, s) => (.error e, s)
          | (.ok ids, s) => (.ok (id :: ids), s)

/-- Complete a run and enqueue its children. -/
def completeJobRunWithChildren (env : Env) (s : TestStorage) (run : Job)
    (children : List Job) (wall : DateTime) : Result (Option RecordedOutcome) :=
  match validateDependencyLimits children with
  | .error e => (.error e, s)
  | .ok () =>
      if !runIsCurrent s run then
        (.ok none, s)
      else
        match enqueueChildren env children s with
        | (.error e, s) => (.error e, s)
        | (.ok spawned, s) =>
            match finishJobRun env.cron s run .completed wall with
            | (.error e, s) => (.error e, s)
            | (.ok recorded, s) =>
                (.ok (recorded.map fun recorded => { recorded with spawned := spawned }), s)

/-- Extend the lease of a run, if it is still current. -/
def heartbeatJob (s : TestStorage) (run : Job) (lease : Duration) :
    Except HammerworkError (TestStorage × Bool) :=
  if !runIsCurrent s run then
    .ok (s, false)
  else
    .ok ({ s with leases := s.leases.insert run.id (s.clock, leaseExpiry s.clock lease) }, true)

/-- Start a claimed run, if it is still current: its start time is now.
Returns the handle as updated. -/
def startClaimedRun (s : TestStorage) (run : Job) (lease : Duration) :
    Except HammerworkError (TestStorage × Bool × Job) :=
  if !runIsCurrent s run then
    .ok (s, false, run)
  else
    let now := s.clock
    let s := s.modifyJob run.id fun job => { job with startedAt := some now }
    .ok ({ s with leases := s.leases.insert run.id (now, leaseExpiry now lease) },
      true, { run with startedAt := some now })

-- == stale jobs

/-- A running job whose current run's lease expired. -/
def isStale (s : TestStorage) (queueName : Option String) (job : Job) : Bool :=
  job.status = .running && queueName.all (job.queueName = ·) &&
    job.startedAt.any fun startedAt =>
      (s.leases.lookup job.id).any fun lease =>
        decide (startedAt ≤ lease.1) && decide (lease.2 < s.clock)

/-- Bury a stale job that has no attempts left; a recurring one is
rescheduled instead of failing others. -/
def buryStale (cron : CronLibrary) (s : TestStorage) (jobId : JobId) (now : DateTime) :
    Except HammerworkError TestStorage := do
  let s ← s.updateJobStatus jobId .dead
  let s := s.modifyJob jobId fun job =>
    { job with failedAt := some now, errorMessage := some staleJobErrorMessage }
  match ((s.jobs.lookup jobId).filter (·.recurring)).bind (nextCronRun cron · now) with
  | some nextRunAt => s.rescheduleInPlace jobId nextRunAt true
  | none =>
      let (s, _) := s.applyWorkflowFailure jobId now
      let (s, _) := s.applyBatchFailure jobId now
      return s

/-- Put a stale job back to be retried. -/
def requeueStale (s : TestStorage) (jobId : JobId) (now : DateTime) :
    Except HammerworkError TestStorage := do
  let s ← s.updateJobStatus jobId .pending
  return s.modifyJob jobId fun job =>
    { job with
      scheduledAt := now
      startedAt := none
      errorMessage := some staleJobErrorMessage }

/-- Reclaim stale jobs, one after another. -/
def reclaimEach (cron : CronLibrary) (now : DateTime) :
    List (JobId × Bool) → TestStorage → StaleJobRecovery → Result StaleJobRecovery
  | [], s, recovery => (.ok recovery, s)
  | (jobId, exhausted) :: stale, s, recovery =>
      let s := s.removeLease jobId
      if exhausted then
        match buryStale cron s jobId now with
        | .error e => (.error e, s)
        | .ok s =>
            reclaimEach cron now stale s { recovery with dead := recovery.dead ++ [jobId] }
      else
        match requeueStale s jobId now with
        | .error e => (.error e, s)
        | .ok s =>
            reclaimEach cron now stale s
              { recovery with requeued := recovery.requeued ++ [jobId] }

/-- Reclaim the running jobs whose leases expired. -/
def requeueStaleJobs (cron : CronLibrary) (s : TestStorage) (queueName : Option String) :
    Result StaleJobRecovery :=
  let stale := (s.jobs.values.filter (isStale s queueName)).map
    fun job => (job.id, decide (job.maxAttempts ≤ job.attempts))
  reclaimEach cron s.clock stale s ⟨[], []⟩

-- == cron jobs

/-- Enqueue a recurring job at the first occurrence of its schedule. -/
def enqueueCronJob (env : Env) (s : TestStorage) (job : Job) :
    Except HammerworkError (TestStorage × JobId) :=
  match job.cronSchedule with
  | none => .error (.queue "Job must have a cron schedule")
  | some expression =>
      match env.cron.parseSchedule expression with
      | .error _ =>
          let schedule := reprStr job.cronSchedule
          .error (.queue s!"Invalid cron schedule: {schedule}")
      | .ok schedule =>
          let timezone := (job.timezone.bind env.cron.parseTz).getD env.cron.utc
          let job := { job with recurring := true }
          match env.cron.nextAfter schedule timezone s.clock with
          | some next =>
              enqueue env s { job with nextRunAt := some next, scheduledAt := next }
          | none => enqueue env s job

/-- Put a recurring job back for its run at `nextRunAt`, by hand. -/
def rescheduleCronJob (s : TestStorage) (jobId : JobId) (nextRunAt : DateTime) :
    Except HammerworkError (TestStorage × Unit) := do
  s.checkTransition jobId .rescheduleCron
  if !s.isJob jobId (·.recurring) then
    .error (.queue s!"Job {jobId} is not a recurring job")
  else
    let s ← s.rescheduleInPlace jobId nextRunAt false
    return (s, ())

/-- Stop a recurring job's schedule. -/
def disableRecurringJob (s : TestStorage) (jobId : JobId) :
    Except HammerworkError (TestStorage × Unit) :=
  match s.jobs.lookup jobId with
  | none => .error (jobNotFound jobId)
  | some job =>
      if job.cronSchedule.isNone then
        .error (notACronJob jobId)
      else
        .ok (s.modifyJob jobId fun job => { job with recurring := false, nextRunAt := none }, ())

/-- Resume a recurring job's schedule; unless it is running, at its next
occurrence. -/
def enableRecurringJob (cron : CronLibrary) (s : TestStorage) (jobId : JobId) :
    Except HammerworkError (TestStorage × Unit) :=
  match s.jobs.lookup jobId with
  | none => .error (jobNotFound jobId)
  | some job => do
      match ← enabledRecurringNextRun cron job s.clock with
      | none => return (s.modifyJob jobId fun job => { job with recurring := true }, ())
      | some next =>
          let s ← s.updateJobStatus jobId .pending
          return ((s.removeLease jobId).modifyJob jobId fun job =>
            { job with
              recurring := true
              scheduledAt := next
              nextRunAt := some next
              attempts := 0
              startedAt := none
              completedAt := none
              failedAt := none
              timedOutAt := none
              errorMessage := none }, ())

-- == workflows

/-- The dependency map of a workflow, with each job's own `dependsOn`
merged in. -/
def mergedDependencies (workflow : JobGroup) : Table JobId (List JobId) :=
  workflow.jobs.foldl
    (fun dependencies job =>
      if job.dependsOn.isEmpty then dependencies
      else dependencies.upsert job.id [] fun deps =>
        job.dependsOn.foldl (fun deps dep => if dep ∈ deps then deps else deps ++ [dep]) deps)
    workflow.dependencies

/-- Record a workflow's dependency map, both ways. -/
def storeDependencies (dependencies : Table JobId (List JobId)) (s : TestStorage) :
    TestStorage :=
  dependencies.entries.foldl
    (fun s entry =>
      { s with
        dependencies := s.dependencies.insert entry.1 entry.2
        dependents := entry.2.foldl
          (fun dependents dep => dependents.upsert dep [] (· ++ [entry.1])) s.dependents }) s

/-- A workflow job as it is enqueued: held (far future) if the workflow
gives it dependencies. -/
def holdForDependencies (dependencies : Table JobId (List JobId)) (now : DateTime)
    (job : Job) : Job :=
  let job := TestStorage.stampEnqueued job now
  if (dependencies.lookup job.id).any (!·.isEmpty) then { job with scheduledAt := maxUtc }
  else job

/-- A workflow job that turned out to be runnable on arrival is due. -/
def dueIfSatisfied (now : DateTime) (job : Job) : Job :=
  if job.dependencyStatus = .satisfied ∧ job.scheduledAt = maxUtc then
    { job with scheduledAt := now }
  else job

/-- Enqueue a workflow: all its jobs, or none. -/
def enqueueWorkflow (env : Env) (s : TestStorage) (workflow : JobGroup) :
    Except HammerworkError (TestStorage × WorkflowId) := do
  validateDependencyLimits workflow.jobs
  let sealedJobs ← env.encryption.sealJobs workflow.jobs
  let workflow := { workflow with jobs := sealedJobs, createdAt := s.clock }
  let workflow := { workflow with dependencies := mergedDependencies workflow }
  let s := storeDependencies workflow.dependencies s
  let now := s.clock
  let jobs := workflow.jobs.map (holdForDependencies workflow.dependencies now)
  let (jobs, _) := s.settleNewDependents jobs now
  let s := insertJobs (jobs.map (dueIfSatisfied now)) s
  return ({ s with workflows := s.workflows.insert workflow.id workflow }, workflow.id)

/-- A workflow as it stands: its counters and status, from its jobs. -/
def getWorkflowStatus (s : TestStorage) (workflowId : WorkflowId) : Option JobGroup :=
  (s.workflows.lookup workflowId).map fun workflow =>
    let progress := (workflow.jobs.map (·.id)).foldl
      (fun (progress : WorkflowProgress) jobId => progress.count (s.statusWithArchived jobId))
      ⟨0, 0⟩
    let status := progress.status workflow.totalJobs workflow.failurePolicy workflow.status
    { workflow with
      completedJobs := progress.completed
      failedJobs := progress.failed
      status := status
      completedAt :=
        if status = .completed then some (workflow.completedAt.getD s.clock)
        else workflow.completedAt
      failedAt :=
        if status = .failed then some (workflow.failedAt.getD s.clock) else workflow.failedAt }

/-- Release the dependents of a job by hand. -/
def resolveJobDependencies (s : TestStorage) (completedJobId : JobId) :
    Except HammerworkError (TestStorage × (List JobId)) :=
  .ok (s.resolveDependents completedJobId s.clock)

/-- Apply the failure policy for a job by hand. -/
def failJobDependencies (s : TestStorage) (failedJobId : JobId) :
    Except HammerworkError (TestStorage × List JobId) :=
  .ok (s.applyWorkflowFailure failedJobId s.clock)

/-- A job that a cancellation fails. -/
def unfinished (job : Job) : Bool :=
  job.status = .pending || job.status = .running || job.status = .retrying

/-- The jobs of a workflow: those it lists, and those that name it. -/
def workflowMembers (s : TestStorage) (workflow : JobGroup) (workflowId : WorkflowId) :
    List JobId :=
  let jobIds := workflow.jobs.map (·.id)
  let joined := s.jobs.values.filter fun job =>
    job.workflowId = some workflowId && job.id ∉ jobIds
  jobIds ++ joined.map (·.id)

/-- Cancel a workflow: its unfinished jobs fail. -/
def cancelWorkflow (s : TestStorage) (workflowId : WorkflowId) :
    Except HammerworkError (TestStorage × Unit) :=
  match s.workflows.lookup workflowId with
  | none => .error (.workflow s!"Workflow {workflowId} not found")
  | some workflow =>
      let now := s.clock
      let (s, _) := TestStorage.failEach (fun _ job => unfinished job) workflowCancelledMessage
        now (workflowMembers s workflow workflowId) s
      .ok ({ s with workflows := s.workflows.modify workflowId fun workflow =>
        { workflow with
          status := .cancelled
          failedAt := some (workflow.failedAt.getD now) } }, ())

-- == archival

/-- How long ago a finished job finished. -/
def finishedAge (now : DateTime) (job : Job) : Option TimeDelta :=
  match job.status with
  | .completed => job.completedAt.map (now - ·)
  | .failed => job.failedAt.map (now - ·)
  | .dead => job.failedAt.map (now - ·)
  | .timedOut => job.timedOutAt.map (now - ·)
  | _ => none

/-- Whether a job is archived by `policy`. -/
def archivable (now : DateTime) (queueName : Option String) (policy : ArchivalPolicy)
    (job : Job) : Bool :=
  queueName.all (job.queueName = ·) &&
    (finishedAge now job).any (policy.shouldArchive job.status)

/-- Move a job's index entry to the archived list. -/
def reindexArchived (s : TestStorage) (jobId : JobId) : TestStorage :=
  match s.jobs.lookup jobId with
  | none => s
  | some job =>
      let queues := QueueIndex.dropAll s.queues job.queueName jobId
      { s with queues := QueueIndex.push queues job.queueName .archived jobId }

/-- Archive finished jobs; returns how many. -/
def archiveJobs (s : TestStorage) (queueName : Option String) (policy : ArchivalPolicy) :
    Except HammerworkError (TestStorage × Nat) :=
  let jobsToArchive := (((s.jobs.values.filter (archivable s.clock queueName policy)).map
    (·.id)).take policy.batchSize)
  let archived := jobsToArchive.foldl
    (fun s id => s.modifyJob id fun job => { job with status := JobStatus.archived }) s
  .ok (jobsToArchive.foldl reindexArchived archived,
    (jobsToArchive.filter fun id => s.isJob id fun _ => true).length)

/-- Put an archived job back to `Pending`. -/
def restoreArchivedJob (s : TestStorage) (jobId : JobId) :
    Except HammerworkError (TestStorage × Job) :=
  match s.jobs.lookup jobId with
  | none => .error (jobNotFound jobId)
  | some job =>
      if job.status ≠ .archived then
        .error (jobNotFound jobId)
      else do
        let dependencyStatus ← reevaluated s job "restored"
        let restored := resetForRestore { job with
          dependencyStatus := dependencyStatus.getD job.dependencyStatus } s.clock
        let s := s.modifyJob jobId fun _ => restored
        let queues := QueueIndex.drop s.queues job.queueName .archived jobId
        return ({ s with queues := QueueIndex.push queues job.queueName .pending jobId },
          restored)

/-- Remove a job's record, and its id from every list of the queues
`queueName` selects. -/
def purgeJob (queueName : Option String) (s : TestStorage) (jobId : JobId) : TestStorage :=
  { s with
    jobs := s.jobs.erase jobId
    queues := s.queues.mapVals fun name byStatus =>
      if queueName.all (name = ·) then
        byStatus.mapVals fun _ ids => ids.filter (· ≠ jobId)
      else byStatus }

/-- Delete archived jobs created before `olderThan`; returns how
many. -/
def purgeArchived (s : TestStorage) (queueName : Option String) (olderThan : DateTime) :
    Except HammerworkError (TestStorage × Nat) :=
  let jobsToPurge := (s.jobs.values.filter fun job =>
    job.status = .archived && queueName.all (job.queueName = ·) &&
      decide (job.createdAt < olderThan)).map (·.id)
  .ok (jobsToPurge.foldl (purgeJob queueName) s, jobsToPurge.length)

/-- Delete archived jobs of every queue. -/
def purgeArchivedJobs (s : TestStorage) (olderThan : DateTime) :
    Except HammerworkError (TestStorage × Nat) :=
  purgeArchived s none olderThan

/-- Delete archived jobs of one queue. -/
def purgeArchivedJobsInQueue (s : TestStorage) (queueName : String) (olderThan : DateTime) :
    Except HammerworkError (TestStorage × Nat) :=
  purgeArchived s (some queueName) olderThan

-- == queues, results

/-- Pause a queue. -/
def pauseQueue (s : TestStorage) (queueName : String) (pausedBy : Option String) :
    Except HammerworkError (TestStorage × Unit) :=
  let pauseInfo : QueuePauseInfo :=
    { queueName := queueName, pausedAt := s.clock, pausedBy := pausedBy, reason := none }
  .ok ({ s with pausedQueues := s.pausedQueues.insert queueName pauseInfo }, ())

/-- Resume a queue. -/
def resumeQueue (s : TestStorage) (queueName : String) :
    Except HammerworkError (TestStorage × Unit) :=
  .ok ({ s with pausedQueues := s.pausedQueues.erase queueName }, ())

/-- Store a job's result. -/
def storeJobResult (s : TestStorage) (jobId : JobId) (resultData : Json)
    (expiresAt : Option DateTime) : Except HammerworkError (TestStorage × Unit) :=
  if (s.jobs.lookup jobId).isNone then
    .error (jobNotFound jobId)
  else
    .ok ({ s with jobResults := s.jobResults.insert jobId (resultData, expiresAt) }, ())

/-- Delete a job's result. -/
def deleteJobResult (s : TestStorage) (jobId : JobId) :
    Except HammerworkError (TestStorage × Unit) :=
  .ok ({ s with jobResults := s.jobResults.erase jobId }, ())

/-- Delete expired results; returns how many. -/
def cleanupExpiredResults (s : TestStorage) : Except HammerworkError (TestStorage × Nat) :=
  let expired := (s.jobResults.entries.filter fun e => e.2.2.any (· ≤ s.clock)).map (·.1)
  .ok ({ s with jobResults := expired.foldl (fun results id => results.erase id) s.jobResults },
    expired.length)

-- == encrypted jobs

/-- A finished encrypted job whose payload is past its deletion time. -/
def encryptedExpired (now : DateTime) (job : Job) : Bool :=
  job.isEncrypted &&
    [JobStatus.completed, .failed, .dead, .timedOut, .archived].contains job.status &&
    (job.encryptedPayload.bind (·.deleteAt)).any (· ≤ now)

/-- Delete jobs, counting archived ones apart. -/
def deleteEach : List (JobId × Bool) → TestStorage → EncryptedJobPurge →
    Result EncryptedJobPurge
  | [], s, purge => (.ok purge, s)
  | (jobId, archived) :: rest, s, purge =>
      match deleteJob s jobId with
      | .error e => (.error e, s)
      | .ok (s, ()) =>
          deleteEach rest s
            (if archived then { purge with archivedJobs := purge.archivedJobs + 1 }
             else { purge with jobs := purge.jobs + 1 })

/-- Delete the encrypted jobs whose payloads expired. -/
def purgeExpiredEncryptedJobs (s : TestStorage) : Result EncryptedJobPurge :=
  let expired := (s.jobs.values.filter (encryptedExpired s.clock)).map
    fun job => (job.id, decide (job.status = .archived))
  deleteEach expired s ⟨0, 0⟩

-- == statistics

/-- How many jobs the index lists under a queue and a status. -/
def getJobCount (s : TestStorage) (queueName : String) (status : JobStatus) : Nat :=
  (QueueIndex.list s.queues queueName status).length

/-- How many jobs of a queue are pending. -/
def getQueueDepth (s : TestStorage) (queueName : String) : Nat :=
  getJobCount s queueName .pending

/-- The counters of a queue's statistics; the times and rates computed
from the completed jobs are left out. -/
structure QueueStats where
  queueName : String
  pendingCount : Nat
  runningCount : Nat
  completedCount : Nat
  failedCount : Nat
  deadCount : Nat
  timedOutCount : Nat

/-- A queue's counters, from the index. -/
def getQueueStats (s : TestStorage) (queueName : String) : QueueStats where
  queueName := queueName
  pendingCount := getJobCount s queueName .pending
  runningCount := getJobCount s queueName .running
  completedCount := getJobCount s queueName .completed
  failedCount := getJobCount s queueName .failed
  deadCount := getJobCount s queueName .dead
  timedOutCount := getJobCount s queueName .timedOut

end TestQueue

end Hammerwork
