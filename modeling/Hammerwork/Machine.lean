/-
The queue as a state machine.

A state is a storage. A step is a call of one operation (`Op`), which
happens at a single point in time, or a rehash: the maps keep their
entries but may be iterated in another order from then on, so that no
result depends on an order the implementation does not promise. The
clock is part of the state and moves when the client moves it.

Every property of the queue over time is a property of its runs
(`Lib.Run`) under this step relation.
-/
import Hammerwork.Queue
import Hammerwork.Lib.Run

namespace Hammerwork

/-- A call of one operation, with its arguments. -/
inductive Op where
  | enqueue (job : Job)
  | enqueueBatch (batch : JobBatch)
  | enqueueWorkflow (workflow : JobGroup)
  | enqueueCronJob (job : Job)
  | dequeue (queueName : String) (weights : Option PriorityWeights) (lease : Duration)
      (maxJobs : Nat)
  | startClaimedRun (run : Job) (lease : Duration)
  | heartbeatJob (run : Job) (lease : Duration)
  | releaseJobRun (run : Job)
  | finishJobRun (run : Job) (outcome : JobOutcome) (wall : DateTime)
  | completeJobRunWithChildren (run : Job) (children : List Job) (wall : DateTime)
  | completeJob (jobId : JobId)
  | failJob (jobId : JobId) (errorMessage : String)
  | retryJob (jobId : JobId) (retryAt : DateTime)
  | markJobDead (jobId : JobId) (errorMessage : String)
  | markJobTimedOut (jobId : JobId) (errorMessage : String)
  | retryDeadJob (jobId : JobId)
  | rescheduleCronJob (jobId : JobId) (nextRunAt : DateTime)
  | disableRecurringJob (jobId : JobId)
  | enableRecurringJob (jobId : JobId)
  | requeueStaleJobs (queueName : Option String)
  | resolveJobDependencies (jobId : JobId)
  | failJobDependencies (jobId : JobId)
  | cancelWorkflow (workflowId : WorkflowId)
  | archiveJobs (queueName : Option String) (policy : ArchivalPolicy)
  | restoreArchivedJob (jobId : JobId)
  | deleteJob (jobId : JobId)
  | deleteBatch (batchId : BatchId)
  | purgeDeadJobs (olderThan : DateTime)
  | purgeArchivedJobs (olderThan : DateTime)
  | purgeArchivedJobsInQueue (queueName : String) (olderThan : DateTime)
  | purgeExpiredEncryptedJobs
  | storeJobResult (jobId : JobId) (resultData : Json) (expiresAt : Option DateTime)
  | deleteJobResult (jobId : JobId)
  | cleanupExpiredResults
  | pauseQueue (queueName : String) (pausedBy : Option String)
  | resumeQueue (queueName : String)
  | setTime (time : DateTime)

/-- What an operation returned. -/
inductive Reply where
  | error (e : HammerworkError)
  | unit
  | flag (b : Bool)
  | count (n : Nat)
  | id (id : Nat)
  | ids (ids : List JobId)
  | job (job : Job)
  | jobs (jobs : List Job)
  | started (flag : Bool) (run : Job)
  | recorded (recorded : Option RecordedOutcome)
  | recovery (recovery : StaleJobRecovery)
  | purge (purge : EncryptedJobPurge)

/-- The reply of a result, and its storage. -/
def Result.reply {α : Type} (f : α → Reply) : Result α → Reply × TestStorage
  | (.error e, s) => (.error e, s)
  | (.ok a, s) => (f a, s)

namespace Op

open TestQueue

variable (env : Env)

/-- Call an operation: what it returns and the storage it leaves. -/
def apply (op : Op) (s : TestStorage) : Reply × TestStorage :=
  match op with
  | enqueue job => (commit s (TestQueue.enqueue env s job)).reply .id
  | enqueueBatch batch => (commit s (TestQueue.enqueueBatch env s batch)).reply .id
  | enqueueWorkflow workflow =>
      (commit s (TestQueue.enqueueWorkflow env s workflow)).reply .id
  | enqueueCronJob job => (commit s (TestQueue.enqueueCronJob env s job)).reply .id
  | dequeue queueName weights lease maxJobs =>
      (TestQueue.dequeue env s queueName weights lease maxJobs).reply .jobs
  | startClaimedRun run lease =>
      (commit s (TestQueue.startClaimedRun s run lease)).reply fun (b, run) => .started b run
  | heartbeatJob run lease => (commit s (TestQueue.heartbeatJob s run lease)).reply .flag
  | releaseJobRun run => (commit s (TestQueue.releaseJobRun s run)).reply .flag
  | finishJobRun run outcome wall =>
      (TestQueue.finishJobRun env.cron s run outcome wall).reply .recorded
  | completeJobRunWithChildren run children wall =>
      (TestQueue.completeJobRunWithChildren env s run children wall).reply .recorded
  | completeJob jobId => (commit s (TestQueue.completeJob s jobId)).reply fun () => .unit
  | failJob jobId errorMessage =>
      (commit s (TestQueue.failJob s jobId errorMessage)).reply fun () => .unit
  | retryJob jobId retryAt =>
      (commit s (TestQueue.retryJob s jobId retryAt)).reply fun () => .unit
  | markJobDead jobId errorMessage =>
      (commit s (TestQueue.markJobDead s jobId errorMessage)).reply fun () => .unit
  | markJobTimedOut jobId errorMessage =>
      (commit s (TestQueue.markJobTimedOut s jobId errorMessage)).reply fun () => .unit
  | retryDeadJob jobId => (commit s (TestQueue.retryDeadJob s jobId)).reply fun () => .unit
  | rescheduleCronJob jobId nextRunAt =>
      (commit s (TestQueue.rescheduleCronJob s jobId nextRunAt)).reply fun () => .unit
  | disableRecurringJob jobId =>
      (commit s (TestQueue.disableRecurringJob s jobId)).reply fun () => .unit
  | enableRecurringJob jobId =>
      (commit s (TestQueue.enableRecurringJob env.cron s jobId)).reply fun () => .unit
  | requeueStaleJobs queueName =>
      (TestQueue.requeueStaleJobs env.cron s queueName).reply .recovery
  | resolveJobDependencies jobId =>
      (commit s (TestQueue.resolveJobDependencies s jobId)).reply .ids
  | failJobDependencies jobId =>
      (commit s (TestQueue.failJobDependencies s jobId)).reply .ids
  | cancelWorkflow workflowId =>
      (commit s (TestQueue.cancelWorkflow s workflowId)).reply fun () => .unit
  | archiveJobs queueName policy =>
      (commit s (TestQueue.archiveJobs s queueName policy)).reply .count
  | restoreArchivedJob jobId =>
      (commit s (TestQueue.restoreArchivedJob s jobId)).reply .job
  | deleteJob jobId => (commit s (TestQueue.deleteJob s jobId)).reply fun () => .unit
  | deleteBatch batchId => (commit s (TestQueue.deleteBatch s batchId)).reply fun () => .unit
  | purgeDeadJobs olderThan =>
      (commit s (TestQueue.purgeDeadJobs s olderThan)).reply .count
  | purgeArchivedJobs olderThan =>
      (commit s (TestQueue.purgeArchivedJobs s olderThan)).reply .count
  | purgeArchivedJobsInQueue queueName olderThan =>
      (commit s (TestQueue.purgeArchivedJobsInQueue s queueName olderThan)).reply .count
  | purgeExpiredEncryptedJobs => (TestQueue.purgeExpiredEncryptedJobs s).reply .purge
  | storeJobResult jobId resultData expiresAt =>
      (commit s (TestQueue.storeJobResult s jobId resultData expiresAt)).reply fun () => .unit
  | deleteJobResult jobId =>
      (commit s (TestQueue.deleteJobResult s jobId)).reply fun () => .unit
  | cleanupExpiredResults =>
      (commit s (TestQueue.cleanupExpiredResults s)).reply .count
  | pauseQueue queueName pausedBy =>
      (commit s (TestQueue.pauseQueue s queueName pausedBy)).reply fun () => .unit
  | resumeQueue queueName =>
      (commit s (TestQueue.resumeQueue s queueName)).reply fun () => .unit
  | setTime time => (.unit, { s with clock := time })

/-- The jobs a call hands in. -/
def enqueued : Op → List Job
  | enqueue job | enqueueCronJob job => [job]
  | enqueueBatch batch => batch.jobs
  | enqueueWorkflow workflow => workflow.jobs
  | completeJobRunWithChildren _ children _ => children
  | _ => []

end Op

/-- The jobs and workflows are the same, perhaps in another iteration
order. -/
structure Rehash (s s' : TestStorage) : Prop where
  jobs : s.jobs.SameEntries s'.jobs
  workflows : s.workflows.SameEntries s'.workflows
  rest : s' = { s with jobs := s'.jobs, workflows := s'.workflows }

/-- What happens in one step of the system. -/
inductive Event where
  | call (op : Op)
  | rehash

/-- One step of the system. -/
inductive Step (env : Env) : TestStorage → Event → TestStorage → Prop
  | call (op : Op) (s : TestStorage) : Step env s (.call op) (op.apply env s).2
  | rehash {s s' : TestStorage} : Rehash s s' → Step env s .rehash s'

/-- The jobs an event hands in. -/
def Event.enqueued : Event → List Job
  | call op => op.enqueued
  | rehash => []

/-- What the call of an event returned in state `s`; nothing for a
rehash. -/
def Event.reply (env : Env) (s : TestStorage) : Event → Option Reply
  | call op => some (op.apply env s).1
  | rehash => none

/-- The states a run from the empty queue can be in. -/
def Reachable (env : Env) (s : TestStorage) : Prop :=
  ∃ (n : Nat) (r : Run (Step env) n) (clock : DateTime),
    r.state 0 = TestStorage.new clock ∧ r.state n = s

-- == lists of calls

/-- The storage after one event; a rehash may leave it as it is. -/
def Event.after (env : Env) (s : TestStorage) : Event → TestStorage
  | call op => (op.apply env s).2
  | rehash => s

/-- The operations that delete or purge jobs. -/
def Op.Deletes : Op → Prop
  | deleteJob _ | deleteBatch _ | purgeDeadJobs _ | purgeArchivedJobs _
  | purgeArchivedJobsInQueue .. | purgeExpiredEncryptedJobs => True
  | _ => False

def Event.Deletes : Event → Prop
  | call op => op.Deletes
  | rehash => False

/-- The storage after a list of calls. -/
def Op.applyAll (env : Env) (ops : List Op) (s : TestStorage) : TestStorage :=
  ops.foldl (fun s op => (op.apply env s).2) s

theorem step_after (env : Env) (s : TestStorage) (e : Event) : Step env s e (e.after env s) := by
  cases e with
  | call op => exact .call op s
  | rehash => exact .rehash ⟨.refl _, .refl _, rfl⟩

/-- The run that makes a list of calls. -/
def Op.trace (env : Env) (ops : List Op) (s : TestStorage) : Run (Step env) ops.length :=
  Run.ofFn (Event.after env) s (fun i => (ops[i]?).elim .rehash .call)
    fun _ _ => step_after env _ _

/-- The run ends in the storage after the calls. -/
theorem Op.trace_last (env : Env) (ops : List Op) (s : TestStorage) :
    (Op.trace env ops s).state ops.length = Op.applyAll env ops s := by
  have hstates : ∀ (ops : List Op) (s : TestStorage) (events : Nat → Event) (k : Nat),
      (∀ i (hi : i < ops.length), events (k + i) = .call ops[i]) →
      Run.states (Event.after env) s events (k + ops.length)
        = Op.applyAll env ops (Run.states (Event.after env) s events k) := by
    intro ops
    induction ops with
    | nil => exact fun s events k _ => rfl
    | cons op ops ih =>
        intro s events k hev
        rw [List.length_cons, Nat.add_comm ops.length, ← Nat.add_assoc, ih s events (k + 1)]
        · rw [Run.states, show events k = .call op from hev 0 (Nat.zero_lt_succ _)]
          rfl
        · intro i hi
          rw [Nat.add_assoc, Nat.add_comm 1 i]
          exact hev (i + 1) (Nat.succ_lt_succ hi)
  have h := hstates ops s (fun i => (ops[i]?).elim .rehash .call) 0 fun i hi => by
    rw [Nat.zero_add, List.getElem?_eq_getElem hi]
    rfl
  rw [Nat.zero_add] at h
  exact h

theorem reachable_applyAll (env : Env) (ops : List Op) (clock : DateTime) :
    Reachable env (Op.applyAll env ops (TestStorage.new clock)) :=
  ⟨ops.length, Op.trace env ops (TestStorage.new clock), clock, rfl, Op.trace_last env ops _⟩

/-- Midnight UTC, the one schedule of a small cron library. -/
def midnightCron : CronLibrary where
  Schedule := Unit
  Tz := Unit
  utc := ()
  parseSchedule expression :=
    if expression = "0 0 0 * * *" then .ok () else .error "unsupported expression"
  parseTz name := if name = "UTC" then some () else none
  nextAfter _ _ t := some ((t / 86400000000000 + 1) * 86400000000000)

/-- A queue that encrypts nothing and whose recurring jobs run at
midnight. -/
def plainEnv : Env where
  cron := midnightCron
  encryption := ⟨none, []⟩
  hash _ _ _ := 0

/-- A job, and one that depends on it. -/
def parentJob : Job := Job.new 1 0 "mail" .null

def dependentJob : Job := (Job.new 2 0 "mail" .null).addDependsOn 1

end Hammerwork
