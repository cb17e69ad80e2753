/-
The status lifecycle shared by every backend: which transitions a job's
status allows, what identifies a run, when a recurring job runs next,
and how a job's dependencies are judged when it is enqueued or put back.

Two kinds of change are told apart. A manual transition may start from
the statuses in `JobTransition.allowedFrom`. A run outcome applies only
while the job is `Running` the very run it was dequeued as
(`isSameRun`): the same number of attempts, and a start time within one
millisecond.

Dependencies are judged three times by three different rules: against
the stored parents when a job is enqueued (`settleNewDependents`),
against their statuses when it is put back by hand
(`reevaluateDependencies`), and by the queue when a parent finishes.
-/
import Hammerwork.Workflow

namespace Hammerwork

-- == transitions

/-- A manual status transition. -/
inductive JobTransition where
  | complete
  | fail
  | retry
  | markDead
  | markTimedOut
  | rescheduleCron
  | retryDead
  deriving DecidableEq, Repr

namespace JobTransition

/-- The statuses the transition may start from. -/
def allowedFrom : JobTransition → List JobStatus
  | complete | fail => [.pending, .running, .retrying]
  | retry => [.running, .retrying, .failed, .timedOut]
  | markDead => [.pending, .running, .retrying, .failed, .timedOut]
  | markTimedOut => [.running]
  | rescheduleCron => [.pending, .running, .retrying, .failed, .dead, .timedOut]
  | retryDead => [.dead, .timedOut]

/-- Whether the transition may start from `status`. -/
def isAllowedFrom (transition : JobTransition) (status : JobStatus) : Bool :=
  transition.allowedFrom.contains status

/-- A short verb phrase for error messages. -/
def asStr : JobTransition → String
  | complete => "completed"
  | fail => "failed"
  | retry => "retried"
  | markDead => "marked dead"
  | markTimedOut => "marked timed out"
  | rescheduleCron => "rescheduled"
  | retryDead => "retried from dead"

/-- The error for a job in a status the transition does not allow. -/
def rejected (transition : JobTransition) (jobId : JobId) (status : JobStatus) :
    HammerworkError :=
  .invalidJobTransition (toString jobId) status.asStr transition.asStr

end JobTransition

/-- A job of this status ended, and not by completing. -/
def JobStatus.EndedInFailure (status : JobStatus) : Prop :=
  status = .failed ∨ status = .dead ∨ status = .timedOut

-- == run outcomes

/-- How one run of a job ended, as its worker reports it. -/
inductive JobOutcome where
  | completed
  | retry (retryAt : DateTime) (error : String) (timedOut : Bool)
  | dead (error : String)
  | timedOut (error : String)

/-- The status a non-recurring job ends in; none for a retry. -/
def JobOutcome.terminalStatus : JobOutcome → Option JobStatus
  | completed => some .completed
  | retry .. => none
  | dead _ => some .dead
  | timedOut _ => some .timedOut

/-- What was recorded for a run. -/
structure RecordedOutcome where
  status : JobStatus
  nextRunAt : Option DateTime
  unblocked : List JobId
  cancelled : List JobId
  spawned : List JobId
  deriving DecidableEq, Repr

def RecordedOutcome.new (status : JobStatus) : RecordedOutcome where
  status := status
  nextRunAt := none
  unblocked := []
  cancelled := []
  spawned := []

/-- Whether `current` (the job as stored) is still the run `run` was
dequeued as. -/
def isSameRun (current run : Job) : Bool :=
  if current.id ≠ run.id ∨ current.attempts ≠ run.attempts then
    false
  else
    match current.startedAt, run.startedAt with
    | some stored, some claimed =>
        match numMicroseconds (stored - claimed) with
        | some delta => decide (delta.natAbs < 1000)
        | none => false
    | _, none => true
    | none, some _ => false

/-- What a transition requires of the job as stored. -/
inductive Guard where
  | manual (transition : JobTransition)
  | run (handle : Job)

/-- Whether the job, as stored, accepts the transition. -/
def Guard.admits : Guard → Job → Bool
  | .manual transition, current => transition.isAllowedFrom current.status
  | .run handle, current =>
      decide (current.status = .running) && isSameRun current handle

-- == messages

/-- Error message for a dependent that can no longer run. -/
def dependencyFailedMessage (failed : JobId) : String :=
  s!"Dependency failed: job {failed} failed"

/-- Error message for a pending job failed by a fail-fast workflow. -/
def workflowFailedMessage (failed : JobId) : String :=
  s!"Workflow failed: job {failed} failed (fail-fast policy)"

/-- Error message for a pending job failed by a fail-fast batch. -/
def batchFailedMessage (failed : JobId) : String :=
  s!"Batch failed: job {failed} failed (fail-fast mode)"

/-- Error message recorded on the unfinished jobs of a cancelled
workflow. -/
def workflowCancelledMessage : String := "Workflow cancelled"

/-- Error message recorded on a job reclaimed because its lease
expired. -/
def staleJobErrorMessage : String :=
  
  "Job lease expired while Running; the worker is presumed dead and the job was reclaimed"

-- == cron

/-- The cron and time-zone libraries: parsing, and the first occurrence
of a schedule strictly after an instant. -/
structure CronLibrary where
  Schedule : Type
  Tz : Type
  utc : Tz
  parseSchedule : String → Except String Schedule
  parseTz : String → Option Tz
  nextAfter : Schedule → Tz → DateTime → Option DateTime

/-- A parsed schedule in its time zone, by what it computes. -/
structure CronSchedule where
  nextExecution : DateTime → Option DateTime

section Cron

variable (cron : CronLibrary)

/-- Parse an expression and a time zone. -/
def CronSchedule.withTimezone (expression timezone : String) : Except String CronSchedule :=
  match cron.parseSchedule expression with
  | .error e => .error s!"Invalid cron expression: {expression}: {e}"
  | .ok schedule =>
      match cron.parseTz timezone with
      | none => .error s!"Invalid timezone: {timezone}"
      | some tz => .ok { nextExecution := cron.nextAfter schedule tz }

/-- The job's schedule, if it has one. -/
def Job.getCronSchedule (job : Job) : Option (Except String CronSchedule) :=
  job.cronSchedule.map fun expression =>
    CronSchedule.withTimezone cron expression (job.timezone.getD "UTC")

/-- How many missed occurrences are stepped through. -/
def cronCatchUpScanLimit : Nat := 10000

/-- The latest occurrence up to `now`, stepping from `latest` at most
`fuel` times; `now` when there are more. -/
def scanOccurrences (schedule : CronSchedule) (now : DateTime) : Nat → DateTime → DateTime
  | 0, _ => now
  | fuel + 1, latest =>
      match schedule.nextExecution latest with
      | some occurrence =>
          if occurrence ≤ now then scanOccurrences schedule now fuel occurrence else latest
      | none => latest

/-- The next run of a recurring job whose run ended at `now`; none when
it has no valid schedule or no next occurrence. -/
def nextCronRun (job : Job) (now : DateTime) : Option DateTime :=
  match job.getCronSchedule cron with
  | some (.ok schedule) =>
      let slot := match job.nextRunAt with
        | some slot => min slot job.scheduledAt
        | none => job.scheduledAt
      let start := match job.startedAt with
        | some started => if slot < started then started else slot
        | none => slot
      match schedule.nextExecution start with
      | some next =>
          if now < next then some next
          else some (scanOccurrences schedule now cronCatchUpScanLimit next)
      | none => none
  | _ => none

end Cron

-- == put back by hand

/-- Go through `dependencies`: whether all of them completed, or what is
wrong with the first that cannot. -/
def checkDependencies (states : JobId → Option JobStatus) :
    List JobId → Except (JobId × String) Bool
  | [] => .ok true
  | dependency :: rest =>
      match states dependency with
      | some .completed => checkDependencies states rest
      | some .failed => .error (dependency, s!"is {JobStatus.failed.asStr}")
      | some .dead => .error (dependency, s!"is {JobStatus.dead.asStr}")
      | some .timedOut => .error (dependency, s!"is {JobStatus.timedOut.asStr}")
      | some _ => (checkDependencies states rest).map fun _ => false
      | none => .error (dependency, "no longer exists")

/-- The dependency status of a job put back to `Pending` by hand,
re-evaluated from the current statuses of its dependencies. -/
def reevaluateDependencies (job : Job) (states : JobId → Option JobStatus)
    (action : String) : Except HammerworkError DependencyStatus :=
  if job.dependsOn.isEmpty then
    .ok .none
  else if job.dependencyStatus = .satisfied then
    .ok .satisfied
  else
    match checkDependencies states job.dependsOn with
    | .error (dependency, problem) =>
        .error (.workflow s!"Job {job.id} cannot be {action}: its dependency {dependency} {problem}; retry or restore the dependency first")
    | .ok true => .ok .satisfied
    | .ok false => .ok .waiting

-- == enqueued dependents

/-- The state of a dependency, as far as a job being enqueued is
concerned. -/
inductive ParentState where
  | completed
  | failed
  | unfinished
  deriving DecidableEq, Repr

/-- The dependencies of `jobs` that are not themselves in `jobs`, in
order and without repetition. -/
def externalDependencies (jobs : List Job) : List JobId :=
  let new := jobs.map (·.id)
  ((((jobs.filter (·.dependencyStatus = .waiting)).flatMap (·.dependsOn)).filter
    (· ∉ new)).mergeSort (· ≤ ·)).dedup

/-- The state of the dependency `parent` of a job in `jobs`: that of the
job in `jobs` of that id (the last, if there are several), or else that
of the stored job. -/
def settledStateOf (jobs : List Job) (parents : JobId → Option ParentState)
    (parent : JobId) : ParentState :=
  match jobs.reverse.find? (·.id = parent) with
  | some job =>
      match job.status with
      | .completed => .completed
      | .failed | .dead | .timedOut => .failed
      | _ => .unfinished
  | none => (parents parent).getD .unfinished

/-- A job failed on arrival because `parent` failed. -/
def Job.failOnArrival (job : Job) (parent : JobId) (now : DateTime) : Job :=
  { job with
    status := .failed
    dependencyStatus := .failed
    failedAt := some now
    errorMessage := some (dependencyFailedMessage parent) }

/-- Settle one waiting job of `jobs`; the flag says whether it was
failed. -/
def settleJob (jobs : List Job) (parents : JobId → Option ParentState) (now : DateTime)
    (job : Job) : Job × Bool :=
  if job.dependencyStatus ≠ .waiting ∨ job.dependsOn.isEmpty then
    (job, false)
  else
    match job.dependsOn.find? fun parent => settledStateOf jobs parents parent = .failed with
    | some failedParent => (job.failOnArrival failedParent now, true)
    | none =>
        if job.dependsOn.all fun parent => settledStateOf jobs parents parent = .completed then
          ({ job with dependencyStatus := .satisfied }, false)
        else
          (job, false)

/-- One pass over the jobs, of which `before` have been looked at: the
jobs afterwards and the ids of those failed in this pass. -/
def settlePass (parents : JobId → Option ParentState) (now : DateTime) :
    List Job → List Job → List Job × List JobId
  | before, [] => (before, [])
  | before, job :: rest =>
      match settleJob (before ++ job :: rest) parents now job with
      | (job', failed) =>
          match settlePass parents now (before ++ [job']) rest with
          | (jobs, ids) => (jobs, if failed then job.id :: ids else ids)

/-- Passes until one fails nothing, at most `fuel` of them. -/
def settleLoop (parents : JobId → Option ParentState) (now : DateTime) :
    Nat → List Job → List Job × List JobId
  | 0, jobs => (jobs, [])
  | fuel + 1, jobs =>
      match settlePass parents now [] jobs with
      | (jobs, []) => (jobs, [])
      | (jobs, failed) =>
          match settleLoop parents now fuel jobs with
          | (jobs, more) => (jobs, failed ++ more)

/-- Settle jobs about to be inserted against dependencies that may have
finished already. Each pass but the last fails a job, so one pass more
than there are jobs is enough. Returns the jobs and the ids of those
failed. -/
def settleNewDependents (jobs : List Job) (parents : JobId → Option ParentState)
    (now : DateTime) : List Job × List JobId :=
  settleLoop parents now (jobs.length + 1) jobs

end Hammerwork
