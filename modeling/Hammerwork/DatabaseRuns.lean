/-
Runs of jobs on the database backends, statement by statement.

A worker is handed a job by a claim, and holds a copy of it: the run. Its
lease is renewed, its start is recorded again, and it is handed back or
reported, each by a statement that names the run by the job's attempts
and start. Anything else that ends a run (a stale lease, a cancelled
workflow, a manual transition) does not ask who holds it.

PostgreSQL claims with one statement; MySQL, which returns no rows from
an update, locks the rows first and claims them by id. The other
statements are the same on both.

Beside its columns a row has notes of its runs, which no statement reads.
The statements a transition makes on other jobs, and those about no run,
are `Effect`s; which of them a transition makes is not computed here, and
a transaction makes any.
-/
import Hammerwork.Sessions

namespace Hammerwork

namespace DatabaseRuns

open ReadCommitted

-- == rows

/-- A note of what became of a job's run. -/
inductive Note where
  | claimed (run : Job)
  | started (run again : Job)
  | extended (run : Job)
  | ended (run : Job)
  | taken

/-- The runs of a job: the copies handed out of the one it is in, the
last first, and those of the runs before. -/
structure History where
  copies : List Job
  past : List Job

/-- The runs after one more note. -/
def Note.after (history : History) : Note → History
  | claimed run => { history with copies := [run] }
  | started _ again => { history with copies := again :: history.copies }
  | extended _ => history
  | ended _ | taken => ⟨[], history.copies ++ history.past⟩

/-- What is stored under a job's id: its row and its lease, and the
notes. -/
structure Row where
  job : Option Job
  lastHeartbeatAt : Option DateTime
  leaseExpiresAt : Option DateTime
  notes : List Note

namespace Row

/-- Nothing was ever stored under the id. -/
def empty : Row where
  job := none
  lastHeartbeatAt := none
  leaseExpiresAt := none
  notes := []

/-- The runs of the job so far. -/
def history (row : Row) : History := row.notes.foldl Note.after ⟨[], []⟩

/-- What was handed out so far. -/
def handles (row : Row) : List Job := row.history.copies ++ row.history.past

/-- The job is running. -/
def running (row : Row) : Bool := row.job.any (·.status = .running)

end Row

-- == leases

/-- The longest lease given to the database, 100 years. -/
def maxInterval : TimeDelta := 100 * 365 * 24 * 3600 * 1000000000

/-- A lease as the database gets it; a lease of zero never expires. -/
def leaseInterval (lease : Duration) : TimeDelta :=
  if lease = 0 then maxInterval else min (lease : TimeDelta) maxInterval

/-- How far the stored start of a run may be from the worker's copy. -/
def tolerance : TimeDelta := 1000000

/-- The range the stored start must fall in for the row to be the run;
none when the copy has no start. -/
def runStartedRange (run : Job) : Option (DateTime × DateTime) :=
  run.startedAt.map fun started =>
    ((checkedAddSigned started (-tolerance)).getD started,
      (checkedAddSigned started tolerance).getD started)

/-- The row of the job is the run: `status = 'Running' AND attempts = …
AND started_at > … AND started_at < …`. -/
def isRun (run job : Job) : Bool :=
  job.status = .running && job.attempts = run.attempts &&
    (runStartedRange run).all fun range =>
      job.startedAt.any fun t => decide (range.1 < t) && decide (t < range.2)

-- == fenced writes

namespace Row

/-- The row after a claim. -/
def claim (now : DateTime) (lease : Duration) (row : Row) : Row where
  job := row.job.map (Postgres.claimed now)
  lastHeartbeatAt := some now
  leaseExpiresAt := some (now + leaseInterval lease)
  notes := row.notes ++ (row.job.map fun job => .claimed (Postgres.claimed now job)).toList

/-- The row after the run's lease was renewed. -/
def heartbeat (run : Job) (now : DateTime) (lease : Duration) (row : Row) : Row :=
  { row with
    lastHeartbeatAt := some now
    leaseExpiresAt := some (now + leaseInterval lease)
    notes := row.notes ++ [.extended run] }

/-- The worker's copy of a run that starts at `now`. -/
def restarted (run : Job) (now : DateTime) : Job := { run with startedAt := some now }

/-- The row after the claimed run started. -/
def start (run : Job) (now : DateTime) (lease : Duration) (row : Row) : Row where
  job := row.job.map fun job => { job with startedAt := some now }
  lastHeartbeatAt := some now
  leaseExpiresAt := some (now + leaseInterval lease)
  notes := row.notes ++ [.started run (restarted run now)]

/-- The row after the run was handed back unstarted. -/
def release (run : Job) (row : Row) : Row where
  job := row.job.map fun job =>
    { job with
      status := .pending
      startedAt := none
      attempts := max (job.attempts - 1) 0 }
  lastHeartbeatAt := none
  leaseExpiresAt := none
  notes := row.notes ++ [.ended run]

/-- The row after a transition: who may end a run besides its worker
takes it. -/
def transition (guard : Guard) (status : DependencyStatus) (target : Target) (now : DateTime)
    (row : Row) : Row where
  job := row.job.map (Postgres.transitioned status target now)
  lastHeartbeatAt := none
  leaseExpiresAt := none
  notes := row.notes ++
    match guard with
    | .run run => [.ended run]
    | .manual _ => if row.running then [.taken] else []

/-- `INSERT` of one of the jobs; none if the id is taken. -/
def insert (jobs : List Job) (id : JobId) (row : Row) : Option Row :=
  match row.job, jobs.filter (·.id = id) with
  | none, [job] => some { row with job := some job }
  | _, _ => none

end Row

-- == effects

/-- A statement about no run of its own: the rows it wants, and the job
it leaves of each; none if the row is deleted. -/
structure Effect where
  wants : JobId → Row → Bool
  set : Job → Option Job
  clearsLease : Bool
  /-- A job that is running afterwards was running before, as the same
  run. -/
  keepsRuns : ∀ job job', set job = some job' → job'.status = .running →
    job.status = .running ∧ job'.attempts = job.attempts ∧ job'.startedAt = job.startedAt

namespace Effect

/-- The row after the effect. -/
def apply (effect : Effect) (row : Row) : Row :=
  let job := row.job.bind effect.set
  { job := job
    lastHeartbeatAt := if effect.clearsLease then none else row.lastHeartbeatAt
    leaseExpiresAt := if effect.clearsLease then none else row.leaseExpiresAt
    notes := row.notes ++
      if row.running && !job.any (·.status = .running) then [.taken] else [] }

/-- An effect on jobs of which none is running afterwards. -/
def ending (wants : JobId → Job → Bool) (set : Job → Job) (clearsLease : Bool)
    (hset : ∀ job, (set job).status ≠ .running) : Effect where
  wants id row := row.job.any (wants id)
  set job := some (set job)
  clearsLease := clearsLease
  keepsRuns job job' h hrunning := by
    cases h
    exact absurd hrunning (hset job)

/-- An effect that leaves the status, the attempts and the start. -/
def about (wants : JobId → Job → Bool) (set : Job → Job)
    (hset : ∀ job, (set job).status = job.status ∧ (set job).attempts = job.attempts ∧
      (set job).startedAt = job.startedAt) : Effect where
  wants id row := row.job.any (wants id)
  set job := some (set job)
  clearsLease := false
  keepsRuns job job' h hrunning := by
    cases h
    exact ⟨(hset job).1 ▸ hrunning, (hset job).2⟩

/-- Rows are deleted: `DELETE FROM hammerwork_jobs WHERE …`. -/
def delete (wants : JobId → Job → Bool) : Effect where
  wants id row := row.job.any (wants id)
  set _ := none
  clearsLease := true
  keepsRuns _ _ h := by cases h

/-- The statement that releases the dependents `ids`. -/
def resolveDependents (ids : List JobId) : Effect :=
  about (fun id _ => ids.contains id) Postgres.released fun _ => ⟨rfl, rfl, rfl⟩

/-- The statement that fails the jobs depending on `current`. -/
def failDependents (current : JobId) (now : DateTime) : Effect :=
  ending (fun _ row => row.dependsOn.contains current && Postgres.awaits row)
    (Postgres.dependencyFailed current now) false fun _ => nofun

/-- The statement that fails the pending jobs of a fail-fast workflow. -/
def failWorkflowPending (workflowId : WorkflowId) (failed : JobId) (now : DateTime) : Effect :=
  ending (fun id row => row.workflowId = some workflowId && id ≠ failed &&
    TestStorage.unstarted row) (Postgres.workflowFailed failed now) false fun _ => nofun

/-- The statement that fails the pending jobs of a fail-fast batch. -/
def failBatchPending (batchId : BatchId) (failed : JobId) (now : DateTime) : Effect :=
  ending (fun _ row => row.batchId = some batchId && TestStorage.unstarted row)
    (Postgres.batchFailed failed now) false fun _ => nofun

/-- The statement that puts a recurring job back for its next run. -/
def rescheduleAfterRun (jobId : JobId) (nextRunAt : DateTime) (runStatus : JobStatus) : Effect :=
  ending (fun id _ => decide (id = jobId)) (Postgres.rescheduleAfterRun nextRunAt runStatus) true
    fun _ => nofun

/-- A job of a cancelled workflow. -/
def cancelled (now : DateTime) (row : Job) : Job :=
  { row with
    status := .failed
    failedAt := some now
    errorMessage := some workflowCancelledMessage
    dependencyStatus :=
      if row.dependencyStatus = .waiting then .failed else row.dependencyStatus }

/-- The statement that cancels a workflow's unfinished jobs, running ones
included. -/
def cancelWorkflow (workflowId : WorkflowId) (now : DateTime) : Effect :=
  ending (fun _ row => row.workflowId = some workflowId &&
    (TestStorage.unstarted row || row.status = .running)) (cancelled now) true fun _ => nofun

/-- A job whose lease expired: dead if it used all its attempts, else put
back. -/
def reclaimed (now : DateTime) (row : Job) : Job :=
  if row.maxAttempts ≤ row.attempts then
    { row with status := .dead, failedAt := some now, errorMessage := some staleJobErrorMessage }
  else
    { row with
      status := .pending
      scheduledAt := now
      startedAt := none
      errorMessage := some staleJobErrorMessage }

theorem reclaimed_not_running (now : DateTime) (row : Job) :
    (reclaimed now row).status ≠ .running := by
  unfold reclaimed
  split <;> exact nofun

/-- The lease of the row's run expired before `now`. -/
def leaseExpired (now : DateTime) (row : Row) (job : Job) : Bool :=
  (row.lastHeartbeatAt.any fun beat => job.startedAt.any fun started => started ≤ beat) &&
    row.leaseExpiresAt.any (· < now)

/-- The statement that reclaims the running jobs whose lease expired. -/
def requeueStaleJobs (queueName : Option String) (now : DateTime) : Effect :=
  { ending (fun _ _ => true) (reclaimed now) true (reclaimed_not_running now) with
    wants := fun _ row => row.job.any fun job =>
      job.status = .running && leaseExpired now row job && queueName.all (job.queueName = ·) }

/-- The statement that puts a dead job back with all its attempts. -/
def retryDeadJob (jobId : JobId) (now : DateTime) : Effect :=
  ending (fun id row => decide (id = jobId) && JobTransition.isAllowedFrom .retryDead row.status)
    (fun row => { row with
      status := .pending
      attempts := 0
      scheduledAt := now
      startedAt := none
      failedAt := none
      timedOutAt := none }) true fun _ => nofun

/-- A recurring job as scheduled by hand. -/
def scheduled (nextRunAt : DateTime) (row : Job) : Job :=
  { row with
    status := .pending
    scheduledAt := nextRunAt
    nextRunAt := some nextRunAt
    attempts := 0
    startedAt := none
    completedAt := none
    failedAt := none
    timedOutAt := none
    errorMessage := none }

/-- The statement that schedules a recurring job by hand. -/
def rescheduleCronJob (jobId : JobId) (nextRunAt : DateTime) : Effect :=
  ending (fun id row => decide (id = jobId) && row.recurring &&
    JobTransition.isAllowedFrom .rescheduleCron row.status) (scheduled nextRunAt) true
    fun _ => nofun

/-- The statement that stops a recurring job from recurring. -/
def disableRecurringJob (jobId : JobId) : Effect :=
  about (fun id row => decide (id = jobId) && row.cronSchedule.isSome)
    (fun row => { row with recurring := false, nextRunAt := none }) fun _ => ⟨rfl, rfl, rfl⟩

/-- The statement that makes a job recurring again: a running one goes on
with its run, another is scheduled. -/
def enableRecurringJob (jobId : JobId) : Option DateTime → Effect
  | none => about (fun id _ => decide (id = jobId)) (fun row => { row with recurring := true })
      fun _ => ⟨rfl, rfl, rfl⟩
  | some nextRunAt => ending (fun id _ => decide (id = jobId))
      (fun row => { scheduled nextRunAt row with recurring := true }) true fun _ => nofun

end Effect

-- == transactions

/-- The rows a claim may take: of the queue and, if asked for, of the
priority, unless the queue is paused. -/
def claimable (queueName : String) (paused : Bool) (priority : Option JobPriority)
    (now : DateTime) (row : Row) : Bool :=
  !paused && row.job.any fun job =>
    Postgres.runnable queueName now job && priority.all (job.priority = ·)

/-- Where a transaction is. -/
inductive Phase where
  /-- A claim on PostgreSQL. -/
  | claim (queueName : String) (paused : Bool) (priority : Option JobPriority) (now : DateTime)
      (lease : Duration) (limit : Nat)
  /-- A claim on MySQL: the rows are locked … -/
  | lockRunnable (queueName : String) (paused : Bool) (priority : Option JobPriority)
      (now : DateTime) (lease : Duration) (limit : Nat)
  /-- … and claimed. -/
  | claimLocked (ids : List JobId) (now : DateTime) (lease : Duration)
  | heartbeat (run : Job) (now : DateTime) (lease : Duration)
  | startClaimedRun (run : Job) (now : DateTime) (lease : Duration)
  | releaseJobRun (run : Job)
  /-- A transition: the job is locked and judged, its dependencies are
  judged again if it is put back by hand (`judge`; none is an error) … -/
  | lockJob (jobId : JobId) (guard : Guard) (target : Target)
      (judge : Job → Option DependencyStatus) (now wall : DateTime) (after : List Effect)
      (children : List Job)
  /-- … and the target is written, with its effects on other jobs. -/
  | write (jobId : JobId) (guard : Guard) (status : DependencyStatus) (target : Target)
      (now : DateTime) (after : List Effect) (children : List Job)
  /-- Effects, then the jobs that are inserted. -/
  | effects (after : List Effect) (children : List Job)
  | finished
  | erred

namespace Phase

/-- The transactions there are. A run is reported under its own job's id,
and jobs are not inserted as running. -/
def Opens : Phase → Prop
  | claim .. | lockRunnable .. | heartbeat .. | startClaimedRun .. | releaseJobRun .. => True
  | lockJob jobId guard _ _ _ _ _ children =>
      (∀ run, guard = .run run → jobId = run.id) ∧ ∀ job ∈ children, job.status ≠ .running
  | effects _ children => ∀ job ∈ children, job.status ≠ .running
  | _ => False

/-- What follows the lock on the job: nothing, if there is none or the
guard rejects it. -/
def afterLock (jobId : JobId) (guard : Guard) (target : Target)
    (judge : Job → Option DependencyStatus) (now wall : DateTime) (after : List Effect)
    (children : List Job) : List (JobId × Row) → Phase
  | (_, ⟨some job, _, _, _⟩) :: _ =>
      if !guard.admits job then
        finished
      else
        match guard, target with
        | .manual _, .retry .. =>
            match judge job with
            | some status => write jobId guard status target now after children
            | none => erred
        | .manual _, _ => write jobId guard job.dependencyStatus target now after children
        | .run _, _ =>
            write jobId guard job.dependencyStatus (target.onDbClock guard now wall) now after
              children
  | _ => finished

/-- The statement that writes to the run's row, if it is still that run.
-/
def fenced (run : Job) (set : Row → Row) : Statement JobId Row :=
  .whereRow (.update set) fun id row => decide (id = run.id) && row.job.any (isRun run)

/-- What the transaction asks of the database next. -/
def request : Phase → Request JobId Row Phase
  | claim queueName paused priority now lease limit =>
      .scan
        { access := .update (Row.claim now lease)
          finds := fun view id => claimable queueName paused priority now (view id)
          keeps := fun _ row => claimable queueName paused priority now row
          skipLocked := true
          limit := some limit }
        fun _ => finished
  | lockRunnable queueName paused priority now lease limit =>
      .scan
        { access := .forUpdate
          finds := fun view id => claimable queueName paused priority now (view id)
          keeps := fun _ row => claimable queueName paused priority now row
          skipLocked := true
          limit := some limit }
        fun hits => claimLocked (hits.map (·.1)) now lease
  | claimLocked ids now lease => .write ids (fun _ row => some (row.claim now lease)) finished
  | heartbeat run now lease => .scan (fenced run (Row.heartbeat run now lease)) fun _ => finished
  | startClaimedRun run now lease =>
      .scan (fenced run (Row.start run now lease)) fun _ => finished
  | releaseJobRun run => .scan (fenced run (Row.release run)) fun _ => finished
  | lockJob jobId guard target judge now wall after children =>
      .scan (.whereRow .forUpdate fun id row => decide (id = jobId) && row.job.isSome)
        (afterLock jobId guard target judge now wall after children)
  | write jobId guard status target now after children =>
      .write [jobId] (fun _ row => some (row.transition guard status target now))
        (effects after children)
  | effects [] [] => .done
  | effects [] (child :: children) =>
      .write ((child :: children).map (·.id)) (Row.insert (child :: children)) finished
  | effects (effect :: after) children =>
      .scan (.whereRow (.update effect.apply) effect.wants) fun _ => effects after children
  | finished => .done
  | erred => .error

end Phase

-- == the system

/-- The database and the transactions open on it, by name. -/
abbrev Database := System Nat JobId Row Phase

/-- A new database. -/
def Database.new : Database := .idle fun _ => .empty

/-- The job's earlier runs with `attempts` started a millisecond or more
from `now`. -/
def FarFromPast (attempts : Int) (now : DateTime) (row : Row) : Prop :=
  ∀ old ∈ row.history.past, old.attempts = attempts →
    ∀ t, old.startedAt = some t → 1000000 ≤ (now - t).natAbs

/-- The job can be claimed at `now`. -/
def ClaimedApart (now : DateTime) (row : Row) : Prop :=
  ∀ job, row.job = some job → FarFromPast (job.attempts + 1) now row

/-- What callers keep to: they report runs they were handed, and two runs
of a job with the same attempts do not start within a millisecond. -/
def Reported (view : JobId → Row) : Phase → Prop
  | .claim queueName paused priority now _ _ =>
      ∀ id, claimable queueName paused priority now (view id) = true → ClaimedApart now (view id)
  | .claimLocked ids now _ => ∀ id ∈ ids, ClaimedApart now (view id)
  | .heartbeat run _ _ => run ∈ (view run.id).handles
  | .startClaimedRun run now _ =>
      run ∈ (view run.id).handles ∧
        ((view run.id).job.any (isRun run) = true → FarFromPast run.attempts now (view run.id))
  | .releaseJobRun run => run ∈ (view run.id).handles
  | .lockJob _ (.run run) .. => run ∈ (view run.id).handles
  | _ => True

-- == in turn

/-- What can be noted of a job: it is handed out only when it is in no
run, and only a copy of the run it is in renews it, starts it again or
ends it. -/
def Note.Allowed (history : History) : Note → Prop
  | claimed _ => history.copies = []
  | started run _ | extended run | ended run => run ∈ history.copies
  | taken => history.copies ≠ []

/-- Each note could be made when it was. -/
inductive InTurn : List Note → Prop
  | nothing : InTurn []
  | note {notes : List Note} {note : Note} : InTurn notes →
      note.Allowed (notes.foldl Note.after ⟨[], []⟩) → InTurn (notes ++ [note])

/-- The row is in the run of the copies: it carries the attempts and the
start of the last of them. -/
def Row.IsIn (row : Row) : List Job → Prop
  | [] => row.running = false
  | run :: _ => ∃ job, row.job = some job ∧ job.status = .running ∧
      job.attempts = run.attempts ∧ job.startedAt = run.startedAt

end DatabaseRuns

end Hammerwork
