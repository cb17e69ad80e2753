/-
Transactions of the PostgreSQL backend, statement by statement.

The rows of a job are under its id: one in the jobs table, or one in the
archive. A transaction is its phases, each of which asks the database
for one statement (`request`) and goes on with what it returned:

- `enqueue`: the dependencies outside the call are locked and read, then
  looked up in the archive, the jobs are settled and inserted;
- `lockJob`: a transition. The job is locked and judged, a job put back
  by hand has its dependencies locked and judged again, the target is
  written, and a terminal status releases or fails the dependents and
  applies the failure policy of the job's workflow and batch;
- `archive`: finished jobs are locked and moved to the archive;
- `claim`: runnable jobs are locked and become `Running`.

A workflow's policy and a batch's mode never change. The rows of
workflows and batches hold counters otherwise, which no statement on a
job reads; they and their locks, which only make transactions wait for
one another, are left out.
-/
import Hammerwork.Postgres
import Hammerwork.Transaction
import Hammerwork.Claim
import Hammerwork.Lib.ReadCommitted

namespace Hammerwork

namespace Postgres

open ReadCommitted

-- == rows

/-- How a job came to its end: by its own transition, with a dependency
of it, or by the failure policy of its workflow or batch. No statement
reads it. -/
inductive EndedBy where
  | itself
  | dependency
  | policy
  deriving DecidableEq, Repr

/-- What is stored under a job's id: its row in the jobs table, its row
in the archive, and how it ended. -/
structure Slot where
  stored : Option Job
  archived : Option Job
  ended : Option EndedBy

namespace Slot

/-- Nothing is stored under the id. -/
def empty : Slot where
  stored := none
  archived := none
  ended := none

/-- The job's row after an `UPDATE`. -/
def update (f : Job → Job) (slot : Slot) : Slot := { slot with stored := slot.stored.map f }

/-- The job's row after an `UPDATE` that ends it. -/
def finish (by_ : EndedBy) (f : Job → Job) (slot : Slot) : Slot :=
  { slot.update f with ended := some by_ }

/-- Whether the job completed: `EXISTS` in the jobs table or the archive
with status `Completed`. -/
def completed (slot : Slot) : Bool :=
  slot.stored.any (·.status = .completed) || slot.archived.any (·.status = .completed)

end Slot

/-- What the transactions read besides job rows: the failure policies of
the workflows, the failure modes of the batches, and the next run of a
recurring job. -/
structure Env where
  policyOf : WorkflowId → Option FailurePolicy
  modeOf : BatchId → Option PartialFailureMode
  nextRun : Job → DateTime → Option DateTime

/-- The failure policy of the job's workflow. -/
def Env.policy (env : Env) (job : Job) : Option FailurePolicy := job.workflowId.bind env.policyOf

-- == settling enqueued jobs

/-- The state of a stored dependency with status `status`, in a workflow
with failure policy `policy`. -/
def parentFromDb (status : JobStatus) (policy : Option FailurePolicy) : ParentState :=
  match status with
  | .completed => .completed
  | .failed | .dead | .timedOut => if policy = some .manual then .unfinished else .failed
  | _ => .unfinished

/-- The state of an archived dependency: archived jobs keep no workflow.
-/
def parentFromArchived (status : JobStatus) : ParentState := parentFromDb status none

/-- The row a scan took under the id. -/
def lockedRow (locked : List (JobId × Slot)) (id : JobId) : Option Job :=
  (locked.find? (·.1 = id)).bind (·.2.stored)

/-- The states of the dependencies `parents`: of the rows locked, or
else of the archived ones. -/
def parentStates (env : Env) (parents : List JobId) (locked : List (JobId × Slot))
    (archive : JobId → Slot) (id : JobId) : Option ParentState :=
  match lockedRow locked id with
  | some job => some (parentFromDb job.status (env.policy job))
  | none =>
      if id ∈ parents then
        (archive id).archived.map fun job => parentFromArchived job.status
      else
        none

/-- `INSERT` of one of the rows `jobs`, some of which were failed when
they were settled; none if the id is taken. -/
def insertRow (jobs : List Job) (failed : List JobId) (id : JobId) (slot : Slot) :
    Option Slot :=
  match slot.stored, jobs.filter (·.id = id) with
  | none, [job] =>
      some { slot with
        stored := some job
        ended := if id ∈ failed then some .dependency else none }
  | _, _ => none

-- == transitions

/-- The statuses of the dependencies `ids`: of the rows locked, or else
of the archived ones. -/
def dependencyStates (ids : List JobId) (locked : List (JobId × Slot))
    (archive : JobId → Slot) (id : JobId) : Option JobStatus :=
  match lockedRow locked id with
  | some job => some job.status
  | none => if id ∈ ids then (archive id).archived.map (·.status) else none

/-- The row after the transition's writes: its dependency status, as far
as it was judged again, and the target. -/
def transitioned (status : DependencyStatus) (target : Target) (now : DateTime) (row : Job) :
    Job :=
  target.write now { row with dependencyStatus := status }

/-- The slot after the transition's writes. -/
def writeTarget (status : DependencyStatus) (target : Target) (now : DateTime) (slot : Slot) :
    Slot :=
  match target.terminalStatus with
  | some _ => slot.finish .itself (transitioned status target now)
  | none => { slot.update (transitioned status target now) with ended := none }

/-- The row of a recurring job put back for its next run. -/
def rescheduleAfterRun (nextRunAt : DateTime) (runStatus : JobStatus) (row : Job) : Job :=
  { row with
    status := .pending
    scheduledAt := nextRunAt
    nextRunAt := some nextRunAt
    attempts := 0
    startedAt := none
    completedAt := none
    failedAt := if runStatus ≠ .completed then row.failedAt else none
    timedOutAt := if runStatus ≠ .completed then row.timedOutAt else none
    errorMessage := if runStatus ≠ .completed then row.errorMessage else none }

/-- A waiting row that depends on `completed`. -/
def waitsFor (completed : JobId) (row : Job) : Bool :=
  row.dependsOn.contains completed && row.dependencyStatus = .waiting && row.status = .pending

/-- A row whose dependencies have all completed. -/
def released (row : Job) : Job := { row with dependencyStatus := .satisfied }

/-- The statement that releases the rows `ids` whose dependencies have
all completed. -/
def releaseStatement (ids : List JobId) : Statement JobId Slot where
  access := .update (Slot.update released)
  finds view id := ids.contains id &&
    (view id).stored.any fun row => row.dependsOn.all fun dependency => (view dependency).completed
  keeps id slot := ids.contains id && slot.stored.isSome
  skipLocked := false
  limit := none

/-- A row as failed by its fail-fast workflow. -/
def workflowFailed (failed : JobId) (now : DateTime) (row : Job) : Job :=
  { row with
    status := .failed
    failedAt := some now
    errorMessage := some (workflowFailedMessage failed)
    dependencyStatus :=
      if row.dependencyStatus = .waiting then .failed else row.dependencyStatus }

/-- A row as failed by its fail-fast batch. -/
def batchFailed (failed : JobId) (now : DateTime) (row : Job) : Job :=
  { row with
    status := .failed
    failedAt := some now
    errorMessage := some (batchFailedMessage failed) }

-- == archiving, claiming

/-- When jobs of each status must have finished to be archived; none for
a status that is not archived. -/
abbrev Thresholds := JobStatus → Option DateTime

/-- Whether the policy archives the row. -/
def archivable (thresholds : Thresholds) (queueName : Option String) (row : Job) : Bool :=
  queueName.all (row.queueName = ·) &&
    match row.status with
    | .completed => due (thresholds .completed) row.completedAt
    | .failed => due (thresholds .failed) row.failedAt
    | .dead => due (thresholds .dead) row.failedAt
    | .timedOut => due (thresholds .timedOut) row.timedOutAt
    | _ => false
where
  due (threshold finishedAt : Option DateTime) : Bool :=
    threshold.any fun threshold => finishedAt.any (· ≤ threshold)

/-- The statement that locks the rows to archive. -/
def archiveStatement (thresholds : Thresholds) (queueName : Option String) (batchSize : Nat) :
    Statement JobId Slot where
  access := .forUpdate
  finds view id := (view id).stored.any (archivable thresholds queueName)
  keeps _ slot := slot.stored.any (archivable thresholds queueName)
  skipLocked := true
  limit := some batchSize

/-- The slot of an archived job: the row moved; none if the archive has
a row of that id. -/
def moveToArchive (_ : JobId) (slot : Slot) : Option Slot :=
  match slot.stored, slot.archived with
  | some row, none => some { slot with stored := none, archived := some row }
  | _, _ => none

/-- A row that can be claimed from the queue. -/
def runnable (queueName : String) (now : DateTime) (row : Job) : Bool :=
  row.queueName = queueName && row.status = .pending && TestStorage.dequeuable now row

/-- A claimed row. -/
def claimed (now : DateTime) (row : Job) : Job :=
  { row with status := .running, startedAt := some now, attempts := row.attempts + 1 }

/-- The statement that claims up to `limit` rows. -/
def claimStatement (queueName : String) (now : DateTime) (limit : Nat) :
    Statement JobId Slot where
  access := .update (Slot.update (claimed now))
  finds view id := (view id).stored.any (runnable queueName now)
  keeps _ slot := slot.stored.any (runnable queueName now)
  skipLocked := true
  limit := some limit

-- == transactions

/-- Where a transaction is. -/
inductive Phase where
  | enqueue (jobs : List Job) (now : DateTime)
  | archivedParents (jobs : List Job) (now : DateTime) (locked : List (JobId × Slot))
  | insert (jobs : List Job) (failed : List JobId)
  | lockJob (jobId : JobId) (guard : Guard) (target : Target) (now wall : DateTime)
  | dependencies (job : Job) (target : Target) (now : DateTime)
  | archivedDependencies (job : Job) (target : Target) (now : DateTime)
      (locked : List (JobId × Slot))
  | write (job : Job) (status : DependencyStatus) (target : Target) (now : DateTime)
      (rescheduleRecurring : Bool)
  | reschedule (job : Job) (nextRunAt : DateTime) (runStatus : JobStatus)
  | dependents (job : Job)
  | release (ids : List JobId)
  | workflowPending (job : Job) (workflowId : WorkflowId) (now : DateTime)
  | failing (job : Job) (now : DateTime) (current : JobId) (toCheck failed : List JobId)
  | batchPending (job : Job) (batchId : BatchId) (now : DateTime)
  | archive (thresholds : Thresholds) (queueName : Option String) (batchSize : Nat)
  | move (ids : List JobId)
  | claim (queueName : String) (now : DateTime) (limit : Nat)
  | finished
  | erred

namespace Phase

/-- The transactions there are. -/
def Opens : Phase → Prop
  | enqueue .. | lockJob .. | archive .. | claim .. => True
  | _ => False

/-- What follows the lock on the job: nothing, if there is none or the
guard rejects it. -/
def afterLock (guard : Guard) (target : Target) (now wall : DateTime) :
    List (JobId × Slot) → Phase
  | (_, ⟨some job, _, _⟩) :: _ =>
      if !guard.admits job then
        finished
      else
        match guard, target with
        | .manual _, .retry .. =>
            if job.dependsOn.isEmpty then
              write job job.dependencyStatus target now false
            else
              dependencies job target now
        | .manual _, _ => write job job.dependencyStatus target now false
        | .run _, _ => write job job.dependencyStatus (target.onDbClock guard now wall) now true
  | _ => finished

/-- The failure mode of the failed job's batch. -/
def batchOutcome (env : Env) (job : Job) (now : DateTime) : Phase :=
  match job.batchId with
  | some batchId =>
      if env.modeOf batchId = some .failFast then batchPending job batchId now else finished
  | none => finished

/-- The next job whose dependents are failed, the last of `toCheck`
first. -/
def failNext (env : Env) (job : Job) (now : DateTime) : List JobId → List JobId → Phase
  | [], _ => batchOutcome env job now
  | current :: toCheck, failed => failing job now current toCheck failed

/-- The failure policy of the failed job's workflow. -/
def applyFailurePolicy (env : Env) (job : Job) (now : DateTime) : Phase :=
  match job.workflowId, env.policy job with
  | _, some .manual => batchOutcome env job now
  | some workflowId, some .failFast => workflowPending job workflowId now
  | _, _ => failing job now job.id [] []

/-- The side effects of the job reaching the terminal status. -/
def afterTerminal (env : Env) (job : Job) (status : JobStatus) (now : DateTime)
    (rescheduleRecurring : Bool) : Phase :=
  match (if rescheduleRecurring && job.recurring then env.nextRun job now else none) with
  | some nextRunAt => reschedule job nextRunAt status
  | none => if status = .completed then dependents job else applyFailurePolicy env job now

/-- What follows the transition's writes. -/
def afterWrite (env : Env) (job : Job) (target : Target) (now : DateTime)
    (rescheduleRecurring : Bool) : Phase :=
  match target.terminalStatus with
  | some status => afterTerminal env job status now rescheduleRecurring
  | none => finished

/-- What the transaction asks of the database next. -/
def request (env : Env) : Phase → Request JobId Slot Phase
  | enqueue jobs now =>
      let parents := externalDependencies jobs
      if parents.isEmpty then
        .write (jobs.map (·.id)) (insertRow jobs []) finished
      else
        .scan (.whereRow .forShare fun id slot => parents.contains id && slot.stored.isSome)
          fun locked => archivedParents jobs now locked
  | archivedParents jobs now locked =>
      .read fun archive =>
        let states := parentStates env (externalDependencies jobs) locked archive
        let (jobs, failed) := settleNewDependents jobs states now
        insert jobs failed
  | insert jobs failed => .write (jobs.map (·.id)) (insertRow jobs failed) finished
  | lockJob jobId guard target now wall =>
      .scan (.whereRow .forUpdate fun id slot => decide (id = jobId) && slot.stored.isSome)
        (afterLock guard target now wall)
  | dependencies job target now =>
      .scan
        (.whereRow .forShare fun id slot => job.dependsOn.contains id && slot.stored.isSome)
        fun locked => archivedDependencies job target now locked
  | archivedDependencies job target now locked =>
      .read fun archive =>
        match reevaluateDependencies job (dependencyStates job.dependsOn locked archive)
          "retried" with
        | .ok status => write job status target now false
        | .error _ => erred
  | write job status target now rescheduleRecurring =>
      .write [job.id] (fun _ slot => some (writeTarget status target now slot))
        (afterWrite env job target now rescheduleRecurring)
  | reschedule job nextRunAt runStatus =>
      .write [job.id] (fun _ slot => some (slot.update (rescheduleAfterRun nextRunAt runStatus)))
        finished
  | dependents job =>
      .scan (.whereRow .forUpdate fun _ slot => slot.stored.any (waitsFor job.id))
        fun hits => if hits.isEmpty then finished else release (hits.map (·.1))
  | release ids => .scan (releaseStatement ids) fun _ => finished
  | workflowPending job workflowId now =>
      .scan
        (.whereRow (.update (Slot.finish .policy (workflowFailed job.id now))) fun id slot =>
          slot.stored.any fun row =>
            row.workflowId = some workflowId && id ≠ job.id && TestStorage.unstarted row)
        fun _ => failing job now job.id [] []
  | failing job now current toCheck failed =>
      .scan
        (.whereRow (.update (Slot.finish .dependency (dependencyFailed current now))) fun _ slot =>
          slot.stored.any fun row => row.dependsOn.contains current && awaits row)
        fun hits =>
          let ids := (hits.map (·.1)).filter fun id => !decide (id ∈ failed)
          failNext env job now (ids.reverse ++ toCheck) (failed ++ ids)
  | batchPending job batchId now =>
      .scan
        (.whereRow (.update (Slot.finish .policy (batchFailed job.id now))) fun _ slot =>
          slot.stored.any fun row => row.batchId = some batchId && TestStorage.unstarted row)
        fun _ => finished
  | archive thresholds queueName batchSize =>
      .scan (archiveStatement thresholds queueName batchSize) fun hits => move (hits.map (·.1))
  | move ids => .write ids moveToArchive finished
  | claim queueName now limit => .scan (claimStatement queueName now limit) fun _ => finished
  | finished => .done
  | erred => .error

end Phase

-- == the system

/-- The database and the transactions open on it, by name. -/
abbrev Database := System Nat JobId Slot Phase

/-- A new database. -/
def Database.new : Database := .idle fun _ => .empty

end Postgres

end Hammerwork
