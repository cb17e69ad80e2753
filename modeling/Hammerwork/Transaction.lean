/-
A job transition as the database backends run it.

In one transaction the job's row is locked, the guard is checked against
it, and the target is written to it. The statements differ between the
backends, the order and the checks do not. What follows here is what
becomes of the row, statement by statement, for a job put back to be
retried; a retry has no side effects on other rows.

Unlike the in-memory queue, whose run outcomes go through the manual
transitions, a transaction knows whether it records a run or a manual
transition, and re-evaluates dependencies only for the latter.
-/
import Hammerwork.Storage

namespace Hammerwork

/-- The new state a transition writes. -/
inductive Target where
  | completed
  | failed (error : String)
  | dead (error : String)
  | timedOut (error : String)
  | retry (retryAt : DateTime) (error : Option String) (timedOut : Bool)

namespace Target

/-- The terminal status the target writes; none for a retry. -/
def terminalStatus : Target → Option JobStatus
  | completed => some .completed
  | failed _ => some .failed
  | dead _ => some .dead
  | timedOut _ => some .timedOut
  | retry .. => none

/-- The target of a run outcome. -/
def ofOutcome : JobOutcome → Target
  | .completed => completed
  | .retry retryAt error isTimedOut => retry retryAt (some error) isTimedOut
  | .dead error => dead error
  | .timedOut error => timedOut error

/-- The target as written: the retry time of a run outcome, computed on
the worker's clock `wall`, is moved onto the database's. -/
def onDbClock (target : Target) (guard : Guard) (dbNow wall : DateTime) : Target :=
  match target, guard with
  | retry retryAt error isTimedOut, .run _ =>
      retry ((checkedAddSigned dbNow (retryAt - wall)).getD retryAt) error isTimedOut
  | target, _ => target

/-- The row after the statement that writes the target. -/
def write (target : Target) (now : DateTime) (job : Job) : Job :=
  match target with
  | completed => { job with status := .completed, completedAt := some now }
  | failed error =>
      { job with status := .failed, errorMessage := some error, failedAt := some now }
  | dead error =>
      { job with status := .dead, errorMessage := some error, failedAt := some now }
  | timedOut error =>
      { job with status := .timedOut, errorMessage := some error, timedOutAt := some now }
  | retry retryAt error isTimedOut =>
      { job with
        status := .pending
        scheduledAt := retryAt
        startedAt := none
        errorMessage := error.or job.errorMessage
        timedOutAt := (if isTimedOut then some now else none).or job.timedOutAt }

end Target

/-- What a transition did. -/
inductive TransitionResult where
  | applied (recorded : RecordedOutcome)
  | rejected (status : JobStatus)
  | notFound

/-- The transaction that puts a job back to be retried: its result and
the row it leaves. `states` are the statuses of the job's dependencies. -/
def retryInTx (row : Option Job) (guard : Guard) (retryAt : DateTime) (error : Option String)
    (timedOut : Bool) (states : JobId → Option JobStatus) (dbNow wall : DateTime) :
    Except HammerworkError (TransitionResult × Option Job) :=
  match row with
  | none => .ok (.notFound, none)
  | some job =>
      if !guard.admits job then
        .ok (.rejected job.status, some job)
      else do
        let job ← match guard with
          | .manual _ =>
              if job.dependsOn.isEmpty then
                pure job
              else do
                let status ← reevaluateDependencies job states "retried"
                pure { job with dependencyStatus := status }
          | .run _ => pure job
        let target := (Target.retry retryAt error timedOut).onDbClock guard dbNow wall
        return (.applied (.new .pending), some (target.write dbNow job))

/-- A run outcome is written to the row as it is. -/
theorem retryInTx_run {job run : Job} (hadmits : (Guard.run run).admits job = true)
    (retryAt : DateTime) (error : Option String) (timedOut : Bool)
    (states : JobId → Option JobStatus) (dbNow wall : DateTime) :
    retryInTx (some job) (.run run) retryAt error timedOut states dbNow wall
      = .ok (.applied (.new .pending), some ((Target.retry
          ((checkedAddSigned dbNow (retryAt - wall)).getD retryAt) error timedOut).write
          dbNow job)) := by
  unfold retryInTx
  dsimp only
  rw [hadmits]
  rfl

end Hammerwork
