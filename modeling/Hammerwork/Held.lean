/-
Failing a held job.

A worker that claims a batch of jobs holds those it has not started. When
the fail-fast batch of a held job fails, the worker fails the job itself:
it renews the lease, which confirms that it still holds the run, and then
fails the job by its id. These are two calls of the queue; the other
parties' calls may come between them.
-/
import Hammerwork.Machine

namespace Hammerwork

/-- The error of a held job whose batch failed. -/
def batchFailedBeforeStartMessage : String :=
  "Batch failed (fail-fast mode) before this claimed job started"

/-- Where a worker is in failing a held job. Once it is done, it has
refunded the job's rate limit token or returns an error. -/
inductive FailHeldJob where
  | renew
  | fail
  | refunded
  | failed (error : HammerworkError)

namespace FailHeldJob

open TestQueue

/-- The worker's next call, for the copy `job` of the run it holds. -/
def next (job : Job) (lease : Duration) (s : TestStorage) :
    FailHeldJob → FailHeldJob × TestStorage
  | renew =>
      match commit s (heartbeatJob s job lease) with
      | (.ok true, s) => (fail, s)
      | (.ok false, s) => (refunded, s)
      | (.error _, s) => (fail, s)
  | fail =>
      match commit s (failJob s job.id batchFailedBeforeStartMessage) with
      | (.ok (), s) => (refunded, s)
      | (.error (.invalidJobTransition ..), s) => (refunded, s)
      | (.error (.jobNotFound _), s) => (refunded, s)
      | (.error e, s) => (failed e, s)
  | done => (done, s)

/-- The queue, and where the worker is. -/
structure System where
  call : FailHeldJob
  queue : TestStorage

/-- Who moves: the worker that fails the job, or another party. -/
inductive Move where
  | own
  | other (e : Event)

/-- One step of the system. -/
inductive Step (env : Env) (job : Job) (lease : Duration) : System → Move → System → Prop
  | own (sys : System) :
      Step env job lease sys .own
        ⟨(next job lease sys.queue sys.call).1, (next job lease sys.queue sys.call).2⟩
  | other {sys : System} {e : Event} {queue : TestStorage} :
      Hammerwork.Step env sys.queue e queue →
      Step env job lease sys (.other e) ⟨sys.call, queue⟩

end FailHeldJob

end Hammerwork
