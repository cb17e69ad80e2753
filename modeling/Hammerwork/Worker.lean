/-
A worker: what it reports of a run.

A worker runs the jobs it has dequeued and reports how each run ended. It
decides from its own copy of the job whether a run that failed, or ran
out of time, is to be retried: the claim has counted the run already, so
it is retried while the copy's attempts are below the limit. The delays
of the retry strategies are floating-point computations; they are a
parameter here.
-/
import Hammerwork.Lifecycle

namespace Hammerwork

-- == attempts

/-- How many attempts a job gets: its own number, lowered by the
worker's cap when one is set. -/
def effectiveAttemptLimit (jobMaxAttempts : Int) (workerCap : Option Int) : Int :=
  match workerCap with
  | some cap => min jobMaxAttempts cap
  | none => jobMaxAttempts

/-- The longest retry delay, 365 days. -/
def maxRetryDelay : Duration := 365 * 24 * 60 * 60 * 1000000000

/-- The instant a retry delay after `now`. -/
def retryAtFromDelay (now : DateTime) (retryDelay : Duration) : DateTime :=
  (checkedAddSigned now (min retryDelay maxRetryDelay : Nat)).getD maxUtc

/-- The delay a strategy gives before a retry, by its number. -/
abbrev CalculateDelay := RetryStrategy → Nat → Duration

/-- The settings of a worker that decide how it reports a run. -/
structure Worker where
  attemptCap : Option Int
  defaultRetryStrategy : Option RetryStrategy
  retryDelay : Duration
  calculateDelay : CalculateDelay

namespace Worker

variable (worker : Worker)

/-- The number of attempts `job` gets on this worker. -/
def attemptLimit (job : Job) : Int := effectiveAttemptLimit job.maxAttempts worker.attemptCap

/-- Whether a run of `job` that fails is to be retried. -/
def attemptsLeft (job : Job) : Bool := decide (job.attempts < worker.attemptLimit job)

/-- When a failed run of `job` is to be retried. -/
def retryAtFor (job : Job) (now : DateTime) : DateTime :=
  let retry := (max job.attempts 1).toNat
  let retryDelay := match job.retryStrategy, worker.defaultRetryStrategy with
    | some strategy, _ => worker.calculateDelay strategy retry
    | none, some strategy => worker.calculateDelay strategy retry
    | none, none => worker.retryDelay
  retryAtFromDelay now retryDelay

-- == outcomes

/-- How the handler of a run ended: with a result, with an error, or out
of time. -/
inductive HandlerEnd where
  | success
  | failure (error : String)
  | timeout (error : String)

/-- The outcome a worker records for a run of `job`, decided at `now`. -/
def outcome (job : Job) (now : DateTime) : HandlerEnd → JobOutcome
  | .success => .completed
  | .failure error =>
      if worker.attemptsLeft job then .retry (worker.retryAtFor job now) error false
      else .dead error
  | .timeout error =>
      if worker.attemptsLeft job then .retry (worker.retryAtFor job now) error true
      else .timedOut error

end Worker

/-- A worker never gives a job more attempts than it asks for. -/
theorem effectiveAttemptLimit_le (jobMaxAttempts : Int) (workerCap : Option Int) :
    effectiveAttemptLimit jobMaxAttempts workerCap ≤ jobMaxAttempts := by
  unfold effectiveAttemptLimit
  cases workerCap with
  | none => exact le_refl _
  | some cap => exact min_le_left _ _

/-- A run is reported as to be retried only if its copy of the job has
attempts left. -/
theorem Worker.attempts_lt_of_retry {worker : Worker} {job : Job} {now retryAt : DateTime}
    {ended : HandlerEnd} {error : String} {timedOut : Bool}
    (h : worker.outcome job now ended = .retry retryAt error timedOut) :
    job.attempts < job.maxAttempts := by
  have hleft : worker.attemptsLeft job = true := by
    unfold outcome at h
    cases ended with
    | success => cases h
    | failure error' =>
        dsimp only at h
        split at h
        · assumption
        · cases h
    | timeout error' =>
        dsimp only at h
        split at h
        · assumption
        · cases h
  have hlt : job.attempts < effectiveAttemptLimit job.maxAttempts worker.attemptCap :=
    of_decide_eq_true hleft
  exact lt_of_lt_of_le hlt (effectiveAttemptLimit_le _ _)

end Hammerwork
