/-
Webhook deliveries: the attempts to deliver an event, and the statistics.

Every event a webhook's listener hands over is delivered by a task of its own,
with the configuration the webhook had then. A task attempts, takes the lock of
the statistics to count the attempt, and decides whether to attempt again; at
the end it takes the lock once more to count the event. `Delivery.section` is
what a task does next, whatever other tasks do in between.

Averages are exact. How long a task waits before it attempts again is left
out, as is the semaphore for its requests: an attempt takes any time.
-/
import Hammerwork.Time
import Hammerwork.Lib.Table
import Mathlib.Algebra.Field.Rat

namespace Hammerwork

namespace Webhooks

-- == attempts

/-- Of the retry policy, what decides whether to attempt again. -/
structure RetryPolicy where
  maxAttempts : Nat
  retryOnStatusCodes : List Nat
  deriving DecidableEq, Repr

def RetryPolicy.shouldRetryStatus (policy : RetryPolicy) (statusCode : Nat) : Bool :=
  policy.retryOnStatusCodes.contains statusCode

/-- How an attempt ends: the endpoint answers with a status, the request fails
(or there is none: the payload cannot be built), or it takes too long. -/
inductive Answer where
  | status (code : Nat)
  | error
  | timeout
  deriving DecidableEq, Repr

/-- Of the result of an attempt, what is counted. -/
structure WebhookDelivery where
  statusCode : Option Nat
  attemptedAt : DateTime
  durationMs : Option Nat
  attemptNumber : Nat
  success : Bool
  deriving DecidableEq, Repr

/-- A status from 200 to 299. -/
def isSuccess (code : Nat) : Bool := 200 ≤ code && code < 300

def attemptWebhookDelivery (now : DateTime) (durationMs : Nat) (attemptNumber : Nat) :
    Answer → WebhookDelivery
  | .status code => ⟨some code, now, some durationMs, attemptNumber, isSuccess code⟩
  | .error => ⟨none, now, some durationMs, attemptNumber, false⟩
  | .timeout => ⟨some 408, now, some durationMs, attemptNumber, false⟩

/-- Whether a failed attempt may be repeated. -/
def shouldRetry (policy : RetryPolicy) (delivery : WebhookDelivery) : Bool :=
  (delivery.statusCode.map policy.shouldRetryStatus).getD true

-- == statistics

structure WebhookStats where
  totalAttempts : Nat
  failedAttempts : Nat
  successfulDeliveries : Nat
  failedDeliveries : Nat
  successRate : ℚ
  avgResponseTimeMs : ℚ
  lastSuccessAt : Option DateTime
  lastFailureAt : Option DateTime
  droppedEvents : Nat
  deriving DecidableEq

/-- The statistics of a webhook with no deliveries yet. -/
def WebhookStats.empty : WebhookStats := ⟨0, 0, 0, 0, 0, 0, none, none, 0⟩

variable (stats : WebhookStats)

/-- Count an attempt. -/
def updateWebhookStats (delivery : WebhookDelivery) : WebhookStats :=
  let stats := { stats with totalAttempts := stats.totalAttempts + 1 }
  let stats :=
    if delivery.success then
      { stats with lastSuccessAt := some delivery.attemptedAt }
    else
      { stats with
        failedAttempts := stats.failedAttempts + 1
        lastFailureAt := some delivery.attemptedAt }
  match delivery.durationMs with
  | none => stats
  | some duration =>
      let totalTime := stats.avgResponseTimeMs * (stats.totalAttempts - 1 : Nat)
      { stats with avgResponseTimeMs := (totalTime + duration) / stats.totalAttempts }

/-- Count an event whose delivery has finished. -/
def recordDeliveryOutcome (success : Bool) : WebhookStats :=
  let stats :=
    if success then
      { stats with successfulDeliveries := stats.successfulDeliveries + 1 }
    else
      { stats with failedDeliveries := stats.failedDeliveries + 1 }
  { stats with
    successRate :=
      stats.successfulDeliveries / (stats.successfulDeliveries + stats.failedDeliveries : Nat) }

-- == deliveries

/-- Where a delivery is. -/
inductive Pc where
  /-- Its attempt is under way. -/
  | attempting
  /-- The attempt is to be counted. -/
  | updating (delivery : WebhookDelivery)
  /-- The event is to be counted. -/
  | recording (success : Bool)
  | finished (success : Bool)
  deriving DecidableEq, Repr

/-- The delivery of an event, with the attempts counted so far. -/
structure Delivery where
  webhookId : Nat
  retryPolicy : RetryPolicy
  attempt : Nat
  pc : Pc
  attempts : List WebhookDelivery
  deriving DecidableEq, Repr

namespace Delivery

/-- The delivery of an event that was just handed over. -/
def new (webhookId : Nat) (retryPolicy : RetryPolicy) : Delivery where
  webhookId := webhookId
  retryPolicy := retryPolicy
  attempt := 1
  pc := .attempting
  attempts := []

variable (d : Delivery)

/-- At least one. -/
def maxAttempts : Nat := max d.retryPolicy.maxAttempts 1

/-- Where a delivery goes on after an attempt: to the next, or to the end. -/
def afterAttempt (delivery : WebhookDelivery) : Delivery :=
  if delivery.success then
    { d with pc := .recording true }
  else if d.attempt < d.maxAttempts ∧ shouldRetry d.retryPolicy delivery then
    { d with attempt := d.attempt + 1, pc := .attempting }
  else
    { d with pc := .recording false }

end Delivery

/-- What a delivery does next; an attempt ends with an answer. -/
def Delivery.section (d : Delivery) (now : DateTime) (durationMs : Nat) (answer : Answer)
    (stats : Table Nat WebhookStats) : Option (Table Nat WebhookStats × Delivery) :=
  match d.pc with
  | .attempting =>
      some (stats,
        { d with pc := .updating (attemptWebhookDelivery now durationMs d.attempt answer) })
  | .updating delivery =>
      some (stats.modify d.webhookId fun stats => updateWebhookStats stats delivery,
        { d.afterAttempt delivery with attempts := d.attempts ++ [delivery] })
  | .recording success =>
      some (stats.modify d.webhookId fun stats => recordDeliveryOutcome stats success,
        { d with pc := .finished success })
  | .finished _ => none

-- == system

/-- The statistics of every webhook, and the deliveries. -/
structure State where
  stats : Table Nat WebhookStats
  deliveries : List Delivery

inductive Event where
  /-- A webhook is added, or replaced. -/
  | add (id : Nat)
  | remove (id : Nat)
  /-- The listener of a webhook missed events. -/
  | lagged (id skipped : Nat)
  /-- The listener of a webhook hands an event over. -/
  | handOver (id : Nat) (retryPolicy : RetryPolicy)
  /-- A delivery takes its next section. -/
  | own (d : Nat) (now : DateTime) (durationMs : Nat) (answer : Answer)
  deriving DecidableEq, Repr

def State.next (s : State) : Event → Option State
  | .add id => some { s with stats := s.stats.insert id .empty }
  | .remove id => some { s with stats := s.stats.erase id }
  | .lagged id skipped =>
      some
        { s with
          stats := s.stats.modify id fun stats =>
            { stats with droppedEvents := stats.droppedEvents + skipped } }
  | .handOver id retryPolicy =>
      some { s with deliveries := s.deliveries ++ [.new id retryPolicy] }
  | .own d now durationMs answer =>
      (s.deliveries[d]?).bind fun delivery =>
        (delivery.section now durationMs answer s.stats).map fun next =>
          ⟨next.1, s.deliveries.set d next.2⟩

end Webhooks

end Hammerwork
