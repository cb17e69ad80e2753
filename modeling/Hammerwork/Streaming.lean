/-
Streams: a batch of events and its delivery.

A batch goes to the stream's processor as a whole. The processor answers with
a result for each event, or with an error; it may leave events out, repeat
them or name events it was not given. What it did not acknowledge is sent
again, until the attempts are used up or the manager shuts down.

What happens in an attempt is a `Response`: a slot to send was acquired, the
processor answered, and the manager shut down before the next attempt. How
long a retry waits is left out. The batches sent are returned as well, for the
statements.
-/
import Hammerwork.Events
import Mathlib.Data.Finset.Card

namespace Hammerwork

namespace Streaming

-- == batches

/-- An event prepared for a stream. -/
structure StreamedEvent where
  event : JobLifecycleEvent
  serializedData : List UInt8

/-- Of the result for one event, what is counted. -/
structure StreamDelivery where
  eventId : EventId
  success : Bool
  errorMessage : Option String
  durationMs : Option Nat
  deriving DecidableEq, Repr

/-- What became of a batch. -/
structure BatchOutcome where
  /-- Events the processor acknowledged. -/
  delivered : Nat
  /-- Events that could not be prepared or were not delivered. -/
  failed : Nat
  deliveryTimeMsTotal : Nat
  lastError : Option String
  deriving DecidableEq, Repr

def BatchOutcome.default : BatchOutcome := ⟨0, 0, 0, none⟩

/-- What happens in an attempt. -/
structure Response where
  acquired : Bool
  result : Except String (List StreamDelivery)
  elapsedMs : Nat
  /-- The manager shuts down before the next attempt. -/
  shutdown : Bool

def eventIds (pending : List StreamedEvent) : List EventId := pending.map fun e => e.event.eventId

/-- The results by event: of several for one event, the last. -/
def byEvent (deliveries : List StreamDelivery) : Table EventId StreamDelivery :=
  deliveries.foldl (fun results delivery => results.insert delivery.eventId delivery) ∅

/-- Count the result for one event. -/
def countResult (results : Table EventId StreamDelivery) (elapsedMs : Nat)
    (counted : BatchOutcome × Finset EventId) (eventId : EventId) :
    BatchOutcome × Finset EventId :=
  let (outcome, failed) := counted
  match results.lookup eventId with
  | some delivery =>
      if delivery.success then
        ({ outcome with
            delivered := outcome.delivered + 1
            deliveryTimeMsTotal :=
              outcome.deliveryTimeMsTotal + delivery.durationMs.getD elapsedMs },
          failed)
      else
        ({ outcome with lastError := some (delivery.errorMessage.getD "delivery failed") },
          insert eventId failed)
  | none =>
      ({ outcome with lastError := some "processor returned no delivery result" },
        insert eventId failed)

/-- Count what the processor answered: the events that failed. -/
def countResponse (ids : List EventId) (response : Response) (outcome : BatchOutcome) :
    BatchOutcome × Finset EventId :=
  match response.result with
  | .ok deliveries =>
      ids.foldl (countResult (byEvent deliveries) response.elapsedMs) (outcome, ∅)
  | .error e => ({ outcome with lastError := some e }, ids.toFinset)

/-- What an attempt comes to: the outcome so far, the batch it sent, if any,
and the events to send again. -/
structure Attempt where
  outcome : BatchOutcome
  batches : List (List StreamedEvent)
  retried : Option (List StreamedEvent)

/-- One attempt to send what is pending. -/
def attemptOnce (maxAttempts attempt : Nat) (response : Response) (pending : List StreamedEvent)
    (outcome : BatchOutcome) : Attempt :=
  let ids := eventIds pending
  if !response.acquired then
    ⟨{ outcome with failed := outcome.failed + ids.length }, [], none⟩
  else
    let (outcome, failedIds) := countResponse ids response outcome
    if failedIds = ∅ then
      ⟨outcome, [pending], none⟩
    else if maxAttempts ≤ attempt then
      ⟨{ outcome with failed := outcome.failed + failedIds.card }, [pending], none⟩
    else
      let retried := pending.filter fun e => e.event.eventId ∈ failedIds
      if response.shutdown then
        let next := attempt + 1
        let error := outcome.lastError.getD "unknown error"
        ⟨{ outcome with
            failed := outcome.failed + retried.length
            lastError := some
              s!"stream manager shut down before retry {next} of {maxAttempts}; last error: {error}" },
          [pending], none⟩
      else
        ⟨outcome, [pending], some retried⟩

/-- Attempt to send what is pending, and up to `left` more times. -/
def attemptDelivery (maxAttempts : Nat) (responses : Nat → Response) :
    (left attempt : Nat) → List StreamedEvent → BatchOutcome →
      BatchOutcome × List (List StreamedEvent)
  | 0, attempt, pending, outcome =>
      let once := attemptOnce maxAttempts attempt (responses attempt) pending outcome
      (once.outcome, once.batches)
  | left + 1, attempt, pending, outcome =>
      let once := attemptOnce maxAttempts attempt (responses attempt) pending outcome
      match once.retried with
      | none => (once.outcome, once.batches)
      | some retried =>
          let rest := attemptDelivery maxAttempts responses left (attempt + 1) retried once.outcome
          (rest.1, once.batches ++ rest.2)

/-- Send a batch until its events are delivered, the attempts run out or the
manager shuts down: the outcome, and the batches sent. -/
def deliverWithRetries (policyMaxAttempts : Nat) (responses : Nat → Response)
    (pending : List StreamedEvent) (outcome : BatchOutcome) :
    BatchOutcome × List (List StreamedEvent) :=
  let maxAttempts := max policyMaxAttempts 1
  attemptDelivery maxAttempts responses (maxAttempts - 1) 1 pending outcome

/-- Prepare an event; the stream's format decides how it is serialized. -/
def prepareStreamedEvent (serialize : JobLifecycleEvent → Except String (List UInt8))
    (event : JobLifecycleEvent) : Except String StreamedEvent := do
  let serializedData ← serialize event
  return ⟨event, serializedData⟩

/-- Prepare the events of a batch; those that cannot be prepared have
failed. -/
def prepareBatch (serialize : JobLifecycleEvent → Except String (List UInt8)) :
    List JobLifecycleEvent → BatchOutcome → BatchOutcome × List StreamedEvent
  | [], outcome => (outcome, [])
  | event :: events, outcome =>
      match prepareStreamedEvent serialize event with
      | .ok streamed =>
          let (outcome, rest) := prepareBatch serialize events outcome
          (outcome, streamed :: rest)
      | .error e =>
          prepareBatch serialize events
            { outcome with
              failed := outcome.failed + 1
              lastError := some s!"failed to prepare event for streaming: {e}" }

/-- Deliver a batch: what is recorded of it, if the stream still has a
processor. -/
def processEventBatch (serialize : JobLifecycleEvent → Except String (List UInt8))
    (policyMaxAttempts : Nat) (processor : Option (Nat → Response))
    (events : List JobLifecycleEvent) : Option BatchOutcome :=
  match processor with
  | none => none
  | some responses =>
      let (outcome, streamedEvents) := prepareBatch serialize events .default
      if streamedEvents.isEmpty then
        some outcome
      else
        some (deliverWithRetries policyMaxAttempts responses streamedEvents outcome).1

end Streaming

end Hammerwork
