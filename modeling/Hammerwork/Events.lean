/-
Lifecycle events and who gets to see them.

The event manager broadcasts one event to all its subscribers. Each
subscriber has a filter, and asks for payloads or does not. A payload is
attached when anyone asks for it, limited in size once when the event is
published, and taken off again by the listener of a subscriber that did
not ask.

The text of a payload, as `serde_json` writes it, is a parameter: a JSON
value always has one, and only its length is used.
-/
import Hammerwork.Job
import Hammerwork.Lib.Table

namespace Hammerwork

/-- The identity of an event. -/
abbrev EventId := Nat

/-- Types of job lifecycle events. -/
inductive JobLifecycleEventType where
  | enqueued
  | started
  | completed
  | failed
  | retried
  | dead
  | timedOut
  | cancelled
  | archived
  | restored
  deriving DecidableEq, Repr

/-- Error information for failed jobs. -/
structure JobError where
  message : String
  errorType : Option String
  details : Option String
  retryAttempt : Option Nat

/-- A job lifecycle event; its metadata is looked up by key. -/
structure JobLifecycleEvent where
  eventId : EventId
  jobId : JobId
  queueName : String
  eventType : JobLifecycleEventType
  priority : JobPriority
  timestamp : DateTime
  processingTimeMs : Option Nat
  error : Option JobError
  payload : Option Json
  metadata : String → Option String

namespace JobLifecycleEvent

/-- A new event without further data. -/
def new (eventId : EventId) (jobId : JobId) (queueName : String)
    (eventType : JobLifecycleEventType) (priority : JobPriority) (timestamp : DateTime) :
    JobLifecycleEvent where
  eventId := eventId
  jobId := jobId
  queueName := queueName
  eventType := eventType
  priority := priority
  timestamp := timestamp
  processingTimeMs := none
  error := none
  payload := none
  metadata _ := none

/-- The event with a metadata entry put in. -/
def insertMetadata (event : JobLifecycleEvent) (key value : String) : JobLifecycleEvent :=
  { event with metadata := fun k => if k = key then some value else event.metadata k }

end JobLifecycleEvent

-- == filters

/-- What a subscriber wants to receive; empty lists match everything. -/
structure EventFilter where
  eventTypes : List JobLifecycleEventType
  queueNames : List String
  priorities : List JobPriority
  minProcessingTimeMs : Option Nat
  maxProcessingTimeMs : Option Nat
  metadataFilters : Table String String
  includePayload : Bool

namespace EventFilter

/-- The filter that matches every event and asks for no payloads. -/
def new : EventFilter where
  eventTypes := []
  queueNames := []
  priorities := []
  minProcessingTimeMs := none
  maxProcessingTimeMs := none
  metadataFilters := ∅
  includePayload := false

/-- Whether a processing time lies in the filter's range: an event
without one lies in no range. -/
def inRange (filter : EventFilter) (processingTimeMs : Option Nat) : Bool :=
  if filter.minProcessingTimeMs.isSome || filter.maxProcessingTimeMs.isSome then
    match processingTimeMs with
    | none => false
    | some processingTime =>
        filter.minProcessingTimeMs.all (· ≤ processingTime) &&
          filter.maxProcessingTimeMs.all (processingTime ≤ ·)
  else
    true

/-- Whether an event matches the filter. -/
def matchesEvent (filter : EventFilter) (event : JobLifecycleEvent) : Bool :=
  (filter.eventTypes.isEmpty || filter.eventTypes.contains event.eventType) &&
    (filter.queueNames.isEmpty || filter.queueNames.contains event.queueName) &&
    (filter.priorities.isEmpty || filter.priorities.contains event.priority) &&
    filter.inRange event.processingTimeMs &&
    filter.metadataFilters.entries.all fun entry => event.metadata entry.1 = some entry.2

/-- A filter looks at no payload. -/
@[simp] theorem matchesEvent_payload (filter : EventFilter) (event : JobLifecycleEvent)
    (payload : Option Json) :
    filter.matchesEvent { event with payload := payload } = filter.matchesEvent event := rfl

end EventFilter

-- == manager

/-- The identity of a subscription. -/
abbrev SubscriptionId := Nat

/-- Configuration for event publishing. -/
structure EventConfig where
  maxBufferSize : Nat
  includePayloadDefault : Bool
  maxPayloadSizeBytes : Nat

/-- The default configuration. -/
def EventConfig.default : EventConfig where
  maxBufferSize := 10000
  includePayloadDefault := false
  maxPayloadSizeBytes := 64 * 1024

/-- The event manager: its configuration, and the filters of the active
subscriptions. -/
structure EventManager where
  config : EventConfig
  subscriptions : Table SubscriptionId EventFilter

namespace EventManager

/-- Whether any subscriber receives job payloads. -/
def payloadWanted (manager : EventManager) : Bool :=
  manager.config.includePayloadDefault ||
    manager.subscriptions.values.any fun filter => filter.includePayload

/-- Whether a subscriber with the filter receives event payloads. -/
def deliversPayload (manager : EventManager) (filter : EventFilter) : Bool :=
  manager.config.includePayloadDefault || filter.includePayload

/-- The metadata entry of an event whose payload was too large. -/
def truncatedMessage (payloadSize limit : Nat) : String :=
  s!"Payload size {payloadSize} exceeded limit {limit}"

/-- The event that goes to all subscribers when `event` is published;
none if publishing is disabled. -/
def publishEvent (serialized : Json → String) (manager : EventManager)
    (event : JobLifecycleEvent) : Option JobLifecycleEvent :=
  if manager.config.maxBufferSize = 0 then
    none
  else if event.payload.isSome && !manager.payloadWanted then
    some { event with payload := none }
  else
    match event.payload with
    | none => some event
    | some payload =>
        let payloadSize := (serialized payload).utf8ByteSize
        if payloadSize > manager.config.maxPayloadSizeBytes then
          some ({ event with payload := none }.insertMetadata "payload_truncated"
            (truncatedMessage payloadSize manager.config.maxPayloadSizeBytes))
        else
          some event

/-- What a listener makes of a received event: the event it hands over,
unless its subscriber is disabled or the filter rejects it. -/
def received (manager : EventManager) (enabled : Bool) (filter : EventFilter)
    (event : JobLifecycleEvent) : Option JobLifecycleEvent :=
  if !enabled || !filter.matchesEvent event then
    none
  else if !manager.deliversPayload filter then
    some { event with payload := none }
  else
    some event

/-- What a subscriber hands over of an event that is published. -/
def handsOver (serialized : Json → String) (manager : EventManager) (enabled : Bool)
    (filter : EventFilter) (event : JobLifecycleEvent) : Option JobLifecycleEvent :=
  (manager.publishEvent serialized event).bind (manager.received enabled filter)

end EventManager

/-- An event of a completed job. -/
def plainEvent : JobLifecycleEvent := .new 0 1 "mail" .completed .normal 0

end Hammerwork
