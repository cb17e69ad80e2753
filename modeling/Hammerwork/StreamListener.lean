/-
The listener of a stream: a buffer, a deadline and slots.

The listener buffers the events it keeps, and hands the buffer over to a batch
task once it holds `batch_size` or `max_events` events, or its oldest event has
waited long enough. A batch takes a slot for each of its events, of `max_events`
slots, and gives them back when it has finished; until there are as many, the
listener waits.

A step of the listener ends where it awaits the configuration, an event or
slots. A deadline that is not representable makes the listener panic. The
events received and the batches handed over are kept for the statements.
-/
import Hammerwork.Events

namespace Hammerwork

namespace StreamListener

-- == configuration

/-- A time of the monotonic clock, in nanoseconds. -/
abbrev Instant := Nat

/-- The last representable instant: `i64::MAX` seconds and the nanoseconds of
another. -/
def maxInstant : Instant := 9223372036854775807 * 1000000000 + 999999999

def u32Max : Nat := 4294967295

/-- The most permits a semaphore can have. -/
def maxPermits : Nat := 2305843009213693951

def clampPermits (configured : Nat) : Nat := min (max configured 1) maxPermits

/-- Of the configurations of the stream and its manager, what the listener
reads; only `enabled` changes. -/
structure StreamConfig where
  filter : EventFilter
  batchSize : Nat
  maxEvents : Nat
  maxBufferTimeSecs : Nat
  globalFlushIntervalSecs : Nat

variable (config : StreamConfig)

/-- How long an event may wait in the buffer. -/
def StreamConfig.flushAfter : Duration :=
  min config.maxBufferTimeSecs config.globalFlushIntervalSecs * 1000000000

/-- How many events may be in batches at once. -/
def StreamConfig.limit : Nat := clampPermits config.maxEvents

-- == listener

/-- Where the listener is. -/
inductive Pc where
  /-- It reads the configuration. -/
  | looping
  /-- It waits for an event, or for the buffer to be due. -/
  | waiting
  /-- It received an event, and reads whether the stream is enabled. -/
  | checking (event : JobLifecycleEvent)
  /-- It took the buffer, and waits for so many slots. -/
  | acquiring (batch : List JobLifecycleEvent) (wanted : Nat)
  | stopped
  | panicked

/-- A batch being delivered, and the slots it holds. -/
structure Batch where
  events : List JobLifecycleEvent
  slots : Nat

structure State where
  enabled : Bool
  pc : Pc
  buffer : List JobLifecycleEvent
  /-- When the oldest buffered event arrived. -/
  bufferedSince : Option Instant
  availablePermits : Nat
  inFlight : List Batch
  /-- The events received, and whether the stream was enabled then. -/
  received : List (JobLifecycleEvent × Bool)
  handedOver : List (List JobLifecycleEvent)
  /-- The batch that waited for slots when the listener was stopped. -/
  lost : List JobLifecycleEvent

/-- A listener that just started. -/
def State.new (enabled : Bool) : State where
  enabled := enabled
  pc := .looping
  buffer := []
  bufferedSince := none
  availablePermits := config.limit
  inFlight := []
  received := []
  handedOver := []
  lost := []

/-- The buffer is to be flushed: it is full, or its deadline has passed. -/
def shouldFlush (now : Instant) (s : State) : Bool :=
  config.batchSize ≤ s.buffer.length || config.limit ≤ s.buffer.length ||
    s.bufferedSince.any fun since => since + config.flushAfter ≤ now

/-- The slots a batch asks for. -/
def wantedSlots (events : List JobLifecycleEvent) : Nat :=
  min (min events.length config.limit) u32Max

inductive Event where
  | setEnabled (enabled : Bool)
  /-- The listener reads the configuration. -/
  | loop (now : Instant)
  | receive (event : JobLifecycleEvent)
  /-- It missed events. -/
  | lagged (skipped : Nat)
  /-- The buffer is due to be flushed. -/
  | flushDue
  /-- The listener reads whether the stream is enabled. -/
  | check (now : Instant)
  /-- It gets the slots it waits for. -/
  | acquire
  /-- A batch finishes. -/
  | finish (batch : Nat)
  /-- The listener is told to stop, or the channel is closed. -/
  | stop

/-- The deadline of the buffer is representable, if it has one. -/
def representable (s : State) : Bool :=
  s.bufferedSince.all fun since => since + config.flushAfter ≤ maxInstant

def State.next (manager : EventManager) (s : State) (e : Event) : Option State :=
  match e, s.pc with
  | .setEnabled enabled, _ => some { s with enabled := enabled }
  | .loop now, .looping =>
      if !representable config s then
        some { s with pc := .panicked, buffer := [] }
      else if shouldFlush config now s && !s.buffer.isEmpty then
        some
          { s with
            pc := .acquiring s.buffer (wantedSlots config s.buffer)
            buffer := []
            bufferedSince := none }
      else
        some { s with pc := .waiting }
  | .receive event, .waiting => some { s with pc := .checking event }
  | .lagged _, .waiting => some { s with pc := .looping }
  | .flushDue, .waiting => some { s with pc := .looping }
  | .check now, .checking event =>
      let received := s.received ++ [(event, s.enabled)]
      match manager.received s.enabled config.filter event with
      | none => some { s with pc := .looping, received := received }
      | some event =>
          some
            { s with
              pc := .looping
              buffer := s.buffer ++ [event]
              bufferedSince := if s.buffer.isEmpty then some now else s.bufferedSince
              received := received }
  | .acquire, .acquiring batch wanted =>
      if wanted ≤ s.availablePermits then
        some
          { s with
            pc := .looping
            availablePermits := s.availablePermits - wanted
            inFlight := s.inFlight ++ [⟨batch, wanted⟩]
            handedOver := s.handedOver ++ [batch] }
      else
        none
  | .finish i, _ =>
      (s.inFlight[i]?).map fun batch =>
        { s with
          availablePermits := s.availablePermits + batch.slots
          inFlight := s.inFlight.eraseIdx i }
  | .stop, .waiting => some { s with pc := .stopped }
  | .stop, .acquiring batch _ => some { s with pc := .stopped, lost := batch }
  | _, _ => none

end StreamListener

end Hammerwork
