/-
Job statistics: the events of job runs, and what is counted from them.

A collector keeps the events in the order of their timestamps; one that
comes late is put where it belongs. Statistics over a time window look
at the events in it once, in that order, and remember of each job the
event before: a `Retried` right after a `TimedOut` is of a run that is
counted already, and a job whose last event is `Started` is running.

# Who records what

The workers are modelled as the runs of jobs they are processing. A run
reads the clock when it begins and records `Started`; when its outcome
is in the queue it builds the events of its ending, one after another,
each stamped with the time at which it is built. Building an event and
recording it are two steps, and steps of different runs interleave. The
next run of a job may begin as soon as the outcome of the one before is
in the queue.

Averages, rates and the distribution over priorities are floating-point
numbers and not modelled.
-/
import Hammerwork.Lifecycle

namespace Hammerwork

-- == events

inductive JobEventType where
  | started
  | completed
  | failed
  | retried
  | dead
  | timedOut
  deriving DecidableEq, Repr

/-- Something that happened to a run of a job. -/
structure JobEvent where
  jobId : JobId
  queueName : String
  eventType : JobEventType
  priority : JobPriority
  processingTimeMs : Option Nat
  errorMessage : Option String
  timestamp : DateTime
  deriving DecidableEq

structure StatsConfig where
  /-- The most events kept; the oldest are dropped first. -/
  maxEvents : Nat := 100000
  maxEventAgeSecs : Nat := 3600
  /-- Whether processing times are kept. -/
  collectTiming : Bool := true

/-- `now - age`, or the beginning of time. -/
def cutoffBefore (now : DateTime) (age : Duration) : DateTime :=
  if (age : Int) ≤ maxTimeDelta then (checkedAddSigned now (-age)).getD minUtc else minUtc

-- == the buffer

namespace StatsConfig

/-- The oldest timestamp an event may have and still be kept. -/
def retentionCutoff (config : StatsConfig) (now : DateTime) : DateTime :=
  cutoffBefore now (config.maxEventAgeSecs * 1000000000)

/-- An event as it is kept. -/
def kept (config : StatsConfig) (event : JobEvent) : JobEvent :=
  if config.collectTiming then event else { event with processingTimeMs := none }

/-- Record an event: put it behind those that are not later, then drop
what is expired and what is too much. -/
def recordEvent (config : StatsConfig) (now : DateTime) (event : JobEvent)
    (events : List JobEvent) : List JobEvent :=
  let event := config.kept event
  let cutoff := config.retentionCutoff now
  if event.timestamp < cutoff then
    events
  else
    let events :=
      if events.getLast?.all (·.timestamp ≤ event.timestamp) then
        events ++ [event]
      else
        events.takeWhile (·.timestamp ≤ event.timestamp) ++ event
          :: events.dropWhile (·.timestamp ≤ event.timestamp)
    let events := events.dropWhile (·.timestamp < cutoff)
    events.drop (events.length - config.maxEvents)

end StatsConfig

-- == statistics

structure PriorityTotals where
  events : Nat := 0
  timedEvents : Nat := 0
  processingTimeMs : Nat := 0

/-- The number of events of each priority; both are the same number. -/
structure PriorityStats where
  jobCounts : Table JobPriority Nat
  recentThroughput : Table JobPriority Nat

structure JobStatistics where
  totalProcessed : Nat := 0
  completed : Nat := 0
  failed : Nat := 0
  dead : Nat := 0
  timedOut : Nat := 0
  running : Nat := 0
  minProcessingTimeMs : Nat := 0
  maxProcessingTimeMs : Nat := 0
  priorityStats : Option PriorityStats := none
  timeWindow : Duration := 60000000000
  calculatedAt : DateTime

/-- The totals of the events of a window, in one pass. -/
structure StatsAccumulator where
  events : Nat := 0
  started : Nat := 0
  completed : Nat := 0
  failed : Nat := 0
  retried : Nat := 0
  dead : Nat := 0
  timedOut : Nat := 0
  timedEvents : Nat := 0
  processingTimeMs : Nat := 0
  minProcessingTimeMs : Option Nat := none
  maxProcessingTimeMs : Nat := 0
  priorities : Table JobPriority PriorityTotals := ∅
  /-- The latest event of each job seen so far. -/
  lastEvent : Table JobId JobEventType := ∅

namespace StatsAccumulator

/-- The time an event took, if it tells, added to the totals. -/
def addTime (totals : StatsAccumulator) (priority : JobPriority) (time : Option Nat) :
    StatsAccumulator :=
  match time with
  | none => totals
  | some time =>
      { totals with
        priorities := totals.priorities.upsert priority {} fun p =>
          { p with
            timedEvents := p.timedEvents + 1
            processingTimeMs := p.processingTimeMs + time }
        timedEvents := totals.timedEvents + 1
        processingTimeMs := totals.processingTimeMs + time
        minProcessingTimeMs := some ((totals.minProcessingTimeMs.map (min · time)).getD time)
        maxProcessingTimeMs := max totals.maxProcessingTimeMs time }

/-- One more of the events of a type. -/
def bump (totals : StatsAccumulator) : JobEventType → StatsAccumulator
  | .started => { totals with started := totals.started + 1 }
  | .completed => { totals with completed := totals.completed + 1 }
  | .failed => { totals with failed := totals.failed + 1 }
  | .retried => { totals with retried := totals.retried + 1 }
  | .dead => { totals with dead := totals.dead + 1 }
  | .timedOut => { totals with timedOut := totals.timedOut + 1 }

/-- Count an event, unless it is the `Retried` of a run that its
`TimedOut` has counted. -/
def add (totals : StatsAccumulator) (event : JobEvent) : StatsAccumulator :=
  let previous := totals.lastEvent.lookup event.jobId
  let totals := { totals with
    lastEvent := totals.lastEvent.insert event.jobId event.eventType }
  if event.eventType = .retried ∧ previous = some .timedOut then
    totals
  else
    let totals := { totals with events := totals.events + 1 }
    let totals := totals.bump event.eventType
    let totals := { totals with
      priorities := totals.priorities.upsert event.priority {} fun p =>
        { p with events := p.events + 1 } }
    totals.addTime event.priority event.processingTimeMs

/-- The number of events of each priority. -/
def eventCounts (totals : StatsAccumulator) : Table JobPriority Nat :=
  totals.priorities.entries.foldl (fun counts e => counts.insert e.1 e.2.events) ∅

/-- The statistics of a window. A run is counted when it finishes. -/
def finish (totals : StatsAccumulator) (window : Duration) (now : DateTime) : JobStatistics :=
  if totals.events = 0 then
    { timeWindow := window, calculatedAt := now }
  else
    { totalProcessed := totals.events - totals.started
      completed := totals.completed
      failed := totals.failed
      dead := totals.dead
      timedOut := totals.timedOut
      running := (totals.lastEvent.values.filter (· = .started)).length
      minProcessingTimeMs := totals.minProcessingTimeMs.getD 0
      maxProcessingTimeMs := totals.maxProcessingTimeMs
      priorityStats := some
        { jobCounts := totals.eventCounts
          recentThroughput := totals.eventCounts }
      timeWindow := window
      calculatedAt := now }

end StatsAccumulator
/-- The totals of the last `window` of events that `included` accepts. -/
def aggregateWindow (events : List JobEvent) (window : Duration) (now : DateTime)
    (included : JobEvent → Bool) : StatsAccumulator :=
  ((events.dropWhile (·.timestamp < cutoffBefore now window)).filter included).foldl
    StatsAccumulator.add {}

def getSystemStatistics (events : List JobEvent) (window : Duration) (now : DateTime) :
    JobStatistics :=
  (aggregateWindow events window now fun _ => true).finish window now

-- == the workers

/-- An event of a run of `job`. -/
def jobEvent (job : Job) (eventType : JobEventType) (processingTimeMs : Option Nat)
    (errorMessage : Option String) (timestamp : DateTime) : JobEvent where
  jobId := job.id
  queueName := job.queueName
  eventType := eventType
  priority := job.priority
  processingTimeMs := processingTimeMs
  errorMessage := errorMessage
  timestamp := timestamp

/-- The events a worker records after the outcome of a run: their types,
times and errors. `ms` is the time the handler took, or had. -/
def JobOutcome.endingEvents (ms : Nat) :
    JobOutcome → List (JobEventType × Option Nat × Option String)
  | .completed => [(.completed, some ms, none)]
  | .retry _ error false => [(.retried, none, some error)]
  | .retry _ error true => [(.timedOut, some ms, some error), (.retried, none, some error)]
  | .dead error => [(.dead, none, some error)]
  | .timedOut error => [(.timedOut, some ms, some error)]

/-- A run of a job, as a worker processes it. -/
structure TrackedRun where
  job : Job
  /-- The outcome, once it is in the queue, and the time of the handler. -/
  outcome : Option (JobOutcome × Nat)
  /-- The events recorded, in the order in which they were. -/
  recorded : List JobEvent
  /-- An event built and not yet recorded. -/
  built : Option JobEvent

/-- All events of a run, as far as they are known. -/
def TrackedRun.script (run : TrackedRun) : List (JobEventType × Option Nat × Option String) :=
  (.started, none, none) :: (run.outcome.map fun o => o.1.endingEvents o.2).getD []

namespace Statistics

/-- The collector's buffer and the runs, in the order in which they
began. -/
structure State where
  clock : DateTime
  events : List JobEvent
  runs : List TrackedRun

inductive Event where
  /-- Time passes. -/
  | tick (now : DateTime)
  /-- A worker begins to process a job it claimed. -/
  | start (job : Job)
  /-- The outcome of a run is recorded in the queue. -/
  | conclude (index : Nat) (outcome : JobOutcome) (ms : Nat)
  /-- A worker builds the next event of a run. -/
  | build (index : Nat)
  /-- And records it. -/
  | record (index : Nat)

/-- No run has begun. -/
def State.initial (clock : DateTime) : State := { clock := clock, events := [], runs := [] }

/-- One step of the workers; `none` where it cannot be taken. -/
def State.next (config : StatsConfig) (s : State) : Event → Option State
  | .tick now => some { s with clock := now }
  | .start job =>
      if s.runs.all fun run => run.job.id ≠ job.id || run.outcome.isSome then
        some { s with runs := s.runs ++
          [{ job := job, outcome := none, recorded := [],
             built := some (jobEvent job .started none none s.clock) }] }
      else none
  | .conclude index outcome ms =>
      match s.runs[index]? with
      | none => none
      | some run =>
          if run.outcome.isNone ∧ run.built.isNone then
            some { s with runs := s.runs.set index { run with outcome := some (outcome, ms) } }
          else none
  | .build index =>
      match s.runs[index]? with
      | none => none
      | some run =>
          match run.built, run.script[run.recorded.length]? with
          | none, some (eventType, time, error) =>
              let event := jobEvent run.job eventType time error s.clock
              some { s with runs := s.runs.set index { run with built := some event } }
          | _, _ => none
  | .record index =>
      match s.runs[index]? with
      | none => none
      | some run =>
          match run.built with
          | none => none
          | some event =>
              let recorded := run.recorded ++ [config.kept event]
              some { s with
                events := config.recordEvent s.clock event s.events
                runs := s.runs.set index { run with recorded := recorded, built := none } }

end Statistics

end Hammerwork
