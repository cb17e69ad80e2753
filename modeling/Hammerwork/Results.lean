/-
Job results, and the worker that stores them.

A job says where the results of its runs are kept: in the database, in
the memory of the process, or nowhere. The store in memory is bounded: an
entry expires at its time to live, and a full store evicts the entry that
expires soonest.

A worker stores the result of a run before it records the run's outcome,
in two calls; between them it prepares the children the job spawns, and
other parties move. The runs here are those of one job, which share its
result configuration. Hooks, events, statistics and logging are left out.
-/
import Hammerwork.Worker
import Hammerwork.Machine

namespace Hammerwork

-- == results in memory

/-- Soonest expiry first, then oldest insertion first. -/
abbrev EvictionKey := DateTime × Nat

/-- The eviction order. -/
def EvictionKey.before (key key' : EvictionKey) : Bool :=
  decide (key.1 < key'.1) || decide (key.1 = key'.1) && decide (key.2 < key'.2)

/-- A result kept in memory. -/
structure MemoryResultStore.Entry where
  value : Json
  expiresAt : Option DateTime
  key : EvictionKey

/-- The results kept in memory: the entries, and their keys in eviction
order. -/
structure MemoryResultStore where
  capacity : Nat
  entries : Table JobId MemoryResultStore.Entry
  order : List (EvictionKey × JobId)
  nextSeq : Nat

namespace MemoryResultStore

/-- A store that keeps at most `capacity` results. -/
def withCapacity (capacity : Nat) : MemoryResultStore := ⟨capacity, ∅, [], 0⟩

/-- Put a key in its place in the eviction order. -/
def insertOrder (key : EvictionKey) (jobId : JobId) :
    List (EvictionKey × JobId) → List (EvictionKey × JobId)
  | [] => [(key, jobId)]
  | e :: order =>
      if key = e.1 then (key, jobId) :: order
      else if key.before e.1 then (key, jobId) :: e :: order
      else e :: insertOrder key jobId order

/-- Remove the entry of a job; returns whether there was one. -/
def remove (m : MemoryResultStore) (jobId : JobId) : MemoryResultStore × Bool :=
  match m.entries.lookup jobId with
  | none => (m, false)
  | some entry =>
      ({ m with
          entries := m.entries.erase jobId
          order := m.order.filter (·.1 ≠ entry.key) }, true)

/-- Pop entries off the front of the order while `p` holds of a key and
the entries left; returns how many. -/
def popWhile (p : EvictionKey → Table JobId Entry → Bool) :
    List (EvictionKey × JobId) → Table JobId Entry →
      List (EvictionKey × JobId) × Table JobId Entry × Nat
  | [], entries => ([], entries, 0)
  | e :: order, entries =>
      if p e.1 entries then
        let (order, entries, removed) := popWhile p order (entries.erase e.2)
        (order, entries, removed + 1)
      else (e :: order, entries, 0)

/-- Remove the entries that have expired at `now`; those without a time
to live sort last and never expire. -/
def pruneExpired (m : MemoryResultStore) (now : DateTime) : MemoryResultStore × Nat :=
  let (order, entries, removed) := popWhile
    (fun key _ => !(decide (key.1 = maxUtc) || decide (key.1 > now))) m.order m.entries
  ({ m with entries := entries, order := order }, removed)

/-- Evict entries until there is room for one more. -/
def makeRoom (m : MemoryResultStore) : MemoryResultStore :=
  let (order, entries, _) := popWhile
    (fun _ entries => decide (m.capacity ≤ entries.entries.length)) m.order m.entries
  { m with entries := entries, order := order }

/-- Store a result, replacing any earlier one. -/
def storeAt (m : MemoryResultStore) (now : DateTime) (jobId : JobId) (value : Json)
    (expiresAt : Option DateTime) : MemoryResultStore :=
  if m.capacity = 0 then m
  else
    let m := (m.remove jobId).1
    if expiresAt.any (· ≤ now) then m
    else
      let m := (m.pruneExpired now).1.makeRoom
      let key := (expiresAt.getD maxUtc, m.nextSeq)
      { m with
        entries := m.entries.insert jobId ⟨value, expiresAt, key⟩
        order := insertOrder key jobId m.order
        nextSeq := (m.nextSeq + 1) % 2 ^ 64 }

/-- The result of a job, unless it has expired; an expired one is
removed. -/
def getAt (m : MemoryResultStore) (now : DateTime) (jobId : JobId) :
    MemoryResultStore × Option Json :=
  match m.entries.lookup jobId with
  | none => (m, none)
  | some entry =>
      if entry.expiresAt.any (· ≤ now) then ((m.remove jobId).1, none)
      else (m, some entry.value)

/-- The calls of the store. -/
inductive Op where
  | store (now : DateTime) (jobId : JobId) (value : Json) (expiresAt : Option DateTime)
  | get (now : DateTime) (jobId : JobId)
  | remove (jobId : JobId)
  | cleanupExpired (now : DateTime)

/-- The store after a call. -/
def Op.apply (m : MemoryResultStore) : Op → MemoryResultStore
  | store now jobId value expiresAt => m.storeAt now jobId value expiresAt
  | get now jobId => (m.getAt now jobId).1
  | remove jobId => (m.remove jobId).1
  | cleanupExpired now => (m.pruneExpired now).1

end MemoryResultStore

-- == where they go

/-- Where a job's results are kept. -/
inductive ResultStorage where
  | database
  | memory
  | none
  deriving DecidableEq, Repr

/-- How a job's results are kept. -/
structure ResultConfig where
  storage : ResultStorage
  ttl : Option Duration

/-- When a result stored at `now` expires. -/
def ResultConfig.expiresAt (config : ResultConfig) (now : DateTime) : Option DateTime :=
  config.ttl.map (saturatingAddTo now)

/-- What is kept of what a run returned. -/
def ResultConfig.keeps (config : ResultConfig) (returned : Option Json) : Option Json :=
  match config.storage with
  | .none => Option.none
  | _ => returned

/-- Store the result a run returned, if it returned one; a failure to
store it is only logged. -/
def storeResult (env : Env) (config : ResultConfig) (jobId : JobId) (returned : Option Json)
    (now : DateTime) (queue : TestStorage) (memory : MemoryResultStore) :
    TestStorage × MemoryResultStore :=
  match returned, config.storage with
  | some data, .database =>
      ((Op.storeJobResult jobId data (config.expiresAt now)).apply env queue |>.2, memory)
  | some data, .memory =>
      (queue, memory.storeAt now jobId data (config.expiresAt now))
  | _, _ => (queue, memory)

-- == a run's progress

/-- How the handler of a run ended; a successful one may return data. -/
inductive HandlerResult where
  | ok (data : Option Json)
  | err (error : String)
  | timeout (error : String)

/-- Where a worker is in processing a run. -/
inductive WorkerRun.Phase where
  | working
  | storing
  | spawning
  | completing (children : Option (List Job))
  | failing (ended : Worker.HandlerEnd)
  | finished

/-- A worker's run of a job: its copy of the job, and what the handler
returned. -/
structure WorkerRun where
  worker : Worker
  job : Job
  returned : Option Json
  phase : WorkerRun.Phase

namespace WorkerRun

/-- What a worker's next step depends on: how the handler ended, what
preparing the children gave, and the time. A worker may also stop in the
middle of a run. -/
inductive Input where
  | handled (result : HandlerResult)
  | store (now : DateTime)
  | prepareSpawn (prepared : Except String (Option (List Job)))
  | record (now wall : DateTime)
  | stop

/-- The call that records an outcome, or a completion with children. -/
def recordCall (run : WorkerRun) (now wall : DateTime) : Op :=
  match run.phase with
  | .completing (some children) => .completeJobRunWithChildren run.job children wall
  | .failing ended => .finishJobRun run.job (run.worker.outcome run.job now ended) wall
  | _ => .finishJobRun run.job .completed wall

/-- The phase after recording: a run whose children could not be
enqueued fails. -/
def recorded (display : HammerworkError → String) (run : WorkerRun) (reply : Reply) : Phase :=
  match run.phase, reply with
  | .completing (some _), .error e => .failing (.failure (display e))
  | _, _ => .finished

/-- A worker's next step. -/
def next (env : Env) (display : HammerworkError → String) (config : ResultConfig) (input : Input)
    (run : WorkerRun) (queue : TestStorage) (memory : MemoryResultStore) :
    WorkerRun × TestStorage × MemoryResultStore :=
  match run.phase, input with
  | .working, .handled (.ok data) =>
      ({ run with returned := data, phase := .storing }, queue, memory)
  | .working, .handled (.err error) =>
      ({ run with phase := .failing (.failure error) }, queue, memory)
  | .working, .handled (.timeout error) =>
      ({ run with phase := .failing (.timeout error) }, queue, memory)
  | .storing, .store now =>
      let (queue, memory) := storeResult env config run.job.id run.returned now queue memory
      ({ run with phase := .spawning }, queue, memory)
  | .spawning, .prepareSpawn (.ok children) =>
      ({ run with phase := .completing children }, queue, memory)
  | .spawning, .prepareSpawn (.error error) =>
      ({ run with phase := .failing (.failure error) }, queue, memory)
  | .completing _, .record now wall | .failing _, .record now wall =>
      let (reply, queue) := (run.recordCall now wall).apply env queue
      ({ run with phase := run.recorded display reply }, queue, memory)
  | _, .stop => ({ run with phase := .finished }, queue, memory)
  | _, _ => (run, queue, memory)

end WorkerRun

-- == the system

namespace ResultSystem

/-- The runs of one job, the queue, and the results in memory. -/
structure State where
  runs : List WorkerRun
  queue : TestStorage
  memory : MemoryResultStore

/-- Who moves: a worker that begins a run, a run, another party at the
queue, or one at the memory store. -/
inductive Move where
  | begin (worker : Worker) (job : Job)
  | own (w : Nat) (input : WorkerRun.Input)
  | queue (e : Event)
  | memory (op : MemoryResultStore.Op)

/-- Other parties store no result of the job. -/
def StoresResult (k : JobId) : Move → Prop
  | .queue (.call (.storeJobResult jobId ..)) => jobId = k
  | .memory (.store _ jobId ..) => jobId = k
  | _ => False

variable (env : Env) (display : HammerworkError → String) (config : ResultConfig) (k : JobId)

/-- One step of the system. -/
inductive Step : State → Move → State → Prop
  | begin (sys : State) (worker : Worker) (job : Job) : job.id = k →
      Step sys (.begin worker job)
        { sys with runs := sys.runs ++ [⟨worker, job, none, .working⟩] }
  | own {sys : State} {w : Nat} {run run' : WorkerRun} {queue : TestStorage}
      {memory : MemoryResultStore} (input : WorkerRun.Input) : sys.runs[w]? = some run →
      run.next env display config input sys.queue sys.memory = (run', queue, memory) →
      Step sys (.own w input) ⟨sys.runs.set w run', queue, memory⟩
  | queue {sys : State} {e : Event} {queue : TestStorage} :
      Hammerwork.Step env sys.queue e queue → ¬ StoresResult k (.queue e) →
      Step sys (.queue e) { sys with queue := queue }
  | memory {sys : State} (op : MemoryResultStore.Op) : ¬ StoresResult k (.memory op) →
      Step sys (.memory op) { sys with memory := op.apply sys.memory }

/-- The result kept of the job, and when it expires. -/
def stored (sys : State) : Option (Json × Option DateTime) :=
  match config.storage with
  | .database => sys.queue.jobResults.lookup k
  | .memory => (sys.memory.entries.lookup k).map fun entry => (entry.value, entry.expiresAt)
  | .none => none

end ResultSystem

end Hammerwork
