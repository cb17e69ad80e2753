/-
Live updates for connected dashboard clients.

A poll combines queries of the database, taken one after the other: its
time, the jobs whose timestamps changed lately, the running jobs, the state
of the jobs that stopped running without leaving a timestamp, and the queue
statistics. It remembers the time of the last poll, what was pushed lately
and which jobs it saw running. Any query may fail; what the poll has
changed of its memory by then stays changed.

# Queries

The jobs table may change between any two queries, so each has its own. Rows
are typed and always decode; ids are compared as such. Hash sets and maps are
lists and tables in one iteration order. A push does not fail: it only hands
the message to each client's channel.
-/
import Hammerwork.Postgres

namespace Hammerwork

namespace Live

open Postgres (Jobs)

-- == queries

/-- A changed job as sent to clients. -/
structure JobUpdate where
  id : JobId
  queueName : String
  status : JobStatus
  priority : JobPriority
  attempts : Int
  updatedAt : DateTime
  deriving DecidableEq, Repr

/-- The timestamps that mark a change of state. -/
def changeColumns (job : Job) : List (Option DateTime) :=
  [some job.createdAt, job.startedAt, job.completedAt, job.failedAt, job.timedOutAt]

/-- Any change column after the cutoff. -/
def changedSince (since : DateTime) (job : Job) : Bool :=
  (changeColumns job).any fun column => column.any fun t => since < t

/-- The time of the latest change. -/
def latestChange (job : Job) : DateTime :=
  ((changeColumns job).filterMap id).foldl max job.createdAt

def jobChange (id : JobId) (job : Job) (changedAt : DateTime) : JobUpdate where
  id := id
  queueName := job.queueName
  status := job.status
  priority := job.priority
  attempts := job.attempts
  updatedAt := changedAt

/-- Jobs that changed after `since`, newest first, at most `limit`. -/
def recentJobChanges (jobs : Jobs) (since : DateTime) (limit : Nat) : List JobUpdate :=
  (((jobs.entries.filter fun e => changedSince since e.2).map fun e =>
    jobChange e.1 e.2 (latestChange e.2)).mergeSort
      fun a b => b.updatedAt ≤ a.updatedAt).take limit

/-- Started later, or not known when: the order of `started_at DESC`. -/
def startedLater (a b : Option DateTime) : Bool :=
  match a, b with
  | none, _ => true
  | some _, none => false
  | some a, some b => b ≤ a

/-- Jobs that are running, most recently started first, at most `limit`. -/
def runningJobs (jobs : Jobs) (limit : Nat) : List JobUpdate :=
  (((jobs.entries.filter fun e => e.2.status = .running).mergeSort fun a b =>
    startedLater a.2.startedAt b.2.startedAt).take limit).map fun e =>
      jobChange e.1 e.2 (e.2.startedAt.getD e.2.createdAt)

/-- The current state of the jobs that still exist. -/
def jobStates (jobs : Jobs) (ids : List JobId) : List JobUpdate :=
  (jobs.entries.filter fun e => e.1 ∈ ids).map fun e => jobChange e.1 e.2 (latestChange e.2)

-- == memory

/-- How far back each poll looks before the previous one. -/
def pollOverlap : TimeDelta := 5000000000

/-- What a job looked like when it was last pushed: its status, attempts and
change time. -/
abbrev SentState := JobStatus × Int × DateTime

def JobUpdate.state (job : JobUpdate) : SentState := (job.status, job.attempts, job.updatedAt)

/-- The pending, running, completed, failed, dead and timed out jobs of a
queue. -/
abbrev QueueCounts := Nat × Nat × Nat × Nat × Nat × Nat

structure LiveUpdates where
  maxJobs : Nat
  lastPoll : Option DateTime
  sent : Table JobId SentState
  queues : Table String QueueCounts
  running : List JobId

def LiveUpdates.new (maxJobs : Nat) : LiveUpdates where
  maxJobs := max maxJobs 1
  lastPoll := none
  sent := ∅
  queues := ∅
  running := []

/-- The queries of a poll. -/
inductive Query where
  | databaseNow
  | recentJobChanges
  | runningJobs
  | jobStates
  | queueStats
  deriving DecidableEq, Repr

/-- What a poll finds: the clients, the time and the jobs at each query, and
the query that fails, if any. -/
structure Reads where
  connections : Nat
  now : DateTime
  atChanges : Jobs
  atRunning : Jobs
  atStates : Jobs
  stats : List (String × QueueCounts)
  fails : Option Query

/-- What a poll pushes. -/
structure Pushed where
  jobs : List JobUpdate
  queues : List (String × QueueCounts)

namespace LiveUpdates

variable (live : LiveUpdates)

/-- Since when a poll reads changes. -/
def since (now : DateTime) : DateTime := live.lastPoll.getD now - pollOverlap

/-- The jobs tracked as running that are in neither list, sorted. -/
def leftRunning (changes running : List JobUpdate) : List JobId :=
  let seen := (changes ++ running).map (·.id)
  (live.running.filter (· ∉ seen)).mergeSort (· ≤ ·)

/-- The jobs among `left` that are still running, and the changes of those
that stopped, reported at `now`. -/
def stoppedRunning (left : List JobId) (states : List JobUpdate) (now : DateTime) :
    List JobId × List JobUpdate :=
  let states := states.filter fun job => job.id ∈ left
  ((states.filter (·.status = .running)).map (·.id),
    (states.filter (·.status ≠ .running)).map fun job => { job with updatedAt := now })

/-- The changes not pushed yet; each is remembered. -/
def keepFresh : List JobUpdate → Table JobId SentState → List JobUpdate × Table JobId SentState
  | [], sent => ([], sent)
  | job :: changes, sent =>
      let (fresh, sent') := keepFresh changes (sent.insert job.id job.state)
      if sent.lookup job.id = some job.state then
        (fresh, sent')
      else
        (job :: fresh, sent')

/-- The changes not pushed yet, oldest first; what was pushed before `since`
is forgotten. -/
def freshChanges (changes : List JobUpdate) (since : DateTime) : List JobUpdate × LiveUpdates :=
  let (fresh, sent) := keepFresh changes (live.sent.retain fun _ state => since < state.2.2)
  (fresh.mergeSort fun a b => a.updatedAt ≤ b.updatedAt, { live with sent := sent })

/-- The queues of which other counts were pushed last; each is remembered. -/
def keepChanged : List (String × QueueCounts) → Table String QueueCounts →
    List (String × QueueCounts) × Table String QueueCounts
  | [], queues => ([], queues)
  | (name, counts) :: stats, queues =>
      let (changed, queues') := keepChanged stats (queues.insert name counts)
      if queues.lookup name = some counts then
        (changed, queues')
      else
        ((name, counts) :: changed, queues')

/-- The queues whose statistics changed since they were last pushed. -/
def changedQueues (stats : List (String × QueueCounts)) :
    List (String × QueueCounts) × LiveUpdates :=
  let (changed, queues) :=
    keepChanged stats (live.queues.retain fun name _ => name ∈ stats.map (·.1))
  (changed, { live with queues := queues })

/-- The changes a poll reads. -/
def changes (r : Reads) : List JobUpdate :=
  recentJobChanges r.atChanges (live.since r.now) live.maxJobs

/-- The tracked jobs a poll does not see. -/
def left (r : Reads) : List JobId :=
  live.leftRunning (live.changes r) (runningJobs r.atRunning live.maxJobs)

/-- Those whose state a poll reads. -/
def checked (r : Reads) : List JobId := (live.left r).take live.maxJobs

/-- Those that are still running, and the changes of those that stopped. -/
def stopped (r : Reads) : List JobId × List JobUpdate :=
  stoppedRunning (live.checked r)
    (if (live.checked r).isEmpty then [] else jobStates r.atStates (live.checked r)) r.now

/-- The jobs that are tracked after a poll. -/
def tracked (r : Reads) : List JobId :=
  ((((runningJobs r.atRunning live.maxJobs ++ live.changes r).filter
      (·.status = .running)).map (·.id))
    ++ (live.stopped r).1 ++ (live.left r).drop live.maxJobs).dedup

/-- Push the changes since the previous poll, if there are clients. -/
def pollOnce (r : Reads) : Except Query Pushed × LiveUpdates :=
  if r.connections = 0 then
    (.ok { jobs := [], queues := [] },
      { live with lastPoll := none, sent := ∅, queues := ∅, running := [] })
  else if r.fails = some .databaseNow then
    (.error .databaseNow, live)
  else if r.fails = some .recentJobChanges then
    (.error .recentJobChanges, live)
  else if r.fails = some .runningJobs then
    (.error .runningJobs, live)
  else if !(live.checked r).isEmpty ∧ r.fails = some .jobStates then
    (.error .jobStates, live)
  else
    -- the jobs that stopped are no longer tracked, whatever comes after
    let next := { live with running := live.tracked r }
    if r.fails = some .queueStats then
      (.error .queueStats, next)
    else
      let since := live.since r.now
      let (jobs, next) := { next with lastPoll := some r.now }.freshChanges
        (live.changes r ++ (live.stopped r).2) since
      let (queues, next) := next.changedQueues r.stats
      (.ok { jobs, queues }, next)

end LiveUpdates

end Live

end Hammerwork
