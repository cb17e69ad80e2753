/-
The leases of a claimed batch in time.

The worker renews the leases of the jobs that wait for their turn: a keeper
sleeps for an interval, sends a heartbeat for each of them, and sleeps
again. A job that starts has its lease written once more, unless it starts
as soon as it was claimed, and from then on its own heartbeats renew it.

The batch is the state machine of claimed batches, with a clock. Its steps
take no time; time passes only while the worker waits, and no further than
to the next timer. The calls that renew leases succeed. The lease of each
job is known by when it was last written.
-/
import Hammerwork.Batch

namespace Hammerwork

namespace BatchRun

-- == intervals

/-- The shortest time between two heartbeats. -/
def minHeartbeatInterval : Duration := 100 * 1000000

/-- How often held and running jobs renew their leases: a third of the
lease. -/
def heldRenewalInterval (lease : Duration) : Duration := max (lease / 3) minHeartbeatInterval

/-- When the next heartbeat is due, after the last one or the start of the
loop at `now`. With a zero lease there is none. -/
def everyHeartbeat (lease : Duration) (now : DateTime) : Option DateTime :=
  if lease = 0 then none else some (now + heldRenewalInterval lease)

-- == state

/-- Where the keeper of the waiting jobs' leases is. -/
inductive Keeper where
  /-- The worker has not waited yet. -/
  | unpolled
  | sleeping (due : Option DateTime)
  /-- It renews the leases of this round. -/
  | beating

/-- A batch under way, in time. -/
structure Timed where
  batch : State
  now : DateTime
  keeper : Keeper
  /-- When each waiting job's lease was last written, as the worker knows. -/
  renewed : JobId → Option DateTime
  /-- When the next heartbeat of a running job is due. -/
  beatDue : JobId → Option DateTime
  /-- When the lease of each claimed job was last written. -/
  written : JobId → DateTime

/-- What happens to a batch in time. -/
inductive Action where
  | batch (e : Event)
  /-- The keeper is polled for the first time. -/
  | poll
  /-- The keeper's round is over. -/
  | rest
  /-- The heartbeat of the task `i`. -/
  | beat (i : Nat)
  | tick (now : DateTime)

namespace Timed

/-- A batch of jobs that were claimed just now. -/
def claimed (now : DateTime) (batch : State) : Timed where
  batch := batch
  now := now
  keeper := .unpolled
  renewed id := if batch.queued.any (·.id = id) then some now else none
  beatDue _ := none
  written _ := now

-- == steps

/-- The job of the task `i`. -/
def taskJob (s : Timed) (i : Nat) : Option JobId :=
  s.batch.running[i]?.map fun run => run.1.id

/-- The job whose lease an action writes. -/
def writes (s : Timed) : Action → Option JobId
  | .batch (.heartbeat .yes) => s.batch.round.head?.map (·.id)
  | .batch (.task i (.recorded .yes)) => s.taskJob i
  | .batch (.task i (.held (.renewed .yes))) => s.taskJob i
  | .batch (.held (.renewed .yes)) =>
      match s.batch.pc with
      | .handing (job :: _) _ _ _ => some job.id
      | _ => none
  | .beat i => s.taskJob i
  | _ => none

/-- Whether a waiting job's lease was renewed recently enough for it to run
at once. -/
def recent (s : Timed) (lease : Duration) (id : JobId) : Bool :=
  (s.renewed id).any fun renewed => s.now - renewed < heldRenewalInterval lease

/-- The step of the batch can happen now. The leases of waiting and of
starting jobs are renewed without fail; a job that has started meanwhile is
not running the run that the keeper knows. -/
def permits (s : Timed) (lease : Duration) : Event → Bool
  | .start recent => s.batch.queued.head?.all fun job => s.recent lease job.id = recent
  | .beat =>
      match s.keeper with
      | .sleeping due => due.any (· ≤ s.now)
      | _ => false
  | .heartbeat answer =>
      match s.keeper, answer with
      | .beating, .yes => true
      | .beating, .no => s.batch.round.head?.all fun run =>
          s.batch.waiting.all fun waiting => waiting.id ≠ run.id
      | _, _ => false
  | .task _ (.recorded answer) => answer = .yes
  | _ => true

/-- The running job `id` sleeps until its next heartbeat. -/
def sleeps (s : Timed) (lease : Duration) (id : JobId) : Timed :=
  { s with beatDue := fun k => if k = id then everyHeartbeat lease s.now else s.beatDue k }

/-- A step of the batch is noted by the loops that renew leases. -/
def noted (s : Timed) (lease : Duration) (batch : State) : Event → Timed
  | .start _ =>
      { s with
        batch := batch
        renewed := fun id => if s.batch.queued.head?.any (·.id = id) then none else s.renewed id }
  | .paused true => { s with batch := batch, renewed := fun _ => none }
  | .beat => { s with batch := batch, keeper := .beating }
  | .heartbeat .yes =>
      { s with
        batch := batch
        renewed := fun id =>
          if s.batch.round.head?.any (·.id = id) ∧ s.batch.waiting.any (·.id = id) then some s.now
          else s.renewed id }
  | .task i (.recorded _) | .task i .polled =>
      match s.taskJob i with
      | some id => { s with batch := batch }.sleeps lease id
      | none => { s with batch := batch }
  | _ => { s with batch := batch }

/-- The worker waits for its timers and tasks. -/
def waiting (s : Timed) : Bool :=
  match s.batch.pc, s.keeper with
  | .selecting, .sleeping _ => true
  | .draining, _ => true
  | _, _ => false

/-- No timer is due before `now`: not the keeper's, if it is polled, nor
that of a running job. -/
def quietUntil (s : Timed) (now : DateTime) : Bool :=
  (match s.batch.pc, s.keeper with
    | .selecting, .sleeping due => due.all (now ≤ ·)
    | _, _ => true) &&
    s.batch.running.all fun run => run.2 = .processing && (s.beatDue run.1.id).all (now ≤ ·)

/-- What an action does, but for the lease it writes. -/
def advance (s : Timed) (lease : Duration) (concurrency : Nat) : Action → Option Timed
  | .batch e =>
      if s.permits lease e then
        (s.batch.next concurrency e).map fun batch => s.noted lease batch e
      else
        none
  | .poll =>
      match s.batch.pc, s.keeper with
      | .selecting, .unpolled => some { s with keeper := .sleeping (everyHeartbeat lease s.now) }
      | _, _ => none
  | .rest =>
      match s.batch.pc, s.keeper, s.batch.round with
      | .selecting, .beating, [] => some { s with keeper := .sleeping (everyHeartbeat lease s.now) }
      | _, _, _ => none
  | .beat i =>
      match s.batch.pc, s.batch.running[i]? with
      | .selecting, some (job, .processing) | .draining, some (job, .processing) =>
          if (s.beatDue job.id).any (· ≤ s.now) then some (s.sleeps lease job.id) else none
      | _, _ => none
  | .tick now =>
      if s.waiting ∧ s.now < now ∧ s.quietUntil now then some { s with now := now } else none

/-- An action writes its lease, and does what else it does. -/
def next (s : Timed) (lease : Duration) (concurrency : Nat) (a : Action) : Option Timed :=
  { s with
    written := fun id => if s.writes a = some id then s.now else s.written id
  }.advance lease concurrency a

end Timed

end BatchRun

end Hammerwork
