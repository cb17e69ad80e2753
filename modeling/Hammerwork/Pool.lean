/-
A worker pool's supervisor.

The supervisor starts a task for each worker and then waits for what
comes first: the shutdown signal, a new number of workers desired by the
autoscaler, or the end of a task. A task that ends is restarted after a
delay unless it was retired; a scale-up reuses the slots of retired tasks
that have ended.

The four vectors of the supervisor (senders, templates, retired,
finished) have one entry for each slot and are one list of slots here.
Tasks are told apart by the order in which they were spawned, and a task
owns the receiving end of the channel its slot's sender sends to. What a
worker does in its task is left open: a task may end at any time, in any
way. The maintenance tasks and the metrics are left out.
-/
import Hammerwork.Time
import Hammerwork.Lib.Run

namespace Hammerwork

namespace Pool

-- == the state

/-- Tasks, by the order in which they were spawned. -/
abbrev TaskId := Nat

/-- How a task ended. -/
inductive TaskEnd where
  | stopped
  | failed
  | panicked
  deriving DecidableEq, Repr

/-- A worker task: its slot, and its end of the shutdown channel, which
holds one message. `told` is whether a stop message was ever put into the
channel, and `joined` whether the supervisor has seen the task's end. -/
structure Task (W : Type) where
  index : Nat
  worker : W
  delay : Option Duration
  mailbox : Bool
  told : Bool
  ended : Option TaskEnd
  joined : Bool

/-- Put a stop message into a task's channel, if it is open and has
room. -/
def Task.trySend {W : Type} (task : Task W) : Task W :=
  if task.ended.isSome || task.mailbox then task else { task with mailbox := true, told := true }

/-- A slot of the pool. -/
structure Slot (W : Type) where
  template : W
  sender : TaskId
  retired : Bool
  finished : Bool

/-- The autoscaler's channel: the count not received yet, and whether the
autoscaler is gone. -/
structure Desired where
  pending : Option Nat
  closed : Bool

/-- A supervisor and its tasks. -/
structure Supervisor (W : Type) where
  slots : List (Slot W)
  tasks : List (Task W)
  template : Option W
  desired : Option Desired
  signal : Bool
  shuttingDown : Bool
  returned : Bool

namespace Supervisor

variable {W : Type} (queueName : W → String)

/-- How long a stopped worker's restart is delayed. -/
def workerRestartDelay : Duration := 1000000000

-- == operations

/-- Spawn a worker task with its own shutdown channel. -/
def spawnWorker (s : Supervisor W) (index : Nat) (worker : W) (delay : Option Duration) :
    Supervisor W × TaskId :=
  ({ s with tasks := s.tasks ++ [⟨index, worker, delay, false, false, none, false⟩] },
    s.tasks.length)

/-- Send the task of a sender a stop message. -/
def trySend (s : Supervisor W) (sender : TaskId) : Supervisor W :=
  { s with tasks := s.tasks.modify sender Task.trySend }

/-- Send every task in a slot a stop message. -/
def stopAll (s : Supervisor W) : Supervisor W :=
  s.slots.foldl (fun s slot => s.trySend slot.sender) s

/-- The slots of workers of the template's queue that are not retired. -/
def active (s : Supervisor W) (template : W) : List Nat :=
  (List.range s.slots.length).filter fun i =>
    (s.slots[i]?).any fun slot =>
      !slot.retired && decide (queueName slot.template = queueName template)

/-- Start a worker from the template, in the first slot that can be
reused or else in a new one. -/
def startOne (s : Supervisor W) (template : W) : Supervisor W :=
  let index := (s.slots.findIdx? fun slot => slot.retired && slot.finished).getD s.slots.length
  let (s, tx) := s.spawnWorker index template none
  if index = s.slots.length then
    { s with slots := s.slots ++ [⟨template, tx, false, false⟩] }
  else
    { s with slots := s.slots.set index ⟨template, tx, false, false⟩ }

/-- Start `n` workers from the template. -/
def startMany (template : W) : Nat → Supervisor W → Supervisor W
  | 0, s => s
  | n + 1, s => startMany template n (s.startOne template)

/-- Retire a slot. -/
def retire (s : Supervisor W) (index : Nat) : Supervisor W :=
  match s.slots[index]? with
  | none => s
  | some slot =>
      { s with slots := s.slots.set index { slot with retired := true } }.trySend slot.sender

/-- Apply a desired count of workers of the template's queue. -/
def scale (s : Supervisor W) (template : W) (desired : Nat) : Supervisor W :=
  let active := s.active queueName template
  if desired > active.length then
    startMany template (desired - active.length) s
  else
    (active.reverse.take (active.length - desired)).foldl retire s

/-- The end of the task in a slot: a retired one has finished, another
one is restarted unless the pool is shutting down. -/
def taskEnded (s : Supervisor W) (index : Nat) (e : TaskEnd) : Supervisor W :=
  match s.slots[index]? with
  | none => s
  | some slot =>
      if e = .stopped && s.shuttingDown then s
      else if slot.retired then
        { s with slots := s.slots.set index { slot with finished := true } }
      else if s.shuttingDown then s
      else
        let (s, tx) := s.spawnWorker index slot.template (some workerRestartDelay)
        { s with slots := s.slots.set index { slot with sender := tx } }

/-- The supervisor as it starts: with the workers, the template of the
autoscaler if there is one, and the signal as it is then. -/
def start (workers : List W) (template : Option W) (signal : Bool) : Supervisor W :=
  let s : Supervisor W :=
    { slots := workers.zipIdx.map fun e => ⟨e.1, e.2, false, false⟩
      tasks := workers.zipIdx.map fun e => ⟨e.2, e.1, none, false, false, none, false⟩
      template := template
      desired := template.map fun _ => ⟨none, false⟩
      signal := signal
      shuttingDown := signal
      returned := false }
  if signal then s.stopAll else s

-- == moves

/-- What happens next: the autoscaler publishes a count or goes away, the
pool asks for a shutdown (or is dropped), a task takes a stop message out
of its channel or ends, or the supervisor takes a branch of its loop or
leaves the loop. -/
inductive Move where
  | publish (desired : Nat)
  | stopScaling
  | request
  | receive (task : TaskId)
  | finish (task : TaskId) (e : TaskEnd)
  | takeSignal
  | takeDesired
  | takeJoined (task : TaskId)
  | leave

/-- One step, where the move is possible. -/
def next (s : Supervisor W) : Move → Option (Supervisor W)
  | .publish desired =>
      some { s with desired := s.desired.map fun d => { d with pending := some desired } }
  | .stopScaling => some { s with desired := s.desired.map fun d => { d with closed := true } }
  | .request => some { s with signal := true }
  | .receive t =>
      match s.tasks[t]? with
      | none => none
      | some task =>
          if task.mailbox && task.ended.isNone then
            some { s with tasks := s.tasks.set t { task with mailbox := false } }
          else none
  | .finish t e =>
      match s.tasks[t]? with
      | none => none
      | some task =>
          if task.ended.isNone then
            some { s with tasks := s.tasks.set t { task with ended := some e } }
          else none
  | .takeSignal =>
      if s.signal && !s.shuttingDown && !s.returned then
        some { s with shuttingDown := true }.stopAll
      else none
  | .takeDesired =>
      if s.shuttingDown || s.returned then none
      else
        match s.desired with
        | none => none
        | some d =>
            match d.pending, s.template with
            | some desired, some template =>
                some ({ s with desired := some { d with pending := none } }.scale queueName
                  template desired)
            | some _, none => some { s with desired := none }
            | none, _ => if d.closed then some { s with desired := none } else none
  | .takeJoined t =>
      match s.tasks[t]? with
      | none => none
      | some task =>
          match task.ended with
          | none => none
          | some e =>
              if task.joined || s.returned then none
              else
                some ({ s with tasks := s.tasks.set t { task with joined := true } }.taskEnded
                  task.index e)
  | .leave =>
      if s.tasks.all (·.joined) && !s.returned then some { s with returned := true } else none

/-- One step of the system. -/
def Step (s : Supervisor W) (move : Move) (s' : Supervisor W) : Prop :=
  s.next queueName move = some s'

end Supervisor

end Pool

end Hammerwork
