/-
A claimed batch, and the rate limit tokens taken for it.

In batch mode a worker takes a token for every job it may claim, hands
back those it got no job for, and starts the claimed jobs a few at a time
while it renews the leases of the others. A job can leave the batch in
many ways before it is processed: its lease is lost, its fail-fast batch
failed, the queue is paused, the worker shuts down. Most of them hand its
token back.

The batch is a state machine: where its loop is, the jobs waiting, the
tasks of the jobs started, and the ledger of tokens. What the queue
answers, the passing of time and the order in which tasks are polled are
events from outside. Whether a queue's pause or a batch's status could not
be read makes no difference to the answer "no".

The throttle permits, the results of processed jobs and what is logged are
left out; the tasks are kept in the order they were started in, which
nothing depends on.
-/
import Hammerwork.Job
import Mathlib.Data.List.Dedup

namespace Hammerwork

namespace BatchRun

-- == answers

/-- What a queue call about a run answers: whether the job is still
running it, or an error. -/
inductive Answer where
  | yes
  | no
  | error
  deriving DecidableEq, Repr

/-- What failing a job answers: done, refused because the job left
`Running` or is gone, or another error. -/
inductive FailAnswer where
  | done
  | refused
  | error
  deriving DecidableEq, Repr

/-- The next call of `fail_held_job`. -/
inductive HeldCall where
  | renew
  | fail
  deriving DecidableEq, Repr

/-- The answer to a call of `fail_held_job`. -/
inductive HeldAnswer where
  | renewed (answer : Answer)
  | failed (answer : FailAnswer)
  deriving DecidableEq, Repr

/-- `fail_held_job` goes on: its next call, none when it returns, and
whether it refunds the token. -/
def HeldCall.answered : HeldCall → HeldAnswer → Option (Option HeldCall × Bool)
  | renew, .renewed .no => some (none, true)
  | renew, .renewed _ => some (some fail, false)
  | fail, .failed .error => some (none, false)
  | fail, .failed _ => some (none, true)
  | _, _ => none

-- == tasks

/-- Where the task of a started job is. -/
inductive Phase where
  /-- It fails the job, whose batch failed. -/
  | failing (call : HeldCall)
  /-- It records the start of the job. -/
  | starting
  /-- It is about to process the job. -/
  | ready
  | processing
  deriving DecidableEq, Repr

/-- How the task of a started job goes on. -/
inductive Progress where
  | held (answer : HeldAnswer)
  | recorded (answer : Answer)
  | polled
  | finished
  deriving DecidableEq, Repr

/-- What becomes of the task's token. -/
inductive Token where
  | held
  | used
  | refunded
  deriving DecidableEq, Repr

/-- The task goes on: its next phase, none when it is over, and what
becomes of the token. -/
def Phase.goesOn : Phase → Progress → Option (Option Phase × Token)
  | failing call, .held answer =>
      (call.answered answer).map fun next =>
        (next.1.map failing, if next.2 then .refunded else .held)
  | starting, .recorded .no => some (none, .refunded)
  | starting, .recorded _ => some (some processing, .used)
  | ready, .polled => some (some processing, .used)
  | processing, .finished => some (none, .held)
  | _, _ => none

-- == state

/-- Where the worker goes when jobs were handed back. -/
inductive After where
  | loop
  | drain
  deriving DecidableEq, Repr

/-- Where the worker is. -/
inductive Pc where
  | top
  /-- It asks for the status of these batches, then for the pause. -/
  | asking (batches : List BatchId)
  /-- It fails the jobs whose batch failed, then releases the others. -/
  | handing (doomed : List Job) (call : HeldCall) (released : List Job) (after : After)
  | filling
  | selecting
  | draining
  | ended

/-- A batch under way. -/
structure State where
  pc : Pc
  queued : List Job
  running : List (Job × Phase)
  waiting : List Job
  lost : List JobId
  /-- The jobs whose lease the keeper still renews in this round. -/
  round : List Job
  failedBatches : List BatchId
  initialFill : Bool
  taken : Nat
  returned : Nat
  started : List JobId
  refunded : List JobId

/-- What happens to a batch. -/
inductive Event where
  | skip
  | check
  | batchStatus (failed : Bool)
  | paused (answer : Bool)
  | held (answer : HeldAnswer)
  | released (answer : Answer)
  | handed
  | start (recent : Bool)
  | filled
  | task (i : Nat) (progress : Progress)
  | beat
  | heartbeat (answer : Answer)
  | idle
  | shutdown
  | cancelled
  deriving DecidableEq, Repr

-- == claim

/-- The tokens taken for a batch of up to `capacity` jobs: the first is
waited for, then as many more as are free. -/
def takeTokens (capacity : Nat) (free : List Bool) : Nat :=
  1 + ((free.take (capacity - 1)).takeWhile id).length

/-- The batch as claimed: the tokens there is no job for are handed back.
An empty batch is over. -/
def acquireBatch (capacity : Nat) (free : List Bool) (claimed : List Job) : State where
  pc := if claimed.isEmpty then .ended else .top
  queued := claimed
  running := []
  waiting := claimed
  lost := []
  round := []
  failedBatches := []
  initialFill := true
  taken := takeTokens capacity free
  returned := takeTokens capacity free - claimed.length
  started := []
  refunded := []

-- == steps

/-- The batch of the job is known to have failed. -/
def doomed (failedBatches : List BatchId) (job : Job) : Bool :=
  job.batchId.any fun id => failedBatches.contains id

/-- The batches of the jobs that are not known to have failed. -/
def unsettledBatches (queued : List Job) (failedBatches : List BatchId) : List BatchId :=
  (((queued.filterMap (·.batchId)).filter fun id => !failedBatches.contains id).mergeSort
    (· ≤ ·)).dedup

namespace State

/-- The jobs that have not started are handed back. -/
def handBack (s : State) (after : After) : State :=
  { s with
    pc := .handing (s.queued.filter (doomed s.failedBatches)) .renew
      (s.queued.filter fun job => !doomed s.failedBatches job) after
    queued := [] }

/-- The token of a claimed job is refunded. -/
def refundRateToken (s : State) (job : Job) : State :=
  { s with refunded := s.refunded ++ [job.id] }

/-- The next job starts: it is skipped if its lease was lost. `recent`
says that its lease was renewed recently enough. -/
def startHeld (s : State) (job : Job) (queued : List Job) (recent : Bool) : State :=
  let s := { s with
    queued := queued
    waiting := s.waiting.filter fun run => run.id ≠ job.id }
  if job.id ∈ s.lost then
    s.refundRateToken job
  else
    let phase :=
      if doomed s.failedBatches job then .failing .renew
      else if !s.initialFill || !recent then .starting
      else .ready
    { s with running := s.running ++ [(job, phase)] }

/-- The task `i` is in another phase, or over; when it is over the loop
starts again, unless the worker shuts down. -/
def setTask (s : State) (i : Nat) (job : Job) : Option Phase → State
  | some phase => { s with running := s.running.set i (job, phase) }
  | none =>
      { s with
        running := s.running.eraseIdx i
        pc := match s.pc with
          | .selecting => .top
          | pc => pc }

/-- What became of the task's token is written down. -/
def settleToken (s : State) (job : Job) : Token → State
  | .held => s
  | .used => { s with started := s.started ++ [job.id] }
  | .refunded => s.refundRateToken job

/-- A task goes on. -/
def stepTask (s : State) (i : Nat) (progress : Progress) : Option State :=
  match s.running[i]? with
  | none => none
  | some (job, phase) =>
      (phase.goesOn progress).map fun next => (s.setTask i job next.1).settleToken job next.2

/-- One step of the batch; none where the event cannot happen. -/
def next (concurrency : Nat) (s : State) (e : Event) : Option State :=
  match s.pc, e with
  | .top, .skip => some { s with pc := .filling }
  | .top, .check =>
      if s.queued ≠ [] ∧ s.running.length < concurrency then
        some { s with pc := .asking (unsettledBatches s.queued s.failedBatches) }
      else
        none
  | .asking (id :: ids), .batchStatus failed =>
      some { s with
        pc := .asking ids
        failedBatches := if failed then id :: s.failedBatches else s.failedBatches }
  | .asking [], .paused true => some ({ s with waiting := [] }.handBack .loop)
  | .asking [], .paused false => some { s with pc := .filling }
  | .handing (job :: doomed) call released after, .held answer =>
      (call.answered answer).map fun next =>
        let s := match next.1 with
          | some call => { s with pc := .handing (job :: doomed) call released after }
          | none => { s with pc := .handing doomed .renew released after }
        if next.2 then s.refundRateToken job else s
  | .handing [] call (job :: released) after, .released answer =>
      let s := { s with pc := .handing [] call released after }
      some (if answer = .yes then s.refundRateToken job else s)
  | .handing [] _ [] .loop, .handed => some { s with pc := .filling }
  | .handing [] _ [] .drain, .handed => some { s with pc := .draining }
  | .filling, .start recent =>
      match s.queued with
      | [] => none
      | job :: queued =>
          if s.running.length < concurrency then some (s.startHeld job queued recent) else none
  | .filling, .filled =>
      if s.running.length < concurrency ∧ s.queued ≠ [] then none
      else some { s with pc := .selecting, initialFill := false }
  | .selecting, .task i progress => s.stepTask i progress
  | .selecting, .beat => if s.round.isEmpty then some { s with round := s.waiting } else none
  | .selecting, .heartbeat answer =>
      match s.round with
      | [] => none
      | run :: round =>
          let s := { s with round := round }
          some (if answer = .no then
            { s with
              waiting := s.waiting.filter fun waiting => waiting.id ≠ run.id
              lost := run.id :: s.lost }
          else s)
  | .selecting, .shutdown => some (s.handBack .drain)
  | .selecting, .idle => if s.running.isEmpty then some { s with pc := .ended } else none
  | .draining, .task i progress => s.stepTask i progress
  | .draining, .idle => if s.running.isEmpty then some { s with pc := .ended } else none
  | .draining, .cancelled => some { s with pc := .ended, running := [] }
  | _, _ => none

end State

/-- One step of the batch, as a relation. -/
def Step (concurrency : Nat) (s : State) (e : Event) (s' : State) : Prop :=
  s.next concurrency e = some s'

end BatchRun

end Hammerwork
