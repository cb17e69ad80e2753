/-
The dashboard's dry run of archiving.

The dashboard counts the jobs a policy would archive with a query of its
own. The query has one condition for each status the policy archives, with
a placeholder for its cutoff; the placeholder of the queue's name comes
first. A cutoff is the difference of a time and an age, which panics if
there is no such time, and PostgreSQL accepts no timestamp before its
first.
-/
import Hammerwork.Archive

namespace Hammerwork

namespace Archive

inductive CountError where
  | panicked (message : String)
  | database (message : String)
  deriving DecidableEq

/-- `t - d`. -/
def subTimeDelta (t : DateTime) (d : TimeDelta) : Except CountError DateTime :=
  match checkedAddSigned t (-d) with
  | some t => .ok t
  | none => .error (.panicked "`DateTime - TimeDelta` overflowed")

/-- The statuses an archival policy archives, each with the time its age is
measured from. -/
def archivableStatuses (policy : ArchivalPolicy) :
    List (Option TimeDelta × JobStatus × (JobRow → Option DateTime)) :=
  [(policy.archiveCompletedAfter, .completed, (·.completedAt)),
    (policy.archiveFailedAfter, .failed, (·.failedAt)),
    (policy.archiveDeadAfter, .dead, (·.failedAt)),
    (policy.archiveTimedOutAfter, .timedOut, (·.timedOutAt))]

/-- The count query: placeholders are numbers, from 1. -/
structure CountQuery where
  queueFilter : Option Nat
  conditions : List (JobStatus × (JobRow → Option DateTime) × Nat)
  limit : Nat

/-- The conditions and the cutoffs so far, and the last placeholder. -/
structure CountBuilder where
  conditions : List (JobStatus × (JobRow → Option DateTime) × Nat)
  cutoffs : List DateTime
  param : Nat

/-- The condition of one status. -/
def CountBuilder.push (now : DateTime) (b : CountBuilder)
    (status : Option TimeDelta × JobStatus × (JobRow → Option DateTime)) :
    Except CountError CountBuilder :=
  match status with
  | (none, _, _) => .ok b
  | (some after, status, column) => do
      let cutoff ← subTimeDelta now after
      return {
        conditions := b.conditions ++ [(status, column, b.param + 1)]
        cutoffs := b.cutoffs ++ [cutoff]
        param := b.param + 1 }

/-- The count query and the cutoffs to bind after the queue name, or `none`
if the policy archives nothing. -/
def archivableCountQuery (policy : ArchivalPolicy) (queue : Bool) (now : DateTime) :
    Except CountError (Option (CountQuery × List DateTime)) :=
  if !policy.enabled || policy.batchSize = 0 then
    .ok none
  else do
    let param := if queue then 1 else 0
    let b ← (archivableStatuses policy).foldlM (CountBuilder.push now) ⟨[], [], param⟩
    if b.conditions.isEmpty then
      return none
    return some (⟨if queue then some 1 else none, b.conditions, policy.batchSize⟩, b.cutoffs)

/-- A bound value. -/
inductive Param where
  | text (value : String)
  | timestamp (value : DateTime)

/-- The value of a placeholder. -/
def bound (params : List Param) (placeholder : Nat) : Option Param := params[placeholder - 1]?

/-- A row meets one of the conditions. -/
def CountQuery.holds (params : List Param) (row : JobRow)
    (condition : JobStatus × (JobRow → Option DateTime) × Nat) : Bool :=
  match condition with
  | (status, column, placeholder) =>
      row.status = status.asStr &&
        match column row, bound params placeholder with
        | some time, some (.timestamp cutoff) => time ≤ cutoff
        | _, _ => false

/-- A row is counted. -/
def CountQuery.counts (q : CountQuery) (params : List Param) (row : JobRow) : Bool :=
  row.archivedAt.isNone
    && q.queueFilter.all (fun placeholder =>
      match bound params placeholder with
      | some (.text queue) => row.queueName = queue
      | _ => false)
    && q.conditions.any (CountQuery.holds params row)

/-- The first timestamp of PostgreSQL, in 4714 BC. -/
def firstTimestamp : DateTime := -210866803200000000000

/-- Count the jobs that `policy` would archive, at `now`. -/
def countArchivable (db : Db) (queue : Option String) (policy : ArchivalPolicy) (now : DateTime) :
    Except CountError Nat := do
  match ← archivableCountQuery policy queue.isSome now with
  | none => return 0
  | some (q, cutoffs) =>
      if cutoffs.all (firstTimestamp ≤ ·) then
        let params := queue.toList.map Param.text ++ cutoffs.map Param.timestamp
        return min q.limit (db.jobs.entries.countP fun ⟨_, row⟩ => q.counts params row)
      else
        throw (.database "timestamp out of range")

end Archive

end Hammerwork
