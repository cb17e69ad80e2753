/-
Scheduled archiving.

A pass gives each queue its turn, in the order of their names: the queues
with a policy of their own and, if the default policy is enabled, every other
queue there is. A turn archives batch after batch, and then purges what has
been archived for long enough. If no queue has a policy of its own, the pass
is one turn over all queues.

# What a pass asks for

The operations on the database, the clock and the signal to stop are an
`ArchiveQueue` over the states of the world. A call that fails ends the pass.
The sizes, ratios and times that batches report are left out.
-/
import Mathlib.Data.List.Sort
import Mathlib.Data.String.Basic
import Hammerwork.Archive

namespace Hammerwork

namespace Archive

/-- An archival policy with the age at which its archived jobs are deleted. -/
structure ScheduledPolicy extends ArchivalPolicy where
  purgeArchivedAfter : Option TimeDelta

/-- Why a job is archived. -/
inductive ArchivalReason where
  | automatic
  | manual
  | compliance
  | maintenance
  deriving DecidableEq

/-- The policies by queue name, the policy of every other queue, and the
configuration. -/
structure JobArchiver where
  policies : Table String ScheduledPolicy
  defaultPolicy : ScheduledPolicy
  config : ArchivalConfig

/-- The result of a scheduled pass. -/
structure ScheduledArchivalPass where
  jobsArchived : Nat
  jobsPurged : Nat
  stoppedEarly : Bool
  deriving DecidableEq

def ScheduledArchivalPass.default : ScheduledArchivalPass := ⟨0, 0, false⟩

/-- The most batches of one turn. -/
def maxArchivalBatchesPerOperation : Nat := 10000

variable {σ : Type}

/-- What a pass asks of the queue and of the world. `queueNames` is the
query for the names in the two tables. -/
structure ArchiveQueue (σ : Type) where
  now : σ → DateTime
  shouldStop : σ → Bool × σ
  queueNames : σ → Except Error (List String) × σ
  archiveJobs : Option String → ArchivalPolicy → ArchivalConfig → ArchivalReason →
    Option String → σ → Except Error Nat × σ
  purgeArchivedJobs : DateTime → σ → Except Error Nat × σ
  purgeArchivedJobsInQueue : String → DateTime → σ → Except Error Nat × σ

/-- The names in byte order, each once. -/
def sortedQueueNames (names : List String) : List String :=
  (names.insertionSort (· ≤ ·)).dedup

def ArchiveQueue.listQueueNames (q : ArchiveQueue σ) (w : σ) : Except Error (List String) × σ :=
  match q.queueNames w with
  | (.error e, w) => (.error e, w)
  | (.ok names, w) => (.ok (sortedQueueNames names), w)

/-- Delete the archived jobs of a queue, or of all queues. -/
def ArchiveQueue.purge (q : ArchiveQueue σ) (queueName : Option String) (olderThan : DateTime)
    (w : σ) : Except Error Nat × σ :=
  match queueName with
  | some name => q.purgeArchivedJobsInQueue name olderThan w
  | none => q.purgeArchivedJobs olderThan w

namespace JobArchiver

variable (archiver : JobArchiver) (q : ArchiveQueue σ) (archivedBy : Option String)

/-- The policy of a queue, or of all queues. -/
def policyFor (queueName : Option String) : ScheduledPolicy :=
  (queueName.bind archiver.policies.lookup).getD archiver.defaultPolicy

/-- Archive batch after batch, `left` more at most, until there are no more
jobs; the jobs archived and whether the signal to stop ended it. -/
def archiveInBatches (queueName : Option String) (policy : ScheduledPolicy)
    (reason : ArchivalReason) (onBatch : Nat → σ → σ) :
    (left total : Nat) → σ → Except Error (Nat × Bool) × σ
  | 0, total, w => (.ok (total, false), w)
  | left + 1, total, w =>
      match q.shouldStop w with
      | (true, w) => (.ok (total, true), w)
      | (false, w) =>
          match q.archiveJobs queueName policy.toArchivalPolicy archiver.config reason
            archivedBy w with
          | (.error e, w) => (.error e, w)
          | (.ok jobs, w) =>
              if jobs = 0 then
                (.ok (total, false), w)
              else
                let w := onBatch (total + jobs) w
                if jobs < policy.batchSize then
                  (.ok (total + jobs, false), w)
                else
                  archiveInBatches queueName policy reason onBatch left (total + jobs) w

/-- The purge at the end of a turn, and whether the pass has been stopped. -/
def purgeAfter (queueName : Option String) (policy : ScheduledPolicy) (stopped : Bool)
    (pass : ScheduledArchivalPass) (w : σ) : Except Error ScheduledArchivalPass × σ :=
  match policy.purgeArchivedAfter with
  | none => (.ok { pass with stoppedEarly := pass.stoppedEarly || stopped }, w)
  | some after =>
      match if stopped then (true, w) else q.shouldStop w with
      | (true, w) => (.ok { pass with stoppedEarly := true }, w)
      | (false, w) =>
          match ageThreshold (q.now w) after with
          | none => (.ok { pass with stoppedEarly := pass.stoppedEarly || stopped }, w)
          | some olderThan =>
              match q.purge queueName olderThan w with
              | (.error e, w) => (.error e, w)
              | (.ok jobs, w) =>
                  (.ok { pass with
                    jobsPurged := pass.jobsPurged + jobs
                    stoppedEarly := pass.stoppedEarly || stopped }, w)

/-- The turn of a queue, or of all queues at once. -/
def scheduledPassFor (queueName : Option String) (policy : ScheduledPolicy)
    (pass : ScheduledArchivalPass) (w : σ) : Except Error ScheduledArchivalPass × σ :=
  match archiver.archiveInBatches q archivedBy queueName policy .automatic (fun _ w => w)
    maxArchivalBatchesPerOperation 0 w with
  | (.error e, w) => (.error e, w)
  | (.ok (jobs, stopped), w) =>
      purgeAfter q queueName policy stopped
        { pass with jobsArchived := pass.jobsArchived + jobs } w

/-- The turns of a plan. -/
def scheduledPasses : List (String × ScheduledPolicy) → ScheduledArchivalPass → σ →
    Except Error ScheduledArchivalPass × σ
  | [], pass, w => (.ok pass, w)
  | (name, policy) :: plan, pass, w =>
      if !policy.enabled then
        scheduledPasses plan pass w
      else
        match q.shouldStop w with
        | (true, w) => (.ok { pass with stoppedEarly := true }, w)
        | (false, w) =>
            match archiver.scheduledPassFor q archivedBy (some name) policy pass w with
            | (.error e, w) => (.error e, w)
            | (.ok pass, w) =>
                if pass.stoppedEarly then (.ok pass, w) else scheduledPasses plan pass w

/-- The queues that have a policy of their own, and of `names` those that
have none, in the order of their names. -/
def plan (names : List String) : List (String × ScheduledPolicy) :=
  let own := archiver.policies.entries.map fun ⟨name, policy⟩ => (name, policy)
  let others := (names.filter (· ∉ archiver.policies)).map (·, archiver.defaultPolicy)
  (own ++ others).insertionSort fun a b => a.1 ≤ b.1

/-- One pass over every queue. -/
def runScheduledPass (w : σ) : Except Error ScheduledArchivalPass × σ :=
  if archiver.policies.entries.isEmpty then
    -- every queue follows the default policy
    if archiver.defaultPolicy.enabled then
      archiver.scheduledPassFor q archivedBy none archiver.defaultPolicy .default w
    else
      (.ok .default, w)
  else if archiver.defaultPolicy.enabled then
    match q.listQueueNames w with
    | (.error e, w) => (.error e, w)
    | (.ok names, w) => archiver.scheduledPasses q archivedBy (archiver.plan names) .default w
  else
    archiver.scheduledPasses q archivedBy (archiver.plan []) .default w

end JobArchiver

end Archive

end Hammerwork
