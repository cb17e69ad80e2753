/-
Handing out jobs from a database.

Every backend dispatches a dequeue by the number of jobs asked for: none,
one, or several up to a cap. With weights it lists the priority levels
that have a runnable job and fills the batch from them, one picked level
after another (`fillWeightedBatch`). Each level is claimed by a statement
of its own, which may find fewer jobs than were asked for (other workers
hold them), or fail; what was claimed before a failure is returned.

What a statement does to the database, and what it returns, is a
parameter (`ClaimStatements`).
-/
import Hammerwork.Queue
import Hammerwork.Proofs.Picks

namespace Hammerwork

/-- The level of a stored number, if it is one. -/
def JobPriority.fromI32 : Int → Option JobPriority
  | 0 => some .background
  | 1 => some .low
  | 2 => some .normal
  | 3 => some .high
  | 4 => some .critical
  | _ => none

variable {Db : Type}

/-- What a statement returns, and the database after it. -/
abbrev DbReply (Db α : Type) := Except HammerworkError α × Db

/-- The statements a backend claims jobs of a queue with: the numbers of
the levels that have a runnable job, and claims of one job and of up to
so many, of one level or of the highest ones. -/
structure ClaimStatements (Db : Type) where
  runnablePriorities : Db → DbReply Db (List Int)
  claimAttempt : Option JobPriority → Db → DbReply Db (Option Job)
  claimBatchAttempt : Option JobPriority → Nat → Db → DbReply Db (List Job)

/-- Fill a weighted batch: pick one of the candidate levels, claim up to
the room left, and repeat with the other levels. An error is returned
only when nothing was claimed before it. -/
def fillWeightedBatch (weights : PriorityWeights) (seed : Nat → Nat)
    (claim : JobPriority → Nat → Db → DbReply Db (List Job)) (maxJobs : Nat)
    (candidates : List JobPriority) (attempt : Nat) (jobs : List Job) (db : Db) :
    DbReply Db (List Job) :=
  if jobs.length < maxJobs then
    match _hpick : pickWeightedPriority candidates weights (seed attempt) with
    | none => (.ok jobs, db)
    | some priority =>
        match claim priority (maxJobs - jobs.length) db with
        | (.ok claimed, db) =>
            fillWeightedBatch weights seed claim maxJobs (candidates.filter (· ≠ priority))
              (attempt + 1) (jobs ++ claimed) db
        | (.error error, db) => if jobs.isEmpty then (.error error, db) else (.ok jobs, db)
  else
    (.ok jobs, db)
termination_by candidates.length
decreasing_by
  -- the level picked is one of them, and is taken out
  rw [@List.unattach_filter _ _ _ _ (fun level => decide (level ≠ priority)) fun _ _ => rfl,
    List.unattach_attach]
  exact List.length_filter_lt_length_iff_exists.2
    ⟨priority, mem_of_pickWeightedPriority _hpick, by simp⟩

/-- One turn of the loop. -/
theorem fillWeightedBatch_pick {weights : PriorityWeights} {seed : Nat → Nat}
    {claim : JobPriority → Nat → Db → DbReply Db (List Job)} {maxJobs attempt : Nat}
    {candidates : List JobPriority} {jobs : List Job} {priority : JobPriority} (db : Db)
    (hroom : jobs.length < maxJobs)
    (hpick : pickWeightedPriority candidates weights (seed attempt) = some priority) :
    fillWeightedBatch weights seed claim maxJobs candidates attempt jobs db
      = match claim priority (maxJobs - jobs.length) db with
        | (.ok claimed, db) =>
            fillWeightedBatch weights seed claim maxJobs (candidates.filter (· ≠ priority))
              (attempt + 1) (jobs ++ claimed) db
        | (.error error, db) => if jobs.isEmpty then (.error error, db) else (.ok jobs, db) := by
  rw [fillWeightedBatch, if_pos hroom]
  split
  case h_1 hnone =>
    rw [hpick] at hnone
    cases hnone
  case h_2 picked hpicked =>
    obtain rfl : priority = picked := Option.some.inj (hpick.symm.trans hpicked)
    rfl

namespace ClaimStatements

variable (statements : ClaimStatements Db)

/-- The levels that have a runnable job. -/
def runnableLevels (db : Db) : DbReply Db (List JobPriority) :=
  match statements.runnablePriorities db with
  | (.error error, db) => (.error error, db)
  | (.ok levels, db) => (.ok (levels.filterMap JobPriority.fromI32), db)

/-- Claim one job. -/
def claimOne (weights : Option PriorityWeights) (seed : Nat → Nat) (db : Db) :
    DbReply Db (Option Job) :=
  let strictly := statements.claimAttempt none db
  match weights with
  | none => strictly
  | some weights =>
      if weights.isStrict then
        strictly
      else
        match statements.runnableLevels db with
        | (.error error, db) => (.error error, db)
        | (.ok candidates, db) =>
            let one := fun priority _ db =>
              match statements.claimAttempt (some priority) db with
              | (.error error, db) => (.error error, db)
              | (.ok job, db) => (.ok job.toList, db)
            match fillWeightedBatch weights seed one 1 candidates 0 [] db with
            | (.error error, db) => (.error error, db)
            | (.ok jobs, db) => (.ok jobs.head?, db)

/-- Claim up to `maxJobs` jobs. -/
def claimMany (weights : Option PriorityWeights) (seed : Nat → Nat) (maxJobs : Nat) (db : Db) :
    DbReply Db (List Job) :=
  let strictly := statements.claimBatchAttempt none maxJobs db
  match weights with
  | none => strictly
  | some weights =>
      if weights.isStrict then
        strictly
      else
        match statements.runnableLevels db with
        | (.error error, db) => (.error error, db)
        | (.ok candidates, db) =>
            fillWeightedBatch weights seed
              (fun priority room => statements.claimBatchAttempt (some priority) room)
              maxJobs candidates 0 [] db

end ClaimStatements

/-- Claim nothing for 0, one job for 1, and up to the capped count
otherwise. -/
def dispatchDequeue (maxJobs : Nat) (claimOne : Db → DbReply Db (Option Job))
    (claimMany : Nat → Db → DbReply Db (List Job)) (db : Db) : DbReply Db (List Job) :=
  match min maxJobs maxDequeueBatchSize with
  | 0 => (.ok [], db)
  | 1 =>
      match claimOne db with
      | (.error error, db) => (.error error, db)
      | (.ok job, db) => (.ok job.toList, db)
  | maxJobs => claimMany maxJobs db

/-- Hand out jobs of a queue. -/
def ClaimStatements.dequeue (statements : ClaimStatements Db) (weights : Option PriorityWeights)
    (seed : Nat → Nat) (maxJobs : Nat) (db : Db) : DbReply Db (List Job) :=
  dispatchDequeue maxJobs (statements.claimOne weights seed)
    (statements.claimMany weights seed) db

/-- The queue in memory dispatches the same way. -/
theorem dequeue_eq_dispatch (env : Env) (s : TestStorage) (queueName : String)
    (weights : Option PriorityWeights) (lease : Duration) (maxJobs : Nat) :
    TestQueue.dequeue env s queueName weights lease maxJobs
      = dispatchDequeue maxJobs
          (fun s => commit s (TestQueue.claimOne env.hash s queueName weights lease))
          (fun n s => TestQueue.claimMany env.hash s queueName weights lease n) s := by
  unfold TestQueue.dequeue dispatchDequeue
  generalize min maxJobs maxDequeueBatchSize = n
  match n with
  | 0 => rfl
  | 1 =>
      dsimp only
      cases TestQueue.claimOne env.hash s queueName weights lease with
      | error error => rfl
      | ok claimed => rfl
  | n + 2 => rfl

end Hammerwork
