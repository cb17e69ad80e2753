/-
Choosing the jobs a dequeue hands out.

A queue's eligible jobs are read off the index: pending, due, not held
by dependencies, and not a disabled recurring job's occurrence. One job
is chosen by priority and age; several are chosen in that order, or,
with weights, one priority level after another, each level picked by
weight. The number that drives a weighted pick is a hash of the queue
name and the clock; the hash function is a parameter (`SeedHash`).
-/
import Hammerwork.Storage
import Mathlib.Algebra.Ring.Nat

namespace Hammerwork

/-- How weighted claims choose a priority level. -/
structure PriorityWeights where
  weights : Table JobPriority Nat
  strictPriority : Bool

namespace PriorityWeights

/-- The weight of a level; in strict mode the level's own number. -/
def getWeight (w : PriorityWeights) (priority : JobPriority) : Nat :=
  if w.strictPriority then priority.asI32 else (w.weights.lookup priority).getD 1

/-- Whether the highest level is always taken first. -/
def isStrict (w : PriorityWeights) : Bool := w.strictPriority

end PriorityWeights

/-- The hash behind a weighted pick: of the queue name, the clock in
milliseconds, and, for a pick that is part of a batch, its number. -/
abbrev SeedHash := String → Int → Option Nat → Nat

/-- Milliseconds since the epoch. -/
def timestampMillis (t : DateTime) : Int := t / 1000000

-- == weighted picks

/-- The highest of the levels. -/
def maxPriority : List JobPriority → Option JobPriority
  | [] => none
  | priority :: rest =>
      some (rest.foldl (fun best p => if best.asI32 ≤ p.asI32 then p else best) priority)

/-- The level whose share of the weights `point` falls in. -/
def levelAt (weights : PriorityWeights) : List JobPriority → Nat → Option JobPriority
  | [], _ => none
  | priority :: rest, point =>
      if point < weights.getWeight priority then some priority
      else levelAt weights rest (point - weights.getWeight priority)

/-- Pick one of the candidate levels by weight; the highest when none
has a weight. -/
def pickWeightedPriority (candidates : List JobPriority) (weights : PriorityWeights)
    (seed : Nat) : Option JobPriority :=
  let total := (candidates.map weights.getWeight).sum
  if total = 0 then maxPriority candidates
  else levelAt weights candidates (seed % total)

namespace TestStorage

-- == eligible jobs

/-- A pending job that can be handed out at `now`. -/
def dequeuable (now : DateTime) (job : Job) : Bool :=
  decide (job.scheduledAt ≤ now)
    && (job.dependencyStatus = .none || job.dependencyStatus = .satisfied)
    && (job.recurring || job.cronSchedule.isNone)

/-- The jobs of a queue that can be dequeued now. -/
def eligibleJobs (s : TestStorage) (queueName : String) : List Job :=
  if (s.pausedQueues.lookup queueName).isSome then
    []
  else
    ((QueueIndex.list s.queues queueName .pending).filterMap s.jobs.lookup).filter
      (dequeuable s.clock)

-- == one job

/-- `a` is claimed no sooner than `b`: of lower priority, or of the same
and no older. -/
def claimedAfter (a b : Job) : Bool :=
  a.priority.asI32 < b.priority.asI32
    || (a.priority.asI32 = b.priority.asI32 && decide (b.scheduledAt ≤ a.scheduledAt))

/-- The job claimed first; of several, the last. -/
def firstClaimed : List Job → Option Job
  | [] => none
  | job :: rest =>
      some (rest.foldl (fun best job => if claimedAfter best job then job else best) job)

/-- The oldest job; of several, the first. -/
def oldest : List Job → Option Job
  | [] => none
  | job :: rest =>
      some (rest.foldl
        (fun best job => if job.scheduledAt < best.scheduledAt then job else best) job)

/-- The levels that have an eligible job, highest first. -/
def candidateLevels (eligible : List Job) : List JobPriority :=
  [JobPriority.critical, .high, .normal, .low, .background].filter
    fun priority => eligible.any (·.priority = priority)

/-- The next job to dequeue. -/
def getNextJob (hash : SeedHash) (s : TestStorage) (queueName : String)
    (weights : Option PriorityWeights) : Option JobId :=
  let eligible := s.eligibleJobs queueName
  match weights with
  | none => (firstClaimed eligible).map (·.id)
  | some weights =>
      if weights.isStrict then
        (firstClaimed eligible).map (·.id)
      else
        match pickWeightedPriority (candidateLevels eligible) weights
            (hash queueName (timestampMillis s.clock) none) with
        | none => none
        | some priority => (oldest (eligible.filter (·.priority = priority))).map (·.id)

-- == several jobs

/-- `a` is claimed no later than `b` within one batch. -/
def claimOrder (a b : Job) : Bool :=
  b.priority.asI32 < a.priority.asI32
    || (a.priority.asI32 = b.priority.asI32
        && (decide (a.scheduledAt < b.scheduledAt)
          || (a.scheduledAt = b.scheduledAt && decide (a.createdAt ≤ b.createdAt))))

/-- The levels of the jobs, in order of first appearance. -/
def levelsOf (eligible : List Job) : List JobPriority :=
  eligible.foldl
    (fun levels job => if job.priority ∈ levels then levels else levels ++ [job.priority]) []

/-- Fill a batch of up to `maxJobs` jobs, one picked level after
another; a level is picked once. -/
def fillWeighted (weights : PriorityWeights) (seed : Nat → Nat) (eligible : List Job)
    (maxJobs : Nat) : Nat → Nat → List JobPriority → List JobId → List JobId
  | 0, _, _, claimed => claimed
  | fuel + 1, attempt, candidates, claimed =>
      if claimed.length < maxJobs then
        match pickWeightedPriority candidates weights (seed attempt) with
        | none => claimed
        | some priority =>
            fillWeighted weights seed eligible maxJobs fuel (attempt + 1)
              (candidates.filter (· ≠ priority))
              (claimed ++ ((eligible.filter (·.priority = priority)).take
                (maxJobs - claimed.length)).map (·.id))
      else
        claimed

/-- Up to `maxJobs` jobs to claim at once, in claim order. Every pick
takes a level away, so there is one pick for each level. -/
def getNextJobs (hash : SeedHash) (s : TestStorage) (queueName : String)
    (weights : Option PriorityWeights) (maxJobs : Nat) : List JobId :=
  let eligible := (s.eligibleJobs queueName).mergeSort claimOrder
  let strictly := (eligible.take maxJobs).map (·.id)
  match weights with
  | none => strictly
  | some weights =>
      if weights.isStrict then
        strictly
      else
        fillWeighted weights
          (fun attempt => hash queueName (timestampMillis s.clock) (some attempt))
          eligible maxJobs ((levelsOf eligible).length + 1) 0 (levelsOf eligible) []

-- == what is chosen is eligible

/-- Choosing one of a list by comparisons chooses a member. -/
private theorem foldl_choose_mem (keep : Job → Job → Bool) (l : List Job) :
    ∀ first : Job, l.foldl (fun best job => if keep best job then job else best) first
      ∈ first :: l := by
  induction l with
  | nil => intro first; exact List.mem_singleton_self first
  | cons job l ih =>
      intro first
      rw [List.foldl_cons]
      split
      · exact List.mem_cons_of_mem _ (ih job)
      · rcases List.mem_cons.1 (ih first) with h | h
        · rw [h]
          exact List.mem_cons_self ..
        · exact List.mem_cons_of_mem _ (List.mem_cons_of_mem _ h)

theorem firstClaimed_mem {eligible : List Job} {job : Job}
    (h : firstClaimed eligible = some job) : job ∈ eligible := by
  cases eligible with
  | nil => cases h
  | cons first rest =>
      injection h with h
      rw [← h]
      exact foldl_choose_mem claimedAfter rest first

theorem oldest_mem {eligible : List Job} {job : Job} (h : oldest eligible = some job) :
    job ∈ eligible := by
  cases eligible with
  | nil => cases h
  | cons first rest =>
      injection h with h
      rw [← h]
      have := foldl_choose_mem (fun best job => decide (job.scheduledAt < best.scheduledAt))
        rest first
      simpa using this

/-- A job chosen alone is one of the eligible ones. -/
theorem getNextJob_mem {hash : SeedHash} {s : TestStorage} {queueName : String}
    {weights : Option PriorityWeights} {id : JobId}
    (h : s.getNextJob hash queueName weights = some id) :
    ∃ job ∈ s.eligibleJobs queueName, job.id = id := by
  have hfirst : ∀ {id}, (firstClaimed (s.eligibleJobs queueName)).map (·.id) = some id →
      ∃ job ∈ s.eligibleJobs queueName, job.id = id := by
    intro id h
    obtain ⟨job, hjob, hid⟩ := Option.map_eq_some_iff.1 h
    exact ⟨job, firstClaimed_mem hjob, hid⟩
  unfold getNextJob at h
  dsimp only at h
  split at h
  · exact hfirst h
  · split at h
    · exact hfirst h
    · split at h
      · cases h
      · obtain ⟨job, hjob, hid⟩ := Option.map_eq_some_iff.1 h
        exact ⟨job, (List.mem_filter.1 (oldest_mem hjob)).1, hid⟩

theorem fillWeighted_mem {weights : PriorityWeights} {seed : Nat → Nat}
    {eligible : List Job} {maxJobs : Nat} {id : JobId} :
    ∀ (fuel attempt : Nat) (candidates : List JobPriority) (claimed : List JobId),
      id ∈ fillWeighted weights seed eligible maxJobs fuel attempt candidates claimed →
      id ∈ claimed ∨ ∃ job ∈ eligible, job.id = id := by
  intro fuel
  induction fuel with
  | zero => intro attempt candidates claimed h; exact .inl h
  | succ fuel ih =>
      intro attempt candidates claimed h
      rw [fillWeighted] at h
      split at h
      case isFalse => exact .inl h
      case isTrue =>
        split at h
        case h_1 => exact .inl h
        case h_2 priority _ =>
          rcases ih _ _ _ h with h | h
          · rcases List.mem_append.1 h with h | h
            · exact .inl h
            · obtain ⟨job, hjob, hid⟩ := List.mem_map.1 h
              exact .inr ⟨job, (List.mem_filter.1 (List.mem_of_mem_take hjob)).1, hid⟩
          · exact .inr h

/-- Jobs chosen together are eligible ones. -/
theorem getNextJobs_mem {hash : SeedHash} {s : TestStorage} {queueName : String}
    {weights : Option PriorityWeights} {maxJobs : Nat} {id : JobId}
    (h : id ∈ s.getNextJobs hash queueName weights maxJobs) :
    ∃ job ∈ s.eligibleJobs queueName, job.id = id := by
  have hstrict : ∀ {id}, id ∈ (((s.eligibleJobs queueName).mergeSort claimOrder).take
      maxJobs).map (·.id) → ∃ job ∈ s.eligibleJobs queueName, job.id = id := by
    intro id h
    obtain ⟨job, hjob, hid⟩ := List.mem_map.1 h
    exact ⟨job, List.mem_mergeSort.1 (List.mem_of_mem_take hjob), hid⟩
  unfold getNextJobs at h
  dsimp only at h
  split at h
  · exact hstrict h
  · split at h
    · exact hstrict h
    · rcases fillWeighted_mem _ _ _ _ h with h | ⟨job, hjob, hid⟩
      · cases h
      · exact ⟨job, List.mem_mergeSort.1 hjob, hid⟩

/-- An eligible job is indexed as pending, stored, and dequeuable. -/
theorem mem_eligibleJobs {s : TestStorage} {queueName : String} {job : Job}
    (h : job ∈ s.eligibleJobs queueName) :
    ∃ id ∈ QueueIndex.list s.queues queueName .pending,
      s.jobs.lookup id = some job ∧ dequeuable s.clock job = true := by
  unfold eligibleJobs at h
  split at h
  · cases h
  · obtain ⟨hmem, hdue⟩ := List.mem_filter.1 h
    obtain ⟨id, hid, hlookup⟩ := List.mem_filterMap.1 hmem
    exact ⟨id, hid, hlookup, hdue⟩

end TestStorage

end Hammerwork
