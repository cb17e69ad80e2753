/-
Workflows and batches: groups of jobs enqueued together.

A `JobGroup` is a workflow. Its dependency graph is written down twice:
in each job's own `dependsOn`, which `validate` checks, and in the
group's `dependencies` map, which the queue merges with the former when
the group is enqueued. The builder methods keep the two in step.

`validate` looks for dangling references first and for cycles second,
so the cycle search only ever runs on a closed graph; that is what makes
its fuel sufficient (`validate_isSome`), and what the search's answer
then means is `validate_acc`: a validated group's jobs can be gone
through dependencies first.
-/
import Hammerwork.Job
import Hammerwork.Lib.Table
import Hammerwork.Lib.CycleSearch

namespace Hammerwork

-- == policies

/-- What the failure of one job does to its workflow. -/
inductive FailurePolicy where
  | failFast
  | continueOnFailure
  | manual
  deriving DecidableEq, Repr

/-- The status of a workflow. -/
inductive WorkflowStatus where
  | running
  | completed
  | failed
  | cancelled
  deriving DecidableEq, Repr

/-- What the failure of one job does to its batch. -/
inductive PartialFailureMode where
  | continueOnError
  | failFast
  | collectErrors
  deriving DecidableEq, Repr

/-- A batch of jobs. -/
structure JobBatch where
  id : BatchId
  name : String
  jobs : List Job
  batchSize : Option Nat
  failureMode : PartialFailureMode
  createdAt : DateTime
  metadata : Table String String

-- == workflow groups

/-- A workflow: jobs, the dependencies between them, and a failure
policy. -/
structure JobGroup where
  id : WorkflowId
  name : String
  status : WorkflowStatus
  createdAt : DateTime
  completedAt : Option DateTime
  failedAt : Option DateTime
  failurePolicy : FailurePolicy
  jobs : List Job
  dependencies : Table JobId (List JobId)
  totalJobs : Nat
  completedJobs : Nat
  failedJobs : Nat
  metadata : Json

namespace JobGroup

/-- An empty workflow, made at wall-clock time `now` under the fresh id
`id`. -/
def new (id : WorkflowId) (now : DateTime) (name : String) : JobGroup where
  id := id
  name := name
  status := .running
  createdAt := now
  completedAt := none
  failedAt := none
  failurePolicy := .failFast
  jobs := []
  dependencies := ∅
  totalJobs := 0
  completedJobs := 0
  failedJobs := 0
  metadata := .object []

/-- Adds a job with the dependencies it has. -/
def addJob (group : JobGroup) (job : Job) : JobGroup :=
  let jobs := group.jobs ++ [job.withWorkflow group.id group.name]
  { group with jobs := jobs, totalJobs := jobs.length }

/-- Adds several jobs with no dependencies between them. -/
def addParallelJobs (group : JobGroup) (newJobs : List Job) : JobGroup :=
  let jobs := group.jobs ++ newJobs.map (·.withWorkflow group.id group.name)
  { group with jobs := jobs, totalJobs := jobs.length }

/-- Adds a job that depends on every job added so far. -/
def thenJob (group : JobGroup) (job : Job) : JobGroup :=
  let dependencies := group.jobs.map (·.id)
  let job := { job.withWorkflow group.id group.name with
    dependsOn := dependencies
    dependencyStatus := if dependencies.isEmpty then .none else .waiting }
  let jobs := group.jobs ++ [job]
  { group with
    jobs := jobs
    dependencies := group.dependencies.insert job.id dependencies
    totalJobs := jobs.length }

/-- Sets the failure policy. -/
def withFailurePolicy (group : JobGroup) (policy : FailurePolicy) : JobGroup :=
  { group with failurePolicy := policy }

-- == validation

/-- What `job_id` depends on: the `dependsOn` of the first job of that
id. -/
def dependsOnOf (group : JobGroup) (jobId : JobId) : List JobId :=
  match group.jobs.find? (·.id = jobId) with
  | some job => job.dependsOn
  | none => []

/-- DFS helper for cycle detection: whether a cycle is reached from
`jobId`, and the sets `visited` and `rec_stack` afterwards. -/
def hasCycleDfs (group : JobGroup) (fuel : Nat) (jobId : JobId)
    (colours : CycleSearch.Colours JobId) : Option (Bool × CycleSearch.Colours JobId) :=
  CycleSearch.dfs group.dependsOnOf fuel jobId colours

/-- Detects circular dependencies using DFS. One level of recursion for
each job is enough. -/
def detectCycles (group : JobGroup) : Option (Except HammerworkError Unit) :=
  (CycleSearch.anyCycle (group.hasCycleDfs group.jobs.length) (group.jobs.map (·.id))
      ⟨∅, ∅⟩).map fun found =>
    if found then .error (.workflow "Circular dependency detected in workflow") else .ok ()

/-- The first dependency reference of `job` that no job of the group
answers to. -/
def danglingReference (group : JobGroup) (job : Job) : Option JobId :=
  job.dependsOn.find? fun depId => depId ∉ group.jobs.map (·.id)

/-- Checks that all dependency references are to jobs of the group. -/
def checkReferences (group : JobGroup) : List Job → Except HammerworkError Unit
  | [] => .ok ()
  | job :: jobs =>
      match group.danglingReference job with
      | some depId =>
          .error (.workflow s!"Job {job.id} depends on non-existent job {depId}")
      | none => checkReferences group jobs

/-- Validates the dependency graph; `none` if the cycle search were to
run out of fuel, which `validate_isSome` excludes. -/
def validate (group : JobGroup) : Option (Except HammerworkError Unit) :=
  match validateDependencyLimits group.jobs with
  | .error e => some (.error e)
  | .ok () =>
      match group.checkReferences group.jobs with
      | .error e => some (.error e)
      | .ok () => group.detectCycles

-- == what it checked

/-- A job's dependencies, by its id. -/
theorem dependsOnOf_of_mem {group : JobGroup} (hnd : (group.jobs.map (·.id)).Nodup)
    {job : Job} (hjob : job ∈ group.jobs) : group.dependsOnOf job.id = job.dependsOn := by
  have hfind : group.jobs.find? (·.id = job.id) = some job := by
    cases h : group.jobs.find? (·.id = job.id) with
    | none => simpa using List.find?_eq_none.1 h job hjob
    | some found =>
        have hid : found.id = job.id := by simpa using List.find?_some h
        rw [List.inj_on_of_nodup_map hnd (List.mem_of_find?_eq_some h) hjob hid]
  unfold dependsOnOf
  rw [hfind]

/-- References are checked when every dependency is a job of the
group. -/
theorem checkReferences_ok {group : JobGroup} {jobs : List Job} :
    group.checkReferences jobs = .ok () ↔
      ∀ job ∈ jobs, ∀ dep ∈ job.dependsOn, dep ∈ group.jobs.map (·.id) := by
  induction jobs with
  | nil => simp [checkReferences]
  | cons job jobs ih =>
      rw [checkReferences]
      cases h : group.danglingReference job with
      | some dep =>
          have hmem := List.mem_of_find?_eq_some h
          have hout : dep ∉ group.jobs.map (·.id) := by simpa using List.find?_some h
          refine ⟨fun he => (by cases he), fun hall => ?_⟩
          exact absurd (hall job (List.mem_cons_self ..) dep hmem) hout
      | none =>
          have hin : ∀ dep ∈ job.dependsOn, dep ∈ group.jobs.map (·.id) := by
            simpa [danglingReference] using h
          rw [ih, List.forall_mem_cons]
          exact ⟨fun hall => ⟨hin, hall⟩, fun hall => hall.2⟩

/-- Where the references are closed, so is the graph the search runs
on. -/
theorem dependsOnOf_closed {group : JobGroup}
    (href : group.checkReferences group.jobs = .ok ()) (x : JobId) :
    ∀ y ∈ group.dependsOnOf x, y ∈ group.jobs.map (·.id) := by
  intro y hy
  unfold dependsOnOf at hy
  cases h : group.jobs.find? (·.id = x) with
  | none => rw [h] at hy; cases hy
  | some job =>
      rw [h] at hy
      exact checkReferences_ok.1 href job (List.mem_of_find?_eq_some h) y hy

/-- The fuel of the cycle search is enough: `validate` answers. -/
theorem validate_isSome (group : JobGroup) : group.validate.isSome := by
  unfold validate
  split
  · rfl
  · split
    · rfl
    · next href =>
      have hfuel : (group.jobs.map (·.id)).toFinset.card ≤ group.jobs.length :=
        le_trans (List.toFinset_card_le _) (by simp)
      have hclosed : ∀ x ∈ (group.jobs.map (·.id)).toFinset, ∀ y ∈ group.dependsOnOf x,
          y ∈ (group.jobs.map (·.id)).toFinset :=
        fun x _ y hy => List.mem_toFinset.2 (dependsOnOf_closed href x y hy)
      have hsome := CycleSearch.anyCycle_isSome hclosed hfuel
        (group.jobs.map (·.id)) (c := ⟨∅, ∅⟩) (fun x hx => List.mem_toFinset.2 hx)
      unfold detectCycles
      rw [Option.isSome_map]
      exact hsome

/-- A validated group is closed under dependencies. -/
theorem validate_closed {group : JobGroup} (h : group.validate = some (.ok ())) :
    ∀ job ∈ group.jobs, ∀ dep ∈ job.dependsOn, dep ∈ group.jobs.map (·.id) := by
  unfold validate at h
  split at h
  · simp at h
  · split at h
    · simp at h
    · next href => exact checkReferences_ok.1 href

/-- A validated group can be gone through dependencies first. -/
theorem validate_acc {group : JobGroup} (h : group.validate = some (.ok ())) :
    ∀ x ∈ group.jobs.map (·.id), Acc (CycleSearch.Below group.dependsOnOf) x := by
  have hnone : CycleSearch.anyCycle (group.hasCycleDfs group.jobs.length)
      (group.jobs.map (·.id)) ⟨∅, ∅⟩ = some false := by
    unfold validate at h
    split at h
    · simp at h
    · split at h
      · simp at h
      · unfold detectCycles at h
        obtain ⟨found, hfound, hok⟩ := Option.map_eq_some_iff.1 h
        cases found with
        | true => cases hok
        | false => exact hfound
  exact CycleSearch.acc_of_anyCycle _ ⟨fun _ h => h, fun x hx => by cases hx⟩ rfl hnone

end JobGroup

-- == progress

/-- Job counts of a workflow, tallied from its jobs' statuses. -/
structure WorkflowProgress where
  completed : Nat
  failed : Nat

namespace WorkflowProgress

/-- The tally after one more job, of status `status` (`none` for a job
that is not stored). -/
def count (progress : WorkflowProgress) : Option JobStatus → WorkflowProgress
  | some .completed => { progress with completed := progress.completed + 1 }
  | some .failed | some .dead | some .timedOut =>
      { progress with failed := progress.failed + 1 }
  | _ => progress

/-- The workflow status the counts imply. -/
def status (progress : WorkflowProgress) (totalJobs : Nat) (policy : FailurePolicy)
    (current : WorkflowStatus) : WorkflowStatus :=
  if current = .cancelled then
    .cancelled
  else if 0 < totalJobs ∧ totalJobs ≤ progress.completed then
    .completed
  else if 0 < progress.failed ∧
      (policy = .failFast ∨ totalJobs ≤ progress.completed + progress.failed) then
    .failed
  else
    .running

end WorkflowProgress

end Hammerwork
