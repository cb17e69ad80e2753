/-
Dependency levels of a list of jobs, as the command line shows them.

The level of a job is found by recursion over its dependencies, each job
visited once; a job is marked as visited before its level is known. Hash
maps are association lists, and what one iterates in is any order
(`Iteration`).
-/
import Hammerwork.Lib.MemoSearch
import Mathlib.Data.List.Sort
import Mathlib.Data.String.Basic

namespace Hammerwork

namespace WorkflowCommand

structure JobNode where
  id : String
  queueName : String
  status : String
  dependencyStatus : String
  dependsOn : List String
  dependents : List String
  workflowId : Option String
  workflowName : Option String
  deriving DecidableEq

/-- The order in which a hash map gives its entries. -/
structure Iteration where
  order : ∀ {α : Type}, List α → List α
  perm : ∀ {α : Type} (entries : List α), (order entries).Perm entries

/-- The jobs visited, and the levels of those that have one. -/
abbrev Levels := MemoSearch.Memo String Nat

/-- The levels of dependencies, calculating those of jobs not visited. -/
def depLevels (calculateJobLevel : JobNode → Levels → Option Levels)
    (jobMap : AList fun _ : String => JobNode) :
    List String → Levels → Option (List Nat × Levels)
  | [], levels => some ([], levels)
  | depId :: dependsOn, levels =>
      match jobMap.lookup depId with
      | some depJob =>
          match if depId ∈ levels.visited then some levels else calculateJobLevel depJob levels with
          | none => none
          | some levels =>
              match depLevels calculateJobLevel jobMap dependsOn levels with
              | none => none
              | some (found, levels') =>
                  some ((levels.values.lookup depId).toList ++ found, levels')
      | none => depLevels calculateJobLevel jobMap dependsOn levels

/-- Calculates the level of `job`, recursing at most `fuel` deep. -/
def calculateJobLevel (jobMap : AList fun _ : String => JobNode) :
    Nat → JobNode → Levels → Option Levels
  | 0, _, _ => none
  | fuel + 1, job, levels =>
      if job.id ∈ levels.visited then
        some levels
      else
        match depLevels (calculateJobLevel jobMap fuel) jobMap job.dependsOn
            (levels.enter job.id) with
        | none => none
        | some (found, levels) =>
            let maxDepLevel := found.max?.getD 0
            let jobLevel := maxDepLevel + if job.dependsOn.isEmpty then 0 else 1
            some (levels.store job.id jobLevel)

/-- Calculates the levels of jobs in turn. -/
def calculateJobLevels (jobMap : AList fun _ : String => JobNode) (fuel : Nat) :
    List JobNode → Levels → Option Levels
  | [], levels => some levels
  | job :: jobs, levels =>
      match if job.id ∈ levels.visited then some levels
          else calculateJobLevel jobMap fuel job levels with
      | none => none
      | some levels => calculateJobLevels jobMap fuel jobs levels

/-- The jobs by their ids; of several with one id the last. -/
def jobMapOf (jobs : List JobNode) : AList fun _ : String => JobNode :=
  jobs.foldl (fun jobMap job => jobMap.insert job.id job) ∅

/-- Adds a job at its level. -/
def pushAtLevel (jobMap : AList fun _ : String => JobNode)
    (result : AList fun _ : Nat => List JobNode) (entry : (_ : String) × Nat) :
    AList fun _ : Nat => List JobNode :=
  match jobMap.lookup entry.1 with
  | some job => result.insert entry.2 ((result.lookup entry.2).getD [] ++ [job])
  | none => result

/-- Groups jobs by level, and sorts the levels, and the jobs of each. -/
def groupByLevel (iteration : Iteration) (jobMap : AList fun _ : String => JobNode)
    (levels : AList fun _ : String => Nat) : List (Nat × List JobNode) :=
  let result := (iteration.order levels.entries).foldl (pushAtLevel jobMap) ∅
  let result := (iteration.order result.entries).map fun entry => (entry.1, entry.2)
  let result := result.insertionSort fun a b => a.1 ≤ b.1
  result.map fun (level, atLevel) => (level, atLevel.insertionSort fun a b => a.id ≤ b.id)

/-- The jobs by level; `none` if the recursion were to go deeper than there
are jobs. -/
def calculateDependencyLevels (iteration : Iteration) (jobs : List JobNode) :
    Option (List (Nat × List JobNode)) :=
  match calculateJobLevels (jobMapOf jobs) jobs.length jobs ⟨∅, ∅⟩ with
  | none => none
  | some levels => some (groupByLevel iteration (jobMapOf jobs) levels.values)

end WorkflowCommand

end Hammerwork
