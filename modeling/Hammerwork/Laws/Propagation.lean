/-
Two propagations of a failure, compared.

Both queues fail, from one failed job on, every pending job that
transitively depends on it. They judge a dependent differently: the
in-memory queue takes any pending job whose dependencies have not failed
yet, and also follows the dependency maps of its workflows; the database
statement takes a row that is waiting or released, and only knows the
row's own `depends_on`.

So the jobs failed in memory include those failed in the database, and
they are the same unless a dependent is overlooked there
(`same_jobs_fail_iff`). A job that depends on others but whose
dependency status is `None` is such a dependent: it is what a spawned
child is (`nightlyOutcome`).
-/
import Hammerwork.Postgres
import Hammerwork.Proofs.Calls
import Hammerwork.Spawn

namespace Hammerwork

open TestStorage TestQueue

variable {s : TestStorage} {root k : JobId} {now : DateTime}

-- == the two graphs

/-- A job that waits or was released can fail as a dependent. -/
theorem canFailAsDependent_of_awaits {job : Job} (h : Postgres.awaits job = true) :
    canFailAsDependent job = true ∧ job.dependencyStatus ≠ .none := by
  unfold Postgres.awaits at h
  unfold canFailAsDependent
  simp only [Bool.and_eq_true, Bool.or_eq_true, decide_eq_true_eq] at h ⊢
  obtain ⟨hdep | hdep, hst⟩ := h <;> simp [hdep, hst]

/-- The converse, for a job with a dependency status. -/
theorem awaits_of_canFailAsDependent {job : Job} (h : canFailAsDependent job = true)
    (hnone : job.dependencyStatus ≠ .none) : Postgres.awaits job = true := by
  unfold canFailAsDependent at h
  unfold Postgres.awaits
  simp only [Bool.and_eq_true, decide_eq_true_eq] at h
  cases hdep : job.dependencyStatus <;> simp_all

/-- What the database fails is failed in memory. -/
theorem downstream_of_onChain (hk : s.Keyed) (h : Postgres.OnChain s.jobs root k) :
    Downstream s root k := by
  refine Worklist.Reached.mono (fun c y hy => ?_) (fun y hy => ?_) h
  · obtain ⟨row, hrow, hdep⟩ := Postgres.mem_dependentRows.1 hy
    exact hk.mem_directDependents.2 (.inr ⟨row, hrow, hdep⟩)
  · obtain ⟨row, hrow, hawaits⟩ := isJob_iff.1 (show s.isJob y Postgres.awaits = true from hy)
    exact isJob_iff.2 ⟨row, hrow, (canFailAsDependent_of_awaits hawaits).1⟩

-- == overlooked dependents

/-- The database overlooks the pending dependent `k` of `root`, or of a
row on a chain from it: `k` has no dependency status, or only a
workflow's map makes it a dependent and no chain of rows leads to it. -/
def Overlooked (s : TestStorage) (root k : JobId) : Prop :=
  ∃ current job, (current = root ∨ Postgres.OnChain s.jobs root current) ∧
    k ∈ s.directDependents current ∧ s.jobs.lookup k = some job ∧ job.status = .pending ∧
    (job.dependencyStatus = .none ∨
      (job.dependencyStatus ≠ .failed ∧ current ∉ job.dependsOn ∧
        ¬ Postgres.OnChain s.jobs root k))

/-- What is overlooked is failed in memory only. -/
theorem downstream_of_overlooked (hk : s.Keyed) (h : Overlooked s root k) :
    Downstream s root k ∧ ¬ Postgres.OnChain s.jobs root k := by
  obtain ⟨current, job, hcurrent, hdep, hlookup, hst, hreason⟩ := h
  have hcan : s.isJob k canFailAsDependent = true := by
    refine isJob_iff.2 ⟨job, hlookup, ?_⟩
    unfold canFailAsDependent
    rcases hreason with hnone | ⟨hne, -⟩
    · simp [hst, hnone]
    · simp [hst, hne]
  constructor
  · rcases hcurrent with rfl | hchain
    · exact .direct hdep hcan
    · exact .step (downstream_of_onChain hk hchain) hdep hcan
  · intro hchain
    rcases hreason with hnone | ⟨-, -, hoff⟩
    · obtain ⟨row, hrow, hawaits⟩ :=
        isJob_iff.1 (show s.isJob k Postgres.awaits = true from hchain.isFresh)
      rw [hlookup] at hrow
      cases hrow
      exact (canFailAsDependent_of_awaits hawaits).2 hnone
    · exact hoff hchain

/-- What is failed in memory is on a chain of rows, when nothing is
overlooked. -/
theorem onChain_of_downstream (hseen : ∀ k, ¬ Overlooked s root k)
    (h : Downstream s root k) : Postgres.OnChain s.jobs root k := by
  -- one step, from the root or from a row that is on a chain
  have hstep : ∀ {current k : JobId}, (current = root ∨ Postgres.OnChain s.jobs root current) →
      k ∈ s.directDependents current → s.isJob k canFailAsDependent = true →
      Postgres.OnChain s.jobs root k := by
    intro current k hcurrent hdep hcan
    obtain ⟨job, hlookup, hjob⟩ := isJob_iff.1 hcan
    have hst : job.status = .pending ∧ job.dependencyStatus ≠ .failed := by
      simpa [canFailAsDependent] using hjob
    by_contra hoff
    refine hseen k ⟨current, job, hcurrent, hdep, hlookup, hst.1, ?_⟩
    by_cases hnone : job.dependencyStatus = .none
    · exact .inl hnone
    · refine .inr ⟨hst.2, fun hdeps => hoff ?_, hoff⟩
      have hrow : k ∈ Postgres.dependentRows s.jobs current :=
        Postgres.mem_dependentRows.2 ⟨job, hlookup, hdeps⟩
      have hawaits : (s.jobs.lookup k).any Postgres.awaits = true := by
        rw [hlookup]
        exact awaits_of_canFailAsDependent hjob hnone
      rcases hcurrent with rfl | hchain
      · exact .direct hrow hawaits
      · exact .step hchain hrow hawaits
  induction h with
  | direct hdep hcan => exact hstep (.inl rfl) hdep hcan
  | step _ hdep hcan ih => exact hstep (.inr ih) hdep hcan

/-- The two propagations fail the same jobs iff the database overlooks
no dependent. -/
theorem same_jobs_fail_iff (hk : s.Keyed) (root : JobId) (now : DateTime) :
    (∀ k, k ∈ (s.failDependents root now).2 ↔
        k ∈ (Postgres.failDependents s.jobs root now).2) ↔
      ∀ k, ¬ Overlooked s root k := by
  simp only [mem_failDependents, Postgres.mem_failDependents]
  constructor
  · intro hsame k hover
    obtain ⟨hdown, hoff⟩ := downstream_of_overlooked hk hover
    exact hoff ((hsame k).1 hdown)
  · intro hseen k
    exact ⟨onChain_of_downstream hseen, downstream_of_onChain hk⟩

/-- A waiting job is seen. -/
theorem same_jobs_fail_iff_dependentJob :
    let s := Op.applyAll plainEnv [.enqueue parentJob, .enqueue dependentJob] (TestStorage.new 0)
    (∀ k, k ∈ (s.failDependents 1 5).2 ↔ k ∈ (Postgres.failDependents s.jobs 1 5).2) ↔
      ∀ k, ¬ Overlooked s 1 k :=
  same_jobs_fail_iff
    (reachable_applyAll plainEnv [.enqueue parentJob, .enqueue dependentJob] 0).keyed 1 5

-- == a spawned child

/-- A job that runs every night. -/
def nightlyJob : Job :=
  { parentJob with cronSchedule := some "0 0 0 * * *", recurring := true }

/-- The child a nightly run spawns. -/
def nightlyChild : Job :=
  SpawnManager.prepareChild (nightlyJob.claimed 0) .default (Job.new 3 0 "mail" .null)

/-- A nightly run completes and spawns a child; the job itself is put
back for its next run. -/
def nightlyOutcome : List Op :=
  [.enqueue nightlyJob, .dequeue "mail" none 0 1,
    .completeJobRunWithChildren (nightlyJob.claimed 0) [nightlyChild] 0]

/-- When the nightly job then fails, its pending child is failed in
memory and left alone in the database. -/
theorem nightlyChild_fails_in_memory_only : ∃ s, Reachable plainEnv s ∧
    (s.failDependents 1 5).2 = [3] ∧ (Postgres.failDependents s.jobs 1 5).2 = [] := by
  refine ⟨_, reachable_applyAll plainEnv nightlyOutcome 0, ?_, ?_⟩
  · decide +kernel
  · decide +kernel

end Hammerwork
