/-
A run reported as to be retried.

The in-memory queue records such a report by the manual `retryJob`,
which re-evaluates the job's dependencies; the database backends write
it to the row as it is (`retryInTx`). The two agree when re-evaluating
changes nothing (`KeepsDependencyStatus`). A job that runs with
dependencies it does not wait on, as a spawned child does, is where they
part: its dependencies are judged although it is running already, so its
status changes, or the report is refused because one of them is gone.
-/
import Hammerwork.Transaction
import Hammerwork.Laws.Spawning

namespace Hammerwork

open TestStorage TestQueue

variable {s s' : TestStorage} {run current : Job}

/-- Re-evaluating the job's dependencies leaves its dependency status as
it is: it has none, they were satisfied, or it waits on dependencies of
which none is gone or failed, and not all completed. -/
def KeepsDependencyStatus (s : TestStorage) (job : Job) : Prop :=
  job.dependsOn = [] ∨ job.dependencyStatus = .satisfied ∨
    (job.dependencyStatus = .waiting ∧
      (∀ d ∈ job.dependsOn, ∃ st, s.statusWithArchived d = some st ∧ ¬ st.EndedInFailure) ∧
      ∃ d ∈ job.dependsOn, s.statusWithArchived d ≠ some .completed)

/-- Among the dependencies of a job, the statuses it is judged by are
theirs. -/
theorem dependencyStates_of_mem {ids : List JobId} {d : JobId} (hd : d ∈ ids) :
    s.dependencyStates ids d = s.statusWithArchived d := if_pos hd

theorem checkDependencies_states {ids : List JobId} {all : Bool} :
    checkDependencies (s.dependencyStates ids) ids = .ok all ↔
      (∀ d ∈ ids, ∃ st, s.statusWithArchived d = some st ∧ ¬ st.EndedInFailure) ∧
        (all = true ↔ ∀ d ∈ ids, s.statusWithArchived d = some .completed) := by
  have hstates : ∀ d ∈ ids, s.dependencyStates ids d = s.statusWithArchived d :=
    fun d hd => dependencyStates_of_mem hd
  rw [checkDependencies_ok_iff]
  refine and_congr (forall₂_congr fun d hd => ?_) (iff_congr Iff.rfl (forall₂_congr fun d hd => ?_))
  · rw [hstates d hd]
  · rw [hstates d hd]

/-- What re-evaluating a job's dependencies gives. -/
theorem reevaluated_ok_iff {job : Job} {action : String} {status : Option DependencyStatus} :
    reevaluated s job action = .ok status ↔
      (job.dependsOn = [] ∧ status = none) ∨
      (job.dependsOn ≠ [] ∧ job.dependencyStatus = .satisfied ∧ status = some .satisfied) ∨
      (job.dependsOn ≠ [] ∧ job.dependencyStatus ≠ .satisfied ∧ ∃ all,
        checkDependencies (s.dependencyStates job.dependsOn) job.dependsOn = .ok all ∧
        status = some (if all then .satisfied else .waiting)) := by
  unfold reevaluated
  by_cases hempty : job.dependsOn = []
  · simp [hempty, eq_comm]
  · rw [if_neg (by simpa using hempty)]
    unfold reevaluateDependencies
    rw [if_neg (by simpa using hempty)]
    by_cases hsat : job.dependencyStatus = .satisfied
    · simp [hsat, hempty, Except.map, eq_comm]
    · rw [if_neg hsat]
      cases hcheck : checkDependencies (s.dependencyStates job.dependsOn) job.dependsOn with
      | error e => simp [hempty, hsat, Except.map]
      | ok all => cases all <;> simp [hempty, hsat, Except.map, eq_comm]

theorem reevaluated_keeps_iff {job : Job} {action : String} :
    (∃ status, reevaluated s job action = .ok status ∧
      status.getD job.dependencyStatus = job.dependencyStatus) ↔
      KeepsDependencyStatus s job := by
  constructor
  · intro ⟨status, hok, hkept⟩
    rcases reevaluated_ok_iff.1 hok with ⟨hempty, -⟩ | ⟨-, hsat, -⟩ | ⟨-, hsat, all, hcheck, rfl⟩
    · exact .inl hempty
    · exact .inr (.inl hsat)
    · cases all with
      | true => exact absurd hkept.symm hsat
      | false =>
          obtain ⟨hok, hall⟩ := checkDependencies_states.1 hcheck
          refine .inr (.inr ⟨hkept.symm, hok, ?_⟩)
          by_contra hcompleted
          push Not at hcompleted
          cases hall.2 hcompleted
  · intro hkeeps
    by_cases hempty : job.dependsOn = []
    · exact ⟨none, reevaluated_ok_iff.2 (.inl ⟨hempty, rfl⟩), rfl⟩
    · rcases hkeeps with h | hsat | ⟨hwaiting, hok, d, hd, hnot⟩
      · exact absurd h hempty
      · exact ⟨_, reevaluated_ok_iff.2 (.inr (.inl ⟨hempty, hsat, rfl⟩)), hsat.symm⟩
      · refine ⟨_, reevaluated_ok_iff.2 (.inr (.inr ⟨hempty, by simp [hwaiting], false,
          checkDependencies_states.2 ⟨hok, ?_⟩, rfl⟩)), hwaiting.symm⟩
        exact ⟨fun h => (by cases h), fun hall => absurd (hall d hd) hnot⟩

/-- What a report of a run to be retried is to do: it is recorded, and
the job's row is what a transaction for that run would write, pending,
due at the moved retry time, with the dependency status it had. -/
structure RetryRecorded (s : TestStorage) (run current : Job) (retryAt : DateTime)
    (error : String) (timedOut : Bool) (wall : DateTime)
    (result : Result (Option RecordedOutcome)) : Prop where
  recorded : result.1 = .ok (some (.new .pending))
  row : ∃ row, result.2.jobs.lookup run.id = some row ∧ row.status = .pending ∧
    row.scheduledAt = retryAtOnClock s retryAt wall ∧
    row.dependencyStatus = current.dependencyStatus ∧
    retryInTx (some current) (.run run) retryAt (some error) timedOut
      (s.dependencyStates current.dependsOn) s.clock wall
        = .ok (.applied (.new .pending), some row)

/-- A row retried with the dependency status it had is what the
transaction writes. -/
theorem write_retry {dependencyStatus : Option DependencyStatus} (retryAt : DateTime)
    (error : String) (timedOut : Bool) (now : DateTime)
    (h : dependencyStatus.getD current.dependencyStatus = current.dependencyStatus) :
    (Target.retry retryAt (some error) timedOut).write now current
      = (current.retried retryAt dependencyStatus).withRunError error timedOut now := by
  unfold Target.write Job.withRunError Job.retried
  rw [h]
  cases timedOut <;> rfl

/-- Reporting the current run of a job as to be retried is recorded, and
as a transaction would record it, exactly if re-evaluating the job's
dependencies keeps their status. -/
theorem retry_recorded_iff (cron : CronLibrary) (s : TestStorage) (run current : Job)
    (hlookup : s.jobs.lookup run.id = some current)
    (hadmits : (Guard.run run).admits current = true) (retryAt : DateTime) (error : String)
    (timedOut : Bool) (wall : DateTime) :
    RetryRecorded s run current retryAt error timedOut wall
        (finishJobRun cron s run (.retry retryAt error timedOut) wall) ↔
      KeepsDependencyStatus s current := by
  have hrun : runIsCurrent s run = true := isJob_iff.2 ⟨current, hlookup, hadmits⟩
  have hown : ∀ {job}, Current s run job → job = current := fun hcur =>
    Option.some.inj (hcur.lookup.symm.trans hlookup)
  rw [← @reevaluated_keeps_iff s current "retried"]
  have hspec := finishJobRun_spec cron s run (.retry retryAt error timedOut) wall
  generalize finishJobRun cron s run (.retry retryAt error timedOut) wall = result at hspec
  cases hspec with
  | stale h => rw [hrun] at h; cases h
  | refused hcur hdep =>
      obtain rfl := hown hcur
      constructor
      · intro h
        cases h.recorded
      · intro ⟨status, hok, _⟩
        rw [hdep] at hok
        cases hok
  | retried hcur hdep hr hr' =>
      obtain rfl := hown hcur
      constructor
      · intro h
        obtain ⟨row, hrow, -, -, hkept, -⟩ := h.row
        rw [hr'.lookup_self] at hrow
        injection hrow with hrow
        subst hrow
        exact ⟨_, hdep, hkept⟩
      · intro ⟨status, hok, hkept⟩
        rw [hdep] at hok
        injection hok with hok
        subst hok
        refine ⟨rfl, _, hr'.lookup_self, rfl, rfl, hkept, ?_⟩
        rw [retryInTx_run hadmits, write_retry _ _ _ _ hkept]
        rfl
  | ended hends => cases hends
  | endedRerun hends => cases hends

/-- The parent of a spawned child completes and is deleted while the
child runs. -/
def orphanedChild : List Op :=
  spawnsOne ++ [.dequeue "mail" none 0 1, .deleteJob 1]

/-- The handle of the child's run. -/
def childRun : Job := spawnedChild.claimed 0

/-- A first job reports a retry. -/
theorem retry_recorded_iff_claimedParent :
    RetryRecorded (Op.applyAll plainEnv claimedParent (TestStorage.new 0)) (parentJob.claimed 0)
      (parentJob.claimed 0) 60 "no mailbox" false 0
      (finishJobRun midnightCron (Op.applyAll plainEnv claimedParent (TestStorage.new 0))
        (parentJob.claimed 0) (.retry 60 "no mailbox" false) 0) :=
  (retry_recorded_iff midnightCron _ (parentJob.claimed 0) (parentJob.claimed 0) rfl rfl 60
    "no mailbox" false 0).2 (.inl rfl)

/-- The child's report is refused, although its run is current. -/
theorem childRun_refused : ∃ s current, Reachable plainEnv s ∧
    s.jobs.lookup 3 = some current ∧ (Guard.run childRun).admits current = true ∧
    ¬ RetryRecorded s childRun current 60 "no mailbox" false 0
      (finishJobRun midnightCron s childRun (.retry 60 "no mailbox" false) 0) := by
  have hcur : (Op.applyAll plainEnv orphanedChild (TestStorage.new 0)).isJob 3
      (Guard.run childRun).admits = true := by decide +kernel
  have herror : (match (finishJobRun midnightCron
      (Op.applyAll plainEnv orphanedChild (TestStorage.new 0)) childRun
      (.retry 60 "no mailbox" false) 0).1 with
    | .ok _ => false
    | .error _ => true) = true := by decide +kernel
  obtain ⟨current, hlookup, hadmits⟩ := isJob_iff.1 hcur
  refine ⟨_, current, reachable_applyAll plainEnv orphanedChild 0, hlookup, hadmits,
    fun h => ?_⟩
  rw [h.recorded] at herror
  cases herror

end Hammerwork
