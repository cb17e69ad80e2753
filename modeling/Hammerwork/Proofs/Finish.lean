/-
What reporting a run does.

`finishJobRun` is a guard and then one or two sections. Called at a
single point it has a handful of results, which `Finish` lists: nothing
for a run that is no longer current; a refusal to retry; and, for each
outcome, the record written and what the end of the job brought about.
Two writes to the same record are one rewrite here.
-/
import Hammerwork.Proofs.Sections

namespace Hammerwork

namespace TestQueue

open TestStorage

variable {s s' : TestStorage} {id : JobId} {run job : Job} {cron : CronLibrary}
variable {outcome : JobOutcome} {wall : DateTime}

-- == admitted ends

theorem checkTransition_of {transition : JobTransition} (h : s.jobs.lookup id = some job)
    (hallowed : transition.isAllowedFrom job.status = true) :
    s.checkTransition id transition = .ok () :=
  checkTransition_ok.2 ⟨job, h, hallowed⟩

theorem completeAndResolve_isOk (h : s.jobs.lookup id = some job)
    (hallowed : JobTransition.complete.isAllowedFrom job.status = true) :
    ∃ out, completeAndResolve s id = .ok out := by
  unfold completeAndResolve
  rw [checkTransition_of h hallowed, updateJobStatus_eq h]
  exact ⟨_, rfl⟩

theorem endWithFailure_isOk {status : JobStatus} (h : s.jobs.lookup id = some job)
    (hallowed : (if status = .timedOut then JobTransition.markTimedOut
      else .markDead).isAllowedFrom job.status = true) (error : String) (applyPolicy : Bool) :
    ∃ out, endWithFailure s id status error applyPolicy = .ok out := by
  unfold endWithFailure
  dsimp only
  rw [checkTransition_of h hallowed, updateJobStatus_eq h]
  cases applyPolicy <;> exact ⟨_, rfl⟩

theorem retryJob_isOk {dependencyStatus : Option DependencyStatus} (retryAt : DateTime)
    (h : s.jobs.lookup id = some job)
    (hallowed : JobTransition.retry.isAllowedFrom job.status = true)
    (hdep : reevaluated s job "retried" = .ok dependencyStatus) :
    ∃ out, retryJob s id retryAt = .ok out := by
  unfold retryJob
  rw [checkTransition_of h hallowed, h, updateJobStatus_eq h]
  refine ⟨_, bind_eq_ok.2 ⟨(), rfl, bind_eq_ok.2 ⟨_, hdep, rfl⟩⟩⟩

theorem retryJob_refused {e : HammerworkError} (retryAt : DateTime)
    (h : s.jobs.lookup id = some job)
    (hallowed : JobTransition.retry.isAllowedFrom job.status = true)
    (hdep : reevaluated s job "retried" = .error e) : retryJob s id retryAt = .error e := by
  unfold retryJob
  rw [checkTransition_of h hallowed, h]
  show (reevaluated s job "retried" >>= _) = _
  rw [hdep]
  rfl

/-- A running job accepts every outcome. -/
theorem isAllowedFrom_running {transition : JobTransition}
    (h : transition ≠ .retryDead) : transition.isAllowedFrom .running = true := by
  cases transition <;> first | rfl | exact absurd rfl h

-- == the guard

/-- The job `run` is a handle of, running that run. -/
structure Current (s : TestStorage) (run job : Job) : Prop where
  lookup : s.jobs.lookup run.id = some job
  status : job.status = .running
  same : isSameRun job run = true

theorem runIsCurrent_eq_true : runIsCurrent s run = true ↔ ∃ job, Current s run job :=
  runIsCurrent_iff.trans
    ⟨fun ⟨job, h₁, h₂, h₃⟩ => ⟨job, h₁, h₂, h₃⟩, fun ⟨job, h⟩ => ⟨job, h.1, h.2, h.3⟩⟩

/-- When a recurring job whose run ended runs next. -/
def rerunAt (cron : CronLibrary) (s : TestStorage) (job : Job) (outcome : JobOutcome) :
    Option DateTime :=
  if outcome.terminalStatus.isSome && job.recurring then nextCronRun cron job s.clock else none

theorem finishGuard_stale (h : runIsCurrent s run = false) :
    finishGuard cron s run outcome = none := by
  unfold finishGuard
  unfold runIsCurrent isJob at h
  cases hlookup : s.jobs.lookup run.id with
  | none => rfl
  | some job =>
      rw [hlookup, Option.any_some] at h
      simp [h]

theorem finishGuard_current (h : Current s run job) :
    finishGuard cron s run outcome = some (rerunAt cron s job outcome) := by
  have hadmits : (Guard.run run).admits job = true := by
    simp [Guard.admits, h.status, h.same]
  unfold finishGuard rerunAt
  rw [h.lookup]
  dsimp only
  rw [hadmits]
  cases outcome.terminalStatus.isSome && job.recurring <;> rfl

-- == the results

/-- What an outcome that ends a job in failure says. -/
inductive Ends : JobOutcome → JobStatus → String → Prop
  | dead (error : String) : Ends (.dead error) .dead error
  | timedOut (error : String) : Ends (.timedOut error) .timedOut error

/-- What recording how `run` ended can return and leave. -/
inductive Finish (cron : CronLibrary) (s : TestStorage) (run : Job) :
    JobOutcome → DateTime → Result (Option RecordedOutcome) → Prop
  | stale {outcome : JobOutcome} {wall : DateTime} : runIsCurrent s run = false →
      Finish cron s run outcome wall (.ok none, s)
  | completed {wall : DateTime} {job : Job} {s₁ : TestStorage} : Current s run job →
      rerunAt cron s job .completed = none →
      Rewrite s run.id (job.completedAtTime s.clock) s₁ →
      Finish cron s run .completed wall
        (.ok (some { RecordedOutcome.new .completed with
          unblocked := (s₁.resolveDependents run.id s.clock).2 }),
          (s₁.resolveDependents run.id s.clock).1)
  | rerun {wall next : DateTime} {job : Job} {s' : TestStorage} : Current s run job →
      rerunAt cron s job .completed = some next →
      Rewrite s run.id (job.rescheduled next false) s' →
      Finish cron s run .completed wall
        (.ok (some { RecordedOutcome.new .completed with
          status := .pending, nextRunAt := some next }), s')
  | refused {wall retryAt : DateTime} {error : String} {timedOut : Bool} {job : Job}
      {e : HammerworkError} : Current s run job → reevaluated s job "retried" = .error e →
      Finish cron s run (.retry retryAt error timedOut) wall (.error e, s)
  | retried {wall retryAt : DateTime} {error : String} {timedOut : Bool} {job : Job}
      {dependencyStatus : Option DependencyStatus} {s₁ s' : TestStorage} :
      Current s run job → reevaluated s job "retried" = .ok dependencyStatus →
      Rewrite s run.id (job.retried (retryAtOnClock s retryAt wall) dependencyStatus) s₁ →
      Rewrite s₁ run.id ((job.retried (retryAtOnClock s retryAt wall)
        dependencyStatus).withRunError error timedOut s.clock) s' →
      Finish cron s run (.retry retryAt error timedOut) wall
        (.ok (some (RecordedOutcome.new .pending)), s')
  | ended {outcome : JobOutcome} {wall : DateTime} {status : JobStatus} {error : String}
      {job : Job} {s₁ : TestStorage} {cancelled : List JobId} : Ends outcome status error →
      Current s run job → rerunAt cron s job outcome = none →
      Rewrite s run.id (job.ended status error s.clock) s₁ →
      Finish cron s run outcome wall
        (.ok (some { RecordedOutcome.new status with cancelled := cancelled }),
          applyPolicies s₁ run.id)
  | endedRerun {outcome : JobOutcome} {wall next : DateTime} {status : JobStatus}
      {error : String} {job : Job} {s' : TestStorage} {recorded : RecordedOutcome} :
      Ends outcome status error →
      Current s run job → rerunAt cron s job outcome = some next →
      Rewrite s run.id ((job.ended status error s.clock).rescheduled next true) s' →
      Finish cron s run outcome wall (.ok (some recorded), s')

/-- Rescheduling a rewritten job. -/
private theorem reschedule_rewritten {s₁ : TestStorage} (hr : Rewrite s id job s₁)
    (next : DateTime) (keepFailure : Bool) :
    ∃ s', s₁.rescheduleInPlace id next keepFailure = .ok s' ∧
      Rewrite s id (job.rescheduled next keepFailure) s' := by
  obtain ⟨s', hs'⟩ := rescheduleInPlace_isOk hr.lookup_self next keepFailure
  obtain ⟨job', hlookup, hr'⟩ := rescheduleInPlace_ok hs'
  rw [hr.lookup_self] at hlookup
  injection hlookup with hlookup
  subst hlookup
  exact ⟨s', hs', hr.trans hr'⟩

private theorem finish_completed (hcur : Current s run job) :
    Finish cron s run .completed wall (finishJobRun cron s run .completed wall) := by
  unfold finishJobRun
  rw [finishGuard_current hcur]
  dsimp only
  cases hnext : rerunAt cron s job .completed with
  | none =>
      have hallowed : JobTransition.complete.isAllowedFrom job.status = true := by
        rw [hcur.status]
        rfl
      obtain ⟨⟨s', ids⟩, hok⟩ := completeAndResolve_isOk hcur.lookup hallowed
      obtain ⟨job', s₁, hlookup, -, hr, hres⟩ := completeAndResolve_ok hok
      rw [hcur.lookup] at hlookup
      injection hlookup with hlookup
      subst hlookup
      have h : Finish cron s run .completed wall _ := .completed hcur hnext hr
      rw [hres] at h
      have heq : recordOutcome s run .completed none wall
          = .ok (s', { RecordedOutcome.new .completed with unblocked := ids }) := by
        unfold recordOutcome
        rw [hok]
        rfl
      rw [heq]
      exact h
  | some next =>
      obtain ⟨s', hs'⟩ := rescheduleInPlace_isOk hcur.lookup next false
      obtain ⟨job', hlookup, hr⟩ := rescheduleInPlace_ok hs'
      rw [hcur.lookup] at hlookup
      injection hlookup with hlookup
      subst hlookup
      have heq : recordOutcome s run .completed (some next) wall
          = .ok (s, .new .completed) := rfl
      rw [heq]
      dsimp only
      have hkeep : decide ((RecordedOutcome.new .completed).status ≠ .completed) = false := rfl
      rw [hkeep, hs']
      exact .rerun hcur hnext hr

private theorem finish_retry {retryAt : DateTime} {error : String} {timedOut : Bool}
    (hcur : Current s run job) :
    Finish cron s run (.retry retryAt error timedOut) wall
      (finishJobRun cron s run (.retry retryAt error timedOut) wall) := by
  unfold finishJobRun
  rw [finishGuard_current hcur]
  have hallowed : JobTransition.retry.isAllowedFrom job.status = true := by
    rw [hcur.status]
    rfl
  have hnone : rerunAt cron s job (.retry retryAt error timedOut) = none := rfl
  rw [hnone]
  dsimp only [recordOutcome]
  cases hdep : reevaluated s job "retried" with
  | error e =>
      rw [retryJob_refused _ hcur.lookup hallowed hdep]
      exact .refused hcur hdep
  | ok dependencyStatus =>
      obtain ⟨⟨s₁, ⟨⟩⟩, hok⟩ := retryJob_isOk (retryAtOnClock s retryAt wall) hcur.lookup
        hallowed hdep
      obtain ⟨job', dep', hlookup, -, hdep', hr⟩ := retryJob_ok hok
      rw [hcur.lookup] at hlookup
      injection hlookup with hlookup
      subst hlookup
      rw [hdep] at hdep'
      injection hdep' with hdep'
      subst hdep'
      have hr' := recordRunError_rewrite hr.lookup_self error timedOut
      rw [hr.rest.clock] at hr'
      rw [hok]
      exact .retried hcur hdep hr hr'

/-- Reporting a failure ends the job, with or without the policies. -/
private theorem recordOutcome_ends {status : JobStatus} {error : String}
    (h : Ends outcome status error) (next : Option DateTime) :
    recordOutcome s run outcome next wall
      = (endWithFailure s run.id status error next.isNone).map fun out =>
        (out.1, { RecordedOutcome.new status with cancelled := out.2 }) := by
  cases h <;> (unfold recordOutcome; dsimp only; cases endWithFailure s run.id _ _ _ <;> rfl)

private theorem finish_ended {status : JobStatus} {error : String}
    (hends : Ends outcome status error) (hcur : Current s run job) :
    Finish cron s run outcome wall (finishJobRun cron s run outcome wall) := by
  unfold finishJobRun
  rw [finishGuard_current hcur]
  dsimp only
  rw [recordOutcome_ends hends]
  have hallowed : (if status = .timedOut then JobTransition.markTimedOut
      else .markDead).isAllowedFrom job.status = true := by
    rw [hcur.status]
    split <;> rfl
  obtain ⟨⟨s', ids⟩, hok⟩ := endWithFailure_isOk hcur.lookup hallowed error
    (rerunAt cron s job outcome).isNone
  obtain ⟨job', s₁, hlookup, -, hr, hs'⟩ := endWithFailure_ok hok
  rw [hcur.lookup] at hlookup
  injection hlookup with hlookup
  subst hlookup
  rw [hok]
  cases hnext : rerunAt cron s job outcome with
  | none =>
      replace hs' : s' = applyPolicies s₁ run.id := by rw [hs', hnext]; rfl
      subst hs'
      exact .ended hends hcur hnext hr
  | some next =>
      replace hs' : s' = s₁ := by rw [hs', hnext]; rfl
      subst hs'
      obtain ⟨s₂, hs₂, hr₂⟩ := reschedule_rewritten hr next true
      dsimp only [Except.map]
      have hkeep : decide (status ≠ .completed) = true := by
        cases hends <;> rfl
      have hstatus : (RecordedOutcome.new status).status = status := rfl
      rw [hstatus, hkeep, hs₂]
      exact .endedRerun hends hcur hnext hr₂

/-- Every report is one of these. -/
theorem finishJobRun_spec (cron : CronLibrary) (s : TestStorage) (run : Job)
    (outcome : JobOutcome) (wall : DateTime) :
    Finish cron s run outcome wall (finishJobRun cron s run outcome wall) := by
  cases hcur : runIsCurrent s run with
  | false =>
      unfold finishJobRun
      rw [finishGuard_stale hcur]
      exact .stale hcur
  | true =>
      obtain ⟨job, hcur⟩ := runIsCurrent_eq_true.1 hcur
      cases outcome with
      | completed => exact finish_completed hcur
      | retry retryAt error timedOut => exact finish_retry hcur
      | dead error => exact finish_ended (.dead error) hcur
      | timedOut error => exact finish_ended (.timedOut error) hcur

end TestQueue

end Hammerwork
