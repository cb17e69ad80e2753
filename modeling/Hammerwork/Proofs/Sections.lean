/-
What each lock section writes.

One lemma for each section: what must have held for it to return without
an error, and the record it stored (a `Rewrite`), followed by the
policies and releases it went on to apply, left as calls. Nothing above
this file unfolds a section.

The records a section can store are named by what happened to the job
(`claimed`, `released`, `ended`, ...), so that later files speak of
records, not of the updates that made them.
-/
import Hammerwork.Proofs.Storage

namespace Hammerwork

/-- A sequence of steps succeeds when each does. -/
theorem bind_eq_ok {ε α β : Type _} {x : Except ε α} {f : α → Except ε β} {b : β} :
    (x >>= f) = .ok b ↔ ∃ a, x = .ok a ∧ f a = .ok b := by
  cases x <;> simp [bind, Except.bind]

theorem pure_eq_ok {ε α : Type _} {a b : α} : (pure a : Except ε α) = .ok b ↔ a = b := by
  simp [pure, Except.pure]

-- == records

namespace Job

/-- A claimed job. -/
def claimed (job : Job) (now : DateTime) : Job :=
  { job with status := .running, startedAt := some now, attempts := job.attempts + 1 }

/-- A claimed job put back unstarted. -/
def released (job : Job) : Job :=
  { job with status := .pending, startedAt := none, attempts := max (job.attempts - 1) 0 }

/-- A completed job. -/
def completedAtTime (job : Job) (now : DateTime) : Job :=
  { job with status := .completed, completedAt := some now }

/-- A job failed by hand. -/
def failedByHand (job : Job) (error : String) (now : DateTime) : Job :=
  { job with status := .failed, failedAt := some now, errorMessage := some error }

/-- A job ended `Dead` or `TimedOut`. -/
def ended (job : Job) (status : JobStatus) (error : String) (now : DateTime) : Job :=
  { job with
    status := status
    timedOutAt := if status = .timedOut then some now else job.timedOutAt
    failedAt := if status = .timedOut then job.failedAt else some now
    errorMessage := some error }

/-- A job put back to run at `retryAt`. -/
def retried (job : Job) (retryAt : DateTime) (dependencyStatus : Option DependencyStatus) :
    Job :=
  { job with
    status := .pending
    scheduledAt := retryAt
    startedAt := none
    dependencyStatus := dependencyStatus.getD job.dependencyStatus }

/-- A job with the error of its last run. -/
def withRunError (job : Job) (error : String) (timedOut : Bool) (now : DateTime) : Job :=
  { job with
    errorMessage := some error
    timedOutAt := if timedOut then some now else job.timedOutAt }

/-- A recurring job put back for its next run. -/
def rescheduled (job : Job) (nextRunAt : DateTime) (keepFailure : Bool) : Job :=
  { job with
    status := .pending
    scheduledAt := nextRunAt
    nextRunAt := some nextRunAt
    attempts := 0
    startedAt := none
    completedAt := none
    failedAt := if keepFailure then job.failedAt else none
    timedOutAt := if keepFailure then job.timedOutAt else none
    errorMessage := if keepFailure then job.errorMessage else none }

/-- A dead job put back. -/
def revived (job : Job) (now : DateTime) : Job :=
  { job with
    status := .pending
    attempts := 0
    errorMessage := none
    startedAt := none
    failedAt := none
    timedOutAt := none
    scheduledAt := now }

/-- A recurring job resumed at its next occurrence. -/
def resumed (job : Job) (next : DateTime) : Job :=
  { job with
    status := .pending
    recurring := true
    scheduledAt := next
    nextRunAt := some next
    attempts := 0
    startedAt := none
    completedAt := none
    failedAt := none
    timedOutAt := none
    errorMessage := none }

/-- A stale job buried. -/
def buried (job : Job) (now : DateTime) : Job :=
  { job with
    status := .dead
    failedAt := some now
    errorMessage := some staleJobErrorMessage }

/-- A stale job put back. -/
def requeued (job : Job) (now : DateTime) : Job :=
  { job with
    status := .pending
    scheduledAt := now
    startedAt := none
    errorMessage := some staleJobErrorMessage }

/-- An archived job put back. -/
def restored (job : Job) (dependencyStatus : Option DependencyStatus) (now : DateTime) :
    Job :=
  resetForRestore { job with
    dependencyStatus := dependencyStatus.getD job.dependencyStatus } now

end Job

namespace TestQueue

open TestStorage

variable {s s' : TestStorage} {id : JobId} {run : Job}

-- == claims and runs

theorem claim_ok {lease : Duration} {job : Option Job} (h : claim s id lease = .ok (s', job)) :
    ∃ job₀, s.jobs.lookup id = some job₀ ∧ Rewrite s id (job₀.claimed s.clock) s' ∧
      job = some (job₀.claimed s.clock) := by
  unfold claim at h
  cases hlookup : s.jobs.lookup id with
  | none =>
      rw [updateJobStatus_none hlookup] at h
      cases h
  | some job₀ =>
      rw [updateJobStatus_eq hlookup] at h
      obtain ⟨rfl, rfl⟩ := Prod.mk.inj (pure_eq_ok.1 h)
      have hr : Rewrite s id (job₀.claimed s.clock)
          (TestStorage.modifyJob
            { s.restatus id job₀ .running with
              leases := s.leases.insert id (s.clock, leaseExpiry s.clock lease) } id
            fun job => { job with startedAt := some s.clock, attempts := job.attempts + 1 }) :=
        rewrite_restatus hlookup .running
          (fun job => { job with startedAt := some s.clock, attempts := job.attempts + 1 })
          rfl rfl rfl rfl
      exact ⟨job₀, rfl, hr, hr.lookup_self⟩

theorem runIsCurrent_iff :
    runIsCurrent s run = true ↔ ∃ job, s.jobs.lookup run.id = some job ∧
      job.status = .running ∧ isSameRun job run = true := by
  unfold runIsCurrent
  rw [isJob_iff]
  simp [Guard.admits]

theorem releaseJobRun_ok {b : Bool} (h : releaseJobRun s run = .ok (s', b)) :
    (b = false ∧ s' = s ∧ runIsCurrent s run = false) ∨
    (b = true ∧ ∃ job, s.jobs.lookup run.id = some job ∧ job.status = .running ∧
      isSameRun job run = true ∧ Rewrite s run.id job.released s') := by
  unfold releaseJobRun at h
  split at h
  case isTrue hstale =>
    obtain ⟨rfl, rfl⟩ := Prod.mk.inj (pure_eq_ok.1 h)
    exact .inl ⟨rfl, rfl, by simpa using hstale⟩
  case isFalse hcur =>
    obtain ⟨job, hlookup, hst, hsame⟩ := runIsCurrent_iff.1 (by simpa using hcur)
    rw [updateJobStatus_eq hlookup] at h
    obtain ⟨rfl, rfl⟩ := Prod.mk.inj (pure_eq_ok.1 h)
    refine .inr ⟨rfl, job, hlookup, hst, hsame, ?_⟩
    exact rewrite_restatus hlookup .pending
      (fun job => { job with startedAt := none, attempts := max (job.attempts - 1) 0 })
      rfl rfl rfl rfl

theorem startClaimedRun_ok {lease : Duration} {b : Bool} {run' : Job}
    (h : startClaimedRun s run lease = .ok (s', b, run')) :
    (b = false ∧ s' = s ∧ run' = run ∧ runIsCurrent s run = false) ∨
    (b = true ∧ run' = { run with startedAt := some s.clock } ∧
      ∃ job, s.jobs.lookup run.id = some job ∧ job.status = .running ∧
        isSameRun job run = true ∧
        Rewrite s run.id { job with startedAt := some s.clock } s') := by
  unfold startClaimedRun at h
  split at h
  case isTrue hstale =>
    injection h with h
    obtain ⟨rfl, rfl, rfl⟩ : s = s' ∧ false = b ∧ run = run' := by simpa using h
    exact .inl ⟨rfl, rfl, rfl, by simpa using hstale⟩
  case isFalse hcur =>
    obtain ⟨job, hlookup, hst, hsame⟩ := runIsCurrent_iff.1 (by simpa using hcur)
    simp only [Except.ok.injEq, Prod.mk.injEq] at h
    obtain ⟨rfl, rfl, rfl⟩ := h
    refine .inr ⟨rfl, rfl, job, hlookup, hst, hsame, ?_⟩
    exact rewrite_modify hlookup (fun job => { job with startedAt := some s.clock })
      rfl rfl rfl rfl

-- == terminal ends

theorem completeAndResolve_ok {ids : List JobId}
    (h : completeAndResolve s id = .ok (s', ids)) :
    ∃ job s₁, s.jobs.lookup id = some job ∧
      JobTransition.complete.isAllowedFrom job.status = true ∧
      Rewrite s id (job.completedAtTime s.clock) s₁ ∧
      s₁.resolveDependents id s.clock = (s', ids) := by
  unfold completeAndResolve at h
  obtain ⟨⟨⟩, hcheck, h⟩ := bind_eq_ok.1 h
  obtain ⟨job, hlookup, hallowed⟩ := checkTransition_ok.1 hcheck
  rw [updateJobStatus_eq hlookup] at h
  refine ⟨job, _, hlookup, hallowed, ?_, pure_eq_ok.1 h⟩
  exact rewrite_restatus hlookup .completed
    (fun job => { job with completedAt := some s.clock }) rfl rfl rfl rfl

/-- The failure policies, in the order a terminal failure applies
them. -/
def applyPolicies (s : TestStorage) (id : JobId) : TestStorage :=
  ((s.applyWorkflowFailure id s.clock).1.applyBatchFailure id s.clock).1

theorem endWithFailure_ok {status : JobStatus} {error : String} {applyPolicy : Bool}
    {ids : List JobId} (h : endWithFailure s id status error applyPolicy = .ok (s', ids)) :
    ∃ job s₁, s.jobs.lookup id = some job ∧
      (if status = .timedOut then JobTransition.markTimedOut else .markDead).isAllowedFrom
        job.status = true ∧
      Rewrite s id (job.ended status error s.clock) s₁ ∧
      s' = if applyPolicy then applyPolicies s₁ id else s₁ := by
  unfold endWithFailure at h
  obtain ⟨⟨⟩, hcheck, h⟩ := bind_eq_ok.1 h
  obtain ⟨job, hlookup, hallowed⟩ := checkTransition_ok.1 hcheck
  rw [updateJobStatus_eq hlookup] at h
  have hr : Rewrite s id (job.ended status error s.clock)
      (((s.restatus id job status).removeLease id).modifyJob id fun job =>
        { job with
          timedOutAt := if status = .timedOut then some s.clock else job.timedOutAt
          failedAt := if status = .timedOut then job.failedAt else some s.clock
          errorMessage := some error }) :=
    rewrite_restatus hlookup status (fun job =>
      { job with
        timedOutAt := if status = .timedOut then some s.clock else job.timedOutAt
        failedAt := if status = .timedOut then job.failedAt else some s.clock
        errorMessage := some error }) rfl rfl rfl rfl
  refine ⟨job, _, hlookup, hallowed, hr, ?_⟩
  cases applyPolicy with
  | false => exact (Prod.mk.inj (pure_eq_ok.1 h)).1.symm
  | true => exact (Prod.mk.inj (pure_eq_ok.1 h)).1.symm

theorem failJob_ok {error : String} (h : failJob s id error = .ok (s', ())) :
    ∃ job s₁, s.jobs.lookup id = some job ∧
      JobTransition.fail.isAllowedFrom job.status = true ∧
      Rewrite s id (job.failedByHand error s.clock) s₁ ∧ s' = applyPolicies s₁ id := by
  unfold failJob at h
  obtain ⟨⟨⟩, hcheck, h⟩ := bind_eq_ok.1 h
  obtain ⟨job, hlookup, hallowed⟩ := checkTransition_ok.1 hcheck
  rw [updateJobStatus_eq hlookup] at h
  refine ⟨job, _, hlookup, hallowed, ?_, (Prod.mk.inj (pure_eq_ok.1 h)).1.symm⟩
  exact rewrite_restatus hlookup .failed
    (fun job => { job with failedAt := some s.clock, errorMessage := some error })
    rfl rfl rfl rfl

-- == put back

/-- Dependencies that check out have completed. -/
theorem checkDependencies_true {states : JobId → Option JobStatus} {deps : List JobId}
    (h : checkDependencies states deps = .ok true) :
    ∀ d ∈ deps, states d = some .completed := by
  induction deps with
  | nil => exact fun d hd => (by cases hd)
  | cons dep deps ih =>
      rw [checkDependencies] at h
      intro d hd
      split at h
      case h_1 hst =>
        rcases List.mem_cons.1 hd with rfl | hd
        · exact hst
        · exact ih h d hd
      case h_5 =>
        cases hrest : checkDependencies states deps <;> rw [hrest] at h <;> cases h
      all_goals cases h

/-- Dependencies check out if each of them exists and did not end in
failure; the answer is whether all of them completed. -/
theorem checkDependencies_ok_iff {states : JobId → Option JobStatus} {deps : List JobId} :
    ∀ {all : Bool}, checkDependencies states deps = .ok all ↔
      (∀ d ∈ deps, ∃ st, states d = some st ∧ ¬ st.EndedInFailure) ∧
        (all = true ↔ ∀ d ∈ deps, states d = some .completed) := by
  induction deps with
  | nil => intro all; simp [checkDependencies, eq_comm]
  | cons dep deps ih =>
      intro all
      have hsome : (∃ rest, checkDependencies states deps = .ok rest) ↔
          ∀ d ∈ deps, ∃ st, states d = some st ∧ ¬ st.EndedInFailure :=
        ⟨fun ⟨_, h⟩ => (ih.1 h).1,
          fun h => ⟨decide (∀ d ∈ deps, states d = some .completed), ih.2 ⟨h, by simp⟩⟩⟩
      have hmap : (checkDependencies states deps).map (fun _ => false) = .ok all ↔
          (∃ rest, checkDependencies states deps = .ok rest) ∧ all = false := by
        cases checkDependencies states deps <;> simp [Except.map, eq_comm]
      rw [checkDependencies, List.forall_mem_cons, List.forall_mem_cons]
      cases hst : states dep with
      | none => simp
      | some st =>
          cases st
          case completed => simp [ih, JobStatus.EndedInFailure]
          case failed | dead | timedOut => simp [JobStatus.EndedInFailure]
          all_goals
            -- an unfinished dependency leaves the others to be checked
            dsimp only
            rw [hmap, hsome]
            simp [JobStatus.EndedInFailure]

/-- Re-evaluated dependencies have not failed, and wait only if there
are any. -/
theorem reevaluated_ok {job : Job} {action : String} {dependencyStatus : Option DependencyStatus}
    (h : reevaluated s job action = .ok dependencyStatus) :
    (job.dependsOn = [] ∧ dependencyStatus = none) ∨
      (job.dependsOn ≠ [] ∧ ∃ status, dependencyStatus = some status ∧
        ((status = .satisfied ∧ (job.dependencyStatus = .satisfied ∨
            ∀ d ∈ job.dependsOn, s.statusWithArchived d = some .completed)) ∨
          (status = .waiting ∧ job.dependencyStatus ≠ .satisfied))) := by
  unfold reevaluated at h
  split at h
  · next hempty =>
    injection h with h
    exact .inl ⟨List.isEmpty_iff.1 hempty, h.symm⟩
  · next hne =>
    refine .inr ⟨fun hnil => hne (List.isEmpty_iff.2 hnil), ?_⟩
    unfold reevaluateDependencies at h
    rw [if_neg hne] at h
    split at h
    · next hsat =>
      injection h with h
      exact ⟨_, h.symm, .inl ⟨rfl, .inl hsat⟩⟩
    · next hsat =>
      cases hcheck : checkDependencies (s.dependencyStates job.dependsOn) job.dependsOn with
      | error e => rw [hcheck] at h; cases h
      | ok all =>
          rw [hcheck] at h
          cases all with
          | false =>
              injection h with h
              exact ⟨_, h.symm, .inr ⟨rfl, hsat⟩⟩
          | true =>
              injection h with h
              refine ⟨_, h.symm, .inl ⟨rfl, .inr fun d hd => ?_⟩⟩
              have hstate := checkDependencies_true hcheck d hd
              unfold dependencyStates at hstate
              rwa [if_pos hd] at hstate

theorem retryJob_ok {retryAt : DateTime} (h : retryJob s id retryAt = .ok (s', ())) :
    ∃ job dependencyStatus, s.jobs.lookup id = some job ∧
      JobTransition.retry.isAllowedFrom job.status = true ∧
      reevaluated s job "retried" = .ok dependencyStatus ∧
      Rewrite s id (job.retried retryAt dependencyStatus) s' := by
  unfold retryJob at h
  obtain ⟨⟨⟩, hcheck, h⟩ := bind_eq_ok.1 h
  obtain ⟨job, hlookup, hallowed⟩ := checkTransition_ok.1 hcheck
  rw [hlookup] at h
  obtain ⟨dependencyStatus, hdep, h⟩ := bind_eq_ok.1 h
  rw [updateJobStatus_eq hlookup] at h
  refine ⟨job, dependencyStatus, hlookup, hallowed, hdep, ?_⟩
  rw [← (Prod.mk.inj (pure_eq_ok.1 h)).1]
  exact rewrite_restatus hlookup .pending (fun job =>
    { job with
      scheduledAt := retryAt
      startedAt := none
      dependencyStatus := dependencyStatus.getD job.dependencyStatus }) rfl rfl rfl rfl

theorem recordRunError_rewrite {job : Job} (h : s.jobs.lookup id = some job) (error : String)
    (timedOut : Bool) :
    Rewrite s id (job.withRunError error timedOut s.clock)
      (recordRunError s id error timedOut) :=
  rewrite_modify h (fun job =>
    { job with
      errorMessage := some error
      timedOutAt := if timedOut then some s.clock else job.timedOutAt }) rfl rfl rfl rfl

theorem rescheduleInPlace_ok {next : DateTime} {keepFailure : Bool}
    (h : s.rescheduleInPlace id next keepFailure = .ok s') :
    ∃ job, s.jobs.lookup id = some job ∧ Rewrite s id (job.rescheduled next keepFailure) s' := by
  unfold rescheduleInPlace at h
  cases hlookup : s.jobs.lookup id with
  | none =>
      rw [updateJobStatus_none hlookup] at h
      cases h
  | some job =>
      rw [updateJobStatus_eq hlookup] at h
      refine ⟨job, rfl, ?_⟩
      rw [← pure_eq_ok.1 h]
      exact rewrite_restatus hlookup .pending (fun job =>
        { job with
          scheduledAt := next
          nextRunAt := some next
          attempts := 0
          startedAt := none
          completedAt := none
          failedAt := if keepFailure then job.failedAt else none
          timedOutAt := if keepFailure then job.timedOutAt else none
          errorMessage := if keepFailure then job.errorMessage else none }) rfl rfl rfl rfl

/-- A stored job can always be rescheduled. -/
theorem rescheduleInPlace_isOk {job : Job} (h : s.jobs.lookup id = some job)
    (next : DateTime) (keepFailure : Bool) :
    ∃ s', s.rescheduleInPlace id next keepFailure = .ok s' := by
  unfold rescheduleInPlace
  rw [updateJobStatus_eq h]
  exact ⟨_, rfl⟩

theorem retryDeadJob_ok (h : retryDeadJob s id = .ok (s', ())) :
    ∃ job, s.jobs.lookup id = some job ∧
      JobTransition.retryDead.isAllowedFrom job.status = true ∧
      Rewrite s id (job.revived s.clock) s' := by
  unfold retryDeadJob at h
  obtain ⟨⟨⟩, hcheck, h⟩ := bind_eq_ok.1 h
  obtain ⟨job, hlookup, hallowed⟩ := checkTransition_ok.1 hcheck
  rw [updateJobStatus_eq hlookup] at h
  refine ⟨job, hlookup, hallowed, ?_⟩
  rw [← (Prod.mk.inj (pure_eq_ok.1 h)).1]
  exact rewrite_restatus hlookup .pending (fun job =>
    { job with
      attempts := 0
      errorMessage := none
      startedAt := none
      failedAt := none
      timedOutAt := none
      scheduledAt := s.clock }) rfl rfl rfl rfl

theorem rescheduleCronJob_ok {next : DateTime} (h : rescheduleCronJob s id next = .ok (s', ())) :
    ∃ job, s.jobs.lookup id = some job ∧
      JobTransition.rescheduleCron.isAllowedFrom job.status = true ∧ job.recurring = true ∧
      Rewrite s id (job.rescheduled next false) s' := by
  unfold rescheduleCronJob at h
  obtain ⟨⟨⟩, hcheck, h⟩ := bind_eq_ok.1 h
  obtain ⟨job, hlookup, hallowed⟩ := checkTransition_ok.1 hcheck
  split at h
  · cases h
  · next hrec =>
    obtain ⟨s₁, hs₁, h⟩ := bind_eq_ok.1 h
    obtain ⟨job', hlookup', hr⟩ := rescheduleInPlace_ok hs₁
    rw [hlookup] at hlookup'
    injection hlookup' with hlookup'
    subst hlookup'
    obtain ⟨job', hlookup', hrec'⟩ := isJob_iff.1 (by simpa using hrec)
    rw [hlookup] at hlookup'
    injection hlookup' with hlookup'
    rw [← (Prod.mk.inj (pure_eq_ok.1 h)).1]
    exact ⟨job, hlookup, hallowed, hlookup' ▸ hrec', hr⟩

theorem disableRecurringJob_ok (h : disableRecurringJob s id = .ok (s', ())) :
    ∃ job, s.jobs.lookup id = some job ∧
      Rewrite s id { job with recurring := false, nextRunAt := none } s' := by
  unfold disableRecurringJob at h
  split at h
  · cases h
  · next job hlookup =>
    split at h
    · cases h
    · injection h with h
      refine ⟨job, hlookup, ?_⟩
      rw [← (Prod.mk.inj h).1]
      exact rewrite_modify hlookup (fun job => { job with recurring := false, nextRunAt := none })
        rfl rfl rfl rfl

theorem enabledRecurringNextRun_status {cron : CronLibrary} {job : Job} {now : DateTime}
    {next : Option DateTime} (h : enabledRecurringNextRun cron job now = .ok next) :
    next = none ↔ job.status = .running := by
  unfold enabledRecurringNextRun at h
  split at h
  · split at h
    · next hrun =>
      injection h with h
      rw [← h]
      exact ⟨fun _ => hrun, fun _ => rfl⟩
    · next hrun =>
      split at h
      · injection h with h
        rw [← h]
        exact ⟨fun hn => (by cases hn), fun hr => absurd hr hrun⟩
      · cases h
  · cases h
  · cases h

theorem enableRecurringJob_ok {cron : CronLibrary}
    (h : enableRecurringJob cron s id = .ok (s', ())) :
    ∃ job, s.jobs.lookup id = some job ∧
      ((job.status = .running ∧ Rewrite s id { job with recurring := true } s') ∨
        (job.status ≠ .running ∧ ∃ next,
          enabledRecurringNextRun cron job s.clock = .ok (some next) ∧
          Rewrite s id (job.resumed next) s')) := by
  unfold enableRecurringJob at h
  split at h
  · cases h
  · next job hlookup =>
    obtain ⟨next, hnext, h⟩ := bind_eq_ok.1 h
    have hstatus := enabledRecurringNextRun_status hnext
    refine ⟨job, hlookup, ?_⟩
    cases next with
    | none =>
        refine .inl ⟨hstatus.1 rfl, ?_⟩
        rw [← (Prod.mk.inj (pure_eq_ok.1 h)).1]
        exact rewrite_modify hlookup (fun job => { job with recurring := true }) rfl rfl rfl rfl
    | some next =>
        refine .inr ⟨fun hrun => (by cases hstatus.2 hrun), next, hnext, ?_⟩
        dsimp only at h
        rw [updateJobStatus_eq hlookup] at h
        rw [← (Prod.mk.inj (pure_eq_ok.1 h)).1]
        exact rewrite_restatus hlookup .pending (fun job =>
          { job with
            recurring := true
            scheduledAt := next
            nextRunAt := some next
            attempts := 0
            startedAt := none
            completedAt := none
            failedAt := none
            timedOutAt := none
            errorMessage := none }) rfl rfl rfl rfl

-- == stale jobs

theorem requeueStale_ok {now : DateTime} (h : requeueStale s id now = .ok s') :
    ∃ job, s.jobs.lookup id = some job ∧ Rewrite s id (job.requeued now) s' := by
  unfold requeueStale at h
  cases hlookup : s.jobs.lookup id with
  | none =>
      rw [updateJobStatus_none hlookup] at h
      cases h
  | some job =>
      rw [updateJobStatus_eq hlookup] at h
      refine ⟨job, rfl, ?_⟩
      rw [← pure_eq_ok.1 h]
      exact rewrite_restatus hlookup .pending (fun job =>
        { job with
          scheduledAt := now
          startedAt := none
          errorMessage := some staleJobErrorMessage }) rfl rfl rfl rfl

/-- Burying a stored job: a recurring one is scheduled again, any other
takes along what fails with it. -/
theorem buryStale_eq (cron : CronLibrary) (hlookup : s.jobs.lookup id = some job)
    (now : DateTime) {dead : TestStorage}
    (hdead : dead = (s.restatus id job .dead).modifyJob id fun job =>
      { job with failedAt := some now, errorMessage := some staleJobErrorMessage }) :
    buryStale cron s id now =
      (((dead.jobs.lookup id).filter (·.recurring)).bind (nextCronRun cron · now)).elim
        (.ok ((dead.applyWorkflowFailure id now).1.applyBatchFailure id now).1)
        (dead.rescheduleInPlace id · true) := by
  unfold buryStale
  rw [updateJobStatus_eq hlookup]
  dsimp only [bind, Except.bind]
  rw [← hdead]
  cases ((dead.jobs.lookup id).filter (·.recurring)).bind (nextCronRun cron · now) <;> rfl

/-- Burying a stale job either reschedules it or applies the failure
policies to it as a dead job. -/
theorem buryStale_ok {cron : CronLibrary} (h : buryStale cron s id s.clock = .ok s') :
    ∃ job, s.jobs.lookup id = some job ∧
      ((job.recurring = true ∧ ∃ next,
          nextCronRun cron (job.buried s.clock) s.clock = some next ∧
          Rewrite s id ((job.buried s.clock).rescheduled next true) s') ∨
        ((job.recurring = true → nextCronRun cron (job.buried s.clock) s.clock = none) ∧
          ∃ s₁, Rewrite s id (job.buried s.clock) s₁ ∧ s' = applyPolicies s₁ id)) := by
  cases hlookup : s.jobs.lookup id with
  | none =>
      unfold buryStale at h
      rw [updateJobStatus_none hlookup] at h
      cases h
  | some job =>
      have hr : Rewrite s id (job.buried s.clock)
          ((s.restatus id job .dead).modifyJob id fun job =>
            { job with
              failedAt := some s.clock
              errorMessage := some staleJobErrorMessage }) :=
        rewrite_restatus hlookup .dead (fun job =>
          { job with
            failedAt := some s.clock
            errorMessage := some staleJobErrorMessage }) rfl rfl rfl rfl
      refine ⟨job, rfl, ?_⟩
      rw [buryStale_eq cron hlookup s.clock rfl, hr.lookup_self] at h
      cases hnext : ((some (job.buried s.clock)).filter (·.recurring)).bind
          (nextCronRun cron · s.clock) with
      | some next =>
          rw [hnext] at h
          obtain ⟨dead, hdead, hcron⟩ := Option.bind_eq_some_iff.1 hnext
          obtain ⟨heq, hrec⟩ := Option.filter_eq_some_iff.1 hdead
          injection heq with heq
          subst heq
          obtain ⟨job', hlookup', hr'⟩ := rescheduleInPlace_ok h
          rw [hr.lookup_self] at hlookup'
          injection hlookup' with hlookup'
          subst hlookup'
          exact .inl ⟨hrec, next, hcron, hr.trans hr'⟩
      | none =>
          rw [hnext] at h
          refine .inr ⟨fun hrec => ?_, _, hr, (Except.ok.inj h).symm⟩
          have hkept : (some (job.buried s.clock)).filter (·.recurring)
              = some (job.buried s.clock) := Option.filter_eq_some_iff.2 ⟨rfl, hrec⟩
          rw [hkept] at hnext
          exact hnext

-- == archive

theorem restoreArchivedJob_ok {job' : Job} (h : restoreArchivedJob s id = .ok (s', job')) :
    ∃ job dependencyStatus, s.jobs.lookup id = some job ∧ job.status = .archived ∧
      reevaluated s job "restored" = .ok dependencyStatus ∧
      job' = job.restored dependencyStatus s.clock ∧
      Rewrite s id (job.restored dependencyStatus s.clock) s' := by
  unfold restoreArchivedJob at h
  split at h
  · cases h
  · next job hlookup =>
    split at h
    · cases h
    · next hst =>
      have hst : job.status = .archived := not_not.1 hst
      obtain ⟨dependencyStatus, hdep, h⟩ := bind_eq_ok.1 h
      obtain ⟨rfl, rfl⟩ := Prod.mk.inj (pure_eq_ok.1 h)
      exact ⟨job, dependencyStatus, hlookup, hst, hdep, rfl,
        rewrite_restore hlookup hst rfl rfl rfl⟩

end TestQueue

end Hammerwork
