/-
What the operations do to leases and results.

Leases are kept apart from the jobs, under the same ids. Three
operations take one (a claim, the start of a claimed run, a heartbeat);
every other one leaves a lease as it is or ends it, and it ends none of
a job that is running afterwards. `Quiet s s'` says so, and that `s'`
stores the same jobs and the same results as `s`; it composes.
-/
import Hammerwork.Proofs.Children

namespace Hammerwork

open TestStorage TestQueue

variable {s s' s'' : TestStorage} {env : Env} {id k : JobId} {run job job' : Job}
variable {now : DateTime}

theorem stopped_iff : Stopped s k ↔ ∀ job, s.jobs.lookup k = some job → job.status ≠ .running :=
  ⟨fun h job hlookup hrun => h _ _ ⟨job, hlookup, hrun, rfl, rfl⟩,
    fun h _ _ ⟨job, hlookup, hrun, _⟩ => h job hlookup hrun⟩

theorem TestStorage.SameRegisters.jobResults (h : SameRegisters s s') :
    s'.jobResults = s.jobResults := by
  rw [h]

/-- The ids of the stored jobs an operation selects. -/
theorem mem_selected (hk : s.Keyed) {p : Job → Bool} :
    k ∈ (s.jobs.values.filter p).map (·.id) ↔ s.isJob k p = true := by
  rw [isJob_iff, List.mem_map]
  constructor
  · rintro ⟨job, hmem, rfl⟩
    obtain ⟨hval, hp⟩ := List.mem_filter.1 hmem
    exact ⟨job, hk.mem_values.1 hval, hp⟩
  · rintro ⟨job, hlookup, hp⟩
    exact ⟨job, List.mem_filter.2 ⟨mem_values_iff.2 ⟨k, hlookup⟩, hp⟩, hk k job hlookup⟩

-- == quiet changes

/-- No lease was taken, one that was ended is not of a running job, no
run was started, and the stored jobs and results are those of before. -/
structure Quiet (s s' : TestStorage) : Prop where
  leases : ∀ k, s'.leases.lookup k = s.leases.lookup k ∨
    (s'.leases.lookup k = none ∧ Stopped s' k)
  stopped : ∀ k, Stopped s k → Stopped s' k
  results : s'.jobResults = s.jobResults
  stored : ∀ k, (s'.jobs.lookup k).isSome = (s.jobs.lookup k).isSome

theorem Quiet.refl (s : TestStorage) : Quiet s s :=
  ⟨fun _ => .inl rfl, fun _ h => h, rfl, fun _ => rfl⟩

theorem Quiet.trans (h₁ : Quiet s s') (h₂ : Quiet s' s'') : Quiet s s'' where
  leases k := by
    rcases h₂.leases k with heq | hend
    · rcases h₁.leases k with heq' | ⟨hnone, hstop⟩
      · exact .inl (heq.trans heq')
      · exact .inr ⟨heq.trans hnone, h₂.stopped k hstop⟩
    · exact .inr hend
  stopped k h := h₂.stopped k (h₁.stopped k h)
  results := h₂.results.trans h₁.results
  stored k := (h₂.stored k).trans (h₁.stored k)

/-- Changing something else. -/
theorem Quiet.of_same (hjobs : s'.jobs = s.jobs) (hleases : s'.leases = s.leases)
    (hresults : s'.jobResults = s.jobResults) : Quiet s s' where
  leases k := .inl (by rw [hleases])
  stopped k h := by
    unfold Stopped RunningAs at h ⊢
    rwa [hjobs]
  results := hresults
  stored k := by rw [hjobs]

/-- A job that is not running afterwards is rewritten, and its lease is
kept or ended. -/
theorem Quiet.of_rewrite (hlookup : s.jobs.lookup id = some job) (hr : Rewrite s id job' s')
    (hrun : job'.status = .running → job.status = .running)
    (hleases : s'.leases = s.leases ∨
      (s'.leases = s.leases.erase id ∧ job'.status ≠ .running)) : Quiet s s' where
  leases k := by
    rcases hleases with heq | ⟨heq, hst⟩
    · exact .inl (by rw [heq])
    · rw [heq, Table.lookup_erase_if]
      by_cases hk : k = id
      · subst hk
        exact .inr ⟨if_pos rfl, .of_lookup hr.lookup_self hst⟩
      · exact .inl (if_neg hk)
  stopped k h := by
    rw [stopped_iff] at h ⊢
    intro j hj hjrun
    rw [hr.jobs] at hj
    split at hj
    · next hk =>
      subst hk
      injection hj with hj
      exact h job hlookup (hrun (hj ▸ hjrun))
    · exact h j hj hjrun
  results := hr.rest.jobResults
  stored k := by
    rw [hr.jobs]
    split
    · next hk =>
      rw [hk, hlookup]
      rfl
    · rfl

/-- Moving a job out of `Running` ends its lease: the shape of most
sections. -/
theorem Quiet.of_restatus (hlookup : s.jobs.lookup id = some job) (st : JobStatus)
    (f : Job → Job) (hq : (f { job with status := st }).queueName = job.queueName)
    (hf : (f { job with status := st }).status = st) (hst : st ≠ .running) :
    Quiet s (((s.restatus id job st).removeLease id).modifyJob id f) :=
  .of_rewrite hlookup (rewrite_restatus hlookup st f rfl hq hf rfl)
    (fun hrun => absurd (hf.symm.trans hrun) hst) (.inr ⟨rfl, fun hrun => hst (hf.symm.trans hrun)⟩)

/-- Rewriting fields of a record other than its queue and status. -/
theorem Quiet.of_modify (s : TestStorage) (id : JobId) (f : Job → Job)
    (hq : ∀ job, (f job).queueName = job.queueName) (hst : ∀ job, (f job).status = job.status) :
    Quiet s (s.modifyJob id f) := by
  cases hlookup : s.jobs.lookup id with
  | some job =>
      exact .of_rewrite hlookup (rewrite_modify hlookup f rfl (hq job) (hst job) rfl)
        (fun hrun => (hst job).symm.trans hrun) (.inl rfl)
  | none =>
      have hjobs : ∀ k, (s.modifyJob id f).jobs.lookup k = s.jobs.lookup k := by
        intro k
        rw [modifyJob_lookup]
        split
        · next hk =>
          rw [hk, hlookup]
          rfl
        · rfl
      refine ⟨fun k => .inl rfl, fun k h => ?_, rfl, fun k => by rw [hjobs]⟩
      unfold Stopped RunningAs at h ⊢
      rwa [hjobs]

-- == side effects

theorem failAsSideEffect_quiet (s : TestStorage) (id : JobId) (error : String)
    (now : DateTime) : Quiet s (s.failAsSideEffect id error now) := by
  cases hlookup : s.jobs.lookup id with
  | none =>
      rw [failAsSideEffect_none hlookup]
      exact .refl s
  | some job =>
      unfold failAsSideEffect
      rw [updateJobStatus_eq hlookup]
      exact .of_restatus hlookup .failed _ rfl rfl (by decide)

theorem failEach_quiet (p : JobId → Job → Bool) (error : String) (now : DateTime)
    (ids : List JobId) : ∀ s : TestStorage, Quiet s (failEach p error now ids s).1 := by
  induction ids with
  | nil => exact fun s => .refl s
  | cons id ids ih =>
      intro s
      rw [failEach]
      split
      · exact (failAsSideEffect_quiet s id error now).trans (ih _)
      · exact ih s

theorem failDependents_quiet (s : TestStorage) (root : JobId) (now : DateTime) :
    Quiet s (s.failDependents root now).1 :=
  Worklist.run_induct (w := dependentsSearch now) (P := Quiet s) (dependentsSearch_lawful now) _
    (.refl s) fun _ _ _ h _ _ _ => h.trans (failAsSideEffect_quiet ..)

theorem applyWorkflowFailure_quiet (s : TestStorage) (root : JobId) (now : DateTime) :
    Quiet s (s.applyWorkflowFailure root now).1 := by
  unfold applyWorkflowFailure
  split
  · split
    · exact .refl s
    · exact (failEach_quiet ..).trans (failDependents_quiet ..)
    · exact failDependents_quiet ..
  · exact failDependents_quiet ..

theorem applyBatchFailure_quiet (s : TestStorage) (root : JobId) (now : DateTime) :
    Quiet s (s.applyBatchFailure root now).1 := by
  unfold applyBatchFailure
  split
  · exact .refl s
  · split
    · exact failEach_quiet ..
    · exact .refl s

theorem applyPolicies_quiet (s : TestStorage) (root : JobId) : Quiet s (applyPolicies s root) :=
  (applyWorkflowFailure_quiet ..).trans (applyBatchFailure_quiet ..)

theorem resolveDependents_quiet (s : TestStorage) (c : JobId) (now : DateTime) :
    Quiet s (s.resolveDependents c now).1 := by
  have hready : ∀ (ids : List JobId) (s : TestStorage),
      Quiet s (releaseReady now ids s).1 := by
    intro ids
    induction ids with
    | nil => exact fun s => .refl s
    | cons id ids ih =>
        intro s
        rw [releaseReady]
        split
        · exact (Quiet.of_modify s id (release now) (fun _ => rfl) fun _ => rfl).trans (ih _)
        · exact ih s
  exact hready _ s

-- == sections

theorem endWithFailure_quiet {status : JobStatus} (hst : status ≠ .running) {error : String}
    {applyPolicy : Bool} {ids : List JobId}
    (h : endWithFailure s id status error applyPolicy = .ok (s', ids)) : Quiet s s' := by
  unfold endWithFailure at h
  obtain ⟨⟨⟩, hcheck, h⟩ := bind_eq_ok.1 h
  obtain ⟨job, hlookup, -⟩ := checkTransition_ok.1 hcheck
  rw [updateJobStatus_eq hlookup] at h
  have hended : Quiet s (((s.restatus id job status).removeLease id).modifyJob id fun job =>
      { job with
        timedOutAt := if status = .timedOut then some s.clock else job.timedOutAt
        failedAt := if status = .timedOut then job.failedAt else some s.clock
        errorMessage := some error }) := .of_restatus hlookup status _ rfl rfl hst
  cases applyPolicy with
  | false =>
      rw [← (Prod.mk.inj (pure_eq_ok.1 h)).1]
      exact hended
  | true =>
      rw [← (Prod.mk.inj (pure_eq_ok.1 h)).1]
      exact hended.trans (applyPolicies_quiet _ id)

theorem completeAndResolve_quiet {ids : List JobId}
    (h : completeAndResolve s id = .ok (s', ids)) : Quiet s s' := by
  unfold completeAndResolve at h
  obtain ⟨⟨⟩, hcheck, h⟩ := bind_eq_ok.1 h
  obtain ⟨job, hlookup, -⟩ := checkTransition_ok.1 hcheck
  rw [updateJobStatus_eq hlookup] at h
  rw [← (Prod.mk.inj (pure_eq_ok.1 h)).1]
  refine Quiet.trans ?_ (resolveDependents_quiet _ id _)
  exact .of_restatus hlookup .completed (fun job => { job with completedAt := some s.clock })
    rfl rfl (by decide)

theorem failJob_quiet {error : String} (h : failJob s id error = .ok (s', ())) :
    Quiet s s' := by
  unfold failJob at h
  obtain ⟨⟨⟩, hcheck, h⟩ := bind_eq_ok.1 h
  obtain ⟨job, hlookup, -⟩ := checkTransition_ok.1 hcheck
  rw [updateJobStatus_eq hlookup] at h
  rw [← (Prod.mk.inj (pure_eq_ok.1 h)).1]
  refine Quiet.trans ?_ (applyPolicies_quiet _ id)
  exact .of_restatus hlookup .failed
    (fun job => { job with failedAt := some s.clock, errorMessage := some error })
    rfl rfl (by decide)

theorem releaseJobRun_quiet {b : Bool} (h : releaseJobRun s run = .ok (s', b)) :
    Quiet s s' := by
  unfold releaseJobRun at h
  split at h
  · rw [← (Prod.mk.inj (pure_eq_ok.1 h)).1]
    exact .refl s
  · obtain ⟨s₁, hs₁, h⟩ := bind_eq_ok.1 h
    cases hlookup : s.jobs.lookup run.id with
    | none =>
        rw [updateJobStatus_none hlookup] at hs₁
        cases hs₁
    | some job =>
        rw [updateJobStatus_eq hlookup] at hs₁
        injection hs₁ with hs₁
        rw [← (Prod.mk.inj (pure_eq_ok.1 h)).1, ← hs₁]
        exact .of_restatus hlookup .pending _ rfl rfl (by decide)

theorem retryJob_quiet {retryAt : DateTime} (h : retryJob s id retryAt = .ok (s', ())) :
    Quiet s s' := by
  unfold retryJob at h
  obtain ⟨⟨⟩, hcheck, h⟩ := bind_eq_ok.1 h
  obtain ⟨job, hlookup, -⟩ := checkTransition_ok.1 hcheck
  rw [hlookup] at h
  obtain ⟨dependencyStatus, -, h⟩ := bind_eq_ok.1 h
  rw [updateJobStatus_eq hlookup] at h
  rw [← (Prod.mk.inj (pure_eq_ok.1 h)).1]
  exact .of_restatus hlookup .pending _ rfl rfl (by decide)

theorem rescheduleInPlace_quiet {next : DateTime} {keepFailure : Bool}
    (h : s.rescheduleInPlace id next keepFailure = .ok s') : Quiet s s' := by
  unfold rescheduleInPlace at h
  obtain ⟨s₁, hs₁, h⟩ := bind_eq_ok.1 h
  cases hlookup : s.jobs.lookup id with
  | none =>
      rw [updateJobStatus_none hlookup] at hs₁
      cases hs₁
  | some job =>
      rw [updateJobStatus_eq hlookup] at hs₁
      injection hs₁ with hs₁
      rw [← pure_eq_ok.1 h, ← hs₁]
      exact .of_restatus hlookup .pending _ rfl rfl (by decide)

theorem retryDeadJob_quiet (h : retryDeadJob s id = .ok (s', ())) : Quiet s s' := by
  unfold retryDeadJob at h
  obtain ⟨⟨⟩, hcheck, h⟩ := bind_eq_ok.1 h
  obtain ⟨job, hlookup, -⟩ := checkTransition_ok.1 hcheck
  rw [updateJobStatus_eq hlookup] at h
  rw [← (Prod.mk.inj (pure_eq_ok.1 h)).1]
  exact .of_restatus hlookup .pending _ rfl rfl (by decide)

theorem rescheduleCronJob_quiet {next : DateTime}
    (h : rescheduleCronJob s id next = .ok (s', ())) : Quiet s s' := by
  unfold rescheduleCronJob at h
  obtain ⟨⟨⟩, -, h⟩ := bind_eq_ok.1 h
  split at h
  · cases h
  · obtain ⟨s₁, hs₁, h⟩ := bind_eq_ok.1 h
    rw [← (Prod.mk.inj (pure_eq_ok.1 h)).1]
    exact rescheduleInPlace_quiet hs₁

theorem disableRecurringJob_quiet (h : disableRecurringJob s id = .ok (s', ())) :
    Quiet s s' := by
  unfold disableRecurringJob at h
  split at h
  · cases h
  · split at h
    · cases h
    · injection h with h
      rw [← (Prod.mk.inj h).1]
      exact .of_modify s id _ (fun _ => rfl) fun _ => rfl

theorem enableRecurringJob_quiet {cron : CronLibrary}
    (h : enableRecurringJob cron s id = .ok (s', ())) : Quiet s s' := by
  unfold enableRecurringJob at h
  split at h
  · cases h
  · next job hlookup =>
    obtain ⟨next, -, h⟩ := bind_eq_ok.1 h
    cases next with
    | none =>
        rw [← (Prod.mk.inj (pure_eq_ok.1 h)).1]
        exact .of_modify s id _ (fun _ => rfl) fun _ => rfl
    | some next =>
        rw [updateJobStatus_eq hlookup] at h
        rw [← (Prod.mk.inj (pure_eq_ok.1 h)).1]
        exact .of_restatus hlookup .pending _ rfl rfl (by decide)

theorem restoreArchivedJob_quiet {restored : Job}
    (h : restoreArchivedJob s id = .ok (s', restored)) : Quiet s s' := by
  obtain ⟨job, dependencyStatus, hlookup, -, -, -, hr⟩ := restoreArchivedJob_ok h
  refine .of_rewrite hlookup hr (fun hrun => by cases hrun) (.inl ?_)
  unfold restoreArchivedJob at h
  rw [hlookup] at h
  dsimp only at h
  split at h
  · cases h
  · obtain ⟨_, -, h⟩ := bind_eq_ok.1 h
    rw [← (Prod.mk.inj (pure_eq_ok.1 h)).1]
    rfl

-- == recoveries

/-- Reclaiming one stale job: its lease goes, and it runs no more. -/
theorem requeueStale_quiet (h : requeueStale (s.removeLease id) id now = .ok s') :
    Quiet s s' := by
  unfold requeueStale at h
  cases hlookup : s.jobs.lookup id with
  | none =>
      rw [updateJobStatus_none (s := s.removeLease id) hlookup] at h
      cases h
  | some job =>
      rw [updateJobStatus_eq (s := s.removeLease id) hlookup] at h
      rw [← pure_eq_ok.1 h]
      exact .of_restatus hlookup .pending (fun job =>
        { job with
          scheduledAt := now
          startedAt := none
          errorMessage := some staleJobErrorMessage }) rfl rfl (by decide)

theorem buryStale_quiet {cron : CronLibrary}
    (h : buryStale cron (s.removeLease id) id now = .ok s') : Quiet s s' := by
  cases hlookup : s.jobs.lookup id with
  | none =>
      unfold buryStale at h
      rw [updateJobStatus_none (s := s.removeLease id) hlookup] at h
      cases h
  | some job =>
      have hburied : Quiet s (((s.removeLease id).restatus id job .dead).modifyJob id fun job =>
          { job with
            failedAt := some now
            errorMessage := some staleJobErrorMessage }) :=
        .of_restatus hlookup .dead (fun job =>
          { job with
            failedAt := some now
            errorMessage := some staleJobErrorMessage }) rfl rfl (by decide)
      have hlookup' : (s.removeLease id).jobs.lookup id = some job := hlookup
      rw [TestQueue.buryStale_eq cron hlookup' now rfl] at h
      generalize ((s.removeLease id).restatus id job .dead).modifyJob id _ = dead at h hburied
      cases hnext : ((dead.jobs.lookup id).filter (·.recurring)).bind (nextCronRun cron · now) with
      | some next =>
          rw [hnext] at h
          exact hburied.trans (rescheduleInPlace_quiet h)
      | none =>
          rw [hnext] at h
          rw [← Except.ok.inj h]
          exact hburied.trans ((applyWorkflowFailure_quiet ..).trans (applyBatchFailure_quiet ..))

/-- Burying a stored job succeeds. -/
theorem buryStale_isOk (cron : CronLibrary) (hlookup : s.jobs.lookup id = some job)
    (now : DateTime) : ∃ s', buryStale cron s id now = .ok s' := by
  have hr : Rewrite s id { job with
        status := .dead, failedAt := some now, errorMessage := some staleJobErrorMessage }
      ((s.restatus id job .dead).modifyJob id fun job =>
        { job with failedAt := some now, errorMessage := some staleJobErrorMessage }) :=
    rewrite_restatus hlookup .dead (fun job =>
      { job with failedAt := some now, errorMessage := some staleJobErrorMessage })
      rfl rfl rfl rfl
  rw [TestQueue.buryStale_eq cron hlookup now rfl]
  generalize (s.restatus id job .dead).modifyJob id _ = dead at hr
  cases ((dead.jobs.lookup id).filter (·.recurring)).bind (nextCronRun cron · now) with
  | some next => exact rescheduleInPlace_isOk hr.lookup_self _ true
  | none => exact ⟨_, rfl⟩

/-- Requeueing a stored job succeeds. -/
theorem requeueStale_isOk (hlookup : s.jobs.lookup id = some job) (now : DateTime) :
    ∃ s', requeueStale s id now = .ok s' := by
  unfold requeueStale
  rw [updateJobStatus_eq hlookup]
  exact ⟨_, rfl⟩

/-- The storage after one stale job was reclaimed. -/
def reclaimed (cron : CronLibrary) (now : DateTime) (s : TestStorage) (e : JobId × Bool) :
    TestStorage :=
  match if e.2 then buryStale cron (s.removeLease e.1) e.1 now
    else requeueStale (s.removeLease e.1) e.1 now with
  | .ok s' => s'
  | .error _ => s.removeLease e.1

theorem reclaimed_cases (cron : CronLibrary) (now : DateTime) {e : JobId × Bool}
    (hstored : (s.jobs.lookup e.1).isSome) :
    (e.2 = true ∧ buryStale cron (s.removeLease e.1) e.1 now
        = .ok (reclaimed cron now s e)) ∨
      (e.2 = false ∧ requeueStale (s.removeLease e.1) e.1 now
        = .ok (reclaimed cron now s e)) := by
  obtain ⟨id, exhausted⟩ := e
  obtain ⟨job, hlookup⟩ := Option.isSome_iff_exists.1 hstored
  unfold reclaimed
  dsimp only
  cases exhausted with
  | true =>
      obtain ⟨s', hs'⟩ := buryStale_isOk (s := s.removeLease id) cron hlookup now
      rw [if_pos rfl, hs']
      exact .inl ⟨rfl, rfl⟩
  | false =>
      obtain ⟨s', hs'⟩ := requeueStale_isOk (s := s.removeLease id) hlookup now
      rw [if_neg (by decide), hs']
      exact .inr ⟨rfl, rfl⟩

theorem reclaimed_quiet {cron : CronLibrary} {e : JobId × Bool}
    (hstored : (s.jobs.lookup e.1).isSome) : Quiet s (reclaimed cron now s e) := by
  rcases reclaimed_cases cron now hstored with ⟨-, h⟩ | ⟨-, h⟩
  · exact buryStale_quiet h
  · exact requeueStale_quiet h

/-- Reclaiming stored jobs reclaims each of them, in order, and reports
each of them once. -/
theorem reclaimEach_eq (cron : CronLibrary) (now : DateTime) (stale : List (JobId × Bool)) :
    ∀ (s : TestStorage) (recovery : StaleJobRecovery),
      (∀ e ∈ stale, (s.jobs.lookup e.1).isSome) →
      reclaimEach cron now stale s recovery
          = (.ok ⟨recovery.requeued ++ (stale.filter (!·.2)).map (·.1),
              recovery.dead ++ (stale.filter (·.2)).map (·.1)⟩,
            stale.foldl (reclaimed cron now) s) ∧
        Quiet s (stale.foldl (reclaimed cron now) s) := by
  induction stale with
  | nil =>
      intro s recovery _
      simp only [reclaimEach, List.filter_nil, List.map_nil, List.append_nil, List.foldl_nil]
      exact ⟨trivial, .refl s⟩
  | cons e stale ih =>
      intro s recovery hstored
      have hone := hstored e (List.mem_cons_self ..)
      have hquiet : Quiet s (reclaimed cron now s e) := reclaimed_quiet hone
      have hrest := fun recovery => ih (reclaimed cron now s e) recovery fun e' he' =>
        (hquiet.stored e'.1).trans (hstored e' (List.mem_cons_of_mem _ he'))
      refine ⟨?_, hquiet.trans (hrest recovery).2⟩
      obtain ⟨id, exhausted⟩ := e
      rw [reclaimEach]
      rcases reclaimed_cases cron now hone with ⟨hex, h⟩ | ⟨hex, h⟩
      all_goals
        dsimp only at hex h
        subst hex
        rw [h]
      · rw [if_pos rfl]
        dsimp only
        rw [(hrest _).1]
        simp
      · rw [if_neg (by decide)]
        dsimp only
        rw [(hrest _).1]
        simp

-- == calls

/-- A call of one section that is quiet when it succeeds. -/
theorem commit_quiet {α : Type} {r : Except HammerworkError (TestStorage × α)}
    (h : ∀ s' a, r = .ok (s', a) → Quiet s s') : Quiet s (commit s r).2 :=
  commit_elim (.refl s) h

theorem finishJobRun_quiet (cron : CronLibrary) (s : TestStorage) (run : Job)
    (outcome : JobOutcome) (wall : DateTime) :
    Quiet s (finishJobRun cron s run outcome wall).2 := by
  have hrecord : ∀ next s₁ recorded,
      recordOutcome s run outcome next wall = .ok (s₁, recorded) → Quiet s s₁ := by
    intro next s₁ recorded h
    unfold recordOutcome at h
    cases outcome with
    | completed =>
        dsimp only at h
        split at h
        · obtain ⟨⟨s₂, ids⟩, hok, h⟩ := bind_eq_ok.1 h
          rw [← (Prod.mk.inj (pure_eq_ok.1 h)).1]
          exact completeAndResolve_quiet hok
        · rw [← (Prod.mk.inj (pure_eq_ok.1 h)).1]
          exact .refl s
    | retry retryAt error timedOut =>
        obtain ⟨⟨s₂, ⟨⟩⟩, hok, h⟩ := bind_eq_ok.1 h
        rw [← (Prod.mk.inj (pure_eq_ok.1 h)).1]
        refine (retryJob_quiet hok).trans ?_
        exact .of_modify s₂ run.id (fun job => { job with
          errorMessage := some error
          timedOutAt := if timedOut then some s₂.clock else job.timedOutAt })
          (fun _ => rfl) fun _ => rfl
    | dead error | timedOut error =>
        obtain ⟨⟨s₂, ids⟩, hok, h⟩ := bind_eq_ok.1 h
        rw [← (Prod.mk.inj (pure_eq_ok.1 h)).1]
        exact endWithFailure_quiet (by decide) hok
  unfold finishJobRun
  split
  · exact .refl s
  · next next _ =>
    split
    · exact .refl s
    · next s₁ recorded hok =>
      have hquiet := hrecord next s₁ recorded hok
      split
      · exact hquiet
      · next next =>
        split
        · exact hquiet
        · next s₂ hs₂ => exact hquiet.trans (rescheduleInPlace_quiet hs₂)

theorem requeueStaleJobs_eq (hk : s.Keyed) (cron : CronLibrary) (queueName : Option String) :
    requeueStaleJobs cron s queueName
        = (.ok ⟨(((s.jobs.values.filter (isStale s queueName)).map fun job =>
              (job.id, decide (job.maxAttempts ≤ job.attempts))).filter (!·.2)).map (·.1),
            (((s.jobs.values.filter (isStale s queueName)).map fun job =>
              (job.id, decide (job.maxAttempts ≤ job.attempts))).filter (·.2)).map (·.1)⟩,
          ((s.jobs.values.filter (isStale s queueName)).map fun job =>
            (job.id, decide (job.maxAttempts ≤ job.attempts))).foldl
              (reclaimed cron s.clock) s) ∧
      Quiet s (requeueStaleJobs cron s queueName).2 := by
  have hstored : ∀ e ∈ (s.jobs.values.filter (isStale s queueName)).map fun job =>
      (job.id, decide (job.maxAttempts ≤ job.attempts)), (s.jobs.lookup e.1).isSome := by
    intro e he
    obtain ⟨job, hlookup, -⟩ := mem_stale hk he
    rw [hlookup]
    rfl
  obtain ⟨heq, hquiet⟩ := reclaimEach_eq cron s.clock _ s ⟨[], []⟩ hstored
  have heq' : requeueStaleJobs cron s queueName = _ := heq
  refine ⟨heq', ?_⟩
  rw [heq']
  exact hquiet

theorem cancelWorkflow_quiet {workflowId : WorkflowId}
    (h : cancelWorkflow s workflowId = .ok (s', ())) : Quiet s s' := by
  unfold cancelWorkflow at h
  split at h
  · cases h
  · injection h with h
    rw [← (Prod.mk.inj h).1]
    exact (failEach_quiet ..).trans (.of_same rfl rfl rfl)

theorem archiveJobs_quiet {queueName : Option String} {policy : ArchivalPolicy} {n : Nat}
    (h : archiveJobs s queueName policy = .ok (s', n)) : Quiet s s' := by
  have hrecords : ∀ (ids : List JobId) (s : TestStorage),
      Quiet s (ids.foldl (fun s id => s.modifyJob id fun job =>
        { job with status := JobStatus.archived }) s) := by
    intro ids
    induction ids with
    | nil => exact fun s => .refl s
    | cons id ids ih =>
        intro s
        rw [List.foldl_cons]
        refine Quiet.trans ?_ (ih _)
        have hlookup : ∀ k, (s.modifyJob id fun job => { job with status := .archived }
            ).jobs.lookup k = if k = id then (s.jobs.lookup id).map
              fun job => { job with status := .archived } else s.jobs.lookup k :=
          fun k => modifyJob_lookup ..
        refine ⟨fun k => .inl rfl, fun k hstop => ?_, rfl, fun k => ?_⟩
        · rw [stopped_iff] at hstop ⊢
          intro job hjob
          rw [hlookup] at hjob
          split at hjob
          · obtain ⟨job₀, -, rfl⟩ := Option.map_eq_some_iff.1 hjob
            intro hrun
            cases hrun
          · exact hstop job hjob
        · rw [hlookup]
          split
          · next hk => rw [Option.isSome_map, hk]
          · rfl
  have hindex : ∀ (ids : List JobId) (s : TestStorage),
      Quiet s (ids.foldl reindexArchived s) := by
    intro ids
    induction ids with
    | nil => exact fun s => .refl s
    | cons id ids ih =>
        intro s
        rw [List.foldl_cons]
        refine Quiet.trans ?_ (ih _)
        unfold reindexArchived
        split
        · exact .refl s
        · exact .of_same rfl rfl rfl
  unfold archiveJobs at h
  injection h with h
  rw [← (Prod.mk.inj h).1]
  exact (hrecords ..).trans (hindex ..)

/-- The calls that only move stored jobs: they take no lease, hand in
and delete no job, and touch no result. -/
def Op.OnlyMoves : Op → Prop
  | dequeue .. | startClaimedRun .. | heartbeatJob .. => False
  | enqueue _ | enqueueBatch _ | enqueueWorkflow _ | enqueueCronJob _
  | completeJobRunWithChildren .. => False
  | deleteJob _ | deleteBatch _ | purgeDeadJobs _ | purgeArchivedJobs _
  | purgeArchivedJobsInQueue .. | purgeExpiredEncryptedJobs => False
  | storeJobResult .. | deleteJobResult _ | cleanupExpiredResults => False
  | _ => True

/-- They are quiet. -/
theorem Op.quiet (hk : s.Keyed) {op : Op} (hop : op.OnlyMoves) :
    Quiet s (op.apply env s).2 := by
  unfold Op.apply
  cases op <;> first | exact absurd hop id | skip
  all_goals
    dsimp only
    try rw [reply_snd]
  case releaseJobRun run => exact commit_quiet fun s' b h => releaseJobRun_quiet h
  case finishJobRun run outcome wall => exact finishJobRun_quiet ..
  case completeJob id =>
    refine commit_quiet fun s' a h => ?_
    obtain ⟨⟨s₁, ids⟩, hok, h⟩ := bind_eq_ok.1 h
    rw [← (Prod.mk.inj (pure_eq_ok.1 h)).1]
    exact completeAndResolve_quiet hok
  case failJob id error => exact commit_quiet fun s' a h => failJob_quiet h
  case retryJob id retryAt => exact commit_quiet fun s' a h => retryJob_quiet h
  case markJobDead id error =>
    refine commit_quiet fun s' a h => ?_
    obtain ⟨⟨s₁, ids⟩, hok, h⟩ := bind_eq_ok.1 h
    rw [← (Prod.mk.inj (pure_eq_ok.1 h)).1]
    exact endWithFailure_quiet (by decide) hok
  case markJobTimedOut id error =>
    refine commit_quiet fun s' a h => ?_
    obtain ⟨⟨s₁, ids⟩, hok, h⟩ := bind_eq_ok.1 h
    rw [← (Prod.mk.inj (pure_eq_ok.1 h)).1]
    exact endWithFailure_quiet (by decide) hok
  case retryDeadJob id => exact commit_quiet fun s' a h => retryDeadJob_quiet h
  case rescheduleCronJob id next => exact commit_quiet fun s' a h => rescheduleCronJob_quiet h
  case disableRecurringJob id =>
    exact commit_quiet fun s' a h => disableRecurringJob_quiet h
  case enableRecurringJob id =>
    exact commit_quiet fun s' a h => enableRecurringJob_quiet h
  case requeueStaleJobs queueName => exact (requeueStaleJobs_eq hk env.cron queueName).2
  case resolveJobDependencies id => exact resolveDependents_quiet ..
  case failJobDependencies id => exact applyWorkflowFailure_quiet ..
  case cancelWorkflow workflowId => exact commit_quiet fun s' a h => cancelWorkflow_quiet h
  case archiveJobs queueName policy => exact commit_quiet fun s' a h => archiveJobs_quiet h
  case restoreArchivedJob id =>
    exact commit_quiet fun s' a h => restoreArchivedJob_quiet h
  case pauseQueue queueName pausedBy => exact .of_same rfl rfl rfl
  case resumeQueue queueName => exact .of_same rfl rfl rfl
  case setTime time => exact .of_same rfl rfl rfl

-- == other calls

/-- Inserting jobs touches neither leases nor results. -/
theorem insertJobs_leases (stored : List Job) : ∀ s : TestStorage,
    (insertJobs stored s).leases = s.leases ∧
      (insertJobs stored s).jobResults = s.jobResults := by
  induction stored with
  | nil => exact fun s => ⟨rfl, rfl⟩
  | cons job stored ih =>
      intro s
      rw [insertJobs_cons]
      exact ih _

theorem enqueue_leases (h : enqueue env s job = .ok (s', id)) :
    s'.leases = s.leases ∧ s'.jobResults = s.jobResults := by
  obtain ⟨-, -, sealedJobs, -, rfl⟩ := enqueue_ok.1 h
  exact insertJobs_leases _ s

theorem enqueueChildren_leases (env : Env) (children : List Job) : ∀ s : TestStorage,
    (enqueueChildren env children s).2.leases = s.leases ∧
      (enqueueChildren env children s).2.jobResults = s.jobResults := by
  induction children with
  | nil => exact fun s => ⟨rfl, rfl⟩
  | cons child children ih =>
      intro s
      rw [enqueueChildren_cons]
      cases henq : enqueue env s child with
      | error e => exact ⟨rfl, rfl⟩
      | ok out =>
          obtain ⟨s₁, id⟩ := out
          obtain ⟨hleases, hresults⟩ := enqueue_leases henq
          have hjoin : (joinSpawned s₁ child id).leases = s₁.leases ∧
              (joinSpawned s₁ child id).jobResults = s₁.jobResults := by
            unfold joinSpawned joinWorkflow
            split
            · split <;> exact ⟨rfl, rfl⟩
            · exact ⟨rfl, rfl⟩
          obtain ⟨hleases', hresults'⟩ := ih (joinSpawned s₁ child id)
          dsimp only
          generalize enqueueChildren env children (joinSpawned s₁ child id) = out
            at hleases' hresults' ⊢
          obtain ⟨result, s₂⟩ := out
          cases result <;>
            exact ⟨hleases'.trans (hjoin.1.trans hleases),
              hresults'.trans (hjoin.2.trans hresults)⟩

/-- Completing a run with children keeps a lease or ends that of a job
that is not running, and keeps every result. -/
theorem completeJobRunWithChildren_leases (env : Env) (s : TestStorage) (run : Job)
    (children : List Job) (wall : DateTime) :
    (∀ k, (completeJobRunWithChildren env s run children wall).2.leases.lookup k
        = s.leases.lookup k ∨
      ((completeJobRunWithChildren env s run children wall).2.leases.lookup k = none ∧
        Stopped (completeJobRunWithChildren env s run children wall).2 k)) ∧
    (completeJobRunWithChildren env s run children wall).2.jobResults = s.jobResults := by
  unfold completeJobRunWithChildren
  cases validateDependencyLimits children with
  | error e => exact ⟨fun k => .inl rfl, rfl⟩
  | ok =>
      dsimp only
      split
      · exact ⟨fun k => .inl rfl, rfl⟩
      · obtain ⟨hleases, hresults⟩ := enqueueChildren_leases env children s
        generalize enqueueChildren env children s = out at hleases hresults ⊢
        obtain ⟨result, s₁⟩ := out
        cases result with
        | error e => exact ⟨fun k => .inl (by rw [hleases]), hresults⟩
        | ok spawned =>
            have hquiet := finishJobRun_quiet env.cron s₁ run .completed wall
            dsimp only at hleases hresults ⊢
            rw [← hleases, ← hresults]
            generalize finishJobRun env.cron s₁ run .completed wall = out at hquiet ⊢
            obtain ⟨result, s₂⟩ := out
            cases result <;> exact ⟨hquiet.leases, hquiet.results⟩

/-- A claim takes a lease of its job alone. -/
theorem claim_leases {lease : Duration} {claimed : Option Job}
    (h : claim s id lease = .ok (s', claimed)) :
    s'.leases = s.leases.insert id (s.clock, leaseExpiry s.clock lease) ∧
      s'.jobResults = s.jobResults := by
  unfold claim at h
  obtain ⟨s₁, hs₁, h⟩ := bind_eq_ok.1 h
  cases hlookup : s.jobs.lookup id with
  | none =>
      rw [updateJobStatus_none hlookup] at hs₁
      cases hs₁
  | some job =>
      rw [updateJobStatus_eq hlookup] at hs₁
      injection hs₁ with hs₁
      rw [← (Prod.mk.inj (pure_eq_ok.1 h)).1, ← hs₁]
      exact ⟨rfl, rfl⟩

/-- Claiming stored jobs takes a lease of each of them. -/
theorem claimEach_leases (lease : Duration) (ids : List JobId) : ∀ s : TestStorage,
    (∀ id ∈ ids, (s.jobs.lookup id).isSome) →
    (∀ k, (claimEach lease ids s).2.leases.lookup k
      = if k ∈ ids then some (s.clock, leaseExpiry s.clock lease) else s.leases.lookup k) ∧
    (claimEach lease ids s).2.jobResults = s.jobResults := by
  induction ids with
  | nil => exact fun s _ => ⟨fun k => rfl, rfl⟩
  | cons id ids ih =>
      intro s hstored
      obtain ⟨job, hlookup⟩ := Option.isSome_iff_exists.1 (hstored id (List.mem_cons_self ..))
      rw [claimEach]
      cases hclaim : claim s id lease with
      | error e =>
          unfold claim at hclaim
          rw [updateJobStatus_eq hlookup] at hclaim
          cases hclaim
      | ok out =>
          obtain ⟨s₁, claimed⟩ := out
          obtain ⟨_, -, hr, -⟩ := claim_ok hclaim
          obtain ⟨hleases, hresults⟩ := claim_leases hclaim
          obtain ⟨hrest, hresults'⟩ := ih s₁ fun id' hid' => by
            rw [hr.jobs]
            split
            · rfl
            · exact hstored id' (List.mem_cons_of_mem _ hid')
          rw [hr.rest.clock] at hrest
          dsimp only
          generalize claimEach lease ids s₁ = out at hrest hresults' ⊢
          obtain ⟨result, s₂⟩ := out
          have hboth : (∀ k, s₂.leases.lookup k = if k ∈ id :: ids then
              some (s.clock, leaseExpiry s.clock lease) else s.leases.lookup k) ∧
              s₂.jobResults = s.jobResults := by
            refine ⟨fun k => ?_, hresults'.trans hresults⟩
            rw [hrest, hleases, Table.lookup_insert_if]
            by_cases hk : k = id
            · simp [hk]
            · simp [hk]
          cases result <;> exact hboth

/-- A deletion keeps every lease. -/
theorem removeJob_leases (s : TestStorage) (id : JobId) :
    (removeJob s id).leases = s.leases ∧ (removeJob s id).jobResults = s.jobResults := by
  unfold removeJob
  split <;> exact ⟨rfl, rfl⟩

theorem foldl_leases {α : Type} {f : TestStorage → α → TestStorage}
    (hf : ∀ s a, (f s a).leases = s.leases ∧ (f s a).jobResults = s.jobResults) (l : List α) :
    ∀ s : TestStorage, (l.foldl f s).leases = s.leases ∧
      (l.foldl f s).jobResults = s.jobResults := by
  induction l with
  | nil => exact fun s => ⟨rfl, rfl⟩
  | cons a l ih =>
      intro s
      exact ⟨(ih (f s a)).1.trans (hf s a).1, (ih (f s a)).2.trans (hf s a).2⟩

theorem deleteEach_leases (ids : List (JobId × Bool)) : ∀ (s : TestStorage)
    (purge : EncryptedJobPurge), (deleteEach ids s purge).2.leases = s.leases := by
  induction ids with
  | nil => exact fun s _ => rfl
  | cons e ids ih =>
      intro s purge
      obtain ⟨id, archived⟩ := e
      rw [deleteEach]
      cases hdel : deleteJob s id with
      | error e => rfl
      | ok out =>
          obtain ⟨s₁, ⟨⟩⟩ := out
          refine (ih s₁ _).trans ?_
          unfold deleteJob at hdel
          split at hdel
          · cases hdel
          · injection hdel with hdel
            rw [← (Prod.mk.inj hdel).1]

-- == leases by call

/-- The leases a call takes. -/
def Op.Leases (env : Env) (s : TestStorage) (k : JobId) (lease : Duration) : Op → Prop
  | dequeue queueName weights lease' maxJobs =>
      k ∈ claimedIds env s queueName weights maxJobs ∧ lease' = lease
  | startClaimedRun run lease' | heartbeatJob run lease' =>
      runIsCurrent s run = true ∧ run.id = k ∧ lease' = lease
  | _ => False

/-- After a call a lease is one that the call took, or as before, or
ended with the run of its job. -/
theorem Op.leases (hk : s.Keyed) (op : Op) (k : JobId) :
    (∃ lease, op.Leases env s k lease ∧
      (op.apply env s).2.leases.lookup k = some (s.clock, leaseExpiry s.clock lease)) ∨
    ((∀ lease, ¬ op.Leases env s k lease) ∧
      ((op.apply env s).2.leases.lookup k = s.leases.lookup k ∨
        ((op.apply env s).2.leases.lookup k = none ∧ Stopped (op.apply env s).2 k))) := by
  by_cases hop : op.OnlyMoves
  · refine .inr ⟨fun lease h => ?_, (Op.quiet hk hop).leases k⟩
    cases op <;> first | exact hop.elim | exact h.elim
  have hsame : (∀ lease, ¬ op.Leases env s k lease) →
      (op.apply env s).2.leases = s.leases →
      (∃ lease, op.Leases env s k lease ∧
        (op.apply env s).2.leases.lookup k = some (s.clock, leaseExpiry s.clock lease)) ∨
      ((∀ lease, ¬ op.Leases env s k lease) ∧
        ((op.apply env s).2.leases.lookup k = s.leases.lookup k ∨
          ((op.apply env s).2.leases.lookup k = none ∧ Stopped (op.apply env s).2 k))) :=
    fun hno heq => .inr ⟨hno, .inl (by rw [heq])⟩
  cases op <;> try exact absurd trivial hop
  case dequeue queueName weights lease maxJobs =>
    have heq : (Op.apply env (.dequeue queueName weights lease maxJobs) s).2
        = (claimEach lease (claimedIds env s queueName weights maxJobs) s).2 := by
      simp only [Op.apply, reply_snd, dequeue_eq]
    have hleases := (claimEach_leases lease (claimedIds env s queueName weights maxJobs) s
      fun id hid => ?_).1 k
    · rw [heq, hleases]
      by_cases hin : k ∈ claimedIds env s queueName weights maxJobs
      · exact .inl ⟨lease, ⟨hin, rfl⟩, if_pos hin⟩
      · exact .inr ⟨fun _ h => hin h.1, .inl (if_neg hin)⟩
    · obtain ⟨job, hjob, rfl⟩ := mem_claimedIds hid
      rw [(eligible_isJob hk hjob).1]
      rfl
  case startClaimedRun run lease =>
    have heq : (Op.apply env (.startClaimedRun run lease) s).2
        = (commit s (TestQueue.startClaimedRun s run lease)).2 := by
      simp only [Op.apply, reply_snd]
    rw [heq]
    unfold TestQueue.startClaimedRun
    cases hcur : runIsCurrent s run with
    | false => exact .inr ⟨fun _ h => absurd (hcur.symm.trans h.1) (by decide), .inl rfl⟩
    | true =>
        by_cases hid : run.id = k
        · refine .inl ⟨lease, ⟨hcur, hid, rfl⟩, ?_⟩
          show (s.leases.insert run.id (s.clock, leaseExpiry s.clock lease)).lookup k = _
          rw [Table.lookup_insert_if, if_pos hid.symm]
        · refine .inr ⟨fun _ h => hid h.2.1, .inl ?_⟩
          show (s.leases.insert run.id (s.clock, leaseExpiry s.clock lease)).lookup k = _
          rw [Table.lookup_insert_if, if_neg (Ne.symm hid)]
  case heartbeatJob run lease =>
    have heq : (Op.apply env (.heartbeatJob run lease) s).2
        = (commit s (TestQueue.heartbeatJob s run lease)).2 := by
      simp only [Op.apply, reply_snd]
    rw [heq]
    unfold TestQueue.heartbeatJob
    cases hcur : runIsCurrent s run with
    | false => exact .inr ⟨fun _ h => absurd (hcur.symm.trans h.1) (by decide), .inl rfl⟩
    | true =>
        by_cases hid : run.id = k
        · refine .inl ⟨lease, ⟨hcur, hid, rfl⟩, ?_⟩
          show (s.leases.insert run.id (s.clock, leaseExpiry s.clock lease)).lookup k = _
          rw [Table.lookup_insert_if, if_pos hid.symm]
        · refine .inr ⟨fun _ h => hid h.2.1, .inl ?_⟩
          show (s.leases.insert run.id (s.clock, leaseExpiry s.clock lease)).lookup k = _
          rw [Table.lookup_insert_if, if_neg (Ne.symm hid)]
  case completeJobRunWithChildren run children wall =>
    refine .inr ⟨fun _ h => h, ?_⟩
    have h := (completeJobRunWithChildren_leases env s run children wall).1 k
    simpa only [Op.apply, reply_snd] using h
  all_goals
    refine hsame (fun _ h => h) ?_
    simp only [Op.apply, reply_snd]
  case enqueue job =>
    exact commit_elim (P := fun t => t.leases = s.leases) rfl fun s' a h =>
      (enqueue_leases h).1
  case enqueueBatch batch =>
    refine commit_elim (P := fun t => t.leases = s.leases) rfl fun s' a h => ?_
    obtain ⟨-, _, stored, -, -, rfl⟩ := enqueueBatch_ok h
    exact (insertJobs_leases stored s).1
  case enqueueWorkflow workflow =>
    refine commit_elim (P := fun t => t.leases = s.leases) rfl fun s' a h => ?_
    obtain ⟨-, _, stored, _, -, -, -, rfl⟩ := enqueueWorkflow_ok h
    exact (insertJobs_leases stored s).1
  case enqueueCronJob job =>
    refine commit_elim (P := fun t => t.leases = s.leases) rfl fun s' a h => ?_
    obtain ⟨_, -, h⟩ := enqueueCronJob_ok h
    exact (enqueue_leases h).1
  case deleteJob id =>
    refine commit_elim (P := fun t => t.leases = s.leases) rfl fun s' a h => ?_
    unfold TestQueue.deleteJob at h
    split at h
    · cases h
    · injection h with h
      rw [← (Prod.mk.inj h).1]
  case deleteBatch id =>
    exact (foldl_leases removeJob_leases _ _).1
  case purgeDeadJobs olderThan =>
    exact (foldl_leases removeJob_leases _ _).1
  case purgeArchivedJobs olderThan =>
    exact (foldl_leases (f := purgeJob none) (fun _ _ => ⟨rfl, rfl⟩) _ _).1
  case purgeArchivedJobsInQueue queueName olderThan =>
    exact (foldl_leases (f := purgeJob (some queueName)) (fun _ _ => ⟨rfl, rfl⟩) _ _).1
  case purgeExpiredEncryptedJobs => exact deleteEach_leases ..
  case storeJobResult id data expiresAt =>
    refine commit_elim (P := fun t => t.leases = s.leases) rfl fun s' a h => ?_
    unfold TestQueue.storeJobResult at h
    split at h
    · cases h
    · injection h with h
      rw [← (Prod.mk.inj h).1]
  case deleteJobResult id => rfl
  case cleanupExpiredResults => rfl

-- == results by call

/-- The calls that store results or drop them. -/
def Op.TouchesResults : Op → Prop
  | storeJobResult .. | deleteJobResult _ | cleanupExpiredResults => True
  | deleteJob _ | purgeExpiredEncryptedJobs => True
  | _ => False

/-- No other call changes a result. -/
theorem Op.jobResults_eq (hk : s.Keyed) {op : Op} (hop : ¬ op.TouchesResults) :
    (op.apply env s).2.jobResults = s.jobResults := by
  by_cases hmoves : op.OnlyMoves
  · exact (Op.quiet hk hmoves).results
  cases op <;> first | exact absurd trivial hmoves | exact absurd trivial hop | skip
  all_goals simp only [Op.apply, reply_snd]
  case enqueue job =>
    exact commit_elim (P := fun t => t.jobResults = s.jobResults) rfl fun s' a h =>
      (enqueue_leases h).2
  case enqueueBatch batch =>
    refine commit_elim (P := fun t => t.jobResults = s.jobResults) rfl fun s' a h => ?_
    obtain ⟨-, _, stored, -, -, rfl⟩ := enqueueBatch_ok h
    exact (insertJobs_leases stored s).2
  case enqueueWorkflow workflow =>
    refine commit_elim (P := fun t => t.jobResults = s.jobResults) rfl fun s' a h => ?_
    obtain ⟨-, _, stored, _, -, -, -, rfl⟩ := enqueueWorkflow_ok h
    exact (insertJobs_leases stored s).2
  case enqueueCronJob job =>
    refine commit_elim (P := fun t => t.jobResults = s.jobResults) rfl fun s' a h => ?_
    obtain ⟨_, -, h⟩ := enqueueCronJob_ok h
    exact (enqueue_leases h).2
  case dequeue queueName weights lease maxJobs =>
    rw [dequeue_eq]
    refine (claimEach_leases lease _ s fun id hid => ?_).2
    obtain ⟨job, hjob, rfl⟩ := mem_claimedIds hid
    rw [(eligible_isJob hk hjob).1]
    rfl
  case startClaimedRun run lease =>
    unfold TestQueue.startClaimedRun
    split <;> rfl
  case heartbeatJob run lease =>
    unfold TestQueue.heartbeatJob
    split <;> rfl
  case completeJobRunWithChildren run children wall =>
    exact (completeJobRunWithChildren_leases env s run children wall).2
  case deleteBatch id => exact (foldl_leases removeJob_leases _ _).2
  case purgeDeadJobs olderThan => exact (foldl_leases removeJob_leases _ _).2
  case purgeArchivedJobs olderThan =>
    exact (foldl_leases (f := purgeJob none) (fun _ _ => ⟨rfl, rfl⟩) _ _).2
  case purgeArchivedJobsInQueue queueName olderThan =>
    exact (foldl_leases (f := purgeJob (some queueName)) (fun _ _ => ⟨rfl, rfl⟩) _ _).2

theorem lookup_erase_kept {ν : Type} (t : Table JobId ν) (id k : JobId) :
    (t.erase id).lookup k = t.lookup k ∨ (t.erase id).lookup k = none := by
  rw [Table.lookup_erase_if]
  split
  · exact .inr rfl
  · exact .inl rfl

/-- Entries dropped one after another: what is left is as it was. -/
theorem kept_trans {α : Type} {x y z : Option α} (h : y = x ∨ y = none) (h' : z = y ∨ z = none) :
    z = x ∨ z = none := by
  rcases h' with rfl | rfl
  · exact h
  · exact .inr rfl

theorem foldl_erase_kept {ν : Type} (ids : List JobId) : ∀ t : Table JobId ν,
    (ids.foldl (fun t id => t.erase id) t).lookup k = t.lookup k ∨
      (ids.foldl (fun t id => t.erase id) t).lookup k = none := by
  induction ids with
  | nil => exact fun t => .inl rfl
  | cons id ids ih => exact fun t => kept_trans (lookup_erase_kept t id k) (ih (t.erase id))

theorem deleteEach_results (ids : List (JobId × Bool)) : ∀ (s : TestStorage)
    (purge : EncryptedJobPurge),
    (deleteEach ids s purge).2.jobResults.lookup k = s.jobResults.lookup k ∨
      (deleteEach ids s purge).2.jobResults.lookup k = none := by
  induction ids with
  | nil => exact fun s _ => .inl rfl
  | cons e ids ih =>
      intro s purge
      obtain ⟨id, archived⟩ := e
      rw [deleteEach]
      cases hdel : deleteJob s id with
      | error e => exact .inl rfl
      | ok out =>
          obtain ⟨s₁, ⟨⟩⟩ := out
          refine kept_trans ?_ (ih s₁ _)
          unfold deleteJob at hdel
          split at hdel
          · cases hdel
          · injection hdel with hdel
            rw [← (Prod.mk.inj hdel).1]
            exact lookup_erase_kept ..

/-- The calls that may drop a job's result. -/
def Op.MayDropResult : Op → Prop
  | deleteJobResult _ | cleanupExpiredResults | deleteJob _ | purgeExpiredEncryptedJobs => True
  | _ => False

/-- A call that stores no result of the job `k` keeps the one there is,
or it is one that may drop it and does. -/
theorem Op.jobResults_kept (hk : s.Keyed) (op : Op)
    (hop : ∀ data expiresAt, op ≠ .storeJobResult k data expiresAt) :
    (op.apply env s).2.jobResults.lookup k = s.jobResults.lookup k ∨
      (op.MayDropResult ∧ (op.apply env s).2.jobResults.lookup k = none) := by
  by_cases htouch : op.TouchesResults
  case neg => exact .inl (by rw [Op.jobResults_eq hk htouch])
  cases op <;> first | exact htouch.elim | skip
  all_goals simp only [Op.apply, reply_snd]
  case storeJobResult id data expiresAt =>
    have hne : k ≠ id := fun h => hop data expiresAt (by rw [h])
    refine .inl (commit_elim (P := fun t => t.jobResults.lookup k = s.jobResults.lookup k) rfl
      fun s' a h => ?_)
    unfold TestQueue.storeJobResult at h
    split at h
    · cases h
    · injection h with h
      rw [← (Prod.mk.inj h).1]
      show (s.jobResults.insert id (data, expiresAt)).lookup k = s.jobResults.lookup k
      rw [Table.lookup_insert_if, if_neg hne]
  all_goals refine Or.imp_right (fun h => ⟨trivial, h⟩) ?_
  case deleteJobResult id => exact lookup_erase_kept ..
  case cleanupExpiredResults => exact foldl_erase_kept ..
  case deleteJob id =>
    refine commit_elim (P := fun t => t.jobResults.lookup k = s.jobResults.lookup k ∨
      t.jobResults.lookup k = none) (.inl rfl) fun s' a h => ?_
    unfold TestQueue.deleteJob at h
    split at h
    · cases h
    · injection h with h
      rw [← (Prod.mk.inj h).1]
      exact lookup_erase_kept ..
  case purgeExpiredEncryptedJobs => exact deleteEach_results ..

end Hammerwork
