/-
Jobs put back to `Pending` can run.

A `Pending` job whose dependency status is `Failed` is out of
everybody's reach: it is not dequeued, not released, and not failed
again. Operations that put a job back re-evaluate its dependencies
(`retryJob`, `restoreArchivedJob`) or only start from statuses that no
job with failed dependencies has (`releaseJobRun`, `requeueStaleJobs`,
the rescheduling of a run that ended).

Three operations do neither: `retryDeadJob`, `rescheduleCronJob` and
`enableRecurringJob` take a job that failed with its dependencies back
as it is. `PutsBackFailed` is when they do, and the law holds in every
run in which it does not happen.

# The invariant

`Recoverable` is about one record at a time: failed dependencies go with
a status that is not about to run, and waiting ones with at least one
dependency. Every deed but the three keeps it.
-/
import Hammerwork.Proofs.Calls

namespace Hammerwork

open TestStorage TestQueue

variable {s s' : TestStorage} {env : Env} {id k : JobId} {job job' : Job}

-- == the invariant

/-- A job about to run. -/
def Job.Live (job : Job) : Prop :=
  job.status = .pending ∨ job.status = .running ∨ job.status = .retrying

/-- A job whose dependency status does not strand it. -/
structure Job.Recoverable (job : Job) : Prop where
  failed : job.dependencyStatus = .failed → job.dependsOn ≠ [] ∧ ¬ job.Live
  waiting : job.dependencyStatus = .waiting → job.dependsOn ≠ []

/-- The builders make recoverable jobs. -/
theorem recoverable_new (id : JobId) (now : DateTime) (queueName : String) (payload : Json) :
    (Job.new id now queueName payload).Recoverable :=
  ⟨fun h => (by cases h), fun h => (by cases h)⟩

theorem recoverable_addDependsOn (job : Job) (d : JobId) :
    (job.addDependsOn d).Recoverable :=
  ⟨fun h => (by cases h), fun _ => List.append_ne_nil_of_right_ne_nil _ (List.cons_ne_nil _ _)⟩

theorem Job.Recoverable.not_failed_of_live (h : job.Recoverable) (hlive : job.Live) :
    job.dependencyStatus ≠ .failed :=
  fun hfail => (h.failed hfail).2 hlive

/-- A job with the dependencies and dependency status of a recoverable
one that had not failed with them is recoverable, too. -/
theorem Job.Recoverable.of_not_failed (h : job.Recoverable)
    (hnot : job.dependencyStatus ≠ .failed) (hdeps : job'.dependsOn = job.dependsOn)
    (hdep : job'.dependencyStatus = job.dependencyStatus) : job'.Recoverable :=
  ⟨fun hfail => absurd (hdep ▸ hfail) hnot, fun hw => hdeps ▸ h.waiting (hdep ▸ hw)⟩

/-- So is one with the same dependency status that ended. -/
theorem Job.Recoverable.of_ended (h : job.Recoverable) (hended : ¬ job'.Live)
    (hdeps : job'.dependsOn = job.dependsOn)
    (hdep : job'.dependencyStatus = job.dependencyStatus) : job'.Recoverable :=
  ⟨fun hfail => ⟨hdeps ▸ (h.failed (hdep ▸ hfail)).1, hended⟩,
    fun hw => hdeps ▸ h.waiting (hdep ▸ hw)⟩

/-- Every deed but the three keeps jobs recoverable; so do they, on a
job whose dependencies did not fail. -/
theorem Change.recoverable {d : Deed} (h : Change s d k job job') (hjob : job.Recoverable)
    (hputs : d = .reschedule k ∨ d = .retryDead k ∨ d = .enable k →
      job.dependencyStatus ≠ .failed ∨ job.status = .running) : job'.Recoverable := by
  have hrunning : job.status = .running → job.dependencyStatus ≠ .failed :=
    fun hrun => hjob.not_failed_of_live (.inr (.inl hrun))
  have hputs' : d = .reschedule k ∨ d = .retryDead k ∨ d = .enable k →
      job.dependencyStatus ≠ .failed := fun hd => (hputs hd).elim id hrunning
  -- a job failed as a side effect had dependencies, if it waited on them
  have hside : ∀ error now, (sideFailed job error now).Recoverable := by
    intro error now
    unfold sideFailed
    refine ⟨fun hfail => ⟨?_, ?_⟩, fun hw => ?_⟩
    · dsimp only at hfail
      split at hfail
      · next hw => exact hjob.waiting hw
      · exact (hjob.failed hfail).1
    · rintro (h | h | h) <;> cases h
    · dsimp only at hw
      split at hw
      · cases hw
      · exact hjob.waiting hw
  have hretried : ∀ action dep (job' : Job), reevaluated s job action = .ok dep →
      job'.dependsOn = job.dependsOn →
      job'.dependencyStatus = dep.getD job.dependencyStatus → job'.Recoverable := by
    intro action dep job' hdep hdeps hst
    rcases reevaluated_ok hdep with ⟨hnil, rfl⟩ | ⟨hne, status, rfl, hstatus⟩
    · rw [Option.getD_none] at hst
      refine ⟨fun hfail => ?_, fun hw => hdeps ▸ hjob.waiting (hst ▸ hw)⟩
      exact absurd hnil (hjob.failed (hst ▸ hfail)).1
    · refine ⟨fun hfail => ?_, fun _ => hdeps ▸ hne⟩
      rcases hstatus with ⟨rfl, -⟩ | ⟨rfl, -⟩ <;> rw [hst] at hfail <;> cases hfail
  cases h with
  | claim hdue =>
      refine hjob.of_not_failed (fun hfail => ?_) rfl rfl
      unfold dequeuable at hdue
      simp [hfail] at hdue
  | start hrun => exact hjob.of_not_failed (hrunning hrun) rfl rfl
  | release hrun => exact hjob.of_not_failed (hrunning hrun) rfl rfl
  | complete => exact hjob.of_ended (by rintro (h | h | h) <;> cases h) rfl rfl
  | fail => exact hjob.of_ended (by rintro (h | h | h) <;> cases h) rfl rfl
  | dead => exact hjob.of_ended (by rintro (h | h | h) <;> cases h) rfl rfl
  | timedOut => exact hjob.of_ended (by rintro (h | h | h) <;> cases h) rfl rfl
  | retry _ dep _ hdep => exact hretried _ dep _ hdep rfl rfl
  | runError => exact ⟨fun h => hjob.failed h, fun h => hjob.waiting h⟩
  | rerun _ hrun => exact hjob.of_not_failed (hrunning hrun) rfl rfl
  | rerunEnded _ _ _ hrun => exact hjob.of_not_failed (hrunning hrun) rfl rfl
  | rerunBuried _ hrun => exact hjob.of_not_failed (hrunning hrun) rfl rfl
  | requeue hrun => exact hjob.of_not_failed (hrunning hrun) rfl rfl
  | bury => exact hjob.of_ended (by rintro (h | h | h) <;> cases h) rfl rfl
  | reschedule => exact hjob.of_not_failed (hputs' (.inl rfl)) rfl rfl
  | retryDead => exact hjob.of_not_failed (hputs' (.inr (.inl rfl))) rfl rfl
  | disable => exact ⟨fun h => hjob.failed h, fun h => hjob.waiting h⟩
  | keepRunning => exact ⟨fun h => hjob.failed h, fun h => hjob.waiting h⟩
  | enable => exact hjob.of_not_failed (hputs' (.inr (.inr rfl))) rfl rfl
  | restore dep _ hdep => exact hretried _ dep _ hdep rfl rfl
  | fallout error => exact hside error s.clock
  | cancel error => exact hside error s.clock
  | resolve =>
      unfold TestStorage.release
      refine ⟨fun hfail => ?_, fun hw => ?_⟩
      · dsimp only at hfail
        split at hfail
        · cases hfail
        · exact hjob.failed hfail
      · dsimp only at hw
        split at hw
        · cases hw
        · exact hjob.waiting hw
  | archive => exact hjob.of_ended (by rintro (h | h | h) <;> cases h) rfl rfl

/-- Jobs handed in recoverable are stored so. -/
theorem recoverable_of_arrives {jobs stored : List Job} (h : Arrives s jobs stored job job')
    (hjob : job.Recoverable) : job'.Recoverable := by
  have hdeps := h.keeps.dependsOn
  cases h.settled with
  | unchanged hst hdep =>
      refine ⟨fun hfail => ?_, fun hw => hdeps ▸ hjob.waiting (hdep ▸ hw)⟩
      obtain ⟨hne, hlive⟩ := hjob.failed (hdep ▸ hfail)
      exact ⟨hdeps ▸ hne, fun h => hlive (by unfold Job.Live at h ⊢; rwa [hst] at h)⟩
  | satisfied _ _ _ _ hsat =>
      exact ⟨fun h => (by rw [hsat] at h; cases h), fun h => (by rw [hsat] at h; cases h)⟩
  | failed d hw hd _ hst hfail =>
      refine ⟨fun _ => ⟨fun hnil => ?_, ?_⟩, fun h => (by rw [hfail] at h; cases h)⟩
      · rw [hdeps] at hnil
        rw [hnil] at hd
        cases hd
      · rintro (h | h | h) <;> rw [hst] at h <;> cases h

-- == the law

/-- The calls that put a job whose dependencies failed back to `Pending`
as it is: they accept it, and do not look at its dependencies. -/
def PutsBackFailed (env : Env) (s : TestStorage) : Event → Prop
  | .call (.retryDeadJob id) => s.isJob id (fun job =>
      job.dependencyStatus = .failed && JobTransition.retryDead.isAllowedFrom job.status) = true
  | .call (.rescheduleCronJob id _) => s.isJob id (fun job =>
      job.dependencyStatus = .failed && job.recurring &&
        JobTransition.rescheduleCron.isAllowedFrom job.status) = true
  | .call (.enableRecurringJob id) => s.isJob id (fun job =>
      job.dependencyStatus = .failed && job.status ≠ .running &&
        (enabledRecurringNextRun env.cron job s.clock).isOk) = true
  | _ => False

/-- Every stored job is recoverable. -/
def AllRecoverable (s : TestStorage) : Prop :=
  ∀ k job, s.jobs.lookup k = some job → job.Recoverable

/-- The three deeds are done by the three operations alone. -/
theorem Op.Allows.putBack {op : Op} {d : Deed} (h : op.Allows env s (.deed d))
    (hd : d = .reschedule k ∨ d = .retryDead k ∨ d = .enable k) :
    (∃ next, op = .rescheduleCronJob k next) ∨ op = .retryDeadJob k ∨
      op = .enableRecurringJob k := by
  rcases hd with rfl | rfl | rfl
  all_goals
    cases op <;> simp_all [Op.Allows, FinishAllows, ReclaimAllows]

/-- One rewritten job, recoverable like the rest. -/
theorem AllRecoverable.rewrite (h : AllRecoverable s) (hr : Rewrite s id job' s')
    (hjob : job'.Recoverable) : AllRecoverable s' := by
  intro k job hlookup
  rw [hr.jobs] at hlookup
  split at hlookup
  · injection hlookup with hlookup
    exact hlookup ▸ hjob
  · exact h k job hlookup

theorem AllRecoverable.writes {allowed : WriteKind → Prop} (h : AllRecoverable s)
    (hw : Writes allowed s s')
    (hdeed : ∀ d k, allowed (.deed d) → ¬ (d = .reschedule k ∨ d = .retryDead k ∨ d = .enable k))
    (hinsert : ∀ given, allowed (.insert given) → ∀ job ∈ given, job.Recoverable) :
    AllRecoverable s' := by
  refine hw.records (P := fun _ job => job.Recoverable)
    (fun s d k job job' hd _ hchange hjob => ?_) (fun s given stored job hd harr hmem => ?_) h
  · exact hchange.recoverable hjob fun hputs => absurd hputs (hdeed d k hd)
  · obtain ⟨job₀, hmem₀, harrives⟩ := mem_of_forall₂ harr.each hmem
    exact recoverable_of_arrives harrives (hinsert given hd job₀ hmem₀)

theorem Job.SameRequest.recoverable (h : job.SameRequest job') (hjob : job.Recoverable) :
    job'.Recoverable := by
  refine ⟨fun hfail => ?_, fun hw => h.dependsOn ▸ hjob.waiting (h.dependencyStatus ▸ hw)⟩
  obtain ⟨hne, hlive⟩ := hjob.failed (h.dependencyStatus ▸ hfail)
  exact ⟨h.dependsOn ▸ hne, fun hl => hlive (by unfold Job.Live at hl ⊢; rwa [h.status] at hl)⟩

/-- A step that puts no failed job back keeps every job recoverable. -/
theorem Step.recoverable {e : Event} (h : Step env s e s') (hk : s.Keyed)
    (hs : AllRecoverable s) (hputs : ¬ PutsBackFailed env s e)
    (hin : ∀ job ∈ e.enqueued, job.Recoverable) : AllRecoverable s' := by
  have hw := h.writes hk
  cases h with
  | rehash h =>
      refine hs.writes hw (fun d k hd => ?_) fun given hd => ?_ <;> cases hd
  | call op =>
      by_cases hop : ∃ k, (∃ next, op = .rescheduleCronJob k next) ∨ op = .retryDeadJob k ∨
          op = .enableRecurringJob k
      · obtain ⟨k, ⟨next, rfl⟩ | rfl | rfl⟩ := hop
        all_goals
          unfold Op.apply
          rw [reply_snd]
          refine commit_elim hs fun s' a hok => ?_
          have hnot : ∀ {p : Job → Bool} {job : Job}, s.jobs.lookup k = some job →
              ¬ s.isJob k p = true → p job = false := by
            intro p job hlookup hno
            by_contra hp
            exact hno (isJob_iff.2 ⟨job, hlookup, by simpa using hp⟩)
        · obtain ⟨job, hlookup, hallowed, hrec, hr⟩ := rescheduleCronJob_ok hok
          have hp := hnot hlookup hputs
          have hchange : Change s (.reschedule k) k job _ := .reschedule next hallowed
          refine hs.rewrite hr (hchange.recoverable (hs k job hlookup) fun _ => .inl ?_)
          simpa [hallowed, hrec] using hp
        · obtain ⟨job, hlookup, hallowed, hr⟩ := retryDeadJob_ok hok
          have hp := hnot hlookup hputs
          have hchange : Change s (.retryDead k) k job _ := .retryDead hallowed
          refine hs.rewrite hr (hchange.recoverable (hs k job hlookup) fun _ => .inl ?_)
          simpa [hallowed] using hp
        · obtain ⟨job, hlookup, hrest⟩ := enableRecurringJob_ok hok
          have hp := hnot hlookup hputs
          rcases hrest with ⟨hrun, hr⟩ | ⟨hrun, next, hnext, hr⟩
          · have hchange : Change s (.enable k) k job _ := .keepRunning hrun
            exact hs.rewrite hr (hchange.recoverable (hs k job hlookup) fun _ => .inr hrun)
          · have hchange : Change s (.enable k) k job _ := .enable next hrun
            refine hs.rewrite hr (hchange.recoverable (hs k job hlookup) fun _ => .inl ?_)
            simpa [hrun, hnext, Except.isOk, Except.toBool] using hp
      · refine hs.writes hw (fun d k hd hput => hop ⟨k, Op.Allows.putBack hd hput⟩) ?_
        intro given hd job' hjob'
        obtain ⟨job, hjob, hsame⟩ := Op.Allows.insert hd job' hjob'
        exact hsame.recoverable (hin job hjob)

/-- When it does happen, the job put back is stranded: the condition
leaves out nothing. -/
theorem PutsBackFailed.strands {e : Event} (h : PutsBackFailed env s e)
    (hstep : Step env s e s') : ∃ k job, s'.jobs.lookup k = some job ∧
      job.status = .pending ∧ job.dependencyStatus = .failed := by
  cases hstep with
  | rehash => cases h
  | call op =>
      cases op <;> try cases h
      case retryDeadJob id =>
        obtain ⟨job, hlookup, hjob⟩ := isJob_iff.1 h
        simp only [Bool.and_eq_true, decide_eq_true_eq] at hjob
        have hok : ∃ out, retryDeadJob s id = .ok out := by
          unfold retryDeadJob
          rw [checkTransition_of hlookup hjob.2, updateJobStatus_eq hlookup]
          exact ⟨_, rfl⟩
        obtain ⟨⟨s₁, ⟨⟩⟩, hok⟩ := hok
        obtain ⟨job', hlookup', -, hr⟩ := retryDeadJob_ok hok
        rw [hlookup] at hlookup'
        injection hlookup' with hlookup'
        subst hlookup'
        unfold Op.apply
        rw [reply_snd, hok]
        exact ⟨id, _, hr.lookup_self, rfl, hjob.1⟩
      case rescheduleCronJob id next =>
        obtain ⟨job, hlookup, hjob⟩ := isJob_iff.1 h
        simp only [Bool.and_eq_true, decide_eq_true_eq] at hjob
        have hok : ∃ out, rescheduleCronJob s id next = .ok out := by
          obtain ⟨s₁, hs₁⟩ := rescheduleInPlace_isOk hlookup next false
          unfold rescheduleCronJob
          rw [checkTransition_of hlookup hjob.2,
            show s.isJob id (·.recurring) = true from isJob_iff.2 ⟨job, hlookup, hjob.1.2⟩]
          exact ⟨_, bind_eq_ok.2 ⟨(), rfl, bind_eq_ok.2 ⟨s₁, hs₁, rfl⟩⟩⟩
        obtain ⟨⟨s₁, ⟨⟩⟩, hok⟩ := hok
        obtain ⟨job', hlookup', -, -, hr⟩ := rescheduleCronJob_ok hok
        rw [hlookup] at hlookup'
        injection hlookup' with hlookup'
        subst hlookup'
        unfold Op.apply
        rw [reply_snd, hok]
        exact ⟨id, _, hr.lookup_self, rfl, hjob.1.1⟩
      case enableRecurringJob id =>
        obtain ⟨job, hlookup, hjob⟩ := isJob_iff.1 h
        simp only [Bool.and_eq_true, decide_eq_true_eq] at hjob
        obtain ⟨⟨hfail, hrun⟩, hnext⟩ := hjob
        have hok : ∃ out, enableRecurringJob env.cron s id = .ok out := by
          unfold enableRecurringJob
          rw [hlookup]
          cases hnext' : enabledRecurringNextRun env.cron job s.clock with
          | error e => rw [hnext'] at hnext; cases hnext
          | ok next =>
              cases next with
              | none => exact absurd ((enabledRecurringNextRun_status hnext').1 rfl) hrun
              | some next =>
                  simp only [hnext', bind, Except.bind, updateJobStatus_eq hlookup]
                  exact ⟨_, rfl⟩
        obtain ⟨⟨s₁, ⟨⟩⟩, hok⟩ := hok
        obtain ⟨job', hlookup', hrest⟩ := enableRecurringJob_ok hok
        rw [hlookup] at hlookup'
        injection hlookup' with hlookup'
        subst hlookup'
        unfold Op.apply
        rw [reply_snd, hok]
        rcases hrest with ⟨hrun', -⟩ | ⟨-, next, -, hr⟩
        · exact absurd hrun' hrun
        · exact ⟨id, _, hr.lookup_self, rfl, hfail⟩

/-- In a run from the empty queue whose steps put no failed job back, no
stored job is ever pending with failed dependencies. -/
theorem no_pending_with_failed_dependencies {n : Nat} (r : Run (Step env) n) {clock : DateTime}
    (h0 : r.state 0 = TestStorage.new clock)
    (hputs : ∀ i < n, ¬ PutsBackFailed env (r.state i) (r.event i))
    (hin : ∀ i < n, ∀ job ∈ (r.event i).enqueued, job.Recoverable) :
    ∀ i ≤ n, ∀ k job, (r.state i).jobs.lookup k = some job →
      ¬ (job.status = .pending ∧ job.dependencyStatus = .failed) := by
  have hrec : ∀ i, 0 ≤ i → i ≤ n → AllRecoverable (r.state i) := by
    refine r.stable (h0 ▸ fun k job h => (by cases h)) fun i _ hi hstep hs => ?_
    exact hstep.recoverable (run_keyed r h0 i (by omega)) hs (hputs i hi) (hin i hi)
  intro i hi k job hlookup hstuck
  exact ((hrec i (Nat.zero_le i) hi k job hlookup).failed hstuck.2).2 (.inl hstuck.1)

-- == on two jobs

/-- A dependent fails with its parent and is buried. -/
def buriedDependent : List Op :=
  [.enqueue parentJob, .enqueue dependentJob, .failJob 1 "broken", .markJobDead 2 "given up"]

/-- Up to its burial nothing is wrong. -/
theorem no_pending_with_failed_dependencies_buried :
    ((Op.trace plainEnv buriedDependent (TestStorage.new 0)).state 4).isJob 2 (fun job =>
      job.status = .pending && job.dependencyStatus = .failed) = false := by
  by_contra hjob
  obtain ⟨job, hlookup, hjob⟩ := isJob_iff.1 (by simpa using hjob)
  refine no_pending_with_failed_dependencies
    (Op.trace plainEnv buriedDependent (TestStorage.new 0)) rfl ?_ ?_ 4 (le_refl 4)
    2 job hlookup (by simpa using hjob)
  · intro i hi
    match i, hi with
    | 0, _ | 1, _ | 2, _ | 3, _ => exact fun h => h.elim
  · intro i hi job hjob
    match i, hi with
    | 0, _ =>
        rw [List.mem_singleton.1 hjob]
        exact recoverable_new 1 0 "mail" .null
    | 1, _ =>
        rw [List.mem_singleton.1 hjob]
        exact recoverable_addDependsOn _ 1
    | 2, _ | 3, _ => cases hjob

/-- Retrying the buried dependent strands it. -/
theorem retryDeadJob_strands : ∃ s, Reachable plainEnv s ∧ ∃ job, s.jobs.lookup 2 = some job ∧
    job.status = .pending ∧ job.dependencyStatus = .failed := by
  refine ⟨_, reachable_applyAll plainEnv (buriedDependent ++ [.retryDeadJob 2]) 0, ?_⟩
  have h : (Op.applyAll plainEnv (buriedDependent ++ [.retryDeadJob 2])
      (TestStorage.new 0)).isJob 2 (fun job =>
        job.status = .pending && job.dependencyStatus = .failed) = true := by
    decide +kernel
  obtain ⟨job, hlookup, hjob⟩ := isJob_iff.1 h
  exact ⟨job, hlookup, by simpa using hjob⟩

end Hammerwork
