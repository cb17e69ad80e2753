/-
Every call is a chain of writes.

`Op.Allows env s op w` says which kinds of writes the call `op` may make
when it starts in `s`, and `Op.writes` that it makes no others. What a
deed may start from is in `Change`; what is here is which deeds a call
does, and to which jobs: a dequeue claims eligible jobs, a report of a
run touches that run's job, a recovery touches stale jobs, and so on.

One lemma for each call, in the order of `Op`; `Op.writes` puts them
together.
-/
import Hammerwork.Proofs.Writes
import Hammerwork.Proofs.Finish
import Hammerwork.Machine

namespace Hammerwork

open TestStorage TestQueue

variable {s s' : TestStorage} {env : Env} {id : JobId} {run job job' : Job}
variable {allowed : WriteKind → Prop}

-- == what calls allow

/-- A job as a call passes it on: of the same identity, dependencies and
state. -/
structure Job.SameRequest (a b : Job) : Prop where
  id : b.id = a.id
  queueName : b.queueName = a.queueName
  dependsOn : b.dependsOn = a.dependsOn
  status : b.status = a.status
  dependencyStatus : b.dependencyStatus = a.dependencyStatus
  completedAt : b.completedAt = a.completedAt

theorem Job.SameRequest.refl (a : Job) : a.SameRequest a := ⟨rfl, rfl, rfl, rfl, rfl, rfl⟩

/-- The ids a dequeue claims, in order. -/
def claimedIds (env : Env) (s : TestStorage) (queueName : String)
    (weights : Option PriorityWeights) (maxJobs : Nat) : List JobId :=
  match min maxJobs maxDequeueBatchSize with
  | 0 => []
  | 1 => (s.getNextJob env.hash queueName weights).toList
  | maxJobs => s.getNextJobs env.hash queueName weights maxJobs

/-- The writes of recording that a run of `id` ended as `outcome`. -/
def FinishAllows (outcome : JobOutcome) (id : JobId) (w : WriteKind) : Prop :=
  w = .deed (.complete id) ∨ w = .deed .resolve ∨ w = .deed (.finish id) ∨
    w = .deed .fallout ∨ (outcome.terminalStatus = none ∧ w = .deed (.retry id)) ∨
    (outcome.terminalStatus = none ∧ w = .deed (.runError id)) ∨ w = .deed (.rerun id)

/-- The writes of reclaiming a stale job `id`. -/
def ReclaimAllows (id : JobId) (w : WriteKind) : Prop :=
  w = .other ∨ w = .deed (.requeue id) ∨ w = .deed (.rerun id) ∨ w = .deed (.bury id) ∨
    w = .deed .fallout

/-- The writes a call may make, started in `s`. -/
def Op.Allows (env : Env) (s : TestStorage) (op : Op) (w : WriteKind) : Prop :=
  match op with
  | enqueue job => w = .insert [job]
  | enqueueBatch batch => w = .insert batch.jobs
  | enqueueWorkflow workflow => w = .insert workflow.jobs
  | enqueueCronJob job => ∃ job', job.SameRequest job' ∧ w = .insert [job']
  | dequeue queueName weights _ maxJobs =>
      ∃ id ∈ claimedIds env s queueName weights maxJobs, w = .deed (.claim id)
  | startClaimedRun run _ => runIsCurrent s run = true ∧ w = .deed (.start run.id)
  | releaseJobRun run => runIsCurrent s run = true ∧ w = .deed (.release run.id)
  | finishJobRun run outcome _ => runIsCurrent s run = true ∧ FinishAllows outcome run.id w
  | completeJobRunWithChildren run children _ => runIsCurrent s run = true ∧
      ((∃ child ∈ children, w = .insert [child]) ∨ w = .other ∨
        FinishAllows .completed run.id w)
  | completeJob id => w = .deed (.complete id) ∨ w = .deed .resolve
  | failJob id _ => w = .deed (.fail id) ∨ w = .deed .fallout
  | retryJob id _ => w = .deed (.retry id)
  | markJobDead id _ | markJobTimedOut id _ => w = .deed (.finish id) ∨ w = .deed .fallout
  | retryDeadJob id => w = .deed (.retryDead id)
  | rescheduleCronJob id _ => w = .deed (.reschedule id)
  | disableRecurringJob id => w = .deed (.disable id)
  | enableRecurringJob id => w = .deed (.enable id)
  | requeueStaleJobs queueName => ∃ id job, s.jobs.lookup id = some job ∧
      isStale s queueName job = true ∧ ReclaimAllows id w
  | resolveJobDependencies _ => w = .deed .resolve
  | failJobDependencies _ => w = .deed .fallout
  | cancelWorkflow _ => w = .deed .cancel ∨ w = .other
  | archiveJobs .. => w = .deed .archive
  | restoreArchivedJob id => w = .deed (.restore id)
  | deleteJob _ | deleteBatch _ | purgeDeadJobs _ | purgeArchivedJobs _
  | purgeArchivedJobsInQueue .. | purgeExpiredEncryptedJobs => w = .delete ∨ w = .other
  | heartbeatJob .. | storeJobResult .. | deleteJobResult _ | cleanupExpiredResults
  | pauseQueue .. | resumeQueue _ => w = .other
  | setTime _ => w = .tick

-- == results

theorem reply_snd {α : Type} (f : α → Reply) (r : Result α) : (r.reply f).2 = r.2 := by
  obtain ⟨r, s⟩ := r
  cases r <;> rfl

/-- A call of one section changes nothing unless it succeeds. -/
theorem commit_elim {α : Type} {r : Except HammerworkError (TestStorage × α)}
    {P : TestStorage → Prop} (hs : P s) (h : ∀ s' a, r = .ok (s', a) → P s') :
    P (commit s r).2 := by
  cases r with
  | error e => exact hs
  | ok out => exact h out.1 out.2 rfl

/-- A call of one section writes what it writes when it succeeds. -/
theorem commit_writes {α : Type} {r : Except HammerworkError (TestStorage × α)}
    (h : ∀ s' a, r = .ok (s', a) → Writes allowed s s') : Writes allowed s (commit s r).2 :=
  commit_elim (.refl s) h

/-- Writing to anything but jobs, index and clock. -/
theorem Write.of_other (hjobs : s'.jobs = s.jobs) (hqueues : s'.queues = s.queues)
    (hclock : s'.clock = s.clock) : Write s .other s' :=
  .other (fun k => by rw [hjobs]) hclock hqueues

-- == enqueue

theorem enqueueCronJob_ok {id : JobId} (h : enqueueCronJob env s job = .ok (s', id)) :
    ∃ job', job.SameRequest job' ∧ enqueue env s job' = .ok (s', id) := by
  unfold enqueueCronJob at h
  split at h
  · cases h
  · split at h
    · cases h
    · dsimp only at h
      split at h
      · refine ⟨_, ?_, h⟩
        exact ⟨rfl, rfl, rfl, rfl, rfl, rfl⟩
      · refine ⟨_, ?_, h⟩
        exact ⟨rfl, rfl, rfl, rfl, rfl, rfl⟩

-- == claims, runs

/-- A claimed job is still dequeuable, as far as its other fields go. -/
theorem dequeuable_claimed {now now' : DateTime} :
    dequeuable now (job.claimed now') = dequeuable now job := rfl

/-- A job handed out: started now, otherwise as it was stored. -/
structure HandedOut (s : TestStorage) (job : Job) : Prop where
  startedAt : job.startedAt = some s.clock
  stored : ∃ job₀, s.jobs.lookup job.id = some job₀ ∧ job₀.dependsOn = job.dependsOn ∧
    dequeuable s.clock job₀ = true

/-- The job `k`, if it is stored, was started now. -/
def StartedNow (s : TestStorage) (k : JobId) : Prop :=
  ∀ job, s.jobs.lookup k = some job → job.startedAt = some s.clock

/-- Claims of jobs that are stored and dequeuable succeed, and are
claims of those jobs. -/
theorem claimEach_writes (lease : Duration) (ids : List JobId) : ∀ s : TestStorage,
    s.Keyed → (∀ id ∈ ids, s.isJob id (dequeuable s.clock) = true) →
    (∀ id ∈ ids, allowed (.deed (.claim id))) →
    Writes allowed s (claimEach lease ids s).2 ∧
      (∀ k, k ∈ ids ∨ StartedNow s k → StartedNow (claimEach lease ids s).2 k) ∧
      ∃ jobs, (claimEach lease ids s).1 = .ok jobs ∧ jobs.map (·.id) = ids ∧
        ∀ job ∈ jobs, HandedOut s job := by
  induction ids with
  | nil =>
      exact fun s _ _ _ => ⟨.refl s, fun k hk => hk.resolve_left (fun h => by cases h), [], rfl,
        rfl, fun job hjob => (by cases hjob)⟩
  | cons id ids ih =>
      intro s hk hdue hallowed
      obtain ⟨job₀, hlookup, hjob₀⟩ := isJob_iff.1 (hdue id (List.mem_cons_self ..))
      cases hclaim : claim s id lease with
      | error e =>
          unfold claim at hclaim
          rw [updateJobStatus_eq hlookup] at hclaim
          cases hclaim
      | ok out =>
          obtain ⟨s₁, claimed⟩ := out
          obtain ⟨job, hlookup', hr, rfl⟩ := claim_ok hclaim
          rw [hlookup] at hlookup'
          injection hlookup' with hlookup'
          subst hlookup'
          have hwrite : Writes allowed s s₁ := .deed (hallowed id (List.mem_cons_self ..))
            (.of_rewrite hlookup hr (.claim hjob₀))
          have hdue' : ∀ id' ∈ ids, s₁.isJob id' (dequeuable s₁.clock) = true := by
            intro id' hid'
            rw [isJob_iff, hr.rest.clock]
            obtain ⟨job', hlookup', hdue'⟩ :=
              isJob_iff.1 (hdue id' (List.mem_cons_of_mem _ hid'))
            by_cases heq : id' = id
            · exact ⟨_, heq ▸ hr.lookup_self, dequeuable_claimed.trans hjob₀⟩
            · exact ⟨job', hr.lookup_ne heq ▸ hlookup', hdue'⟩
          obtain ⟨hwrites, hnow, jobs, hjobs, hids, hout⟩ := ih s₁ (hwrite.keyed hk) hdue'
            fun id' hid' => hallowed id' (List.mem_cons_of_mem _ hid')
          have heq : claimEach lease (id :: ids) s
              = (.ok (job₀.claimed s.clock :: jobs), (claimEach lease ids s₁).2) := by
            rw [claimEach, hclaim]
            dsimp only
            generalize claimEach lease ids s₁ = out at hjobs ⊢
            obtain ⟨_, s₂⟩ := out
            cases hjobs
            rfl
          rw [heq]
          have hid : job₀.id = id := hk id job₀ hlookup
          refine ⟨hwrite.trans hwrites, fun k hk' => hnow k ?_, _, rfl, ?_, ?_⟩
          · -- the first of the list was started by its own claim
            by_cases heq : k = id
            · refine .inr fun job hjob => ?_
              rw [heq, hr.lookup_self] at hjob
              injection hjob with hjob
              rw [← hjob, hr.rest.clock]
              rfl
            · rcases hk' with hmem | hstarted
              · exact .inl ((List.mem_cons.1 hmem).resolve_left heq)
              · refine .inr fun job hjob => ?_
                rw [hr.lookup_ne heq] at hjob
                rw [hr.rest.clock]
                exact hstarted job hjob
          · rw [List.map_cons, hids]
            exact congrArg (· :: ids) hid
          intro job hjob
          rcases List.mem_cons.1 hjob with rfl | hjob
          · exact ⟨rfl, job₀, (congrArg s.jobs.lookup hid).trans hlookup, rfl, hjob₀⟩
          · -- a job claimed twice is still the job stored first
            obtain ⟨hstarted, job₁, hlookup₁, hdeps, hdue₁⟩ := hout job hjob
            rw [hr.rest.clock] at hstarted hdue₁
            refine ⟨hstarted, ?_⟩
            rw [hr.jobs] at hlookup₁
            split at hlookup₁
            · next heq =>
              injection hlookup₁ with hlookup₁
              subst hlookup₁
              exact ⟨job₀, heq ▸ hlookup, hdeps, hjob₀⟩
            · exact ⟨job₁, hlookup₁, hdeps, hdue₁⟩

/-- An eligible job is dequeuable and stored under its id. -/
theorem eligible_isJob (hk : s.Keyed) {queueName : String}
    (h : job ∈ s.eligibleJobs queueName) :
    s.jobs.lookup job.id = some job ∧ dequeuable s.clock job = true := by
  obtain ⟨id, -, hlookup, hdue⟩ := mem_eligibleJobs h
  rw [hk id job hlookup]
  exact ⟨hlookup, hdue⟩

theorem mem_claimedIds {queueName : String} {weights : Option PriorityWeights}
    {maxJobs : Nat} (h : id ∈ claimedIds env s queueName weights maxJobs) :
    ∃ job ∈ s.eligibleJobs queueName, job.id = id := by
  unfold claimedIds at h
  split at h
  · cases h
  · exact getNextJob_mem (Option.mem_toList.1 h)
  · exact getNextJobs_mem h

/-- A dequeue is the claims of the ids it chose. -/
theorem dequeue_eq (queueName : String) (weights : Option PriorityWeights)
    (lease : Duration) (maxJobs : Nat) :
    dequeue env s queueName weights lease maxJobs
      = claimEach lease (claimedIds env s queueName weights maxJobs) s := by
  unfold dequeue claimedIds
  generalize min maxJobs maxDequeueBatchSize = n
  match n with
  | 0 => rfl
  | 1 =>
      dsimp only
      unfold claimOne
      cases s.getNextJob env.hash queueName weights with
      | none => rfl
      | some id =>
          show commit s ((claim s id lease).map _) = claimEach lease [id] s
          rw [claimEach]
          cases claim s id lease with
          | error e => rfl
          | ok out => simp [claimEach, commit, Except.map]
  | n + 2 => rfl

theorem dequeue_writes (env : Env) (hk : s.Keyed) (queueName : String)
    (weights : Option PriorityWeights) (lease : Duration) (maxJobs : Nat) :
    Writes (Op.Allows env s (.dequeue queueName weights lease maxJobs)) s
        (dequeue env s queueName weights lease maxJobs).2 ∧
      (∀ k ∈ claimedIds env s queueName weights maxJobs,
        StartedNow (dequeue env s queueName weights lease maxJobs).2 k) ∧
      ∃ jobs, (dequeue env s queueName weights lease maxJobs).1 = .ok jobs ∧
        jobs.map (·.id) = claimedIds env s queueName weights maxJobs ∧
        ∀ job ∈ jobs, HandedOut s job := by
  rw [dequeue_eq]
  refine (claimEach_writes lease _ s hk ?_ ?_).imp_right fun h =>
    h.imp_left fun hnow k hk => hnow k (.inl hk)
  · intro id hid
    obtain ⟨job, hjob, rfl⟩ := mem_claimedIds hid
    obtain ⟨hlookup, hdue⟩ := eligible_isJob hk hjob
    exact isJob_iff.2 ⟨job, hlookup, hdue⟩
  · exact fun id hid => ⟨id, hid, rfl⟩

theorem startClaimedRun_writes (run : Job) (lease : Duration) :
    Writes (Op.Allows env s (.startClaimedRun run lease)) s
      (commit s (startClaimedRun s run lease)).2 := by
  refine commit_writes fun s' a h => ?_
  obtain ⟨b, run'⟩ := a
  rcases startClaimedRun_ok h with ⟨-, rfl, -⟩ | ⟨-, -, job, hlookup, hst, hsame, hr⟩
  · exact .refl s'
  · exact .deed ⟨runIsCurrent_iff.2 ⟨job, hlookup, hst, hsame⟩, rfl⟩
      (.of_rewrite hlookup hr (.start hst))

theorem releaseJobRun_writes (run : Job) :
    Writes (Op.Allows env s (.releaseJobRun run)) s (commit s (releaseJobRun s run)).2 := by
  refine commit_writes fun s' a h => ?_
  rcases releaseJobRun_ok h with ⟨-, rfl, -⟩ | ⟨-, job, hlookup, hst, hsame, hr⟩
  · exact .refl s'
  · exact .deed ⟨runIsCurrent_iff.2 ⟨job, hlookup, hst, hsame⟩, rfl⟩
      (.of_rewrite hlookup hr (.release hst))

-- == terminal ends

/-- Whatever a failure takes with it had not started. -/
theorem unstarted_of_failureTakes {root k : JobId} (h : FailureTakes s root k) :
    s.isJob k unstarted = true := by
  rcases h with (⟨_, -, -, -, -, hun⟩ | ⟨-, hreach⟩) | ⟨_, -, -, -, hun⟩
  · exact hun
  · obtain ⟨job, hlookup, hfail⟩ := isJob_iff.1 hreach.isFresh.1
    exact isJob_iff.2 ⟨job, hlookup, unstarted_of_canFailAsDependent hfail⟩
  · exact hun

/-- Failing unstarted jobs is a fallout. -/
theorem Changed.fallout {fails : JobId → Prop} (h : SideFailures s s' s.clock fails)
    (hun : ∀ k, fails k → s.isJob k unstarted = true) : Changed s .fallout s' := by
  refine .of_sideFailures h fun k job error hk hlookup _ => .fallout error ?_
  obtain ⟨job', hlookup', hun'⟩ := isJob_iff.1 (hun k hk)
  rw [hlookup] at hlookup'
  injection hlookup' with hlookup'
  exact hlookup' ▸ hun'

theorem applyPolicies_fallout (s : TestStorage) (id : JobId) :
    Changed s .fallout (applyPolicies s id) :=
  .fallout (failureTakes_spec s id s.clock) fun _ => unstarted_of_failureTakes

theorem resolveDependents_changed (hk : s.Keyed) (id : JobId) :
    Changed s .resolve (s.resolveDependents id s.clock).1 := by
  have h := (resolveDependents_spec hk id s.clock).1
  refine ⟨fun k => ?_, h.rest, h.index⟩
  by_cases hk : s.ReleasedBy id k
  · obtain ⟨job, hlookup, hlookup'⟩ := h.released k hk
    obtain ⟨job', hlookup'', hheld⟩ := isJob_iff.1 hk.1
    rw [hlookup] at hlookup''
    injection hlookup'' with hlookup''
    exact .inr ⟨job, _, hlookup, hlookup', .resolve (hlookup'' ▸ hheld) hk.2.2⟩
  · exact .inl (h.kept k hk)

/-- A run's end is a chain of writes. -/
theorem finish_writes {cron : CronLibrary} {outcome : JobOutcome} {wall : DateTime}
    {result : Result (Option RecordedOutcome)} (hk : s.Keyed)
    (h : Finish cron s run outcome wall result)
    (hallowed : ∀ w, runIsCurrent s run = true → FinishAllows outcome run.id w → allowed w) :
    Writes allowed s result.2 := by
  have hallow : ∀ {job}, Current s run job → ∀ w, FinishAllows outcome run.id w → allowed w :=
    fun hcur w hw => hallowed w (runIsCurrent_eq_true.2 ⟨_, hcur⟩) hw
  have hrunning : ∀ {job}, Current s run job → ∀ {transition : JobTransition},
      transition ≠ .retryDead → transition.isAllowedFrom job.status = true := by
    intro job hcur transition hne
    rw [hcur.status]
    exact isAllowedFrom_running hne
  cases h with
  | stale => exact .refl s
  | completed hcur _ hr =>
      have hw : Changed s (.complete run.id) _ :=
        .of_rewrite hcur.lookup hr (.complete (hrunning hcur (by decide)))
      rw [← hr.rest.clock]
      exact .trans (.deed (hallow hcur _ (.inl rfl)) hw) (.deed
        (hallow hcur _ (.inr (.inl rfl)))
        (resolveDependents_changed ((Write.deed hw).keyed hk) run.id))
  | rerun hcur _ hr =>
      exact .deed (hallow hcur _ (.inr (.inr (.inr (.inr (.inr (.inr rfl)))))))
        (.of_rewrite hcur.lookup hr (.rerun _ hcur.status))
  | refused => exact .refl s
  | retried hcur hdep hr hr' =>
      refine .trans (.deed (hallow hcur _ (.inr (.inr (.inr (.inr (.inl ⟨rfl, rfl⟩))))))
        (.of_rewrite hcur.lookup hr (.retry _ _ (hrunning hcur (by decide)) hdep))) ?_
      rw [← hr.rest.clock] at hr'
      exact .deed (hallow hcur _ (.inr (.inr (.inr (.inr (.inr (.inl ⟨rfl, rfl⟩)))))))
        (.of_rewrite hr.lookup_self hr' (.runError _ _ rfl))
  | ended hends hcur _ hr =>
      refine .trans (.deed (hallow hcur _ (.inr (.inr (.inl rfl))))
        (.of_rewrite hcur.lookup hr ?_))
        (.deed (hallow hcur _ (.inr (.inr (.inr (.inl rfl))))) (applyPolicies_fallout _ _))
      cases hends with
      | dead => exact .dead _ (hrunning hcur (by decide))
      | timedOut => exact .timedOut _ (hrunning hcur (by decide))
  | endedRerun _ hcur _ hr =>
      exact .deed (hallow hcur _ (.inr (.inr (.inr (.inr (.inr (.inr rfl)))))))
        (.of_rewrite hcur.lookup hr (.rerunEnded _ _ _ hcur.status))

theorem completeJob_writes (hk : s.Keyed) (id : JobId) :
    Writes (Op.Allows env s (.completeJob id)) s (commit s (completeJob s id)).2 := by
  refine commit_writes fun s' a h => ?_
  obtain ⟨⟨s₂, ids⟩, hok, h⟩ := bind_eq_ok.1 h
  obtain rfl : s₂ = s' := (Prod.mk.inj (pure_eq_ok.1 h)).1
  obtain ⟨job, s₁, hlookup, hallowed, hr, hres⟩ := completeAndResolve_ok hok
  have hw : Changed s (.complete id) s₁ := .of_rewrite hlookup hr (.complete hallowed)
  rw [← hr.rest.clock] at hres
  have hres' := resolveDependents_changed ((Write.deed hw).keyed hk) id
  rw [hres] at hres'
  exact .trans (.deed (.inl rfl) hw) (.deed (.inr rfl) hres')

theorem failJob_writes (id : JobId) (error : String) :
    Writes (Op.Allows env s (.failJob id error)) s (commit s (failJob s id error)).2 := by
  refine commit_writes fun s' a h => ?_
  obtain ⟨job, s₁, hlookup, hallowed, hr, rfl⟩ := failJob_ok h
  exact .trans (.deed (.inl rfl) (.of_rewrite hlookup hr (.fail error hallowed)))
    (.deed (.inr rfl) (applyPolicies_fallout s₁ id))

/-- Marking a job dead or timed out. -/
theorem endWithFailure_writes {status : JobStatus} (hst : status = .dead ∨ status = .timedOut)
    {error : String} {applyPolicy : Bool} {ids : List JobId}
    (h : endWithFailure s id status error applyPolicy = .ok (s', ids))
    (hfinish : allowed (.deed (.finish id))) (hfallout : allowed (.deed .fallout)) :
    Writes allowed s s' := by
  obtain ⟨job, s₁, hlookup, hallowed, hr, rfl⟩ := endWithFailure_ok h
  have hw : Changed s (.finish id) s₁ := by
    refine .of_rewrite hlookup hr ?_
    rcases hst with rfl | rfl
    · exact .dead error hallowed
    · exact .timedOut error hallowed
  cases applyPolicy with
  | false => exact .deed hfinish hw
  | true => exact .trans (.deed hfinish hw) (.deed hfallout (applyPolicies_fallout s₁ id))

theorem markJobDead_writes (id : JobId) (error : String) :
    Writes (Op.Allows env s (.markJobDead id error)) s (commit s (markJobDead s id error)).2 := by
  refine commit_writes fun s' a h => ?_
  obtain ⟨⟨s₂, ids⟩, hok, h⟩ := bind_eq_ok.1 h
  obtain rfl : s₂ = s' := (Prod.mk.inj (pure_eq_ok.1 h)).1
  exact endWithFailure_writes (.inl rfl) hok (.inl rfl) (.inr rfl)

theorem markJobTimedOut_writes (id : JobId) (error : String) :
    Writes (Op.Allows env s (.markJobTimedOut id error)) s
      (commit s (markJobTimedOut s id error)).2 := by
  refine commit_writes fun s' a h => ?_
  obtain ⟨⟨s₂, ids⟩, hok, h⟩ := bind_eq_ok.1 h
  obtain rfl : s₂ = s' := (Prod.mk.inj (pure_eq_ok.1 h)).1
  exact endWithFailure_writes (.inr rfl) hok (.inl rfl) (.inr rfl)

-- == put back by hand

theorem retryJob_writes (id : JobId) (retryAt : DateTime) :
    Writes (Op.Allows env s (.retryJob id retryAt)) s (commit s (retryJob s id retryAt)).2 := by
  refine commit_writes fun s' a h => ?_
  obtain ⟨job, dep, hlookup, hallowed, hdep, hr⟩ := retryJob_ok h
  exact .deed rfl (.of_rewrite hlookup hr (.retry retryAt dep hallowed hdep))

theorem retryDeadJob_writes (id : JobId) :
    Writes (Op.Allows env s (.retryDeadJob id)) s (commit s (retryDeadJob s id)).2 := by
  refine commit_writes fun s' a h => ?_
  obtain ⟨job, hlookup, hallowed, hr⟩ := retryDeadJob_ok h
  exact .deed rfl (.of_rewrite hlookup hr (.retryDead hallowed))

theorem rescheduleCronJob_writes (id : JobId) (next : DateTime) :
    Writes (Op.Allows env s (.rescheduleCronJob id next)) s
      (commit s (rescheduleCronJob s id next)).2 := by
  refine commit_writes fun s' a h => ?_
  obtain ⟨job, hlookup, hallowed, -, hr⟩ := rescheduleCronJob_ok h
  exact .deed rfl (.of_rewrite hlookup hr (.reschedule next hallowed))

theorem disableRecurringJob_writes (id : JobId) :
    Writes (Op.Allows env s (.disableRecurringJob id)) s
      (commit s (disableRecurringJob s id)).2 := by
  refine commit_writes fun s' a h => ?_
  obtain ⟨job, hlookup, hr⟩ := disableRecurringJob_ok h
  exact .deed rfl (.of_rewrite hlookup hr .disable)

theorem enableRecurringJob_writes (cron : CronLibrary) (id : JobId) :
    Writes (Op.Allows env s (.enableRecurringJob id)) s
      (commit s (enableRecurringJob cron s id)).2 := by
  refine commit_writes fun s' a h => ?_
  obtain ⟨job, hlookup, ⟨hrun, hr⟩ | ⟨hrun, next, -, hr⟩⟩ := enableRecurringJob_ok h
  · exact .deed rfl (.of_rewrite hlookup hr (.keepRunning hrun))
  · exact .deed rfl (.of_rewrite hlookup hr (.enable next hrun))

theorem restoreArchivedJob_writes (id : JobId) :
    Writes (Op.Allows env s (.restoreArchivedJob id)) s
      (commit s (restoreArchivedJob s id)).2 := by
  refine commit_writes fun s' a h => ?_
  obtain ⟨job, dep, hlookup, hst, hdep, -, hr⟩ := restoreArchivedJob_ok h
  exact .deed rfl (.of_rewrite hlookup hr (.restore dep hst hdep))

-- == stale jobs

/-- Reclaiming one job writes to that job and to jobs that had not
started. -/
theorem reclaim_kept {k : JobId} (h : Writes (ReclaimAllows id) s s') (hne : k ≠ id)
    (hlookup : s.jobs.lookup k = some job) (hrun : job.status = .running) :
    s'.jobs.lookup k = some job := by
  refine h.preserves (P := fun s => s.jobs.lookup k = some job) (fun s w s' hw hwrite hs => ?_)
    hlookup
  have hkept : ∀ {d}, w = .deed d → (∀ job', ¬ Change s d k job job') →
      s'.jobs.lookup k = some job := by
    intro d hd hno
    subst hd
    cases hwrite with
    | deed hchanged =>
        rcases hchanged.jobs k with heq | ⟨job₁, job', hold, -, hchange⟩
        · rw [heq, hs]
        · rw [hs] at hold
          injection hold with hold
          exact absurd (hold ▸ hchange) (hno job')
  rcases hw with rfl | rfl | rfl | rfl | rfl
  · cases hwrite with
    | other hjobs _ _ => rw [hjobs, hs]
  · exact hkept rfl fun job' hc => by cases hc; exact hne rfl
  · exact hkept rfl fun job' hc => by cases hc <;> exact hne rfl
  · exact hkept rfl fun job' hc => by cases hc; exact hne rfl
  · refine hkept rfl fun job' hc => ?_
    cases hc with
    | fallout _ hun =>
        unfold unstarted at hun
        rw [hrun] at hun
        cases hun

theorem removeLease_other (s : TestStorage) (id : JobId) : Write s .other (s.removeLease id) :=
  .of_other rfl rfl rfl

theorem ReclaimAllows.not_starts {k : JobId} {w : WriteKind} (h : ReclaimAllows id w) :
    ¬ w.Starts k := by
  rcases h with rfl | rfl | rfl | rfl | rfl <;> exact fun h => h

/-- Burying one job. -/
theorem buryStale_writes {cron : CronLibrary} (hlookup : s.jobs.lookup id = some job)
    (hrun : job.status = .running) (h : buryStale cron s id s.clock = .ok s') :
    Writes (ReclaimAllows id) s s' ∧ Stopped s' id := by
  obtain ⟨job', hlookup', ⟨-, next, -, hr⟩ | ⟨-, s₁, hr, rfl⟩⟩ := buryStale_ok h
  all_goals
    rw [hlookup] at hlookup'
    injection hlookup' with hlookup'
    subst hlookup'
  · have hchange : Change s (.rerun id) id job _ := .rerunBuried next hrun
    exact ⟨.deed (.inr (.inr (.inl rfl))) (.of_rewrite hlookup hr hchange),
      .of_lookup hr.lookup_self (fun h => by cases h)⟩
  · have hfallout : Writes (ReclaimAllows id) s₁ (applyPolicies s₁ id) :=
      .deed (.inr (.inr (.inr (.inr rfl)))) (applyPolicies_fallout s₁ id)
    have hchange : Change s (.bury id) id job _ := .bury hrun
    refine ⟨.trans (.deed (.inr (.inr (.inr (.inl rfl)))) (.of_rewrite hlookup hr hchange))
      hfallout, hfallout.stopped (fun _ hw => hw.not_starts) ?_⟩
    exact .of_lookup hr.lookup_self (fun h => by cases h)

/-- Putting one job back. -/
theorem requeueStale_writes (hlookup : s.jobs.lookup id = some job)
    (hrun : job.status = .running) (h : requeueStale s id s.clock = .ok s') :
    Writes (ReclaimAllows id) s s' ∧ Stopped s' id := by
  obtain ⟨job', hlookup', hr⟩ := requeueStale_ok h
  rw [hlookup] at hlookup'
  injection hlookup' with hlookup'
  subst hlookup'
  exact ⟨.deed (.inr (.inl rfl)) (.of_rewrite hlookup hr (.requeue hrun)),
    .of_lookup hr.lookup_self (fun h => by cases h)⟩

theorem ReclaimAllows.ne_tick : ¬ ReclaimAllows id .tick := by
  rintro (h | h | h | h | h) <;> cases h

/-- Reclaiming a list of jobs: the writes made, and that the jobs
reported as reclaimed have stopped. -/
theorem reclaimEach_writes (cron : CronLibrary) (stale : List (JobId × Bool)) :
    ∀ (s : TestStorage) (recovery : StaleJobRecovery), (stale.map (·.1)).Nodup →
      (∀ e ∈ stale, ∃ job, s.jobs.lookup e.1 = some job ∧ job.status = .running) →
      Writes (fun w => ∃ e ∈ stale, ReclaimAllows e.1 w) s
        (reclaimEach cron s.clock stale s recovery).2 ∧
      ∀ recovered, (reclaimEach cron s.clock stale s recovery).1 = .ok recovered →
        ∀ k, k ∈ recovered.requeued ++ recovered.dead → k ∈ recovery.requeued ++ recovery.dead ∨
          Stopped (reclaimEach cron s.clock stale s recovery).2 k := by
  induction stale with
  | nil =>
      refine fun s recovery _ _ => ⟨.refl s, fun recovered h k hk => .inl ?_⟩
      injection h with h
      exact h ▸ hk
  | cons e stale ih =>
      intro s recovery hnd hstale
      obtain ⟨id, exhausted⟩ := e
      rw [List.map_cons, List.nodup_cons] at hnd
      obtain ⟨job, hlookup, hrun⟩ := hstale _ (List.mem_cons_self ..)
      have hother : Writes (ReclaimAllows id) s (s.removeLease id) :=
        .one (.inl rfl) (removeLease_other s id)
      have hone : ∀ w, ReclaimAllows id w →
          ∃ e ∈ (id, exhausted) :: stale, ReclaimAllows e.1 w :=
        fun w hw => ⟨_, List.mem_cons_self .., hw⟩
      have hfailed : ∀ e : HammerworkError, Writes (fun w => ∃ e ∈ (id, exhausted) :: stale,
          ReclaimAllows e.1 w) s (s.removeLease id) ∧ ∀ recovered,
          (Except.error e : Except HammerworkError StaleJobRecovery) = .ok recovered →
            ∀ k, k ∈ recovered.requeued ++ recovered.dead →
              k ∈ recovery.requeued ++ recovery.dead ∨ Stopped (s.removeLease id) k :=
        fun e => ⟨hother.mono hone, fun _ h => by cases h⟩
      -- the rest of the list, after this job was reclaimed
      have hrest : ∀ s₁ recovery₁, Writes (ReclaimAllows id) s s₁ → Stopped s₁ id →
          (∀ k, k ∈ recovery₁.requeued ++ recovery₁.dead →
            k ∈ recovery.requeued ++ recovery.dead ∨ k = id) →
          Writes (fun w => ∃ e ∈ (id, exhausted) :: stale, ReclaimAllows e.1 w) s
              (reclaimEach cron s.clock stale s₁ recovery₁).2 ∧
            ∀ recovered, (reclaimEach cron s.clock stale s₁ recovery₁).1 = .ok recovered →
              ∀ k, k ∈ recovered.requeued ++ recovered.dead →
                k ∈ recovery.requeued ++ recovery.dead ∨
                  Stopped (reclaimEach cron s.clock stale s₁ recovery₁).2 k := by
        intro s₁ recovery₁ h hstopped hnew
        obtain ⟨htail, hreported⟩ := ih s₁ recovery₁ hnd.2 fun e he => by
          obtain ⟨job', hlookup', hrun'⟩ := hstale e (List.mem_cons_of_mem _ he)
          refine ⟨job', reclaim_kept h (fun heq => hnd.1 ?_) hlookup' hrun', hrun'⟩
          exact List.mem_map.2 ⟨e, he, heq⟩
        rw [h.clock ReclaimAllows.ne_tick] at htail hreported
        refine ⟨(h.mono hone).trans (htail.mono fun w ⟨e, he, hw⟩ =>
          ⟨e, List.mem_cons_of_mem _ he, hw⟩), fun recovered hok k hk => ?_⟩
        rcases hreported recovered hok k hk with hold | hstop
        · rcases hnew k hold with hold | rfl
          · exact .inl hold
          · exact .inr (htail.stopped (fun w ⟨_, _, hw⟩ => hw.not_starts) hstopped)
        · exact .inr hstop
      rw [reclaimEach]
      split
      · cases hbury : buryStale cron (s.removeLease id) id s.clock with
        | error e => exact hfailed e
        | ok s₁ =>
            obtain ⟨hwrites, hstopped⟩ := buryStale_writes (s := s.removeLease id) hlookup hrun
              hbury
            refine hrest s₁ _ (hother.trans hwrites) hstopped fun k hk => ?_
            simp only [List.mem_append, List.mem_singleton] at hk ⊢
            tauto
      · cases hrequeue : requeueStale (s.removeLease id) id s.clock with
        | error e => exact hfailed e
        | ok s₁ =>
            obtain ⟨hwrites, hstopped⟩ := requeueStale_writes (s := s.removeLease id) hlookup hrun
              hrequeue
            refine hrest s₁ _ (hother.trans hwrites) hstopped fun k hk => ?_
            simp only [List.mem_append, List.mem_singleton] at hk ⊢
            tauto

/-- The stale jobs, as they are listed. -/
theorem mem_stale (hk : s.Keyed) {queueName : Option String} {e : JobId × Bool}
    (h : e ∈ (s.jobs.values.filter (isStale s queueName)).map
      fun job => (job.id, decide (job.maxAttempts ≤ job.attempts))) :
    ∃ job, s.jobs.lookup e.1 = some job ∧ isStale s queueName job = true := by
  obtain ⟨job, hmem, rfl⟩ := List.mem_map.1 h
  obtain ⟨hmem, hstale⟩ := List.mem_filter.1 hmem
  exact ⟨job, hk.mem_values.1 hmem, hstale⟩

theorem running_of_isStale {queueName : Option String} (h : isStale s queueName job = true) :
    job.status = .running := by
  unfold isStale at h
  simp only [Bool.and_eq_true, decide_eq_true_eq] at h
  exact h.1.1

theorem requeueStaleJobs_writes (hk : s.Keyed) (cron : CronLibrary)
    (queueName : Option String) :
    Writes (Op.Allows env s (.requeueStaleJobs queueName)) s
        (requeueStaleJobs cron s queueName).2 ∧
      ∀ recovered, (requeueStaleJobs cron s queueName).1 = .ok recovered →
        ∀ k, k ∈ recovered.requeued ++ recovered.dead →
          Stopped (requeueStaleJobs cron s queueName).2 k := by
  have h := reclaimEach_writes cron ((s.jobs.values.filter (isStale s queueName)).map
    fun job => (job.id, decide (job.maxAttempts ≤ job.attempts))) s ⟨[], []⟩ ?_ fun e he => ?_
  · refine ⟨h.1.mono fun w ⟨e, he, hw⟩ => ?_, fun recovered hok k hk => ?_⟩
    · obtain ⟨job, hlookup, hstale⟩ := mem_stale hk he
      exact ⟨e.1, job, hlookup, hstale, hw⟩
    · exact (h.2 recovered hok k hk).resolve_left (fun h => by cases h)
  · rw [List.map_map]
    exact hk.nodup_ids.sublist (List.filter_sublist.map _)
  · obtain ⟨job, hlookup, hstale⟩ := mem_stale hk he
    exact ⟨job, hlookup, running_of_isStale hstale⟩

-- == dependencies by hand

theorem resolveJobDependencies_writes (hk : s.Keyed) (id : JobId) :
    Writes (Op.Allows env s (.resolveJobDependencies id)) s
      (commit s (resolveJobDependencies s id)).2 :=
  .deed rfl (resolveDependents_changed hk id)

theorem failJobDependencies_writes (id : JobId) :
    Writes (Op.Allows env s (.failJobDependencies id)) s
      (commit s (failJobDependencies s id)).2 :=
  .deed rfl (.fallout (applyWorkflowFailure_spec s id s.clock)
    fun _ h => unstarted_of_failureTakes (.inl h))

theorem cancelWorkflow_writes (workflowId : WorkflowId) :
    Writes (Op.Allows env s (.cancelWorkflow workflowId)) s
      (commit s (cancelWorkflow s workflowId)).2 := by
  refine commit_writes fun s' a h => ?_
  unfold cancelWorkflow at h
  split at h
  · cases h
  · next workflow _ =>
    have hfail := (failEach_spec (p := fun _ job => unfinished job) (fun _ _ h => h)
      workflowCancelledMessage s.clock (workflowMembers s workflow workflowId) s).1
    injection h with h
    rw [← (Prod.mk.inj h).1]
    refine .trans (.deed (d := .cancel) (.inl rfl)
      (.of_sideFailures hfail fun k job error _ _ hun => .cancel error hun)) ?_
    exact .one (.inr rfl) (.of_other rfl rfl rfl)

-- == archive

/-- Archive one job, record and index. -/
def archiveOne (s : TestStorage) (id : JobId) : TestStorage :=
  reindexArchived (s.modifyJob id fun job => { job with status := .archived }) id

private theorem archiveOne_coherent (hco : s.Coherent) (hlookup : s.jobs.lookup id = some job) :
    (archiveOne s id).Coherent := by
  unfold archiveOne
  have hjobs : ∀ k, (s.modifyJob id fun job =>
      { job with status := .archived }).jobs.lookup k
        = if k = id then some { job with status := .archived } else s.jobs.lookup k := by
    intro k
    rw [modifyJob_lookup, hlookup]
    rfl
  have hre : reindexArchived (s.modifyJob id fun job => { job with status := .archived }) id
      = { s.modifyJob id (fun job => { job with status := .archived }) with
        queues := QueueIndex.push (QueueIndex.dropAll s.queues job.queueName id)
          job.queueName .archived id } := by
    unfold reindexArchived
    rw [hjobs, if_pos rfl]
    rfl
  have hsome : ((QueueIndex.dropAll s.queues job.queueName id).lookup job.queueName).isSome := by
    unfold QueueIndex.dropAll
    rw [Table.lookup_modify, if_pos rfl, Option.isSome_map]
    exact QueueIndex.isSome_of_mem_list ((hco.mem_list hlookup _ _).2 ⟨rfl, rfl⟩)
  have hdropped : ∀ q st k, k ∈ QueueIndex.list
      (QueueIndex.dropAll s.queues job.queueName id) q st ↔
        k ≠ id ∧ k ∈ QueueIndex.list s.queues q st := by
    intro q st k
    rw [QueueIndex.list_dropAll]
    split
    · simp [and_comm]
    · next hq =>
      refine ⟨fun hk => ⟨fun hkid => hq ?_, hk⟩, fun hk => hk.2⟩
      rw [hkid] at hk
      exact ((hco.mem_list hlookup q st).1 hk).1
  have hnew : ∀ q st, id ∉ QueueIndex.list
      (QueueIndex.dropAll s.queues job.queueName id) q st :=
    fun q st hin => ((hdropped q st id).1 hin).1 rfl
  have hnodup : ∀ q st, (QueueIndex.list
      (QueueIndex.dropAll s.queues job.queueName id) q st).Nodup := by
    intro q st
    rw [QueueIndex.list_dropAll]
    split
    · exact (hco.nodup _ _).filter _
    · exact hco.nodup _ _
  rw [hre]
  refine hco.moved hjobs ?_ ?_ ?_
  all_goals
    intro q st
    show _
    rw [QueueIndex.list_push _ _ _ _ _ _ hsome]
  · split
    · next heq => simp [heq]
    · next hne => simp [hnew, hne]
  · intro k hk
    split
    · next heq => rw [heq.1, heq.2, List.mem_append, hdropped]; simp [hk]
    · rw [hdropped]; simp [hk]
  · split
    · exact nodup_append_new (hnodup _ _) (hnew _ _)
    · exact hnodup _ _

/-- The index after a job of queue `name` was reindexed as archived. -/
private def reindexed (queues : QueueIndex) (id : JobId) : Option String → QueueIndex
  | none => queues
  | some name => QueueIndex.push (QueueIndex.dropAll queues name id) name .archived id

private theorem reindexArchived_eq (s : TestStorage) (id : JobId) :
    reindexArchived s id = { s with
      queues := reindexed s.queues id ((s.jobs.lookup id).map (·.queueName)) } := by
  unfold reindexArchived
  cases s.jobs.lookup id <;> rfl

private theorem foldl_reindexArchived (ids : List JobId) : ∀ s : TestStorage,
    ids.foldl reindexArchived s = { s with queues := (ids.foldl reindexArchived s).queues } := by
  induction ids with
  | nil => exact fun s => rfl
  | cons id ids ih =>
      intro s
      rw [List.foldl_cons, reindexArchived_eq]
      exact ih _

private theorem archiveOne_lookup (s : TestStorage) (id k : JobId) :
    (archiveOne s id).jobs.lookup k = if k = id then
      (s.jobs.lookup id).map fun job => { job with status := .archived }
      else s.jobs.lookup k := by
  unfold archiveOne
  rw [reindexArchived_eq]
  exact modifyJob_lookup s id k _

/-- Archiving the records first and then the index comes to the same as
archiving one job after another. -/
private theorem foldl_archive_queues (ids : List JobId) : ∀ s t : TestStorage,
    s.queues = t.queues →
    (∀ k, (s.jobs.lookup k).map (·.queueName) = (t.jobs.lookup k).map (·.queueName)) →
    (ids.foldl reindexArchived s).queues = (ids.foldl archiveOne t).queues := by
  induction ids with
  | nil => exact fun s t h _ => h
  | cons id ids ih =>
      intro s t hq hn
      rw [List.foldl_cons, List.foldl_cons]
      have hname : ∀ k, ((archiveOne t id).jobs.lookup k).map (·.queueName)
          = (t.jobs.lookup k).map (·.queueName) := by
        intro k
        rw [archiveOne_lookup]
        split
        · next hk => rw [hk, Option.map_map]; rfl
        · rfl
      refine ih _ _ ?_ fun k => ?_
      · have hid := hname id
        unfold archiveOne at hid ⊢
        rw [reindexArchived_eq, reindexArchived_eq] at *
        show reindexed s.queues id _ = reindexed t.queues id _
        rw [hq, hn]
        congr 1
        exact hid.symm
      · rw [hname, reindexArchived_eq]
        exact hn k

private theorem foldl_modify_archived (ids : List JobId) : ∀ s : TestStorage,
    (∀ k, (ids.foldl (fun s id => s.modifyJob id fun job =>
        { job with status := JobStatus.archived }) s).jobs.lookup k
      = if k ∈ ids then (s.jobs.lookup k).map fun job => { job with status := .archived }
        else s.jobs.lookup k) ∧
    SameRegisters s (ids.foldl (fun s id => s.modifyJob id fun job =>
        { job with status := JobStatus.archived }) s) ∧
    (ids.foldl (fun s id => s.modifyJob id fun job =>
        { job with status := JobStatus.archived }) s).queues = s.queues := by
  induction ids with
  | nil => exact fun s => ⟨fun k => rfl, .refl s, rfl⟩
  | cons id ids ih =>
      intro s
      rw [List.foldl_cons]
      obtain ⟨hjobs, hreg, hq⟩ := ih (s.modifyJob id fun job => { job with status := .archived })
      have hone : SameRegisters s (s.modifyJob id fun job => { job with status := .archived }) :=
        rfl
      refine ⟨fun k => ?_, hone.trans hreg, hq⟩
      rw [hjobs, modifyJob_lookup]
      by_cases hk : k = id
      · subst hk
        cases s.jobs.lookup k <;> simp
      · simp [hk]

private theorem foldl_archiveOne (ids : List JobId) : ∀ s : TestStorage,
    (∀ id ∈ ids, (s.jobs.lookup id).isSome) →
    (∀ k, (ids.foldl archiveOne s).jobs.lookup k
      = if k ∈ ids then (s.jobs.lookup k).map fun job => { job with status := .archived }
        else s.jobs.lookup k) ∧
    (s.Coherent → (ids.foldl archiveOne s).Coherent) := by
  induction ids with
  | nil => exact fun s _ => ⟨fun k => rfl, fun h => h⟩
  | cons id ids ih =>
      intro s hsome
      rw [List.foldl_cons]
      obtain ⟨hjobs, hco⟩ := ih (archiveOne s id) fun id' hid' => by
        rw [archiveOne_lookup]
        split
        · rw [Option.isSome_map]
          exact hsome id (List.mem_cons_self ..)
        · exact hsome id' (List.mem_cons_of_mem _ hid')
      refine ⟨fun k => ?_, fun h => hco ?_⟩
      · rw [hjobs, archiveOne_lookup]
        by_cases hk : k = id
        · subst hk
          cases s.jobs.lookup k <;> simp
        · simp [hk]
      · obtain ⟨job, hlookup⟩ :=
          Option.isSome_iff_exists.1 (hsome id (List.mem_cons_self ..))
        exact archiveOne_coherent h hlookup

theorem archiveJobs_writes (hk : s.Keyed) (queueName : Option String)
    (policy : ArchivalPolicy) :
    Writes (Op.Allows env s (.archiveJobs queueName policy)) s
      (commit s (archiveJobs s queueName policy)).2 := by
  refine .deed rfl ?_
  show Changed s .archive (List.foldl reindexArchived (List.foldl _ s _) _)
  generalize hids : (((s.jobs.values.filter (archivable s.clock queueName policy)).map
    (·.id)).take policy.batchSize) = ids
  have hmem : ∀ id ∈ ids, ∃ job, s.jobs.lookup id = some job ∧
      (finishedAge s.clock job).isSome = true := by
    intro id hid
    rw [← hids] at hid
    obtain ⟨job, hjob, rfl⟩ := List.mem_map.1 (List.mem_of_mem_take hid)
    obtain ⟨hjob, harch⟩ := List.mem_filter.1 hjob
    refine ⟨job, hk.mem_values.1 hjob, ?_⟩
    unfold archivable at harch
    rw [Bool.and_eq_true] at harch
    cases hage : finishedAge s.clock job with
    | none => rw [hage] at harch; cases harch.2
    | some _ => rfl
  obtain ⟨hjobs, hreg, hq⟩ := foldl_modify_archived ids s
  generalize List.foldl (fun s id => s.modifyJob id fun job =>
    { job with status := JobStatus.archived }) s ids = s₁ at hjobs hreg hq ⊢
  have hre := foldl_reindexArchived ids s₁
  have hqueues := foldl_archive_queues ids s₁ s hq fun k => by
    rw [hjobs]
    split
    · rw [Option.map_map]; rfl
    · rfl
  obtain ⟨hjobs', hco⟩ := foldl_archiveOne ids s fun id hid => by
    obtain ⟨job, hlookup, -⟩ := hmem id hid
    rw [hlookup]
    rfl
  have hlookups : ∀ k, (ids.foldl reindexArchived s₁).jobs.lookup k = s₁.jobs.lookup k := by
    rw [hre]
    exact fun k => rfl
  refine ⟨fun k => ?_, ?_, fun h => ?_⟩
  · rw [hlookups, hjobs]
    by_cases hk : k ∈ ids
    · obtain ⟨job, hlookup, hage⟩ := hmem k hk
      rw [if_pos hk, hlookup]
      exact .inr ⟨job, _, rfl, rfl, .archive hage⟩
    · rw [if_neg hk]
      exact .inl rfl
  · refine hreg.trans ?_
    rw [hre]
    rfl
  · refine (hco h).congr hqueues fun k => ?_
    rw [hlookups, hjobs, hjobs']

-- == deletes

/-- Deleting jobs one after another. -/
private theorem foldl_delete {f : TestStorage → JobId → TestStorage}
    (hdelete : allowed .delete) (ids : List JobId) : ∀ s : TestStorage,
    (∀ s id, id ∈ ids → Write s .delete (f s id)) → Writes allowed s (ids.foldl f s) := by
  induction ids with
  | nil => exact fun s _ => .refl s
  | cons id ids ih =>
      intro s h
      rw [List.foldl_cons]
      exact .trans (.one hdelete (h s id (List.mem_cons_self ..)))
        (ih _ fun s id' hid' => h s id' (List.mem_cons_of_mem _ hid'))

/-- Removing a job from the records and from the list it is in. -/
private theorem Coherent.erased (hco : s.Coherent) (hlookup : s.jobs.lookup id = some job)
    (hjobs : ∀ k, s'.jobs.lookup k = if k = id then none else s.jobs.lookup k)
    (hqueues : s'.queues = QueueIndex.drop s.queues job.queueName job.status id) :
    s'.Coherent where
  mem q st k := by
    rw [hqueues, hjobs, QueueIndex.list_drop]
    by_cases hk : k = id
    · subst hk
      simp only [if_true]
      refine ⟨fun hin => ?_, fun ⟨_, hnone, _⟩ => by cases hnone⟩
      split at hin
      · simp at hin
      · next hne => exact absurd ((hco.mem_list hlookup q st).1 hin) hne
    · rw [if_neg hk]
      split
      · next heq => rw [heq.1, heq.2, List.mem_filter, hco.mem]; simp [hk]
      · exact hco.mem q st k
  nodup q st := by
    rw [hqueues, QueueIndex.list_drop]
    split
    · exact (hco.nodup _ _).filter _
    · exact hco.nodup _ _

theorem deleteJob_write {id : JobId} (h : deleteJob s id = .ok (s', ())) :
    Write s .delete s' := by
  unfold deleteJob at h
  split at h
  · cases h
  · next job hlookup =>
    injection h with h
    rw [← (Prod.mk.inj h).1]
    have hjobs : ∀ k, (s.jobs.erase id).lookup k = if k = id then none else s.jobs.lookup k :=
      fun k => Table.lookup_erase_if s.jobs id k
    refine .delete (fun k => ?_) rfl fun hco => Coherent.erased hco hlookup hjobs rfl
    by_cases hk : k = id
    · exact .inr ((hjobs k).trans (if_pos hk))
    · exact .inl ((hjobs k).trans (if_neg hk))

theorem removeJob_write (s : TestStorage) (id : JobId) : Write s .delete (removeJob s id) := by
  unfold removeJob
  split
  · exact .delete (fun k => .inl rfl) rfl fun h => h
  · next job hlookup =>
    have hjobs : ∀ k, (s.jobs.erase id).lookup k = if k = id then none else s.jobs.lookup k :=
      fun k => Table.lookup_erase_if s.jobs id k
    refine .delete (fun k => ?_) rfl fun hco => Coherent.erased hco hlookup hjobs rfl
    by_cases hk : k = id
    · exact .inr ((hjobs k).trans (if_pos hk))
    · exact .inl ((hjobs k).trans (if_neg hk))

theorem deleteBatch_writes (batchId : BatchId) :
    Writes (Op.Allows env s (.deleteBatch batchId)) s (commit s (deleteBatch s batchId)).2 := by
  show Writes _ s { List.foldl removeJob _ _ with batches := _ }
  have hforget : Write s .other { s with batchJobs := s.batchJobs.erase batchId } :=
    .of_other rfl rfl rfl
  refine .trans (.one (.inr rfl) hforget) ?_
  refine .trans (foldl_delete (.inl rfl) ((s.batchJobs.lookup batchId).getD []) _
    fun s id _ => removeJob_write s id) ?_
  exact .one (.inr rfl) (.of_other rfl rfl rfl)

theorem purgeDeadJobs_writes (olderThan : DateTime) :
    Writes (Op.Allows env s (.purgeDeadJobs olderThan)) s
      (commit s (purgeDeadJobs s olderThan)).2 :=
  foldl_delete (.inl rfl) _ _ fun s id _ => removeJob_write s id

/-- Purging a job of the queues that are purged. -/
private theorem purgeJob_write {queueName : Option String}
    (hq : ∀ job, s.jobs.lookup id = some job → queueName.all (job.queueName = ·) = true) :
    Write s .delete (purgeJob queueName s id) := by
  have hjobs : ∀ k, (purgeJob queueName s id).jobs.lookup k
      = if k = id then none else s.jobs.lookup k :=
    fun k => Table.lookup_erase_if s.jobs id k
  have hlist : ∀ q st, QueueIndex.list (purgeJob queueName s id).queues q st
      = if queueName.all (q = ·) = true then (QueueIndex.list s.queues q st).filter (· ≠ id)
        else QueueIndex.list s.queues q st := by
    intro q st
    unfold QueueIndex.list purgeJob
    dsimp only
    rw [Table.lookup_mapVals]
    cases s.queues.lookup q with
    | none => simp
    | some byStatus =>
        rw [Option.map_some, Option.getD_some, Option.getD_some]
        split
        · rw [Table.lookup_mapVals]
          cases byStatus.lookup st <;> rfl
        · rfl
  refine .delete (fun k => ?_) rfl fun hco => ⟨fun q st k => ?_, fun q st => ?_⟩
  · by_cases hk : k = id
    · exact .inr ((hjobs k).trans (if_pos hk))
    · exact .inl ((hjobs k).trans (if_neg hk))
  · rw [hlist, hjobs]
    by_cases hk : k = id
    · subst hk
      simp only [if_true]
      refine ⟨fun hin => ?_, fun ⟨_, hnone, _⟩ => by cases hnone⟩
      split at hin
      · simp at hin
      · next hne =>
        obtain ⟨job, hlookup, rfl, -⟩ := (hco.mem q st k).1 hin
        exact absurd (hq job hlookup) hne
    · rw [if_neg hk]
      split
      · rw [List.mem_filter, hco.mem]; simp [hk]
      · exact hco.mem q st k
  · rw [hlist]
    split
    · exact (hco.nodup _ _).filter _
    · exact hco.nodup _ _

/-- Purging jobs of the queues that are purged, one after another. -/
private theorem foldl_purgeJob {queueName : Option String} (hdelete : allowed .delete)
    (ids : List JobId) : ∀ s : TestStorage,
    (∀ id ∈ ids, ∀ job, s.jobs.lookup id = some job →
      queueName.all (job.queueName = ·) = true) →
    Writes allowed s (ids.foldl (purgeJob queueName) s) := by
  induction ids with
  | nil => exact fun s _ => .refl s
  | cons id ids ih =>
      intro s h
      rw [List.foldl_cons]
      refine .trans (.one hdelete (purgeJob_write (h id (List.mem_cons_self ..))))
        (ih _ fun id' hid' job hlookup => h id' (List.mem_cons_of_mem _ hid') job ?_)
      have hjobs : (purgeJob queueName s id).jobs.lookup id'
          = if id' = id then none else s.jobs.lookup id' := Table.lookup_erase_if s.jobs id id'
      rw [hjobs] at hlookup
      split at hlookup
      · cases hlookup
      · exact hlookup

theorem purgeArchived_writes (hk : s.Keyed) (hdelete : allowed .delete)
    (queueName : Option String) (olderThan : DateTime) :
    Writes allowed s (commit s (purgeArchived s queueName olderThan)).2 := by
  refine foldl_purgeJob hdelete _ s fun id hid job hlookup => ?_
  obtain ⟨job', hjob', rfl⟩ := List.mem_map.1 hid
  obtain ⟨hmem, hsel⟩ := List.mem_filter.1 hjob'
  rw [hk.mem_values.1 hmem] at hlookup
  injection hlookup with hlookup
  subst hlookup
  simp only [Bool.and_eq_true] at hsel
  exact hsel.1.2

theorem deleteEach_writes (hdelete : allowed .delete) (ids : List (JobId × Bool)) :
    ∀ (s : TestStorage) (purge : EncryptedJobPurge),
      Writes allowed s (deleteEach ids s purge).2 := by
  induction ids with
  | nil => exact fun s _ => .refl s
  | cons e ids ih =>
      intro s purge
      obtain ⟨id, archived⟩ := e
      rw [deleteEach]
      cases hdel : deleteJob s id with
      | error _ => exact .refl s
      | ok out =>
          obtain ⟨s₁, ⟨⟩⟩ := out
          exact .trans (.one hdelete (deleteJob_write hdel)) (ih s₁ _)

-- == children

theorem joinWorkflow_other (s : TestStorage) (workflowId : WorkflowId) (id : JobId) :
    Write s .other (s.joinWorkflow workflowId id) := by
  unfold joinWorkflow
  split <;> exact .of_other rfl rfl rfl

/-- A child just enqueued joins the workflow it names. -/
def joinSpawned (s : TestStorage) (child : Job) (id : JobId) : TestStorage :=
  match child.workflowId with
  | some workflowId => s.joinWorkflow workflowId id
  | none => s

/-- After a child that is accepted, the rest are enqueued. -/
theorem enqueueChildren_joined {child : Job} {children : List Job} {s₁ : TestStorage} {id : JobId}
    (henq : enqueue env s child = .ok (s₁, id)) :
    (enqueueChildren env (child :: children) s).2
      = (enqueueChildren env children (joinSpawned s₁ child id)).2 := by
  rw [enqueueChildren, henq]
  unfold joinSpawned
  cases child.workflowId
  all_goals
    dsimp only
    generalize enqueueChildren env children _ = out
    obtain ⟨result, s₃⟩ := out
    cases result <;> rfl

/-- Enqueueing children inserts them one by one. -/
theorem enqueueChildren_writes (children : List Job) : ∀ s : TestStorage,
    (∀ child ∈ children, allowed (.insert [child])) → allowed .other →
    Writes allowed s (enqueueChildren env children s).2 := by
  induction children with
  | nil => exact fun s _ _ => .refl s
  | cons child children ih =>
      intro s hchild hother
      cases henq : enqueue env s child with
      | error e =>
          rw [enqueueChildren, henq]
          exact .refl s
      | ok out =>
          obtain ⟨s₁, id⟩ := out
          rw [enqueueChildren_joined henq]
          have h₁ : Writes allowed s s₁ := .one (hchild child (List.mem_cons_self ..))
            (.insert (enqueue_enqueued henq).1)
          have hjoined : Writes allowed s (joinSpawned s₁ child id) := by
            unfold joinSpawned
            cases child.workflowId with
            | none => exact h₁
            | some workflowId =>
                exact h₁.trans (.one hother (joinWorkflow_other s₁ workflowId id))
          exact hjoined.trans (ih (joinSpawned s₁ child id)
            (fun c hc => hchild c (List.mem_cons_of_mem _ hc)) hother)

/-- The writes of enqueueing the children of a run. -/
def SpawnAllows (children : List Job) (w : WriteKind) : Prop :=
  (∃ child ∈ children, w = .insert [child]) ∨ w = .other

/-- Completing a run with children first enqueues the children and then,
unless that fails, records the run as completed. -/
theorem completeJobRunWithChildren_then (env : Env) (s : TestStorage) (run : Job)
    (children : List Job) (wall : DateTime) : ∃ u,
      Writes (fun w => runIsCurrent s run = true ∧ SpawnAllows children w) s u ∧
      ((completeJobRunWithChildren env s run children wall).2 = u ∨
        (runIsCurrent s run = true ∧ (completeJobRunWithChildren env s run children wall).2
          = (finishJobRun env.cron u run .completed wall).2)) := by
  unfold completeJobRunWithChildren
  cases validateDependencyLimits children with
  | error e => exact ⟨s, .refl s, .inl rfl⟩
  | ok =>
      dsimp only
      cases hcur : runIsCurrent s run with
      | false => exact ⟨s, .refl s, .inl rfl⟩
      | true =>
          have h₁ : Writes (fun w => true = true ∧ SpawnAllows children w) s
              (enqueueChildren env children s).2 :=
            enqueueChildren_writes children s
              (fun child hc => ⟨rfl, .inl ⟨child, hc, rfl⟩⟩) ⟨rfl, .inr rfl⟩
          refine ⟨_, h₁, ?_⟩
          rw [if_neg (by decide)]
          generalize enqueueChildren env children s = out
          obtain ⟨result, s₁⟩ := out
          cases result with
          | error e => exact .inl rfl
          | ok spawned =>
              refine .inr ⟨rfl, ?_⟩
              dsimp only
              generalize finishJobRun env.cron s₁ run .completed wall = out
              obtain ⟨result, s₂⟩ := out
              cases result <;> rfl

/-- So it is the writes of enqueueing the children, and then those of
recording the run. -/
theorem completeJobRunWithChildren_phases (env : Env) (hk : s.Keyed) (run : Job)
    (children : List Job) (wall : DateTime) : ∃ u,
      Writes (fun w => runIsCurrent s run = true ∧ SpawnAllows children w) s u ∧
      Writes (fun w => runIsCurrent s run = true ∧ FinishAllows .completed run.id w) u
        (completeJobRunWithChildren env s run children wall).2 := by
  obtain ⟨u, h₁, h | ⟨hcur, h⟩⟩ := completeJobRunWithChildren_then env s run children wall
  · refine ⟨u, h₁, ?_⟩
    rw [h]
    exact .refl u
  · refine ⟨u, h₁, ?_⟩
    rw [h]
    exact finish_writes (h₁.keyed hk) (finishJobRun_spec env.cron u run .completed wall)
      fun w _ hw => ⟨hcur, hw⟩

theorem completeJobRunWithChildren_writes (hk : s.Keyed) (run : Job) (children : List Job)
    (wall : DateTime) :
    Writes (Op.Allows env s (.completeJobRunWithChildren run children wall)) s
      (completeJobRunWithChildren env s run children wall).2 := by
  obtain ⟨u, h₁, h₂⟩ := completeJobRunWithChildren_phases env hk run children wall
  refine .trans (h₁.mono fun w hw => ?_) (h₂.mono fun w hw => ⟨hw.1, .inr (.inr hw.2)⟩)
  rcases hw.2 with hchild | hother
  · exact ⟨hw.1, .inl hchild⟩
  · exact ⟨hw.1, .inr (.inl hother)⟩

-- == other records

theorem heartbeatJob_write {lease : Duration} {b : Bool}
    (h : heartbeatJob s run lease = .ok (s', b)) : Write s .other s' := by
  unfold heartbeatJob at h
  split at h
  all_goals
    injection h with h
    rw [← (Prod.mk.inj h).1]
    exact .of_other rfl rfl rfl

theorem storeJobResult_write {data : Json} {expiresAt : Option DateTime}
    (h : storeJobResult s id data expiresAt = .ok (s', ())) : Write s .other s' := by
  unfold storeJobResult at h
  split at h
  · cases h
  · injection h with h
    rw [← (Prod.mk.inj h).1]
    exact .of_other rfl rfl rfl

-- == every call

/-- Every call is a chain of the writes it is allowed. -/
theorem Op.writes (hk : s.Keyed) (op : Op) : Writes (op.Allows env s) s (op.apply env s).2 := by
  have hinsert : ∀ {given : List Job} {s'}, Enqueued s given s' →
      Writes (fun w => w = .insert given) s s' := fun h => .one rfl (.insert h)
  unfold Op.apply
  cases op
  all_goals
    try dsimp only
    try rw [reply_snd]
  case enqueue job => exact commit_writes fun s' a h => hinsert (enqueue_enqueued h).1
  case enqueueBatch batch => exact commit_writes fun s' a h => hinsert (enqueueBatch_enqueued h)
  case enqueueWorkflow workflow =>
    exact commit_writes fun s' a h => hinsert (enqueueWorkflow_enqueued h)
  case enqueueCronJob job =>
    refine commit_writes fun s' a h => ?_
    obtain ⟨job', hsame, henq⟩ := enqueueCronJob_ok h
    exact .one ⟨job', hsame, rfl⟩ (.insert (enqueue_enqueued henq).1)
  case dequeue queueName weights lease maxJobs =>
    exact (dequeue_writes env hk queueName weights lease maxJobs).1
  case startClaimedRun run lease => exact startClaimedRun_writes run lease
  case heartbeatJob run lease =>
    exact commit_writes fun s' a h => .one rfl (heartbeatJob_write h)
  case releaseJobRun run => exact releaseJobRun_writes run
  case finishJobRun run outcome wall =>
    exact finish_writes hk (finishJobRun_spec env.cron s run outcome wall)
      fun w hcur hw => ⟨hcur, hw⟩
  case completeJobRunWithChildren run children wall =>
    exact completeJobRunWithChildren_writes hk run children wall
  case completeJob id => exact completeJob_writes hk id
  case failJob id error => exact failJob_writes id error
  case retryJob id retryAt => exact retryJob_writes id retryAt
  case markJobDead id error => exact markJobDead_writes id error
  case markJobTimedOut id error => exact markJobTimedOut_writes id error
  case retryDeadJob id => exact retryDeadJob_writes id
  case rescheduleCronJob id next => exact rescheduleCronJob_writes id next
  case disableRecurringJob id => exact disableRecurringJob_writes id
  case enableRecurringJob id => exact enableRecurringJob_writes env.cron id
  case requeueStaleJobs queueName => exact (requeueStaleJobs_writes hk env.cron queueName).1
  case resolveJobDependencies id => exact resolveJobDependencies_writes hk id
  case failJobDependencies id => exact failJobDependencies_writes id
  case cancelWorkflow workflowId => exact cancelWorkflow_writes workflowId
  case archiveJobs queueName policy => exact archiveJobs_writes hk queueName policy
  case restoreArchivedJob id => exact restoreArchivedJob_writes id
  case deleteJob id => exact commit_writes fun s' _ h => .one (.inl rfl) (deleteJob_write h)
  case deleteBatch batchId => exact deleteBatch_writes batchId
  case purgeDeadJobs olderThan => exact purgeDeadJobs_writes olderThan
  case purgeArchivedJobs olderThan => exact purgeArchived_writes hk (.inl rfl) none olderThan
  case purgeArchivedJobsInQueue queueName olderThan =>
    exact purgeArchived_writes hk (.inl rfl) (some queueName) olderThan
  case purgeExpiredEncryptedJobs => exact deleteEach_writes (.inl rfl) _ s _
  case storeJobResult id data expiresAt =>
    exact commit_writes fun s' a h => .one rfl (storeJobResult_write h)
  case setTime time => exact .one rfl (.tick (fun _ => rfl) rfl)
  all_goals exact .one rfl (.of_other rfl rfl rfl)

/-- What a call inserts is what was handed in. -/
theorem Op.Allows.insert {op : Op} {given : List Job} (h : op.Allows env s (.insert given)) :
    ∀ job' ∈ given, ∃ job ∈ op.enqueued, job.SameRequest job' := by
  intro job' hjob'
  have hself : ∀ {jobs : List Job}, job' ∈ jobs → ∃ job ∈ jobs, job.SameRequest job' :=
    fun h => ⟨job', h, .refl job'⟩
  unfold Op.Allows at h
  cases op <;> simp only [WriteKind.insert.injEq, FinishAllows, ReclaimAllows, reduceCtorEq,
    or_false, or_self, and_false, exists_false] at h
  case enqueue => exact hself (by rwa [h] at hjob')
  case enqueueBatch => exact hself (by rwa [h] at hjob')
  case enqueueWorkflow => exact hself (by rwa [h] at hjob')
  case enqueueCronJob =>
    obtain ⟨job'', hsame, rfl⟩ := h
    rw [List.mem_singleton.1 hjob']
    exact ⟨_, List.mem_singleton_self _, hsame⟩
  case completeJobRunWithChildren =>
    obtain ⟨-, child, hchild, rfl⟩ := h
    rw [List.mem_singleton.1 hjob']
    exact ⟨child, hchild, .refl child⟩

/-- The writes a step may make. -/
def Event.Allows (env : Env) (s : TestStorage) : Event → WriteKind → Prop
  | call op, w => op.Allows env s w
  | rehash, w => w = .other

/-- Every step is a chain of the writes it is allowed. -/
theorem Step.writes {e : Event} (hk : s.Keyed) (h : Step env s e s') :
    Writes (e.Allows env s) s s' := by
  cases h with
  | call op => exact Op.writes hk op
  | rehash h =>
      refine .one rfl (.other (fun k => (h.jobs.lookup_congr k).symm) ?_ ?_)
      · rw [h.rest]
      · rw [h.rest]

theorem Step.keyed {e : Event} (h : Step env s e s') (hk : s.Keyed) : s'.Keyed :=
  (h.writes hk).keyed hk

theorem keyed_new (clock : DateTime) : (TestStorage.new clock).Keyed := by
  intro k job h
  cases h

/-- In every run from the empty queue, jobs are stored under their
ids. -/
theorem run_keyed {n : Nat} (r : Run (Step env) n) {clock : DateTime}
    (h0 : r.state 0 = TestStorage.new clock) : ∀ i ≤ n, (r.state i).Keyed :=
  r.invariant (h0 ▸ keyed_new clock) fun _ _ _ h hk => h.keyed hk

theorem Reachable.keyed (h : Reachable env s) : s.Keyed := by
  obtain ⟨n, r, clock, h0, rfl⟩ := h
  exact run_keyed r h0 n (le_refl n)

end Hammerwork
