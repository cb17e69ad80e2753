/-
Whether a job is enqueued before or after another one ends.

A job that depends on others is settled twice by different code: the
jobs already stored are told when a job ends (`resolveDependents`,
`applyPolicies`), and a job that arrives later looks at what its own
dependencies have become (`settleNewDependents`). Both orders should
leave it in the same state.

# Where they differ

Completions agree. A failure reaches a stored job along the chains of
dependents that start at the failed one; a job that arrives later sees
every failed dependency outside a workflow of the `Manual` policy,
however it failed. So the orders differ when the only failed
dependencies the late job sees are siblings or batch mates that a
fail-fast policy failed (`Spares`), and when the chain to the early job
runs through dependencies of `Manual` workflows only, which the late job
goes on waiting for (`Leaves`).
-/
import Hammerwork.Proofs.Fresh
import Hammerwork.Proofs.Blame

namespace Hammerwork

open TestStorage TestQueue

variable {s s' t : TestStorage} {env : Env} {id k d root : JobId} {job : Job} {op : Op}

-- == statement

/-- A new job with dependencies, as its builder leaves it. -/
structure Job.NewDependent (job : Job) : Prop where
  status : job.status = .pending
  waiting : job.dependencyStatus = .waiting
  dependsOn : job.dependsOn ≠ []

namespace TestStorage

/-- No record of the queue names the job. -/
structure Unknown (s : TestStorage) (id : JobId) : Prop where
  jobs : s.jobs.lookup id = none
  workflows : ∀ workflow ∈ s.workflows.values, id ∉ workflow.jobs.map (·.id)
  batches : ∀ batchId, id ∉ (s.batchJobs.lookup batchId).getD []
  dependencies : (s.dependencies.lookup id).getD [] = []
  dependents : ∀ d, id ∉ (s.dependents.lookup d).getD []

/-- The status and the dependency status of a stored job. -/
def standing (s : TestStorage) (id : JobId) : Option (JobStatus × DependencyStatus) :=
  (s.jobs.lookup id).map fun job => (job.status, job.dependencyStatus)

end TestStorage

/-- What a transition of a job does. -/
inductive Verdict where
  | refused
  | completes
  | fails
  deriving DecidableEq

/-- What the call does to the job it is about, stored as `job`. -/
def Op.verdict (job : Option Job) : Op → Verdict
  | completeJob _ =>
      if job.any (JobTransition.complete.isAllowedFrom ·.status) then .completes else .refused
  | failJob .. =>
      if job.any (JobTransition.fail.isAllowedFrom ·.status) then .fails else .refused
  | markJobDead .. =>
      if job.any (JobTransition.markDead.isAllowedFrom ·.status) then .fails else .refused
  | markJobTimedOut .. =>
      if job.any (JobTransition.markTimedOut.isAllowedFrom ·.status) then .fails else .refused
  | finishJobRun run outcome _ =>
      if job.any (Guard.run run).admits then
        match outcome with
        | .completed => .completes
        | _ => .fails
      else .refused
  | _ => .refused

/-- The call is a terminal transition of the job `id`, which does not
recur if the call reports how a run of it ended. -/
inductive Op.Terminal (s : TestStorage) : Op → JobId → Prop
  | completeJob (id : JobId) : Terminal s (.completeJob id) id
  | failJob (id : JobId) (error : String) : Terminal s (.failJob id error) id
  | markJobDead (id : JobId) (error : String) : Terminal s (.markJobDead id error) id
  | markJobTimedOut (id : JobId) (error : String) : Terminal s (.markJobTimedOut id error) id
  | finishJobRun (run : Job) (outcome : JobOutcome) (wall : DateTime) :
      outcome.terminalStatus.isSome = true → s.isJob run.id (·.recurring) = false →
      Terminal s (.finishJobRun run outcome wall) run.id

-- == condition

namespace TestStorage

/-- The failure of `root` takes `job`, if it is stored: the job depends
on `root` or on a job that fails as a dependent of it. -/
def Reaches (s : TestStorage) (root : JobId) (job : Job) : Prop :=
  ¬ InManual s root ∧ ∃ d ∈ job.dependsOn, d = root ∨ DependentFails s root d

/-- The failure of `root` passes a stored `job` by, though it fails a
dependency of it as a sibling or a batch mate. -/
def Spares (s : TestStorage) (root : JobId) (job : Job) : Prop :=
  ¬ s.Reaches root job ∧
    ∃ d ∈ job.dependsOn, (SiblingFails s root d ∨ BatchFails s root d) ∧ ¬ InManual s d

/-- The failure of `root` would take `job`, but every dependency of it
that fails is left to an operator, who may retry it. -/
def Leaves (s : TestStorage) (root : JobId) (job : Job) : Prop :=
  s.Reaches root job ∧
    ∀ d ∈ job.dependsOn, d = root ∨ FailureTakes s root d → InManual s d

/-- The order in which `job` is enqueued and `op` ends `root` matters. -/
def OrderMatters (env : Env) (s : TestStorage) (job : Job) (op : Op) (root : JobId) : Prop :=
  job.validateDependencies = .ok () ∧ (env.encryption.sealJobs [job]).isOk = true ∧
    op.verdict (s.jobs.lookup root) = .fails ∧
    (∀ d ∈ job.dependsOn, (s.jobs.lookup d).map (s.parentState d) ≠ some .failed) ∧
    (s.Spares root job ∨ s.Leaves root job)

end TestStorage

-- == terminal transitions

/-- What a terminal transition of `id` makes of the storage. -/
inductive Does (s : TestStorage) (id : JobId) : Verdict → TestStorage → Prop
  | refused : Does s id .refused s
  | completes {job : Job} {s₁ : TestStorage} : s.jobs.lookup id = some job →
      JobTransition.complete.isAllowedFrom job.status = true →
      Rewrite s id (job.completedAtTime s.clock) s₁ →
      Does s id .completes (s₁.resolveDependents id s.clock).1
  | fails {job job' : Job} {s₁ : TestStorage} : s.jobs.lookup id = some job →
      JobTransition.markDead.isAllowedFrom job.status = true →
      Rewrite s id job' s₁ → place job' = place job → job'.status.EndedInFailure →
      Does s id .fails (applyPolicies s₁ id)

/-- A transition of one section: refused with an error, or done. -/
theorem Does.of_commit {α : Type} {r : Except HammerworkError (TestStorage × α)}
    {allowed : Job → Bool} {verdict : Verdict}
    (hok : ∀ job, s.jobs.lookup id = some job → allowed job = true → ∃ out, r = .ok out)
    (hdoes : ∀ out, r = .ok out →
      ∃ job, s.jobs.lookup id = some job ∧ allowed job = true ∧ Does s id verdict out.1) :
    Does s id (if (s.jobs.lookup id).any allowed then verdict else .refused) (commit s r).2 := by
  cases hr : r with
  | error e =>
      split
      case isTrue hany =>
        obtain ⟨job, hlookup, hallowed⟩ := isJob_iff.1 hany
        obtain ⟨out, hout⟩ := hok job hlookup hallowed
        rw [hr] at hout
        cases hout
      case isFalse => exact .refused
  | ok out =>
      obtain ⟨job, hlookup, hallowed, hout⟩ := hdoes out hr
      have hany : (s.jobs.lookup id).any allowed = true :=
        isJob_iff.2 ⟨job, hlookup, hallowed⟩
      rw [if_pos hany]
      exact hout

/-- What starts a terminal transition could be marked dead. -/
theorem allowedFrom_markDead {transition : JobTransition} {status : JobStatus}
    (h : transition = .fail ∨ transition = .markTimedOut ∨ transition = .markDead)
    (hallowed : transition.isAllowedFrom status = true) :
    JobTransition.markDead.isAllowedFrom status = true := by
  rcases h with rfl | rfl | rfl <;> revert hallowed <;> cases status <;> decide

theorem failJob_isOk (hlookup : s.jobs.lookup id = some job)
    (hallowed : JobTransition.fail.isAllowedFrom job.status = true) (error : String) :
    ∃ out, failJob s id error = .ok out := by
  unfold failJob
  rw [checkTransition_of hlookup hallowed, updateJobStatus_eq hlookup]
  exact ⟨_, rfl⟩

theorem endedInFailure_ended {status : JobStatus} (h : status = .dead ∨ status = .timedOut)
    (job : Job) (error : String) (now : DateTime) :
    (job.ended status error now).status.EndedInFailure := by
  rcases h with rfl | rfl
  · exact .inr (.inl rfl)
  · exact .inr (.inr rfl)

/-- A job marked dead or timed out by hand. -/
theorem Does.endWithFailure {status : JobStatus} (error : String)
    (h : status = .dead ∨ status = .timedOut) {transition : JobTransition}
    (htransition : (if status = .timedOut then JobTransition.markTimedOut else .markDead)
      = transition) :
    Does s id (if (s.jobs.lookup id).any (transition.isAllowedFrom ·.status) then .fails
        else .refused)
      (commit s (do
        let (s, _) ← TestQueue.endWithFailure s id status error true
        return (s, ()))).2 := by
  refine .of_commit (fun job hlookup hallowed => ?_) fun out hout => ?_
  · obtain ⟨out, hout⟩ := endWithFailure_isOk hlookup (htransition ▸ hallowed) error true
    rw [hout]
    exact ⟨_, rfl⟩
  · obtain ⟨⟨s₂, ids⟩, hended, hret⟩ := bind_eq_ok.1 hout
    obtain rfl := pure_eq_ok.1 hret
    obtain ⟨job, s₁, hlookup, hallowed, hr, rfl⟩ := endWithFailure_ok hended
    rw [htransition] at hallowed
    refine ⟨job, hlookup, hallowed, .fails hlookup (allowedFrom_markDead ?_ hallowed) hr rfl
      (endedInFailure_ended h job error s.clock)⟩
    rcases h with rfl | rfl
    · exact .inr (.inr htransition.symm)
    · exact .inr (.inl htransition.symm)

/-- Every terminal transition is refused, completes its job or fails
it. -/
theorem Op.does (h : op.Terminal s id) :
    Does s id (op.verdict (s.jobs.lookup id)) (op.apply env s).2 := by
  cases h with
  | completeJob =>
      unfold Op.verdict Op.apply
      rw [reply_snd]
      refine .of_commit (fun job hlookup hallowed => ?_) fun out hout => ?_
      · obtain ⟨out, hout⟩ := completeAndResolve_isOk hlookup hallowed
        unfold TestQueue.completeJob
        rw [hout]
        exact ⟨_, rfl⟩
      · obtain ⟨⟨s₂, ids⟩, hended, hret⟩ := bind_eq_ok.1 hout
        obtain rfl := pure_eq_ok.1 hret
        obtain ⟨job, s₁, hlookup, hallowed, hr, hres⟩ := completeAndResolve_ok hended
        have hdoes := Does.completes hlookup hallowed hr
        rw [hres] at hdoes
        exact ⟨job, hlookup, hallowed, hdoes⟩
  | failJob _ error =>
      unfold Op.verdict Op.apply
      rw [reply_snd]
      refine .of_commit (fun job hlookup hallowed => failJob_isOk hlookup hallowed error)
        fun out hout => ?_
      obtain ⟨s₂, ⟨⟩⟩ := out
      obtain ⟨job, s₁, hlookup, hallowed, hr, rfl⟩ := failJob_ok hout
      exact ⟨job, hlookup, hallowed,
        .fails hlookup (allowedFrom_markDead (.inl rfl) hallowed) hr rfl (.inl rfl)⟩
  | markJobDead _ error =>
      unfold Op.verdict Op.apply
      rw [reply_snd]
      exact .endWithFailure error (.inl rfl) rfl
  | markJobTimedOut _ error =>
      unfold Op.verdict Op.apply
      rw [reply_snd]
      exact .endWithFailure error (.inr rfl) rfl
  | finishJobRun run outcome wall hterminal hrecurring =>
      simp only [Op.verdict]
      unfold Op.apply
      rw [reply_snd]
      have hnever : ∀ job, Current s run job → job.recurring = false := by
        intro job hcur
        unfold isJob at hrecurring
        rw [hcur.lookup] at hrecurring
        exact hrecurring
      have hany : ∀ job, Current s run job →
          (s.jobs.lookup run.id).any (Guard.run run).admits = true := by
        intro job hcur
        refine isJob_iff.2 ⟨job, hcur.lookup, ?_⟩
        simp [Guard.admits, hcur.status, hcur.same]
      have hspec := finishJobRun_spec env.cron s run outcome wall
      generalize TestQueue.finishJobRun env.cron s run outcome wall = r at hspec ⊢
      cases hspec with
      | stale hstale =>
          have hnone : (s.jobs.lookup run.id).any (Guard.run run).admits = false := hstale
          rw [hnone]
          exact .refused
      | completed hcur _ hr =>
          rw [if_pos (hany _ hcur)]
          exact .completes hcur.lookup (by rw [hcur.status]; rfl) hr
      | rerun hcur hnext _ =>
          unfold rerunAt at hnext
          rw [hnever _ hcur] at hnext
          simp at hnext
      | refused | retried => cases hterminal
      | ended hends hcur _ hr =>
          rw [if_pos (hany _ hcur)]
          have hallowed : JobTransition.markDead.isAllowedFrom _ = true :=
            (congrArg JobTransition.markDead.isAllowedFrom hcur.status).trans rfl
          cases hends with
          | dead error => exact .fails hcur.lookup hallowed hr rfl (.inr (.inl rfl))
          | timedOut error => exact .fails hcur.lookup hallowed hr rfl (.inr (.inr rfl))
      | endedRerun _ hcur hnext _ =>
          unfold rerunAt at hnext
          rw [hnever _ hcur] at hnext
          simp at hnext

-- == the new job

namespace TestStorage

/-- How a new dependent is settled when it arrives. -/
def settledAs (s : TestStorage) (job : Job) : JobStatus × DependencyStatus :=
  if ∃ d ∈ job.dependsOn, s.arrivalState [] d = .failed then (.failed, .failed)
  else if ∀ d ∈ job.dependsOn, s.arrivalState [] d = .completed then (.pending, .satisfied)
  else (.pending, .waiting)

theorem arrivalState_nil (d : JobId) :
    s.arrivalState [] d = ((s.jobs.lookup d).map (s.parentState d)).getD .unfinished := rfl

/-- A job alone is doomed by a stored parent. -/
theorem failed_of_doomed {parents : JobId → Option ParentState} (hnew : job.status = .pending)
    (h : Doomed [job] parents k) : ∃ d ∈ job.dependsOn, parents d = some .failed := by
  induction h with
  | given hmem hfailed =>
      rw [List.mem_singleton.1 hmem, hnew] at hfailed
      cases hfailed
  | parent hmem _ hd _ hfailed =>
      exact ⟨_, List.mem_singleton.1 hmem ▸ hd, hfailed⟩
  | sibling _ _ _ _ ih => exact ih

/-- `s'` is `s` with `job` stored as `stored`. -/
structure Added (s : TestStorage) (job stored : Job) (s' : TestStorage) : Prop where
  new : s'.jobs.lookup job.id = some stored
  old : ∀ k, k ≠ job.id → s'.jobs.lookup k = s.jobs.lookup k
  rest : SameRegisters s s'
  keeps : job.Keeps stored

/-- Enqueueing a new dependent stores it, settled, and nothing else. -/
theorem enqueue_settles (h : enqueue env s job = .ok (s', id)) (hnew : job.NewDependent)
    (hunknown : s.jobs.lookup job.id = none) :
    ∃ stored, s.Added job stored s' ∧
      (stored.status, stored.dependencyStatus) = s.settledAs job := by
  obtain ⟨⟨stored, harrival, hin⟩, hrest⟩ := enqueue_enqueued h
  obtain ⟨x, rfl⟩ : ∃ x, stored = [x] := by
    have heach := harrival.each
    cases heach with
    | cons _ hnil =>
        cases hnil
        exact ⟨_, rfl⟩
  have harrives : Arrives s [job] [x] job x := by
    have heach := harrival.each
    cases heach with
    | cons harrives _ => exact harrives
  have hid : x.id = job.id := harrives.keeps.id
  have hlookup : s'.jobs.lookup job.id = some x :=
    hid ▸ hin.lookup_new (by simp) (List.mem_singleton_self x)
  refine ⟨x, ⟨hlookup, fun k hk => hin.lookup_old (by simpa [hid] using hk), hrest,
    harrives.keeps⟩, ?_⟩
  -- among jobs alone, a job that is still pending counts as unfinished
  have hstate : ∀ (y : Job) d, y.id = job.id → y.status = .pending →
      s.arrivalState [y] d = s.arrivalState [] d := by
    intro y d hy hpending
    by_cases hd : y.id = d
    · have hnone : s.jobs.lookup d = none := by rw [← hd, hy, hunknown]
      simp [arrivalState, hd, hnone, hpending, stateOfStatus]
    · simp [arrivalState, hd]
  unfold settledAs
  cases harrives.settled with
  | unchanged hstatus hdep =>
      rw [hnew.status] at hstatus
      rw [hnew.waiting] at hdep
      obtain ⟨hnofail, d, hd, hnot⟩ := harrival.waits x (List.mem_singleton_self x) hdep
        (harrives.keeps.dependsOn ▸ hnew.dependsOn)
      rw [harrives.keeps.dependsOn] at hnofail hd
      have hfailed : ¬ ∃ d ∈ job.dependsOn, s.arrivalState [] d = .failed := by
        intro hsome
        obtain ⟨d, hd, hfailed⟩ := hsome
        exact hnofail d hd ((hstate x d hid hstatus).trans hfailed)
      have hall : ¬ ∀ d ∈ job.dependsOn, s.arrivalState [] d = .completed := by
        intro hall
        exact hnot ((hstate x d hid hstatus).trans (hall d hd))
      rw [if_neg hfailed, if_neg hall, hstatus, hdep]
  | satisfied _ _ hall hstatus hdep =>
      have hcompleted : ∀ d ∈ job.dependsOn, s.arrivalState [] d = .completed :=
        fun d hd => (hstate job d rfl hnew.status).symm.trans (hall d hd)
      have hfailed : ¬ ∃ d ∈ job.dependsOn, s.arrivalState [] d = .failed := by
        intro hsome
        obtain ⟨d, hd, hfailed⟩ := hsome
        rw [hcompleted d hd] at hfailed
        cases hfailed
      rw [if_neg hfailed, if_pos hcompleted, hstatus, hdep, hnew.status]
  | failed _ _ _ _ hstatus hdep =>
      have hdoomed := harrival.fails x (List.mem_singleton_self x) (by rw [hstatus]; rfl)
      obtain ⟨d, hd, hfailed⟩ := failed_of_doomed hnew.status hdoomed
      have hsome : ∃ d ∈ job.dependsOn, s.arrivalState [] d = .failed :=
        ⟨d, hd, by rw [arrivalState_nil, hfailed]; rfl⟩
      rw [if_pos hsome, hstatus, hdep]

-- == parents' states

theorem arrivalState_completed :
    s.arrivalState [] d = .completed ↔ s.dependencyCompleted d = true := by
  rw [arrivalState_nil]
  unfold dependencyCompleted isJob completedJob parentState
  cases s.jobs.lookup d with
  | none => simp
  | some job =>
      cases hstatus : job.status with
      | failed | dead | timedOut =>
          simp only [hstatus, Option.map_some, Option.getD_some, Option.any_some]
          split <;> simp
      | archived =>
          simp only [hstatus, Option.map_some, Option.getD_some, Option.any_some]
          cases job.completedAt.isSome with
          | true => simp
          | false =>
              simp only [Bool.false_eq_true, if_false, iff_false]
              split <;> simp
      | pending | running | retrying | completed => simp [hstatus]

/-- A pending, running or retrying parent is unfinished. -/
theorem arrivalState_unfinished (hlookup : s.jobs.lookup d = some job)
    (hstatus : unfinished job = true) : s.arrivalState [] d = .unfinished := by
  rw [arrivalState_nil, hlookup]
  unfold unfinished at hstatus
  simp at hstatus
  rcases hstatus with (hstatus | hstatus) | hstatus <;> simp [parentState, hstatus]

/-- A parent that ended in failure has failed, unless an operator may
retry it. -/
theorem arrivalState_ended (hlookup : s.jobs.lookup d = some job)
    (hended : job.status.EndedInFailure) :
    (InManual s d → s.arrivalState [] d = .unfinished) ∧
      (¬ InManual s d → s.arrivalState [] d = .failed) := by
  have hmanual : InManual s d ↔ (s.workflowOf d).any (·.failurePolicy = .manual) = true := by
    unfold InManual
    rw [Option.any_eq_true]
    simp
  rw [hmanual, arrivalState_nil, hlookup]
  rcases hended with hended | hended | hended <;> simp [parentState, hended]

/-- What a parent's state is read from. -/
theorem arrivalState_congr_of (hof : s'.workflowOf d = s.workflowOf d)
    (hlookup : s'.jobs.lookup d = s.jobs.lookup d) :
    s'.arrivalState [] d = s.arrivalState [] d := by
  rw [arrivalState_nil, arrivalState_nil, hlookup]
  unfold parentState
  rw [hof]

-- == completions

/-- Completing `id` makes a completed parent of it, and of nobody
else. -/
theorem arrivalState_completes {s₁ : TestStorage} (hk : s.Keyed)
    (hlookup : s.jobs.lookup id = some job) (hr : Rewrite s id (job.completedAtTime s.clock) s₁)
    (d : JobId) :
    (s₁.resolveDependents id s.clock).1.arrivalState [] d
      = if d = id then .completed else s.arrivalState [] d := by
  have hsame : SamePlaces s s₁ := hr.samePlaces hlookup rfl
  obtain ⟨hreleases, -⟩ := resolveDependents_spec (hsame.keyed hk) id s.clock
  have hcompleted : ∀ k, (s₁.resolveDependents id s.clock).1.arrivalState [] k
      = s₁.arrivalState [] k := by
    intro k
    have hof : (s₁.resolveDependents id s.clock).1.workflowOf k = s₁.workflowOf k := by
      refine workflowOf_congr hreleases.rest.workflows ?_
      rcases hreleases.lookup k with heq | heq
      · rw [heq]
      · rw [heq]
        cases s₁.jobs.lookup k <;> rfl
    rw [arrivalState_nil, arrivalState_nil]
    have hstate : (s₁.resolveDependents id s.clock).1.parentState k = s₁.parentState k := by
      funext job
      unfold parentState
      rw [hof]
    rw [hstate, hreleases.map_lookup (f := s₁.parentState k) fun _ => rfl]
  rw [hcompleted]
  split
  case isTrue heq =>
    rw [heq, arrivalState_nil, hr.lookup_self]
    rfl
  case isFalse hne => exact arrivalState_congr_of (hsame.workflowOf d) (hr.lookup_ne hne)

variable {stored : Job}

/-- Whether a parent completed does not depend on the new job. -/
theorem Added.completed (h : s.Added job stored s') (hunknown : s.jobs.lookup job.id = none)
    (hstored : completedJob stored = false) (d : JobId) :
    s'.dependencyCompleted d = s.dependencyCompleted d := by
  unfold dependencyCompleted isJob
  by_cases hd : d = job.id
  · rw [hd, h.new, hunknown]
    exact hstored
  · rw [h.old d hd]

theorem Added.keyed (h : s.Added job stored s') (hk : s.Keyed) : s'.Keyed := by
  intro k found hfound
  by_cases heq : k = job.id
  · rw [heq, h.new] at hfound
    obtain rfl := Option.some.inj hfound
    rw [heq, h.keeps.id]
  · exact hk k found (h.old k heq ▸ hfound)

/-- The cases of settling. -/
theorem settledAs_cases (s : TestStorage) (job : Job) :
    (s.settledAs job = (.failed, .failed) ∧ ∃ d ∈ job.dependsOn, s.arrivalState [] d = .failed) ∨
      (s.settledAs job = (.pending, .satisfied) ∧
        ∀ d ∈ job.dependsOn, s.arrivalState [] d = .completed) ∨
      (s.settledAs job = (.pending, .waiting) ∧
        (∀ d ∈ job.dependsOn, s.arrivalState [] d ≠ .failed) ∧
        ∃ d ∈ job.dependsOn, s.arrivalState [] d ≠ .completed) := by
  unfold settledAs
  by_cases hfailed : ∃ d ∈ job.dependsOn, s.arrivalState [] d = .failed
  · rw [if_pos hfailed]
    exact .inl ⟨rfl, hfailed⟩
  · rw [if_neg hfailed]
    by_cases hall : ∀ d ∈ job.dependsOn, s.arrivalState [] d = .completed
    · rw [if_pos hall]
      exact .inr (.inl ⟨rfl, hall⟩)
    · rw [if_neg hall]
      push Not at hfailed hall
      exact .inr (.inr ⟨rfl, hfailed, hall⟩)

theorem settledAs_failed (h : ∃ d ∈ job.dependsOn, s.arrivalState [] d = .failed) :
    s.settledAs job = (.failed, .failed) := if_pos h

theorem settledAs_satisfied (h : ∀ d ∈ job.dependsOn, s.arrivalState [] d = .completed) :
    s.settledAs job = (.pending, .satisfied) := by
  rcases s.settledAs_cases job with ⟨-, d, hd, hfailed⟩ | ⟨heq, -⟩ | ⟨-, -, d, hd, hnot⟩
  · rw [h d hd] at hfailed
    cases hfailed
  · exact heq
  · exact absurd (h d hd) hnot

theorem settledAs_waiting (hfailed : ∀ d ∈ job.dependsOn, s.arrivalState [] d ≠ .failed)
    (hnot : ∃ d ∈ job.dependsOn, s.arrivalState [] d ≠ .completed) :
    s.settledAs job = (.pending, .waiting) := by
  obtain ⟨d, hd, hnot⟩ := hnot
  rcases s.settledAs_cases job with ⟨-, d', hd', hf⟩ | ⟨-, hall⟩ | ⟨heq, -⟩
  · exact absurd hf (hfailed d' hd')
  · exact absurd (hall d hd) hnot
  · exact heq

/-- A completion agrees: the job that was there before ends up as it
would have arrived afterwards. -/
theorem Added.completes {s₁ t₁ : TestStorage} {parent : Job} (h : s.Added job stored t)
    (hsettled : (stored.status, stored.dependencyStatus) = s.settledAs job) (hk : s.Keyed)
    (hunknown : s.Unknown job.id) (hlookup : s.jobs.lookup id = some parent)
    (hallowed : JobTransition.complete.isAllowedFrom parent.status = true)
    (hr : Rewrite s id (parent.completedAtTime s.clock) s₁)
    (hrt : Rewrite t id (parent.completedAtTime t.clock) t₁) :
    (t₁.resolveDependents id t.clock).1.standing job.id
      = some ((s₁.resolveDependents id s.clock).1.settledAs job) := by
  have hne : id ≠ job.id := by
    intro heq
    rw [heq, hunknown.jobs] at hlookup
    cases hlookup
  have hlookupt : t.jobs.lookup id = some parent := h.old id hne ▸ hlookup
  have hsamet : SamePlaces t t₁ := hrt.samePlaces hlookupt rfl
  have hunfinished : s.arrivalState [] id = .unfinished := by
    refine arrivalState_unfinished hlookup ?_
    revert hallowed
    unfold unfinished
    cases parent.status <;> decide
  have hstate := arrivalState_completes hk hlookup hr
  obtain ⟨hreleases, -⟩ := resolveDependents_spec (hsamet.keyed (h.keyed hk)) id t.clock
  have hnew : t₁.jobs.lookup job.id = some stored := (hrt.lookup_ne hne.symm).trans h.new
  have hkept : ¬ t₁.ReleasedBy id job.id →
      (t₁.resolveDependents id t.clock).1.standing job.id = some (s.settledAs job) := by
    intro hnot
    unfold standing
    rw [hreleases.kept job.id hnot, hnew, ← hsettled]
    rfl
  have hnotheld : held stored = false → ¬ t₁.ReleasedBy id job.id := by
    intro hheld ⟨hisheld, _⟩
    obtain ⟨found, hfound, hyes⟩ := isJob_iff.1 hisheld
    obtain rfl := Option.some.inj (hnew.symm.trans hfound)
    rw [hheld] at hyes
    cases hyes
  rcases s.settledAs_cases job with ⟨heq, d, hd, hfailed⟩ | ⟨heq, hall⟩ | ⟨heq, hnofail, hnot⟩
  · -- failed on arrival, by a parent that is not the one that completes
    obtain ⟨hstatus, -⟩ := Prod.mk.inj (hsettled.trans heq)
    rw [hkept (hnotheld (by simp [held, hstatus])), heq]
    refine congrArg some (settledAs_failed ⟨d, hd, ?_⟩).symm
    rw [hstate, if_neg, hfailed]
    intro hd
    rw [hd, hunfinished] at hfailed
    cases hfailed
  · obtain ⟨-, hdep⟩ := Prod.mk.inj (hsettled.trans heq)
    rw [hkept (hnotheld (by simp [held, hdep])), heq]
    refine congrArg some (settledAs_satisfied fun d hd => ?_).symm
    rw [hstate]
    split
    · rfl
    · exact hall d hd
  · obtain ⟨hstatus, hdep⟩ := Prod.mk.inj (hsettled.trans heq)
    have hnever : completedJob stored = false := by simp [completedJob, hstatus]
    have hcompleted : ∀ d, t₁.dependencyCompleted d = true ↔
        d = id ∨ s.arrivalState [] d = .completed := by
      intro d
      rw [← hreleases.dependencyCompleted, ← arrivalState_completed,
        arrivalState_completes (h.keyed hk) hlookupt hrt, arrivalState_completed]
      split
      case isTrue heq => simp [heq]
      case isFalse hd => simp [hd, arrivalState_completed, h.completed hunknown.jobs hnever]
    have hdeps : ∀ d, d ∈ t₁.dependenciesOf job.id ↔ d ∈ job.dependsOn := by
      intro d
      rw [mem_dependenciesOf, hnew, hrt.rest.dependencies, h.rest.dependencies,
        hunknown.dependencies]
      simp [h.keeps.dependsOn]
    have hlater : ∀ d, (s₁.resolveDependents id s.clock).1.arrivalState [] d = .completed ↔
        d = id ∨ s.arrivalState [] d = .completed := by
      intro d
      rw [hstate]
      split
      case isTrue heq => simp [heq]
      case isFalse hd => simp [hd]
    by_cases hready : ∀ d ∈ job.dependsOn, d = id ∨ s.arrivalState [] d = .completed
    · -- the completed parent was the last one
      have hreleased : t₁.ReleasedBy id job.id := by
        refine ⟨isJob_iff.2 ⟨stored, hnew, by simp [held, hstatus, hdep]⟩, ?_, ?_⟩
        · obtain ⟨d, hd, hnot⟩ := hnot
          rw [hdeps]
          exact (hready d hd).resolve_right hnot ▸ hd
        · intro d hd
          exact (hcompleted d).2 (hready d ((hdeps d).1 hd))
      obtain ⟨found, hfound, hafter⟩ := hreleases.released job.id hreleased
      obtain rfl := Option.some.inj (hnew.symm.trans hfound)
      unfold standing
      rw [hafter, settledAs_satisfied fun d hd => (hlater d).2 (hready d hd)]
      simp [release, hstatus, hdep]
    · have hnotready : ¬ t₁.ReleasedBy id job.id := by
        intro ⟨_, _, hr⟩
        exact hready fun d hd => (hcompleted d).1 (hr d ((hdeps d).2 hd))
      rw [hkept hnotready, heq, settledAs_waiting]
      · intro d hd
        rw [hstate]
        split
        · exact nofun
        · exact hnofail d hd
      · push Not at hready
        obtain ⟨d, hd, hdid, hnot⟩ := hready
        exact ⟨d, hd, fun h => ((hlater d).1 h).elim hdid hnot⟩

-- == failures

theorem workflowOf_mem {workflow : JobGroup} (h : s.workflowOf k = some workflow) :
    workflow ∈ s.workflows.values := by
  unfold workflowOf at h
  split at h
  case h_1 found hfound =>
    obtain rfl := Option.some.inj h
    obtain ⟨id, -, hlookup⟩ := Option.bind_eq_some_iff.1 hfound
    exact Table.mem_values.2 ⟨id, hlookup⟩
  case h_2 => exact List.mem_of_find?_eq_some h

/-- A failure takes the new job only as a dependent, and so when the
failed job, or one that fails as its dependent, is a dependency of it. -/
theorem Added.failureTakes (h : s.Added job stored t) (hk : s.Keyed) (hunknown : s.Unknown job.id)
    (hne : root ≠ job.id) :
    FailureTakes t root job.id ↔ canFailAsDependent stored = true ∧ s.Reaches root job := by
  have hof : t.workflowOf root = s.workflowOf root :=
    workflowOf_congr h.rest.workflows (by rw [h.old root hne])
  have hsibling : ∀ y, y ≠ job.id → (SiblingFails t root y ↔ SiblingFails s root y) := by
    intro y hy
    unfold SiblingFails isJob
    rw [hof, h.old y hy]
  have hnosibling : ¬ SiblingFails t root job.id := by
    intro ⟨workflow, hworkflow, _, hlisted, _⟩
    exact hunknown.workflows workflow (workflowOf_mem (hof ▸ hworkflow)) hlisted
  have hnobatch : ¬ BatchFails t root job.id := by
    intro ⟨batchId, _, _, hlisted, _⟩
    rw [h.rest.batchJobs] at hlisted
    exact hunknown.batches batchId hlisted
  have hnext : ∀ c y, y ∈ t.directDependents c ↔
      if y = job.id then c ∈ job.dependsOn else y ∈ s.directDependents c := by
    intro c y
    rw [(h.keyed hk).mem_directDependents, hk.mem_directDependents, h.rest.dependents]
    split
    case isTrue heq =>
      rw [heq, h.new]
      simp [hunknown.dependents c, h.keeps.dependsOn]
    case isFalse hy => rw [h.old y hy]
  have hreached : Worklist.Reached t.directDependents
      (fun y => t.isJob y canFailAsDependent = true ∧ ¬ SiblingFails t root y) root job.id ↔
      canFailAsDependent stored = true ∧ ∃ c, (c = root ∨ Worklist.Reached s.directDependents
        (fun y => s.isJob y canFailAsDependent = true ∧ ¬ SiblingFails s root y) root c) ∧
        c ∈ job.dependsOn := by
    have hfresh : ∀ y, y ≠ job.id →
        ((t.isJob y canFailAsDependent = true ∧ ¬ SiblingFails t root y) ↔
          s.isJob y canFailAsDependent = true ∧ ¬ SiblingFails s root y) := by
      intro y hy
      unfold isJob
      rw [h.old y hy, hsibling y hy]
    have hnew : ¬ (s.isJob job.id canFailAsDependent = true ∧ ¬ SiblingFails s root job.id) := by
      intro ⟨hfresh, _⟩
      unfold isJob at hfresh
      rw [hunknown.jobs] at hfresh
      cases hfresh
    have hothers : ∀ c y, y ≠ job.id →
        (y ∈ t.directDependents c ↔ y ∈ s.directDependents c) := by
      intro c y hy
      rw [hnext, if_neg hy]
    refine (Worklist.reached_added hothers hfresh hnew).trans ?_
    unfold isJob
    rw [h.new]
    simp only [Option.any_some, hnosibling, not_false_eq_true, and_true, hnext, if_true]
  have hmanual : (∀ workflow, s.workflowOf root = some workflow →
      workflow.failurePolicy ≠ .manual) ↔ ¬ InManual s root := by
    unfold InManual
    push Not
    exact Iff.rfl
  unfold FailureTakes PolicyFails DependentFails Reaches
  rw [hof, hreached, hmanual]
  simp only [hnosibling, hnobatch, false_or, or_false]
  unfold DependentFails
  rw [hmanual]
  constructor
  · intro ⟨hnot, hcan, c, hc, hdep⟩
    exact ⟨hcan, hnot, c, hdep, hc.imp_right fun hr => ⟨hnot, hr⟩⟩
  · intro ⟨hcan, hnot, c, hdep, hc⟩
    exact ⟨hnot, hcan, c, hc.imp_right fun hr => hr.2, hdep⟩

/-- What a failure makes of the parents: those that fail have failed,
unless an operator may retry them. -/
theorem arrivalState_fails {s₁ : TestStorage} {job' : Job} (hk : s.Keyed)
    (hlookup : s.jobs.lookup root = some job) (hr : Rewrite s root job' s₁)
    (hplace : place job' = place job) (hended : job'.status.EndedInFailure) (d : JobId) :
    ((d = root ∨ FailureTakes s root d) →
      (InManual s d → (applyPolicies s₁ root).arrivalState [] d = .unfinished) ∧
        (¬ InManual s d → (applyPolicies s₁ root).arrivalState [] d = .failed)) ∧
      (¬ (d = root ∨ FailureTakes s root d) →
        (applyPolicies s₁ root).arrivalState [] d = s.arrivalState [] d) := by
  have hsame : SamePlaces s s₁ := hr.samePlaces hlookup hplace
  have hside : SideFailures s₁ (applyPolicies s₁ root) s₁.clock (FailureTakes s₁ root) :=
    failureTakes_spec s₁ root s₁.clock
  have hsame' : SamePlaces s (applyPolicies s₁ root) := hsame.trans hside.samePlaces
  have htakes : d ≠ root → (FailureTakes s₁ root d ↔ FailureTakes s root d) := by
    intro hne
    injection hplace with hid hplace
    injection hplace with hdeps hplace
    injection hplace with hworkflow hbatch
    obtain ⟨hsibling, hdependent, hbatch⟩ :=
      failureTakes_rewrite hk hlookup hr hid hdeps hworkflow hbatch hne
    unfold FailureTakes PolicyFails
    rw [hsibling, hdependent, hbatch]
  constructor
  · intro htaken
    obtain ⟨found, hfound, hfailed⟩ : ∃ found, (applyPolicies s₁ root).jobs.lookup d = some found ∧
        found.status.EndedInFailure := by
      by_cases htakes₁ : FailureTakes s₁ root d
      · obtain ⟨found, message, -, -, hfailed⟩ := hside.failed d htakes₁
        exact ⟨_, hfailed, .inl rfl⟩
      · have hd : d = root := by
          by_contra hne
          exact htakes₁ ((htakes hne).2 (htaken.resolve_left hne))
        exact ⟨job', by rw [hside.kept d htakes₁, hd, hr.lookup_self], hended⟩
    rw [← hsame'.inManual]
    exact arrivalState_ended hfound hfailed
  · intro hnot
    have hne : d ≠ root := fun heq => hnot (.inl heq)
    refine arrivalState_congr_of (hsame'.workflowOf d) ?_
    rw [hside.kept d fun htaken => hnot (.inr ((htakes hne).1 htaken)), hr.lookup_ne hne]

/-- A job that a failure takes was pending or retrying. -/
theorem FailureTakes.unfinished (h : FailureTakes s root d) :
    s.arrivalState [] d = .unfinished := by
  have hunstarted : s.isJob d unstarted = true := by
    rcases h with (⟨_, _, _, _, _, hjob⟩ | ⟨-, hreached⟩) | ⟨_, _, _, _, hjob⟩
    · exact hjob
    · obtain ⟨job, hlookup, hcan⟩ := isJob_iff.1 hreached.isFresh.1
      exact isJob_iff.2 ⟨job, hlookup, unstarted_of_canFailAsDependent hcan⟩
    · exact hjob
  obtain ⟨job, hlookup, hjob⟩ := isJob_iff.1 hunstarted
  exact arrivalState_unfinished hlookup (unfinished_of_unstarted hjob)

/-- The failed dependencies that a late job sees. -/
def Sees (s : TestStorage) (root : JobId) (job : Job) : Prop :=
  ∃ d ∈ job.dependsOn, (d = root ∨ FailureTakes s root d) ∧ ¬ InManual s d

/-- Only in these two cases does a failure reach one of the two. -/
theorem reaches_iff_sees :
    (s.Reaches root job ↔ s.Sees root job) ↔ ¬ (s.Spares root job ∨ s.Leaves root job) := by
  have hspares : s.Spares root job ↔ ¬ s.Reaches root job ∧ s.Sees root job := by
    unfold Spares
    refine and_congr_right fun hnot => ⟨?_, ?_⟩
    · intro ⟨d, hd, htaken, hmanual⟩
      exact ⟨d, hd, .inr (htaken.imp_left .inl), hmanual⟩
    · intro ⟨d, hd, htaken, hmanual⟩
      rcases htaken with rfl | (hsibling | hdependent) | hbatch
      · exact absurd ⟨hmanual, d, hd, .inl rfl⟩ hnot
      · exact ⟨d, hd, .inl hsibling, hmanual⟩
      · have hpolicy : ¬ InManual s root := fun ⟨w, hw, hm⟩ => hdependent.1 w hw hm
        exact absurd ⟨hpolicy, d, hd, .inr hdependent⟩ hnot
      · exact ⟨d, hd, .inr hbatch, hmanual⟩
  have hleaves : s.Leaves root job ↔ s.Reaches root job ∧ ¬ s.Sees root job := by
    unfold Leaves Sees
    push Not
    exact Iff.rfl
  rw [hspares, hleaves]
  tauto

/-- A failure agrees in all but these cases. -/
theorem Added.fails {s₁ t₁ : TestStorage} {parent parent' parent'' : Job}
    (h : s.Added job stored t)
    (hsettled : (stored.status, stored.dependencyStatus) = s.settledAs job) (hk : s.Keyed)
    (hunknown : s.Unknown job.id) (hlookup : s.jobs.lookup root = some parent)
    (hallowed : JobTransition.markDead.isAllowedFrom parent.status = true)
    (hr : Rewrite s root parent' s₁) (hplace : place parent' = place parent)
    (hended : parent'.status.EndedInFailure)
    (hrt : Rewrite t root parent'' t₁) (hplacet : place parent'' = place parent) :
    (applyPolicies t₁ root).standing job.id
        = some ((applyPolicies s₁ root).settledAs job) ↔
      ¬ ((∀ d ∈ job.dependsOn, (s.jobs.lookup d).map (s.parentState d) ≠ some .failed) ∧
        (s.Spares root job ∨ s.Leaves root job)) := by
  have hne : root ≠ job.id := by
    intro heq
    rw [heq, hunknown.jobs] at hlookup
    cases hlookup
  have hlookupt : t.jobs.lookup root = some parent := h.old root hne ▸ hlookup
  have hnew : t₁.jobs.lookup job.id = some stored := (hrt.lookup_ne hne.symm).trans h.new
  have hside : SideFailures t₁ (applyPolicies t₁ root) t₁.clock (FailureTakes t₁ root) :=
    failureTakes_spec t₁ root t₁.clock
  have hstate := arrivalState_fails hk hlookup hr hplace hended
  -- the failed parent had not completed
  have hparent : s.arrivalState [] root ≠ .completed := by
    rw [ne_eq, arrivalState_completed]
    intro hcompleted
    obtain ⟨found, hfound, hyes⟩ := isJob_iff.1 hcompleted
    obtain rfl := Option.some.inj (hlookup.symm.trans hfound)
    revert hallowed hyes
    unfold completedJob
    cases parent.status <;> simp [JobTransition.isAllowedFrom, JobTransition.allowedFrom]
  have hstarted : unfinished parent = true ∨ parent.status.EndedInFailure := by
    revert hallowed
    unfold unfinished JobStatus.EndedInFailure
    cases parent.status <;> simp [JobTransition.isAllowedFrom, JobTransition.allowedFrom]
  have htakes : FailureTakes t₁ root job.id ↔
      canFailAsDependent stored = true ∧ s.Reaches root job := by
    rw [← h.failureTakes hk hunknown hne]
    injection hplacet with hid hplacet
    injection hplacet with hdeps hplacet
    injection hplacet with hworkflow hbatch
    obtain ⟨hsibling, hdependent, hbatch⟩ :=
      failureTakes_rewrite (h.keyed hk) hlookupt hrt hid hdeps hworkflow hbatch hne.symm
    unfold FailureTakes PolicyFails
    rw [hsibling, hdependent, hbatch]
  have hkept : ¬ (canFailAsDependent stored = true ∧ s.Reaches root job) →
      (applyPolicies t₁ root).standing job.id = some (s.settledAs job) := by
    intro hnot
    unfold standing
    rw [hside.kept job.id fun htaken => hnot (htakes.1 htaken), hnew, ← hsettled]
    rfl
  have hfailedstate : ∀ d, ((s.jobs.lookup d).map (s.parentState d) = some .failed ↔
      s.arrivalState [] d = .failed) := by
    intro d
    rw [arrivalState_nil]
    cases (s.jobs.lookup d).map (s.parentState d) <;> simp
  simp only [ne_eq, hfailedstate]
  rcases s.settledAs_cases job with ⟨heq, d, hd, hfailed⟩ | ⟨heq, hall⟩ | ⟨heq, hnofail, hnot⟩
  · -- failed on arrival, in both orders
    obtain ⟨hstatus, -⟩ := Prod.mk.inj (hsettled.trans heq)
    have hcan : canFailAsDependent stored = false := by simp [canFailAsDependent, hstatus]
    refine iff_of_true ?_ fun hyes => hyes.1 d hd hfailed
    rw [hkept fun hyes => absurd (hcan.symm.trans hyes.1) Bool.false_ne_true, heq]
    refine congrArg some (settledAs_failed ⟨d, hd, ?_⟩).symm
    by_cases htaken : d = root ∨ FailureTakes s root d
    · refine ((hstate d).1 htaken).2 fun hmanual => ?_
      rcases htaken with rfl | htaken
      · rcases hstarted with hunfinished | hfailure
        · rw [arrivalState_unfinished hlookup hunfinished] at hfailed
          cases hfailed
        · rw [(arrivalState_ended hlookup hfailure).1 hmanual] at hfailed
          cases hfailed
      · rw [htaken.unfinished] at hfailed
        cases hfailed
    · rw [(hstate d).2 htaken, hfailed]
  · -- its dependencies have completed, so none of them fails
    have hnone : ∀ d ∈ job.dependsOn, ¬ (d = root ∨ FailureTakes s root d) := by
      intro d hd htaken
      have hcompleted := hall d hd
      rcases htaken with rfl | htaken
      · exact hparent hcompleted
      · rw [htaken.unfinished] at hcompleted
        cases hcompleted
    have hnoreach : ¬ s.Reaches root job := by
      intro hreaches
      obtain ⟨-, d, hd, htaken⟩ := hreaches
      exact hnone d hd (htaken.imp_right fun hdependent => .inl (.inr hdependent))
    refine iff_of_true ?_ ?_
    · rw [hkept fun hyes => hnoreach hyes.2, heq, settledAs_satisfied]
      intro d hd
      rw [(hstate d).2 (hnone d hd), hall d hd]
    · intro hyes
      rcases hyes.2 with ⟨-, d, hd, htaken, -⟩ | ⟨hreaches, -⟩
      · exact hnone d hd (.inr (htaken.imp_left .inl))
      · exact hnoreach hreaches
  · obtain ⟨hstatus, hdep⟩ := Prod.mk.inj (hsettled.trans heq)
    have hcan : canFailAsDependent stored = true := by
      simp [canFailAsDependent, hstatus, hdep]
    classical
    have hearly : (applyPolicies t₁ root).standing job.id
        = some (if s.Reaches root job then (.failed, .failed) else (.pending, .waiting)) := by
      split
      case isTrue hreaches =>
        obtain ⟨found, message, hfound, -, hfailed⟩ := hside.failed job.id
          (htakes.2 ⟨hcan, hreaches⟩)
        obtain rfl := Option.some.inj (hnew.symm.trans hfound)
        unfold standing
        rw [hfailed]
        simp [sideFailed, hdep]
      case isFalse hnoreach => rw [hkept fun hyes => hnoreach hyes.2, heq]
    have hlate : (applyPolicies s₁ root).settledAs job
        = if s.Sees root job then (.failed, .failed) else (.pending, .waiting) := by
      split
      case isTrue hsees =>
        obtain ⟨d, hd, htaken, hmanual⟩ := hsees
        exact settledAs_failed ⟨d, hd, ((hstate d).1 htaken).2 hmanual⟩
      case isFalse hnosee =>
        refine settledAs_waiting (fun d hd hfailed => ?_) ?_
        · by_cases htaken : d = root ∨ FailureTakes s root d
          · by_cases hmanual : InManual s d
            · rw [((hstate d).1 htaken).1 hmanual] at hfailed
              cases hfailed
            · exact hnosee ⟨d, hd, htaken, hmanual⟩
          · exact hnofail d hd ((hstate d).2 htaken ▸ hfailed)
        · obtain ⟨d, hd, hnot⟩ := hnot
          refine ⟨d, hd, fun hcompleted => ?_⟩
          by_cases htaken : d = root ∨ FailureTakes s root d
          · by_cases hmanual : InManual s d
            · rw [((hstate d).1 htaken).1 hmanual] at hcompleted
              cases hcompleted
            · rw [((hstate d).1 htaken).2 hmanual] at hcompleted
              cases hcompleted
          · exact hnot ((hstate d).2 htaken ▸ hcompleted)
    rw [hearly, hlate, and_iff_right hnofail, ← reaches_iff_sees]
    by_cases hreaches : s.Reaches root job <;> by_cases hsees : s.Sees root job <;>
      simp [hreaches, hsees]

end TestStorage

-- == both orders

/-- A terminal transition stores no job that was not stored. -/
theorem Does.lookup_none {verdict : Verdict} (h : Does s id verdict s') (hk : s.Keyed)
    (hnone : s.jobs.lookup k = none) : s'.jobs.lookup k = none := by
  cases h with
  | refused => exact hnone
  | completes hlookup _ hr =>
      have hne : k ≠ id := fun heq => by rw [heq, hlookup] at hnone; cases hnone
      have hsame := hr.samePlaces hlookup rfl
      rcases (resolveDependents_spec (hsame.keyed hk) id s.clock).1.lookup k with heq | heq <;>
        rw [heq, hr.lookup_ne hne, hnone]
      rfl
  | @fails _ _ s₁ hlookup _ hr hplace _ =>
      have hne : k ≠ id := fun heq => by rw [heq, hlookup] at hnone; cases hnone
      have hside : SideFailures s₁ (applyPolicies s₁ id) s₁.clock (FailureTakes s₁ id) :=
        failureTakes_spec s₁ id s₁.clock
      by_cases htaken : FailureTakes s₁ id k
      · obtain ⟨found, -, hfound, -⟩ := hside.failed k htaken
        rw [hr.lookup_ne hne, hnone] at hfound
        cases hfound
      · rw [hside.kept k htaken, hr.lookup_ne hne, hnone]

/-- Whether a job is accepted does not depend on the storage. -/
theorem enqueue_accepted : (∃ out, enqueue env s job = .ok out) ↔
    job.validateDependencies = .ok () ∧ (env.encryption.sealJobs [job]).isOk = true := by
  constructor
  · intro ⟨⟨t, id⟩, hok⟩
    obtain ⟨-, hvalid, jobs, hseal, -⟩ := enqueue_ok.1 hok
    exact ⟨hvalid, by rw [hseal]; rfl⟩
  · intro ⟨hvalid, hseal⟩
    cases hjobs : env.encryption.sealJobs [job] with
    | error e =>
        rw [hjobs] at hseal
        cases hseal
    | ok jobs => exact ⟨_, enqueue_ok.2 ⟨rfl, hvalid, jobs, hjobs, rfl⟩⟩

theorem Op.Terminal.added {stored : Job} (h : op.Terminal s id) (hadded : s.Added job stored t)
    (hne : id ≠ job.id) : op.Terminal t id := by
  cases h with
  | completeJob => exact .completeJob id
  | failJob _ error => exact .failJob id error
  | markJobDead _ error => exact .markJobDead id error
  | markJobTimedOut _ error => exact .markJobTimedOut id error
  | finishJobRun run outcome wall hterminal hrecurring =>
      refine .finishJobRun run outcome wall hterminal ?_
      unfold isJob at hrecurring ⊢
      rw [hadded.old _ hne]
      exact hrecurring

theorem enqueue_order_of_keyed (hk : s.Keyed) (hnew : job.NewDependent)
    (hunknown : s.Unknown job.id) (hterminal : op.Terminal s id) (hne : id ≠ job.id) :
    (op.apply env ((Op.enqueue job).apply env s).2).2.standing job.id
        = ((Op.enqueue job).apply env (op.apply env s).2).2.standing job.id ↔
      ¬ s.OrderMatters env job op id := by
  have hdoes : Does s id (op.verdict (s.jobs.lookup id)) (op.apply env s).2 := Op.does hterminal
  have henqueue : ∀ u : TestStorage, ((Op.enqueue job).apply env u).2
      = (commit u (TestQueue.enqueue env u job)).2 := by
    intro u
    unfold Op.apply
    rw [reply_snd]
  rw [henqueue, henqueue]
  by_cases haccepted :
      job.validateDependencies = .ok () ∧ (env.encryption.sealJobs [job]).isOk = true
  · obtain ⟨⟨t, _⟩, hearly⟩ := (enqueue_accepted (s := s)).2 haccepted
    obtain ⟨⟨u, _⟩, hlate⟩ := (enqueue_accepted (s := (op.apply env s).2)).2 haccepted
    obtain ⟨stored, hadded, hsettled⟩ := enqueue_settles hearly hnew hunknown.jobs
    obtain ⟨_, haddedLate, hsettledLate⟩ :=
      enqueue_settles hlate hnew (hdoes.lookup_none hk hunknown.jobs)
    have hdoest : Does t id (op.verdict (t.jobs.lookup id)) (op.apply env t).2 :=
      Op.does (hterminal.added hadded hne)
    have hstanding : u.standing job.id = some ((op.apply env s).2.settledAs job) := by
      unfold standing
      rw [haddedLate.new, ← hsettledLate]
      rfl
    rw [hearly, hlate]
    show (op.apply env t).2.standing job.id = u.standing job.id ↔ _
    rw [hstanding]
    unfold OrderMatters
    rw [hadded.old id hne] at hdoest
    generalize (op.apply env s).2 = s' at hdoes
    generalize (op.apply env t).2 = t' at hdoest
    generalize op.verdict (s.jobs.lookup id) = verdict at hdoes hdoest
    cases hdoes with
    | refused =>
        cases hdoest
        refine iff_of_true ?_ fun hmatters => nomatch hmatters.2.2.1
        unfold standing
        rw [hadded.new, ← hsettled]
        rfl
    | completes hlookup hallowed hr =>
        cases hdoest with
        | completes hlookupt _ hrt =>
            rw [hadded.old id hne, hlookup] at hlookupt
            obtain rfl := Option.some.inj hlookupt
            exact iff_of_true (hadded.completes hsettled hk hunknown hlookup hallowed hr hrt)
              fun hmatters => nomatch hmatters.2.2.1
    | fails hlookup hallowed hr hplace hended =>
        cases hdoest with
        | fails hlookupt _ hrt hplacet _ =>
            rw [hadded.old id hne, hlookup] at hlookupt
            obtain rfl := Option.some.inj hlookupt
            rw [hadded.fails hsettled hk hunknown hlookup hallowed hr hplace hended hrt hplacet]
            simp [haccepted.1, haccepted.2]
  · have hrefused : ∀ u : TestStorage, (commit u (TestQueue.enqueue env u job)).2 = u := by
      intro u
      cases hok : TestQueue.enqueue env u job with
      | error e => rfl
      | ok out => exact absurd (enqueue_accepted.1 ⟨out, hok⟩) haccepted
    rw [hrefused, hrefused]
    exact iff_of_true rfl fun hmatters => haccepted ⟨hmatters.1, hmatters.2.1⟩

/-- Whether a new job is enqueued before or after another one ends makes
no difference to it, unless `OrderMatters`. -/
theorem enqueue_order_irrelevant_iff (hs : Reachable env s) (hnew : job.NewDependent)
    (hunknown : s.Unknown job.id) (hterminal : op.Terminal s id) (hne : id ≠ job.id) :
    (op.apply env ((Op.enqueue job).apply env s).2).2.standing job.id
        = ((Op.enqueue job).apply env (op.apply env s).2).2.standing job.id ↔
      ¬ s.OrderMatters env job op id := by
  exact enqueue_order_of_keyed hs.keyed hnew hunknown hterminal hne

/-- Nobody is named who is in no entry. -/
theorem TestStorage.Unknown.of_entries (hjobs : (s.jobs.lookup id).isNone = true)
    (hworkflows : ∀ workflow ∈ s.workflows.values, id ∉ workflow.jobs.map (·.id))
    (hbatches : ∀ e ∈ s.batchJobs.entries, id ∉ e.2)
    (hdependencies : (s.dependencies.lookup id).getD [] = [])
    (hdependents : ∀ e ∈ s.dependents.entries, id ∉ e.2) : s.Unknown id := by
  have hlists : ∀ (table : Table Nat (List JobId)), (∀ e ∈ table.entries, id ∉ e.2) →
      ∀ key, id ∉ (table.lookup key).getD [] := by
    intro table hall key
    cases hfound : table.lookup key with
    | none => exact List.not_mem_nil
    | some ids => exact hall ⟨key, ids⟩ (AList.mem_lookup_iff.1 hfound)
  exact ⟨Option.isNone_iff_eq_none.1 hjobs, hworkflows, hlists _ hbatches, hdependencies,
    hlists _ hdependents⟩

/-- A job that fails, and one that depends on it. -/
theorem enqueue_order_irrelevant_parent :
    let s := Op.applyAll plainEnv [.enqueue parentJob] (TestStorage.new 0)
    let op := Op.failJob 1 "no mailbox"
    (op.apply plainEnv ((Op.enqueue dependentJob).apply plainEnv s).2).2.standing 2
        = ((Op.enqueue dependentJob).apply plainEnv (op.apply plainEnv s).2).2.standing 2 ↔
      ¬ s.OrderMatters plainEnv dependentJob op 1 := by
  refine enqueue_order_irrelevant_iff (reachable_applyAll plainEnv _ 0)
    ⟨rfl, rfl, List.cons_ne_nil _ _⟩ (.of_entries ?_ ?_ ?_ ?_ ?_) (.failJob 1 _) (by decide)
  all_goals decide +kernel

/-- Two jobs of a fail-fast workflow, and one outside that depends on the
second; the first fails. It matters when the one outside is enqueued:
before, it waits, and afterwards, it fails on arrival. -/
theorem enqueue_order_matters :
    ¬ ∀ (s : TestStorage) (job : Job) (op : Op) (id : JobId), Reachable plainEnv s →
      job.NewDependent → s.Unknown job.id → op.Terminal s id → id ≠ job.id →
      (op.apply plainEnv ((Op.enqueue job).apply plainEnv s).2).2.standing job.id
        = ((Op.enqueue job).apply plainEnv (op.apply plainEnv s).2).2.standing job.id := by
  intro h
  have hsame := h (Op.applyAll plainEnv [.enqueueWorkflow
      (((JobGroup.new 7 0 "onboarding").addJob parentJob).addJob (Job.new 3 0 "mail" .null))]
      (TestStorage.new 0))
    ((Job.new 4 0 "mail" .null).addDependsOn 3) (.failJob 1 "no mailbox") 1
    (reachable_applyAll plainEnv _ 0) ⟨rfl, rfl, List.cons_ne_nil _ _⟩
    (.of_entries (by decide +kernel) (by decide +kernel) (by decide +kernel) (by decide +kernel)
      (by decide +kernel)) (.failJob 1 _) (by decide)
  revert hsame
  decide +kernel

end Hammerwork
