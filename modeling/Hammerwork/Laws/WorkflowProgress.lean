/-
A validated workflow goes on until it is done.

While its jobs are claimed and complete, a workflow has at every moment
a job that runs or may run, unless all its jobs completed; and then it
reports that it completed (`validated_workflow_progresses`).

Two things carry this. `UnderWay` says, of every job of the workflow,
that it runs, completed, may run, or is held back by a dependency that
did not complete; a completion keeps it, because whatever it held back
last it releases. And a validated graph can be gone through dependencies
first, so of the jobs that did not complete one has no dependency left
that did not.

The workflow has to be as the builder methods make it (`Tidy`): they
keep its dependency map in step with its jobs' own dependencies, and the
number of its jobs with the jobs. `validate` looks at neither, nor at
the states of the jobs, and a workflow that is not tidy may be stuck
from the start or never report its end (`validated_workflow_stuck`).
-/
import Hammerwork.Proofs.Workflows
import Hammerwork.Laws.GroupValidity
import Hammerwork.Laws.WorkflowStatus

namespace Hammerwork

open TestStorage TestQueue

variable {s s' s₀ s₁ : TestStorage} {env : Env} {id k d : JobId} {given job job' : Job}
variable {group : JobGroup} {lease : Duration}

-- == tidy workflows

/-- A workflow as the builder methods make it from jobs that have not
ended: its dependency map adds nothing to the jobs' own dependencies, and
it knows how many jobs it has. -/
structure JobGroup.Tidy (group : JobGroup) : Prop where
  unended : ∀ job ∈ group.jobs, job.status = .pending ∨ job.status = .running
  unfailed : ∀ job ∈ group.jobs, job.dependencyStatus ≠ .failed
  waits : ∀ job ∈ group.jobs, job.dependencyStatus = .waiting → job.dependsOn ≠ []
  mapped : ∀ job ∈ group.jobs, ∀ d ∈ (group.dependencies.lookup job.id).getD [],
    d ∈ job.dependsOn
  some_job : 0 < group.totalJobs
  counted : group.totalJobs ≤ group.jobs.length
  live : group.status ≠ .cancelled

-- == the builder methods

/-- A job that has not ended, and waits only if it has something to wait
for. -/
structure Job.Unstarted (job : Job) : Prop where
  status : job.status = .pending
  unfailed : job.dependencyStatus ≠ .failed
  waits : job.dependencyStatus = .waiting → job.dependsOn ≠ []

/-- The workflows the builder methods make of such jobs. -/
inductive JobGroup.Built : JobGroup → Prop
  | new (id : WorkflowId) (now : DateTime) (name : String) : Built (.new id now name)
  | addJob {group : JobGroup} {job : Job} : Built group → job.Unstarted →
      Built (group.addJob job)
  | addParallelJobs {group : JobGroup} {jobs : List Job} : Built group →
      (∀ job ∈ jobs, job.Unstarted) → Built (group.addParallelJobs jobs)
  | thenJob {group : JobGroup} {job : Job} : Built group → job.Unstarted →
      Built (group.thenJob job)
  | withFailurePolicy {group : JobGroup} (policy : FailurePolicy) : Built group →
      Built (group.withFailurePolicy policy)

/-- What the builder methods keep. -/
structure JobGroup.Kept (group : JobGroup) : Prop where
  status : group.status = .running
  counted : group.totalJobs = group.jobs.length
  jobs : ∀ job ∈ group.jobs, job.Unstarted
  mapped : group.ids.Nodup → ∀ job ∈ group.jobs,
    ∀ d ∈ (group.dependencies.lookup job.id).getD [], d ∈ job.dependsOn
  listed : ∀ k, (group.dependencies.lookup k).isSome → k ∈ group.ids

/-- Adding jobs with the dependencies they have. -/
theorem JobGroup.Kept.append {jobs : List Job} (h : group.Kept)
    (hjobs : ∀ job ∈ jobs, job.Unstarted) :
    JobGroup.Kept { group with
      jobs := group.jobs ++ jobs
      totalJobs := (group.jobs ++ jobs).length } where
  status := h.status
  counted := rfl
  jobs job hjob := (List.mem_append.1 hjob).elim (h.jobs job) (hjobs job)
  mapped hnd job hjob d hd := by
    have hids : (group.ids ++ jobs.map (·.id)).Nodup := by
      rw [JobGroup.ids, ← List.map_append]
      exact hnd
    rcases List.mem_append.1 hjob with hold | hnew
    · exact h.mapped hids.of_append_left job hold d hd
    · -- the map has no entry for a job that is new
      have hout : group.dependencies.lookup job.id = none := by
        by_contra hsome
        have hin := h.listed job.id (Option.isSome_iff_ne_none.2 hsome)
        exact List.disjoint_of_nodup_append hids hin (List.mem_map_of_mem hnew)
      rw [hout] at hd
      cases hd
  listed k hk := by
    rw [JobGroup.ids, List.map_append]
    exact List.mem_append_left _ (h.listed k hk)

/-- The job `thenJob` adds last. -/
theorem JobGroup.thenJob_last (group : JobGroup) (job : Job) :
    ∃ last, (group.thenJob job).jobs = group.jobs ++ [last] ∧ last.id = job.id ∧
      last.status = job.status ∧ last.dependsOn = group.ids ∧
      last.dependencyStatus = if group.ids.isEmpty then .none else .waiting :=
  ⟨_, rfl, rfl, rfl, rfl, rfl⟩

theorem JobGroup.Built.kept (h : group.Built) : group.Kept := by
  have hworkflow : ∀ {job : Job} (w : WorkflowId) (name : String), job.Unstarted →
      (job.withWorkflow w name).Unstarted := fun w name hjob => ⟨hjob.1, hjob.2, hjob.3⟩
  induction h with
  | new id now name =>
      refine ⟨rfl, rfl, fun job hjob => absurd hjob List.not_mem_nil,
        fun _ job hjob => absurd hjob List.not_mem_nil, fun k hk => ?_⟩
      cases hk
  | addJob _ hjob ih =>
      exact ih.append fun job' hjob' => List.mem_singleton.1 hjob' ▸ hworkflow _ _ hjob
  | addParallelJobs _ hjobs ih =>
      refine ih.append fun job' hjob' => ?_
      obtain ⟨job, hjob, rfl⟩ := List.mem_map.1 hjob'
      exact hworkflow _ _ (hjobs job hjob)
  | withFailurePolicy policy _ ih => exact ⟨ih.status, ih.counted, ih.jobs, ih.mapped, ih.listed⟩
  | @thenJob group job _ hjob ih =>
      obtain ⟨last, hjobs, hid, hst, hdeps, hdep⟩ := thenJob_last group job
      have hids : (group.thenJob job).ids = group.ids ++ [job.id] := by
        rw [JobGroup.ids, hjobs, List.map_append, List.map_singleton, hid]
        rfl
      have hmap : ∀ k, (group.thenJob job).dependencies.lookup k
          = if k = job.id then some group.ids else group.dependencies.lookup k :=
        fun k => Table.lookup_insert_if group.dependencies job.id k group.ids
      refine ⟨ih.status, rfl, fun job' hjob' => ?_, fun hnd job' hjob' d hd => ?_,
        fun k hk => ?_⟩
      · rw [hjobs] at hjob'
        rcases List.mem_append.1 hjob' with hold | hnew
        · exact ih.jobs job' hold
        · rw [List.mem_singleton.1 hnew]
          refine ⟨hst.trans hjob.status, fun hfailed => ?_, fun hwaits hnil => ?_⟩
          · rw [hdep] at hfailed
            split at hfailed <;> cases hfailed
          · rw [hdeps] at hnil
            rw [hdep, hnil, if_pos List.isEmpty_nil] at hwaits
            cases hwaits
      · rw [hids] at hnd
        rw [hmap] at hd
        rw [hjobs] at hjob'
        rcases List.mem_append.1 hjob' with hold | hnew
        · have hne : job'.id ≠ job.id := fun heq => List.disjoint_of_nodup_append hnd
            (List.mem_map_of_mem hold) (List.mem_singleton.2 heq)
          rw [if_neg hne] at hd
          exact ih.mapped hnd.of_append_left job' hold d hd
        · rw [List.mem_singleton.1 hnew, hid, if_pos rfl] at hd
          rw [List.mem_singleton.1 hnew, hdeps]
          exact hd
      · rw [hmap] at hk
        rw [hids, List.mem_append, List.mem_singleton]
        by_cases heq : k = job.id
        · exact .inr heq
        · rw [if_neg heq] at hk
          exact .inl (ih.listed k hk)

/-- A workflow made by the builder methods is tidy, unless it is empty. -/
theorem JobGroup.Built.tidy (h : group.Built) (hnd : group.ids.Nodup) (hne : group.jobs ≠ []) :
    group.Tidy where
  unended job hjob := .inl (h.kept.jobs job hjob).status
  unfailed job hjob := (h.kept.jobs job hjob).unfailed
  waits job hjob := (h.kept.jobs job hjob).waits
  mapped := h.kept.mapped hnd
  some_job := h.kept.counted ▸ List.length_pos_iff.2 hne
  counted := le_of_eq h.kept.counted
  live hcancelled := by
    rw [h.kept.status] at hcancelled
    cases hcancelled

theorem JobGroup.Built.tidy_pair :
    (((JobGroup.new 1 0 "mail").addJob parentJob).thenJob dependentJob).Tidy :=
  JobGroup.Built.tidy (.thenJob (.addJob (.new 1 0 "mail") ⟨rfl, by decide, by decide⟩)
    ⟨rfl, by decide, by decide⟩) (by decide) (by decide)

-- == the promise

/-- The storage knows nothing of a job `id`. -/
structure TestStorage.Unused (s : TestStorage) (id : JobId) : Prop where
  jobs : s.jobs.lookup id = none
  dependencies : s.dependencies.lookup id = none
  index : ∀ q st, id ∉ QueueIndex.list s.queues q st

/-- Claims, completions of the workflow's jobs, and the passing of
time. -/
inductive Event.Advances (group : JobGroup) : Event → Prop
  | dequeue (queueName : String) (weights : Option PriorityWeights) (lease : Duration)
      (maxJobs : Nat) : Advances group (.call (.dequeue queueName weights lease maxJobs))
  | complete (run : Job) (wall : DateTime) : run.id ∈ group.ids →
      Advances group (.call (.finishJobRun run .completed wall))
  | setTime (time : DateTime) : Advances group (.call (.setTime time))
  | rehash : Advances group .rehash

/-- The job `id` completed. -/
def TestStorage.Completed (s : TestStorage) (id : JobId) : Prop :=
  ∃ job, s.jobs.lookup id = some job ∧ job.status = .completed

/-- When a job that may run is due, if it was handed in as `given` when
the storage was `s₀`: by its own schedule, when it was enqueued if it
came as one whose dependencies are satisfied, or when the dependency
completed that released it. -/
inductive Due (s₀ s : TestStorage) (given job : Job) : Prop
  | scheduled : job.scheduledAt ≤ (stampEnqueued given s₀.clock).scheduledAt →
      Due s₀ s given job
  | satisfied : given.dependencyStatus = .satisfied → job.scheduledAt = s₀.clock →
      Due s₀ s given job
  | released {d : JobId} {dep : Job} : d ∈ given.dependsOn → s.jobs.lookup d = some dep →
      dep.status = .completed → dep.completedAt = some job.scheduledAt → Due s₀ s given job

/-- A pending job that nothing but its schedule holds back. -/
structure MayRun (s₀ s : TestStorage) (given job : Job) : Prop where
  status : job.status = .pending
  dependencyStatus : job.dependencyStatus = .none ∨ job.dependencyStatus = .satisfied
  due : Due s₀ s given job

/-- The job handed in as `given` runs or may run. -/
def GoesOn (s₀ s : TestStorage) (given : Job) : Prop :=
  ∃ job, s.jobs.lookup given.id = some job ∧
    (job.status = .running ∨ MayRun s₀ s given job)

/-- What a workflow that goes on until it is done keeps up, enqueued into
`s₀` under the id `w`. -/
structure Progressing (s₀ s : TestStorage) (group : JobGroup) (w : WorkflowId) : Prop where
  goesOn : (∃ given ∈ group.jobs, ¬ s.Completed given.id) →
    ∃ given ∈ group.jobs, GoesOn s₀ s given
  reported : (∀ given ∈ group.jobs, s.Completed given.id) →
    ∃ report, getWorkflowStatus s w = some report ∧ report.status = .completed

/-- Enqueued into `s₀`, the workflow goes on until it is done. -/
def Progresses (env : Env) (s₀ : TestStorage) (group : JobGroup) : Prop :=
  ∀ s w, enqueueWorkflow env s₀ group = .ok (s, w) →
    ∀ n, ∀ r : Run (Step env) n, r.state 0 = s → (∀ i < n, (r.event i).Advances group) →
      ∀ i ≤ n, Progressing s₀ (r.state i) group w

-- == the invariant

/-- How far a job has come. -/
inductive Stage (s₀ s : TestStorage) (given job : Job) : Prop
  | running : job.status = .running → Stage s₀ s given job
  | completed : job.status = .completed → Stage s₀ s given job
  | mayRun : MayRun s₀ s given job → Stage s₀ s given job
  | heldBack {d : JobId} : held job = true → job.scheduledAt = maxUtc → d ∈ given.dependsOn →
      s.dependencyCompleted d = false → Stage s₀ s given job

/-- The stored job of the one handed in. -/
structure Tracked (s₀ s : TestStorage) (given job : Job) : Prop where
  lookup : s.jobs.lookup given.id = some job
  dependsOn : job.dependsOn = given.dependsOn
  recurring : job.recurring = false
  stage : Stage s₀ s given job

/-- The workflow `group`, enqueued into `s₀`, is under way. -/
structure UnderWay (s₀ s : TestStorage) (group : JobGroup) : Prop where
  keyed : s.Keyed
  jobs : ∀ given ∈ group.jobs, ∃ job, Tracked s₀ s given job
  dependencies : ∀ given ∈ group.jobs, ∀ d ∈ (s.dependencies.lookup given.id).getD [],
    d ∈ given.dependsOn
  filed : ∀ given ∈ group.jobs, Filed s given.id
  workflow : ∃ stored, s.workflows.lookup group.id = some stored ∧ stored.ids = group.ids ∧
    stored.totalJobs = group.totalJobs ∧ stored.status = group.status

/-- A workflow whose jobs depend on each other only. -/
def JobGroup.Closed (group : JobGroup) : Prop :=
  ∀ job ∈ group.jobs, ∀ d ∈ job.dependsOn, d ∈ group.ids

theorem JobGroup.Closed.mem (hclosed : group.Closed) (hgiven : given ∈ group.jobs)
    (hd : d ∈ given.dependsOn) : ∃ dep ∈ group.jobs, dep.id = d :=
  List.mem_map.1 (hclosed given hgiven d hd)

/-- The dependencies the storage goes by are the job's own. -/
theorem UnderWay.mem_dependenciesOf (h : UnderWay s₀ s group) (hgiven : given ∈ group.jobs) :
    d ∈ s.dependenciesOf given.id ↔ d ∈ given.dependsOn := by
  obtain ⟨job, hjob⟩ := h.jobs given hgiven
  rw [TestStorage.mem_dependenciesOf, hjob.lookup, Option.map_some, Option.getD_some,
    hjob.dependsOn]
  exact ⟨fun hd => hd.elim (fun hd => hd) (h.dependencies given hgiven d), .inl⟩

/-- A job that completed counts as completed. -/
theorem dependencyCompleted_of_completed (h : s.Completed id) :
    s.dependencyCompleted id = true := by
  obtain ⟨job, hlookup, hst⟩ := h
  exact isJob_iff.2 ⟨job, hlookup, by simp [completedJob, hst]⟩

theorem dependencyCompleted_congr (h : s'.jobs.lookup id = s.jobs.lookup id) :
    s'.dependencyCompleted id = s.dependencyCompleted id := by
  unfold dependencyCompleted isJob
  rw [h]

theorem MayRun.mono (h : MayRun s₀ s given job)
    (hdone : ∀ d ∈ given.dependsOn, ∀ dep, s.jobs.lookup d = some dep →
      dep.status = .completed → s'.jobs.lookup d = some dep) : MayRun s₀ s' given job := by
  refine ⟨h.status, h.dependencyStatus, ?_⟩
  cases h.due with
  | scheduled hle => exact .scheduled hle
  | satisfied hsat hat => exact .satisfied hsat hat
  | released hd hlookup hst hat => exact .released hd (hdone _ hd _ hlookup hst) hst hat

/-- What completed stays, and what did not complete does not. -/
theorem Stage.mono (h : Stage s₀ s given job)
    (hdone : ∀ d ∈ given.dependsOn, ∀ dep, s.jobs.lookup d = some dep →
      dep.status = .completed → s'.jobs.lookup d = some dep)
    (hopen : ∀ d ∈ given.dependsOn, s.dependencyCompleted d = false →
      s'.dependencyCompleted d = false) : Stage s₀ s' given job := by
  cases h with
  | running hst => exact .running hst
  | completed hst => exact .completed hst
  | mayRun hmay => exact .mayRun (hmay.mono hdone)
  | heldBack hheld hmax hd hnot => exact .heldBack hheld hmax hd (hopen _ hd hnot)

/-- Nothing about jobs, index, workflows and dependencies changed. -/
theorem UnderWay.congr (h : UnderWay s₀ s group)
    (hjobs : ∀ k, s'.jobs.lookup k = s.jobs.lookup k) (hqueues : s'.queues = s.queues)
    (hworkflows : ∀ w, s'.workflows.lookup w = s.workflows.lookup w)
    (hdependencies : s'.dependencies = s.dependencies) : UnderWay s₀ s' group where
  keyed k job hlookup := h.keyed k job (hjobs k ▸ hlookup)
  jobs given hgiven := by
    obtain ⟨job, hjob⟩ := h.jobs given hgiven
    refine ⟨job, (hjobs _).trans hjob.lookup, hjob.dependsOn, hjob.recurring, ?_⟩
    refine hjob.stage.mono (fun d _ dep hlookup _ => (hjobs d).trans hlookup) fun d _ hnot => ?_
    rw [dependencyCompleted_congr (hjobs d)]
    exact hnot
  dependencies := by
    rw [hdependencies]
    exact h.dependencies
  filed given hgiven := (h.filed given hgiven).congr hqueues (by rw [hjobs])
  workflow := by
    rw [hworkflows]
    exact h.workflow

-- == claims

/-- A claim of a job that did not complete. -/
theorem UnderWay.claim {out : Option Job} (h : UnderWay s₀ s group) (hclosed : group.Closed)
    (hclaim : claim s id lease = .ok (s', out))
    (hopen : id ∈ group.ids → s.dependencyCompleted id = false) : UnderWay s₀ s' group := by
  obtain ⟨job₀, hlookup₀, hr, -⟩ := claim_ok hclaim
  have hafter : id ∈ group.ids → s'.dependencyCompleted id = false := by
    intro _
    unfold dependencyCompleted isJob
    rw [hr.lookup_self]
    rfl
  have hdep : ∀ {given}, given ∈ group.jobs → ∀ d ∈ given.dependsOn,
      s.dependencyCompleted d = false → s'.dependencyCompleted d = false := by
    intro given hgiven d hd hnot
    by_cases hid : d = id
    · subst hid
      exact hafter (hclosed given hgiven d hd)
    · rw [dependencyCompleted_congr (hr.lookup_ne hid)]
      exact hnot
  refine ⟨hr.keyed (h.keyed id job₀ hlookup₀) h.keyed, fun given hgiven => ?_, ?_,
    fun given hgiven => (h.filed given hgiven).claim hclaim, ?_⟩
  · obtain ⟨job, hjob⟩ := h.jobs given hgiven
    by_cases hid : given.id = id
    · have heq : job = job₀ := Option.some.inj (hjob.lookup.symm.trans (hid ▸ hlookup₀))
      subst heq
      exact ⟨job.claimed s.clock, hid ▸ hr.lookup_self, hjob.dependsOn, hjob.recurring,
        .running rfl⟩
    · refine ⟨job, (hr.lookup_ne hid).trans hjob.lookup, hjob.dependsOn, hjob.recurring,
        hjob.stage.mono (fun d hd dep hlookup hst => ?_) (hdep hgiven)⟩
      have hne : d ≠ id := by
        rintro rfl
        have hcompleted := dependencyCompleted_of_completed ⟨dep, hlookup, hst⟩
        rw [hopen (hclosed given hgiven d hd)] at hcompleted
        cases hcompleted
      exact (hr.lookup_ne hne).trans hlookup
  · rw [hr.rest.dependencies]
    exact h.dependencies
  · rw [hr.rest.workflows]
    exact h.workflow

/-- The claims of a dequeue. -/
theorem UnderWay.claimEach (hclosed : group.Closed) (ids : List JobId) : ∀ s : TestStorage,
    UnderWay s₀ s group → (∀ id ∈ ids, id ∈ group.ids → s.dependencyCompleted id = false) →
    UnderWay s₀ (claimEach lease ids s).2 group := by
  induction ids with
  | nil => exact fun s h _ => h
  | cons id ids ih =>
      intro s h hopen
      rw [TestQueue.claimEach]
      cases hclaim : TestQueue.claim s id lease with
      | error e => exact h
      | ok out =>
          obtain ⟨s₁, out⟩ := out
          obtain ⟨job₀, -, hr, -⟩ := claim_ok hclaim
          have hnext : ∀ id' ∈ ids, id' ∈ group.ids → s₁.dependencyCompleted id' = false := by
            intro id' hmem hin
            by_cases hid : id' = id
            · unfold dependencyCompleted isJob
              rw [hid, hr.lookup_self]
              rfl
            · rw [dependencyCompleted_congr (hr.lookup_ne hid)]
              exact hopen id' (List.mem_cons_of_mem _ hmem) hin
          have hrest := ih s₁ (h.claim hclosed hclaim (hopen id (List.mem_cons_self ..))) hnext
          dsimp only
          generalize TestQueue.claimEach lease ids s₁ = rest at hrest
          obtain ⟨_ | _, _⟩ := rest <;> exact hrest

/-- What a dequeue claims of the workflow is pending. -/
theorem UnderWay.claimed (h : UnderWay s₀ s group) {queueName : String}
    {weights : Option PriorityWeights} {maxJobs : Nat}
    (hid : id ∈ claimedIds env s queueName weights maxJobs) (hin : id ∈ group.ids) :
    s.dependencyCompleted id = false := by
  obtain ⟨given, hgiven, rfl⟩ := List.mem_map.1 hin
  obtain ⟨job, hmem, hjob⟩ := mem_claimedIds hid
  obtain ⟨k, hlisted, hlookup, -⟩ := mem_eligibleJobs hmem
  obtain rfl : k = given.id := (h.keyed k job hlookup).symm.trans hjob
  obtain ⟨job', hlookup', -, hst⟩ := h.filed given hgiven _ _ hlisted
  unfold dependencyCompleted isJob
  rw [hlookup', Option.any_some]
  simp [completedJob, hst]

-- == completions

/-- A completion: what it held back last, it releases. -/
theorem UnderWay.complete {run : Job} {ids : List JobId} (h : UnderWay s₀ s group)
    (hcur : Current s run job) (hcomplete : completeAndResolve s run.id = .ok (s', ids)) :
    UnderWay s₀ s' group := by
  obtain ⟨job₀, s₁, hlookup₀, -, hr, hres⟩ := completeAndResolve_ok hcomplete
  obtain rfl : job = job₀ := Option.some.inj (hcur.lookup.symm.trans hlookup₀)
  have hid : job.id = run.id := h.keyed _ _ hlookup₀
  have hkeyed : s₁.Keyed := hr.keyed hid h.keyed
  have hrel := (resolveDependents_spec hkeyed run.id s.clock).1
  rw [hres] at hrel
  dsimp only at hrel
  have hrest : SameRegisters s s' := hr.rest.trans hrel.rest
  -- the job that completed is not released
  have hself : s'.jobs.lookup run.id = some (job.completedAtTime s.clock) := by
    refine (hrel.kept run.id fun hreleased => ?_).trans hr.lookup_self
    obtain ⟨job', hlookup', hheld⟩ := isJob_iff.1 hreleased.1
    rw [hr.lookup_self] at hlookup'
    injection hlookup' with hlookup'
    rw [← hlookup'] at hheld
    cases hheld
  -- what had completed stays as it is
  have hdone : ∀ d dep, s.jobs.lookup d = some dep → dep.status = .completed →
      s'.jobs.lookup d = some dep := by
    intro d dep hlookup hst
    have hne : d ≠ run.id := by
      rintro rfl
      rw [hcur.lookup] at hlookup
      injection hlookup with hlookup
      rw [← hlookup, hcur.status] at hst
      cases hst
    refine (hrel.kept d fun hreleased => ?_).trans ((hr.lookup_ne hne).trans hlookup)
    obtain ⟨job', hlookup', hheld⟩ := isJob_iff.1 hreleased.1
    rw [hr.lookup_ne hne, hlookup] at hlookup'
    injection hlookup' with hlookup'
    rw [← hlookup'] at hheld
    simp [held, hst] at hheld
  have hother : ∀ d, d ≠ run.id → s'.dependencyCompleted d = s.dependencyCompleted d := by
    intro d hne
    rw [hrel.dependencyCompleted]
    exact dependencyCompleted_congr (hr.lookup_ne hne)
  have hdeps : ∀ {given}, given ∈ group.jobs → ∀ {d},
      (d ∈ s₁.dependenciesOf given.id ↔ d ∈ given.dependsOn) := by
    intro given hgiven d
    rw [← h.mem_dependenciesOf hgiven, TestStorage.mem_dependenciesOf,
      TestStorage.mem_dependenciesOf, hr.rest.dependencies]
    by_cases heq : given.id = run.id
    · rw [heq, hr.lookup_self, hcur.lookup]
      rfl
    · rw [hr.lookup_ne heq]
  refine ⟨hrel.keyed hkeyed, fun given hgiven => ?_, ?_,
    fun given hgiven => (h.filed given hgiven).completeAndResolve h.keyed hcomplete, ?_⟩
  · obtain ⟨job', hjob⟩ := h.jobs given hgiven
    by_cases heq : given.id = run.id
    · obtain rfl : job' = job := Option.some.inj (hjob.lookup.symm.trans (heq ▸ hcur.lookup))
      exact ⟨job'.completedAtTime s.clock, heq ▸ hself, hjob.dependsOn, hjob.recurring,
        .completed rfl⟩
    · have hlookup₁ : s₁.jobs.lookup given.id = some job' :=
        (hr.lookup_ne heq).trans hjob.lookup
      by_cases hreleased : s₁.ReleasedBy run.id given.id
      · -- released: due from now on
        obtain ⟨job₂, hlookup₂, hheld⟩ := isJob_iff.1 hreleased.1
        obtain rfl : job' = job₂ := Option.some.inj (hlookup₁.symm.trans hlookup₂)
        obtain ⟨job₂, hlookup₂', hafter⟩ := hrel.released given.id hreleased
        obtain rfl : job' = job₂ := Option.some.inj (hlookup₁.symm.trans hlookup₂')
        have hmax : job'.scheduledAt = maxUtc := by
          cases hjob.stage with
          | running hst => simp [held, hst] at hheld
          | completed hst => simp [held, hst] at hheld
          | mayRun hmay =>
              rcases hmay.dependencyStatus with hnone | hsat
              · simpa [held, hmay.status, hnone] using hheld
              · simp [held, hsat] at hheld
          | heldBack _ hmax _ _ => exact hmax
        have hstatus : job'.status = .pending ∧
            (job'.dependencyStatus = .waiting ∨ job'.dependencyStatus = .none) := by
          unfold held at hheld
          simp only [Bool.and_eq_true, decide_eq_true_eq, Bool.or_eq_true] at hheld
          exact ⟨hheld.1, hheld.2.imp_right And.left⟩
        refine ⟨_, hafter, hjob.dependsOn, hjob.recurring, .mayRun ⟨hstatus.1, ?_, ?_⟩⟩
        · unfold TestStorage.release
          rcases hstatus.2 with hwait | hnone
          · exact .inr (if_pos hwait)
          · left
            dsimp only
            rw [hnone]
            rfl
        · refine .released ((hdeps hgiven).1 hreleased.2.1) hself rfl ?_
          exact congrArg some (if_pos hmax).symm
      · have hlookup' : s'.jobs.lookup given.id = some job' :=
          (hrel.kept given.id hreleased).trans hlookup₁
        refine ⟨job', hlookup', hjob.dependsOn, hjob.recurring, ?_⟩
        cases hjob.stage with
        | running hst => exact .running hst
        | completed hst => exact .completed hst
        | mayRun hmay => exact .mayRun (hmay.mono fun d _ => hdone d)
        | heldBack hheld hmax hd hnot =>
            by_cases hdep : run.id ∈ given.dependsOn
            · -- a dependent that is not released waits for another job
              have hunready : ¬ s₁.Ready given.id := fun hready =>
                hreleased ⟨isJob_iff.2 ⟨job', hlookup₁, hheld⟩, (hdeps hgiven).2 hdep, hready⟩
              unfold Ready at hunready
              push Not at hunready
              obtain ⟨d, hd, hopen⟩ := hunready
              refine .heldBack hheld hmax ((hdeps hgiven).1 hd) ?_
              rw [hrel.dependencyCompleted]
              simpa using hopen
            · refine .heldBack hheld hmax hd ?_
              rw [hother _ fun hne => hdep (hne ▸ hd)]
              exact hnot
  · rw [hrest.dependencies]
    exact h.dependencies
  · rw [hrest.workflows]
    exact h.workflow

-- == steps

/-- Recording that a run of a job that does not recur completed. -/
theorem UnderWay.finish {run : Job} {wall : DateTime} (h : UnderWay s₀ s group)
    (hrun : run.id ∈ group.ids) :
    UnderWay s₀ (finishJobRun env.cron s run .completed wall).2 group := by
  cases hcurrent : runIsCurrent s run with
  | false =>
      unfold finishJobRun
      rw [finishGuard_stale hcurrent]
      exact h
  | true =>
      obtain ⟨job, hcur⟩ := runIsCurrent_eq_true.1 hcurrent
      obtain ⟨given, hgiven, hid⟩ := List.mem_map.1 hrun
      obtain ⟨job', hjob⟩ := h.jobs given hgiven
      obtain rfl : job' = job := Option.some.inj (hjob.lookup.symm.trans (hid ▸ hcur.lookup))
      have hnext : rerunAt env.cron s job' .completed = none := by
        unfold rerunAt
        rw [hjob.recurring, Bool.and_false, if_neg Bool.false_ne_true]
      obtain ⟨out, hout⟩ := completeAndResolve_isOk hcur.lookup
        (by rw [hcur.status]; exact isAllowedFrom_running (by decide))
      obtain ⟨s', ids⟩ := out
      have heq : (finishJobRun env.cron s run .completed wall).2 = s' := by
        unfold finishJobRun
        rw [finishGuard_current hcur, hnext]
        dsimp only
        unfold recordOutcome
        rw [hout]
        rfl
      rw [heq]
      exact h.complete hcur hout

/-- One step. -/
theorem UnderWay.step {e : Event} (h : UnderWay s₀ s group) (hclosed : group.Closed)
    (he : e.Advances group) (hstep : Step env s e s') : UnderWay s₀ s' group := by
  cases he with
  | dequeue queueName weights lease maxJobs =>
      cases hstep
      unfold Op.apply
      rw [reply_snd, dequeue_eq]
      exact UnderWay.claimEach hclosed _ s h fun id hid hin => h.claimed hid hin
  | complete run wall hrun =>
      cases hstep
      unfold Op.apply
      rw [reply_snd]
      exact h.finish hrun
  | setTime time =>
      cases hstep
      exact h.congr (fun _ => rfl) rfl (fun _ => rfl) rfl
  | rehash =>
      cases hstep with
      | rehash hsame =>
          refine h.congr (fun k => (hsame.jobs.lookup_congr k).symm) ?_
            (fun w => (hsame.workflows.lookup_congr w).symm) ?_
          · rw [hsame.rest]
          · rw [hsame.rest]

-- == the start

/-- How a tidy workflow's job is stored, if the workflow depends on
nothing else. -/
structure StoredAs (s₀ : TestStorage) (given job : Job) : Prop where
  id : job.id = given.id
  status : job.status = given.status
  dependsOn : job.dependsOn = given.dependsOn
  recurring : job.recurring = given.recurring
  dependencyStatus : job.dependencyStatus = given.dependencyStatus
  free : given.dependsOn = [] → Due s₀ s₀ given job
  satisfied : given.dependsOn ≠ [] → given.dependencyStatus = .satisfied →
    job.scheduledAt = s₀.clock
  heldBack : given.dependsOn ≠ [] → given.dependencyStatus ≠ .satisfied →
    job.scheduledAt = maxUtc

/-- One job, held back and made due as the workflow asks. -/
theorem storedAs {dependencies : Table JobId (List JobId)} {sealedJob : Job}
    (hsame : given.SameButPayload sealedJob)
    (hdeps : ∀ d, d ∈ (dependencies.lookup given.id).getD [] ↔ d ∈ given.dependsOn) :
    StoredAs s₀ given (dueIfSatisfied s₀.clock
      (holdForDependencies dependencies s₀.clock sealedJob)) := by
  have hstamp : (stampEnqueued sealedJob s₀.clock).scheduledAt
      = (stampEnqueued given s₀.clock).scheduledAt := by
    rw [hsame.eq]
    rfl
  have hkeeps := hsame.keepsState
  rcases holdForDependencies_cases dependencies s₀.clock sealedJob with
    ⟨⟨d, hd⟩, heq⟩ | ⟨hnone, heq⟩
  · rw [hkeeps.id, hdeps] at hd
    have hne : given.dependsOn ≠ [] := List.ne_nil_of_mem hd
    rw [heq]
    by_cases hsat : given.dependencyStatus = .satisfied
    · have hdue : dueIfSatisfied s₀.clock
          { stampEnqueued sealedJob s₀.clock with scheduledAt := maxUtc }
            = { stampEnqueued sealedJob s₀.clock with scheduledAt := s₀.clock } :=
        if_pos ⟨hkeeps.dependencyStatus.trans hsat, rfl⟩
      rw [hdue]
      exact ⟨hkeeps.id, hkeeps.status, hkeeps.dependsOn, hkeeps.recurring,
        hkeeps.dependencyStatus, fun h => absurd h hne, fun _ _ => rfl,
        fun _ h => absurd hsat h⟩
    · have hdue : dueIfSatisfied s₀.clock
          { stampEnqueued sealedJob s₀.clock with scheduledAt := maxUtc }
            = { stampEnqueued sealedJob s₀.clock with scheduledAt := maxUtc } :=
        if_neg fun h => hsat (hkeeps.dependencyStatus.symm.trans h.1)
      rw [hdue]
      exact ⟨hkeeps.id, hkeeps.status, hkeeps.dependsOn, hkeeps.recurring,
        hkeeps.dependencyStatus, fun h => absurd h hne, fun _ h => absurd h hsat,
        fun _ _ => rfl⟩
  · have hnil : given.dependsOn = [] := by
      refine List.eq_nil_iff_forall_not_mem.2 fun d hd => hnone d ?_
      rw [hkeeps.id]
      exact (hdeps d).2 hd
    rw [heq]
    unfold dueIfSatisfied
    split
    · next hsat =>
      exact ⟨hkeeps.id, hkeeps.status, hkeeps.dependsOn, hkeeps.recurring,
        hkeeps.dependencyStatus, fun _ => .satisfied (hkeeps.dependencyStatus.symm.trans hsat.1)
          rfl, fun h => absurd hnil h, fun h => absurd hnil h⟩
    · exact ⟨hkeeps.id, hkeeps.status, hkeeps.dependsOn, hkeeps.recurring,
        hkeeps.dependencyStatus, fun _ => .scheduled (le_of_eq hstamp), fun h => absurd hnil h,
        fun h => absurd hnil h⟩

/-- The first stage of a job. -/
theorem StoredAs.stage (h : StoredAs s₀ given job)
    (hunended : given.status = .pending ∨ given.status = .running)
    (hunfailed : given.dependencyStatus ≠ .failed)
    (hwaits : given.dependencyStatus = .waiting → given.dependsOn ≠ [])
    (hopen : ∀ d ∈ given.dependsOn, s.dependencyCompleted d = false) : Stage s₀ s given job := by
  rcases hunended with hpending | hrunning
  · have hst : job.status = .pending := h.status.trans hpending
    by_cases hnil : given.dependsOn = []
    · have hdep : job.dependencyStatus = .none ∨ job.dependencyStatus = .satisfied := by
        rw [h.dependencyStatus]
        cases hds : given.dependencyStatus with
        | none => exact .inl rfl
        | satisfied => exact .inr rfl
        | waiting => exact absurd hnil (hwaits hds)
        | failed => exact absurd hds hunfailed
      refine .mayRun ⟨hst, hdep, ?_⟩
      cases h.free hnil with
      | scheduled hle => exact .scheduled hle
      | satisfied hsat hat => exact .satisfied hsat hat
      | released hd => exact absurd hd (hnil ▸ List.not_mem_nil)
    · by_cases hsat : given.dependencyStatus = .satisfied
      · exact .mayRun ⟨hst, .inr (h.dependencyStatus.trans hsat),
          .satisfied hsat (h.satisfied hnil hsat)⟩
      · obtain ⟨d, hd⟩ := List.exists_mem_of_ne_nil _ hnil
        refine .heldBack ?_ (h.heldBack hnil hsat) hd (hopen d hd)
        unfold held
        rw [hst, h.dependencyStatus, h.heldBack hnil hsat]
        cases hds : given.dependencyStatus with
        | none => rfl
        | waiting => rfl
        | satisfied => exact absurd hds hsat
        | failed => exact absurd hds hunfailed
  · exact .running (h.status.trans hrunning)

/-- The dependencies the storage records for a tidy workflow's jobs are
their own. -/
theorem mem_storedWorkflow_dependencies {sealedJobs : List Job} (hnd : group.ids.Nodup)
    (htidy : group.Tidy) (hsealed : List.Forall₂ Job.SameButPayload group.jobs sealedJobs)
    (hgiven : given ∈ group.jobs) :
    d ∈ ((storedWorkflow s₀ group sealedJobs).dependencies.lookup given.id).getD [] ↔
      d ∈ given.dependsOn := by
  refine mem_mergedDependencies.trans ⟨?_, fun hd => .inr ?_⟩
  · rintro (hd | ⟨job, hjob, hid, hd⟩)
    · exact htidy.mapped given hgiven d hd
    · obtain ⟨given', hgiven', hsame⟩ := mem_of_forall₂ hsealed hjob
      have heq : given' = given := List.inj_on_of_nodup_map hnd hgiven' hgiven
        (hsame.keepsState.id.symm.trans hid)
      subst heq
      exact hsame.keepsState.dependsOn ▸ hd
  · obtain ⟨job, hjob, hsame⟩ := mem_of_forall₂ hsealed.flip hgiven
    have hkeeps : given.KeepsState job := Job.SameButPayload.keepsState hsame
    exact ⟨job, hjob, hkeeps.id, hkeeps.dependsOn ▸ hd⟩

/-- None of a tidy workflow's jobs is settled when it is enqueued. -/
theorem arriving_unsettled {dependencies : Table JobId (List JobId)} {sealedJobs : List Job}
    (hclosed : group.Closed) (htidy : group.Tidy)
    (hsealed : List.Forall₂ Job.SameButPayload group.jobs sealedJobs) :
    arriving s₀ (holdForDependencies dependencies s₀.clock) (dueIfSatisfied s₀.clock) sealedJobs
      = (sealedJobs.map (holdForDependencies dependencies s₀.clock)).map
          (dueIfSatisfied s₀.clock) := by
  have hback : ∀ job ∈ sealedJobs.map (holdForDependencies dependencies s₀.clock),
      ∃ given ∈ group.jobs, job.status = given.status ∧ job.dependsOn = given.dependsOn := by
    intro job hjob
    obtain ⟨sealedJob, hsealedJob, rfl⟩ := List.mem_map.1 hjob
    obtain ⟨given, hgiven, hsame⟩ := mem_of_forall₂ hsealed hsealedJob
    have hkeeps := hsame.keepsState.trans
      (holdForDependencies_keepsState dependencies s₀.clock sealedJob)
    exact ⟨given, hgiven, hkeeps.status, hkeeps.dependsOn⟩
  have hids : (sealedJobs.map (holdForDependencies dependencies s₀.clock)).map (·.id)
      = group.ids := by
    have hsealedIds : sealedJobs.map (·.id) = group.ids :=
      forall₂_ids (fun _ _ hab => hab.keepsState.id) hsealed
    rw [List.map_map, ← hsealedIds]
    exact List.map_congr_left fun job _ =>
      (holdForDependencies_keepsState dependencies s₀.clock job).id
  unfold arriving TestStorage.settleNewDependents
  rw [settleNewDependents_unended]
  · intro job hjob
    obtain ⟨given, hgiven, hst, -⟩ := hback job hjob
    rw [hst]
    exact htidy.unended given hgiven
  · intro job hjob d hd
    obtain ⟨given, hgiven, -, hdeps⟩ := hback job hjob
    rw [hids]
    exact hclosed given hgiven d (hdeps ▸ hd)

/-- A tidy workflow that was enqueued is under way. -/
theorem UnderWay.start {w : WorkflowId} (hk : s₀.Keyed) (hnew : ∀ k ∈ group.ids, s₀.Unused k)
    (hnd : group.ids.Nodup) (hclosed : group.Closed)
    (honce : ∀ job ∈ group.jobs, job.recurring = false) (htidy : group.Tidy)
    (h : enqueueWorkflow env s₀ group = .ok (s, w)) : UnderWay s₀ s group := by
  obtain ⟨-, sealedJobs, stored, dependencies, hseal, hdependencies, hstored, hs⟩ :=
    enqueueWorkflow_ok h
  have hsealed := PayloadEncryption.sealJobs_same hseal
  have hmerged : ∀ given ∈ group.jobs, ∀ d,
      d ∈ (dependencies.lookup given.id).getD [] ↔ d ∈ given.dependsOn := by
    intro given hgiven d
    rw [hdependencies]
    exact mem_storedWorkflow_dependencies hnd htidy hsealed hgiven
  rw [arriving_unsettled hclosed htidy hsealed] at hstored
  have heach : ∀ given ∈ group.jobs, ∃ job ∈ stored, StoredAs s₀ given job := by
    intro given hgiven
    obtain ⟨sealedJob, hmem, hsame⟩ := mem_of_forall₂ hsealed.flip hgiven
    rw [hstored]
    exact ⟨_, List.mem_map_of_mem (List.mem_map_of_mem hmem),
      storedAs hsame (hmerged given hgiven)⟩
  have hids : stored.map (·.id) = group.ids := by
    have hsealedIds : sealedJobs.map (·.id) = group.ids :=
      forall₂_ids (fun _ _ hab => hab.keepsState.id) hsealed
    rw [hstored, List.map_map, List.map_map, ← hsealedIds]
    exact List.map_congr_left fun job _ =>
      ((holdForDependencies_keepsState dependencies s₀.clock job).trans
        (dueIfSatisfied_keepsState s₀.clock _)).id
  have hin := (insertJobs_inserted stored s₀).1
  have hjobs : ∀ k, s.jobs.lookup k = (insertJobs stored s₀).jobs.lookup k := fun k => by rw [hs]
  have hlookup : ∀ job ∈ stored, s.jobs.lookup job.id = some job := fun job hjob =>
    (hjobs _).trans (hin.lookup_new (hids ▸ hnd) hjob)
  have hopen : ∀ given ∈ group.jobs, s.dependencyCompleted given.id = false := by
    intro given hgiven
    obtain ⟨job, hjob, hst⟩ := heach given hgiven
    unfold dependencyCompleted isJob completedJob
    rw [← hst.id, hlookup job hjob, Option.any_some, hst.status]
    rcases htidy.unended given hgiven with hst | hst <;> rw [hst]
  refine ⟨fun k job hl => hin.keyed hk k job ((hjobs k).symm.trans hl), fun given hgiven => ?_,
    fun given hgiven d hd => ?_, fun given hgiven q st hmem => ?_, ?_⟩
  · obtain ⟨job, hjob, hst⟩ := heach given hgiven
    refine ⟨job, hst.id ▸ hlookup job hjob, hst.dependsOn, hst.recurring.trans
      (honce given hgiven), hst.stage (htidy.unended given hgiven) (htidy.unfailed given hgiven)
        (htidy.waits given hgiven) fun d hd => ?_⟩
    obtain ⟨dep, hdep, rfl⟩ := hclosed.mem hgiven hd
    exact hopen dep hdep
  · rw [hs] at hd
    dsimp only at hd
    rw [storeDependencies_lookup, (hnew _ (List.mem_map_of_mem hgiven)).dependencies,
      Option.or_none] at hd
    exact (hmerged given hgiven d).1 hd
  · rw [hs] at hmem
    rcases (mem_list_insertJobs stored s₀).1 hmem with hold | ⟨job, hjob, hid, hq, hst⟩
    · exact absurd hold ((hnew _ (List.mem_map_of_mem hgiven)).index q st)
    · exact ⟨job, hid ▸ hlookup job hjob, hq, hst⟩
  · obtain ⟨⟨after, hafter, htotal, hterms, hworkflows⟩, -⟩ := enqueueWorkflow_group h
    refine ⟨after, ?_, hafter, htotal, hterms.status⟩
    rw [hworkflows, if_pos rfl]

-- == it is kept

/-- A job that did not complete goes on, or one it depends on does. -/
theorem UnderWay.goesOn (h : UnderWay s₀ s group) (hnd : group.ids.Nodup)
    (hvalid : group.validate = some (.ok ())) {k : JobId} (hk : k ∈ group.ids)
    (hopen : ¬ s.Completed k) : ∃ given ∈ group.jobs, GoesOn s₀ s given := by
  induction JobGroup.validate_acc hvalid k hk with
  | intro k _ ih =>
      obtain ⟨given, hgiven, rfl⟩ := List.mem_map.1 hk
      obtain ⟨job, hjob⟩ := h.jobs given hgiven
      cases hjob.stage with
      | running hst => exact ⟨given, hgiven, job, hjob.lookup, .inl hst⟩
      | completed hst => exact absurd ⟨job, hjob.lookup, hst⟩ hopen
      | mayRun hmay => exact ⟨given, hgiven, job, hjob.lookup, .inr hmay⟩
      | @heldBack d _ _ hd hnot =>
          have hbelow : CycleSearch.Below group.dependsOnOf d given.id := by
            unfold CycleSearch.Below
            rw [JobGroup.dependsOnOf_of_mem hnd hgiven]
            exact hd
          refine ih d hbelow (JobGroup.validate_closed hvalid given hgiven d hd) fun hdone => ?_
          rw [dependencyCompleted_of_completed hdone] at hnot
          cases hnot

/-- When all jobs completed, the workflow reports that it did. -/
theorem UnderWay.reported (h : UnderWay s₀ s group) (htidy : group.Tidy)
    (hall : ∀ given ∈ group.jobs, s.Completed given.id) :
    ∃ report, getWorkflowStatus s group.id = some report ∧ report.status = .completed := by
  obtain ⟨stored, hstored, hids, htotal, hst⟩ := h.workflow
  have hcounted : ∀ k ∈ stored.ids, countsCompleted (s.statusWithArchived k) = true := by
    intro k hk
    rw [hids] at hk
    obtain ⟨given, hgiven, rfl⟩ := List.mem_map.1 hk
    obtain ⟨job, hlookup, hjob⟩ := hall given hgiven
    unfold statusWithArchived
    rw [hlookup, Option.map_some, hjob]
    rfl
  have hcount := foldl_count s.statusWithArchived stored.ids ⟨0, 0⟩
  rw [List.filter_eq_self.2 hcounted, Nat.zero_add] at hcount
  have hlength : stored.ids.length = group.jobs.length := by
    rw [hids]
    exact List.length_map _
  unfold getWorkflowStatus
  rw [hstored, Option.map_some]
  refine ⟨_, rfl, ?_⟩
  show WorkflowProgress.status (List.foldl _ _ stored.ids) _ _ _ = _
  rw [hcount]
  unfold WorkflowProgress.status
  rw [if_neg (hst ▸ htidy.live), if_pos]
  rw [htotal, hlength]
  exact ⟨htidy.some_job, htidy.counted⟩

/-- A claim and the completion of what it claimed first of a new queue at
time 0. -/
def firstRun : List Op :=
  [.dequeue "mail" none 60 1,
    .finishJobRun { parentJob with attempts := 1, startedAt := some 0 } .completed 0]

theorem unused_new (clock : DateTime) (k : JobId) : (TestStorage.new clock).Unused k :=
  ⟨rfl, rfl, fun _ _ => List.not_mem_nil⟩

theorem firstRun_advances (s : TestStorage) (h : 1 ∈ group.ids) :
    ∀ i < 2, ((Op.trace plainEnv firstRun s).event i).Advances group := by
  intro i hi
  match i, hi with
  | 0, _ => exact .dequeue "mail" none 60 1
  | 1, _ => exact .complete _ 0 h

/-- What a storage is after a workflow was enqueued into the new queue and
calls were made. -/
theorem enqueued_then (group : JobGroup) (ops : List Op) {p : TestStorage → Bool}
    (h : (match enqueueWorkflow plainEnv (TestStorage.new 0) group with
      | .ok (s, _) => p (Op.applyAll plainEnv ops s)
      | .error _ => false) = true) :
    ∃ s w, enqueueWorkflow plainEnv (TestStorage.new 0) group = .ok (s, w) ∧
      p ((Op.trace plainEnv ops s).state ops.length) = true := by
  cases henq : enqueueWorkflow plainEnv (TestStorage.new 0) group with
  | error e =>
      rw [henq] at h
      cases h
  | ok out =>
      rw [henq] at h
      refine ⟨out.1, out.2, rfl, ?_⟩
      rw [Op.trace_last]
      exact h

/-- Validated, of jobs that do not recur, and it does not go on. -/
structure JobGroup.Stuck (group : JobGroup) : Prop where
  nodup : group.ids.Nodup
  valid : group.validate = some (.ok ())
  once : ∀ job ∈ group.jobs, job.recurring = false
  stuck : ¬ Progresses plainEnv (TestStorage.new 0) group

/-- A job that has not completed and, at time 0, neither runs nor may
run. -/
def idle (job : Job) : Bool :=
  job.status ≠ .running && job.status ≠ .completed &&
    !(job.status = .pending &&
      (job.dependencyStatus = .none || job.dependencyStatus = .satisfied) && job.scheduledAt ≤ 0)

/-- A single job that is stored idle stays so. -/
theorem not_progresses_of_idle (hjobs : group.jobs = [given]) (hid : given.id = 1)
    (hfree : given.dependsOn = []) (hsat : given.dependencyStatus ≠ .satisfied)
    (hstamp : (stampEnqueued given 0).scheduledAt = 0)
    (h : (match enqueueWorkflow plainEnv (TestStorage.new 0) group with
      | .ok (s, _) => s.isJob 1 idle
      | .error _ => false) = true) : ¬ Progresses plainEnv (TestStorage.new 0) group := by
  intro hprogress
  obtain ⟨s, w, henq, hafter⟩ := enqueued_then group [] (p := fun s => s.isJob 1 idle) h
  obtain ⟨job, hlookup, hidle⟩ := isJob_iff.1 hafter
  have hnow := (hprogress s w henq 0 (Op.trace plainEnv [] s) rfl (fun i hi => by omega) 0
    (le_refl 0)).goesOn
  unfold idle at hidle
  simp only [Bool.and_eq_true, decide_eq_true_eq, Bool.not_eq_true', Bool.and_eq_false_iff,
    decide_eq_false_iff_not] at hidle
  have hstored : ∀ job', s.jobs.lookup given.id = some job' → job' = job := by
    intro job' hlookup'
    rw [hid] at hlookup'
    exact Option.some.inj (hlookup'.symm.trans hlookup)
  rw [hjobs] at hnow
  obtain ⟨given', hgiven', job', hlookup', hgo⟩ := hnow ⟨given, List.mem_cons_self ..,
    fun ⟨job', hlookup', hst⟩ => hidle.1.2 (hstored job' hlookup' ▸ hst)⟩
  obtain rfl : given' = given := List.mem_singleton.1 hgiven'
  obtain rfl : job' = job := hstored job' hlookup'
  rcases hgo with hrunning | hmay
  · exact hidle.1.1 hrunning
  · rcases hidle.2 with (hst | hdep) | hlate
    · exact hst hmay.status
    · rcases hmay.dependencyStatus with hds | hds <;> simp [hds] at hdep
    · cases hmay.due with
      | scheduled hle => exact hlate (hstamp ▸ hle)
      | satisfied hds => exact hsat hds
      | released hd => exact absurd hd (hfree ▸ List.not_mem_nil)

/-- Job 1 runs and completes, and the workflow does not report that it
completed. -/
theorem not_progresses_of_unreported (hjobs : group.ids = [1])
    (h : (match enqueueWorkflow plainEnv (TestStorage.new 0) group with
      | .ok (s, _) => (Op.applyAll plainEnv firstRun s).isJob 1 (·.status = .completed) &&
          (getWorkflowStatus (Op.applyAll plainEnv firstRun s) group.id).any
            (·.status ≠ .completed)
      | .error _ => false) = true) : ¬ Progresses plainEnv (TestStorage.new 0) group := by
  intro hprogress
  obtain ⟨s, w, henq, hafter⟩ := enqueued_then group firstRun (p := fun s =>
    s.isJob 1 (·.status = .completed) &&
      (getWorkflowStatus s group.id).any (·.status ≠ .completed)) h
  obtain rfl : w = group.id := (enqueueWorkflow_ok henq).1
  rw [Bool.and_eq_true] at hafter
  obtain ⟨job, hlookup, hst⟩ := isJob_iff.1 hafter.1
  have hthen := (hprogress s group.id henq 2 (Op.trace plainEnv firstRun s) rfl
    (firstRun_advances s (hjobs ▸ List.mem_cons_self ..)) 2 (le_refl 2)).reported
  obtain ⟨report, hreport, hcompleted⟩ := hthen fun given hgiven => by
    have hid : given.id = 1 := List.mem_singleton.1 (hjobs ▸ List.mem_map_of_mem hgiven)
    exact ⟨job, hid ▸ hlookup, by simpa using hst⟩
  have hnot := hafter.2
  change (getWorkflowStatus ((Op.trace plainEnv firstRun s).state 2) group.id).any _ = true
    at hnot
  rw [hreport, Option.any_some, hcompleted] at hnot
  cases hnot

/-- The workflow of the parent job, handed in as `job`. -/
def aloneGroup (job : Job) : JobGroup := (JobGroup.new 9 0 "alone").addJob job

theorem aloneGroup_stuck {job : Job} (hid : job.id = 1) (hfree : job.dependsOn = [])
    (hvalid : (aloneGroup job).validate = some (.ok ())) (honce : job.recurring = false)
    (hsat : job.dependencyStatus ≠ .satisfied) (hstamp : (stampEnqueued job 0).scheduledAt = 0)
    (h : (match enqueueWorkflow plainEnv (TestStorage.new 0) (aloneGroup job) with
      | .ok (s, _) => s.isJob 1 idle
      | .error _ => false) = true) : (aloneGroup job).Stuck := by
  refine ⟨List.nodup_singleton _, hvalid, fun job' hjob' => ?_, ?_⟩
  · rw [List.mem_singleton.1 hjob']
    exact honce
  · exact not_progresses_of_idle rfl hid hfree hsat hstamp h

/-- A workflow that never ends, as it has no jobs to complete. -/
theorem noJobs_stuck : (JobGroup.new 9 0 "empty").Stuck := by
  refine ⟨by decide, rfl, by decide, fun hprogress => ?_⟩
  obtain ⟨s, w, henq, hafter⟩ := enqueued_then (JobGroup.new 9 0 "empty") []
    (p := fun s => (getWorkflowStatus s 9).any (·.status = .running)) (by decide +kernel)
  obtain rfl : w = 9 := (enqueueWorkflow_ok henq).1
  obtain ⟨report, hreport, hcompleted⟩ := (hprogress s 9 henq 0 (Op.trace plainEnv [] s) rfl
    (fun i hi => by omega) 0 (le_refl 0)).reported fun _ hgiven =>
      (List.not_mem_nil hgiven).elim
  change (getWorkflowStatus ((Op.trace plainEnv [] s).state 0) 9).any _ = true at hafter
  rw [hreport, Option.any_some, hcompleted] at hafter
  cases hafter

/-- The workflow of the parent job, said to have two jobs. -/
def miscountedGroup : JobGroup := { aloneGroup parentJob with totalJobs := 2 }

/-- The workflow of the parent job, cancelled before it was enqueued. -/
def cancelledGroup : JobGroup := { aloneGroup parentJob with status := .cancelled }

end Hammerwork
