/-
Nobody waits for a job that ended in failure.

A pending job whose dependency status is `Waiting` is released when its
dependencies complete, so it must fail when one of them fails: else it
waits forever. The one exception is a dependency in a workflow of the
`Manual` policy, which an operator may still retry (`NoStuckDependents`).

A job that fails by itself takes its dependents along, and theirs. A job
that fails only as a side effect does not: the siblings and batch mates
that a fail-fast policy fails, the jobs of a cancelled workflow, and a
job that is enqueued after a job that waits for it and fails on arrival,
leave the jobs that wait for them alone (`Op.Strands`). In a run without
such a step nobody is stuck (`no_stuck_dependents`).
-/
import Hammerwork.Laws.Retrying
import Hammerwork.Laws.StaleRecovery

namespace Hammerwork

open TestStorage TestQueue

-- == statement

/-- A pending job that waits for its dependencies. -/
def Job.Waiting (job : Job) : Prop := job.status = .pending ∧ job.dependencyStatus = .waiting

/-- One of the workflows leaves failures to its operator, and the job
names it or is listed by it. -/
def ManualIn (workflows : Table WorkflowId JobGroup) (workflowId : Option WorkflowId)
    (d : JobId) : Prop :=
  ∃ id workflow, workflows.lookup id = some workflow ∧ workflow.failurePolicy = .manual ∧
    (workflowId = some id ∨ d ∈ workflow.jobs.map (·.id))

namespace TestStorage

/-- The job belongs to a workflow of the `Manual` policy. -/
def BelongsToManual (s : TestStorage) (d : JobId) : Prop :=
  ManualIn s.workflows ((s.jobs.lookup d).bind (·.workflowId)) d

/-- The job is stored, and ended in failure. -/
def EndedInFailure (s : TestStorage) (d : JobId) : Prop :=
  ∃ parent, s.jobs.lookup d = some parent ∧ parent.status.EndedInFailure

/-- The stored job `k` waits, and `d` is one of its dependencies. -/
def WaitsFor (s : TestStorage) (k d : JobId) : Prop :=
  ∃ job, s.jobs.lookup k = some job ∧ job.Waiting ∧ d ∈ job.dependsOn

/-- No job waits for one that ended in failure, unless an operator may
retry that one. -/
def NoStuckDependents (s : TestStorage) : Prop :=
  ∀ k d, s.WaitsFor k d → s.EndedInFailure d → s.BelongsToManual d

-- == condition

/-- While `fails` are failed, one of `struck` is that a job waits for
which stays. -/
def LeavesWaiting (s : TestStorage) (struck fails : JobId → Prop) : Prop :=
  ∃ k d, s.WaitsFor k d ∧ struck d ∧ ¬ s.BelongsToManual d ∧ ¬ fails k

/-- The failure of `root` strands a job: it waits for a sibling or a
batch mate that is failed at once, and is not failed itself. -/
def FailureStrands (s : TestStorage) (root : JobId) : Prop :=
  s.LeavesWaiting (fun d => d ≠ root ∧ (SiblingFails s root d ∨ BatchFails s root d))
    fun k => k = root ∨ FailureTakes s root k

/-- The job `id`, put back, would wait for a job that ended in
failure. -/
def PutBackStrands (s : TestStorage) (id : JobId) : Prop :=
  ∃ job d, s.jobs.lookup id = some job ∧ job.dependencyStatus = .waiting ∧
    d ∈ job.dependsOn ∧ s.EndedInFailure d ∧ ¬ s.BelongsToManual d

/-- The arrival of `jobs` strands a job: a stored job waits for one that
fails on arrival, or a failed job somebody waits for is no longer in a
workflow of the `Manual` policy, when the workflows are `workflows` from
then on. -/
def ArrivalStrands (s : TestStorage) (jobs : List Job)
    (workflows : Table WorkflowId JobGroup) : Prop :=
  (∃ k, ∃ given ∈ jobs, s.WaitsFor k given.id ∧ s.FailsOnArrival jobs given.id ∧
    ¬ ManualIn workflows given.workflowId given.id) ∨
  ∃ d, ((∃ k, s.WaitsFor k d) ∨ ∃ given ∈ jobs, given.Waiting ∧ d ∈ given.dependsOn) ∧
    s.EndedInFailure d ∧ s.BelongsToManual d ∧
    ¬ ManualIn workflows ((s.jobs.lookup d).bind (·.workflowId)) d

/-- The jobs that cancelling the workflow fails. -/
def CancelFails (s : TestStorage) (id : WorkflowId) (k : JobId) : Prop :=
  ∃ workflow, s.workflows.lookup id = some workflow ∧
    Listed s (fun _ job => unfinished job) (workflowMembers s workflow id) k

end TestStorage

/-- Reclaiming the stale job strands a job: it is buried and its failure
does, or it is put back. -/
def StaleStrands (cron : CronLibrary) (s : TestStorage) (id : JobId) : Prop :=
  ∃ job, s.jobs.lookup id = some job ∧
    match job.fate cron s.clock with
    | .buried => s.FailureStrands id
    | _ => s.PutBackStrands id

/-- Reporting how a run ended strands a job. -/
def FinishStrands (cron : CronLibrary) (s : TestStorage) (run : Job) (outcome : JobOutcome) :
    Prop :=
  ∃ job, Current s run job ∧
    ((rerunAt cron s job outcome = none ∧ (∃ status error, Ends outcome status error) ∧
        s.FailureStrands run.id) ∨
      ((rerunAt cron s job outcome).isSome ∧ s.PutBackStrands run.id))

/-- The call strands a job. -/
def Op.Strands (env : Env) (s : TestStorage) : Op → Prop
  | enqueue job => s.ArrivalStrands [job] s.workflows
  | enqueueBatch batch => s.ArrivalStrands batch.jobs s.workflows
  | enqueueWorkflow workflow =>
      s.ArrivalStrands workflow.jobs (s.workflows.insert workflow.id workflow)
  | finishJobRun run outcome _ => FinishStrands env.cron s run outcome
  | failJob id _ =>
      s.isJob id (JobTransition.fail.isAllowedFrom ·.status) = true ∧ s.FailureStrands id
  | markJobDead id _ =>
      s.isJob id (JobTransition.markDead.isAllowedFrom ·.status) = true ∧ s.FailureStrands id
  | markJobTimedOut id _ =>
      s.isJob id (JobTransition.markTimedOut.isAllowedFrom ·.status) = true ∧
        s.FailureStrands id
  | failJobDependencies id => s.LeavesWaiting (SiblingFails s id) (PolicyFails s id)
  | cancelWorkflow id => s.LeavesWaiting (s.CancelFails id) (s.CancelFails id)
  | requeueStaleJobs queueName =>
      ∃ before run after, staleRuns s queueName = before ++ run :: after ∧
        StaleStrands env.cron (before.foldl (reclaimed env.cron s.clock) s) run.1
  | _ => False

/-- An event strands a job. -/
def Event.Strands (env : Env) (s : TestStorage) : Event → Prop
  | call op => op.Strands env s
  | rehash => False

/-- The calls of clients, workers and the reaper: none puts back an
ended job by hand, and none removes a job. The clock may be set. -/
def Op.Ordinary : Op → Prop
  | enqueue _ | enqueueBatch _ | enqueueWorkflow _ | dequeue .. | finishJobRun .. | completeJob _
  | failJob .. | markJobDead .. | markJobTimedOut .. | requeueStaleJobs _
  | failJobDependencies _ | cancelWorkflow _ | setTime _ => True
  | _ => False

def Event.Ordinary : Event → Prop
  | call op => op.Ordinary
  | rehash => True

-- == who waits

namespace TestStorage

variable {s s' t : TestStorage} {k d root : JobId} {job job' : Job} {deed : Deed}

theorem belongsToManual_of_inManual (h : InManual s d) : s.BelongsToManual d := by
  obtain ⟨workflow, hof, hmanual⟩ := h
  unfold workflowOf at hof
  split at hof
  case h_1 found hfound =>
    obtain rfl := Option.some.inj hof
    obtain ⟨id, hid, hlookup⟩ := Option.bind_eq_some_iff.1 hfound
    exact ⟨id, found, hlookup, hmanual, .inl hid⟩
  case h_2 =>
    obtain ⟨id, hlookup⟩ := Table.mem_values.1 (List.mem_of_find?_eq_some hof)
    have hlisted := List.find?_some hof
    obtain ⟨member, hmember, hid⟩ := List.any_eq_true.1 hlisted
    exact ⟨id, workflow, hlookup, hmanual,
      .inr (List.mem_map.2 ⟨member, hmember, by simpa using hid⟩)⟩

theorem SamePlaces.belongsToManual (h : SamePlaces s t) :
    t.BelongsToManual d ↔ s.BelongsToManual d := by
  have hworkflow : (t.jobs.lookup d).bind (·.workflowId)
      = (s.jobs.lookup d).bind (·.workflowId) := h.bind d _ fun job job' heq => by
    injection heq with hid heq
    injection heq with hdeps heq
    injection heq
  unfold BelongsToManual
  rw [hworkflow, h.rest.workflows]

theorem Changed.belongsToManual (h : Changed s deed s') :
    s'.BelongsToManual d ↔ s.BelongsToManual d := by
  have hworkflow : (s'.jobs.lookup d).bind (·.workflowId)
      = (s.jobs.lookup d).bind (·.workflowId) := by
    rcases h.jobs d with hsame | ⟨job, job', hlookup, hlookup', hchange⟩
    · rw [hsame]
    · rw [hlookup, hlookup']
      exact hchange.sameShape.workflowId
  unfold BelongsToManual
  rw [hworkflow, h.rest.workflows]

/-- A deed that ends no job in failure, and puts none back to wait for
one that did, strands nobody. -/
theorem NoStuckDependents.changed (h : s.NoStuckDependents) (hchanged : Changed s deed s')
    (hends : ∀ k job job', Change s deed k job job' → ¬ job'.status.EndedInFailure)
    (hwaits : ∀ k job job', s.jobs.lookup k = some job → Change s deed k job job' →
      job'.Waiting → ∀ d ∈ job.dependsOn, s.EndedInFailure d → s.BelongsToManual d) :
    s'.NoStuckDependents := by
  intro k d ⟨job', hlookup', hwaiting, hd⟩ ⟨parent, hparent, hended⟩
  rw [Changed.belongsToManual hchanged]
  have hfailed : s.EndedInFailure d := by
    rcases hchanged.jobs d with hsame | ⟨_, parent', -, hparent', hchange⟩
    · exact ⟨parent, hsame ▸ hparent, hended⟩
    · obtain rfl := Option.some.inj (hparent.symm.trans hparent')
      exact absurd hended (hends d _ _ hchange)
  rcases hchanged.jobs k with hsame | ⟨job, job'', hlookup, hlookup'', hchange⟩
  · exact h k d ⟨job', hsame ▸ hlookup', hwaiting, hd⟩ hfailed
  · obtain rfl := Option.some.inj (hlookup'.symm.trans hlookup'')
    exact hwaits k job job' hlookup hchange hwaiting d (hchange.sameShape.dependsOn ▸ hd) hfailed

-- == failures

/-- A pending job that depends on the failed one, or on one that fails
as its dependent, fails too. -/
theorem policyFails_of_waitsFor (hk : s.Keyed) (hnot : ¬ InManual s root)
    (hwaits : s.WaitsFor k d) (hd : d = root ∨ DependentFails s root d) :
    PolicyFails s root k := by
  obtain ⟨job, hlookup, hwaiting, hdep⟩ := hwaits
  by_cases hsibling : SiblingFails s root k
  · exact .inl hsibling
  · have hnext : k ∈ s.directDependents d := hk.mem_directDependents.2 (.inr ⟨job, hlookup, hdep⟩)
    have hfresh : s.isJob k canFailAsDependent = true :=
      isJob_iff.2 ⟨job, hlookup, by simp [canFailAsDependent, hwaiting.1, hwaiting.2]⟩
    refine .inr ⟨fun workflow hof hmanual => hnot ⟨workflow, hof, hmanual⟩, ?_⟩
    rcases hd with rfl | ⟨-, hreached⟩
    · exact .direct hnext ⟨hfresh, hsibling⟩
    · exact .step hreached hnext ⟨hfresh, hsibling⟩

/-- Failing jobs strands nobody, if whoever waits for a failed job is
among them, a job of a `Manual` workflow apart. -/
theorem noStuckDependents_of_sideFailures {now : DateTime} {fails : JobId → Prop}
    (h : SideFailures s s' now fails)
    (hclosed : ∀ k d, s.WaitsFor k d → s.EndedInFailure d ∨ fails d →
      s.BelongsToManual d ∨ fails k) : s'.NoStuckDependents := by
  intro k d ⟨job, hlookup, hwaiting, hdep⟩ ⟨parent, hparent, hended⟩
  rw [h.samePlaces.belongsToManual]
  have hstays : ¬ fails k := by
    intro hfails
    obtain ⟨_, _, -, -, hfailed⟩ := h.failed k hfails
    obtain rfl := Option.some.inj (hlookup.symm.trans hfailed)
    cases hwaiting.1
  have hwaits : s.WaitsFor k d := ⟨job, h.kept k hstays ▸ hlookup, hwaiting, hdep⟩
  have hfailed : s.EndedInFailure d ∨ fails d := by
    by_cases hd : fails d
    · exact .inr hd
    · exact .inl ⟨parent, h.kept d hd ▸ hparent, hended⟩
  exact (hclosed k d hwaits hfailed).resolve_right hstays

/-- A job that ends in failure, with its failure policies applied,
strands nobody unless its siblings and batch mates do. -/
theorem NoStuckDependents.failure {s₁ : TestStorage} (h : s.NoStuckDependents) (hk : s.Keyed)
    (hlookup : s.jobs.lookup root = some job) (hr : Rewrite s root job' s₁)
    (hplace : place job' = place job) (hended : job'.status.EndedInFailure)
    (hno : ¬ s.FailureStrands root) : (applyPolicies s₁ root).NoStuckDependents := by
  have hsame : SamePlaces s s₁ := hr.samePlaces hlookup hplace
  obtain ⟨hid, hdeps, hworkflow, hbatch⟩ :
      job'.id = job.id ∧ job'.dependsOn = job.dependsOn ∧ job'.workflowId = job.workflowId ∧
        job'.batchId = job.batchId := by
    injection hplace with hid hplace
    injection hplace with hdeps hplace
    injection hplace with hworkflow hbatch
    exact ⟨hid, hdeps, hworkflow, hbatch⟩
  have htakes : ∀ k, k ≠ root → (SiblingFails s₁ root k ↔ SiblingFails s root k) ∧
      (DependentFails s₁ root k ↔ DependentFails s root k) ∧
      (BatchFails s₁ root k ↔ BatchFails s root k) := fun k hne =>
    failureTakes_rewrite hk hlookup hr hid hdeps hworkflow hbatch hne
  refine noStuckDependents_of_sideFailures (failureTakes_spec s₁ root s₁.clock)
    fun k d hwaits hfailed => ?_
  rw [hsame.belongsToManual]
  -- the failed job itself does not wait
  have hne : k ≠ root := by
    intro heq
    obtain ⟨found, hfound, hwaiting, -⟩ := hwaits
    rw [heq, hr.lookup_self] at hfound
    obtain rfl := Option.some.inj hfound
    rw [hwaiting.1] at hended
    rcases hended with hended | hended | hended <;> cases hended
  have hwaits₀ : s.WaitsFor k d := by
    obtain ⟨found, hfound, hwaiting, hdep⟩ := hwaits
    exact ⟨found, hr.lookup_ne hne ▸ hfound, hwaiting, hdep⟩
  by_cases hdependent : d = root ∨ DependentFails s₁ root d
  · by_cases hmanual : InManual s₁ root
    · rcases hdependent with rfl | ⟨hpolicy, -⟩
      · exact .inl (hsame.belongsToManual.1 (belongsToManual_of_inManual hmanual))
      · obtain ⟨workflow, hof, hman⟩ := hmanual
        exact absurd hman (hpolicy workflow hof)
    · exact .inr (.inl (policyFails_of_waitsFor (hsame.keyed hk) hmanual hwaits hdependent))
  · have hd : d ≠ root := fun heq => hdependent (.inl heq)
    rcases hfailed with ⟨parent, hparent, hstatus⟩ | htaken
    · exact .inl (h k d hwaits₀ ⟨parent, hr.lookup_ne hd ▸ hparent, hstatus⟩)
    · by_cases hman : s.BelongsToManual d
      · exact .inl hman
      · right
        have hstruck : SiblingFails s root d ∨ BatchFails s root d := by
          rcases htaken with (hsibling | hdep) | hbatch
          · exact .inl ((htakes d hd).1.1 hsibling)
          · exact absurd (.inr hdep) hdependent
          · exact .inr ((htakes d hd).2.2.1 hbatch)
        have hk' : k = root ∨ FailureTakes s root k := by
          by_cases hk' : k = root ∨ FailureTakes s root k
          · exact hk'
          · exact absurd ⟨k, d, hwaits₀, ⟨hd, hstruck⟩, hman, hk'⟩ hno
        obtain ⟨hsibling, hdep, hbatch⟩ := htakes k hne
        rcases hk'.resolve_left hne with (h | h) | h
        · exact .inl (.inl (hsibling.2 h))
        · exact .inl (.inr (hdep.2 h))
        · exact .inr (hbatch.2 h)

-- == arrivals

/-- Jobs that arrive strand nobody unless they do. -/
theorem NoStuckDependents.arrived {jobs stored : List Job}
    {workflows : Table WorkflowId JobGroup} (h : s.NoStuckDependents)
    (harrival : Arrival s jobs stored) (hin : Inserted s stored s')
    (hworkflows : ∀ workflowId d, ManualIn workflows workflowId d →
      ManualIn s'.workflows workflowId d)
    (hno : ¬ s.ArrivalStrands jobs workflows) : s'.NoStuckDependents := by
  intro k d ⟨job, hlookup, hwaiting, hdep⟩ ⟨parent, hparent, hended⟩
  apply hworkflows
  rw [hparent]
  have hfailed : stateOfStatus parent.status = .failed := by
    rcases hended with hended | hended | hended <;> rw [hended] <;> rfl
  rcases hin.lookup_cases hparent with ⟨hnew, hid⟩ | ⟨hout, hold⟩
  · rcases hin.lookup_cases hlookup with ⟨hmem, hjob⟩ | ⟨-, hstored⟩
    · -- both arrive: the settling has failed the one that waits
      exfalso
      obtain ⟨hstate, -⟩ := harrival.waits job hmem hwaiting.2 (List.ne_nil_of_mem hdep)
      have hfind : stored.reverse.find? (·.id = d) = some parent := by
        have hlookup' := hin.jobs d
        cases hfind : stored.reverse.find? (·.id = d) with
        | none =>
            have hnot := List.find?_eq_none.1 hfind parent (List.mem_reverse.2 hnew)
            exact absurd hid (by simpa using hnot)
        | some found =>
            rw [hfind, hparent] at hlookup'
            exact hlookup'.symm
      refine hstate d hdep ?_
      unfold arrivalState
      rw [hfind]
      exact hfailed
    · obtain ⟨given, hgiven, harrives⟩ := mem_of_forall₂ harrival.each hnew
      have hdoomed := harrival.fails parent hnew hfailed
      rw [harrives.keeps.id] at hdoomed
      have hidgiven : given.id = d := harrives.keeps.id.symm.trans hid
      show ManualIn workflows parent.workflowId d
      rw [harrives.keeps.workflowId, ← hidgiven]
      by_contra hman
      exact hno (.inl ⟨k, given, hgiven, ⟨job, hstored, hwaiting, hidgiven ▸ hdep⟩, hdoomed, hman⟩)
  · have hstays : s.EndedInFailure d := ⟨parent, hold, hended⟩
    have hmanual : s.BelongsToManual d := by
      rcases hin.lookup_cases hlookup with ⟨hmem, hjob⟩ | ⟨-, hstored⟩
      · obtain ⟨hstate, -⟩ := harrival.waits job hmem hwaiting.2 (List.ne_nil_of_mem hdep)
        have hfind : stored.reverse.find? (·.id = d) = none := by
          refine List.find?_eq_none.2 fun found hfound => ?_
          simpa using fun heq : found.id = d =>
            hout (List.mem_map.2 ⟨found, List.mem_reverse.1 hfound, heq⟩)
        have hnot := hstate d hdep
        unfold arrivalState at hnot
        rw [hfind, hold] at hnot
        refine belongsToManual_of_inManual ?_
        by_contra hman
        refine hnot ?_
        have hany : (s.workflowOf d).any (·.failurePolicy = .manual) = false := by
          rw [← Bool.not_eq_true, Option.any_eq_true]
          intro ⟨workflow, hof, hpolicy⟩
          exact hman ⟨workflow, hof, by simpa using hpolicy⟩
        show ((some parent).map (s.parentState d)).getD .unfinished = .failed
        rcases hended with hended | hended | hended <;> simp [parentState, hended, hany]
      · exact h k d ⟨job, hstored, hwaiting, hdep⟩ hstays
    by_contra hman
    refine hno (.inr ⟨d, ?_, hstays, hmanual, by rwa [hold]⟩)
    rcases hin.lookup_cases hlookup with ⟨hmem, hjob⟩ | ⟨-, hstored⟩
    · obtain ⟨given, hgiven, harrives⟩ := mem_of_forall₂ harrival.each hmem
      refine .inr ⟨given, hgiven, ?_, harrives.keeps.dependsOn ▸ hdep⟩
      cases harrives.settled with
      | unchanged hst hdepst => exact ⟨hst ▸ hwaiting.1, hdepst ▸ hwaiting.2⟩
      | satisfied _ _ _ _ hsat => rw [hwaiting.2] at hsat; cases hsat
      | failed _ _ _ _ hst => rw [hwaiting.1] at hst; cases hst
    · exact .inl ⟨k, job, hstored, hwaiting, hdep⟩

-- == put back

/-- A job put back strands nobody unless it waits for a failed job. -/
theorem NoStuckDependents.putBack (h : s.NoStuckDependents) (hlookup : s.jobs.lookup k = some job)
    (hr : Rewrite s k job' s') (hplace : place job' = place job) (hpending : job'.status = .pending)
    (hno : job'.dependencyStatus = .waiting → ∀ d ∈ job.dependsOn, s.EndedInFailure d →
      s.BelongsToManual d) : s'.NoStuckDependents := by
  have hdeps : job'.dependsOn = job.dependsOn := by
    injection hplace with hid hplace
    injection hplace
  intro x d ⟨found, hfound, hwaiting, hdep⟩ ⟨parent, hparent, hended⟩
  rw [(hr.samePlaces hlookup hplace).belongsToManual]
  have hd : d ≠ k := by
    intro heq
    rw [heq, hr.lookup_self] at hparent
    obtain rfl := Option.some.inj hparent
    rw [hpending] at hended
    rcases hended with hended | hended | hended <;> cases hended
  have hfailed : s.EndedInFailure d := ⟨parent, hr.lookup_ne hd ▸ hparent, hended⟩
  by_cases hx : x = k
  · rw [hx, hr.lookup_self] at hfound
    obtain rfl := Option.some.inj hfound
    exact hno hwaiting.2 d (hdeps ▸ hdep) hfailed
  · exact h x d ⟨found, hr.lookup_ne hx ▸ hfound, hwaiting, hdep⟩ hfailed

theorem manual_of_not_putBackStrands (hno : ¬ s.PutBackStrands k)
    (hlookup : s.jobs.lookup k = some job) (hwaiting : job.dependencyStatus = .waiting) :
    ∀ d ∈ job.dependsOn, s.EndedInFailure d → s.BelongsToManual d := by
  intro d hd hfailed
  by_contra hman
  exact hno ⟨job, d, hlookup, hwaiting, hd, hfailed, hman⟩

/-- A retried job waits for no failed job: its dependencies were judged
again. -/
theorem not_failed_of_reevaluated {action : String} {status : Option DependencyStatus}
    (h : reevaluated s job action = .ok status)
    (hwaiting : status.getD job.dependencyStatus = .waiting) (hd : d ∈ job.dependsOn) :
    ¬ s.EndedInFailure d := by
  intro ⟨parent, hparent, hended⟩
  rcases reevaluated_ok_iff.1 h with ⟨hempty, -⟩ | ⟨-, -, rfl⟩ | ⟨-, -, all, hcheck, rfl⟩
  · rw [hempty] at hd
    cases hd
  · cases hwaiting
  · obtain ⟨hok, -⟩ := checkDependencies_states.1 hcheck
    obtain ⟨st, hst, hnot⟩ := hok d hd
    unfold statusWithArchived at hst
    rw [hparent] at hst
    have hstatus : parent.status = st := by
      rcases hended with hended | hended | hended <;> simpa [hended] using hst
    exact hnot (hstatus ▸ hended)

theorem NoStuckDependents.congr (h : s.NoStuckDependents)
    (hjobs : ∀ k, s'.jobs.lookup k = s.jobs.lookup k)
    (hworkflows : ∀ workflowId d, ManualIn s.workflows workflowId d →
      ManualIn s'.workflows workflowId d) : s'.NoStuckDependents := by
  intro k d ⟨job, hlookup, hwaiting, hdep⟩ ⟨parent, hparent, hended⟩
  apply hworkflows
  rw [hjobs]
  exact h k d ⟨job, hjobs k ▸ hlookup, hwaiting, hdep⟩ ⟨parent, hjobs d ▸ hparent, hended⟩

end TestStorage

/-- A workflow may change in other ways than its policy and its list of
jobs. -/
theorem ManualIn.mono {workflows workflows' : Table WorkflowId JobGroup}
    {workflowId : Option WorkflowId} {d : JobId} (h : ManualIn workflows workflowId d)
    (hkept : ∀ id workflow, workflows.lookup id = some workflow →
      ∃ workflow', workflows'.lookup id = some workflow' ∧
        workflow'.failurePolicy = workflow.failurePolicy ∧
        workflow'.jobs.map (·.id) = workflow.jobs.map (·.id)) :
    ManualIn workflows' workflowId d := by
  obtain ⟨id, workflow, hlookup, hmanual, hmember⟩ := h
  obtain ⟨workflow', hlookup', hpolicy, hids⟩ := hkept id workflow hlookup
  exact ⟨id, workflow', hlookup', hpolicy.trans hmanual, hids ▸ hmember⟩

-- == calls

namespace TestQueue

variable {env : Env} {s s' t : TestStorage} {k d : JobId} {run job : Job}

theorem not_endedInFailure_pending : ¬ JobStatus.EndedInFailure .pending := by
  intro hended
  rcases hended with hended | hended | hended <;> cases hended

theorem noStuck_claimed (h : s.NoStuckDependents) {id : JobId}
    (hchanged : Changed s (.claim id) s') : s'.NoStuckDependents := by
  refine h.changed hchanged (fun x job job' hchange => ?_) fun x job job' _ hchange hwaits => ?_
  · cases hchange
    intro hended
    rcases hended with hended | hended | hended <;> cases hended
  · cases hchange
    cases hwaits.1

theorem noStuck_completed (h : s.NoStuckDependents) {id : JobId}
    (hchanged : Changed s (.complete id) s') : s'.NoStuckDependents := by
  refine h.changed hchanged (fun x job job' hchange => ?_) fun x job job' _ hchange hwaits => ?_
  · cases hchange
    intro hended
    rcases hended with hended | hended | hended <;> cases hended
  · cases hchange
    cases hwaits.1

/-- A released job waits no longer. -/
theorem noStuck_resolved (h : s.NoStuckDependents) (hchanged : Changed s .resolve s') :
    s'.NoStuckDependents := by
  refine h.changed hchanged (fun x job job' hchange => ?_) fun x job job' _ hchange hwaits => ?_
  · cases hchange with
    | resolve hheld _ =>
        have hst : job.status = .pending := by
          unfold held at hheld
          simp only [Bool.and_eq_true, decide_eq_true_eq] at hheld
          exact hheld.1
        show ¬ job.status.EndedInFailure
        rw [hst]
        exact not_endedInFailure_pending
  · cases hchange with
    | resolve _ _ =>
        have hdep := hwaits.2
        unfold release at hdep
        dsimp only at hdep
        split at hdep
        · cases hdep
        · next hnot => exact absurd hdep hnot

/-- Reporting how a run ended strands nobody unless it does. -/
theorem noStuck_finish {cron : CronLibrary} {outcome : JobOutcome} {wall : DateTime}
    {result : Result (Option RecordedOutcome)} (hk : s.Keyed) (h : s.NoStuckDependents)
    (hno : ¬ FinishStrands cron s run outcome) (hfinish : Finish cron s run outcome wall result) :
    result.2.NoStuckDependents := by
  cases hfinish with
  | stale => exact h
  | refused => exact h
  | @completed _ job s₁ hcur hnext hr =>
      have hallowed : JobTransition.complete.isAllowedFrom job.status = true := by
        rw [hcur.status]
        rfl
      have hid : job.id = run.id := hk run.id job hcur.lookup
      have hkeyed : s₁.Keyed := hr.keyed hid hk
      have hcompleted := noStuck_completed h (.of_rewrite hcur.lookup hr (.complete hallowed))
      have hresolved := resolveDependents_changed hkeyed run.id
      rw [hr.rest.clock] at hresolved
      exact noStuck_resolved hcompleted hresolved
  | @rerun _ next job _ hcur hnext hr =>
      have hno' : ¬ s.PutBackStrands run.id := fun hback =>
        hno ⟨job, hcur, .inr ⟨by rw [hnext]; rfl, hback⟩⟩
      exact h.putBack hcur.lookup hr rfl rfl
        fun hwaiting => manual_of_not_putBackStrands hno' hcur.lookup hwaiting
  | @retried _ _ _ _ job status s₁ _ hcur hjudged hr hr' =>
      exact h.putBack hcur.lookup (hr.trans hr') rfl rfl
        fun hwaiting d hd hfailed => absurd hfailed (not_failed_of_reevaluated hjudged hwaiting hd)
  | @ended _ _ status error job s₁ _ hends hcur hnext hr =>
      have hfailed : status.EndedInFailure := by
        cases hends with
        | dead => exact .inr (.inl rfl)
        | timedOut => exact .inr (.inr rfl)
      exact h.failure hk hcur.lookup hr rfl hfailed fun hstrands =>
        hno ⟨job, hcur, .inl ⟨hnext, ⟨status, error, hends⟩, hstrands⟩⟩
  | @endedRerun _ _ next status error job _ recorded hends hcur hnext hr =>
      have hno' : ¬ s.PutBackStrands run.id := fun hback =>
        hno ⟨job, hcur, .inr ⟨by rw [hnext]; rfl, hback⟩⟩
      exact h.putBack hcur.lookup hr rfl rfl
        fun hwaiting => manual_of_not_putBackStrands hno' hcur.lookup hwaiting

-- == the stale runs

/-- Reclaiming one stale run strands nobody unless it does. -/
theorem noStuck_reclaimed (cron : CronLibrary) {run : JobId × Bool} (hk : s.Keyed)
    (h : s.NoStuckDependents) (hlookup : s.jobs.lookup run.1 = some job)
    (hrun : run.2 = decide (job.maxAttempts ≤ job.attempts))
    (hno : ¬ StaleStrands cron s run.1) :
    (reclaimed cron s.clock s run).Keyed ∧
      (reclaimed cron s.clock s run).NoStuckDependents := by
  obtain ⟨id, exhausted⟩ := run
  obtain rfl : exhausted = decide (job.maxAttempts ≤ job.attempts) := hrun
  have hid : job.id = id := hk id job hlookup
  rcases reclaimed_by_fate hlookup cron with ⟨hfate, hsettles⟩ | ⟨hfate, s₁, hsettles, heq⟩
  · -- the run is put back
    have hplace : place (job.after s.clock (job.fate cron s.clock)) = place job :=
      place_after s.clock job _
    have hputBack : ¬ s.PutBackStrands id := by
      intro hback
      refine hno ⟨job, hlookup, ?_⟩
      cases hf : job.fate cron s.clock with
      | buried => exact absurd hf hfate
      | requeued | rescheduled => exact hback
    refine ⟨(hsettles.rewrite.samePlaces hlookup hplace).keyed hk, ?_⟩
    refine h.putBack hlookup hsettles.rewrite hplace ?_ fun hwaiting => ?_
    · cases hf : job.fate cron s.clock with
      | buried => exact absurd hf hfate
      | requeued | rescheduled => rfl
    · refine manual_of_not_putBackStrands hputBack hlookup ?_
      rw [← hwaiting]
      cases job.fate cron s.clock <;> rfl
  · rw [heq]
    refine ⟨(failureTakes_spec s₁ id s₁.clock).keyed (hsettles.rewrite.keyed hid hk), ?_⟩
    refine h.failure hk hlookup hsettles.rewrite rfl (.inr (.inl rfl)) fun hstrands => ?_
    refine hno ⟨job, hlookup, ?_⟩
    rw [hfate]
    exact hstrands

/-- Reclaiming the stale runs, one after the other. -/
theorem noStuck_requeueStaleJobs {cron : CronLibrary} {queueName : Option String}
    (hk : s.Keyed) (h : s.NoStuckDependents)
    (hno : ∀ before run after, staleRuns s queueName = before ++ run :: after →
      ¬ StaleStrands cron (before.foldl (reclaimed cron s.clock) s) run.1) :
    (requeueStaleJobs cron s queueName).2.NoStuckDependents := by
  rw [requeueStaleJobs_snd hk]
  have hpasses : ∀ (after before : List (JobId × Bool)),
      staleRuns s queueName = before ++ after →
      (before.foldl (reclaimed cron s.clock) s).Keyed →
      (before.foldl (reclaimed cron s.clock) s).NoStuckDependents →
      ((before ++ after).foldl (reclaimed cron s.clock) s).NoStuckDependents := by
    intro after
    induction after with
    | nil =>
        intro before _ _ hbefore
        rwa [List.append_nil]
    | cons run after ih =>
        intro before hsplit hkeyed hbefore
        -- the run to reclaim is as it was, and so is the clock
        obtain ⟨job, -, -, hrun, hkept, hregisters⟩ :=
          staleRuns_kept cron hk hsplit (List.mem_cons_self ..)
        have hone := noStuck_reclaimed cron hkeyed hbefore hkept hrun
          (hno before run after hsplit)
        rw [hregisters.clock] at hone
        have hnext := ih (before ++ [run]) (by rw [hsplit, List.append_assoc]; rfl)
        rw [List.foldl_append, List.append_assoc] at hnext
        exact hnext hone.1 hone.2
  have hall := hpasses (staleRuns s queueName) [] rfl hk h
  rwa [List.nil_append] at hall

end TestQueue

/-- A call strands nobody unless it does. -/
theorem Op.noStuckDependents {env : Env} {s : TestStorage} {op : Op} (hk : s.Keyed)
    (h : s.NoStuckDependents) (hop : op.Ordinary) (hno : ¬ op.Strands env s) :
    (op.apply env s).2.NoStuckDependents := by
  cases op
  case enqueue job =>
    unfold Op.apply
    rw [reply_snd]
    refine commit_elim h fun s' id hok => ?_
    obtain ⟨⟨stored, harrival, hin⟩, hreg⟩ := enqueue_enqueued hok
    exact h.arrived harrival hin (fun _ _ hman => hreg.workflows ▸ hman) hno
  case enqueueBatch batch =>
    unfold Op.apply
    rw [reply_snd]
    refine commit_elim h fun s' id hok => ?_
    obtain ⟨stored, harrival, hin⟩ := enqueueBatch_enqueued hok
    obtain ⟨-, _, inserted, -, -, rfl⟩ := enqueueBatch_ok hok
    refine h.arrived harrival hin (fun _ _ hman => ?_) hno
    have hreg := (insertJobs_inserted inserted s).2
    show ManualIn (insertJobs inserted s).workflows _ _
    rwa [hreg.workflows]
  case enqueueWorkflow workflow =>
    unfold Op.apply
    rw [reply_snd]
    refine commit_elim h fun s' id hok => ?_
    obtain ⟨stored, harrival, hin⟩ := enqueueWorkflow_enqueued hok
    obtain ⟨⟨group, hids, -, hterms, hlookup⟩, -⟩ := enqueueWorkflow_group hok
    refine h.arrived harrival hin (fun _ _ hman => hman.mono fun id found hfound => ?_) hno
    rw [Table.lookup_insert_if] at hfound
    rw [hlookup]
    split at hfound
    case isTrue heq =>
      obtain rfl := Option.some.inj hfound
      exact ⟨group, if_pos heq, hterms.policy, hids⟩
    case isFalse hne => exact ⟨found, (if_neg hne).trans hfound, rfl, rfl⟩
  case dequeue queueName weights lease maxJobs =>
    have hwrites : Writes ((Op.dequeue queueName weights lease maxJobs).Allows env s) s
        ((Op.dequeue queueName weights lease maxJobs).apply env s).2 := Op.writes hk _
    refine hwrites.preserves (fun t w t' hw hwrite ht => ?_) h
    obtain ⟨id, -, rfl⟩ := hw
    cases hwrite with
    | deed hchanged => exact noStuck_claimed ht hchanged
  case finishJobRun run outcome wall =>
    unfold Op.apply
    rw [reply_snd]
    exact noStuck_finish hk h hno (finishJobRun_spec env.cron s run outcome wall)
  case completeJob id =>
    have hwrites : Writes ((Op.completeJob id).Allows env s) s
        ((Op.completeJob id).apply env s).2 := Op.writes hk _
    refine hwrites.preserves (fun t w t' hw hwrite ht => ?_) h
    rcases hw with rfl | rfl
    · cases hwrite with
      | deed hchanged => exact noStuck_completed ht hchanged
    · cases hwrite with
      | deed hchanged => exact noStuck_resolved ht hchanged
  case failJob id error =>
    unfold Op.apply
    rw [reply_snd]
    refine commit_elim h fun s' _ hok => ?_
    obtain ⟨job, s₁, hlookup, hallowed, hr, rfl⟩ := failJob_ok hok
    exact h.failure hk hlookup hr rfl (.inl rfl) fun hstrands =>
      hno ⟨isJob_iff.2 ⟨job, hlookup, hallowed⟩, hstrands⟩
  case markJobDead id error =>
    unfold Op.apply
    rw [reply_snd]
    refine commit_elim h fun s' _ hok => ?_
    obtain ⟨⟨s₂, ids⟩, hended, hret⟩ := bind_eq_ok.1 hok
    obtain rfl : s₂ = s' := (Prod.mk.inj (pure_eq_ok.1 hret)).1
    obtain ⟨job, s₁, hlookup, hallowed, hr, rfl⟩ := endWithFailure_ok hended
    exact h.failure hk hlookup hr rfl (.inr (.inl rfl)) fun hstrands =>
      hno ⟨isJob_iff.2 ⟨job, hlookup, hallowed⟩, hstrands⟩
  case markJobTimedOut id error =>
    unfold Op.apply
    rw [reply_snd]
    refine commit_elim h fun s' _ hok => ?_
    obtain ⟨⟨s₂, ids⟩, hended, hret⟩ := bind_eq_ok.1 hok
    obtain rfl : s₂ = s' := (Prod.mk.inj (pure_eq_ok.1 hret)).1
    obtain ⟨job, s₁, hlookup, hallowed, hr, rfl⟩ := endWithFailure_ok hended
    exact h.failure hk hlookup hr rfl (.inr (.inr rfl)) fun hstrands =>
      hno ⟨isJob_iff.2 ⟨job, hlookup, hallowed⟩, hstrands⟩
  case requeueStaleJobs queueName =>
    unfold Op.apply
    rw [reply_snd]
    exact noStuck_requeueStaleJobs hk h fun before run after hsplit hstrands =>
      hno ⟨before, run, after, hsplit, hstrands⟩
  case failJobDependencies id =>
    refine noStuckDependents_of_sideFailures (applyWorkflowFailure_spec s id s.clock)
      fun k d hwaits hd => ?_
    by_cases hman : s.BelongsToManual d
    · exact .inl hman
    · right
      rcases hd with hended | hsibling | hdependent
      · exact absurd (h k d hwaits hended) hman
      · by_contra hstays
        exact hno ⟨k, d, hwaits, hsibling, hman, hstays⟩
      · exact policyFails_of_waitsFor hk
          (fun ⟨workflow, hof, hpolicy⟩ => hdependent.1 workflow hof hpolicy) hwaits
          (.inr hdependent)
  case cancelWorkflow id =>
    unfold Op.apply
    rw [reply_snd]
    refine commit_elim h fun s' _ hok => ?_
    obtain ⟨⟨group, hgroup, hlookup⟩, -⟩ := cancelWorkflow_group hok
    unfold TestQueue.cancelWorkflow at hok
    rw [hgroup] at hok
    have hfail := (failEach_spec (p := fun _ job => unfinished job) (fun _ _ h => h)
      workflowCancelledMessage s.clock (workflowMembers s group id) s).1
    have hfailed : (failEach (fun _ job => unfinished job) workflowCancelledMessage s.clock
        (workflowMembers s group id) s).1.NoStuckDependents := by
      refine noStuckDependents_of_sideFailures hfail fun k d hwaits hd => ?_
      by_cases hman : s.BelongsToManual d
      · exact .inl hman
      · right
        rcases hd with hended | hlisted
        · exact absurd (h k d hwaits hended) hman
        · by_contra hstays
          refine hno ⟨k, d, hwaits, ⟨group, hgroup, hlisted⟩, hman, ?_⟩
          intro ⟨found, hfound, hk'⟩
          obtain rfl := Option.some.inj (hgroup.symm.trans hfound)
          exact hstays hk'
    injection hok with hok
    obtain rfl := (Prod.mk.inj hok).1
    refine hfailed.congr (fun k => rfl) fun workflowId d hman => hman.mono fun w found hfound => ?_
    rw [hfail.rest.workflows] at hfound
    rw [hlookup]
    by_cases hw : w = id
    · subst hw
      obtain rfl := Option.some.inj (hgroup.symm.trans hfound)
      exact ⟨_, if_pos rfl, rfl, rfl⟩
    · exact ⟨found, (if_neg hw).trans hfound, rfl, rfl⟩
  case setTime time => exact h.congr (fun _ => rfl) fun _ _ hman => hman
  all_goals cases hop

/-- So does a step. -/
theorem Step.noStuckDependents {env : Env} {s s' : TestStorage} {e : Event}
    (hstep : Step env s e s') (hk : s.Keyed) (h : s.NoStuckDependents) (hordinary : e.Ordinary)
    (hno : ¬ e.Strands env s) : s'.NoStuckDependents := by
  cases hstep with
  | call op => exact Op.noStuckDependents hk h hordinary hno
  | rehash hsame =>
      refine h.congr (fun k => (hsame.jobs.lookup_congr k).symm) fun _ _ hman =>
        hman.mono fun id workflow hlookup => ⟨workflow, ?_, rfl, rfl⟩
      exact (hsame.workflows.lookup_congr id).symm.trans hlookup

-- == the law

/-- In a run from the empty queue, with every id used once, in which no
step strands a job, no job ever waits for one that ended in failure. -/
theorem no_stuck_dependents {env : Env} {n : Nat} (r : Run (Step env) n) {clock : DateTime}
    (h0 : r.state 0 = TestStorage.new clock) (hordinary : ∀ i < n, (r.event i).Ordinary)
    (hno : ∀ i < n, ¬ (r.event i).Strands env (r.state i)) :
    ∀ i ≤ n, (r.state i).NoStuckDependents := by
  intro i hi
  refine r.stable (m := 0) ?_ (fun j _ hj hstep h => ?_) i (Nat.zero_le i) hi
  · rw [h0]
    intro k d ⟨job, hlookup, _⟩
    cases hlookup
  · exact hstep.noStuckDependents (run_keyed r h0 j (by omega)) h (hordinary j hj) (hno j hj)

/-- What all stored jobs satisfy a job that is looked up does. -/
private theorem of_values {s : TestStorage} {p : Job → Bool} (h : s.jobs.values.all p = true)
    {k : JobId} {job : Job} (hlookup : s.jobs.lookup k = some job) : p job = true :=
  List.all_eq_true.1 h job (mem_values_iff.2 ⟨k, hlookup⟩)

/-- Two jobs, one waiting for the other, which fails. -/
def parentFails : List Op :=
  [.enqueue parentJob, .enqueue dependentJob, .failJob 1 "no mailbox"]

theorem no_stuck_dependents_parent :
    (Op.applyAll plainEnv parentFails (TestStorage.new 0)).NoStuckDependents := by
  rw [← Op.trace_last]
  refine no_stuck_dependents (Op.trace plainEnv parentFails (TestStorage.new 0)) rfl
    (fun i hi => ?_) (fun i hi => ?_) 3 (le_refl 3)
  · match i, hi with
    | 0, _ | 1, _ | 2, _ => exact trivial
  · have hcalm : ∀ (s : TestStorage) (jobs : List Job),
        (s.jobs.values.all fun job => job.status = .pending && job.dependsOn.isEmpty) = true →
          ¬ s.ArrivalStrands jobs s.workflows := by
      intro s jobs hall hstrands
      rcases hstrands with ⟨k, given, -, ⟨job, hlookup, -, hdep⟩, -⟩ |
        ⟨d, -, ⟨parent, hlookup, hended⟩, -⟩
      · have hjob := of_values hall hlookup
        simp only [Bool.and_eq_true, List.isEmpty_iff] at hjob
        rw [hjob.2] at hdep
        cases hdep
      · have hjob := of_values hall hlookup
        simp only [Bool.and_eq_true, decide_eq_true_eq] at hjob
        rw [hjob.1] at hended
        exact not_endedInFailure_pending hended
    match i, hi with
    | 0, _ => exact hcalm _ _ rfl
    | 1, _ => exact hcalm _ _ (by decide +kernel)
    | 2, _ =>
        intro ⟨_, k, d, _, ⟨_, hstruck⟩, _⟩
        rcases hstruck with ⟨workflow, hof, -⟩ | ⟨batchId, hbatch, -⟩
        · have hnone : (((Op.trace plainEnv parentFails (TestStorage.new 0)).state 2).workflowOf
              1).isNone = true := by decide +kernel
          rw [hof] at hnone
          cases hnone
        · have hnone : ((((Op.trace plainEnv parentFails (TestStorage.new 0)).state 2).jobs.lookup
              1).bind (·.batchId)).isNone = true := by decide +kernel
          rw [hbatch] at hnone
          cases hnone

/-- Two jobs of a fail-fast workflow, and one outside that waits for the
second; the first fails. -/
def siblingFails : List Op :=
  [.enqueueWorkflow (((JobGroup.new 7 0 "onboarding").addJob parentJob).addJob sibling),
    .enqueue ((Job.new 4 0 "mail" .null).addDependsOn 3), .failJob 1 "no mailbox"]
where
  sibling : Job := Job.new 3 0 "mail" .null

/-- The job outside waits for a job that failed as a sibling. -/
theorem stuck_behind_sibling :
    ¬ (Op.applyAll plainEnv siblingFails (TestStorage.new 0)).NoStuckDependents := by
  intro h
  have hwaits : ((Op.applyAll plainEnv siblingFails (TestStorage.new 0)).isJob 4 fun job =>
      job.status = .pending && job.dependencyStatus = .waiting && job.dependsOn.contains 3)
        = true := by decide +kernel
  have hfailed : (Op.applyAll plainEnv siblingFails (TestStorage.new 0)).isJob 3
      (·.status = .failed) = true := by decide +kernel
  have hpolicy : ((Op.applyAll plainEnv siblingFails (TestStorage.new 0)).workflows.values.all
      (·.failurePolicy ≠ .manual)) = true := by decide +kernel
  obtain ⟨job, hlookup, hjob⟩ := isJob_iff.1 hwaits
  obtain ⟨parent, hparent, hst⟩ := isJob_iff.1 hfailed
  simp only [Bool.and_eq_true, decide_eq_true_eq, List.contains_iff_mem] at hjob hst
  obtain ⟨id, workflow, hworkflow, hmanual, -⟩ :=
    h 4 3 ⟨job, hlookup, hjob.1, hjob.2⟩ ⟨parent, hparent, .inl hst⟩
  have hnot := List.all_eq_true.1 hpolicy workflow (Table.mem_values.2 ⟨id, hworkflow⟩)
  simp [hmanual] at hnot

end Hammerwork
