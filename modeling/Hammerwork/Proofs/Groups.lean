/-
Workflows, batches and recorded dependencies, and the calls that change
them.

Most calls change jobs only: the groups a failure policy or a status
looks at are as they were (`SameGroups`, `Op.sameGroups`). The others
change them in one place each. A batch or a workflow is stored under its
id when it is enqueued, a cancellation marks one workflow, and the
children of a run are added to the workflows they name
(`enqueueChildren_workflow`).
-/
import Hammerwork.Proofs.Fresh
import Hammerwork.Proofs.Leases

namespace Hammerwork

open TestStorage TestQueue

variable {s s' s'' : TestStorage} {env : Env} {k : JobId} {w : WorkflowId} {job : Job}

-- == same groups

/-- The same workflows, batches and recorded dependencies. -/
structure SameGroups (s s' : TestStorage) : Prop where
  workflows : ∀ w, s'.workflows.lookup w = s.workflows.lookup w
  batches : s'.batches = s.batches
  batchJobs : s'.batchJobs = s.batchJobs
  dependencies : s'.dependencies = s.dependencies
  dependents : s'.dependents = s.dependents

theorem SameGroups.refl (s : TestStorage) : SameGroups s s :=
  ⟨fun _ => rfl, rfl, rfl, rfl, rfl⟩

theorem TestStorage.SameRegisters.groups (h : SameRegisters s s') : SameGroups s s' :=
  ⟨fun w => by rw [h.workflows], h.batches, h.batchJobs, h.dependencies, h.dependents⟩

/-- The calls that change no group. -/
def Op.KeepsGroups : Op → Prop
  | enqueueBatch _ | enqueueWorkflow _ | completeJobRunWithChildren .. | cancelWorkflow _ => False
  | deleteJob _ | deleteBatch _ | purgeDeadJobs _ | purgeArchivedJobs _
  | purgeArchivedJobsInQueue .. | purgeExpiredEncryptedJobs => False
  | _ => True

-- == sections

theorem applyPolicies_registers (s : TestStorage) (id : JobId) :
    SameRegisters s (applyPolicies s id) :=
  (failureTakes_spec s id s.clock).rest

theorem finishJobRun_registers (hk : s.Keyed) (cron : CronLibrary) (run : Job)
    (outcome : JobOutcome) (wall : DateTime) :
    SameRegisters s (finishJobRun cron s run outcome wall).2 := by
  have h := finishJobRun_spec cron s run outcome wall
  generalize finishJobRun cron s run outcome wall = out at h
  cases h with
  | stale => exact .refl s
  | @completed _ job s₁ hcur _ hr =>
      have hk₁ : s₁.Keyed := hr.keyed (hk run.id job hcur.lookup) hk
      exact hr.rest.trans (resolveDependents_spec hk₁ run.id s.clock).1.rest
  | rerun _ _ hr => exact hr.rest
  | refused => exact .refl s
  | retried _ _ hr hr' => exact hr.rest.trans hr'.rest
  | ended _ _ _ hr => exact hr.rest.trans (applyPolicies_registers _ run.id)
  | endedRerun _ _ _ hr => exact hr.rest

theorem endWithFailure_registers {status : JobStatus} {error : String} {applyPolicy : Bool}
    {ids : List JobId} (h : endWithFailure s k status error applyPolicy = .ok (s', ids)) :
    SameRegisters s s' := by
  obtain ⟨job, s₁, -, -, hr, rfl⟩ := endWithFailure_ok h
  split
  · exact hr.rest.trans (applyPolicies_registers s₁ k)
  · exact hr.rest

theorem claimEach_registers (lease : Duration) (ids : List JobId) : ∀ s : TestStorage,
    SameRegisters s (claimEach lease ids s).2 := by
  induction ids with
  | nil => exact fun s => .refl s
  | cons id ids ih =>
      intro s
      rw [claimEach]
      cases hclaim : claim s id lease with
      | error e => exact .refl s
      | ok out =>
          obtain ⟨s₁, claimed⟩ := out
          obtain ⟨job₀, -, hr, -⟩ := claim_ok hclaim
          have hrest := ih s₁
          dsimp only
          generalize claimEach lease ids s₁ = out at hrest ⊢
          obtain ⟨result, s₂⟩ := out
          cases result <;> exact hr.rest.trans hrest

theorem reclaimed_registers {cron : CronLibrary} {e : JobId × Bool}
    (hstored : (s.jobs.lookup e.1).isSome) : SameRegisters s (reclaimed cron s.clock s e) := by
  have hlease : SameRegisters s (s.removeLease e.1) := rfl
  rcases reclaimed_cases cron s.clock hstored with ⟨-, h⟩ | ⟨-, h⟩
  · obtain ⟨job, -, ⟨-, next, -, hr⟩ | ⟨-, s₁, hr, hs'⟩⟩ :=
      buryStale_ok (s := s.removeLease e.1) h
    · exact hlease.trans hr.rest
    · rw [hs']
      exact (hlease.trans hr.rest).trans (applyPolicies_registers s₁ e.1)
  · obtain ⟨job, -, hr⟩ := requeueStale_ok h
    exact hlease.trans hr.rest

theorem foldl_reclaimed_registers {cron : CronLibrary} {now : DateTime}
    (stale : List (JobId × Bool)) : ∀ s : TestStorage, s.clock = now →
    (∀ e ∈ stale, (s.jobs.lookup e.1).isSome) →
      SameRegisters s (stale.foldl (reclaimed cron now) s) := by
  induction stale with
  | nil => exact fun s _ _ => .refl s
  | cons e stale ih =>
      intro s hnow hstored
      subst hnow
      have hone := hstored e (List.mem_cons_self ..)
      have hreg : SameRegisters s (reclaimed cron s.clock s e) := reclaimed_registers hone
      have hquiet : Quiet s (reclaimed cron s.clock s e) := reclaimed_quiet hone
      refine hreg.trans (ih _ hreg.clock fun e' he' => ?_)
      exact (hquiet.stored e'.1).trans (hstored e' (List.mem_cons_of_mem _ he'))

theorem requeueStaleJobs_registers (hk : s.Keyed) (cron : CronLibrary)
    (queueName : Option String) : SameRegisters s (requeueStaleJobs cron s queueName).2 := by
  rw [(requeueStaleJobs_eq hk cron queueName).1]
  refine foldl_reclaimed_registers _ s rfl fun e he => ?_
  obtain ⟨job, hlookup, -⟩ := mem_stale hk he
  rw [hlookup]
  rfl

/-- Archiving rewrites records and the index. -/
theorem archiveJobs_registers {queueName : Option String} {policy : ArchivalPolicy} {n : Nat}
    (h : archiveJobs s queueName policy = .ok (s', n)) : SameRegisters s s' := by
  have hindex : ∀ (ids : List JobId) (s : TestStorage),
      SameRegisters s (ids.foldl reindexArchived s) := by
    intro ids
    induction ids with
    | nil => exact fun s => .refl s
    | cons id ids ih =>
        intro s
        refine SameRegisters.trans ?_ (ih _)
        unfold reindexArchived
        split <;> rfl
  have hrecords : ∀ (ids : List JobId) (s : TestStorage),
      SameRegisters s (ids.foldl (fun s id => s.modifyJob id fun job =>
        { job with status := JobStatus.archived }) s) := by
    intro ids
    induction ids with
    | nil => exact fun s => .refl s
    | cons id ids ih =>
        intro s
        have hone : SameRegisters s (s.modifyJob id fun job =>
            { job with status := JobStatus.archived }) := rfl
        exact hone.trans (ih _)
  unfold archiveJobs at h
  injection h with h
  rw [← (Prod.mk.inj h).1]
  exact (hrecords ..).trans (hindex ..)

-- == calls

/-- A call of one section that keeps the registers when it succeeds. -/
theorem commit_registers {α : Type} {r : Except HammerworkError (TestStorage × α)}
    (h : ∀ s' a, r = .ok (s', a) → SameRegisters s s') : SameGroups s (commit s r).2 :=
  commit_elim (.refl s) fun s' a hr => (h s' a hr).groups

/-- A step that returns the storage it was given, or writes one other
register. -/
theorem SameGroups.of_eq (hworkflows : s'.workflows = s.workflows)
    (hbatches : s'.batches = s.batches)
    (hbatchJobs : s'.batchJobs = s.batchJobs) (hdependencies : s'.dependencies = s.dependencies)
    (hdependents : s'.dependents = s.dependents) : SameGroups s s' :=
  ⟨fun w => by rw [hworkflows], hbatches, hbatchJobs, hdependencies, hdependents⟩

/-- Most calls keep the groups. -/
theorem Op.sameGroups (hk : s.Keyed) {op : Op} (hop : op.KeepsGroups) :
    SameGroups s (op.apply env s).2 := by
  unfold Op.apply
  cases op <;> first | exact absurd hop id | skip
  all_goals
    dsimp only
    try rw [reply_snd]
  case enqueue job => exact commit_registers fun s' a h => (enqueue_enqueued h).2
  case enqueueCronJob job =>
    refine commit_registers fun s' a h => ?_
    obtain ⟨job', -, henq⟩ := enqueueCronJob_ok h
    exact (enqueue_enqueued henq).2
  case dequeue queueName weights lease maxJobs =>
    rw [dequeue_eq]
    exact (claimEach_registers lease _ s).groups
  case startClaimedRun run lease =>
    refine commit_registers fun s' a h => ?_
    obtain ⟨b, run'⟩ := a
    obtain ⟨-, rfl, -⟩ | ⟨-, -, job, -, -, -, hr⟩ := startClaimedRun_ok h
    · exact .refl s'
    · exact hr.rest
  case heartbeatJob run lease =>
    refine commit_registers fun s' a h => ?_
    unfold TestQueue.heartbeatJob at h
    split at h
    all_goals
      injection h with h
      rw [← (Prod.mk.inj h).1]
      rfl
  case releaseJobRun run =>
    refine commit_registers fun s' a h => ?_
    obtain ⟨-, rfl, -⟩ | ⟨-, job, -, -, -, hr⟩ := releaseJobRun_ok h
    · exact .refl s'
    · exact hr.rest
  case finishJobRun run outcome wall =>
    exact (finishJobRun_registers hk env.cron run outcome wall).groups
  case completeJob id =>
    refine commit_registers fun s' a h => ?_
    obtain ⟨⟨s₁, ids⟩, hok, h⟩ := bind_eq_ok.1 h
    rw [← (Prod.mk.inj (pure_eq_ok.1 h)).1]
    obtain ⟨job, s₂, hlookup, -, hr, hres⟩ := completeAndResolve_ok hok
    have hk₂ : s₂.Keyed := hr.keyed (hk id job hlookup) hk
    have hrest := (resolveDependents_spec hk₂ id s.clock).1.rest
    rw [hres] at hrest
    exact hr.rest.trans hrest
  case failJob id error =>
    refine commit_registers fun s' a h => ?_
    obtain ⟨job, s₁, -, -, hr, rfl⟩ := failJob_ok h
    exact hr.rest.trans (applyPolicies_registers s₁ id)
  case retryJob id retryAt =>
    refine commit_registers fun s' a h => ?_
    obtain ⟨job, dep, -, -, -, hr⟩ := retryJob_ok h
    exact hr.rest
  case markJobDead id error | markJobTimedOut id error =>
    refine commit_registers fun s' a h => ?_
    obtain ⟨⟨s₁, ids⟩, hok, h⟩ := bind_eq_ok.1 h
    rw [← (Prod.mk.inj (pure_eq_ok.1 h)).1]
    exact endWithFailure_registers hok
  case retryDeadJob id =>
    refine commit_registers fun s' a h => ?_
    obtain ⟨job, -, -, hr⟩ := retryDeadJob_ok h
    exact hr.rest
  case rescheduleCronJob id next =>
    refine commit_registers fun s' a h => ?_
    obtain ⟨job, -, -, -, hr⟩ := rescheduleCronJob_ok h
    exact hr.rest
  case disableRecurringJob id =>
    refine commit_registers fun s' a h => ?_
    obtain ⟨job, -, hr⟩ := disableRecurringJob_ok h
    exact hr.rest
  case enableRecurringJob id =>
    refine commit_registers fun s' a h => ?_
    obtain ⟨job, -, ⟨-, hr⟩ | ⟨-, next, -, hr⟩⟩ := enableRecurringJob_ok h
    · exact hr.rest
    · exact hr.rest
  case requeueStaleJobs queueName =>
    exact (requeueStaleJobs_registers hk env.cron queueName).groups
  case resolveJobDependencies id => exact (resolveDependents_spec hk id s.clock).1.rest.groups
  case failJobDependencies id => exact (applyWorkflowFailure_spec s id s.clock).rest.groups
  case archiveJobs queueName policy =>
    exact commit_registers fun s' a h => archiveJobs_registers h
  case restoreArchivedJob id =>
    refine commit_registers fun s' a h => ?_
    obtain ⟨job, dep, -, -, -, -, hr⟩ := restoreArchivedJob_ok h
    exact hr.rest
  case storeJobResult id data expiresAt =>
    refine commit_elim (.refl s) fun s' a h => ?_
    unfold TestQueue.storeJobResult at h
    split at h
    · cases h
    · injection h with h
      rw [← (Prod.mk.inj h).1]
      exact .of_eq rfl rfl rfl rfl rfl
  all_goals exact .of_eq rfl rfl rfl rfl rfl

-- == changed groups

/-- The ids a workflow lists. -/
def JobGroup.ids (group : JobGroup) : List JobId := group.jobs.map (·.id)

/-- What decides over a workflow's jobs is the same. -/
structure JobGroup.SameTerms (a b : JobGroup) : Prop where
  policy : b.failurePolicy = a.failurePolicy
  status : b.status = a.status

/-- A workflow is stored as it was enqueued, but for payloads, its
creation time and its merged dependency map. -/
theorem enqueueWorkflow_group {workflow : JobGroup} {id : WorkflowId}
    (h : enqueueWorkflow env s workflow = .ok (s', id)) :
    (∃ stored : JobGroup, stored.ids = workflow.ids ∧ stored.totalJobs = workflow.totalJobs ∧
      workflow.SameTerms stored ∧ ∀ w, s'.workflows.lookup w
        = if w = workflow.id then some stored else s.workflows.lookup w) ∧
    s'.batches = s.batches ∧ s'.batchJobs = s.batchJobs := by
  obtain ⟨-, sealedJobs, stored, deps, hseal, -, -, rfl⟩ := enqueueWorkflow_ok h
  have hreg := (insertJobs_inserted stored s).2
  refine ⟨⟨storedWorkflow s workflow sealedJobs, ?_, rfl, ⟨rfl, rfl⟩, fun w => ?_⟩,
    hreg.batches, hreg.batchJobs⟩
  · exact forall₂_ids (fun a b hab => hab.keepsState.id) (PayloadEncryption.sealJobs_same hseal)
  · exact Table.lookup_insert_if s.workflows workflow.id w _

/-- A cancellation marks one workflow. -/
theorem cancelWorkflow_group (h : cancelWorkflow s w = .ok (s', ())) :
    (∃ group, s.workflows.lookup w = some group ∧ ∀ w', s'.workflows.lookup w'
      = if w' = w then some { group with
          status := .cancelled
          failedAt := some (group.failedAt.getD s.clock) }
        else s.workflows.lookup w') ∧
    s'.batches = s.batches ∧ s'.batchJobs = s.batchJobs ∧
    s'.dependencies = s.dependencies ∧ s'.dependents = s.dependents := by
  unfold cancelWorkflow at h
  cases hgroup : s.workflows.lookup w with
  | none => rw [hgroup] at h; cases h
  | some group =>
      rw [hgroup] at h
      injection h with h
      rw [← (Prod.mk.inj h).1]
      have hreg := (failEach_spec (p := fun _ job => unfinished job)
        (fun _ _ hun => hun) workflowCancelledMessage s.clock
        (workflowMembers s group w) s).1.rest
      refine ⟨⟨group, rfl, fun w' => ?_⟩, hreg.batches, hreg.batchJobs, hreg.dependencies,
        hreg.dependents⟩
      dsimp only
      rw [Table.lookup_modify, hreg.workflows]
      split
      · rw [hgroup]
        rfl
      · rfl

/-- A stored job joins the workflow. -/
theorem joinWorkflow_workflows (hlookup : s.jobs.lookup k = some job) (w w' : WorkflowId) :
    (s.joinWorkflow w k).workflows.lookup w' = if w' = w then
      (s.workflows.lookup w).map fun group =>
        if group.jobs.any (·.id = k) then group
        else { group with jobs := group.jobs ++ [job], totalJobs := group.totalJobs + 1 }
      else s.workflows.lookup w' := by
  unfold joinWorkflow
  rw [hlookup]
  exact Table.lookup_modify s.workflows w w' _

/-- The children that joined the workflow `w`, when `s` is the storage
afterwards. -/
def joined (s : TestStorage) (children : List Job) (w : WorkflowId) : List JobId :=
  (children.filter fun child =>
    decide (child.workflowId = some w) && (s.jobs.lookup child.id).isSome).map (·.id)

theorem mem_joined {children : List Job} :
    k ∈ joined s children w ↔ ∃ child ∈ children, child.workflowId = some w ∧
      (s.jobs.lookup child.id).isSome ∧ child.id = k := by
  unfold joined
  simp only [List.mem_map, List.mem_filter, Bool.and_eq_true, decide_eq_true_eq]
  constructor
  · intro ⟨child, ⟨hchild, hw, hstored⟩, hid⟩
    exact ⟨child, hchild, hw, hstored, hid⟩
  · intro ⟨child, hchild, hw, hstored, hid⟩
    exact ⟨child, ⟨hchild, hw, hstored⟩, hid⟩

/-- `after` is `group` with the jobs `added` to it. -/
structure JobGroup.Extended (group after : JobGroup) (added : List JobId) : Prop where
  ids : after.ids = group.ids ++ added
  total : after.totalJobs = group.totalJobs + added.length
  terms : group.SameTerms after

theorem JobGroup.Extended.nil (group : JobGroup) : group.Extended group [] :=
  ⟨(List.append_nil _).symm, rfl, rfl, rfl⟩

/-- One new child, enqueued and joined. -/
theorem joinSpawned_group {child : Job} {id : JobId} (h : enqueue env s child = .ok (s', id))
    {group : JobGroup} (hgroup : s.workflows.lookup w = some group) (hout : child.id ∉ group.ids) :
    ∃ after, (joinSpawned s' child id).workflows.lookup w = some after ∧
      group.Extended after (if child.workflowId = some w then [child.id] else []) := by
  obtain ⟨rfl, -, stored, jobs, hlookup, harrives⟩ := enqueue_lookup h
  have hsame : s'.workflows.lookup w = some group := by
    rw [(enqueue_enqueued h).2.workflows, hgroup]
  unfold joinSpawned
  cases hw : child.workflowId with
  | none => exact ⟨group, hsame, .nil group⟩
  | some w' =>
      dsimp only
      rw [joinWorkflow_workflows hlookup]
      by_cases heq : w = w'
      · subst heq
        rw [if_pos rfl, if_pos rfl, hsame]
        have hany : group.jobs.any (·.id = child.id) = false := by
          rw [List.any_eq_false]
          intro member hmember
          have hne : member.id ≠ child.id := fun hid =>
            hout (hid ▸ List.mem_map.2 ⟨member, hmember, rfl⟩)
          simp [hne]
        refine ⟨_, rfl, ?_⟩
        dsimp only
        rw [hany, if_neg (by decide)]
        refine ⟨?_, rfl, rfl, rfl⟩
        show (group.jobs ++ [stored]).map (·.id) = _
        rw [List.map_append, List.map_singleton, harrives.keeps.id]
        rfl
      · rw [if_neg heq, if_neg (fun h => heq (Option.some.inj h).symm)]
        exact ⟨group, hsame, .nil group⟩

theorem joinSpawned_none {child : Job} {id : JobId} (h : enqueue env s child = .ok (s', id))
    (hgroup : s.workflows.lookup w = none) :
    (joinSpawned s' child id).workflows.lookup w = none := by
  obtain ⟨rfl, -, stored, jobs, hlookup, -⟩ := enqueue_lookup h
  have hsame : s'.workflows.lookup w = none := by
    rw [(enqueue_enqueued h).2.workflows, hgroup]
  unfold joinSpawned
  cases child.workflowId with
  | none => exact hsame
  | some w' =>
      dsimp only
      rw [joinWorkflow_workflows hlookup]
      split
      · next heq =>
        subst heq
        rw [hsame]
        rfl
      · exact hsame

/-- New children join the workflow they name, if it is stored. -/
theorem enqueueChildren_workflow (env : Env) (children : List Job) : ∀ s : TestStorage,
    (∀ child ∈ children, s.jobs.lookup child.id = none) → (children.map (·.id)).Nodup →
    (∀ group, s.workflows.lookup w = some group → (∀ child ∈ children, child.id ∉ group.ids) →
      ∃ after, (enqueueChildren env children s).2.workflows.lookup w = some after ∧
        group.Extended after (joined (enqueueChildren env children s).2 children w)) ∧
    (s.workflows.lookup w = none →
      (enqueueChildren env children s).2.workflows.lookup w = none) := by
  induction children with
  | nil => exact fun s _ _ => ⟨fun group hgroup _ => ⟨group, hgroup, .nil group⟩, fun h => h⟩
  | cons child children ih =>
      intro s hnew hnd
      rw [List.map_cons, List.nodup_cons] at hnd
      rw [enqueueChildren_cons]
      cases henq : enqueue env s child with
      | error e =>
          refine ⟨fun group hgroup _ => ⟨group, hgroup, ?_⟩, fun h => h⟩
          have hnone : joined s (child :: children) w = [] := by
            refine List.eq_nil_iff_forall_not_mem.2 fun k hk => ?_
            obtain ⟨c, hc, -, hstored, -⟩ := mem_joined.1 hk
            rw [hnew c hc] at hstored
            cases hstored
          exact hnone ▸ .nil group
      | ok out =>
          obtain ⟨s₁, id⟩ := out
          obtain ⟨-, hold, stored, -, hlookup, -⟩ := enqueue_lookup henq
          have hnew₁ : ∀ c ∈ children, (joinSpawned s₁ child id).jobs.lookup c.id = none := by
            intro c hc
            rw [joinSpawned_lookup, hold c.id fun heq => hnd.1 (List.mem_map.2 ⟨c, hc, heq⟩)]
            exact hnew c (List.mem_cons_of_mem _ hc)
          obtain ⟨hsome, hnone⟩ := ih (joinSpawned s₁ child id) hnew₁ hnd.2
          have hstays := (enqueueChildren_spawned env children (joinSpawned s₁ child id)).stays
            child.id (by rw [joinSpawned_lookup, hlookup]; rfl)
          dsimp only
          generalize enqueueChildren env children (joinSpawned s₁ child id) = out
            at hsome hnone hstays ⊢
          obtain ⟨result, s₂⟩ := out
          dsimp only at hsome hnone hstays
          suffices hgoal : (∀ group, s.workflows.lookup w = some group →
              (∀ c ∈ child :: children, c.id ∉ group.ids) →
              ∃ after, s₂.workflows.lookup w = some after ∧
                group.Extended after (joined s₂ (child :: children) w)) ∧
              (s.workflows.lookup w = none → s₂.workflows.lookup w = none) by
            cases result <;> exact hgoal
          refine ⟨fun group hgroup hout => ?_, fun hgroup => hnone (joinSpawned_none henq hgroup)⟩
          obtain ⟨mid, hmid, hext⟩ := joinSpawned_group henq hgroup
            (hout child (List.mem_cons_self ..))
          obtain ⟨after, hafter, hrest⟩ := hsome mid hmid fun c hc hmem => by
            rw [hext.ids, List.mem_append] at hmem
            rcases hmem with hmem | hmem
            · exact hout c (List.mem_cons_of_mem _ hc) hmem
            · split at hmem
              · exact hnd.1 (List.mem_singleton.1 hmem ▸ List.mem_map.2 ⟨c, hc, rfl⟩)
              · cases hmem
          refine ⟨after, hafter, ?_⟩
          have hjoined : joined s₂ (child :: children) w
              = (if child.workflowId = some w then [child.id] else [])
                ++ joined s₂ children w := by
            unfold joined
            rw [List.filter_cons, hstays, Bool.and_true]
            by_cases hw : child.workflowId = some w
            · simp [hw]
            · simp [hw]
          rw [hjoined]
          refine ⟨?_, ?_, hrest.terms.policy.trans hext.terms.policy,
            hrest.terms.status.trans hext.terms.status⟩
          · rw [hrest.ids, hext.ids, List.append_assoc]
          · rw [hrest.total, hext.total, List.length_append, Nat.add_assoc]

theorem completeJobRunWithChildren_workflow (env : Env) (hk : s.Keyed) (run : Job)
    {children : List Job} (wall : DateTime)
    (hnew : ∀ child ∈ children, s.jobs.lookup child.id = none)
    (hnd : (children.map (·.id)).Nodup) {s' : TestStorage}
    (hs' : s' = (completeJobRunWithChildren env s run children wall).2) :
    (∀ group, s.workflows.lookup w = some group → (∀ child ∈ children, child.id ∉ group.ids) →
      ∃ after, s'.workflows.lookup w = some after ∧
        group.Extended after (joined s' children w)) ∧
    (s.workflows.lookup w = none → s'.workflows.lookup w = none) := by
  -- a call that enqueues no child
  have hsame : (∀ group, s.workflows.lookup w = some group →
        (∀ child ∈ children, child.id ∉ group.ids) →
        ∃ after, s.workflows.lookup w = some after ∧
          group.Extended after (joined s children w)) ∧
      (s.workflows.lookup w = none → s.workflows.lookup w = none) := by
    refine ⟨fun group hgroup _ => ⟨group, hgroup, ?_⟩, fun h => h⟩
    have hnone : joined s children w = [] := by
      refine List.eq_nil_iff_forall_not_mem.2 fun k hk => ?_
      obtain ⟨c, hc, -, hstored, -⟩ := mem_joined.1 hk
      rw [hnew c hc] at hstored
      cases hstored
    exact hnone ▸ .nil group
  unfold completeJobRunWithChildren at hs'
  cases hlimits : validateDependencyLimits children with
  | error e =>
      rw [hlimits] at hs'
      subst hs'
      exact hsame
  | ok =>
      rw [hlimits] at hs'
      dsimp only at hs'
      split at hs'
      · subst hs'
        exact hsame
      · have hjoin := enqueueChildren_workflow (w := w) env children s hnew hnd
        have hwrites : Writes (fun _ => True) s (enqueueChildren env children s).2 :=
          enqueueChildren_writes children s (fun _ _ => trivial) trivial
        have hk₁ : (enqueueChildren env children s).2.Keyed := hwrites.keyed hk
        generalize enqueueChildren env children s = out at hs' hjoin hk₁
        obtain ⟨result, s₁⟩ := out
        cases result with
        | error e =>
            subst hs'
            exact hjoin
        | ok spawned =>
            have hreg := finishJobRun_registers hk₁ env.cron run .completed wall
            have hquiet : Quiet s₁ (finishJobRun env.cron s₁ run .completed wall).2 :=
              finishJobRun_quiet env.cron s₁ run .completed wall
            dsimp only at hs' hjoin hreg hquiet
            have hafter : s' = (finishJobRun env.cron s₁ run .completed wall).2 := by
              rw [hs']
              generalize finishJobRun env.cron s₁ run .completed wall = out
              obtain ⟨result, s₂⟩ := out
              cases result <;> rfl
            have hstored : joined s' children w = joined s₁ children w := by
              unfold joined
              simp only [hafter, hquiet.stored]
            rw [hstored, hafter, hreg.workflows]
            exact hjoin

-- == steps

/-- What a step that deletes nothing does to the workflow `w`. -/
inductive WorkflowStep (s : TestStorage) (e : Event) (s' : TestStorage) (w : WorkflowId) : Prop
  | kept : s'.workflows.lookup w = s.workflows.lookup w →
      (∀ workflow, e = .call (.enqueueWorkflow workflow) → workflow.id = w → s' = s) →
      (∀ run children wall, e = .call (.completeJobRunWithChildren run children wall) →
        s.workflows.lookup w = none) → WorkflowStep s e s' w
  | enqueued (workflow stored : JobGroup) : e = .call (.enqueueWorkflow workflow) →
      workflow.id = w → stored.ids = workflow.ids → stored.totalJobs = workflow.totalJobs →
      workflow.SameTerms stored → s'.workflows.lookup w = some stored → WorkflowStep s e s' w
  | cancelled (group : JobGroup) : e = .call (.cancelWorkflow w) →
      s.workflows.lookup w = some group →
      s'.workflows.lookup w = some { group with
        status := .cancelled
        failedAt := some (group.failedAt.getD s.clock) } → WorkflowStep s e s' w
  | joined (run : Job) (children : List Job) (wall : DateTime) (group after : JobGroup) :
      e = .call (.completeJobRunWithChildren run children wall) →
      s.workflows.lookup w = some group → s'.workflows.lookup w = some after →
      group.Extended after (joined s' children w) → WorkflowStep s e s' w

theorem Step.workflow {e : Event} (h : Step env s e s') (hk : s.Keyed) (hfresh : e.Fresh s)
    (hdel : ¬ e.Deletes) (w : WorkflowId)
    (hout : ∀ group, s.workflows.lookup w = some group → ∀ job ∈ e.enqueued, job.id ∉ group.ids) :
    WorkflowStep s e s' w := by
  cases h with
  | rehash h =>
      exact .kept (h.workflows.lookup_congr w).symm (fun _ h => by cases h)
        fun _ _ _ h => by cases h
  | call op =>
      by_cases hop : op.KeepsGroups
      · refine .kept ((Op.sameGroups hk hop).workflows w) (fun workflow heq => ?_)
          fun run children wall heq => ?_
        all_goals
          cases heq
          exact absurd hop id
      · cases op <;> first | exact absurd trivial hop | exact absurd trivial hdel | skip
        case enqueueBatch batch =>
          refine .kept ?_ (fun _ h => by cases h) fun _ _ _ h => by cases h
          unfold Op.apply
          rw [reply_snd]
          refine commit_elim (P := fun t => t.workflows.lookup w = s.workflows.lookup w) rfl
            fun s' a h => ?_
          obtain ⟨-, sealedJobs, stored, -, -, rfl⟩ := enqueueBatch_ok h
          show (insertJobs stored s).workflows.lookup w = _
          rw [(insertJobs_inserted stored s).2.workflows]
        case enqueueWorkflow workflow =>
          unfold Op.apply
          rw [reply_snd]
          cases henq : TestQueue.enqueueWorkflow env s workflow with
          | error e =>
              exact .kept rfl (fun _ _ _ => rfl) fun _ _ _ h => by cases h
          | ok out =>
              obtain ⟨s₁, id⟩ := out
              obtain ⟨⟨stored, hids, htotal, hterms, hlookup⟩, -, -⟩ := enqueueWorkflow_group henq
              by_cases hw : w = workflow.id
              · refine .enqueued workflow stored rfl hw.symm hids htotal hterms ?_
                exact (hlookup w).trans (if_pos hw)
              · refine .kept ((hlookup w).trans (if_neg hw)) (fun g hg hid => ?_)
                  fun _ _ _ h => by cases h
                cases hg
                exact absurd hid.symm hw
        case completeJobRunWithChildren run children wall =>
          unfold Op.apply
          rw [reply_snd]
          obtain ⟨hsome, hnone⟩ := completeJobRunWithChildren_workflow (w := w) env hk run wall
            hfresh.new hfresh.distinct rfl
          cases hgroup : s.workflows.lookup w with
          | none =>
              refine .kept ((hnone hgroup).trans hgroup.symm) (fun _ h => by cases h)
                fun _ _ _ _ => hgroup
          | some group =>
              obtain ⟨after, hafter, hext⟩ := hsome group hgroup (hout group hgroup)
              exact .joined run children wall group after rfl hgroup hafter hext
        case cancelWorkflow w' =>
          unfold Op.apply
          rw [reply_snd]
          cases hcancel : TestQueue.cancelWorkflow s w' with
          | error e =>
              exact .kept rfl (fun _ h => by cases h) fun _ _ _ h => by cases h
          | ok out =>
              obtain ⟨s₁, ⟨⟩⟩ := out
              obtain ⟨⟨group, hgroup, hlookup⟩, -⟩ := cancelWorkflow_group hcancel
              by_cases hw : w = w'
              · subst hw
                exact .cancelled group rfl hgroup ((hlookup w).trans (if_pos rfl))
              · exact .kept ((hlookup w).trans (if_neg hw)) (fun _ h => by cases h)
                  fun _ _ _ h => by cases h

end Hammerwork
