/-
What a workflow leaves behind when it is enqueued.

Three tables have to agree before anything can be said about how its
jobs run: the dependencies the storage records for a job, which are
those of the workflow's map merged with the job's own
(`mem_dependencies_enqueued`), the records of the jobs, which are held
back if they have dependencies (`storedJob`), and the index.

Of the index only one half is needed, and only for the jobs at hand: a
job is listed nowhere but where its record says (`Filed`). That half
does not rest on the rest of the index being coherent.
-/
import Hammerwork.Proofs.Calls

namespace Hammerwork

open TestStorage TestQueue

variable {s s' : TestStorage} {env : Env} {id k d : JobId} {job job' : Job}
variable {workflow : JobGroup}

-- == dependencies

/-- The merged map gives a job the dependencies the workflow's map gives
it, and its own. -/
theorem mem_mergedDependencies :
    d ∈ ((mergedDependencies workflow).lookup k).getD [] ↔
      d ∈ (workflow.dependencies.lookup k).getD [] ∨
        ∃ job ∈ workflow.jobs, job.id = k ∧ d ∈ job.dependsOn := by
  unfold mergedDependencies
  generalize workflow.dependencies = table
  induction workflow.jobs generalizing table with
  | nil => simp
  | cons job jobs ih =>
      rw [List.foldl_cons, ih, List.exists_mem_cons_iff]
      rw [← or_assoc]
      refine or_congr_left ?_
      split
      case isTrue hnone =>
        simp [List.isEmpty_iff.1 hnone]
      case isFalse =>
        rw [Table.lookup_upsert]
        by_cases hk : k = job.id
        · subst hk
          rw [if_pos rfl, Option.getD_some, mem_mergeInto]
          simp
        · rw [if_neg hk]
          simp [Ne.symm hk]

/-- Recording a map overwrites what was recorded under its keys. -/
theorem storeDependencies_lookup (dependencies : Table JobId (List JobId)) (s : TestStorage)
    (k : JobId) : (storeDependencies dependencies s).dependencies.lookup k
      = (dependencies.lookup k).or (s.dependencies.lookup k) := by
  have hfold : ∀ (entries : List (Sigma fun _ : JobId => List JobId)),
      (entries.map Sigma.fst).Nodup → ∀ s : TestStorage,
      (entries.foldl (fun (s : TestStorage) entry =>
        { s with
          dependencies := s.dependencies.insert entry.1 entry.2
          dependents := entry.2.foldl
            (fun dependents dep => dependents.upsert dep [] (· ++ [entry.1])) s.dependents })
        s).dependencies.lookup k = (List.dlookup k entries).or (s.dependencies.lookup k) := by
    intro entries
    induction entries with
    | nil => exact fun _ s => rfl
    | cons entry entries ih =>
        intro hnd s
        obtain ⟨j, deps⟩ := entry
        rw [List.map_cons, List.nodup_cons] at hnd
        rw [List.foldl_cons, ih hnd.2]
        show (List.dlookup k entries).or ((s.dependencies.insert j deps).lookup k) = _
        rw [Table.lookup_insert_if]
        by_cases hk : k = j
        · subst hk
          have hout : List.dlookup k entries = none :=
            List.dlookup_eq_none.2 hnd.1
          rw [if_pos rfl, hout, List.dlookup_cons_eq]
          rfl
        · rw [if_neg hk, List.dlookup_cons_ne _ _ hk]
  exact hfold dependencies.entries dependencies.nodupKeys s

-- == the index

/-- The index lists the job `k` nowhere but where its record says. -/
def Filed (s : TestStorage) (k : JobId) : Prop :=
  ∀ q st, k ∈ QueueIndex.list s.queues q st →
    ∃ job, s.jobs.lookup k = some job ∧ job.queueName = q ∧ job.status = st

/-- Rewriting what the index does not read. -/
theorem Filed.congr (h : Filed s k) (hqueues : s'.queues = s.queues)
    (hjobs : (s'.jobs.lookup k).map (fun job => (job.queueName, job.status))
      = (s.jobs.lookup k).map fun job => (job.queueName, job.status)) : Filed s' k := by
  intro q st hmem
  rw [hqueues] at hmem
  obtain ⟨job, hlookup, hq, hst⟩ := h q st hmem
  rw [hlookup, Option.map_some] at hjobs
  obtain ⟨job', hlookup', heq⟩ := Option.map_eq_some_iff.1 hjobs
  obtain ⟨hq', hst'⟩ := Prod.mk.inj heq
  exact ⟨job', hlookup', hq'.trans hq, hst'.trans hst⟩

/-- Moving a job to another status keeps every job filed. -/
theorem Filed.restatus (h : Filed s k) (hlookup : s.jobs.lookup id = some job)
    (st : JobStatus) : Filed (s.restatus id job st) k := by
  have hjobs : (s.restatus id job st).jobs.lookup k
      = if k = id then (s.jobs.lookup id).map fun job => { job with status := st }
        else s.jobs.lookup k := Table.lookup_modify s.jobs id k _
  intro q st' hmem
  have hmem' : k ∈ QueueIndex.list (QueueIndex.add
      (QueueIndex.drop s.queues job.queueName job.status id) job.queueName st id) q st' := hmem
  have hdropped : k ∈ QueueIndex.list
      (QueueIndex.drop s.queues job.queueName job.status id) q st' → k ≠ id →
      k ∈ QueueIndex.list s.queues q st' := by
    intro hin _
    rw [QueueIndex.list_drop] at hin
    split at hin
    · next heq =>
      rw [heq.1, heq.2]
      exact List.mem_of_mem_filter hin
    · exact hin
  by_cases hk : k = id
  · subst hk
    rw [hjobs, if_pos rfl, hlookup]
    refine ⟨_, rfl, ?_⟩
    rw [QueueIndex.list_add] at hmem'
    split at hmem'
    · next heq => exact ⟨heq.1.symm, heq.2.symm⟩
    · -- in another list, from which it was dropped
      rw [QueueIndex.list_drop] at hmem'
      split at hmem'
      · simp at hmem'
      · next hne =>
        obtain ⟨job₁, hlookup₁, rfl, rfl⟩ := h q st' hmem'
        rw [hlookup] at hlookup₁
        injection hlookup₁ with hlookup₁
        exact absurd ⟨hlookup₁ ▸ rfl, hlookup₁ ▸ rfl⟩ hne
  · rw [hjobs, if_neg hk]
    rw [QueueIndex.list_add] at hmem'
    split at hmem'
    · next heq =>
      rw [heq.1, heq.2]
      refine h _ _ ?_
      rw [← heq.1, ← heq.2]
      refine hdropped ?_ hk
      rw [heq.1, heq.2]
      split at hmem'
      · exact hmem'
      · exact (List.mem_append.1 hmem').resolve_right fun hin => hk (List.mem_singleton.1 hin)
    · exact h q st' (hdropped hmem' hk)

/-- A claim keeps every job filed. -/
theorem Filed.claim {lease : Duration} {out : Option Job} (h : Filed s k)
    (hclaim : claim s id lease = .ok (s', out)) : Filed s' k := by
  unfold TestQueue.claim at hclaim
  cases hlookup : s.jobs.lookup id with
  | none =>
      rw [updateJobStatus_none hlookup] at hclaim
      cases hclaim
  | some job =>
      rw [updateJobStatus_eq hlookup] at hclaim
      obtain ⟨rfl, -⟩ := Prod.mk.inj (pure_eq_ok.1 hclaim)
      refine (h.restatus hlookup .running).congr rfl ?_
      rw [modifyJob_lookup]
      show (if k = id then ((s.restatus id job .running).jobs.lookup id).map _ else _).map _ = _
      split
      · next hk =>
        rw [Option.map_map, hk]
        rfl
      · rfl

theorem releaseReady_queues (now : DateTime) (ids : List JobId) : ∀ s : TestStorage,
    (releaseReady now ids s).1.queues = s.queues := by
  induction ids with
  | nil => exact fun s => rfl
  | cons id ids ih =>
      intro s
      rw [releaseReady]
      split
      · exact ih (s.modifyJob id (TestStorage.release now))
      · exact ih s

/-- A completion keeps every job filed. -/
theorem Filed.completeAndResolve {ids : List JobId} (h : Filed s k) (hk : s.Keyed)
    (hcomplete : completeAndResolve s id = .ok (s', ids)) : Filed s' k := by
  unfold TestQueue.completeAndResolve at hcomplete
  obtain ⟨⟨⟩, hcheck, hcomplete⟩ := bind_eq_ok.1 hcomplete
  obtain ⟨job, hlookup, -⟩ := checkTransition_ok.1 hcheck
  rw [updateJobStatus_eq hlookup] at hcomplete
  have hr : Rewrite s id (job.completedAtTime s.clock) (TestStorage.modifyJob
      ((s.restatus id job .completed).removeLease id) id
      fun job => { job with completedAt := some s.clock }) :=
    rewrite_restatus hlookup .completed (fun job => { job with completedAt := some s.clock })
      rfl rfl rfl rfl
  have hmid : Filed (TestStorage.modifyJob ((s.restatus id job .completed).removeLease id) id
      fun job => { job with completedAt := some s.clock }) k := by
    refine (h.restatus hlookup .completed).congr rfl ?_
    rw [modifyJob_lookup]
    show (if k = id then ((s.restatus id job .completed).jobs.lookup id).map _ else _).map _ = _
    split
    · next heq =>
      rw [Option.map_map, heq]
      rfl
    · rfl
  have hkeyed := hr.keyed (hk id job hlookup) hk
  have hres := congrArg Prod.fst (pure_eq_ok.1 hcomplete)
  dsimp only at hres
  rw [← hres]
  refine hmid.congr (releaseReady_queues _ _ _) ?_
  exact (resolveDependents_spec hkeyed id s.clock).1.map_lookup (fun _ => rfl) k

/-- What is inserted is listed where its record says; other lists are as
before. -/
theorem mem_list_insertJobs {q : String} {st : JobStatus} (stored : List Job) :
    ∀ s : TestStorage, k ∈ QueueIndex.list (insertJobs stored s).queues q st ↔
      k ∈ QueueIndex.list s.queues q st ∨
        ∃ job ∈ stored, job.id = k ∧ job.queueName = q ∧ job.status = st := by
  induction stored with
  | nil =>
      intro s
      simp [insertJobs]
  | cons job stored ih =>
      intro s
      rw [insertJobs_cons, ih, List.exists_mem_cons_iff, ← or_assoc]
      refine or_congr_left ?_
      show k ∈ QueueIndex.list (QueueIndex.add s.queues job.queueName job.status job.id) q st ↔ _
      rw [QueueIndex.list_add]
      split
      · next heq =>
        obtain ⟨rfl, rfl⟩ := heq
        split
        · next hin =>
          refine ⟨.inl, fun h => h.elim id fun hhere => ?_⟩
          exact hhere.1 ▸ hin
        · rw [List.mem_append, List.mem_singleton]
          simp [eq_comm]
      · next hne =>
        refine ⟨.inl, fun h => h.resolve_right fun ⟨_, hq, hst⟩ => hne ⟨hq.symm, hst.symm⟩⟩

-- == settling

/-- Jobs none of which is settled stay as they are. -/
theorem settleNewDependents_still {jobs : List Job} {parents : JobId → Option ParentState}
    {now : DateTime} (h : ∀ job ∈ jobs, settleJob jobs parents now job = (job, false)) :
    Hammerwork.settleNewDependents jobs parents now = (jobs, []) := by
  have hpass : ∀ rest before : List Job, before ++ rest = jobs →
      settlePass parents now before rest = (jobs, []) := by
    intro rest
    induction rest with
    | nil =>
        intro before heq
        rw [settlePass, ← heq, List.append_nil]
    | cons job rest ih =>
        intro before heq
        have hjob := h job (heq ▸ List.mem_append_right _ (List.mem_cons_self ..))
        rw [settlePass, heq, hjob]
        dsimp only
        rw [ih (before ++ [job]) (by rw [List.append_assoc]; exact heq)]
        rfl
  unfold Hammerwork.settleNewDependents
  rw [settleLoop, hpass jobs [] rfl]

/-- Among jobs that have not ended, no parent is completed or failed. -/
theorem settledStateOf_unended {jobs : List Job} {parents : JobId → Option ParentState}
    (hunended : ∀ job ∈ jobs, job.status = .pending ∨ job.status = .running)
    (hd : d ∈ jobs.map (·.id)) : settledStateOf jobs parents d = .unfinished := by
  rw [settledStateOf_eq]
  cases hfind : jobs.reverse.find? (·.id = d) with
  | none =>
      obtain ⟨job, hjob, hid⟩ := List.mem_map.1 hd
      have hnot := List.find?_eq_none.1 hfind job (List.mem_reverse.2 hjob)
      simp [hid] at hnot
  | some job =>
      have hjob := List.mem_reverse.1 (List.mem_of_find?_eq_some hfind)
      rcases hunended job hjob with hst | hst <;> simp only [hst, stateOfStatus]

/-- Jobs that have not ended and depend on each other only are stored as
they come. -/
theorem settleNewDependents_unended {jobs : List Job} {parents : JobId → Option ParentState}
    {now : DateTime} (hunended : ∀ job ∈ jobs, job.status = .pending ∨ job.status = .running)
    (hclosed : ∀ job ∈ jobs, ∀ d ∈ job.dependsOn, d ∈ jobs.map (·.id)) :
    Hammerwork.settleNewDependents jobs parents now = (jobs, []) := by
  refine settleNewDependents_still fun job hjob => ?_
  have hstate : ∀ d ∈ job.dependsOn, settledStateOf jobs parents d = .unfinished :=
    fun d hd => settledStateOf_unended hunended (hclosed job hjob d hd)
  rcases settleJob_cases jobs parents now job with ⟨h, -⟩ | ⟨-, -, hne, hall⟩ | ⟨p, hp, -, -, hf⟩
  · exact h
  · obtain ⟨d, hd⟩ := List.exists_mem_of_ne_nil _ hne
    have := hall d hd
    rw [hstate d hd] at this
    cases this
  · rw [hstate p hp] at hf
    cases hf

-- == holding

/-- A workflow job is held back if the workflow gives it dependencies. -/
theorem holdForDependencies_cases (dependencies : Table JobId (List JobId)) (now : DateTime)
    (job : Job) :
    ((∃ d, d ∈ (dependencies.lookup job.id).getD []) ∧
      holdForDependencies dependencies now job
        = { stampEnqueued job now with scheduledAt := maxUtc }) ∨
    ((∀ d, d ∉ (dependencies.lookup job.id).getD []) ∧
      holdForDependencies dependencies now job = stampEnqueued job now) := by
  unfold holdForDependencies
  dsimp only
  have hid : (stampEnqueued job now).id = job.id := rfl
  rw [hid]
  cases dependencies.lookup job.id with
  | none => exact .inr ⟨fun d hd => (by cases hd), rfl⟩
  | some deps =>
      cases deps with
      | nil => exact .inr ⟨fun d hd => (by cases hd), rfl⟩
      | cons d deps => exact .inl ⟨⟨d, List.mem_cons_self ..⟩, rfl⟩

end Hammerwork
