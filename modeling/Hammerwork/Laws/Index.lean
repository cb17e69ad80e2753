/-
The index lists every job once.

The index is redundant: a job's record says which queue it is in and
what status it has, and every operation that changes either edits the
lists by hand. In a run whose jobs have ids of their own the lists and
the records agree after every step (`run_coherent`), so what is read off
the index alone is right: the counters are the numbers of stored jobs,
and a dequeue hands out stored pending jobs, none of them twice.
-/
import Hammerwork.Proofs.Fresh

namespace Hammerwork

open TestStorage TestQueue

variable {s s' : TestStorage} {env : Env} {id : JobId} {job : Job}

/-- The stored jobs of a queue and a status. -/
def TestStorage.jobsIn (s : TestStorage) (queueName : String) (status : JobStatus) : List Job :=
  s.jobs.values.filter fun job => job.queueName = queueName && job.status = status

theorem mem_jobsIn {queueName : String} {status : JobStatus} :
    job ∈ s.jobsIn queueName status ↔
      job ∈ s.jobs.values ∧ job.queueName = queueName ∧ job.status = status := by
  unfold jobsIn
  simp

/-- A list of the index is the ids of the stored jobs it is for, in some
order. -/
theorem TestStorage.Coherent.perm (hco : s.Coherent) (hk : s.Keyed) (queueName : String)
    (status : JobStatus) :
    (QueueIndex.list s.queues queueName status).Perm
      ((s.jobsIn queueName status).map (·.id)) := by
  have hnd : ((s.jobsIn queueName status).map (·.id)).Nodup :=
    hk.nodup_ids.sublist ((List.filter_sublist ..).map _)
  refine (List.perm_ext_iff_of_nodup (hco.nodup _ _) hnd).2 fun k => ?_
  rw [hco.mem, List.mem_map]
  constructor
  · rintro ⟨job, hlookup, hq, hst⟩
    exact ⟨job, mem_jobsIn.2 ⟨mem_values_iff.2 ⟨k, hlookup⟩, hq, hst⟩, hk k job hlookup⟩
  · rintro ⟨job, hmem, rfl⟩
    obtain ⟨hval, hq, hst⟩ := mem_jobsIn.1 hmem
    exact ⟨job, hk.mem_values.1 hval, hq, hst⟩

/-- So the counters count the stored jobs. -/
theorem TestStorage.Coherent.getJobCount (hco : s.Coherent) (hk : s.Keyed)
    (queueName : String) (status : JobStatus) :
    getJobCount s queueName status = (s.jobsIn queueName status).length := by
  have hlen := (hco.perm hk queueName status).length_eq
  rwa [List.length_map] at hlen

-- == none is claimed twice

/-- Eligible jobs have different ids. -/
theorem nodup_eligible (hk : s.Keyed) (hco : s.Coherent) (queueName : String) :
    ((s.eligibleJobs queueName).map (·.id)).Nodup := by
  unfold eligibleJobs
  split
  · exact List.nodup_nil
  · refine List.Nodup.sublist ((List.filter_sublist ..).map _) ?_
    -- the ids of the jobs looked up are among the ids they were looked up by
    have hsub : ∀ ids : List JobId,
        ((ids.filterMap s.jobs.lookup).map (·.id)).Sublist ids := by
      intro ids
      induction ids with
      | nil => exact .slnil
      | cons id ids ih =>
          cases hlookup : s.jobs.lookup id with
          | none =>
              rw [List.filterMap_cons_none (f := fun id => s.jobs.lookup id) hlookup]
              exact ih.cons id
          | some job =>
              rw [List.filterMap_cons_some (f := fun id => s.jobs.lookup id) hlookup, List.map_cons,
                hk id job hlookup]
              exact ih.cons_cons id
    exact (hco.nodup queueName .pending).sublist (hsub _)

/-- A level picked is one of the candidates. -/
theorem pickWeightedPriority_mem {candidates : List JobPriority} {weights : PriorityWeights}
    {seed : Nat} {priority : JobPriority}
    (h : pickWeightedPriority candidates weights seed = some priority) :
    priority ∈ candidates := by
  have hlevel : ∀ (levels : List JobPriority) (point : Nat),
      levelAt weights levels point = some priority → priority ∈ levels := by
    intro levels
    induction levels with
    | nil => intro point h; cases h
    | cons level levels ih =>
        intro point h
        rw [levelAt] at h
        split at h
        · injection h with h
          rw [h]
          exact List.mem_cons_self ..
        · exact List.mem_cons_of_mem _ (ih _ h)
  have hmax : ∀ (levels : List JobPriority) (first : JobPriority),
      levels.foldl (fun best p => if best.asI32 ≤ p.asI32 then p else best) first
        ∈ first :: levels := by
    intro levels
    induction levels with
    | nil => exact fun first => List.mem_singleton_self first
    | cons level levels ih =>
        intro first
        rw [List.foldl_cons]
        split
        · exact List.mem_cons_of_mem _ (ih level)
        · rcases List.mem_cons.1 (ih first) with h | h
          · rw [h]
            exact List.mem_cons_self ..
          · exact List.mem_cons_of_mem _ (List.mem_cons_of_mem _ h)
  unfold pickWeightedPriority at h
  dsimp only at h
  split at h
  · cases candidates with
    | nil => cases h
    | cons first rest =>
        injection h with h
        rw [← h]
        exact hmax rest first
  · exact hlevel _ _ h

/-- A weighted batch takes each level once, so it takes no job twice. -/
theorem fillWeighted_nodup {weights : PriorityWeights} {seed : Nat → Nat} {eligible : List Job}
    {maxJobs : Nat} (hnd : (eligible.map (·.id)).Nodup) :
    ∀ (fuel attempt : Nat) (candidates : List JobPriority) (claimed : List JobId),
      claimed.Nodup →
      (∀ job ∈ eligible, job.id ∈ claimed → job.priority ∉ candidates) →
      (fillWeighted weights seed eligible maxJobs fuel attempt candidates claimed).Nodup := by
  intro fuel
  induction fuel with
  | zero => exact fun _ _ _ hclaimed _ => hclaimed
  | succ fuel ih =>
      intro attempt candidates claimed hclaimed hout
      rw [fillWeighted]
      split
      case isFalse => exact hclaimed
      case isTrue =>
        split
        case h_1 => exact hclaimed
        case h_2 priority hpick =>
          have hcand : priority ∈ candidates := pickWeightedPriority_mem hpick
          have hsub : (((eligible.filter (·.priority = priority)).take
              (maxJobs - claimed.length)).map (·.id)).Sublist (eligible.map (·.id)) :=
            ((List.take_sublist ..).trans (List.filter_sublist ..)).map _
          have htaken : ∀ id ∈ ((eligible.filter (·.priority = priority)).take
              (maxJobs - claimed.length)).map (·.id), ∀ job ∈ eligible, job.id = id →
              job.priority = priority := by
            intro id hid job hjob hjid
            obtain ⟨job', hjob', rfl⟩ := List.mem_map.1 hid
            obtain ⟨hmem, hprio⟩ := List.mem_filter.1 (List.mem_of_mem_take hjob')
            rw [List.inj_on_of_nodup_map hnd hjob hmem hjid]
            simpa using hprio
          refine ih _ _ _ (List.nodup_append.2 ⟨hclaimed, hnd.sublist hsub, ?_⟩) ?_
          · rintro id hid _ hid' rfl
            obtain ⟨job, hjob, rfl⟩ := List.mem_map.1 hid'
            obtain ⟨hmem, hprio⟩ := List.mem_filter.1 (List.mem_of_mem_take hjob)
            refine hout job hmem hid ?_
            rwa [show job.priority = priority by simpa using hprio]
          · intro job hjob hid hcand'
            obtain ⟨hold, hne⟩ := List.mem_filter.1 hcand'
            rcases List.mem_append.1 hid with hid | hid
            · exact hout job hjob hid hold
            · exact absurd (htaken _ hid job hjob rfl) (by simpa using hne)

/-- A dequeue claims different jobs. -/
theorem nodup_claimedIds (hk : s.Keyed) (hco : s.Coherent) (queueName : String)
    (weights : Option PriorityWeights) (maxJobs : Nat) :
    (claimedIds env s queueName weights maxJobs).Nodup := by
  have hsorted : (((s.eligibleJobs queueName).mergeSort claimOrder).map (·.id)).Nodup :=
    ((List.mergeSort_perm _ _).map _).nodup_iff.2 (nodup_eligible hk hco queueName)
  unfold claimedIds
  split
  · exact List.nodup_nil
  · cases s.getNextJob env.hash queueName weights <;> simp
  · unfold getNextJobs
    dsimp only
    split
    · exact hsorted.sublist ((List.take_sublist ..).map _)
    · split
      · exact hsorted.sublist ((List.take_sublist ..).map _)
      · exact fillWeighted_nodup hsorted _ _ _ _ List.nodup_nil fun job _ h => by cases h

-- == the law

/-- A call that dequeues, and what it hands out. -/
def DequeuedAt (env : Env) {n : Nat} (r : Run (Step env) n) (i : Nat) (queueName : String)
    (jobs : List Job) : Prop :=
  ∃ weights lease maxJobs, r.event i = .call (.dequeue queueName weights lease maxJobs) ∧
    (r.event i).reply env (r.state i) = some (.jobs jobs)

theorem DequeuedAt.claimed {n : Nat} {r : Run (Step env) n} {i : Nat} {queueName : String}
    {jobs : List Job} (h : DequeuedAt env r i queueName jobs) (hk : (r.state i).Keyed) :
    ∃ weights maxJobs,
      jobs.map (·.id) = claimedIds env (r.state i) queueName weights maxJobs := by
  obtain ⟨weights, lease, maxJobs, hev, hreply⟩ := h
  obtain ⟨-, -, jobs', hjobs', hids, -⟩ := dequeue_writes env hk queueName weights lease
    maxJobs
  obtain ⟨s', hdeq⟩ : ∃ s', dequeue env (r.state i) queueName weights lease maxJobs
      = (.ok jobs', s') := ⟨_, Prod.ext hjobs' rfl⟩
  rw [hev] at hreply
  simp only [Event.reply, Op.apply, hdeq, Result.reply, Option.some.injEq,
    Reply.jobs.injEq] at hreply
  exact ⟨weights, maxJobs, hreply ▸ hids⟩

/-- In a run whose jobs have ids of their own, the index lists the ids
of the stored jobs, each exactly once and where its record says; the
counters are the numbers of those jobs; and a dequeue hands out
different jobs, all of them stored in its queue as pending. -/
theorem index_lists_every_job_once {n : Nat} (r : Run (Step env) n) {clock : DateTime}
    (h0 : r.state 0 = TestStorage.new clock) (hnew : NewIds r) :
    (∀ i ≤ n, ∀ queueName status,
      (QueueIndex.list (r.state i).queues queueName status).Nodup ∧
      (∀ k, k ∈ QueueIndex.list (r.state i).queues queueName status ↔
        ∃ job, (r.state i).jobs.lookup k = some job ∧ job.queueName = queueName ∧
          job.status = status) ∧
      getJobCount (r.state i) queueName status
        = ((r.state i).jobsIn queueName status).length) ∧
    ∀ i < n, ∀ queueName jobs, DequeuedAt env r i queueName jobs →
      (jobs.map (·.id)).Nodup ∧ ∀ job ∈ jobs, ∃ stored,
        (r.state i).jobs.lookup job.id = some stored ∧ stored.queueName = queueName ∧
          stored.status = .pending := by
  have hkeyed := run_keyed r h0
  have hcoherent := run_coherent r h0 (hnew.fresh h0)
  refine ⟨fun i hi queueName status => ?_, fun i hi queueName jobs hdeq => ?_⟩
  · have hco := hcoherent i hi
    exact ⟨hco.nodup _ _, hco.mem _ _, hco.getJobCount (hkeyed i hi) _ _⟩
  · have hk := hkeyed i (by omega)
    have hco := hcoherent i (by omega)
    obtain ⟨weights, maxJobs, hids⟩ := hdeq.claimed hk
    refine ⟨hids ▸ nodup_claimedIds hk hco queueName weights maxJobs, fun job hjob => ?_⟩
    have hid : job.id ∈ claimedIds env (r.state i) queueName weights maxJobs :=
      hids ▸ List.mem_map_of_mem hjob
    obtain ⟨job', hjob', hid'⟩ := mem_claimedIds hid
    obtain ⟨k, hk', hlookup, -⟩ := mem_eligibleJobs hjob'
    obtain ⟨stored, hstored, hq, hst⟩ := (hco.mem _ _ _).1 hk'
    exact ⟨stored, hid' ▸ hk k job' hlookup ▸ hstored, hq, hst⟩

/-- Two jobs and a claim: job 1 is listed as running, job 2 as pending. -/
theorem index_lists_every_job_once_claimed :
    let s := (Op.trace plainEnv [.enqueue parentJob, .enqueue dependentJob,
      .dequeue "mail" none 0 1] (TestStorage.new 0)).state 3
    (QueueIndex.list s.queues "mail" .running).Nodup ∧
      (∃ job, s.jobs.lookup 1 = some job ∧ job.queueName = "mail" ∧ job.status = .running) ∧
      getQueueDepth s "mail" = 1 := by
  have hlaw := (index_lists_every_job_once (Op.trace plainEnv [.enqueue parentJob,
    .enqueue dependentJob, .dequeue "mail" none 0 1] (TestStorage.new 0)) rfl ⟨?_, ?_⟩).1
    3 (le_refl 3) "mail"
  · refine ⟨(hlaw .running).1, ((hlaw .running).2.1 1).1 (by decide +kernel), ?_⟩
    exact (hlaw .pending).2.2.trans (by decide +kernel)
  · intro i hi
    match i, hi with
    | 0, _ | 1, _ | 2, _ => decide
  · intro i j hij hj
    match j, hj with
    | 0, _ => omega
    | 1, _ =>
        match i, hij with
        | 0, _ => decide
    | 2, _ => exact fun job _ job' hjob' => by cases hjob'

end Hammerwork
