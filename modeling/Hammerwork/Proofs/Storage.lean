/-
What the storage helpers do, as equations and frames.

Almost everything an operation does to a job is one pattern: move the
job to another status, in its record and in the index, and rewrite some
other fields of the record. `Rewrite s id job' s'` says exactly that
much: in `s'` the job `id` is stored as `job'`, no other job changed,
nothing but jobs, index and leases changed, and an index that was
coherent still is. The proofs above this file only ever see rewrites.

Two facts about a storage are used throughout:

- `Keyed`: a job is stored under its own id;
- `Coherent`: the index lists a job exactly where its record says it
  is, and once.
-/
import Hammerwork.Queue

namespace Hammerwork

-- == index

namespace QueueIndex

variable (index : QueueIndex) (q q' : String) (st st' : JobStatus) (id : JobId)

theorem list_drop :
    list (drop index q st id) q' st'
      = if q' = q ∧ st' = st then (list index q st).filter (· ≠ id) else list index q' st' := by
  unfold list drop
  rw [Table.lookup_modify]
  by_cases hq : q' = q
  · subst hq
    rw [if_pos rfl]
    cases h : index.lookup q' with
    | none => simp
    | some byStatus =>
        rw [Option.map_some, Option.getD_some, Option.getD_some, Table.lookup_modify]
        by_cases hst : st' = st
        · subst hst
          simp only [true_and, if_true]
          cases byStatus.lookup st' <;> rfl
        · simp [hst]
  · simp [hq]

theorem list_dropAll :
    list (dropAll index q id) q' st'
      = if q' = q then (list index q' st').filter (· ≠ id) else list index q' st' := by
  unfold list dropAll
  rw [Table.lookup_modify]
  by_cases hq : q' = q
  · subst hq
    rw [if_pos rfl, if_pos rfl]
    cases h : index.lookup q' with
    | none => simp
    | some byStatus =>
        simp only [Option.map_some, Option.getD_some, Table.lookup_mapVals]
        cases byStatus.lookup st' <;> simp
  · simp [hq]

theorem list_add :
    list (add index q st id) q' st'
      = if q' = q ∧ st' = st then
          if id ∈ list index q st then list index q st else list index q st ++ [id]
        else list index q' st' := by
  unfold list add
  rw [Table.lookup_upsert]
  by_cases hq : q' = q
  · subst hq
    rw [if_pos rfl, Option.getD_some, Table.lookup_upsert]
    by_cases hst : st' = st
    · subst hst
      simp
    · simp [hst]
  · simp [hq]

/-- Appending to a list of a queue that has lists. -/
theorem list_push (h : (index.lookup q).isSome) :
    list (push index q st id) q' st'
      = if q' = q ∧ st' = st then list index q st ++ [id] else list index q' st' := by
  unfold list push
  rw [Table.lookup_modify]
  by_cases hq : q' = q
  · subst hq
    obtain ⟨byStatus, hb⟩ := Option.isSome_iff_exists.1 h
    rw [if_pos rfl, hb, Option.map_some, Option.getD_some, Table.lookup_upsert]
    by_cases hst : st' = st
    · subst hst
      simp
    · simp [hst]
  · simp [hq]

/-- A listed id is listed in a queue that has lists. -/
theorem isSome_of_mem_list {index : QueueIndex} {q : String} {st : JobStatus} {id : JobId}
    (h : id ∈ list index q st) : (index.lookup q).isSome := by
  unfold list at h
  cases hq : index.lookup q with
  | none => rw [hq] at h; simp at h
  | some _ => rfl

end QueueIndex

namespace TestStorage

variable {s s' s'' : TestStorage} {id : JobId} {job job' : Job}

-- == well-formedness

/-- Every job is stored under its own id. -/
def Keyed (s : TestStorage) : Prop :=
  ∀ id job, s.jobs.lookup id = some job → job.id = id

/-- The index lists a job exactly where its record says it is, and
once. -/
structure Coherent (s : TestStorage) : Prop where
  mem : ∀ q st id, id ∈ QueueIndex.list s.queues q st ↔
    ∃ job, s.jobs.lookup id = some job ∧ job.queueName = q ∧ job.status = st
  nodup : ∀ q st, (QueueIndex.list s.queues q st).Nodup

/-- `s'` is `s` but for jobs, index and leases. -/
def SameRegisters (s s' : TestStorage) : Prop :=
  s' = { s with jobs := s'.jobs, queues := s'.queues, leases := s'.leases }

theorem SameRegisters.refl (s : TestStorage) : SameRegisters s s := rfl

theorem SameRegisters.trans (h₁ : SameRegisters s s') (h₂ : SameRegisters s' s'') :
    SameRegisters s s'' := by
  unfold SameRegisters at h₁ h₂ ⊢
  rw [h₂, h₁]

theorem SameRegisters.clock (h : SameRegisters s s') : s'.clock = s.clock := by
  rw [h]

theorem SameRegisters.workflows (h : SameRegisters s s') : s'.workflows = s.workflows := by
  rw [h]

theorem SameRegisters.batches (h : SameRegisters s s') : s'.batches = s.batches := by
  rw [h]

theorem SameRegisters.batchJobs (h : SameRegisters s s') : s'.batchJobs = s.batchJobs := by
  rw [h]

theorem SameRegisters.dependencies (h : SameRegisters s s') :
    s'.dependencies = s.dependencies := by
  rw [h]

theorem SameRegisters.dependents (h : SameRegisters s s') : s'.dependents = s.dependents := by
  rw [h]

/-- In `s'` the job `id` is stored as `job'`; no other job changed, and
nothing but jobs, index and leases did. -/
structure Rewrite (s : TestStorage) (id : JobId) (job' : Job) (s' : TestStorage) : Prop where
  jobs : ∀ k, s'.jobs.lookup k = if k = id then some job' else s.jobs.lookup k
  keys : s'.jobs.keys = s.jobs.keys
  rest : SameRegisters s s'
  index : s.Coherent → s'.Coherent

theorem Rewrite.lookup_self (h : Rewrite s id job' s') : s'.jobs.lookup id = some job' := by
  rw [h.jobs, if_pos rfl]

theorem Rewrite.lookup_ne (h : Rewrite s id job' s') {k : JobId} (hk : k ≠ id) :
    s'.jobs.lookup k = s.jobs.lookup k := by
  rw [h.jobs, if_neg hk]

/-- Rewriting a job with one of the same id keeps jobs under their
ids. -/
theorem Rewrite.keyed (h : Rewrite s id job' s') (hid : job'.id = id) (hk : s.Keyed) :
    s'.Keyed := by
  intro k job hlookup
  rw [h.jobs] at hlookup
  split at hlookup
  · next hkid =>
    injection hlookup with hlookup
    rw [← hlookup, hid, hkid]
  · exact hk k job hlookup

/-- Two rewrites of one job are one. -/
theorem Rewrite.trans {job'' : Job} (h₁ : Rewrite s id job' s') (h₂ : Rewrite s' id job'' s'') :
    Rewrite s id job'' s'' where
  jobs k := by
    rw [h₂.jobs, h₁.jobs]
    split <;> rfl
  keys := h₂.keys.trans h₁.keys
  rest := h₁.rest.trans h₂.rest
  index := h₂.index ∘ h₁.index

-- == record updates

@[simp] theorem modifyJob_lookup (s : TestStorage) (id k : JobId) (f : Job → Job) :
    (s.modifyJob id f).jobs.lookup k
      = if k = id then (s.jobs.lookup id).map f else s.jobs.lookup k :=
  Table.lookup_modify s.jobs id k f

@[simp] theorem modifyJob_keys (s : TestStorage) (id : JobId) (f : Job → Job) :
    (s.modifyJob id f).jobs.keys = s.jobs.keys :=
  Table.keys_mapVals _ _

/-- A coherent index stays so when no job's queue or status changes. -/
theorem Coherent.congr (h : s.Coherent) (hq : s'.queues = s.queues)
    (hjobs : ∀ k, (s'.jobs.lookup k).map (fun j => (j.queueName, j.status))
      = (s.jobs.lookup k).map fun j => (j.queueName, j.status)) : s'.Coherent where
  mem q st k := by
    rw [hq, h.mem]
    have hk := hjobs k
    cases hs : s.jobs.lookup k with
    | none =>
        rw [hs] at hk
        rw [Option.map_eq_none_iff.1 hk]
    | some job =>
        rw [hs] at hk
        obtain ⟨job', hs', heq⟩ := Option.map_eq_some_iff.1 hk
        simp only [Prod.mk.injEq] at heq
        rw [hs']
        simp [heq.1, heq.2]
  nodup q st := by
    rw [hq]
    exact h.nodup q st

/-- Rewriting fields of a record other than its queue and status. -/
theorem rewrite_modify (h : s.jobs.lookup id = some job) (f : Job → Job)
    (hjob : job' = f job) (hq : job'.queueName = job.queueName)
    (hst : job'.status = job.status)
    (hs' : s' = { s.modifyJob id f with leases := s'.leases }) : Rewrite s id job' s' where
  jobs k := by
    rw [hs']
    show (s.modifyJob id f).jobs.lookup k = _
    rw [modifyJob_lookup, h, hjob]
    rfl
  keys := by
    rw [hs']
    exact modifyJob_keys s id f
  rest := by
    unfold SameRegisters
    rw [hs']
    rfl
  index hco := by
    refine hco.congr (by rw [hs']; rfl) fun k => ?_
    rw [hs']
    show ((s.modifyJob id f).jobs.lookup k).map _ = _
    rw [modifyJob_lookup, h]
    split
    · next hk =>
      subst hk
      simp [h, ← hjob, hq, hst]
    · rfl

/-- A coherent index stays so when one job changes and the index moves
it, and it alone, to where its new record says. -/
theorem Coherent.moved (hco : s.Coherent)
    (hjobs : ∀ k, s'.jobs.lookup k = if k = id then some job' else s.jobs.lookup k)
    (hid : ∀ q st, id ∈ QueueIndex.list s'.queues q st ↔
      q = job'.queueName ∧ st = job'.status)
    (hmem : ∀ q st k, k ≠ id →
      (k ∈ QueueIndex.list s'.queues q st ↔ k ∈ QueueIndex.list s.queues q st))
    (hnodup : ∀ q st, (QueueIndex.list s'.queues q st).Nodup) : s'.Coherent where
  mem q st k := by
    rw [hjobs]
    by_cases hk : k = id
    · subst hk
      rw [if_pos rfl, hid]
      simp [eq_comm]
    · rw [if_neg hk, hmem q st k hk, hco.mem]
  nodup := hnodup

/-- Where a coherent index has a stored job. -/
theorem Coherent.mem_list (hco : s.Coherent) (h : s.jobs.lookup id = some job) (q : String)
    (st : JobStatus) :
    id ∈ QueueIndex.list s.queues q st ↔ q = job.queueName ∧ st = job.status := by
  rw [hco.mem, h]
  simp [eq_comm]

-- == status writes

/-- The storage with a job moved to another status. -/
def restatus (s : TestStorage) (id : JobId) (job : Job) (st : JobStatus) : TestStorage :=
  { s with
    queues := QueueIndex.add (QueueIndex.drop s.queues job.queueName job.status id)
      job.queueName st id
    jobs := s.jobs.modify id fun job => { job with status := st } }

theorem updateJobStatus_eq (h : s.jobs.lookup id = some job) (st : JobStatus) :
    s.updateJobStatus id st = .ok (s.restatus id job st) := by
  unfold updateJobStatus
  rw [h]
  rfl

theorem updateJobStatus_none (h : s.jobs.lookup id = none) (st : JobStatus) :
    s.updateJobStatus id st = .error (jobNotFound id) := by
  unfold updateJobStatus
  rw [h]

/-- Taking a job out of the list it is in. -/
private theorem mem_dropped (hco : s.Coherent) (h : s.jobs.lookup id = some job)
    (q : String) (st : JobStatus) (k : JobId) :
    k ∈ QueueIndex.list (QueueIndex.drop s.queues job.queueName job.status id) q st
      ↔ k ≠ id ∧ k ∈ QueueIndex.list s.queues q st := by
  rw [QueueIndex.list_drop]
  split
  · next heq =>
    rw [heq.1, heq.2]
    simp [and_comm]
  · next hne =>
    refine ⟨fun hk => ⟨fun hkid => hne ?_, hk⟩, fun hk => hk.2⟩
    rw [hkid] at hk
    exact (hco.mem_list h q st).1 hk

private theorem nodup_dropped (hco : s.Coherent) (q q' : String) (st st' : JobStatus)
    (k : JobId) : (QueueIndex.list (QueueIndex.drop s.queues q st k) q' st').Nodup := by
  rw [QueueIndex.list_drop]
  split
  · exact (hco.nodup _ _).filter _
  · exact hco.nodup _ _

/-- Appending an id that is in no list. -/
theorem nodup_append_new {l : List JobId} (hl : l.Nodup) (hid : id ∉ l) :
    (l ++ [id]).Nodup := by
  refine List.nodup_append.2 ⟨hl, List.nodup_singleton id, ?_⟩
  intro a ha b hb hab
  rw [List.mem_singleton.1 hb] at hab
  exact hid (hab ▸ ha)

/-- Moving a job to another status and rewriting other fields of its
record: the one pattern behind every transition. -/
theorem rewrite_restatus (h : s.jobs.lookup id = some job) (st : JobStatus) (f : Job → Job)
    (hjob : job' = f { job with status := st }) (hq : job'.queueName = job.queueName)
    (hst : job'.status = st)
    (hs' : s' = { (s.restatus id job st).modifyJob id f with leases := s'.leases }) :
    Rewrite s id job' s' := by
  have hlookup : ∀ k, s'.jobs.lookup k = if k = id then some job' else s.jobs.lookup k := by
    intro k
    rw [hs']
    show ((s.restatus id job st).modifyJob id f).jobs.lookup k = _
    rw [modifyJob_lookup]
    show (if k = id then ((s.modifyJob id _).jobs.lookup id).map f
      else (s.modifyJob id _).jobs.lookup k) = _
    rw [modifyJob_lookup, if_pos rfl, h, modifyJob_lookup, hjob]
    split <;> rfl
  have hqueues : s'.queues = QueueIndex.add
      (QueueIndex.drop s.queues job.queueName job.status id) job.queueName st id := by
    rw [hs']
    rfl
  refine ⟨hlookup, ?_, ?_, fun hco => hco.moved hlookup ?_ ?_ ?_⟩
  · rw [hs']
    show ((s.restatus id job st).modifyJob id f).jobs.keys = _
    rw [modifyJob_keys]
    exact modifyJob_keys s id _
  · unfold SameRegisters
    rw [hs']
    rfl
  all_goals
    have hnew : id ∉ QueueIndex.list
        (QueueIndex.drop s.queues job.queueName job.status id) job.queueName st :=
      fun hin => ((mem_dropped hco h _ _ id).1 hin).1 rfl
    rw [hqueues]
    intro q st'
    rw [QueueIndex.list_add, if_neg hnew]
  · rw [hq, hst]
    split
    · next heq => simp [heq]
    · next hne =>
      rw [mem_dropped hco h]
      simp [hne]
  · intro k hk
    split
    · next heq =>
      rw [heq.1, heq.2, List.mem_append, mem_dropped hco h]
      simp [hk]
    · rw [mem_dropped hco h]
      simp [hk]
  · split
    · exact nodup_append_new (nodup_dropped hco _ _ _ _ _) hnew
    · exact nodup_dropped hco _ _ _ _ _

/-- An archived job put back: the one move that appends to the index
without looking. -/
theorem rewrite_restore (h : s.jobs.lookup id = some job) (harch : job.status = .archived)
    (hq : job'.queueName = job.queueName) (hst : job'.status = .pending)
    (hs' : s' = { s.modifyJob id fun _ => job' with
      queues := QueueIndex.push (QueueIndex.drop s.queues job.queueName .archived id)
        job.queueName .pending id }) :
    Rewrite s id job' s' := by
  have hlookup : ∀ k, s'.jobs.lookup k = if k = id then some job' else s.jobs.lookup k := by
    intro k
    rw [hs']
    show (s.modifyJob id fun _ => job').jobs.lookup k = _
    rw [modifyJob_lookup, h]
    rfl
  refine ⟨hlookup, ?_, ?_, fun hco => hco.moved hlookup ?_ ?_ ?_⟩
  · rw [hs']
    exact modifyJob_keys s id _
  · unfold SameRegisters
    rw [hs']
    rfl
  all_goals
    have hdropped := mem_dropped hco h
    rw [harch] at hdropped
    have hsome : ((QueueIndex.drop s.queues job.queueName .archived id).lookup
        job.queueName).isSome := by
      have hin := (hco.mem_list h job.queueName job.status).2 ⟨rfl, rfl⟩
      unfold QueueIndex.drop
      rw [Table.lookup_modify, if_pos rfl, Option.isSome_map]
      exact QueueIndex.isSome_of_mem_list hin
    have hnew : id ∉ QueueIndex.list
        (QueueIndex.drop s.queues job.queueName .archived id) job.queueName .pending :=
      fun hin => ((hdropped _ _ id).1 hin).1 rfl
    have hqueues : s'.queues = QueueIndex.push
        (QueueIndex.drop s.queues job.queueName .archived id) job.queueName .pending id := by
      rw [hs']
    rw [hqueues]
    intro q st
    rw [QueueIndex.list_push _ _ _ _ _ _ hsome]
  · rw [hq, hst]
    split
    · next heq => simp [heq]
    · next hne =>
      rw [hdropped]
      simp [hne]
  · intro k hk
    split
    · next heq =>
      rw [heq.1, heq.2, List.mem_append, hdropped]
      simp [hk]
    · rw [hdropped]
      simp [hk]
  · split
    · exact nodup_append_new (nodup_dropped hco _ _ _ _ _) hnew
    · exact nodup_dropped hco _ _ _ _ _

-- == lookups of helpers

theorem checkTransition_ok {transition : JobTransition} :
    s.checkTransition id transition = .ok () ↔
      ∃ job, s.jobs.lookup id = some job ∧ transition.isAllowedFrom job.status = true := by
  unfold checkTransition
  cases h : s.jobs.lookup id with
  | none => simp
  | some job =>
      simp only [Option.some.injEq, exists_eq_left']
      split <;> simp_all

theorem isJob_iff {p : Job → Bool} :
    s.isJob id p = true ↔ ∃ job, s.jobs.lookup id = some job ∧ p job = true := by
  unfold isJob
  cases s.jobs.lookup id <;> simp

theorem isJob_stored : s.isJob id (fun _ => true) = (s.jobs.lookup id).isSome := by
  unfold isJob
  cases s.jobs.lookup id <;> rfl

theorem mem_values_iff {job : Job} :
    job ∈ s.jobs.values ↔ ∃ k, s.jobs.lookup k = some job :=
  Table.mem_values

/-- In a keyed storage, a job is among the values iff it is stored under
its id. -/
theorem Keyed.mem_values (hk : s.Keyed) :
    job ∈ s.jobs.values ↔ s.jobs.lookup job.id = some job := by
  rw [mem_values_iff]
  constructor
  · rintro ⟨k, hlookup⟩
    rw [hk k job hlookup]
    exact hlookup
  · exact fun h => ⟨_, h⟩

-- == failed as a side effect

/-- A job failed as a side effect at `now`. -/
def sideFailed (job : Job) (error : String) (now : DateTime) : Job :=
  { job with
    status := .failed
    failedAt := some now
    errorMessage := some error
    dependencyStatus :=
      if job.dependencyStatus = .waiting then .failed else job.dependencyStatus }

theorem failAsSideEffect_none (h : s.jobs.lookup id = none) (error : String) (now : DateTime) :
    s.failAsSideEffect id error now = s := by
  unfold failAsSideEffect
  rw [updateJobStatus_none h]

theorem failAsSideEffect_rewrite (h : s.jobs.lookup id = some job) (error : String)
    (now : DateTime) :
    Rewrite s id (sideFailed job error now) (s.failAsSideEffect id error now) := by
  unfold failAsSideEffect
  rw [updateJobStatus_eq h]
  exact rewrite_restatus h .failed (fun job =>
    { job with
      failedAt := some now
      errorMessage := some error
      dependencyStatus :=
        if job.dependencyStatus = .waiting then .failed else job.dependencyStatus })
    rfl rfl rfl rfl

/-- Failing a job as a side effect, whether or not it is stored. -/
theorem failAsSideEffect_lookup (s : TestStorage) (id k : JobId) (error : String)
    (now : DateTime) :
    (s.failAsSideEffect id error now).jobs.lookup k
      = if k = id then (s.jobs.lookup id).map (sideFailed · error now)
        else s.jobs.lookup k := by
  cases h : s.jobs.lookup id with
  | none =>
      rw [failAsSideEffect_none h]
      split
      · next hk => rw [hk, h]; rfl
      · rfl
  | some job =>
      rw [(failAsSideEffect_rewrite h error now).jobs]
      rfl

theorem failAsSideEffect_rest (s : TestStorage) (id : JobId) (error : String)
    (now : DateTime) : SameRegisters s (s.failAsSideEffect id error now) := by
  cases h : s.jobs.lookup id with
  | none => rw [failAsSideEffect_none h]; exact .refl s
  | some job => exact (failAsSideEffect_rewrite h error now).rest

end TestStorage

end Hammerwork
