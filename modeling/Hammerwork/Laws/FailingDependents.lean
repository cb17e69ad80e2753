/-
What failing the dependents of a job comes to.

Dependencies form a graph with two kinds of edges, those on the records
and those only the workflow map knows (`DependsDirectly`), and the graph
may have cycles. Failing the dependents of `root` walks it and fails
jobs as it goes, so that the walk changes what it is looking for. All
the same it ends, and what it fails is a matter of the graph as it was
at the start: the jobs to which a path of jobs that could fail leads
from `root` (`FailureReaches`), each once, and each blaming a job that
failed before it (`FailsExactly`).

No storage is excluded. The index may be out of step with the records,
and then keeps the entries it has: a job failed leaves the list of
pending jobs of its queue and enters the list of failed ones unless it
is there.

# The proof

The walk is a worklist search (`Lib.Worklist`), and its effects are
those of failing one job after another along its trail (`Lib.Trail`), so
what remains is what that does to the index (`foldl_indexed`).
-/
import Hammerwork.Proofs.Blame

namespace Hammerwork

namespace TestStorage

variable {s s' : TestStorage} {root k : JobId} {job : Job} {now : DateTime}

-- == the graph

/-- `k` depends directly on `c`: the workflow map lists it, or its
record says so. -/
def DependsDirectly (s : TestStorage) (k c : JobId) : Prop :=
  k ∈ (s.dependents.lookup c).getD [] ∨ ∃ job ∈ s.jobs.values, c ∈ job.dependsOn ∧ job.id = k

/-- A stored job that can fail because a dependency did. -/
def CanFail (s : TestStorage) (k : JobId) : Prop :=
  ∃ job, s.jobs.lookup k = some job ∧ job.status = .pending ∧ job.dependencyStatus ≠ .failed

/-- A path of jobs that can fail leads from `root` to the job. -/
inductive FailureReaches (s : TestStorage) (root : JobId) : JobId → Prop
  | first {k : JobId} : DependsDirectly s k root → CanFail s k → FailureReaches s root k
  | next {c k : JobId} : FailureReaches s root c → DependsDirectly s k c → CanFail s k →
      FailureReaches s root k

/-- Those of `ids` stored in a queue. -/
def inQueue (s : TestStorage) (ids : List JobId) (queueName : String) : List JobId :=
  ids.filter fun k => s.isJob k (·.queueName = queueName)

/-- `s'` is `s` after the jobs `ids`, in this order, failed because
`root` did. -/
structure FailsExactly (s s' : TestStorage) (root : JobId) (now : DateTime)
    (ids : List JobId) : Prop where
  /-- They are the jobs the failure reaches. -/
  reached : ∀ k, k ∈ ids ↔ FailureReaches s root k
  /-- Each fails once. -/
  once : ids.Nodup
  /-- Each blames a dependency that is `root` or failed before it. -/
  failed : ∀ before k after, ids = before ++ k :: after → ∃ job c,
    s.jobs.lookup k = some job ∧ (c = root ∨ c ∈ before) ∧ DependsDirectly s k c ∧
      s'.jobs.lookup k = some (sideFailed job (dependencyFailedMessage c) now)
  /-- And loses its lease, if it has one. -/
  leases : ∀ k ∈ ids, s'.leases.lookup k = none
  /-- No other record or lease is changed. -/
  kept : ∀ k, k ∉ ids → s'.jobs.lookup k = s.jobs.lookup k ∧
    s'.leases.lookup k = s.leases.lookup k
  /-- They leave the pending jobs of their queue. -/
  pending : ∀ queueName, QueueIndex.list s'.queues queueName .pending
    = (QueueIndex.list s.queues queueName .pending).filter (· ∉ s.inQueue ids queueName)
  /-- And join the failed ones. -/
  joined : ∀ queueName, QueueIndex.list s'.queues queueName .failed
    = QueueIndex.list s.queues queueName .failed
      ++ (s.inQueue ids queueName).filter (· ∉ QueueIndex.list s.queues queueName .failed)
  /-- No other list of the index is changed. -/
  lists : ∀ queueName status, status ≠ .pending → status ≠ .failed →
    QueueIndex.list s'.queues queueName status = QueueIndex.list s.queues queueName status
  /-- Nothing but jobs, index and leases is. -/
  rest : SameRegisters s s'

theorem mem_directDependents_iff {c : JobId} :
    k ∈ s.directDependents c ↔ DependsDirectly s k c :=
  mem_directDependents

theorem canFail_iff : s.isJob k canFailAsDependent = true ↔ CanFail s k := by
  rw [isJob_iff]
  unfold CanFail canFailAsDependent
  simp

/-- The jobs reached are those downstream. -/
theorem failureReaches_iff : FailureReaches s root k ↔ Downstream s root k := by
  constructor
  · intro h
    induction h with
    | first hdep hcan => exact .direct (mem_directDependents_iff.2 hdep) (canFail_iff.2 hcan)
    | next _ hdep hcan ih =>
        exact .step ih (mem_directDependents_iff.2 hdep) (canFail_iff.2 hcan)
  · intro h
    induction h with
    | direct hx hf => exact .first (mem_directDependents_iff.1 hx) (canFail_iff.1 hf)
    | step _ hx hf ih => exact .next ih (mem_directDependents_iff.1 hx) (canFail_iff.1 hf)

-- == the index

/-- The lists after one pending job is failed. -/
theorem failAsSideEffect_list (h : s.jobs.lookup k = some job) (hpending : job.status = .pending)
    (message : String) (now : DateTime) (q : String) (st : JobStatus) :
    QueueIndex.list (s.failAsSideEffect k message now).queues q st
      = if q = job.queueName ∧ st = .failed then
          if k ∈ QueueIndex.list s.queues q st then QueueIndex.list s.queues q st
          else QueueIndex.list s.queues q st ++ [k]
        else if q = job.queueName ∧ st = .pending then
          (QueueIndex.list s.queues q st).filter (· ≠ k)
        else QueueIndex.list s.queues q st := by
  have hqueues : (s.failAsSideEffect k message now).queues = QueueIndex.add
      (QueueIndex.drop s.queues job.queueName job.status k) job.queueName .failed k := by
    unfold failAsSideEffect
    rw [updateJobStatus_eq h]
    rfl
  rw [hqueues, QueueIndex.list_add]
  split
  case isTrue hin =>
    obtain ⟨rfl, rfl⟩ := hin
    have hdrop : QueueIndex.list (QueueIndex.drop s.queues job.queueName job.status k)
        job.queueName .failed = QueueIndex.list s.queues job.queueName .failed := by
      rw [QueueIndex.list_drop, hpending]
      simp
    rw [hdrop]
  case isFalse hout =>
    rw [QueueIndex.list_drop, hpending]
    split
    case isTrue hin =>
      obtain ⟨rfl, rfl⟩ := hin
      rfl
    case isFalse => rfl

/-- What failing jobs one after another does to the index. -/
structure Indexed (s s' : TestStorage) (ids : List JobId) : Prop where
  pending : ∀ q, QueueIndex.list s'.queues q .pending
    = (QueueIndex.list s.queues q .pending).filter (· ∉ s.inQueue ids q)
  joined : ∀ q, QueueIndex.list s'.queues q .failed
    = QueueIndex.list s.queues q .failed
      ++ (s.inQueue ids q).filter (· ∉ QueueIndex.list s.queues q .failed)
  lists : ∀ q st, st ≠ .pending → st ≠ .failed →
    QueueIndex.list s'.queues q st = QueueIndex.list s.queues q st

/-- Failing a job first. -/
theorem Indexed.cons {ids : List JobId} {message : String} (h : s.jobs.lookup k = some job)
    (hpending : job.status = .pending) (hk : k ∉ ids)
    (hrest : Indexed (s.failAsSideEffect k message now) s' ids) : Indexed s s' (k :: ids) := by
  have hlist := failAsSideEffect_list h hpending message now
  -- the other jobs are in the queues they were in
  have hids : ∀ q, (s.failAsSideEffect k message now).inQueue ids q = s.inQueue ids q := by
    intro q
    refine List.filter_congr fun x hx => ?_
    have hne : x ≠ k := fun heq => hk (heq ▸ hx)
    unfold isJob
    rw [(failAsSideEffect_rewrite h message now).lookup_ne hne]
  have hcons : ∀ q, s.inQueue (k :: ids) q
      = if job.queueName = q then k :: s.inQueue ids q else s.inQueue ids q := by
    intro q
    unfold inQueue isJob
    rw [List.filter_cons, h]
    simp
  have hout : ∀ q, k ∉ s.inQueue ids q := fun q hmem => hk (List.mem_filter.1 hmem).1
  refine ⟨fun q => ?_, fun q => ?_, fun q st hp hf => ?_⟩
  · rw [hrest.pending, hlist, hids, hcons]
    by_cases hq : q = job.queueName
    · subst hq
      simp [List.filter_filter, Bool.and_comm]
    · simp [hq, Ne.symm hq]
  · rw [hrest.joined, hlist, hids, hcons]
    by_cases hq : q = job.queueName
    · subst hq
      simp only [and_self, if_true]
      by_cases hin : k ∈ QueueIndex.list s.queues job.queueName .failed
      · simp [hin]
      · rw [if_neg hin, List.filter_cons, if_pos (by simpa using hin), List.append_assoc,
          List.singleton_append]
        refine congrArg (_ ++ k :: ·) (List.filter_congr fun x hx => ?_)
        have hne : x ≠ k := fun heq => hout _ (heq ▸ hx)
        simp [hne]
    · simp [hq, Ne.symm hq]
  · rw [hrest.lists q st hp hf, hlist]
    simp [hp, hf]

/-- Failing pending jobs one after another. -/
theorem foldl_indexed (now : DateTime) (l : List (JobId × JobId))
    (hnd : (l.map Prod.snd).Nodup) : ∀ s : TestStorage,
    (∀ e ∈ l, CanFail s e.2) →
      Indexed s (l.foldl (fun s e =>
        s.failAsSideEffect e.2 (dependencyFailedMessage e.1) now) s) (l.map Prod.snd) := by
  induction l with
  | nil => exact fun s _ => ⟨by simp [inQueue], by simp [inQueue], fun _ _ _ _ => rfl⟩
  | cons e l ih =>
      intro s hcan
      rw [List.map_cons, List.nodup_cons] at hnd
      obtain ⟨job, hlookup, hpending, -⟩ := hcan e (List.mem_cons_self ..)
      refine Indexed.cons hlookup hpending hnd.1 (ih hnd.2 _ fun e' he' => ?_)
      have hne : e'.2 ≠ e.2 := fun heq => hnd.1 (heq ▸ List.mem_map_of_mem he')
      unfold CanFail
      rw [(failAsSideEffect_rewrite hlookup _ now).lookup_ne hne]
      exact hcan e' (List.mem_cons_of_mem _ he')

-- == the walk

/-- The walk ends, and `failDependents` is what it ends with. -/
theorem failDependents_ends (s : TestStorage) (root : JobId) (now : DateTime) :
    ∃ p, (dependentsSearch now).Ends { state := s, marked := [], stack := [root] } p ∧
      s.failDependents root now = (p.state, p.marked) := by
  refine ⟨_, (dependentsSearch now).ends_search (s.jobs.keys.length + 1) ?_, rfl⟩
  refine (dependentsSearch now).stack_run (dependentsSearch_lawful now) s root
    (fun k hk => ?_) (Nat.lt_succ_self _)
  obtain ⟨job, hlookup, -⟩ := isJob_iff.1 hk
  exact Table.mem_keys_of_lookup hlookup

/-- A job on the trail ends up failed, and blames the one that found
it. -/
theorem failDependents_entry {c : JobId} (h : (c, k) ∈ searchTrail s root) (now : DateTime) :
    ∃ job, s.jobs.lookup k = some job ∧ (s.failDependents root now).1.entry k
      = (some (sideFailed job (dependencyFailedMessage c) now), none) :=
  (failDependents_blamed s root now).taken k _ ⟨c, h, rfl⟩

/-- Failing the dependents of a job fails what its failure reaches. -/
theorem failDependents_exactly (s : TestStorage) (root : JobId) (now : DateTime) :
    (∃ p, (dependentsSearch now).Ends { state := s, marked := [], stack := [root] } p ∧
      s.failDependents root now = (p.state, p.marked)) ∧
    FailsExactly s (s.failDependents root now).1 root now (s.failDependents root now).2 := by
  refine ⟨failDependents_ends s root now, ?_⟩
  obtain ⟨hids, hstate⟩ := failDependents_trail s root now
  have hblamed := failDependents_blamed s root now
  have hreached : ∀ k, k ∈ (s.failDependents root now).2 ↔ FailureReaches s root k :=
    fun k => (mem_failDependents s root now k).trans failureReaches_iff.symm
  have hindexed := foldl_indexed now (searchTrail s root) (Worklist.nodup_trail ..) s
    fun e he => by
      have hmem : e.2 ∈ (searchTrail s root).map Prod.snd := List.mem_map_of_mem he
      exact canFail_iff.1 (mem_searchTrail.1 hmem).isFresh
  rw [← hids, ← hstate] at hindexed
  refine ⟨hreached, ?_, fun before k after heq => ?_, fun k hk => ?_, fun k hk => ?_,
    hindexed.pending, hindexed.joined, hindexed.lists, (failDependents_spec s root now).rest⟩
  · rw [hids]
    exact Worklist.nodup_trail ..
  · -- split the trail where the ids are split
    rw [hids] at heq
    obtain ⟨l, l', htrail, rfl, hcons⟩ := List.map_eq_append_iff.1 heq
    obtain ⟨⟨c, x⟩, l'', rfl, rfl, rfl⟩ := List.map_eq_cons_iff.1 hcons
    have hmem : (c, x) ∈ searchTrail s root := by
      rw [htrail]
      exact List.mem_append_right _ (List.mem_cons_self ..)
    obtain ⟨job, hlookup, hentry⟩ := failDependents_entry hmem now
    exact ⟨job, c, hlookup, Worklist.trail_before htrail,
      mem_directDependents_iff.1 (Worklist.trail_edge hmem), congrArg Prod.fst hentry⟩
  · rw [hids] at hk
    obtain ⟨⟨c, x⟩, hmem, rfl⟩ := List.mem_map.1 hk
    obtain ⟨job, -, hentry⟩ := failDependents_entry hmem now
    exact congrArg Prod.snd hentry
  · have hsame := hblamed.others k fun message ⟨c, hmem, _⟩ => hk (by
      rw [hids]
      exact List.mem_map_of_mem hmem)
    exact ⟨congrArg Prod.fst hsame, congrArg Prod.snd hsame⟩

end TestStorage

end Hammerwork
