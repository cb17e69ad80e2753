/-
Children enqueued one by one.

`enqueueChildren` stops at the first child that cannot be sealed, and
what it enqueued before that stays. `Spawned` says what is stored
afterwards, whether it stopped or not: jobs of other ids are as they
were, and a job under a child's id is as it was or arrived with this
call (`ArrivedIn`).
-/
import Hammerwork.Proofs.Calls

namespace Hammerwork

open TestStorage TestQueue

variable {s s' : TestStorage} {env : Env} {child job : Job} {children : List Job}

-- == sealing

/-- The payload of `job` can be sealed, or need not be. -/
def PayloadEncryption.Seals (encryption : PayloadEncryption) (job : Job) : Prop :=
  ∃ sealedJob, encryption.sealOne job = .ok sealedJob

theorem PayloadEncryption.sealJobs_singleton {encryption : PayloadEncryption} :
    (∃ sealedJobs, encryption.sealJobs [job] = .ok sealedJobs) ↔ encryption.Seals job := by
  unfold PayloadEncryption.sealJobs PayloadEncryption.Seals
  rw [List.mapM_cons, List.mapM_nil]
  cases encryption.sealOne job with
  | error e => exact ⟨fun ⟨_, h⟩ => (by cases h), fun ⟨_, h⟩ => (by cases h)⟩
  | ok sealedJob => exact ⟨fun _ => ⟨_, rfl⟩, fun _ => ⟨_, rfl⟩⟩

/-- A job within the dependency limits is enqueued iff it can be
sealed. -/
theorem enqueue_isOk_iff (hvalid : job.validateDependencies = .ok ()) :
    (∃ s', enqueue env s job = .ok (s', job.id)) ↔ env.encryption.Seals job := by
  rw [← PayloadEncryption.sealJobs_singleton]
  constructor
  · rintro ⟨s', h⟩
    obtain ⟨-, -, sealedJobs, hseal, -⟩ := enqueue_ok.1 h
    exact ⟨sealedJobs, hseal⟩
  · rintro ⟨sealedJobs, hseal⟩
    exact ⟨_, enqueue_ok.2 ⟨rfl, hvalid, sealedJobs, hseal, rfl⟩⟩

theorem validateDependencyLimits_ok {jobs : List Job} (h : validateDependencyLimits jobs = .ok ()) :
    ∀ job ∈ jobs, job.validateDependencies = .ok () := by
  unfold validateDependencyLimits at h
  induction jobs with
  | nil => exact fun job hjob => (by cases hjob)
  | cons first jobs ih =>
      rw [List.forM] at h
      obtain ⟨⟨⟩, hfirst, hrest⟩ := bind_eq_ok.1 h
      intro job hjob
      rcases List.mem_cons.1 hjob with rfl | hjob
      · exact hfirst
      · exact ih hrest job hjob

-- == one child

/-- `job` is what a child handed in as `given` is stored as, when jobs
whose ids are not in `ids` are as in `s`. -/
def ArrivedIn (s : TestStorage) (ids : List JobId) (given job : Job) : Prop :=
  ∃ t stored, (∀ k, k ∉ ids → t.jobs.lookup k = s.jobs.lookup k) ∧
    Arrives t [given] stored given job

theorem joinSpawned_lookup (s : TestStorage) (child : Job) (id k : JobId) :
    (joinSpawned s child id).jobs.lookup k = s.jobs.lookup k := by
  unfold joinSpawned
  split
  · unfold joinWorkflow
    split <;> rfl
  · rfl

theorem joinSpawned_queues (s : TestStorage) (child : Job) (id : JobId) :
    (joinSpawned s child id).queues = s.queues := by
  unfold joinSpawned
  split
  · unfold joinWorkflow
    split <;> rfl
  · rfl

/-- The jobs after a child was enqueued: the child, and the others as
they were. -/
theorem enqueue_lookup {id : JobId} (h : enqueue env s child = .ok (s', id)) :
    id = child.id ∧ (∀ k, k ≠ child.id → s'.jobs.lookup k = s.jobs.lookup k) ∧
      ∃ job stored, s'.jobs.lookup child.id = some job ∧ Arrives s [child] stored child job := by
  obtain ⟨stored, harr, hin⟩ := (enqueue_enqueued h).1
  refine ⟨(enqueue_ok.1 h).1, ?_⟩
  have hids := forall₂_ids (fun _ _ h => h.keeps.id) harr.each
  have heach := harr.each
  cases heach with
  | @cons _ job _ rest harrives hrest =>
      cases hrest
      refine ⟨fun k hk => hin.lookup_old ?_, job, [job], ?_, harrives⟩
      · rw [hids]
        simpa using hk
      · rw [← harrives.keeps.id]
        exact hin.lookup_new (by simp) (List.mem_singleton_self _)

/-- The recursion, with the step in between named. -/
theorem enqueueChildren_cons (env : Env) (child : Job) (children : List Job) (s : TestStorage) :
    enqueueChildren env (child :: children) s =
      match enqueue env s child with
      | .error e => (.error e, s)
      | .ok (s, id) =>
          match enqueueChildren env children (joinSpawned s child id) with
          | (.error e, s) => (.error e, s)
          | (.ok ids, s) => (.ok (id :: ids), s) := by
  rw [enqueueChildren]
  rfl

-- == all children

/-- The jobs after children were enqueued, all of them or the first
few. -/
structure Spawned (s : TestStorage) (children : List Job) (s' : TestStorage) : Prop where
  old : ∀ k, k ∉ children.map (·.id) → s'.jobs.lookup k = s.jobs.lookup k
  cases : ∀ k job, s'.jobs.lookup k = some job → s.jobs.lookup k = some job ∨
    ∃ given ∈ children, given.id = k ∧ ArrivedIn s (children.map (·.id)) given job
  stays : ∀ k, (s.jobs.lookup k).isSome → (s'.jobs.lookup k).isSome

theorem Spawned.refl (s : TestStorage) (children : List Job) : Spawned s children s :=
  ⟨fun _ _ => rfl, fun _ _ h => .inl h, fun _ h => h⟩

/-- One child, and then the rest. -/
theorem Spawned.cons {s₁ : TestStorage} {id : JobId} (h : enqueue env s child = .ok (s₁, id))
    (hrest : Spawned (joinSpawned s₁ child id) children s') :
    Spawned s (child :: children) s' := by
  obtain ⟨-, hold, job₁, stored, hnew, harrives⟩ := enqueue_lookup h
  obtain ⟨hold', hcases, hstays⟩ := hrest
  simp only [joinSpawned_lookup] at hold' hcases hstays
  refine ⟨fun k hk => ?_, fun k job hlookup => ?_, fun k hk => hstays k ?_⟩
  · rw [List.map_cons, List.mem_cons, not_or] at hk
    rw [hold' k hk.2, hold k hk.1]
  · rcases hcases k job hlookup with hmid | ⟨given, hgiven, hid, t, stored', ht, harrives'⟩
    · by_cases hk : k = child.id
      · subst hk
        rw [hnew] at hmid
        injection hmid with hmid
        subst hmid
        exact .inr ⟨child, List.mem_cons_self .., rfl, s, stored, fun _ _ => rfl, harrives⟩
      · exact .inl (hold k hk ▸ hmid)
    · refine .inr ⟨given, List.mem_cons_of_mem _ hgiven, hid, t, stored', fun x hx => ?_,
        harrives'⟩
      rw [List.map_cons, List.mem_cons, not_or] at hx
      rw [ht x hx.2, joinSpawned_lookup, hold x hx.1]
  · by_cases hk' : k = child.id
    · rw [hk', hnew]
      rfl
    · rwa [hold k hk']

theorem enqueueChildren_spawned (env : Env) (children : List Job) : ∀ s : TestStorage,
    Spawned s children (enqueueChildren env children s).2 := by
  induction children with
  | nil => exact fun s => .refl s []
  | cons child children ih =>
      intro s
      rw [enqueueChildren_cons]
      cases henq : enqueue env s child with
      | error e => exact .refl s _
      | ok out =>
          obtain ⟨s₁, id⟩ := out
          have hrest := ih (joinSpawned s₁ child id)
          dsimp only
          generalize enqueueChildren env children (joinSpawned s₁ child id) = out at hrest ⊢
          obtain ⟨result, s₂⟩ := out
          cases result <;> exact .cons henq hrest

/-- When all went well every child was sealed and is stored. -/
theorem enqueueChildren_ok {spawned : List JobId} : ∀ {children : List Job} {s : TestStorage},
    (enqueueChildren env children s).1 = .ok spawned →
      spawned = children.map (·.id) ∧ ∀ child ∈ children, env.encryption.Seals child ∧
        ((enqueueChildren env children s).2.jobs.lookup child.id).isSome := by
  intro children
  induction children generalizing spawned with
  | nil =>
      intro s h
      injection h with h
      exact ⟨h.symm, fun child hchild => (by cases hchild)⟩
  | cons first children ih =>
      intro s h
      rw [enqueueChildren_cons] at h ⊢
      cases henq : enqueue env s first with
      | error e => rw [henq] at h; cases h
      | ok out =>
          obtain ⟨s₁, id⟩ := out
          obtain ⟨rfl, hvalid, sealedJobs, hseal, -⟩ := enqueue_ok.1 henq
          obtain ⟨-, -, job, -, hnew, -⟩ := enqueue_lookup henq
          rw [henq] at h
          dsimp only at h ⊢
          have hstays := (enqueueChildren_spawned env children
            (joinSpawned s₁ first first.id)).stays first.id
              (by rw [joinSpawned_lookup, hnew]; rfl)
          have hrest := @ih
          generalize hout : enqueueChildren env children (joinSpawned s₁ first first.id) = out
            at h hstays ⊢
          obtain ⟨result, s₂⟩ := out
          cases result with
          | error e => cases h
          | ok ids =>
              injection h with h
              obtain ⟨rfl, hall⟩ := @hrest ids _ (by rw [hout])
              rw [hout] at hall
              refine ⟨h.symm, fun child hchild => ?_⟩
              rcases List.mem_cons.1 hchild with rfl | hchild
              · exact ⟨PayloadEncryption.sealJobs_singleton.1 ⟨_, hseal⟩, hstays⟩
              · exact hall child hchild

/-- Children that can be sealed are all enqueued. -/
theorem enqueueChildren_isOk : ∀ {children : List Job} (s : TestStorage),
    (∀ child ∈ children, child.validateDependencies = .ok ()) →
    (∀ child ∈ children, env.encryption.Seals child) →
    ∃ spawned, (enqueueChildren env children s).1 = .ok spawned := by
  intro children
  induction children with
  | nil => exact fun s _ _ => ⟨[], rfl⟩
  | cons child children ih =>
      intro s hvalid hseals
      obtain ⟨s₁, henq⟩ := (enqueue_isOk_iff (s := s) (hvalid child (List.mem_cons_self ..))).2
        (hseals child (List.mem_cons_self ..))
      obtain ⟨spawned, hrest⟩ := ih (joinSpawned s₁ child child.id)
        (fun c hc => hvalid c (List.mem_cons_of_mem _ hc))
        fun c hc => hseals c (List.mem_cons_of_mem _ hc)
      refine ⟨child.id :: spawned, ?_⟩
      rw [enqueueChildren_cons, henq]
      dsimp only
      generalize enqueueChildren env children (joinSpawned s₁ child child.id) = out at hrest
      obtain ⟨result, s₂⟩ := out
      dsimp only at hrest
      subst hrest
      rfl

/-- The first child that can be sealed is enqueued, whatever becomes of
the others. -/
theorem enqueueChildren_first (hvalid : child.validateDependencies = .ok ())
    (hseals : env.encryption.Seals child) (children : List Job) (s : TestStorage) :
    ((enqueueChildren env (child :: children) s).2.jobs.lookup child.id).isSome := by
  obtain ⟨s₁, henq⟩ := (enqueue_isOk_iff (s := s) hvalid).2 hseals
  obtain ⟨-, -, job, -, hnew, -⟩ := enqueue_lookup henq
  have hstays := (enqueueChildren_spawned env children
    (joinSpawned s₁ child child.id)).stays child.id (by rw [joinSpawned_lookup, hnew]; rfl)
  rw [enqueueChildren_cons, henq]
  dsimp only
  generalize enqueueChildren env children (joinSpawned s₁ child child.id) = out at hstays ⊢
  obtain ⟨result, s₂⟩ := out
  cases result <;> exact hstays

/-- A first child that cannot be sealed stops everything. -/
theorem enqueueChildren_unsealed (hseals : ¬ env.encryption.Seals child) (children : List Job)
    (s : TestStorage) : ∃ e, enqueueChildren env (child :: children) s = (.error e, s) := by
  rw [enqueueChildren_cons]
  cases henq : enqueue env s child with
  | error e => exact ⟨e, rfl⟩
  | ok out =>
      obtain ⟨-, -, sealedJobs, hseal, -⟩ := enqueue_ok.1 henq
      exact absurd (PayloadEncryption.sealJobs_singleton.1 ⟨_, hseal⟩) hseals

end Hammerwork
