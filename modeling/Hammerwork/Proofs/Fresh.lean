/-
Runs in which every job handed in is new.

Job ids are made fresh by whoever makes a job. In a run in which they
are (`Event.Fresh`), the index lists every job exactly where its record
says it is (`run_coherent`), so what a dequeue claims is pending, and no
call overwrites a stored job.
-/
import Hammerwork.Proofs.Children

namespace Hammerwork

open TestStorage TestQueue

variable {s s' : TestStorage} {env : Env} {k : JobId} {job : Job} {w : WriteKind}

/-- The jobs an event hands in have ids of their own. -/
structure Event.Fresh (s : TestStorage) (e : Event) : Prop where
  new : ∀ job ∈ e.enqueued, s.jobs.lookup job.id = none
  distinct : (e.enqueued.map (·.id)).Nodup

-- == what the index lists

/-- Writes other than insertions keep the index right. -/
theorem Write.coherent (h : Write s w s') (hw : ∀ given, w ≠ .insert given)
    (hco : s.Coherent) : s'.Coherent := by
  cases h with
  | deed h => exact h.index hco
  | insert => exact absurd rfl (hw _)
  | delete _ _ h => exact h hco
  | other hjobs _ hqueues => exact hco.congr hqueues fun k => by rw [hjobs]
  | tick hjobs hqueues => exact hco.congr hqueues fun k => by rw [hjobs]

/-- So does inserting new jobs. -/
theorem enqueued_coherent {given : List Job} (h : Enqueued s given s')
    (hnew : ∀ job ∈ given, s.jobs.lookup job.id = none) (hnd : (given.map (·.id)).Nodup)
    (hco : s.Coherent) : s'.Coherent := by
  obtain ⟨stored, harr, hin⟩ := h
  have hids := forall₂_ids (fun _ _ h => h.keeps.id) harr.each
  refine hin.index (fun job hjob => ?_) (hids ▸ hnd) hco
  obtain ⟨job₀, hjob₀, harrives⟩ := mem_of_forall₂ harr.each hjob
  rw [harrives.keeps.id]
  exact hnew job₀ hjob₀

theorem enqueueChildren_coherent (env : Env) (children : List Job) : ∀ s : TestStorage,
    (∀ child ∈ children, s.jobs.lookup child.id = none) → (children.map (·.id)).Nodup →
    s.Coherent → (enqueueChildren env children s).2.Coherent := by
  induction children with
  | nil => exact fun s _ _ hco => hco
  | cons child children ih =>
      intro s hnew hnd hco
      rw [List.map_cons, List.nodup_cons] at hnd
      rw [enqueueChildren_cons]
      cases henq : enqueue env s child with
      | error e => exact hco
      | ok out =>
          obtain ⟨s₁, id⟩ := out
          obtain ⟨-, hold, -⟩ := enqueue_lookup henq
          have hco₁ : s₁.Coherent := enqueued_coherent (enqueue_enqueued henq).1
            (fun job hjob => by
              rw [List.mem_singleton.1 hjob]
              exact hnew child (List.mem_cons_self ..)) (by simp) hco
          have hrest := ih (joinSpawned s₁ child id) (fun c hc => ?_) hnd.2
            (hco₁.congr (joinSpawned_queues s₁ child id) fun k => by rw [joinSpawned_lookup])
          · dsimp only
            generalize enqueueChildren env children (joinSpawned s₁ child id) = out at hrest ⊢
            obtain ⟨result, s₂⟩ := out
            cases result <;> exact hrest
          · rw [joinSpawned_lookup, hold c.id]
            · exact hnew c (List.mem_cons_of_mem _ hc)
            · exact fun heq => hnd.1 (List.mem_map.2 ⟨c, hc, heq⟩)

/-- A chain that inserts nothing keeps the index right. -/
theorem Writes.coherent {allowed : WriteKind → Prop} (h : Writes allowed s s')
    (hnone : ∀ given, ¬ allowed (.insert given)) (hco : s.Coherent) : s'.Coherent :=
  h.preserves (fun _ _ _ hw hwrite hco =>
    hwrite.coherent (fun given heq => hnone given (heq ▸ hw)) hco) hco

theorem completeJobRunWithChildren_coherent (hk : s.Keyed) (run : Job) {children : List Job}
    (wall : DateTime) (hnew : ∀ child ∈ children, s.jobs.lookup child.id = none)
    (hnd : (children.map (·.id)).Nodup) (hco : s.Coherent) :
    (completeJobRunWithChildren env s run children wall).2.Coherent := by
  unfold completeJobRunWithChildren
  cases validateDependencyLimits children with
  | error e => exact hco
  | ok =>
      dsimp only
      split
      · exact hco
      · have hco₁ := enqueueChildren_coherent env children s hnew hnd hco
        have hw₁ : Writes (fun _ => True) s (enqueueChildren env children s).2 :=
          enqueueChildren_writes children s (fun _ _ => trivial) trivial
        have hk₁ := hw₁.keyed hk
        generalize enqueueChildren env children s = out at hco₁ hk₁ ⊢
        obtain ⟨result, s₁⟩ := out
        cases result with
        | error e => exact hco₁
        | ok spawned =>
            have hw₂ : Writes (FinishAllows .completed run.id) s₁
                (finishJobRun env.cron s₁ run .completed wall).2 :=
              finish_writes hk₁ (finishJobRun_spec env.cron s₁ run .completed wall)
                fun _ _ hw => hw
            have hco₂ := hw₂.coherent (fun given h => by
              rcases h with h | h | h | h | ⟨-, h⟩ | ⟨-, h⟩ | h <;> cases h) hco₁
            dsimp only
            generalize finishJobRun env.cron s₁ run .completed wall = out at hco₂ ⊢
            obtain ⟨result, s₂⟩ := out
            cases result <;> exact hco₂

/-- Every call that is handed new jobs keeps the index right. -/
theorem Op.coherent (hk : s.Keyed) {op : Op} (hfresh : (Event.call op).Fresh s)
    (hco : s.Coherent) : (op.apply env s).2.Coherent := by
  have hwrites : Writes (op.Allows env s) s (op.apply env s).2 := Op.writes hk op
  obtain ⟨hnew, hnd⟩ := hfresh
  have hcommit : ∀ {α : Type} {r : Except HammerworkError (TestStorage × α)},
      (∀ s' a, r = .ok (s', a) → Enqueued s op.enqueued s') → (commit s r).2.Coherent :=
    fun hr => commit_elim hco fun s' a h => enqueued_coherent (hr s' a h) hnew hnd hco
  cases op
  case enqueue job =>
    unfold Op.apply
    rw [reply_snd]
    exact hcommit fun s' a h => (enqueue_enqueued h).1
  case enqueueBatch batch =>
    unfold Op.apply
    rw [reply_snd]
    exact hcommit fun s' a h => enqueueBatch_enqueued h
  case enqueueWorkflow workflow =>
    unfold Op.apply
    rw [reply_snd]
    exact hcommit fun s' a h => enqueueWorkflow_enqueued h
  case enqueueCronJob job =>
    unfold Op.apply
    rw [reply_snd]
    refine commit_elim hco fun s' a h => ?_
    obtain ⟨job', hsame, h⟩ := enqueueCronJob_ok h
    refine enqueued_coherent (enqueue_enqueued h).1 (fun j hj => ?_) (by simp) hco
    rw [List.mem_singleton.1 hj, hsame.id]
    exact hnew job (List.mem_singleton_self _)
  case completeJobRunWithChildren run children wall =>
    unfold Op.apply
    rw [reply_snd]
    exact completeJobRunWithChildren_coherent hk run wall hnew hnd hco
  all_goals
    refine hwrites.coherent (fun given h => ?_) hco
    simp only [Op.Allows, FinishAllows, ReclaimAllows, reduceCtorEq, or_self, and_false,
      exists_false] at h

theorem Step.coherent {e : Event} (h : Step env s e s') (hk : s.Keyed) (hfresh : e.Fresh s)
    (hco : s.Coherent) : s'.Coherent := by
  cases h with
  | call op => exact Op.coherent hk hfresh hco
  | rehash h =>
      have hw : Writes (Event.rehash.Allows env s) s s' := Step.writes hk (.rehash h)
      exact hw.coherent (fun given h => by cases h) hco

theorem coherent_new (clock : DateTime) : (TestStorage.new clock).Coherent where
  mem q st id := by
    refine ⟨fun h => ?_, fun ⟨_, h, _⟩ => by cases h⟩
    cases h
  nodup q st := List.nodup_nil

/-- In a run from the empty queue whose jobs are new the index is always
right. -/
theorem run_coherent {n : Nat} (r : Run (Step env) n) {clock : DateTime}
    (h0 : r.state 0 = TestStorage.new clock)
    (hfresh : ∀ i < n, (r.event i).Fresh (r.state i)) : ∀ i ≤ n, (r.state i).Coherent :=
  fun i => r.stable (m := 0) (h0 ▸ coherent_new clock)
    (fun j _ hj hstep hco => hstep.coherent (run_keyed r h0 j (by omega)) (hfresh j hj) hco)
    i (Nat.zero_le i)

-- == ids used once

/-- A stored job was stored before the step, or handed in by it. -/
theorem Step.stored_back {e : Event} (h : Step env s e s') (hk : s.Keyed)
    (hlookup : s'.jobs.lookup k = some job) :
    (s.jobs.lookup k).isSome ∨ ∃ given ∈ e.enqueued, given.id = k := by
  refine (h.writes hk).records
    (P := fun k _ => (s.jobs.lookup k).isSome ∨ ∃ given ∈ e.enqueued, given.id = k)
    (fun _ _ _ _ _ _ _ _ hold => hold) (fun t given stored job hw harr hmem => ?_)
    (fun k job hlookup => .inl (by rw [hlookup]; rfl)) k job hlookup
  obtain ⟨job', hjob', harrives⟩ := mem_of_forall₂ harr.each hmem
  cases e with
  | rehash => cases hw
  | call op =>
      obtain ⟨job₀, hjob₀, hsame⟩ := Op.Allows.insert hw job' hjob'
      exact .inr ⟨job₀, hjob₀, hsame.id.symm.trans harrives.keeps.id.symm⟩

/-- No two jobs handed in during the run have the same id. -/
structure NewIds {n : Nat} (r : Run (Step env) n) : Prop where
  within : ∀ i < n, ((r.event i).enqueued.map (·.id)).Nodup
  across : ∀ i j, i < j → j < n → ∀ job ∈ (r.event i).enqueued,
    ∀ job' ∈ (r.event j).enqueued, job.id ≠ job'.id

variable {n : Nat} {r : Run (Step env) n} {clock : DateTime}

/-- A run that hands in jobs at its start only. -/
theorem newIds_of_first (hfirst : ((r.event 0).enqueued.map (·.id)).Nodup)
    (hrest : ∀ i, 0 < i → i < n → (r.event i).enqueued = []) : NewIds r := by
  refine ⟨fun i hi => ?_, fun i j hij hj job _ job' hjob' => ?_⟩
  · cases i with
    | zero => exact hfirst
    | succ i =>
        rw [hrest (i + 1) (by omega) hi]
        exact List.nodup_nil
  · rw [hrest j (by omega) hj] at hjob'
    cases hjob'

/-- Every stored job was handed in. -/
theorem stored_handedIn (h0 : r.state 0 = TestStorage.new clock) :
    ∀ i ≤ n, ∀ k job, (r.state i).jobs.lookup k = some job →
      ∃ j < i, ∃ given ∈ (r.event j).enqueued, given.id = k := by
  intro i
  induction i with
  | zero =>
      intro _ k job hlookup
      rw [h0] at hlookup
      cases hlookup
  | succ i ih =>
      intro hi k job hlookup
      rcases (r.next i hi).stored_back (run_keyed r h0 i (by omega)) hlookup with
        hold | ⟨given, hgiven, hid⟩
      · obtain ⟨job', hjob'⟩ := Option.isSome_iff_exists.1 hold
        obtain ⟨j, hj, hgiven⟩ := ih (by omega) k job' hjob'
        exact ⟨j, by omega, hgiven⟩
      · exact ⟨i, by omega, given, hgiven, hid⟩

theorem NewIds.fresh (hnew : NewIds r) (h0 : r.state 0 = TestStorage.new clock) :
    ∀ i < n, (r.event i).Fresh (r.state i) := by
  refine fun i hi => ⟨fun job hjob => ?_, hnew.within i hi⟩
  by_contra hstored
  obtain ⟨job', hjob'⟩ := Option.ne_none_iff_exists'.1 hstored
  obtain ⟨j, hj, given, hgiven, hid⟩ := stored_handedIn h0 i (by omega) job.id job' hjob'
  exact hnew.across j i hj hi given hgiven job hjob hid

-- == what calls touch

/-- What a dequeue claims is pending. -/
theorem claimed_pending (hk : s.Keyed) (hco : s.Coherent) {queueName : String}
    {weights : Option PriorityWeights} {maxJobs : Nat}
    (h : k ∈ claimedIds env s queueName weights maxJobs) :
    ∃ job, s.jobs.lookup k = some job ∧ job.status = .pending ∧
      dequeuable s.clock job = true := by
  obtain ⟨job, hmem, rfl⟩ := mem_claimedIds h
  obtain ⟨id, hid, hlookup, hdue⟩ := mem_eligibleJobs hmem
  obtain ⟨job', hlookup', -, hst⟩ := (hco.mem _ _ _).1 hid
  rw [hlookup] at hlookup'
  injection hlookup' with hlookup'
  subst hlookup'
  exact ⟨job, hk id job hlookup ▸ hlookup, hst, hdue⟩

/-- No call inserts a job over a stored one. -/
theorem Event.Fresh.not_inserted {e : Event} (hfresh : e.Fresh s)
    (hlookup : s.jobs.lookup k = some job) {given : List Job}
    (hw : e.Allows env s (.insert given)) : ∀ job' ∈ given, job'.id ≠ k := by
  intro job' hjob' hid
  cases e with
  | rehash => cases hw
  | call op =>
      obtain ⟨job₀, hjob₀, hsame⟩ := Op.Allows.insert hw job' hjob'
      have hnew := hfresh.new job₀ hjob₀
      rw [← hsame.id, hid, hlookup] at hnew
      cases hnew

end Hammerwork
