/-
Which jobs a failure takes with it.

Three mechanisms fail jobs as a side effect: a worklist over direct
dependents, a fail-fast workflow or batch, and a cancellation. Each is
described here by the SET of jobs it fails, as a predicate on the state
before (`SideFailures s s' now fails`): the jobs of the set are stored
in `s'` as failed at `now`, and nothing else changed.

# The sets

- `Downstream s root`: reached from `root` along direct dependents that
  are pending. This is what `failDependents` fails.
- `Listed s p ids`: the jobs of a list that satisfy `p`. This is what
  `failEach` fails.
- `PolicyFails s root`: what applying the failure policy of `root`'s
  workflow fails. Under `FailFast` the listed jobs are failed first, and
  the dependents are then sought among the jobs still pending, so a
  chain of dependents ends at a listed job.
- `BatchFails s root`: what applying the failure mode of its batch fails.
- `FailureTakes s root`: both.
-/
import Hammerwork.Proofs.Storage

namespace Hammerwork

namespace TestStorage

variable {s s' s'' : TestStorage} {now : DateTime} {id root : JobId} {job : Job}

-- == sets of failures

/-- `s'` is `s` after the jobs in `fails`, all of them unfinished, were
failed at `now`. -/
structure SideFailures (s s' : TestStorage) (now : DateTime) (fails : JobId → Prop) :
    Prop where
  kept : ∀ k, ¬ fails k → s'.jobs.lookup k = s.jobs.lookup k
  failed : ∀ k, fails k → ∃ job message, s.jobs.lookup k = some job ∧
    TestQueue.unfinished job = true ∧
    s'.jobs.lookup k = some (sideFailed job message now)
  keys : s'.jobs.keys = s.jobs.keys
  rest : SameRegisters s s'
  index : s.Coherent → s'.Coherent

theorem SideFailures.refl (s : TestStorage) (now : DateTime) :
    SideFailures s s now fun _ => False where
  kept _ _ := rfl
  failed _ h := h.elim
  keys := rfl
  rest := .refl s
  index := id

theorem SideFailures.congr {fails fails' : JobId → Prop}
    (h : SideFailures s s' now fails) (heq : ∀ k, fails k ↔ fails' k) :
    SideFailures s s' now fails' := by
  have : fails = fails' := funext fun k => propext (heq k)
  exact this ▸ h

/-- One job failed. -/
theorem SideFailures.one (h : s.jobs.lookup id = some job)
    (hjob : TestQueue.unfinished job = true) (message : String) :
    SideFailures s (s.failAsSideEffect id message now) now (· = id) := by
  have hr := failAsSideEffect_rewrite h message now
  refine ⟨fun k hk => hr.lookup_ne hk, ?_, hr.keys, hr.rest, hr.index⟩
  rintro k rfl
  exact ⟨job, message, h, hjob, hr.lookup_self⟩

/-- A failed job is finished. -/
theorem unfinished_sideFailed (job : Job) (message : String) (now : DateTime) :
    TestQueue.unfinished (sideFailed job message now) = false := rfl

/-- Failing more jobs. The second set is about the state in between, so
no job is in both. -/
theorem SideFailures.trans {fails fails' : JobId → Prop}
    (h₁ : SideFailures s s' now fails) (h₂ : SideFailures s' s'' now fails') :
    SideFailures s s'' now fun k => fails k ∨ fails' k where
  kept k hk := by
    rw [h₂.kept k fun h => hk (.inr h), h₁.kept k fun h => hk (.inl h)]
  failed k hk := by
    by_cases hf' : fails' k
    · obtain ⟨job, message, hlookup, hun, hres⟩ := h₂.failed k hf'
      by_cases hf : fails k
      · obtain ⟨job₀, message₀, -, -, hres₀⟩ := h₁.failed k hf
        rw [hres₀] at hlookup
        injection hlookup with hlookup
        rw [← hlookup, unfinished_sideFailed] at hun
        cases hun
      · exact ⟨job, message, h₁.kept k hf ▸ hlookup, hun, hres⟩
    · have hf : fails k := hk.resolve_right hf'
      obtain ⟨job, message, hlookup, hun, hres⟩ := h₁.failed k hf
      exact ⟨job, message, hlookup, hun, (h₂.kept k hf').trans hres⟩
  keys := h₂.keys.trans h₁.keys
  rest := h₁.rest.trans h₂.rest
  index := h₂.index ∘ h₁.index

/-- A predicate no finished job satisfies, after some failures: it holds
of the jobs it held of, the failed ones apart. -/
theorem SideFailures.isJob {fails : JobId → Prop} (h : SideFailures s s' now fails)
    {p : Job → Bool} (hp : ∀ job, p job = true → TestQueue.unfinished job = true)
    (k : JobId) : s'.isJob k p = true ↔ s.isJob k p = true ∧ ¬ fails k := by
  rw [isJob_iff, isJob_iff]
  by_cases hk : fails k
  · obtain ⟨job, message, -, -, hres⟩ := h.failed k hk
    constructor
    · rintro ⟨job', hlookup, hjob'⟩
      rw [hres] at hlookup
      injection hlookup with hlookup
      have := hp _ hjob'
      rw [← hlookup, unfinished_sideFailed] at this
      cases this
    · exact fun h => absurd hk h.2
  · rw [h.kept k hk]
    exact ⟨fun h => ⟨h, hk⟩, fun h => h.1⟩

theorem SideFailures.keyed {fails : JobId → Prop} (h : SideFailures s s' now fails)
    (hkeyed : s.Keyed) : s'.Keyed := by
  intro k job' hlookup
  by_cases hk : fails k
  · obtain ⟨job, message, hjob, -, hres⟩ := h.failed k hk
    rw [hres] at hlookup
    injection hlookup with hlookup
    rw [← hlookup]
    exact hkeyed k job hjob
  · rw [h.kept k hk] at hlookup
    exact hkeyed k job' hlookup

-- == dependents

theorem unfinished_of_canFailAsDependent (h : canFailAsDependent job = true) :
    TestQueue.unfinished job = true := by
  unfold canFailAsDependent at h
  unfold TestQueue.unfinished
  simp only [Bool.and_eq_true, decide_eq_true_eq] at h
  simp [h.1]

theorem unstarted_of_canFailAsDependent (h : canFailAsDependent job = true) :
    unstarted job = true := by
  unfold canFailAsDependent at h
  unfold unstarted
  simp only [Bool.and_eq_true, decide_eq_true_eq] at h
  simp [h.1]

theorem unfinished_of_unstarted (h : unstarted job = true) :
    TestQueue.unfinished job = true := by
  unfold unstarted at h
  unfold TestQueue.unfinished
  simp only [Bool.or_eq_true, decide_eq_true_eq] at h ⊢
  rcases h with h | h <;> simp [h]

theorem mem_directDependents {c x : JobId} :
    x ∈ s.directDependents c ↔
      x ∈ (s.dependents.lookup c).getD [] ∨
        ∃ job ∈ s.jobs.values, c ∈ job.dependsOn ∧ job.id = x := by
  unfold directDependents
  generalize (s.dependents.lookup c).getD [] = start
  induction s.jobs.values generalizing start with
  | nil => simp
  | cons job jobs ih =>
      rw [List.foldl_cons, ih]
      split
      case isTrue h =>
        simp only [List.mem_append, List.mem_cons, List.not_mem_nil, or_false,
          exists_eq_or_imp, h.1, true_and, or_assoc, @eq_comm _ x job.id]
      case isFalse h =>
        simp only [List.mem_cons, exists_eq_or_imp]
        constructor
        · rintro (hx | hx)
          · exact .inl hx
          · exact .inr (.inr hx)
        · rintro (hx | ⟨hc, rfl⟩ | hx)
          · exact .inl hx
          · exact .inl (not_not.1 fun hx => h ⟨hc, hx⟩)
          · exact .inr hx

/-- The direct dependents of a stored job are read off the records and
the dependents map. -/
theorem Keyed.mem_directDependents (hk : s.Keyed) {c x : JobId} :
    x ∈ s.directDependents c ↔
      x ∈ (s.dependents.lookup c).getD [] ∨
        ∃ job, s.jobs.lookup x = some job ∧ c ∈ job.dependsOn := by
  rw [TestStorage.mem_directDependents]
  refine or_congr_right ⟨?_, ?_⟩
  · rintro ⟨job, hmem, hc, rfl⟩
    exact ⟨job, hk.mem_values.1 hmem, hc⟩
  · rintro ⟨job, hlookup, hc⟩
    exact ⟨job, mem_values_iff.2 ⟨x, hlookup⟩, hc, hk x job hlookup⟩

/-- Side failures leave who depends on whom as it is. -/
theorem SideFailures.mem_directDependents {fails : JobId → Prop}
    (h : SideFailures s s' now fails) {c x : JobId} :
    x ∈ s'.directDependents c ↔ x ∈ s.directDependents c := by
  rw [TestStorage.mem_directDependents, TestStorage.mem_directDependents, h.rest.dependents]
  refine or_congr_right ⟨?_, ?_⟩
  · rintro ⟨job', hmem, hc, rfl⟩
    obtain ⟨k, hlookup⟩ := mem_values_iff.1 hmem
    by_cases hk : fails k
    · obtain ⟨job, message, hjob, -, hres⟩ := h.failed k hk
      rw [hres] at hlookup
      injection hlookup with hlookup
      rw [← hlookup] at hc ⊢
      exact ⟨job, mem_values_iff.2 ⟨k, hjob⟩, hc, rfl⟩
    · exact ⟨job', mem_values_iff.2 ⟨k, h.kept k hk ▸ hlookup⟩, hc, rfl⟩
  · rintro ⟨job, hmem, hc, rfl⟩
    obtain ⟨k, hlookup⟩ := mem_values_iff.1 hmem
    by_cases hk : fails k
    · obtain ⟨job₀, message, hjob, -, hres⟩ := h.failed k hk
      rw [hlookup] at hjob
      injection hjob with hjob
      exact ⟨_, mem_values_iff.2 ⟨k, hres⟩, hjob ▸ hc, by rw [hjob]; rfl⟩
    · exact ⟨job, mem_values_iff.2 ⟨k, (h.kept k hk).trans hlookup⟩, hc, rfl⟩

/-- Who depends on whom does not change when jobs keep their ids and
dependencies. -/
theorem directDependents_congr
    (hdep : s'.dependents = s.dependents)
    (hjobs : s'.jobs.values.map (fun j => (j.id, j.dependsOn))
      = s.jobs.values.map fun j => (j.id, j.dependsOn)) (c : JobId) :
    s'.directDependents c = s.directDependents c := by
  have hfold : ∀ (l : List Job) (start : List JobId),
      l.foldl (fun dependents job =>
          if c ∈ job.dependsOn ∧ job.id ∉ dependents then dependents ++ [job.id]
          else dependents) start
        = (l.map fun j => (j.id, j.dependsOn)).foldl (fun dependents e =>
          if c ∈ e.2 ∧ e.1 ∉ dependents then dependents ++ [e.1] else dependents) start := by
    intro l start
    rw [List.foldl_map]
  unfold directDependents
  rw [hfold, hfold, hjobs, hdep]

/-- Failing a job leaves who depends on whom as it is. -/
private theorem directDependents_failAsSideEffect (s : TestStorage) (id : JobId)
    (message : String) (now : DateTime) (c : JobId) :
    (s.failAsSideEffect id message now).directDependents c = s.directDependents c := by
  cases h : s.jobs.lookup id with
  | none => rw [failAsSideEffect_none h]
  | some job =>
      refine directDependents_congr (failAsSideEffect_rest s id message now).dependents ?_ c
      have hjobs : (s.failAsSideEffect id message now).jobs
          = (s.jobs.modify id fun job => { job with status := .failed }).modify id fun job =>
              { job with
                failedAt := some now
                errorMessage := some message
                dependencyStatus :=
                  if job.dependencyStatus = .waiting then .failed else job.dependencyStatus } := by
        unfold failAsSideEffect
        rw [updateJobStatus_eq h]
        rfl
      rw [hjobs]
      unfold Table.modify Table.mapVals Table.values
      simp only [List.map_map]
      refine List.map_congr_left fun e _ => ?_
      simp only [Function.comp_apply]
      split <;> rfl

/-- Failing dependents is a search of a fixed graph. -/
theorem dependentsSearch_lawful (now : DateTime) : (dependentsSearch now).Lawful where
  next_act s c x y := directDependents_failAsSideEffect s x _ now y
  fresh_act s c x y := by
    show (s.failAsSideEffect x _ now).isJob y canFailAsDependent = _
    show _ = (s.isJob y canFailAsDependent && _)
    unfold isJob
    rw [failAsSideEffect_lookup]
    by_cases hy : y = x
    · subst hy
      rw [if_pos rfl]
      cases s.jobs.lookup y <;> simp [canFailAsDependent, sideFailed]
    · simp [hy]

/-- The pending jobs reached from `root` along direct dependents. -/
def Downstream (s : TestStorage) (root : JobId) : JobId → Prop :=
  Worklist.Reached s.directDependents (fun id => s.isJob id canFailAsDependent = true) root

private theorem failDependents_aux (s : TestStorage) (root : JobId) (now : DateTime) :
    SameRegisters s (s.failDependents root now).1 ∧
    (s.failDependents root now).1.jobs.keys = s.jobs.keys ∧
    (s.Coherent → (s.failDependents root now).1.Coherent) ∧
    ∀ k, (s.failDependents root now).1.jobs.lookup k = s.jobs.lookup k ∨
      ∃ job message, s.jobs.lookup k = some job ∧ canFailAsDependent job = true ∧
        (s.failDependents root now).1.jobs.lookup k = some (sideFailed job message now) := by
  refine Worklist.run_induct (w := dependentsSearch now) (s := s)
    (P := fun s' => SameRegisters s s' ∧ s'.jobs.keys = s.jobs.keys ∧
      (s.Coherent → s'.Coherent) ∧
      ∀ k, s'.jobs.lookup k = s.jobs.lookup k ∨
        ∃ job message, s.jobs.lookup k = some job ∧ canFailAsDependent job = true ∧
          s'.jobs.lookup k = some (sideFailed job message now))
    (dependentsSearch_lawful now) _ ⟨.refl s, rfl, id, fun _ => .inl rfl⟩ ?_
  rintro s' c x ⟨hrest, hkeys, hindex, hjobs⟩ hfresh - -
  obtain ⟨job', hlookup, hcan⟩ := isJob_iff.1 hfresh
  have hr := failAsSideEffect_rewrite hlookup (dependencyFailedMessage c) now
  refine ⟨hrest.trans hr.rest, hr.keys.trans hkeys, fun h => hr.index (hindex h), ?_⟩
  intro k
  by_cases hk : k = x
  · subst hk
    right
    rcases hjobs k with hsame | ⟨job, message, -, -, hres⟩
    · exact ⟨job', _, hsame ▸ hlookup, hcan, hr.lookup_self⟩
    · rw [hres] at hlookup
      injection hlookup with hlookup
      rw [← hlookup] at hcan
      simp [canFailAsDependent, sideFailed] at hcan
  · rcases hjobs k with hsame | ⟨job, message, hjob, hcan', hres⟩
    · exact .inl ((hr.lookup_ne hk).trans hsame)
    · exact .inr ⟨job, message, hjob, hcan', (hr.lookup_ne hk).trans hres⟩

private theorem mem_keys_of_canFail (s : TestStorage) (now : DateTime) (x : JobId)
    (h : (dependentsSearch now).fresh s x = true) : x ∈ s.jobs.keys := by
  obtain ⟨job, hlookup, -⟩ := isJob_iff.1 h
  exact Table.mem_keys_of_lookup hlookup

/-- `failDependents` returns the downstream jobs. -/
theorem mem_failDependents (s : TestStorage) (root : JobId) (now : DateTime) (k : JobId) :
    k ∈ (s.failDependents root now).2 ↔ Downstream s root k :=
  Worklist.mem_marked_run (dependentsSearch now) (dependentsSearch_lawful now)
    (mem_keys_of_canFail s now) (Nat.lt_succ_self _)

/-- `failDependents` fails the downstream jobs. -/
theorem failDependents_spec (s : TestStorage) (root : JobId) (now : DateTime) :
    SideFailures s (s.failDependents root now).1 now (Downstream s root) := by
  obtain ⟨hrest, hkeys, hindex, hjobs⟩ := failDependents_aux s root now
  -- a job is fresh afterwards iff it was and was not taken
  have hfresh : ∀ k, (s.failDependents root now).1.isJob k canFailAsDependent
      = (s.isJob k canFailAsDependent && !decide (k ∈ (s.failDependents root now).2)) :=
    Worklist.fresh_run (dependentsSearch now) (dependentsSearch_lawful now) _ s root
  refine ⟨?_, ?_, hkeys, hrest, hindex⟩
  · intro k hk
    rcases hjobs k with hsame | ⟨job, message, hjob, hcan, hres⟩
    · exact hsame
    · have hout : k ∉ (s.failDependents root now).2 := fun h =>
        hk ((mem_failDependents s root now k).1 h)
      have hk' := hfresh k
      rw [isJob_iff.2 ⟨job, hjob, hcan⟩] at hk'
      simp only [hout, decide_false, Bool.not_false, Bool.and_true] at hk'
      obtain ⟨job', hlookup, hcan'⟩ := isJob_iff.1 hk'
      rw [hres] at hlookup
      injection hlookup with hlookup
      rw [← hlookup] at hcan'
      simp [canFailAsDependent, sideFailed] at hcan'
  · intro k hk
    rcases hjobs k with hsame | ⟨job, message, hjob, hcan, hres⟩
    · have hin := (mem_failDependents s root now k).2 hk
      have hk' := hfresh k
      obtain ⟨job, hjob, hcan⟩ := isJob_iff.1 hk.isFresh
      rw [isJob_iff.2 ⟨job, hjob, hcan⟩] at hk'
      have hstill : (s.failDependents root now).1.isJob k canFailAsDependent = true :=
        isJob_iff.2 ⟨job, hsame ▸ hjob, hcan⟩
      rw [hstill] at hk'
      simp [hin] at hk'
    · exact ⟨job, message, hjob, unfinished_of_canFailAsDependent hcan, hres⟩

-- == listed jobs

/-- The jobs of a list that satisfy `p`. -/
def Listed (s : TestStorage) (p : JobId → Job → Bool) (ids : List JobId) (k : JobId) : Prop :=
  k ∈ ids ∧ s.isJob k (p k) = true

/-- `failEach` fails the listed jobs. -/
theorem failEach_spec {p : JobId → Job → Bool}
    (hp : ∀ id job, p id job = true → TestQueue.unfinished job = true) (message : String)
    (now : DateTime) (ids : List JobId) : ∀ s : TestStorage,
    SideFailures s (failEach p message now ids s).1 now (Listed s p ids) ∧
      ∀ k, k ∈ (failEach p message now ids s).2 ↔ Listed s p ids k := by
  induction ids with
  | nil =>
      intro s
      rw [failEach]
      exact ⟨(SideFailures.refl s now).congr (by simp [Listed]), by simp [Listed]⟩
  | cons id ids ih =>
      intro s
      rw [failEach]
      split
      case isTrue hid =>
        obtain ⟨job, hlookup, hjob⟩ := isJob_iff.1 hid
        have hone : SideFailures s (s.failAsSideEffect id message now) now (· = id) :=
          .one hlookup (hp id job hjob) message
        obtain ⟨htail, hmem⟩ := ih (s.failAsSideEffect id message now)
        have hlisted : ∀ k, Listed (s.failAsSideEffect id message now) p ids k ↔
            k ≠ id ∧ Listed s p ids k := by
          intro k
          unfold Listed
          rw [hone.isJob (hp k)]
          tauto
        refine ⟨(hone.trans htail).congr fun k => ?_, fun k => ?_⟩
        · rw [hlisted]
          unfold Listed
          rw [List.mem_cons]
          by_cases hk : k = id
          · subst hk
            simp [hid]
          · simp [hk]
        · rw [List.mem_cons, hmem, hlisted]
          unfold Listed
          rw [List.mem_cons]
          by_cases hk : k = id
          · subst hk
            simp [hid]
          · simp [hk]
      case isFalse hid =>
        obtain ⟨htail, hmem⟩ := ih s
        have hlisted : ∀ k, Listed s p ids k ↔ Listed s p (id :: ids) k := by
          intro k
          unfold Listed
          rw [List.mem_cons]
          constructor
          · exact fun h => ⟨.inr h.1, h.2⟩
          · rintro ⟨rfl | hk, hjob⟩
            · exact absurd hjob hid
            · exact ⟨hk, hjob⟩
        exact ⟨htail.congr hlisted, fun k => (hmem k).trans (hlisted k)⟩

-- == policies

/-- The jobs of `root`'s fail-fast workflow that its failure fails. -/
def SiblingFails (s : TestStorage) (root : JobId) (k : JobId) : Prop :=
  ∃ workflow, s.workflowOf root = some workflow ∧ workflow.failurePolicy = .failFast ∧
    k ∈ workflow.jobs.map (·.id) ∧ k ≠ root ∧ s.isJob k unstarted = true

/-- The jobs that the failure of `root` fails as its dependents: pending
jobs reached along direct dependents, none of them a sibling failed
first. -/
def DependentFails (s : TestStorage) (root : JobId) (k : JobId) : Prop :=
  (∀ workflow, s.workflowOf root = some workflow → workflow.failurePolicy ≠ .manual) ∧
    Worklist.Reached s.directDependents
      (fun x => s.isJob x canFailAsDependent = true ∧ ¬ SiblingFails s root x) root k

/-- What applying the failure policy for `root` fails. -/
def PolicyFails (s : TestStorage) (root : JobId) (k : JobId) : Prop :=
  SiblingFails s root k ∨ DependentFails s root k

/-- What applying the failure mode of `root`'s batch fails. -/
def BatchFails (s : TestStorage) (root : JobId) (k : JobId) : Prop :=
  ∃ batchId, (s.jobs.lookup root).bind (·.batchId) = some batchId ∧
    (s.batches.lookup batchId).any (·.failureMode = .failFast) = true ∧
    k ∈ (s.batchJobs.lookup batchId).getD [] ∧ s.isJob k unstarted = true

/-- What the failure of `root` takes with it. -/
def FailureTakes (s : TestStorage) (root : JobId) (k : JobId) : Prop :=
  PolicyFails s root k ∨ BatchFails s root k

/-- Applying a failure policy fails `PolicyFails`. -/
theorem applyWorkflowFailure_spec (s : TestStorage) (root : JobId) (now : DateTime) :
    SideFailures s (s.applyWorkflowFailure root now).1 now (PolicyFails s root) := by
  have hdown : (∀ workflow, s.workflowOf root = some workflow →
        workflow.failurePolicy ≠ .manual ∧ workflow.failurePolicy ≠ .failFast) →
      ∀ k, Downstream s root k ↔ PolicyFails s root k := by
    intro hpolicy k
    have hnosib : ∀ x, ¬ SiblingFails s root x := by
      rintro x ⟨workflow, hw, hff, -⟩
      exact (hpolicy workflow hw).2 hff
    constructor
    · intro h
      exact .inr ⟨fun workflow hw => (hpolicy workflow hw).1,
        h.mono (fun _ _ hy => hy) fun x hx => ⟨hx, hnosib x⟩⟩
    · rintro (h | ⟨-, h⟩)
      · exact absurd h (hnosib k)
      · exact h.mono (fun _ _ hy => hy) fun x hx => hx.1
  unfold applyWorkflowFailure
  split
  case h_1 workflow hw =>
    split
    case h_1 hpolicy =>
      refine (SideFailures.refl s now).congr fun k => ⟨False.elim, ?_⟩
      rintro (⟨w, hw', hff, -⟩ | ⟨hman, -⟩)
      · rw [hw] at hw'
        injection hw' with hw'
        rw [← hw', hpolicy] at hff
        cases hff
      · exact hman workflow hw hpolicy
    case h_2 hpolicy =>
      obtain ⟨heach, -⟩ := failEach_spec (p := fun id job => id ≠ root && unstarted job)
        (fun id job h => unfinished_of_unstarted (by simp at h; exact h.2))
        (workflowFailedMessage root) now (workflow.jobs.map (·.id)) s
      have hsib : ∀ k, Listed s (fun id job => id ≠ root && unstarted job)
          (workflow.jobs.map (·.id)) k ↔ SiblingFails s root k := by
        intro k
        unfold Listed SiblingFails
        rw [hw]
        simp only [isJob_iff, Bool.and_eq_true, decide_eq_true_eq, ne_eq]
        constructor
        · rintro ⟨hmem, job, hlookup, hne, hun⟩
          exact ⟨workflow, rfl, hpolicy, hmem, hne, job, hlookup, hun⟩
        · rintro ⟨w, hw', -, hmem, hne, job, hlookup, hun⟩
          injection hw' with hw'
          exact ⟨hw' ▸ hmem, job, hlookup, hne, hun⟩
      have hdeps := failDependents_spec
        (failEach (fun id job => id ≠ root && unstarted job) (workflowFailedMessage root) now
          (workflow.jobs.map (·.id)) s).1 root now
      refine ((heach.congr hsib).trans hdeps).congr fun k => or_congr_right ?_
      have hnotman : ∀ w, s.workflowOf root = some w → w.failurePolicy ≠ .manual := by
        intro w hw'
        rw [hw] at hw'
        injection hw' with hw'
        rw [← hw', hpolicy]
        decide
      -- the dependents are sought in the state the siblings left
      have hreach : Downstream (failEach (fun id job => id ≠ root && unstarted job)
          (workflowFailedMessage root) now (workflow.jobs.map (·.id)) s).1 root k ↔
          Worklist.Reached s.directDependents
            (fun x => s.isJob x canFailAsDependent = true ∧ ¬ SiblingFails s root x) root k :=
        Worklist.reached_congr (fun c y => heach.mem_directDependents) fun y => by
          rw [(heach.congr hsib).isJob fun _ => unfinished_of_canFailAsDependent]
      rw [hreach]
      exact ⟨fun h => ⟨hnotman, h⟩, fun h => h.2⟩
    case h_3 hpolicy =>
      refine (failDependents_spec s root now).congr (hdown ?_)
      intro w hw'
      rw [hw] at hw'
      injection hw' with hw'
      rw [← hw', hpolicy]
      exact ⟨by decide, by decide⟩
  case h_2 hw =>
    exact (failDependents_spec s root now).congr (hdown fun w hw' => by rw [hw] at hw'; cases hw')

/-- Applying a failure mode fails `BatchFails`. -/
theorem applyBatchFailure_spec (s : TestStorage) (root : JobId) (now : DateTime) :
    SideFailures s (s.applyBatchFailure root now).1 now (BatchFails s root) := by
  have hnone : (∀ k, ¬ BatchFails s root k) → SideFailures s s now (BatchFails s root) :=
    fun h => (SideFailures.refl s now).congr fun k => ⟨False.elim, h k⟩
  unfold applyBatchFailure
  split
  case h_1 hb =>
    refine hnone ?_
    rintro k ⟨batchId, hb', -⟩
    rw [hb] at hb'
    cases hb'
  case h_2 batchId hb =>
    split
    case isTrue hff =>
      refine (failEach_spec (fun _ _ h => unfinished_of_unstarted h)
        (batchFailedMessage root) now _ s).1.congr fun k => ?_
      unfold Listed BatchFails
      constructor
      · exact fun h => ⟨batchId, hb, hff, h⟩
      · rintro ⟨batchId', hb', -, h⟩
        rw [hb] at hb'
        injection hb' with hb'
        exact hb' ▸ h
    case isFalse hff =>
      refine hnone ?_
      rintro k ⟨batchId', hb', hff', -⟩
      rw [hb] at hb'
      injection hb' with hb'
      exact hff (hb' ▸ hff')

/-- A terminal failure applies both. -/
theorem failureTakes_spec (s : TestStorage) (root : JobId) (now : DateTime) :
    SideFailures s ((s.applyWorkflowFailure root now).1.applyBatchFailure root now).1 now
      (FailureTakes s root) := by
  have hpolicy := applyWorkflowFailure_spec s root now
  refine (hpolicy.trans (applyBatchFailure_spec _ root now)).congr fun k => ?_
  have hbatch : ((s.applyWorkflowFailure root now).1.jobs.lookup root).bind (·.batchId)
      = (s.jobs.lookup root).bind (·.batchId) := by
    by_cases hroot : PolicyFails s root root
    · obtain ⟨job, message, hjob, -, hres⟩ := hpolicy.failed root hroot
      rw [hres, hjob]
      rfl
    · rw [hpolicy.kept root hroot]
  unfold FailureTakes BatchFails
  rw [hbatch, hpolicy.rest.batches, hpolicy.rest.batchJobs]
  constructor
  · rintro (h | ⟨batchId, hb, hff, hmem, hk⟩)
    · exact .inl h
    · exact .inr ⟨batchId, hb, hff, hmem,
        ((hpolicy.isJob (fun _ => unfinished_of_unstarted) k).1 hk).1⟩
  · rintro (h | ⟨batchId, hb, hff, hmem, hk⟩)
    · exact .inl h
    · by_cases hp : PolicyFails s root k
      · exact .inl hp
      · exact .inr ⟨batchId, hb, hff, hmem,
          (hpolicy.isJob (fun _ => unfinished_of_unstarted) k).2 ⟨hk, hp⟩⟩

-- == as seen before the job ended

theorem workflowOf_congr (hwf : s'.workflows = s.workflows)
    (hid : (s'.jobs.lookup id).bind (·.workflowId) = (s.jobs.lookup id).bind (·.workflowId)) :
    s'.workflowOf id = s.workflowOf id := by
  unfold workflowOf
  rw [hid, hwf]

/-- What a failure takes besides its own job does not depend on how that
job is stored, as long as it keeps its place. -/
theorem failureTakes_rewrite {job' : Job} {k : JobId} (hk : s.Keyed)
    (hlookup : s.jobs.lookup root = some job) (hr : Rewrite s root job' s')
    (hid : job'.id = job.id) (hdeps : job'.dependsOn = job.dependsOn)
    (hworkflow : job'.workflowId = job.workflowId) (hbatch : job'.batchId = job.batchId)
    (hne : k ≠ root) :
    (SiblingFails s' root k ↔ SiblingFails s root k) ∧
      (DependentFails s' root k ↔ DependentFails s root k) ∧
      (BatchFails s' root k ↔ BatchFails s root k) := by
  have hk' : s'.Keyed := hr.keyed (hid.trans (hk root job hlookup)) hk
  have hisJob : ∀ x p, x ≠ root → s'.isJob x p = s.isJob x p := by
    intro x p hx
    unfold isJob
    rw [hr.lookup_ne hx]
  have hof : s'.workflowOf root = s.workflowOf root :=
    workflowOf_congr hr.rest.workflows (by rw [hr.lookup_self, hlookup]; exact hworkflow)
  have hsibling : ∀ x, x ≠ root → (SiblingFails s' root x ↔ SiblingFails s root x) := by
    intro x hx
    unfold SiblingFails
    rw [hof, hisJob x _ hx]
  have hnext : ∀ c y, y ∈ s'.directDependents c ↔ y ∈ s.directDependents c := by
    intro c y
    rw [hk'.mem_directDependents, hk.mem_directDependents, hr.rest.dependents, hr.jobs]
    refine or_congr_right ?_
    split
    · next hy =>
      rw [hy, hlookup]
      simp only [Option.some.injEq, exists_eq_left', hdeps]
    · exact Iff.rfl
  refine ⟨hsibling k hne, ?_, ?_⟩
  · unfold DependentFails
    rw [hof]
    refine and_congr_right fun _ => ⟨fun h => ?_, fun h => ?_⟩
    · refine (h.of_ne_root (fun c y => (hnext c y).1) fun y hy hf => ?_).resolve_left hne
      rwa [hisJob y _ hy, hsibling y hy] at hf
    · refine (h.of_ne_root (fun c y => (hnext c y).2) fun y hy hf => ?_).resolve_left hne
      rwa [hisJob y _ hy, hsibling y hy]
  · unfold BatchFails
    rw [hr.lookup_self, hlookup, Option.bind_some, Option.bind_some, hbatch, hr.rest.batches,
      hr.rest.batchJobs, hisJob k _ hne]

end TestStorage

end Hammerwork
