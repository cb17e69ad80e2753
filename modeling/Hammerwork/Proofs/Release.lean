/-
Which jobs a completion releases.

`resolveDependents` collects the held jobs that depend on the completed
one and releases those whose dependencies have all completed. Releasing
a job changes neither anybody's dependencies nor who has completed, so
the jobs released are a set that can be read off the state before:
`ReleasedBy s c` (`resolveDependents_spec`).

The only assumption is that jobs are stored under their own ids; it is
what makes the collected candidates distinct.
-/
import Hammerwork.Proofs.Storage
import Mathlib.Data.List.Sort

namespace Hammerwork

namespace TestStorage

variable {s s' s'' : TestStorage} {now : DateTime} {id c : JobId} {job : Job}

-- == releases

/-- `s'` is `s` after the held jobs in `releases` were released. -/
structure Releases (s s' : TestStorage) (now : DateTime) (releases : JobId → Prop) :
    Prop where
  kept : ∀ k, ¬ releases k → s'.jobs.lookup k = s.jobs.lookup k
  released : ∀ k, releases k → ∃ job, s.jobs.lookup k = some job ∧
    s'.jobs.lookup k = some (release now job)
  keys : s'.jobs.keys = s.jobs.keys
  rest : SameRegisters s s'
  index : s.Coherent → s'.Coherent

theorem Releases.refl (s : TestStorage) (now : DateTime) :
    Releases s s now fun _ => False where
  kept _ _ := rfl
  released _ h := h.elim
  keys := rfl
  rest := .refl s
  index := id

theorem Releases.congr {releases releases' : JobId → Prop}
    (h : Releases s s' now releases) (heq : ∀ k, releases k ↔ releases' k) :
    Releases s s' now releases' := by
  have : releases = releases' := funext fun k => propext (heq k)
  exact this ▸ h

/-- One job released. -/
theorem Releases.one (h : s.jobs.lookup id = some job) (now : DateTime) :
    Releases s (s.modifyJob id (release now)) now (· = id) := by
  have hr : Rewrite s id (release now job) (s.modifyJob id (release now)) :=
    rewrite_modify h (release now) rfl rfl rfl rfl
  refine ⟨fun k hk => hr.lookup_ne hk, ?_, hr.keys, hr.rest, hr.index⟩
  rintro k rfl
  exact ⟨job, h, hr.lookup_self⟩

/-- A job seen through a set of releases. -/
theorem Releases.lookup {releases : JobId → Prop} (h : Releases s s' now releases) (k : JobId) :
    s'.jobs.lookup k = s.jobs.lookup k ∨
      s'.jobs.lookup k = (s.jobs.lookup k).map (release now) := by
  by_cases hk : releases k
  · obtain ⟨job, hjob, hres⟩ := h.released k hk
    right
    rw [hres, hjob]
    rfl
  · exact .inl (h.kept k hk)

/-- What a release does not touch, a set of releases does not. -/
theorem Releases.map_lookup {releases : JobId → Prop} (h : Releases s s' now releases)
    {α : Type} {f : Job → α} (hf : ∀ job, f (release now job) = f job) (k : JobId) :
    (s'.jobs.lookup k).map f = (s.jobs.lookup k).map f := by
  rcases h.lookup k with heq | heq
  · rw [heq]
  · rw [heq, Option.map_map]
    congr 1
    funext job
    exact hf job

theorem Releases.dependenciesOf {releases : JobId → Prop} (h : Releases s s' now releases)
    (k : JobId) : s'.dependenciesOf k = s.dependenciesOf k := by
  unfold TestStorage.dependenciesOf
  rw [h.map_lookup (f := (·.dependsOn)) (fun _ => rfl), h.rest.dependencies]

theorem Releases.dependencyCompleted {releases : JobId → Prop}
    (h : Releases s s' now releases) (k : JobId) :
    s'.dependencyCompleted k = s.dependencyCompleted k := by
  have hmap := h.map_lookup (f := completedJob) (fun _ => rfl) k
  have hany : ∀ o : Option Job, o.any completedJob = (o.map completedJob).getD false := by
    intro o
    cases o <;> rfl
  unfold TestStorage.dependencyCompleted isJob
  rw [hany, hany, hmap]

theorem Releases.keyed {releases : JobId → Prop} (h : Releases s s' now releases)
    (hk : s.Keyed) : s'.Keyed := by
  intro k job' hlookup
  have hid := h.map_lookup (f := (·.id)) (fun _ => rfl) k
  rw [hlookup] at hid
  obtain ⟨job, hjob, heq⟩ := Option.map_eq_some_iff.1 hid.symm
  exact heq.symm.trans (hk k job hjob)

-- == the set released

/-- Merging one list into another one adds its members. -/
theorem mem_mergeInto {d : JobId} {l start : List JobId} :
    d ∈ l.foldl (fun deps dep => if dep ∈ deps then deps else deps ++ [dep]) start ↔
      d ∈ start ∨ d ∈ l := by
  induction l generalizing start with
  | nil => simp
  | cons dep l ih =>
      rw [List.foldl_cons, ih, List.mem_cons]
      split
      case isTrue hin =>
        constructor
        · rintro (h | h)
          · exact .inl h
          · exact .inr (.inr h)
        · rintro (h | rfl | h)
          · exact .inl h
          · exact .inl hin
          · exact .inr h
      case isFalse =>
        rw [List.mem_append, List.mem_singleton, or_assoc]

/-- The dependencies of a job: its own, and those its workflow
recorded. -/
theorem mem_dependenciesOf {d k : JobId} :
    d ∈ s.dependenciesOf k ↔
      d ∈ ((s.jobs.lookup k).map (·.dependsOn)).getD [] ∨
        d ∈ (s.dependencies.lookup k).getD [] :=
  mem_mergeInto

/-- All dependencies of `k` have completed. -/
def Ready (s : TestStorage) (k : JobId) : Prop :=
  ∀ d ∈ s.dependenciesOf k, s.dependencyCompleted d = true

/-- What completing `c` releases: held dependents of it whose
dependencies have all completed. -/
def ReleasedBy (s : TestStorage) (c k : JobId) : Prop :=
  s.isJob k held = true ∧ c ∈ s.dependenciesOf k ∧ s.Ready k

/-- `releaseReady` releases the ready jobs of a list. -/
theorem releaseReady_spec (now : DateTime) (ids : List JobId) (hnd : ids.Nodup) :
    ∀ s : TestStorage,
      Releases s (releaseReady now ids s).1 now
          (fun k => k ∈ ids ∧ s.isJob k (fun _ => true) = true ∧ s.Ready k) ∧
        ∀ k, k ∈ (releaseReady now ids s).2 ↔
          k ∈ ids ∧ s.isJob k (fun _ => true) = true ∧ s.Ready k := by
  induction ids with
  | nil =>
      intro s
      rw [releaseReady]
      exact ⟨(Releases.refl s now).congr (by simp), by simp⟩
  | cons id ids ih =>
      intro s
      obtain ⟨hnotin, hnd⟩ := List.nodup_cons.1 hnd
      rw [releaseReady]
      have hready : ∀ s : TestStorage, ((s.dependenciesOf id).all s.dependencyCompleted
          && s.isJob id fun _ => true) = true ↔
            s.isJob id (fun _ => true) = true ∧ s.Ready id := by
        intro s
        rw [Bool.and_eq_true, List.all_eq_true, and_comm]
        rfl
      split
      case isTrue hcond =>
        obtain ⟨hjob, hid⟩ := (hready s).1 hcond
        obtain ⟨job, hlookup, -⟩ := isJob_iff.1 hjob
        have hone := Releases.one hlookup now
        obtain ⟨htail, hmem⟩ := ih hnd (s.modifyJob id (release now))
        have hset : ∀ k, (k ∈ ids ∧
            (s.modifyJob id (release now)).isJob k (fun _ => true) = true ∧
            (s.modifyJob id (release now)).Ready k) ↔
              k ∈ ids ∧ s.isJob k (fun _ => true) = true ∧ s.Ready k := by
          intro k
          refine and_congr_right fun hk => and_congr ?_ ?_
          · have hne : k ≠ id := fun h => hnotin (h ▸ hk)
            unfold isJob
            rw [hone.kept k hne]
          · unfold Ready
            rw [hone.dependenciesOf]
            simp only [hone.dependencyCompleted]
        refine ⟨⟨?_, ?_, ?_, ?_, ?_⟩, ?_⟩
        · intro k hk
          rw [htail.kept k fun h => hk ⟨List.mem_cons_of_mem _ ((hset k).1 h).1,
            ((hset k).1 h).2⟩]
          exact hone.kept k fun h => hk ⟨h ▸ List.mem_cons_self .., h ▸ hjob, h ▸ hid⟩
        · rintro k ⟨hk, hkjob, hkready⟩
          rcases List.mem_cons.1 hk with rfl | hk
          · refine ⟨job, hlookup, ?_⟩
            rw [htail.kept k fun h => hnotin h.1]
            obtain ⟨job', hjob', hres⟩ := hone.released k rfl
            rw [hlookup] at hjob'
            injection hjob' with hjob'
            rw [hres, hjob']
          · have hne : k ≠ id := fun h => hnotin (h ▸ hk)
            obtain ⟨job', hjob', hres⟩ := htail.released k ((hset k).2 ⟨hk, hkjob, hkready⟩)
            exact ⟨job', hone.kept k hne ▸ hjob', hres⟩
        · exact htail.keys.trans hone.keys
        · exact hone.rest.trans htail.rest
        · exact htail.index ∘ hone.index
        · intro k
          rw [List.mem_cons, hmem, hset, List.mem_cons]
          constructor
          · rintro (rfl | ⟨hk, h⟩)
            · exact ⟨.inl rfl, hjob, hid⟩
            · exact ⟨.inr hk, h⟩
          · rintro ⟨rfl | hk, h⟩
            · exact .inl rfl
            · exact .inr ⟨hk, h⟩
      case isFalse hcond =>
        obtain ⟨htail, hmem⟩ := ih hnd s
        have hset : ∀ k, (k ∈ ids ∧ s.isJob k (fun _ => true) = true ∧ s.Ready k) ↔
            k ∈ id :: ids ∧ s.isJob k (fun _ => true) = true ∧ s.Ready k := by
          intro k
          rw [List.mem_cons]
          constructor
          · exact fun h => ⟨.inr h.1, h.2⟩
          · rintro ⟨rfl | hk, h⟩
            · exact absurd ((hready s).2 h) hcond
            · exact ⟨hk, h⟩
        exact ⟨htail.congr hset, fun k => (hmem k).trans (hset k)⟩

/-- In a keyed storage the stored ids are the keys, each once. -/
theorem Keyed.nodup_ids (hk : s.Keyed) : (s.jobs.values.map (·.id)).Nodup := by
  have hkeys : s.jobs.values.map (·.id) = s.jobs.keys := by
    unfold Table.values AList.keys List.keys
    rw [List.map_map]
    refine List.map_congr_left fun e he => ?_
    exact hk e.1 e.2 (AList.mem_lookup_iff.2 he)
  rw [hkeys]
  exact s.jobs.keys_nodup

/-- The held dependents of `c`. -/
private theorem mem_candidates (hk : s.Keyed) {k : JobId} :
    k ∈ (((s.jobs.values.filter held).map (·.id)).filter
        fun id => c ∈ s.dependenciesOf id).mergeSort (· ≤ ·) ↔
      s.isJob k held = true ∧ c ∈ s.dependenciesOf k := by
  rw [List.mem_mergeSort, List.mem_filter, List.mem_map, isJob_iff, decide_eq_true_eq]
  refine and_congr_left fun _ => ⟨?_, ?_⟩
  · rintro ⟨job, hmem, rfl⟩
    obtain ⟨hmem, hheld⟩ := List.mem_filter.1 hmem
    exact ⟨job, hk.mem_values.1 hmem, hheld⟩
  · rintro ⟨job, hlookup, hheld⟩
    exact ⟨job, List.mem_filter.2 ⟨mem_values_iff.2 ⟨k, hlookup⟩, hheld⟩, hk k job hlookup⟩

/-- Completing `c` releases `ReleasedBy s c`, and returns those jobs. -/
theorem resolveDependents_spec (hk : s.Keyed) (c : JobId) (now : DateTime) :
    Releases s (s.resolveDependents c now).1 now (s.ReleasedBy c) ∧
      ∀ k, k ∈ (s.resolveDependents c now).2 ↔ s.ReleasedBy c k := by
  have hnd : ((((s.jobs.values.filter held).map (·.id)).filter
      fun id => c ∈ s.dependenciesOf id).mergeSort (· ≤ ·)).Nodup := by
    refine (List.mergeSort_perm _ _).nodup_iff.2 (List.Nodup.filter _ ?_)
    exact hk.nodup_ids.sublist (List.filter_sublist.map _)
  obtain ⟨hrel, hmem⟩ := releaseReady_spec now _ hnd s
  have hset : ∀ k, (k ∈ (((s.jobs.values.filter held).map (·.id)).filter
      fun id => c ∈ s.dependenciesOf id).mergeSort (· ≤ ·) ∧
        s.isJob k (fun _ => true) = true ∧ s.Ready k) ↔ s.ReleasedBy c k := by
    intro k
    rw [mem_candidates hk]
    unfold ReleasedBy
    constructor
    · rintro ⟨⟨hheld, hc⟩, -, hready⟩
      exact ⟨hheld, hc, hready⟩
    · rintro ⟨hheld, hc, hready⟩
      obtain ⟨job, hlookup, -⟩ := isJob_iff.1 hheld
      exact ⟨⟨hheld, hc⟩, isJob_iff.2 ⟨job, hlookup, rfl⟩, hready⟩
  exact ⟨hrel.congr hset, fun k => (hmem k).trans (hset k)⟩

end TestStorage

end Hammerwork
