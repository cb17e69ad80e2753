/-
Dependency levels are longest chains.

The calculation is the memoised evaluation of `levelOf` along the
dependencies that are in the list (`calculateJobLevels_eq`), so it ends,
with one level for every job, whatever the dependencies are. Where they
are all in the list and form no cycle, the level of a job is the length
of the longest chain of dependencies below it, since a chain is one step
to a dependency and a chain below that (`isGreatest_levelOf`).

Grouping keeps every job once (`flatMap_groupByLevel`).
-/
import Hammerwork.DependencyLevels
import Mathlib.Data.List.Chain
import Mathlib.Order.Bounds.Basic

namespace Hammerwork

namespace WorkflowCommand

variable {jobs : List JobNode} {jobMap : AList fun _ : String => JobNode} {job : JobNode}
  {id : String} {levels : Levels} {fuel : Nat}

-- == the map of jobs

theorem lookup_foldl_of_ne {m : AList fun _ : String => JobNode}
    (h : ∀ job ∈ jobs, job.id ≠ id) :
    (jobs.foldl (fun m job => m.insert job.id job) m).lookup id = m.lookup id := by
  induction jobs generalizing m with
  | nil => rfl
  | cons job jobs ih =>
      rw [List.foldl_cons, ih fun other hother => h other (List.mem_cons_of_mem _ hother)]
      exact AList.lookup_insert_ne (Ne.symm (h job (List.mem_cons_self ..)))

/-- Every job is found by its id. -/
theorem lookup_foldl_of_mem {m : AList fun _ : String => JobNode}
    (hids : (jobs.map (·.id)).Nodup) (hjob : job ∈ jobs) :
    (jobs.foldl (fun m job => m.insert job.id job) m).lookup job.id = some job := by
  induction jobs generalizing m with
  | nil => cases hjob
  | cons first jobs ih =>
      obtain ⟨hfirst, hrest⟩ := List.nodup_cons.1 hids
      rw [List.foldl_cons]
      rcases List.mem_cons.1 hjob with rfl | hjob
      · rw [lookup_foldl_of_ne fun other hother heq => hfirst (List.mem_map.2 ⟨other, hother, heq⟩)]
        exact AList.lookup_insert _
      · exact ih hrest hjob

theorem of_lookup_foldl {m : AList fun _ : String => JobNode}
    (h : (jobs.foldl (fun m job => m.insert job.id job) m).lookup id = some job) :
    (job ∈ jobs ∧ job.id = id) ∨ m.lookup id = some job := by
  induction jobs generalizing m with
  | nil => exact .inr h
  | cons first jobs ih =>
      rw [List.foldl_cons] at h
      rcases ih h with ⟨hjob, hid⟩ | hm
      · exact .inl ⟨List.mem_cons_of_mem _ hjob, hid⟩
      · by_cases hfirst : id = first.id
        · subst hfirst
          rw [AList.lookup_insert] at hm
          obtain rfl := Option.some.inj hm
          exact .inl ⟨List.mem_cons_self .., rfl⟩
        · rw [AList.lookup_insert_ne hfirst] at hm
          exact .inr hm

theorem lookup_jobMapOf (hids : (jobs.map (·.id)).Nodup) (hjob : job ∈ jobs) :
    (jobMapOf jobs).lookup job.id = some job :=
  lookup_foldl_of_mem hids hjob

/-- What is found is a job of that id. -/
theorem of_lookup_jobMapOf (h : (jobMapOf jobs).lookup id = some job) :
    job ∈ jobs ∧ job.id = id := by
  refine (of_lookup_foldl h).resolve_right fun hempty => ?_
  rw [AList.lookup_empty] at hempty
  cases hempty

theorem mem_jobMapOf (hids : (jobs.map (·.id)).Nodup) :
    id ∈ jobMapOf jobs ↔ id ∈ jobs.map (·.id) := by
  rw [← AList.lookup_isSome, Option.isSome_iff_exists, List.mem_map]
  constructor
  · rintro ⟨job, h⟩
    exact ⟨job, of_lookup_jobMapOf h⟩
  · rintro ⟨job, hjob, rfl⟩
    exact ⟨job, lookup_jobMapOf hids hjob⟩

-- == as a memoised evaluation

/-- The dependencies of a job that are in the map. -/
def nextOf (jobMap : AList fun _ : String => JobNode) (id : String) : List String :=
  match jobMap.lookup id with
  | some job => job.dependsOn.filter (· ∈ jobMap)
  | none => []

/-- The level of a job whose dependencies have the levels `found`. -/
def levelOf (jobMap : AList fun _ : String => JobNode) (id : String) (found : List Nat) : Nat :=
  match jobMap.lookup id with
  | some job => found.max?.getD 0 + if job.dependsOn.isEmpty then 0 else 1
  | none => 0

theorem depLevels_eq {calculate : JobNode → Levels → Option Levels}
    {visit : String → Levels → Option Levels}
    (hvisit : ∀ {depId depJob levels}, jobMap.lookup depId = some depJob →
      depId ∉ levels.visited → calculate depJob levels = visit depId levels)
    (dependsOn : List String) (levels : Levels) :
    depLevels calculate jobMap dependsOn levels
      = MemoSearch.visitDeps visit (dependsOn.filter (· ∈ jobMap)) levels := by
  induction dependsOn generalizing levels with
  | nil => rfl
  | cons depId dependsOn ih =>
      rw [depLevels]
      cases hlookup : jobMap.lookup depId with
      | none =>
          rw [List.filter_cons_of_neg (by simpa using AList.lookup_eq_none.1 hlookup)]
          exact ih levels
      | some depJob =>
          have hmem : depId ∈ jobMap := by
            rw [← AList.lookup_isSome, hlookup]
            rfl
          have hone : (if depId ∈ levels.visited then some levels else calculate depJob levels)
              = if depId ∈ levels.visited then some levels else visit depId levels := by
            split
            case isTrue _ => rfl
            case isFalse hnew => exact hvisit hlookup hnew
          rw [List.filter_cons_of_pos (by simpa using hmem), MemoSearch.visitDeps]
          dsimp only
          rw [hone]
          generalize (if depId ∈ levels.visited then some levels else visit depId levels) = visited
          cases visited with
          | none => rfl
          | some levels' =>
              dsimp only
              rw [ih levels']
              cases MemoSearch.visitDeps visit (dependsOn.filter (· ∈ jobMap)) levels' with
              | none => rfl
              | some found => rfl

theorem calculateJobLevel_eq (hkeys : ∀ id job, jobMap.lookup id = some job → job.id = id)
    (fuel : Nat) {job : JobNode} {levels : Levels} (hjob : jobMap.lookup job.id = some job)
    (hnew : job.id ∉ levels.visited) :
    calculateJobLevel jobMap fuel job levels
      = MemoSearch.visit (nextOf jobMap) (levelOf jobMap) fuel job.id levels := by
  induction fuel generalizing job levels with
  | zero => rfl
  | succ fuel ih =>
      have hdeps : depLevels (calculateJobLevel jobMap fuel) jobMap job.dependsOn
            (levels.enter job.id)
          = MemoSearch.visitDeps (MemoSearch.visit (nextOf jobMap) (levelOf jobMap) fuel)
            (job.dependsOn.filter (· ∈ jobMap)) (levels.enter job.id) := by
        refine depLevels_eq ?_ _ _
        intro depId depJob levels hlookup hdep
        obtain rfl := hkeys depId depJob hlookup
        exact ih hlookup hdep
      have hnext : nextOf jobMap job.id = job.dependsOn.filter (· ∈ jobMap) := by
        unfold nextOf
        rw [hjob]
      rw [calculateJobLevel, if_neg hnew, hdeps, MemoSearch.visit, hnext]
      cases MemoSearch.visitDeps (MemoSearch.visit (nextOf jobMap) (levelOf jobMap) fuel)
          (job.dependsOn.filter (· ∈ jobMap)) (levels.enter job.id) with
      | none => rfl
      | some found =>
          dsimp only [levelOf]
          rw [hjob]

theorem calculateJobLevels_eq (hkeys : ∀ id job, jobMap.lookup id = some job → job.id = id)
    (hjobs : ∀ job ∈ jobs, jobMap.lookup job.id = some job) :
    calculateJobLevels jobMap fuel jobs levels
      = MemoSearch.visitAll (MemoSearch.visit (nextOf jobMap) (levelOf jobMap) fuel)
        (jobs.map (·.id)) levels := by
  induction jobs generalizing levels with
  | nil => rfl
  | cons job jobs ih =>
      have hone : (if job.id ∈ levels.visited then some levels
            else calculateJobLevel jobMap fuel job levels)
          = if job.id ∈ levels.visited then some levels
            else MemoSearch.visit (nextOf jobMap) (levelOf jobMap) fuel job.id levels := by
        split
        case isTrue _ => rfl
        case isFalse hnew =>
          exact calculateJobLevel_eq hkeys fuel (hjobs job (List.mem_cons_self ..)) hnew
      rw [calculateJobLevels, hone, List.map_cons, MemoSearch.visitAll]
      generalize (if job.id ∈ levels.visited then some levels
        else MemoSearch.visit (nextOf jobMap) (levelOf jobMap) fuel job.id levels) = visited
      cases visited with
      | none => rfl
      | some levels' => exact ih fun other hother => hjobs other (List.mem_cons_of_mem _ hother)

-- == longest chains

/-- `a` depends on `b`, and both are in the list. -/
def DependsOn (jobs : List JobNode) (a b : String) : Prop :=
  ∃ job ∈ jobs, job.id = a ∧ b ∈ job.dependsOn ∧ b ∈ jobs.map (·.id)

/-- A chain of `n` dependencies leads down from `id`. -/
def ChainBelow (jobs : List JobNode) (id : String) (n : Nat) : Prop :=
  ∃ chain : List String, chain.length = n ∧ (id :: chain).IsChain (DependsOn jobs)

/-- Every dependency is in the list. -/
def Closed (jobs : List JobNode) : Prop :=
  ∀ job ∈ jobs, ∀ depId ∈ job.dependsOn, depId ∈ jobs.map (·.id)

/-- No job depends on itself, directly or through others of the list. -/
def Acyclic (jobs : List JobNode) : Prop :=
  ∀ id, ¬ Relation.TransGen (DependsOn jobs) id id

theorem chainBelow_zero (jobs : List JobNode) (id : String) : ChainBelow jobs id 0 :=
  ⟨[], rfl, List.isChain_singleton id⟩

/-- A longer chain is a step to a dependency, and a chain below that. -/
theorem chainBelow_succ {n : Nat} :
    ChainBelow jobs id (n + 1) ↔ ∃ dep, DependsOn jobs id dep ∧ ChainBelow jobs dep n := by
  constructor
  · rintro ⟨chain, hlength, hchain⟩
    cases chain with
    | nil => cases hlength
    | cons dep chain =>
        obtain ⟨hdep, hrest⟩ := List.isChain_cons_cons.1 hchain
        exact ⟨dep, hdep, chain, Nat.succ.inj hlength, hrest⟩
  · rintro ⟨dep, hdep, chain, rfl, hrest⟩
    exact ⟨dep :: chain, rfl, List.isChain_cons_cons.2 ⟨hdep, hrest⟩⟩

theorem mem_nextOf (hids : (jobs.map (·.id)).Nodup) {depId : String} :
    depId ∈ nextOf (jobMapOf jobs) id ↔ DependsOn jobs id depId := by
  unfold nextOf DependsOn
  constructor
  · intro h
    cases hlookup : (jobMapOf jobs).lookup id with
    | none =>
        rw [hlookup] at h
        cases h
    | some job =>
        rw [hlookup] at h
        obtain ⟨hdep, hmem⟩ := List.mem_filter.1 h
        obtain ⟨hjob, hid⟩ := of_lookup_jobMapOf hlookup
        exact ⟨job, hjob, hid, hdep, (mem_jobMapOf hids).1 (of_decide_eq_true hmem)⟩
  · rintro ⟨job, hjob, rfl, hdep, hmem⟩
    rw [lookup_jobMapOf hids hjob]
    exact List.mem_filter.2 ⟨hdep, decide_eq_true ((mem_jobMapOf hids).2 hmem)⟩

theorem max?_getD_cons (n : Nat) (found : List Nat) :
    (n :: found).max?.getD 0 = max n (found.max?.getD 0) := by
  rw [List.max?_cons]
  cases found.max? with
  | none => exact (Nat.max_zero n).symm
  | some m => rfl

/-- The length of the longest chain below some job. -/
def IsLongest (jobs : List JobNode) (id : String) (n : Nat) : Prop :=
  IsGreatest {n | ChainBelow jobs id n} n

/-- The largest of the lengths is that of a chain below one of the jobs,
and none below one of them is longer. -/
theorem longest_of_forall₂ {dependsOn : List String} {found : List Nat}
    (h : List.Forall₂ (IsLongest jobs) dependsOn found) :
    (dependsOn ≠ [] → ∃ dep ∈ dependsOn, ChainBelow jobs dep (found.max?.getD 0)) ∧
      ∀ dep ∈ dependsOn, ∀ n, ChainBelow jobs dep n → n ≤ found.max?.getD 0 := by
  induction h with
  | nil => exact ⟨fun h => absurd rfl h, fun dep hdep => by cases hdep⟩
  | @cons dep n dependsOn found hdep _ ih =>
      rw [max?_getD_cons]
      refine ⟨fun _ => ?_, fun other hother length hchain => ?_⟩
      · by_cases hle : found.max?.getD 0 ≤ n
        · rw [Nat.max_eq_left hle]
          exact ⟨dep, List.mem_cons_self .., hdep.1⟩
        · have hne : dependsOn ≠ [] := by
            rintro rfl
            cases ‹List.Forall₂ (IsLongest jobs) [] found›
            exact hle (Nat.zero_le n)
          obtain ⟨other, hother, hchain⟩ := ih.1 hne
          rw [Nat.max_eq_right (Nat.le_of_not_le hle)]
          exact ⟨other, List.mem_cons_of_mem _ hother, hchain⟩
      · rcases List.mem_cons.1 hother with rfl | hother
        · exact Nat.le_trans (hdep.2 hchain) (Nat.le_max_left ..)
        · exact Nat.le_trans (ih.2 other hother length hchain) (Nat.le_max_right ..)

/-- Where the dependencies have the lengths of the longest chains below
them, so has the job. -/
theorem isLongest_levelOf_mem (hids : (jobs.map (·.id)).Nodup) (hclosed : Closed jobs)
    {found : List Nat} (hjob : job ∈ jobs)
    (hfound : List.Forall₂ (IsLongest jobs) (nextOf (jobMapOf jobs) job.id) found) :
    IsLongest jobs job.id (levelOf (jobMapOf jobs) job.id found) := by
  have hlookup := lookup_jobMapOf hids hjob
  have hnext : nextOf (jobMapOf jobs) job.id = job.dependsOn := by
    unfold nextOf
    rw [hlookup]
    refine List.filter_eq_self.2 fun depId hdep => decide_eq_true ?_
    exact (mem_jobMapOf hids).2 (hclosed job hjob depId hdep)
  have hstep {dep : String} : DependsOn jobs job.id dep ↔ dep ∈ job.dependsOn := by
    rw [← mem_nextOf hids, hnext]
  rw [hnext] at hfound
  obtain ⟨hexists, hbound⟩ := longest_of_forall₂ hfound
  unfold levelOf
  rw [hlookup]
  dsimp only
  split
  case isTrue hempty =>
    rw [List.isEmpty_iff] at hempty
    rw [hempty] at hfound
    cases hfound
    refine ⟨chainBelow_zero jobs job.id, ?_⟩
    rintro (_ | n) hchain
    · exact Nat.le_refl 0
    · obtain ⟨dep, hdep, -⟩ := chainBelow_succ.1 hchain
      rw [hstep, hempty] at hdep
      cases hdep
  case isFalse hsome =>
    rw [List.isEmpty_iff] at hsome
    obtain ⟨dep, hdep, hchain⟩ := hexists hsome
    refine ⟨chainBelow_succ.2 ⟨dep, hstep.2 hdep, hchain⟩, ?_⟩
    rintro (_ | n) hchain
    · exact Nat.zero_le _
    · obtain ⟨dep, hdep, hbelow⟩ := chainBelow_succ.1 hchain
      exact Nat.succ_le_succ (hbound dep (hstep.1 hdep) n hbelow)

theorem isLongest_levelOf (hids : (jobs.map (·.id)).Nodup) (hclosed : Closed jobs) (id : String)
    (found : List Nat)
    (hfound : List.Forall₂ (IsLongest jobs) (nextOf (jobMapOf jobs) id) found) :
    IsLongest jobs id (levelOf (jobMapOf jobs) id found) := by
  cases hlookup : (jobMapOf jobs).lookup id with
  | some job =>
      obtain ⟨hjob, rfl⟩ := of_lookup_jobMapOf hlookup
      exact isLongest_levelOf_mem hids hclosed hjob hfound
  | none =>
      unfold levelOf
      rw [hlookup]
      refine ⟨chainBelow_zero jobs id, ?_⟩
      rintro (_ | n) hchain
      · exact Nat.le_refl 0
      · -- no job of the list has this id
        obtain ⟨dep, ⟨job, hjob, rfl, -⟩, -⟩ := chainBelow_succ.1 hchain
        rw [lookup_jobMapOf hids hjob] at hlookup
        cases hlookup

/-- The relation along which levels are calculated is that of the list. -/
theorem not_cycle (hids : (jobs.map (·.id)).Nodup) (hacyclic : Acyclic jobs) (id : String) :
    ¬ Relation.TransGen (MemoSearch.Leads (nextOf (jobMapOf jobs))) id id := by
  intro hcycle
  exact hacyclic id (Relation.TransGen.mono (fun a b hab => (mem_nextOf hids).1 hab) id id hcycle)

/-- Every job gets a level, and nothing else does. -/
theorem calculateJobLevels_total (hids : (jobs.map (·.id)).Nodup) :
    ∃ levels, calculateJobLevels (jobMapOf jobs) jobs.length jobs ⟨∅, ∅⟩ = some levels ∧
      levels.values.keys.Perm (jobs.map (·.id)) ∧
      (Closed jobs → Acyclic jobs → ∀ id level,
        levels.values.lookup id = some level → IsLongest jobs id level) := by
  have hkeys : ∀ id job, (jobMapOf jobs).lookup id = some job → job.id = id :=
    fun id job h => (of_lookup_jobMapOf h).2
  have hjobs : ∀ job ∈ jobs, (jobMapOf jobs).lookup job.id = some job :=
    fun job hjob => lookup_jobMapOf hids hjob
  have huniv : ∀ id ∈ (jobs.map (·.id)).toFinset, ∀ dep ∈ nextOf (jobMapOf jobs) id,
      dep ∈ (jobs.map (·.id)).toFinset := by
    intro id _ dep hdep
    obtain ⟨-, -, -, -, hmem⟩ := (mem_nextOf hids).1 hdep
    exact List.mem_toFinset.2 hmem
  have hspec : ∀ id found,
      MemoSearch.Gathered (nextOf (jobMapOf jobs))
        (fun id n => Closed jobs → Acyclic jobs → IsLongest jobs id n)
        (nextOf (jobMapOf jobs) id) found →
      Closed jobs → Acyclic jobs → IsLongest jobs id (levelOf (jobMapOf jobs) id found) := by
    intro id found hfound hclosed hacyclic
    refine isLongest_levelOf hids hclosed id found ?_
    exact (hfound.forall₂ (not_cycle hids hacyclic)).imp fun id n h => h hclosed hacyclic
  have hcard : (jobs.map (·.id)).toFinset.card ≤ jobs.length :=
    le_trans (List.toFinset_card_le _) (by rw [List.length_map])
  obtain ⟨levels, hlevels, hvisits, hall⟩ := MemoSearch.visitAll_total huniv hspec hcard
    (jobs.map (·.id)) (fun id hid => List.mem_toFinset.2 hid) .empty
  refine ⟨levels, ?_, ?_, ?_⟩
  · rw [calculateJobLevels_eq hkeys hjobs]
    exact hlevels
  · refine (List.perm_ext_iff_of_nodup levels.values.keys_nodup hids).2 fun id => ⟨?_, hall id⟩
    intro hid
    exact List.mem_toFinset.1 (hvisits.sound.inside ((hvisits.sound.visited id).2 (.inl hid)))
  · intro hclosed hacyclic id level hlevel
    exact hvisits.sound.spec id level hlevel hclosed hacyclic

-- == grouping

/-- The jobs of a map of levels. -/
def jobsOf (result : AList fun _ : Nat => List JobNode) : List JobNode :=
  result.entries.flatMap (·.2)

/-- A group that is replaced is taken out. -/
theorem jobsOf_insert (result : AList fun _ : Nat => List JobNode) (level : Nat)
    (added : List JobNode) :
    (jobsOf (result.insert level ((result.lookup level).getD [] ++ added))).Perm
      (jobsOf result ++ added) := by
  unfold jobsOf
  by_cases hlevel : level ∈ result
  · obtain ⟨old, before, after, -, heq, herase⟩ :=
      List.exists_of_kerase (AList.mem_keys.1 hlevel)
    have hlookup : result.lookup level = some old := by
      refine AList.mem_lookup_iff.2 ?_
      rw [heq]
      exact List.mem_append_right _ (List.mem_cons_self ..)
    rw [hlookup, AList.entries_insert, herase, heq]
    simp only [Option.getD_some, List.flatMap_cons, List.flatMap_append]
    generalize before.flatMap (·.2) = front
    generalize after.flatMap (·.2) = rest
    calc (old ++ added ++ (front ++ rest)).Perm (front ++ rest ++ (old ++ added)) :=
          List.perm_append_comm
      _ = front ++ (rest ++ old) ++ added := by simp only [List.append_assoc]
      _ |>.Perm (front ++ (old ++ rest) ++ added) :=
          (List.perm_append_comm.append_left front).append_right added
  · rw [AList.entries_insert_of_notMem hlevel, AList.lookup_eq_none.2 hlevel]
    exact List.perm_append_comm

/-- Grouping keeps the jobs found. -/
theorem jobsOf_foldl (entries : List ((_ : String) × Nat))
    (result : AList fun _ : Nat => List JobNode) :
    (jobsOf (entries.foldl (pushAtLevel jobMap) result)).Perm
      (jobsOf result ++ entries.filterMap fun entry => jobMap.lookup entry.1) := by
  induction entries generalizing result with
  | nil =>
      rw [List.filterMap_nil, List.append_nil]
      exact .refl _
  | cons entry entries ih =>
      rw [List.foldl_cons]
      refine (ih _).trans ?_
      unfold pushAtLevel
      cases hlookup : jobMap.lookup entry.1 with
      | none =>
          rw [List.filterMap_cons, hlookup]
      | some job =>
          rw [List.filterMap_cons, hlookup]
          refine ((jobsOf_insert result entry.2 [job]).append_right _).trans ?_
          rw [List.append_assoc]
          exact .refl _

/-- A job is grouped under its level. -/
theorem level_of_foldl {entries : List ((_ : String) × Nat)}
    {result : AList fun _ : Nat => List JobNode} {level : Nat} {atLevel : List JobNode}
    (hlookup : (entries.foldl (pushAtLevel jobMap) result).lookup level = some atLevel)
    (hjob : job ∈ atLevel) :
    (∃ before, result.lookup level = some before ∧ job ∈ before) ∨
      ∃ id, ⟨id, level⟩ ∈ entries ∧ jobMap.lookup id = some job := by
  induction entries generalizing result with
  | nil => exact .inl ⟨atLevel, hlookup, hjob⟩
  | cons entry entries ih =>
      rw [List.foldl_cons] at hlookup
      rcases ih hlookup with ⟨before, hbefore, hmem⟩ | ⟨id, hentry, hid⟩
      · unfold pushAtLevel at hbefore
        cases hfound : jobMap.lookup entry.1 with
        | none =>
            rw [hfound] at hbefore
            exact .inl ⟨before, hbefore, hmem⟩
        | some found =>
            rw [hfound] at hbefore
            dsimp only at hbefore
            by_cases hlevel : level = entry.2
            · subst hlevel
              rw [AList.lookup_insert] at hbefore
              obtain rfl := Option.some.inj hbefore
              rcases List.mem_append.1 hmem with hmem | hmem
              · cases hold : result.lookup entry.2 with
                | none =>
                    rw [hold] at hmem
                    cases hmem
                | some old =>
                    rw [hold] at hmem
                    exact .inl ⟨old, rfl, hmem⟩
              · obtain rfl := List.mem_singleton.1 hmem
                exact .inr ⟨entry.1, List.mem_cons_self .., hfound⟩
            · rw [AList.lookup_insert_ne hlevel] at hbefore
              exact .inl ⟨before, hbefore, hmem⟩
      · exact .inr ⟨id, List.mem_cons_of_mem _ hentry, hid⟩

variable {iteration : Iteration} {values : AList fun _ : String => Nat}

/-- The levels are in strict order. -/
theorem groupByLevel_increasing :
    (groupByLevel iteration jobMap values).Pairwise fun a b => a.1 < b.1 := by
  unfold groupByLevel
  dsimp only
  generalize (iteration.order values.entries).foldl (pushAtLevel jobMap) ∅ = result
  rw [List.pairwise_map]
  have hperm : (((iteration.order result.entries).map fun entry => (entry.1, entry.2)).insertionSort
        fun a b => a.1 ≤ b.1).Perm (result.entries.map fun entry => (entry.1, entry.2)) :=
    (List.perm_insertionSort _ _).trans ((iteration.perm result.entries).map _)
  have hne : (result.entries.map fun entry => (entry.1, entry.2)).Pairwise
      fun a b => a.1 ≠ b.1 := by
    rw [List.pairwise_map]
    exact List.pairwise_map.1 result.keys_nodup
  have hsorted := List.pairwise_insertionSort (fun a b : Nat × List JobNode => a.1 ≤ b.1)
    ((iteration.order result.entries).map fun entry => (entry.1, entry.2))
  refine (hsorted.and (hperm.symm.pairwise hne fun h => h.symm)).imp ?_
  rintro a b ⟨hle, hne⟩
  exact Nat.lt_of_le_of_ne hle hne

/-- Every job found is in one of the groups. -/
theorem flatMap_groupByLevel :
    ((groupByLevel iteration jobMap values).flatMap (·.2)).Perm
      (values.entries.filterMap fun entry => jobMap.lookup entry.1) := by
  have hgrouped := @jobsOf_foldl jobMap (iteration.order values.entries) ∅
  refine List.Perm.trans ?_ (hgrouped.trans ((iteration.perm values.entries).filterMap _))
  unfold groupByLevel jobsOf
  dsimp only
  generalize (iteration.order values.entries).foldl (pushAtLevel jobMap) ∅ = result
  rw [List.flatMap_map]
  refine (List.Perm.flatMap_left _ fun group _ => List.perm_insertionSort _ group.2).trans ?_
  refine ((List.perm_insertionSort _ _).flatMap_right _).trans ?_
  rw [List.flatMap_map]
  exact (iteration.perm result.entries).flatMap_right _

/-- A job is in the group of its level. -/
theorem level_of_groupByLevel {level : Nat} {atLevel : List JobNode}
    (hkeys : ∀ id job, jobMap.lookup id = some job → job.id = id)
    (hgroup : (level, atLevel) ∈ groupByLevel iteration jobMap values) (hjob : job ∈ atLevel) :
    values.lookup job.id = some level := by
  unfold groupByLevel at hgroup
  dsimp only at hgroup
  obtain ⟨group, hsorted, heq⟩ := List.mem_map.1 hgroup
  obtain ⟨rfl, rfl⟩ := Prod.mk.inj heq
  rw [List.mem_insertionSort] at hsorted hjob
  obtain ⟨entry, hentry, rfl⟩ := List.mem_map.1 hsorted
  have hlookup := AList.mem_lookup_iff.2 ((iteration.perm _).mem_iff.1 hentry)
  rcases level_of_foldl hlookup hjob with ⟨before, hbefore, -⟩ | ⟨id, hmem, hid⟩
  · rw [AList.lookup_empty] at hbefore
    cases hbefore
  · obtain rfl := hkeys id job hid
    exact AList.mem_lookup_iff.2 ((iteration.perm _).mem_iff.1 hmem)

-- == levels

/-- `result` shows every job once, at one level, and the levels in order.
Where the dependencies are in the list and form no cycle, the level of a
job is the length of the longest chain below it, and is after those of
its dependencies. -/
structure Layers (jobs : List JobNode) (result : List (Nat × List JobNode)) : Prop where
  increasing : result.Pairwise fun a b => a.1 < b.1
  once : (result.flatMap (·.2)).Perm jobs
  longest : Closed jobs → Acyclic jobs → ∀ group ∈ result, ∀ job ∈ group.2,
    IsLongest jobs job.id group.1
  after : Closed jobs → Acyclic jobs → ∀ group ∈ result, ∀ job ∈ group.2,
    ∀ below ∈ result, ∀ dep ∈ below.2, dep.id ∈ job.dependsOn → below.1 < group.1

/-- The jobs found by the ids of the list are those of the list. -/
theorem filterMap_lookup (hids : (jobs.map (·.id)).Nodup)
    (hkeys : values.keys.Perm (jobs.map (·.id))) :
    (values.entries.filterMap fun entry => (jobMapOf jobs).lookup entry.1).Perm jobs := by
  have hfound : (jobs.map (·.id)).filterMap (fun id => (jobMapOf jobs).lookup id) = jobs := by
    rw [List.filterMap_map]
    refine (List.filterMap_congr fun job hjob => ?_).trans List.filterMap_some
    exact lookup_jobMapOf hids hjob
  have hentries := hkeys.filterMap fun id => (jobMapOf jobs).lookup id
  unfold AList.keys List.keys at hentries
  rw [List.filterMap_map, hfound] at hentries
  exact hentries

/-- Dependency levels are longest chains, and every job has one. -/
theorem calculateDependencyLevels_layers (iteration : Iteration)
    (hids : (jobs.map (·.id)).Nodup) :
    ∃ result, calculateDependencyLevels iteration jobs = some result ∧ Layers jobs result := by
  obtain ⟨levels, hlevels, hkeys, hlongest⟩ := calculateJobLevels_total hids
  refine ⟨groupByLevel iteration (jobMapOf jobs) levels.values, ?_, ?_⟩
  · unfold calculateDependencyLevels
    rw [hlevels]
  have honce : ((groupByLevel iteration (jobMapOf jobs) levels.values).flatMap (·.2)).Perm jobs :=
    flatMap_groupByLevel.trans (filterMap_lookup hids hkeys)
  have hlevel : Closed jobs → Acyclic jobs →
      ∀ group ∈ groupByLevel iteration (jobMapOf jobs) levels.values, ∀ job ∈ group.2,
        IsLongest jobs job.id group.1 := by
    intro hclosed hacyclic group hgroup job hjob
    refine hlongest hclosed hacyclic job.id group.1 ?_
    exact level_of_groupByLevel (fun id job h => (of_lookup_jobMapOf h).2) hgroup hjob
  refine ⟨groupByLevel_increasing, honce, hlevel, ?_⟩
  intro hclosed hacyclic group hgroup job hjob below hbelow dep hdep hdepends
  have hmem {group : Nat × List JobNode} {job : JobNode}
      (hgroup : group ∈ groupByLevel iteration (jobMapOf jobs) levels.values)
      (hjob : job ∈ group.2) : job ∈ jobs :=
    honce.mem_iff.1 (List.mem_flatMap.2 ⟨group, hgroup, hjob⟩)
  have hstep : DependsOn jobs job.id dep.id :=
    ⟨job, hmem hgroup hjob, rfl, hdepends, List.mem_map_of_mem (hmem hbelow hdep)⟩
  -- a longest chain below the dependency is one step longer below the job
  have hchain := chainBelow_succ.2 ⟨dep.id, hstep,
    (hlevel hclosed hacyclic below hbelow dep hdep).1⟩
  exact (hlevel hclosed hacyclic group hgroup job hjob).2 hchain

/-- The entries as they are kept. -/
def Iteration.kept : Iteration where
  order entries := entries
  perm entries := .refl entries

/-- A job with two dependencies, that share one. -/
def diamond : List JobNode :=
  [("d", ["b", "c"]), ("b", ["a"]), ("c", ["a"]), ("a", [])].map fun (id, dependsOn) =>
    { id, queueName := "etl", status := "Pending", dependencyStatus := "none", dependsOn,
      dependents := [], workflowId := none, workflowName := none }

theorem calculateDependencyLevels_diamond :
    ∃ result, calculateDependencyLevels .kept diamond = some result ∧ Layers diamond result :=
  calculateDependencyLevels_layers .kept (by decide)

end WorkflowCommand

end Hammerwork
