/-
Batch claims are complete.

A dequeue takes as many jobs as were asked for, as the cap allows, and
as are eligible. What it takes is the start of the eligible jobs listed
level by level, each level oldest first: with strict priorities the
levels stand from the highest down, and with weights in the order they
are picked (`fillWeighted_eq`). So at most one level is taken in part,
and of it the oldest jobs (`Fills`).

A dequeue of one job takes the oldest by scheduled time, one of several
the oldest by scheduled and then by creation time.
-/
import Hammerwork.Lib.Grouping
import Hammerwork.Laws.ClaimOrder
import Hammerwork.Laws.WeightedPicks

namespace Hammerwork

open TestStorage TestQueue Grouping

variable {s : TestStorage} {env : Env} {eligible jobs : List Job}
  {job : Job} {n : Nat}

-- == the levels of the jobs

/-- The levels of the jobs, each once. -/
theorem levelsOf_spec (eligible : List Job) :
    (levelsOf eligible).Nodup ∧ ∀ job ∈ eligible, job.priority ∈ levelsOf eligible := by
  have hfold : ∀ (jobs : List Job) (levels : List JobPriority), levels.Nodup →
      (jobs.foldl (fun levels job =>
        if job.priority ∈ levels then levels else levels ++ [job.priority]) levels).Nodup ∧
      levels ⊆ jobs.foldl (fun levels job =>
        if job.priority ∈ levels then levels else levels ++ [job.priority]) levels ∧
      ∀ job ∈ jobs, job.priority ∈ jobs.foldl (fun levels job =>
        if job.priority ∈ levels then levels else levels ++ [job.priority]) levels := by
    intro jobs
    induction jobs with
    | nil => exact fun levels hnd => ⟨hnd, fun _ h => h, fun job hjob => by cases hjob⟩
    | cons first jobs ih =>
        intro levels hnd
        rw [List.foldl_cons]
        split
        case isTrue hin =>
          obtain ⟨hnd', hsub, hall⟩ := ih levels hnd
          refine ⟨hnd', hsub, fun job hjob => ?_⟩
          rcases List.mem_cons.1 hjob with rfl | hjob
          · exact hsub hin
          · exact hall job hjob
        case isFalse hout =>
          have hnew : (levels ++ [first.priority]).Nodup := by
            rw [List.nodup_append]
            refine ⟨hnd, List.nodup_singleton _, fun a ha b hb => ?_⟩
            rw [List.mem_singleton.1 hb]
            exact fun heq => hout (heq ▸ ha)
          obtain ⟨hnd', hsub, hall⟩ := ih _ hnew
          refine ⟨hnd', fun p hp => hsub (List.mem_append_left _ hp), fun job hjob => ?_⟩
          rcases List.mem_cons.1 hjob with rfl | hjob
          · exact hsub (List.mem_append_right _ (List.mem_singleton_self _))
          · exact hall job hjob
  obtain ⟨hnd, -, hall⟩ := hfold eligible [] List.nodup_nil
  exact ⟨hnd, hall⟩

-- == filling a batch

/-- A weighted batch is filled from the levels in the order they are
picked. -/
theorem fillWeighted_eq (weights : PriorityWeights) (seed : Nat → Nat) (eligible : List Job)
    (maxJobs : Nat) : ∀ (fuel attempt : Nat) (candidates : List JobPriority) (taken : List Job),
    candidates.length < fuel → candidates.Nodup →
    ∃ levels, levels.Perm candidates ∧
      fillWeighted weights seed eligible maxJobs fuel attempt candidates (taken.map (·.id))
        = (taken ++ (grouped (·.priority) eligible levels).take
            (maxJobs - taken.length)).map (·.id) := by
  intro fuel
  induction fuel with
  | zero => intro attempt candidates taken hfuel; omega
  | succ fuel ih =>
      intro attempt candidates taken hfuel hnd
      rw [fillWeighted, List.length_map]
      split
      case isFalse hfull =>
        refine ⟨candidates, List.Perm.refl _, ?_⟩
        rw [show maxJobs - taken.length = 0 by omega, List.take_zero, List.append_nil]
      case isTrue hroom =>
        split
        case h_1 hpick =>
          obtain rfl := pickWeightedPriority_none_iff.1 hpick
          refine ⟨[], List.Perm.refl _, ?_⟩
          simp [grouped]
        case h_2 priority hpick =>
          have hmem := mem_of_pickWeightedPriority hpick
          have hperm : (priority :: candidates.filter (· ≠ priority)).Perm candidates :=
            Selection.perm_cons_filter (by rwa [List.map_id] : (candidates.map id).Nodup) hmem
          have hlength := hperm.length_eq
          rw [List.length_cons] at hlength
          obtain ⟨levels, hlevels, hfill⟩ := ih (attempt + 1) (candidates.filter (· ≠ priority))
            (taken ++ (eligible.filter (·.priority = priority)).take (maxJobs - taken.length))
            (by omega) (hnd.sublist List.filter_sublist)
          refine ⟨priority :: levels, (hlevels.cons _).trans hperm, ?_⟩
          rw [List.map_append] at hfill
          rw [hfill]
          -- what a level leaves room for goes to the levels after it
          show _ = (taken ++ ((eligible.filter (·.priority = priority))
            ++ grouped (·.priority) eligible levels).take (maxJobs - taken.length)).map (·.id)
          have hroom' : maxJobs - (taken.length + min (maxJobs - taken.length)
                (eligible.filter (·.priority = priority)).length)
              = maxJobs - taken.length - (eligible.filter (·.priority = priority)).length := by
            omega
          rw [List.take_append, List.append_assoc, List.length_append, List.length_take, hroom']

-- == fills

/-- The older of two jobs: by scheduled time and, where several are
claimed, then by creation time. -/
def Older (n : Nat) (a b : Job) : Prop :=
  a.scheduledAt < b.scheduledAt ∨
    (a.scheduledAt = b.scheduledAt ∧ (2 ≤ n → a.createdAt ≤ b.createdAt))

/-- The jobs are those a claim of up to `n` should take: as many as there
are, different eligible ones, of each level the oldest, and of all levels
but one all or none. -/
structure Fills (n : Nat) (eligible jobs : List Job) : Prop where
  length : jobs.length = min n eligible.length
  distinct : (jobs.map (·.id)).Nodup
  mem : ∀ job ∈ jobs, job ∈ eligible
  oldest : ∀ job ∈ jobs, ∀ left ∈ eligible, left.id ∉ jobs.map (·.id) →
    job.priority = left.priority → Older n job left
  partly : ∀ job ∈ jobs, ∀ left ∈ eligible, left.id ∉ jobs.map (·.id) →
    job.priority = left.priority → ∀ job' ∈ jobs, ∀ left' ∈ eligible,
    left'.id ∉ jobs.map (·.id) → job'.priority = left'.priority → job.priority = job'.priority

/-- The start of the eligible jobs, listed level by level, fills the
batch. -/
theorem fills_of_ranked {rank : JobPriority → Nat} {listed : List Job}
    (hnd : (eligible.map (·.id)).Nodup) (hperm : listed.Perm eligible)
    (hranked : Ranked (·.priority) rank (Older n) listed) : Fills n eligible (listed.take n) := by
  have hleft : ∀ left ∈ eligible, left.id ∉ (listed.take n).map (·.id) →
      left ∈ listed.drop n := by
    intro left hmem hout
    have hin := hperm.symm.subset hmem
    rw [← List.take_append_drop n listed] at hin
    exact (List.mem_append.1 hin).resolve_left fun h => hout (List.mem_map_of_mem h)
  exact {
    length := by rw [List.length_take, hperm.length_eq]
    distinct := ((hperm.map _).nodup_iff.2 hnd).sublist ((List.take_sublist ..).map _)
    mem := fun job hjob => hperm.subset (List.mem_of_mem_take hjob)
    oldest := fun job hjob left hmem hout hkey =>
      hranked.first hjob (hleft left hmem hout) hkey
    partly := fun job hjob left hmem hout hkey job' hjob' left' hmem' hout' hkey' =>
      hranked.partly hjob (hleft left hmem hout) hkey hjob' (hleft left' hmem' hout') hkey' }

/-- The oldest job of some level fills a claim of one. -/
theorem fills_one (hmem : job ∈ eligible)
    (holdest : ∀ left ∈ eligible, job.priority = left.priority →
      job.scheduledAt ≤ left.scheduledAt) : Fills 1 eligible [job] where
  length := by
    have hpos := List.length_pos_of_mem hmem
    rw [List.length_singleton]
    omega
  distinct := List.nodup_singleton _
  mem := fun job' hjob' => by rwa [List.mem_singleton.1 hjob']
  oldest := fun job' hjob' left hleft _ hkey => by
    obtain rfl := List.mem_singleton.1 hjob'
    rcases Int.lt_or_eq_of_le (holdest left hleft hkey) with hlt | heq
    · exact .inl hlt
    · exact .inr ⟨heq, fun h => absurd h (by decide)⟩
  partly := fun job' hjob' _ _ _ _ job'' hjob'' _ _ _ _ => by
    rw [List.mem_singleton.1 hjob', List.mem_singleton.1 hjob'']

/-- Nothing fills a claim when there is nothing, or none is asked for. -/
theorem fills_nothing (h : min n eligible.length = 0) : Fills n eligible [] where
  length := h.symm
  distinct := List.nodup_nil
  mem := fun _ h => by cases h
  oldest := fun _ h => by cases h
  partly := fun _ h => by cases h

-- == several at once

theorem older_of_claimOrder {a b : Job} (hlevel : a.priority = b.priority)
    (h : claimOrder a b = true) : Older n a b := by
  rcases claimOrder_iff.1 h with hlt | ⟨-, hlt | ⟨heq, hcreated⟩⟩
  · rw [hlevel] at hlt
    exact absurd hlt (Nat.lt_irrefl _)
  · exact .inl hlt
  · exact .inr ⟨heq, fun _ => hcreated⟩

/-- In claim order, the jobs are listed from the highest level down. -/
theorem ranked_claimOrder (eligible : List Job) (n : Nat) :
    Ranked (·.priority) (fun p => 4 - p.asI32) (Older n) (eligible.mergeSort claimOrder) := by
  refine (List.pairwise_mergeSort claimOrder_trans claimOrder_total eligible).imp
    fun {a b} horder => ?_
  by_cases hlevel : a.priority = b.priority
  · exact .inr ⟨hlevel, older_of_claimOrder hlevel horder⟩
  · have hnum : a.priority.asI32 ≠ b.priority.asI32 := fun h => hlevel (asI32_inj h)
    have hle : a.priority.asI32 ≤ 4 := by cases a.priority <;> decide
    have habove : b.priority.asI32 < a.priority.asI32 :=
      (claimOrder_iff.1 horder).resolve_right fun h => hnum h.1
    refine .inl ?_
    show 4 - a.priority.asI32 < 4 - b.priority.asI32
    omega

/-- A batch of several is filled. -/
theorem getNextJobs_fills (hash : SeedHash) (queueName : String)
    (weights : Option PriorityWeights)
    (hnd : ((s.eligibleJobs queueName).map (·.id)).Nodup) (n : Nat) :
    ∃ jobs, s.getNextJobs hash queueName weights n = jobs.map (·.id) ∧
      Fills n (s.eligibleJobs queueName) jobs := by
  have hsorted := List.mergeSort_perm (s.eligibleJobs queueName) claimOrder
  have hstrict := fills_of_ranked hnd hsorted (ranked_claimOrder (s.eligibleJobs queueName) n)
  unfold getNextJobs
  dsimp only
  split
  case h_1 => exact ⟨_, rfl, hstrict⟩
  case h_2 weights =>
    split
    case isTrue => exact ⟨_, rfl, hstrict⟩
    case isFalse =>
      obtain ⟨hlevels, hcover⟩ := levelsOf_spec ((s.eligibleJobs queueName).mergeSort claimOrder)
      obtain ⟨levels, hperm, hfill⟩ := fillWeighted_eq weights
        (fun attempt => hash queueName (timestampMillis s.clock) (some attempt))
        ((s.eligibleJobs queueName).mergeSort claimOrder) n _ 0 _ [] (Nat.lt_succ_self _) hlevels
      have hpicked := hperm.nodup_iff.2 hlevels
      have hgrouped := grouped_perm hpicked fun job hjob => hperm.symm.subset (hcover job hjob)
      have hranked := (ranked_grouped (List.pairwise_mergeSort claimOrder_trans claimOrder_total
        (s.eligibleJobs queueName)) hpicked).mono fun a b => older_of_claimOrder (n := n)
      exact ⟨_, hfill, fills_of_ranked hnd (hgrouped.trans hsorted) hranked⟩

-- == just one

/-- The oldest of some jobs is one of them, and none is older. -/
theorem oldest_spec (h : oldest jobs = some job) :
    job ∈ jobs ∧ ∀ other ∈ jobs, job.scheduledAt ≤ other.scheduledAt := by
  cases jobs with
  | nil => cases h
  | cons first rest =>
      injection h with h
      rw [← h]
      exact Selection.foldl_best (fun other best => best.scheduledAt ≤ other.scheduledAt)
        (fun best next => next.scheduledAt < best.scheduledAt) (fun _ => Int.le_refl _)
        (fun h₁ h₂ => Int.le_trans h₂ h₁) Int.le_of_lt Int.not_lt.1 rest first

theorem oldest_none (h : oldest jobs = none) : jobs = [] := by
  cases jobs with
  | nil => rfl
  | cons first rest => cases h

/-- The levels that have a job. -/
theorem mem_candidateLevels {priority : JobPriority} :
    priority ∈ candidateLevels eligible ↔ ∃ job ∈ eligible, job.priority = priority := by
  unfold candidateLevels
  rw [List.mem_filter, List.any_eq_true]
  refine ⟨fun ⟨_, job, hjob, heq⟩ => ⟨job, hjob, of_decide_eq_true heq⟩,
    fun ⟨job, hjob, heq⟩ => ⟨?_, job, hjob, decide_eq_true heq⟩⟩
  cases priority <;> simp

/-- A claim of one is filled. -/
theorem getNextJob_fills (hash : SeedHash) (queueName : String)
    (weights : Option PriorityWeights) :
    ∃ jobs, (s.getNextJob hash queueName weights).toList = jobs.map (·.id) ∧
      Fills 1 (s.eligibleJobs queueName) jobs := by
  have hstrict : ∃ jobs, ((firstClaimed (s.eligibleJobs queueName)).map (·.id)).toList
      = jobs.map (·.id) ∧ Fills 1 (s.eligibleJobs queueName) jobs := by
    cases hfirst : firstClaimed (s.eligibleJobs queueName) with
    | none =>
        have hempty : s.eligibleJobs queueName = [] := by
          cases heligible : s.eligibleJobs queueName with
          | nil => rfl
          | cons first rest =>
              rw [heligible] at hfirst
              cases hfirst
        refine ⟨[], rfl, ?_⟩
        rw [hempty]
        exact fills_nothing rfl
    | some job =>
        obtain ⟨hmem, hbest⟩ := (picks_firstClaimed_shared _).first _ job (List.Sublist.refl _)
          hfirst
        refine ⟨[job], rfl, fills_one hmem fun left hleft hkey => ?_⟩
        rcases claimedAfter_iff.1 (hbest left hleft) with hlt | ⟨-, hle⟩
        · rw [hkey] at hlt
          exact absurd hlt (Nat.lt_irrefl _)
        · exact hle
  unfold getNextJob
  dsimp only
  split
  case h_1 => exact hstrict
  case h_2 weights =>
    split
    case isTrue => exact hstrict
    case isFalse =>
      split
      case h_1 hpick =>
        have hlevels := pickWeightedPriority_none_iff.1 hpick
        have hempty : s.eligibleJobs queueName = [] :=
          List.eq_nil_iff_forall_not_mem.2 fun job hjob => by
            have hmem := mem_candidateLevels.2 ⟨job, hjob, rfl⟩
            rw [hlevels] at hmem
            cases hmem
        refine ⟨[], rfl, ?_⟩
        rw [hempty]
        exact fills_nothing rfl
      case h_2 priority hpick =>
        cases holdest : oldest ((s.eligibleJobs queueName).filter (·.priority = priority)) with
        | none =>
            obtain ⟨job, hjob, hlevel⟩ :=
              mem_candidateLevels.1 (mem_of_pickWeightedPriority hpick)
            have hmem : job ∈ (s.eligibleJobs queueName).filter (·.priority = priority) :=
              List.mem_filter.2 ⟨hjob, decide_eq_true hlevel⟩
            rw [oldest_none holdest] at hmem
            cases hmem
        | some job =>
            obtain ⟨hmem, hbest⟩ := oldest_spec holdest
            obtain ⟨hin, hlevel⟩ := List.mem_filter.1 hmem
            refine ⟨[job], rfl, fills_one hin fun left hleft hkey => ?_⟩
            refine hbest left (List.mem_filter.2 ⟨hleft, decide_eq_true ?_⟩)
            exact hkey.symm.trans (of_decide_eq_true hlevel)

-- == the law

/-- What a dequeue claims fills the batch, up to the cap. -/
theorem claimedIds_fills (hk : s.Keyed) (hco : s.Coherent) (queueName : String)
    (weights : Option PriorityWeights) (maxJobs : Nat) :
    ∃ jobs, claimedIds env s queueName weights maxJobs = jobs.map (·.id) ∧
      Fills (min maxJobs maxDequeueBatchSize) (s.eligibleJobs queueName) jobs := by
  unfold claimedIds
  generalize min maxJobs maxDequeueBatchSize = n
  match n with
  | 0 => exact ⟨[], rfl, fills_nothing (Nat.zero_min _)⟩
  | 1 => exact getNextJob_fills env.hash queueName weights
  | n + 2 =>
      exact getNextJobs_fills env.hash queueName weights (nodup_eligible hk hco queueName) (n + 2)

/-- In every state of a run whose jobs have ids of their own, whatever
the weights: a dequeue hands out as many jobs as are eligible, up to the
number asked for and the cap; they are different jobs that were eligible,
started now; of each level they are the oldest, and at most one level is
taken in part. A paused queue hands out none. -/
theorem batch_claims_complete {n : Nat} (r : Run (Step env) n) {clock : DateTime}
    (h0 : r.state 0 = TestStorage.new clock) (hnew : NewIds r) {i : Nat} (hi : i ≤ n)
    (queueName : String) (weights : Option PriorityWeights) (lease : Duration) (maxJobs : Nat) :
    ∃ jobs s', dequeue env (r.state i) queueName weights lease maxJobs
        = (.ok (jobs.map (·.claimed (r.state i).clock)), s') ∧
      Fills (min maxJobs maxDequeueBatchSize) ((r.state i).eligibleJobs queueName) jobs ∧
      (((r.state i).pausedQueues.lookup queueName).isSome → jobs = []) := by
  have hk := run_keyed r h0 i hi
  have hco := run_coherent r h0 (hnew.fresh h0) i hi
  generalize r.state i = s at hk hco
  obtain ⟨jobs, hids, hfills⟩ :
      ∃ jobs, claimedIds env s queueName weights maxJobs = jobs.map (·.id) ∧
        Fills (min maxJobs maxDequeueBatchSize) (s.eligibleJobs queueName) jobs :=
    claimedIds_fills hk hco queueName weights maxJobs
  have hclaims := claimEach_eq lease jobs s hk hfills.distinct fun job hjob =>
    (eligible_isJob hk (hfills.mem job hjob)).1
  refine ⟨jobs, (claimEach lease (jobs.map (·.id)) s).2, ?_, hfills, fun hpaused => ?_⟩
  · rw [dequeue_eq, hids, ← hclaims]
  · have hempty : s.eligibleJobs queueName = [] := by
      unfold eligibleJobs
      rw [if_pos hpaused]
    have hlength := hfills.length
    rw [hempty, List.length_nil, Nat.min_zero] at hlength
    exact List.length_eq_zero_iff.1 hlength

/-- Weights with which no level has any. -/
def zeroWeights : PriorityWeights :=
  ⟨((((∅ : Table JobPriority Nat).insert .critical 0).insert .high 0).insert .normal 0).insert
    .low 0 |>.insert .background 0, false⟩

/-- Both of two jobs are handed out, though no level has a weight. -/
theorem batch_claims_complete_twoArrivals :
    ∃ jobs s', dequeue plainEnv ((Op.trace plainEnv twoArrivals (TestStorage.new 0)).state 3)
      "mail" (some zeroWeights) 0 5 = (.ok jobs, s') ∧ jobs.length = 2 := by
  obtain ⟨jobs, s', hdequeue, hfills, -⟩ := batch_claims_complete
    (Op.trace plainEnv twoArrivals (TestStorage.new 0)) rfl newIds_twoArrivals (le_refl 3)
    "mail" (some zeroWeights) 0 5
  refine ⟨_, s', hdequeue, ?_⟩
  have hlength : (((Op.trace plainEnv twoArrivals (TestStorage.new 0)).state 3).eligibleJobs
      "mail").length = 2 := by decide +kernel
  rw [List.length_map, hfills.length, hlength]
  rfl

end Hammerwork
