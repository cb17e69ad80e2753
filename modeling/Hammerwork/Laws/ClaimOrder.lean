/-
A batch of claims against claims one by one.

A dequeue of several jobs sorts the eligible jobs and takes the first
ones; a dequeue of one job takes the best of them. With strict
priorities, both go by priority and then by scheduled time, so a batch
hands out what as many dequeues of one job would, and leaves the same
storage (`batch_claims_as_singles`).

They differ where the order they share does not decide: of jobs of one
priority that are scheduled at the same instant, the batch takes the one
created first, and the dequeue of one job the one indexed last. Where
these are the same job (`NewestFirst`; there may be no such jobs at
all), the two agree. A batch is also capped.
-/
import Hammerwork.Lib.Selection
import Hammerwork.Laws.Index
import Hammerwork.Laws.Spawning

namespace Hammerwork

open TestStorage TestQueue

variable {s s' : TestStorage} {env : Env} {id k : JobId} {job job' : Job}

-- == the orders

theorem claimedAfter_iff {a b : Job} : claimedAfter a b = true ↔
    a.priority.asI32 < b.priority.asI32 ∨
      (a.priority.asI32 = b.priority.asI32 ∧ b.scheduledAt ≤ a.scheduledAt) := by
  simp [claimedAfter]

theorem claimOrder_iff {a b : Job} : claimOrder a b = true ↔
    b.priority.asI32 < a.priority.asI32 ∨
      (a.priority.asI32 = b.priority.asI32 ∧ (a.scheduledAt < b.scheduledAt ∨
        (a.scheduledAt = b.scheduledAt ∧ a.createdAt ≤ b.createdAt))) := by
  simp [claimOrder]

theorem claimedAfter_trans {a b c : Job} (h₁ : claimedAfter a b = true)
    (h₂ : claimedAfter b c = true) : claimedAfter a c = true := by
  have hlex : ∀ {p₁ p₂ p₃ : Nat} {t₁ t₂ t₃ : Int}, p₁ < p₂ ∨ (p₁ = p₂ ∧ t₂ ≤ t₁) →
      p₂ < p₃ ∨ (p₂ = p₃ ∧ t₃ ≤ t₂) → p₁ < p₃ ∨ (p₁ = p₃ ∧ t₃ ≤ t₁) := by omega
  exact claimedAfter_iff.2 (hlex (claimedAfter_iff.1 h₁) (claimedAfter_iff.1 h₂))

theorem claimedAfter_total (a b : Job) : claimedAfter a b = true ∨ claimedAfter b a = true := by
  have hlex : ∀ {p₁ p₂ : Nat} {t₁ t₂ : Int}, (p₁ < p₂ ∨ (p₁ = p₂ ∧ t₂ ≤ t₁)) ∨
      (p₂ < p₁ ∨ (p₂ = p₁ ∧ t₁ ≤ t₂)) := by omega
  rw [claimedAfter_iff, claimedAfter_iff]
  exact hlex

theorem claimOrder_trans (a b c : Job) (h₁ : claimOrder a b = true)
    (h₂ : claimOrder b c = true) : claimOrder a c = true := by
  have hlex : ∀ {p₁ p₂ p₃ : Nat} {t₁ t₂ t₃ c₁ c₂ c₃ : Int},
      p₂ < p₁ ∨ (p₁ = p₂ ∧ (t₁ < t₂ ∨ (t₁ = t₂ ∧ c₁ ≤ c₂))) →
      p₃ < p₂ ∨ (p₂ = p₃ ∧ (t₂ < t₃ ∨ (t₂ = t₃ ∧ c₂ ≤ c₃))) →
      p₃ < p₁ ∨ (p₁ = p₃ ∧ (t₁ < t₃ ∨ (t₁ = t₃ ∧ c₁ ≤ c₃))) := by omega
  exact claimOrder_iff.2 (hlex (claimOrder_iff.1 h₁) (claimOrder_iff.1 h₂))

theorem claimOrder_total (a b : Job) : (claimOrder a b || claimOrder b a) = true := by
  have hlex : ∀ {p₁ p₂ : Nat} {t₁ t₂ c₁ c₂ : Int},
      (p₂ < p₁ ∨ (p₁ = p₂ ∧ (t₁ < t₂ ∨ (t₁ = t₂ ∧ c₁ ≤ c₂)))) ∨
      (p₁ < p₂ ∨ (p₂ = p₁ ∧ (t₂ < t₁ ∨ (t₂ = t₁ ∧ c₂ ≤ c₁)))) := by omega
  rw [Bool.or_eq_true, claimOrder_iff, claimOrder_iff]
  exact hlex

/-- Both orders agree on the order they share. -/
theorem claimedAfter_of_claimOrder {a b : Job} (h : claimOrder a b = true) :
    claimedAfter b a = true := by
  have hlex : ∀ {p₁ p₂ : Nat} {t₁ t₂ c₁ c₂ : Int},
      p₂ < p₁ ∨ (p₁ = p₂ ∧ (t₁ < t₂ ∨ (t₁ = t₂ ∧ c₁ ≤ c₂))) →
      p₂ < p₁ ∨ (p₂ = p₁ ∧ t₁ ≤ t₂) := by omega
  exact claimedAfter_iff.2 (hlex (claimOrder_iff.1 h))

/-- Two jobs the shared order does not decide between. -/
def Tied (a b : Job) : Prop :=
  a.priority.asI32 = b.priority.asI32 ∧ a.scheduledAt = b.scheduledAt

theorem tied_of_claimedAfter {a b : Job} (h₁ : claimedAfter a b = true)
    (h₂ : claimedAfter b a = true) : Tied a b := by
  have hlex : ∀ {p₁ p₂ : Nat} {t₁ t₂ : Int}, p₁ < p₂ ∨ (p₁ = p₂ ∧ t₂ ≤ t₁) →
      p₂ < p₁ ∨ (p₂ = p₁ ∧ t₁ ≤ t₂) → p₁ = p₂ ∧ t₁ = t₂ := by omega
  exact hlex (claimedAfter_iff.1 h₁) (claimedAfter_iff.1 h₂)

theorem createdAt_of_tied {a b : Job} (htied : Tied a b) (h : claimOrder a b = true) :
    a.createdAt ≤ b.createdAt := by
  have hlex : ∀ {p₁ p₂ : Nat} {t₁ t₂ c₁ c₂ : Int}, p₁ = p₂ ∧ t₁ = t₂ →
      p₂ < p₁ ∨ (p₁ = p₂ ∧ (t₁ < t₂ ∨ (t₁ = t₂ ∧ c₁ ≤ c₂))) → c₁ ≤ c₂ := by omega
  exact hlex htied (claimOrder_iff.1 h)

/-- Of two tied jobs, the one listed later was created earlier. -/
def NewestFirst (jobs : List Job) : Prop :=
  jobs.Pairwise fun a b => Tied a b → b.createdAt < a.createdAt

theorem NewestFirst.sublist {l l' : List Job} (h : NewestFirst l) (hsub : l'.Sublist l) :
    NewestFirst l' := List.Pairwise.sublist hsub h

/-- Among such jobs the batch's order is strict. -/
theorem NewestFirst.antisymm {l : List Job} (h : NewestFirst l) {a b : Job} (ha : a ∈ l)
    (hb : b ∈ l) (h₁ : claimOrder a b = true) (h₂ : claimOrder b a = true) : a = b := by
  have htied : Tied a b :=
    tied_of_claimedAfter (claimedAfter_of_claimOrder h₂) (claimedAfter_of_claimOrder h₁)
  have htied' : Tied b a := ⟨htied.1.symm, htied.2.symm⟩
  have hsame : a.createdAt = b.createdAt :=
    Int.le_antisymm (createdAt_of_tied htied h₁) (createdAt_of_tied htied' h₂)
  -- that they were created at different times does not depend on their order
  have hdiffer : l.Pairwise fun a b => Tied a b → a.createdAt ≠ b.createdAt :=
    h.imp fun hnewer htied => (Int.ne_of_lt (hnewer htied)).symm
  have hsymm : Std.Symm fun a b : Job => Tied a b → a.createdAt ≠ b.createdAt :=
    ⟨fun _ _ hxy hyx => (hxy ⟨hyx.1.symm, hyx.2.symm⟩).symm⟩
  by_contra hne
  exact hdiffer.forall ha hb hne htied hsame

-- == one by one

/-- The job taken alone is the last of the best: none is better, and
those listed after it are worse. -/
theorem firstClaimed_split {l : List Job} (h : firstClaimed l = some job) :
    ∃ l₁ l₂, l = l₁ ++ job :: l₂ ∧ (∀ a ∈ l₁, claimedAfter a job = true) ∧
      ∀ a ∈ l₂, claimedAfter job a = false := by
  have hfold : ∀ (rest : List Job) (best : Job),
      ∃ l₁ l₂, best :: rest = l₁ ++ rest.foldl
          (fun best job => if claimedAfter best job then job else best) best :: l₂ ∧
        (∀ a ∈ l₁, claimedAfter a (rest.foldl
          (fun best job => if claimedAfter best job then job else best) best) = true) ∧
        ∀ a ∈ l₂, claimedAfter (rest.foldl
          (fun best job => if claimedAfter best job then job else best) best) a = false := by
    intro rest
    induction rest with
    | nil => exact fun best => ⟨[], [], rfl, fun a ha => (by cases ha), fun a ha => (by cases ha)⟩
    | cons next rest ih =>
        intro best
        rw [List.foldl_cons]
        split
        · next hafter =>
          obtain ⟨l₁, l₂, heq, hbefore, hbehind⟩ := ih next
          generalize rest.foldl _ next = chosen at heq hbefore hbehind ⊢
          refine ⟨best :: l₁, l₂, by rw [heq]; rfl, fun a ha => ?_, hbehind⟩
          rcases List.mem_cons.1 ha with rfl | ha
          · -- `next` is better than `best`, and the choice is no worse than `next`
            cases l₁ with
            | nil =>
                injection heq with heq
                exact heq ▸ hafter
            | cons first l₁ =>
                injection heq with heq
                exact claimedAfter_trans hafter
                  (hbefore next (heq ▸ List.mem_cons_self ..))
          · exact hbefore a ha
        · next hafter =>
          obtain ⟨l₁, l₂, heq, hbefore, hbehind⟩ := ih best
          generalize rest.foldl _ best = chosen at heq hbefore hbehind ⊢
          have hworse : claimedAfter next best = true :=
            (claimedAfter_total best next).resolve_left hafter
          cases l₁ with
          | nil =>
              injection heq with heq hrest
              subst heq
              refine ⟨[], next :: rest, rfl, fun a ha => (by cases ha), fun a ha => ?_⟩
              rcases List.mem_cons.1 ha with rfl | ha
              · simpa using hafter
              · exact hbehind a (hrest ▸ ha)
          | cons first l₁ =>
              injection heq with heq hrest
              subst heq
              refine ⟨best :: next :: l₁, l₂, by rw [hrest]; rfl, fun a ha => ?_, hbehind⟩
              have hbest := hbefore best (List.mem_cons_self ..)
              rcases List.mem_cons.1 ha with rfl | ha
              · exact hbest
              · rcases List.mem_cons.1 ha with rfl | ha
                · exact claimedAfter_trans hworse hbest
                · exact hbefore a (List.mem_cons_of_mem _ ha)
  cases l with
  | nil => cases h
  | cons first rest =>
      injection h with h
      exact h ▸ hfold rest first

/-- Among jobs that the batch's order tells apart, the job taken alone is
the first of the batch. -/
theorem firstClaimed_first {l : List Job} (hnewest : NewestFirst l)
    (h : firstClaimed l = some job) : ∀ a ∈ l, claimOrder job a = true := by
  obtain ⟨l₁, l₂, heq, hbefore, hbehind⟩ := firstClaimed_split h
  intro a ha
  by_cases horder : claimOrder job a = true
  · exact horder
  · have hrev : claimOrder a job = true := by
      have htotal := claimOrder_total job a
      simpa [horder] using htotal
    have hafter : claimedAfter job a = true := claimedAfter_of_claimOrder hrev
    unfold NewestFirst at hnewest
    rw [heq] at ha hnewest
    rcases List.mem_append.1 ha with ha | ha
    · -- listed before the choice and tied with it, so created after it
      have htied : Tied a job := tied_of_claimedAfter (hbefore a ha) hafter
      have hlt := (List.pairwise_append.1 hnewest).2.2 a ha job (List.mem_cons_self ..) htied
      exact absurd (createdAt_of_tied htied hrev) (Int.not_le.2 hlt)
    · rcases List.mem_cons.1 ha with rfl | ha
      · exact absurd hrev horder
      · rw [hbehind a ha] at hafter
        cases hafter

/-- In the order shared by both, the job taken alone is a first one. -/
theorem picks_firstClaimed_shared (l : List Job) :
    Selection.Picks firstClaimed (fun a b => claimedAfter b a) l where
  first l' job _ hpick := by
    refine ⟨firstClaimed_mem hpick, fun a ha => ?_⟩
    obtain ⟨l₁, l₂, rfl, hbefore, hbehind⟩ := firstClaimed_split hpick
    rcases List.mem_append.1 ha with ha | ha
    · exact hbefore a ha
    · rcases List.mem_cons.1 ha with rfl | ha
      · exact (claimedAfter_total a a).elim id id
      · exact (claimedAfter_total job a).resolve_left (by simp [hbehind a ha])
  some l' _ hne := by
    cases l' with
    | nil => exact absurd rfl hne
    | cons first rest => rfl

theorem picks_firstClaimed {l : List Job} (hnewest : NewestFirst l) :
    Selection.Picks firstClaimed claimOrder l where
  first _ _ hsub hpick :=
    ⟨firstClaimed_mem hpick, firstClaimed_first (hnewest.sublist hsub) hpick⟩
  some l' _ hne := by
    cases l' with
    | nil => exact absurd rfl hne
    | cons first rest => rfl

/-- Taking jobs one by one takes them in the batch's order. -/
theorem pickAll_firstClaimed {l : List Job} (hnd : (l.map (·.id)).Nodup)
    (hnewest : NewestFirst l) (n : Nat) :
    Selection.pickAll firstClaimed (·.id) n l = (l.mergeSort claimOrder).take n :=
  Selection.pickAll_eq_mergeSort claimOrder_trans claimOrder_total n l hnd
    (picks_firstClaimed hnewest) fun _ ha _ hb => hnewest.antisymm ha hb

-- == dequeues of one

/-- Successive dequeues of one job each, and all the jobs they hand
out. -/
def dequeueOneByOne (env : Env) (queueName : String) (weights : Option PriorityWeights)
    (lease : Duration) : Nat → TestStorage → Result (List Job)
  | 0, s => (.ok [], s)
  | n + 1, s =>
      match dequeue env s queueName weights lease 1 with
      | (.error e, s) => (.error e, s)
      | (.ok jobs, s) =>
          match dequeueOneByOne env queueName weights lease n s with
          | (.error e, s) => (.error e, s)
          | (.ok more, s) => (.ok (jobs ++ more), s)

/-- Priorities are strict: there are no weights, or strict ones. -/
def StrictPriority (weights : Option PriorityWeights) : Prop :=
  ∀ w, weights = some w → w.isStrict = true

theorem getNextJob_strict {hash : SeedHash} {queueName : String}
    {weights : Option PriorityWeights} (hstrict : StrictPriority weights) :
    s.getNextJob hash queueName weights
      = (firstClaimed (s.eligibleJobs queueName)).map (·.id) := by
  cases weights with
  | none => rfl
  | some w =>
      unfold getNextJob
      dsimp only
      rw [if_pos (hstrict w rfl)]

theorem getNextJobs_strict {hash : SeedHash} {queueName : String}
    {weights : Option PriorityWeights} (hstrict : StrictPriority weights) (maxJobs : Nat) :
    s.getNextJobs hash queueName weights maxJobs
      = (((s.eligibleJobs queueName).mergeSort claimOrder).take maxJobs).map (·.id) := by
  cases weights with
  | none => rfl
  | some w =>
      unfold getNextJobs
      dsimp only
      rw [if_pos (hstrict w rfl)]

theorem claim_registers {lease : Duration} {claimed : Option Job}
    (hlookup : s.jobs.lookup id = some job) (h : claim s id lease = .ok (s', claimed)) :
    s'.queues = (s.restatus id job .running).queues := by
  unfold claim at h
  rw [updateJobStatus_eq hlookup] at h
  rw [← (Prod.mk.inj (pure_eq_ok.1 h)).1]
  rfl

/-- A claimed job is no longer listed as pending. -/
theorem claim_pending {lease : Duration} {claimed : Option Job} (hco : s.Coherent)
    (hlookup : s.jobs.lookup id = some job) (hst : job.status = .pending)
    (h : claim s id lease = .ok (s', claimed)) (queueName : String) :
    QueueIndex.list s'.queues queueName .pending
      = (QueueIndex.list s.queues queueName .pending).filter (· ≠ id) := by
  rw [claim_registers hlookup h]
  unfold restatus
  dsimp only
  rw [QueueIndex.list_add, if_neg (by simp), QueueIndex.list_drop, hst]
  split
  · next hq => rw [hq.1]
  · next hq =>
    refine (List.filter_eq_self.2 fun k hmem => ?_).symm
    rw [decide_eq_true_iff]
    intro hkid
    -- a job is listed under its own queue only
    obtain ⟨job', hlookup', hq', -⟩ := (hco.mem _ _ _).1 hmem
    rw [hkid, hlookup] at hlookup'
    injection hlookup' with hlookup'
    exact hq ⟨by rw [hlookup', hq'], rfl⟩

/-- A claimed job is no longer eligible; the others are, in the order
they were. -/
theorem claim_eligible {lease : Duration} {claimed : Option Job} (hk : s.Keyed)
    (hco : s.Coherent) (hlookup : s.jobs.lookup id = some job) (hst : job.status = .pending)
    (h : claim s id lease = .ok (s', claimed)) (queueName : String) :
    s'.eligibleJobs queueName = (s.eligibleJobs queueName).filter (·.id ≠ id) := by
  obtain ⟨job₀, hlookup₀, hr, -⟩ := claim_ok h
  have hpaused : s'.pausedQueues = s.pausedQueues := by rw [hr.rest]
  unfold eligibleJobs
  rw [hpaused, hr.rest.clock, claim_pending hco hlookup hst h]
  split
  · rfl
  · rw [List.filter_filter]
    generalize QueueIndex.list s.queues queueName .pending = ids
    induction ids with
    | nil => rfl
    | cons k ids ih =>
        by_cases hkid : k = id
        · subst hkid
          rw [List.filter_cons_of_neg (by simp), ih,
            List.filterMap_cons_some (f := fun k => s.jobs.lookup k) hlookup,
            List.filter_cons_of_neg (by simp [hk k job hlookup])]
        · rw [List.filter_cons_of_pos (by simpa using hkid)]
          cases hstored : s.jobs.lookup k with
          | none =>
              have hstored' : s'.jobs.lookup k = none := (hr.lookup_ne hkid).trans hstored
              rw [List.filterMap_cons_none (f := fun k => s.jobs.lookup k) hstored,
                List.filterMap_cons_none (f := fun k => s'.jobs.lookup k) hstored', ih]
          | some stored =>
              have hstored' : s'.jobs.lookup k = some stored := (hr.lookup_ne hkid).trans hstored
              rw [List.filterMap_cons_some (f := fun k => s.jobs.lookup k) hstored,
                List.filterMap_cons_some (f := fun k => s'.jobs.lookup k) hstored',
                List.filter_cons, List.filter_cons, ih]
              have hne : stored.id ≠ id := hk k stored hstored ▸ hkid
              simp [hne]

/-- Successive dequeues of one job are the claims of the jobs picked one
by one. -/
theorem dequeueOneByOne_eq {queueName : String} {weights : Option PriorityWeights}
    (hstrict : StrictPriority weights) (lease : Duration) : ∀ (n : Nat) (s : TestStorage),
    s.Keyed → s.Coherent →
    dequeueOneByOne env queueName weights lease n s
      = claimEach lease ((Selection.pickAll firstClaimed (·.id) n
          (s.eligibleJobs queueName)).map (·.id)) s := by
  intro n
  induction n with
  | zero => exact fun s _ _ => rfl
  | succ n ih =>
      intro s hk hco
      have hids : claimedIds env s queueName weights 1
          = ((firstClaimed (s.eligibleJobs queueName)).map (·.id)).toList := by
        unfold claimedIds
        rw [show min 1 maxDequeueBatchSize = 1 from rfl, getNextJob_strict hstrict]
        rfl
      rw [dequeueOneByOne, dequeue_eq, hids]
      cases hpick : firstClaimed (s.eligibleJobs queueName) with
      | none =>
          have hnone := ih s hk hco
          rw [Selection.pickAll_of_none hpick] at hnone ⊢
          simp only [Option.map_none, Option.toList_none, claimEach, List.map_nil] at hnone ⊢
          rw [hnone]
          rfl
      | some job =>
          have hmem : job.id ∈ claimedIds env s queueName weights 1 := by
            rw [hids, hpick]
            exact List.mem_singleton_self _
          obtain ⟨job', hlookup, hst, -⟩ := claimed_pending hk hco hmem
          obtain ⟨hlookup', -⟩ := eligible_isJob hk (firstClaimed_mem hpick)
          obtain rfl : job' = job := Option.some.inj (hlookup.symm.trans hlookup')
          rw [Selection.pickAll, hpick]
          dsimp only [Option.map_some, Option.toList_some]
          rw [List.map_cons, claimEach, claimEach]
          cases hclaim : claim s job'.id lease with
          | error e => rfl
          | ok out =>
              obtain ⟨s₁, claimed⟩ := out
              obtain ⟨job₀, hlookup₀, hr, rfl⟩ := claim_ok hclaim
              obtain rfl : job₀ = job' := Option.some.inj (hlookup₀.symm.trans hlookup)
              have hrest := ih s₁ (hr.keyed rfl hk) (hr.index hco)
              rw [claim_eligible hk hco hlookup hst hclaim queueName] at hrest
              dsimp only
              rw [show claimEach lease [] s₁ = (.ok [], s₁) from rfl]
              dsimp only
              rw [hrest]
              generalize claimEach lease _ s₁ = result
              obtain ⟨outcome, s₂⟩ := result
              cases outcome <;> rfl

-- == what is chosen

/-- The jobs a dequeue of up to `n` jobs chooses, with strict
priorities. -/
def chosen (eligible : List Job) : Nat → List Job
  | 0 => []
  | 1 => (firstClaimed eligible).toList
  | n => (eligible.mergeSort claimOrder).take n

theorem claimedIds_eq_chosen {queueName : String} {weights : Option PriorityWeights}
    (hstrict : StrictPriority weights) (maxJobs : Nat) :
    claimedIds env s queueName weights maxJobs
      = (chosen (s.eligibleJobs queueName) (min maxJobs maxDequeueBatchSize)).map (·.id) := by
  unfold claimedIds
  generalize min maxJobs maxDequeueBatchSize = n
  match n with
  | 0 => rfl
  | 1 =>
      dsimp only [chosen]
      rw [getNextJob_strict hstrict]
      cases firstClaimed (s.eligibleJobs queueName) <;> rfl
  | n + 2 => exact getNextJobs_strict hstrict (n + 2)

/-- Where the order tells the jobs apart, they are chosen as sorted. -/
theorem chosen_eq_take {l : List Job} (hnd : (l.map (·.id)).Nodup) (hnewest : NewestFirst l)
    (n : Nat) : chosen l n = (l.mergeSort claimOrder).take n := by
  match n with
  | 0 => rfl
  | 1 =>
      rw [← pickAll_firstClaimed hnd hnewest]
      unfold chosen Selection.pickAll
      cases firstClaimed l <;> rfl
  | n + 2 => rfl

/-- The chosen jobs, in order, come before the others. -/
structure InOrder (before : Job → Job → Prop) (eligible jobs : List Job) : Prop where
  sorted : jobs.Pairwise before
  rest : ∀ job ∈ eligible, job.id ∉ jobs.map (·.id) → ∀ handed ∈ jobs, before handed job

theorem inOrder_take (l : List Job) (n : Nat) :
    InOrder (fun a b => claimOrder a b = true) l ((l.mergeSort claimOrder).take n) := by
  have hsorted := List.pairwise_mergeSort claimOrder_trans claimOrder_total l
  refine ⟨hsorted.sublist (List.take_sublist ..), fun job hjob hout handed hhanded => ?_⟩
  -- a job not taken is among those left of the sorted list
  have hmem : job ∈ l.mergeSort claimOrder := List.mem_mergeSort.2 hjob
  rw [← List.take_append_drop n (l.mergeSort claimOrder)] at hmem
  rcases List.mem_append.1 hmem with hmem | hmem
  · exact absurd (List.mem_map_of_mem hmem) hout
  · exact hsorted.rel_of_mem_take_of_mem_drop hhanded hmem

theorem inOrder_chosen (l : List Job) (n : Nat) :
    InOrder (fun a b => claimedAfter b a = true) l (chosen l n) := by
  match n with
  | 0 => exact ⟨List.Pairwise.nil, fun _ _ _ _ h => by cases h⟩
  | 1 =>
      unfold chosen
      cases hfirst : firstClaimed l with
      | none => exact ⟨List.Pairwise.nil, fun _ _ _ _ h => by cases h⟩
      | some first =>
          refine ⟨List.pairwise_singleton _ _, fun job hjob _ handed hhanded => ?_⟩
          obtain rfl := List.mem_singleton.1 hhanded
          exact ((picks_firstClaimed_shared l).first l handed (List.Sublist.refl l) hfirst).2
            job hjob
  | n + 2 =>
      have htake := inOrder_take l (n + 2)
      exact ⟨htake.sorted.imp claimedAfter_of_claimOrder, fun job hjob hout handed hhanded =>
        claimedAfter_of_claimOrder (htake.rest job hjob hout handed hhanded)⟩

/-- A chosen job is eligible. -/
theorem mem_of_mem_chosen {l : List Job} {n : Nat} (h : job ∈ chosen l n) : job ∈ l := by
  unfold chosen at h
  split at h
  · cases h
  · exact firstClaimed_mem (Option.mem_toList.1 h)
  · exact List.mem_mergeSort.1 (List.mem_of_mem_take h)

/-- Claiming different stored jobs hands out each of them, started
now. -/
theorem claimEach_eq (lease : Duration) (jobs : List Job) : ∀ s : TestStorage, s.Keyed →
    (jobs.map (·.id)).Nodup → (∀ job ∈ jobs, s.jobs.lookup job.id = some job) →
    (claimEach lease (jobs.map (·.id)) s).1 = .ok (jobs.map (·.claimed s.clock)) := by
  induction jobs with
  | nil => exact fun s _ _ _ => rfl
  | cons job jobs ih =>
      intro s hk hnd hstored
      rw [List.map_cons, List.nodup_cons] at hnd
      have hlookup := hstored job (List.mem_cons_self ..)
      rw [List.map_cons, claimEach]
      cases hclaim : claim s job.id lease with
      | error e =>
          unfold claim at hclaim
          rw [updateJobStatus_eq hlookup] at hclaim
          cases hclaim
      | ok out =>
          obtain ⟨s₁, claimed⟩ := out
          obtain ⟨job₀, hlookup₀, hr, rfl⟩ := claim_ok hclaim
          obtain rfl : job₀ = job := Option.some.inj (hlookup₀.symm.trans hlookup)
          have hrest := ih s₁ (hr.keyed rfl hk) hnd.2 fun job' hjob' => by
            rw [hr.lookup_ne fun hid => hnd.1 (List.mem_map.2 ⟨job', hjob', hid⟩)]
            exact hstored job' (List.mem_cons_of_mem _ hjob')
          dsimp only
          generalize claimEach lease (jobs.map (·.id)) s₁ = result at hrest ⊢
          obtain ⟨outcome, s₂⟩ := result
          cases hrest
          rw [hr.rest.clock]
          rfl

-- == the law

/-- Two jobs enqueued one after the other. -/
def twoArrivals : List Op := [.enqueue parentJob, .setTime 5, .enqueue plainChild]

/-- The two have ids of their own. -/
theorem newIds_twoArrivals : NewIds (Op.trace plainEnv twoArrivals (TestStorage.new 0)) := by
  refine ⟨fun i hi => ?_, fun i j hij hj => ?_⟩
  · match i, hi with
    | 0, _ | 1, _ | 2, _ => decide
  · match i, j, hij, hj with
    | 0, 1, _, _ => exact fun job _ job' hjob' => by cases hjob'
    | 0, 2, _, _ => decide
    | 1, 2, _, _ => exact fun job hjob => by cases hjob
    | i + 2, j, hij, hj =>
        have hj : j < 3 := hj
        omega

theorem strictPriority_none : StrictPriority none := fun w hw => by cases hw

/-- Two jobs enqueued at the same instant. -/
def twoAtOnce : List Op := [.enqueue parentJob, .enqueue plainChild]

/-- A batch takes the first of them first, and dequeues of one job the
second. -/
theorem twoAtOnce_differs :
    dequeue plainEnv (Op.applyAll plainEnv twoAtOnce (TestStorage.new 0)) "mail" none 0 2
      ≠ dequeueOneByOne plainEnv "mail" none 0 2
          (Op.applyAll plainEnv twoAtOnce (TestStorage.new 0)) := by
  generalize hs : Op.applyAll plainEnv twoAtOnce (TestStorage.new 0) = s
  intro heq
  have hsorted : (s.eligibleJobs "mail").Pairwise fun a b => claimOrder a b = true := by
    rw [← hs]
    decide +kernel
  have hlist : (s.eligibleJobs "mail").map (·.id) = [1, 3] := by
    rw [← hs]
    decide +kernel
  have hids : claimedIds plainEnv s "mail" none 2 = [1, 3] := by
    rw [claimedIds_eq_chosen strictPriority_none]
    show (((s.eligibleJobs "mail").mergeSort claimOrder).take 2).map (·.id) = [1, 3]
    rw [List.mergeSort_of_pairwise hsorted, List.map_take, hlist]
    rfl
  have hsingles : (dequeueOneByOne plainEnv "mail" none 0 2 s).1.toOption.map
      (·.map (·.id)) = some [3, 1] := by
    rw [← hs]
    decide +kernel
  have hbatch : (dequeue plainEnv s "mail" none 0 2).1.toOption.map (·.map (·.id))
      = some [1, 3] := by
    have hk : s.Keyed := (hs ▸ reachable_applyAll plainEnv twoAtOnce 0).keyed
    obtain ⟨-, -, jobs, hjobs, hmap, -⟩ := dequeue_writes plainEnv hk "mail" none 0 2
    rw [hjobs]
    exact congrArg some (hmap.trans hids)
  rw [heq, hsingles] at hbatch
  cases hbatch

/-- The first `k` of many jobs, enqueued at the same instant. -/
def arrivals (k : Nat) : List Op :=
  (List.range k).map fun i => .enqueue (Job.new i 0 "mail" .null)

theorem enqueue_new (hclock : s.clock = 0) (i : JobId) :
    enqueue plainEnv s (Job.new i 0 "mail" .null)
      = .ok (insertJobs [Job.new i 0 "mail" .null] s, i) := by
  obtain ⟨jobs, queues, batches, batchJobs, workflows, dependencies, dependents, jobResults,
    pausedQueues, leases, clock⟩ := s
  subst hclock
  rfl

/-- They are all there, and eligible. -/
theorem arrivals_eligible (k : Nat) :
    (Op.applyAll plainEnv (arrivals k) (TestStorage.new 0)).eligibleJobs "mail"
      = (List.range k).map fun i => Job.new i 0 "mail" .null := by
  have hstate : ∀ k, ∃ s, Op.applyAll plainEnv (arrivals k) (TestStorage.new 0) = s ∧
      s.clock = 0 ∧ s.pausedQueues = ∅ ∧
      QueueIndex.list s.queues "mail" .pending = List.range k ∧
      ∀ i < k, s.jobs.lookup i = some (Job.new i 0 "mail" .null) := by
    intro k
    induction k with
    | zero => exact ⟨_, rfl, rfl, rfl, rfl, fun i hi => by omega⟩
    | succ k ih =>
        obtain ⟨s, hs, hclock, hpaused, hlist, hjobs⟩ := ih
        have hnext : Op.applyAll plainEnv (arrivals (k + 1)) (TestStorage.new 0)
            = insertJobs [Job.new k 0 "mail" .null] s := by
          unfold Op.applyAll arrivals at hs ⊢
          rw [List.range_succ, List.map_append, List.foldl_append, hs]
          simp only [List.map_cons, List.map_nil, List.foldl_cons, List.foldl_nil, Op.apply,
            reply_snd]
          rw [enqueue_new hclock]
          rfl
        refine ⟨_, hnext, hclock, hpaused, ?_, fun i hi => ?_⟩
        · show QueueIndex.list (QueueIndex.add s.queues "mail" .pending k) "mail" .pending = _
          rw [QueueIndex.list_add, if_pos ⟨rfl, rfl⟩, hlist, if_neg (by simp), List.range_succ]
        · show (s.jobs.insert k (Job.new k 0 "mail" .null)).lookup i = _
          by_cases hik : i = k
          · rw [hik, AList.lookup_insert]
          · rw [AList.lookup_insert_ne hik]
            exact hjobs i (by omega)
  obtain ⟨s, hs, hclock, hpaused, hlist, hjobs⟩ := hstate k
  rw [hs]
  unfold eligibleJobs
  rw [hpaused, hlist, hclock]
  have hlookups : (List.range k).filterMap s.jobs.lookup
      = (List.range k).map fun i => Job.new i 0 "mail" .null := by
    rw [← List.filterMap_eq_map]
    exact List.filterMap_congr fun i hi => hjobs i (List.mem_range.1 hi)
  rw [if_neg (by simp), hlookups, List.filter_eq_self.2]
  intro job hjob
  obtain ⟨i, -, rfl⟩ := List.mem_map.1 hjob
  rfl

theorem arrivals_coherent (k : Nat) :
    (Op.applyAll plainEnv (arrivals k) (TestStorage.new 0)).Coherent := by
  have hlength : (arrivals k).length = k := by simp [arrivals]
  have hevent : ∀ i, (Op.trace plainEnv (arrivals k) (TestStorage.new 0)).event i
      = ((arrivals k)[i]?).elim .rehash .call := fun i => rfl
  have henqueued : ∀ i < k, ((Op.trace plainEnv (arrivals k) (TestStorage.new 0)).event
      i).enqueued = [Job.new i 0 "mail" .null] := by
    intro i hi
    rw [hevent, arrivals, List.getElem?_map, List.getElem?_range hi]
    rfl
  have hnew : NewIds (Op.trace plainEnv (arrivals k) (TestStorage.new 0)) := by
    refine ⟨fun i hi => ?_, fun i j hij hj job hjob job' hjob' => ?_⟩
    · rw [henqueued i (hlength ▸ hi)]
      exact List.nodup_singleton _
    · rw [henqueued i (by omega)] at hjob
      rw [henqueued j (by omega)] at hjob'
      rw [List.mem_singleton.1 hjob, List.mem_singleton.1 hjob']
      exact Nat.ne_of_lt hij
  have hco := run_coherent (Op.trace plainEnv (arrivals k) (TestStorage.new 0)) rfl
    (hnew.fresh rfl) _ (le_refl _)
  rwa [Op.trace_last] at hco

theorem length_chosen_le (l : List Job) (n : Nat) : (chosen l n).length ≤ n := by
  unfold chosen
  split
  · exact le_refl 0
  · cases firstClaimed l <;> simp
  · rw [List.length_take]
    exact Nat.min_le_left ..

/-- With more jobs than the cap, as many dequeues of one job hand out all
of them, and one dequeue does not. -/
theorem arrivals_capped {k : Nat} (hk : maxDequeueBatchSize < k) :
    dequeue plainEnv (Op.applyAll plainEnv (arrivals k) (TestStorage.new 0)) "mail" none 0 k
      ≠ dequeueOneByOne plainEnv "mail" none 0 k
          (Op.applyAll plainEnv (arrivals k) (TestStorage.new 0)) := by
  have hkeyed := (reachable_applyAll plainEnv (arrivals k) 0).keyed
  have hco := arrivals_coherent k
  have hlist := arrivals_eligible k
  generalize Op.applyAll plainEnv (arrivals k) (TestStorage.new 0) = s at hkeyed hco hlist
  have hlength : (s.eligibleJobs "mail").length = k := by
    rw [hlist, List.length_map, List.length_range]
  have hnd := nodup_eligible hkeyed hco "mail"
  have hpicks := picks_firstClaimed_shared (s.eligibleJobs "mail")
  obtain ⟨hmem, hnodup⟩ := Selection.pickAll_nodup k _ hnd hpicks
  have hsingles := claimEach_eq 0 _ s hkeyed hnodup fun job hjob =>
    (eligible_isJob hkeyed (hmem job hjob)).1
  obtain ⟨-, -, jobs, hjobs, hids, -⟩ := dequeue_writes plainEnv hkeyed "mail" none 0 k
  intro heq
  rw [heq, dequeueOneByOne_eq strictPriority_none 0 k s hkeyed hco, hsingles] at hjobs
  injection hjobs with hjobs
  -- one way all of them are handed out, the other at most as many as the cap
  have hall : jobs.length = k := by
    rw [← hjobs, List.length_map, Selection.length_pickAll k _ hnd hpicks, hlength, Nat.min_self]
  have hcapped : jobs.length ≤ min k maxDequeueBatchSize := by
    rw [← List.length_map (·.id), hids, claimedIds_eq_chosen strictPriority_none,
      List.length_map]
    exact length_chosen_le _ _
  omega

end Hammerwork
