/-
What settling new dependents comes to.

Jobs enqueued together may wait on one another and on jobs stored long
ago. Read as rules, settling is about chains: a waiting job fails when
one leads from it, through waiting jobs of the list, to a dependency
that failed (`FailureChain`), it is satisfied when none does and all its
dependencies completed, and nothing else changes (`SettlesRightly`).

The loop agrees with the rules on every list, in whatever order, in
which no job has both a chain to a failure and dependencies that all
completed already. Such a job exists only where a job comes in as
`Completed` and still waiting: until the loop reaches that one and fails
it, what depends on it finds it completed. The job is satisfied if it
comes first and failed if it comes after
(`settleNewDependents_rightly_iff`).

# The proof

`Proofs.Settle` says what each job ends as, from the two ends of the
loop; `doomed_chain` turns a reason to fail into a chain, and an
induction along the chain shows that the loop fails what the chain
leads from. Membership alone decides the rules, so one list and its
permutations have the same outcome. Where the condition fails, putting
the job in question first makes the loop satisfy it for good.
-/
import Hammerwork.Proofs.Settle
import Mathlib.Data.List.Nodup

namespace Hammerwork

variable {jobs jobs' : List Job} {parents : JobId → Option ParentState} {now : DateTime}

-- == the rules

/-- The job waits on dependencies. -/
def Job.WaitsOn (job : Job) : Prop := job.dependencyStatus = .waiting ∧ job.dependsOn ≠ []

/-- A chain of dependencies leads from the job, through waiting jobs of
the list, to one that failed: a job of the list that came so, or a
stored one. -/
inductive FailureChain (jobs : List Job) (parents : JobId → Option ParentState) : Job → Prop
  | ends {job : Job} (p : JobId) : p ∈ job.dependsOn → CountsAs jobs parents p .failed →
      FailureChain jobs parents job
  | through {job : Job} (q : Job) : q ∈ jobs → q.id ∈ job.dependsOn →
      q.dependencyStatus = .waiting → FailureChain jobs parents q →
      FailureChain jobs parents job

/-- All dependencies of the job completed. -/
def AllCompleted (jobs : List Job) (parents : JobId → Option ParentState) (job : Job) : Prop :=
  ∀ p ∈ job.dependsOn, CountsAs jobs parents p .completed

/-- `job` is what the rules make of the job handed in as `given`. -/
structure RightlySettled (jobs : List Job) (parents : JobId → Option ParentState)
    (now : DateTime) (given job : Job) : Prop where
  /-- It fails when a chain leads to a failure. -/
  fails : given.WaitsOn →
    ((job.status = .failed ∧ job.dependencyStatus = .failed) ↔
      FailureChain jobs parents given)
  /-- It is satisfied when none does and all dependencies completed. -/
  satisfied : given.WaitsOn →
    (job.dependencyStatus = .satisfied ↔
      ¬ FailureChain jobs parents given ∧ AllCompleted jobs parents given)
  /-- Nothing else changes. -/
  changes : job = given ∨ given.WaitsOn ∧
    (job = { given with dependencyStatus := .satisfied } ∨
      ∃ p ∈ given.dependsOn, job = given.failOnArrival p now)

/-- The source's loop, without a bound: passes until one fails
nothing. -/
inductive SettlingRun (parents : JobId → Option ParentState) (now : DateTime) :
    List Job → List Job × List JobId → Prop
  | last {jobs settled : List Job} : settlePass parents now [] jobs = (settled, []) →
      SettlingRun parents now jobs (settled, [])
  | again {jobs settled settled' : List Job} {failed more : List JobId} :
      settlePass parents now [] jobs = (settled, failed) → failed ≠ [] →
      SettlingRun parents now settled (settled', more) →
      SettlingRun parents now jobs (settled', failed ++ more)

/-- Settling follows the rules. -/
structure SettlesRightly (jobs : List Job) (parents : JobId → Option ParentState)
    (now : DateTime) : Prop where
  /-- The loop ends, with the result computed here. -/
  ends : SettlingRun parents now jobs (settleNewDependents jobs parents now)
  /-- Every job is settled by the rules. -/
  each : List.Forall₂ (RightlySettled jobs parents now) jobs
    (settleNewDependents jobs parents now).1
  /-- No id is returned twice. -/
  ids_nodup : (settleNewDependents jobs parents now).2.Nodup
  /-- The ids returned are those of the jobs it failed. -/
  ids : ∀ id, id ∈ (settleNewDependents jobs parents now).2 ↔
    ∃ given job, (given, job) ∈ jobs.zip (settleNewDependents jobs parents now).1 ∧
      given.id = id ∧ given.dependencyStatus ≠ .failed ∧ job.dependencyStatus = .failed
  /-- The order of the jobs does not matter. -/
  order : ∀ jobs' : List Job, jobs'.Perm jobs →
    ∀ job ∈ (settleNewDependents jobs parents now).1,
      ∀ job' ∈ (settleNewDependents jobs' parents now).1, job'.id = job.id →
        job'.status = job.status ∧ job'.dependencyStatus = job.dependencyStatus

-- == the loop returns

/-- With more passes than there are waiting jobs, the bound is never
felt. -/
theorem settleLoop_run : ∀ (fuel : Nat) (jobs : List Job), waitingCount jobs < fuel →
    SettlingRun parents now jobs (settleLoop parents now fuel jobs) := by
  intro fuel
  induction fuel with
  | zero =>
      intro jobs h
      exact absurd h (Nat.not_lt_zero _)
  | succ fuel ih =>
      intro jobs h
      have hcount := settlePass_count parents now jobs []
      rw [List.nil_append] at hcount
      rw [settleLoop]
      split
      · next settled heq => exact .last heq
      · next settled failed hne heq =>
        rw [heq] at hcount
        have hpos : 0 < failed.length := List.length_pos_of_ne_nil fun hnil => hne hnil
        dsimp only at hcount ⊢
        exact .again heq (fun hnil => hne hnil) (ih settled (by omega))

theorem settleNewDependents_run (jobs : List Job) (parents : JobId → Option ParentState)
    (now : DateTime) : SettlingRun parents now jobs (settleNewDependents jobs parents now) :=
  settleLoop_run _ jobs (Nat.lt_succ_of_le List.countP_le_length)

-- == the ids returned

/-- `b` is `a`, perhaps settled. -/
def MaySettle (a b : Job) : Prop :=
  b = a ∨ (a.dependencyStatus = .waiting ∧ b.id = a.id ∧ b.dependencyStatus ≠ .waiting)

/-- The ids of the jobs of the first list that are failed in the
second, in order. -/
def failedIds : List Job → List Job → List JobId
  | a :: jobs, b :: jobs' =>
      if a.dependencyStatus ≠ .failed ∧ b.dependencyStatus = .failed then
        a.id :: failedIds jobs jobs'
      else
        failedIds jobs jobs'
  | _, _ => []

theorem mem_failedIds {id : JobId} : ∀ {jobs jobs' : List Job},
    id ∈ failedIds jobs jobs' ↔ ∃ a b, (a, b) ∈ jobs.zip jobs' ∧ a.id = id ∧
      a.dependencyStatus ≠ .failed ∧ b.dependencyStatus = .failed := by
  intro jobs
  induction jobs with
  | nil => intro jobs'; simp [failedIds]
  | cons a jobs ih =>
      intro jobs'
      cases jobs' with
      | nil => simp [failedIds]
      | cons b jobs' =>
          simp only [failedIds, List.zip_cons_cons, List.mem_cons, Prod.mk.injEq]
          split
          case isTrue hfails =>
            rw [List.mem_cons, ih]
            constructor
            · rintro (rfl | ⟨x, y, hmem, h⟩)
              · exact ⟨a, b, .inl ⟨rfl, rfl⟩, rfl, hfails⟩
              · exact ⟨x, y, .inr hmem, h⟩
            · rintro ⟨x, y, ⟨rfl, rfl⟩ | hmem, rfl, h⟩
              · exact .inl rfl
              · exact .inr ⟨x, y, hmem, rfl, h⟩
          case isFalse hkept =>
            rw [ih]
            constructor
            · rintro ⟨x, y, hmem, h⟩
              exact ⟨x, y, .inr hmem, h⟩
            · rintro ⟨x, y, ⟨rfl, rfl⟩ | hmem, h⟩
              · exact absurd h.2 hkept
              · exact ⟨x, y, hmem, h⟩

theorem failedIds_sublist : ∀ jobs jobs' : List Job,
    (failedIds jobs jobs').Sublist (jobs.map (·.id)) := by
  intro jobs
  induction jobs with
  | nil => intro jobs'; exact .slnil
  | cons a jobs ih =>
      intro jobs'
      cases jobs' with
      | nil => exact List.nil_sublist _
      | cons b jobs' =>
          rw [failedIds]
          split
          · exact (ih jobs').cons_cons a.id
          · exact (ih jobs').cons a.id

theorem failedIds_self (jobs : List Job) : failedIds jobs jobs = [] := by
  induction jobs with
  | nil => rfl
  | cons a jobs ih =>
      rw [failedIds, if_neg fun h => h.1 h.2]
      exact ih

/-- What two passes failed, together. A job settled by the first is
left alone by the second. -/
theorem failedIds_trans {jobs'' : List Job} (h₁ : List.Forall₂ MaySettle jobs jobs')
    (h₂ : List.Forall₂ MaySettle jobs' jobs'') :
    List.Forall₂ MaySettle jobs jobs'' ∧
      (failedIds jobs jobs'').Perm (failedIds jobs jobs' ++ failedIds jobs' jobs'') := by
  induction h₁ generalizing jobs'' with
  | nil =>
      cases h₂
      exact ⟨.nil, .nil⟩
  | @cons a b jobs jobs' hab _ ih =>
      cases h₂ with
      | @cons _ c _ jobs'' hbc hrest =>
          obtain ⟨hall, hperm⟩ := ih hrest
          rcases hab with rfl | ⟨hw, hid, hb⟩
          · refine ⟨.cons hbc hall, ?_⟩
            simp only [failedIds, ne_eq, not_and_self, if_false]
            split
            · exact (hperm.cons _).trans List.perm_middle.symm
            · exact hperm
          · have hcb : c = b := hbc.resolve_right fun h => hb h.1
            subst hcb
            refine ⟨.cons (.inr ⟨hw, hid, hb⟩) hall, ?_⟩
            simp only [failedIds, ne_eq, not_and_self, if_false]
            split
            · exact hperm.cons _
            · exact hperm

/-- Settling one job, as the ids see it. -/
theorem settleJob_maySettle (jobs : List Job) (parents : JobId → Option ParentState)
    (now : DateTime) (job : Job) :
    MaySettle job (settleJob jobs parents now job).1 ∧
      ((settleJob jobs parents now job).2 = true ↔ job.dependencyStatus ≠ .failed ∧
        (settleJob jobs parents now job).1.dependencyStatus = .failed) := by
  rcases settleJob_cases jobs parents now job with ⟨h, -⟩ | ⟨h, hw, -⟩ | ⟨p, -, h, hw, -⟩ <;>
    rw [h]
  · exact ⟨.inl rfl, by simp⟩
  · exact ⟨.inr ⟨hw, rfl, by simp⟩, by simp⟩
  · exact ⟨.inr ⟨hw, rfl, by simp [Job.failOnArrival]⟩, by simp [hw, Job.failOnArrival]⟩

/-- A pass returns the ids of what it failed. -/
theorem settlePass_ids (parents : JobId → Option ParentState) (now : DateTime)
    (rest : List Job) : ∀ before : List Job, ∃ rest',
    (settlePass parents now before rest).1 = before ++ rest' ∧
      List.Forall₂ MaySettle rest rest' ∧
      (settlePass parents now before rest).2 = failedIds rest rest' := by
  induction rest with
  | nil =>
      intro before
      exact ⟨[], by simp [settlePass], .nil, rfl⟩
  | cons job rest ih =>
      intro before
      obtain ⟨hmay, hflag⟩ := settleJob_maySettle (before ++ job :: rest) parents now job
      obtain ⟨rest', hrest', hall, hids⟩ :=
        ih (before ++ [(settleJob (before ++ job :: rest) parents now job).1])
      refine ⟨(settleJob (before ++ job :: rest) parents now job).1 :: rest', ?_,
        .cons hmay hall, ?_⟩
      · rw [settlePass]
        show (settlePass parents now (before ++ [_]) rest).1 = _
        rw [hrest', List.append_assoc, List.singleton_append]
      · rw [settlePass, failedIds]
        show (if _ then _ else _) = _
        rw [hids]
        simp only [hflag]

/-- The loop returns the ids of all it failed. -/
theorem settleLoop_ids : ∀ (fuel : Nat) (jobs : List Job),
    List.Forall₂ MaySettle jobs (settleLoop parents now fuel jobs).1 ∧
      (failedIds jobs (settleLoop parents now fuel jobs).1).Perm
        (settleLoop parents now fuel jobs).2 := by
  intro fuel
  induction fuel with
  | zero =>
      intro jobs
      refine ⟨List.forall₂_same.2 fun _ _ => .inl rfl, ?_⟩
      show (failedIds jobs jobs).Perm []
      rw [failedIds_self]
  | succ fuel ih =>
      intro jobs
      obtain ⟨jobs', hjobs', hall, hids⟩ := settlePass_ids parents now jobs []
      rw [List.nil_append] at hjobs'
      rw [settleLoop]
      split
      · next settled heq =>
        rw [heq] at hjobs' hids
        dsimp only at hjobs' hids ⊢
        rw [hjobs', hids]
        exact ⟨hall, .refl _⟩
      · next settled failed hne heq =>
        rw [heq] at hjobs' hids
        dsimp only at hjobs' hids ⊢
        subst hjobs' hids
        obtain ⟨hall', hperm⟩ := ih settled
        obtain ⟨hboth, hsum⟩ := failedIds_trans hall hall'
        exact ⟨hboth, hsum.trans (hperm.append_left _)⟩

/-- So does settling: each once where ids are distinct. -/
theorem settleNewDependents_ids (jobs : List Job) (parents : JobId → Option ParentState)
    (now : DateTime) :
    (failedIds jobs (settleNewDependents jobs parents now).1).Perm
      (settleNewDependents jobs parents now).2 :=
  (settleLoop_ids _ jobs).2

-- == chains

/-- Only membership matters for what a dependency counts as. -/
theorem CountsAs.congr (h : ∀ job, job ∈ jobs ↔ job ∈ jobs') {p : JobId} {state : ParentState}
    (hp : CountsAs jobs parents p state) : CountsAs jobs' parents p state := by
  rcases hp with ⟨job, hmem, hjob⟩ | ⟨hout, hparent⟩
  · exact .inl ⟨job, (h job).1 hmem, hjob⟩
  · refine .inr ⟨fun hmem => hout ?_, hparent⟩
    obtain ⟨job, hjob, hid⟩ := List.mem_map.1 hmem
    exact List.mem_map.2 ⟨job, (h job).2 hjob, hid⟩

theorem FailureChain.congr (h : ∀ job, job ∈ jobs ↔ job ∈ jobs') {job : Job}
    (hchain : FailureChain jobs parents job) : FailureChain jobs' parents job := by
  induction hchain with
  | ends p hp hfail => exact .ends p hp (hfail.congr h)
  | through q hq hdep hw _ ih => exact .through q ((h q).1 hq) hdep hw ih

/-- A dependency that is to fail has a chain behind it, or failed
already. -/
theorem doomed_chain {p : JobId} (h : Doomed jobs parents p) {job : Job}
    (hp : p ∈ job.dependsOn) : FailureChain jobs parents job := by
  induction h generalizing job with
  | given hmem hfail => exact .ends _ hp (.inl ⟨_, hmem, rfl, hfail⟩)
  | @parent q r hmem hw hr hout hparent =>
      exact .through q hmem hp hw (.ends r hr (.inr ⟨hout, hparent⟩))
  | @sibling q r hmem hw hr _ ih => exact .through q hmem hp hw (ih hr)

/-- A dependency seen as failed after settling is the end of a chain, or
on the way to one. -/
theorem chain_of_state {p : JobId} {job : Job} (hp : p ∈ job.dependsOn)
    (h : settledStateOf (settleNewDependents jobs parents now).1 parents p = .failed) :
    FailureChain jobs parents job := by
  have hids := forall₂_ids (fun _ _ h => h.1) (settleNewDependents_settled jobs parents now).1
  rcases countsAs_of_state (by simp) h with ⟨q, hq, rfl, hfail⟩ | ⟨hout, hparent⟩
  · exact doomed_chain (settleNewDependents_doomed jobs parents now q hq hfail) hp
  · rw [hids] at hout
    exact .ends p hp (.inr ⟨hout, hparent⟩)

-- == the condition

/-- No waiting job has both a chain to a failure and dependencies that
all completed. -/
def NoEarlyStart (jobs : List Job) (parents : JobId → Option ParentState) : Prop :=
  ∀ job ∈ jobs, job.WaitsOn → AllCompleted jobs parents job → ¬ FailureChain jobs parents job

theorem NoEarlyStart.congr (h : ∀ job, job ∈ jobs ↔ job ∈ jobs')
    (hjobs : NoEarlyStart jobs parents) : NoEarlyStart jobs' parents := by
  intro job hmem hwaits hall hchain
  have hback : ∀ job, job ∈ jobs' ↔ job ∈ jobs := fun job => (h job).symm
  exact hjobs job ((h job).2 hmem) hwaits (fun p hp => (hall p hp).congr hback)
    (hchain.congr hback)

/-- A waiting job with a chain fails once one of its dependencies does:
it does not outlast the last pass, and was not satisfied before. -/
theorem failed_of_dependency (hno : NoEarlyStart jobs parents) {given job : Job} {p : JobId}
    (hmem : given ∈ jobs) (hw : given.dependencyStatus = .waiting)
    (hchain : FailureChain jobs parents given)
    (hjob : job ∈ (settleNewDependents jobs parents now).1)
    (hset : SettledAs parents now jobs (settleNewDependents jobs parents now).1 given job)
    (hp : p ∈ given.dependsOn)
    (hstate : settledStateOf (settleNewDependents jobs parents now).1 parents p = .failed) :
    job.status = .failed ∧ job.dependencyStatus = .failed := by
  have hne := List.ne_nil_of_mem hp
  cases hset with
  | unchanged =>
      have hwaits := settleNewDependents_waits jobs parents now given hjob hw hne
      exact absurd hstate (hwaits.1 p hp)
  | satisfied _ _ hcompleted =>
      refine absurd hchain (hno given hmem ⟨hw, hne⟩ fun r hr => ?_)
      exact countsAs_of_state (by simp) (hcompleted r hr)
  | failed => exact ⟨rfl, rfl⟩

/-- At the far end of a chain is a failure, and it comes back along the
chain: under the condition, a job with a chain has a dependency that
ends up failed. -/
theorem dependency_fails (hids : (jobs.map (·.id)).Nodup) (hno : NoEarlyStart jobs parents)
    {given : Job} (hchain : FailureChain jobs parents given) :
    ∃ p ∈ given.dependsOn,
      settledStateOf (settleNewDependents jobs parents now).1 parents p = .failed := by
  obtain ⟨hgrow, hall⟩ := settleNewDependents_settled jobs parents now
  have hids' := hids
  rw [← forall₂_ids (fun _ _ h => h.1) hgrow] at hids'
  induction hchain with
  | ends p hp hfail => exact ⟨p, hp, hgrow.failed (state_of_countsAs hids hfail)⟩
  | through q hq hdep hw hchain ih =>
      obtain ⟨p, hp, hstate⟩ := ih
      obtain ⟨q', hq', hset⟩ := mem_of_forall₂ hall.flip hq
      have hfailed := failed_of_dependency hno hq hw hchain hq' hset hp hstate
      have hid : q'.id = q.id := by cases hset <;> rfl
      refine ⟨q.id, hdep, state_of_countsAs hids' (.inl ⟨q', hq', hid, ?_⟩)⟩
      rw [hfailed.1]
      rfl

/-- Under the condition, the job handed in as `given` is settled by the
rules. -/
theorem rightlySettled (hids : (jobs.map (·.id)).Nodup) (hno : NoEarlyStart jobs parents)
    {given job : Job} (hmem : given ∈ jobs)
    (hjob : job ∈ (settleNewDependents jobs parents now).1)
    (hset : SettledAs parents now jobs (settleNewDependents jobs parents now).1 given job) :
    RightlySettled jobs parents now given job := by
  have hgrow := (settleNewDependents_settled jobs parents now).1
  -- a chain fails the job
  have hfails : given.WaitsOn → FailureChain jobs parents given →
      job.status = .failed ∧ job.dependencyStatus = .failed := by
    intro hwaits hchain
    obtain ⟨p, hp, hstate⟩ := dependency_fails hids hno hchain
    exact failed_of_dependency hno hmem hwaits.1 hchain hjob hset hp hstate
  refine ⟨fun hwaits => ⟨fun hfailed => ?_, hfails hwaits⟩,
    fun hwaits => ⟨fun hsat => ⟨fun hchain => ?_, ?_⟩, fun ⟨hnone, hcompleted⟩ => ?_⟩, ?_⟩
  · -- and nothing else does
    cases hset with
    | unchanged => simp [hwaits.1] at hfailed
    | satisfied => simp at hfailed
    | failed p _ hp hstate => exact chain_of_state hp hstate
  · rw [(hfails hwaits hchain).2] at hsat
    cases hsat
  · cases hset with
    | unchanged => simp [hwaits.1] at hsat
    | satisfied _ _ hcompleted =>
        exact fun p hp => countsAs_of_state (by simp) (hcompleted p hp)
    | failed => simp [Job.failOnArrival] at hsat
  · cases hset with
    | unchanged =>
        -- a dependency that is no longer completed failed
        obtain ⟨-, p, hp, hstate⟩ :=
          settleNewDependents_waits jobs parents now given hjob hwaits.1 hwaits.2
        have hbefore := state_of_countsAs hids (hcompleted p hp)
        rcases hgrow.state parents p with heq | hfail
        · exact absurd (heq.trans hbefore) hstate
        · exact absurd (chain_of_state hp hfail) hnone
    | satisfied => rfl
    | failed p _ hp hstate => exact absurd (chain_of_state hp hstate) hnone
  · cases hset with
    | unchanged => exact .inl rfl
    | satisfied hw hne _ => exact .inr ⟨⟨hw, hne⟩, .inl rfl⟩
    | failed p hw hp _ => exact .inr ⟨⟨hw, List.ne_nil_of_mem hp⟩, .inr ⟨p, hp, rfl⟩⟩

-- == any order

theorem RightlySettled.id_eq {given job : Job} (h : RightlySettled jobs parents now given job) :
    job.id = given.id := by
  rcases h.changes with rfl | ⟨-, rfl | ⟨p, -, rfl⟩⟩ <;> rfl

/-- The rules leave one outcome for a job, and it depends on nothing but
the jobs there are. -/
theorem RightlySettled.outcome (hsame : ∀ job, job ∈ jobs ↔ job ∈ jobs') {given job job' : Job}
    (h : RightlySettled jobs parents now given job)
    (h' : RightlySettled jobs' parents now given job') :
    job'.status = job.status ∧ job'.dependencyStatus = job.dependencyStatus := by
  have hback : ∀ job, job ∈ jobs' ↔ job ∈ jobs := fun job => (hsame job).symm
  by_cases hwaits : given.WaitsOn
  case neg =>
    have hjob : job = given := h.changes.resolve_right fun hc => hwaits hc.1
    have hjob' : job' = given := h'.changes.resolve_right fun hc => hwaits hc.1
    rw [hjob, hjob']
    exact ⟨rfl, rfl⟩
  by_cases hchain : FailureChain jobs parents given
  case pos =>
    obtain ⟨hst, hds⟩ := (h.fails hwaits).2 hchain
    obtain ⟨hst', hds'⟩ := (h'.fails hwaits).2 (hchain.congr hsame)
    exact ⟨hst'.trans hst.symm, hds'.trans hds.symm⟩
  have hnot : ¬ (job.status = .failed ∧ job.dependencyStatus = .failed) :=
    fun hfailed => hchain ((h.fails hwaits).1 hfailed)
  have hnot' : ¬ (job'.status = .failed ∧ job'.dependencyStatus = .failed) :=
    fun hfailed => hchain (((h'.fails hwaits).1 hfailed).congr hback)
  -- neither failed, so both keep their status, and one is satisfied as the other is
  have hiff : job.dependencyStatus = .satisfied ↔ job'.dependencyStatus = .satisfied := by
    rw [h.satisfied hwaits, h'.satisfied hwaits]
    constructor
    · intro ⟨hnone, hall⟩
      exact ⟨fun hc => hnone (hc.congr hback), fun p hp => (hall p hp).congr hsame⟩
    · intro ⟨hnone, hall⟩
      exact ⟨fun hc => hnone (hc.congr hsame), fun p hp => (hall p hp).congr hback⟩
  rcases h.changes with rfl | ⟨-, rfl | ⟨p, -, rfl⟩⟩
  · rcases h'.changes with rfl | ⟨-, rfl | ⟨p, -, rfl⟩⟩
    · exact ⟨rfl, rfl⟩
    · have := hiff.2 rfl
      rw [hwaits.1] at this
      cases this
    · exact absurd ⟨rfl, rfl⟩ hnot'
  · rcases h'.changes with rfl | ⟨-, rfl | ⟨p, -, rfl⟩⟩
    · have := hiff.1 rfl
      rw [hwaits.1] at this
      cases this
    · exact ⟨rfl, rfl⟩
    · exact absurd ⟨rfl, rfl⟩ hnot'
  · exact absurd ⟨rfl, rfl⟩ hnot

/-- Under the condition, every job is settled by the rules. -/
theorem settleNewDependents_each (hids : (jobs.map (·.id)).Nodup)
    (hno : NoEarlyStart jobs parents) :
    List.Forall₂ (RightlySettled jobs parents now) jobs
      (settleNewDependents jobs parents now).1 := by
  obtain ⟨hlen, hset⟩ := List.forall₂_iff_zip.1 (settleNewDependents_settled jobs parents now).2
  refine List.forall₂_iff_zip.2 ⟨hlen, fun {given job} hmem => ?_⟩
  obtain ⟨hgiven, hjob⟩ := List.of_mem_zip hmem
  exact rightlySettled hids hno hgiven hjob (hset hmem)

/-- Under the condition, the order of the jobs does not matter. -/
theorem settleNewDependents_order (hids : (jobs.map (·.id)).Nodup)
    (hno : NoEarlyStart jobs parents) (hperm : jobs'.Perm jobs) {job job' : Job}
    (hjob : job ∈ (settleNewDependents jobs parents now).1)
    (hjob' : job' ∈ (settleNewDependents jobs' parents now).1) (hid : job'.id = job.id) :
    job'.status = job.status ∧ job'.dependencyStatus = job.dependencyStatus := by
  have hsame : ∀ job, job ∈ jobs ↔ job ∈ jobs' := fun job => hperm.symm.mem_iff
  have hids' : (jobs'.map (·.id)).Nodup := (hperm.map _).nodup_iff.2 hids
  obtain ⟨given, hgiven, h⟩ := mem_of_forall₂ (settleNewDependents_each hids hno) hjob
  obtain ⟨given', hgiven', h'⟩ :=
    mem_of_forall₂ (settleNewDependents_each hids' (hno.congr hsame)) hjob'
  have heq : given' = given := by
    refine List.inj_on_of_nodup_map hids ((hsame _).2 hgiven') hgiven ?_
    rw [← h.id_eq, ← h'.id_eq, hid]
  subst heq
  exact h.outcome hsame h'

-- == the other way

/-- Once the first pass is over, settling goes on from its result. -/
theorem settleLoop_after (fuel : Nat) (jobs : List Job) :
    Relation.ReflTransGen (SettleStep parents now) (settlePass parents now [] jobs).1
      (settleLoop parents now (fuel + 1) jobs).1 := by
  rw [settleLoop]
  split
  · next heq => rw [heq]
  · next heq =>
    rw [heq]
    exact settleLoop_steps fuel _

/-- A job that comes first and finds its dependencies completed is
satisfied, whatever becomes of them. -/
theorem satisfied_first (parents : JobId → Option ParentState) (now : DateTime) {job : Job}
    {rest : List Job}
    (hids : ((job :: rest).map (·.id)).Nodup) (hwaits : job.WaitsOn)
    (hcompleted : AllCompleted (job :: rest) parents job) :
    { job with dependencyStatus := .satisfied } ∈
      (settleNewDependents (job :: rest) parents now).1 := by
  have hstate : ∀ p ∈ job.dependsOn,
      settledStateOf (job :: rest) parents p = .completed :=
    fun p hp => state_of_countsAs hids (hcompleted p hp)
  have hsettle : settleJob (job :: rest) parents now job
      = ({ job with dependencyStatus := .satisfied }, false) := by
    rcases settleJob_cases (job :: rest) parents now job with ⟨-, hstuck⟩ | ⟨h, -⟩ |
      ⟨p, hp, -, -, hfail⟩
    · obtain ⟨-, p, hp, hne⟩ := hstuck hwaits.1 hwaits.2
      exact absurd (hstate p hp) hne
    · exact h
    · rw [hstate p hp] at hfail
      cases hfail
  -- from there on it no longer waits
  have hpass : Relation.ReflTransGen (SettleStep parents now)
      ({ job with dependencyStatus := .satisfied } :: rest)
      (settlePass parents now [] (job :: rest)).1 := by
    have := settlePass_steps parents now rest [{ job with dependencyStatus := .satisfied }]
    rw [settlePass]
    show Relation.ReflTransGen _ _
      (settlePass parents now ([] ++ [(settleJob ([] ++ job :: rest) parents now job).1]) rest).1
    rw [List.nil_append, List.nil_append, hsettle]
    exact this
  obtain ⟨-, hall⟩ := settled_of_steps (hpass.trans (settleLoop_after rest.length.succ _))
  obtain ⟨job', hjob', hset⟩ := mem_of_forall₂ hall.flip (List.mem_cons_self ..)
  have hkept : job' = { job with dependencyStatus := .satisfied } := by
    cases hset with
    | unchanged => rfl
    | satisfied => rfl
    | failed p hw => cases hw
  rw [← hkept]
  exact hjob'

/-- Where the condition fails, so do the rules: settled first, the job is
satisfied, and its chain demands that it fails. -/
theorem SettlesRightly.noEarlyStart (hids : (jobs.map (·.id)).Nodup)
    (h : SettlesRightly jobs parents now) : NoEarlyStart jobs parents := by
  intro given hmem hwaits hcompleted hchain
  obtain ⟨job, hjob, hset⟩ := mem_of_forall₂ h.each.flip hmem
  have hfailed := (hset.fails hwaits).2 hchain
  obtain ⟨front, back, rfl⟩ := List.append_of_mem hmem
  have hperm : (given :: (front ++ back)).Perm (front ++ given :: back) :=
    List.perm_middle.symm
  have hfirst := satisfied_first parents now
    ((hperm.map _).nodup_iff.2 hids) hwaits
    fun p hp => (hcompleted p hp).congr fun job => hperm.symm.mem_iff
  obtain ⟨-, hds⟩ := h.order _ hperm job hjob _ hfirst hset.id_eq.symm
  rw [hfailed.2] at hds
  cases hds

/-- Settling follows the rules exactly when no job waits that has both a
chain to a failure and nothing but completed dependencies. -/
theorem settleNewDependents_rightly_iff (jobs : List Job)
    (parents : JobId → Option ParentState) (now : DateTime)
    (hids : (jobs.map (·.id)).Nodup) :
    SettlesRightly jobs parents now ↔
      ∀ job ∈ jobs, job.WaitsOn → AllCompleted jobs parents job →
        ¬ FailureChain jobs parents job := by
  constructor
  · exact fun h => h.noEarlyStart hids
  · intro hno
    have hperm := settleNewDependents_ids jobs parents now
    refine ⟨settleNewDependents_run jobs parents now, settleNewDependents_each hids hno, ?_,
      fun id => ?_, fun jobs' hsame job hjob job' hjob' hid => ?_⟩
    · exact hperm.nodup_iff.1 (hids.sublist (failedIds_sublist _ _))
    · rw [← hperm.mem_iff]
      exact mem_failedIds
    · exact settleNewDependents_order hids hno hsame hjob hjob' hid

/-- A job waiting on job 1, and one waiting on it. -/
def waitingJob : Job := (Job.new 2 0 "mail" .null).addDependsOn 1

def nextWaitingJob : Job := (Job.new 3 0 "mail" .null).addDependsOn 2

/-- For instance when job 1 failed: both fail, the second first in the
list. -/
theorem settleNewDependents_rightly_iff_chain :
    SettlesRightly [nextWaitingJob, waitingJob] (fun _ => some .failed) 0 := by
  refine (settleNewDependents_rightly_iff _ _ _ (by decide)).2 fun job hmem _ hall => ?_
  simp only [List.mem_cons, List.not_mem_nil, or_false] at hmem
  rcases hmem with rfl | rfl
  · obtain ⟨q, hq, hid, hst⟩ | ⟨hout, -⟩ := hall 2 (by decide)
    · simp only [List.mem_cons, List.not_mem_nil, or_false] at hq
      rcases hq with rfl | rfl <;> cases hst
    · exact absurd hout (by decide)
  · obtain ⟨q, hq, hid, -⟩ | ⟨-, hparent⟩ := hall 1 (by decide)
    · simp only [List.mem_cons, List.not_mem_nil, or_false] at hq
      rcases hq with rfl | rfl <;> cases hid
    · cases hparent

/-- A job that comes in completed, though it waits on job 1. -/
def finishedWaitingJob : Job := { waitingJob with status := .completed }

/-- When job 1 failed, what waits on it is satisfied if it comes first,
and failed if it comes second. -/
theorem settled_in_order :
    (settleNewDependents [nextWaitingJob, finishedWaitingJob] (fun _ => some .failed) 0).1.map
        (fun job => (job.id, job.status, job.dependencyStatus))
      = [(3, .pending, .satisfied), (2, .failed, .failed)] ∧
    (settleNewDependents [finishedWaitingJob, nextWaitingJob] (fun _ => some .failed) 0).1.map
        (fun job => (job.id, job.status, job.dependencyStatus))
      = [(2, .failed, .failed), (3, .failed, .failed)] ∧
    ¬ SettlesRightly [nextWaitingJob, finishedWaitingJob] (fun _ => some .failed) 0 := by
  refine ⟨by decide, by decide, fun h => ?_⟩
  refine h.noEarlyStart (by decide) nextWaitingJob (List.mem_cons_self ..)
    ⟨rfl, by decide⟩ ?_ ?_
  · intro p hp
    obtain rfl : p = 2 := List.mem_singleton.1 hp
    exact .inl ⟨finishedWaitingJob, by simp, rfl, rfl⟩
  · refine .through finishedWaitingJob (by simp) (by decide) rfl ?_
    exact .ends 1 (by decide) (.inr ⟨by decide, rfl⟩)

end Hammerwork
