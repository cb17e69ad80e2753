/-
What settling does to jobs about to be enqueued.

Settling looks at one job after another, each time against the jobs as
settled so far, in passes that are repeated until one fails nothing. A
job's status only ever changes to `Failed`, so as the loop goes on a
parent's state can become `failed` and can stop being `completed`, and
nothing else (`StatesGrow`). That makes the two ends of the loop the
places to state its result:

- a job that was satisfied had all its dependencies completed in the
  FIRST list, and one that was failed has a failed dependency in the
  LAST one (`SettledAs`, `settleNewDependents_settled`);
- in the last list no waiting job has a failed dependency, and none has
  only completed ones (`settleNewDependents_waits`).

The second is about the pass that ended the loop, which failed nothing
and so left every parent state as it was; that such a pass is reached
within the fuel is a count of waiting jobs.
-/
import Hammerwork.Lifecycle
import Mathlib.Logic.Relation

namespace Hammerwork

variable {jobs jobs' : List Job} {parents : JobId → Option ParentState} {now : DateTime}

-- == parent states

/-- `b` is `a`, perhaps failed. -/
def MayFail (a b : Job) : Prop := b.id = a.id ∧ (b.status = a.status ∨ b.status = .failed)

/-- Jobs that may have failed since. -/
def StatesGrow (jobs jobs' : List Job) : Prop := List.Forall₂ MayFail jobs jobs'

theorem StatesGrow.refl (jobs : List Job) : StatesGrow jobs jobs :=
  List.forall₂_same.2 fun _ _ => ⟨rfl, .inl rfl⟩

theorem MayFail.trans {a b c : Job} (hab : MayFail a b) (hbc : MayFail b c) :
    MayFail a c := by
  refine ⟨hbc.1.trans hab.1, ?_⟩
  rcases hbc.2 with h | h
  · rw [h]
    exact hab.2
  · exact .inr h

theorem StatesGrow.trans {jobs'' : List Job} (h₁ : StatesGrow jobs jobs')
    (h₂ : StatesGrow jobs' jobs'') : StatesGrow jobs jobs'' := by
  unfold StatesGrow at h₁ h₂ ⊢
  induction h₁ generalizing jobs'' with
  | nil => exact h₂
  | cons hab _ ih =>
      cases h₂ with
      | cons hbc hrest => exact .cons (hab.trans hbc) (ih hrest)

/-- Splitting related lists where the second is split. -/
theorem forall₂_split {R : Job → Job → Prop} {l : List Job} :
    ∀ {before rest : List Job} {b : Job}, List.Forall₂ R l (before ++ b :: rest) →
      ∃ u a v, l = u ++ a :: v ∧ List.Forall₂ R u before ∧ R a b ∧ List.Forall₂ R v rest := by
  induction l with
  | nil =>
      intro before rest b h
      cases before <;> cases h
  | cons a l ih =>
      intro before rest b h
      cases before with
      | nil =>
          cases h with
          | cons hab hrest => exact ⟨[], a, l, rfl, .nil, hab, hrest⟩
      | cons c before =>
          cases h with
          | cons hac hrest =>
              obtain ⟨u, a', v, rfl, hu, hab, hv⟩ := ih hrest
              exact ⟨a :: u, a', v, rfl, .cons hac hu, hab, hv⟩

/-- Lists related job by job have the same ids. -/
theorem forall₂_ids {R : Job → Job → Prop} (hR : ∀ a b, R a b → b.id = a.id)
    {l l' : List Job} (h : List.Forall₂ R l l') : l'.map (·.id) = l.map (·.id) := by
  induction h with
  | nil => rfl
  | cons hab _ ih => rw [List.map_cons, List.map_cons, hR _ _ hab, ih]

/-- A job of the second list is related to one of the first. -/
theorem mem_of_forall₂ {R : Job → Job → Prop} {l l' : List Job} (h : List.Forall₂ R l l')
    {b : Job} (hb : b ∈ l') : ∃ a ∈ l, R a b := by
  induction h with
  | nil => cases hb
  | cons hab _ ih =>
      rcases List.mem_cons.1 hb with rfl | hb
      · exact ⟨_, List.mem_cons_self .., hab⟩
      · obtain ⟨a, ha, hR⟩ := ih hb
        exact ⟨a, List.mem_cons_of_mem _ ha, hR⟩

/-- Looking jobs up by id in two lists that agree on ids finds related
jobs. -/
theorem find_forall₂ {R : Job → Job → Prop} (hid : ∀ a b, R a b → b.id = a.id) (p : JobId)
    {l l' : List Job} (h : List.Forall₂ R l l') :
    Option.Rel R (l.find? (·.id = p)) (l'.find? (·.id = p)) := by
  induction h with
  | nil => exact .none
  | cons hab _ ih =>
      rw [List.find?_cons, List.find?_cons, hid _ _ hab]
      split
      · exact .some hab
      · exact ih

/-- The external dependencies are those of waiting jobs, outside the
jobs. -/
theorem mem_externalDependencies {p : JobId} :
    p ∈ externalDependencies jobs ↔
      (∃ job ∈ jobs, job.dependencyStatus = .waiting ∧ p ∈ job.dependsOn) ∧
        p ∉ jobs.map (·.id) := by
  unfold externalDependencies
  simp only [List.mem_dedup, List.mem_mergeSort, List.mem_filter, List.mem_flatMap,
    decide_eq_true_eq]
  constructor
  · intro ⟨⟨job, ⟨hmem, hw⟩, hp⟩, hout⟩
    exact ⟨⟨job, hmem, hw, hp⟩, hout⟩
  · intro ⟨⟨job, hmem, hw, hp⟩, hout⟩
    exact ⟨⟨job, ⟨hmem, hw⟩, hp⟩, hout⟩

/-- The state a settled job has as a parent. -/
def stateOfStatus : JobStatus → ParentState
  | .completed => .completed
  | .failed | .dead | .timedOut => .failed
  | _ => .unfinished

theorem settledStateOf_eq (jobs : List Job) (parents : JobId → Option ParentState)
    (p : JobId) :
    settledStateOf jobs parents p
      = match jobs.reverse.find? (·.id = p) with
        | some job => stateOfStatus job.status
        | none => (parents p).getD .unfinished := by
  unfold settledStateOf
  cases jobs.reverse.find? (·.id = p) with
  | none => rfl
  | some job => cases h : job.status <;> simp only [h, stateOfStatus]

/-- A job that may have failed has, as a parent, the state it had or
`failed`. -/
theorem StatesGrow.state (h : StatesGrow jobs jobs') (parents : JobId → Option ParentState)
    (p : JobId) :
    settledStateOf jobs' parents p = settledStateOf jobs parents p
      ∨ settledStateOf jobs' parents p = .failed := by
  rw [settledStateOf_eq, settledStateOf_eq]
  have hfind := find_forall₂ (fun _ _ h => h.1) p (List.rel_reverse h)
  revert hfind
  generalize jobs.reverse.find? _ = found
  generalize jobs'.reverse.find? _ = found'
  intro hfind
  cases hfind with
  | none => exact .inl rfl
  | some hab =>
      rcases hab.2 with h | h
      · left
        simp only [h]
      · right
        simp only [h]
        rfl

theorem StatesGrow.failed (h : StatesGrow jobs jobs') {p : JobId}
    (hp : settledStateOf jobs parents p = .failed) :
    settledStateOf jobs' parents p = .failed := by
  rcases h.state parents p with h | h
  · rw [h, hp]
  · exact h

theorem StatesGrow.completed (h : StatesGrow jobs jobs') {p : JobId}
    (hp : settledStateOf jobs' parents p = .completed) :
    settledStateOf jobs parents p = .completed := by
  rcases h.state parents p with h | h
  · rw [← h, hp]
  · rw [h] at hp
    cases hp

/-- The dependency `p` of a job among `jobs` is in state `state`: a job
among them of that id is, or, where there is none, the stored job is. -/
def CountsAs (jobs : List Job) (parents : JobId → Option ParentState) (p : JobId)
    (state : ParentState) : Prop :=
  (∃ job ∈ jobs, job.id = p ∧ stateOfStatus job.status = state) ∨
    (p ∉ jobs.map (·.id) ∧ parents p = some state)

/-- A parent seen as finished is so for one of the two reasons. -/
theorem countsAs_of_state {p : JobId} {state : ParentState} (hfinished : state ≠ .unfinished)
    (h : settledStateOf jobs parents p = state) : CountsAs jobs parents p state := by
  rw [settledStateOf_eq] at h
  cases hfind : jobs.reverse.find? (·.id = p) with
  | some job =>
      rw [hfind] at h
      have hid : job.id = p := by simpa using List.find?_some hfind
      exact .inl ⟨job, List.mem_reverse.1 (List.mem_of_find?_eq_some hfind), hid, h⟩
  | none =>
      rw [hfind] at h
      refine .inr ⟨fun hmem => ?_, ?_⟩
      · obtain ⟨job, hjob, hid⟩ := List.mem_map.1 hmem
        have := List.find?_eq_none.1 hfind job (List.mem_reverse.2 hjob)
        simp [hid] at this
      · cases hparent : parents p with
        | none => rw [hparent] at h; exact absurd h.symm hfinished
        | some state' => rw [hparent] at h; exact congrArg some h

/-- Where ids are distinct, it is seen as it is. -/
theorem state_of_countsAs (hids : (jobs.map (·.id)).Nodup) {p : JobId} {state : ParentState}
    (h : CountsAs jobs parents p state) : settledStateOf jobs parents p = state := by
  rw [settledStateOf_eq]
  cases hfind : jobs.reverse.find? (·.id = p) with
  | some job =>
      have hid : job.id = p := by simpa using List.find?_some hfind
      have hmem := List.mem_reverse.1 (List.mem_of_find?_eq_some hfind)
      rcases h with ⟨job', hmem', hid', hst⟩ | ⟨hout, -⟩
      · have heq : job = job' := List.inj_on_of_nodup_map hids hmem hmem' (hid.trans hid'.symm)
        rw [heq]
        exact hst
      · exact absurd (List.mem_map.2 ⟨job, hmem, hid⟩) hout
  | none =>
      rcases h with ⟨job', hmem', hid', -⟩ | ⟨-, hp⟩
      · have := List.find?_eq_none.1 hfind job' (List.mem_reverse.2 hmem')
        simp [hid'] at this
      · rw [hp]
        rfl

-- == one job

/-- What settling one job can do to it: nothing, because it does not
wait or because its dependencies are neither failed nor all completed;
satisfy it; or fail it. -/
theorem settleJob_cases (jobs : List Job) (parents : JobId → Option ParentState)
    (now : DateTime) (job : Job) :
    (settleJob jobs parents now job = (job, false) ∧
      (job.dependencyStatus = .waiting → job.dependsOn ≠ [] →
        (∀ p ∈ job.dependsOn, settledStateOf jobs parents p ≠ .failed) ∧
        ∃ p ∈ job.dependsOn, settledStateOf jobs parents p ≠ .completed)) ∨
    (settleJob jobs parents now job = ({ job with dependencyStatus := .satisfied }, false) ∧
      job.dependencyStatus = .waiting ∧ job.dependsOn ≠ [] ∧
      ∀ p ∈ job.dependsOn, settledStateOf jobs parents p = .completed) ∨
    (∃ p ∈ job.dependsOn, settleJob jobs parents now job = (job.failOnArrival p now, true) ∧
      job.dependencyStatus = .waiting ∧ settledStateOf jobs parents p = .failed) := by
  unfold settleJob
  split
  case isTrue hskip =>
    left
    refine ⟨rfl, fun hw hne => ?_⟩
    rcases hskip with h | h
    · exact absurd hw h
    · exact absurd (List.isEmpty_iff.1 h) hne
  case isFalse hwait =>
    simp only [not_or, not_not, List.isEmpty_iff] at hwait
    split
    case h_1 p hfind =>
      right
      right
      exact ⟨p, List.mem_of_find?_eq_some hfind, rfl, hwait.1,
        by simpa using List.find?_some hfind⟩
    case h_2 hfind =>
      have hnone : ∀ p ∈ job.dependsOn, settledStateOf jobs parents p ≠ .failed := by
        simpa using hfind
      split
      case isTrue hall =>
        right
        left
        exact ⟨rfl, hwait.1, hwait.2, by simpa using hall⟩
      case isFalse hall =>
        left
        exact ⟨rfl, fun _ _ => ⟨hnone, by simpa using hall⟩⟩

theorem settleJob_mayFail (jobs : List Job) (parents : JobId → Option ParentState)
    (now : DateTime) (job : Job) : MayFail job (settleJob jobs parents now job).1 := by
  rcases settleJob_cases jobs parents now job with ⟨h, -⟩ | ⟨h, -⟩ | ⟨p, -, h, -⟩ <;> rw [h]
  · exact ⟨rfl, .inl rfl⟩
  · exact ⟨rfl, .inl rfl⟩
  · exact ⟨rfl, .inr rfl⟩

-- == the whole loop

/-- One job of the list is settled against the others. -/
def SettleStep (parents : JobId → Option ParentState) (now : DateTime)
    (jobs jobs' : List Job) : Prop :=
  ∃ before job rest, jobs = before ++ job :: rest ∧
    jobs' = before ++ (settleJob jobs parents now job).1 :: rest

/-- A pass settles one job after another. -/
theorem settlePass_steps (parents : JobId → Option ParentState) (now : DateTime)
    (rest : List Job) : ∀ before : List Job,
    Relation.ReflTransGen (SettleStep parents now) (before ++ rest)
      (settlePass parents now before rest).1 := by
  induction rest with
  | nil =>
      intro before
      rw [List.append_nil]
      exact .refl
  | cons job rest ih =>
      intro before
      have hstep : SettleStep parents now (before ++ job :: rest)
          (before ++ (settleJob (before ++ job :: rest) parents now job).1 :: rest) :=
        ⟨before, job, rest, rfl, rfl⟩
      have htail := ih (before ++ [(settleJob (before ++ job :: rest) parents now job).1])
      rw [List.append_assoc, List.singleton_append] at htail
      exact .head hstep htail

/-- So does the loop. -/
theorem settleLoop_steps : ∀ (fuel : Nat) (jobs : List Job),
    Relation.ReflTransGen (SettleStep parents now) jobs
      (settleLoop parents now fuel jobs).1 := by
  intro fuel
  induction fuel with
  | zero => intro jobs; exact .refl
  | succ fuel ih =>
      intro jobs
      have hpass := settlePass_steps parents now jobs []
      rw [settleLoop]
      split
      · next heq =>
        rw [heq] at hpass
        exact hpass
      · next heq =>
        rw [heq] at hpass
        exact hpass.trans (ih _)

theorem SettleStep.grow (h : SettleStep parents now jobs jobs') : StatesGrow jobs jobs' := by
  obtain ⟨before, job, rest, rfl, rfl⟩ := h
  refine List.rel_append ?_ (.cons (settleJob_mayFail _ _ _ _) ?_)
  · exact StatesGrow.refl before
  · exact StatesGrow.refl rest

/-- How a job handed in as `given` among `jobs` is stored when the jobs
end up as `jobs'`. -/
inductive SettledAs (parents : JobId → Option ParentState) (now : DateTime)
    (jobs jobs' : List Job) (given : Job) : Job → Prop
  | unchanged : SettledAs parents now jobs jobs' given given
  | satisfied : given.dependencyStatus = .waiting → given.dependsOn ≠ [] →
      (∀ p ∈ given.dependsOn, settledStateOf jobs parents p = .completed) →
      SettledAs parents now jobs jobs' given { given with dependencyStatus := .satisfied }
  | failed (p : JobId) : given.dependencyStatus = .waiting → p ∈ given.dependsOn →
      settledStateOf jobs' parents p = .failed →
      SettledAs parents now jobs jobs' given (given.failOnArrival p now)

theorem SettledAs.mono {jobs'' : List Job} (hgrow : StatesGrow jobs' jobs'') {given job : Job}
    (h : SettledAs parents now jobs jobs' given job) :
    SettledAs parents now jobs jobs'' given job := by
  cases h with
  | unchanged => exact .unchanged
  | satisfied hw hne hall => exact .satisfied hw hne hall
  | failed p hw hp hstate => exact .failed p hw hp (hgrow.failed hstate)

/-- One more settling step, for the job it is about. -/
private theorem SettledAs.settleJob (hgrow : StatesGrow jobs jobs') {given job : Job}
    (h : SettledAs parents now jobs jobs' given job) :
    SettledAs parents now jobs jobs' given
      (Hammerwork.settleJob jobs' parents now job).1 := by
  have hdone : job.dependencyStatus ≠ .waiting →
      (Hammerwork.settleJob jobs' parents now job).1 = job := by
    intro hw
    unfold Hammerwork.settleJob
    rw [if_pos (.inl hw)]
  cases h with
  | unchanged =>
      rcases settleJob_cases jobs' parents now given with ⟨h, -⟩ | ⟨h, hw, hne, hall⟩ |
        ⟨p, hp, h, hw, hstate⟩ <;> rw [h]
      · exact .unchanged
      · exact .satisfied hw hne fun p hp => hgrow.completed (hall p hp)
      · exact .failed p hw hp hstate
  | satisfied hw hne hall =>
      rw [hdone (by simp)]
      exact .satisfied hw hne hall
  | failed p hw hp hstate =>
      rw [hdone (by simp [Job.failOnArrival])]
      exact .failed p hw hp hstate

/-- Settling keeps the jobs in order, each stored as one of the cases of
`SettledAs`. -/
theorem settled_of_steps (h : Relation.ReflTransGen (SettleStep parents now) jobs jobs') :
    StatesGrow jobs jobs' ∧ List.Forall₂ (SettledAs parents now jobs jobs') jobs jobs' := by
  induction h with
  | refl => exact ⟨.refl jobs, List.forall₂_same.2 fun _ _ => .unchanged⟩
  | tail _ hstep ih =>
      obtain ⟨hgrow, hall⟩ := ih
      have hgrow' := hstep.grow
      refine ⟨hgrow.trans hgrow', ?_⟩
      obtain ⟨before, job, rest, rfl, rfl⟩ := hstep
      obtain ⟨u, given, v, rfl, hu, hjob, hv⟩ := forall₂_split hall
      refine List.rel_append ?_ (.cons ?_ ?_)
      · exact hu.imp fun _ _ h => h.mono hgrow'
      · exact (hjob.settleJob hgrow).mono hgrow'
      · exact hv.imp fun _ _ h => h.mono hgrow'

theorem settleNewDependents_settled (jobs : List Job)
    (parents : JobId → Option ParentState) (now : DateTime) :
    StatesGrow jobs (settleNewDependents jobs parents now).1 ∧
      List.Forall₂ (SettledAs parents now jobs (settleNewDependents jobs parents now).1)
        jobs (settleNewDependents jobs parents now).1 :=
  settled_of_steps (settleLoop_steps _ jobs)

-- == failed for a reason

/-- The jobs of `jobs` that end up failed: those that came so, those
waiting on a parent that failed, and those waiting on one of these. -/
inductive Doomed (jobs : List Job) (parents : JobId → Option ParentState) : JobId → Prop
  | given {job : Job} : job ∈ jobs → stateOfStatus job.status = .failed →
      Doomed jobs parents job.id
  | parent {job : Job} {p : JobId} : job ∈ jobs → job.dependencyStatus = .waiting →
      p ∈ job.dependsOn → p ∉ jobs.map (·.id) → parents p = some .failed →
      Doomed jobs parents job.id
  | sibling {job : Job} {p : JobId} : job ∈ jobs → job.dependencyStatus = .waiting →
      p ∈ job.dependsOn → Doomed jobs parents p → Doomed jobs parents job.id

/-- Settling fails no other job. -/
theorem doomed_of_steps (h : Relation.ReflTransGen (SettleStep parents now) jobs jobs') :
    ∀ job ∈ jobs', stateOfStatus job.status = .failed → Doomed jobs parents job.id := by
  induction h with
  | refl => exact fun job hjob hfail => .given hjob hfail
  | @tail mid _ hchain hstep ih =>
      obtain ⟨hgrow, hall⟩ := settled_of_steps hchain
      have hids : mid.map (·.id) = jobs.map (·.id) := forall₂_ids (fun _ _ h => h.1) hgrow
      -- a parent seen as failed failed for a reason
      have hstate : ∀ p, settledStateOf mid parents p = .failed →
          Doomed jobs parents p ∨ (p ∉ jobs.map (·.id) ∧ parents p = some .failed) := by
        intro p hp
        rcases countsAs_of_state (by decide) hp with ⟨job, hjob, hid, hst⟩ | ⟨hout, hparent⟩
        · exact .inl (hid ▸ ih job hjob hst)
        · rw [hids] at hout
          exact .inr ⟨hout, hparent⟩
      obtain ⟨before, job, rest, rfl, rfl⟩ := hstep
      intro job' hjob' hfail
      rcases List.mem_append.1 hjob' with hmem | hmem
      · exact ih job' (List.mem_append_left _ hmem) hfail
      rcases List.mem_cons.1 hmem with rfl | hmem
      · have hjob := List.mem_append_right before (List.mem_cons_self (a := job) (l := rest))
        obtain ⟨given, hgiven, hset⟩ : ∃ given ∈ jobs, SettledAs parents now jobs
            (before ++ job :: rest) given job := by
          obtain ⟨u, given, v, rfl, -, hset, -⟩ := forall₂_split hall
          exact ⟨given, List.mem_append_right _ (List.mem_cons_self ..), hset⟩
        rcases settleJob_cases (before ++ job :: rest) parents now job with ⟨h, -⟩ |
          ⟨h, -⟩ | ⟨p, hp, h, hw, hstate'⟩ <;> rw [h] at hfail ⊢
        · exact ih job hjob hfail
        · exact ih job hjob hfail
        · -- a job still waiting is as it was handed in
          have heq : job = given := by
            cases hset with
            | unchanged => rfl
            | satisfied => cases hw
            | failed => cases hw
          subst heq
          show Doomed jobs parents job.id
          rcases hstate p hstate' with hd | ⟨hout, hparent⟩
          · exact .sibling hgiven hw hp hd
          · exact .parent hgiven hw hp hout hparent
      · exact ih job' (List.mem_append_right _ (List.mem_cons_of_mem _ hmem)) hfail

theorem settleNewDependents_doomed (jobs : List Job) (parents : JobId → Option ParentState)
    (now : DateTime) : ∀ job ∈ (settleNewDependents jobs parents now).1,
    stateOfStatus job.status = .failed → Doomed jobs parents job.id :=
  doomed_of_steps (settleLoop_steps _ jobs)

-- == the last pass

/-- A waiting job of `jobs` waits for a reason: none of its dependencies
failed, and not all completed. -/
def WaitsRightly (jobs : List Job) (parents : JobId → Option ParentState) (job : Job) :
    Prop :=
  job.dependencyStatus = .waiting → job.dependsOn ≠ [] →
    (∀ p ∈ job.dependsOn, settledStateOf jobs parents p ≠ .failed) ∧
    ∃ p ∈ job.dependsOn, settledStateOf jobs parents p ≠ .completed

/-- Jobs of the same ids and statuses. -/
def SameStates (jobs jobs' : List Job) : Prop :=
  List.Forall₂ (fun a b : Job => b.id = a.id ∧ b.status = a.status) jobs jobs'

theorem SameStates.refl (jobs : List Job) : SameStates jobs jobs :=
  List.forall₂_same.2 fun _ _ => ⟨rfl, rfl⟩

theorem SameStates.trans {jobs'' : List Job} (h₁ : SameStates jobs jobs')
    (h₂ : SameStates jobs' jobs'') : SameStates jobs jobs'' := by
  unfold SameStates at h₁ h₂ ⊢
  induction h₁ generalizing jobs'' with
  | nil => exact h₂
  | cons hab _ ih =>
      cases h₂ with
      | cons hbc hrest =>
          exact .cons ⟨hbc.1.trans hab.1, hbc.2.trans hab.2⟩ (ih hrest)

theorem SameStates.state (h : SameStates jobs jobs') (p : JobId) :
    settledStateOf jobs' parents p = settledStateOf jobs parents p := by
  rw [settledStateOf_eq, settledStateOf_eq]
  have hfind := find_forall₂ (fun _ _ h => h.1) p (List.rel_reverse h)
  revert hfind
  generalize jobs.reverse.find? _ = found
  generalize jobs'.reverse.find? _ = found'
  intro hfind
  cases hfind with
  | none => rfl
  | some hab => simp only [hab.2]

theorem WaitsRightly.congr (h : SameStates jobs jobs') {job : Job}
    (hjob : WaitsRightly jobs parents job) : WaitsRightly jobs' parents job := by
  intro hw hne
  simpa only [h.state] using hjob hw hne

/-- A job that was not failed keeps its id and status, and waits
rightly. -/
theorem settleJob_kept (jobs : List Job) (job : Job)
    (h : (settleJob jobs parents now job).2 = false) :
    (settleJob jobs parents now job).1.id = job.id
      ∧ (settleJob jobs parents now job).1.status = job.status
      ∧ WaitsRightly jobs parents (settleJob jobs parents now job).1 := by
  rcases settleJob_cases jobs parents now job with ⟨heq, hstuck⟩ | ⟨heq, -⟩ | ⟨p, -, heq, -⟩
  · rw [heq]
    exact ⟨rfl, rfl, hstuck⟩
  · rw [heq]
    exact ⟨rfl, rfl, fun hw => by cases hw⟩
  · rw [heq] at h
    cases h

/-- A pass that fails nothing changes no parent state, and leaves every
job it looked at waiting rightly. -/
theorem settlePass_kept (parents : JobId → Option ParentState) (now : DateTime)
    (rest : List Job) : ∀ before : List Job,
    (settlePass parents now before rest).2 = [] →
    ∃ rest', (settlePass parents now before rest).1 = before ++ rest'
      ∧ SameStates (before ++ rest) (before ++ rest')
      ∧ ∀ job ∈ rest', WaitsRightly (before ++ rest') parents job := by
  induction rest with
  | nil =>
      intro before _
      exact ⟨[], by simp [settlePass], .refl _, by simp⟩
  | cons job rest ih =>
      intro before h
      rw [settlePass] at h ⊢
      dsimp only at h ⊢
      cases hfailed : (settleJob (before ++ job :: rest) parents now job).2 with
      | true => simp [hfailed] at h
      | false =>
          obtain ⟨hid, hst, hwaits⟩ := settleJob_kept _ job hfailed
          rw [hfailed, if_neg (by decide)] at h
          obtain ⟨rest', hrest', hsame, hall⟩ := ih _ h
          simp only [List.append_assoc, List.singleton_append] at hsame hrest'
          have hstep : SameStates (before ++ job :: rest)
              (before ++ (settleJob (before ++ job :: rest) parents now job).1 :: rest) :=
            List.rel_append (SameStates.refl before) (.cons ⟨hid, hst⟩ (SameStates.refl rest))
          have hboth := hstep.trans hsame
          refine ⟨_, hrest', hboth, ?_⟩
          intro j hj
          rcases List.mem_cons.1 hj with rfl | hj
          · exact hwaits.congr hboth
          · have := hall j hj
            rwa [List.append_assoc, List.singleton_append] at this

/-- The jobs that still wait. -/
def waitingCount (jobs : List Job) : Nat := jobs.countP (·.dependencyStatus = .waiting)

/-- Each job a pass fails waited before, and no longer does. -/
theorem settlePass_count (parents : JobId → Option ParentState) (now : DateTime)
    (rest : List Job) : ∀ before : List Job,
    (settlePass parents now before rest).2.length
        + waitingCount (settlePass parents now before rest).1
      ≤ waitingCount (before ++ rest) := by
  induction rest with
  | nil =>
      intro before
      rw [List.append_nil, settlePass]
      exact le_of_eq (Nat.zero_add _)
  | cons job rest ih =>
      intro before
      have htail := ih (before ++ [(settleJob (before ++ job :: rest) parents now job).1])
      unfold waitingCount at htail ⊢
      rw [List.append_assoc, List.singleton_append, List.countP_append, List.countP_cons]
        at htail
      rw [List.countP_append, List.countP_cons, settlePass]
      dsimp only
      rcases settleJob_cases (before ++ job :: rest) parents now job with
        ⟨h, -⟩ | ⟨h, hw, -⟩ | ⟨p, -, h, hw, -⟩
      · rw [h] at htail ⊢
        exact htail
      · rw [h] at htail ⊢
        simp only [hw] at htail ⊢
        simp only [Bool.false_eq_true, if_false, decide_true, if_true, reduceCtorEq,
          decide_false] at htail ⊢
        omega
      · rw [h] at htail ⊢
        simp only [hw, Job.failOnArrival] at htail ⊢
        simp only [Bool.false_eq_true, if_false, decide_true, if_true, reduceCtorEq,
          decide_false, List.length_cons] at htail ⊢
        omega

/-- With more passes than there are waiting jobs, the loop ends with
every job waiting rightly. -/
theorem settleLoop_waits : ∀ (fuel : Nat) (jobs : List Job), waitingCount jobs < fuel →
    ∀ job ∈ (settleLoop parents now fuel jobs).1,
      WaitsRightly (settleLoop parents now fuel jobs).1 parents job := by
  intro fuel
  induction fuel with
  | zero => intro jobs h; omega
  | succ fuel ih =>
      intro jobs h
      have hcount := settlePass_count parents now jobs []
      rw [List.nil_append] at hcount
      rw [settleLoop]
      split
      · next settled heq =>
        have hkept := settlePass_kept parents now jobs [] (by rw [heq])
        obtain ⟨rest', hrest', -, hall⟩ := hkept
        rw [heq] at hrest'
        rw [List.nil_append] at hrest' hall
        dsimp only at hrest' ⊢
        rw [hrest']
        exact hall
      · next settled failed hne heq =>
        rw [heq] at hcount
        have hpos : 0 < failed.length := by
          cases failed with
          | nil => exact absurd rfl hne
          | cons _ _ => exact Nat.succ_pos _
        dsimp only at hcount ⊢
        exact ih settled (by omega)

/-- After settling, every waiting job waits rightly. -/
theorem settleNewDependents_waits (jobs : List Job) (parents : JobId → Option ParentState)
    (now : DateTime) :
    ∀ job ∈ (settleNewDependents jobs parents now).1,
      WaitsRightly (settleNewDependents jobs parents now).1 parents job :=
  settleLoop_waits _ jobs (Nat.lt_succ_of_le List.countP_le_length)

end Hammerwork
