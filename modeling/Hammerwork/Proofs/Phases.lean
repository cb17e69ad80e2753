/-
What holds in each phase of a transaction.

Every transaction reads under locks first and writes afterwards. Up to
its first write it is `Untouched`, and what it knows is what it holds:
the rows a `SELECT` took (`Locked`), the job it transitions
(`LockedJob`), how it judged a job that goes back to `Pending`
(`Judged`) and the jobs it is about to insert (`Settled`). From its
first write on, the rows it wrote satisfy `Writes` and its debts are
what its remaining statements will find.

`Facts` puts this together phase by phase, and `Asserts` adds what is the
same in all of them. `asserts_moves` is one statement's step,
`asserts_stable` is another transaction's commit, and `outline` is what
the rule for runs needs.

# The condition

The dependencies of jobs being enqueued are locked where they are
stored. One that is stored nowhere yet, because the transaction that
enqueues it has not committed, cannot be locked, and its end goes by
unseen. `Phase.Informed` grants that there is none, and `Phase.InScope`
what else a caller has to see to.
-/
import Hammerwork.Proofs.Slots
import Hammerwork.Proofs.Enqueue

namespace Hammerwork

/-- A job as it is handed in: pending, and waiting if it depends on
others. -/
def Job.Arrives (job : Job) : Prop :=
  job.status = .pending ∧ (job.dependencyStatus = .waiting ↔ job.dependsOn ≠ [])

namespace Postgres

open ReadCommitted

/-- What a caller has to see to: jobs are handed in properly, under ids
that are not archived, and no outcome of a recurring job is recorded. -/
def Phase.InScope (view : JobId → Slot) : Phase → Prop
  | .enqueue jobs _ => ∀ job ∈ jobs, job.Arrives ∧ (view job.id).archived = none
  | .insert jobs _ => ∀ job ∈ jobs, (view job.id).archived = none
  | .write job _ _ _ rescheduleRecurring => rescheduleRecurring = true → job.recurring = false
  | _ => True

/-- Every dependency of jobs being enqueued is known by the time it is
looked up: it was locked, or it is archived. -/
def Phase.Informed (view : JobId → Slot) : Phase → Prop
  | .archivedParents jobs _ locked => ∀ d ∈ externalDependencies jobs,
      d ∈ locked.map (·.1) ∨ (view d).archived.isSome = true
  | _ => True

/-- What the moment of a step has to grant the transaction. -/
def Phase.Fine (view : JobId → Slot) (phase : Phase) : Prop :=
  phase.InScope view ∧ phase.Informed view

variable {env : Env} {db db' : JobId → Slot} {slot : Slot} {k d : JobId} {job row : Job}
  {s s' other : Tx} {jobs : List Job} {target : Target} {now wall : DateTime}
  {status : DependencyStatus} {locked : List (JobId × Slot)}

-- == known by lock

/-- Rows a statement took, as they are stored. -/
def Locked (db : JobId → Slot) (s : Tx) (locked : List (JobId × Slot)) : Prop :=
  ∀ e ∈ locked, s.held e.1 ≠ none ∧ e.2 = db e.1 ∧ e.2.stored.isSome = true

/-- The job a transition locked and may write. -/
structure LockedJob (db : JobId → Slot) (s : Tx) (job : Job) : Prop where
  held : s.held job.id = some .exclusive
  stored : (db job.id).stored = some job
  unfinished : job.status ≠ .completed

/-- A job that may be put back to `Pending` with the dependency status
`status`. -/
structure Judged (env : Env) (db : JobId → Slot) (s : Tx) (job : Job)
    (status : DependencyStatus) : Prop where
  judged : job.dependsOn ≠ [] → status = .waiting ∨ status = .satisfied
  waiting : status = .waiting → job.dependsOn ≠ []
  satisfied : status = .satisfied → ∀ d ∈ job.dependsOn, (db d).completed = true
  waits : status = .waiting → ∃ d ∈ job.dependsOn, s.held d ≠ none ∧ (db d).completed = false
  spared : ∀ d ∈ job.dependsOn,
    (db d).completed = true ∨ (s.held d ≠ none ∧ ¬ (db d).Fails env)

/-- A settled job, about to be inserted with `jobs`. -/
structure Settled (env : Env) (db : JobId → Slot) (s : Tx) (jobs : List Job) (job : Job) :
    Prop where
  status : job.status = .pending ∨ job.status = .failed
  judged : job.status = .pending → job.dependsOn ≠ [] →
    job.dependencyStatus = .waiting ∨ job.dependencyStatus = .satisfied
  waiting : job.dependencyStatus = .waiting → job.dependsOn ≠ []
  known : ∀ d ∈ job.dependsOn, d ∈ jobs.map (·.id) ∨ (db d).Known
  satisfied : job.dependencyStatus = .satisfied → ∀ d ∈ job.dependsOn, (db d).completed = true
  waits : Waits job → ∃ d ∈ job.dependsOn,
    d ∈ jobs.map (·.id) ∨ (s.held d ≠ none ∧ (db d).completed = false)
  inside : job.status = .pending → ∀ d ∈ job.dependsOn, d ∈ jobs.map (·.id) →
    ∃ job' ∈ jobs, job'.id = d ∧ job'.status = .pending
  outside : job.status = .pending → ∀ d ∈ job.dependsOn, d ∉ jobs.map (·.id) →
    (db d).completed = true ∨ (s.held d ≠ none ∧ ¬ (db d).Fails env)

theorem Locked.later (h : Locked db s locked) (hl : Later s db db') : Locked db' s locked := by
  intro e he
  obtain ⟨hheld, hrow, hsome⟩ := h e he
  exact ⟨hheld, by rw [hl.held _ hheld, hrow], hsome⟩

theorem Locked.keeps (h : Locked db s locked) (hl : KeepsLocks s s') : Locked db s' locked :=
  fun e he => ⟨hl.held _ (h e he).1, (h e he).2⟩

theorem LockedJob.later (h : LockedJob db s job) (hl : Later s db db') : LockedJob db' s job where
  held := h.held
  stored := by
    rw [hl.held job.id (by rw [h.held]; exact nofun)]
    exact h.stored
  unfinished := h.unfinished

theorem LockedJob.keeps (h : LockedJob db s job) (hl : KeepsLocks s s') : LockedJob db s' job where
  held := hl.exclusive _ h.held
  stored := h.stored
  unfinished := h.unfinished

theorem Judged.later (h : Judged env db s job status) (hl : Later s db db') :
    Judged env db' s job status where
  judged := h.judged
  waiting := h.waiting
  satisfied hsat d hd := hl.completed d (h.satisfied hsat d hd)
  waits hw := by
    obtain ⟨d, hd, hheld, hopen⟩ := h.waits hw
    exact ⟨d, hd, hheld, by rw [hl.held d hheld, hopen]⟩
  spared d hd := by
    rcases h.spared d hd with hc | ⟨hheld, hspared⟩
    · exact .inl (hl.completed d hc)
    · exact .inr ⟨hheld, by rwa [hl.held d hheld]⟩

theorem Settled.later (h : Settled env db s jobs job) (hl : Later s db db') :
    Settled env db' s jobs job where
  status := h.status
  judged := h.judged
  waiting := h.waiting
  known d hd := (h.known d hd).imp_right (hl.known d)
  satisfied hsat d hd := hl.completed d (h.satisfied hsat d hd)
  waits hw := by
    obtain ⟨d, hd, hwait⟩ := h.waits hw
    refine ⟨d, hd, hwait.imp_right fun hwait => ⟨hwait.1, ?_⟩⟩
    rw [hl.held d hwait.1, hwait.2]
  inside := h.inside
  outside hp d hd hout := by
    rcases h.outside hp d hd hout with hc | ⟨hheld, hspared⟩
    · exact .inl (hl.completed d hc)
    · exact .inr ⟨hheld, by rwa [hl.held d hheld]⟩

-- == lookups

/-- What a lookup among the rows taken finds. -/
theorem lockedRow_eq_some (h : Locked db s locked) (hrow : lockedRow locked d = some row) :
    s.held d ≠ none ∧ (db d).stored = some row := by
  unfold lockedRow at hrow
  obtain ⟨e, hfind, hstored⟩ := Option.bind_eq_some_iff.1 hrow
  have hid : e.1 = d := by simpa using List.find?_some hfind
  obtain ⟨hheld, hversion, -⟩ := h e (List.mem_of_find?_eq_some hfind)
  rw [hid] at hheld hversion
  exact ⟨hheld, by rw [← hversion, hstored]⟩

theorem lockedRow_isSome (h : Locked db s locked) (hd : d ∈ locked.map (·.1)) :
    ∃ row, lockedRow locked d = some row := by
  obtain ⟨e, he, rfl⟩ := List.mem_map.1 hd
  unfold lockedRow
  cases hfind : locked.find? (·.1 = e.1) with
  | none => exact absurd (List.find?_eq_none.1 hfind e he) (by simp)
  | some e' =>
      obtain ⟨-, -, hsome⟩ := h e' (List.mem_of_find?_eq_some hfind)
      exact Option.isSome_iff_exists.1 hsome

/-- A dependency that is not locked and was found has completed or
failed. -/
theorem completed_of_archived (hdb : Consistent env db) (hrow : (db d).archived = some row) :
    (db d).completed = decide (row.status = .completed) ∧
      (row.status ≠ .completed → row.status.EndedInFailure) := by
  refine ⟨(hdb.sound d).completed_eq (.inr hrow), fun hne => ?_⟩
  exact ((hdb.sound d).finished row hrow).resolve_left hne

-- == put back by hand

/-- The status of a dependency, as a transition read it: of a row that
is locked, or of one that completed or failed. -/
theorem dependencyStates_spec (hdb : Consistent env db) (h : Locked db s locked)
    {ids : List JobId} {st : JobStatus} (hst : dependencyStates ids locked db d = some st)
    (hok : ¬ st.EndedInFailure) :
    (db d).completed = decide (st = .completed) ∧ ¬ (db d).Fails env ∧
      (st ≠ .completed → s.held d ≠ none) := by
  unfold dependencyStates at hst
  cases hlocked : lockedRow locked d with
  | some row =>
      rw [hlocked] at hst
      cases hst
      obtain ⟨hheld, hstored⟩ := lockedRow_eq_some h hlocked
      refine ⟨(hdb.sound d).completed_eq (.inl hstored), ?_, fun _ => hheld⟩
      rw [(hdb.sound d).fails_iff (.inl hstored)]
      exact fun hf => hok hf.1
  | none =>
      rw [hlocked] at hst
      dsimp only at hst
      split at hst
      case isFalse => cases hst
      case isTrue =>
        obtain ⟨row, hrow, hrst⟩ := Option.map_eq_some_iff.1 hst
        obtain ⟨hc, hf⟩ := completed_of_archived hdb hrow
        rw [hrst] at hc hf
        have hst : st = .completed := by
          by_contra hne
          exact hok (hf hne)
        refine ⟨hc, ?_, fun hne => absurd hst hne⟩
        exact (hdb.sound d).not_fails_of_completed (by rw [hc, hst]; rfl)

/-- A job put back by hand is judged by the dependencies that were
locked. -/
theorem judged_of_reevaluated (hdb : Consistent env db) (h : Locked db s locked)
    (hjob : (db k).stored = some job)
    (hok : reevaluateDependencies job (dependencyStates job.dependsOn locked db) "retried"
      = .ok status) : Judged env db s job status := by
  unfold reevaluateDependencies at hok
  split at hok
  case isTrue hempty =>
    cases hok
    have hnil := List.isEmpty_iff.1 hempty
    have hnone : ∀ d, d ∉ job.dependsOn := by
      rw [hnil]
      exact fun _ => List.not_mem_nil
    exact ⟨fun hne => absurd hnil hne, (fun h => by cases h), (fun h => by cases h),
      (fun h => by cases h), fun d hd => absurd hd (hnone d)⟩
  case isFalse hne =>
    have hne : job.dependsOn ≠ [] := fun hnil => hne (List.isEmpty_iff.2 hnil)
    split at hok
    case isTrue hsat =>
      cases hok
      have hall := hdb.satisfied k job (.inl hjob) hsat
      exact ⟨fun _ => .inr rfl, (fun h => by cases h), fun _ => hall, (fun h => by cases h),
        fun d hd => .inl (hall d hd)⟩
    case isFalse hunsat =>
      cases hcheck : checkDependencies (dependencyStates job.dependsOn locked db)
          job.dependsOn with
      | error e =>
          rw [hcheck] at hok
          cases hok
      | ok all =>
          rw [hcheck] at hok
          obtain ⟨hstates, hall⟩ := TestQueue.checkDependencies_ok_iff.1 hcheck
          have hspared : ∀ d ∈ job.dependsOn,
              (db d).completed = true ∨ (s.held d ≠ none ∧ ¬ (db d).Fails env) := by
            intro d hd
            obtain ⟨st, hst, hfine⟩ := hstates d hd
            obtain ⟨hc, hf, hheld⟩ := dependencyStates_spec hdb h hst hfine
            by_cases hst : st = .completed
            · exact .inl (by rw [hc, hst]; rfl)
            · exact .inr ⟨hheld hst, hf⟩
          cases all with
          | true =>
              cases hok
              refine ⟨fun _ => .inr rfl, (fun h => by cases h), fun _ d hd => ?_,
                (fun h => by cases h), hspared⟩
              exact (dependencyStates_spec hdb h (hall.1 rfl d hd)
                (by simp [JobStatus.EndedInFailure])).1
          | false =>
              cases hok
              refine ⟨fun _ => .inl rfl, fun _ => hne, (fun h => by cases h), fun _ => ?_, hspared⟩
              by_contra hnone
              have htrue : false = true := by
                refine hall.2 fun d hd => ?_
                obtain ⟨st, hst, hfine⟩ := hstates d hd
                obtain ⟨hc, -, hheld⟩ := dependencyStates_spec hdb h hst hfine
                by_cases hcomp : st = .completed
                · rw [hst, hcomp]
                · exact absurd ⟨d, hd, hheld hcomp, by simpa [hcomp] using hc⟩ hnone
              cases htrue

/-- A job that runs, or has no dependencies, goes back as it was judged
before. -/
theorem judged_of_stored (hdb : Consistent env db) (hjob : (db k).stored = some job)
    (h : job.status = .running ∨ job.dependsOn = []) :
    Judged env db s job job.dependencyStatus := by
  have hsat : job.dependsOn ≠ [] → job.dependencyStatus = .satisfied := by
    intro hne
    rcases h with hrun | hnil
    · exact (hdb.sound k).running job hjob hrun hne
    · exact absurd hnil hne
  have hall : ∀ d ∈ job.dependsOn, (db d).completed = true := by
    intro d hd
    exact hdb.satisfied k job (.inl hjob) (hsat (List.ne_nil_of_mem hd)) d hd
  have hwait : job.dependencyStatus ≠ .waiting := by
    intro hw
    rw [hsat ((hdb.sound k).waiting job (.inl hjob) hw)] at hw
    cases hw
  exact ⟨fun hne => .inr (hsat hne), fun hw => absurd hw hwait, fun _ => hall,
    fun hw => absurd hw hwait, fun d hd => .inl (hall d hd)⟩

-- == settled

/-- What is known of a dependency that was looked up for jobs being
enqueued: it completed, or it failed, or it is locked and did neither. -/
theorem parentStates_spec (hdb : Consistent env db) (h : Locked db s locked)
    {parents : List JobId} (hd : d ∈ parents)
    (hknown : d ∈ locked.map (·.1) ∨ (db d).archived.isSome = true) :
    (db d).Known ∧
      ((parentStates env parents locked db d = some .completed ∧ (db d).completed = true) ∨
        parentStates env parents locked db d = some .failed ∨
        (parentStates env parents locked db d = some .unfinished ∧ s.held d ≠ none ∧
          (db d).completed = false ∧ ¬ (db d).Fails env)) := by
  unfold parentStates
  cases hlocked : lockedRow locked d with
  | some row =>
      obtain ⟨hheld, hstored⟩ := lockedRow_eq_some h hlocked
      have hc := (hdb.sound d).completed_eq (.inl hstored)
      have hf : (db d).Fails env ↔ _ := (hdb.sound d).fails_iff (.inl hstored)
      refine ⟨Slot.known_of_stored hstored, ?_⟩
      dsimp only
      unfold parentFromDb
      cases hst : row.status with
      | completed =>
          rw [hst] at hc
          exact .inl ⟨rfl, hc⟩
      | failed | dead | timedOut =>
          rw [hst] at hc
          by_cases hmanual : env.policy row = some .manual
          · refine .inr (.inr ⟨by simp [hmanual], hheld, hc, ?_⟩)
            rw [hf]
            exact fun hfails => hfails.2.2 hmanual
          · exact .inr (.inl (by simp [hmanual]))
      | pending | running | retrying | archived =>
          rw [hst] at hc
          refine .inr (.inr ⟨rfl, hheld, hc, ?_⟩)
          rw [hf, hst]
          simp [JobStatus.EndedInFailure]
  | none =>
      have harchived : (db d).archived.isSome = true := by
        rcases hknown with hin | harchived
        · obtain ⟨row, hrow⟩ := lockedRow_isSome h hin
          rw [hlocked] at hrow
          cases hrow
        · exact harchived
      obtain ⟨row, hrow⟩ := Option.isSome_iff_exists.1 harchived
      refine ⟨⟨row, .inr hrow⟩, ?_⟩
      dsimp only
      rw [if_pos hd, hrow]
      rcases (hdb.sound d).finished row hrow with hst | hst
      · refine .inl ⟨by simp [parentFromArchived, parentFromDb, hst], ?_⟩
        rw [(completed_of_archived hdb hrow).1, hst]
        rfl
      · right
        left
        rcases hst with hst | hst | hst <;>
          simp [parentFromArchived, parentFromDb, hst]

/-- The state of a parent among the jobs is that of a job of its id. -/
theorem settledStateOf_mem (parents : JobId → Option ParentState) (hd : d ∈ jobs.map (·.id)) :
    ∃ job ∈ jobs, job.id = d ∧ settledStateOf jobs parents d = stateOfStatus job.status := by
  rw [settledStateOf_eq]
  cases hfind : jobs.reverse.find? (·.id = d) with
  | none =>
      obtain ⟨job, hjob, hid⟩ := List.mem_map.1 hd
      exact absurd (List.find?_eq_none.1 hfind job (List.mem_reverse.2 hjob)) (by simp [hid])
  | some job =>
      exact ⟨job, List.mem_reverse.1 (List.mem_of_find?_eq_some hfind),
        by simpa using List.find?_some hfind, rfl⟩

/-- The state of a parent outside the jobs is what was looked up. -/
theorem settledStateOf_not_mem {parents : JobId → Option ParentState}
    (hd : d ∉ jobs.map (·.id)) :
    settledStateOf jobs parents d = (parents d).getD .unfinished := by
  rw [settledStateOf_eq]
  cases hfind : jobs.reverse.find? (·.id = d) with
  | none => rfl
  | some job =>
      have hid : job.id = d := by simpa using List.find?_some hfind
      exact absurd (List.mem_map.2 ⟨job, List.mem_reverse.1 (List.mem_of_find?_eq_some hfind),
        hid⟩) hd

/-- Jobs that arrive properly, and whose dependencies were looked up, are
settled. -/
theorem settled_of_settle (hdb : Consistent env db) (h : Locked db s locked)
    (harrive : ∀ job ∈ jobs, job.Arrives)
    (hknown : ∀ d ∈ externalDependencies jobs,
      d ∈ locked.map (·.1) ∨ (db d).archived.isSome = true) :
    ∀ job ∈ (settleNewDependents jobs
        (parentStates env (externalDependencies jobs) locked db) now).1,
      Settled env db s (settleNewDependents jobs
        (parentStates env (externalDependencies jobs) locked db) now).1 job := by
  obtain ⟨hgrow, hall⟩ := settleNewDependents_settled jobs
    (parentStates env (externalDependencies jobs) locked db) now
  have hright := settleNewDependents_waits jobs
    (parentStates env (externalDependencies jobs) locked db) now
  revert hgrow hall hright
  generalize (settleNewDependents jobs _ now).1 = jobs'
  intro hgrow hall hright job hjob
  obtain ⟨given, hgiven, hsettled⟩ := mem_of_forall₂ hall hjob
  obtain ⟨hpending, hwaiting⟩ := harrive given hgiven
  have hids : jobs'.map (·.id) = jobs.map (·.id) := forall₂_ids (fun _ _ h => h.1) hgrow
  -- a parent outside the jobs was looked up
  have hspec : ∀ p ∈ given.dependsOn, p ∉ jobs.map (·.id) →
      (db p).Known ∧
        ((parentStates env (externalDependencies jobs) locked db p = some .completed ∧
            (db p).completed = true) ∨
          parentStates env (externalDependencies jobs) locked db p = some .failed ∨
          (parentStates env (externalDependencies jobs) locked db p = some .unfinished ∧
            s.held p ≠ none ∧ (db p).completed = false ∧ ¬ (db p).Fails env)) := by
    intro p hp hout
    have hext : p ∈ externalDependencies jobs := mem_externalDependencies.2
      ⟨⟨given, hgiven, hwaiting.2 (List.ne_nil_of_mem hp), hp⟩, hout⟩
    exact parentStates_spec hdb h hext (hknown p hext)
  have hdeps : ∀ d ∈ given.dependsOn, d ∈ jobs'.map (·.id) ∨ (db d).Known := by
    intro d hd
    rw [hids]
    by_cases hin : d ∈ jobs.map (·.id)
    · exact .inl hin
    · exact .inr (hspec d hd hin).1
  -- settling fails jobs and completes none
  have hstatus : ∀ job' ∈ jobs', job'.status = .pending ∨ job'.status = .failed := by
    intro job' hjob'
    obtain ⟨given', hgiven', -, hst⟩ := mem_of_forall₂ hgrow hjob'
    rwa [(harrive given' hgiven').1] at hst
  cases hsettled with
  | unchanged =>
      have hsat : job.dependencyStatus = .satisfied → job.dependsOn = [] := by
        intro hsat
        by_contra hne
        rw [hwaiting.2 hne] at hsat
        cases hsat
      refine ⟨.inl hpending, fun _ hne => .inl (hwaiting.2 hne), hwaiting.1, hdeps, ?_, ?_, ?_, ?_⟩
      · intro hs d hd
        rw [hsat hs] at hd
        cases hd
      · intro hw
        obtain ⟨-, p, hp, hopen⟩ := hright job hjob hw.2 (hwaiting.1 hw.2)
        refine ⟨p, hp, ?_⟩
        rw [hids]
        by_cases hin : p ∈ jobs.map (·.id)
        · exact .inl hin
        · right
          rw [settledStateOf_not_mem (by rwa [hids])] at hopen
          rcases (hspec p hp hin).2 with ⟨hst, -⟩ | hst | ⟨-, hheld, hc, -⟩
          · rw [hst] at hopen
            exact absurd rfl hopen
          · have hfine := (hright job hjob hw.2 (hwaiting.1 hw.2)).1 p hp
            rw [settledStateOf_not_mem (by rwa [hids]), hst] at hfine
            exact absurd rfl hfine
          · exact ⟨hheld, hc⟩
      · intro _ d hd hin
        have hne := List.ne_nil_of_mem hd
        have hfine := (hright job hjob (hwaiting.2 hne) hne).1 d hd
        obtain ⟨job', hjob', hid, hst⟩ := settledStateOf_mem (parentStates env
          (externalDependencies jobs) locked db) hin
        refine ⟨job', hjob', hid, (hstatus job' hjob').resolve_right fun hf => ?_⟩
        rw [hst, hf] at hfine
        exact hfine rfl
      · intro _ d hd hout
        have hne := List.ne_nil_of_mem hd
        have hfine := (hright job hjob (hwaiting.2 hne) hne).1 d hd
        rw [settledStateOf_not_mem hout] at hfine
        rcases (hspec d hd (by rwa [← hids])).2 with ⟨-, hc⟩ | hst | ⟨-, hheld, -, hf⟩
        · exact .inl hc
        · rw [hst] at hfine
          exact absurd rfl hfine
        · exact .inr ⟨hheld, hf⟩
  | satisfied hw hne hcompleted =>
      have hall : ∀ d ∈ given.dependsOn, d ∉ jobs.map (·.id) ∧ (db d).completed = true := by
        intro d hd
        have hst := hcompleted d hd
        by_cases hin : d ∈ jobs.map (·.id)
        · obtain ⟨job', hjob', -, heq⟩ := settledStateOf_mem (parentStates env
            (externalDependencies jobs) locked db) hin
          rw [heq, (harrive job' hjob').1] at hst
          cases hst
        · rw [settledStateOf_not_mem hin] at hst
          rcases (hspec d hd hin).2 with ⟨-, hc⟩ | heq | ⟨heq, -⟩
          · exact ⟨hin, hc⟩
          · rw [heq] at hst
            cases hst
          · rw [heq] at hst
            cases hst
      refine ⟨.inl hpending, fun _ _ => .inr rfl, nofun, hdeps, fun _ d hd => (hall d hd).2, nofun,
        fun _ d hd hin => ?_, fun _ d hd _ => .inl (hall d hd).2⟩
      rw [hids] at hin
      exact absurd hin (hall d hd).1
  | failed p hw hp hst =>
      exact ⟨.inr rfl, nofun, nofun, hdeps, nofun, nofun, nofun, nofun⟩

/-- Jobs that depend only on one another are settled as they are. -/
theorem settled_of_internal (harrive : ∀ job ∈ jobs, job.Arrives)
    (hnone : externalDependencies jobs = []) : ∀ job ∈ jobs, Settled env db s jobs job := by
  intro job hjob
  obtain ⟨hpending, hwaiting⟩ := harrive job hjob
  have hin : ∀ d ∈ job.dependsOn, d ∈ jobs.map (·.id) := by
    intro d hd
    by_contra hout
    have hext : d ∈ externalDependencies jobs := mem_externalDependencies.2
      ⟨⟨job, hjob, hwaiting.2 (List.ne_nil_of_mem hd), hd⟩, hout⟩
    rw [hnone] at hext
    cases hext
  refine ⟨.inl hpending, fun _ hne => .inl (hwaiting.2 hne), hwaiting.1,
    fun d hd => .inl (hin d hd), ?_, ?_, ?_, fun _ d hd hout => absurd (hin d hd) hout⟩
  · intro hsat d hd
    rw [hwaiting.2 (List.ne_nil_of_mem hd)] at hsat
    cases hsat
  · intro hw
    obtain ⟨d, hd⟩ := List.exists_mem_of_ne_nil _ (hwaiting.1 hw.2)
    exact ⟨d, hd, .inl (hin d hd)⟩
  · intro _ d _ hd
    obtain ⟨job', hjob', hid⟩ := List.mem_map.1 hd
    exact ⟨job', hjob', hid, (harrive job' hjob').1⟩

-- == phases

/-- The dependents a transaction has still to release. -/
def LeftToRelease : Phase → Option (Scan JobId Slot) → JobId → Prop
  | .dependents _, none, _ => True
  | .dependents _, some scan, k => scan.todo k = true ∨ k ∈ scan.hits.map (·.1)
  | .release ids, none, k => k ∈ ids
  | .release _, some scan, k => scan.todo k = true
  | _, _, _ => False

/-- The dependents `k` of `d` a transaction has still to fail. -/
def LeftToFail : Phase → Option (Scan JobId Slot) → JobId → JobId → Prop
  | .workflowPending .., _, _, _ => True
  | .failing _ _ current toCheck _, none, d, _ => d = current ∨ d ∈ toCheck
  | .failing _ _ current toCheck _, some scan, d, k =>
      (d = current ∧ scan.todo k = true) ∨ d ∈ toCheck ∨ d ∈ scan.hits.map (·.1)
  | _, _, _, _ => False

/-- All rows the transaction wrote ended in failure. -/
def Ended (s : Tx) : Prop :=
  ∀ k slot, s.own k = some slot → ∃ row, slot.stored = some row ∧ row.status.EndedInFailure

/-- What holds in a phase. -/
def Facts (env : Env) (db : JobId → Slot) (s : Tx) : Phase → Prop
  | .enqueue .. | .lockJob .. | .archive .. => Untouched s
  | .archivedParents jobs _ locked =>
      Untouched s ∧ (∀ job ∈ jobs, job.Arrives) ∧ Locked db s locked
  | .insert jobs _ => Untouched s ∧ ∀ job ∈ jobs, Settled env db s jobs job
  | .dependencies job target _ =>
      Untouched s ∧ LockedJob db s job ∧ target.terminalStatus = none
  | .archivedDependencies job target _ locked =>
      Untouched s ∧ LockedJob db s job ∧ target.terminalStatus = none ∧ Locked db s locked
  | .write job status target _ _ =>
      Untouched s ∧ LockedJob db s job ∧
        (target.terminalStatus = none → Judged env db s job status) ∧
        (target.terminalStatus ≠ none → status = job.dependencyStatus)
  | .reschedule .. => False
  | .dependents job => ∀ k slot, s.own k = some slot → k = job.id ∧ slot.completed = true
  | .release ids =>
      (∀ k slot, s.own k = some slot → ¬ slot.Fails env) ∧
        (∀ k ∈ ids, s.held k = some .exclusive ∧ ∃ row, (db k).stored = some row ∧ Waits row) ∧
        (s.scan = none → ∀ k ∈ ids, s.own k = none) ∧
        ∀ scan, s.scan = some scan → ∀ k, scan.todo k = true → s.own k = none ∧ k ∈ ids ∧
          ∀ row, (db k).stored = some row → ∀ d ∈ row.dependsOn, (s.view db d).completed = true
  | .workflowPending job .. =>
      Ended s ∧ ∀ k slot, s.own k = some slot → slot.Fails env → k = job.id
  | .failing _ _ _ _ failed =>
      Ended s ∧ (∀ k ∈ failed, s.own k ≠ none) ∧
        ∀ scan, s.scan = some scan → ∀ e ∈ scan.hits, s.own e.1 ≠ none ∧ e.1 ∉ failed
  | .batchPending .. => Ended s
  | .move ids =>
      Untouched s ∧ ∀ k ∈ ids, s.held k = some .exclusive ∧ ∃ row, (db k).stored = some row ∧
        (row.status = .completed ∨ row.status.EndedInFailure)
  | .claim .. =>
      ∀ k slot, s.own k = some slot → ∃ row, slot.stored = some row ∧ row.status = .running
  | .finished | .erred => True

/-- The assertion about an open transaction. -/
structure Asserts (env : Env) (db : JobId → Slot) (s : Tx) : Prop where
  idle : (∀ stmt next, s.phase.request env ≠ .scan stmt next) → s.scan = none
  taking : ∀ stmt next, s.phase.request env = .scan stmt next →
    (∀ set, stmt.access ≠ .update set) → s.Taking db stmt
  writes : Writes env db s
  release : OwesRelease db s (LeftToRelease s.phase s.scan)
  fail : OwesFailure env db s (LeftToFail s.phase s.scan)
  facts : Facts env db s s.phase

theorem Asserts.facts_of (h : Asserts env db s) {phase : Phase} (hphase : s.phase = phase) :
    Facts env db s phase := hphase ▸ h.facts

/-- A transaction between statements that wrote nothing. -/
theorem Asserts.of_untouched (hs : Untouched s) (hscan : s.scan = none) {phase : Phase}
    (hphase : s.phase = phase) (hfacts : Facts env db s phase) : Asserts env db s where
  idle _ := hscan
  taking _ _ _ _ scan h := by
    rw [hscan] at h
    cases h
  writes := hs.writes
  release := hs.owesRelease _
  fail := hs.owesFailure _
  facts := hphase ▸ hfacts

-- == other commits

/-- The facts of a phase survive another transaction's commit. -/
theorem Facts.stable (hl : Later s db db') {phase : Phase}
    (h : Facts env db s phase) : Facts env db' s phase := by
  cases phase with
  | enqueue | lockJob | archive | dependents | workflowPending | failing | batchPending | claim
    | reschedule | finished | erred => exact h
  | archivedParents => exact ⟨h.1, h.2.1, h.2.2.later hl⟩
  | insert => exact ⟨h.1, fun job hjob => (h.2 job hjob).later hl⟩
  | dependencies => exact ⟨h.1, h.2.1.later hl, h.2.2⟩
  | archivedDependencies => exact ⟨h.1, h.2.1.later hl, h.2.2.1, h.2.2.2.later hl⟩
  | write => exact ⟨h.1, h.2.1.later hl, fun ht => (h.2.2.1 ht).later hl, h.2.2.2⟩
  | release ids =>
      obtain ⟨hspared, hids, hnone, hscan⟩ := h
      have hsame : ∀ k ∈ ids, db' k = db k := by
        intro k hk
        refine hl.held k ?_
        rw [(hids k hk).1]
        exact nofun
      refine ⟨hspared, fun k hk => ?_, hnone, fun scan hs k hk => ?_⟩
      · rw [hsame k hk]
        exact hids k hk
      · obtain ⟨hown, hmem, hall⟩ := hscan scan hs k hk
        refine ⟨hown, hmem, fun row hrow d hd => ?_⟩
        rw [hsame k hmem] at hrow
        exact hl.view_completed (hall row hrow d hd)
  | move ids =>
      refine ⟨h.1, fun k hk => ?_⟩
      rw [hl.held k (by rw [(h.2 k hk).1]; exact nofun)]
      exact h.2 k hk

/-- A transaction that commits has no debts. -/
theorem Asserts.finished (h : Asserts env db s) (hdone : s.Committing (Phase.request env)) :
    OwesRelease db s (fun _ => False) ∧ OwesFailure env db s fun _ _ => False := by
  have hphase : s.phase = .finished := by
    have hreq := hdone.1
    cases hp : s.phase with
    | finished => rfl
    | enqueue jobs now =>
        rw [hp] at hreq
        unfold Phase.request at hreq
        dsimp only at hreq
        split at hreq <;> cases hreq
    | _ => rw [hp] at hreq; cases hreq
  have hrelease := h.release
  have hfail := h.fail
  rw [hphase, hdone.2] at hrelease hfail
  exact ⟨hrelease, hfail⟩

/-- The assertion survives another transaction's commit. -/
theorem asserts_stable (hs : s.Guarded) (hguarded : other.Guarded) (hapart : Apart s other)
    (h : Asserts env db s) (hother : Asserts env db other)
    (hdone : other.Committing (Phase.request env)) : Asserts env (other.view db) s where
  idle := h.idle
  taking stmt next hreq hselect scan hscan :=
    (h.taking stmt next hreq hselect scan hscan).stable hapart hguarded
  writes := h.writes.stable hs (hother.writes.later hapart hguarded)
  release := h.release.stable hs hguarded hapart hother.writes (hother.finished hdone).1
  fail := h.fail.stable h.writes hs hguarded hapart hother.writes
  facts := h.facts.stable (hother.writes.later hapart hguarded)

end Postgres

end Hammerwork
