/-
Completing a run with its children.

`completeJobRunWithChildren` is meant to be one unit: either the run is
completed and every child is stored, or nothing is written. It checks
every child's dependency limits before it writes, but seals the children
one by one as it enqueues them, so a child that cannot be sealed leaves
those before it stored, with a parent that never completed.
`all_or_nothing` says when that does not happen.

A child depends on its parent. A parent that runs once completes in the
same call and is out of the child's way; a recurring parent is put back
to `Pending` instead, and a child that waits then waits for a completion
that never comes. `spawned_children_released` says when that does not
happen, and for how long it stays so.
-/
import Hammerwork.Proofs.Fresh
import Hammerwork.Laws.DependencySafety
import Hammerwork.Spawn

namespace Hammerwork

open TestStorage TestQueue

variable {s s' : TestStorage} {env : Env} {run job job' child : Job} {children : List Job}
variable {wall : DateTime} {k parent : JobId} {recorded : RecordedOutcome}

-- == the run's end

theorem recurring_of_rerunAt {cron : CronLibrary} {outcome : JobOutcome} {next : DateTime}
    (h : rerunAt cron s job outcome = some next) : job.recurring = true := by
  unfold rerunAt at h
  split at h
  · next hrec => exact (Bool.and_eq_true_iff.1 hrec).2
  · cases h

/-- How a current run's job is stored once the run was completed: done,
or put back to run at its next occurrence. -/
def EndsAs (cron : CronLibrary) (s : TestStorage) (job job' : Job) : Prop :=
  (rerunAt cron s job .completed = none ∧ completedJob job' = true ∧ job'.status = .completed) ∨
    ((rerunAt cron s job .completed).isSome ∧ job'.status = .pending)

/-- A job that waits although all its dependencies completed. -/
def WaitsForNothing (s : TestStorage) (k : JobId) : Prop :=
  s.isJob k (fun job => job.status = .pending && job.dependencyStatus = .waiting) = true ∧
    s.Ready k

/-- Completing a current run succeeds; jobs other than its own are at
most released, and no dependent of it waits for nothing. -/
theorem finish_completed_current {cron : CronLibrary} {result : Result (Option RecordedOutcome)}
    (hk : s.Keyed) (hcur : Current s run job) (h : Finish cron s run .completed wall result) :
    (∃ recorded, result.1 = .ok (some recorded)) ∧
      (∃ job', result.2.jobs.lookup run.id = some job' ∧ EndsAs cron s job job') ∧
      (∀ k, k ≠ run.id → result.2.jobs.lookup k = s.jobs.lookup k ∨
        (rerunAt cron s job .completed = none ∧
          result.2.jobs.lookup k = (s.jobs.lookup k).map (release s.clock))) ∧
      ∀ k, run.id ∈ result.2.dependenciesOf k → ¬ WaitsForNothing result.2 k := by
  have hsame : ∀ {job'}, Current s run job' → job' = job := fun h =>
    Option.some.inj (h.lookup.symm.trans hcur.lookup)
  cases h with
  | stale hstale =>
      rw [runIsCurrent_eq_true.2 ⟨job, hcur⟩] at hstale
      cases hstale
  | @completed _ _ s₁ hcur' hnext hr =>
      obtain rfl := hsame hcur'
      have hid := hk _ _ hcur.lookup
      have hk₁ : s₁.Keyed := hr.keyed hid hk
      have hrel := (resolveDependents_spec hk₁ run.id s.clock).1
      refine ⟨⟨_, rfl⟩, ?_, fun k hne => ?_, fun k hdep hwaits => ?_⟩
      · rcases hrel.lookup run.id with heq | heq <;> rw [hr.lookup_self] at heq
        · exact ⟨_, heq, .inl ⟨hnext, rfl, rfl⟩⟩
        · exact ⟨_, heq, .inl ⟨hnext, rfl, rfl⟩⟩
      · rcases hrel.lookup k with heq | heq <;> rw [hr.lookup_ne hne] at heq
        · exact .inl heq
        · exact .inr ⟨hnext, heq⟩
      · -- the resolution released it, or found it waiting for something
        obtain ⟨hjob, hready⟩ := hwaits
        obtain ⟨job', hlookup, hjob'⟩ := isJob_iff.1 hjob
        simp only [Bool.and_eq_true, decide_eq_true_eq] at hjob'
        by_cases hreleased : s₁.ReleasedBy run.id k
        · obtain ⟨job'', -, hlookup'⟩ := hrel.released k hreleased
          rw [hlookup] at hlookup'
          injection hlookup' with hlookup'
          rw [hlookup'] at hjob'
          unfold TestStorage.release at hjob'
          dsimp only at hjob'
          split at hjob'
          · cases hjob'.2
          · next hne => exact hne hjob'.2
        · refine hreleased ⟨isJob_iff.2 ⟨job', ?_, ?_⟩, ?_, fun d hd => ?_⟩
          · rw [← hrel.kept k hreleased]
            exact hlookup
          · unfold held
            simp [hjob'.1, hjob'.2]
          · rwa [hrel.dependenciesOf] at hdep
          · rw [← hrel.dependencyCompleted]
            exact hready d (by rwa [hrel.dependenciesOf])
  | rerun hcur' hnext hr =>
      obtain rfl := hsame hcur'
      refine ⟨⟨_, rfl⟩, ⟨_, hr.lookup_self, .inr ⟨by rw [hnext]; rfl, rfl⟩⟩, fun k hne => ?_,
        fun k hdep hwaits => ?_⟩
      · exact .inl (hr.lookup_ne hne)
      · obtain ⟨job', hlookup, hdone⟩ := dependencyCompleted_iff.1 (hwaits.2 run.id hdep)
        rw [hr.lookup_self] at hlookup
        injection hlookup with hlookup
        subst hlookup
        cases hdone
  | ended hends => cases hends
  | endedRerun hends => cases hends

/-- A call that gets past its checks: the children are enqueued, and
then the run is completed. -/
theorem completeJobRunWithChildren_eq (hlimits : validateDependencyLimits children = .ok ())
    (hcur : runIsCurrent s run = true) :
    completeJobRunWithChildren env s run children wall =
      match enqueueChildren env children s with
      | (.error e, s) => (.error e, s)
      | (.ok spawned, s) =>
          match finishJobRun env.cron s run .completed wall with
          | (.error e, s) => (.error e, s)
          | (.ok recorded, s) =>
              (.ok (recorded.map fun recorded => { recorded with spawned := spawned }), s) := by
  unfold completeJobRunWithChildren
  rw [hlimits, hcur]
  rfl

/-- New children leave the run current. -/
theorem Spawned.current (h : Spawned s children s')
    (hnew : ∀ child ∈ children, s.jobs.lookup child.id = none) (hcur : Current s run job) :
    Current s' run job := by
  refine ⟨?_, hcur.status, hcur.same⟩
  rw [h.old, hcur.lookup]
  intro hmem
  obtain ⟨child, hchild, hid⟩ := List.mem_map.1 hmem
  have := hnew child hchild
  rw [hid, hcur.lookup] at this
  cases this

/-- What a call that enqueued every child returns and leaves. -/
theorem completeJobRunWithChildren_spawned (hk : s.Keyed)
    (hlimits : validateDependencyLimits children = .ok ()) (hcur : Current s run job)
    (hnew : ∀ child ∈ children, s.jobs.lookup child.id = none) {spawned : List JobId}
    (hok : (enqueueChildren env children s).1 = .ok spawned) :
    ∃ u recorded, Spawned s children u ∧ u.clock = s.clock ∧ u.Keyed ∧
      (∀ child ∈ children, (u.jobs.lookup child.id).isSome) ∧
      (completeJobRunWithChildren env s run children wall).1
        = .ok (some { recorded with spawned := children.map (·.id) }) ∧
      Finish env.cron u run .completed wall
        (.ok (some recorded), (completeJobRunWithChildren env s run children wall).2) := by
  obtain ⟨rfl, hall⟩ := enqueueChildren_ok hok
  have hspawned := enqueueChildren_spawned env children s
  have hw : Writes (SpawnAllows children) s (enqueueChildren env children s).2 :=
    enqueueChildren_writes children s (fun c hc => .inl ⟨c, hc, rfl⟩) (.inr rfl)
  have hclock := hw.clock (by rintro (⟨_, _, h⟩ | h) <;> cases h)
  have hk' := hw.keyed hk
  rw [completeJobRunWithChildren_eq hlimits (runIsCurrent_eq_true.2 ⟨job, hcur⟩)]
  generalize enqueueChildren env children s = out at hok hall hspawned hclock hk' ⊢
  obtain ⟨result, u⟩ := out
  dsimp only at hok hall hspawned hclock hk'
  subst hok
  have hfinish := finishJobRun_spec env.cron u run .completed wall
  obtain ⟨⟨recorded, hrec⟩, -⟩ :=
    finish_completed_current hk' (hspawned.current hnew hcur) hfinish
  refine ⟨u, recorded, hspawned, hclock, hk', fun c hc => (hall c hc).2, ?_⟩
  dsimp only
  generalize finishJobRun env.cron u run .completed wall = out at hfinish hrec ⊢
  obtain ⟨result, s'⟩ := out
  dsimp only at hrec
  subst hrec
  exact ⟨rfl, hfinish⟩

-- == all or nothing

/-- The run was completed: its job is done, or recurring and put back to
run again. -/
def RunCompleted (s s' : TestStorage) (run : Job) : Prop :=
  ∃ job job', Current s run job ∧ s'.jobs.lookup run.id = some job' ∧
    (job'.status = .completed ∨ (job.recurring = true ∧ job'.status = .pending))

/-- Under every child's id a child is stored. -/
def EveryChildStored (s' : TestStorage) (children : List Job) : Prop :=
  ∀ child ∈ children, ∃ job, s'.jobs.lookup child.id = some job ∧
    ∃ given ∈ children, given.Keeps job

/-- The call completed the run and stored every child, or changed
nothing. -/
def AllOrNothing (s : TestStorage) (run : Job) (children : List Job)
    (result : Result (Option RecordedOutcome)) : Prop :=
  (∃ recorded, result.1 = .ok (some recorded) ∧ recorded.spawned = children.map (·.id) ∧
    RunCompleted s result.2 run ∧ EveryChildStored result.2 children) ∨
  (result.2 = s ∧ ∀ recorded, result.1 ≠ .ok (some recorded))

/-- Completing a run with new children is all or nothing iff it is
refused before anything is enqueued, every child can be sealed, or the
first one cannot. -/
theorem all_or_nothing (hk : s.Keyed)
    (hnew : ∀ child ∈ children, s.jobs.lookup child.id = none) :
    AllOrNothing s run children (completeJobRunWithChildren env s run children wall) ↔
      validateDependencyLimits children ≠ .ok () ∨ runIsCurrent s run = false ∨
        (∀ child ∈ children, env.encryption.Seals child) ∨
        ∃ first rest, children = first :: rest ∧ ¬ env.encryption.Seals first := by
  by_cases hlimits : validateDependencyLimits children = .ok ()
  case neg =>
    refine iff_of_true (.inr ?_) (.inl hlimits)
    unfold completeJobRunWithChildren
    cases hres : validateDependencyLimits children with
    | error e => exact ⟨rfl, fun _ h => by cases h⟩
    | ok => exact absurd hres hlimits
  cases hrun : runIsCurrent s run with
  | false =>
      refine iff_of_true (.inr ?_) (.inr (.inl rfl))
      unfold completeJobRunWithChildren
      rw [hlimits, hrun]
      exact ⟨rfl, fun _ h => by cases h⟩
  | true =>
      obtain ⟨job, hcur⟩ := runIsCurrent_eq_true.1 hrun
      have hvalid := validateDependencyLimits_ok hlimits
      by_cases hseals : ∀ child ∈ children, env.encryption.Seals child
      · refine iff_of_true (.inl ?_) (.inr (.inr (.inl hseals)))
        obtain ⟨spawned, hok⟩ := enqueueChildren_isOk s hvalid hseals
        obtain ⟨u, recorded, hspawned, -, hku, hstored, hres, hfinish⟩ :=
          completeJobRunWithChildren_spawned hk hlimits hcur hnew hok
        have hcur' := hspawned.current hnew hcur
        obtain ⟨-, ⟨job', hjob', hends⟩, hothers, -⟩ :=
          finish_completed_current hku hcur' hfinish
        refine ⟨_, hres, rfl, ⟨job, job', hcur, hjob', ?_⟩, fun child hchild => ?_⟩
        · rcases hends with ⟨-, -, hst⟩ | ⟨hnext, hst⟩
          · exact .inl hst
          · obtain ⟨next, hnext⟩ := Option.isSome_iff_exists.1 hnext
            exact .inr ⟨recurring_of_rerunAt hnext, hst⟩
        · obtain ⟨stored, hlookup⟩ := Option.isSome_iff_exists.1 (hstored child hchild)
          rcases hspawned.cases child.id stored hlookup with hold |
            ⟨given, hgiven, -, t, _, -, harrives⟩
          · rw [hnew child hchild] at hold
            cases hold
          · have hne : child.id ≠ run.id := fun heq => by
              have := hnew child hchild
              rw [heq, hcur.lookup] at this
              cases this
            rcases hothers child.id hne with heq | ⟨-, heq⟩ <;> rw [hlookup] at heq
            · exact ⟨stored, heq, given, hgiven, harrives.keeps⟩
            · exact ⟨_, heq, given, hgiven,
                harrives.keeps.trans ⟨rfl, rfl, rfl, rfl, rfl, rfl, rfl, rfl, rfl⟩⟩
      · cases children with
        | nil => exact absurd (fun c hc => by cases hc) hseals
        | cons first rest =>
            rw [completeJobRunWithChildren_eq hlimits hrun]
            by_cases hfirst : env.encryption.Seals first
            · -- the first child stays, and the call fails
              refine iff_of_false ?_ ?_
              · have hstays := enqueueChildren_first (hvalid first (List.mem_cons_self ..)) hfirst
                  rest s
                have hfail : ∀ spawned,
                    (enqueueChildren env (first :: rest) s).1 ≠ .ok spawned :=
                  fun spawned hok => hseals fun c hc => ((enqueueChildren_ok hok).2 c hc).1
                generalize enqueueChildren env (first :: rest) s = out at hstays hfail ⊢
                obtain ⟨result, u⟩ := out
                cases result with
                | ok spawned => exact absurd rfl (hfail spawned)
                | error e =>
                    rintro (⟨recorded, h, -⟩ | ⟨h, -⟩)
                    · cases h
                    · dsimp only at h hstays
                      rw [h, hnew first (List.mem_cons_self ..)] at hstays
                      cases hstays
              · rintro (h | h | h | ⟨_, _, heq, h⟩)
                · exact h hlimits
                · cases h
                · exact hseals h
                · injection heq with heq
                  exact h (heq ▸ hfirst)
            · refine iff_of_true (.inr ?_) (.inr (.inr (.inr ⟨first, rest, rfl, hfirst⟩)))
              obtain ⟨e, he⟩ := enqueueChildren_unsealed hfirst rest s
              rw [he]
              exact ⟨rfl, fun _ h => by cases h⟩

-- == on two children

/-- A job is enqueued and claimed. -/
def claimedParent : List Op := [.enqueue parentJob, .dequeue "mail" none 0 1]

/-- A child without dependencies of its own. -/
def plainChild : Job := Job.new 3 0 "mail" .null

/-- A child that asks for encryption. -/
def sealedChild : Job :=
  { Job.new 4 0 "mail" .null with
    encryptionConfig := some
      { algorithm := .aes256Gcm, compressionEnabled := false, keyId := none } }

theorem all_or_nothing_plainChild :
    AllOrNothing (Op.applyAll plainEnv claimedParent (TestStorage.new 0)) (parentJob.claimed 0)
      [plainChild] (completeJobRunWithChildren plainEnv
        (Op.applyAll plainEnv claimedParent (TestStorage.new 0)) (parentJob.claimed 0)
        [plainChild] 0) := by
  refine (all_or_nothing ?_ fun child hchild => ?_).2 (.inr (.inr (.inl fun child hchild => ?_)))
  · rw [← Op.trace_last]
    exact run_keyed _ rfl _ (le_refl _)
  · rw [List.mem_singleton.1 hchild]
    refine Option.isSome_eq_false_iff.1 ?_ |> Option.isNone_iff_eq_none.1
    rw [← isJob_stored]
    decide +kernel
  · rw [List.mem_singleton.1 hchild]
    exact ⟨plainChild, rfl⟩

/-- A child that cannot be sealed leaves the one before it enqueued and
the run unfinished. -/
theorem sealedChild_strands_plainChild : ∃ s, Reachable plainEnv s ∧
    ¬ AllOrNothing s (parentJob.claimed 0) [plainChild, sealedChild]
      (completeJobRunWithChildren plainEnv s (parentJob.claimed 0)
        [plainChild, sealedChild] 0) := by
  refine ⟨_, reachable_applyAll plainEnv claimedParent 0, ?_⟩
  generalize hs : Op.applyAll plainEnv claimedParent (TestStorage.new 0) = s
  generalize hout : completeJobRunWithChildren plainEnv s (parentJob.claimed 0)
    [plainChild, sealedChild] 0 = out
  have hold : s.isJob 3 (fun _ => true) = false := by
    rw [← hs]
    decide +kernel
  have hnew : out.2.isJob 3 (fun _ => true) = true := by
    rw [← hout, ← hs]
    decide +kernel
  have hfail : out.1.isOk = false := by
    rw [← hout, ← hs]
    decide +kernel
  rintro (⟨recorded, h, -⟩ | ⟨h, -⟩)
  · rw [h] at hfail
    cases hfail
  · rw [h, hold] at hnew
    cases hnew

-- == children are released

/-- A job that no dependency holds back. -/
def Job.Unhindered (job : Job) : Prop :=
  job.dependencyStatus = .none ∨ job.dependencyStatus = .satisfied

/-- The job `k` is not held back by its dependency on `parent`. -/
def ReleasedFrom (s : TestStorage) (parent k : JobId) : Prop :=
  s.dependencyCompleted parent = true ∨
    ∀ job, s.jobs.lookup k = some job → job.Unhindered

/-- A child of a running parent arrives held back iff it came so. -/
theorem ArrivedIn.unhindered {ids : List JobId} {p : Job} (h : ArrivedIn s ids child job)
    (hparent : s.jobs.lookup parent = some p) (hrun : p.status = .running)
    (hout : parent ∉ ids) (hin : child.id ∈ ids) (hdep : parent ∈ child.dependsOn) :
    job.Unhindered ↔ child.Unhindered := by
  obtain ⟨t, stored, ht, harrives⟩ := h
  unfold Job.Unhindered
  cases harrives.settled with
  | unchanged _ hst => rw [hst]
  | satisfied _ _ hall =>
      -- the parent is still running
      have hstate := hall parent hdep
      have hne : child.id ≠ parent := fun heq => hout (heq ▸ hin)
      unfold arrivalState at hstate
      simp only [List.reverse_singleton, List.find?_singleton, hne, decide_false,
        Bool.false_eq_true, if_false, ht parent hout, hparent, Option.map_some,
        Option.getD_some, parentState, hrun] at hstate
      cases hstate
  | failed _ hw _ _ _ hst =>
      rw [hst, hw]
      simp

/-- The parent runs again and a child came waiting. -/
def KeptWaiting (env : Env) (s : TestStorage) (run : Job) (children : List Job) : Prop :=
  (∃ job, Current s run job ∧ (rerunAt env.cron s job .completed).isSome) ∧
    ∃ child ∈ children, ¬ child.Unhindered

/-- A call that recorded the run got past its checks and enqueued every
child. -/
theorem completeJobRunWithChildren_recorded
    (h : (completeJobRunWithChildren env s run children wall).1 = .ok (some recorded)) :
    validateDependencyLimits children = .ok () ∧ (∃ job, Current s run job) ∧
      ∃ spawned, (enqueueChildren env children s).1 = .ok spawned := by
  cases hlimits : validateDependencyLimits children with
  | error e =>
      unfold completeJobRunWithChildren at h
      rw [hlimits] at h
      cases h
  | ok =>
      cases hcur : runIsCurrent s run with
      | false =>
          unfold completeJobRunWithChildren at h
          rw [hlimits, hcur] at h
          cases h
      | true =>
          refine ⟨rfl, runIsCurrent_eq_true.1 hcur, ?_⟩
          rw [completeJobRunWithChildren_eq hlimits hcur] at h
          generalize enqueueChildren env children s = out at h ⊢
          obtain ⟨result, u⟩ := out
          cases result with
          | error e => cases h
          | ok spawned => exact ⟨spawned, rfl⟩

/-- After the call no child waits for nothing, and none is held back by
its parent, unless the call keeps it waiting. -/
theorem completeJobRunWithChildren_releases (hk : s.Keyed)
    (hnew : ∀ child ∈ children, s.jobs.lookup child.id = none)
    (hnd : (children.map (·.id)).Nodup) (hdeps : ∀ child ∈ children, run.id ∈ child.dependsOn)
    (h : (completeJobRunWithChildren env s run children wall).1 = .ok (some recorded)) :
    ((∀ child ∈ children, ReleasedFrom
        (completeJobRunWithChildren env s run children wall).2 run.id child.id) ↔
      ¬ KeptWaiting env s run children) ∧
    ∀ child ∈ children, ¬ WaitsForNothing
      (completeJobRunWithChildren env s run children wall).2 child.id := by
  obtain ⟨hlimits, ⟨job, hcur⟩, spawned, hok⟩ := completeJobRunWithChildren_recorded h
  obtain ⟨u, recorded', hspawned, hclock, hku, hstored, -, hfinish⟩ :=
    completeJobRunWithChildren_spawned hk hlimits hcur hnew hok
  generalize (completeJobRunWithChildren env s run children wall).2 = s' at hfinish ⊢
  have hcur' := hspawned.current hnew hcur
  obtain ⟨-, ⟨job', hjob', hends⟩, hothers, hwaits⟩ :=
    finish_completed_current hku hcur' hfinish
  have hrerun : rerunAt env.cron u job .completed = rerunAt env.cron s job .completed := by
    unfold rerunAt
    rw [hclock]
  have hout : run.id ∉ children.map (·.id) := by
    intro hmem
    obtain ⟨child, hchild, hid⟩ := List.mem_map.1 hmem
    have := hnew child hchild
    rw [hid, hcur.lookup] at this
    cases this
  have hne : ∀ child ∈ children, child.id ≠ run.id :=
    fun child hchild heq => hout (List.mem_map.2 ⟨child, hchild, heq⟩)
  -- how each child arrived
  have harrived : ∀ child ∈ children, ∃ stored, u.jobs.lookup child.id = some stored ∧
      child.Keeps stored ∧ (stored.Unhindered ↔ child.Unhindered) := by
    intro child hchild
    obtain ⟨stored, hlookup⟩ := Option.isSome_iff_exists.1 (hstored child hchild)
    refine ⟨stored, hlookup, ?_⟩
    rcases hspawned.cases child.id stored hlookup with hold | ⟨given, hgiven, hid, hin⟩
    · rw [hnew child hchild] at hold
      cases hold
    · obtain rfl := List.inj_on_of_nodup_map hnd hgiven hchild hid
      refine ⟨?_, hin.unhindered hcur.lookup hcur.status hout
        (List.mem_map.2 ⟨_, hgiven, rfl⟩) (hdeps _ hgiven)⟩
      obtain ⟨_, _, -, harrives⟩ := hin
      exact harrives.keeps
  refine ⟨⟨?_, ?_⟩, fun child hchild => ?_⟩
  · rintro hreleased ⟨⟨job₀, hcur₀, hsome⟩, child, hchild, hhindered⟩
    obtain rfl : job₀ = job := Option.some.inj (hcur₀.lookup.symm.trans hcur.lookup)
    rw [← hrerun] at hsome
    obtain ⟨next, hnext⟩ := Option.isSome_iff_exists.1 hsome
    obtain ⟨stored, hlookup, -, hiff⟩ := harrived child hchild
    rcases hreleased child hchild with hdone | hun
    · obtain ⟨job'', hlookup'', hdone⟩ := dependencyCompleted_iff.1 hdone
      obtain rfl : job'' = job' := Option.some.inj (hlookup''.symm.trans hjob')
      rcases hends with ⟨hnone, -, -⟩ | ⟨-, hst⟩
      · rw [hnext] at hnone
        cases hnone
      · rcases status_of_completedJob hdone with h | h <;> rw [hst] at h <;> cases h
    · rcases hothers child.id (hne child hchild) with heq | ⟨hnone, -⟩
      · exact hhindered (hiff.1 (hun stored (heq.trans hlookup)))
      · rw [hnext] at hnone
        cases hnone
  · intro hkept child hchild
    rcases hends with ⟨-, hdone, -⟩ | ⟨hsome, -⟩
    · exact .inl (dependencyCompleted_iff.2 ⟨job', hjob', hdone⟩)
    · refine .inr fun stored hstored => ?_
      obtain ⟨stored', hlookup, -, hiff⟩ := harrived child hchild
      rcases hothers child.id (hne child hchild) with heq | ⟨hnone, -⟩
      · obtain rfl : stored' = stored :=
          Option.some.inj (hlookup.symm.trans (heq.symm.trans hstored))
        refine hiff.2 (Classical.byContradiction fun hhindered => hkept ?_)
        exact ⟨⟨job, hcur, hrerun ▸ hsome⟩, child, hchild, hhindered⟩
      · rw [hnone] at hsome
        cases hsome
  · refine hwaits child.id (mem_dependenciesOf.2 (.inl ?_))
    obtain ⟨stored, hlookup, hkeeps, -⟩ := harrived child hchild
    have hdep : run.id ∈ stored.dependsOn := hkeeps.dependsOn ▸ hdeps child hchild
    rcases hothers child.id (hne child hchild) with heq | ⟨-, heq⟩ <;> rw [heq, hlookup]
    · exact hdep
    · exact hdep

-- == afterwards

/-- The operations that put the job `k` back by re-evaluating its
dependencies. -/
def Op.PutsBack (k : JobId) : Op → Prop
  | retryJob id _ | restoreArchivedJob id => id = k
  | finishJobRun run outcome _ => run.id = k ∧ outcome.terminalStatus = none
  | _ => False

/-- The operations that take a completed job `k` back to `Pending`. -/
def Op.Reopens (k : JobId) : Op → Prop
  | restoreArchivedJob id | enableRecurringJob id => id = k
  | _ => False

/-- The step takes the completed parent away while a child is held back,
or puts a child back while the parent has not completed. -/
def TakesBack (env : Env) (s : TestStorage) (parent : JobId) (children : List Job) :
    Event → Prop
  | .rehash => False
  | .call op => (op.apply env s).2 ≠ s ∧
      ((s.dependencyCompleted parent = true ∧
          (op.Reopens parent ∨ (op.apply env s).2.jobs.lookup parent = none) ∧
          ∃ child ∈ children, ∃ job, s.jobs.lookup child.id = some job ∧ ¬ job.Unhindered) ∨
        (s.dependencyCompleted parent = false ∧ ∃ child ∈ children, op.PutsBack child.id ∧
          ∃ job, s.jobs.lookup child.id = some job ∧ job.dependencyStatus = .none))

theorem Op.Allows.putsBack {op : Op} (h : op.Allows env s (.deed (.retry k)) ∨
    op.Allows env s (.deed (.restore k))) : op.PutsBack k := by
  rcases h with h | h
  all_goals
    cases op <;> simp_all [Op.Allows, FinishAllows, ReclaimAllows, Op.PutsBack,
      JobOutcome.terminalStatus]

/-- Nothing but putting a job back changes a dependency status other
than `Waiting`. -/
theorem Change.dependencyStatus {d : Deed} (h : Change s d k job job')
    (hd : d ≠ .retry k ∧ d ≠ .restore k) (hnot : job.dependencyStatus ≠ .waiting) :
    job'.dependencyStatus = job.dependencyStatus := by
  cases h with
  | retry => exact absurd rfl hd.1
  | restore => exact absurd rfl hd.2
  | fallout | cancel | resolve => exact if_neg hnot
  | _ => rfl

/-- A job that is not held back stays so, unless it has no dependency
status and is put back. -/
theorem Op.unhindered {op : Op} (hk : s.Keyed)
    (hinsert : ∀ given, op.Allows env s (.insert given) → ∀ job ∈ given, job.id ≠ k)
    (hput : op.PutsBack k → ∀ job, s.jobs.lookup k = some job → job.dependencyStatus ≠ .none)
    (hun : ∀ job, s.jobs.lookup k = some job → job.Unhindered) :
    ∀ job, (op.apply env s).2.jobs.lookup k = some job → job.Unhindered := by
  have hw : Writes (op.Allows env s) s (op.apply env s).2 := Op.writes hk op
  have hrecords := hw.records
    (P := fun id job => id = k →
      job.Unhindered ∧ (op.PutsBack k → job.dependencyStatus = .satisfied))
    (fun t d id job job' hallowed _ hchange hjob hid => ?_)
    (fun t given stored job hallowed harr hmem hid => ?_)
    (fun id job hlookup hid => ?_)
  · exact fun job hlookup => (hrecords k job hlookup rfl).1
  · subst hid
    obtain ⟨hjob, hsat⟩ := hjob rfl
    by_cases hd : d ≠ .retry id ∧ d ≠ .restore id
    · have hnot : job.dependencyStatus ≠ .waiting := by
        rcases hjob with h | h <;> rw [h] <;> decide
      have heq := hchange.dependencyStatus hd hnot
      unfold Job.Unhindered
      rw [heq]
      exact ⟨hjob, hsat⟩
    · -- put back with satisfied dependencies, it keeps them
      have hput' : op.PutsBack id := by
        rw [not_and_or, not_not, not_not] at hd
        rcases hd with rfl | rfl
        · exact Op.Allows.putsBack (.inl hallowed)
        · exact Op.Allows.putsBack (.inr hallowed)
      have hkept : ∀ {action dep}, reevaluated t job action = .ok dep →
          dep.getD job.dependencyStatus = .satisfied := by
        intro action dep hdep
        rcases reevaluated_ok hdep with ⟨-, rfl⟩ | ⟨-, status, rfl, ⟨rfl, -⟩ | ⟨-, hnot⟩⟩
        · exact hsat hput'
        · rfl
        · exact absurd (hsat hput') hnot
      have hsat' : job'.dependencyStatus = .satisfied := by
        rw [not_and_or, not_not, not_not] at hd
        rcases hd with rfl | rfl <;> cases hchange
        · next hdep => exact hkept hdep
        · next hdep => exact hkept hdep
      exact ⟨.inr hsat', fun _ => hsat'⟩
  · obtain ⟨job', hjob', harrives⟩ := mem_of_forall₂ harr.each hmem
    exact absurd (harrives.keeps.id.symm.trans hid) (hinsert given hallowed job' hjob')
  · subst hid
    refine ⟨hun job hlookup, fun hput' => ?_⟩
    rcases hun job hlookup with h | h
    · exact absurd h (hput hput' job hlookup)
    · exact h

/-- A delete leaves a job as it is or removes it. -/
theorem Op.deletes_lookup {op : Op} (hk : s.Keyed) (hop : op.Deletes) (k : JobId) :
    (op.apply env s).2.jobs.lookup k = s.jobs.lookup k ∨
      (op.apply env s).2.jobs.lookup k = none := by
  have hops : Writes (op.Allows env s) s (op.apply env s).2 := Op.writes hk op
  have hw : Writes (fun w => w = .delete ∨ w = .other) s (op.apply env s).2 :=
    hops.mono fun w hw => by
      cases op <;> first | exact hw | cases hop
  refine hw.preserves (P := fun t => t.jobs.lookup k = s.jobs.lookup k ∨
    t.jobs.lookup k = none) (fun t w t' hallowed hwrite ih => ?_) (.inl rfl)
  rcases hallowed with rfl | rfl
  · cases hwrite with
    | delete h =>
        rcases h k with heq | hnone
        · rwa [heq]
        · exact .inr hnone
  · cases hwrite with
    | other h => rwa [h]

/-- Other steps remove no job. -/
theorem Op.stored_stays {op : Op} (hk : s.Keyed) (hop : ¬ (Event.call op).Deletes)
    (hlookup : s.jobs.lookup k = some job) : ((op.apply env s).2.jobs.lookup k).isSome := by
  have hw : Writes (op.Allows env s) s (op.apply env s).2 := Op.writes hk op
  refine hw.preserves (P := fun t => (t.jobs.lookup k).isSome)
    (fun t w t' hallowed hwrite ih => ?_) (by rw [hlookup]; rfl)
  obtain ⟨job', hjob'⟩ := Option.isSome_iff_exists.1 ih
  rcases hwrite.lookup_fate hjob' with h | ⟨_, _, -, h, -⟩ | ⟨_, _, _, -, -, -, -, h⟩ | ⟨rfl, -⟩
  · rw [h]; rfl
  · rw [h]; rfl
  · rw [h]; rfl
  · exact absurd hallowed (Event.not_allows_delete hop)

/-- A completed job stays so in a step that neither takes it back nor
removes it. -/
theorem Op.stays_completed {op : Op} (hk : s.Keyed) (hco : s.Coherent)
    (hfresh : (Event.call op).Fresh s) (hd : s.dependencyCompleted k = true)
    (hre : ¬ op.Reopens k) (hstored : (op.apply env s).2.jobs.lookup k ≠ none) :
    (op.apply env s).2.dependencyCompleted k = true := by
  obtain ⟨job, hlookup, hjob⟩ := dependencyCompleted_iff.1 hd
  by_cases hdel : op.Deletes
  · rcases Op.deletes_lookup hk hdel k with heq | hnone
    · exact dependencyCompleted_iff.2 ⟨job, heq.trans hlookup, hjob⟩
    · exact absurd hnone hstored
  · have hw : Writes (op.Allows env s) s (op.apply env s).2 := Op.writes hk op
    refine hw.preserves (P := fun t => t.dependencyCompleted k = true)
      (fun t w t' hallowed hwrite ih => hwrite.not_reopens (fun hw => ?_) ih) hd
    cases w with
    | insert given =>
        obtain ⟨job', hmem, hid⟩ := hw
        exact hfresh.not_inserted hlookup hallowed job' hmem hid
    | delete =>
        have hcall : ¬ (Event.call op).Deletes := hdel
        exact Event.not_allows_delete hcall hallowed
    | other => exact hw
    | tick => exact hw
    | deed d =>
        cases d <;> try exact hw
        case claim id =>
          obtain rfl : id = k := hw
          cases op <;> simp only [Op.Allows, FinishAllows, ReclaimAllows,
            WriteKind.deed.injEq, Deed.claim.injEq, reduceCtorEq, or_self, and_false,
            exists_false] at hallowed
          obtain ⟨id, hid, rfl⟩ := hallowed
          obtain ⟨job', hlookup', hst, -⟩ := claimed_pending hk hco hid
          obtain rfl := Option.some.inj (hlookup'.symm.trans hlookup)
          rcases status_of_completedJob hjob with h | h <;> rw [hst] at h <;> cases h
        case restore id =>
          obtain rfl : id = k := hw
          cases op <;> simp_all [Op.Allows, FinishAllows, ReclaimAllows, Op.Reopens]
        case enable id =>
          obtain rfl : id = k := hw
          cases op <;> simp_all [Op.Allows, FinishAllows, ReclaimAllows, Op.Reopens]

/-- A step that takes nothing back leaves the children as free of their
parent as it finds them. -/
theorem Op.released {op : Op} (hk : s.Keyed) (hco : s.Coherent)
    (hfresh : (Event.call op).Fresh s) (hout : parent ∉ children.map (·.id))
    (hother : ∀ given ∈ op.enqueued, given.id ∉ children.map (·.id))
    (hback : ¬ TakesBack env s parent children (.call op))
    (h : ∀ child ∈ children, ReleasedFrom s parent child.id) :
    ∀ child ∈ children, ReleasedFrom (op.apply env s).2 parent child.id := by
  by_cases hsame : (op.apply env s).2 = s
  · rwa [hsame]
  intro child hchild
  have hinsert : ∀ given, op.Allows env s (.insert given) → ∀ job ∈ given, job.id ≠ child.id := by
    intro given hallowed job hjob heq
    obtain ⟨job₀, hjob₀, hreq⟩ := Op.Allows.insert hallowed job hjob
    exact hother job₀ hjob₀ (List.mem_map.2 ⟨child, hchild, (hreq.id ▸ heq).symm⟩)
  by_cases hd : s.dependencyCompleted parent = true
  · by_cases haway : op.Reopens parent ∨ (op.apply env s).2.jobs.lookup parent = none
    · -- then no child is held back, and this step puts none back
      refine .inr (Op.unhindered hk hinsert (fun hput => ?_) fun job hlookup => ?_)
      · exfalso
        rcases haway with hre | hnone
        · have heq : parent = child.id := by
            cases op <;> simp_all [Op.PutsBack, Op.Reopens]
          exact hout (List.mem_map.2 ⟨child, hchild, heq.symm⟩)
        · have hdel : ¬ (Event.call op).Deletes := by
            cases op <;> first | exact hput.elim | exact id
          obtain ⟨job, hlookup, -⟩ := dependencyCompleted_iff.1 hd
          have hstays : ((op.apply env s).2.jobs.lookup parent).isSome :=
            Op.stored_stays hk hdel hlookup
          rw [hnone] at hstays
          cases hstays
      · by_contra hhindered
        exact hback ⟨hsame, .inl ⟨hd, haway, child, hchild, job, hlookup, hhindered⟩⟩
    · rw [not_or] at haway
      exact .inl (Op.stays_completed hk hco hfresh hd haway.1 haway.2)
  · refine .inr (Op.unhindered hk hinsert (fun hput job hlookup hnone => ?_) ?_)
    · exact hback ⟨hsame, .inr ⟨by simpa using hd, child, hchild, hput, job, hlookup, hnone⟩⟩
    · exact (h child hchild).resolve_left hd

-- == the law

/-- After a recorded run no child it spawned waits for nothing; none is
held back by its parent iff none came waiting on a parent that runs
again; and that stays so until a later step takes the completed parent
away from a child held back, or puts a child back while the parent has
not completed. -/
theorem spawned_children_released {n : Nat} (r : Run (Step env) n) {clock : DateTime}
    (h0 : r.state 0 = TestStorage.new clock) (hnew : NewIds r) {i : Nat} (hi : i < n)
    {manager : SpawnManager} {config : SpawnConfig} {job : Job} (hid : job.id = run.id)
    (hprep : manager.prepareSpawn job config = .ok (some children))
    (hcall : r.event i = .call (.completeJobRunWithChildren run children wall))
    (hreply : (r.event i).reply env (r.state i) = some (.recorded (some recorded))) :
    (∀ child ∈ children, ¬ WaitsForNothing (r.state (i + 1)) child.id) ∧
    ((∀ child ∈ children, ReleasedFrom (r.state (i + 1)) run.id child.id) ↔
      ¬ KeptWaiting env (r.state i) run children) ∧
    (¬ KeptWaiting env (r.state i) run children →
      ∀ j, i < j → j ≤ n →
        (∀ m, i < m → m < j → ¬ TakesBack env (r.state m) run.id children (r.event m)) →
        ∀ child ∈ children, ReleasedFrom (r.state j) run.id child.id) := by
  have hkeyed := run_keyed r h0
  have hfresh := hnew.fresh h0
  have hchildren : (r.event i).enqueued = children := by rw [hcall]; rfl
  have hfree := hfresh i hi
  have hnone := hfree.new
  have hnd := hfree.distinct
  rw [hchildren] at hnone hnd
  have hdeps : ∀ child ∈ children, run.id ∈ child.dependsOn :=
    hid ▸ SpawnManager.prepareSpawn_dependsOn hprep
  have hstate : r.state (i + 1)
      = (completeJobRunWithChildren env (r.state i) run children wall).2 := by
    have hstep := r.next i hi
    rw [hcall] at hstep
    generalize r.state (i + 1) = t at hstep ⊢
    cases hstep
    exact reply_snd _ _
  have hdone : ∃ recorded', (completeJobRunWithChildren env (r.state i) run children wall).1
      = .ok (some recorded') := by
    rw [hcall] at hreply
    simp only [Event.reply, Op.apply] at hreply
    generalize completeJobRunWithChildren env (r.state i) run children wall = out at hreply ⊢
    obtain ⟨result, t⟩ := out
    cases result with
    | error e => cases hreply
    | ok recorded' =>
        simp only [Result.reply, Option.some.injEq, Reply.recorded.injEq] at hreply
        exact ⟨recorded, by rw [hreply]⟩
  obtain ⟨recorded', hdone⟩ := hdone
  obtain ⟨hiff, hwaits⟩ := completeJobRunWithChildren_releases (hkeyed i (by omega)) hnone hnd
    hdeps hdone
  rw [← hstate] at hiff hwaits
  refine ⟨hwaits, hiff, fun hkept j hij hj hback => ?_⟩
  obtain ⟨-, ⟨job₀, hcur⟩, -⟩ := completeJobRunWithChildren_recorded hdone
  have hout : run.id ∉ children.map (·.id) := by
    intro hmem
    obtain ⟨child, hchild, heq⟩ := List.mem_map.1 hmem
    have := hnone child hchild
    rw [heq, hcur.lookup] at this
    cases this
  -- by induction on the steps since the call
  induction j, hij using Nat.le_induction with
  | base => exact hiff.2 hkept
  | succ j hij ih =>
      have hP := ih (by omega) fun m hm hmj => hback m hm (by omega)
      have hstep := r.next j (by omega)
      have hnotback := hback j hij (by omega)
      have hfreshj := hfresh j (by omega)
      have hotherj : ∀ given ∈ (r.event j).enqueued, given.id ∉ children.map (·.id) := by
        intro given hgiven hmem
        obtain ⟨child, hchild, heq⟩ := List.mem_map.1 hmem
        exact hnew.across i j hij (by omega) child (hchildren ▸ hchild) given hgiven heq
      have hkj := hkeyed j (by omega)
      have hcoj := run_coherent r h0 hfresh j (by omega)
      generalize r.event j = e at hstep hnotback hfreshj hotherj
      generalize r.state j = t at hstep hnotback hfreshj hP hkj hcoj
      generalize r.state (j + 1) = t' at hstep ⊢
      cases hstep with
      | call op => exact Op.released hkj hcoj hfreshj hout hotherj hnotback hP
      | rehash h =>
          intro child hchild
          have hjobs := fun k => (h.jobs.lookup_congr k).symm
          unfold ReleasedFrom dependencyCompleted isJob
          rw [hjobs, hjobs]
          exact hP child hchild

-- == on a nightly parent

/-- A manager whose jobs in "mail" spawn `made`. -/
def spawning (made : List Job) : SpawnManager :=
  (∅ : SpawnManager).insert "mail"
    { validateSpawn := fun _ _ => .ok (), spawnJobs := fun _ _ => .ok made }

theorem prepareSpawn_spawning {job : Job} (hqueue : job.queueName = "mail") (made : List Job)
    (hlength : made.length ≤ 100) : (spawning made).prepareSpawn job .default
      = .ok (some (made.map (SpawnManager.prepareChild job .default))) := by
  unfold SpawnManager.prepareSpawn spawning
  rw [hqueue, AList.lookup_insert]
  simp [SpawnConfig.default, bind, Except.bind, pure, Except.pure, hlength]

/-- The child a claimed job hands on. -/
def spawnedChild : Job := SpawnManager.prepareChild (parentJob.claimed 0) .default plainChild

/-- A claimed job that completes and spawns one child. -/
def spawnsOne : List Op :=
  claimedParent ++ [.completeJobRunWithChildren (parentJob.claimed 0) [spawnedChild] 0]

/-- A run was recorded by this call. -/
def recordsRun : Option Reply → Bool
  | some (.recorded (some _)) => true
  | _ => false

/-- Its child is free of it. -/
theorem spawned_children_released_one :
    ReleasedFrom ((Op.trace plainEnv spawnsOne (TestStorage.new 0)).state 3) 1 3 := by
  have hreply : ∃ recorded, ((Op.trace plainEnv spawnsOne (TestStorage.new 0)).event 2).reply
      plainEnv ((Op.trace plainEnv spawnsOne (TestStorage.new 0)).state 2)
        = some (.recorded (some recorded)) := by
    have h : recordsRun (((Op.trace plainEnv spawnsOne (TestStorage.new 0)).event 2).reply
        plainEnv ((Op.trace plainEnv spawnsOne (TestStorage.new 0)).state 2)) = true := by
      decide +kernel
    unfold recordsRun at h
    split at h
    · next recorded heq => exact ⟨recorded, heq⟩
    · cases h
  obtain ⟨recorded, hreply⟩ := hreply
  have hnew : NewIds (Op.trace plainEnv spawnsOne (TestStorage.new 0)) := by
    refine ⟨fun i hi => ?_, fun i j hij hj job hjob job' hjob' => ?_⟩
    · have hi : i < 3 := hi
      obtain rfl | rfl | rfl : i = 0 ∨ i = 1 ∨ i = 2 := by omega
      all_goals decide +kernel
    · have hj : j < 3 := hj
      obtain ⟨rfl, rfl⟩ | ⟨rfl, rfl⟩ | ⟨rfl, rfl⟩ :
          (i = 0 ∧ j = 1) ∨ (i = 0 ∧ j = 2) ∨ (i = 1 ∧ j = 2) := by omega
      · cases hjob'
      · rw [List.mem_singleton.1 hjob, List.mem_singleton.1 hjob']
        decide
      · cases hjob
  refine (spawned_children_released (Op.trace plainEnv spawnsOne (TestStorage.new 0)) rfl hnew
    (by decide) rfl (prepareSpawn_spawning rfl [plainChild] (by decide)) rfl hreply).2.1.2 ?_
    spawnedChild (List.mem_singleton_self _)
  rintro ⟨-, child, hchild, hhindered⟩
  rw [List.mem_singleton.1 hchild] at hhindered
  exact hhindered (.inl rfl)

/-- A nightly job is claimed at midnight. -/
def nightlyRun : List Op :=
  [.enqueueCronJob { parentJob with cronSchedule := some "0 0 0 * * *" },
    .setTime 86400000000000, .dequeue "mail" none 0 1]

/-- A run was recorded, and job 3 waits for it nevertheless. -/
def keepsWaiting : Result (Option RecordedOutcome) → Bool
  | (.ok (some _), s) => s.isJob 3 (fun job =>
      job.status = .pending && job.dependencyStatus = .waiting) && !s.dependencyCompleted 1
  | _ => false

/-- A child told to wait for a nightly job still waits for it after the
run was recorded. -/
theorem nightly_parent_keeps_waiting : ∃ s run children, Reachable plainEnv s ∧
    s.jobs.lookup 1 = some run ∧
    (spawning [plainChild.addDependsOn 1]).prepareSpawn run .default = .ok (some children) ∧
    (∃ recorded, (completeJobRunWithChildren plainEnv s run children 0).1
      = .ok (some recorded)) ∧
    ∃ child ∈ children, ∃ job,
      (completeJobRunWithChildren plainEnv s run children 0).2.jobs.lookup child.id = some job ∧
        job.status = .pending ∧ job.dependencyStatus = .waiting ∧
      (completeJobRunWithChildren plainEnv s run children 0).2.dependencyCompleted 1 = false := by
  generalize hs : Op.applyAll plainEnv nightlyRun (TestStorage.new 0) = s
  have h : (s.jobs.lookup 1).any (fun run => run.queueName = "mail" &&
      keepsWaiting (completeJobRunWithChildren plainEnv s run
        [SpawnManager.prepareChild run .default (plainChild.addDependsOn 1)] 0)) = true := by
    rw [← hs]
    decide +kernel
  cases hrun : s.jobs.lookup 1 with
  | none =>
      rw [hrun] at h
      cases h
  | some run =>
      rw [hrun, Option.any_some, Bool.and_eq_true, decide_eq_true_eq] at h
      refine ⟨s, run, _, hs ▸ reachable_applyAll plainEnv nightlyRun 0, hrun,
        prepareSpawn_spawning h.1 _ (by decide), ?_⟩
      rw [List.map_cons, List.map_nil]
      replace h := h.2
      unfold keepsWaiting at h
      split at h
      · next recorded s' heq =>
        rw [heq]
        rw [Bool.and_eq_true] at h
        obtain ⟨job, hlookup, hjob⟩ := isJob_iff.1 h.1
        simp only [Bool.and_eq_true, decide_eq_true_eq] at hjob
        exact ⟨⟨recorded, rfl⟩, _, List.mem_singleton_self _, job, hlookup, hjob.1, hjob.2,
          by simpa using h.2⟩
      · cases h

end Hammerwork
