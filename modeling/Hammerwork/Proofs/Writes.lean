/-
The writes an operation is made of.

An operation, however many lock sections it has, is a chain of writes,
and there are few kinds: a deed is done to stored jobs (`Deed`), jobs
are inserted, jobs are deleted, the clock is set, or something else than
jobs is written. `Change s d k job job'` lists what a deed does to one
record and from which records it may start; it is the only place where
that is written down, and every invariant about records is a case
analysis of it.

A deed may touch one job (`claim`, `complete`, ...) or many (`fallout`,
`resolve`, ...); either way it changes records one by one, each as
`Change` says, and leaves everything but jobs, index and leases alone
(`Changed`).
-/
import Hammerwork.Proofs.Enqueue
import Hammerwork.Proofs.Failure
import Hammerwork.Proofs.Release

namespace Hammerwork

open TestStorage TestQueue

-- == deeds

/-- What can be done to stored jobs. -/
inductive Deed where
  | claim (id : JobId)
  | start (id : JobId)
  | release (id : JobId)
  | complete (id : JobId)
  | fail (id : JobId)
  | finish (id : JobId)
  | retry (id : JobId)
  | runError (id : JobId)
  | rerun (id : JobId)
  | requeue (id : JobId)
  | bury (id : JobId)
  | reschedule (id : JobId)
  | retryDead (id : JobId)
  | disable (id : JobId)
  | enable (id : JobId)
  | restore (id : JobId)
  | fallout
  | cancel
  | resolve
  | archive

/-- What a deed does to the job `k`, stored as `job`. -/
inductive Change (s : TestStorage) : Deed → JobId → Job → Job → Prop
  | claim {k : JobId} {job : Job} : dequeuable s.clock job = true →
      Change s (.claim k) k job (job.claimed s.clock)
  | start {k : JobId} {job : Job} : job.status = .running →
      Change s (.start k) k job { job with startedAt := some s.clock }
  | release {k : JobId} {job : Job} : job.status = .running →
      Change s (.release k) k job job.released
  | complete {k : JobId} {job : Job} : JobTransition.complete.isAllowedFrom job.status = true →
      Change s (.complete k) k job (job.completedAtTime s.clock)
  | fail {k : JobId} {job : Job} (error : String) :
      JobTransition.fail.isAllowedFrom job.status = true →
      Change s (.fail k) k job (job.failedByHand error s.clock)
  | dead {k : JobId} {job : Job} (error : String) :
      JobTransition.markDead.isAllowedFrom job.status = true →
      Change s (.finish k) k job (job.ended .dead error s.clock)
  | timedOut {k : JobId} {job : Job} (error : String) :
      JobTransition.markTimedOut.isAllowedFrom job.status = true →
      Change s (.finish k) k job (job.ended .timedOut error s.clock)
  | retry {k : JobId} {job : Job} (retryAt : DateTime)
      (dependencyStatus : Option DependencyStatus) :
      JobTransition.retry.isAllowedFrom job.status = true →
      reevaluated s job "retried" = .ok dependencyStatus →
      Change s (.retry k) k job (job.retried retryAt dependencyStatus)
  | runError {k : JobId} {job : Job} (error : String) (timedOut : Bool) :
      job.status = .pending →
      Change s (.runError k) k job (job.withRunError error timedOut s.clock)
  | rerun {k : JobId} {job : Job} (next : DateTime) : job.status = .running →
      Change s (.rerun k) k job (job.rescheduled next false)
  | rerunEnded {k : JobId} {job : Job} (status : JobStatus) (error : String)
      (next : DateTime) : job.status = .running →
      Change s (.rerun k) k job ((job.ended status error s.clock).rescheduled next true)
  | rerunBuried {k : JobId} {job : Job} (next : DateTime) : job.status = .running →
      Change s (.rerun k) k job ((job.buried s.clock).rescheduled next true)
  | requeue {k : JobId} {job : Job} : job.status = .running →
      Change s (.requeue k) k job (job.requeued s.clock)
  | bury {k : JobId} {job : Job} : job.status = .running →
      Change s (.bury k) k job (job.buried s.clock)
  | reschedule {k : JobId} {job : Job} (next : DateTime) :
      JobTransition.rescheduleCron.isAllowedFrom job.status = true →
      Change s (.reschedule k) k job (job.rescheduled next false)
  | retryDead {k : JobId} {job : Job} :
      JobTransition.retryDead.isAllowedFrom job.status = true →
      Change s (.retryDead k) k job (job.revived s.clock)
  | disable {k : JobId} {job : Job} :
      Change s (.disable k) k job { job with recurring := false, nextRunAt := none }
  | keepRunning {k : JobId} {job : Job} : job.status = .running →
      Change s (.enable k) k job { job with recurring := true }
  | enable {k : JobId} {job : Job} (next : DateTime) : job.status ≠ .running →
      Change s (.enable k) k job (job.resumed next)
  | restore {k : JobId} {job : Job} (dependencyStatus : Option DependencyStatus) :
      job.status = .archived → reevaluated s job "restored" = .ok dependencyStatus →
      Change s (.restore k) k job (job.restored dependencyStatus s.clock)
  | fallout {k : JobId} {job : Job} (error : String) : unstarted job = true →
      Change s .fallout k job (sideFailed job error s.clock)
  | cancel {k : JobId} {job : Job} (error : String) : unfinished job = true →
      Change s .cancel k job (sideFailed job error s.clock)
  | resolve {k : JobId} {job : Job} : held job = true → s.Ready k →
      Change s .resolve k job (TestStorage.release s.clock job)
  | archive {k : JobId} {job : Job} : (finishedAge s.clock job).isSome = true →
      Change s .archive k job { job with status := .archived }

/-- Every job is as before or changed as the deed says; nothing but
jobs, index and leases changed. -/
structure Changed (s : TestStorage) (d : Deed) (s' : TestStorage) : Prop where
  jobs : ∀ k, s'.jobs.lookup k = s.jobs.lookup k ∨
    ∃ job job', s.jobs.lookup k = some job ∧ s'.jobs.lookup k = some job' ∧
      Change s d k job job'
  rest : SameRegisters s s'
  index : s.Coherent → s'.Coherent

variable {s s' s'' : TestStorage} {d : Deed} {k : JobId} {job job' : Job}

/-- No deed renames a job, moves it to another queue, or changes its
dependencies. -/
structure SameShape (job job' : Job) : Prop where
  id : job'.id = job.id
  queueName : job'.queueName = job.queueName
  dependsOn : job'.dependsOn = job.dependsOn
  workflowId : job'.workflowId = job.workflowId
  batchId : job'.batchId = job.batchId

theorem Change.sameShape (h : Change s d k job job') : SameShape job job' := by
  cases h <;> exact ⟨rfl, rfl, rfl, rfl, rfl⟩

/-- A rewrite of one job is a deed done to it. -/
theorem Changed.of_rewrite (hlookup : s.jobs.lookup k = some job) (h : Rewrite s k job' s')
    (hchange : Change s d k job job') : Changed s d s' where
  jobs k' := by
    by_cases hk : k' = k
    · subst hk
      exact .inr ⟨job, job', hlookup, h.lookup_self, hchange⟩
    · exact .inl (h.lookup_ne hk)
  rest := h.rest
  index := h.index

/-- Failing jobs as a side effect is a deed, done to each of them. -/
theorem Changed.of_sideFailures {fails : JobId → Prop}
    (h : SideFailures s s' s.clock fails)
    (hchange : ∀ k job error, fails k → s.jobs.lookup k = some job → unfinished job = true →
      Change s d k job (sideFailed job error s.clock)) : Changed s d s' where
  jobs k := by
    by_cases hk : fails k
    · obtain ⟨job, error, hlookup, hun, hlookup'⟩ := h.failed k hk
      exact .inr ⟨job, _, hlookup, hlookup', hchange k job error hk hlookup hun⟩
    · exact .inl (h.kept k hk)
  rest := h.rest
  index := h.index

-- == writes

/-- The kinds of writes. -/
inductive WriteKind where
  | deed (d : Deed)
  | insert (given : List Job)
  | delete
  | other
  | tick

/-- One write. -/
inductive Write : TestStorage → WriteKind → TestStorage → Prop
  | deed {s s' : TestStorage} {d : Deed} : Changed s d s' → Write s (.deed d) s'
  | insert {s s' : TestStorage} {given : List Job} : Enqueued s given s' →
      Write s (.insert given) s'
  | delete {s s' : TestStorage} :
      (∀ k, s'.jobs.lookup k = s.jobs.lookup k ∨ s'.jobs.lookup k = none) →
      s'.clock = s.clock → (s.Coherent → s'.Coherent) → Write s .delete s'
  | other {s s' : TestStorage} : (∀ k, s'.jobs.lookup k = s.jobs.lookup k) →
      s'.clock = s.clock → s'.queues = s.queues → Write s .other s'
  | tick {s s' : TestStorage} : (∀ k, s'.jobs.lookup k = s.jobs.lookup k) →
      s'.queues = s.queues → Write s .tick s'

/-- A chain of writes of the allowed kinds. -/
def Writes (allowed : WriteKind → Prop) : TestStorage → TestStorage → Prop :=
  Relation.ReflTransGen fun s s' => ∃ w, allowed w ∧ Write s w s'

variable {allowed allowed' : WriteKind → Prop} {w : WriteKind}

theorem Writes.refl (s : TestStorage) : Writes allowed s s := Relation.ReflTransGen.refl

theorem Writes.one (hw : allowed w) (h : Write s w s') : Writes allowed s s' :=
  Relation.ReflTransGen.single ⟨w, hw, h⟩

theorem Writes.deed (hd : allowed (.deed d)) (h : Changed s d s') : Writes allowed s s' :=
  .one hd (.deed h)

theorem Writes.trans (h₁ : Writes allowed s s') (h₂ : Writes allowed s' s'') :
    Writes allowed s s'' := Relation.ReflTransGen.trans h₁ h₂

theorem Writes.mono (h : Writes allowed s s') (hle : ∀ w, allowed w → allowed' w) :
    Writes allowed' s s' :=
  Relation.ReflTransGen.mono (fun _ _ ⟨w, hw, hwrite⟩ => ⟨w, hle w hw, hwrite⟩) _ _ h

/-- What survives every allowed write survives a chain of them. -/
theorem Writes.preserves {P : TestStorage → Prop} (h : Writes allowed s s')
    (hstep : ∀ s w s', allowed w → Write s w s' → P s → P s') (hs : P s) : P s' := by
  induction h with
  | refl => exact hs
  | tail _ hstep' ih =>
      obtain ⟨w, hw, hwrite⟩ := hstep'
      exact hstep _ w _ hw hwrite ih

-- == what writes keep

/-- A job after a write was inserted by it, changed by its deed, or as
it was. -/
theorem Write.lookup_cases (h : Write s w s') (hlookup : s'.jobs.lookup k = some job') :
    s.jobs.lookup k = some job' ∨
    (∃ d job, w = .deed d ∧ s.jobs.lookup k = some job ∧ Change s d k job job') ∨
    (∃ given stored, w = .insert given ∧ Arrival s given stored ∧ Inserted s stored s' ∧
      job' ∈ stored ∧ job'.id = k) := by
  cases h with
  | deed h =>
      rcases h.jobs k with heq | ⟨job, job'', hold, hnew, hchange⟩
      · exact .inl (heq ▸ hlookup)
      · rw [hlookup] at hnew
        injection hnew with hnew
        subst hnew
        exact .inr (.inl ⟨_, job, rfl, hold, hchange⟩)
  | insert h =>
      obtain ⟨stored, harr, hin⟩ := h
      rcases hin.lookup_cases hlookup with ⟨hmem, hid⟩ | ⟨-, hold⟩
      · exact .inr (.inr ⟨_, stored, rfl, harr, hin, hmem, hid⟩)
      · exact .inl hold
  | delete h _ _ =>
      rcases h k with heq | hnone
      · exact .inl (heq ▸ hlookup)
      · rw [hnone] at hlookup
        cases hlookup
  | other h _ _ => exact .inl (h k ▸ hlookup)
  | tick h _ => exact .inl (h k ▸ hlookup)

/-- A stored job after a write is as it was, changed by its deed,
overwritten, or deleted. -/
theorem Write.lookup_fate (h : Write s w s') (hlookup : s.jobs.lookup k = some job) :
    s'.jobs.lookup k = some job ∨
    (∃ d job', w = .deed d ∧ s'.jobs.lookup k = some job' ∧ Change s d k job job') ∨
    (∃ given stored job', w = .insert given ∧ Arrival s given stored ∧ job' ∈ stored ∧
      job'.id = k ∧ s'.jobs.lookup k = some job') ∨
    (w = .delete ∧ s'.jobs.lookup k = none) := by
  cases hres : s'.jobs.lookup k with
  | none =>
      cases h with
      | deed h =>
          rcases h.jobs k with heq | ⟨_, _, _, hnew, _⟩
          · rw [hres, hlookup] at heq
            cases heq
          · rw [hres] at hnew
            cases hnew
      | insert h =>
          obtain ⟨stored, -, hin⟩ := h
          have := hin.jobs k
          rw [hres, hlookup] at this
          cases hfind : stored.reverse.find? (·.id = k) <;> rw [hfind] at this <;> cases this
      | delete h _ _ => exact .inr (.inr (.inr ⟨rfl, rfl⟩))
      | other h _ _ => rw [h, hlookup] at hres; cases hres
      | tick h _ => rw [h, hlookup] at hres; cases hres
  | some job' =>
      rcases h.lookup_cases hres with hold | ⟨d, job₀, hw, hold, hchange⟩ |
        ⟨given, stored, hw, harr, -, hmem, hid⟩
      · rw [hlookup] at hold
        exact .inl hold.symm
      · rw [hlookup] at hold
        injection hold with hold
        subst hold
        exact .inr (.inl ⟨d, job', hw, rfl, hchange⟩)
      · exact .inr (.inr (.inl ⟨given, stored, job', hw, harr, hmem, hid, rfl⟩))

theorem Write.keyed (h : Write s w s') (hk : s.Keyed) : s'.Keyed := by
  intro k job' hlookup
  rcases h.lookup_cases hlookup with hold | ⟨d, job, -, hold, hchange⟩ |
    ⟨_, _, -, -, -, -, hid⟩
  · exact hk k job' hold
  · rw [hchange.sameShape.id]
    exact hk k job hold
  · exact hid

theorem Writes.keyed (h : Writes allowed s s') (hk : s.Keyed) : s'.Keyed :=
  h.preserves (fun _ _ _ _ hw hk => hw.keyed hk) hk

theorem Write.clock (h : Write s w s') (hw : w ≠ .tick) : s'.clock = s.clock := by
  cases h with
  | deed h => exact h.rest.clock
  | insert h =>
      obtain ⟨_, _, hin⟩ := h
      exact hin.clock
  | delete _ hclock _ => exact hclock
  | other _ hclock _ => exact hclock
  | tick => exact absurd rfl hw

theorem Writes.clock (h : Writes allowed s s') (hw : ¬ allowed .tick) : s'.clock = s.clock :=
  h.preserves (P := fun t => t.clock = s.clock)
    (fun _ _ _ hallowed hwrite ih =>
      (hwrite.clock fun heq => hw (heq ▸ hallowed)).trans ih) rfl

/-- A property of records that the allowed deeds keep and inserted jobs
have is kept by the chain. -/
theorem Writes.records {P : JobId → Job → Prop} (h : Writes allowed s s')
    (hdeed : ∀ s d k job job', allowed (.deed d) → s.jobs.lookup k = some job →
      Change s d k job job' → P k job → P k job')
    (hinsert : ∀ s given stored job, allowed (.insert given) → Arrival s given stored →
      job ∈ stored → P job.id job)
    (hs : ∀ k job, s.jobs.lookup k = some job → P k job) :
    ∀ k job, s'.jobs.lookup k = some job → P k job := by
  refine h.preserves (P := fun s => ∀ k job, s.jobs.lookup k = some job → P k job)
    (fun s w s' hw hwrite hs => ?_) hs
  intro k job' hlookup
  rcases hwrite.lookup_cases hlookup with hold | ⟨d, job, rfl, hold, hchange⟩ |
    ⟨given, stored, rfl, harr, -, hmem, rfl⟩
  · exact hs k job' hold
  · exact hdeed s d k job job' hw hold hchange (hs k job hold)
  · exact hinsert s given stored job' hw harr hmem

/-- What the deeds of a chain of writes keep is true of a job afterwards
that is not inserted by it. -/
theorem Writes.record {R : Job → Prop} (h : Writes allowed s s')
    (hlookup : s.jobs.lookup k = some job) (hR : R job)
    (hinsert : ∀ given, allowed (.insert given) → ∀ job ∈ given, job.id ≠ k)
    (hdeed : ∀ s d job job', allowed (.deed d) → Change s d k job job' → R job → R job')
    (hlookup' : s'.jobs.lookup k = some job') : R job' := by
  refine h.records (P := fun k' j => k' = k → R j) ?_ ?_ ?_ k job' hlookup' rfl
  · intro s d k' j j' hw _ hchange hj hk'
    subst hk'
    exact hdeed s d j j' hw hchange (hj rfl)
  · intro s given stored j hw harr hj hid
    obtain ⟨j₀, hj₀, harrives⟩ := mem_of_forall₂ harr.each hj
    exact absurd (harrives.keeps.id.symm.trans hid) (hinsert given hw j₀ hj₀)
  · intro k' j hj hk'
    subst hk'
    rw [hlookup] at hj
    injection hj with hj
    exact hj ▸ hR

-- == running

/-- The job `k` is running attempt number `attempts` since
`startedAt`. -/
def RunningAs (s : TestStorage) (k : JobId) (attempts : Int) (startedAt : Option DateTime) :
    Prop :=
  ∃ job, s.jobs.lookup k = some job ∧ job.status = .running ∧ job.attempts = attempts ∧
    job.startedAt = startedAt

/-- The writes that can set a job running, or restart its clock. -/
def WriteKind.Starts (k : JobId) : WriteKind → Prop
  | .deed (.claim id) | .deed (.start id) => id = k
  | .insert given => ∃ job ∈ given, job.id = k ∧ job.status = .running
  | _ => False

variable {attempts : Int} {startedAt : Option DateTime}

/-- Nothing else does: a job running after another write was running
the same run before it. -/
theorem Write.runningAs_back (h : Write s w s') (hw : ¬ w.Starts k)
    (hrun : RunningAs s' k attempts startedAt) : RunningAs s k attempts startedAt := by
  obtain ⟨job', hlookup, hst, hattempts, hstarted⟩ := hrun
  rcases h.lookup_cases hlookup with hold | ⟨d, job, rfl, hold, hchange⟩ |
    ⟨given, stored, rfl, harr, -, hmem, hid⟩
  · exact ⟨job', hold, hst, hattempts, hstarted⟩
  · refine ⟨job, hold, ?_⟩
    cases hchange with
    | claim | start => exact absurd rfl hw
    | resolve | disable | runError => exact ⟨hst, hattempts, hstarted⟩
    | keepRunning hrun => exact ⟨hrun, hattempts, hstarted⟩
    | _ => cases hst
  · obtain ⟨job, hjob, harrives⟩ := mem_of_forall₂ harr.each hmem
    have hnot : job'.status ≠ job.status := fun hsame =>
      hw ⟨job, hjob, harrives.keeps.id.symm.trans hid, hsame ▸ hst⟩
    cases harrives.settled with
    | unchanged hsame => exact absurd hsame hnot
    | satisfied _ _ _ hsame => exact absurd hsame hnot
    | failed _ _ _ _ hfailed => rw [hst] at hfailed; cases hfailed

theorem Writes.runningAs_back (h : Writes allowed s s') (hw : ∀ w, allowed w → ¬ w.Starts k)
    (hrun : RunningAs s' k attempts startedAt) : RunningAs s k attempts startedAt := by
  refine Relation.ReflTransGen.head_induction_on h hrun ?_
  rintro a c ⟨w, hallowed, hwrite⟩ - ih
  exact hwrite.runningAs_back (hw w hallowed) ih

/-- The job `k` is not running. -/
def Stopped (s : TestStorage) (k : JobId) : Prop :=
  ∀ attempts startedAt, ¬ RunningAs s k attempts startedAt

theorem Stopped.of_lookup (hlookup : s.jobs.lookup k = some job) (hst : job.status ≠ .running) :
    Stopped s k := by
  rintro attempts startedAt ⟨job', hlookup', hrun, -⟩
  rw [hlookup] at hlookup'
  injection hlookup' with hlookup'
  exact hst (hlookup' ▸ hrun)

theorem Changed.stopped (h : Changed s d s') (hd : ¬ (WriteKind.deed d).Starts k)
    (hs : Stopped s k) : Stopped s' k :=
  fun attempts startedAt hrun => hs attempts startedAt ((Write.deed h).runningAs_back hd hrun)

theorem Writes.stopped (h : Writes allowed s s') (hw : ∀ w, allowed w → ¬ w.Starts k)
    (hs : Stopped s k) : Stopped s' k :=
  fun attempts startedAt hrun => hs attempts startedAt (h.runningAs_back hw hrun)

end Hammerwork
