/-
A recovery, step by step.

`requeueStaleJobs` reclaims stale runs one after another, and applies
the failure policies of a job the moment it is buried. The database does
it in two phases (`requeueStaleInPhases`): one statement puts back or
marks dead every stale run, and only then are the dead ones rescheduled
or their failures applied.

# The small steps

Both are made of the same small steps: a stale run is put back, marked
dead, rescheduled, or, once dead, takes others with it. `Midway` is what
holds between two such steps, whatever their order: who has been dealt
with is at their end already (`Job.after`), and the jobs taken are as if
each failure had come alone. It is kept by every small step as long as
no failure meets a job that comes back, or one that another failure
takes (`Midway.fall`); it is there that order could matter.
-/
import Hammerwork.Proofs.Blame
import Hammerwork.Proofs.Leases

namespace Hammerwork

open TestStorage TestQueue

variable {cron : CronLibrary} {s s' t t' : TestStorage} {queueName : Option String}
  {now : DateTime} {id r x k : JobId} {job job' : Job}

-- == two phases

namespace TestQueue

/-- The stale runs in iteration order, and whether their attempts are
used up. -/
def staleRuns (s : TestStorage) (queueName : Option String) : List (JobId × Bool) :=
  (s.jobs.values.filter (isStale s queueName)).map
    fun job => (job.id, decide (job.maxAttempts ≤ job.attempts))

/-- Mark a stale job dead. -/
def markStaleDead (s : TestStorage) (jobId : JobId) (now : DateTime) :
    Except HammerworkError TestStorage := do
  let s ← s.updateJobStatus jobId .dead
  return s.modifyJob jobId fun job =>
    { job with failedAt := some now, errorMessage := some staleJobErrorMessage }

/-- First phase, for one stale run: its lease goes, and it is put back or
marked dead. -/
def reclaimStale (now : DateTime) (s : TestStorage) (run : JobId × Bool) :
    Except HammerworkError TestStorage :=
  if run.2 then markStaleDead (s.removeLease run.1) run.1 now
  else requeueStale (s.removeLease run.1) run.1 now

/-- Second phase, for one dead job: it is rescheduled, or its failure is
applied to the others. -/
def afterStaleDeath (cron : CronLibrary) (now : DateTime) (s : TestStorage) (jobId : JobId) :
    Except HammerworkError TestStorage :=
  match ((s.jobs.lookup jobId).filter (·.recurring)).bind (nextCronRun cron · now) with
  | some nextRunAt => s.rescheduleInPlace jobId nextRunAt true
  | none =>
      let (s, _) := s.applyWorkflowFailure jobId now
      let (s, _) := s.applyBatchFailure jobId now
      return s

/-- Reclaim the stale runs as the database does: all of them first, and
then what follows from the dead ones. -/
def requeueStaleInPhases (cron : CronLibrary) (s : TestStorage) (queueName : Option String) :
    Result StaleJobRecovery :=
  let stale := staleRuns s queueName
  let dead := (stale.filter (·.2)).map (·.1)
  commit s do
    let reclaimed ← stale.foldlM (reclaimStale s.clock) s
    let settled ← dead.foldlM (afterStaleDeath cron s.clock) reclaimed
    return (settled, ⟨(stale.filter (!·.2)).map (·.1), dead⟩)

end TestQueue

/-- Burying a job marks it dead and applies what follows at once. -/
theorem buryStale_eq (cron : CronLibrary) (s : TestStorage) (id : JobId) (now : DateTime) :
    buryStale cron s id now
      = (markStaleDead s id now).bind fun s => afterStaleDeath cron now s id := by
  unfold buryStale markStaleDead
  cases s.updateJobStatus id .dead <;> rfl

-- == fates

/-- What a recovery does with a stale job. -/
inductive Fate where
  | requeued
  | rescheduled (next : DateTime)
  | buried

/-- The fate of a stale job. -/
def Job.fate (cron : CronLibrary) (now : DateTime) (job : Job) : Fate :=
  if job.maxAttempts ≤ job.attempts then
    match ((some (job.buried now)).filter (·.recurring)).bind (nextCronRun cron · now) with
    | some next => .rescheduled next
    | none => .buried
  else .requeued

/-- The job once its fate is fulfilled. -/
def Job.after (now : DateTime) (job : Job) : Fate → Job
  | .requeued => job.requeued now
  | .rescheduled next => (job.buried now).rescheduled next true
  | .buried => job.buried now

theorem place_after (now : DateTime) (job : Job) (fate : Fate) :
    place (job.after now fate) = place job := by
  cases fate <;> rfl

/-- A stale run. -/
def Stale (s : TestStorage) (queueName : Option String) (k : JobId) : Prop :=
  ∃ job, s.jobs.lookup k = some job ∧ isStale s queueName job = true

/-- A stale job that a recovery buries. -/
def Dies (cron : CronLibrary) (s : TestStorage) (queueName : Option String) (k : JobId) : Prop :=
  ∃ job, s.jobs.lookup k = some job ∧ isStale s queueName job = true ∧
    job.fate cron s.clock = .buried

/-- A stale job that a recovery puts back, to be retried or for its next
run. -/
def ComesBack (cron : CronLibrary) (s : TestStorage) (queueName : Option String) (k : JobId) :
    Prop :=
  ∃ job, s.jobs.lookup k = some job ∧ isStale s queueName job = true ∧
    job.fate cron s.clock ≠ .buried

theorem mem_staleRuns (hk : s.Keyed) {e : JobId × Bool} :
    e ∈ staleRuns s queueName ↔ ∃ job, s.jobs.lookup e.1 = some job ∧
      isStale s queueName job = true ∧ e.2 = decide (job.maxAttempts ≤ job.attempts) := by
  unfold staleRuns
  simp only [List.mem_map, List.mem_filter]
  constructor
  · intro ⟨job, ⟨hmem, hstale⟩, he⟩
    subst he
    exact ⟨job, hk.mem_values.1 hmem, hstale, rfl⟩
  · intro ⟨job, hlookup, hstale, he⟩
    have hid := hk e.1 job hlookup
    refine ⟨job, ⟨hk.mem_values.2 (hid ▸ hlookup), hstale⟩, ?_⟩
    rw [hid, ← he]

theorem Stale.listed (hk : s.Keyed) (h : Stale s queueName k) :
    k ∈ (staleRuns s queueName).map (·.1) := by
  obtain ⟨job, hlookup, hstale⟩ := h
  have hmem : (k, decide (job.maxAttempts ≤ job.attempts)) ∈ staleRuns s queueName :=
    (mem_staleRuns hk).2 ⟨job, hlookup, hstale, rfl⟩
  exact List.mem_map_of_mem (f := (·.1)) hmem

theorem nodup_staleRuns (hk : s.Keyed) (queueName : Option String) :
    ((staleRuns s queueName).map (·.1)).Nodup := by
  unfold staleRuns
  rw [List.map_map]
  exact hk.nodup_ids.sublist (List.filter_sublist.map _)

-- == small steps

/-- `s'` is `s` with the job `id` stored as `job'` and without its
lease. -/
structure Settles (s : TestStorage) (id : JobId) (job' : Job) (s' : TestStorage) : Prop where
  rewrite : Rewrite s id job' s'
  leases : ∀ k, s'.leases.lookup k = if k = id then none else s.leases.lookup k

theorem Settles.entry (h : Settles s id job' s') (k : JobId) :
    s'.entry k = if k = id then (some job', none) else s.entry k := by
  unfold TestStorage.entry
  rw [h.rewrite.jobs, h.leases]
  split <;> rfl

theorem Settles.trans {job'' : Job} {s'' : TestStorage} (h₁ : Settles s id job' s')
    (h₂ : Settles s' id job'' s'') : Settles s id job'' s'' where
  rewrite := h₁.rewrite.trans h₂.rewrite
  leases k := by
    rw [h₂.leases, h₁.leases]
    split <;> rfl

/-- Taking the lease and rewriting the record. -/
private theorem Settles.of_restatus (hlookup : s.jobs.lookup id = some job) (st : JobStatus)
    (f : Job → Job) (hjob : job' = f { job with status := st })
    (hq : job'.queueName = job.queueName) (hst : job'.status = st) :
    Settles s id job' (((s.removeLease id).restatus id job st).modifyJob id f) where
  rewrite := rewrite_restatus hlookup st f hjob hq hst rfl
  leases k := Table.lookup_erase_if s.leases id k

theorem markStaleDead_settles (hlookup : s.jobs.lookup id = some job) (now : DateTime) :
    ∃ s', markStaleDead (s.removeLease id) id now = .ok s' ∧ Settles s id (job.buried now) s' := by
  refine ⟨_, ?_, Settles.of_restatus hlookup .dead (fun job =>
    { job with failedAt := some now, errorMessage := some staleJobErrorMessage }) rfl rfl rfl⟩
  unfold markStaleDead
  rw [updateJobStatus_eq (s := s.removeLease id) hlookup]
  rfl

theorem requeueStale_settles (hlookup : s.jobs.lookup id = some job) (now : DateTime) :
    ∃ s', requeueStale (s.removeLease id) id now = .ok s' ∧
      Settles s id (job.requeued now) s' := by
  refine ⟨_, ?_, Settles.of_restatus hlookup .pending (fun job =>
    { job with
      scheduledAt := now
      startedAt := none
      errorMessage := some staleJobErrorMessage }) rfl rfl rfl⟩
  unfold requeueStale
  rw [updateJobStatus_eq (s := s.removeLease id) hlookup]
  rfl

theorem rescheduleInPlace_settles (hlookup : s.jobs.lookup id = some job) (next : DateTime) :
    ∃ s', s.rescheduleInPlace id next true = .ok s' ∧
      Settles s id (job.rescheduled next true) s' := by
  obtain ⟨s', hok⟩ := rescheduleInPlace_isOk hlookup next true
  obtain ⟨job₀, hlookup₀, hr⟩ := rescheduleInPlace_ok hok
  rw [hlookup] at hlookup₀
  injection hlookup₀ with hjob
  subst hjob
  refine ⟨s', hok, hr, fun k => ?_⟩
  unfold rescheduleInPlace at hok
  rw [updateJobStatus_eq hlookup] at hok
  rw [← pure_eq_ok.1 hok]
  exact Table.lookup_erase_if s.leases id k

/-- What follows from a death, by the fate of the job. -/
theorem afterStaleDeath_cases (hlookup : s.jobs.lookup id = some (job.buried s.clock))
    (hexhausted : job.maxAttempts ≤ job.attempts) (cron : CronLibrary) :
    (∃ next s', job.fate cron s.clock = .rescheduled next ∧
        afterStaleDeath cron s.clock s id = .ok s' ∧
        Settles s id (job.after s.clock (job.fate cron s.clock)) s') ∨
      (job.fate cron s.clock = .buried ∧
        afterStaleDeath cron s.clock s id = .ok (applyPolicies s id)) := by
  unfold afterStaleDeath Job.fate
  rw [hlookup, if_pos hexhausted]
  cases ((some (job.buried s.clock)).filter (·.recurring)).bind (nextCronRun cron · s.clock) with
  | none => exact .inr ⟨rfl, rfl⟩
  | some next =>
      obtain ⟨s', hok, hsettles⟩ := rescheduleInPlace_settles hlookup next
      exact .inl ⟨next, s', rfl, hok, hsettles⟩

/-- One stale run reclaimed, by the fate of the job. -/
theorem reclaimed_by_fate (hlookup : s.jobs.lookup id = some job) (cron : CronLibrary) :
    (job.fate cron s.clock ≠ .buried ∧
        Settles s id (job.after s.clock (job.fate cron s.clock))
          (reclaimed cron s.clock s (id, decide (job.maxAttempts ≤ job.attempts)))) ∨
      (job.fate cron s.clock = .buried ∧ ∃ s₁, Settles s id (job.buried s.clock) s₁ ∧
        reclaimed cron s.clock s (id, decide (job.maxAttempts ≤ job.attempts))
          = applyPolicies s₁ id) := by
  unfold reclaimed
  dsimp only
  by_cases hexhausted : job.maxAttempts ≤ job.attempts
  · obtain ⟨s₁, hok, hsettles⟩ := markStaleDead_settles hlookup s.clock
    have hclock := hsettles.rewrite.rest.clock
    have hmarked : s₁.jobs.lookup id = some (job.buried s₁.clock) := by
      rw [hclock]
      exact hsettles.rewrite.lookup_self
    have hbury : buryStale cron (s.removeLease id) id s.clock
        = afterStaleDeath cron s.clock s₁ id := by
      rw [buryStale_eq, hok]
      rfl
    rw [if_pos (decide_eq_true hexhausted), hbury]
    rcases afterStaleDeath_cases hmarked hexhausted cron with
      ⟨next, s₂, hfate, hok₂, hsettles₂⟩ | ⟨hfate, hok₂⟩
    all_goals rw [hclock] at hfate hok₂
    · rw [hclock] at hsettles₂
      rw [hok₂]
      exact .inl ⟨by rw [hfate]; nofun, hsettles.trans hsettles₂⟩
    · rw [hok₂]
      exact .inr ⟨hfate, s₁, hsettles, rfl⟩
  · obtain ⟨s₁, hok, hsettles⟩ := requeueStale_settles hlookup s.clock
    have hfate : job.fate cron s.clock = .requeued := if_neg hexhausted
    rw [if_neg (by simpa using hexhausted), hok, hfate]
    exact .inl ⟨nofun, hsettles⟩

-- == midway

/-- A failure takes no stale job: it takes jobs that have not started. -/
theorem not_stale_of_failureTakes (h : FailureTakes s r k) : ¬ Stale s queueName k := by
  intro ⟨job, hlookup, hstale⟩
  obtain ⟨job', hlookup', hun⟩ := isJob_iff.1 (unstarted_of_failureTakes h)
  rw [hlookup] at hlookup'
  injection hlookup' with hjob
  unfold unstarted at hun
  rw [← hjob, running_of_isStale hstale] at hun
  cases hun

/-- Between two small steps of a recovery that began in `s`: the stale
jobs of `done` are at their end and those of `dead` are marked; the
failures of those of `fallen` that die have taken their jobs; nothing
else changed. -/
structure Midway (cron : CronLibrary) (queueName : Option String) (s t : TestStorage)
    (dead done fallen : List JobId) : Prop where
  places : SamePlaces s t
  index : s.Coherent → t.Coherent
  stale : ∀ k job, s.jobs.lookup k = some job → isStale s queueName job = true →
    t.entry k =
      if k ∈ done then (some (job.after s.clock (job.fate cron s.clock)), none)
      else if k ∈ dead then (some (job.buried s.clock), none)
      else s.entry k
  taken : ∀ r ∈ fallen, Dies cron s queueName r → ∀ k, FailureTakes s r k →
    t.entry k = (applyPolicies s r).entry k
  kept : ∀ k, ¬ Stale s queueName k →
    (∀ r ∈ fallen, Dies cron s queueName r → ¬ FailureTakes s r k) → t.entry k = s.entry k

theorem Midway.start (cron : CronLibrary) (queueName : Option String) (s : TestStorage) :
    Midway cron queueName s s [] [] [] where
  places := .refl s
  index := id
  stale _ _ _ _ := rfl
  taken _ h := by cases h
  kept _ _ _ := rfl

variable {dead done fallen : List JobId}

/-- A small step that deals with one stale job. -/
theorem Midway.settle {dead' done' : List JobId} (h : Midway cron queueName s t dead done fallen)
    (hlookup : s.jobs.lookup x = some job) (hstale : isStale s queueName job = true)
    (hsettles : Settles t x job' t') (hplace : place job' = place job)
    (hx : (some job', none) =
      if x ∈ done' then (some (job.after s.clock (job.fate cron s.clock)), none)
      else if x ∈ dead' then (some (job.buried s.clock), none)
      else s.entry x)
    (hothers : ∀ k, k ≠ x → (k ∈ done' ↔ k ∈ done) ∧ (k ∈ dead' ↔ k ∈ dead)) :
    Midway cron queueName s t' dead' done' fallen := by
  have hstored : ∃ old, t.jobs.lookup x = some old ∧ place old = place job := by
    have hplace := h.places.place x
    rw [hlookup] at hplace
    exact Option.map_eq_some_iff.1 hplace
  obtain ⟨old, hold, hplaceold⟩ := hstored
  have hxstale : Stale s queueName x := ⟨job, hlookup, hstale⟩
  refine ⟨h.places.trans (hsettles.rewrite.samePlaces hold (hplace.trans hplaceold.symm)),
    fun hco => hsettles.rewrite.index (h.index hco), ?_, ?_, ?_⟩
  · intro k kjob hk hkstale
    rw [hsettles.entry]
    split
    case isTrue hkx =>
      subst hkx
      rw [hlookup] at hk
      injection hk with hk
      rw [← hk]
      exact hx
    case isFalse hkx =>
      rw [h.stale k kjob hk hkstale]
      simp only [(hothers k hkx).1, (hothers k hkx).2]
  · intro r hr hdies k hk
    rw [hsettles.entry, if_neg, h.taken r hr hdies k hk]
    intro hkx
    exact not_stale_of_failureTakes hk (hkx ▸ hxstale)
  · intro k hk hnot
    rw [hsettles.entry, if_neg, h.kept k hk hnot]
    intro hkx
    exact hk (hkx ▸ hxstale)

-- == failures that meet no one

/-- `s` with the job `x` back in the queue. -/
def putBack (s : TestStorage) (x : JobId) : TestStorage :=
  s.modifyJob x fun job => { job with status := .pending }

/-- No failure of a job that dies takes a job that comes back: with that
job back in the queue, it would not be among those taken. -/
def SparesReturns (cron : CronLibrary) (s : TestStorage) (queueName : Option String) : Prop :=
  ∀ r x, Dies cron s queueName r → ComesBack cron s queueName x → ¬ FailureTakes (putBack s x) r x

/-- No job is taken by the failures of two jobs that die. -/
def TakesApart (cron : CronLibrary) (s : TestStorage) (queueName : Option String) : Prop :=
  ∀ r r' k, Dies cron s queueName r → Dies cron s queueName r' → r ≠ r' →
    ¬ (FailureTakes s r k ∧ FailureTakes s r' k)

theorem putBack_lookup (hlookup : s.jobs.lookup x = some job) (k : JobId) :
    (putBack s x).jobs.lookup k
      = if k = x then some { job with status := .pending } else s.jobs.lookup k := by
  unfold putBack
  rw [modifyJob_lookup, hlookup]
  rfl

theorem putBack_places (s : TestStorage) (x : JobId) : SamePlaces s (putBack s x) where
  keys := modifyJob_keys s x _
  place k := by
    unfold putBack
    rw [modifyJob_lookup]
    split
    · next hk =>
      rw [hk]
      cases s.jobs.lookup x <;> rfl
    · rfl
  rest := rfl

/-- A failure that reaches a job through jobs it takes, once that job is
back in the queue, takes it. -/
theorem takes_putBack {c : JobId} (hlookup : s.jobs.lookup x = some job)
    (hrunning : job.status = .running) (hdep : job.dependencyStatus ≠ .failed)
    (hman : ∀ workflow, s.workflowOf r = some workflow → workflow.failurePolicy ≠ .manual)
    (hc : c = r ∨ DependentFails s r c) (hx : x ∈ s.directDependents c) :
    FailureTakes (putBack s x) r x := by
  have hplaces := putBack_places s x
  by_cases hsib : SiblingFails (putBack s x) r x
  · exact .inl (.inl hsib)
  · -- the way to `x` is as it was
    have hother : ∀ y, y ≠ x → ∀ p, (putBack s x).isJob y p = s.isJob y p := by
      intro y hy p
      unfold isJob
      rw [putBack_lookup hlookup, if_neg hy]
    have hnext : ∀ c y, y ∈ s.directDependents c → y ∈ (putBack s x).directDependents c :=
      fun c y hy => (hplaces.directDependents c).symm ▸ hy
    have hxrunning : s.isJob x canFailAsDependent ≠ true := by
      intro hcan
      obtain ⟨job', hlookup', hcan⟩ := isJob_iff.1 hcan
      rw [hlookup] at hlookup'
      injection hlookup' with hjob
      unfold canFailAsDependent at hcan
      rw [← hjob, hrunning] at hcan
      cases hcan
    have hfresh : ∀ y, s.isJob y canFailAsDependent = true ∧ ¬ SiblingFails s r y →
        (putBack s x).isJob y canFailAsDependent = true ∧ ¬ SiblingFails (putBack s x) r y := by
      intro y ⟨hcan, hnot⟩
      have hyx : y ≠ x := fun heq => hxrunning (heq ▸ hcan)
      refine ⟨hother y hyx _ ▸ hcan, fun ⟨w, hw, hff, hmem, hne, hun⟩ => hnot ?_⟩
      exact ⟨w, hplaces.workflowOf r ▸ hw, hff, hmem, hne, hother y hyx _ ▸ hun⟩
    have hxfresh : (putBack s x).isJob x canFailAsDependent = true := by
      refine isJob_iff.2 ⟨_, (putBack_lookup hlookup x).trans (if_pos rfl), ?_⟩
      unfold canFailAsDependent
      simp [hdep]
    refine .inl (.inr ⟨hplaces.workflowOf r ▸ hman, ?_⟩)
    rcases hc with rfl | hc
    · exact .direct (hnext _ _ hx) ⟨hxfresh, hsib⟩
    · exact .step (hc.2.mono hnext hfresh) (hnext _ _ hx) ⟨hxfresh, hsib⟩

section Falling

variable (hspares : SparesReturns cron s queueName) (happart : TakesApart cron s queueName)

/-- A job that can be taken midway could be taken at the start, and is
as it was, or it came back. -/
theorem Midway.isJob_start (h : Midway cron queueName s t dead done fallen)
    {p : Job → Bool} (hp : ∀ job, p job = true → unstarted job = true)
    (hk : t.isJob k p = true) :
    (t.entry k = s.entry k ∧ s.isJob k p = true) ∨
      (ComesBack cron s queueName k ∧ k ∈ done) := by
  obtain ⟨job', hlookup', hjob'⟩ := isJob_iff.1 hk
  have hsame : t.entry k = s.entry k → t.entry k = s.entry k ∧ s.isJob k p = true :=
    fun heq => ⟨heq, isJob_iff.2 ⟨job', lookup_of_entry heq ▸ hlookup', hjob'⟩⟩
  have hunstarted := hp job' hjob'
  unfold unstarted at hunstarted
  by_cases hstale : Stale s queueName k
  · obtain ⟨job, hlookup, hstale⟩ := hstale
    have hentry := h.stale k job hlookup hstale
    by_cases hdone : k ∈ done
    · by_cases hfate : job.fate cron s.clock = .buried
      · -- a buried job is dead
        rw [if_pos hdone, hfate] at hentry
        have hjob := hlookup'.symm.trans (congrArg Prod.fst hentry)
        injection hjob with hjob
        rw [hjob] at hunstarted
        cases hunstarted
      · exact .inr ⟨⟨job, hlookup, hstale, hfate⟩, hdone⟩
    · rw [if_neg hdone] at hentry
      by_cases hdead : k ∈ dead
      · rw [if_pos hdead] at hentry
        have hjob := hlookup'.symm.trans (congrArg Prod.fst hentry)
        injection hjob with hjob
        rw [hjob] at hunstarted
        cases hunstarted
      · rw [if_neg hdead] at hentry
        exact .inl (hsame hentry)
  · by_cases hfell : ∃ r ∈ fallen, Dies cron s queueName r ∧ FailureTakes s r k
    · -- a job that was taken is finished
      obtain ⟨r, hr, hdies, htakes⟩ := hfell
      obtain ⟨m, hm⟩ := failureTakes_iff_blames.1 htakes
      obtain ⟨job, -, hentry⟩ := (applyPolicies_blamed s r).taken k m hm
      have hjob := hlookup'.symm.trans
        (congrArg Prod.fst ((h.taken r hr hdies k htakes).trans hentry))
      injection hjob with hjob
      rw [hjob] at hunstarted
      cases hunstarted
    · exact .inl (hsame (h.kept k hstale fun r hr hdies htakes =>
        hfell ⟨r, hr, hdies, htakes⟩))

include happart in
/-- What a further failure takes is as it was. -/
theorem Midway.untouched (h : Midway cron queueName s t dead done fallen)
    (hdies : Dies cron s queueName r) (hnew : r ∉ fallen) (hk : FailureTakes s r k) :
    t.entry k = s.entry k := by
  refine h.kept k (not_stale_of_failureTakes hk) fun r' hr' hdies' hk' => ?_
  exact happart r r' k hdies hdies' (fun heq => hnew (heq ▸ hr')) ⟨hk, hk'⟩

include happart in
theorem Midway.isJob_untouched (h : Midway cron queueName s t dead done fallen)
    (hdies : Dies cron s queueName r) (hnew : r ∉ fallen) (hk : FailureTakes s r k)
    (p : Job → Bool) : t.isJob k p = s.isJob k p := by
  unfold isJob
  rw [lookup_of_entry (h.untouched happart hdies hnew hk)]

/-- A job that comes back, once back in the queue, has not started. -/
theorem ComesBack.unstarted (h : ComesBack cron s queueName k) :
    (putBack s k).isJob k unstarted = true := by
  obtain ⟨job, hlookup, -, -⟩ := h
  exact isJob_iff.2 ⟨{ job with status := .pending },
    (putBack_lookup hlookup k).trans (if_pos rfl), rfl⟩

include hspares happart in
/-- Midway, the siblings that a failure takes are those of the start. -/
theorem Midway.siblings (h : Midway cron queueName s t dead done fallen)
    (hdies : Dies cron s queueName r) (hnew : r ∉ fallen) (k : JobId) :
    SiblingFails t r k ↔ SiblingFails s r k := by
  constructor
  · intro ⟨w, hw, hff, hmem, hne, hun⟩
    rw [h.places.workflowOf] at hw
    rcases h.isJob_start (fun _ h => h) hun with ⟨-, hun⟩ | ⟨hcomes, -⟩
    · exact ⟨w, hw, hff, hmem, hne, hun⟩
    · have hw' := (putBack_places s k).workflowOf r ▸ hw
      exact absurd (.inl (.inl ⟨w, hw', hff, hmem, hne, hcomes.unstarted⟩))
        (hspares r k hdies hcomes)
  · intro ⟨w, hw, hff, hmem, hne, hun⟩
    have htakes : FailureTakes s r k := .inl (.inl ⟨w, hw, hff, hmem, hne, hun⟩)
    exact ⟨w, h.places.workflowOf r ▸ hw, hff, hmem, hne,
      h.isJob_untouched happart hdies hnew htakes _ ▸ hun⟩

include hspares happart in
/-- So are its batch mates. -/
theorem Midway.mates (h : Midway cron queueName s t dead done fallen)
    (hdies : Dies cron s queueName r) (hnew : r ∉ fallen) (k : JobId) :
    BatchFails t r k ↔ BatchFails s r k := by
  constructor
  · intro ⟨batchId, hb, hff, hmem, hun⟩
    rw [h.places.batchId] at hb
    rw [h.places.rest.batches] at hff
    rw [h.places.rest.batchJobs] at hmem
    rcases h.isJob_start (fun _ h => h) hun with ⟨-, hun⟩ | ⟨hcomes, -⟩
    · exact ⟨batchId, hb, hff, hmem, hun⟩
    · have hb' := (putBack_places s k).batchId r ▸ hb
      exact absurd (.inr ⟨batchId, hb', hff, hmem, hcomes.unstarted⟩) (hspares r k hdies hcomes)
  · intro ⟨batchId, hb, hff, hmem, hun⟩
    have htakes : FailureTakes s r k := .inr ⟨batchId, hb, hff, hmem, hun⟩
    exact ⟨batchId, h.places.batchId r ▸ hb, h.places.rest.batches ▸ hff,
      h.places.rest.batchJobs ▸ hmem, h.isJob_untouched happart hdies hnew htakes _ ▸ hun⟩

/-- The dependency status of a job that is at its end. -/
theorem Midway.dependencyStatus (h : Midway cron queueName s t dead done fallen)
    (hlookup : s.jobs.lookup k = some job) (hstale : isStale s queueName job = true)
    (hdone : k ∈ done) (hcan : t.isJob k canFailAsDependent = true) :
    job.dependencyStatus ≠ .failed := by
  obtain ⟨job', hlookup', hcan⟩ := isJob_iff.1 hcan
  have hentry := h.stale k job hlookup hstale
  rw [if_pos hdone] at hentry
  have hjob := hlookup'.symm.trans (congrArg Prod.fst hentry)
  injection hjob with hjob
  have hdep : (job.after s.clock (job.fate cron s.clock)).dependencyStatus
      = job.dependencyStatus := by
    cases job.fate cron s.clock <;> rfl
  unfold canFailAsDependent at hcan
  rw [hjob, Bool.and_eq_true, hdep, decide_eq_true_eq, decide_eq_true_eq] at hcan
  exact hcan.2

include hspares happart in
/-- So are its dependents: no job on the way to one came back or was
taken. -/
theorem Midway.dependents (h : Midway cron queueName s t dead done fallen)
    (hdies : Dies cron s queueName r) (hnew : r ∉ fallen) (k : JobId) :
    DependentFails t r k ↔ DependentFails s r k := by
  have hsiblings := h.siblings hspares happart hdies hnew
  unfold DependentFails
  rw [h.places.workflowOf]
  refine and_congr_right fun hman => ⟨fun hk => ?_, fun hk => ?_⟩
  · have hnode : ∀ c y, c = r ∨ DependentFails s r c → y ∈ t.directDependents c →
        t.isJob y canFailAsDependent = true ∧ ¬ SiblingFails t r y →
          y ∈ s.directDependents c ∧
            s.isJob y canFailAsDependent = true ∧ ¬ SiblingFails s r y := by
      intro c y hc hy ⟨hcan, hsib⟩
      have hy' : y ∈ s.directDependents c := h.places.directDependents c ▸ hy
      refine ⟨hy', ?_, fun hs => hsib ((hsiblings y).2 hs)⟩
      rcases h.isJob_start (fun _ => unstarted_of_canFailAsDependent) hcan with
        ⟨-, hcan⟩ | ⟨hcomes, hdone⟩
      · exact hcan
      · obtain ⟨job, hlookup, hstale, hfate⟩ := hcomes
        have hdep := h.dependencyStatus hlookup hstale hdone hcan
        exact absurd (takes_putBack hlookup (running_of_isStale hstale) hdep hman hc hy')
          (hspares r y hdies ⟨job, hlookup, hstale, hfate⟩)
    induction hk with
    | direct hy hf =>
        obtain ⟨hy, hf⟩ := hnode r _ (.inl rfl) hy hf
        exact .direct hy hf
    | step _ hy hf ih =>
        obtain ⟨hy, hf⟩ := hnode _ _ (.inr ⟨hman, ih⟩) hy hf
        exact .step ih hy hf
  · have hnode : ∀ y, DependentFails s r y →
        t.isJob y canFailAsDependent = true ∧ ¬ SiblingFails t r y := by
      intro y hy
      have htakes : FailureTakes s r y := .inl (.inr hy)
      refine ⟨h.isJob_untouched happart hdies hnew htakes _ ▸ hy.2.isFresh.1, fun hs => ?_⟩
      exact hy.2.isFresh.2 ((hsiblings y).1 hs)
    have hnext : ∀ c y, y ∈ s.directDependents c → y ∈ t.directDependents c :=
      fun c y hy => (h.places.directDependents c).symm ▸ hy
    induction hk with
    | direct hy hf =>
        exact .direct (hnext _ _ hy) (hnode _ ⟨hman, .direct hy hf⟩)
    | step hc hy hf ih =>
        exact .step ih (hnext _ _ hy) (hnode _ ⟨hman, .step hc hy hf⟩)

include hspares happart in
/-- Midway, a failure takes what it would have taken at the start. -/
theorem Midway.sameTakes (h : Midway cron queueName s t dead done fallen)
    (hdies : Dies cron s queueName r) (hnew : r ∉ fallen) : SameTakes s t r where
  places := h.places
  siblings := h.siblings hspares happart hdies hnew
  dependents := h.dependents hspares happart hdies hnew
  mates := h.mates hspares happart hdies hnew
  same _ := h.untouched happart hdies hnew

include hspares happart in
/-- The small step in which the failure of a dead job takes others. -/
theorem Midway.fall (h : Midway cron queueName s t dead done fallen)
    (hdies : Dies cron s queueName r) (hnew : r ∉ fallen) :
    Midway cron queueName s (applyPolicies t r) dead done (r :: fallen) := by
  have hsame := h.sameTakes hspares happart hdies hnew
  have hside := applyPolicies_sideFailures t r
  have hkept : ∀ k, ¬ FailureTakes s r k → (applyPolicies t r).entry k = t.entry k :=
    fun k hk => applyPolicies_kept fun htakes => hk ((hsame.takes k).1 htakes)
  refine ⟨h.places.trans hside.samePlaces, fun hco => hside.index (h.index hco), ?_, ?_, ?_⟩
  · intro k job hlookup hstale
    rw [hkept k fun htakes => not_stale_of_failureTakes htakes ⟨job, hlookup, hstale⟩]
    exact h.stale k job hlookup hstale
  · intro r' hr' hdies' k hk
    rcases List.mem_cons.1 hr' with rfl | hr'
    · exact hsame.entry hk
    · rw [hkept k fun htakes => ?_]
      · exact h.taken r' hr' hdies' k hk
      · exact happart r r' k hdies hdies' (fun heq => hnew (heq ▸ hr')) ⟨htakes, hk⟩
  · intro k hstale hnot
    rw [hkept k (hnot r (List.mem_cons_self ..) hdies)]
    exact h.kept k hstale fun r' hr' => hnot r' (List.mem_cons_of_mem _ hr')

-- == passes

/-- A job that does not die takes nobody with it. -/
theorem Midway.spared (h : Midway cron queueName s t dead done fallen)
    (hlives : ¬ Dies cron s queueName x) : Midway cron queueName s t dead done (x :: fallen) where
  places := h.places
  index := h.index
  stale := h.stale
  taken r hr hdies := by
    rcases List.mem_cons.1 hr with rfl | hr
    · exact absurd hdies hlives
    · exact h.taken r hr hdies
  kept k hk hnot := h.kept k hk fun r hr => hnot r (List.mem_cons_of_mem _ hr)

theorem not_dies_of_fate (hlookup : s.jobs.lookup x = some job)
    (hfate : job.fate cron s.clock ≠ .buried) : ¬ Dies cron s queueName x := by
  intro ⟨job', hlookup', _, hfate'⟩
  rw [hlookup] at hlookup'
  injection hlookup' with hjob
  exact hfate (hjob ▸ hfate')

/-- A buried job is at its end when it is marked. -/
theorem Midway.buried (h : Midway cron queueName s t dead done fallen)
    (hlookup : s.jobs.lookup x = some job) (hfate : job.fate cron s.clock = .buried)
    (hdead : x ∈ dead) : Midway cron queueName s t dead (x :: done) fallen where
  places := h.places
  index := h.index
  stale k job' hlookup' hstale := by
    rw [h.stale k job' hlookup' hstale]
    by_cases hk : k = x
    · subst hk
      rw [hlookup] at hlookup'
      injection hlookup' with hjob
      subst hjob
      rw [if_pos (List.mem_cons_self ..), if_pos hdead, hfate]
      split <;> rfl
    · simp only [List.mem_cons, hk, false_or]
  taken := h.taken
  kept := h.kept

/-- A stale job that has not been dealt with is as it was. -/
theorem Midway.waiting (h : Midway cron queueName s t dead done fallen)
    (hlookup : s.jobs.lookup x = some job) (hstale : isStale s queueName job = true)
    (hdead : x ∉ dead) (hdone : x ∉ done) : t.jobs.lookup x = some job := by
  have hentry := h.stale x job hlookup hstale
  rw [if_neg hdone, if_neg hdead] at hentry
  exact (lookup_of_entry hentry).trans hlookup

include hspares happart in
/-- What follows from the death of a marked job. -/
theorem Midway.death (h : Midway cron queueName s t dead done fallen)
    (hlookup : s.jobs.lookup x = some job) (hstale : isStale s queueName job = true)
    (hexhausted : job.maxAttempts ≤ job.attempts) (hdead : x ∈ dead) (hdone : x ∉ done)
    (hfallen : x ∉ fallen) :
    ∃ t', afterStaleDeath cron s.clock t x = .ok t' ∧
      Midway cron queueName s t' dead (x :: done) (x :: fallen) := by
  have hmarked : t.jobs.lookup x = some (job.buried t.clock) := by
    have hentry := h.stale x job hlookup hstale
    rw [if_neg hdone, if_pos hdead] at hentry
    rw [h.places.rest.clock]
    exact congrArg Prod.fst hentry
  have hclock := h.places.rest.clock
  rcases afterStaleDeath_cases hmarked hexhausted cron with
    ⟨next, t', hfate, hok, hsettles⟩ | ⟨hfate, hok⟩
  all_goals rw [hclock] at hfate hok
  · rw [hclock] at hsettles
    refine ⟨t', hok, Midway.spared ?_ (not_dies_of_fate hlookup (by rw [hfate]; nofun))⟩
    refine h.settle hlookup hstale hsettles (place_after ..) ?_ fun k hk => ⟨?_, Iff.rfl⟩
    · rw [if_pos (List.mem_cons_self ..)]
    · simp [hk]
  · refine ⟨_, hok, Midway.fall hspares happart ?_ ⟨job, hlookup, hstale, hfate⟩ hfallen⟩
    exact h.buried hlookup hfate hdead

include hspares happart in
/-- One stale run reclaimed, and what follows from it at once. -/
theorem Midway.reclaim (h : Midway cron queueName s t dead done fallen)
    (hlookup : s.jobs.lookup x = some job) (hstale : isStale s queueName job = true)
    (hdead : x ∉ dead) (hdone : x ∉ done) (hfallen : x ∉ fallen) :
    Midway cron queueName s
      (reclaimed cron s.clock t (x, decide (job.maxAttempts ≤ job.attempts))) dead (x :: done)
      (x :: fallen) := by
  have hclock := h.places.rest.clock
  have hothers : ∀ k, k ≠ x → (k ∈ x :: done ↔ k ∈ done) ∧ (k ∈ dead ↔ k ∈ dead) :=
    fun k hk => ⟨by simp [hk], Iff.rfl⟩
  rcases reclaimed_by_fate (h.waiting hlookup hstale hdead hdone) cron with
    ⟨hfate, hsettles⟩ | ⟨hfate, t₁, hsettles, heq⟩
  all_goals rw [hclock] at hfate hsettles
  · refine Midway.spared ?_ (not_dies_of_fate hlookup hfate)
    refine h.settle hlookup hstale hsettles (place_after ..) ?_ hothers
    rw [if_pos (List.mem_cons_self ..)]
  · rw [hclock] at heq
    rw [heq]
    refine Midway.fall hspares happart ?_ ⟨job, hlookup, hstale, hfate⟩ hfallen
    refine h.settle hlookup hstale hsettles rfl ?_ hothers
    rw [if_pos (List.mem_cons_self ..), hfate]
    rfl

/-- The state in which a recovery that began in `s` ends: each stale job
at its end, each job taken as the failure alone would have left it, and
nothing else changed. -/
structure Recovered (cron : CronLibrary) (queueName : Option String) (s t : TestStorage) :
    Prop where
  places : SamePlaces s t
  index : s.Coherent → t.Coherent
  stale : ∀ k job, s.jobs.lookup k = some job → isStale s queueName job = true →
    t.entry k = (some (job.after s.clock (job.fate cron s.clock)), none)
  taken : ∀ r, Dies cron s queueName r → ∀ k, FailureTakes s r k →
    t.entry k = (applyPolicies s r).entry k
  kept : ∀ k, ¬ Stale s queueName k →
    (∀ r, Dies cron s queueName r → ¬ FailureTakes s r k) → t.entry k = s.entry k

theorem Dies.stale (h : Dies cron s queueName r) : Stale s queueName r := by
  obtain ⟨job, hlookup, hstale, -⟩ := h
  exact ⟨job, hlookup, hstale⟩

/-- Once every stale job has been dealt with. -/
theorem Midway.recovered (h : Midway cron queueName s t dead done fallen)
    (hdone : ∀ k, Stale s queueName k → k ∈ done)
    (hfallen : ∀ r, Dies cron s queueName r → r ∈ fallen) : Recovered cron queueName s t where
  places := h.places
  index := h.index
  stale k job hlookup hstale := by
    rw [h.stale k job hlookup hstale, if_pos (hdone k ⟨job, hlookup, hstale⟩)]
  taken r hdies := h.taken r (hfallen r hdies) hdies
  kept k hk hnot := h.kept k hk fun r _ => hnot r

include hspares happart in
/-- The pass that reclaims one run after another. -/
theorem requeueStaleJobs_recovered (hk : s.Keyed) :
    Recovered cron queueName s (requeueStaleJobs cron s queueName).2 := by
  have hloop : ∀ (l : List (JobId × Bool)) (t : TestStorage) (done : List JobId),
      Midway cron queueName s t [] done done →
      (l.map (·.1)).Nodup →
      (∀ e ∈ l, e ∈ staleRuns s queueName ∧ e.1 ∉ done) →
      ∃ done', Midway cron queueName s (l.foldl (reclaimed cron s.clock) t) [] done' done' ∧
        ∀ k, k ∈ done' ↔ k ∈ l.map (·.1) ∨ k ∈ done := by
    intro l
    induction l with
    | nil => exact fun t done h _ _ => ⟨done, h, by simp⟩
    | cons e l ih =>
        intro t done h hnd hl
        rw [List.map_cons, List.nodup_cons] at hnd
        obtain ⟨hmem, hdone⟩ := hl e (List.mem_cons_self ..)
        obtain ⟨job, hlookup, hstale, he⟩ := (mem_staleRuns hk).1 hmem
        have hmid := h.reclaim hspares happart hlookup hstale (by simp) hdone hdone
        rw [List.foldl_cons, show e = (e.1, decide (job.maxAttempts ≤ job.attempts)) from he ▸ rfl]
        obtain ⟨done₂, hmid₂, hdone₂⟩ := ih _ (e.1 :: done) hmid hnd.2 fun e' he' => by
          obtain ⟨hmem', hdone'⟩ := hl e' (List.mem_cons_of_mem _ he')
          have hne : e'.1 ≠ e.1 := fun heq => hnd.1 (heq ▸ List.mem_map_of_mem he')
          exact ⟨hmem', by simp [hne, hdone']⟩
        refine ⟨done₂, hmid₂, fun k => (hdone₂ k).trans ?_⟩
        simp only [List.mem_cons, List.map_cons]
        tauto
  rw [(requeueStaleJobs_eq hk cron queueName).1]
  obtain ⟨done, hmid, hdone⟩ := hloop (staleRuns s queueName) s [] (.start cron queueName s)
    (nodup_staleRuns hk queueName) fun e he => ⟨he, by simp⟩
  have hin : ∀ k, Stale s queueName k → k ∈ done :=
    fun k hstale => (hdone k).2 (.inl (hstale.listed hk))
  exact hmid.recovered hin fun r hdies => hin r hdies.stale

/-- The first phase: every stale run is put back or marked dead. -/
theorem Midway.firstPhase (hk : s.Keyed) (l : List (JobId × Bool)) :
    ∀ (t : TestStorage) (dead done : List JobId), Midway cron queueName s t dead done [] →
      (l.map (·.1)).Nodup →
      (∀ e ∈ l, e ∈ staleRuns s queueName ∧ e.1 ∉ dead ∧ e.1 ∉ done) →
      ∃ t' dead' done', l.foldlM (reclaimStale s.clock) t = .ok t' ∧
        Midway cron queueName s t' dead' done' [] ∧
        (∀ k, k ∈ dead' ↔ k ∈ (l.filter (·.2)).map (·.1) ∨ k ∈ dead) ∧
        ∀ k, k ∈ done' ↔ k ∈ (l.filter (!·.2)).map (·.1) ∨ k ∈ done := by
  induction l with
  | nil => exact fun t dead done h _ _ => ⟨t, dead, done, rfl, h, by simp, by simp⟩
  | cons e l ih =>
      intro t dead done h hnd hl
      rw [List.map_cons, List.nodup_cons] at hnd
      obtain ⟨x, exhausted⟩ := e
      obtain ⟨hmem, hdead, hdone⟩ := hl _ (List.mem_cons_self ..)
      obtain ⟨job, hlookup, hstale, he⟩ := (mem_staleRuns hk).1 hmem
      dsimp only at hlookup he hdead hdone
      have hwaiting := h.waiting hlookup hstale hdead hdone
      have hne : ∀ e' ∈ l, e'.1 ≠ x :=
        fun e' he' heq => hnd.1 (heq ▸ List.mem_map_of_mem (f := (·.1)) he')
      rw [List.foldlM_cons]
      cases exhausted with
      | true =>
          obtain ⟨t₁, hok, hsettles⟩ := markStaleDead_settles hwaiting s.clock
          have hmid : Midway cron queueName s t₁ (x :: dead) done [] := by
            refine h.settle hlookup hstale hsettles rfl ?_ fun k hk => ⟨Iff.rfl, ?_⟩
            · rw [if_neg hdone, if_pos (List.mem_cons_self ..)]
            · simp [hk]
          obtain ⟨t', dead', done', hrest, hmid', hd, hf⟩ := ih t₁ (x :: dead) done hmid hnd.2
            fun e' he' => by
              obtain ⟨hmem', hdead', hdone'⟩ := hl e' (List.mem_cons_of_mem _ he')
              exact ⟨hmem', by simp [hne e' he', hdead'], hdone'⟩
          refine ⟨t', dead', done', ?_, hmid', fun k => (hd k).trans ?_, fun k => ?_⟩
          · show (markStaleDead (t.removeLease x) x s.clock).bind _ = _
            rw [hok]
            exact hrest
          · simp only [List.mem_cons, List.filter_cons, if_true, List.map_cons]
            tauto
          · rw [hf]
            simp
      | false =>
          obtain ⟨t₁, hok, hsettles⟩ := requeueStale_settles hwaiting s.clock
          have hfate : job.fate cron s.clock = .requeued := if_neg (by simpa using he)
          have hmid : Midway cron queueName s t₁ dead (x :: done) [] := by
            refine h.settle hlookup hstale hsettles rfl ?_ fun k hk => ⟨?_, Iff.rfl⟩
            · rw [if_pos (List.mem_cons_self ..), hfate]
              rfl
            · simp [hk]
          obtain ⟨t', dead', done', hrest, hmid', hd, hf⟩ := ih t₁ dead (x :: done) hmid hnd.2
            fun e' he' => by
              obtain ⟨hmem', hdead', hdone'⟩ := hl e' (List.mem_cons_of_mem _ he')
              exact ⟨hmem', hdead', by simp [hne e' he', hdone']⟩
          refine ⟨t', dead', done', ?_, hmid', fun k => ?_, fun k => (hf k).trans ?_⟩
          · show (requeueStale (t.removeLease x) x s.clock).bind _ = _
            rw [hok]
            exact hrest
          · rw [hd]
            simp
          · simp only [List.mem_cons, List.filter_cons, Bool.not_false, if_true, List.map_cons]
            tauto

include hspares happart in
/-- The second phase: what follows from the dead jobs. -/
theorem Midway.secondPhase (ids : List JobId) :
    ∀ (t : TestStorage) (done fallen : List JobId),
      Midway cron queueName s t dead done fallen → ids.Nodup →
      (∀ x ∈ ids, x ∈ dead ∧ x ∉ done ∧ x ∉ fallen ∧ ∃ job, s.jobs.lookup x = some job ∧
        isStale s queueName job = true ∧ job.maxAttempts ≤ job.attempts) →
      ∃ t' done' fallen', ids.foldlM (afterStaleDeath cron s.clock) t = .ok t' ∧
        Midway cron queueName s t' dead done' fallen' ∧
        (∀ k, k ∈ done' ↔ k ∈ ids ∨ k ∈ done) ∧ ∀ k, k ∈ fallen' ↔ k ∈ ids ∨ k ∈ fallen := by
  induction ids with
  | nil => exact fun t done fallen h _ _ => ⟨t, done, fallen, rfl, h, by simp, by simp⟩
  | cons x ids ih =>
      intro t done fallen h hnd hids
      rw [List.nodup_cons] at hnd
      obtain ⟨hdead, hdone, hfallen, job, hlookup, hstale, hexhausted⟩ :=
        hids x (List.mem_cons_self ..)
      obtain ⟨t₁, hok, hmid⟩ := h.death hspares happart hlookup hstale hexhausted hdead hdone
        hfallen
      obtain ⟨t', done', fallen', hrest, hmid', hd, hf⟩ := ih t₁ _ _ hmid hnd.2 fun y hy => by
        obtain ⟨hdead', hdone', hfallen', hjob⟩ := hids y (List.mem_cons_of_mem _ hy)
        have hne : y ≠ x := fun heq => hnd.1 (heq ▸ hy)
        exact ⟨hdead', by simp [hne, hdone'], by simp [hne, hfallen'], hjob⟩
      refine ⟨t', done', fallen', ?_, hmid', fun k => (hd k).trans ?_, fun k => (hf k).trans ?_⟩
      · rw [List.foldlM_cons]
        show (afterStaleDeath cron s.clock t x).bind _ = _
        rw [hok]
        exact hrest
      · simp only [List.mem_cons]
        tauto
      · simp only [List.mem_cons]
        tauto

include hspares happart in
/-- The pass in two phases. -/
theorem requeueStaleInPhases_recovered (hk : s.Keyed) :
    (requeueStaleInPhases cron s queueName).1
        = .ok ⟨((staleRuns s queueName).filter (!·.2)).map (·.1),
          ((staleRuns s queueName).filter (·.2)).map (·.1)⟩ ∧
      Recovered cron queueName s (requeueStaleInPhases cron s queueName).2 := by
  obtain ⟨t₁, dead, done, hfirst, hmid, hdead, hdone⟩ := Midway.firstPhase hk
    (staleRuns s queueName) s [] [] (.start cron queueName s) (nodup_staleRuns hk queueName)
    fun e he => ⟨he, by simp, by simp⟩
  have hflag : ∀ x, x ∈ ((staleRuns s queueName).filter (·.2)).map (·.1) →
      ∃ job, s.jobs.lookup x = some job ∧ isStale s queueName job = true ∧
        job.maxAttempts ≤ job.attempts := by
    intro x hx
    obtain ⟨e, he, rfl⟩ := List.mem_map.1 hx
    obtain ⟨hmem, hexhausted⟩ := List.mem_filter.1 he
    obtain ⟨job, hlookup, hstale, heq⟩ := (mem_staleRuns hk).1 hmem
    rw [heq] at hexhausted
    exact ⟨job, hlookup, hstale, of_decide_eq_true hexhausted⟩
  obtain ⟨t₂, done₂, fallen, hsecond, hmid₂, hdone₂, hfallen⟩ := Midway.secondPhase hspares
    happart (((staleRuns s queueName).filter (·.2)).map (·.1)) t₁ done [] hmid
    ((nodup_staleRuns hk queueName).sublist (List.filter_sublist.map _)) fun x hx => by
      refine ⟨(hdead x).2 (.inl hx), fun hin => ?_, by simp, hflag x hx⟩
      -- a run is not both put back and marked dead
      obtain ⟨e, he, rfl⟩ := List.mem_map.1 (((hdone x).1 hin).resolve_right (by simp))
      obtain ⟨hmem, hput⟩ := List.mem_filter.1 he
      obtain ⟨job, hlookup, -, heq⟩ := (mem_staleRuns hk).1 hmem
      obtain ⟨job', hlookup', -, hexhausted⟩ := hflag _ hx
      rw [hlookup] at hlookup'
      injection hlookup' with hjob
      rw [heq, hjob, decide_eq_true hexhausted] at hput
      cases hput
  have hrun : requeueStaleInPhases cron s queueName
      = (.ok ⟨((staleRuns s queueName).filter (!·.2)).map (·.1),
          ((staleRuns s queueName).filter (·.2)).map (·.1)⟩, t₂) := by
    unfold requeueStaleInPhases
    dsimp only
    rw [hfirst]
    show commit s (Except.bind (List.foldlM (afterStaleDeath cron s.clock) t₁ _) _) = _
    rw [hsecond]
    rfl
  have hsplit : ∀ k, Stale s queueName k →
      k ∈ ((staleRuns s queueName).filter (·.2)).map (·.1) ∨
        k ∈ ((staleRuns s queueName).filter (!·.2)).map (·.1) := by
    intro k hstale
    obtain ⟨e, he, rfl⟩ := List.mem_map.1 (hstale.listed hk)
    cases hflag : e.2 with
    | true => exact .inl (List.mem_map_of_mem (List.mem_filter.2 ⟨he, hflag⟩))
    | false => exact .inr (List.mem_map_of_mem (List.mem_filter.2 ⟨he, by rw [hflag]; rfl⟩))
  rw [hrun]
  refine ⟨rfl, hmid₂.recovered (fun k hstale => ?_) fun r hdies => ?_⟩
  · rw [hdone₂, hdone]
    rcases hsplit k hstale with h | h
    · exact .inl h
    · exact .inr (.inl h)
  · rw [hfallen]
    rcases hsplit r hdies.stale with h | h
    · exact .inl h
    · -- a job that is put back does not die
      obtain ⟨e, he, rfl⟩ := List.mem_map.1 h
      obtain ⟨hmem, hput⟩ := List.mem_filter.1 he
      obtain ⟨job, hlookup, -, heq⟩ := (mem_staleRuns hk).1 hmem
      refine absurd hdies (not_dies_of_fate hlookup ?_)
      have hleft : ¬ job.maxAttempts ≤ job.attempts := by
        rw [heq] at hput
        simpa using hput
      unfold Job.fate
      rw [if_neg hleft]
      nofun

end Falling

end Hammerwork
