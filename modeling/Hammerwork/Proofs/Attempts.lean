/-
What the operations do to the attempts of a job.

A claim counts an attempt and a release takes it back. Every other write
leaves the attempts alone, except those that hand a job back afresh (a
recurring job's next run, or an operator's retry of a dead or archived
one). `KeepsAttempts` says so of one step; it also says when such a step
makes a job pending: only from a run with attempts left.
-/
import Hammerwork.Worker
import Hammerwork.Laws.Index
import Hammerwork.Proofs.Reclaim

namespace Hammerwork

open TestStorage TestQueue

variable {s s' : TestStorage} {env : Env} {id k : JobId} {run job job' job'' : Job}

-- == steps in between

/-- What a step that neither claims nor releases a job makes of it. -/
structure KeepsAttempts (job job' : Job) : Prop where
  attempts : job'.attempts = job.attempts
  maxAttempts : job'.maxAttempts = job.maxAttempts
  recurring : job.recurring = false → job'.recurring = false
  pending : job'.status = .pending →
    job.status = .pending ∨ (job.status = .running ∧ job.attempts < job.maxAttempts)
  running : job'.status = .running → job.status = .running

theorem KeepsAttempts.refl (job : Job) : KeepsAttempts job job :=
  ⟨rfl, rfl, id, .inl, id⟩

theorem KeepsAttempts.trans (h₁ : KeepsAttempts job job') (h₂ : KeepsAttempts job' job'') :
    KeepsAttempts job job'' where
  attempts := h₂.attempts.trans h₁.attempts
  maxAttempts := h₂.maxAttempts.trans h₁.maxAttempts
  recurring h := h₂.recurring (h₁.recurring h)
  pending h := by
    rcases h₂.pending h with hpending | ⟨hrunning, hlt⟩
    · exact h₁.pending hpending
    · rw [h₁.attempts, h₁.maxAttempts] at hlt
      exact .inr ⟨h₁.running hrunning, hlt⟩
  running h := h₁.running (h₂.running h)

/-- A job that is over keeps its attempts. -/
theorem KeepsAttempts.of_over (hattempts : job'.attempts = job.attempts)
    (hmax : job'.maxAttempts = job.maxAttempts) (hrec : job'.recurring = job.recurring)
    (hpending : job'.status ≠ .pending) (hrunning : job'.status ≠ .running) :
    KeepsAttempts job job' :=
  ⟨hattempts, hmax, fun h => hrec.trans h, fun h => absurd h hpending,
    fun h => absurd h hrunning⟩

/-- The deeds that count, take back or reset the attempts of `k`, or hand
it back. -/
def Deed.Recounts (k : JobId) : Deed → Prop
  | claim id | release id | retry id | rerun id | requeue id | reschedule id | retryDead id
  | enable id | restore id => id = k
  | _ => False

/-- No other deed makes a job pending, or running. -/
theorem Change.keepsAttempts {d : Deed} (h : Change s d k job job') (hd : ¬ d.Recounts k) :
    KeepsAttempts job job' := by
  cases h with
  | claim | release | retry | rerun | rerunEnded | rerunBuried | requeue | reschedule
    | retryDead | keepRunning | enable | restore => exact absurd rfl hd
  | start hrun => exact ⟨rfl, rfl, id, fun h => .inl h, fun _ => hrun⟩
  | runError | disable => exact ⟨rfl, rfl, fun h => by first | exact h | rfl, .inl, id⟩
  | resolve => exact ⟨rfl, rfl, id, .inl, id⟩
  | _ => exact .of_over rfl rfl rfl nofun nofun

/-- Neither does a chain of such deeds that does not insert the job. -/
theorem Writes.keepsAttempts {allowed : WriteKind → Prop} (h : Writes allowed s s')
    (hlookup : s.jobs.lookup k = some job)
    (hinsert : ∀ given, allowed (.insert given) → ∀ job ∈ given, job.id ≠ k)
    (hdeed : ∀ d, allowed (.deed d) → ¬ d.Recounts k)
    (hlookup' : s'.jobs.lookup k = some job') : KeepsAttempts job job' :=
  h.record hlookup (.refl job) hinsert
    (fun _ _ _ _ hw hchange hR => hR.trans (hchange.keepsAttempts (hdeed _ hw))) hlookup'

/-- A job stays stored under writes that delete nothing. -/
theorem Writes.stays {allowed : WriteKind → Prop} (h : Writes allowed s s')
    (hdelete : ¬ allowed .delete) (hstored : (s.jobs.lookup k).isSome) :
    (s'.jobs.lookup k).isSome := by
  refine h.preserves (P := fun t => (t.jobs.lookup k).isSome) (fun t w t' hw hwrite ht => ?_)
    hstored
  obtain ⟨job, hjob⟩ := Option.isSome_iff_exists.1 ht
  rcases hwrite.lookup_fate hjob with h | ⟨_, _, _, h, _⟩ | ⟨_, _, _, _, _, _, _, h⟩ | ⟨hdel, _⟩
  · rw [h]
    rfl
  · rw [h]
    rfl
  · rw [h]
    rfl
  · exact absurd (hdel ▸ hw) hdelete

/-- One deed that recounts nothing leaves the attempts alone. -/
theorem Changed.keepsAttempts {d : Deed} (h : Changed s d s') (hd : ¬ d.Recounts k)
    (hlookup : s.jobs.lookup k = some job) (hlookup' : s'.jobs.lookup k = some job') :
    KeepsAttempts job job' := by
  rcases h.jobs k with hkept | ⟨job₀, job₁, hold, hnew, hchange⟩
  · rw [hkept, hlookup] at hlookup'
    obtain rfl := Option.some.inj hlookup'
    exact .refl job
  · obtain rfl := Option.some.inj (hold.symm.trans hlookup)
    obtain rfl := Option.some.inj (hnew.symm.trans hlookup')
    exact hchange.keepsAttempts hd

/-- A job with attempts left is put back from a run. -/
theorem keepsAttempts_requeued (now : DateTime) (hrun : job.status = .running)
    (hleft : job.attempts < job.maxAttempts) : KeepsAttempts job (job.requeued now) :=
  ⟨rfl, rfl, id, fun _ => .inr ⟨hrun, hleft⟩, fun h => by cases h⟩

theorem keepsAttempts_retried (retryAt : DateTime) (dependencyStatus : Option DependencyStatus)
    (error : String) (timedOut : Bool) (now : DateTime) (hrun : job.status = .running)
    (hleft : job.attempts < job.maxAttempts) :
    KeepsAttempts job ((job.retried retryAt dependencyStatus).withRunError error timedOut now) :=
  ⟨rfl, rfl, id, fun _ => .inr ⟨hrun, hleft⟩, fun h => by cases h⟩

-- == run reports

/-- A report leaves the attempts of every job that is not recurring; it
puts back the job it is about only as a retry. -/
theorem finishJobRun_keepsAttempts (hk : s.Keyed) (cron : CronLibrary) (outcome : JobOutcome)
    (wall : DateTime) (hlookup : s.jobs.lookup k = some job) (hrec : job.recurring = false)
    (hleft : run.id = k → outcome.terminalStatus = none → runIsCurrent s run = true →
      job.attempts < job.maxAttempts)
    (hlookup' : (finishJobRun cron s run outcome wall).2.jobs.lookup k = some job') :
    KeepsAttempts job job' := by
  have hspec := finishJobRun_spec cron s run outcome wall
  by_cases hid : run.id = k
  · have hrerun : ∀ {stored next}, Current s run stored →
        rerunAt cron s stored outcome = some next → False := by
      intro stored next hcur hnext
      obtain rfl := Option.some.inj ((hid ▸ hcur.lookup).symm.trans hlookup)
      simp [rerunAt, hrec] at hnext
    generalize finishJobRun cron s run outcome wall = result at hspec hlookup'
    cases hspec with
    | stale | refused =>
        obtain rfl := Option.some.inj (hlookup.symm.trans hlookup')
        exact .refl job
    | rerun hcur hnext _ => exact (hrerun hcur hnext).elim
    | endedRerun _ hcur hnext _ => exact (hrerun hcur hnext).elim
    | @completed _ stored s₁ hcur _ hr =>
        obtain rfl := Option.some.inj ((hid ▸ hcur.lookup).symm.trans hlookup)
        have hfirst : KeepsAttempts stored (stored.completedAtTime s.clock) :=
          .of_over rfl rfl rfl nofun nofun
        have hr₁ : s₁.jobs.lookup k = some (stored.completedAtTime s.clock) :=
          hid ▸ hr.lookup_self
        have hlast : Changed s₁ .resolve (s₁.resolveDependents run.id s.clock).1 := by
          have hk₁ : s₁.Keyed := by
            have hid₁ : (stored.completedAtTime s.clock).id = run.id :=
              hk run.id stored hcur.lookup
            exact hr.keyed hid₁ hk
          rw [← hr.rest.clock]
          exact resolveDependents_changed hk₁ run.id
        exact hfirst.trans (hlast.keepsAttempts id hr₁ hlookup')
    | retried hcur _ _ hr' =>
        obtain rfl := Option.some.inj ((hid ▸ hcur.lookup).symm.trans hlookup)
        rw [← hid, hr'.lookup_self] at hlookup'
        obtain rfl := Option.some.inj hlookup'
        exact keepsAttempts_retried _ _ _ _ _ hcur.status
          (hleft hid rfl (runIsCurrent_eq_true.2 ⟨_, hcur⟩))
    | @ended _ _ status error stored s₁ _ hends hcur _ hr =>
        obtain rfl := Option.some.inj ((hid ▸ hcur.lookup).symm.trans hlookup)
        have hr₁ : s₁.jobs.lookup k = some (stored.ended status error s.clock) :=
          hid ▸ hr.lookup_self
        have hfirst : KeepsAttempts stored (stored.ended status error s.clock) := by
          cases hends <;> exact .of_over rfl rfl rfl nofun nofun
        exact hfirst.trans ((applyPolicies_fallout s₁ run.id).keepsAttempts id hr₁ hlookup')
  · have hwrites : Writes (FinishAllows outcome run.id) s
        (finishJobRun cron s run outcome wall).2 := finish_writes hk hspec fun _ _ hw => hw
    refine hwrites.keepsAttempts hlookup (fun given h => ?_) (fun d h => ?_) hlookup'
    · rcases h with h | h | h | h | ⟨-, h⟩ | ⟨-, h⟩ | h <;> cases h
    · rcases h with h | h | h | h | ⟨-, h⟩ | ⟨-, h⟩ | h <;> cases h <;> first | exact hid | exact id

/-- Enqueueing children leaves the other stored jobs as they are. -/
theorem Writes.spawning_kept {p : Prop} {children : List Job}
    (h : Writes (fun w => p ∧ SpawnAllows children w) s s') (hlookup : s.jobs.lookup k = some job)
    (hnew : ∀ child ∈ children, child.id ≠ k) : s'.jobs.lookup k = some job := by
  have hstored : (s'.jobs.lookup k).isSome := by
    refine h.stays (fun hw => ?_) (by rw [hlookup]; rfl)
    obtain ⟨-, ⟨_, -, hw⟩ | hw⟩ := hw <;> cases hw
  obtain ⟨job', hlookup'⟩ := Option.isSome_iff_exists.1 hstored
  have hsame : job' = job := by
    refine h.record (R := (· = job)) hlookup rfl (fun given hw child hchild => ?_)
      (fun _ _ _ _ hw => ?_) hlookup'
    · obtain ⟨-, ⟨child', hchild', hw⟩ | hw⟩ := hw
      · obtain rfl := WriteKind.insert.inj hw
        rw [List.mem_singleton.1 hchild]
        exact hnew child' hchild'
      · cases hw
    · obtain ⟨-, ⟨_, -, hw⟩ | hw⟩ := hw <;> cases hw
  rw [hlookup', hsame]

/-- Completing a run with children is a report, after jobs were
inserted. -/
theorem completeJobRunWithChildren_keepsAttempts (env : Env) (hk : s.Keyed)
    {children : List Job} (wall : DateTime) (hlookup : s.jobs.lookup k = some job)
    (hrec : job.recurring = false) (hnew : ∀ child ∈ children, child.id ≠ k)
    (hlookup' : (completeJobRunWithChildren env s run children wall).2.jobs.lookup k
      = some job') : KeepsAttempts job job' := by
  obtain ⟨u, hwrites, hlast⟩ := completeJobRunWithChildren_then env s run children wall
  have hkept := hwrites.spawning_kept hlookup hnew
  rcases hlast with heq | ⟨-, heq⟩
  · rw [heq, hkept] at hlookup'
    rw [← Option.some.inj hlookup']
    exact .refl job
  · rw [heq] at hlookup'
    exact finishJobRun_keepsAttempts (hwrites.keyed hk) env.cron .completed wall hkept hrec
      (fun _ h => by cases h) hlookup'

-- == stale jobs

/-- Reclaiming one stale run puts its job back if attempts are left, and
leaves the other running jobs as they are. -/
theorem reclaimed_keepsAttempts {cron : CronLibrary} {now : DateTime} {e : JobId × Bool}
    (hnow : s.clock = now) (hlookup : s.jobs.lookup k = some job) (hrec : job.recurring = false)
    (hstored : (s.jobs.lookup e.1).isSome)
    (hleft : e.1 = k → job.status = .running ∧ (e.2 = false → job.attempts < job.maxAttempts)) :
    ∃ job', (reclaimed cron now s e).jobs.lookup k = some job' ∧ KeepsAttempts job job' ∧
      (e.1 ≠ k → job.status = .running → job' = job) := by
  subst hnow
  have hfallout : ∀ {s₁ job₁}, s₁.jobs.lookup k = some job₁ → KeepsAttempts job job₁ →
      (e.1 ≠ k → job₁ = job) →
      ∃ job', (applyPolicies s₁ e.1).jobs.lookup k = some job' ∧ KeepsAttempts job job' ∧
        (e.1 ≠ k → job.status = .running → job' = job) := by
    intro s₁ job₁ hlookup₁ hkeeps hsame
    rcases (applyPolicies_fallout s₁ e.1).jobs k with hkept | ⟨job₀, job₂, hold, hnew, hchange⟩
    · exact ⟨job₁, hkept.trans hlookup₁, hkeeps, fun hne _ => hsame hne⟩
    · obtain rfl := Option.some.inj (hold.symm.trans hlookup₁)
      refine ⟨job₂, hnew, hkeeps.trans (hchange.keepsAttempts id), fun hne hrun => ?_⟩
      cases hchange with
      | fallout _ hun =>
          rw [hsame hne, unstarted, hrun] at hun
          cases hun
  have hother : ∀ {s₁ : TestStorage} {record}, Rewrite (s.removeLease e.1) e.1 record s₁ →
      ¬ e.1 = k → s₁.jobs.lookup k = some job := fun hr hid =>
    (hr.lookup_ne fun h => hid h.symm).trans hlookup
  rcases reclaimed_cases cron s.clock hstored with ⟨-, h⟩ | ⟨hflag, h⟩
  · obtain ⟨stored, hlookup₀, ⟨hrecurring, next, -, hr⟩ | ⟨-, s₁, hr, heq⟩⟩ :=
      buryStale_ok (s := s.removeLease e.1) h
    · by_cases hid : e.1 = k
      · obtain rfl := Option.some.inj ((hid ▸ hlookup₀).symm.trans hlookup)
        rw [hrec] at hrecurring
        cases hrecurring
      · exact ⟨job, hother hr hid, .refl job, fun _ _ => rfl⟩
    · rw [heq]
      by_cases hid : e.1 = k
      · obtain rfl := Option.some.inj ((hid ▸ hlookup₀).symm.trans hlookup)
        have hburied : KeepsAttempts stored (stored.buried s.clock) :=
          .of_over rfl rfl rfl nofun nofun
        exact hfallout (hid ▸ hr.lookup_self) hburied fun hne => absurd hid hne
      · exact hfallout (hother hr hid) (.refl job) fun _ => rfl
  · obtain ⟨stored, hlookup₀, hr⟩ := requeueStale_ok h
    by_cases hid : e.1 = k
    · obtain rfl := Option.some.inj ((hid ▸ hlookup₀).symm.trans hlookup)
      obtain ⟨hrun, hlt⟩ := hleft hid
      exact ⟨_, hid ▸ hr.lookup_self, keepsAttempts_requeued _ hrun (hlt hflag),
        fun hne => absurd hid hne⟩
    · exact ⟨job, hother hr hid, .refl job, fun _ _ => rfl⟩

/-- Reclaiming does not touch the clock. -/
theorem reclaimed_clock {cron : CronLibrary} {now : DateTime} {e : JobId × Bool}
    (hnow : s.clock = now) (hstored : (s.jobs.lookup e.1).isSome) :
    (reclaimed cron now s e).clock = now := by
  subst hnow
  rcases reclaimed_cases cron s.clock hstored with ⟨-, h⟩ | ⟨-, h⟩
  · obtain ⟨stored, -, ⟨-, next, -, hr⟩ | ⟨-, s₁, hr, heq⟩⟩ :=
      buryStale_ok (s := s.removeLease e.1) h
    · exact hr.rest.clock
    · rw [heq]
      exact (applyPolicies_fallout s₁ e.1).rest.clock.trans hr.rest.clock
  · obtain ⟨stored, -, hr⟩ := requeueStale_ok h
    exact hr.rest.clock

/-- A recovery puts back only jobs with attempts left, and not a job that
is not recurring and has none. -/
theorem requeueStaleJobs_keepsAttempts (hk : s.Keyed) (cron : CronLibrary)
    (queueName : Option String) (hlookup : s.jobs.lookup k = some job)
    (hrec : job.recurring = false) :
    ∃ job', (requeueStaleJobs cron s queueName).2.jobs.lookup k = some job' ∧
      KeepsAttempts job job' := by
  -- what is left of the list has not been touched, as far as it names `k`
  have hloop : ∀ (l : List (JobId × Bool)) (t : TestStorage) (middle : Job),
      (l.map (·.1)).Nodup → (∀ e ∈ l, e ∈ staleRuns s queueName) → t.clock = s.clock →
      (∀ e ∈ l, (t.jobs.lookup e.1).isSome) → t.jobs.lookup k = some middle →
      KeepsAttempts job middle → (k ∈ l.map (·.1) → middle = job) →
      ∃ job', (l.foldl (reclaimed cron s.clock) t).jobs.lookup k = some job' ∧
        KeepsAttempts job job' := by
    intro l
    induction l with
    | nil => exact fun t middle _ _ _ _ hmiddle hkeeps _ => ⟨middle, hmiddle, hkeeps⟩
    | cons e l ih =>
        intro t middle hnd hl hclock hstored hmiddle hkeeps hsame
        rw [List.map_cons, List.nodup_cons] at hnd
        have hself := hstored e (List.mem_cons_self ..)
        have hleft : e.1 = k → middle.status = .running ∧
            (e.2 = false → middle.attempts < middle.maxAttempts) := by
          intro hid
          obtain rfl := hsame (by rw [List.map_cons, hid]; exact List.mem_cons_self ..)
          obtain ⟨stored, hstored', hstale, hflag⟩ :=
            (mem_staleRuns hk).1 (hl e (List.mem_cons_self ..))
          rw [hid, hlookup] at hstored'
          obtain rfl := Option.some.inj hstored'
          refine ⟨running_of_isStale hstale, fun hfalse => ?_⟩
          rw [hfalse] at hflag
          exact not_le.1 (of_decide_eq_false hflag.symm)
        obtain ⟨job', hlookup', hkeeps', hkept⟩ := @reclaimed_keepsAttempts _ _ _ cron _ _ hclock
          hmiddle (hkeeps.recurring hrec) hself hleft
        refine ih _ job' hnd.2 (fun e' he' => hl e' (List.mem_cons_of_mem _ he'))
          (reclaimed_clock hclock hself) (fun e' he' => ?_) hlookup' (hkeeps.trans hkeeps')
          fun hmem => ?_
        · rw [(reclaimed_quiet hself).stored]
          exact hstored e' (List.mem_cons_of_mem _ he')
        · obtain rfl := hsame (List.mem_cons_of_mem _ hmem)
          obtain ⟨e', he', hid'⟩ := List.mem_map.1 hmem
          obtain ⟨stored, hstored', hstale, -⟩ :=
            (mem_staleRuns hk).1 (hl e' (List.mem_cons_of_mem _ he'))
          rw [hid', hlookup] at hstored'
          obtain rfl := Option.some.inj hstored'
          refine hkept (fun hid => hnd.1 ?_) (running_of_isStale hstale)
          rw [hid]
          exact hmem
  rw [(requeueStaleJobs_eq hk cron queueName).1]
  refine hloop (staleRuns s queueName) s job (nodup_staleRuns hk queueName) (fun e he => he) rfl
    (fun e he => ?_) hlookup (.refl job) fun _ => rfl
  obtain ⟨stored, hstored, -⟩ := (mem_staleRuns hk).1 he
  rw [hstored]
  rfl

end Hammerwork
