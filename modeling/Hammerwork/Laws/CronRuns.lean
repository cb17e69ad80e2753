/-
The runs of a recurring job.

`nextCronRun` counts from the later of a run's slot and its start
(`cronBase`). The first occurrence after that is the next run while it
lies ahead; when it has passed, the occurrences that passed are made up
for by one run, at the latest of them, or at once when there are too many
to step through (`nextCronRun_coalesces`).

A run of the queue ends at a call that records its outcome or reclaims it
(`Op.EndsRun`), and if the job is pending afterwards it was put back for
its next run (`PutBack`), at the time `nextCronRun` says and no other
(`PutBack.spec`). The next run starts after that call, and so at a time
the clock showed later (`PutBack.starts_later`).

# In turn

A run is put back for a time after its start, and when the runs start no
earlier than they were scheduled (`InTurn`), each start is no earlier
than the time before it: the times strictly increase. An occurrence that
passes during a run is passed once the next run starts, so of all runs
only the one put back at the end of that run is on account of it.
-/
import Hammerwork.Proofs.Attempts
import Hammerwork.Laws.Fencing
import Hammerwork.Laws.CronEnqueue
import Mathlib.Data.Int.Interval

namespace Hammerwork

open TestStorage TestQueue Occurrences

variable {env : Env} {cron : CronLibrary} {occurs : DateTime → Prop} {schedule : CronSchedule}
  {job job' : Job} {now : DateTime}

-- == one result

/-- The slot of a run: the earlier of its next run and its schedule. -/
def cronSlot (job : Job) : DateTime :=
  match job.nextRunAt with
  | some slot => min slot job.scheduledAt
  | none => job.scheduledAt

/-- What the next run is counted from: the slot, or the start if it is
later. -/
def cronBase (job : Job) : DateTime :=
  match job.startedAt with
  | some started => max (cronSlot job) started
  | none => cronSlot job

/-- The next run of a job that is counted from `base` and ended at
`now`. -/
structure Coalesces (occurs : DateTime → Prop) (base now : DateTime)
    (result : Option DateTime) : Prop where
  none : (∀ t, base < t → ¬ occurs t) → result = none
  ahead : ∀ first, IsLeast {t | base < t ∧ occurs t} first → now < first → result = some first
  passed : ∀ first latest, IsLeast {t | base < t ∧ occurs t} first → first ≤ now →
    (between occurs first now).ncard < 10000 → IsGreatest (between occurs base now) latest →
      result = some latest
  overrun : ∀ first, IsLeast {t | base < t ∧ occurs t} first → first ≤ now →
    10000 ≤ (between occurs first now).ncard → result = some now

/-- Stepping ends at the latest occurrence, or at `now` when there are
more than the steps. -/
theorem scanOccurrences_spec (hfinds : FindsNext schedule.nextExecution occurs) :
    ∀ (fuel : Nat) (latest : DateTime),
      ((between occurs latest now).ncard < fuel →
        IsGreatest (insert latest (between occurs latest now))
          (scanOccurrences schedule now fuel latest)) ∧
      (fuel ≤ (between occurs latest now).ncard →
        scanOccurrences schedule now fuel latest = now) := by
  intro fuel
  induction fuel with
  | zero => exact fun latest => ⟨fun h => absurd h (Nat.not_lt_zero _), fun _ => rfl⟩
  | succ fuel ih =>
      intro latest
      -- no step stays within `now`
      have hstop : (∀ t, schedule.nextExecution latest = some t → now < t) →
          scanOccurrences schedule now (fuel + 1) latest = latest →
          ((between occurs latest now).ncard < fuel + 1 →
            IsGreatest (insert latest (between occurs latest now))
              (scanOccurrences schedule now (fuel + 1) latest)) ∧
          (fuel + 1 ≤ (between occurs latest now).ncard →
            scanOccurrences schedule now (fuel + 1) latest = now) := by
        intro hnone hscan
        have hempty := hfinds.between_eq_empty hnone
        rw [hempty, hscan, Set.ncard_empty]
        refine ⟨fun _ => ?_, fun h => absurd h (Nat.not_succ_le_zero fuel)⟩
        simp [IsGreatest, upperBounds]
      cases hnext : schedule.nextExecution latest with
      | none =>
          refine hstop (fun t ht => ?_) ?_
          · rw [hnext] at ht
            cases ht
          · rw [scanOccurrences, hnext]
      | some occurrence =>
          by_cases hpassed : occurrence ≤ now
          · have hscan : scanOccurrences schedule now (fuel + 1) latest
                = scanOccurrences schedule now fuel occurrence := by
              rw [scanOccurrences, hnext]
              exact if_pos hpassed
            rw [hscan, hfinds.ncard_between hnext hpassed, hfinds.between_eq_insert hnext hpassed]
            obtain ⟨hwithin, hbeyond⟩ := ih occurrence
            refine ⟨fun h => ?_, fun h => hbeyond (Nat.le_of_succ_le_succ h)⟩
            obtain ⟨hmem, hgreatest⟩ := hwithin (Nat.lt_of_succ_lt_succ h)
            refine ⟨Set.mem_insert_of_mem _ hmem, fun t ht => ?_⟩
            rcases Set.mem_insert_iff.1 ht with rfl | ht
            · exact (hfinds.lt hnext).le.trans (hgreatest (Set.mem_insert _ _))
            · exact hgreatest ht
          · refine hstop (fun t ht => ?_) ?_
            · rw [hnext] at ht
              exact Option.some.inj ht ▸ not_le.1 hpassed
            · rw [scanOccurrences, hnext]
              exact if_neg hpassed

/-- The schedule of a job, as the library reads it. -/
def Job.ScheduledBy (job : Job) (cron : CronLibrary) (schedule : cron.Schedule) (tz : cron.Tz) :
    Prop :=
  ∃ expression, job.cronSchedule = some expression ∧
    cron.parseSchedule expression = .ok schedule ∧
    cron.parseTz (job.timezone.getD "UTC") = some tz

/-- A job has a schedule when the library reads it. -/
theorem Job.ScheduledBy.getCronSchedule {parsed : cron.Schedule} {tz : cron.Tz}
    (h : job.ScheduledBy cron parsed tz) :
    job.getCronSchedule cron = some (.ok ⟨cron.nextAfter parsed tz⟩) := by
  obtain ⟨expression, hexpr, hparse, htz⟩ := h
  unfold Job.getCronSchedule CronSchedule.withTimezone
  rw [hexpr, Option.map_some, hparse]
  dsimp only
  rw [htz]

theorem scheduledBy_of_getCronSchedule (h : job.getCronSchedule cron = some (.ok schedule)) :
    ∃ parsed tz, job.ScheduledBy cron parsed tz ∧ schedule = ⟨cron.nextAfter parsed tz⟩ := by
  unfold Job.getCronSchedule at h
  obtain ⟨expression, hexpr, h⟩ := Option.map_eq_some_iff.1 h
  unfold CronSchedule.withTimezone at h
  split at h
  case h_1 => cases h
  case h_2 parsed hparse =>
    split at h
    case h_1 => cases h
    case h_2 tz htz =>
      exact ⟨parsed, tz, ⟨expression, hexpr, hparse, htz⟩, (Except.ok.inj h).symm⟩

/-- `nextCronRun` counts from the base. -/
theorem nextCronRun_eq (hschedule : job.getCronSchedule cron = some (.ok schedule)) :
    nextCronRun cron job now = (schedule.nextExecution (cronBase job)).map fun first =>
      if now < first then first
      else scanOccurrences schedule now cronCatchUpScanLimit first := by
  have hbase : (match job.startedAt with
      | some started => if cronSlot job < started then started else cronSlot job
      | none => cronSlot job) = cronBase job := by
    unfold cronBase
    cases job.startedAt with
    | none => rfl
    | some started =>
        dsimp only
        split
        case isTrue h => exact (max_eq_right h.le).symm
        case isFalse h => exact (max_eq_left (not_lt.1 h)).symm
  unfold nextCronRun
  rw [hschedule]
  show (match schedule.nextExecution (match job.startedAt with
      | some started => if cronSlot job < started then started else cronSlot job
      | none => cronSlot job) with
    | some next => _
    | none => _) = _
  rw [hbase]
  cases schedule.nextExecution (cronBase job) with
  | none => rfl
  | some first =>
      dsimp only [Option.map_some]
      split <;> rfl

section Library

variable {parsed : cron.Schedule} {tz : cron.Tz}
  (hfinds : FindsNext (cron.nextAfter parsed tz) occurs)

include hfinds

/-- The next run of a job, from what the library finds. -/
theorem nextCronRun_coalesces (hjob : job.ScheduledBy cron parsed tz) (now : DateTime) :
    Coalesces occurs (cronBase job) now (nextCronRun cron job now) := by
  have hfinds' : FindsNext (CronSchedule.nextExecution ⟨cron.nextAfter parsed tz⟩) occurs := hfinds
  have hfirst : ∀ first, IsLeast {t | cronBase job < t ∧ occurs t} first →
      nextCronRun cron job now = some (if now < first then first
        else scanOccurrences ⟨cron.nextAfter parsed tz⟩ now cronCatchUpScanLimit first) := by
    intro first hleast
    rw [nextCronRun_eq hjob.getCronSchedule]
    dsimp only
    rw [(hfinds _ _).2 hleast, Option.map_some]
  constructor
  case none =>
    intro hnone
    rw [nextCronRun_eq hjob.getCronSchedule, Option.map_eq_none_iff]
    cases hnext : cron.nextAfter parsed tz (cronBase job) with
    | none => exact hnext
    | some first => exact absurd (hfinds.occurs_of_eq hnext) (hnone first (hfinds.lt hnext))
  case ahead =>
    intro first hleast hlt
    rw [hfirst first hleast, if_pos hlt]
  case passed =>
    intro first latest hleast hle hcount hlatest
    rw [hfirst first hleast, if_neg (not_lt.2 hle)]
    have hscan := (scanOccurrences_spec hfinds' cronCatchUpScanLimit first).1 hcount
    rw [← hfinds.between_eq_insert ((hfinds _ _).2 hleast) hle] at hscan
    rw [hscan.unique hlatest]
  case overrun =>
    intro first hleast hle hcount
    rw [hfirst first hleast, if_neg (not_lt.2 hle)]
    rw [(scanOccurrences_spec hfinds' cronCatchUpScanLimit first).2 hcount]

/-- The next run is after the base; when an occurrence has passed since,
it is due. -/
theorem nextCronRun_bounds {next : DateTime} (hjob : job.ScheduledBy cron parsed tz)
    (hnext : nextCronRun cron job now = some next) :
    cronBase job < next ∧ ((between occurs (cronBase job) now).Nonempty → next ≤ now) := by
  have hfinds' : FindsNext (CronSchedule.nextExecution ⟨cron.nextAfter parsed tz⟩) occurs := hfinds
  rw [nextCronRun_eq hjob.getCronSchedule] at hnext
  obtain ⟨first, hfirst, rfl⟩ := Option.map_eq_some_iff.1 hnext
  have hlt : cronBase job < first := hfinds.lt hfirst
  split
  case isTrue hahead =>
    refine ⟨hlt, fun ⟨t, hbase, hpassed, ht⟩ => ?_⟩
    exact absurd (hahead.trans_le (hfinds.le hfirst hbase ht)) (not_lt.2 hpassed)
  case isFalse hpassed =>
    have hle : first ≤ now := not_lt.1 hpassed
    obtain ⟨hwithin, hbeyond⟩ := scanOccurrences_spec hfinds' cronCatchUpScanLimit first
    rcases lt_or_ge (between occurs first now).ncard cronCatchUpScanLimit with hcount | hcount
    · obtain ⟨hmem, -⟩ := hwithin hcount
      rcases Set.mem_insert_iff.1 hmem with heq | hmem
      · rw [heq]
        exact ⟨hlt, fun _ => hle⟩
      · exact ⟨hlt.trans hmem.1, fun _ => hmem.2.1⟩
    · rw [hbeyond hcount]
      exact ⟨hlt.trans_le hle, fun _ => le_refl now⟩

end Library

-- == ended runs

/-- `job'` is `job` put back for its next run, as `nextCronRun` says. -/
def RunsNext (cron : CronLibrary) (job : Job) (now : DateTime) (job' : Job) : Prop :=
  ∃ next, nextCronRun cron job now = some next ∧ job'.scheduledAt = next ∧
    job'.nextRunAt = some next

variable {s : TestStorage} {id : JobId} {run : Job}

theorem nextCronRun_of_rerunAt {outcome : JobOutcome} {next : DateTime}
    (h : rerunAt cron s job outcome = some next) : nextCronRun cron job s.clock = some next := by
  unfold rerunAt at h
  split at h
  · exact h
  · cases h

/-- What a failure or a completion leads to does not put a finished job
back. -/
theorem Changed.not_pending {s' : TestStorage} {d : Deed} (h : Changed s d s')
    (hd : d = .fallout ∨ d = .resolve) (hlookup : s.jobs.lookup id = some job)
    (hfinished : job.status ≠ .pending) (hlookup' : s'.jobs.lookup id = some job') :
    job'.status ≠ .pending := by
  rcases h.jobs id with heq | ⟨old, new, hold, hnew, hchange⟩
  · rw [heq, hlookup] at hlookup'
    exact Option.some.inj hlookup' ▸ hfinished
  · rw [hlookup] at hold
    rw [hlookup'] at hnew
    obtain rfl := Option.some.inj hold
    obtain rfl := Option.some.inj hnew
    rcases hd with rfl | rfl
    · cases hchange
      exact nofun
    · cases hchange with
      | resolve hheld => exact hfinished

/-- A run whose outcome is recorded and whose job is pending again was
put back for its next run. -/
theorem finishJobRun_runsNext (hk : s.Keyed) {outcome : JobOutcome} {wall : DateTime}
    (hcur : runIsCurrent s run = true) (hends : outcome.terminalStatus.isSome)
    (hlookup : s.jobs.lookup run.id = some job)
    (hlookup' : (finishJobRun cron s run outcome wall).2.jobs.lookup run.id = some job')
    (hpending : job'.status = .pending) : RunsNext cron job s.clock job' := by
  have hspec := finishJobRun_spec cron s run outcome wall
  generalize finishJobRun cron s run outcome wall = result at hspec hlookup'
  have hsame : ∀ {old}, Current s run old → old = job := fun h =>
    Option.some.inj (h.lookup.symm.trans hlookup)
  cases hspec with
  | stale hstale =>
      rw [hcur] at hstale
      cases hstale
  | @completed _ old _ h _ hr =>
      obtain rfl := hsame h
      rw [← hr.rest.clock] at hlookup'
      have hid : old.id = run.id := hk run.id old hlookup
      have hresolved := resolveDependents_changed (hr.keyed hid hk) run.id
      exact absurd hpending
        (hresolved.not_pending (.inr rfl) hr.lookup_self nofun hlookup')
  | rerun h hnext hr =>
      obtain rfl := hsame h
      obtain rfl := Option.some.inj (hr.lookup_self.symm.trans hlookup')
      exact ⟨_, nextCronRun_of_rerunAt hnext, rfl, rfl⟩
  | refused | retried => cases hends
  | ended hstatus h _ hr =>
      obtain rfl := hsame h
      refine absurd hpending ((applyPolicies_fallout _ run.id).not_pending (.inl rfl)
        hr.lookup_self ?_ hlookup')
      cases hstatus <;> exact nofun
  | endedRerun _ h hnext hr =>
      obtain rfl := hsame h
      obtain rfl := Option.some.inj (hr.lookup_self.symm.trans hlookup')
      exact ⟨_, nextCronRun_of_rerunAt hnext, rfl, rfl⟩

/-- So is a run that is completed with children. -/
theorem completeJobRunWithChildren_runsNext (hk : s.Keyed) {children : List Job}
    {wall : DateTime} (hcur : runIsCurrent s run = true)
    (hnew : ∀ child ∈ children, child.id ≠ run.id)
    (hlookup : s.jobs.lookup run.id = some job)
    (hlookup' : (completeJobRunWithChildren env s run children wall).2.jobs.lookup run.id
      = some job')
    (hpending : job'.status = .pending) : RunsNext env.cron job s.clock job' := by
  obtain ⟨u, hwrites, hlast⟩ := completeJobRunWithChildren_then env s run children wall
  have hrunning : job.status = .running := by
    obtain ⟨old, h⟩ := runIsCurrent_eq_true.1 hcur
    obtain rfl := Option.some.inj (h.lookup.symm.trans hlookup)
    exact h.status
  have hkept := hwrites.spawning_kept hlookup hnew
  rcases hlast with heq | ⟨-, heq⟩
  · rw [heq, hkept] at hlookup'
    obtain rfl := Option.some.inj hlookup'
    rw [hrunning] at hpending
    cases hpending
  · rw [heq] at hlookup'
    have hclock : u.clock = s.clock := hwrites.clock (by
      rintro ⟨-, ⟨_, -, h⟩ | h⟩ <;> cases h)
    have hcur' : runIsCurrent u run = true := by
      obtain ⟨current, h⟩ := runIsCurrent_eq_true.1 hcur
      obtain rfl := Option.some.inj (h.lookup.symm.trans hlookup)
      exact runIsCurrent_eq_true.2 ⟨current, hkept, h.status, h.same⟩
    rw [← hclock]
    exact finishJobRun_runsNext (hwrites.keyed hk) hcur' rfl hkept hlookup' hpending

/-- Reclaiming one stale run buries its job, unless it is put back for
its next run, and leaves the others as they are or fails them. -/
theorem reclaimed_record (cron : CronLibrary) {k : JobId} {e : JobId × Bool} (hnow : s.clock = now)
    (hlookup : s.jobs.lookup k = some job) (hstored : (s.jobs.lookup e.1).isSome) :
    ∃ job', (reclaimed cron now s e).jobs.lookup k = some job' ∧
      (e.1 ≠ k → job' = job ∨ (unstarted job = true ∧ job'.status = .failed)) ∧
      (e.1 = k → e.2 = true → job'.status = .pending → RunsNext cron job now job') := by
  subst hnow
  have hother : ∀ {s₁ : TestStorage} {record}, Rewrite (s.removeLease e.1) e.1 record s₁ →
      ¬ e.1 = k → s₁.jobs.lookup k = some job := fun hr hid =>
    (hr.lookup_ne fun h => hid h.symm).trans hlookup
  rcases reclaimed_cases cron s.clock hstored with ⟨-, h⟩ | ⟨hflag, h⟩
  · obtain ⟨stored, hlookup₀, ⟨-, next, hnext, hr⟩ | ⟨-, s₁, hr, heq⟩⟩ :=
      buryStale_ok (s := s.removeLease e.1) h
    · by_cases hid : e.1 = k
      · obtain rfl := Option.some.inj ((hid ▸ hlookup₀).symm.trans hlookup)
        exact ⟨_, hid ▸ hr.lookup_self, fun hne => absurd hid hne,
          fun _ _ _ => ⟨next, hnext, rfl, rfl⟩⟩
      · exact ⟨job, hother hr hid, fun _ => .inl rfl, fun heq => absurd heq hid⟩
    · rw [heq]
      have hfallout := applyPolicies_fallout s₁ e.1
      by_cases hid : e.1 = k
      · have hburied : s₁.jobs.lookup k = some (stored.buried (s.removeLease e.1).clock) :=
          hid ▸ hr.lookup_self
        rcases hfallout.jobs k with hkept | ⟨old, new, hold, hnew, hchange⟩
        · refine ⟨_, hkept.trans hburied, fun hne => absurd hid hne, fun _ _ => nofun⟩
        · refine ⟨new, hnew, fun hne => absurd hid hne, fun _ _ hpending => ?_⟩
          exact absurd hpending (hfallout.not_pending (.inl rfl) hburied nofun hnew)
      · rcases hfallout.jobs k with hkept | ⟨old, new, hold, hnew, hchange⟩
        · exact ⟨job, hkept.trans (hother hr hid), fun _ => .inl rfl, fun heq => absurd heq hid⟩
        · obtain rfl := Option.some.inj (hold.symm.trans (hother hr hid))
          cases hchange with
          | fallout _ hun => exact ⟨_, hnew, fun _ => .inr ⟨hun, rfl⟩, fun heq => absurd heq hid⟩
  · obtain ⟨stored, hlookup₀, hr⟩ := requeueStale_ok h
    by_cases hid : e.1 = k
    · refine ⟨_, hid ▸ hr.lookup_self, fun hne => absurd hid hne, fun _ htrue => ?_⟩
      rw [hflag] at htrue
      cases htrue
    · exact ⟨job, hother hr hid, fun _ => .inl rfl, fun heq => absurd heq hid⟩

/-- A stale run without attempts left whose job is pending after the
recovery was put back for its next run. -/
theorem requeueStaleJobs_runsNext (hk : s.Keyed) {queueName : Option String}
    (hlookup : s.jobs.lookup id = some job) (hstale : isStale s queueName job = true)
    (hexhausted : job.maxAttempts ≤ job.attempts)
    (hlookup' : (requeueStaleJobs cron s queueName).2.jobs.lookup id = some job')
    (hpending : job'.status = .pending) : RunsNext cron job s.clock job' := by
  -- until its turn the job is as it was, and from then on as it should be
  have hloop : ∀ (l : List (JobId × Bool)) (t : TestStorage) (middle : Job),
      (l.map (·.1)).Nodup → (∀ e ∈ l, e ∈ staleRuns s queueName) → t.clock = s.clock →
      (∀ e ∈ l, (t.jobs.lookup e.1).isSome) → t.jobs.lookup id = some middle →
      (id ∈ l.map (·.1) → middle = job) →
      (id ∉ l.map (·.1) → middle.status = .pending → RunsNext cron job s.clock middle) →
      (l.foldl (reclaimed cron s.clock) t).jobs.lookup id = some job' →
      RunsNext cron job s.clock job' := by
    intro l
    induction l with
    | nil =>
        intro t middle _ _ _ _ hmiddle _ hafter hresult
        obtain rfl := Option.some.inj (hmiddle.symm.trans hresult)
        exact hafter List.not_mem_nil hpending
    | cons e l ih =>
        intro t middle hnd hl hclock hstored hmiddle hbefore hafter hresult
        rw [List.map_cons, List.nodup_cons] at hnd
        have hself := hstored e (List.mem_cons_self ..)
        obtain ⟨middle', hmiddle', hothers, hturn⟩ :=
          reclaimed_record cron hclock hmiddle hself
        refine ih _ middle' hnd.2 (fun e' he' => hl e' (List.mem_cons_of_mem _ he'))
          (reclaimed_clock hclock hself) (fun e' he' => ?_) hmiddle' (fun hmem => ?_)
          (fun hnot hpending' => ?_) hresult
        · rw [(reclaimed_quiet hself).stored]
          exact hstored e' (List.mem_cons_of_mem _ he')
        · obtain rfl := hbefore (List.mem_cons_of_mem _ hmem)
          rcases hothers fun hid => hnd.1 (hid ▸ hmem) with heq | ⟨hun, -⟩
          · exact heq
          · rw [unstarted, running_of_isStale hstale] at hun
            cases hun
        · by_cases hid : e.1 = id
          · obtain rfl := hbefore (List.mem_cons.2 (.inl hid.symm))
            refine hturn hid ?_ hpending'
            obtain ⟨old, hold, -, hflag⟩ := (mem_staleRuns hk).1 (hl e (List.mem_cons_self ..))
            obtain rfl := Option.some.inj ((hid ▸ hold).symm.trans hlookup)
            rw [hflag]
            exact decide_eq_true hexhausted
          · rcases hothers hid with rfl | ⟨-, hfailed⟩
            · refine hafter (fun hmem => ?_) hpending'
              rcases List.mem_cons.1 hmem with heq | hmem
              · exact hid heq.symm
              · exact hnot hmem
            · rw [hfailed] at hpending'
              cases hpending'
  rw [(requeueStaleJobs_eq hk cron queueName).1] at hlookup'
  have hlisted : id ∈ (staleRuns s queueName).map (·.1) := Stale.listed hk ⟨job, hlookup, hstale⟩
  refine hloop (staleRuns s queueName) s job (nodup_staleRuns hk queueName) (fun e he => he) rfl
    (fun e he => ?_) hlookup (fun _ => rfl) (fun hnot => absurd hlisted hnot) hlookup'
  obtain ⟨stored, hstored, -⟩ := (mem_staleRuns hk).1 he
  rw [hstored]
  rfl

/-- The call ends the current run of the job `id`: it records an outcome
that is not a retry, or reclaims a run without attempts left. -/
def Op.EndsRun (s : TestStorage) (id : JobId) : Op → Prop
  | finishJobRun run outcome _ =>
      run.id = id ∧ runIsCurrent s run = true ∧ outcome.terminalStatus.isSome
  | completeJobRunWithChildren run _ _ => run.id = id ∧ runIsCurrent s run = true
  | requeueStaleJobs queueName => ∃ job, s.jobs.lookup id = some job ∧
      isStale s queueName job = true ∧ job.maxAttempts ≤ job.attempts
  | _ => False

theorem Op.EndsRun.running {op : Op} (h : op.EndsRun s id)
    (hlookup : s.jobs.lookup id = some job) : job.status = .running := by
  have hcurrent : ∀ {run : Job}, run.id = id → runIsCurrent s run = true →
      job.status = .running := by
    rintro run rfl hcur
    obtain ⟨old, h⟩ := runIsCurrent_eq_true.1 hcur
    obtain rfl := Option.some.inj (h.lookup.symm.trans hlookup)
    exact h.status
  unfold EndsRun at h
  split at h
  · exact hcurrent h.1 h.2.1
  · exact hcurrent h.1 h.2
  · obtain ⟨old, hold, hstale, -⟩ := h
    obtain rfl := Option.some.inj (hold.symm.trans hlookup)
    exact running_of_isStale hstale
  · exact h.elim

/-- A job that is pending after the call was put back for its next
run. -/
theorem Op.EndsRun.runsNext (hk : s.Keyed) {op : Op} (h : op.EndsRun s id)
    (hnew : ∀ given ∈ op.enqueued, given.id ≠ id) (hlookup : s.jobs.lookup id = some job)
    (hlookup' : (op.apply env s).2.jobs.lookup id = some job')
    (hpending : job'.status = .pending) : RunsNext env.cron job s.clock job' := by
  unfold EndsRun at h
  unfold Op.apply at hlookup'
  split at h
  · obtain ⟨rfl, hcur, hends⟩ := h
    dsimp only at hlookup'
    rw [reply_snd] at hlookup'
    exact finishJobRun_runsNext hk hcur hends hlookup hlookup' hpending
  · obtain ⟨rfl, hcur⟩ := h
    dsimp only at hlookup'
    rw [reply_snd] at hlookup'
    exact completeJobRunWithChildren_runsNext hk hcur hnew hlookup hlookup' hpending
  · obtain ⟨old, hold, hstale, hexhausted⟩ := h
    obtain rfl := Option.some.inj (hold.symm.trans hlookup)
    dsimp only at hlookup'
    rw [reply_snd] at hlookup'
    exact requeueStaleJobs_runsNext hk hlookup hstale hexhausted hlookup' hpending
  · exact h.elim

-- == runs

variable {n : Nat} {r : Run (Step env) n} {clock : DateTime} {i j : Nat}
  {start start' next next' : DateTime}

/-- At step `i`, the run of `job` that started at `start` ends, and the
job is put back for a run at `next`. -/
structure PutBack (r : Run (Step env) n) (id : JobId) (i : Nat) (job : Job)
    (start next : DateTime) : Prop where
  lt : i < n
  ends : ∃ op, r.event i = .call op ∧ op.EndsRun (r.state i) id
  before : (r.state i).jobs.lookup id = some job
  started : job.startedAt = some start
  after : ∃ job', (r.state (i + 1)).jobs.lookup id = some job' ∧ job'.status = .pending ∧
    job'.scheduledAt = next

/-- It is put back for the time `nextCronRun` says, and that is its next
run. -/
theorem PutBack.spec (h0 : r.state 0 = TestStorage.new clock) (hnew : NewIds r)
    (h : PutBack r id i job start next) :
    nextCronRun env.cron job (r.state i).clock = some next ∧
      ∃ job', (r.state (i + 1)).jobs.lookup id = some job' ∧ job'.nextRunAt = some next := by
  obtain ⟨op, hop, hends⟩ := h.ends
  obtain ⟨job', hlookup', hpending, hat⟩ := h.after
  have hk := run_keyed r h0 i h.lt.le
  have hstep := r.next i h.lt
  have hfresh := hnew.fresh h0 i h.lt
  rw [hop] at hstep hfresh
  have heq : r.state (i + 1) = (op.apply env (r.state i)).2 := by
    generalize r.state (i + 1) = s' at hstep
    cases hstep
    rfl
  rw [heq] at hlookup' ⊢
  have hother : ∀ given ∈ op.enqueued, given.id ≠ id := by
    intro given hgiven hid
    have hstored := hfresh.new given hgiven
    rw [hid, h.before] at hstored
    cases hstored
  obtain ⟨next', hnext, hat', hrun⟩ := hends.runsNext hk hother h.before hlookup' hpending
  rw [hat] at hat'
  rw [← hat'] at hnext hrun
  exact ⟨hnext, job', hlookup', hrun⟩

/-- A job that is stored is not handed in again. -/
theorem NewIds.not_again (h0 : r.state 0 = TestStorage.new clock) (hnew : NewIds r)
    (hi : i ≤ n) (hlookup : (r.state i).jobs.lookup id = some job) (hij : i ≤ j) (hj : j < n) :
    ∀ given ∈ (r.event j).enqueued, given.id ≠ id := by
  intro given hgiven hid
  obtain ⟨m, hm, first, hfirst, hid'⟩ := stored_handedIn h0 i hi id job hlookup
  exact hnew.across m j (by omega) hj first hfirst given hgiven (hid'.trans hid.symm)

/-- Once its run has ended, a run of the job that is under way started
later. -/
theorem PutBack.starts_later (h0 : r.state 0 = TestStorage.new clock) (hnew : NewIds r)
    (hclock : ∀ i < n, (r.state i).clock ≤ (r.state (i + 1)).clock)
    (h : PutBack r id i job start next) (h' : PutBack r id j job' start' next') (hij : i < j) :
    (r.state i).clock ≤ start' := by
  have hlater : ∀ m, i + 1 ≤ m → m ≤ n → (r.state i).clock ≤ (r.state m).clock ∧
      ∀ attempts startedAt, RunningAs (r.state m) id attempts startedAt →
        ∃ t, startedAt = some t ∧ (r.state i).clock ≤ t := by
    intro m hm
    induction m, hm using Nat.le_induction with
    | base =>
        intro _
        refine ⟨hclock i h.lt, fun attempts startedAt ⟨job, hlookup, hrun, _⟩ => ?_⟩
        obtain ⟨put, hput, hpending, -⟩ := h.after
        obtain rfl := Option.some.inj (hput.symm.trans hlookup)
        rw [hrun] at hpending
        cases hpending
    | succ m hm ih =>
        intro hmn
        obtain ⟨hpast, hstarted⟩ := ih (by omega)
        refine ⟨hpast.trans (hclock m hmn), fun attempts startedAt hrun => ?_⟩
        have hk := run_keyed r h0 m (by omega)
        by_cases hset : SetsStart env (r.state m) (r.event m) id
        · exact ⟨_, (r.next m hmn).started hk hset hrun, hpast⟩
        · refine hstarted attempts startedAt ((r.next m hmn).runningAs_back hk hset ?_ hrun)
          intro given hgiven hid
          exact absurd hid
            (hnew.not_again h0 h.lt.le h.before (by omega) hmn given hgiven)
  obtain ⟨op, -, hends⟩ := h'.ends
  have hrun : RunningAs (r.state j) id job'.attempts (some start') :=
    ⟨job', h'.before, hends.running h'.before, rfl, h'.started⟩
  obtain ⟨t, ht, hle⟩ := (hlater j hij h'.lt.le).2 _ _ hrun
  rw [Option.some.inj ht]
  exact hle

-- == the law

/-- The runs of the job started no earlier than they were scheduled: not
before its slot, and not before the time the run before was put back
for. -/
structure InTurn (r : Run (Step env) n) (id : JobId) : Prop where
  slot : ∀ i job start next, PutBack r id i job start next → cronSlot job ≤ start
  turn : ∀ i j job start next job' start' next', i < j → PutBack r id i job start next →
    PutBack r id j job' start' next' →
    (∀ k, i < k → k < j → ∀ job start next, ¬ PutBack r id k job start next) → next ≤ start'

/-- What is the case of the runs of a job: a run is put back as
`nextCronRun` says, for a later time than all before; and when an
occurrence passes during a run, that run is put back for a time that has
come, and no other is put back for a time during that run. -/
structure RunsOnce (occurs : env.cron.Schedule → env.cron.Tz → DateTime → Prop)
    (r : Run (Step env) n) (id : JobId) : Prop where
  result : ∀ i job start next, PutBack r id i job start next →
    nextCronRun env.cron job (r.state i).clock = some next ∧
      ∃ job', (r.state (i + 1)).jobs.lookup id = some job' ∧ job'.nextRunAt = some next
  increasing : ∀ i j job start next job' start' next', i < j → PutBack r id i job start next →
    PutBack r id j job' start' next' → next < next'
  once : ∀ i job start next parsed tz, PutBack r id i job start next →
    job.ScheduledBy env.cron parsed tz →
    (between (occurs parsed tz) start (r.state i).clock).Nonempty →
    (start < next ∧ next ≤ (r.state i).clock) ∧
      ∀ j job' start' next', PutBack r id j job' start' next' → start < next' →
        next' ≤ (r.state i).clock → j = i

section InTurn

variable {occurs : env.cron.Schedule → env.cron.Tz → DateTime → Prop}
  (hfinds : ∀ parsed tz, FindsNext (env.cron.nextAfter parsed tz) (occurs parsed tz))
  (h0 : r.state 0 = TestStorage.new clock) (hnew : NewIds r)

include hfinds h0 hnew

/-- A run is put back for a time after its start. -/
theorem PutBack.start_lt (h : PutBack r id i job start next) : start < next := by
  have hnext := (h.spec h0 hnew).1
  have hschedule : ∃ schedule, job.getCronSchedule env.cron = some (.ok schedule) := by
    unfold nextCronRun at hnext
    split at hnext
    · exact ⟨_, by assumption⟩
    · cases hnext
  obtain ⟨schedule, hschedule⟩ := hschedule
  obtain ⟨parsed, tz, hjob, -⟩ := scheduledBy_of_getCronSchedule hschedule
  refine lt_of_le_of_lt ?_ (nextCronRun_bounds (hfinds parsed tz) hjob hnext).1
  unfold cronBase
  rw [h.started]
  exact le_max_right ..

/-- In turn, a run starts no earlier than all runs before it were put
back for. -/
theorem PutBack.le_start (hturn : InTurn r id) {d : Nat} :
    ∀ {i j job start next job' start' next'}, j - i = d → i < j →
      PutBack r id i job start next → PutBack r id j job' start' next' → next ≤ start' := by
  induction d using Nat.strong_induction_on with
  | _ d ih =>
      intro i j job start next job' start' next' hd hij h h'
      by_cases hbetween : ∃ k, i < k ∧ k < j ∧ ∃ job start next, PutBack r id k job start next
      · obtain ⟨k, hik, hkj, middle, from', at', hk⟩ := hbetween
        calc next ≤ from' := ih (k - i) (by omega) rfl hik h hk
          _ ≤ at' := (hk.start_lt hfinds h0 hnew).le
          _ ≤ start' := ih (j - k) (by omega) rfl hkj hk h'
      · exact hturn.turn i j job start next job' start' next' hij h h'
          fun k hik hkj middle from' at' hk => hbetween ⟨k, hik, hkj, middle, from', at', hk⟩

end InTurn

/-- With a library that finds the next occurrence, `nextCronRun` makes up
for the occurrences that passed with one run; so the runs of a job that
start in turn are put back for later and later times, and the occurrences
that pass during a run lead to one run. -/
theorem cron_runs_coalesce {occurs : env.cron.Schedule → env.cron.Tz → DateTime → Prop}
    (hfinds : ∀ parsed tz, FindsNext (env.cron.nextAfter parsed tz) (occurs parsed tz)) :
    (∀ job parsed tz now, job.ScheduledBy env.cron parsed tz →
      Coalesces (occurs parsed tz) (cronBase job) now (nextCronRun env.cron job now)) ∧
    ∀ (n : Nat) (r : Run (Step env) n) (clock : DateTime) (id : JobId),
      r.state 0 = TestStorage.new clock → NewIds r →
      (∀ i < n, (r.state i).clock ≤ (r.state (i + 1)).clock) → InTurn r id →
        RunsOnce occurs r id := by
  refine ⟨fun job parsed tz now hjob => nextCronRun_coalesces (hfinds parsed tz) hjob now, ?_⟩
  intro n r clock id h0 hnew hclock hturn
  constructor
  case result => exact fun i job start next h => h.spec h0 hnew
  case increasing =>
    intro i j job start next job' start' next' hij h h'
    exact (PutBack.le_start hfinds h0 hnew hturn rfl hij h h').trans_lt
      (h'.start_lt hfinds h0 hnew)
  case once =>
    intro i job start next parsed tz h hjob hpassed
    have hbase : cronBase job = start := by
      unfold cronBase
      rw [h.started]
      exact max_eq_right (hturn.slot i job start next h)
    obtain ⟨hlt, hdue⟩ := nextCronRun_bounds (hfinds parsed tz) hjob (h.spec h0 hnew).1
    rw [hbase] at hlt hdue
    refine ⟨⟨hlt, hdue hpassed⟩, fun j job' start' next' h' hafter hbefore => ?_⟩
    rcases Nat.lt_trichotomy i j with hij | heq | hji
    · have hstart := h.starts_later h0 hnew hclock h' hij
      exact absurd (hstart.trans_lt (h'.start_lt hfinds h0 hnew)) (not_lt.2 hbefore)
    · exact heq.symm
    · exact absurd hafter (not_lt.2 (PutBack.le_start hfinds h0 hnew hturn rfl hji h' h))

/-- A nightly job runs from its first midnight into the third day, and
then once more. -/
def twoNights : List Op :=
  [.enqueueCronJob (midnightJob 0), .setTime 86400000000000, .dequeue "mail" none 0 1,
    .setTime 200000000000000, .finishJobRun ((midnightJob 0).claimed 86400000000000) .completed 0,
    .dequeue "mail" none 0 1,
    .finishJobRun ((midnightJob 0).claimed 200000000000000) .completed 0]

/-- The nights as a run of the queue. -/
def nights : Run (Step plainEnv) 7 := Op.trace plainEnv twoNights (TestStorage.new 0)

/-- The night that is being worked on at a step, and the one after it. -/
theorem nights_put {i : Nat} {job : Job} {start next : DateTime}
    (h : PutBack nights 1 i job start next) :
    (i = 4 ∧ start = 86400000000000 ∧ next = 172800000000000 ∧ cronSlot job = 86400000000000) ∨
      (i = 6 ∧ start = 200000000000000 ∧ next = 259200000000000 ∧
        cronSlot job = 172800000000000) := by
  obtain ⟨hi, ⟨op, hop, hends⟩, hbefore, hstarted, job', hafter, -, hat⟩ := h
  have hrun : ∀ {slot from' at' : DateTime},
      ((nights.state i).jobs.lookup 1).map (fun job => (cronSlot job, job.startedAt))
        = some (slot, some from') →
      ((nights.state (i + 1)).jobs.lookup 1).map (·.scheduledAt) = some at' →
      start = from' ∧ next = at' ∧ cronSlot job = slot := by
    intro slot from' at' hfrom hto
    rw [hbefore, Option.map_some, hstarted] at hfrom
    rw [hafter, Option.map_some, hat] at hto
    simp only [Option.some.injEq, Prod.mk.injEq] at hfrom hto
    exact ⟨hfrom.2, hto, hfrom.1⟩
  have hnot : ∀ {op' : Op}, nights.event i = .call op' →
      ¬ Op.EndsRun (nights.state i) 1 op' → False := by
    intro op' hop' hno
    rw [hop] at hop'
    injection hop' with hop'
    exact hno (hop' ▸ hends)
  have hsteps : i = 4 ∨ i = 6 ∨ i = 0 ∨ i = 1 ∨ i = 2 ∨ i = 3 ∨ i = 5 := by omega
  rcases hsteps with rfl | rfl | rfl | rfl | rfl | rfl | rfl
  · exact .inl ⟨rfl, hrun (by decide +kernel) (by decide +kernel)⟩
  · exact .inr ⟨rfl, hrun (by decide +kernel) (by decide +kernel)⟩
  all_goals exact (hnot rfl id).elim

/-- The nights are worked on in turn, so each is run once. -/
theorem cron_runs_coalesce_nights : RunsOnce (fun _ _ => (86400000000000 ∣ ·)) nights 1 := by
  have hnew : NewIds nights := newIds_of_first (by decide) fun i hi hin => by
    have hsteps : i = 1 ∨ i = 2 ∨ i = 3 ∨ i = 4 ∨ i = 5 ∨ i = 6 := by omega
    rcases hsteps with rfl | rfl | rfl | rfl | rfl | rfl <;> rfl
  have hclock : ∀ i < 7, (nights.state i).clock ≤ (nights.state (i + 1)).clock := by
    decide +kernel
  refine (cron_runs_coalesce fun _ _ => midnightCron_findsNext).2 7 nights 0 1 rfl hnew hclock
    ⟨fun i job start next h => ?_, fun i j job start next job' start' next' hij h h' _ => ?_⟩
  · rcases nights_put h with ⟨-, rfl, -, hslot⟩ | ⟨-, rfl, -, hslot⟩
    · rw [hslot]
    · rw [hslot]
      decide
  · rcases nights_put h with ⟨rfl, -, rfl, -⟩ | ⟨rfl, -, rfl, -⟩ <;>
      rcases nights_put h' with ⟨rfl, rfl, -, -⟩ | ⟨rfl, rfl, -, -⟩
    · exact absurd hij (lt_irrefl 4)
    · decide
    · exact absurd hij (by decide)
    · exact absurd hij (lt_irrefl 6)

-- == the step limit

/-- Every second, the one schedule of another small cron library. -/
def everySecond : CronLibrary where
  Schedule := Unit
  Tz := Unit
  utc := ()
  parseSchedule expression :=
    if expression = "* * * * * *" then .ok () else .error "unsupported expression"
  parseTz name := if name = "UTC" then some () else none
  nextAfter _ _ t := some ((t / 1000000000 + 1) * 1000000000)

/-- A job for every second, running since its first. -/
def secondsJob : Job :=
  { (Job.new 1 0 "mail" .null).claimed 0 with cronSchedule := some "* * * * * *" }

/-- The seconds after the first that pass before half past 10001. -/
theorem seconds_passed :
    (between ((1000000000 : Int) ∣ ·) 1000000000 10001500000000).ncard = 10000 := by
  have himage : between ((1000000000 : Int) ∣ ·) 1000000000 10001500000000
      = (fun k : Int => 1000000000 * k) '' (Finset.Icc (2 : Int) 10001 : Set Int) := by
    ext t
    simp only [mem_between, Set.mem_image, Finset.coe_Icc, Set.mem_Icc]
    constructor
    · rintro ⟨hafter, hbefore, k, rfl⟩
      exact ⟨k, by omega, rfl⟩
    · rintro ⟨k, hk, rfl⟩
      exact ⟨by omega, by omega, Dvd.intro k rfl⟩
  rw [himage, Set.ncard_image_of_injective _ (fun a b h => by omega),
    Set.ncard_coe_finset, Int.card_Icc]
  rfl

/-- When 10000 occurrences have passed after the first, the next run is
not at the latest of them: it is now. -/
theorem nextCronRun_gives_up :
    IsLeast {t : DateTime | cronBase secondsJob < t ∧ 1000000000 ∣ t} 1000000000 ∧
      (between ((1000000000 : DateTime) ∣ ·) 1000000000 10001500000000).ncard ≤ 10000 ∧
      IsGreatest (between ((1000000000 : DateTime) ∣ ·) (cronBase secondsJob) 10001500000000)
        10001000000000 ∧
      nextCronRun everySecond secondsJob 10001500000000 = some 10001500000000 := by
  have hfinds : FindsNext (everySecond.nextAfter () ()) (1000000000 ∣ ·) :=
    findsNext_multiples (by decide)
  have hleast : IsLeast {t : DateTime | cronBase secondsJob < t ∧ 1000000000 ∣ t} 1000000000 :=
    (hfinds 0 1000000000).1 rfl
  refine ⟨hleast, seconds_passed.le, ⟨⟨by decide, by decide, by decide⟩, ?_⟩, ?_⟩
  · rintro t ⟨-, hbefore, k, rfl⟩
    dsimp only [DateTime] at *
    omega
  · have hjob : secondsJob.ScheduledBy everySecond () () := ⟨"* * * * * *", rfl, rfl, rfl⟩
    exact (nextCronRun_coalesces hfinds hjob 10001500000000).overrun 1000000000 hleast (by decide)
      seconds_passed.ge

end Hammerwork
