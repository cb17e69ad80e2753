/-
Recurring jobs are enqueued on the queue's clock, or not.

`enqueueCronJob` computes the first occurrence after the queue's now and
schedules the job for it. `enqueue` then takes the job for one that was
built just now on another clock: it moves the schedule by the distance
between the queue's now and the time the job was created
(`stampEnqueued`). The occurrence is not on that other clock, so it is
moved away from where it belongs by exactly that distance
(`enqueueCronJob_stored`), while `nextRunAt` stays.

So the job is due at its next run, and not before, just when there is no
such distance, or the moved instant cannot be represented
(`enqueueCronJob_dueAt_iff`).
-/
import Hammerwork.Lib.Occurrences
import Hammerwork.Machine
import Hammerwork.Proofs.Enqueue

namespace Hammerwork

open TestStorage TestQueue Occurrences

variable {env : Env} {s s' : TestStorage} {job : Job} {id : JobId} {next : DateTime}

-- == being due

/-- Nothing but its schedule keeps the job from being handed out. -/
structure Unhindered (s : TestStorage) (job : Job) : Prop where
  status : job.status = .pending
  dependencies : job.dependencyStatus = .none ∨ job.dependencyStatus = .satisfied
  queue : s.pausedQueues.lookup job.queueName = none

/-- The job `id` is stored for its run at `next`: its next run and its
schedule are `next`, and by its schedule it can be handed out from then
on and not before. -/
def DueAt (s : TestStorage) (id : JobId) (next : DateTime) : Prop :=
  ∃ job, s.jobs.lookup id = some job ∧ job.nextRunAt = some next ∧ job.scheduledAt = next ∧
    (Unhindered s job → ∀ now,
      job ∈ ({ s with clock := now } : TestStorage).eligibleJobs job.queueName ↔ next ≤ now)

/-- An unhindered job that is listed is eligible from its schedule on. -/
theorem mem_eligibleJobs_iff (hlookup : s.jobs.lookup id = some job)
    (hlisted : id ∈ QueueIndex.list s.queues job.queueName .pending)
    (hrec : job.recurring = true) (hfree : Unhindered s job) (now : DateTime) :
    job ∈ ({ s with clock := now } : TestStorage).eligibleJobs job.queueName ↔
      job.scheduledAt ≤ now := by
  have hdue : dequeuable now job = true ↔ job.scheduledAt ≤ now := by
    rcases hfree.dependencies with hdep | hdep <;> simp [dequeuable, hdep, hrec]
  constructor
  · intro h
    obtain ⟨_, _, _, hready⟩ := mem_eligibleJobs h
    exact hdue.1 hready
  · intro h
    unfold eligibleJobs
    rw [if_neg (by simp [hfree.queue])]
    exact List.mem_filter.2 ⟨List.mem_filterMap.2 ⟨id, hlisted, hlookup⟩, hdue.2 h⟩

-- == what is stored

/-- Settling leaves the schedule of a job alone. -/
theorem SettledAs.schedule {parents : JobId → Option ParentState} {now : DateTime}
    {jobs jobs' : List Job} {given : Job} (h : SettledAs parents now jobs jobs' given job) :
    job.id = given.id ∧ job.scheduledAt = given.scheduledAt ∧
      job.nextRunAt = given.nextRunAt ∧ job.recurring = given.recurring := by
  cases h <;> exact ⟨rfl, rfl, rfl, rfl⟩

/-- One job enqueued is one job stored, with its schedule moved onto the
clock. -/
theorem enqueue_stored (h : enqueue env s job = .ok (s', id)) :
    ∃ stored, s' = insertJobs [stored] s ∧ stored.id = id ∧
      stored.scheduledAt = (stampEnqueued job s.clock).scheduledAt ∧
      stored.nextRunAt = job.nextRunAt ∧ stored.recurring = job.recurring := by
  obtain ⟨rfl, -, sealedJobs, hseal, rfl⟩ := enqueue_ok.1 h
  have hsame := PayloadEncryption.sealJobs_same hseal
  obtain ⟨sealedJob, hpayload, rfl⟩ : ∃ j, job.SameButPayload j ∧ sealedJobs = [j] := by
    cases hsame with
    | cons hj hrest =>
        cases hrest
        exact ⟨_, hj, rfl⟩
  obtain ⟨-, hsettled⟩ := settleNewDependents_settled [stampEnqueued sealedJob s.clock]
    (s.parentStates [stampEnqueued sealedJob s.clock]) s.clock
  have hstored : storedJobs s [sealedJob] = (Hammerwork.settleNewDependents
      [stampEnqueued sealedJob s.clock]
      (s.parentStates [stampEnqueued sealedJob s.clock]) s.clock).1 :=
    arriving_id s (stampEnqueued · s.clock) [sealedJob]
  rw [← hstored] at hsettled
  generalize storedJobs s [sealedJob] = jobs' at hsettled
  cases hsettled with
  | cons hj hrest =>
      cases hrest
      obtain ⟨hid, hat, hnext, hrec⟩ := hj.schedule
      have heq := hpayload.eq
      refine ⟨_, rfl, hid.trans ?_, hat.trans ?_, hnext.trans ?_, hrec.trans ?_⟩ <;>
        rw [heq] <;> rfl

/-- A recurring job is stored with its schedule moved by the distance
between the clocks. -/
theorem enqueueCronJob_stored {expression : String} {schedule : env.cron.Schedule}
    (hexpr : job.cronSchedule = some expression)
    (hparse : env.cron.parseSchedule expression = .ok schedule)
    (hnext : env.cron.nextAfter schedule
      ((job.timezone.bind env.cron.parseTz).getD env.cron.utc) s.clock = some next)
    (h : enqueueCronJob env s job = .ok (s', id)) :
    ∃ stored, s' = insertJobs [stored] s ∧ stored.id = id ∧
      stored.scheduledAt = (checkedAddSigned s.clock (next - job.createdAt)).getD next ∧
      stored.nextRunAt = some next ∧ stored.recurring = true := by
  unfold enqueueCronJob at h
  simp only [hexpr, hparse, hnext] at h
  exact enqueue_stored h

/-- A job just inserted is stored, and listed under its status. -/
theorem insertJobs_one (stored : Job) (s : TestStorage) :
    (insertJobs [stored] s).jobs.lookup stored.id = some stored ∧
      stored.id ∈ QueueIndex.list (insertJobs [stored] s).queues stored.queueName
        stored.status := by
  constructor
  · show (s.jobs.insert stored.id stored).lookup stored.id = some stored
    rw [Table.lookup_insert_if, if_pos rfl]
  · show stored.id ∈ QueueIndex.list (s.addJobToQueue stored).queues _ _
    unfold addJobToQueue
    rw [QueueIndex.list_add, if_pos ⟨rfl, rfl⟩]
    split
    · assumption
    · exact List.mem_append_right _ (List.mem_singleton_self _)

/-- The moved schedule is the occurrence when the clocks agree, or when
it cannot be moved. -/
theorem moved_eq_iff {now created : DateTime} :
    (checkedAddSigned now (next - created)).getD next = next ↔
      created = now ∨ checkedAddSigned now (next - created) = none := by
  unfold checkedAddSigned
  dsimp only [DateTime, TimeDelta] at *
  split
  · simp only [Option.getD_some, reduceCtorEq, or_false]
    constructor <;> intro h <;> omega
  · simp

-- == the law

/-- A recurring job that is enqueued is due at the first occurrence after
the queue's now just when it was created at that now, or the instant that
is as far from now as the occurrence is from its creation cannot be
represented. -/
theorem enqueueCronJob_dueAt_iff {expression : String} {schedule : env.cron.Schedule}
    {occurs : DateTime → Prop} (hexpr : job.cronSchedule = some expression)
    (hparse : env.cron.parseSchedule expression = .ok schedule)
    (hfinds : FindsNext (env.cron.nextAfter schedule
      ((job.timezone.bind env.cron.parseTz).getD env.cron.utc)) occurs)
    (hnext : IsLeast {t | s.clock < t ∧ occurs t} next)
    (h : enqueueCronJob env s job = .ok (s', id)) :
    DueAt s' id next ↔
      job.createdAt = s.clock ∨ checkedAddSigned s.clock (next - job.createdAt) = none := by
  obtain ⟨stored, rfl, rfl, hat, hrun, hrec⟩ :=
    enqueueCronJob_stored hexpr hparse ((hfinds _ _).2 hnext) h
  obtain ⟨hlookup, hlisted⟩ := insertJobs_one stored s
  rw [← moved_eq_iff, ← hat]
  constructor
  · rintro ⟨job', hlookup', -, hdue, -⟩
    rw [hlookup] at hlookup'
    rw [Option.some.inj hlookup']
    exact hdue
  · intro hdue
    refine ⟨stored, hlookup, hrun, hdue, fun hfree now => ?_⟩
    rw [← hdue]
    exact mem_eligibleJobs_iff hlookup (hfree.status ▸ hlisted) hrec hfree now

/-- A job for every midnight, created at `created`. -/
def midnightJob (created : DateTime) : Job :=
  { Job.new 1 created "mail" .null with cronSchedule := some "0 0 0 * * *" }

theorem midnightCron_findsNext : FindsNext (midnightCron.nextAfter () ()) (86400000000000 ∣ ·) :=
  findsNext_multiples (by decide)

/-- The first midnight after the epoch. -/
theorem isLeast_midnight :
    IsLeast {t : DateTime | 0 < t ∧ 86400000000000 ∣ t} 86400000000000 :=
  (midnightCron_findsNext 0 86400000000000).1 rfl

/-- A job created at the queue's now is due at midnight. -/
theorem enqueueCronJob_dueAt_iff_midnight : ∃ s',
    enqueueCronJob plainEnv (TestStorage.new 0) (midnightJob 0) = .ok (s', 1) ∧
      DueAt s' 1 86400000000000 := by
  obtain ⟨s', hs'⟩ : ∃ s', enqueueCronJob plainEnv (TestStorage.new 0) (midnightJob 0)
      = .ok (s', 1) := ⟨_, rfl⟩
  have hlaw := enqueueCronJob_dueAt_iff (rfl : (midnightJob 0).cronSchedule = _) rfl
    midnightCron_findsNext isLeast_midnight hs'
  exact ⟨s', hs', hlaw.2 (.inl rfl)⟩

/-- A job built ten days later than the queue's clock says is enqueued
for midnight and can be handed out at once. -/
theorem midnightJob_early : ∃ s',
    enqueueCronJob plainEnv (TestStorage.new 0) (midnightJob 864000000000000) = .ok (s', 1) ∧
      IsLeast {t : DateTime | 0 < t ∧ 86400000000000 ∣ t} 86400000000000 ∧
      (s'.eligibleJobs "mail").map (·.id) = [1] ∧ ¬ DueAt s' 1 86400000000000 := by
  obtain ⟨s', hs', heligible, hmoved⟩ : ∃ s',
      enqueueCronJob plainEnv (TestStorage.new 0) (midnightJob 864000000000000) = .ok (s', 1) ∧
        (s'.eligibleJobs "mail").map (·.id) = [1] ∧
        (s'.jobs.lookup 1).map (·.scheduledAt) = some (-777600000000000) :=
    ⟨_, rfl, by decide, by decide⟩
  refine ⟨s', hs', isLeast_midnight, heligible, ?_⟩
  rintro ⟨job, hlookup, -, hat, -⟩
  rw [hlookup, Option.map_some, hat] at hmoved
  cases hmoved

end Hammerwork
