/-
The edges of the status graph.

A job that is stored before a call and after it has the status it had,
or one that a documented edge leads to (`DocumentedEdge`). Only the
manual transitions look their edges up in `JobTransition.allowedFrom`;
every other write of a status is a case of `Change`, and the graph is
read off there, write by write.

A call may make several writes to one job. What is claimed is about the
call: a stale job that is put back and then fails with its workflow went
from `Running` to `Failed`.

Two kinds of edges are missing from the documented ones (`Revives`):
`enableRecurringJob` starts from every status but `Running`, and the
calls that put jobs back by hand also take `Retrying` ones.
-/
import Hammerwork.Proofs.Fresh

namespace Hammerwork

open TestStorage TestQueue

variable {s s' : TestStorage} {env : Env} {id k : JobId} {run job job' : Job}

-- == the graph

/-- The calls that are documented to put the job `k` back to
`Pending`. -/
def Op.HandsBack (op : Op) (k : JobId) (job : Job) : Prop :=
  match op with
  | releaseJobRun run | finishJobRun run _ _ | completeJobRunWithChildren run _ _ =>
      run.id = k ∧ job.status = .running
  | requeueStaleJobs _ => job.status = .running
  | retryJob id _ =>
      id = k ∧ (job.status = .running ∨ job.status = .failed ∨ job.status = .timedOut)
  | retryDeadJob id => id = k ∧ (job.status = .timedOut ∨ job.status = .dead)
  | rescheduleCronJob id _ =>
      id = k ∧ job.recurring = true ∧ (job.status = .running ∨ job.status = .failed ∨
        job.status = .timedOut ∨ job.status = .dead)
  | enableRecurringJob id =>
      id = k ∧ job.cronSchedule.isSome ∧ (job.status = .failed ∨ job.status = .timedOut ∨
        job.status = .dead)
  | restoreArchivedJob id => id = k ∧ job.status = .archived
  | _ => False

/-- Whether a call claims jobs, or archives them. -/
def Op.Claims : Op → Prop
  | dequeue .. => True
  | _ => False

def Op.Archives : Op → Prop
  | archiveJobs .. => True
  | _ => False

/-- The documented edges: from `job`'s status to `status`, by the call
`op`. -/
def DocumentedEdge (op : Op) (k : JobId) (job : Job) (status : JobStatus) : Prop :=
  match status with
  | .completed | .failed =>
      job.status = .pending ∨ job.status = .running ∨ job.status = .retrying
  | .timedOut => job.status = .running
  | .dead =>
      job.status = .pending ∨ job.status = .running ∨ job.status = .retrying ∨
        job.status = .failed ∨ job.status = .timedOut
  | .running => op.Claims ∧ job.status = .pending
  | .pending => op.HandsBack k job
  | .archived =>
      op.Archives ∧ (job.status = .completed ∨ job.status = .failed ∨ job.status = .dead ∨
        job.status = .timedOut)
  | .retrying => False

/-- The other calls that put the job `k` back: a completed recurring job
is revived, and a retrying one is put back by hand. -/
def Op.Revives (op : Op) (k : JobId) (job : Job) : Prop :=
  match op with
  | enableRecurringJob id =>
      id = k ∧ job.cronSchedule.isSome ∧ (job.status = .completed ∨ job.status = .retrying)
  | retryJob id _ => id = k ∧ job.status = .retrying
  | rescheduleCronJob id _ => id = k ∧ job.recurring = true ∧ job.status = .retrying
  | _ => False

/-- The edges there are. -/
def StatusEdge (op : Op) (k : JobId) (job : Job) (status : JobStatus) : Prop :=
  DocumentedEdge op k job status ∨ (status = .pending ∧ op.Revives k job)

/-- The calls that may fail the job `k` for another one's failure, or
for a cancellation. -/
def Op.FailsOthers (op : Op) (k : JobId) : Prop :=
  match op with
  | failJob id _ | markJobDead id _ | markJobTimedOut id _ => id ≠ k
  | finishJobRun run _ _ => run.id ≠ k
  | requeueStaleJobs _ | failJobDependencies _ | cancelWorkflow _ => True
  | _ => False

/-- A job that ended otherwise than by failing, or was archived. -/
def Job.Settled (job : Job) : Prop :=
  job.status = .completed ∨ job.status = .dead ∨ job.status = .timedOut ∨
    job.status = .archived

-- == one write

/-- Where a deed done to the job `k` leads from the status `a`, if it
changes the status. -/
def Deed.Edge (k : JobId) (a b : JobStatus) : Deed → Prop
  | claim id => id = k ∧ b = .running
  | release id | requeue id | rerun id => id = k ∧ a = .running ∧ b = .pending
  | complete id => id = k ∧ (a = .pending ∨ a = .running ∨ a = .retrying) ∧ b = .completed
  | fail id => id = k ∧ (a = .pending ∨ a = .running ∨ a = .retrying) ∧ b = .failed
  | finish id => id = k ∧ ((a = .running ∧ b = .timedOut) ∨
      (JobTransition.markDead.isAllowedFrom a = true ∧ b = .dead))
  | bury id => id = k ∧ a = .running ∧ b = .dead
  | retry id => id = k ∧ JobTransition.retry.isAllowedFrom a = true ∧ b = .pending
  | reschedule id =>
      id = k ∧ JobTransition.rescheduleCron.isAllowedFrom a = true ∧ b = .pending
  | retryDead id => id = k ∧ JobTransition.retryDead.isAllowedFrom a = true ∧ b = .pending
  | enable id => id = k ∧ a ≠ .running ∧ b = .pending
  | restore id => id = k ∧ a = .archived ∧ b = .pending
  | fallout => (a = .pending ∨ a = .retrying) ∧ b = .failed
  | cancel => (a = .pending ∨ a = .running ∨ a = .retrying) ∧ b = .failed
  | archive => (a = .completed ∨ a = .failed ∨ a = .dead ∨ a = .timedOut) ∧ b = .archived
  | start _ | runError _ | disable _ | resolve => False

theorem unstarted_iff : unstarted job = true ↔ job.status = .pending ∨ job.status = .retrying := by
  simp [unstarted]

theorem unfinished_iff : unfinished job = true ↔
    job.status = .pending ∨ job.status = .running ∨ job.status = .retrying := by
  simp [unfinished, or_assoc]

theorem status_of_finishedAge {now : DateTime} (h : (finishedAge now job).isSome = true) :
    job.status = .completed ∨ job.status = .failed ∨ job.status = .dead ∨
      job.status = .timedOut := by
  unfold finishedAge at h
  cases hst : job.status <;> simp [hst] at h ⊢

/-- Every deed leaves the status as it is or follows its edge. -/
theorem Change.edge {d : Deed} (h : Change s d k job job') :
    job'.status = job.status ∨ d.Edge k job.status job'.status := by
  cases h with
  | claim hdue =>
      exact .inr ⟨rfl, rfl⟩
  | start | runError | disable | keepRunning | resolve => exact .inl rfl
  | release hst | requeue hst | rerun _ hst | rerunEnded _ _ _ hst | rerunBuried _ hst
  | bury hst =>
      exact .inr ⟨rfl, hst, rfl⟩
  | complete hallowed | fail _ hallowed =>
      refine .inr ⟨rfl, ?_, rfl⟩
      simpa [JobTransition.isAllowedFrom, JobTransition.allowedFrom] using hallowed
  | dead _ hallowed => exact .inr ⟨rfl, .inr ⟨hallowed, rfl⟩⟩
  | timedOut _ hallowed =>
      refine .inr ⟨rfl, .inl ⟨?_, rfl⟩⟩
      simpa [JobTransition.isAllowedFrom, JobTransition.allowedFrom] using hallowed
  | retry _ _ hallowed | reschedule _ hallowed | retryDead hallowed =>
      exact .inr ⟨rfl, hallowed, rfl⟩
  | enable _ hrun => exact .inr ⟨rfl, hrun, rfl⟩
  | restore _ hst => exact .inr ⟨rfl, hst, rfl⟩
  | fallout _ hun => exact .inr ⟨unstarted_iff.1 hun, rfl⟩
  | cancel _ hun => exact .inr ⟨unfinished_iff.1 hun, rfl⟩
  | archive hage => exact .inr ⟨status_of_finishedAge hage, rfl⟩

/-- Where a chain of writes leads: to one of `targets`, if they are
closed under the edges of its deeds. -/
theorem Writes.status {allowed : WriteKind → Prop} (targets : JobStatus → Prop)
    (h : Writes allowed s s') (hlookup : s.jobs.lookup k = some job)
    (hinsert : ∀ given, allowed (.insert given) → ∀ job ∈ given, job.id ≠ k)
    (hdeed : ∀ d a b, allowed (.deed d) → d.Edge k a b → a = job.status ∨ targets a →
      targets b)
    (hlookup' : s'.jobs.lookup k = some job') :
    job'.status = job.status ∨ targets job'.status := by
  refine h.record (R := fun j => j.status = job.status ∨ targets j.status) hlookup (.inl rfl)
    hinsert (fun s d j j' hw hchange hj => ?_) hlookup'
  rcases hchange.edge with heq | hedge
  · exact heq ▸ hj
  · exact .inr (hdeed d j.status j'.status hw hedge hj)

-- == one call

theorem StatusEdge.of_running {op : Op} (hrun : job.status = .running) {status : JobStatus}
    (hop : status = .pending → op.HandsBack k job)
    (hst : status = .completed ∨ status = .failed ∨ status = .timedOut ∨ status = .dead ∨
      status = .pending) : StatusEdge op k job status := by
  rcases hst with rfl | rfl | rfl | rfl | rfl
  · exact .inl (.inr (.inl hrun))
  · exact .inl (.inr (.inl hrun))
  · exact .inl hrun
  · exact .inl (.inr (.inl hrun))
  · exact .inl (hop rfl)

theorem Op.statusEdge_of_running (hk : s.Keyed) {op : Op} (hrun : job.status = .running)
    (hlookup : s.jobs.lookup k = some job)
    (hinsert : ∀ given, op.Allows env s (.insert given) → ∀ job ∈ given, job.id ≠ k)
    (hputs : op.HandsBack k job) (hdeed : ∀ d a b, op.Allows env s (.deed d) → d.Edge k a b →
      b ≠ .running ∧ b ≠ .archived)
    (hlookup' : (op.apply env s).2.jobs.lookup k = some job') :
    job'.status = job.status ∨ StatusEdge op k job job'.status := by
  refine ((Op.writes hk op).status (fun st => st ≠ .running ∧ st ≠ .archived ∧ st ≠ .retrying)
    hlookup hinsert (fun d a b hw hedge _ => ?_) hlookup').imp_right fun hst => ?_
  · refine ⟨(hdeed d a b hw hedge).1, (hdeed d a b hw hedge).2, ?_⟩
    -- no edge leads to `Retrying`
    rintro rfl
    cases d <;> simp [Deed.Edge] at hedge
  · refine .of_running hrun (fun _ => hputs) ?_
    obtain ⟨hr, ha, ht⟩ := hst
    cases hst : job'.status <;> simp [hst] at hr ha ht ⊢

/-- A call whose deeds all lead to one status moves a job along the
edges if they do from the status it had. -/
theorem Op.statusEdge_of_target (hk : s.Keyed) {op : Op} (target : JobStatus)
    (hlookup : s.jobs.lookup k = some job)
    (hinsert : ∀ given, op.Allows env s (.insert given) → ∀ job ∈ given, job.id ≠ k)
    (hdeed : ∀ d a b, op.Allows env s (.deed d) → d.Edge k a b →
      b = target ∧ (a = job.status → StatusEdge op k job target))
    (hlookup' : (op.apply env s).2.jobs.lookup k = some job') :
    job'.status = job.status ∨ StatusEdge op k job job'.status := by
  refine ((Op.writes hk op).status (fun st => st = target ∧ StatusEdge op k job st)
    hlookup hinsert (fun d a b hw hedge ha => ?_) hlookup').imp_right (·.2)
  obtain ⟨rfl, hown⟩ := hdeed d a b hw hedge
  rcases ha with ha | ⟨rfl, ha⟩
  · exact ⟨rfl, hown ha⟩
  · exact ⟨rfl, ha⟩

/-- A call that rewrites one job moves it as it rewrites it. -/
theorem TestStorage.Rewrite.statusEdge {op : Op} {stored new : Job} (hr : Rewrite s id new s')
    (hlookup : s.jobs.lookup k = some job) (hstored : s.jobs.lookup id = some stored)
    (hnew : id = k → new.status = stored.status ∨ StatusEdge op k stored new.status)
    (hlookup' : s'.jobs.lookup k = some job') :
    job'.status = job.status ∨ StatusEdge op k job job'.status := by
  by_cases hk : k = id
  · subst hk
    obtain rfl : stored = job := Option.some.inj (hstored.symm.trans hlookup)
    obtain rfl : new = job' := Option.some.inj (hr.lookup_self.symm.trans hlookup')
    exact hnew rfl
  · rw [hr.lookup_ne hk, hlookup] at hlookup'
    injection hlookup' with hlookup'
    exact .inl (hlookup' ▸ rfl)

/-- A schedule is enabled only where there is one. -/
theorem isSome_of_enabledRecurringNextRun {cron : CronLibrary} {now : DateTime}
    {next : Option DateTime} (h : enabledRecurringNextRun cron job now = .ok next) :
    job.cronSchedule.isSome := by
  unfold enabledRecurringNextRun at h
  cases hcron : job.cronSchedule with
  | none => simp [Job.getCronSchedule, hcron] at h
  | some expression => rfl

theorem rescheduleCronJob_statusEdge {next : DateTime}
    (hlookup : s.jobs.lookup k = some job)
    (hlookup' : ((Op.rescheduleCronJob id next).apply env s).2.jobs.lookup k = some job') :
    job'.status = job.status ∨ StatusEdge (.rescheduleCronJob id next) k job job'.status := by
  simp only [Op.apply, reply_snd] at hlookup'
  revert hlookup'
  refine commit_elim (P := fun t => t.jobs.lookup k = some job' → _) (fun hlookup' => ?_)
    fun t _ h hlookup' => ?_
  · rw [hlookup] at hlookup'
    injection hlookup' with hlookup'
    exact .inl (hlookup' ▸ rfl)
  · obtain ⟨stored, hstored, hallowed, hrec, hr⟩ := rescheduleCronJob_ok h
    refine hr.statusEdge hlookup hstored (fun hid => ?_) hlookup'
    -- every status it is allowed from but `Pending` has an edge
    show JobStatus.pending = stored.status ∨ StatusEdge _ k stored .pending
    cases hst : stored.status <;> rw [hst] at hallowed <;>
      simp_all [StatusEdge, DocumentedEdge, Op.HandsBack, Op.Revives, JobTransition.isAllowedFrom,
        JobTransition.allowedFrom]

theorem enableRecurringJob_statusEdge (hlookup : s.jobs.lookup k = some job)
    (hlookup' : ((Op.enableRecurringJob id).apply env s).2.jobs.lookup k = some job')
    (henable : ¬ (id = k ∧ job.status = .archived)) :
    job'.status = job.status ∨ StatusEdge (.enableRecurringJob id) k job job'.status := by
  simp only [Op.apply, reply_snd] at hlookup'
  revert hlookup'
  refine commit_elim (P := fun t => t.jobs.lookup k = some job' → _) (fun hlookup' => ?_)
    fun t _ h hlookup' => ?_
  · rw [hlookup] at hlookup'
    injection hlookup' with hlookup'
    exact .inl (hlookup' ▸ rfl)
  · obtain ⟨stored, hstored, ⟨hrun, hr⟩ | ⟨hrun, next, hnext, hr⟩⟩ := enableRecurringJob_ok h
    · exact hr.statusEdge hlookup hstored (fun _ => .inl rfl) hlookup'
    · refine hr.statusEdge hlookup hstored (fun hid => ?_) hlookup'
      subst hid
      obtain rfl : stored = job := Option.some.inj (hstored.symm.trans hlookup)
      have hcron := isSome_of_enabledRecurringNextRun hnext
      show JobStatus.pending = stored.status ∨ StatusEdge _ id stored .pending
      cases hst : stored.status <;>
        simp_all [StatusEdge, DocumentedEdge, Op.HandsBack, Op.Revives]

/-- So does a call that ends one job and applies the failure. -/
theorem Op.statusEdge_of_failing (hk : s.Keyed) {op : Op}
    (hallows : ∀ w, op.Allows env s w → w = .deed (.finish id) ∨ w = .deed .fallout)
    (hlookup : s.jobs.lookup k = some job)
    (hlookup' : (op.apply env s).2.jobs.lookup k = some job') :
    job'.status = job.status ∨ StatusEdge op k job job'.status := by
  refine ((Op.writes hk op).status (fun st => (st = .failed ∨ st = .dead ∨ st = .timedOut) ∧
    StatusEdge op k job st) hlookup (fun given hw => ?_) (fun d a b hw hedge ha => ?_)
    hlookup').imp_right (·.2)
  · rcases hallows _ hw with h | h <;> cases h
  · have hd : d = .finish id ∨ d = .fallout := by simpa using hallows _ hw
    rcases hd with rfl | rfl
    · obtain ⟨-, ⟨rfl, rfl⟩ | ⟨hfrom, rfl⟩⟩ := hedge
      · have hrun : job.status = .running := by simpa [eq_comm] using ha
        exact ⟨.inr (.inr rfl), .inl hrun⟩
      · refine ⟨.inr (.inl rfl), .inl ?_⟩
        show job.status = _ ∨ _
        rcases ha with rfl | ⟨rfl | rfl | rfl, hedge | hedge⟩
        · simpa [JobTransition.isAllowedFrom, JobTransition.allowedFrom] using hfrom
        · exact hedge.imp_right (.imp_right .inl)
        · cases hedge.1
        · simp [JobTransition.isAllowedFrom, JobTransition.allowedFrom] at hfrom
        · cases hedge.1
        · exact .inr (.inl hedge)
        · cases hedge.1
    · obtain ⟨hfrom, rfl⟩ := hedge
      refine ⟨.inl rfl, .inl ?_⟩
      rcases ha with rfl | ⟨rfl | rfl | rfl, -⟩
      · exact hfrom.imp_right .inr
      all_goals simp at hfrom

/-- So does recording how a run ended. -/
theorem Op.statusEdge_of_finish (hk : s.Keyed) {op : Op} (outcome : JobOutcome)
    (hlookup : s.jobs.lookup k = some job)
    (hinsert : ∀ given, op.Allows env s (.insert given) → ∀ job ∈ given, job.id ≠ k)
    (hputs : run.id = k → job.status = .running → op.HandsBack k job)
    (hallows : ∀ d, op.Allows env s (.deed d) → runIsCurrent s run = true ∧
      FinishAllows outcome run.id (.deed d))
    (hlookup' : (op.apply env s).2.jobs.lookup k = some job') :
    job'.status = job.status ∨ StatusEdge op k job job'.status := by
  by_cases hcur : runIsCurrent s run = true ∧ run.id = k
  · obtain ⟨hcur, rfl⟩ := hcur
    obtain ⟨stored, hstored, hadmits⟩ := isJob_iff.1 hcur
    obtain rfl : stored = job := Option.some.inj (hstored.symm.trans hlookup)
    have hrun : stored.status = .running := by
      simp only [Guard.admits, Bool.and_eq_true, decide_eq_true_eq] at hadmits
      exact hadmits.1
    refine Op.statusEdge_of_running hk hrun hlookup hinsert (hputs rfl hrun)
      (fun d a b hw hedge => ?_) hlookup'
    obtain ⟨-, hw⟩ := hallows d hw
    simp only [FinishAllows, WriteKind.deed.injEq] at hw
    rcases hw with rfl | rfl | rfl | rfl | ⟨-, rfl⟩ | ⟨-, rfl⟩ | rfl
    all_goals simp [Deed.Edge] at hedge
    · simp [hedge]
    · obtain ⟨-, rfl⟩ | ⟨-, rfl⟩ := hedge <;> simp
    all_goals simp [hedge]
  · refine Op.statusEdge_of_target hk .failed hlookup hinsert (fun d a b hw hedge => ?_) hlookup'
    obtain ⟨hcur', hw⟩ := hallows d hw
    have hne : run.id ≠ k := fun hid => hcur ⟨hcur', hid⟩
    simp only [FinishAllows, WriteKind.deed.injEq] at hw
    rcases hw with rfl | rfl | rfl | rfl | ⟨-, rfl⟩ | ⟨-, rfl⟩ | rfl
    all_goals simp only [Deed.Edge, hne, false_and] at hedge
    obtain ⟨hfrom, rfl⟩ := hedge
    exact ⟨rfl, fun hst => .inl (by rw [hst] at hfrom; exact hfrom.imp_right .inr)⟩

/-- So does a recovery of stale jobs. -/
theorem requeueStaleJobs_statusEdge (hk : s.Keyed) {queueName : Option String}
    (hlookup : s.jobs.lookup k = some job)
    (hlookup' : ((Op.requeueStaleJobs queueName).apply env s).2.jobs.lookup k = some job') :
    job'.status = job.status ∨ StatusEdge (.requeueStaleJobs queueName) k job job'.status := by
  have hinsert : ∀ given, (Op.requeueStaleJobs queueName).Allows env s (.insert given) →
      ∀ job ∈ given, job.id ≠ k := by
    intro given hw
    obtain ⟨id, stored, -, -, hw⟩ := hw
    simp [ReclaimAllows] at hw
  by_cases hrun : job.status = .running
  · refine Op.statusEdge_of_running hk hrun hlookup hinsert hrun
      (fun d a b hw hedge => ?_) hlookup'
    obtain ⟨id, stored, -, -, hw⟩ := hw
    simp only [ReclaimAllows, WriteKind.deed.injEq, reduceCtorEq, false_or] at hw
    rcases hw with rfl | rfl | rfl | rfl
    all_goals simp [Deed.Edge] at hedge; simp [hedge]
  · refine Op.statusEdge_of_target hk .failed hlookup hinsert (fun d a b hw hedge => ?_) hlookup'
    obtain ⟨id, stored, hstored, hstale, hw⟩ := hw
    have hne : id ≠ k := by
      rintro rfl
      rw [hlookup] at hstored
      injection hstored with hstored
      exact hrun (hstored ▸ running_of_isStale hstale)
    simp only [ReclaimAllows, WriteKind.deed.injEq, reduceCtorEq, false_or] at hw
    rcases hw with rfl | rfl | rfl | rfl
    all_goals simp only [Deed.Edge, hne, false_and] at hedge
    obtain ⟨hfrom, rfl⟩ := hedge
    exact ⟨rfl, fun hst => .inl (by rw [hst] at hfrom; exact hfrom.imp_right .inr)⟩

/-- A call moves the jobs that were there before it along the edges,
except that an archived job can be enabled. -/
theorem Op.statusEdge (hk : s.Keyed) (hco : s.Coherent) {op : Op}
    (hfresh : (Event.call op).Fresh s) (hlookup : s.jobs.lookup k = some job)
    (hlookup' : (op.apply env s).2.jobs.lookup k = some job')
    (henable : ¬ (op = .enableRecurringJob k ∧ job.status = .archived)) :
    job'.status = job.status ∨ StatusEdge op k job job'.status := by
  have hinsert : ∀ given, op.Allows env s (.insert given) → ∀ job ∈ given, job.id ≠ k :=
    fun given hw => hfresh.not_inserted hlookup hw
  have hown : ∀ {stored}, s.jobs.lookup k = some stored → stored = job := by
    intro stored hstored
    rw [hlookup] at hstored
    injection hstored with hstored
    exact hstored.symm
  cases op
  case dequeue queueName weights lease maxJobs =>
    refine Op.statusEdge_of_target hk .running hlookup hinsert (fun d a b hw hedge => ?_) hlookup'
    obtain ⟨id, hid, hw⟩ := hw
    cases hw
    obtain ⟨rfl, rfl⟩ := hedge
    obtain ⟨stored, hstored, hst, -⟩ := claimed_pending hk hco hid
    exact ⟨rfl, fun _ => .inl ⟨trivial, hown hstored ▸ hst⟩⟩
  case releaseJobRun run =>
    refine Op.statusEdge_of_target hk .pending hlookup hinsert (fun d a b hw hedge => ?_) hlookup'
    simp only [Op.Allows, WriteKind.deed.injEq] at hw
    obtain ⟨-, rfl⟩ := hw
    obtain ⟨rfl, rfl, rfl⟩ := hedge
    exact ⟨rfl, fun hst => .inl ⟨rfl, hst.symm⟩⟩
  case completeJob id =>
    refine Op.statusEdge_of_target hk .completed hlookup hinsert (fun d a b hw hedge => ?_) hlookup'
    simp only [Op.Allows, WriteKind.deed.injEq] at hw
    rcases hw with rfl | rfl
    · obtain ⟨-, hfrom, rfl⟩ := hedge
      exact ⟨rfl, fun hst => .inl (by rwa [hst] at hfrom)⟩
    · cases hedge
  case failJob id error =>
    refine Op.statusEdge_of_target hk .failed hlookup hinsert (fun d a b hw hedge => ?_) hlookup'
    simp only [Op.Allows, WriteKind.deed.injEq] at hw
    rcases hw with rfl | rfl
    · obtain ⟨-, hfrom, rfl⟩ := hedge
      exact ⟨rfl, fun hst => .inl (by rwa [hst] at hfrom)⟩
    · obtain ⟨hfrom, rfl⟩ := hedge
      exact ⟨rfl, fun hst => .inl (by rw [hst] at hfrom; exact hfrom.imp_right .inr)⟩
  case failJobDependencies id =>
    refine Op.statusEdge_of_target hk .failed hlookup hinsert (fun d a b hw hedge => ?_) hlookup'
    simp only [Op.Allows, WriteKind.deed.injEq] at hw
    subst hw
    obtain ⟨hfrom, rfl⟩ := hedge
    exact ⟨rfl, fun hst => .inl (by rw [hst] at hfrom; exact hfrom.imp_right .inr)⟩
  case cancelWorkflow workflowId =>
    refine Op.statusEdge_of_target hk .failed hlookup hinsert (fun d a b hw hedge => ?_) hlookup'
    simp only [Op.Allows, WriteKind.deed.injEq, reduceCtorEq, or_false] at hw
    subst hw
    obtain ⟨hfrom, rfl⟩ := hedge
    exact ⟨rfl, fun hst => .inl (by rwa [hst] at hfrom)⟩
  case archiveJobs queueName policy =>
    refine Op.statusEdge_of_target hk .archived hlookup hinsert (fun d a b hw hedge => ?_) hlookup'
    simp only [Op.Allows, WriteKind.deed.injEq] at hw
    subst hw
    obtain ⟨hfrom, rfl⟩ := hedge
    exact ⟨rfl, fun hst => .inl ⟨trivial, hst ▸ hfrom⟩⟩
  case restoreArchivedJob id =>
    refine Op.statusEdge_of_target hk .pending hlookup hinsert (fun d a b hw hedge => ?_) hlookup'
    simp only [Op.Allows, WriteKind.deed.injEq] at hw
    subst hw
    obtain ⟨rfl, hfrom, rfl⟩ := hedge
    exact ⟨rfl, fun hst => .inl ⟨rfl, hst.symm.trans hfrom⟩⟩
  case retryJob id retryAt =>
    refine Op.statusEdge_of_target hk .pending hlookup hinsert (fun d a b hw hedge => ?_) hlookup'
    simp only [Op.Allows, WriteKind.deed.injEq] at hw
    subst hw
    obtain ⟨rfl, hfrom, rfl⟩ := hedge
    refine ⟨rfl, fun hst => ?_⟩
    subst hst
    simpa [StatusEdge, DocumentedEdge, Op.HandsBack, Op.Revives, JobTransition.isAllowedFrom,
      JobTransition.allowedFrom, or_assoc, or_comm, or_left_comm] using hfrom
  case retryDeadJob id =>
    refine Op.statusEdge_of_target hk .pending hlookup hinsert (fun d a b hw hedge => ?_) hlookup'
    simp only [Op.Allows, WriteKind.deed.injEq] at hw
    subst hw
    obtain ⟨rfl, hfrom, rfl⟩ := hedge
    refine ⟨rfl, fun hst => ?_⟩
    subst hst
    simpa [StatusEdge, DocumentedEdge, Op.HandsBack, Op.Revives, JobTransition.isAllowedFrom,
      JobTransition.allowedFrom, or_comm] using hfrom
  case rescheduleCronJob id next => exact rescheduleCronJob_statusEdge hlookup hlookup'
  case enableRecurringJob id =>
    refine enableRecurringJob_statusEdge hlookup hlookup' fun harchived => ?_
    obtain ⟨rfl, hst⟩ := harchived
    exact henable ⟨rfl, hst⟩
  case markJobDead id error =>
    exact Op.statusEdge_of_failing hk (fun w hw => hw) hlookup hlookup'
  case markJobTimedOut id error =>
    exact Op.statusEdge_of_failing hk (fun w hw => hw) hlookup hlookup'
  case finishJobRun run outcome wall =>
    exact Op.statusEdge_of_finish hk outcome hlookup hinsert (fun hid hrun => ⟨hid, hrun⟩)
      (fun d hw => hw) hlookup'
  case completeJobRunWithChildren run children wall =>
    refine Op.statusEdge_of_finish hk .completed hlookup hinsert (fun hid hrun => ⟨hid, hrun⟩)
      (fun d hw => ?_) hlookup'
    obtain ⟨hcur, ⟨_, _, hw⟩ | hw | hw⟩ := hw
    · cases hw
    · cases hw
    · exact ⟨hcur, hw⟩
  case requeueStaleJobs queueName => exact requeueStaleJobs_statusEdge hk hlookup hlookup'
  -- no deed of the others changes a status
  case startClaimedRun run lease =>
    refine Op.statusEdge_of_target hk .running hlookup hinsert (fun d a b hw hedge => ?_) hlookup'
    obtain ⟨-, hw⟩ := hw
    cases hw
    cases hedge
  case disableRecurringJob id | resolveJobDependencies id =>
    refine Op.statusEdge_of_target hk .running hlookup hinsert (fun d a b hw hedge => ?_) hlookup'
    cases hw
    cases hedge
  all_goals
    refine Op.statusEdge_of_target hk .running hlookup hinsert (fun d a b hw hedge => ?_) hlookup'
    simp [Op.Allows] at hw

/-- Failing for another job, being cancelled and being released happen to
jobs about to run. -/
theorem Change.not_settled {d : Deed} (h : Change s d k job job')
    (hd : d = .fallout ∨ d = .cancel ∨ d = .resolve) : ¬ job.Settled := by
  have hlive : job.status = .pending ∨ job.status = .running ∨ job.status = .retrying := by
    rcases hd with rfl | rfl | rfl
    · cases h with
      | fallout _ hun => exact (unstarted_iff.1 hun).imp_right .inr
    · cases h with
      | cancel _ hun => exact unfinished_iff.1 hun
    · cases h with
      | resolve hheld =>
          simp only [held, Bool.and_eq_true, decide_eq_true_eq] at hheld
          exact .inl hheld.1
  unfold Job.Settled
  rcases hlive with h | h | h <;> simp [h]

/-- A settled job is beyond the failures of others and beyond a
cancellation. -/
theorem Op.settled_kept (hk : s.Keyed) {op : Op} (hop : op.FailsOthers k)
    (hlookup : s.jobs.lookup k = some job) (hsettled : job.Settled)
    (hlookup' : (op.apply env s).2.jobs.lookup k = some job') : job' = job := by
  have hdeed : ∀ {t d j j'}, Change t d k j j' → j = job →
      d = .fallout ∨ d = .cancel ∨ d = .resolve → j' = job :=
    fun hchange hj hd => absurd (hj ▸ hsettled) (hchange.not_settled hd)
  refine (Op.writes hk op).record (R := (· = job)) hlookup rfl (fun given hw => ?_)
    (fun t d j j' hw hchange hj => ?_) hlookup'
  · obtain ⟨⟩ : False := by
      cases op <;> simp [Op.Allows, FinishAllows, ReclaimAllows, Op.FailsOthers] at hw hop
  · cases op
    case failJob id error =>
      simp only [Op.Allows, WriteKind.deed.injEq] at hw
      rcases hw with rfl | rfl
      · cases hchange
        exact absurd rfl hop
      · exact hdeed hchange hj (.inl rfl)
    case markJobDead id error | markJobTimedOut id error =>
      simp only [Op.Allows, WriteKind.deed.injEq] at hw
      rcases hw with rfl | rfl
      · cases hchange <;> exact absurd rfl hop
      · exact hdeed hchange hj (.inl rfl)
    case finishJobRun run outcome wall =>
      simp only [Op.Allows, FinishAllows, WriteKind.deed.injEq] at hw
      rcases hw with ⟨-, rfl | rfl | rfl | rfl | ⟨-, rfl⟩ | ⟨-, rfl⟩ | rfl⟩
      case inr.inl => exact hdeed hchange hj (.inr (.inr rfl))
      case inr.inr.inr.inl => exact hdeed hchange hj (.inl rfl)
      all_goals cases hchange <;> exact absurd rfl hop
    case requeueStaleJobs queueName =>
      obtain ⟨id, stored, hstored, hstale, hw⟩ := hw
      have hne : id ≠ k := by
        intro hid
        rw [hid, hlookup] at hstored
        injection hstored with hstored
        have hrun := running_of_isStale hstale
        rw [← hstored] at hrun
        simp [Job.Settled, hrun] at hsettled
      simp only [ReclaimAllows, WriteKind.deed.injEq, reduceCtorEq, false_or] at hw
      rcases hw with rfl | rfl | rfl | rfl
      case inr.inr.inr => exact hdeed hchange hj (.inl rfl)
      all_goals cases hchange <;> exact absurd rfl hne
    case failJobDependencies id =>
      simp only [Op.Allows, WriteKind.deed.injEq] at hw
      exact hdeed hchange hj (.inl hw)
    case cancelWorkflow workflowId =>
      simp only [Op.Allows, WriteKind.deed.injEq, reduceCtorEq, or_false] at hw
      exact hdeed hchange hj (.inr (.inl hw))
    all_goals cases hop

-- == every run

/-- In every run whose jobs have ids of their own, a call moves the jobs
that are stored before and after it along the edges; and no job's
failure, no recovery and no cancellation touches a job that completed,
died, timed out or was archived. (Enabling an archived job is left
out.) -/
theorem status_follows_edges {n : Nat} (r : Run (Step env) n) {clock : DateTime}
    (h0 : r.state 0 = TestStorage.new clock) (hnew : NewIds r) {i : Nat} (hi : i < n) {op : Op}
    (hop : r.event i = .call op) {k : JobId} {job job' : Job}
    (hlookup : (r.state i).jobs.lookup k = some job)
    (hlookup' : (r.state (i + 1)).jobs.lookup k = some job') :
    (¬ (op = .enableRecurringJob k ∧ job.status = .archived) →
      job'.status = job.status ∨ StatusEdge op k job job'.status) ∧
    (op.FailsOthers k → job.Settled → job' = job) := by
  have hk := run_keyed r h0 i (by omega)
  have hco := run_coherent r h0 (hnew.fresh h0) i (by omega)
  have hfresh := hnew.fresh h0 i hi
  have hstep := r.next i hi
  rw [hop] at hfresh hstep
  have hnext : r.state (i + 1) = (op.apply env (r.state i)).2 := by
    generalize r.state (i + 1) = t at hstep
    cases hstep
    rfl
  rw [hnext] at hlookup'
  exact ⟨fun henable => Op.statusEdge hk hco hfresh hlookup hlookup' henable,
    fun hfails hsettled => Op.settled_kept hk hfails hlookup hsettled hlookup'⟩

/-- Job 2, which depends on job 1, is dead, and job 1 fails. -/
def deadDependentRun : List Op :=
  [.enqueue parentJob, .enqueue dependentJob, .markJobDead 2 "given up",
    .failJob 1 "no mailbox"]

/-- Job 2 stays as it is. -/
theorem status_follows_edges_deadDependent :
    let r := Op.trace plainEnv deadDependentRun (TestStorage.new 0)
    ∃ job, (r.state 3).jobs.lookup 2 = some job ∧ job.status = .dead ∧
      (r.state 4).jobs.lookup 2 = some job := by
  have hdead : ((Op.trace plainEnv deadDependentRun (TestStorage.new 0)).state 3).isJob 2
      (·.status = .dead) = true := by decide +kernel
  have hafter : (((Op.trace plainEnv deadDependentRun (TestStorage.new 0)).state 4).jobs.lookup
      2).isSome := by decide +kernel
  obtain ⟨job, hlookup, hst⟩ := isJob_iff.1 hdead
  obtain ⟨job', hlookup'⟩ := Option.isSome_iff_exists.1 hafter
  have hlaw := status_follows_edges (Op.trace plainEnv deadDependentRun (TestStorage.new 0))
    rfl ⟨?_, ?_⟩ (show 3 < 4 by omega) rfl hlookup hlookup'
  · have hkept := hlaw.2 (show (1 : Nat) ≠ 2 by omega) (.inr (.inl (of_decide_eq_true hst)))
    exact ⟨job, hlookup, of_decide_eq_true hst, hkept ▸ hlookup'⟩
  · intro i hi
    match i, hi with
    | 0, _ | 1, _ | 2, _ | 3, _ => decide
  · intro i j hij hj
    match j, hj with
    | 0, _ => omega
    | 1, _ =>
        match i, hij with
        | 0, _ => decide
    | 2, _ | 3, _ => exact fun job _ job' hjob' => by cases hjob'

/-- A call can move a stored job along an edge that is not documented. -/
def StrayEdge (env : Env) (op : Op) (k : JobId) : Prop :=
  ∃ s job job', Reachable env s ∧ s.jobs.lookup k = some job ∧
    (op.apply env s).2.jobs.lookup k = some job' ∧ job'.status ≠ job.status ∧
    ¬ DocumentedEdge op k job job'.status

theorem strayEdge_of {op : Op} (ops : List Op) (a b : JobStatus)
    (ha : (Op.applyAll env ops (TestStorage.new 0)).isJob k (·.status = a) = true)
    (hb : (op.apply env (Op.applyAll env ops (TestStorage.new 0))).2.isJob k (·.status = b) = true)
    (hne : b ≠ a) (hedge : ∀ job : Job, job.status = a → ¬ DocumentedEdge op k job b) :
    StrayEdge env op k := by
  obtain ⟨job, hlookup, hst⟩ := isJob_iff.1 ha
  obtain ⟨job', hlookup', hst'⟩ := isJob_iff.1 hb
  obtain rfl := of_decide_eq_true hst'
  obtain rfl := of_decide_eq_true hst
  exact ⟨_, job, job', reachable_applyAll env ops 0, hlookup, hlookup', hne, hedge job rfl⟩

/-- A completed recurring job is revived by enabling it; a job enqueued
as retrying is put back by hand; and a completed job enqueued once more
is pending again. -/
theorem some_edges_are_undocumented :
    StrayEdge plainEnv (.enableRecurringJob 1) 1 ∧ StrayEdge plainEnv (.retryJob 1 0) 1 ∧
      StrayEdge plainEnv (.enqueue parentJob) 1 := by
  refine ⟨?_, ?_, ?_⟩
  · refine strayEdge_of [.enqueueCronJob { parentJob with cronSchedule := some "0 0 0 * * *" },
      .completeJob 1] .completed .pending (by decide +kernel) (by decide +kernel) (by decide)
      fun job hst hedge => ?_
    simp [DocumentedEdge, Op.HandsBack, hst] at hedge
  · refine strayEdge_of [.enqueue { parentJob with status := .retrying }] .retrying .pending
      (by decide +kernel) (by decide +kernel) (by decide) fun job hst hedge => ?_
    simp [DocumentedEdge, Op.HandsBack, hst] at hedge
  · refine strayEdge_of [.enqueue parentJob, .completeJob 1] .completed .pending
      (by decide +kernel) (by decide +kernel) (by decide) fun job hst hedge => ?_
    simp [DocumentedEdge, Op.HandsBack] at hedge

-- == what stays

/-- A job without its state: what it is, and how it is to be run. -/
def Job.settings (job : Job) : Job :=
  { job with
    status := .pending
    attempts := 0
    scheduledAt := 0
    startedAt := none
    completedAt := none
    failedAt := none
    timedOutAt := none
    errorMessage := none
    nextRunAt := none
    recurring := false
    resultData := none
    resultStoredAt := none
    resultExpiresAt := none
    dependencyStatus := .none }

theorem Change.settings {d : Deed} (h : Change s d k job job') :
    job'.settings = job.settings := by
  cases h <;> rfl

/-- From the time it is stored, no call changes what a job is or how it is
to be run: its payload, queue, priority, limits, dependencies, groups and
encryption. -/
theorem stored_settings_stay {n : Nat} {r : Run (Step env) n} {clock : DateTime}
    (h0 : r.state 0 = TestStorage.new clock) (hnew : NewIds r) {i j : Nat} (hij : i ≤ j)
    (hj : j ≤ n) (hlookup : (r.state i).jobs.lookup k = some job)
    (hlookup' : (r.state j).jobs.lookup k = some job') : job'.settings = job.settings := by
  induction j, hij using Nat.le_induction generalizing job' with
  | base =>
      cases hlookup.symm.trans hlookup'
      rfl
  | succ j hij ih =>
      have hk := run_keyed r h0 j (by omega)
      have hstep := r.next j (by omega)
      -- the id is not handed in again
      have hold : ((r.state j).jobs.lookup k).isSome := by
        rcases hstep.stored_back hk hlookup' with hold | ⟨given, hgiven, hid⟩
        · exact hold
        · obtain ⟨m, hm, first, hfirst, hid'⟩ := stored_handedIn h0 i (by omega) k job hlookup
          exact absurd (hid'.trans hid.symm)
            (hnew.across m j (by omega) (by omega) first hfirst given hgiven)
      obtain ⟨mid, hmid⟩ := Option.isSome_iff_exists.1 hold
      have hfresh := hnew.fresh h0 j (by omega)
      exact (hstep.writes hk).record (R := fun now => now.settings = job.settings) hmid
        (ih (by omega) hmid) (fun given hw => hfresh.not_inserted hmid hw)
        (fun _ _ _ _ _ hchange hnow => hchange.settings.trans hnow) hlookup'

/-- A job is enqueued and completed. -/
def completedRun : Run (Step plainEnv) 2 :=
  Op.trace plainEnv [.enqueue parentJob, .completeJob 1] (TestStorage.new 0)

theorem stored_settings_stay_completed :
    ∃ job job', (completedRun.state 1).jobs.lookup 1 = some job ∧
      (completedRun.state 2).jobs.lookup 1 = some job' ∧
      job.status = .pending ∧ job'.status = .completed ∧ job'.settings = job.settings := by
  have hnew : NewIds completedRun := by
    refine newIds_of_first (by decide) fun i hi hin => ?_
    obtain rfl : i = 1 := by omega
    rfl
  have hbefore : (completedRun.state 1).isJob 1 (·.status = .pending) = true := by
    decide +kernel
  have hafter : (completedRun.state 2).isJob 1 (·.status = .completed) = true := by
    decide +kernel
  obtain ⟨job, hlookup, hst⟩ := isJob_iff.1 hbefore
  obtain ⟨job', hlookup', hst'⟩ := isJob_iff.1 hafter
  exact ⟨job, job', hlookup, hlookup', of_decide_eq_true hst, of_decide_eq_true hst',
    stored_settings_stay rfl hnew (by decide) (by decide) hlookup hlookup'⟩

end Hammerwork
