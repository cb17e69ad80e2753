/-
Runs are fenced.

A worker holds a handle: the job as it was when it was handed out (or
started). The queue accepts a report only while the job is still running
that very run, which it tells by the number of attempts and the start
time, to a millisecond. Attempts go up and down (`releaseJobRun` takes
one back, others reset them), so what separates two runs of a job is
when they started; the law assumes that any two settings of a job's
start time are a millisecond apart.

# Why a fence stays closed

- A running job started when its start time was last set
  (`run_started`): nothing else writes a start time and nothing but a
  claim makes a job run.
- So a handle that is admitted is the handle of the last setting, and
  the job has been running, with the same attempts, ever since
  (`Step.runningAs_back`). If at any time in between the handle was not
  admitted, it cannot be admitted now.
-/
import Hammerwork.Proofs.Calls

namespace Hammerwork

open TestStorage TestQueue

variable {s s' : TestStorage} {env : Env} {k : JobId} {job job' handle run : Job} {e : Event}
variable {attempts : Int} {startedAt : Option DateTime}

-- == the same run

/-- Start times a whole millisecond apart are told apart. -/
theorem natAbs_lt_of_numMicroseconds {d delta : Int} (h : numMicroseconds d = some delta)
    (hlt : delta.natAbs < 1000) : d.natAbs < 1000000 := by
  unfold numMicroseconds at h
  dsimp only at h
  split at h
  · injection h with h
    rw [← h, Int.natAbs_tdiv] at hlt
    replace hlt : d.natAbs / 1000 < 1000 := hlt
    omega
  · cases h

/-- A stored run that is the handle's has its attempts and, to a
millisecond, its start time. -/
theorem isSameRun_started {t : DateTime} (h : isSameRun job handle = true)
    (ht : handle.startedAt = some t) : job.attempts = handle.attempts ∧
      ∃ t', job.startedAt = some t' ∧ (t' - t).natAbs < 1000000 := by
  unfold isSameRun at h
  split at h
  · cases h
  · next hsame =>
    rw [not_or, not_not, not_not] at hsame
    refine ⟨hsame.2, ?_⟩
    rw [ht] at h
    split at h
    · next stored claimed hstored hclaimed =>
      injection hclaimed with hclaimed
      subst hclaimed
      refine ⟨stored, hstored, ?_⟩
      split at h
      · next delta hdelta =>
        exact natAbs_lt_of_numMicroseconds hdelta (by simpa using h)
      · cases h
    · next hnone => cases hnone
    · cases h

theorem isSameRun_congr (hid : job'.id = job.id) (hattempts : job'.attempts = job.attempts)
    (hstarted : job'.startedAt = job.startedAt) : isSameRun job' handle = isSameRun job handle := by
  unfold isSameRun
  rw [hid, hattempts, hstarted]

/-- A handle that is admitted is of a run the job is in. -/
theorem runningAs_of_current (h : runIsCurrent s handle = true) :
    ∃ startedAt, RunningAs s handle.id handle.attempts startedAt ∧
      ∀ t, handle.startedAt = some t → ∃ t', startedAt = some t' ∧ (t' - t).natAbs < 1000000 := by
  obtain ⟨job, hlookup, hst, hsame⟩ := runIsCurrent_iff.1 h
  refine ⟨job.startedAt, ⟨job, hlookup, hst, ?_, rfl⟩, fun t ht => (isSameRun_started hsame ht).2⟩
  unfold isSameRun at hsame
  split at hsame
  · cases hsame
  · next hne =>
    rw [not_or, not_not, not_not] at hne
    exact hne.2

/-- Whether a handle is admitted depends on the run alone. -/
theorem current_of_runningAs (hk : s.Keyed) (hk' : s'.Keyed)
    (hrun : RunningAs s handle.id attempts startedAt)
    (hrun' : RunningAs s' handle.id attempts startedAt) (h : runIsCurrent s handle = true) :
    runIsCurrent s' handle = true := by
  obtain ⟨job, hlookup, -, hattempts, hstarted⟩ := hrun
  obtain ⟨job', hlookup', hst', hattempts', hstarted'⟩ := hrun'
  obtain ⟨job₀, hlookup₀, -, hsame⟩ := runIsCurrent_iff.1 h
  rw [hlookup] at hlookup₀
  injection hlookup₀ with hlookup₀
  subst hlookup₀
  refine runIsCurrent_iff.2 ⟨job', hlookup', hst', ?_⟩
  rw [isSameRun_congr ((hk' _ _ hlookup').trans (hk _ _ hlookup).symm)
    (hattempts'.trans hattempts.symm) (hstarted'.trans hstarted.symm)]
  exact hsame

-- == the handles

/-- A step gives out the handle `handle`: a job dequeued, or a run
started. -/
def Issues (env : Env) (s : TestStorage) (e : Event) (handle : Job) : Prop :=
  (∃ jobs, e.reply env s = some (.jobs jobs) ∧ handle ∈ jobs) ∨
    e.reply env s = some (.started true handle)

/-- A step sets the start time of the job `k`. -/
def SetsStart (env : Env) (s : TestStorage) (e : Event) (k : JobId) : Prop :=
  ∃ handle, Issues env s e handle ∧ handle.id = k

/-- What the reply of a result can be. -/
theorem reply_fst {α : Type} (f : α → Reply) (r : Result α) :
    (∃ e, (r.reply f).1 = .error e) ∨ ∃ a, (r.reply f).1 = f a := by
  obtain ⟨r, s⟩ := r
  cases r with
  | error e => exact .inl ⟨e, rfl⟩
  | ok a => exact .inr ⟨a, rfl⟩

/-- Dequeues and starts give out handles, and no other call does. -/
theorem Issues.cases (hk : s.Keyed) (h : Issues env s e handle) :
    (∃ queueName weights lease maxJobs, e = .call (.dequeue queueName weights lease maxJobs) ∧
      handle.id ∈ claimedIds env s queueName weights maxJobs ∧ HandedOut s handle) ∨
    (∃ run lease, e = .call (.startClaimedRun run lease) ∧ runIsCurrent s run = true ∧
      handle = { run with startedAt := some s.clock }) := by
  cases e with
  | rehash =>
      rcases h with ⟨_, h, -⟩ | h <;> cases h
  | call op =>
      have hreply : ∀ {α : Type} (f : α → Reply) (r : Result α),
          (op.apply env s).1 = (r.reply f).1 →
          (∃ jobs, (op.apply env s).1 = .jobs jobs) ∨ (op.apply env s).1 = .started true handle →
          (∀ a, (∀ jobs, f a ≠ .jobs jobs) ∧ f a ≠ .started true handle) → False := by
        intro α f r heq hout hf
        rw [heq] at hout
        rcases reply_fst f r with ⟨e, he⟩ | ⟨a, ha⟩
        · rw [he] at hout
          rcases hout with ⟨_, h⟩ | h <;> cases h
        · rw [ha] at hout
          rcases hout with ⟨jobs, h⟩ | h
          · exact (hf a).1 jobs h
          · exact (hf a).2 h
      have hout : (∃ jobs, (op.apply env s).1 = .jobs jobs) ∨
          (op.apply env s).1 = .started true handle := by
        rcases h with ⟨jobs, h, -⟩ | h
        · exact .inl ⟨jobs, Option.some.inj h⟩
        · exact .inr (Option.some.inj h)
      cases op
      case dequeue queueName weights lease maxJobs =>
        obtain ⟨-, -, jobs, hjobs, hids, hhanded⟩ := dequeue_writes env hk queueName weights lease
          maxJobs
        obtain ⟨s', hdeq⟩ : ∃ s', TestQueue.dequeue env s queueName weights lease maxJobs
            = (.ok jobs, s') := ⟨_, Prod.ext hjobs rfl⟩
        simp only [Issues, Event.reply, Op.apply, hdeq, Result.reply, Option.some.injEq,
          Reply.jobs.injEq, reduceCtorEq, or_false, exists_eq_left'] at h
        refine .inl ⟨queueName, weights, lease, maxJobs, rfl, ?_, hhanded handle h⟩
        rw [← hids]
        exact List.mem_map_of_mem h
      case startClaimedRun run lease =>
        cases hcur : runIsCurrent s run with
        | false =>
            simp only [Issues, Event.reply, Op.apply, TestQueue.startClaimedRun, hcur, commit,
              Result.reply, Bool.not_false, if_true, Option.some.injEq, Reply.started.injEq,
              reduceCtorEq, false_and, exists_const, or_false] at h
        | true =>
            simp only [Issues, Event.reply, Op.apply, TestQueue.startClaimedRun, hcur, commit,
              Result.reply, Bool.not_true, Bool.false_eq_true, if_false, Option.some.injEq,
              Reply.started.injEq, reduceCtorEq, false_and, exists_const, false_or,
              true_and] at h
            exact .inr ⟨run, lease, rfl, hcur, h.symm⟩
      case setTime =>
        rcases hout with ⟨_, h⟩ | h <;> cases h
      all_goals
        refine (hreply _ _ rfl hout fun a => ⟨fun jobs h => ?_, fun h => ?_⟩).elim <;> cases h

/-- A handle is of a run that starts now. -/
theorem Issues.started (hk : s.Keyed) (h : Issues env s e handle) :
    handle.startedAt = some s.clock := by
  rcases h.cases hk with ⟨_, _, _, _, -, -, hout⟩ | ⟨_, _, -, -, rfl⟩
  · exact hout.startedAt
  · rfl

/-- The jobs a dequeue claims are handed out. -/
theorem setsStart_of_claimed (hk : s.Keyed) {queueName : String}
    {weights : Option PriorityWeights} {lease : Duration} {maxJobs : Nat}
    (h : k ∈ claimedIds env s queueName weights maxJobs) :
    SetsStart env s (.call (.dequeue queueName weights lease maxJobs)) k := by
  obtain ⟨-, -, jobs, hjobs, hids, -⟩ := dequeue_writes env hk queueName weights lease maxJobs
  obtain ⟨s', hdeq⟩ : ∃ s', TestQueue.dequeue env s queueName weights lease maxJobs
      = (.ok jobs, s') := ⟨_, Prod.ext hjobs rfl⟩
  rw [← hids] at h
  obtain ⟨handle, hmem, rfl⟩ := List.mem_map.1 h
  refine ⟨handle, .inl ⟨jobs, ?_, hmem⟩, rfl⟩
  simp only [Event.reply, Op.apply, hdeq, Result.reply]

theorem setsStart_of_current {lease : Duration} (h : runIsCurrent s run = true) :
    SetsStart env s (.call (.startClaimedRun run lease)) run.id := by
  refine ⟨{ run with startedAt := some s.clock }, .inr ?_, rfl⟩
  simp only [Event.reply, Op.apply, TestQueue.startClaimedRun, h, commit, Result.reply,
    Bool.not_true, Bool.false_eq_true, if_false]

-- == steps

/-- A step that does not set the start time of `k` starts no run of
it. -/
theorem Event.not_starts (hk : s.Keyed) (hset : ¬ SetsStart env s e k)
    (hnew : ∀ job ∈ e.enqueued, job.id = k → job.status ≠ .running) :
    ∀ w, e.Allows env s w → ¬ w.Starts k := by
  intro w hw hstarts
  cases e with
  | rehash =>
      cases hw
      exact hstarts
  | call op =>
      cases w with
      | insert given =>
          obtain ⟨job', hmem, hid, hrun⟩ := hstarts
          obtain ⟨job, hjob, hsame⟩ := Op.Allows.insert hw job' hmem
          exact hnew job hjob (hsame.id.symm.trans hid) (hsame.status ▸ hrun)
      | deed d =>
          cases d <;> try exact hstarts
          case claim id =>
            obtain rfl : id = k := hstarts
            cases op <;> simp only [Event.Allows, Op.Allows, FinishAllows, ReclaimAllows,
              WriteKind.deed.injEq, Deed.claim.injEq, reduceCtorEq, or_self, and_false,
              exists_false] at hw
            obtain ⟨id, hid, rfl⟩ := hw
            exact hset (setsStart_of_claimed hk hid)
          case start id =>
            obtain rfl : id = k := hstarts
            cases op <;> simp only [Event.Allows, Op.Allows, FinishAllows, ReclaimAllows,
              WriteKind.deed.injEq, Deed.start.injEq, reduceCtorEq, or_self, and_false,
              exists_false] at hw
            obtain ⟨hcur, rfl⟩ := hw
            exact hset (setsStart_of_current hcur)
      | _ => exact hstarts

/-- A job running after such a step was running the same run before. -/
theorem Step.runningAs_back (h : Step env s e s') (hk : s.Keyed)
    (hset : ¬ SetsStart env s e k)
    (hnew : ∀ job ∈ e.enqueued, job.id = k → job.status ≠ .running)
    (hrun : RunningAs s' k attempts startedAt) : RunningAs s k attempts startedAt :=
  (h.writes hk).runningAs_back (Event.not_starts hk hset hnew) hrun

/-- A job running after its start time was set started at that step. -/
theorem Step.started (h : Step env s e s') (hk : s.Keyed) (hset : SetsStart env s e k)
    (hrun : RunningAs s' k attempts startedAt) : startedAt = some s.clock := by
  obtain ⟨handle, hissues, rfl⟩ := hset
  obtain ⟨job, hlookup, -, -, rfl⟩ := hrun
  rcases hissues.cases hk with ⟨queueName, weights, lease, maxJobs, rfl, hid, -⟩ |
    ⟨run, lease, rfl, hcur, rfl⟩
  · obtain ⟨hwrites, hnow, -⟩ := dequeue_writes env hk queueName weights lease maxJobs
    have hclock := hwrites.clock (by rintro ⟨_, _, h⟩; cases h)
    cases h with
    | call =>
        unfold Op.apply at hlookup
        rw [reply_snd] at hlookup
        rw [← hclock]
        exact hnow _ hid job hlookup
  · cases h with
    | call =>
        unfold Op.apply at hlookup
        rw [reply_snd] at hlookup
        cases hstart : startClaimedRun s run lease with
        | error e =>
            unfold startClaimedRun at hstart
            rw [hcur] at hstart
            cases hstart
        | ok out =>
            obtain ⟨s₁, b, run'⟩ := out
            rw [hstart] at hlookup
            rcases startClaimedRun_ok hstart with ⟨-, -, -, hno⟩ | ⟨-, -, job₀, -, -, -, hr⟩
            · rw [hcur] at hno
              cases hno
            · have hself : s₁.jobs.lookup run.id = some job := hlookup
              rw [hr.lookup_self] at hself
              injection hself with hself
              rw [← hself]

-- == runs

section Runs

variable {n : Nat} {clock : DateTime} {i j m : Nat}

/-- Any two settings of a job's start time are a millisecond apart. -/
def Spaced (r : Run (Step env) n) : Prop :=
  ∀ i j k, i < j → j < n → SetsStart env (r.state i) (r.event i) k →
    SetsStart env (r.state j) (r.event j) k →
    1000000 ≤ ((r.state j).clock - (r.state i).clock).natAbs

/-- No job is handed in running. -/
def NewJobs (r : Run (Step env) n) : Prop :=
  ∀ i < n, ∀ job ∈ (r.event i).enqueued, job.status ≠ .running

/-- A running job started when its start time was last set. -/
theorem run_started (r : Run (Step env) n) (h0 : r.state 0 = TestStorage.new clock)
    (hnew : NewJobs r) : ∀ m ≤ n, ∀ k attempts startedAt,
      RunningAs (r.state m) k attempts startedAt →
      ∃ i < m, SetsStart env (r.state i) (r.event i) k ∧ startedAt = some (r.state i).clock ∧
        ∀ j, i < j → j < m → ¬ SetsStart env (r.state j) (r.event j) k := by
  intro m
  induction m with
  | zero =>
      rintro - k attempts startedAt ⟨job, hlookup, -⟩
      rw [h0] at hlookup
      cases hlookup
  | succ m ih =>
      intro hm k attempts startedAt hrun
      have hstep := r.next m (by omega)
      have hk := run_keyed r h0 m (by omega)
      by_cases hset : SetsStart env (r.state m) (r.event m) k
      · exact ⟨m, by omega, hset, hstep.started hk hset hrun, fun j hj hj' => by omega⟩
      · obtain ⟨i, hi, hseti, hstarted, hlast⟩ := ih (by omega) k attempts startedAt
          (hstep.runningAs_back hk hset (fun job hjob _ => hnew m (by omega) job hjob) hrun)
        refine ⟨i, by omega, hseti, hstarted, fun j hij hjm => ?_⟩
        by_cases hj : j = m
        · exact hj ▸ hset
        · exact hlast j hij (by omega)

/-- A job whose start time is not set meanwhile is in the run it was
in. -/
theorem run_runningAs_back (r : Run (Step env) n) (h0 : r.state 0 = TestStorage.new clock)
    (hnew : NewJobs r) (hmj : m ≤ j) (hj : j ≤ n)
    (hset : ∀ i, m ≤ i → i < j → ¬ SetsStart env (r.state i) (r.event i) k)
    (hrun : RunningAs (r.state j) k attempts startedAt) :
    RunningAs (r.state m) k attempts startedAt := by
  induction j, hmj using Nat.le_induction with
  | base => exact hrun
  | succ j hmj ih =>
      refine ih (by omega) (fun i hmi hij => hset i hmi (by omega)) ?_
      exact (r.next j (by omega)).runningAs_back (run_keyed r h0 j (by omega))
        (hset j hmj (by omega)) (fun job hjob _ => hnew j (by omega) job hjob) hrun

/-- A handle that is admitted was given out by the last setting. -/
theorem run_current (r : Run (Step env) n) (h0 : r.state 0 = TestStorage.new clock)
    (hnew : NewJobs r) (hspaced : Spaced r) (hij : i < j) (hj : j ≤ n)
    (hissues : Issues env (r.state i) (r.event i) handle)
    (hcur : runIsCurrent (r.state j) handle = true) :
    RunningAs (r.state j) handle.id handle.attempts handle.startedAt ∧
      ∀ i', i < i' → i' < j → ¬ SetsStart env (r.state i') (r.event i') handle.id := by
  obtain ⟨startedAt, hrun, hclose⟩ := runningAs_of_current hcur
  have hstarted := hissues.started (run_keyed r h0 i (by omega))
  obtain ⟨t, rfl, hlt⟩ := hclose _ hstarted
  obtain ⟨i', hi', hset, ht, hlast⟩ := run_started r h0 hnew j hj _ _ _ hrun
  injection ht with ht
  have hseti : SetsStart env (r.state i) (r.event i) handle.id := ⟨handle, hissues, rfl⟩
  have heq : i' = i := by
    rcases Nat.lt_trichotomy i i' with h | h | h
    · have := hspaced i i' handle.id h (by omega) hseti hset
      rw [ht] at hlt
      omega
    · exact h.symm
    · exact absurd hseti (hlast i h hij)
  subst heq
  rw [hstarted, ← ht]
  exact ⟨hrun, hlast⟩

/-- Once a handle is not admitted, it never is again. -/
theorem run_not_current (r : Run (Step env) n) (h0 : r.state 0 = TestStorage.new clock)
    (hnew : NewJobs r) (hspaced : Spaced r) (him : i < m) (hmj : m ≤ j) (hj : j ≤ n)
    (hissues : Issues env (r.state i) (r.event i) handle)
    (hm : runIsCurrent (r.state m) handle = false) :
    runIsCurrent (r.state j) handle = false := by
  by_contra hcur
  replace hcur : runIsCurrent (r.state j) handle = true := by simpa using hcur
  obtain ⟨hrun, hlast⟩ := run_current r h0 hnew hspaced (by omega) hj hissues hcur
  have hrun' := run_runningAs_back r h0 hnew hmj hj (fun i' hi' => hlast i' (by omega)) hrun
  have := current_of_runningAs (run_keyed r h0 j hj) (run_keyed r h0 m (by omega)) hrun hrun' hcur
  rw [this] at hm
  cases hm

end Runs

-- == refusals

/-- Everything a worker can do with its run is refused and changes
nothing. -/
structure Refused (env : Env) (s : TestStorage) (handle : Job) : Prop where
  finish : ∀ outcome wall,
    (Op.finishJobRun handle outcome wall).apply env s = (.recorded none, s)
  heartbeat : ∀ lease, (Op.heartbeatJob handle lease).apply env s = (.flag false, s)
  release : (Op.releaseJobRun handle).apply env s = (.flag false, s)
  start : ∀ lease, (Op.startClaimedRun handle lease).apply env s = (.started false handle, s)

/-- A handle that is not admitted is refused. -/
theorem refused_of_not_current (h : runIsCurrent s handle = false) : Refused env s handle where
  finish outcome wall := by
    simp only [Op.apply, finishJobRun, finishGuard_stale h]
    rfl
  heartbeat lease := by
    simp only [Op.apply, TestQueue.heartbeatJob, h]
    rfl
  release := by
    simp only [Op.apply, TestQueue.releaseJobRun, h]
    rfl
  start lease := by
    simp only [Op.apply, TestQueue.startClaimedRun, h]
    rfl

theorem not_current_of_stopped (h : Stopped s handle.id) : runIsCurrent s handle = false := by
  by_contra hcur
  obtain ⟨_, hrun, -⟩ := runningAs_of_current (by simpa using hcur)
  exact h _ _ hrun

-- == what ends runs

/-- A step ends whatever run the job `k` is in. -/
def EndsRun (env : Env) (s : TestStorage) (k : JobId) : Event → Prop
  | .rehash => False
  | .call op =>
      match op with
      | .finishJobRun run _ _ => run.id = k ∧
          ∃ recorded, (op.apply env s).1 = .recorded (some recorded)
      | .releaseJobRun run => run.id = k ∧ (op.apply env s).1 = .flag true
      | .requeueStaleJobs _ => ∃ recovered, (op.apply env s).1 = .recovery recovered ∧
          k ∈ recovered.requeued ++ recovered.dead
      | .retryJob id _ | .retryDeadJob id => id = k ∧ (op.apply env s).1 = .unit
      | .cancelWorkflow workflowId => s.isJob k unfinished = true ∧
          ∃ workflow, s.workflows.lookup workflowId = some workflow ∧
            k ∈ workflowMembers s workflow workflowId
      | .archiveJobs .. => (op.apply env s).2.isJob k (·.status = .archived) = true
      | .restoreArchivedJob id => id = k ∧ ∃ job, (op.apply env s).1 = .job job
      | _ => False

/-- A run that was recorded has stopped. -/
theorem finish_stopped {cron : CronLibrary} {outcome : JobOutcome} {wall : DateTime}
    {recorded : RecordedOutcome} (hk : s.Keyed)
    (h : Finish cron s run outcome wall (.ok (some recorded), s')) : Stopped s' run.id := by
  cases h with
  | completed hcur _ hr =>
      have hs₁ := Stopped.of_lookup hr.lookup_self (fun h => by cases h)
      have hid := hk _ _ hcur.lookup
      have hres := resolveDependents_changed (hr.keyed hid hk) run.id
      rw [hr.rest.clock] at hres
      exact hres.stopped (fun h => h) hs₁
  | rerun hcur _ hr => exact .of_lookup hr.lookup_self (fun h => by cases h)
  | retried hcur _ _ hr => exact .of_lookup hr.lookup_self (fun h => by cases h)
  | ended hends hcur _ hr =>
      refine (applyPolicies_fallout _ _).stopped (fun h => h) (.of_lookup hr.lookup_self ?_)
      cases hends <;> exact fun h => by cases h
  | endedRerun _ hcur _ hr => exact .of_lookup hr.lookup_self (fun h => by cases h)

theorem EndsRun.stopped (hk : s.Keyed) (h : Step env s e s') (hends : EndsRun env s k e) :
    Stopped s' k := by
  cases h with
  | rehash => exact hends.elim
  | call op =>
      cases op <;> try exact hends.elim
      case finishJobRun run outcome wall =>
        obtain ⟨rfl, recorded, hrec⟩ := hends
        have hspec := finishJobRun_spec env.cron s run outcome wall
        simp only [Op.apply] at hrec ⊢
        rw [reply_snd]
        generalize finishJobRun env.cron s run outcome wall = out at hspec hrec ⊢
        obtain ⟨result, s'⟩ := out
        cases result with
        | error e => cases hrec
        | ok recorded' =>
            obtain rfl : recorded' = some recorded := Reply.recorded.inj hrec
            exact finish_stopped hk hspec
      case releaseJobRun run =>
        obtain ⟨rfl, hreply⟩ := hends
        simp only [Op.apply] at hreply ⊢
        rw [reply_snd]
        cases hrel : releaseJobRun s run with
        | error e => rw [hrel] at hreply; cases hreply
        | ok out =>
            obtain ⟨s', b⟩ := out
            rw [hrel] at hreply
            obtain rfl : b = true := Reply.flag.inj hreply
            rcases releaseJobRun_ok hrel with ⟨hb, -⟩ | ⟨-, job, -, -, -, hr⟩
            · cases hb
            · exact .of_lookup hr.lookup_self (fun h => by cases h)
      case requeueStaleJobs queueName =>
        obtain ⟨recovered, hreply, hmem⟩ := hends
        have hstop := (@requeueStaleJobs_writes s env hk env.cron queueName).2
        simp only [Op.apply] at hreply ⊢
        rw [reply_snd]
        generalize requeueStaleJobs env.cron s queueName = out at hreply hstop ⊢
        obtain ⟨result, s'⟩ := out
        cases result with
        | error e => cases hreply
        | ok recovered' =>
            obtain rfl : recovered' = recovered := Reply.recovery.inj hreply
            exact hstop _ rfl k hmem
      case retryJob id retryAt =>
        obtain ⟨rfl, hreply⟩ := hends
        simp only [Op.apply] at hreply ⊢
        rw [reply_snd]
        cases hok : retryJob s id retryAt with
        | error e => rw [hok] at hreply; cases hreply
        | ok out =>
            obtain ⟨s', ⟨⟩⟩ := out
            obtain ⟨job, dep, -, -, -, hr⟩ := retryJob_ok hok
            exact .of_lookup hr.lookup_self (fun h => by cases h)
      case retryDeadJob id =>
        obtain ⟨rfl, hreply⟩ := hends
        simp only [Op.apply] at hreply ⊢
        rw [reply_snd]
        cases hok : retryDeadJob s id with
        | error e => rw [hok] at hreply; cases hreply
        | ok out =>
            obtain ⟨s', ⟨⟩⟩ := out
            obtain ⟨job, -, -, hr⟩ := retryDeadJob_ok hok
            exact .of_lookup hr.lookup_self (fun h => by cases h)
      case cancelWorkflow workflowId =>
        obtain ⟨hun, workflow, hlookup, hmem⟩ := hends
        have hfail := (failEach_spec (p := fun _ job => unfinished job) (fun _ _ h => h)
          workflowCancelledMessage s.clock (workflowMembers s workflow workflowId) s).1
        obtain ⟨job, error, -, -, hlookup'⟩ := hfail.failed k ⟨hmem, hun⟩
        simp only [Op.apply]
        rw [reply_snd]
        unfold cancelWorkflow
        rw [hlookup]
        exact .of_lookup hlookup' (fun h => by cases h)
      case archiveJobs queueName policy =>
        obtain ⟨job, hlookup, hst⟩ := isJob_iff.1 hends
        refine .of_lookup hlookup ?_
        rw [show job.status = .archived by simpa using hst]
        decide
      case restoreArchivedJob id =>
        obtain ⟨rfl, job, hreply⟩ := hends
        simp only [Op.apply] at hreply ⊢
        rw [reply_snd]
        cases hok : restoreArchivedJob s id with
        | error e => rw [hok] at hreply; cases hreply
        | ok out =>
            obtain ⟨s', job'⟩ := out
            obtain ⟨job₀, dep, -, -, -, -, hr⟩ := restoreArchivedJob_ok hok
            exact .of_lookup hr.lookup_self (fun h => by cases h)

-- == the law

/-- A job is claimed, put back, and claimed again a millisecond
later. -/
def claimedTwice : List Op :=
  [.enqueue parentJob, .dequeue "mail" none 0 1, .releaseJobRun (parentJob.claimed 0),
    .setTime 1000000, .dequeue "mail" none 0 1]

end Hammerwork
