/-
Runs on the database are had in turn.

Workers, stale recovery, cancellations and manual transitions work on the
same rows at the same time. Still the notes of every job fit together: no
two workers ever hold the same job, and what a worker reports of a run
that was taken from it goes nowhere.

A running row carries the attempts and the start of the copy handed out
last, and no earlier run of those attempts started within a millisecond
of it (`Row.Sound`). A fenced statement wants the attempts of the
worker's copy, and its start to a millisecond: so the copy is of that run
(`Row.Sound.copy`). A claim and a transition judge the row under a lock
they still hold when they write.
-/
import Hammerwork.DatabaseRuns
import Hammerwork.Laws.Fencing

namespace Hammerwork

namespace DatabaseRuns

open ReadCommitted

variable {row : Row} {run job : Job} {now : DateTime} {lease : Duration}

-- == the fence

/-- The range of a run is within the tolerance of its start. -/
theorem runStartedRange_bounds {started : DateTime} (hstarted : run.startedAt = some started) :
    ∃ range, runStartedRange run = some range ∧
      started - 1000000 ≤ range.1 ∧ range.2 ≤ started + 1000000 := by
  have hend : ∀ d : TimeDelta, (checkedAddSigned started d).getD started = started + d ∨
      (checkedAddSigned started d).getD started = started := by
    intro d
    unfold checkedAddSigned
    split
    · exact .inl rfl
    · exact .inr rfl
  have hfrom := hend (-tolerance)
  have hto := hend tolerance
  unfold runStartedRange
  rw [hstarted]
  refine ⟨_, rfl, ?_⟩
  unfold tolerance at hfrom hto ⊢
  dsimp only [DateTime, TimeDelta] at *
  omega

/-- A row that is the run has its attempts and, to a millisecond, its
start. -/
theorem isRun_started {started : DateTime} (h : isRun run job = true)
    (hstarted : run.startedAt = some started) :
    job.status = .running ∧ job.attempts = run.attempts ∧
      ∃ t, job.startedAt = some t ∧ (t - started).natAbs < 1000000 := by
  obtain ⟨range, hrange, hfrom, hto⟩ := runStartedRange_bounds hstarted
  unfold isRun at h
  rw [hrange] at h
  simp only [Bool.and_eq_true, decide_eq_true_eq, Option.all_some, Option.any_eq_true] at h
  obtain ⟨⟨hrunning, hattempts⟩, t, ht, hafter, hbefore⟩ := h
  refine ⟨hrunning, hattempts, t, ht, ?_⟩
  dsimp only [DateTime] at *
  omega

-- == rows

namespace Row

/-- What holds of every row. -/
structure Sound (row : Row) : Prop where
  inTurn : InTurn row.notes
  isIn : row.IsIn row.history.copies
  started : ∀ run ∈ row.handles, ∃ t, run.startedAt = some t
  apart : ∀ job, row.job = some job → job.status = .running →
    ∀ t, job.startedAt = some t → FarFromPast job.attempts t row

theorem Sound.empty : Row.empty.Sound where
  inTurn := .nothing
  isIn := rfl
  started _ h := by cases h
  apart _ h := by cases h

/-- A running row is in a run. -/
theorem Sound.running_in (h : row.Sound) (hrunning : row.running = true) :
    row.history.copies ≠ [] := by
  intro hnil
  have hin := h.isIn
  rw [hnil] at hin
  cases hrunning.symm.trans hin

/-- A row that is not running is in no run. -/
theorem Sound.idle (h : row.Sound) (hidle : row.running = false) : row.history.copies = [] := by
  cases hcopies : row.history.copies with
  | nil => rfl
  | cons current copies =>
      have hin := h.isIn
      rw [hcopies] at hin
      obtain ⟨job, hjob, hrunning, -⟩ := hin
      unfold running at hidle
      rw [hjob] at hidle
      simp [hrunning] at hidle

theorem running_eq (hjob : row.job = some job) :
    row.running = decide (job.status = .running) := by
  unfold running
  rw [hjob]
  rfl

/-- What was handed out with the row's attempts, and its start to a
millisecond, is a copy of the run the row is in. -/
theorem Sound.copy_of_near (h : row.Sound) (hrun : run ∈ row.handles)
    (hjob : row.job = some job) (hrunning : job.status = .running)
    (hsame : ∀ s, run.startedAt = some s → job.attempts = run.attempts ∧
      ∃ t, job.startedAt = some t ∧ (t - s).natAbs < 1000000) : run ∈ row.history.copies := by
  obtain ⟨s, hs⟩ := h.started run hrun
  obtain ⟨hattempts, t, ht, hnear⟩ := hsame s hs
  rcases List.mem_append.1 hrun with hcopy | hpast
  · exact hcopy
  · have hfar := h.apart job hjob hrunning t ht run hpast hattempts.symm s hs
    omega

/-- The fence: a row that is a run handed out is in that very run. -/
theorem Sound.copy (h : row.Sound) (hrun : run ∈ row.handles) (hjob : row.job = some job)
    (his : isRun run job = true) : job.status = .running ∧ job.attempts = run.attempts ∧
      run ∈ row.history.copies := by
  obtain ⟨s, hs⟩ := h.started run hrun
  obtain ⟨hrunning, hattempts, -⟩ := isRun_started his hs
  refine ⟨hrunning, hattempts, h.copy_of_near hrun hjob hrunning fun s' hs' => ?_⟩
  exact (isRun_started his hs').2

/-- The guard of a run's outcome, as a fence. -/
theorem Sound.copy_of_admits (h : row.Sound) (hrun : run ∈ row.handles)
    (hjob : row.job = some job) (hadmits : (Guard.run run).admits job = true) :
    run ∈ row.history.copies := by
  have hadmits : (decide (job.status = .running) && isSameRun job run) = true := hadmits
  simp only [Bool.and_eq_true, decide_eq_true_eq] at hadmits
  obtain ⟨hrunning, hsame⟩ := hadmits
  exact h.copy_of_near hrun hjob hrunning fun s hs => isSameRun_started hsame hs

-- == writes keep rows

variable {row' : Row} {note : Note}

theorem history_note (hnotes : row'.notes = row.notes ++ [note]) :
    row'.history = note.after row.history := by
  unfold history
  rw [hnotes, List.foldl_append]
  rfl

/-- A write that hands out a copy, started apart from the earlier runs. -/
theorem Sound.handed {copies : List Job} (h : row.Sound) (hnotes : row'.notes = row.notes ++ [note])
    (hallowed : note.Allowed row.history)
    (hafter : note.after row.history = ⟨run :: copies, row.history.past⟩)
    (hcopies : ∀ copy ∈ copies, copy ∈ row.history.copies) (hstarted : run.startedAt = some now)
    (hfar : FarFromPast run.attempts now row) (hin : row'.IsIn [run]) : row'.Sound := by
  have hhistory : row'.history = ⟨run :: copies, row.history.past⟩ :=
    (history_note hnotes).trans hafter
  refine ⟨hnotes ▸ h.inTurn.note hallowed, ?_, fun copy hcopy => ?_, fun job hjob _ t ht => ?_⟩
  · rw [hhistory]
    exact hin
  · unfold handles at hcopy
    rw [hhistory] at hcopy
    rcases List.mem_append.1 hcopy with hcopy | hpast
    · rcases List.mem_cons.1 hcopy with rfl | hcopy
      · exact ⟨now, hstarted⟩
      · exact h.started copy (List.mem_append_left _ (hcopies copy hcopy))
    · exact h.started copy (List.mem_append_right _ hpast)
  · obtain ⟨job', hjob', -, hattempts, hstart⟩ := hin
    cases hjob.symm.trans hjob'
    cases ht.symm.trans (hstart.trans hstarted)
    unfold FarFromPast
    rw [hhistory, hattempts]
    exact hfar

/-- A write after which the job is in no run, noted if it was in one. -/
theorem Sound.over (h : row.Sound) (hidle : row'.running = false)
    (hnotes : row'.notes = row.notes ∧ row.history.copies = [] ∨
      ∃ note : Note, row'.notes = row.notes ++ [note] ∧ note.Allowed row.history ∧
        note.after row.history = ⟨[], row.history.copies ++ row.history.past⟩) : row'.Sound := by
  have hsame : InTurn row'.notes ∧
      row'.history = ⟨[], row.history.copies ++ row.history.past⟩ := by
    rcases hnotes with ⟨hsame, hnil⟩ | ⟨note, hnotes, hallowed, hafter⟩
    · refine ⟨hsame ▸ h.inTurn, ?_⟩
      have heq : row'.history = row.history := by
        unfold history
        rw [hsame]
      rw [heq, hnil]
      exact congrArg (History.mk · _) hnil
    · exact ⟨hnotes ▸ h.inTurn.note hallowed, (history_note hnotes).trans hafter⟩
  refine ⟨hsame.1, ?_, fun run hrun => ?_, fun job hjob hrunning => ?_⟩
  · rw [hsame.2]
    exact hidle
  · unfold handles at hrun
    rw [hsame.2] at hrun
    exact h.started run hrun
  · rw [running_eq hjob] at hidle
    simp [hrunning] at hidle

/-- A write that leaves the run as it is. -/
theorem Sound.kept {job' : Job} (h : row.Sound)
    (hnotes : row'.notes = row.notes ∨
      ∃ run ∈ row.history.copies, row'.notes = row.notes ++ [.extended run])
    (hjob : row.job = some job) (hjob' : row'.job = some job')
    (hrunning : job.status = .running ∧ job'.status = .running)
    (hsame : job'.attempts = job.attempts ∧ job'.startedAt = job.startedAt) : row'.Sound := by
  have hhistory : InTurn row'.notes ∧ row'.history = row.history := by
    rcases hnotes with heq | ⟨run, hrun, hnotes⟩
    · unfold history
      rw [heq]
      exact ⟨h.inTurn, rfl⟩
    · exact ⟨hnotes ▸ h.inTurn.note hrun, history_note hnotes⟩
  refine ⟨hhistory.1, ?_, fun run hrun => ?_, fun job'' hjob'' _ t ht => ?_⟩
  · have hin := h.isIn
    rw [hhistory.2]
    cases hcopies : row.history.copies with
    | nil =>
        rw [hcopies] at hin
        have hin : row.running = false := hin
        rw [running_eq hjob] at hin
        simp [hrunning.1] at hin
    | cons current copies =>
        rw [hcopies] at hin
        obtain ⟨job₀, hjob₀, -, hattempts, hstarted⟩ := hin
        cases hjob.symm.trans hjob₀
        exact ⟨job', hjob', hrunning.2, hsame.1.trans hattempts, hsame.2.trans hstarted⟩
  · unfold handles at hrun
    rw [hhistory.2] at hrun
    exact h.started run hrun
  · cases hjob'.symm.trans hjob''
    unfold FarFromPast
    rw [hhistory.2, hsame.1]
    exact h.apart job hjob hrunning.1 t (hsame.2 ▸ ht)

theorem Sound.claim (h : row.Sound) (hjob : row.job = some job) (hidle : job.status ≠ .running)
    (hfar : ClaimedApart now row) : (row.claim now lease).Sound := by
  have hrow : (row.claim now lease).notes = row.notes ++ [.claimed (Postgres.claimed now job)] ∧
      (row.claim now lease).job = some (Postgres.claimed now job) := by
    unfold Row.claim
    rw [hjob]
    exact ⟨rfl, rfl⟩
  have hnone : row.history.copies = [] := by
    refine h.idle ?_
    rw [running_eq hjob]
    simpa using hidle
  exact h.handed hrow.1 hnone rfl (fun _ h => by cases h) rfl (hfar job hjob)
    ⟨_, hrow.2, rfl, rfl, rfl⟩

theorem Sound.heartbeat (h : row.Sound) (hrun : run ∈ row.handles) (hjob : row.job = some job)
    (his : isRun run job = true) : (row.heartbeat run now lease).Sound := by
  obtain ⟨hrunning, -, hcopy⟩ := h.copy hrun hjob his
  exact h.kept (.inr ⟨run, hcopy, rfl⟩) hjob hjob ⟨hrunning, hrunning⟩ ⟨rfl, rfl⟩

theorem Sound.start (h : row.Sound) (hrun : run ∈ row.handles) (hjob : row.job = some job)
    (his : isRun run job = true) (hfar : FarFromPast run.attempts now row) :
    (row.start run now lease).Sound := by
  obtain ⟨hrunning, hattempts, hcopy⟩ := h.copy hrun hjob his
  have hrow : (row.start run now lease).job = some { job with startedAt := some now } := by
    unfold Row.start
    rw [hjob]
    rfl
  have hnotes : (row.start run now lease).notes
      = row.notes ++ [.started run (restarted run now)] := rfl
  exact h.handed hnotes hcopy rfl (fun _ h => h) rfl hfar
    ⟨{ job with startedAt := some now }, hrow, hrunning, hattempts, rfl⟩

theorem Sound.release (h : row.Sound) (hrun : run ∈ row.handles) (hjob : row.job = some job)
    (his : isRun run job = true) : (row.release run).Sound := by
  obtain ⟨-, -, hcopy⟩ := h.copy hrun hjob his
  refine h.over ?_ (.inr ⟨.ended run, rfl, hcopy, rfl⟩)
  show Option.any _ (row.job.map _) = false
  rw [hjob]
  rfl

/-- No target leaves a job running. -/
theorem transitioned_not_running (status : DependencyStatus) (target : Target) (now : DateTime)
    (job : Job) : (Postgres.transitioned status target now job).status ≠ .running := by
  cases target <;> exact fun h => by cases h

/-- A write noted as taking the run, if there is one. -/
theorem Sound.taken (h : row.Sound) (hidle : row'.running = false)
    (hnotes : row'.notes = row.notes ++ if row.running then [.taken] else []) : row'.Sound := by
  refine h.over hidle ?_
  cases hrunning : row.running with
  | true =>
      rw [hrunning, if_pos rfl] at hnotes
      exact .inr ⟨.taken, hnotes, h.running_in hrunning, rfl⟩
  | false =>
      rw [hrunning, if_neg Bool.false_ne_true, List.append_nil] at hnotes
      exact .inl ⟨hnotes, h.idle hrunning⟩

theorem Sound.transition {guard : Guard} {status : DependencyStatus} {target : Target}
    (h : row.Sound) (hjob : row.job = some job) (hadmits : guard.admits job = true)
    (hrun : ∀ run, guard = .run run → run ∈ row.handles) :
    (row.transition guard status target now).Sound := by
  have hidle : (row.transition guard status target now).running = false := by
    show Option.any _ (row.job.map _) = false
    rw [hjob]
    simpa using transitioned_not_running status target now job
  cases guard with
  | run run =>
      exact h.over hidle (.inr ⟨.ended run, rfl, h.copy_of_admits (hrun run rfl) hjob hadmits, rfl⟩)
  | manual transition => exact h.taken hidle rfl

theorem Sound.insert {jobs : List Job} {id : JobId} (h : row.Sound)
    (hset : Row.insert jobs id row = some row') (hjobs : ∀ job ∈ jobs, job.status ≠ .running) :
    row'.Sound := by
  unfold Row.insert at hset
  split at hset
  · next job hnone hone =>
    cases hset
    have hmem : job ∈ jobs := by
      have : job ∈ jobs.filter (·.id = id) := by rw [hone]; exact List.mem_singleton.2 rfl
      exact (List.mem_filter.1 this).1
    have hidle : row.running = false := by
      unfold running
      rw [hnone]
      rfl
    refine h.over ?_ (.inl ⟨rfl, h.idle hidle⟩)
    show Option.any _ (some job) = false
    simpa using hjobs job hmem
  · cases hset

theorem Sound.effect (h : row.Sound) (effect : Effect) : (effect.apply row).Sound := by
  have hnotes : (effect.apply row).notes = row.notes ++
      if row.running && !(effect.apply row).running then [.taken] else [] := rfl
  cases hafter : (effect.apply row).running with
  | false =>
      rw [hafter, Bool.not_false, Bool.and_true] at hnotes
      exact h.taken hafter hnotes
  | true =>
      -- still running: it is the same run
      rw [hafter, Bool.not_true, Bool.and_false, if_neg Bool.false_ne_true,
        List.append_nil] at hnotes
      have hset : (row.job.bind effect.set).any (·.status = .running) = true := hafter
      simp only [Option.any_eq_true, Option.bind_eq_some_iff, decide_eq_true_eq] at hset
      obtain ⟨job', ⟨job, hjob, hset⟩, hrunning'⟩ := hset
      obtain ⟨hrunning, hsame⟩ := effect.keepsRuns job job' hset hrunning'
      have hjob' : (effect.apply row).job = some job' := by
        show row.job.bind effect.set = some job'
        rw [hjob]
        exact hset
      exact h.kept (.inl hnotes) hjob hjob' ⟨hrunning, hrunning'⟩ hsame

end Row

-- == phases

/-- An open transaction. -/
abbrev Tx := Session JobId Row Phase

/-- A row that a transaction holds for itself. -/
def Locks (s : Tx) (id : JobId) : Prop := s.held id = some .exclusive

/-- What a transaction knows in a phase. -/
def Knows (db : JobId → Row) (s : Tx) : Phase → Prop
  | .claimLocked ids _ _ => ∀ id ∈ ids, Locks s id ∧
      ∃ job, (s.view db id).job = some job ∧ job.status ≠ .running
  | .lockJob jobId guard _ _ _ _ _ children =>
      (∀ run, guard = .run run → jobId = run.id) ∧ ∀ job ∈ children, job.status ≠ .running
  | .write jobId guard _ _ _ _ children => Locks s jobId ∧
      (∃ job, (s.view db jobId).job = some job ∧ guard.admits job = true) ∧
      (∀ run, guard = .run run → run ∈ (s.view db jobId).handles) ∧
      ∀ job ∈ children, job.status ≠ .running
  | .effects _ children => ∀ job ∈ children, job.status ≠ .running
  | _ => True

/-- What holds of an open transaction. -/
structure Asserts (db : JobId → Row) (s : Tx) : Prop where
  sound : ∀ id, (s.view db id).Sound
  knows : Knows db s s.phase
  taking : ∀ stmt next, s.phase.request = .scan stmt next → stmt.access = .forUpdate →
    s.Taking db stmt

/-- The phase does not lock rows and leave them. -/
def Phase.Quiet (phase : Phase) : Prop :=
  ∀ stmt next, phase.request = .scan stmt next → stmt.access ≠ .forUpdate

theorem Asserts.of_quiet {db : JobId → Row} {s : Tx} (hsound : ∀ id, (s.view db id).Sound)
    (hknows : Knows db s s.phase) (hquiet : s.phase.Quiet) : Asserts db s :=
  ⟨hsound, hknows, fun stmt next hreq hfor => absurd hfor (hquiet stmt next hreq)⟩

-- == moves

section Moves

variable {db : JobId → Row} {s s' other : Tx} {rows : List JobId} {mode : LockMode}

/-- A row as it is after a write to another, or to it. -/
theorem sound_update {view : JobId → Row} {id : JobId} {new : Row} (h : ∀ id, (view id).Sound)
    (hnew : new.Sound) (id' : JobId) : (Function.update view id new id').Sound := by
  rw [Function.update_apply]
  split
  · exact hnew
  · exact h id'

/-- The steps of a statement that rewrites rows, in a phase that knows
nothing about them. -/
theorem Asserts.update {stmt : Statement JobId Row} {next : List (JobId × Row) → Phase}
    {set : Row → Row} (h : Asserts db s) (hmove : Move Phase.request db s rows mode s')
    (hreq : s.phase.request = .scan stmt next) (haccess : stmt.access = .update set)
    (hwrites : ∀ id, stmt.keeps id (s.view db id) = true → (set (s.view db id)).Sound)
    (hstay : ∀ t, Knows db t s.phase) (hnext : ∀ hits t, Knows db t (next hits))
    (hquiet : ∀ hits, (next hits).Quiet) : Asserts db s' := by
  have hthis : s.phase.Quiet := by
    intro stmt' next' hreq' hupdate
    cases hreq.symm.trans hreq'
    cases haccess.symm.trans hupdate
  rcases hmove.updates hreq haccess with ⟨hview, hphase | ⟨hits, hphase, -⟩⟩ |
    ⟨id, hkeeps, hphase, hview⟩
  · exact .of_quiet (hview ▸ h.sound) (hphase ▸ hstay s') (hphase ▸ hthis)
  · exact .of_quiet (hview ▸ h.sound) (hphase ▸ hnext hits s') (hphase ▸ hquiet hits)
  · refine .of_quiet (fun id' => ?_) (hphase ▸ hstay s') (hphase ▸ hthis)
    rw [hview]
    exact sound_update h.sound (hwrites id hkeeps) id'

/-- The steps of a statement that locks rows: it writes nothing, and ends
with rows that are locked and wanted. -/
theorem Asserts.select {stmt : Statement JobId Row} {next : List (JobId × Row) → Phase}
    (h : Asserts db s) (hmove : Move Phase.request db s rows mode s')
    (hreq : s.phase.request = .scan stmt next) (haccess : stmt.access = .forUpdate)
    (hstay : ∀ t, Knows db t s.phase)
    (hnext : ∀ hits t, t.view db = s.view db → t.Took db stmt hits → Knows db t (next hits))
    (hquiet : ∀ hits, (next hits).Quiet) : Asserts db s' := by
  have hselect : ∀ set, stmt.access ≠ .update set := by
    intro set hset
    cases haccess.symm.trans hset
  obtain ⟨hown, ⟨hphase, htaking⟩ | ⟨hits, hphase, -, htook⟩⟩ :=
    hmove.select hreq hselect (h.taking stmt next hreq haccess)
  · refine ⟨view_congr hown db ▸ h.sound, hphase ▸ hstay s', fun stmt' next' hreq' _ => ?_⟩
    cases hreq.symm.trans (hphase ▸ hreq')
    exact htaking
  · exact .of_quiet (view_congr hown db ▸ h.sound)
      (hphase ▸ hnext hits s' (view_congr hown db) htook) (hphase ▸ hquiet hits)

/-- The step of a transaction that writes by id. -/
theorem Asserts.write {keys : List JobId} {set : JobId → Row → Option Row} {next : Phase}
    (h : Asserts db s) (hmove : Move Phase.request db s rows mode s')
    (hreq : s.phase.request = .write keys set next)
    (hwrites : ∀ id ∈ keys, ∀ row', set id (s.view db id) = some row' → row'.Sound)
    (hnext : ∀ t, Knows db t next) (hquiet : next.Quiet) : Asserts db s' := by
  have hphase : s'.phase = next := (hmove.of_write hreq).2.2.2.1
  refine .of_quiet (fun id => ?_) (hphase ▸ hnext s') (hphase ▸ hquiet)
  rcases hmove.view_of_write hreq id with ⟨hid, hset⟩ | ⟨-, hview⟩
  · exact hwrites id hid _ hset
  · rw [hview]
    exact h.sound id

theorem effects_quiet (after : List Effect) (children : List Job) :
    (Phase.effects after children).Quiet := by
  intro stmt next hreq
  cases after with
  | nil =>
      cases children with
      | nil => cases hreq
      | cons child children => cases hreq
  | cons effect after =>
      cases hreq
      exact fun h => by cases h

theorem finished_quiet : Phase.finished.Quiet := fun _ _ hreq => by cases hreq

/-- A row that a fenced statement wants is of the job. -/
theorem fenced_keeps {run : Job} {set : Row → Row} {id : JobId} {row : Row}
    (h : (Phase.fenced run set).keeps id row = true) :
    id = run.id ∧ ∃ job, row.job = some job ∧ isRun run job = true := by
  have h : (decide (id = run.id) && row.job.any (isRun run)) = true := h
  simp only [Bool.and_eq_true, decide_eq_true_eq, Option.any_eq_true] at h
  exact h

/-- A row that can be claimed is not running. -/
theorem claimable_job {queueName : String} {paused : Bool} {priority : Option JobPriority}
    {row : Row} (h : claimable queueName paused priority now row = true) :
    ∃ job, row.job = some job ∧ job.status ≠ .running := by
  unfold claimable at h
  simp only [Bool.and_eq_true, Option.any_eq_true] at h
  obtain ⟨-, job, hjob, hrunnable, -⟩ := h
  unfold Postgres.runnable at hrunnable
  simp only [Bool.and_eq_true, decide_eq_true_eq] at hrunnable
  refine ⟨job, hjob, ?_⟩
  rw [hrunnable.1.2]
  exact fun h => by cases h

/-- What follows the lock on a job. -/
theorem afterLock_cases (jobId : JobId) (guard : Guard) (target : Target)
    (judge : Job → Option DependencyStatus) (now wall : DateTime) (after : List Effect)
    (children : List Job) (hits : List (JobId × Row)) :
    Phase.afterLock jobId guard target judge now wall after children hits = .finished ∨
      Phase.afterLock jobId guard target judge now wall after children hits = .erred ∨
      ∃ e job status target', e ∈ hits ∧ e.2.job = some job ∧ guard.admits job = true ∧
        Phase.afterLock jobId guard target judge now wall after children hits
          = .write jobId guard status target' now after children := by
  unfold Phase.afterLock
  split
  · next id job beat expires notes rest =>
    split
    · exact .inl rfl
    · next hadmits =>
      have hadmits : guard.admits job = true := by simpa using hadmits
      have hmem : (id, (⟨some job, beat, expires, notes⟩ : Row))
          ∈ (id, ⟨some job, beat, expires, notes⟩) :: rest := List.mem_cons_self
      split
      · split
        · exact .inr (.inr ⟨_, job, _, _, hmem, rfl, hadmits, rfl⟩)
        · exact .inr (.inl rfl)
      · exact .inr (.inr ⟨_, job, _, _, hmem, rfl, hadmits, rfl⟩)
      · exact .inr (.inr ⟨_, job, _, _, hmem, rfl, hadmits, rfl⟩)
  · exact .inl rfl

/-- A transaction's own step. -/
theorem asserts_moves (h : Asserts db s) (hfine : Reported (s.view db) s.phase)
    (hmove : Move Phase.request db s rows mode s') : Asserts db s' := by
  have hknows := h.knows
  -- the steps of a statement that is fenced by the run
  have hfenced : ∀ {run : Job} {set : Row → Row},
      s.phase.request = .scan (Phase.fenced run set) (fun _ => .finished) →
      (∀ t, Knows db t s.phase) →
      (∀ job, (s.view db run.id).job = some job → isRun run job = true →
        (set (s.view db run.id)).Sound) → Asserts db s' := by
    intro run set hreq hstay hset
    refine h.update hmove hreq rfl (fun id hkeeps => ?_) hstay (fun _ _ => trivial)
      fun _ => finished_quiet
    obtain ⟨rfl, job, hjob, his⟩ := fenced_keeps hkeeps
    exact hset job hjob his
  obtain ⟨own, held, phase, scan⟩ := s
  cases phase with
  | claim queueName paused priority now lease limit =>
      refine h.update hmove rfl rfl (fun id hkeeps => ?_)
        (fun _ => trivial) (fun _ _ => trivial) fun _ => finished_quiet
      obtain ⟨job, hjob, hidle⟩ := claimable_job hkeeps
      exact (h.sound id).claim hjob hidle (hfine id hkeeps)
  | lockRunnable queueName paused priority now lease limit =>
      refine h.select hmove rfl rfl (fun _ => trivial)
        (fun hits t hview htook id hid => ?_) fun _ _ _ hreq => by cases hreq
      obtain ⟨e, he, rfl⟩ := List.mem_map.1 hid
      obtain ⟨hholds, hversion, hkeeps⟩ := htook e he
      exact ⟨hholds, claimable_job (hversion ▸ hkeeps)⟩
  | claimLocked ids now lease =>
      refine h.write hmove rfl (fun id hid row' hset => ?_)
        (fun _ => trivial) finished_quiet
      cases hset
      obtain ⟨-, job, hjob, hidle⟩ := hknows id hid
      exact (h.sound id).claim hjob hidle (hfine id hid)
  | heartbeat run now lease =>
      exact hfenced rfl (fun _ => trivial) fun job hjob his =>
        (h.sound run.id).heartbeat hfine hjob his
  | startClaimedRun run now lease =>
      refine hfenced rfl (fun _ => trivial) fun job hjob his =>
        (h.sound run.id).start hfine.1 hjob his (hfine.2 ?_)
      rw [hjob]
      exact his
  | releaseJobRun run =>
      exact hfenced rfl (fun _ => trivial) fun job hjob his =>
        (h.sound run.id).release hfine hjob his
  | lockJob jobId guard target judge now wall after children =>
      refine h.select hmove rfl rfl (fun _ => hknows)
        (fun hits t hview htook => ?_) fun hits => ?_
      all_goals
        rcases afterLock_cases jobId guard target judge now wall after children hits with
          hend | hend | ⟨e, job, status, target', he, hjob, hadmits, hwrite⟩
      · rw [hend]
        exact trivial
      · rw [hend]
        exact trivial
      · rw [hwrite]
        obtain ⟨hholds, hversion, hkeeps⟩ := htook e he
        have hkeeps : (decide (e.1 = jobId) && e.2.job.isSome) = true := hkeeps
        simp only [Bool.and_eq_true, decide_eq_true_eq] at hkeeps
        rw [hkeeps.1] at hholds hversion
        refine ⟨hholds, ⟨job, hversion ▸ hjob, hadmits⟩, fun run hrun => ?_, hknows.2⟩
        subst hrun
        rw [hview, hknows.1 run rfl]
        exact hfine
      · rw [hend]
        exact finished_quiet
      · rw [hend]
        exact fun _ _ hreq => by cases hreq
      · rw [hwrite]
        exact fun _ _ hreq => by cases hreq
  | write jobId guard status target now after children =>
      obtain ⟨-, ⟨job, hjob, hadmits⟩, hrun, hchildren⟩ := hknows
      refine h.write hmove rfl (fun id hid row' hset => ?_)
        (fun _ => hchildren) (effects_quiet after children)
      cases List.mem_singleton.1 hid
      cases hset
      exact (h.sound jobId).transition hjob hadmits hrun
  | effects after children =>
      cases after with
      | nil =>
          cases children with
          | nil => exact absurd (.inl rfl) hmove.not_of_end
          | cons child children =>
              exact h.write hmove rfl
                (fun id _ row' hset => (h.sound id).insert hset hknows) (fun _ => trivial)
                finished_quiet
      | cons effect after =>
          exact h.update hmove rfl rfl (fun id _ => (h.sound id).effect effect)
            (fun _ => hknows) (fun _ _ => hknows)
            fun _ => effects_quiet after children
  | finished => exact absurd (.inl rfl) hmove.not_of_end
  | erred => exact absurd (.inr rfl) hmove.not_of_end

/-- The commit of another transaction. -/
theorem asserts_stable (h : Asserts db s) (hother : Asserts db other) (hguarded : s.Guarded)
    (hguarded' : other.Guarded) (hapart : ReadCommitted.Apart s other) :
    Asserts (other.view db) s := by
  have hheld : ∀ id, Locks s id → s.view (other.view db) id = s.view db id := by
    intro id hlocks
    exact view_stable hapart hguarded' db (by rw [hlocks]; exact fun h => by cases h)
  refine ⟨fun id => ?_, ?_, fun stmt next hreq hfor scan hscan =>
    (h.taking stmt next hreq hfor scan hscan).stable hapart hguarded'⟩
  · rcases view_after_commit hapart hguarded hguarded' id with heq | heq
    · rw [heq]
      exact h.sound id
    · rw [heq]
      exact hother.sound id
  · have hknows := h.knows
    cases hphase : s.phase with
    | claimLocked ids now lease =>
        rw [hphase] at hknows
        intro id hid
        obtain ⟨hlocks, hjob⟩ := hknows id hid
        exact ⟨hlocks, (hheld id hlocks).symm ▸ hjob⟩
    | write jobId guard status target now after children =>
        rw [hphase] at hknows
        obtain ⟨hlocks, hjob, hrun, hchildren⟩ := hknows
        refine ⟨hlocks, ?_⟩
        rw [hheld jobId hlocks]
        exact ⟨hjob, hrun, hchildren⟩
    | lockJob | effects =>
        rw [hphase] at hknows
        exact hknows
    | claim | lockRunnable | heartbeat | startClaimedRun | releaseJobRun | finished | erred =>
        exact trivial

/-- A transaction that begins. -/
theorem asserts_opened {phase : Phase} (hdb : ∀ id, (db id).Sound) (h : phase.Opens) :
    Asserts db (.opened phase) := by
  refine ⟨hdb, ?_, fun stmt next _ _ scan hscan => by cases hscan⟩
  cases phase with
  | lockJob | effects => exact h
  | claimLocked | write => cases h
  | claim | lockRunnable | heartbeat | startClaimedRun | releaseJobRun | finished | erred =>
      exact trivial

/-- What the rule for runs of transactions needs. -/
theorem outline : Outline Phase.request Phase.Opens Reported (fun db => ∀ id, (db id).Sound)
    Asserts where
  opened hdb hopens := asserts_opened hdb hopens
  moves _ _ h hfine hmove := asserts_moves h hfine hmove
  commits _ _ h _ := h.sound
  stable _ hguarded hguarded' hapart h hother _ :=
    asserts_stable h hother hguarded hguarded' hapart

end Moves

-- == the result

/-- A job that is inserted and claimed. -/
def mailJob : Job := Job.new 1 0 "mail" .null

/-- The only row is the job's. -/
def onlyMail (row : Row) (id : JobId) : Row := if id = 1 then row else .empty

def insertedRow : Row := { Row.empty with job := some mailJob }

def claimedRow : Row := insertedRow.claim 0 30000000000

theorem inserted_run : Runs Phase.request Phase.Opens Reported Database.new
    (.idle (onlyMail insertedRow)) := by
  have hopens : Phase.Opens (.effects [] [mailJob]) := fun job hjob => by
    rw [List.mem_singleton.1 hjob]
    decide
  have hfree : Database.new.Free 0 := fun _ _ _ h => by cases h
  have hset : ∀ k ∈ [1], (Row.insert [mailJob] k .empty).isSome = true := by
    intro k hk
    rw [List.mem_singleton.1 hk]
    rfl
  have hwrite : Move Phase.request (fun _ => .empty) (.opened (.effects [] [mailJob])) [1]
      .exclusive _ := .write rfl hset
  have hmoves : Session.Moves Phase.request Reported (fun _ => .empty)
      (.opened (.effects [] [mailJob])) _ := .single ⟨⟨_, _, hwrite⟩, trivial⟩
  refine .transaction (t := 0) rfl hopens hfree hmoves ⟨rfl, rfl⟩ trivial ?_
  funext k
  rcases eq_or_ne k 1 with rfl | hk
  · rfl
  · simp [Session.view, Session.opened, Database.new, System.idle, onlyMail, hk]

theorem claimed_run : Runs Phase.request Phase.Opens Reported
    (.idle (onlyMail insertedRow) : Database) (.idle (onlyMail claimedRow)) := by
  have hopens : Phase.Opens (.lockRunnable "mail" false none 0 30000000000 1) := trivial
  have hfree : System.Free (.idle (onlyMail insertedRow) : Database) 0 :=
    fun _ _ _ h => by cases h
  have hfinds : ∀ k, claimable "mail" false none 0 (onlyMail insertedRow k)
      = decide (k = 1) := by
    intro k
    unfold onlyMail
    rcases eq_or_ne k 1 with rfl | hk
    · rfl
    · simp only [hk, if_false, decide_false]
      rfl
  have hapart : ∀ id ∈ [1], ClaimedApart 0 (onlyMail insertedRow id) := by
    intro id hid job _ old hold
    rw [List.mem_singleton.1 hid] at hold
    cases hold
  have hlock : Session.Moves Phase.request Reported (onlyMail insertedRow)
      (.opened (.lockRunnable "mail" false none 0 30000000000 1)) _ :=
    .findsOne 1 rfl rfl trivial (fun _ h => by cases h) hfinds rfl
  have hmoves := hlock.tail ⟨⟨[1], .exclusive, .write rfl fun _ _ => rfl⟩, hapart⟩
  refine .transaction (t := 0) rfl hopens hfree hmoves ⟨rfl, rfl⟩ trivial ?_
  funext k
  rcases eq_or_ne k 1 with rfl | hk
  · rfl
  · simp [Session.view, Session.opened, Session.lock, System.idle, onlyMail, hk]

end DatabaseRuns

end Hammerwork
