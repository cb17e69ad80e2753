/-
Whose result is stored.

A worker stores the result of its run before it records that the run
completed. Recording is fenced: a run that was reclaimed, or that an
operator moved, is discarded. Storing is not. So a late run overwrites
the result of the run that was recorded, and a run whose children cannot
be enqueued fails and leaves its result behind.

`ResultsBelong` is what the stored result should be over a run of the
system, and `Sound` is the condition on each step. A run that holds (it
has stored a result and not recorded its outcome) is current then, and
no other run stores; that is the invariant that carries the proofs.
-/
import Hammerwork.Proofs.Results
import Hammerwork.Lib.Tally

namespace Hammerwork

namespace ResultSystem

open TestStorage TestQueue WorkerRun

variable {env : Env} {display : HammerworkError → String} {config : ResultConfig} {k : JobId}
variable {n : Nat} {sys sys' : State} {move : Move} {v w : Nat} {run run' : WorkerRun}

-- == statements

/-- The step at which run `w` stores what it returned. -/
structure StoresOwn (sys : State) (move : Move) (w : Nat) (run : WorkerRun) : Prop where
  found : sys.runs[w]? = some run
  phase : run.phase = .storing
  moved : ∃ now, move = .own w (.store now)

/-- The step at which run `w` records its outcome, and the reply. -/
structure Records (env : Env) (sys : State) (move : Move) (w : Nat) (run : WorkerRun)
    (reply : Reply) : Prop where
  found : sys.runs[w]? = some run
  phase : run.phase.Reports
  moved : ∃ now wall, move = .own w (.record now wall) ∧
    ((run.recordCall now wall).apply env sys.queue).1 = reply

/-- The moves that may drop the job's result: a deletion, an eviction, an
expiry, or storing a result for which there is no room. -/
def MayDrop : Move → Prop
  | .queue (.call op) => op.MayDropResult
  | .memory _ => True
  | .own _ (.store _) => True
  | _ => False

/-- The stored result belongs to the recorded run. -/
structure ResultsBelong {n : Nat} (env : Env) (display : HammerworkError → String)
    (config : ResultConfig) (k : JobId) (r : Run (Step env display config k) n) : Prop where
  /-- A run whose outcome is discarded leaves the stored result as it
  was. -/
  discarded : ∀ {w i j run run'}, i < j → j < n → StoresOwn (r.state i) (r.event i) w run →
    Records env (r.state j) (r.event j) w run' (.recorded none) →
    stored config k (r.state (i + 1)) = stored config k (r.state i)
  /-- A run that ends in failure leaves no result of its own. -/
  failed : ∀ {w i j run run' ended recorded}, i < j → j < n →
    StoresOwn (r.state i) (r.event i) w run →
    Records env (r.state j) (r.event j) w run' (.recorded (some recorded)) →
    run'.phase = .failing ended →
    stored config k (r.state (i + 1)) = stored config k (r.state i) ∨
      stored config k (r.state (j + 1)) = none
  /-- While the job is completed, the stored result is what the recorded
  run returned, unless it has been dropped. -/
  completed : ∀ {w i j m run run' children recorded}, i < j → j < m → m ≤ n →
    StoresOwn (r.state i) (r.event i) w run →
    Records env (r.state j) (r.event j) w run' (.recorded (some recorded)) →
    run'.phase = .completing children →
    (∀ l, j < l → l ≤ m → (r.state l).queue.isJob k (·.status = .completed) = true) →
    (stored config k (r.state m)).map (·.1) = config.keeps run.returned ∨
      (stored config k (r.state m) = none ∧ ∃ l, i ≤ l ∧ l < m ∧ MayDrop (r.event l) ∧
        stored config k (r.state (l + 1)) = none)

/-- A run that has stored a result and not recorded its outcome. -/
def Holds (config : ResultConfig) (run : WorkerRun) : Prop :=
  config.keeps run.returned ≠ none ∧ run.phase.Open

/-- A step of run `w` at which its children cannot be prepared or
enqueued. -/
def FailsToSpawn (env : Env) (sys : State) (move : Move) (w : Nat) (run : WorkerRun) : Prop :=
  (∃ error, run.phase = .spawning ∧ move = .own w (.prepareSpawn (.error error))) ∨
  ∃ children now wall e, run.phase = .completing (some children) ∧
    move = .own w (.record now wall) ∧
    (completeJobRunWithChildren env sys.queue run.job children wall).1 = .error e

/-- Recording the completion of `run` completes the job: the run is
current, its children can be enqueued, and the job does not run again. -/
def Completes (env : Env) (queue : TestStorage) (run : WorkerRun) : Prop :=
  match run.phase with
  | .completing none => finishGuard env.cron queue run.job .completed = some none
  | .completing (some children) =>
      validateDependencyLimits children = .ok () ∧ runIsCurrent queue run.job = true ∧
        (∃ ids, (enqueueChildren env children queue).1 = .ok ids) ∧
        finishGuard env.cron (enqueueChildren env children queue).2 run.job .completed = some none
  | _ => False

/-- The condition on a step. -/
structure Sound (env : Env) (config : ResultConfig) (k : JobId) (sys : State) (move : Move)
    (sys' : State) : Prop where
  /-- A run that stores a result is the current one, and no other run
  holds. -/
  current : ∀ {w run}, StoresOwn sys move w run → config.keeps run.returned ≠ none →
    runIsCurrent sys.queue run.job = true ∧
      ∀ {v run'}, sys.runs[v]? = some run' → v ≠ w → ¬ Holds config run'
  /-- Nobody else takes the job from a run that holds. -/
  kept : ∀ {w run}, sys.runs[w]? = some run → Holds config run →
    (∀ input, move ≠ .own w input) → runIsCurrent sys.queue run.job = true →
    runIsCurrent sys'.queue run.job = true
  /-- A run that holds does not fail to spawn while its result is
  stored. -/
  spawned : ∀ {w run}, sys.runs[w]? = some run → Holds config run →
    FailsToSpawn env sys move w run → stored config k sys = none
  /-- A run that returned nothing completes the job only while no result
  is stored. -/
  nothing : ∀ {w run now wall}, sys.runs[w]? = some run → move = .own w (.record now wall) →
    config.keeps run.returned = none → Completes env sys.queue run → stored config k sys = none

-- == what is stored

theorem keeps_none (h : config.storage = .none) (returned : Option Json) :
    config.keeps returned = none := by
  unfold ResultConfig.keeps
  rw [h]

theorem keeps_nothing : config.keeps none = none := by
  unfold ResultConfig.keeps
  split <;> rfl

theorem keeps_of_ne (h : config.storage ≠ .none) (returned : Option Json) :
    config.keeps returned = returned := by
  unfold ResultConfig.keeps
  cases hstorage : config.storage with
  | none => exact absurd hstorage h
  | database => rfl
  | memory => rfl

/-- A run with nothing to store stores nothing. -/
theorem storeResult_nothing {returned : Option Json} (h : config.keeps returned = none)
    (jobId : JobId) (now : DateTime) (queue : TestStorage) (memory : MemoryResultStore) :
    storeResult env config jobId returned now queue memory = (queue, memory) := by
  unfold storeResult
  cases hstorage : config.storage with
  | none => cases returned <;> rfl
  | database | memory =>
      rw [keeps_of_ne (by rw [hstorage]; nofun)] at h
      rw [h]

/-- What storing leaves the stored result to be. -/
theorem storeResult_stored {queue : TestStorage} {memory : MemoryResultStore}
    {returned : Option Json} (now : DateTime) (hjob : (queue.jobs.lookup k).isSome)
    (hroom : memory.capacity = 0 → memory.entries.lookup k = none)
    (hkeeps : config.keeps returned ≠ none) (runs : List WorkerRun) :
    (stored config k ⟨runs, (storeResult env config k returned now queue memory).1,
        (storeResult env config k returned now queue memory).2⟩).map (·.1)
      = config.keeps returned ∨
    stored config k ⟨runs, (storeResult env config k returned now queue memory).1,
        (storeResult env config k returned now queue memory).2⟩ = none := by
  cases hstorage : config.storage with
  | none => exact absurd (keeps_none hstorage returned) hkeeps
  | database =>
      rw [keeps_of_ne (by rw [hstorage]; decide)] at hkeeps ⊢
      obtain ⟨data, rfl⟩ := Option.ne_none_iff_exists'.1 hkeeps
      refine .inl ?_
      have hsome : (queue.jobs.lookup k).isNone = false := by
        rw [Option.isNone_eq_false_iff]
        exact hjob
      simp only [stored, storeResult, hstorage, Op.apply, reply_snd, storeJobResult, hsome]
      show Option.map _ ((queue.jobResults.insert k (data, _)).lookup k) = _
      rw [AList.lookup_insert]
      rfl
  | memory =>
      rw [keeps_of_ne (by rw [hstorage]; decide)] at hkeeps ⊢
      obtain ⟨data, rfl⟩ := Option.ne_none_iff_exists'.1 hkeeps
      simp only [stored, storeResult, hstorage]
      by_cases hcapacity : memory.capacity = 0
      · refine .inr ?_
        unfold MemoryResultStore.storeAt
        rw [if_pos hcapacity, hroom hcapacity]
        rfl
      · rcases MemoryResultStore.storeAt_self hcapacity now k data (config.expiresAt now) with
          ⟨key, hlookup⟩ | hnone
        · exact .inl (by rw [hlookup]; rfl)
        · exact .inr (by rw [hnone]; rfl)

-- == a step

/-- The children a step hands in have ids of their own. -/
def NewIds (k : JobId) : Move → Prop
  | .own _ (.prepareSpawn (.ok (some children))) => ∀ child ∈ children, child.id ≠ k
  | _ => True

/-- What the runs and the stores are like, whatever the order of the
steps. -/
structure Sane (k : JobId) (sys : State) : Prop where
  keyed : sys.queue.Keyed
  ids : ∀ {w : Nat} {run : WorkerRun}, sys.runs[w]? = some run → run.job.id = k
  children : ∀ {w : Nat} {run : WorkerRun} {children}, sys.runs[w]? = some run →
    run.phase = .completing (some children) → ∀ child ∈ children, child.id ≠ k
  working : ∀ {w : Nat} {run : WorkerRun}, sys.runs[w]? = some run → run.phase = .working →
    run.returned = none
  room : sys.memory.capacity = 0 → sys.memory.entries.lookup k = none

/-- A call that records an outcome touches no result. -/
theorem recordCall_results (hk : sys.queue.Keyed) (run : WorkerRun) (now wall : DateTime) :
    ((run.recordCall now wall).apply env sys.queue).2.jobResults = sys.queue.jobResults := by
  refine Op.jobResults_eq hk ?_
  unfold recordCall
  split <;> exact id

/-- A step stores what a run returned, keeps the stored result, or drops
it. -/
theorem Step.stored_cases (h : Step env display config k sys move sys') (hs : Sane k sys) :
    (∃ w run, StoresOwn sys move w run ∧ config.keeps run.returned ≠ none) ∨
    stored config k sys' = stored config k sys ∨
    (stored config k sys' = none ∧ MayDrop move) := by
  cases h with
  | begin worker job hid => exact .inr (.inl rfl)
  | @own w run _ _ _ input hrun hnext =>
      cases next_moves hnext with
      | stored hphase =>
          by_cases hkeeps : config.keeps run.returned = none
          · rw [storeResult_nothing hkeeps]
            exact .inr (.inl rfl)
          · exact .inl ⟨_, _, ⟨hrun, hphase, _, rfl⟩, hkeeps⟩
      | recorded hphase =>
          refine .inr (.inl ?_)
          unfold ResultSystem.stored
          rw [recordCall_results hs.keyed]
      | returned | failed | spawned | spawnFailed | stopped | idle => exact .inr (.inl rfl)
  | queue hstep hno =>
      cases hstep with
      | call op =>
          unfold ResultSystem.stored
          cases config.storage with
          | none | memory => exact .inr (.inl rfl)
          | database =>
              have hkept := @Op.jobResults_kept _ env k hs.keyed op
                fun data expiresAt heq => hno (by rw [heq]; rfl)
              exact .inr (hkept.imp_right fun h => ⟨h.2, h.1⟩)
      | rehash h =>
          refine .inr (.inl ?_)
          unfold ResultSystem.stored
          rw [h.rest]
  | memory op hno =>
      unfold ResultSystem.stored
      cases config.storage with
      | none | database => exact .inr (.inl rfl)
      | memory =>
          rcases MemoryResultStore.Op.apply_kept (k := k) sys.memory op
            fun now value expiresAt heq => hno (by rw [heq]; rfl) with hsame | hnone
          · exact .inr (.inl (by rw [hsame]))
          · exact .inr (.inr ⟨by rw [hnone]; rfl, trivial⟩)

/-- Storing a result leaves the jobs as they are. -/
theorem storeResult_jobs (jobId : JobId) (returned : Option Json) (now : DateTime)
    (queue : TestStorage) (memory : MemoryResultStore) :
    (storeResult env config jobId returned now queue memory).1.jobs = queue.jobs := by
  unfold storeResult
  split
  · simp only [Op.apply, reply_snd]
    refine commit_elim (P := fun t => t.jobs = queue.jobs) rfl fun s' a h => ?_
    unfold storeJobResult at h
    split at h
    · cases h
    · injection h with h
      rw [← (Prod.mk.inj h).1]
  · rfl
  · rfl

theorem storeResult_room {queue : TestStorage} {memory : MemoryResultStore}
    (hroom : memory.capacity = 0 → memory.entries.lookup k = none) (jobId : JobId)
    (returned : Option Json) (now : DateTime) :
    (storeResult env config jobId returned now queue memory).2.capacity = 0 →
      (storeResult env config jobId returned now queue memory).2.entries.lookup k = none := by
  unfold storeResult
  split
  · exact hroom
  · next data _ =>
      intro hcapacity
      have heq := MemoryResultStore.Op.apply_capacity memory
        (.store now jobId data (config.expiresAt now))
      have hzero : memory.capacity = 0 := heq ▸ hcapacity
      show (memory.storeAt now jobId data (config.expiresAt now)).entries.lookup k = none
      unfold MemoryResultStore.storeAt
      rw [if_pos hzero]
      exact hroom hzero
  · exact hroom

theorem recorded_phase (run : WorkerRun) (reply : Reply) :
    (run.recorded display reply = .finished) ∨
      ∃ children e, run.phase = .completing (some children) ∧ reply = .error e ∧
        run.recorded display reply = .failing (.failure (display e)) := by
  unfold recorded
  split
  · next children e hphase => exact .inr ⟨children, e, hphase, rfl, rfl⟩
  · exact .inl rfl

/-- A step keeps runs and stores sane. -/
theorem Step.sane (h : Step env display config k sys move sys') (hnew : NewIds k move)
    (hs : Sane k sys) : Sane k sys' := by
  cases h with
  | begin worker job hid =>
      refine ⟨hs.keyed, fun hv => ?_, fun hv hphase => ?_, fun hv hphase => ?_, hs.room⟩
      · rcases Tally.getElem?_added.1 hv with hold | ⟨-, rfl⟩
        · exact hs.ids hold
        · exact hid
      · rcases Tally.getElem?_added.1 hv with hold | ⟨-, rfl⟩
        · exact hs.children hold hphase
        · cases hphase
      · rcases Tally.getElem?_added.1 hv with hold | ⟨-, rfl⟩
        · exact hs.working hold hphase
        · rfl
  | @own w run run' queue memory input hrun hnext =>
      have hmoves := next_moves hnext
      refine ⟨?_, fun hv => ?_, fun hv hphase => ?_, fun hv hphase => ?_, ?_⟩
      · cases hmoves with
        | stored =>
            intro id job hlookup
            rw [storeResult_jobs] at hlookup
            exact hs.keyed id job hlookup
        | recorded => exact (@Hammerwork.Step.call env _ _).keyed hs.keyed
        | returned | failed | spawned | spawnFailed | stopped | idle => exact hs.keyed
      · rcases (Tally.getElem?_replaced hrun).1 hv with ⟨-, rfl⟩ | ⟨-, hold⟩
        · rw [hmoves.job]
          exact hs.ids hrun
        · exact hs.ids hold
      · rcases (Tally.getElem?_replaced hrun).1 hv with ⟨-, rfl⟩ | ⟨-, hold⟩
        · cases hmoves with
          | spawned =>
              cases hphase
              exact hnew
          | recorded =>
              rcases @recorded_phase display run _ with hfin | ⟨_, _, _, _, hfail⟩
              · exact absurd (hfin.symm.trans hphase) nofun
              · exact absurd (hfail.symm.trans hphase) nofun
          | idle => exact hs.children hrun hphase
          | returned | failed | stored | spawnFailed | stopped => cases hphase
        · exact hs.children hold hphase
      · rcases (Tally.getElem?_replaced hrun).1 hv with ⟨-, rfl⟩ | ⟨-, hold⟩
        · cases hmoves with
          | recorded =>
              rcases @recorded_phase display run _ with hfin | ⟨_, _, _, _, hfail⟩
              · exact absurd (hfin.symm.trans hphase) nofun
              · exact absurd (hfail.symm.trans hphase) nofun
          | idle => exact hs.working hrun hphase
          | returned | failed | stored | spawned | spawnFailed | stopped => cases hphase
        · exact hs.working hold hphase
      · cases hmoves with
        | stored => exact storeResult_room hs.room _ _ _
        | recorded | returned | failed | spawned | spawnFailed | stopped | idle => exact hs.room
  | queue hstep hno =>
      exact ⟨hstep.keyed hs.keyed, hs.ids, hs.children, hs.working, hs.room⟩
  | memory op hno =>
      refine ⟨hs.keyed, hs.ids, hs.children, hs.working, fun hcapacity => ?_⟩
      have hzero := hs.room ((MemoryResultStore.Op.apply_capacity sys.memory op).symm.trans
        hcapacity)
      rcases MemoryResultStore.Op.apply_kept (k := k) sys.memory op
        fun now value expiresAt heq => hno (by rw [heq]; rfl) with hsame | hnone
      · exact hsame.trans hzero
      · exact hnone

-- == runs that hold

/-- Every run that holds is the current one. -/
def Held (config : ResultConfig) (sys : State) : Prop :=
  ∀ {w : Nat} {run : WorkerRun}, sys.runs[w]? = some run → Holds config run →
    runIsCurrent sys.queue run.job = true

/-- A completion that fails leaves the run current. -/
theorem recordCall_failed {e : HammerworkError} {children : List Job} {now wall : DateTime}
    (hphase : run.phase = .completing (some children))
    (hcur : runIsCurrent sys.queue run.job = true)
    (hnew : ∀ child ∈ children, child.id ≠ run.job.id)
    (h : ((run.recordCall now wall).apply env sys.queue).1 = .error e) :
    runIsCurrent ((run.recordCall now wall).apply env sys.queue).2 run.job = true ∧
      (completeJobRunWithChildren env sys.queue run.job children wall).1 = .error e := by
  have hcall : run.recordCall now wall = .completeJobRunWithChildren run.job children wall := by
    unfold recordCall
    rw [hphase]
  rw [hcall] at h ⊢
  simp only [Op.apply] at h ⊢
  rcases @completeJobRunWithChildren_cases env _ _ _ hcur hnew wall with
    ⟨e', s₁, heq, hkept⟩ | ⟨_, _, _, _, -, -, -, heq⟩
  · rw [heq] at h ⊢
    cases h
    exact ⟨hkept, rfl⟩
  · rw [heq] at h
    cases h

/-- A sound step keeps every run that holds current. -/
theorem Step.held (h : Step env display config k sys move sys')
    (hsound : Sound env config k sys move sys') (hs : Sane k sys) (hheld : Held config sys) :
    Held config sys' := by
  have hother : ∀ {v : Nat} {run : WorkerRun}, sys.runs[v]? = some run → Holds config run →
      (∀ input, move ≠ .own v input) → runIsCurrent sys'.queue run.job = true :=
    fun hv hholds hne => hsound.kept hv hholds hne (hheld hv hholds)
  cases h with
  | begin worker job hid =>
      intro v run hv hholds
      rcases Tally.getElem?_added.1 hv with hold | ⟨-, rfl⟩
      · exact hheld hold hholds
      · exact hholds.2.elim
  | @own w run run' queue memory input hrun hnext =>
      intro v x hv hholds
      rcases (Tally.getElem?_replaced hrun).1 hv with ⟨-, rfl⟩ | ⟨hne, hold⟩
      · cases next_moves hnext with
        | stored hphase =>
            refine (runIsCurrent_congr ?_).trans (hsound.current ⟨hrun, hphase, _, rfl⟩ hholds.1).1
            show (storeResult ..).1.jobs.lookup run.job.id = _
            rw [storeResult_jobs]
        | spawned hphase | spawnFailed hphase =>
            have hwas : Holds config run := ⟨hholds.1, by rw [hphase]; trivial⟩
            have hcur := hheld hrun hwas
            exact hcur
        | recorded hphase =>
            rcases @recorded_phase display run _ with hfin | ⟨_, _, hcomp, herr, -⟩
            · exact (hfin ▸ hholds.2 : Phase.Open .finished).elim
            · have hwas : Holds config run := ⟨hholds.1, by rw [hcomp]; trivial⟩
              refine (recordCall_failed hcomp (hheld hrun hwas) (fun child hchild => ?_) herr).1
              rw [hs.ids hrun]
              exact hs.children hrun hcomp child hchild
        | idle => exact hheld hrun hholds
        | failed hphase =>
            refine absurd (?_ : config.keeps run.returned = none) hholds.1
            rw [hs.working hrun hphase]
            exact keeps_nothing
        | returned | stopped => exact hholds.2.elim
      · exact hother hold hholds fun input heq => hne (by injection heq with heq _; exact heq.symm)
  | queue hstep hno =>
      intro v run hv hholds
      exact hother hv hholds nofun
  | memory op hno =>
      intro v run hv hholds
      exact hheld hv hholds

theorem Step.own_cases {input : Input} (h : Step env display config k sys (.own w input) sys') :
    ∃ run run' queue memory, sys.runs[w]? = some run ∧
      run.next env display config input sys.queue sys.memory = (run', queue, memory) ∧
      sys' = ⟨sys.runs.set w run', queue, memory⟩ := by
  cases h with
  | own _ hrun hnext => exact ⟨_, _, _, _, hrun, hnext, rfl⟩

/-- Run `w` is past storing what `run` returned. -/
def Settled (w : Nat) (run : WorkerRun) (sys : State) : Prop :=
  ∃ run', sys.runs[w]? = some run' ∧ run'.returned = run.returned ∧
    run'.phase ≠ .working ∧ run'.phase ≠ .storing

theorem Step.settled (h : Step env display config k sys move sys') (hset : Settled w run sys) :
    Settled w run sys' := by
  obtain ⟨run₀, hrun₀, hreturned, hworking, hstoring⟩ := hset
  cases h with
  | begin worker job hid =>
      exact ⟨run₀, Tally.getElem?_added.2 (.inl hrun₀), hreturned, hworking, hstoring⟩
  | @own v run₁ run₂ queue memory input hrun hnext =>
      by_cases hvw : w = v
      · subst hvw
        obtain rfl := Option.some.inj (hrun₀.symm.trans hrun)
        refine ⟨run₂, (Tally.getElem?_replaced hrun).2 (.inl ⟨rfl, rfl⟩), ?_⟩
        cases next_moves hnext with
        | returned hphase | failed hphase => exact absurd hphase hworking
        | stored hphase => exact absurd hphase hstoring
        | recorded hphase =>
            refine ⟨hreturned, ?_⟩
            rcases @recorded_phase display run₀ _ with hfin | ⟨_, _, _, _, hfail⟩
            · dsimp only
              rw [hfin]
              exact ⟨nofun, nofun⟩
            · dsimp only
              rw [hfail]
              exact ⟨nofun, nofun⟩
        | idle => exact ⟨hreturned, hworking, hstoring⟩
        | spawned | spawnFailed | stopped => exact ⟨hreturned, nofun, nofun⟩
      · exact ⟨run₀, (Tally.getElem?_replaced hrun).2 (.inr ⟨hvw, hrun₀⟩), hreturned, hworking,
          hstoring⟩
  | queue | memory => exact ⟨run₀, hrun₀, hreturned, hworking, hstoring⟩

/-- A run that is over stays over. -/
theorem Step.finished (h : Step env display config k sys move sys')
    (hfin : ∃ run, sys.runs[w]? = some run ∧ run.phase = .finished) :
    ∃ run, sys'.runs[w]? = some run ∧ run.phase = .finished := by
  obtain ⟨run₀, hrun₀, hphase₀⟩ := hfin
  cases h with
  | begin worker job hid => exact ⟨run₀, Tally.getElem?_added.2 (.inl hrun₀), hphase₀⟩
  | @own v run₁ run₂ queue memory input hrun hnext =>
      by_cases hvw : w = v
      · subst hvw
        obtain rfl := Option.some.inj (hrun₀.symm.trans hrun)
        refine ⟨run₂, (Tally.getElem?_replaced hrun).2 (.inl ⟨rfl, rfl⟩), ?_⟩
        cases next_moves hnext with
        | returned hphase | failed hphase | stored hphase | spawned hphase | spawnFailed hphase =>
            exact absurd (hphase₀.symm.trans hphase) nofun
        | recorded hphase =>
            rw [hphase₀] at hphase
            exact hphase.elim
        | idle => exact hphase₀
        | stopped => rfl
      · exact ⟨run₀, (Tally.getElem?_replaced hrun).2 (.inr ⟨hvw, hrun₀⟩), hphase₀⟩
  | queue | memory => exact ⟨run₀, hrun₀, hphase₀⟩

/-- While a run holds, no step stores a result. -/
theorem Sound.no_store (h : Sound env config k sys move sys') (hrun : sys.runs[w]? = some run)
    (hholds : Holds config run) :
    ¬ ∃ v run', StoresOwn sys move v run' ∧ config.keeps run'.returned ≠ none := by
  rintro ⟨v, run', hstores, hkeeps⟩
  by_cases hvw : w = v
  · subst hvw
    obtain rfl := Option.some.inj (hrun.symm.trans hstores.found)
    have hopen := hholds.2
    rw [hstores.phase] at hopen
    exact hopen
  · exact (h.current hstores hkeeps).2 hrun hvw hholds

/-- While the job is completed, no step stores a result. -/
theorem Sound.no_store_completed (h : Sound env config k sys move sys') (hs : Sane k sys)
    (hdone : sys.queue.isJob k (·.status = .completed) = true) :
    ¬ ∃ v run', StoresOwn sys move v run' ∧ config.keeps run'.returned ≠ none := by
  rintro ⟨v, run', hstores, hkeeps⟩
  obtain ⟨job, hlookup, hrunning, -⟩ := runIsCurrent_iff.1 (h.current hstores hkeeps).1
  rw [hs.ids hstores.found] at hlookup
  obtain ⟨job', hlookup', hst⟩ := isJob_iff.1 hdone
  obtain rfl := Option.some.inj (hlookup.symm.trans hlookup')
  exact absurd (hrunning.symm.trans (of_decide_eq_true hst)) nofun

/-- A current run is not told that it is stale. -/
theorem Records.not_current (h : Records env sys move w run (.recorded none))
    (hnew : ∀ children, run.phase = .completing (some children) →
      ∀ child ∈ children, child.id ≠ run.job.id) : runIsCurrent sys.queue run.job = false := by
  obtain ⟨now, wall, -, hreply⟩ := h.moved
  by_contra hcur
  replace hcur : runIsCurrent sys.queue run.job = true := by simpa using hcur
  have hfinish : ∀ outcome, run.recordCall now wall = .finishJobRun run.job outcome wall →
      False := by
    intro outcome hcall
    have hnot := finishJobRun_current hcur env.cron outcome wall
    rw [hcall] at hreply
    simp only [Op.apply] at hreply
    generalize finishJobRun env.cron sys.queue run.job outcome wall = out at hreply hnot
    obtain ⟨result, s₁⟩ := out
    cases result with
    | error e => cases hreply
    | ok recorded =>
        cases hreply
        exact hnot rfl
  cases hphase : run.phase with
  | working | storing | spawning | finished =>
      have hreports := h.phase
      rw [hphase] at hreports
      exact hreports
  | failing ended => exact hfinish _ (by unfold recordCall; rw [hphase])
  | completing children =>
      cases children with
      | none => exact hfinish _ (by unfold recordCall; rw [hphase])
      | some children =>
          have hcall : run.recordCall now wall
              = .completeJobRunWithChildren run.job children wall := by
            unfold recordCall
            rw [hphase]
          rw [hcall] at hreply
          simp only [Op.apply] at hreply
          rcases @completeJobRunWithChildren_cases env _ _ _ hcur (hnew children hphase) wall
            with ⟨e, s₁, heq, -⟩ | ⟨_, _, _, _, -, -, -, heq⟩
          · rw [heq] at hreply
            cases hreply
          · rw [heq] at hreply
            cases hreply

/-- A completion that was recorded, and after which the job is
completed. -/
theorem Records.completes {recorded : RecordedOutcome} {children : Option (List Job)}
    (h : Records env sys move w run (.recorded (some recorded)))
    (hstep : Step env display config k sys move sys') (hphase : run.phase = .completing children)
    (hnew : ∀ children, run.phase = .completing (some children) →
      ∀ child ∈ children, child.id ≠ run.job.id)
    (hdone : sys'.queue.isJob run.job.id (·.status = .completed) = true) :
    Completes env sys.queue run := by
  obtain ⟨now, wall, rfl, hreply⟩ := h.moved
  obtain ⟨run₁, run₂, queue, memory, hrun, hnext, rfl⟩ := hstep.own_cases
  obtain rfl := Option.some.inj (h.found.symm.trans hrun)
  rw [next_record h.phase] at hnext
  obtain ⟨-, hqueue, -⟩ := hnext
  cases children with
  | none =>
      have hcall : run.recordCall now wall = .finishJobRun run.job .completed wall := by
        unfold recordCall
        rw [hphase]
      rw [hcall] at hreply hdone
      simp only [Op.apply] at hreply hdone
      unfold Completes
      rw [hphase]
      dsimp only
      cases hfinish : finishJobRun env.cron sys.queue run.job .completed wall with
      | mk result s₁ =>
          rw [hfinish] at hreply hdone
          cases result with
          | error e => cases hreply
          | ok out =>
              cases hreply
              exact finishGuard_of_completed hfinish hdone
  | some children =>
      have hcall : run.recordCall now wall
          = .completeJobRunWithChildren run.job children wall := by
        unfold recordCall
        rw [hphase]
      rw [hcall] at hreply hdone
      simp only [Op.apply] at hreply hdone
      have hcur : runIsCurrent sys.queue run.job = true := by
        by_contra hstale
        rcases @completeJobRunWithChildren_stale env _ _ (by simpa using hstale) children wall
          with ⟨e, heq⟩ | heq
        · rw [heq] at hreply
          cases hreply
        · rw [heq] at hreply
          cases hreply
      unfold Completes
      rw [hphase]
      dsimp only
      rcases @completeJobRunWithChildren_cases env _ _ _ hcur (hnew children hphase) wall with
        ⟨e, s₁, heq, -⟩ | ⟨spawned, s₁, out, s₂, hvalid, henq, hfinish, heq⟩
      · rw [heq] at hreply
        cases hreply
      · rw [heq] at hdone
        rw [henq]
        exact ⟨hvalid, hcur, ⟨spawned, rfl⟩, finishGuard_of_completed hfinish hdone⟩

/-- A run that holds begins to fail only where its children fail to be
spawned. -/
theorem Step.fails (h : Step env display config k sys move sys') (hs : Sane k sys)
    (hheld : Held config sys) (hrun : sys.runs[w]? = some run) (hholds : Holds config run)
    (hbefore : ∀ ended, run.phase ≠ .failing ended) (hrun' : sys'.runs[w]? = some run')
    {ended : Worker.HandlerEnd} (hafter : run'.phase = .failing ended) :
    FailsToSpawn env sys move w run := by
  have hsame : sys'.runs[w]? = sys.runs[w]? → False := by
    intro heq
    rw [heq, hrun] at hrun'
    obtain rfl := Option.some.inj hrun'
    exact hbefore ended hafter
  cases h with
  | begin worker job hid =>
      rcases Tally.getElem?_added.1 hrun' with hold | ⟨-, rfl⟩
      · exact (hsame (by rw [hold, hrun'])).elim
      · cases hafter
  | @own v run₁ run₂ queue memory input hrun₁ hnext =>
      rcases (Tally.getElem?_replaced hrun₁).1 hrun' with ⟨rfl, rfl⟩ | ⟨-, hold⟩
      · obtain rfl := Option.some.inj (hrun.symm.trans hrun₁)
        have hopen := hholds.2
        cases next_moves hnext with
        | spawnFailed hphase => exact .inl ⟨_, hphase, rfl⟩
        | recorded hphase =>
            rcases @recorded_phase display run _ with
              hfin | ⟨children, e, hcomp, herr, -⟩
            · exact absurd (hfin.symm.trans hafter) nofun
            · refine .inr ⟨children, _, _, e, hcomp, rfl, ?_⟩
              refine (recordCall_failed hcomp (hheld hrun hholds) (fun child hchild => ?_) herr).2
              rw [hs.ids hrun]
              exact hs.children hrun hcomp child hchild
        | failed hphase =>
            rw [hphase] at hopen
            exact hopen.elim
        | idle => exact absurd hafter (hbefore ended)
        | returned | stored | spawned | stopped => cases hafter
      · exact (hsame (by rw [hold, hrun'])).elim
  | queue | memory => exact (hsame rfl).elim

-- == runs

section Runs

variable {r : Run (Step env display config k) n} {i j l m : Nat}
variable (hsane : ∀ i ≤ n, Sane k (r.state i)) (hheld : ∀ i ≤ n, Held config (r.state i))
variable (hsound : ∀ i < n, Sound env config k (r.state i) (r.event i) (r.state (i + 1)))

/-- What the step that stores leaves. -/
theorem StoresOwn.after (h : Step env display config k sys move sys')
    (hstores : StoresOwn sys move w run) : ∃ now,
    sys' = ⟨sys.runs.set w { run with phase := .spawning },
      (storeResult env config run.job.id run.returned now sys.queue sys.memory).1,
      (storeResult env config run.job.id run.returned now sys.queue sys.memory).2⟩ := by
  obtain ⟨now, rfl⟩ := hstores.moved
  obtain ⟨run₁, run₂, queue, memory, hrun, hnext, rfl⟩ := h.own_cases
  obtain rfl := Option.some.inj (hstores.found.symm.trans hrun)
  rw [next_store hstores.phase] at hnext
  obtain ⟨rfl, hout⟩ := Prod.mk.inj hnext
  exact ⟨now, by rw [hout]⟩

/-- After it stored, the run is past storing. -/
theorem settled_from (hi : i < n) (hstores : StoresOwn (r.state i) (r.event i) w run) :
    ∀ l, i < l → l ≤ n → Settled w run (r.state l) := by
  refine r.stable ?_ fun m _ _ hstep => hstep.settled
  obtain ⟨now, heq⟩ := hstores.after (r.next i hi)
  rw [heq]
  exact ⟨_, (Tally.getElem?_replaced hstores.found).2 (.inl ⟨rfl, rfl⟩), rfl, nofun, nofun⟩

/-- From storing to recording a run holds. -/
theorem holds_until (hi : i < n) (hj : j ≤ n) (hstores : StoresOwn (r.state i) (r.event i) w run)
    (hkeeps : config.keeps run.returned ≠ none) (hrun' : (r.state j).runs[w]? = some run')
    (hreports : run'.phase.Reports) : ∀ l, i < l → l ≤ j →
    ∃ run₀, (r.state l).runs[w]? = some run₀ ∧ Holds config run₀ := by
  intro l hil hlj
  obtain ⟨run₀, hrun₀, hreturned, hworking, hstoring⟩ :=
    settled_from hi hstores l hil (by omega)
  refine ⟨run₀, hrun₀, by rwa [hreturned], ?_⟩
  cases hphase : run₀.phase with
  | working => exact absurd hphase hworking
  | storing => exact absurd hphase hstoring
  | spawning | completing | failing => trivial
  | finished =>
      obtain ⟨run₁, hrun₁, hfin⟩ := r.stable (m := l)
        (P := fun sys => ∃ run, sys.runs[w]? = some run ∧ run.phase = .finished)
        ⟨run₀, hrun₀, hphase⟩ (fun m _ _ hstep => hstep.finished) j hlj hj
      obtain rfl := Option.some.inj (hrun₁.symm.trans hrun')
      rw [hfin] at hreports
      exact hreports.elim

/-- A run with nothing to store changes nothing when it stores. -/
theorem stored_of_nothing (h : Step env display config k sys move sys')
    (hstores : StoresOwn sys move w run) (hkeeps : config.keeps run.returned = none) :
    stored config k sys' = stored config k sys := by
  obtain ⟨now, rfl⟩ := hstores.after h
  rw [storeResult_nothing hkeeps]
  rfl

include hsane in
/-- Where nothing is stored, nothing is stored until a step stores. -/
theorem nothing_stored (hlm : l ≤ m) (hm : m ≤ n) (hl : stored config k (r.state l) = none)
    (hno : ∀ i, l ≤ i → i < m → ¬ ∃ v run', StoresOwn (r.state i) (r.event i) v run' ∧
      config.keeps run'.returned ≠ none) : stored config k (r.state m) = none := by
  induction m, hlm using Nat.le_induction with
  | base => exact hl
  | succ m hlm ih =>
      have hbefore := ih (by omega) fun i hli him => hno i hli (by omega)
      rcases (r.next m (by omega)).stored_cases (hsane m (by omega)) with hstores | hsame | ⟨h, -⟩
      · exact absurd hstores (hno m hlm (by omega))
      · exact hsame.trans hbefore
      · exact h

include hsane hheld in
theorem discarded_keeps (hij : i < j) (hj : j < n)
    (hstores : StoresOwn (r.state i) (r.event i) w run)
    (hrecords : Records env (r.state j) (r.event j) w run' (.recorded none)) :
    stored config k (r.state (i + 1)) = stored config k (r.state i) := by
  by_cases hkeeps : config.keeps run.returned = none
  · exact stored_of_nothing (r.next i (by omega)) hstores hkeeps
  -- a run that stored a result holds until it records, so it is current then
  obtain ⟨run₀, hrun₀, hholds⟩ := holds_until (by omega) (by omega) hstores hkeeps hrecords.found
    hrecords.phase j hij (le_refl j)
  obtain rfl := Option.some.inj (hrun₀.symm.trans hrecords.found)
  have hcur := hheld j (by omega) hrun₀ hholds
  have hstale := hrecords.not_current fun children hphase child hchild => by
    rw [(hsane j (by omega)).ids hrun₀]
    exact (hsane j (by omega)).children hrun₀ hphase child hchild
  exact absurd (hcur.symm.trans hstale) nofun

include hsane hheld hsound in
theorem failed_leaves_nothing {ended : Worker.HandlerEnd} (hij : i < j) (hj : j < n)
    (hstores : StoresOwn (r.state i) (r.event i) w run) (hrun' : (r.state j).runs[w]? = some run')
    (hphase : run'.phase = .failing ended) :
    stored config k (r.state (i + 1)) = stored config k (r.state i) ∨
      stored config k (r.state (j + 1)) = none := by
  by_cases hkeeps : config.keeps run.returned = none
  · exact .inl (stored_of_nothing (r.next i (by omega)) hstores hkeeps)
  refine .inr ?_
  have hholds := holds_until (by omega) (by omega) hstores hkeeps hrun'
    (by rw [hphase]; trivial)
  -- the last step before which the run was not failing yet
  have hfirst : ¬ ∃ run₀, (r.state (i + 1)).runs[w]? = some run₀ ∧
      ∃ ended, run₀.phase = .failing ended := by
    rintro ⟨run₀, hrun₀, ended', hfailing⟩
    obtain ⟨now, heq⟩ := hstores.after (r.next i (by omega))
    rw [heq] at hrun₀
    rcases (Tally.getElem?_replaced hstores.found).1 hrun₀ with ⟨-, rfl⟩ | ⟨hne, -⟩
    · cases hfailing
    · exact hne rfl
  obtain ⟨l, hil, hlj, hbefore, hfailing⟩ := Run.last_rise
    (P := fun m => ∃ run₀, (r.state m).runs[w]? = some run₀ ∧ ∃ ended, run₀.phase = .failing ended)
    hij hfirst ⟨run', hrun', ended, hphase⟩
  obtain ⟨run₀, hrun₀, hholds₀⟩ := hholds l (by omega) (by omega)
  obtain ⟨run₁, hrun₁, ended₁, hphase₁⟩ := hfailing (l + 1) (by omega) (by omega)
  have hspawn := (r.next l (by omega)).fails (hsane l (by omega)) (hheld l (by omega)) hrun₀ hholds₀
    (fun ended' h => hbefore ⟨run₀, hrun₀, ended', h⟩) hrun₁ hphase₁
  refine nothing_stored hsane (l := l) (by omega) (by omega)
    ((hsound l (by omega)).spawned hrun₀ hholds₀ hspawn) fun m hlm hmj => ?_
  obtain ⟨run₂, hrun₂, hholds₂⟩ := hholds m (by omega) (by omega)
  exact (hsound m (by omega)).no_store hrun₂ hholds₂

include hsane hsound in
theorem completed_keeps {children : Option (List Job)} {recorded : RecordedOutcome}
    (hij : i < j) (hjm : j < m) (hm : m ≤ n) (hstores : StoresOwn (r.state i) (r.event i) w run)
    (hrecords : Records env (r.state j) (r.event j) w run' (.recorded (some recorded)))
    (hphase : run'.phase = .completing children)
    (hdone : ∀ l, j < l → l ≤ m → (r.state l).queue.isJob k (·.status = .completed) = true) :
    (stored config k (r.state m)).map (·.1) = config.keeps run.returned ∨
      (stored config k (r.state m) = none ∧ ∃ l, i ≤ l ∧ l < m ∧ MayDrop (r.event l) ∧
        stored config k (r.state (l + 1)) = none) := by
  have hid := (hsane j (by omega)).ids hrecords.found
  -- no step stores while the run records and once the job is completed
  have hlate : ∀ l, j ≤ l → l < m → ¬ ∃ v run', StoresOwn (r.state l) (r.event l) v run' ∧
      config.keeps run'.returned ≠ none := by
    intro l hjl hlm
    rcases Nat.lt_or_eq_of_le hjl with hlt | rfl
    · exact (hsound l (by omega)).no_store_completed (hsane l (by omega)) (hdone l hlt (by omega))
    · rintro ⟨v, run₀, hstores₀, -⟩
      obtain ⟨now, wall, hevent, -⟩ := hrecords.moved
      obtain ⟨now', hevent'⟩ := hstores₀.moved
      exact absurd (hevent.symm.trans hevent') nofun
  by_cases hkeeps : config.keeps run.returned = none
  · refine .inl ?_
    obtain ⟨run₀, hrun₀, hreturned, -, -⟩ := settled_from (by omega) hstores j hij (by omega)
    obtain rfl := Option.some.inj (hrun₀.symm.trans hrecords.found)
    obtain ⟨now, wall, hevent, -⟩ := hrecords.moved
    have hcompletes := hrecords.completes (r.next j (by omega)) hphase
      (fun children hchildren child hchild => by
        rw [hid]
        exact (hsane j (by omega)).children hrun₀ hchildren child hchild)
      (by rw [hid]; exact hdone (j + 1) (by omega) (by omega))
    have hnone := (hsound j (by omega)).nothing hrun₀ hevent (by rw [hreturned]; exact hkeeps)
      hcompletes
    rw [hkeeps, nothing_stored hsane (by omega) hm hnone hlate]
    rfl
  · have hholds := holds_until (by omega) (by omega) hstores hkeeps hrecords.found hrecords.phase
    have hno : ∀ l, i < l → l < m → ¬ ∃ v run', StoresOwn (r.state l) (r.event l) v run' ∧
        config.keeps run'.returned ≠ none := by
      intro l hil hlm
      rcases Nat.lt_or_ge l j with hlt | hge
      · obtain ⟨run₀, hrun₀, hholds₀⟩ := hholds l hil (by omega)
        exact (hsound l (by omega)).no_store hrun₀ hholds₀
      · exact hlate l hge hlm
    -- the result is stored when the run stores it, and kept or dropped after that
    have hfirst : (stored config k (r.state (i + 1))).map (·.1) = config.keeps run.returned ∨
        (stored config k (r.state (i + 1)) = none ∧ MayDrop (r.event i)) := by
      obtain ⟨now, hevent⟩ := hstores.moved
      obtain ⟨now', heq⟩ := hstores.after (r.next i (by omega))
      have hcur := ((hsound i (by omega)).current hstores hkeeps).1
      obtain ⟨job, hlookup, -⟩ := runIsCurrent_iff.1 hcur
      have hrunid := (hsane i (by omega)).ids hstores.found
      rw [hrunid] at hlookup
      rw [heq, hevent, hrunid]
      exact (storeResult_stored now' (by rw [hlookup]; rfl) (hsane i (by omega)).room
        hkeeps _).imp_right fun h => ⟨h, trivial⟩
    have hkept : ∀ l, i < l → l ≤ m →
        (stored config k (r.state l)).map (·.1) = config.keeps run.returned ∨
          (stored config k (r.state l) = none ∧ ∃ l', i ≤ l' ∧ l' < l ∧ MayDrop (r.event l') ∧
            stored config k (r.state (l' + 1)) = none) := by
      intro l hil
      induction l, hil using Nat.le_induction with
      | base => exact fun _ => hfirst.imp_right fun h => ⟨h.1, i, le_refl i, by omega, h.2, h.1⟩
      | succ l hil ih =>
          intro hlm
          rcases (r.next l (by omega)).stored_cases (hsane l (by omega)) with
            hstores' | hsame | ⟨hnone, hdrop⟩
          · exact absurd hstores' (hno l hil (by omega))
          · rw [hsame]
            refine (ih (by omega)).imp_right fun ⟨hnone, l', hil', hlt, hdrop, hnone'⟩ => ?_
            exact ⟨hnone, l', hil', by omega, hdrop, hnone'⟩
          · exact .inr ⟨hnone, l, by omega, by omega, hdrop, hnone⟩
    exact hkept m (by omega) (le_refl m)

end Runs

/-- In a run whose steps are sound, the stored result belongs to the
recorded run. -/
theorem results_belong (r : Run (Step env display config k) n) {clock : DateTime} {capacity : Nat}
    (h0 : r.state 0 = ⟨[], TestStorage.new clock, .withCapacity capacity⟩)
    (hnew : ∀ i < n, NewIds k (r.event i))
    (hsound : ∀ i < n, Sound env config k (r.state i) (r.event i) (r.state (i + 1))) :
    ResultsBelong env display config k r := by
  have hsane : ∀ i ≤ n, Sane k (r.state i) := by
    intro i hi
    refine r.stable (m := 0) (P := Sane k) ?_ (fun i _ hi hstep => hstep.sane (hnew i hi)) i
      (Nat.zero_le i) hi
    rw [h0]
    exact ⟨keyed_new clock, nofun, nofun, nofun, fun _ => rfl⟩
  have hheld : ∀ i ≤ n, Held config (r.state i) := by
    intro i hi
    refine r.stable (m := 0) (P := Held config) ?_
      (fun i _ hi hstep => hstep.held (hsound i hi) (hsane i (by omega))) i (Nat.zero_le i) hi
    rw [h0]
    exact nofun
  exact {
    discarded := discarded_keeps hsane hheld
    failed := fun hij hj hstores hrecords =>
      failed_leaves_nothing hsane hheld hsound hij hj hstores hrecords.found
    completed := completed_keeps hsane hsound }

-- == on one job

/-- A move that is possible in a state. -/
def Move.valid (k : JobId) (sys : State) : Move → Bool
  | .begin _ job => decide (job.id = k)
  | .own w _ => sys.runs[w]?.isSome
  | .queue (.call (.storeJobResult jobId ..)) => !decide (jobId = k)
  | .memory (.store _ jobId ..) => !decide (jobId = k)
  | _ => true

/-- The system after a move. -/
def State.after (env : Env) (display : HammerworkError → String) (config : ResultConfig)
    (sys : State) : Move → State
  | .begin worker job => { sys with runs := sys.runs ++ [⟨worker, job, none, .working⟩] }
  | .own w input =>
      match sys.runs[w]? with
      | none => sys
      | some run =>
          let (run', queue, memory) := run.next env display config input sys.queue sys.memory
          ⟨sys.runs.set w run', queue, memory⟩
  | .queue e => { sys with queue := e.after env sys.queue }
  | .memory op => { sys with memory := op.apply sys.memory }

theorem State.step_after (h : move.valid k sys = true) :
    Step env display config k sys move (sys.after env display config move) := by
  cases move with
  | begin worker job => exact .begin sys worker job (of_decide_eq_true h)
  | own w input =>
      obtain ⟨run, hrun⟩ := Option.isSome_iff_exists.1 h
      have hafter : sys.after env display config (.own w input)
          = ⟨sys.runs.set w (run.next env display config input sys.queue sys.memory).1,
            (run.next env display config input sys.queue sys.memory).2.1,
            (run.next env display config input sys.queue sys.memory).2.2⟩ := by
        simp only [State.after, hrun]
      rw [hafter]
      exact .own input hrun rfl
  | queue e =>
      refine .queue (Hammerwork.step_after env sys.queue e) fun hstores => ?_
      unfold StoresResult at hstores
      split at hstores
      · next heq =>
          cases heq
          simp [Move.valid, hstores] at h
      · next heq => cases heq
      · exact hstores
  | memory op =>
      refine .memory op fun hstores => ?_
      unfold StoresResult at hstores
      split at hstores
      · next heq => cases heq
      · next heq =>
          cases heq
          simp [Move.valid, hstores] at h
      · exact hstores

/-- Results are kept in the database and do not expire. -/
def keptForever : ResultConfig := ⟨.database, none⟩

/-- The system after each of a list of moves, from the empty queue. -/
def statesOf (moves : List Move) : Nat → State :=
  Run.states (State.after plainEnv (fun _ => "") keptForever)
    ⟨[], TestStorage.new 0, .withCapacity 0⟩ fun i => moves[i]?.getD (.queue .rehash)

/-- The run that makes a list of moves. -/
def runOf (moves : List Move)
    (h : ∀ i < moves.length, (moves[i]?.getD (.queue .rehash)).valid 1 (statesOf moves i) = true) :
    Run (Step plainEnv (fun _ => "") keptForever 1) moves.length :=
  Run.ofFn _ _ _ fun i hi => State.step_after (h i hi)

/-- A worker without settings of its own. -/
def plainWorker : Worker := ⟨none, none, 0, fun _ _ => 0⟩

/-- One worker runs the job, stores its result and completes it. -/
def oneRun : List Move :=
  [.queue (.call (.enqueue parentJob)), .queue (.call (.dequeue "mail" none 0 1)),
    .begin plainWorker (parentJob.claimed 0), .own 0 (.handled (.ok (some .null))),
    .own 0 (.store 0), .own 0 (.prepareSpawn (.ok none)), .own 0 (.record 0 0)]

/-- A step while no run is in progress is sound. -/
theorem sound_of_nil (h : sys.runs = []) : Sound env config k sys move sys' where
  current hstores := by
    have hfound := hstores.found
    rw [h] at hfound
    cases hfound
  kept hrun := by
    rw [h] at hrun
    cases hrun
  spawned hrun := by
    rw [h] at hrun
    cases hrun
  nothing hrun := by
    rw [h] at hrun
    cases hrun

/-- The step of the one run in progress is sound if the run is current
when it stores and spawns nothing. -/
theorem sound_of_single {input : Input} (h : sys.runs = [run])
    (hcur : run.phase = .storing → runIsCurrent sys.queue run.job = true)
    (hspawn : ∀ error, input ≠ .prepareSpawn (.error error))
    (hchildren : ∀ children, run.phase ≠ .completing (some children))
    (hreturned : run.phase.Reports → config.keeps run.returned ≠ none) :
    Sound env config k sys (.own 0 input) sys' := by
  have honly : ∀ {w : Nat} {run' : WorkerRun}, sys.runs[w]? = some run' → w = 0 ∧ run' = run := by
    intro w run' hrun
    rw [h] at hrun
    cases w with
    | zero => exact ⟨rfl, (Option.some.inj hrun).symm⟩
    | succ w => cases hrun
  refine ⟨fun hstores _ => ?_, fun hrun _ hother => ?_, fun hrun _ hfails => ?_,
    fun hrun hmove hnothing hcompletes => ?_⟩
  · obtain ⟨rfl, rfl⟩ := honly hstores.found
    exact ⟨hcur hstores.phase, fun hv hne => absurd (honly hv).1 hne⟩
  · exact absurd (by rw [(honly hrun).1]) (hother input)
  · obtain ⟨rfl, rfl⟩ := honly hrun
    rcases hfails with ⟨error, -, heq⟩ | ⟨children, _, _, _, hphase, -⟩
    · cases heq
      exact absurd rfl (hspawn error)
    · exact absurd hphase (hchildren children)
  · obtain ⟨rfl, rfl⟩ := honly hrun
    unfold Completes at hcompletes
    refine absurd hnothing (hreturned ?_)
    split at hcompletes
    · next hphase => rw [hphase]; trivial
    · next hphase => rw [hphase]; trivial
    · exact hcompletes.elim

/-- The result is stored, and kept when the job completes. -/
theorem results_belong_oneRun : ∃ r : Run (Step plainEnv (fun _ => "") keptForever 1) 7,
    ResultsBelong plainEnv (fun _ => "") keptForever 1 r ∧
    (stored keptForever 1 (r.state 7)).isSome = true ∧
    (r.state 7).queue.isJob 1 (·.status = .completed) = true := by
  refine ⟨runOf oneRun (by decide +kernel), results_belong _ rfl (fun i hi => ?_) fun i hi => ?_,
    by decide +kernel, by decide +kernel⟩
  · match i, hi with
    | 0, _ | 1, _ | 2, _ | 3, _ | 4, _ | 5, _ | 6, _ => trivial
  · match i, hi with
    | 0, _ | 1, _ | 2, _ => exact sound_of_nil rfl
    | 3, _ => exact sound_of_single rfl nofun nofun nofun nofun
    | 4, _ => exact sound_of_single rfl (fun _ => by decide +kernel) nofun nofun nofun
    | 5, _ => exact sound_of_single rfl nofun nofun nofun nofun
    | 6, _ => exact sound_of_single rfl nofun nofun nofun fun _ => nofun

/-- A run loses its lease, another worker runs the job and completes it,
and then the first run goes on. -/
def lateRun : List Move :=
  [.queue (.call (.enqueue parentJob)), .queue (.call (.dequeue "mail" none 1 1)),
    .begin plainWorker (parentJob.claimed 0), .own 0 (.handled (.ok (some .null))),
    .queue (.call (.setTime 2000000)), .queue (.call (.requeueStaleJobs none)),
    .queue (.call (.dequeue "mail" none 0 1)),
    .begin plainWorker { parentJob.claimed 2000000 with attempts := 2 },
    .own 1 (.handled (.ok (some (.bool true)))), .own 1 (.store 2000000),
    .own 1 (.prepareSpawn (.ok none)), .own 1 (.record 2000000 2000000),
    .own 0 (.store 2000000), .own 0 (.prepareSpawn (.ok none)),
    .own 0 (.record 2000000 2000000)]

/-- Its outcome is discarded, and yet the result of the completed job is
the one it returned. -/
theorem late_result_overwrites : ∃ r : Run (Step plainEnv (fun _ => "") keptForever 1) 15,
    r.state 0 = ⟨[], TestStorage.new 0, .withCapacity 0⟩ ∧
    (∀ i < 15, NewIds 1 (r.event i)) ∧
    (r.state 12).queue.isJob 1 (·.status = .completed) = true ∧
    (stored keptForever 1 (r.state 12)).any (fun e => e.1 matches .bool true) = true ∧
    (r.state 15).queue.isJob 1 (·.status = .completed) = true ∧
    (stored keptForever 1 (r.state 15)).any (fun e => e.1 matches .null) = true ∧
    ¬ ResultsBelong plainEnv (fun _ => "") keptForever 1 r := by
  refine ⟨runOf lateRun (by decide +kernel), rfl, fun i hi => ?_, by decide +kernel,
    by decide +kernel, by decide +kernel, by decide +kernel, fun hbelong => ?_⟩
  · match i, hi with
    | 0, _ | 1, _ | 2, _ | 3, _ | 4, _ | 5, _ | 6, _ | 7, _ | 8, _ | 9, _ | 10, _ | 11, _
    | 12, _ | 13, _ | 14, _ => trivial
  · have hstale : runIsCurrent (statesOf lateRun 14).queue (parentJob.claimed 0) = false := by
      decide +kernel
    have hreply : ((Op.finishJobRun (parentJob.claimed 0) .completed 2000000).apply plainEnv
        (statesOf lateRun 14).queue).1 = .recorded none := by
      simp only [Op.apply]
      unfold finishJobRun
      rw [finishGuard_stale hstale]
      rfl
    have hkept := hbelong.discarded (w := 0) (i := 12) (j := 14) (by omega) (by omega)
      ⟨rfl, rfl, _, rfl⟩ ⟨rfl, trivial, _, _, rfl, hreply⟩
    have hbefore : (stored keptForever 1 (statesOf lateRun 12)).any
        (fun e => e.1 matches .bool true) = true := by decide +kernel
    have hafter : (stored keptForever 1 (statesOf lateRun 13)).any
        (fun e => e.1 matches .bool true) = false := by decide +kernel
    have hsame : stored keptForever 1 (statesOf lateRun 13)
      = stored keptForever 1 (statesOf lateRun 12) := hkept
    rw [hsame, hbefore] at hafter
    cases hafter

end ResultSystem

end Hammerwork
