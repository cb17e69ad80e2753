/-
What a step does to the stored result of a job.

Every step of another party keeps the result or drops it, and so does
every step of a run but the one that stores it (`storeResult_stored`).
A run that is still current when it records its outcome is not told that
it is stale, and it is no longer current afterwards.
-/
import Hammerwork.Results
import Hammerwork.Proofs.Leases

namespace Hammerwork

open TestStorage TestQueue

variable {env : Env} {k jobId : JobId} {config : ResultConfig}

-- == the memory store

namespace MemoryResultStore

variable {m : MemoryResultStore} {now : DateTime}

theorem remove_lookup (m : MemoryResultStore) (jobId k : JobId) :
    (m.remove jobId).1.entries.lookup k = if k = jobId then none else m.entries.lookup k := by
  unfold remove
  cases hlookup : m.entries.lookup jobId with
  | none =>
      dsimp only
      split
      · next hk => rw [hk, hlookup]
      · rfl
  | some entry => exact Table.lookup_erase_if ..

theorem remove_kept (m : MemoryResultStore) (jobId k : JobId) :
    (m.remove jobId).1.entries.lookup k = m.entries.lookup k ∨
      (m.remove jobId).1.entries.lookup k = none := by
  rw [remove_lookup]
  split
  · exact .inr rfl
  · exact .inl rfl

/-- Popping entries keeps or drops each. -/
theorem popWhile_kept (p : EvictionKey → Table JobId Entry → Bool)
    (order : List (EvictionKey × JobId)) : ∀ entries : Table JobId Entry,
    (popWhile p order entries).2.1.lookup k = entries.lookup k ∨
      (popWhile p order entries).2.1.lookup k = none := by
  induction order with
  | nil => exact fun entries => .inl rfl
  | cons e order ih =>
      intro entries
      rw [popWhile]
      split
      · exact kept_trans (lookup_erase_kept entries e.2 k) (ih (entries.erase e.2))
      · exact .inl rfl

theorem pruneExpired_kept (m : MemoryResultStore) (now : DateTime) (k : JobId) :
    (m.pruneExpired now).1.entries.lookup k = m.entries.lookup k ∨
      (m.pruneExpired now).1.entries.lookup k = none :=
  popWhile_kept _ m.order m.entries

theorem makeRoom_kept (m : MemoryResultStore) (k : JobId) :
    m.makeRoom.entries.lookup k = m.entries.lookup k ∨ m.makeRoom.entries.lookup k = none :=
  popWhile_kept _ m.order m.entries

/-- What a store leaves of the result it stores: that result, unless
there is no room for it or it has expired already. -/
theorem storeAt_self (hcapacity : m.capacity ≠ 0) (now : DateTime) (jobId : JobId) (value : Json)
    (expiresAt : Option DateTime) :
    (∃ key, (m.storeAt now jobId value expiresAt).entries.lookup jobId
      = some ⟨value, expiresAt, key⟩) ∨
    (m.storeAt now jobId value expiresAt).entries.lookup jobId = none := by
  unfold storeAt
  rw [if_neg hcapacity]
  dsimp only
  split
  · rw [remove_lookup, if_pos rfl]
    exact .inr rfl
  · exact .inl ⟨_, AList.lookup_insert _⟩

/-- A store keeps or drops the results of other jobs. -/
theorem storeAt_kept (hk : jobId ≠ k) (m : MemoryResultStore) (now : DateTime) (value : Json)
    (expiresAt : Option DateTime) :
    (m.storeAt now jobId value expiresAt).entries.lookup k = m.entries.lookup k ∨
      (m.storeAt now jobId value expiresAt).entries.lookup k = none := by
  unfold storeAt
  split
  · exact .inl rfl
  · dsimp only
    split
    · exact remove_kept m jobId k
    · show ((_ : Table JobId Entry).insert jobId _).lookup k = _ ∨ _
      rw [Table.lookup_insert_if, if_neg (Ne.symm hk)]
      refine kept_trans (remove_kept m jobId k) (kept_trans (pruneExpired_kept _ now k) ?_)
      exact makeRoom_kept _ k

theorem remove_capacity (m : MemoryResultStore) (jobId : JobId) :
    (m.remove jobId).1.capacity = m.capacity := by
  unfold remove
  split <;> rfl

theorem getAt_kept (m : MemoryResultStore) (now : DateTime) (jobId k : JobId) :
    (m.getAt now jobId).1.entries.lookup k = m.entries.lookup k ∨
      (m.getAt now jobId).1.entries.lookup k = none := by
  unfold getAt
  split
  · exact .inl rfl
  · split
    · exact remove_kept m jobId k
    · exact .inl rfl

/-- The capacity never changes. -/
theorem Op.apply_capacity (m : MemoryResultStore) (op : Op) :
    (op.apply m).capacity = m.capacity := by
  cases op with
  | store now jobId value expiresAt =>
      show (m.storeAt now jobId value expiresAt).capacity = m.capacity
      unfold storeAt
      split
      · rfl
      · dsimp only
        split
        · exact remove_capacity m jobId
        · exact remove_capacity m jobId
  | get now jobId =>
      show (m.getAt now jobId).1.capacity = m.capacity
      unfold getAt
      split
      · rfl
      · split
        · exact remove_capacity m jobId
        · rfl
  | remove jobId => exact remove_capacity m jobId
  | cleanupExpired now => rfl

/-- A call that stores no result of the job `k` keeps the one there is
or drops it. -/
theorem Op.apply_kept (m : MemoryResultStore) (op : Op)
    (hop : ∀ now value expiresAt, op ≠ .store now k value expiresAt) :
    (op.apply m).entries.lookup k = m.entries.lookup k ∨
      (op.apply m).entries.lookup k = none := by
  cases op with
  | store now jobId value expiresAt =>
      exact storeAt_kept (fun heq => hop now value expiresAt (by rw [heq])) m now value expiresAt
  | get now jobId => exact getAt_kept m now jobId k
  | remove jobId => exact remove_kept m jobId k
  | cleanupExpired now => exact pruneExpired_kept m now k

end MemoryResultStore

-- == recording an outcome

section Recording

variable {s s' : TestStorage} {run : Job} {children : List Job} {wall : DateTime}

theorem runIsCurrent_congr (h : s'.jobs.lookup run.id = s.jobs.lookup run.id) :
    runIsCurrent s' run = runIsCurrent s run := by
  unfold runIsCurrent isJob
  rw [h]

/-- A run that is current is not told that it is stale. -/
theorem finishJobRun_current (hcur : runIsCurrent s run = true) (cron : CronLibrary)
    (outcome : JobOutcome) (wall : DateTime) :
    (finishJobRun cron s run outcome wall).1 ≠ .ok none := by
  have hspec := finishJobRun_spec cron s run outcome wall
  generalize finishJobRun cron s run outcome wall = out at hspec ⊢
  cases hspec with
  | stale hstale => exact absurd (hcur.symm.trans hstale) nofun
  | completed | rerun | refused | retried | ended | endedRerun => nofun

/-- The completion of a run that is current is recorded. -/
theorem finishJobRun_completed (hcur : runIsCurrent s run = true) (cron : CronLibrary)
    (wall : DateTime) :
    ∃ recorded s', finishJobRun cron s run .completed wall = (.ok (some recorded), s') := by
  have hspec := finishJobRun_spec cron s run .completed wall
  generalize finishJobRun cron s run .completed wall = out at hspec
  cases hspec with
  | stale hstale => exact absurd (hcur.symm.trans hstale) nofun
  | completed | rerun => exact ⟨_, _, rfl⟩
  | ended hends => cases hends
  | endedRerun hends => cases hends

/-- Enqueueing children leaves a run of another job current. -/
theorem enqueueChildren_current (hnew : ∀ child ∈ children, child.id ≠ run.id) :
    runIsCurrent (enqueueChildren env children s).2 run = runIsCurrent s run := by
  refine runIsCurrent_congr ((enqueueChildren_spawned env children s).old run.id fun hmem => ?_)
  obtain ⟨child, hchild, hid⟩ := List.mem_map.1 hmem
  exact hnew child hchild hid

/-- What completing a current run with children does: it fails, the run
being current still, or it goes on to record the completion. -/
theorem completeJobRunWithChildren_cases (hcur : runIsCurrent s run = true)
    (hnew : ∀ child ∈ children, child.id ≠ run.id) (wall : DateTime) :
    (∃ e s₁, completeJobRunWithChildren env s run children wall = (.error e, s₁) ∧
      runIsCurrent s₁ run = true) ∨
    ∃ spawned s₁ recorded s₂, validateDependencyLimits children = .ok () ∧
      enqueueChildren env children s = (.ok spawned, s₁) ∧
      finishJobRun env.cron s₁ run .completed wall = (.ok (some recorded), s₂) ∧
      completeJobRunWithChildren env s run children wall
        = (.ok (some { recorded with spawned := spawned }), s₂) := by
  unfold completeJobRunWithChildren
  cases validateDependencyLimits children with
  | error e => exact .inl ⟨e, s, rfl, hcur⟩
  | ok =>
      have hkept := @enqueueChildren_current env s _ _ hnew
      rw [hcur] at hkept
      simp only [hcur, Bool.not_true, Bool.false_eq_true, if_false]
      cases henq : enqueueChildren env children s with
      | mk result s₁ =>
          rw [henq] at hkept
          cases result with
          | error e => exact .inl ⟨e, s₁, rfl, hkept⟩
          | ok spawned =>
              obtain ⟨recorded, s₂, hfinish⟩ := finishJobRun_completed hkept env.cron wall
              refine .inr ⟨spawned, s₁, recorded, s₂, trivial, rfl, hfinish, ?_⟩
              dsimp only at hfinish ⊢
              rw [hfinish]
              rfl

/-- A stale run's completion is refused or discarded. -/
theorem completeJobRunWithChildren_stale (hstale : runIsCurrent s run = false)
    (children : List Job) (wall : DateTime) :
    (∃ e, completeJobRunWithChildren env s run children wall = (.error e, s)) ∨
      completeJobRunWithChildren env s run children wall = (.ok none, s) := by
  unfold completeJobRunWithChildren
  cases validateDependencyLimits children with
  | error e => exact .inl ⟨e, rfl⟩
  | ok =>
      dsimp only
      rw [hstale]
      exact .inr rfl

/-- A completion after which the job is completed was one of a job that
does not run again. -/
theorem finishGuard_of_completed {cron : CronLibrary} {recorded : RecordedOutcome}
    (h : finishJobRun cron s run .completed wall = (.ok (some recorded), s'))
    (hdone : s'.isJob run.id (·.status = .completed) = true) :
    finishGuard cron s run .completed = some none := by
  have hspec := finishJobRun_spec cron s run .completed wall
  rw [h] at hspec
  cases hspec with
  | completed hcur hnext _ => rw [finishGuard_current hcur, hnext]
  | rerun hcur hnext hr =>
      rw [isJob_iff] at hdone
      obtain ⟨job, hlookup, hst⟩ := hdone
      rw [hr.lookup_self] at hlookup
      obtain rfl := Option.some.inj hlookup
      exact absurd (of_decide_eq_true hst) nofun
  | ended hends => cases hends
  | endedRerun hends => cases hends

end Recording

-- == a worker's step

namespace WorkerRun

variable {display : HammerworkError → String} {queue queue' : TestStorage}
variable {memory memory' : MemoryResultStore} {run run' : WorkerRun} {input : Input}

/-- The phases in which a run has stored its result, if it has one, and
not recorded its outcome. -/
def Phase.Open : Phase → Prop
  | .spawning | .completing _ | .failing _ => True
  | _ => False

/-- The phases in which the next step records an outcome. -/
def Phase.Reports : Phase → Prop
  | .completing _ | .failing _ => True
  | _ => False

/-- What a worker's step does, one case for each. -/
inductive Moves (env : Env) (display : HammerworkError → String) (config : ResultConfig)
    (queue : TestStorage) (memory : MemoryResultStore) :
    WorkerRun → Input → WorkerRun → TestStorage → MemoryResultStore → Prop
  | returned {run : WorkerRun} {data : Option Json} : run.phase = .working →
      Moves env display config queue memory run (.handled (.ok data))
        { run with returned := data, phase := .storing } queue memory
  | failed {run : WorkerRun} {input : Input} {ended : Worker.HandlerEnd} :
      run.phase = .working →
      Moves env display config queue memory run input { run with phase := .failing ended }
        queue memory
  | stored {run : WorkerRun} {now : DateTime} : run.phase = .storing →
      Moves env display config queue memory run (.store now) { run with phase := .spawning }
        (storeResult env config run.job.id run.returned now queue memory).1
        (storeResult env config run.job.id run.returned now queue memory).2
  | spawned {run : WorkerRun} {children : Option (List Job)} : run.phase = .spawning →
      Moves env display config queue memory run (.prepareSpawn (.ok children))
        { run with phase := .completing children } queue memory
  | spawnFailed {run : WorkerRun} {error : String} : run.phase = .spawning →
      Moves env display config queue memory run (.prepareSpawn (.error error))
        { run with phase := .failing (.failure error) } queue memory
  | recorded {run : WorkerRun} {now wall : DateTime} : run.phase.Reports →
      Moves env display config queue memory run (.record now wall)
        { run with
          phase := run.recorded display ((run.recordCall now wall).apply env queue).1 }
        ((run.recordCall now wall).apply env queue).2 memory
  | stopped {run : WorkerRun} :
      Moves env display config queue memory run .stop { run with phase := .finished } queue memory
  | idle {run : WorkerRun} {input : Input} :
      Moves env display config queue memory run input run queue memory

theorem next_moves (h : run.next env display config input queue memory = (run', queue', memory')) :
    Moves env display config queue memory run input run' queue' memory' := by
  unfold next at h
  split at h <;> cases h
  case h_1 hphase => exact .returned hphase
  case h_2 hphase => exact .failed hphase
  case h_3 hphase => exact .failed hphase
  case h_4 hphase => exact .stored hphase
  case h_5 hphase => exact .spawned hphase
  case h_6 hphase => exact .spawnFailed hphase
  case h_7 hphase => exact .recorded (by rw [hphase]; trivial)
  case h_8 hphase => exact .recorded (by rw [hphase]; trivial)
  case h_9 => exact .stopped
  case h_10 => exact .idle

/-- Storing, when it is a run's turn to. -/
theorem next_store (hphase : run.phase = .storing) (now : DateTime) :
    run.next env display config (.store now) queue memory
      = ({ run with phase := .spawning },
          storeResult env config run.job.id run.returned now queue memory) := by
  unfold next
  rw [hphase]

/-- Recording, when it is a run's turn to. -/
theorem next_record (hphase : run.phase.Reports) (now wall : DateTime) :
    run.next env display config (.record now wall) queue memory
      = ({ run with
            phase := run.recorded display ((run.recordCall now wall).apply env queue).1 },
          ((run.recordCall now wall).apply env queue).2, memory) := by
  unfold next
  cases hrun : run.phase with
  | working | storing | spawning | finished => rw [hrun] at hphase; exact hphase.elim
  | completing children => rfl
  | failing ended => rfl

theorem Moves.job (h : Moves env display config queue memory run input run' queue' memory') :
    run'.job = run.job := by
  cases h <;> rfl

end WorkerRun

end Hammerwork
