/-
What becomes of the jobs of a claimed batch.

A job leaves a batch by being processed, by being skipped as its lease was
lost, or by being handed back, as one of a failed batch or to be claimed
again. A step takes the jobs it disposes of out of those that are unsettled
(`next_disposes`), and in the end none is. So a run disposes of every
claimed job, and of no job twice.

The jobs are started from the front of the queue; handing them back empties
it, and nothing fills it again (`next_begins`).
-/
import Hammerwork.Laws.RateTokens

namespace Hammerwork

namespace BatchRun

variable {concurrency : Nat} {s s' : State} {e : Event} {id : JobId}

-- == disposals

/-- What becomes of a claimed job. -/
inductive Disposal where
  | processed
  | skipped
  | failed
  | released
  deriving DecidableEq, Repr

/-- What becomes of the job of a task that goes on. -/
def Phase.disposal (phase : Phase) (progress : Progress) : Option Disposal :=
  match phase, phase.goesOn progress with
  | .failing _, some (none, _) => some .failed
  | .starting, some (none, _) => some .skipped
  | .starting, some (some _, _) => some .processed
  | .ready, some _ => some .processed
  | _, _ => none

/-- What becomes of the job of a task that is cancelled, unless its
processing has begun. -/
def Phase.cancelled : Phase → Option Disposal
  | .failing _ => some .failed
  | .starting => some .processed
  | .ready => some .processed
  | .processing => none

/-- The jobs a step disposes of. -/
def disposals (s : State) : Event → List (JobId × Disposal)
  | .start _ =>
      match s.queued with
      | job :: _ => if job.id ∈ s.lost then [(job.id, .skipped)] else []
      | [] => []
  | .task i progress =>
      match s.running[i]? with
      | some (job, phase) => (phase.disposal progress).toList.map fun how => (job.id, how)
      | none => []
  | .held answer =>
      match s.pc with
      | .handing (job :: _) call _ _ =>
          if (call.answered answer).any fun next => next.1.isNone then [(job.id, .failed)] else []
      | _ => []
  | .released _ =>
      match s.pc with
      | .handing _ _ (job :: _) _ => [(job.id, .released)]
      | _ => []
  | .cancelled => s.running.filterMap fun run => run.2.cancelled.map fun how => (run.1.id, how)
  | _ => []

/-- The jobs a step starts, or skips when their turn comes. -/
def begins (s : State) : Event → List Job
  | .start _ => s.queued.take 1
  | _ => []

/-- A step that hands back all jobs that have not started. -/
def Event.drains : Event → Bool
  | .paused true => true
  | .shutdown => true
  | _ => false

-- == steps

/-- A step that disposes of nothing and starts nothing. -/
theorem unsettled_of_eq (hqueued : s'.queued = s.queued) (hrunning : s'.running = s.running)
    (hhanded : s'.pc.handed = s.pc.handed) (hnone : disposals s e = []) :
    s'.unsettled.count id + ((disposals s e).map Prod.fst).count id = s.unsettled.count id := by
  simp [State.unsettled, hqueued, hrunning, hhanded, hnone]

/-- Handing back disposes of nothing yet. -/
theorem handBack_unsettled (s : State) (after : After) (hpc : s.pc.handed = []) :
    (s.handBack after).unsettled.count id = s.unsettled.count id := by
  have haccounts := @handBack_accounts id s after hpc
  simpa [State.accounted, State.handBack] using haccounts

/-- A job whose turn comes gets a task, or is skipped. -/
theorem startHeld_disposes {job : Job} {queued : List Job} {recent : Bool}
    (hqueued : s.queued = job :: queued) :
    (s.startHeld job queued recent).unsettled.count id
        + ((disposals s (.start recent)).map Prod.fst).count id = s.unsettled.count id := by
  have haccounts := @startHeld_accounts s id _ _ recent hqueued
  unfold disposals
  rw [hqueued]
  dsimp only
  simp only [State.accounted, List.count_append] at haccounts
  unfold State.startHeld at haccounts ⊢
  dsimp only at haccounts ⊢
  split
  case isTrue hlost =>
    simp only [if_pos hlost, State.refundRateToken, List.count_append] at haccounts
    show _ + ([job.id] : List JobId).count id = _
    simp only [State.refundRateToken]
    omega
  case isFalse hlost =>
    simp only [if_neg hlost] at haccounts
    show _ + 0 = _
    omega

/-- The jobs of a task's step. -/
theorem task_disposals {i : Nat} {progress : Progress} {job : Job} {phase : Phase}
    (hrun : s.running[i]? = some (job, phase)) : disposals s (.task i progress) =
      (phase.disposal progress).toList.map fun how => (job.id, how) := by
  simp only [disposals, hrun]

/-- A task disposes of its job as it begins to process it, or ends before. -/
theorem task_disposes {i : Nat} {progress : Progress} (h : s.stepTask i progress = some s') :
    s'.unsettled.count id + ((disposals s (.task i progress)).map Prod.fst).count id
      = s.unsettled.count id := by
  obtain ⟨job, phase, next, hrun, hnext, rfl⟩ := stepTask_cases h
  obtain ⟨hrunning, hset, herase⟩ := split_running hrun
  have hbefore : (unprocessed s.running).count id
      = (unprocessed (s.running.take i)).count id
        + ((if phase ≠ .processing then [job.id] else []).count id
          + (unprocessed (s.running.drop (i + 1))).count id) := by
    conv_lhs => rw [hrunning]
    simp
  simp only [State.unsettled, settleToken_pc, setTask_handed, settleToken_queued,
    settleToken_running, setTask_queued, List.count_append, task_disposals hrun, Phase.disposal,
    hnext]
  rcases Phase.goesOn_cases hnext with ⟨call, rfl, hcall⟩ | ⟨hphase, -, hcase⟩ | ⟨rfl, -, rfl⟩
  · rcases hcall with ⟨rfl, -⟩ | ⟨rfl, -⟩ | ⟨rfl, -⟩
    · simp [State.setTask, hset] at hbefore ⊢
      omega
    · simp [State.setTask, herase] at hbefore ⊢
      omega
    · simp [State.setTask, herase] at hbefore ⊢
      omega
  · rcases hphase with rfl | rfl
    · rcases hcase with rfl | rfl
      · simp [State.setTask, herase] at hbefore ⊢
        omega
      · simp [State.setTask, hset] at hbefore ⊢
        omega
    · rcases hcase with rfl | rfl
      · simp [State.setTask, herase] at hbefore ⊢
        omega
      · simp [State.setTask, hset] at hbefore ⊢
        omega
  · simp [State.setTask, herase] at hbefore ⊢
    omega

/-- Cancelling disposes of all jobs that are about to be processed. -/
theorem cancelled_disposals (s : State) :
    (disposals s .cancelled).map Prod.fst = unprocessed s.running := by
  show (s.running.filterMap _).map Prod.fst = _
  unfold unprocessed
  induction s.running with
  | nil => rfl
  | cons run running ih =>
      obtain ⟨job, phase⟩ := run
      cases phase <;> simp [Phase.cancelled] at ih ⊢ <;> exact ih

/-- A step takes the jobs it disposes of out of the unsettled ones. -/
theorem next_disposes (h : s.next concurrency e = some s') :
    s'.unsettled.count id + ((disposals s e).map Prod.fst).count id = s.unsettled.count id := by
  cases next_moves h with
  | skip hpc | check hpc | batchStatus hpc | unpaused hpc | resumed hpc | drained hpc
  | filled hpc | beat hpc =>
      exact unsettled_of_eq rfl rfl (by simp [hpc, Pc.handed]) rfl
  | heartbeat hpc => exact unsettled_of_eq rfl rfl rfl rfl
  | idle hpc =>
      refine unsettled_of_eq rfl rfl ?_ rfl
      rcases hpc with hpc | hpc <;> simp [hpc, Pc.handed]
  | paused hpc =>
      exact @handBack_unsettled id { s with waiting := [] } .loop (by simp [hpc, Pc.handed])
  | shutdown hpc => exact handBack_unsettled s .drain (by simp [hpc, Pc.handed])
  | start _ hqueued => exact startHeld_disposes hqueued
  | task _ htask => exact task_disposes htask
  | cancelled hpc =>
      rw [cancelled_disposals]
      simp only [State.unsettled, hpc, unprocessed, Pc.handed, List.count_append, List.filter_nil,
        List.map_nil, List.count_nil]
      omega
  | failing hpc hcall =>
      refine unsettled_of_eq rfl rfl (by rw [hpc]; rfl) ?_
      unfold disposals
      rw [hpc]
      simp [hcall]
  | failed hpc hcall =>
      unfold disposals
      rw [hpc]
      simp [State.unsettled, hpc, hcall, List.count_cons]
      omega
  | released hpc =>
      unfold disposals
      rw [hpc]
      simp [State.unsettled, hpc, List.count_cons]
      omega

/-- The jobs are started from the front of the queue, and it is never filled
again. -/
theorem next_begins (h : s.next concurrency e = some s') :
    begins s e ++ s'.queued = s.queued ∨ (begins s e = [] ∧ s'.queued = []) := by
  cases next_moves h with
  | paused | shutdown => exact .inr ⟨rfl, rfl⟩
  | start _ hqueued =>
      left
      show s.queued.take 1 ++ (s.startHeld ..).queued = s.queued
      rw [hqueued]
      unfold State.startHeld
      dsimp only
      split <;> rfl
  | task _ htask =>
      obtain ⟨job, phase, next, -, -, rfl⟩ := stepTask_cases htask
      exact .inl (by simp [begins])
  | _ => exact .inl rfl

/-- Handing back empties the queue. -/
theorem next_drains (h : s.next concurrency e = some s') (hdrains : e.drains) :
    s'.queued = [] := by
  cases next_moves h with
  | paused | shutdown => rfl
  | _ => cases hdrains

/-- No more jobs are in progress than the concurrency allows. -/
theorem next_running (h : s.next concurrency e = some s')
    (hs : s.running.length ≤ concurrency) : s'.running.length ≤ concurrency := by
  cases next_moves h with
  | start _ _ hroom =>
      unfold State.startHeld
      dsimp only
      split
      case isTrue => exact hs
      case isFalse =>
        rw [List.length_append]
        exact hroom
  | task _ htask =>
      obtain ⟨job, phase, next, hrun, -, rfl⟩ := stepTask_cases htask
      rw [settleToken_running]
      cases next.1 with
      | some phase =>
          rw [State.setTask, List.length_set]
          exact hs
      | none => exact Nat.le_trans (List.length_eraseIdx_le ..) hs
  | cancelled => exact Nat.zero_le _
  | _ => exact hs

-- == runs

/-- What became of the jobs in the first steps of a run. -/
def disposed {len : Nat} (r : Run (Step concurrency) len) : Nat → List (JobId × Disposal) :=
  r.collect disposals

/-- The jobs the first steps of a run started, in order. -/
def begun {len : Nat} (r : Run (Step concurrency) len) : Nat → List Job :=
  r.collect begins

/-- The jobs that were disposed of are those that are unsettled no more. -/
theorem run_disposes {len : Nat} (r : Run (Step concurrency) len) :
    ∀ i ≤ len, ((disposed r i).map Prod.fst ++ (r.state i).unsettled).Perm
      (r.state 0).unsettled := by
  intro i hi
  have hstep : ∀ s e s', Step concurrency s e s' →
      ((disposals s e).map Prod.fst ++ s'.unsettled).Perm s.unsettled := by
    intro s e s' h
    refine List.perm_iff_count.2 fun id => ?_
    have hcount := @next_disposes _ _ _ _ id h
    rw [List.count_append]
    omega
  rw [disposed, Run.map_collect]
  exact r.collect_perm hstep i hi

/-- The jobs that were started are the first of the claimed ones. -/
theorem run_begins {len : Nat} (r : Run (Step concurrency) len) :
    ∀ i ≤ len, begun r i ++ (r.state i).queued <+: (r.state 0).queued := by
  intro i
  induction i with
  | zero => intro _; exact List.prefix_rfl
  | succ i ih =>
      intro hi
      have hbefore := ih (by omega)
      show (begun r i ++ begins _ _) ++ _ <+: _
      rcases next_begins (r.next i hi) with hmoved | ⟨hnone, hempty⟩
      · rw [List.append_assoc, hmoved]
        exact hbefore
      · rw [hnone, hempty, List.append_nil, List.append_nil]
        exact (List.prefix_append _ _).trans hbefore

/-- Once the queue was emptied no job is started. -/
theorem run_drained {len : Nat} (r : Run (Step concurrency) len) {i j : Nat} (hi : i < len)
    (hdrains : (r.event i).drains) (hij : i < j) (hj : j < len) :
    begins (r.state j) (r.event j) = [] := by
  have hempty : (r.state j).queued = [] := by
    refine r.stable (P := fun s => s.queued = []) (next_drains (r.next i hi) hdrains)
      (fun k _ _ hstep hk => ?_) j hij (by omega)
    rcases next_begins hstep with hmoved | ⟨-, hempty⟩
    · rw [hk] at hmoved
      exact (List.append_eq_nil_iff.1 hmoved).2
    · exact hempty
  unfold begins
  split
  · rw [hempty]
    rfl
  · rfl

/-- What is recorded of something that has one record. -/
theorem filter_of_nodup {α β : Type} [DecidableEq α] {records : List (α × β)} {a : α}
    (hnodup : (records.map Prod.fst).Nodup) (ha : a ∈ records.map Prod.fst) :
    ∃ b, records.filter (fun record => record.1 = a) = [(a, b)] := by
  have hone : (records.filter fun record => record.1 = a).length = 1 := by
    rw [← List.countP_eq_length_filter, ← List.count_eq_one_of_mem hnodup ha, List.count,
      List.countP_map]
    exact List.countP_congr fun record _ => by simp
  obtain ⟨⟨a', b⟩, hrecord⟩ := List.length_eq_one_iff.1 hone
  have hmem : (a', b) ∈ records.filter fun record => record.1 = a := by
    rw [hrecord]
    exact List.mem_singleton.2 rfl
  obtain rfl : a' = a := by simpa using (List.mem_filter.1 hmem).2
  exact ⟨b, hrecord⟩

/-- When a batch is over, each of its jobs was disposed of in one way, and
once. The jobs in progress are never more than the concurrency, they were
started in the order they were claimed in, and none is started after the
waiting ones were handed back. -/
theorem jobs_disposed_once {len capacity batchConcurrency : Nat} {free : List Bool}
    {claimed : List Job} (r : Run (Step (max batchConcurrency 1)) len)
    (hstart : r.state 0 = acquireBatch capacity free claimed)
    (hdistinct : (claimed.map (·.id)).Nodup) :
    ((r.state len).pc = .ended →
      (∀ job ∈ claimed, ∃ how,
        (disposed r len).filter (fun record => record.1 = job.id) = [(job.id, how)]) ∧
      ∀ record ∈ disposed r len, ∃ job ∈ claimed, job.id = record.1) ∧
    (∀ i ≤ len, (r.state i).running.length ≤ max batchConcurrency 1) ∧
    begun r len <+: claimed ∧
    ∀ i j, i < j → j < len → (r.event i).drains → begins (r.state j) (r.event j) = [] := by
  have hpos : 0 < max batchConcurrency 1 := by omega
  have hfirst : (r.state 0).unsettled = claimed.map (·.id) := by
    rw [hstart]
    unfold acquireBatch State.unsettled
    cases claimed <;> simp [unprocessed, Pc.handed]
  refine ⟨fun hended => ?_, fun i hi => ?_, ?_, fun i j hij hj hdrains => ?_⟩
  · have hcleared : Cleared (max batchConcurrency 1) (r.state len) := by
      refine r.invariant ?_ (fun s e s' hstep hs => next_cleared hstep hpos hs) len
        (Nat.le_refl _)
      rw [hstart]
      unfold Cleared acquireBatch
      cases claimed <;> simp
    have hperm := run_disposes r len (Nat.le_refl _)
    rw [unsettled_ended hcleared hended, List.append_nil, hfirst] at hperm
    refine ⟨fun job hjob => ?_, fun record hrecord => ?_⟩
    · exact filter_of_nodup (hperm.nodup_iff.2 hdistinct)
        (hperm.mem_iff.2 (List.mem_map_of_mem hjob))
    · exact List.mem_map.1 (hperm.mem_iff.1 (List.mem_map_of_mem hrecord))
  · refine r.invariant ?_ (fun s e s' hstep hs => next_running hstep hs) i hi
    rw [hstart]
    exact Nat.zero_le _
  · have hbegun := (List.prefix_append _ _).trans (run_begins r len (Nat.le_refl _))
    rw [hstart] at hbegun
    exact hbegun
  · exact run_drained r (by omega) hdrains hij hj

/-- Two jobs, one processed and the other handed back as the worker shuts
down. -/
theorem jobs_disposed_once_two :
    ∃ how, (disposed (plainBatch [heldJob 1, heldJob 2] oneLost (by decide)) 9).filter
      (fun record => record.1 = 2) = [(2, how)] :=
  ((jobs_disposed_once (plainBatch [heldJob 1, heldJob 2] oneLost (by decide)) rfl
    (by decide)).1 rfl).1 (heldJob 2) (by simp)

end BatchRun

end Hammerwork
