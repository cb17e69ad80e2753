/-
What one step of a batch does.

`Moves` lists the steps of a claimed batch, each with where the worker was
and what is left (`next_moves`); a task's step is one of a few changes of
its phase (`stepTask_cases`, `Phase.goesOn_cases`). The laws of batches
argue about these lists and never open the step function again.

Two facts they share stand here too: which jobs are `unsettled`, and that
none is once the batch is over (`next_cleared`, `unsettled_ended`).
-/
import Hammerwork.Batch
import Mathlib.Data.List.TakeDrop

namespace Hammerwork

namespace BatchRun

variable {concurrency : Nat} {s s' : State} {e : Event}

-- == tasks

/-- Where a task is in the list of tasks. -/
theorem split_running {running : List (Job × Phase)} {i : Nat} {run : Job × Phase}
    (h : running[i]? = some run) :
    running = running.take i ++ run :: running.drop (i + 1) ∧
      (∀ run', running.set i run' = running.take i ++ run' :: running.drop (i + 1)) ∧
      running.eraseIdx i = running.take i ++ running.drop (i + 1) := by
  obtain ⟨hi, hrun⟩ := List.getElem?_eq_some_iff.1 h
  refine ⟨?_, fun run' => ?_, List.eraseIdx_eq_take_drop_succ ..⟩
  · rw [← hrun, List.getElem_cons_drop, List.take_append_drop]
  · exact List.set_eq_take_append_cons_drop .. |>.trans (if_pos hi)

/-- What a task's step does with its token. -/
theorem Phase.goesOn_cases {phase : Phase} {progress : Progress} {next : Option Phase × Token}
    (h : phase.goesOn progress = some next) :
    (∃ call, phase = .failing call ∧
        ((next = (some (.failing .fail), .held) ∧ progress ≠ .held (.failed .error)) ∨
          (next = (none, .refunded) ∧ progress ≠ .held (.failed .error)) ∨
          (next = (none, .held) ∧ progress = .held (.failed .error)))) ∨
      ((phase = .starting ∨ phase = .ready) ∧ progress ≠ .held (.failed .error) ∧
        (next = (none, .refunded) ∨ next = (some .processing, .used))) ∨
      (phase = .processing ∧ progress = .finished ∧ next = (none, .held)) := by
  cases phase with
  | failing call =>
      cases progress with
      | held answer =>
          left
          refine ⟨call, rfl, ?_⟩
          cases call <;> cases answer with
          | renewed answer => cases answer <;> simp_all [goesOn, HeldCall.answered]
          | failed answer => cases answer <;> simp_all [goesOn, HeldCall.answered]
      | _ => cases h
  | starting =>
      cases progress with
      | recorded answer => cases answer <;> simp_all [goesOn]
      | _ => cases h
  | ready => cases progress <;> simp_all [goesOn]
  | processing => cases progress <;> simp_all [goesOn]

/-- The answer to a call of `fail_held_job`. -/
theorem HeldCall.answered_cases {call : HeldCall} {answer : HeldAnswer}
    {next : Option HeldCall × Bool} (h : call.answered answer = some next) :
    (next = (some .fail, false) ∧ answer ≠ .failed .error) ∨
      (next = (none, true) ∧ answer ≠ .failed .error) ∨
      (next = (none, false) ∧ call = .fail ∧ answer = .failed .error) := by
  cases call <;> cases answer with
  | renewed answer => cases answer <;> simp_all [answered]
  | failed answer => cases answer <;> simp_all [answered]

/-- A task's step changes its phase, or ends it. -/
theorem stepTask_cases {i : Nat} {progress : Progress} (h : s.stepTask i progress = some s') :
    ∃ job phase next, s.running[i]? = some (job, phase) ∧ phase.goesOn progress = some next ∧
      s' = (s.setTask i job next.1).settleToken job next.2 := by
  unfold State.stepTask at h
  split at h
  case h_1 => cases h
  case h_2 job phase hrun =>
    obtain ⟨next, hnext, rfl⟩ := Option.map_eq_some_iff.1 h
    exact ⟨job, phase, next, hrun, hnext, rfl⟩

variable (s) (i : Nat) (job : Job) (token : Token)

@[simp] theorem setTask_queued (phase : Option Phase) :
    (s.setTask i job phase).queued = s.queued := by
  cases phase <;> rfl

@[simp] theorem setTask_taken (phase : Option Phase) :
    (s.setTask i job phase).taken = s.taken := by
  cases phase <;> rfl

@[simp] theorem setTask_returned (phase : Option Phase) :
    (s.setTask i job phase).returned = s.returned := by
  cases phase <;> rfl

@[simp] theorem setTask_waiting (phase : Option Phase) :
    (s.setTask i job phase).waiting = s.waiting := by
  cases phase <;> rfl

@[simp] theorem setTask_round (phase : Option Phase) :
    (s.setTask i job phase).round = s.round := by
  cases phase <;> rfl

@[simp] theorem settleToken_queued : (s.settleToken job token).queued = s.queued := by
  cases token <;> rfl

@[simp] theorem settleToken_waiting : (s.settleToken job token).waiting = s.waiting := by
  cases token <;> rfl

@[simp] theorem settleToken_round : (s.settleToken job token).round = s.round := by
  cases token <;> rfl

@[simp] theorem settleToken_pc : (s.settleToken job token).pc = s.pc := by
  cases token <;> rfl

@[simp] theorem settleToken_running : (s.settleToken job token).running = s.running := by
  cases token <;> rfl

@[simp] theorem settleToken_taken : (s.settleToken job token).taken = s.taken := by
  cases token <;> rfl

@[simp] theorem settleToken_returned : (s.settleToken job token).returned = s.returned := by
  cases token <;> rfl

variable {s i job token}

-- == steps

/-- The steps of a batch. -/
inductive Moves (concurrency : Nat) (s : State) : Event → State → Prop where
  | skip : s.pc = .top → Moves concurrency s .skip { s with pc := .filling }
  | check : s.pc = .top → Moves concurrency s .check
      { s with pc := .asking (unsettledBatches s.queued s.failedBatches) }
  | batchStatus {id : BatchId} {ids : List BatchId} {failed : Bool} :
      s.pc = .asking (id :: ids) →
      Moves concurrency s (.batchStatus failed)
        { s with
          pc := .asking ids
          failedBatches := if failed then id :: s.failedBatches else s.failedBatches }
  | paused : s.pc = .asking [] →
      Moves concurrency s (.paused true) ({ s with waiting := [] }.handBack .loop)
  | unpaused : s.pc = .asking [] → Moves concurrency s (.paused false) { s with pc := .filling }
  | failing {job : Job} {doomed released : List Job} {call call' : HeldCall} {after : After}
      {answer : HeldAnswer} : s.pc = .handing (job :: doomed) call released after →
      call.answered answer = some (some call', false) →
      Moves concurrency s (.held answer)
        { s with pc := .handing (job :: doomed) call' released after }
  | failed {job : Job} {doomed released : List Job} {call : HeldCall} {after : After}
      {answer : HeldAnswer} {refund : Bool} : s.pc = .handing (job :: doomed) call released after →
      call.answered answer = some (none, refund) →
      Moves concurrency s (.held answer)
        { s with
          pc := .handing doomed .renew released after
          refunded := if refund then s.refunded ++ [job.id] else s.refunded }
  | released {job : Job} {released : List Job} {call : HeldCall} {after : After}
      {answer : Answer} : s.pc = .handing [] call (job :: released) after →
      Moves concurrency s (.released answer)
        { s with
          pc := .handing [] call released after
          refunded := if answer = .yes then s.refunded ++ [job.id] else s.refunded }
  | resumed {call : HeldCall} : s.pc = .handing [] call [] .loop →
      Moves concurrency s .handed { s with pc := .filling }
  | drained {call : HeldCall} : s.pc = .handing [] call [] .drain →
      Moves concurrency s .handed { s with pc := .draining }
  | start {job : Job} {queued : List Job} {recent : Bool} : s.pc = .filling →
      s.queued = job :: queued → s.running.length < concurrency →
      Moves concurrency s (.start recent) (s.startHeld job queued recent)
  | filled : s.pc = .filling → ¬ (s.running.length < concurrency ∧ s.queued ≠ []) →
      Moves concurrency s .filled { s with pc := .selecting, initialFill := false }
  | task {i : Nat} {progress : Progress} {s' : State} : s.pc = .selecting ∨ s.pc = .draining →
      s.stepTask i progress = some s' → Moves concurrency s (.task i progress) s'
  | beat : s.pc = .selecting → s.round = [] →
      Moves concurrency s .beat { s with round := s.waiting }
  | heartbeat {run : Job} {round : List Job} {answer : Answer} : s.pc = .selecting →
      s.round = run :: round →
      Moves concurrency s (.heartbeat answer)
        { s with
          round := round
          waiting := if answer = .no then s.waiting.filter fun waiting => waiting.id ≠ run.id
            else s.waiting
          lost := if answer = .no then run.id :: s.lost else s.lost }
  | shutdown : s.pc = .selecting → Moves concurrency s .shutdown (s.handBack .drain)
  | idle : s.pc = .selecting ∨ s.pc = .draining → s.running = [] →
      Moves concurrency s .idle { s with pc := .ended }
  | cancelled : s.pc = .draining →
      Moves concurrency s .cancelled { s with pc := .ended, running := [] }

/-- A step is one of the list. -/
theorem next_moves (h : s.next concurrency e = some s') : Moves concurrency s e s' := by
  unfold State.next at h
  split at h
  case h_1 hpc => cases h; exact .skip hpc
  case h_2 hpc => split at h <;> cases h; exact .check hpc
  case h_3 hpc => cases h; exact .batchStatus hpc
  case h_4 hpc => cases h; exact .paused hpc
  case h_5 hpc => cases h; exact .unpaused hpc
  case h_6 hpc =>
    obtain ⟨next, hnext, rfl⟩ := Option.map_eq_some_iff.1 h
    rcases HeldCall.answered_cases hnext with ⟨rfl, -⟩ | ⟨rfl, -⟩ | ⟨rfl, -, -⟩
    · exact .failing hpc hnext
    · exact .failed hpc hnext
    · exact .failed hpc hnext
  case h_7 answer hpc =>
    cases h
    cases answer <;> exact .released hpc
  case h_8 hpc => cases h; exact .resumed hpc
  case h_9 hpc => cases h; exact .drained hpc
  case h_10 hpc =>
    split at h
    case h_1 => cases h
    case h_2 hqueued =>
      split at h <;> cases h
      case isTrue hroom => exact .start hpc hqueued hroom
  case h_11 hpc =>
    split at h <;> cases h
    case isFalse hfull => exact .filled hpc hfull
  case h_12 hpc => exact .task (.inl hpc) h
  case h_13 hpc =>
    split at h <;> cases h
    case isTrue hround => exact .beat hpc (List.isEmpty_iff.1 hround)
  case h_14 answer hpc =>
    split at h
    case h_1 => cases h
    case h_2 hround =>
      cases h
      cases answer <;> exact .heartbeat hpc hround
  case h_15 hpc => cases h; exact .shutdown hpc
  case h_16 hpc =>
    split at h <;> cases h
    case isTrue hidle => exact .idle (.inl hpc) (List.isEmpty_iff.1 hidle)
  case h_17 hpc => exact .task (.inr hpc) h
  case h_18 hpc =>
    split at h <;> cases h
    case isTrue hidle => exact .idle (.inr hpc) (List.isEmpty_iff.1 hidle)
  case h_19 hpc => cases h; exact .cancelled hpc
  case h_20 => cases h

-- == unsettled

/-- The jobs whose task has not come to processing, or to its end. -/
def unprocessed (running : List (Job × Phase)) : List JobId :=
  (running.filter fun run => run.2 ≠ .processing).map fun run => run.1.id

/-- The jobs that are handed back. -/
def Pc.handed : Pc → List JobId
  | .handing doomed _ released _ => (doomed ++ released).map (·.id)
  | _ => []

/-- The claimed jobs that have not been disposed of: they wait, are about to
be processed, or are being handed back. -/
def State.unsettled (s : State) : List JobId :=
  s.queued.map (·.id) ++ (unprocessed s.running ++ s.pc.handed)

variable {id : JobId}

@[simp] theorem count_unprocessed_append (xs ys : List (Job × Phase)) :
    (unprocessed (xs ++ ys)).count id = (unprocessed xs).count id + (unprocessed ys).count id := by
  simp [unprocessed]

@[simp] theorem count_unprocessed_cons (run : Job × Phase) (runs : List (Job × Phase)) :
    (unprocessed (run :: runs)).count id
      = (if run.2 ≠ .processing then [run.1.id] else []).count id
        + (unprocessed runs).count id := by
  unfold unprocessed
  rw [List.filter_cons]
  split
  case isTrue h =>
    rw [if_pos (by simpa using h), List.map_cons, ← List.singleton_append, List.count_append]
  case isFalse h =>
    rw [if_neg (by simpa using h)]
    simp

@[simp] theorem handed_handing (ds rs : List Job) (call : HeldCall) (after : After) :
    (Pc.handing ds call rs after).handed = (ds ++ rs).map (·.id) := rfl

/-- A task's step hands nothing back. -/
@[simp] theorem setTask_handed (s : State) (i : Nat) (job : Job) (phase : Option Phase) :
    (s.setTask i job phase).pc.handed = s.pc.handed := by
  cases phase with
  | some phase => rfl
  | none =>
      unfold State.setTask
      cases s.pc <;> rfl

-- == cleared

/-- Where no job is left waiting: the worker hands them back, has shut
down, is done, or has no room to start another. -/
def Cleared (concurrency : Nat) (s : State) : Prop :=
  match s.pc with
  | .handing .. | .draining => s.queued = []
  | .ended => s.queued = [] ∧ s.running = []
  | .selecting => s.running.length < concurrency → s.queued = []
  | _ => True

/-- A task's step leaves the waiting jobs alone, and its worker where it
is while the tasks are as many. -/
theorem stepTask_loop {i : Nat} {progress : Progress} (h : s.stepTask i progress = some s') :
    s'.queued = s.queued ∧
      (s'.pc = s.pc ∧ (s.pc = .selecting → s'.running.length = s.running.length) ∨
        s.pc = .selecting ∧ s'.pc = .top) := by
  obtain ⟨job, phase, next, -, -, rfl⟩ := stepTask_cases h
  refine ⟨by simp, ?_⟩
  rw [settleToken_pc, settleToken_running]
  cases next.1 with
  | some phase => exact .inl ⟨rfl, fun _ => List.length_set ..⟩
  | none =>
      unfold State.setTask
      cases hs : s.pc <;> simp

theorem next_cleared (h : s.next concurrency e = some s') (hpos : 0 < concurrency)
    (hs : Cleared concurrency s) : Cleared concurrency s' := by
  unfold Cleared at hs
  cases next_moves h with
  | skip | check | batchStatus | unpaused | resumed => trivial
  | paused | shutdown => rfl
  | failing hpc | failed hpc | released hpc | drained hpc | beat hpc | heartbeat hpc =>
      rw [hpc] at hs
      unfold Cleared
      simpa [hpc] using hs
  | start hpc =>
      unfold State.startHeld
      dsimp only
      split <;> (unfold Cleared; simp [State.refundRateToken, hpc])
  | filled _ hfull =>
      intro hlen
      exact Classical.byContradiction fun hqueued => hfull ⟨hlen, hqueued⟩
  | task hpc htask =>
      obtain ⟨hqueued, ⟨hsame, hlength⟩ | ⟨-, htop⟩⟩ := stepTask_loop htask
      · unfold Cleared
        rw [hsame, hqueued]
        rcases hpc with hpc | hpc
        · rw [hpc] at hs ⊢
          rw [hlength hpc]
          exact hs
        · rw [hpc] at hs ⊢
          exact hs
      · unfold Cleared
        rw [htop]
        trivial
  | idle hpc hidle =>
      refine ⟨?_, hidle⟩
      rcases hpc with hpc | hpc
      · rw [hpc] at hs
        exact hs (by rw [hidle]; exact hpos)
      · rw [hpc] at hs
        exact hs
  | cancelled hpc =>
      rw [hpc] at hs
      exact ⟨hs, rfl⟩

/-- A batch that is over has nothing unsettled. -/
theorem unsettled_ended (hs : Cleared concurrency s) (hpc : s.pc = .ended) : s.unsettled = [] := by
  unfold Cleared at hs
  rw [hpc] at hs
  unfold State.unsettled
  rw [hs.1, hs.2, hpc]
  rfl

end BatchRun

end Hammerwork
