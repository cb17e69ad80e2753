/-
What the supervisor of a worker pool keeps, over every order of events.

- `Supervised.scaled`: a desired count is the number of active slots of
  the template's queue right after it was applied; slots of other queues
  are never retired.
- `Supervised.oneTask`: a slot has at most one task that has not ended,
  and it is the one the slot's sender sends to, so a slot is taken again
  only after its task ended.
- `Supervised.restarted`: the task of a slot that is not retired is
  started again when it ends.
- `Supervised.told`, `noneStarted`, `returned`: after a shutdown request
  every task still running has been told to stop, none is started, and
  the supervisor returns once all have ended.

All of it is read off `Supervising`, which every step keeps.
-/
import Hammerwork.Proofs.Pool

namespace Hammerwork

namespace Pool

namespace Supervisor

variable {W : Type} {queueName : W → String} {s s' : Supervisor W} {move : Move} {n : Nat}

-- == statement

/-- What a run of the supervisor keeps. -/
structure Supervised {n : Nat} (queueName : W → String) (r : Run (Step (W := W) queueName) n) :
    Prop where
  /-- The desired count is met right after it was applied. -/
  scaled : ∀ i < n, ∀ d desired template, r.event i = .takeDesired →
    (r.state i).desired = some d → d.pending = some desired →
    (r.state i).template = some template →
    ((r.state (i + 1)).active queueName template).length = desired
  /-- Only slots of the template's queue are retired. -/
  retired : ∀ i ≤ n, ∀ slot ∈ (r.state i).slots, slot.retired = true →
    ∃ template, (r.state i).template = some template ∧
      queueName slot.template = queueName template
  /-- A slot has at most one task that has not ended. -/
  oneTask : ∀ i ≤ n, ∀ (t t' : TaskId) (task task' : Task W),
    (r.state i).tasks[t]? = some task →
    (r.state i).tasks[t']? = some task' → task.ended = none → task'.ended = none →
    task.index = task'.index → t = t'
  /-- A task that has not ended is the one its slot's sender sends to. -/
  current : ∀ i ≤ n, ∀ (t : TaskId) (task : Task W), (r.state i).tasks[t]? = some task →
    task.ended = none → ∃ slot, (r.state i).slots[task.index]? = some slot ∧ slot.sender = t
  /-- A message goes to a task that is the current one of its slot. -/
  sent : ∀ i < n, ∀ (t : TaskId) (task task' : Task W), (r.state i).tasks[t]? = some task →
    (r.state (i + 1)).tasks[t]? = some task' → task.mailbox = false → task'.mailbox = true →
    ∃ slot, (r.state i).slots[task.index]? = some slot ∧ slot.sender = t
  /-- A slot is taken again only after its task ended. -/
  reused : ∀ i < n, ∀ (j : Nat) (slot slot' : Slot W), (r.state i).slots[j]? = some slot →
    (r.state (i + 1)).slots[j]? = some slot' → slot'.sender ≠ slot.sender →
    ∃ task, (r.state i).tasks[slot.sender]? = some task ∧ task.ended.isSome = true
  /-- Until a shutdown request, a slot that is not retired has a task of
  its worker, running or about to be joined. -/
  running : ∀ i ≤ n, (r.state i).shuttingDown = false → ∀ (j : Nat) (slot : Slot W),
    (r.state i).slots[j]? = some slot → slot.retired = false →
    ∃ task, (r.state i).tasks[slot.sender]? = some task ∧ task.index = j ∧
      task.worker = slot.template ∧ task.joined = false
  /-- When such a task is joined its worker is started again. -/
  restarted : ∀ i < n, ∀ (t : TaskId) (task : Task W) (slot : Slot W),
    r.event i = .takeJoined t → (r.state i).shuttingDown = false →
    (r.state i).tasks[t]? = some task → (r.state i).slots[task.index]? = some slot →
    slot.retired = false →
    ∃ slot', (r.state (i + 1)).slots[task.index]? = some slot' ∧
      slot'.retired = false ∧ slot'.sender = (r.state i).tasks.length ∧
      (r.state (i + 1)).tasks[slot'.sender]? = some
        ⟨task.index, slot.template, some workerRestartDelay, false, false, none, false⟩
  /-- After the shutdown request every task still running has been told
  to stop. -/
  told : ∀ i ≤ n, (r.state i).shuttingDown = true → ∀ (t : TaskId) (task : Task W),
    (r.state i).tasks[t]? = some task → task.ended = none → task.told = true
  /-- After it no task is started, and it is not taken back. -/
  noneStarted : ∀ i < n, (r.state i).shuttingDown = true →
    (r.state (i + 1)).shuttingDown = true ∧
      (r.state (i + 1)).tasks.length = (r.state i).tasks.length
  /-- The supervisor returns after a shutdown request, once every task
  has ended. -/
  returned : ∀ i ≤ n, (r.state i).returned = true → (r.state i).shuttingDown = true ∧
    ∀ task ∈ (r.state i).tasks, task.ended.isSome = true

-- == steps

/-- What a move needs and what it leaves. -/
inductive Moves (queueName : W → String) (s : Supervisor W) : Move → Supervisor W → Prop
  | publish (desired : Nat) : Moves queueName s (.publish desired)
      { s with desired := s.desired.map fun d => { d with pending := some desired } }
  | stopScaling : Moves queueName s .stopScaling
      { s with desired := s.desired.map fun d => { d with closed := true } }
  | request : Moves queueName s .request { s with signal := true }
  | receive {t : TaskId} {task : Task W} : s.tasks[t]? = some task →
      Moves queueName s (.receive t)
        { s with tasks := s.tasks.set t { task with mailbox := false } }
  | finish {t : TaskId} {task : Task W} (e : TaskEnd) : s.tasks[t]? = some task →
      task.ended = none →
      Moves queueName s (.finish t e)
        { s with tasks := s.tasks.set t { task with ended := some e } }
  | takeSignal : s.shuttingDown = false → s.returned = false →
      Moves queueName s .takeSignal { s with shuttingDown := true }.stopAll
  | scaled {d : Desired} {desired : Nat} {template : W} : s.shuttingDown = false →
      s.returned = false → s.desired = some d → d.pending = some desired →
      s.template = some template →
      Moves queueName s .takeDesired
        ({ s with desired := some { d with pending := none } }.scale queueName template desired)
  | unscaled : (∀ d desired template, s.desired = some d → d.pending = some desired →
        s.template ≠ some template) →
      Moves queueName s .takeDesired { s with desired := none }
  | joined {t : TaskId} {task : Task W} {e : TaskEnd} : s.tasks[t]? = some task →
      task.ended = some e → task.joined = false → s.returned = false →
      Moves queueName s (.takeJoined t)
        (taskEnded { s with tasks := s.tasks.set t { task with joined := true } } task.index e)
  | left : s.tasks.all (·.joined) = true → s.returned = false →
      Moves queueName s .leave { s with returned := true }

theorem Step.moves (h : Step queueName s move s') : Moves queueName s move s' := by
  unfold Step next at h
  cases move with
  | publish desired =>
      cases h
      exact .publish desired
  | stopScaling =>
      cases h
      exact .stopScaling
  | request =>
      cases h
      exact .request
  | receive t =>
      dsimp only at h
      split at h
      · cases h
      · next task htask =>
          split at h
          · cases h
            exact .receive htask
          · cases h
  | finish t e =>
      dsimp only at h
      split at h
      · cases h
      · next task htask =>
          split at h
          · next hend =>
              cases h
              exact .finish e htask (Option.isNone_iff_eq_none.1 hend)
          · cases h
  | takeSignal =>
      dsimp only at h
      split at h
      · next hcond =>
          cases h
          simp only [Bool.and_eq_true, Bool.not_eq_true'] at hcond
          exact .takeSignal hcond.1.2 hcond.2
      · cases h
  | takeDesired =>
      dsimp only at h
      split at h
      · cases h
      · next hcond =>
          simp only [Bool.or_eq_true, not_or, Bool.not_eq_true] at hcond
          split at h
          · cases h
          · next d hd =>
              split at h
              · next desired template hpending htemplate =>
                  cases h
                  exact .scaled hcond.1 hcond.2 hd hpending htemplate
              · next htemplate =>
                  cases h
                  exact .unscaled fun _ _ _ _ _ heq => absurd (htemplate.symm.trans heq) nofun
              · next hpending =>
                  split at h
                  · cases h
                    refine .unscaled fun d' _ _ hd' hpending' _ => ?_
                    obtain rfl := Option.some.inj (hd.symm.trans hd')
                    exact absurd (hpending.symm.trans hpending') nofun
                  · cases h
  | takeJoined t =>
      dsimp only at h
      split at h
      · cases h
      · next task htask =>
          split at h
          · cases h
          · next e hend =>
              split at h
              · cases h
              · next hcond =>
                  cases h
                  simp only [Bool.or_eq_true, not_or, Bool.not_eq_true] at hcond
                  exact .joined htask hend hcond.1 hcond.2
  | leave =>
      dsimp only at h
      split at h
      · next hcond =>
          cases h
          simp only [Bool.and_eq_true, Bool.not_eq_true'] at hcond
          exact .left hcond.1 hcond.2
      · cases h

-- == the invariant

/-- The invariant of the supervisor. -/
structure Supervising (queueName : W → String) (s : Supervisor W) : Prop where
  tidy : s.Tidy queueName
  runs : s.shuttingDown = false → s.RunsAll
  /-- Until a shutdown request some slot is not retired. -/
  alive : s.shuttingDown = false → ∃ slot ∈ s.slots, slot.retired = false
  /-- Every count published is at least one. -/
  wanted : ∀ {d : Desired} {desired : Nat}, s.desired = some d → d.pending = some desired →
    1 ≤ desired
  done : s.returned = true → s.shuttingDown = true ∧ ∀ task ∈ s.tasks, task.joined = true

/-- A new supervisor has it. -/
theorem start_supervising {workers : List W} (hne : workers ≠ []) (template : Option W)
    (signal : Bool) : Supervising queueName (start workers template signal) := by
  obtain ⟨htidy, hruns⟩ := @start_tidy W queueName workers template signal
  have hquiet : ∀ {d : Desired} {desired : Nat},
      template.map (fun _ => (⟨none, false⟩ : Desired)) = some d → d.pending = some desired →
      1 ≤ desired := by
    intro d desired hd hpending
    obtain ⟨_, -, rfl⟩ := Option.map_eq_some_iff.1 hd
    cases hpending
  cases signal with
  | true =>
      refine ⟨htidy, fun hup => ?_, fun hup => ?_, fun hd => ?_, fun hreturned => ?_⟩
      · exact absurd (((stopAll_mailed _).shuttingDown).symm.trans hup) nofun
      · exact absurd (((stopAll_mailed _).shuttingDown).symm.trans hup) nofun
      · exact hquiet ((stopAll_mailed _).desired.symm.trans hd)
      · exact absurd (((stopAll_mailed _).returned).symm.trans hreturned) nofun
  | false =>
      refine ⟨htidy, fun _ => hruns rfl, fun _ => ?_, hquiet, nofun⟩
      obtain ⟨w, workers, rfl⟩ := List.exists_cons_of_ne_nil hne
      exact ⟨⟨w, 0, false, false⟩, List.mem_cons_self .., rfl⟩

theorem all_joined_set {t : TaskId} {task task' : Task W} (htask : s.tasks[t]? = some task)
    (hjoined : task'.joined = task.joined) (hall : ∀ task ∈ s.tasks, task.joined = true) :
    ∀ x ∈ s.tasks.set t task', x.joined = true := by
  intro x hx
  rcases List.mem_or_eq_of_mem_set hx with hold | rfl
  · exact hall x hold
  · exact hjoined.trans (hall task (List.mem_of_getElem? htask))

/-- Every step keeps it, if the counts published are at least one. -/
theorem Step.supervising (h : Step queueName s move s')
    (hpublish : ∀ desired, move = .publish desired → 1 ≤ desired)
    (hs : Supervising queueName s) : Supervising queueName s' := by
  cases h.moves with
  | publish desired =>
      refine ⟨{ hs.tidy with }, hs.runs, hs.alive, fun hd hpending => ?_, hs.done⟩
      obtain ⟨d₀, -, rfl⟩ := Option.map_eq_some_iff.1 hd
      obtain rfl := Option.some.inj hpending
      exact hpublish desired rfl
  | stopScaling =>
      refine ⟨{ hs.tidy with }, hs.runs, hs.alive, fun hd hpending => ?_, hs.done⟩
      obtain ⟨d₀, hd₀, rfl⟩ := Option.map_eq_some_iff.1 hd
      exact hs.wanted hd₀ hpending
  | request => exact ⟨{ hs.tidy with }, hs.runs, hs.alive, hs.wanted, hs.done⟩
  | @receive t task htask =>
      have hended : task.joined = true → task.ended.isSome = true := hs.tidy.ended htask
      have hmoved : Task.Moved task { task with mailbox := false } :=
        ⟨rfl, rfl, rfl, fun h => absurd h Bool.false_ne_true, id, id, hended⟩
      refine ⟨hs.tidy.moved htask hmoved, fun hup => (hs.runs hup).moved htask rfl,
        hs.alive, hs.wanted, fun hreturned => ?_⟩
      exact ⟨(hs.done hreturned).1, all_joined_set htask rfl (hs.done hreturned).2⟩
  | @finish t task e htask hend =>
      have hmoved : Task.Moved task { task with ended := some e } :=
        ⟨rfl, rfl, rfl, id, id, fun _ => rfl, fun _ => rfl⟩
      refine ⟨hs.tidy.moved htask hmoved, fun hup => (hs.runs hup).moved htask rfl,
        hs.alive, hs.wanted, fun hreturned => ?_⟩
      exact ⟨(hs.done hreturned).1, all_joined_set htask rfl (hs.done hreturned).2⟩
  | takeSignal hup hreturned =>
      have hmailed := stopAll_mailed { s with shuttingDown := true }
      refine ⟨hs.tidy.stopAll, fun hup' => ?_, fun hup' => ?_, fun hd => ?_, fun hreturned' => ?_⟩
      · cases hmailed.shuttingDown.symm.trans hup'
      · cases hmailed.shuttingDown.symm.trans hup'
      · exact hs.wanted (hmailed.desired.symm.trans hd)
      · cases hreturned'.symm.trans (hmailed.returned.trans hreturned)
  | @scaled d desired template hup hreturned hd hpending htemplate =>
      obtain ⟨htidy, hruns, hkeeps, hcount⟩ := scale_spec
        (s := { s with desired := some { d with pending := none } }) { hs.tidy with } (hs.runs hup)
        hup htemplate desired
      refine ⟨htidy, fun _ => hruns, fun _ => ?_, fun hd' hpending' => ?_, fun hreturned' => ?_⟩
      · -- at least one slot is active, the desired count being at least one
        have hpos : 0 < List.countP (isActive queueName template)
            (scale queueName { s with desired := some { d with pending := none } } template
              desired).slots := by
          rw [hcount]
          exact hs.wanted hd hpending
        obtain ⟨slot, hslot, hactive⟩ := List.countP_pos_iff.1 hpos
        rw [isActive, Bool.and_eq_true, Bool.not_eq_true'] at hactive
        exact ⟨slot, hslot, hactive.1⟩
      · rw [hkeeps.desired] at hd'
        obtain rfl := Option.some.inj hd'
        cases hpending'
      · cases hreturned'.symm.trans (hkeeps.returned.trans hreturned)
  | unscaled =>
      refine ⟨{ hs.tidy with }, hs.runs, hs.alive, fun hd => ?_, hs.done⟩
      cases hd
  | @joined t task e htask hend hjoined hreturned =>
      obtain ⟨slot, hslot, hsender⟩ := hs.tidy.waited htask hjoined
      have hjoin := taskEnded_joined (t := t) hslot e
      refine ⟨hjoin.keptTidy hs.tidy htask (by rw [hend]; rfl) hslot hsender,
        hjoin.runsAll hs.tidy hs.runs htask hslot hsender, fun hup => ?_, fun hd => ?_,
        fun hreturned' => ?_⟩
      · obtain ⟨slot₀, hmem, hret⟩ := hs.alive (hjoin.keeps.shuttingDown.symm.trans hup)
        obtain ⟨i, hi⟩ := List.getElem?_of_mem hmem
        obtain ⟨slot₁, hslot₁, hret₁⟩ := hjoin.alive hslot hi hret
        exact ⟨slot₁, List.mem_of_getElem? hslot₁, hret₁⟩
      · exact hs.wanted (hjoin.keeps.desired.symm.trans hd)
      · cases hreturned'.symm.trans (hjoin.keeps.returned.trans hreturned)
  | left hall hreturned =>
      refine ⟨{ hs.tidy with }, hs.runs, hs.alive, hs.wanted, fun _ => ⟨?_, fun task htask => ?_⟩⟩
      · -- before a shutdown request some slot has a task that was not joined
        cases hup : s.shuttingDown with
        | true => rfl
        | false =>
            obtain ⟨slot, hslot, hret⟩ := hs.alive hup
            obtain ⟨i, hi⟩ := List.getElem?_of_mem hslot
            obtain ⟨task, htask, hjoined⟩ := hs.runs hup i slot hi hret
            have hjoined' := List.all_eq_true.1 hall task (List.mem_of_getElem? htask)
            cases hjoined.symm.trans hjoined'
      · exact List.all_eq_true.1 hall task htask

-- == one step

/-- What a step does to a task: it ends only by itself, and it is sent a
message only while it has not ended. -/
theorem Step.task (h : Step queueName s move s') (hs : Supervising queueName s) {t : Nat}
    {task : Task W} (htask : s.tasks[t]? = some task) :
    ∃ task', s'.tasks[t]? = some task' ∧ task'.index = task.index ∧
      (task'.ended = task.ended ∨ ∃ e, move = .finish t e) ∧
      (task'.mailbox = true → task.mailbox = true ∨ task.ended = none) := by
  have hsame : s'.tasks = s.tasks → ∃ task', s'.tasks[t]? = some task' ∧
      task'.index = task.index ∧ (task'.ended = task.ended ∨ ∃ e, move = .finish t e) ∧
      (task'.mailbox = true → task.mailbox = true ∨ task.ended = none) := by
    intro heq
    rw [heq]
    exact ⟨task, htask, rfl, .inl rfl, .inl⟩
  have hmail : ∀ {task' : Task W}, task.Mailed task' → task'.index = task.index ∧
      (task'.ended = task.ended ∨ ∃ e, move = .finish t e) ∧
      (task'.mailbox = true → task.mailbox = true ∨ task.ended = none) :=
    fun hm => ⟨hm.index, .inl hm.ended, fun h => (hm.sent h).imp_right (·.1)⟩
  cases h.moves with
  | publish | stopScaling | request | unscaled | left => exact hsame rfl
  | @receive u other hother =>
      by_cases htu : t = u
      · subst htu
        obtain rfl := Option.some.inj (htask.symm.trans hother)
        exact ⟨_, (Tally.getElem?_replaced hother).2 (.inl ⟨rfl, rfl⟩), rfl, .inl rfl, nofun⟩
      · exact ⟨task, (Tally.getElem?_replaced hother).2 (.inr ⟨htu, htask⟩), rfl, .inl rfl, .inl⟩
  | @finish u other e hother hend =>
      by_cases htu : t = u
      · subst htu
        obtain rfl := Option.some.inj (htask.symm.trans hother)
        exact ⟨_, (Tally.getElem?_replaced hother).2 (.inl ⟨rfl, rfl⟩), rfl, .inr ⟨e, rfl⟩, .inl⟩
      · exact ⟨task, (Tally.getElem?_replaced hother).2 (.inr ⟨htu, htask⟩), rfl, .inl rfl, .inl⟩
  | takeSignal hup hreturned =>
      obtain ⟨task', htask', hmailed⟩ :=
        (stopAll_mailed { s with shuttingDown := true }).forward htask
      exact ⟨task', htask', hmail hmailed⟩
  | @scaled d desired template hup hreturned hd hpending htemplate =>
      obtain ⟨task', htask', hmailed⟩ := @scale_oldTasks W queueName
        { s with desired := some { d with pending := none } } { hs.tidy with } hup template
        desired t task htask
      exact ⟨task', htask', hmail hmailed⟩
  | @joined u other e hother hend hjoined hreturned =>
      obtain ⟨slot, hslot, hsender⟩ := hs.tidy.waited hother hjoined
      have hmarked : ∃ task', (s.tasks.set u { other with joined := true })[t]? = some task' ∧
          task'.index = task.index ∧ (task'.ended = task.ended ∨ ∃ e', Move.takeJoined u
            = .finish t e') ∧ (task'.mailbox = true → task.mailbox = true ∨ task.ended = none) := by
        by_cases htu : t = u
        · subst htu
          obtain rfl := Option.some.inj (htask.symm.trans hother)
          exact ⟨_, (Tally.getElem?_replaced hother).2 (.inl ⟨rfl, rfl⟩), rfl, .inl rfl, .inl⟩
        · exact ⟨task, (Tally.getElem?_replaced hother).2 (.inr ⟨htu, htask⟩), rfl, .inl rfl, .inl⟩
      have hjoin := taskEnded_joined (t := u) hslot e
      generalize taskEnded _ _ _ = s₁ at hjoin
      cases hjoin with
      | ignored | finished => exact hmarked
      | restarted =>
          obtain ⟨task', htask', hrest⟩ := hmarked
          exact ⟨task', List.getElem?_append_left (List.getElem?_eq_some_iff.1 htask').1 ▸ htask',
            hrest⟩

/-- A task that has not ended is the one its slot waits for. -/
theorem Supervising.waited (hs : Supervising queueName s) {t : TaskId} {task : Task W}
    (htask : s.tasks[t]? = some task) (hend : task.ended = none) :
    ∃ slot, s.slots[task.index]? = some slot ∧ slot.sender = t := by
  refine hs.tidy.waited htask (Bool.eq_false_iff.2 fun hjoined => ?_)
  have hsome := hs.tidy.ended htask hjoined
  rw [hend] at hsome
  cases hsome

/-- A slot is taken again only after its task ended. -/
theorem Step.reused (h : Step queueName s move s') (hs : Supervising queueName s)
    (hs' : Supervising queueName s') {i : Nat} {slot slot' : Slot W}
    (hslot : s.slots[i]? = some slot) (hslot' : s'.slots[i]? = some slot')
    (hne : slot'.sender ≠ slot.sender) :
    ∃ task, s.tasks[slot.sender]? = some task ∧ task.ended.isSome = true := by
  obtain ⟨task, htask, hindex, -⟩ := hs.tidy.current hslot
  obtain ⟨task', htask', hindex', hended, -⟩ := h.task hs htask
  refine ⟨task, htask, ?_⟩
  rcases hended with heq | ⟨e, rfl⟩
  · -- were it running still, it would be the current task of the slot
    rw [← heq, Option.isSome_iff_ne_none]
    intro hend
    obtain ⟨slot₁, hslot₁, hsender⟩ := hs'.waited htask' hend
    rw [hindex', hindex, hslot'] at hslot₁
    obtain rfl := Option.some.inj hslot₁
    exact hne hsender
  · -- a task that ends leaves the slots as they are
    cases h.moves with
    | finish e htask₀ hend =>
        obtain rfl := Option.some.inj (hslot.symm.trans hslot')
        exact absurd rfl hne

theorem Step.restarted {t : TaskId} {task : Task W} {slot : Slot W}
    (h : Step queueName s (.takeJoined t) s') (hs : Supervising queueName s)
    (hup : s.shuttingDown = false) (htask : s.tasks[t]? = some task)
    (hslot : s.slots[task.index]? = some slot) (hret : slot.retired = false) :
    ∃ slot', s'.slots[task.index]? = some slot' ∧ slot'.retired = false ∧
      slot'.sender = s.tasks.length ∧ s'.tasks[slot'.sender]? = some
        ⟨task.index, slot.template, some workerRestartDelay, false, false, none, false⟩ := by
  cases h.moves with
  | @joined _ task₀ e htask₀ hend hjoined hreturned =>
      obtain rfl := Option.some.inj (htask.symm.trans htask₀)
      obtain ⟨slot₁, hslot₁, hsender⟩ := hs.tidy.waited htask hjoined
      obtain rfl := Option.some.inj (hslot.symm.trans hslot₁)
      have hjoin := taskEnded_joined (t := t) hslot e
      generalize taskEnded _ _ _ = s₁ at hjoin
      cases hjoin with
      | ignored hdown => exact absurd (hdown.symm.trans hup) nofun
      | finished hretired => exact absurd (hretired.symm.trans hret) nofun
      | restarted =>
          have hnew := (Joined.spawned hs.tidy htask hslot hsender hret).newTask
          have hlength : (s.tasks.set t { task with joined := true }).length = s.tasks.length :=
            List.length_set
          dsimp only at hnew
          rw [hlength] at hnew
          exact ⟨_, (Tally.getElem?_replaced hslot).2 (.inl ⟨rfl, rfl⟩), hret, rfl, hnew⟩

/-- While the pool is shutting down no task is started. -/
theorem Step.noneStarted (h : Step queueName s move s') (hs : Supervising queueName s)
    (hdown : s.shuttingDown = true) :
    s'.shuttingDown = true ∧ s'.tasks.length = s.tasks.length := by
  cases h.moves with
  | publish | stopScaling | request | unscaled | left => exact ⟨hdown, rfl⟩
  | receive | finish => exact ⟨hdown, List.length_set⟩
  | takeSignal hup => exact absurd (hdown.symm.trans hup) nofun
  | scaled hup => exact absurd (hdown.symm.trans hup) nofun
  | @joined t task e htask hend hjoined hreturned =>
      obtain ⟨slot, hslot, hsender⟩ := hs.tidy.waited htask hjoined
      have hjoin := taskEnded_joined (t := t) hslot e
      generalize taskEnded _ _ _ = s₁ at hjoin
      cases hjoin with
      | ignored | finished => exact ⟨hdown, List.length_set⟩
      | restarted _ hup => exact absurd (hdown.symm.trans hup) nofun

theorem Step.scaled {d : Desired} {desired : Nat} {template : W}
    (h : Step queueName s .takeDesired s') (hs : Supervising queueName s)
    (hd : s.desired = some d) (hpending : d.pending = some desired)
    (htemplate : s.template = some template) :
    (s'.active queueName template).length = desired := by
  cases h.moves with
  | @scaled d₀ desired₀ template₀ hup hreturned hd₀ hpending₀ htemplate₀ =>
      obtain rfl := Option.some.inj (hd.symm.trans hd₀)
      obtain rfl := Option.some.inj (hpending.symm.trans hpending₀)
      obtain rfl := Option.some.inj (htemplate.symm.trans htemplate₀)
      rw [length_active]
      exact (scale_spec (s := { s with desired := some { d with pending := none } })
        { hs.tidy with } (hs.runs hup) hup htemplate desired).2.2.2
  | unscaled hnone => exact absurd htemplate (hnone d desired template hd hpending)

-- == runs

/-- Over every run from a nonempty pool in which the counts published
are at least one, the supervisor keeps its promises. -/
theorem pool_supervised (r : Run (Step (W := W) queueName) n) {workers : List W}
    {template : Option W} {signal : Bool} (hne : workers ≠ [])
    (h0 : r.state 0 = start workers template signal)
    (hpublish : ∀ i < n, ∀ desired, r.event i = .publish desired → 1 ≤ desired) :
    Supervised queueName r := by
  have hinv : ∀ i ≤ n, Supervising queueName (r.state i) := by
    intro i hi
    refine r.stable (m := 0) (P := Supervising queueName) ?_
      (fun i _ hi hstep => hstep.supervising (hpublish i hi)) i (Nat.zero_le i) hi
    rw [h0]
    exact start_supervising hne template signal
  exact {
    scaled := by
      intro i hi d desired template hevent hd hpending htemplate
      have hstep := r.next i hi
      rw [hevent] at hstep
      exact hstep.scaled (hinv i (by omega)) hd hpending htemplate
    retired := by
      intro i hi slot hslot hret
      obtain ⟨j, hj⟩ := List.getElem?_of_mem hslot
      exact (hinv i hi).tidy.retired hj hret
    oneTask := by
      intro i hi t t' task task' htask htask' hend hend' hindex
      obtain ⟨slot, hslot, hsender⟩ := (hinv i hi).waited htask hend
      obtain ⟨slot', hslot', hsender'⟩ := (hinv i hi).waited htask' hend'
      rw [hindex, hslot'] at hslot
      obtain rfl := Option.some.inj hslot
      exact hsender.symm.trans hsender'
    current := fun i hi t task htask hend => (hinv i hi).waited htask hend
    sent := by
      intro i hi t task task' htask htask' hfree hfull
      obtain ⟨task₁, htask₁, -, -, hmail⟩ := (r.next i hi).task (hinv i (by omega)) htask
      obtain rfl := Option.some.inj (htask'.symm.trans htask₁)
      rcases hmail hfull with hold | hend
      · exact absurd (hfree.symm.trans hold) Bool.false_ne_true
      · exact (hinv i (by omega)).waited htask hend
    reused := fun i hi j slot slot' hslot hslot' hother =>
      (r.next i hi).reused (hinv i (by omega)) (hinv (i + 1) hi) hslot hslot' hother
    running := by
      intro i hi hup j slot hslot hret
      obtain ⟨task, htask, hindex, hworker⟩ := (hinv i hi).tidy.current hslot
      obtain ⟨task', htask', hjoined⟩ := (hinv i hi).runs hup j slot hslot hret
      obtain rfl := Option.some.inj (htask.symm.trans htask')
      exact ⟨task, htask, hindex, hworker, hjoined⟩
    restarted := by
      intro i hi t task slot hevent hup htask hslot hret
      have hstep := r.next i hi
      rw [hevent] at hstep
      exact hstep.restarted (hinv i (by omega)) hup htask hslot hret
    told := fun i hi hdown t task htask hend => (hinv i hi).tidy.told hdown htask hend
    noneStarted := fun i hi hdown => (r.next i hi).noneStarted (hinv i (by omega)) hdown
    returned := by
      intro i hi hreturned
      obtain ⟨hdown, hall⟩ := (hinv i hi).done hreturned
      refine ⟨hdown, fun task hmem => ?_⟩
      obtain ⟨t, htask⟩ := List.getElem?_of_mem hmem
      exact (hinv i hi).tidy.ended htask (hall task hmem) }

/-- Two workers of two queues: one queue is scaled up and down again, a
worker fails and is restarted, and the pool is shut down. -/
def lifeOfAPool : List Move :=
  [.publish 2, .takeDesired, .finish 1 .failed, .publish 1, .takeDesired, .takeJoined 1,
    .receive 2, .request, .finish 2 .stopped, .takeSignal, .takeJoined 2, .receive 0,
    .finish 0 .stopped, .finish 3 .stopped, .takeJoined 3, .takeJoined 0, .leave]

/-- The run that makes a list of moves. -/
def runOf (moves : List Move) (s : Supervisor String)
    (h : ∀ i < moves.length, ((Run.states (fun (s : Supervisor String) m =>
      (s.next id m).getD s) s (fun i => moves[i]?.getD .request) i).next id
        (moves[i]?.getD .request)).isSome = true) :
    Run (Step (W := String) id) moves.length :=
  Run.ofFn (fun s m => (s.next id m).getD s) s (fun i => moves[i]?.getD .request) fun i hi => by
    obtain ⟨s', hs'⟩ := Option.isSome_iff_exists.1 (h i hi)
    show Supervisor.next id _ _ = some (Option.getD (Supervisor.next id _ _) _)
    rw [hs']
    rfl

theorem pool_supervised_lifeOfAPool : ∃ r : Run (Step (W := String) id) 17,
    r.state 0 = start ["mail", "reports"] (some "mail") false ∧ Supervised id r ∧
      (r.state 17).returned = true := by
  have hrun : ∃ r : Run (Step (W := String) id) 17,
      r.state 0 = start ["mail", "reports"] (some "mail") false ∧
        (∀ i, r.event i = lifeOfAPool[i]?.getD .request) ∧ (r.state 17).returned = true :=
    ⟨runOf lifeOfAPool _ (by decide +kernel), rfl, fun _ => rfl, by decide +kernel⟩
  obtain ⟨r, h0, hevents, hreturned⟩ := hrun
  refine ⟨r, h0, pool_supervised r (List.cons_ne_nil "mail" ["reports"]) h0
    fun i hi desired hevent => ?_, hreturned⟩
  rw [hevents] at hevent
  match i, hi with
  | 0, _ | 3, _ =>
      cases hevent
      decide
  | 1, _ | 2, _ | 4, _ | 5, _ | 6, _ | 7, _ | 8, _ | 9, _ | 10, _ | 11, _ | 12, _ | 13, _
  | 14, _ | 15, _ | 16, _ => cases hevent

end Supervisor

end Pool

end Hammerwork
