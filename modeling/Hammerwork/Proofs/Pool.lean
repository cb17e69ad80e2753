/-
What the supervisor's operations do to slots and tasks.

`Tidy` is the invariant: a slot's sender is the sender of the last task
spawned in it, and every task the supervisor has not joined yet is the
current task of its slot. Each operation keeps it: a stop message only
changes a mailbox (`Mailed`), a spawned task takes the place of one that
was joined (`Tidy.spawned`), and a task that moves keeps its slot
(`Tidy.updated`).

`RunsAll` says besides that every slot that is not retired has a task to
wait for; it fails between the end of a task and its restart.
-/
import Hammerwork.Pool
import Hammerwork.Lib.Tally
import Mathlib.Data.List.Nodup

namespace Hammerwork

namespace Pool

variable {W : Type} {queueName : W → String}

-- == a message

/-- A task before and after stop messages were sent. -/
structure Task.Mailed (task task' : Task W) : Prop where
  index : task'.index = task.index
  worker : task'.worker = task.worker
  delay : task'.delay = task.delay
  ended : task'.ended = task.ended
  joined : task'.joined = task.joined
  told : task.told = true → task'.told = true
  sent : task'.mailbox = true → task.mailbox = true ∨ (task.ended = none ∧ task'.told = true)

theorem Task.Mailed.refl (task : Task W) : task.Mailed task :=
  ⟨rfl, rfl, rfl, rfl, rfl, id, .inl⟩

theorem Task.Mailed.trans {task task' task'' : Task W} (h : task.Mailed task')
    (h' : task'.Mailed task'') : task.Mailed task'' where
  index := h'.index.trans h.index
  worker := h'.worker.trans h.worker
  delay := h'.delay.trans h.delay
  ended := h'.ended.trans h.ended
  joined := h'.joined.trans h.joined
  told htold := h'.told (h.told htold)
  sent hmail := by
    rcases h'.sent hmail with hold | ⟨hend, htold⟩
    · exact (h.sent hold).imp_right fun h₀ => ⟨h₀.1, h'.told h₀.2⟩
    · exact .inr ⟨h.ended.symm.trans hend, htold⟩

theorem Task.trySend_mailed (task : Task W) : task.Mailed task.trySend := by
  unfold Task.trySend
  split
  · exact .refl task
  · next hopen =>
      have hend : task.ended = none := by
        simp only [Bool.or_eq_true, not_or, Bool.not_eq_true, Option.isSome_eq_false_iff,
          Option.isNone_iff_eq_none] at hopen
        exact hopen.1
      exact ⟨rfl, rfl, rfl, rfl, rfl, fun _ => rfl, fun _ => .inr ⟨hend, rfl⟩⟩

/-- A task that has not ended has been told to stop then. -/
theorem Task.trySend_told {task : Task W} (hend : task.ended = none)
    (htold : task.mailbox = true → task.told = true) : task.trySend.told = true := by
  unfold Task.trySend
  split
  · next hfull =>
      rw [hend] at hfull
      exact htold (by simpa using hfull)
  · rfl

namespace Supervisor

variable {s s' s'' : Supervisor W} {i index : Nat} {t : TaskId} {slot slot' : Slot W}
variable {task task' : Task W} {template worker : W}

/-- Only mailboxes changed. -/
structure Mailed (s s' : Supervisor W) : Prop where
  slots : s'.slots = s.slots
  template : s'.template = s.template
  desired : s'.desired = s.desired
  shuttingDown : s'.shuttingDown = s.shuttingDown
  returned : s'.returned = s.returned
  length : s'.tasks.length = s.tasks.length
  tasks : ∀ {t : TaskId} {task' : Task W}, s'.tasks[t]? = some task' →
    ∃ task, s.tasks[t]? = some task ∧ task.Mailed task'

theorem Mailed.refl (s : Supervisor W) : Mailed s s :=
  ⟨rfl, rfl, rfl, rfl, rfl, rfl, fun h => ⟨_, h, .refl _⟩⟩

theorem Mailed.trans (h : Mailed s s') (h' : Mailed s' s'') : Mailed s s'' where
  slots := h'.slots.trans h.slots
  template := h'.template.trans h.template
  desired := h'.desired.trans h.desired
  shuttingDown := h'.shuttingDown.trans h.shuttingDown
  returned := h'.returned.trans h.returned
  length := h'.length.trans h.length
  tasks hlookup := by
    obtain ⟨task', hlookup', hmailed'⟩ := h'.tasks hlookup
    obtain ⟨task, hlookup₀, hmailed⟩ := h.tasks hlookup'
    exact ⟨task, hlookup₀, hmailed.trans hmailed'⟩

/-- Every task is there still. -/
theorem Mailed.forward (h : Mailed s s') (hlookup : s.tasks[t]? = some task) :
    ∃ task', s'.tasks[t]? = some task' ∧ task.Mailed task' := by
  obtain ⟨hlt, -⟩ := List.getElem?_eq_some_iff.1 hlookup
  have hlt' : t < s'.tasks.length := by
    rw [h.length]
    exact hlt
  obtain ⟨task₀, hlookup₀, hmailed⟩ := h.tasks (List.getElem?_eq_getElem hlt')
  obtain rfl := Option.some.inj (hlookup.symm.trans hlookup₀)
  exact ⟨_, List.getElem?_eq_getElem hlt', hmailed⟩

theorem trySend_tasks (s : Supervisor W) (sender t : TaskId) :
    (s.trySend sender).tasks[t]?
      = (s.tasks[t]?).map fun task => if sender = t then task.trySend else task :=
  List.getElem?_modify ..

theorem trySend_mailed (s : Supervisor W) (sender : TaskId) : Mailed s (s.trySend sender) where
  slots := rfl
  template := rfl
  desired := rfl
  shuttingDown := rfl
  returned := rfl
  length := List.length_modify ..
  tasks hlookup := by
    rw [trySend_tasks] at hlookup
    obtain ⟨task, htask, rfl⟩ := Option.map_eq_some_iff.1 hlookup
    refine ⟨task, htask, ?_⟩
    split
    · exact task.trySend_mailed
    · exact .refl task

/-- A message in a mailbox was sent. -/
def MailTold (s : Supervisor W) : Prop :=
  ∀ {t : TaskId} {task : Task W}, s.tasks[t]? = some task → task.mailbox = true →
    task.told = true

theorem Mailed.mailTold (h : Mailed s s') (hs : s.MailTold) : s'.MailTold := by
  intro t task' hlookup hmail
  obtain ⟨task, hlookup₀, hmailed⟩ := h.tasks hlookup
  rcases hmailed.sent hmail with hold | ⟨-, htold⟩
  · exact hmailed.told (hs hlookup₀ hold)
  · exact htold

theorem foldl_trySend_mailed (slots : List (Slot W)) : ∀ s : Supervisor W,
    Mailed s (slots.foldl (fun s slot => s.trySend slot.sender) s) := by
  induction slots with
  | nil => exact fun s => .refl s
  | cons first slots ih =>
      exact fun s => (trySend_mailed s first.sender).trans (ih (s.trySend first.sender))

theorem stopAll_mailed (s : Supervisor W) : Mailed s s.stopAll :=
  foldl_trySend_mailed s.slots s

/-- Sending to the slots of a list tells their tasks. -/
theorem foldl_trySend_told (slots : List (Slot W)) : ∀ s : Supervisor W, s.MailTold →
    ∀ slot ∈ slots, ∀ task,
      (slots.foldl (fun s slot => s.trySend slot.sender) s).tasks[slot.sender]? = some task →
      task.ended = none → task.told = true := by
  induction slots with
  | nil => exact fun s _ => nofun
  | cons first slots ih =>
      intro s hs slot hslot task hlookup hend
      rw [List.foldl_cons] at hlookup
      rcases List.mem_cons.1 hslot with rfl | hslot
      · obtain ⟨task₁, hlookup₁, hmailed⟩ := (foldl_trySend_mailed slots _).tasks hlookup
        rw [trySend_tasks] at hlookup₁
        obtain ⟨task₀, hlookup₀, rfl⟩ := Option.map_eq_some_iff.1 hlookup₁
        rw [if_pos rfl] at hmailed
        refine hmailed.told (Task.trySend_told ?_ (hs hlookup₀))
        rw [← task₀.trySend_mailed.ended, ← hmailed.ended]
        exact hend
      · exact ih _ ((trySend_mailed s first.sender).mailTold hs) slot hslot task hlookup hend

-- == the invariant

/-- The slots and the tasks fit together. -/
structure Tidy (queueName : W → String) (s : Supervisor W) : Prop where
  /-- A slot's sender is that of a task spawned in the slot. -/
  current : ∀ {i : Nat} {slot : Slot W}, s.slots[i]? = some slot →
    ∃ task, s.tasks[slot.sender]? = some task ∧ task.index = i ∧ task.worker = slot.template
  /-- A task that was not joined is the current task of its slot. -/
  waited : ∀ {t : TaskId} {task : Task W}, s.tasks[t]? = some task → task.joined = false →
    ∃ slot, s.slots[task.index]? = some slot ∧ slot.sender = t
  /-- A slot marked finished is retired, and its task was joined. -/
  finished : ∀ {i : Nat} {slot : Slot W} {task : Task W}, s.slots[i]? = some slot →
    slot.finished = true → s.tasks[slot.sender]? = some task →
    slot.retired = true ∧ task.joined = true
  /-- Only slots of the template's queue are retired. -/
  retired : ∀ {i : Nat} {slot : Slot W}, s.slots[i]? = some slot → slot.retired = true →
    ∃ template, s.template = some template ∧ queueName slot.template = queueName template
  mail : s.MailTold
  /-- Once the pool is shutting down, the tasks still running have been
  told to stop. -/
  told : s.shuttingDown = true → ∀ {t : TaskId} {task : Task W}, s.tasks[t]? = some task →
    task.ended = none → task.told = true
  ended : ∀ {t : TaskId} {task : Task W}, s.tasks[t]? = some task → task.joined = true →
    task.ended.isSome = true

/-- Every slot that is not retired has a task to wait for. -/
def RunsAll (s : Supervisor W) : Prop :=
  ∀ (i : Nat) (slot : Slot W), s.slots[i]? = some slot → slot.retired = false →
    ∃ task, s.tasks[slot.sender]? = some task ∧ task.joined = false

theorem Tidy.mailed (hs : s.Tidy queueName) (h : Mailed s s') : s'.Tidy queueName where
  current hslot := by
    rw [h.slots] at hslot
    obtain ⟨task, hlookup, hindex, hworker⟩ := hs.current hslot
    obtain ⟨task', hlookup', hmailed⟩ := h.forward hlookup
    exact ⟨task', hlookup', hmailed.index.trans hindex, hmailed.worker.trans hworker⟩
  waited hlookup hjoined := by
    obtain ⟨task, hlookup₀, hmailed⟩ := h.tasks hlookup
    rw [h.slots, hmailed.index]
    exact hs.waited hlookup₀ (hmailed.joined.symm.trans hjoined)
  finished hslot hfin hlookup := by
    rw [h.slots] at hslot
    obtain ⟨task, hlookup₀, hmailed⟩ := h.tasks hlookup
    rw [hmailed.joined]
    exact hs.finished hslot hfin hlookup₀
  retired hslot hret := by
    rw [h.slots] at hslot
    rw [h.template]
    exact hs.retired hslot hret
  mail := h.mailTold hs.mail
  told hdown _ _ hlookup hend := by
    obtain ⟨task, hlookup₀, hmailed⟩ := h.tasks hlookup
    rw [h.shuttingDown] at hdown
    exact hmailed.told (hs.told hdown hlookup₀ (hmailed.ended.symm.trans hend))
  ended hlookup hjoined := by
    obtain ⟨task, hlookup₀, hmailed⟩ := h.tasks hlookup
    rw [hmailed.ended]
    exact hs.ended hlookup₀ (hmailed.joined.symm.trans hjoined)

theorem RunsAll.mailed (hs : s.RunsAll) (h : Mailed s s') : s'.RunsAll := by
  intro i slot hslot hret
  rw [h.slots] at hslot
  obtain ⟨task, hlookup, hjoined⟩ := hs i slot hslot hret
  obtain ⟨task', hlookup', hmailed⟩ := h.forward hlookup
  exact ⟨task', hlookup', hmailed.joined.trans hjoined⟩

-- == task moves

/-- A task that takes a message, ends or is joined keeps its slot. -/
structure Task.Moved (task task' : Task W) : Prop where
  index : task'.index = task.index
  worker : task'.worker = task.worker
  told : task'.told = task.told
  mail : task'.mailbox = true → task.mailbox = true
  joined : task.joined = true → task'.joined = true
  ended : task.ended.isSome = true → task'.ended.isSome = true
  joinedEnded : task'.joined = true → task'.ended.isSome = true

theorem Tidy.moved (hs : s.Tidy queueName) (htask : s.tasks[t]? = some task)
    (h : Task.Moved task task') :
    Tidy queueName { s with tasks := s.tasks.set t task' } where
  current {_ slot} hslot := by
    obtain ⟨task₀, hlookup, hindex, hworker⟩ := hs.current hslot
    by_cases ht : slot.sender = t
    · rw [ht] at hlookup ⊢
      obtain rfl := Option.some.inj (htask.symm.trans hlookup)
      exact ⟨task', (Tally.getElem?_replaced htask).2 (.inl ⟨rfl, rfl⟩), h.index.trans hindex,
        h.worker.trans hworker⟩
    · exact ⟨task₀, (Tally.getElem?_replaced htask).2 (.inr ⟨ht, hlookup⟩), hindex, hworker⟩
  waited hlookup hjoined := by
    rcases (Tally.getElem?_replaced htask).1 hlookup with ⟨rfl, rfl⟩ | ⟨-, hold⟩
    · rw [h.index]
      refine hs.waited htask (Bool.eq_false_iff.2 fun hj => ?_)
      exact absurd (hjoined.symm.trans (h.joined hj)) nofun
    · exact hs.waited hold hjoined
  finished hslot hfin hlookup := by
    rcases (Tally.getElem?_replaced htask).1 hlookup with ⟨ht, rfl⟩ | ⟨-, hold⟩
    · obtain ⟨hret, hjoined⟩ := hs.finished hslot hfin (ht ▸ htask)
      exact ⟨hret, h.joined hjoined⟩
    · exact hs.finished hslot hfin hold
  retired := hs.retired
  mail hlookup hmail := by
    rcases (Tally.getElem?_replaced htask).1 hlookup with ⟨rfl, rfl⟩ | ⟨-, hold⟩
    · rw [h.told]
      exact hs.mail htask (h.mail hmail)
    · exact hs.mail hold hmail
  told hdown _ _ hlookup hend := by
    rcases (Tally.getElem?_replaced htask).1 hlookup with ⟨rfl, rfl⟩ | ⟨-, hold⟩
    · rw [h.told]
      refine hs.told hdown htask ?_
      cases hended : task.ended with
      | none => rfl
      | some e =>
          have hsome := h.ended (by rw [hended]; rfl)
          rw [hend] at hsome
          cases hsome
    · exact hs.told hdown hold hend
  ended hlookup hjoined := by
    rcases (Tally.getElem?_replaced htask).1 hlookup with ⟨rfl, rfl⟩ | ⟨-, hold⟩
    · exact h.joinedEnded hjoined
    · exact hs.ended hold hjoined

/-- A task that is not joined by its move leaves every slot running. -/
theorem RunsAll.moved (hs : s.RunsAll) (htask : s.tasks[t]? = some task)
    (hjoined : task'.joined = task.joined) :
    RunsAll { s with tasks := s.tasks.set t task' } := by
  intro i slot hslot hret
  obtain ⟨task₀, hlookup, hwaited⟩ := hs i slot hslot hret
  by_cases ht : slot.sender = t
  · rw [ht] at hlookup ⊢
    obtain rfl := Option.some.inj (htask.symm.trans hlookup)
    exact ⟨task', (Tally.getElem?_replaced htask).2 (.inl ⟨rfl, rfl⟩), hjoined.trans hwaited⟩
  · exact ⟨task₀, (Tally.getElem?_replaced htask).2 (.inr ⟨ht, hlookup⟩), hwaited⟩

-- == slot moves

/-- A slot of the template's queue is retired, or the task of a retired
one has finished. -/
theorem Tidy.flagged (hs : s.Tidy queueName) (hslot : s.slots[i]? = some slot)
    (htemplate : s.template = some template)
    (hqueue : queueName slot.template = queueName template)
    (hsame : slot'.template = slot.template ∧ slot'.sender = slot.sender)
    (hret : slot'.retired = true)
    (hfin : slot'.finished = true → ∀ task, s.tasks[slot.sender]? = some task →
      task.joined = true) :
    Tidy queueName { s with slots := s.slots.set i slot' } where
  current hlookup := by
    rcases (Tally.getElem?_replaced hslot).1 hlookup with ⟨rfl, rfl⟩ | ⟨-, hold⟩
    · rw [hsame.1, hsame.2]
      exact hs.current hslot
    · exact hs.current hold
  waited {t task} hlookup hjoined := by
    obtain ⟨slot₀, hslot₀, hsender⟩ := hs.waited hlookup hjoined
    by_cases hi : task.index = i
    · rw [hi] at hslot₀ ⊢
      obtain rfl := Option.some.inj (hslot.symm.trans hslot₀)
      exact ⟨slot', (Tally.getElem?_replaced hslot).2 (.inl ⟨rfl, rfl⟩), hsame.2.trans hsender⟩
    · exact ⟨slot₀, (Tally.getElem?_replaced hslot).2 (.inr ⟨hi, hslot₀⟩), hsender⟩
  finished hlookup hfinished htask := by
    rcases (Tally.getElem?_replaced hslot).1 hlookup with ⟨rfl, rfl⟩ | ⟨-, hold⟩
    · rw [hsame.2] at htask
      exact ⟨hret, hfin hfinished _ htask⟩
    · exact hs.finished hold hfinished htask
  retired hlookup hret' := by
    rcases (Tally.getElem?_replaced hslot).1 hlookup with ⟨rfl, rfl⟩ | ⟨-, hold⟩
    · rw [hsame.1]
      exact ⟨template, htemplate, hqueue⟩
    · exact hs.retired hold hret'
  mail := hs.mail
  told := hs.told
  ended := hs.ended

theorem RunsAll.flagged (hs : s.RunsAll) (hslot : s.slots[i]? = some slot)
    (hret : slot'.retired = true) : RunsAll { s with slots := s.slots.set i slot' } := by
  intro j slot₀ hlookup hnot
  rcases (Tally.getElem?_replaced hslot).1 hlookup with ⟨rfl, rfl⟩ | ⟨-, hold⟩
  · exact absurd (hret.symm.trans hnot) nofun
  · exact hs j slot₀ hold hnot

-- == new tasks

/-- A worker's task was spawned in slot `index`, which is new or whose
last task was joined. -/
structure Spawned (s : Supervisor W) (index : Nat) (worker : W) (delay : Option Duration)
    (s' : Supervisor W) : Prop where
  tasks : s'.tasks = s.tasks ++ [⟨index, worker, delay, false, false, none, false⟩]
  slots : ∀ i, s'.slots[i]? = if i = index then some ⟨worker, s.tasks.length, false, false⟩
    else s.slots[i]?
  template : s'.template = s.template
  shuttingDown : s'.shuttingDown = s.shuttingDown
  returned : s'.returned = s.returned
  free : ∀ {slot : Slot W} {task : Task W}, s.slots[index]? = some slot →
    s.tasks[slot.sender]? = some task → task.joined = true

variable {delay : Option Duration}

theorem Spawned.newTask (h : Spawned s index worker delay s') :
    s'.tasks[s.tasks.length]? = some ⟨index, worker, delay, false, false, none, false⟩ := by
  rw [h.tasks]
  exact Tally.getElem?_added.2 (.inr ⟨rfl, rfl⟩)

theorem Tidy.spawned (hs : s.Tidy queueName) (hup : s.shuttingDown = false)
    (h : Spawned s index worker delay s') : s'.Tidy queueName where
  current {i slot} hlookup := by
    rw [h.slots] at hlookup
    split at hlookup
    · next hi =>
        obtain rfl := Option.some.inj hlookup
        exact ⟨_, h.newTask, hi.symm, rfl⟩
    · obtain ⟨task, htask, hindex, hworker⟩ := hs.current hlookup
      rw [h.tasks]
      exact ⟨task, Tally.getElem?_added.2 (.inl htask), hindex, hworker⟩
  waited {t task} hlookup hjoined := by
    rw [h.tasks] at hlookup
    rw [h.slots]
    rcases Tally.getElem?_added.1 hlookup with hold | ⟨rfl, rfl⟩
    · obtain ⟨slot, hslot, hsender⟩ := hs.waited hold hjoined
      -- the slot of a task still running is not the one taken
      have hne : task.index ≠ index := by
        rintro rfl
        exact absurd (hjoined.symm.trans (h.free hslot (hsender ▸ hold))) nofun
      rw [if_neg hne]
      exact ⟨slot, hslot, hsender⟩
    · rw [if_pos rfl]
      exact ⟨_, rfl, rfl⟩
  finished {i slot task} hlookup hfin htask := by
    rw [h.slots] at hlookup
    split at hlookup
    · obtain rfl := Option.some.inj hlookup
      cases hfin
    · rw [h.tasks] at htask
      rcases Tally.getElem?_added.1 htask with hold | ⟨hnew, -⟩
      · exact hs.finished hlookup hfin hold
      · obtain ⟨task₀, htask₀, -⟩ := hs.current hlookup
        obtain ⟨hlt, -⟩ := List.getElem?_eq_some_iff.1 htask₀
        exact absurd hnew (Nat.ne_of_lt hlt)
  retired {i slot} hlookup hret := by
    rw [h.slots] at hlookup
    rw [h.template]
    split at hlookup
    · obtain rfl := Option.some.inj hlookup
      cases hret
    · exact hs.retired hlookup hret
  mail {t task} hlookup hmail := by
    rw [h.tasks] at hlookup
    rcases Tally.getElem?_added.1 hlookup with hold | ⟨-, rfl⟩
    · exact hs.mail hold hmail
    · cases hmail
  told hdown := by
    rw [h.shuttingDown, hup] at hdown
    cases hdown
  ended {t task} hlookup hjoined := by
    rw [h.tasks] at hlookup
    rcases Tally.getElem?_added.1 hlookup with hold | ⟨-, rfl⟩
    · exact hs.ended hold hjoined
    · cases hjoined

/-- Once a slot has a new task, every slot runs if every other one
did. -/
theorem RunsAll.spawned (h : Spawned s index worker delay s')
    (hs : ∀ {i : Nat} {slot : Slot W}, i ≠ index → s.slots[i]? = some slot →
      slot.retired = false →
      ∃ task, s.tasks[slot.sender]? = some task ∧ task.joined = false) : s'.RunsAll := by
  intro i slot hlookup hret
  rw [h.slots] at hlookup
  split at hlookup
  · obtain rfl := Option.some.inj hlookup
    exact ⟨_, h.newTask, rfl⟩
  · next hi =>
      obtain ⟨task, htask, hjoined⟩ := hs hi hlookup hret
      rw [h.tasks]
      exact ⟨task, Tally.getElem?_added.2 (.inl htask), hjoined⟩

-- == scaling

/-- A slot that counts towards the desired number. -/
def isActive (queueName : W → String) (template : W) (slot : Slot W) : Bool :=
  !slot.retired && decide (queueName slot.template = queueName template)

/-- What a scaling step leaves alone. -/
structure Keeps (s s' : Supervisor W) : Prop where
  template : s'.template = s.template
  desired : s'.desired = s.desired
  shuttingDown : s'.shuttingDown = s.shuttingDown
  returned : s'.returned = s.returned

theorem Keeps.refl (s : Supervisor W) : Keeps s s := ⟨rfl, rfl, rfl, rfl⟩

theorem Keeps.trans (h : Keeps s s') (h' : Keeps s' s'') : Keeps s s'' :=
  ⟨h'.template.trans h.template, h'.desired.trans h.desired,
    h'.shuttingDown.trans h.shuttingDown, h'.returned.trans h.returned⟩

theorem length_filter_range {α : Type} (p : α → Bool) : ∀ l : List α,
    ((List.range l.length).filter fun i => (l[i]?).any p).length = l.countP p := by
  intro l
  induction l with
  | nil => rfl
  | cons a l ih =>
      have htail : ((fun i => ((a :: l)[i]?).any p) ∘ Nat.succ) = fun i => (l[i]?).any p := rfl
      rw [List.length_cons, List.range_succ_eq_map, List.filter_cons, List.filter_map, htail,
        List.countP_cons]
      cases hp : p a with
      | true => simp [hp, ih]
      | false => simp [hp, ih]

theorem length_active (s : Supervisor W) (template : W) :
    (s.active queueName template).length = s.slots.countP (isActive queueName template) :=
  length_filter_range (isActive queueName template) s.slots

theorem mem_active : i ∈ s.active queueName template ↔
    ∃ slot, s.slots[i]? = some slot ∧ isActive queueName template slot = true := by
  unfold active
  rw [List.mem_filter, List.mem_range, Option.any_eq_true]
  constructor
  · rintro ⟨-, slot, hslot, hactive⟩
    exact ⟨slot, hslot, hactive⟩
  · rintro ⟨slot, hslot, hactive⟩
    exact ⟨(List.getElem?_eq_some_iff.1 hslot).1, slot, hslot, hactive⟩

/-- Starting a worker takes a new slot, or one whose retired task has
finished. -/
theorem startOne_spawned (hs : s.Tidy queueName) (template : W) :
    (∃ index, Spawned s index template none (s.startOne template)) ∧
      Keeps s (s.startOne template) ∧
      (s.startOne template).slots.countP (isActive queueName template)
        = s.slots.countP (isActive queueName template) + 1 := by
  have hnew : isActive queueName template ⟨template, s.tasks.length, false, false⟩ = true := by
    simp [isActive]
  cases hidx : s.slots.findIdx? fun slot => slot.retired && slot.finished with
  | none =>
      have heq : s.startOne template = { s with
          tasks := s.tasks ++ [⟨s.slots.length, template, none, false, false, none, false⟩]
          slots := s.slots ++ [⟨template, s.tasks.length, false, false⟩] } := by
        unfold startOne
        rw [hidx]
        exact if_pos rfl
      rw [heq]
      refine ⟨⟨s.slots.length, rfl, fun i => ?_, rfl, rfl, rfl, fun hslot => ?_⟩,
        ⟨rfl, rfl, rfl, rfl⟩, ?_⟩
      · rw [List.getElem?_append]
        by_cases hlt : i < s.slots.length
        · rw [if_pos hlt, if_neg (Nat.ne_of_lt hlt)]
        · rw [if_neg hlt, List.getElem?_singleton, List.getElem?_eq_none (Nat.le_of_not_lt hlt)]
          by_cases heq : i = s.slots.length
          · simp [heq]
          · have hne : i - s.slots.length ≠ 0 := by omega
            simp [heq, hne]
      · rw [List.getElem?_eq_none (Nat.le_refl _)] at hslot
        cases hslot
      · rw [List.countP_append, List.countP_singleton, if_pos hnew]
  | some index =>
      obtain ⟨hlt, hfree, -⟩ := List.findIdx?_eq_some_iff_getElem.1 hidx
      have hslot : s.slots[index]? = some s.slots[index] := List.getElem?_eq_getElem hlt
      rw [Bool.and_eq_true] at hfree
      have heq : s.startOne template = { s with
          tasks := s.tasks ++ [⟨index, template, none, false, false, none, false⟩]
          slots := s.slots.set index ⟨template, s.tasks.length, false, false⟩ } := by
        unfold startOne
        rw [hidx]
        exact if_neg (Nat.ne_of_lt hlt)
      rw [heq]
      refine ⟨⟨index, rfl, fun i => ?_, rfl, rfl, rfl, fun hslot' htask => ?_⟩,
        ⟨rfl, rfl, rfl, rfl⟩, ?_⟩
      · rw [List.getElem?_set]
        by_cases hi : index = i
        · subst hi
          simp [hlt]
        · rw [if_neg hi, if_neg (Ne.symm hi)]
      · rw [hslot] at hslot'
        obtain rfl := Option.some.inj hslot'
        exact (hs.finished hslot hfree.2 htask).2
      · have hold : isActive queueName template s.slots[index] = false := by
          simp [isActive, hfree.1]
        rw [List.countP_set hlt, if_pos hnew, hold]
        simp

theorem startMany_spec (template : W) : ∀ (n : Nat) (s : Supervisor W), s.Tidy queueName →
    s.RunsAll → s.shuttingDown = false →
    (startMany template n s).Tidy queueName ∧ (startMany template n s).RunsAll ∧
      Keeps s (startMany template n s) ∧
      (startMany template n s).slots.countP (isActive queueName template)
        = s.slots.countP (isActive queueName template) + n := by
  intro n
  induction n with
  | zero => exact fun s hs hruns _ => ⟨hs, hruns, .refl s, rfl⟩
  | succ n ih =>
      intro s hs hruns hup
      obtain ⟨⟨index, hspawned⟩, hkeeps, hcount⟩ := startOne_spawned hs template
      obtain ⟨htidy, hruns', hkeeps', hcount'⟩ := ih (s.startOne template)
        (hs.spawned hup hspawned)
        (RunsAll.spawned hspawned fun _ hslot hret => hruns _ _ hslot hret)
        (hspawned.shuttingDown.trans hup)
      refine ⟨htidy, hruns', hkeeps.trans hkeeps', ?_⟩
      rw [startMany, hcount', hcount]
      omega

/-- Retiring an active slot. -/
theorem retire_spec (hs : s.Tidy queueName) (hruns : s.RunsAll)
    (htemplate : s.template = some template) (hslot : s.slots[i]? = some slot)
    (hactive : isActive queueName template slot = true) :
    (s.retire i).Tidy queueName ∧ (s.retire i).RunsAll ∧ Keeps s (s.retire i) ∧
      (s.retire i).slots.countP (isActive queueName template) + 1
        = s.slots.countP (isActive queueName template) ∧
      ∀ j, j ≠ i → (s.retire i).slots[j]? = s.slots[j]? := by
  have hboth := hactive
  rw [isActive, Bool.and_eq_true, Bool.not_eq_true', decide_eq_true_eq] at hboth
  unfold retire
  rw [hslot]
  dsimp only
  have hsent := trySend_mailed { s with slots := s.slots.set i { slot with retired := true } }
    slot.sender
  refine ⟨Tidy.mailed ?_ hsent, RunsAll.mailed ?_ hsent, ⟨rfl, rfl, rfl, rfl⟩, ?_,
    fun j hj => ?_⟩
  · exact hs.flagged hslot htemplate hboth.2 ⟨rfl, rfl⟩ rfl fun hfin task htask =>
      (hs.finished hslot hfin htask).2
  · exact hruns.flagged hslot rfl
  · obtain ⟨hlt, hget⟩ := List.getElem?_eq_some_iff.1 hslot
    have hpos : 0 < s.slots.countP (isActive queueName template) :=
      List.countP_pos_iff.2 ⟨slot, hget ▸ List.getElem_mem hlt, hactive⟩
    have hnot : isActive queueName template { slot with retired := true } = false := by
      simp [isActive]
    show (s.slots.set i { slot with retired := true }).countP _ + 1 = _
    rw [List.countP_set hlt, hget, hnot, hactive]
    simp only [if_true, Bool.false_eq_true, if_false]
    omega
  · show (s.slots.set i { slot with retired := true })[j]? = s.slots[j]?
    rw [List.getElem?_set, if_neg (Ne.symm hj)]

theorem retireAll_spec (template : W) (indices : List Nat) : ∀ s : Supervisor W,
    s.Tidy queueName → s.RunsAll → s.template = some template → indices.Nodup →
    (∀ i ∈ indices, i ∈ s.active queueName template) →
    (indices.foldl retire s).Tidy queueName ∧ (indices.foldl retire s).RunsAll ∧
      Keeps s (indices.foldl retire s) ∧
      (indices.foldl retire s).slots.countP (isActive queueName template) + indices.length
        = s.slots.countP (isActive queueName template) := by
  induction indices with
  | nil => exact fun s hs hruns _ _ _ => ⟨hs, hruns, .refl s, rfl⟩
  | cons i indices ih =>
      intro s hs hruns htemplate hnd hall
      obtain ⟨hnotin, hnd⟩ := List.nodup_cons.1 hnd
      obtain ⟨slot, hslot, hactive⟩ := mem_active.1 (hall i (List.mem_cons_self ..))
      obtain ⟨htidy, hruns', hkeeps, hcount, hothers⟩ :=
        retire_spec hs hruns htemplate hslot hactive
      obtain ⟨htidy', hruns'', hkeeps', hcount'⟩ := ih (s.retire i) htidy hruns'
        (hkeeps.template.trans htemplate) hnd fun j hj => by
          obtain ⟨slot', hslot', hactive'⟩ := mem_active.1 (hall j (List.mem_cons_of_mem _ hj))
          have hne : j ≠ i := fun heq => hnotin (heq ▸ hj)
          exact mem_active.2 ⟨slot', (hothers j hne).trans hslot', hactive'⟩
      refine ⟨htidy', hruns'', hkeeps.trans hkeeps', ?_⟩
      rw [List.foldl_cons, List.length_cons]
      omega

/-- Applying a desired count makes it the number of active slots. -/
theorem scale_spec (hs : s.Tidy queueName) (hruns : s.RunsAll) (hup : s.shuttingDown = false)
    (htemplate : s.template = some template) (desired : Nat) :
    (s.scale queueName template desired).Tidy queueName ∧
      (s.scale queueName template desired).RunsAll ∧
      Keeps s (s.scale queueName template desired) ∧
      (s.scale queueName template desired).slots.countP (isActive queueName template)
        = desired := by
  have hlength := @length_active W queueName s template
  unfold scale
  dsimp only
  split
  case isTrue hmore =>
    obtain ⟨htidy, hruns', hkeeps, hcount⟩ := startMany_spec template
      (desired - (s.active queueName template).length) s hs hruns hup
    refine ⟨htidy, hruns', hkeeps, ?_⟩
    rw [hcount]
    omega
  case isFalse hless =>
    have hnd : (s.active queueName template).Nodup := List.Nodup.filter _ List.nodup_range
    have hsub := List.take_sublist
      ((s.active queueName template).length - desired) (s.active queueName template).reverse
    obtain ⟨htidy, hruns', hkeeps, hcount⟩ := retireAll_spec template
      ((s.active queueName template).reverse.take ((s.active queueName template).length - desired))
      s hs hruns htemplate ((List.nodup_reverse.2 hnd).sublist hsub)
      fun i hi => List.mem_reverse.1 (hsub.subset hi)
    refine ⟨htidy, hruns', hkeeps, ?_⟩
    rw [List.length_take, List.length_reverse] at hcount
    omega

/-- Scaling leaves the tasks there were, but for their mailboxes. -/
def OldTasks (s s' : Supervisor W) : Prop :=
  ∀ (t : Nat) (task : Task W), s.tasks[t]? = some task →
    ∃ task', s'.tasks[t]? = some task' ∧ task.Mailed task'

theorem OldTasks.trans (h : OldTasks s s') (h' : OldTasks s' s'') : OldTasks s s'' := by
  intro t task hlookup
  obtain ⟨task', hlookup', hmailed⟩ := h t task hlookup
  obtain ⟨task'', hlookup'', hmailed'⟩ := h' t task' hlookup'
  exact ⟨task'', hlookup'', hmailed.trans hmailed'⟩

theorem Spawned.oldTasks (h : Spawned s index worker delay s') : OldTasks s s' := by
  intro t task hlookup
  rw [h.tasks]
  exact ⟨task, Tally.getElem?_added.2 (.inl hlookup), .refl task⟩

theorem retire_oldTasks (s : Supervisor W) (i : Nat) : OldTasks s (s.retire i) := by
  intro t task hlookup
  unfold retire
  split
  · exact ⟨task, hlookup, .refl task⟩
  · next slot _ => exact (trySend_mailed { s with slots := s.slots.set i { slot with
      retired := true } } slot.sender).forward hlookup

theorem scale_oldTasks (hs : s.Tidy queueName) (hup : s.shuttingDown = false) (template : W)
    (desired : Nat) : OldTasks s (s.scale queueName template desired) := by
  have hstart : ∀ (n : Nat) (s : Supervisor W), s.Tidy queueName → s.shuttingDown = false →
      OldTasks s (startMany template n s) := by
    intro n
    induction n with
    | zero => exact fun s _ _ t task hlookup => ⟨task, hlookup, .refl task⟩
    | succ n ih =>
        intro s hs hup
        obtain ⟨⟨index, hspawned⟩, -, -⟩ := startOne_spawned hs template
        exact OldTasks.trans hspawned.oldTasks
          (ih (s.startOne template) (hs.spawned hup hspawned) (hspawned.shuttingDown.trans hup))
  have hretire : ∀ (indices : List Nat) (s : Supervisor W),
      OldTasks s (indices.foldl retire s) := by
    intro indices
    induction indices with
    | nil => exact fun s t task hlookup => ⟨task, hlookup, .refl task⟩
    | cons i indices ih =>
        exact fun s => OldTasks.trans (retire_oldTasks s i) (ih (s.retire i))
  unfold scale
  dsimp only
  split
  · exact hstart _ s hs hup
  · exact hretire _ s

-- == ended tasks

/-- What the supervisor does when it joins a task: nothing, or it marks
the slot finished, or it restarts the worker in the slot. -/
inductive Joined (s : Supervisor W) (t : TaskId) (task : Task W) (slot : Slot W) :
    Supervisor W → Prop
  | ignored : s.shuttingDown = true →
      Joined s t task slot { s with tasks := s.tasks.set t { task with joined := true } }
  | finished : slot.retired = true →
      Joined s t task slot { s with
        tasks := s.tasks.set t { task with joined := true }
        slots := s.slots.set task.index { slot with finished := true } }
  | restarted : slot.retired = false → s.shuttingDown = false →
      Joined s t task slot { s with
        tasks := s.tasks.set t { task with joined := true } ++
          [⟨task.index, slot.template, some workerRestartDelay, false, false, none, false⟩]
        slots := s.slots.set task.index { slot with sender := s.tasks.length } }

theorem taskEnded_joined (hslot : s.slots[task.index]? = some slot) (e : TaskEnd) :
    Joined s t task slot
      (taskEnded { s with tasks := s.tasks.set t { task with joined := true } } task.index e) := by
  unfold taskEnded
  dsimp only
  rw [hslot]
  dsimp only
  split
  · next hstop =>
      rw [Bool.and_eq_true] at hstop
      exact .ignored hstop.2
  · split
    · next hret => exact .finished hret
    · next hret =>
        split
        · next hdown => exact .ignored hdown
        · next hup =>
            have heq : (s.tasks.set t { task with joined := true }).length = s.tasks.length :=
              List.length_set
            simp only [spawnWorker, heq]
            exact .restarted (by simpa using hret) (by simpa using hup)

theorem Task.moved_joined (hend : task.ended.isSome = true) :
    Task.Moved task { task with joined := true } :=
  ⟨rfl, rfl, rfl, id, fun _ => rfl, id, fun _ => hend⟩

/-- The slot of a task that was not joined is another slot than those
whose current task is another one. -/
theorem Tidy.sender_ne (hs : s.Tidy queueName) (htask : s.tasks[t]? = some task)
    (hslot : s.slots[i]? = some slot) (hi : i ≠ task.index) : slot.sender ≠ t := by
  rintro rfl
  obtain ⟨task₀, htask₀, hindex, -⟩ := hs.current hslot
  obtain rfl := Option.some.inj (htask.symm.trans htask₀)
  exact hi hindex.symm

theorem Joined.spawned (hs : s.Tidy queueName) (htask : s.tasks[t]? = some task)
    (hslot : s.slots[task.index]? = some slot) (hsender : slot.sender = t)
    (hret : slot.retired = false) :
    Spawned { s with tasks := s.tasks.set t { task with joined := true } } task.index
      slot.template (some workerRestartDelay) { s with
        tasks := s.tasks.set t { task with joined := true } ++
          [⟨task.index, slot.template, some workerRestartDelay, false, false, none, false⟩]
        slots := s.slots.set task.index { slot with sender := s.tasks.length } } where
  tasks := rfl
  slots j := by
    have hfin : slot.finished = false := by
      refine Bool.eq_false_iff.2 fun hfin => ?_
      exact absurd (hret.symm.trans (hs.finished hslot hfin (hsender ▸ htask)).1) nofun
    have hlength : (s.tasks.set t { task with joined := true }).length = s.tasks.length :=
      List.length_set
    obtain ⟨hlt, -⟩ := List.getElem?_eq_some_iff.1 hslot
    dsimp only
    rw [List.getElem?_set, hlength]
    by_cases hj : task.index = j
    · rw [if_pos hj, if_pos hj.symm, if_pos (hj ▸ hlt), hret, hfin]
    · rw [if_neg hj, if_neg (Ne.symm hj)]
  template := rfl
  shuttingDown := rfl
  returned := rfl
  free hslot' htask' := by
    obtain rfl := Option.some.inj (hslot.symm.trans hslot')
    rcases (Tally.getElem?_replaced htask).1 htask' with ⟨-, rfl⟩ | ⟨hne, -⟩
    · rfl
    · exact absurd hsender hne

theorem Joined.keeps (h : Joined s t task slot s') : Keeps s s' := by
  cases h <;> exact ⟨rfl, rfl, rfl, rfl⟩

/-- No slot is retired by the end of its task. -/
theorem Joined.alive (hslot : s.slots[task.index]? = some slot) (h : Joined s t task slot s')
    (hlookup : s.slots[i]? = some slot') (hret : slot'.retired = false) :
    ∃ slot₁, s'.slots[i]? = some slot₁ ∧ slot₁.retired = false := by
  cases h with
  | ignored => exact ⟨slot', hlookup, hret⟩
  | finished hretired =>
      refine ⟨slot', (Tally.getElem?_replaced hslot).2 (.inr ⟨?_, hlookup⟩), hret⟩
      rintro rfl
      obtain rfl := Option.some.inj (hslot.symm.trans hlookup)
      exact absurd (hretired.symm.trans hret) nofun
  | restarted hretired =>
      by_cases hi : i = task.index
      · exact ⟨_, (Tally.getElem?_replaced hslot).2 (.inl ⟨hi, rfl⟩), hretired⟩
      · exact ⟨slot', (Tally.getElem?_replaced hslot).2 (.inr ⟨hi, hlookup⟩), hret⟩

theorem Joined.keptTidy (hs : s.Tidy queueName) (htask : s.tasks[t]? = some task)
    (hend : task.ended.isSome = true) (hslot : s.slots[task.index]? = some slot)
    (hsender : slot.sender = t) (h : Joined s t task slot s') : s'.Tidy queueName := by
  have hmoved := hs.moved htask (Task.moved_joined hend)
  cases h with
  | ignored hdown => exact hmoved
  | finished hret =>
      obtain ⟨template, htemplate, hqueue⟩ := hs.retired hslot hret
      refine hmoved.flagged hslot htemplate hqueue ⟨rfl, rfl⟩ hret fun _ task' htask' => ?_
      rw [hsender] at htask'
      rcases (Tally.getElem?_replaced htask).1 htask' with ⟨-, rfl⟩ | ⟨hne, -⟩
      · rfl
      · exact absurd rfl hne
  | restarted hret hup => exact hmoved.spawned hup (Joined.spawned hs htask hslot hsender hret)

theorem Joined.runsAll (hs : s.Tidy queueName) (hruns : s.shuttingDown = false → s.RunsAll)
    (htask : s.tasks[t]? = some task) (hslot : s.slots[task.index]? = some slot)
    (hsender : slot.sender = t) (h : Joined s t task slot s') :
    s'.shuttingDown = false → s'.RunsAll := by
  -- the slots of other tasks run as before
  have hothers : s.shuttingDown = false → ∀ {i : Nat} {slot' : Slot W}, i ≠ task.index →
      s.slots[i]? = some slot' → slot'.retired = false →
      ∃ task', (s.tasks.set t { task with joined := true })[slot'.sender]? = some task' ∧
        task'.joined = false := by
    intro hup i slot' hi hslot' hret'
    obtain ⟨task', htask', hjoined'⟩ := hruns hup i slot' hslot' hret'
    exact ⟨task', (Tally.getElem?_replaced htask).2 (.inr ⟨hs.sender_ne htask hslot' hi, htask'⟩),
      hjoined'⟩
  cases h with
  | ignored hdown => exact fun hup => absurd (hdown.symm.trans hup) nofun
  | finished hret =>
      intro hup i slot' hslot' hret'
      rcases (Tally.getElem?_replaced hslot).1 hslot' with ⟨-, rfl⟩ | ⟨hi, hold⟩
      · exact absurd (hret.symm.trans hret') nofun
      · exact hothers hup hi hold hret'
  | restarted hret hup =>
      intro _
      exact RunsAll.spawned (Joined.spawned hs htask hslot hsender hret) (hothers hup)

-- == shutting down

theorem stopAll_shuttingDown (s : Supervisor W) :
    ({ s with shuttingDown := true } : Supervisor W).stopAll
      = { s.stopAll with shuttingDown := true } := by
  have hfold : ∀ (slots : List (Slot W)) (s : Supervisor W),
      slots.foldl (fun s slot => s.trySend slot.sender) { s with shuttingDown := true }
        = { slots.foldl (fun s slot => s.trySend slot.sender) s with shuttingDown := true } := by
    intro slots
    induction slots with
    | nil => exact fun s => rfl
    | cons slot slots ih => exact fun s => ih (s.trySend slot.sender)
  exact hfold s.slots s

/-- The shutdown branch tells every task still running to stop. -/
theorem Tidy.stopAll (hs : s.Tidy queueName) :
    ({ s with shuttingDown := true } : Supervisor W).stopAll.Tidy queueName := by
  have htold := foldl_trySend_told s.slots s hs.mail
  have htidy : s.stopAll.Tidy queueName := hs.mailed (stopAll_mailed s)
  rw [stopAll_shuttingDown]
  exact {
    current := htidy.current
    waited := htidy.waited
    finished := htidy.finished
    retired := htidy.retired
    mail := htidy.mail
    told := by
      intro _ t task hlookup hend
      have hlookup' : s.stopAll.tasks[t]? = some task := hlookup
      have hjoined : task.joined = false := by
        refine Bool.eq_false_iff.2 fun hjoined => ?_
        have hsome := htidy.ended hlookup' hjoined
        rw [hend] at hsome
        cases hsome
      obtain ⟨slot, hslot, hsender⟩ := htidy.waited hlookup' hjoined
      have hslots : s.stopAll.slots = s.slots := (stopAll_mailed s).slots
      rw [hslots] at hslot
      exact htold slot (List.mem_of_getElem? hslot) task (hsender ▸ hlookup') hend
    ended := htidy.ended }

theorem getElem?_map_zipIdx {α β : Type} (f : α × Nat → β) (l : List α) {x : β} :
    (l.zipIdx.map f)[i]? = some x ↔ ∃ a, l[i]? = some a ∧ x = f (a, i) := by
  rw [List.getElem?_map, List.getElem?_zipIdx]
  cases l[i]? with
  | none => simp
  | some a => simp [eq_comm]

/-- The supervisor starts tidy. -/
theorem start_tidy (workers : List W) (template : Option W) (signal : Bool) :
    (start workers template signal).Tidy queueName ∧
      (signal = false → (start workers template signal).RunsAll) := by
  let s₀ : Supervisor W :=
    { slots := workers.zipIdx.map fun e => ⟨e.1, e.2, false, false⟩
      tasks := workers.zipIdx.map fun e => ⟨e.2, e.1, none, false, false, none, false⟩
      template := template
      desired := template.map fun _ => ⟨none, false⟩
      signal := signal
      shuttingDown := false
      returned := false }
  have hslots : ∀ {i : Nat} {slot : Slot W}, s₀.slots[i]? = some slot ↔
      ∃ w, workers[i]? = some w ∧ slot = ⟨w, i, false, false⟩ := by
    intro i slot
    exact getElem?_map_zipIdx _ workers
  have htasks : ∀ {t : Nat} {task : Task W}, s₀.tasks[t]? = some task ↔
      ∃ w, workers[t]? = some w ∧ task = ⟨t, w, none, false, false, none, false⟩ := by
    intro t task
    exact getElem?_map_zipIdx _ workers
  have htidy : s₀.Tidy queueName :=
    { current := by
        intro i slot hslot
        obtain ⟨w, hw, rfl⟩ := hslots.1 hslot
        exact ⟨_, htasks.2 ⟨w, hw, rfl⟩, rfl, rfl⟩
      waited := by
        intro t task htask _
        obtain ⟨w, hw, rfl⟩ := htasks.1 htask
        exact ⟨_, hslots.2 ⟨w, hw, rfl⟩, rfl⟩
      finished := by
        intro i slot task hslot hfin
        obtain ⟨w, -, rfl⟩ := hslots.1 hslot
        cases hfin
      retired := by
        intro i slot hslot hret
        obtain ⟨w, -, rfl⟩ := hslots.1 hslot
        cases hret
      mail := by
        intro t task htask hmail
        obtain ⟨w, -, rfl⟩ := htasks.1 htask
        cases hmail
      told := nofun
      ended := by
        intro t task htask hjoined
        obtain ⟨w, -, rfl⟩ := htasks.1 htask
        cases hjoined }
  cases signal with
  | true => exact ⟨htidy.stopAll, nofun⟩
  | false =>
      refine ⟨htidy, fun _ i slot hslot _ => ?_⟩
      obtain ⟨w, hw, rfl⟩ := hslots.1 hslot
      exact ⟨_, htasks.2 ⟨w, hw, rfl⟩, rfl⟩

end Supervisor

end Pool

end Hammerwork
