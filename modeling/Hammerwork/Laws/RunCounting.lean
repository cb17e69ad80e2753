/-
What the statistics count, over any interleaving of runs.

The collector orders events by their timestamps, and the statistics tell
the runs of a job apart by nothing but that order: a `Retried` after a
`TimedOut` ends the same run, and a job runs if its last event is
`Started`. A run records its last events when its outcome is already in
the queue and the next run of the job may have begun. So the statistics
are right (`Counted`) as long as every event is recorded in its turn
(`InTurn`): behind the events of its own and earlier runs of the job and
before those of later ones, and not after the run that follows ended.

# The proof

Recording in turn keeps the events of a job run after run (`Orderly`).
The totals are then totals over the runs (`Lib.KeyedStream`): each run
begins with `Started`, which is counted alike after anything, so no run
changes what the others add. A job's last event is that of its last run.
-/
import Hammerwork.Statistics
import Hammerwork.Lib.Grouping
import Hammerwork.Lib.KeyedStream
import Hammerwork.Lib.Run
import Hammerwork.Lib.StampedLog

namespace Hammerwork

-- == what is meant

namespace TrackedRun

/-- The types of the events recorded of a run. -/
def types (run : TrackedRun) : List JobEventType := run.recorded.map (·.eventType)

/-- All events of the run are recorded, or its `TimedOut` is. -/
def isProcessed (run : TrackedRun) : Bool :=
  (run.outcome.isSome && run.types = run.script.map (·.1)) || .timedOut ∈ run.types

/-- The run is recorded to have started, and not to have ended. -/
def isUnderWay (run : TrackedRun) : Bool := run.types = [.started]

end TrackedRun

namespace Statistics

def Step (config : StatsConfig) (s : State) (e : Event) (s' : State) : Prop :=
  s.next config e = some s'

/-- What is expected of the statistics. -/
structure Counted (s : State) (window : Duration) : Prop where
  totalProcessed : (getSystemStatistics s.events window s.clock).totalProcessed
    = s.runs.countP (·.isProcessed)
  completed : (getSystemStatistics s.events window s.clock).completed
    = s.runs.countP (.completed ∈ ·.types)
  timedOut : (getSystemStatistics s.events window s.clock).timedOut
    = s.runs.countP (.timedOut ∈ ·.types)
  /-- The jobs with a run under way. -/
  running : (getSystemStatistics s.events window s.clock).running
    = ((s.runs.filter (·.isUnderWay)).map (·.job.id)).dedup.length

/-- Where `event`, of the run at `index`, stands to what is recorded of
the run at `k`: it comes behind the events of its own and earlier runs
and before those of later ones, and ends its run only when the earlier
ones have ended. -/
def Follows (event : JobEvent) (index k : Nat) (other : TrackedRun) : Prop :=
  (k ≤ index → ∀ e ∈ other.recorded, e.timestamp ≤ event.timestamp) ∧
  (index < k → ∀ e ∈ other.recorded, event.timestamp < e.timestamp) ∧
  (k < index → event.eventType ≠ .started → other.isUnderWay = false)

/-- `event` takes its turn among the recorded events of its job. -/
def InTurn (s : State) (index : Nat) (event : JobEvent) : Prop :=
  ∀ k other, s.runs[k]? = some other → other.job.id = event.jobId →
    Follows event index k other

/-- An event that is recorded is recorded in its turn. -/
def RecordsInTurn (s : State) : Event → Prop
  | .record index => ∀ run event, s.runs[index]? = some run → run.built = some event →
      InTurn s index event
  | _ => True

/-- The buffer is large enough: nothing is dropped when an event is
recorded. -/
def HasRoom (config : StatsConfig) (s : State) : Event → Prop
  | .record index => s.events.length < config.maxEvents ∧
      ∀ run event, s.runs[index]? = some run → run.built = some event →
        ∀ e ∈ event :: s.events, config.retentionCutoff s.clock ≤ e.timestamp
  | _ => True

instance (event : JobEvent) (index k : Nat) (other : TrackedRun) :
    Decidable (Follows event index k other) :=
  inferInstanceAs (Decidable (_ ∧ _ ∧ _))

instance (s : State) (index : Nat) (event : JobEvent) : Decidable (InTurn s index event) :=
  decidable_of_iff (∀ k < s.runs.length, ∀ other ∈ s.runs[k]?, other.job.id = event.jobId →
    Follows event index k other)
    ⟨fun h k other hother => h k (List.getElem?_eq_some_iff.1 hother).1 other hother,
      fun h k _ other hother => h k other hother⟩

instance (s : State) : (e : Event) → Decidable (RecordsInTurn s e)
  | .record index => decidable_of_iff (∀ run ∈ s.runs[index]?, ∀ event ∈ run.built,
      InTurn s index event)
      ⟨fun h run event hrun hbuilt => h run hrun event hbuilt,
        fun h run hrun event hbuilt => h run event hrun hbuilt⟩
  | .tick _ | .start _ | .conclude .. | .build _ => isTrue trivial

instance (config : StatsConfig) (s : State) : (e : Event) → Decidable (HasRoom config s e)
  | .record index => decidable_of_iff (s.events.length < config.maxEvents ∧
      ∀ run ∈ s.runs[index]?, ∀ event ∈ run.built, ∀ e ∈ event :: s.events,
        config.retentionCutoff s.clock ≤ e.timestamp)
      ⟨fun h => ⟨h.1, fun run event hrun hbuilt => h.2 run hrun event hbuilt⟩,
        fun h => ⟨h.1, fun run hrun event hbuilt => h.2 run event hrun hbuilt⟩⟩
  | .tick _ | .start _ | .conclude .. | .build _ => isTrue trivial

-- == one run

variable {config : StatsConfig} {s s' : State} {run : TrackedRun} {event : JobEvent}
  {index n : Nat}

/-- A run follows its script. -/
structure Fits (run : TrackedRun) : Prop where
  types : run.types <+: run.script.map (·.1)
  own : ∀ e ∈ run.recorded, e.jobId = run.job.id
  built : ∀ e, run.built = some e → e.jobId = run.job.id ∧
    (run.script.map (·.1))[run.recorded.length]? = some e.eventType
  begun : run.built = none ∨ run.outcome.isSome → run.recorded ≠ []

/-- The scripts there are: before the outcome, and after it. -/
theorem script_cases (run : TrackedRun) :
    (run.outcome.isSome = false ∧ run.script.map (·.1) = [.started]) ∨
    (run.outcome.isSome = true ∧ ∃ t, t ≠ .started ∧ run.script.map (·.1) = [.started, t]) ∨
    (run.outcome.isSome = true ∧ run.script.map (·.1) = [.started, .timedOut, .retried]) := by
  unfold TrackedRun.script
  cases run.outcome with
  | none => exact .inl ⟨rfl, rfl⟩
  | some o =>
      obtain ⟨outcome, ms⟩ := o
      match outcome with
      | .completed => exact .inr (.inl ⟨rfl, .completed, by simp, rfl⟩)
      | .dead _ => exact .inr (.inl ⟨rfl, .dead, by simp, rfl⟩)
      | .timedOut _ => exact .inr (.inl ⟨rfl, .timedOut, by simp, rfl⟩)
      | .retry _ _ false => exact .inr (.inl ⟨rfl, .retried, by simp, rfl⟩)
      | .retry _ _ true => exact .inr (.inr ⟨rfl, rfl⟩)

/-- Only the first event of a run is `Started`. -/
theorem not_started_of_script {i : Nat} {t : JobEventType} (hi : i ≠ 0)
    (h : (run.script.map (·.1))[i]? = some t) : t ≠ .started := by
  obtain ⟨j, rfl⟩ := Nat.exists_eq_succ_of_ne_zero hi
  rcases script_cases run with ⟨-, hs⟩ | ⟨-, u, hu, hs⟩ | ⟨-, hs⟩ <;>
    rw [hs, List.getElem?_cons_succ] at h
  · cases h
  · have hmem := List.mem_of_getElem? h
    rw [List.mem_singleton] at hmem
    exact hmem ▸ hu
  · rintro rfl
    have hmem := List.mem_of_getElem? h
    simp at hmem

/-- What can be recorded of a run, and whether it is processed then. -/
theorem Fits.cases (h : Fits run) :
    (run.types = [] ∧ run.isProcessed = false) ∨
    (run.types = [.started] ∧ run.isProcessed = false) ∨
    (∃ t, t ≠ .started ∧ run.types = [.started, t] ∧ run.isProcessed = true) ∨
    (run.types = [.started, .timedOut, .retried] ∧ run.isProcessed = true) := by
  have htypes := h.types
  unfold TrackedRun.isProcessed
  rcases script_cases run with ⟨ho, hs⟩ | ⟨ho, t, ht, hs⟩ | ⟨ho, hs⟩ <;>
    rw [hs] at htypes ⊢ <;>
    rw [ho] <;>
    simp only [List.prefix_cons_iff, List.prefix_nil] at htypes
  · rcases htypes with h | ⟨_, h, rfl⟩ <;> simp [h]
  · rcases htypes with h | ⟨_, h, rfl | ⟨_, rfl, rfl⟩⟩
    · simp [h]
    · simp [h]
    · exact .inr (.inr (.inl ⟨t, ht, h, by simp [h]⟩))
  · rcases htypes with h | ⟨_, h, rfl | ⟨_, rfl, rfl | ⟨_, rfl, rfl⟩⟩⟩ <;> simp [h]

/-- A run is under way when one event of it is recorded. -/
theorem Fits.isUnderWay_iff (h : Fits run) :
    run.isUnderWay = true ↔ run.recorded.length = 1 := by
  have hlen : run.types.length = run.recorded.length := List.length_map _
  unfold TrackedRun.isUnderWay
  rw [← hlen]
  rcases h.cases with ⟨h, -⟩ | ⟨h, -⟩ | ⟨t, -, h, -⟩ | ⟨h, -⟩ <;> simp [h]

-- == the buffer

@[simp] theorem kept_jobId (config : StatsConfig) (event : JobEvent) :
    (config.kept event).jobId = event.jobId := by
  unfold StatsConfig.kept
  split <;> rfl

@[simp] theorem kept_eventType (config : StatsConfig) (event : JobEvent) :
    (config.kept event).eventType = event.eventType := by
  unfold StatsConfig.kept
  split <;> rfl

@[simp] theorem kept_timestamp (config : StatsConfig) (event : JobEvent) :
    (config.kept event).timestamp = event.timestamp := by
  unfold StatsConfig.kept
  split <;> rfl

/-- Where there is room, an event is put where its timestamp says. -/
theorem recordEvent_eq {now : DateTime} {events : List JobEvent}
    (hsorted : StampedLog.Sorted (·.timestamp) events) (hroom : events.length < config.maxEvents)
    (hkept : ∀ e ∈ event :: events, config.retentionCutoff now ≤ e.timestamp) :
    config.recordEvent now event events
      = StampedLog.insertStamped (·.timestamp) (config.kept event) events := by
  have hfresh : ¬ (config.kept event).timestamp < config.retentionCutoff now := by
    rw [kept_timestamp]
    exact not_lt.2 (hkept event (List.mem_cons_self ..))
  -- both branches insert, since the buffer is sorted
  have hinsert : (if events.getLast?.all (·.timestamp ≤ (config.kept event).timestamp) then
      events ++ [config.kept event]
    else
      events.takeWhile (·.timestamp ≤ (config.kept event).timestamp) ++ config.kept event
        :: events.dropWhile (·.timestamp ≤ (config.kept event).timestamp))
      = StampedLog.insertStamped (·.timestamp) (config.kept event) events := by
    split
    case isTrue hlast =>
      refine (StampedLog.insertStamped_eq_append (hsorted.le_of_getLast fun x hx => ?_)).symm
      rw [Option.all_eq_true] at hlast
      exact of_decide_eq_true (hlast x hx)
    case isFalse => rfl
  have hall : ∀ e ∈ StampedLog.insertStamped (·.timestamp) (config.kept event) events,
      ¬ e.timestamp < config.retentionCutoff now := by
    intro e he
    refine not_lt.2 ?_
    rcases StampedLog.mem_insertStamped.1 he with rfl | he
    · rw [kept_timestamp]
      exact hkept event (List.mem_cons_self ..)
    · exact hkept e (List.mem_cons_of_mem _ he)
  have hlength : (StampedLog.insertStamped (·.timestamp) (config.kept event) events).length
      ≤ config.maxEvents := by
    rw [StampedLog.length_insertStamped]
    exact hroom
  unfold StatsConfig.recordEvent
  dsimp only
  rw [if_neg hfresh, hinsert, List.dropWhile_eq_self_iff.2 fun hl => by
    simpa using hall _ (List.getElem_mem hl), Nat.sub_eq_zero_of_le hlength, List.drop_zero]

-- == the runs of a job

/-- The events recorded of a job's runs, one run after another. -/
def eventsOf (runs : List TrackedRun) (id : JobId) : List JobEvent :=
  (runs.filter (·.job.id = id)).flatMap (·.recorded)

theorem eventsOf_append (runs runs' : List TrackedRun) (id : JobId) :
    eventsOf (runs ++ runs') id = eventsOf runs id ++ eventsOf runs' id := by
  simp [eventsOf]

theorem eventsOf_cons (run : TrackedRun) (runs : List TrackedRun) (id : JobId) :
    eventsOf (run :: runs) id
      = (if run.job.id = id then run.recorded else []) ++ eventsOf runs id := by
  unfold eventsOf
  by_cases h : run.job.id = id <;> simp [h]

theorem mem_eventsOf {runs : List TrackedRun} {id : JobId} {e : JobEvent} :
    e ∈ eventsOf runs id ↔ ∃ run ∈ runs, run.job.id = id ∧ e ∈ run.recorded := by
  unfold eventsOf
  simp only [List.mem_flatMap, List.mem_filter, decide_eq_true_eq, and_assoc]

/-- How a run stands to one that began later. -/
def Before (a b : TrackedRun) : Prop :=
  a.job.id = b.job.id →
    a.recorded ≠ [] ∧ (2 ≤ b.recorded.length → a.isUnderWay = false)

/-- The buffer holds the events of each job run after run. -/
structure Orderly (s : State) : Prop where
  sorted : StampedLog.Sorted (·.timestamp) s.events
  merged : ∀ id, s.events.filter (·.jobId = id) = eventsOf s.runs id
  fits : ∀ run ∈ s.runs, Fits run
  turns : s.runs.Pairwise Before

theorem orderly_initial (clock : DateTime) : Orderly (.initial clock) where
  sorted := List.Pairwise.nil
  merged _ := rfl
  fits _ h := by cases h
  turns := List.Pairwise.nil

/-- The runs before and after one of them, which can be replaced. -/
theorem split_runs {runs : List TrackedRun} (h : runs[index]? = some run) :
    ∃ front back, runs = front ++ run :: back ∧ front.length = index ∧
      ∀ run', runs.set index run' = front ++ run' :: back := by
  obtain ⟨hlt, hget⟩ := List.getElem?_eq_some_iff.1 h
  refine ⟨runs.take index, runs.drop (index + 1), ?_, List.length_take_of_le hlt.le,
    fun run' => List.set_eq_take_append_cons_drop .. |>.trans (if_pos hlt)⟩
  rw [← hget, List.getElem_cons_drop, List.take_append_drop]

-- == a step

/-- One run replaced, and how it stands to the others. -/
theorem pairwise_replaced {front back : List TrackedRun} {run' : TrackedRun}
    (h : (front ++ run :: back).Pairwise Before)
    (hfront : ∀ a ∈ front, Before a run → Before a run')
    (hback : ∀ b ∈ back, Before run b → Before run' b) :
    (front ++ run' :: back).Pairwise Before := by
  obtain ⟨hfirst, hrest, hcross⟩ := List.pairwise_append.1 h
  obtain ⟨hrun, hlast⟩ := List.pairwise_cons.1 hrest
  refine List.pairwise_append.2 ⟨hfirst, List.pairwise_cons.2
    ⟨fun b hb => hback b hb (hrun b hb), hlast⟩, fun a ha b hb => ?_⟩
  rcases List.mem_cons.1 hb with rfl | hb
  · exact hfront a ha (hcross a ha run (List.mem_cons_self ..))
  · exact hcross a ha b (List.mem_cons_of_mem _ hb)

/-- A run goes on without recording anything. -/
theorem Orderly.goOn (h : Orderly s) (hrun : s.runs[index]? = some run) {run' : TrackedRun}
    (hjob : run'.job = run.job) (hrecorded : run'.recorded = run.recorded) (hfits : Fits run') :
    Orderly { s with runs := s.runs.set index run' } := by
  obtain ⟨front, back, hruns, -, hset⟩ := split_runs hrun
  have hunder : run'.isUnderWay = run.isUnderWay := by
    unfold TrackedRun.isUnderWay TrackedRun.types
    rw [hrecorded]
  have hturns := h.turns
  rw [hruns] at hturns
  refine ⟨h.sorted, fun id => ?_, fun other hmem => ?_, ?_⟩
  · rw [h.merged, hset, hruns, eventsOf_append, eventsOf_append, eventsOf_cons, eventsOf_cons,
      hjob, hrecorded]
  · rcases List.mem_or_eq_of_mem_set hmem with hold | rfl
    · exact h.fits other hold
    · exact hfits
  · rw [hset]
    refine pairwise_replaced hturns (fun a _ ha hid => ?_) fun b _ hb hid => ?_
    · rw [hrecorded]
      exact ha (hid.trans (by rw [hjob]))
    · rw [hrecorded, hunder]
      exact hb (by rw [← hid, hjob])

/-- A run begins when the outcome of the job's earlier ones is known. -/
theorem Orderly.start (h : Orderly s) {job : Job} {time : DateTime}
    (hdone : ∀ run ∈ s.runs, run.job.id = job.id → run.outcome.isSome = true) :
    Orderly { s with runs := s.runs ++
      [{ job := job, outcome := none, recorded := [],
         built := some (jobEvent job .started none none time) }] } := by
  refine ⟨h.sorted, fun id => ?_, fun run hmem => ?_, ?_⟩
  · rw [h.merged, eventsOf_append, eventsOf_cons]
    simp [eventsOf]
  · rcases List.mem_append.1 hmem with hold | hnew
    · exact h.fits run hold
    · rw [List.mem_singleton.1 hnew]
      refine ⟨List.nil_prefix, fun e he => (by cases he), fun e he => ?_, fun hb => ?_⟩
      · cases he
        exact ⟨rfl, rfl⟩
      · rcases hb with hb | hb <;> cases hb
  · refine List.pairwise_append.2 ⟨h.turns, List.pairwise_singleton .., fun a ha b hb hid => ?_⟩
    rw [List.mem_singleton.1 hb] at hid ⊢
    exact ⟨(h.fits a ha).begun (.inr (hdone a ha hid)), fun hlen => by simp at hlen⟩

/-- An event is recorded in its turn. -/
theorem Orderly.record (h : Orderly s) (hrun : s.runs[index]? = some run)
    (hbuilt : run.built = some event) (hturn : InTurn s index event) :
    Orderly { s with
      events := StampedLog.insertStamped (·.timestamp) (config.kept event) s.events
      runs := s.runs.set index
        { run with recorded := run.recorded ++ [config.kept event], built := none } } := by
  obtain ⟨front, back, hruns, hindex, hset⟩ := split_runs hrun
  have hmem : run ∈ s.runs := List.mem_of_getElem? hrun
  have hfits := h.fits run hmem
  obtain ⟨hid, hscript⟩ := hfits.built event hbuilt
  have hfront : ∀ a ∈ front, ∃ k < index, s.runs[k]? = some a := by
    intro a ha
    obtain ⟨k, hk, hget⟩ := List.getElem_of_mem ha
    refine ⟨k, hindex ▸ hk, ?_⟩
    rw [hruns, List.getElem?_append_left hk, List.getElem?_eq_getElem hk, hget]
  have hback : ∀ b ∈ back, ∃ k > index, s.runs[k]? = some b := by
    intro b hb
    obtain ⟨k, hk, hget⟩ := List.getElem_of_mem hb
    refine ⟨index + 1 + k, by omega, ?_⟩
    rw [hruns, List.getElem?_append_right (by omega), hindex, Nat.add_assoc,
      Nat.add_sub_cancel_left, Nat.add_comm 1 k, List.getElem?_cons_succ,
      List.getElem?_eq_getElem hk, hget]
  have hturns := h.turns
  rw [hruns] at hturns
  refine ⟨h.sorted.insertStamped _, fun id => ?_, fun other hother => ?_, ?_⟩
  · rw [hset, eventsOf_append, eventsOf_cons]
    have hmerged := h.merged id
    rw [hruns, eventsOf_append, eventsOf_cons] at hmerged
    by_cases hjob : run.job.id = id
    · -- behind the events of this and earlier runs, before those of later ones
      rw [if_pos hjob, ← List.append_assoc] at hmerged
      rw [if_pos hjob, StampedLog.filter_insertStamped h.sorted (by simp [hid, hjob]) hmerged]
      · simp
      · intro e he
        rw [kept_timestamp]
        rcases List.mem_append.1 he with he | he
        · obtain ⟨a, ha, haid, he⟩ := mem_eventsOf.1 he
          obtain ⟨k, hk, hget⟩ := hfront a ha
          exact (hturn k a hget (by rw [haid, hid, hjob])).1 hk.le e he
        · exact (hturn index run hrun hid.symm).1 le_rfl e he
      · intro e he
        rw [kept_timestamp]
        obtain ⟨b, hb, hbid, he⟩ := mem_eventsOf.1 he
        obtain ⟨k, hk, hget⟩ := hback b hb
        exact (hturn k b hget (by rw [hbid, hid, hjob])).2.1 hk e he
    · rw [if_neg hjob] at hmerged ⊢
      rw [StampedLog.filter_insertStamped_of_not (by simp [hid, hjob]), hmerged]
  · rcases List.mem_or_eq_of_mem_set hother with hold | rfl
    · exact h.fits other hold
    · refine ⟨?_, fun e he => ?_, fun e he => (by cases he), fun _ => by simp⟩
      · -- the next event of the script
        have htypes := hfits.types
        have hlen : run.types.length = run.recorded.length := List.length_map _
        show (run.recorded ++ [config.kept event]).map (·.eventType) <+: run.script.map (·.1)
        rw [List.map_append, List.map_singleton, kept_eventType]
        obtain ⟨rest, hrest⟩ := htypes
        rw [← hlen, ← hrest, List.getElem?_append_right le_rfl, Nat.sub_self] at hscript
        cases rest with
        | nil => cases hscript
        | cons t rest =>
            obtain rfl : t = event.eventType := Option.some.inj hscript
            refine ⟨rest, ?_⟩
            rw [← hrest, List.append_assoc]
            rfl
      · rcases List.mem_append.1 he with he | he
        · exact hfits.own e he
        · rw [List.mem_singleton.1 he, kept_jobId]
          exact hid
  · rw [hset]
    refine pairwise_replaced hturns (fun a ha hbefore haid => ?_) fun b _ hbefore hbid => ?_
    · refine ⟨(hbefore haid).1, fun hlen => ?_⟩
      obtain ⟨k, hk, hget⟩ := hfront a ha
      have hne : run.recorded.length ≠ 0 := by
        rw [List.length_append, List.length_singleton] at hlen
        omega
      exact (hturn k a hget (by rw [haid, hid])).2.2 hk (not_started_of_script hne hscript)
    · have hne : run.recorded ≠ [] := (hbefore hbid).1
      refine ⟨by simp, fun _ => ?_⟩
      -- two events of it are recorded
      cases hrecorded : run.recorded with
      | nil => exact absurd hrecorded hne
      | cons e rest => simp [TrackedRun.isUnderWay, TrackedRun.types]

/-- A step that records in turn, and drops nothing, leaves the buffer
orderly. -/
theorem Orderly.next {e : Event} (h : Orderly s) (hstep : Step config s e s')
    (hroom : HasRoom config s e) (hturn : RecordsInTurn s e) : Orderly s' := by
  unfold Step at hstep
  cases e with
  | tick now =>
      obtain rfl := Option.some.inj hstep
      exact ⟨h.sorted, h.merged, h.fits, h.turns⟩
  | start job =>
      simp only [State.next] at hstep
      split at hstep
      case isFalse => cases hstep
      case isTrue hdone =>
        obtain rfl := Option.some.inj hstep
        refine h.start fun run hrun hid => ?_
        have := List.all_eq_true.1 hdone run hrun
        simpa [hid] using this
  | conclude index outcome ms =>
      simp only [State.next] at hstep
      cases hrun : s.runs[index]? with
      | none => simp [hrun] at hstep
      | some run =>
          simp only [hrun] at hstep
          split at hstep
          case isFalse => cases hstep
          case isTrue hcond =>
            obtain rfl := Option.some.inj hstep
            have hfits := h.fits run (List.mem_of_getElem? hrun)
            have hbuilt : run.built = none := Option.isNone_iff_eq_none.1 hcond.2
            have houtcome : run.outcome = none := Option.isNone_iff_eq_none.1 hcond.1
            refine h.goOn hrun rfl rfl ⟨?_, hfits.own, fun e he => ?_, fun _ => ?_⟩
            · -- the script so far is the beginning of the new one
              refine hfits.types.trans ?_
              simp [TrackedRun.script, houtcome]
            · rw [hbuilt] at he
              cases he
            · exact hfits.begun (.inl hbuilt)
  | build index =>
      simp only [State.next] at hstep
      cases hrun : s.runs[index]? with
      | none => simp [hrun] at hstep
      | some run =>
          simp only [hrun] at hstep
          split at hstep
          case h_1 eventType time error hbuilt hscript =>
            obtain rfl := Option.some.inj hstep
            have hfits := h.fits run (List.mem_of_getElem? hrun)
            refine h.goOn hrun rfl rfl ⟨hfits.types, hfits.own, fun e he => ?_, fun _ => ?_⟩
            · obtain rfl := Option.some.inj he
              refine ⟨rfl, ?_⟩
              show (run.script.map (·.1))[run.recorded.length]? = some eventType
              rw [List.getElem?_map, hscript]
              rfl
            · exact hfits.begun (.inl hbuilt)
          case h_2 => cases hstep
  | record index =>
      simp only [State.next] at hstep
      cases hrun : s.runs[index]? with
      | none => simp [hrun] at hstep
      | some run =>
          simp only [hrun] at hstep
          cases hbuilt : run.built with
          | none => simp [hbuilt] at hstep
          | some event =>
              simp only [hbuilt] at hstep
              obtain rfl := Option.some.inj hstep
              rw [recordEvent_eq h.sorted hroom.1 (hroom.2 run event hrun hbuilt)]
              exact h.record hrun hbuilt (hturn run event hrun hbuilt)

-- == totals

/-- Every event but the `Retried` of a run that is counted. -/
def eventWeight (prev : Option JobEventType) (t : JobEventType) : Nat :=
  if t = .retried ∧ prev = some .timedOut then 0 else 1

/-- The events of one type. -/
def typeWeight (type : JobEventType) (_ : Option JobEventType) (t : JobEventType) : Nat :=
  if t = type then 1 else 0

theorem add_lastEvent (totals : StatsAccumulator) (event : JobEvent) (id : JobId) :
    (totals.add event).lastEvent.lookup id
      = Function.update (totals.lastEvent.lookup ·) event.jobId (some event.eventType) id := by
  have hlast : (totals.add event).lastEvent
      = totals.lastEvent.insert event.jobId event.eventType := by
    unfold StatsAccumulator.add StatsAccumulator.addTime
    dsimp only
    split
    · rfl
    · cases event.processingTimeMs <;> cases event.eventType <;> rfl
  rw [hlast, Table.lookup_insert_if, Function.update_apply]

theorem add_events (totals : StatsAccumulator) (event : JobEvent) :
    (totals.add event).events
      = totals.events + eventWeight (totals.lastEvent.lookup event.jobId) event.eventType := by
  unfold StatsAccumulator.add StatsAccumulator.addTime eventWeight
  dsimp only
  split
  · rfl
  · cases event.processingTimeMs <;> cases event.eventType <;> rfl

/-- The counter of a type. -/
def counterOf (type : JobEventType) (totals : StatsAccumulator) : Nat :=
  match type with
  | .started => totals.started
  | .completed => totals.completed
  | .failed => totals.failed
  | .retried => totals.retried
  | .dead => totals.dead
  | .timedOut => totals.timedOut

theorem add_counterOf {type : JobEventType} (htype : type ≠ .retried)
    (totals : StatsAccumulator) (event : JobEvent) :
    counterOf type (totals.add event) = counterOf type totals
      + typeWeight type (totals.lastEvent.lookup event.jobId) event.eventType := by
  unfold StatsAccumulator.add StatsAccumulator.addTime typeWeight
  dsimp only
  split
  case isTrue h =>
    rw [h.1, if_neg htype.symm]
    rfl
  case isFalse =>
    cases event.processingTimeMs <;> cases event.eventType <;> cases type <;> rfl

/-- A counter is the total of what each event adds to it. -/
theorem foldl_counter {counter : StatsAccumulator → Nat}
    {w : Option JobEventType → JobEventType → Nat}
    (hadd : ∀ totals event, counter (totals.add event)
      = counter totals + w (totals.lastEvent.lookup event.jobId) event.eventType)
    (events : List JobEvent) : ∀ totals : StatsAccumulator,
    counter (events.foldl .add totals) = counter totals
      + KeyedStream.weighKeyed (·.jobId) (·.eventType) w (totals.lastEvent.lookup ·) events := by
  induction events with
  | nil => exact fun _ => rfl
  | cons event events ih =>
      intro totals
      have hlast := funext (add_lastEvent totals event)
      rw [List.foldl_cons, ih, hadd, KeyedStream.weighKeyed, hlast, Nat.add_assoc]

/-- What is weighed alike whenever a run starts is totalled run by
run. -/
theorem Orderly.weigh_runs (h : Orderly s) {w : Option JobEventType → JobEventType → Nat}
    (hw : KeyedStream.Restarts w .started) :
    KeyedStream.weighKeyed (·.jobId) (·.eventType) w (fun _ => none) s.events
      = tally (fun run => KeyedStream.weigh w none run.types) s.runs := by
  have hnd : (s.runs.map (·.job.id)).dedup.Nodup := List.nodup_dedup _
  have hcover : ∀ e ∈ s.events, e.jobId ∈ (s.runs.map (·.job.id)).dedup := by
    intro e he
    have hmem : e ∈ s.events.filter (·.jobId = e.jobId) :=
      List.mem_filter.2 ⟨he, decide_eq_true rfl⟩
    rw [h.merged] at hmem
    obtain ⟨run, hrun, hid, -⟩ := mem_eventsOf.1 hmem
    exact List.mem_dedup.2 (List.mem_map.2 ⟨run, hrun, hid⟩)
  have hbegins : ∀ run ∈ s.runs, KeyedStream.Begins w run.types := by
    intro run hrun t ht
    rcases (h.fits run hrun).cases with ⟨h, -⟩ | ⟨h, -⟩ | ⟨u, -, h, -⟩ | ⟨h, -⟩ <;>
      rw [h] at ht <;> cases ht <;> exact hw
  -- the stream of a job is that of its runs
  have hjob : ∀ id, KeyedStream.weigh w none
        ((s.events.filter (·.jobId = id)).map (·.eventType))
      = tally (fun run => KeyedStream.weigh w none run.types)
          (s.runs.filter (·.job.id = id)) := by
    intro id
    rw [h.merged, eventsOf, List.map_flatMap]
    exact KeyedStream.weigh_parts fun run hrun => hbegins run (List.mem_filter.1 hrun).1
  rw [KeyedStream.weighKeyed_eq hnd hcover, Tally.tally_congr fun id _ => hjob id]
  have hgrouped : (Grouping.grouped (fun run : TrackedRun => run.job.id) s.runs
      (s.runs.map (·.job.id)).dedup).Perm s.runs :=
    Grouping.grouped_perm hnd fun run hrun => List.mem_dedup.2 (List.mem_map_of_mem hrun)
  rw [← Tally.tally_perm hgrouped]
  unfold Grouping.grouped
  rw [Tally.tally_flatMap]

/-- What a run adds to the counters. -/
theorem Fits.weigh_events (h : Fits run) :
    KeyedStream.weigh eventWeight none run.types
      = KeyedStream.weigh (typeWeight .started) none run.types
        + if run.isProcessed then 1 else 0 := by
  rcases h.cases with ⟨h, hp⟩ | ⟨h, hp⟩ | ⟨t, ht, h, hp⟩ | ⟨h, hp⟩ <;> rw [h, hp] <;>
    simp [KeyedStream.weigh, eventWeight, typeWeight]
  exact ht

theorem Fits.weigh_type (h : Fits run) {type : JobEventType} (htype : type ≠ .started) :
    KeyedStream.weigh (typeWeight type) none run.types
      = if type ∈ run.types then 1 else 0 := by
  rcases h.cases with ⟨h, -⟩ | ⟨h, -⟩ | ⟨t, ht, h, -⟩ | ⟨h, -⟩ <;> rw [h]
  · rfl
  · simp [KeyedStream.weigh, typeWeight, htype, htype.symm]
  · simp [KeyedStream.weigh, typeWeight, htype, htype.symm, eq_comm]
  · cases type <;> simp [KeyedStream.weigh, typeWeight] at htype ⊢

-- == running

/-- The last event of each job is remembered. -/
theorem foldl_lastEvent (id : JobId) (events : List JobEvent) : ∀ totals : StatsAccumulator,
    (events.foldl .add totals).lastEvent.lookup id
      = ((events.filter (·.jobId = id)).getLast?.map (·.eventType)).or
          (totals.lastEvent.lookup id) := by
  induction events with
  | nil => exact fun _ => rfl
  | cons event events ih =>
      intro totals
      rw [List.foldl_cons, ih, add_lastEvent, Function.update_apply, List.filter_cons]
      by_cases hid : event.jobId = id
      · rw [if_pos hid.symm, if_pos (decide_eq_true hid), List.getLast?_cons]
        cases (events.filter (·.jobId = id)).getLast? <;> rfl
      · rw [if_neg (Ne.symm hid), if_neg (by simpa using hid)]

/-- Of runs one after another, the last event recorded is `Started` when
one is under way. -/
theorem last_started_iff (id : JobId) : ∀ {runs : List TrackedRun}, (∀ run ∈ runs, Fits run) →
    (∀ run ∈ runs, run.job.id = id) → runs.Pairwise Before →
    ((runs.flatMap (·.recorded)).getLast?.map (·.eventType) = some .started ↔
      ∃ run ∈ runs, run.isUnderWay = true) := by
  intro runs
  induction runs with
  | nil => intro _ _ _; simp
  | cons run runs ih =>
      intro hfits hids hturns
      obtain ⟨hrun, hturns⟩ := List.pairwise_cons.1 hturns
      have hfit := hfits run (List.mem_cons_self ..)
      have hrest := ih (fun r hr => hfits r (List.mem_cons_of_mem _ hr))
        (fun r hr => hids r (List.mem_cons_of_mem _ hr)) hturns
      rw [List.flatMap_cons, List.getLast?_append]
      cases hlast : (runs.flatMap (·.recorded)).getLast? with
      | some e =>
          -- a later run recorded something, so if this one is under way, so is that
          rw [Option.some_or, ← hlast, hrest]
          simp only [List.mem_cons, exists_eq_or_imp]
          refine (or_iff_right_of_imp fun hunder => ?_).symm
          obtain ⟨r, hr, he⟩ := List.mem_flatMap.1 (List.mem_of_getLast? hlast)
          have hr' : r ∈ run :: runs := List.mem_cons_of_mem _ hr
          refine ⟨r, hr, ((hfits r hr').isUnderWay_iff).2 ?_⟩
          have hpos := List.length_pos_of_mem he
          have hsame : run.job.id = r.job.id :=
            (hids run (List.mem_cons_self ..)).trans (hids r hr').symm
          by_contra hne
          have hended := (hrun r hr hsame).2 (by omega)
          rw [hended] at hunder
          cases hunder
      | none =>
          have hnone : ∀ r ∈ runs, r.recorded = [] := by
            rw [List.getLast?_eq_none_iff, List.flatMap_eq_nil_iff] at hlast
            exact hlast
          rw [Option.none_or]
          constructor
          · intro hstarted
            refine ⟨run, List.mem_cons_self .., ?_⟩
            have htypes : run.types.getLast? = some .started := by
              unfold TrackedRun.types
              rw [List.getLast?_map]
              exact hstarted
            unfold TrackedRun.isUnderWay
            rcases hfit.cases with ⟨h, -⟩ | ⟨h, -⟩ | ⟨t, ht, h, -⟩ | ⟨h, -⟩ <;> rw [h] at htypes ⊢
            · cases htypes
            · rfl
            · exact absurd (Option.some.inj htypes) ht
            · cases htypes
          · intro ⟨r, hr, hunder⟩
            rcases List.mem_cons.1 hr with rfl | hr
            · have htypes : r.types = [.started] := by simpa [TrackedRun.isUnderWay] using hunder
              rw [← List.getLast?_map]
              show r.types.getLast? = _
              rw [htypes]
              rfl
            · rw [((hfits r (List.mem_cons_of_mem _ hr)).isUnderWay_iff), hnone r hr] at hunder
              cases hunder

/-- The jobs whose last event is `Started` are those with a run under
way. -/
theorem Orderly.running (h : Orderly s) (id : JobId) :
    (s.events.foldl StatsAccumulator.add {}).lastEvent.lookup id = some .started ↔
      id ∈ ((s.runs.filter (·.isUnderWay)).map (·.job.id)).dedup := by
  have hempty : ({} : StatsAccumulator).lastEvent.lookup id = none := AList.lookup_empty id
  rw [foldl_lastEvent, hempty, Option.or_none, h.merged, eventsOf,
    last_started_iff id (fun run hrun => h.fits run (List.mem_filter.1 hrun).1)
      (fun run hrun => of_decide_eq_true (List.mem_filter.1 hrun).2)
      (h.turns.filter _)]
  simp only [List.mem_filter, decide_eq_true_eq, List.mem_dedup, List.mem_map]
  constructor
  · intro ⟨run, ⟨hrun, hid⟩, hunder⟩
    exact ⟨run, ⟨hrun, hunder⟩, hid⟩
  · intro ⟨run, ⟨hrun, hunder⟩, hid⟩
    exact ⟨run, ⟨hrun, hid⟩, hunder⟩

-- == every interleaving

/-- A window that contains all events sees the whole buffer. -/
theorem getSystemStatistics_all {events : List JobEvent} {window : Duration} {now : DateTime}
    (hall : ∀ e ∈ events, cutoffBefore now window ≤ e.timestamp) :
    getSystemStatistics events window now
      = (events.foldl StatsAccumulator.add {}).finish window now := by
  unfold getSystemStatistics aggregateWindow
  rw [List.filter_true, List.dropWhile_eq_self_iff.2 fun hl => by
    simpa using hall _ (List.getElem_mem hl)]

/-- A counter, run by run. -/
theorem Orderly.counter (h : Orderly s) {counter : StatsAccumulator → Nat}
    {w : Option JobEventType → JobEventType → Nat}
    (hadd : ∀ totals event, counter (totals.add event)
      = counter totals + w (totals.lastEvent.lookup event.jobId) event.eventType)
    (hw : KeyedStream.Restarts w .started) (hzero : counter {} = 0) :
    counter (s.events.foldl StatsAccumulator.add {})
      = tally (fun run => KeyedStream.weigh w none run.types) s.runs := by
  have hempty : ∀ id, ({} : StatsAccumulator).lastEvent.lookup id = none := AList.lookup_empty
  rw [foldl_counter hadd, hzero, Nat.zero_add, ← h.weigh_runs hw]
  simp only [hempty]

/-- The events counted. -/
theorem Orderly.events_eq (h : Orderly s) :
    (s.events.foldl StatsAccumulator.add {}).events
      = tally (fun run => KeyedStream.weigh eventWeight none run.types) s.runs :=
  h.counter add_events (fun _ => by simp [eventWeight]) rfl

/-- Every run processed is counted besides its start. -/
theorem Orderly.processed_eq (h : Orderly s) :
    (s.events.foldl StatsAccumulator.add {}).events
      = (s.events.foldl StatsAccumulator.add {}).started + s.runs.countP (·.isProcessed) := by
  have hstarted : counterOf .started (s.events.foldl StatsAccumulator.add {}) = _ :=
    h.counter (add_counterOf (by simp)) (fun _ => rfl) rfl
  rw [h.events_eq, Tally.tally_congr fun run hrun => (h.fits run hrun).weigh_events,
    Tally.tally_add, Tally.tally_countP, ← hstarted]
  rfl

/-- Every run that ended in some way is counted as such. -/
theorem Orderly.ended_eq (h : Orderly s) (type : JobEventType) (hretried : type ≠ .retried)
    (hstarted : type ≠ .started) :
    counterOf type (s.events.foldl StatsAccumulator.add {})
      = s.runs.countP (type ∈ ·.types) := by
  rw [h.counter (add_counterOf hretried) (fun _ => rfl) (by cases type <;> rfl),
    Tally.tally_congr fun run hrun => (h.fits run hrun).weigh_type hstarted,
    ← Tally.tally_countP]
  simp

/-- Where nothing is counted, nothing is recorded. -/
theorem Orderly.none_recorded (h : Orderly s)
    (hzero : (s.events.foldl StatsAccumulator.add {}).events = 0) :
    ∀ run ∈ s.runs, run.types = [] ∧ run.isProcessed = false := by
  intro run hrun
  rw [h.events_eq, Tally.tally_eq_zero] at hzero
  have hweigh := hzero run hrun
  rcases (h.fits run hrun).cases with hnone | ⟨htypes, -⟩ | ⟨t, -, htypes, -⟩ | ⟨htypes, -⟩
  · exact hnone
  all_goals
    rw [htypes] at hweigh
    simp [KeyedStream.weigh, eventWeight] at hweigh

/-- Of an orderly buffer the statistics are right. -/
theorem Orderly.counted (h : Orderly s) {window : Duration}
    (hall : ∀ e ∈ s.events, cutoffBefore s.clock window ≤ e.timestamp) : Counted s window := by
  have hstats := getSystemStatistics_all hall
  unfold StatsAccumulator.finish at hstats
  split at hstats
  case isTrue hzero =>
    have hnone := h.none_recorded hzero
    refine ⟨?_, ?_, ?_, ?_⟩ <;> rw [hstats]
    · refine (List.countP_eq_zero.2 fun run hrun => ?_).symm
      simp [(hnone run hrun).2]
    · refine (List.countP_eq_zero.2 fun run hrun => ?_).symm
      simp [(hnone run hrun).1]
    · refine (List.countP_eq_zero.2 fun run hrun => ?_).symm
      simp [(hnone run hrun).1]
    · rw [List.filter_eq_nil_iff.2 fun run hrun => by
        simp [TrackedRun.isUnderWay, (hnone run hrun).1]]
      rfl
  case isFalse =>
    refine ⟨?_, ?_, ?_, ?_⟩ <;> rw [hstats]
    · show _ - _ = _
      rw [h.processed_eq, Nat.add_sub_cancel_left]
    · exact h.ended_eq .completed (by simp) (by simp)
    · exact h.ended_eq .timedOut (by simp) (by simp)
    · refine Table.length_filter_values _ _ (List.nodup_dedup _) fun id => ?_
      rw [← h.running]
      simp

/-- The statistics are right in every state of a run, whatever the
interleaving, in which every event is recorded in its turn. -/
theorem counted_in_turn (config : StatsConfig) {n : Nat} (r : Run (Step config) n)
    (clock : DateTime) (h0 : r.state 0 = .initial clock)
    (hroom : ∀ i < n, HasRoom config (r.state i) (r.event i))
    (hturn : ∀ i < n, RecordsInTurn (r.state i) (r.event i)) :
    ∀ i ≤ n, ∀ window, (∀ e ∈ (r.state i).events,
      cutoffBefore (r.state i).clock window ≤ e.timestamp) → Counted (r.state i) window := by
  intro i hi window hall
  have hinitial : Orderly (r.state 0) := by
    rw [h0]
    exact orderly_initial clock
  have horderly := r.stable hinitial
    (fun j _ hj hstep h => h.next hstep (hroom j hj) (hturn j hj)) i (Nat.zero_le i) hi
  exact horderly.counted hall

/-- A job, run more than once. -/
def retriedJob : Job := Job.new 1 0 "mail" .null

/-- A run times out and is retried; the next one begins when all this is
recorded. -/
def timelyEvents : List Event :=
  [.start retriedJob, .record 0, .tick 1, .conclude 0 (.retry 2 "timed out" true) 1, .build 0,
    .record 0, .build 0, .record 0, .tick 2, .start retriedJob, .record 1]

/-- The run that the workers go through. -/
def runOf (events : List Event)
    (h : ∀ i < events.length, (State.next {} (Run.states (fun s e => (State.next {} s e).getD s)
      (.initial 0) (fun i => events.getD i (.tick 0)) i) (events.getD i (.tick 0))).isSome) :
    Run (Step {}) events.length :=
  Run.ofPartial (State.next {}) (.initial 0) (fun i => events.getD i (.tick 0)) h

theorem counted_in_turn_timely : ∃ r : Run (Step {}) timelyEvents.length,
    r.state 0 = .initial 0 ∧ Counted (r.state timelyEvents.length) 60000000000 := by
  refine ⟨runOf timelyEvents (by decide +kernel), rfl, ?_⟩
  exact counted_in_turn {} _ 0 rfl (by decide +kernel) (by decide +kernel) _ le_rfl _
    (by decide +kernel)

/-- The same, but the next run begins before the first one's `Retried`
is built. -/
def overlappingEvents : List Event :=
  [.start retriedJob, .record 0, .tick 1, .conclude 0 (.retry 2 "timed out" true) 1, .build 0,
    .record 0, .tick 2, .start retriedJob, .record 1, .tick 3, .build 0, .record 0]

/-- Then the first run is counted twice, and the second is not seen
running. -/
theorem overlapping_counted_twice : ∃ r : Run (Step {}) overlappingEvents.length,
    r.state 0 = .initial 0 ∧
    (∀ i < overlappingEvents.length, HasRoom {} (r.state i) (r.event i)) ∧
    (∀ e ∈ (r.state overlappingEvents.length).events,
      cutoffBefore (r.state overlappingEvents.length).clock 60000000000 ≤ e.timestamp) ∧
    (r.state overlappingEvents.length).runs.countP (·.isProcessed) = 1 ∧
    (getSystemStatistics (r.state overlappingEvents.length).events 60000000000
      (r.state overlappingEvents.length).clock).totalProcessed = 2 ∧
    (getSystemStatistics (r.state overlappingEvents.length).events 60000000000
      (r.state overlappingEvents.length).clock).running = 0 ∧
    ¬ Counted (r.state overlappingEvents.length) 60000000000 := by
  refine ⟨runOf overlappingEvents (by decide +kernel), rfl, by decide +kernel,
    by decide +kernel, by decide +kernel, by decide +kernel, by decide +kernel, fun h => ?_⟩
  exact absurd h.totalProcessed (by decide +kernel)

end Statistics

end Hammerwork
