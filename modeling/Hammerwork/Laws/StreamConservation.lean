/-
A stream's listener conserves events, over any run.

The batches handed over, the batch that waits for slots and the buffer are,
one after the other, the events kept of those received (`Fits.order`): every
step of the listener moves events from one to the next. The slots of the
batches in flight and the free ones are all there are (`Fits.slots`), and a
batch has as many as it has events; so what the slots bound are the events.

The listener must not panic over a deadline that is not representable, and no
batch may have more events than a number of slots can express (`Harmless`).
-/
import Hammerwork.StreamListener
import Hammerwork.Lib.Run
import Hammerwork.Lib.Tally

namespace Hammerwork

namespace StreamListener

variable (manager : EventManager) (config : StreamConfig)

-- == statements

def Step (s : State) (e : Event) (s' : State) : Prop := s.next config manager e = some s'

/-- The events kept of those received: the stream was enabled, and they match
its filter. -/
def kept (received : List (JobLifecycleEvent × Bool)) : List JobLifecycleEvent :=
  received.filterMap fun (event, enabled) => manager.received enabled config.filter event

/-- The batch that waits for slots. -/
def Pc.inHand : Pc → List JobLifecycleEvent
  | .acquiring batch _ => batch
  | _ => []

/-- The most events the buffer may hold. -/
def bufferBound : Nat := max 1 (min config.batchSize config.maxEvents)

/-- What is expected of a listener, at any time. -/
structure Conserves (s : State) : Prop where
  order : s.handedOver.flatten ++ s.lost ++ s.pc.inHand ++ s.buffer
    = kept manager config s.received
  /-- Only a batch that waits for slots is lost, when the listener is
  stopped. -/
  lost : s.lost ≠ [] → s.pc = .stopped ∧ s.buffer = []
  buffer : s.buffer.length ≤ bufferBound config
  nonempty : [] ∉ s.handedOver
  inFlight : tally (fun batch => batch.events.length) s.inFlight ≤ max config.maxEvents 1
  /-- The listener waits for slots only while unfinished batches hold them. -/
  waits : ∀ batch wanted, s.pc = .acquiring batch wanted → wanted ≤ config.limit ∧
    ((s.next config manager .acquire).isSome ↔
      tally (·.slots) s.inFlight + wanted ≤ config.limit)

/-- What a step must not run into: a deadline that is not representable, or a
batch of more events than a number of slots can express. -/
def Harmless (s : State) (e : Event) : Prop :=
  match e, s.pc with
  | .loop now, .looping =>
      representable config s = true ∧
        (shouldFlush config now s = true → s.buffer.length ≤ u32Max)
  | _, _ => True

-- == invariant

variable {manager config} {s s' : State} {e : Event}

/-- The most events the buffer ever holds. -/
def capacity (config : StreamConfig) : Nat := max 1 (min config.batchSize config.limit)

/-- Where the listener is, and what it has in hand. -/
structure Fits (manager : EventManager) (config : StreamConfig) (s : State) : Prop where
  order : s.handedOver.flatten ++ s.lost ++ s.pc.inHand ++ s.buffer
    = kept manager config s.received
  lost : s.lost ≠ [] → s.pc = .stopped ∧ s.buffer = []
  buffer : s.buffer.length ≤ capacity config
  /-- There is room for an event when the listener receives one. -/
  room : s.pc = .waiting ∨ (∃ event, s.pc = .checking event) →
    s.buffer.length + 1 ≤ capacity config
  acquiring : ∀ batch wanted, s.pc = .acquiring batch wanted →
    batch ≠ [] ∧ wanted = batch.length ∧ wanted ≤ config.limit ∧ s.buffer = []
  nonempty : [] ∉ s.handedOver
  slots : s.availablePermits + tally (·.slots) s.inFlight = config.limit
  sized : ∀ batch ∈ s.inFlight, batch.slots = batch.events.length

theorem limit_pos (config : StreamConfig) : 1 ≤ config.limit := by
  have hpermits : 1 ≤ maxPermits := by decide
  rw [StreamConfig.limit, clampPermits]
  omega

theorem limit_le (config : StreamConfig) : config.limit ≤ max config.maxEvents 1 :=
  Nat.min_le_left _ _

theorem capacity_le (config : StreamConfig) :
    capacity config ≤ bufferBound config ∧ capacity config ≤ config.limit := by
  have hpos := limit_pos config
  have hlimit := limit_le config
  rw [capacity, bufferBound]
  omega

/-- A buffer that is not flushed has room for an event. -/
theorem room_of_wait {now : Instant} (h : shouldFlush config now s = false ∨ s.buffer = []) :
    s.buffer.length + 1 ≤ capacity config := by
  rw [capacity]
  rcases h with h | h
  · simp only [shouldFlush, Bool.or_eq_false_iff, decide_eq_false_iff_not] at h
    omega
  · rw [h, List.length_nil]
    omega

theorem Fits.new (enabled : Bool) : Fits manager config (.new config enabled) where
  order := rfl
  lost := nofun
  buffer := Nat.zero_le _
  room := by simp [State.new]
  acquiring := by simp [State.new]
  nonempty := by simp [State.new]
  slots := by simp [State.new]
  sized := by simp [State.new]

theorem Fits.conserves (h : Fits manager config s) : Conserves manager config s where
  order := h.order
  lost := h.lost
  buffer := Nat.le_trans h.buffer (capacity_le config).1
  nonempty := h.nonempty
  inFlight := by
    have hslots := h.slots
    have hlimit := limit_le config
    have hsized : tally (fun batch => batch.events.length) s.inFlight
        = tally (·.slots) s.inFlight := Tally.tally_congr fun batch hbatch =>
      (h.sized batch hbatch).symm
    omega
  waits := by
    intro batch wanted hpc
    obtain ⟨-, -, hwanted, -⟩ := h.acquiring batch wanted hpc
    have hslots := h.slots
    refine ⟨hwanted, ?_⟩
    unfold State.next
    simp only [hpc]
    split
    case isTrue => simp; omega
    case isFalse => simp; omega

-- == steps

variable (manager config s) in
/-- What a step does. -/
inductive Move : Event → State → Prop where
  | setEnabled (enabled : Bool) : Move (.setEnabled enabled) { s with enabled := enabled }
  | panic (now : Instant) : s.pc = .looping → representable config s = false →
      Move (.loop now) { s with pc := .panicked, buffer := [] }
  | flush (now : Instant) : s.pc = .looping → shouldFlush config now s = true → s.buffer ≠ [] →
      Move (.loop now)
        { s with
          pc := .acquiring s.buffer (wantedSlots config s.buffer)
          buffer := []
          bufferedSince := none }
  | wait (now : Instant) : s.pc = .looping →
      (shouldFlush config now s = false ∨ s.buffer = []) →
      Move (.loop now) { s with pc := .waiting }
  | receive (event : JobLifecycleEvent) : s.pc = .waiting →
      Move (.receive event) { s with pc := .checking event }
  | lagged (skipped : Nat) : s.pc = .waiting → Move (.lagged skipped) { s with pc := .looping }
  | flushDue : s.pc = .waiting → Move .flushDue { s with pc := .looping }
  | skip (now : Instant) (event : JobLifecycleEvent) : s.pc = .checking event →
      manager.received s.enabled config.filter event = none →
      Move (.check now)
        { s with pc := .looping, received := s.received ++ [(event, s.enabled)] }
  | keep (now : Instant) (event event' : JobLifecycleEvent) : s.pc = .checking event →
      manager.received s.enabled config.filter event = some event' →
      Move (.check now)
        { s with
          pc := .looping
          buffer := s.buffer ++ [event']
          bufferedSince := if s.buffer.isEmpty then some now else s.bufferedSince
          received := s.received ++ [(event, s.enabled)] }
  | acquire (batch : List JobLifecycleEvent) (wanted : Nat) : s.pc = .acquiring batch wanted →
      wanted ≤ s.availablePermits →
      Move .acquire
        { s with
          pc := .looping
          availablePermits := s.availablePermits - wanted
          inFlight := s.inFlight ++ [⟨batch, wanted⟩]
          handedOver := s.handedOver ++ [batch] }
  | finish (i : Nat) (batch : Batch) : s.inFlight[i]? = some batch →
      Move (.finish i)
        { s with
          availablePermits := s.availablePermits + batch.slots
          inFlight := s.inFlight.eraseIdx i }
  | stop : s.pc = .waiting → Move .stop { s with pc := .stopped }
  | drop (batch : List JobLifecycleEvent) (wanted : Nat) : s.pc = .acquiring batch wanted →
      Move .stop { s with pc := .stopped, lost := batch }

theorem next_cases (h : s.next config manager e = some s') : Move manager config s e s' := by
  unfold State.next at h
  split at h
  · cases h
    exact .setEnabled _
  · rename_i now hpc
    split at h
    · next hdeadline =>
        cases h
        exact .panic now hpc (by simpa using hdeadline)
    · split at h
      · next hflush =>
          cases h
          simp only [Bool.and_eq_true, Bool.not_eq_true', List.isEmpty_eq_false_iff] at hflush
          exact .flush now hpc hflush.1 hflush.2
      · next hflush =>
          cases h
          refine .wait now hpc ?_
          by_cases hfull : shouldFlush config now s = true
          · exact .inr (by simpa [hfull] using hflush)
          · exact .inl (by simpa using hfull)
  · next hpc => cases h; exact .receive _ hpc
  · next hpc => cases h; exact .lagged _ hpc
  · next hpc => cases h; exact .flushDue hpc
  · next event hpc =>
      dsimp only at h
      split at h
      · next hkept => cases h; exact .skip _ event hpc hkept
      · next event' hkept => cases h; exact .keep _ event event' hpc hkept
  · next batch wanted hpc =>
      split at h
      · next hfree => cases h; exact .acquire batch wanted hpc hfree
      · cases h
  · next i =>
      obtain ⟨batch, hbatch, h⟩ := Option.map_eq_some_iff.1 h
      subst h
      exact .finish i batch hbatch
  · next hpc => cases h; exact .stop hpc
  · next batch wanted hpc => cases h; exact .drop batch wanted hpc
  · cases h

theorem Fits.lost_nil (h : Fits manager config s) (hpc : s.pc ≠ .stopped) : s.lost = [] := by
  by_cases hlost : s.lost = []
  · exact hlost
  · exact absurd (h.lost hlost).1 hpc

theorem wantedSlots_eq {events : List JobLifecycleEvent} (hlimit : events.length ≤ config.limit)
    (hsmall : events.length ≤ u32Max) : wantedSlots config events = events.length := by
  rw [wantedSlots]
  omega

theorem kept_concat (received : List (JobLifecycleEvent × Bool)) (event : JobLifecycleEvent)
    (enabled : Bool) : kept manager config (received ++ [(event, enabled)])
      = kept manager config received ++ (manager.received enabled config.filter event).toList := by
  rw [kept, List.filterMap_append]
  cases hkept : manager.received enabled config.filter event <;> simp [kept, hkept]

/-- The listener alone moves, and has no batch in hand before or after. -/
theorem Fits.goes (h : Fits manager config s) {pc : Pc} (hlive : s.pc ≠ .stopped)
    (hhand : s.pc.inHand = pc.inHand) (hidle : ∀ batch wanted, pc ≠ .acquiring batch wanted)
    (hroom : pc = .waiting ∨ (∃ event, pc = .checking event) →
      s.buffer.length + 1 ≤ capacity config) :
    Fits manager config { s with pc := pc } := by
  have hlost := h.lost_nil hlive
  have horder := h.order
  rw [hhand] at horder
  exact
    { h with
      order := horder
      lost := fun hne => absurd hlost hne
      room := hroom
      acquiring := fun batch wanted hpc => absurd hpc (hidle batch wanted) }

/-- The listener goes back to reading the configuration. -/
theorem Fits.looping (h : Fits manager config s)
    (hpc : s.pc = .waiting ∨ ∃ event, s.pc = .checking event) :
    Fits manager config { s with pc := .looping } := by
  refine h.goes ?_ ?_ nofun (by simp)
  · rcases hpc with hpc | ⟨event, hpc⟩ <;> simp [hpc]
  · rcases hpc with hpc | ⟨event, hpc⟩ <;> simp [hpc, Pc.inHand]

theorem Move.fits (h : Move manager config s e s') (hfits : Fits manager config s)
    (hharmless : Harmless config s e) : Fits manager config s' := by
  cases h with
  | setEnabled enabled =>
      exact ⟨hfits.order, hfits.lost, hfits.buffer, hfits.room, hfits.acquiring, hfits.nonempty,
        hfits.slots, hfits.sized⟩
  | panic now hpc hdeadline =>
      simp only [Harmless, hpc] at hharmless
      rw [hdeadline] at hharmless
      cases hharmless.1
  | flush now hpc hflush hnonempty =>
      simp only [Harmless, hpc] at hharmless
      have hlost := hfits.lost_nil (by simp [hpc])
      have horder := hfits.order
      have hcapacity := (capacity_le config).2
      have hbuffer := hfits.buffer
      have hwanted := wantedSlots_eq (Nat.le_trans hbuffer hcapacity) (hharmless.2 hflush)
      refine
        { hfits with
          order := by simpa [hpc, Pc.inHand] using horder
          lost := fun hne => absurd hlost hne
          buffer := Nat.zero_le _
          room := by simp
          acquiring := fun batch wanted hpc' => ?_ }
      cases hpc'
      exact ⟨hnonempty, hwanted, hwanted ▸ Nat.le_trans hbuffer hcapacity, rfl⟩
  | wait now hpc hwait =>
      exact hfits.goes (by simp [hpc]) (by simp [hpc, Pc.inHand]) nofun fun _ => room_of_wait hwait
  | receive event hpc =>
      have hroom := hfits.room (.inl hpc)
      exact hfits.goes (by simp [hpc]) (by simp [hpc, Pc.inHand]) nofun fun _ => hroom
  | lagged skipped hpc => exact hfits.looping (.inl hpc)
  | flushDue hpc => exact hfits.looping (.inl hpc)
  | skip now event hpc hkept =>
      have hlooping := hfits.looping (.inr ⟨event, hpc⟩)
      refine { hlooping with order := ?_ }
      rw [kept_concat, hkept]
      simpa using hlooping.order
  | keep now event event' hpc hkept =>
      have hlost := hfits.lost_nil (by simp [hpc])
      have hroom := hfits.room (.inr ⟨event, hpc⟩)
      have horder := hfits.order
      refine
        { hfits with
          order := ?_
          lost := fun hne => absurd hlost hne
          buffer := by simpa using hroom
          room := by simp
          acquiring := nofun }
      rw [kept_concat, hkept, ← horder]
      simp [hpc, Pc.inHand]
  | acquire batch wanted hpc hfree =>
      obtain ⟨hnonempty, hwanted, -, hbuffer⟩ := hfits.acquiring batch wanted hpc
      have hlost := hfits.lost_nil (by simp [hpc])
      have horder := hfits.order
      have hslots := hfits.slots
      refine
        { hfits with
          order := by simpa [hpc, Pc.inHand, hlost] using horder
          lost := fun hne => absurd hlost hne
          room := by simp
          acquiring := nofun
          nonempty := ?_
          slots := by simp; omega
          sized := fun other hother => ?_ }
      · simpa using ⟨hfits.nonempty, fun h => hnonempty h⟩
      · rcases List.mem_append.1 hother with hother | hother
        · exact hfits.sized other hother
        · rw [List.mem_singleton.1 hother]
          exact hwanted
  | finish i batch hbatch =>
      have hslots := hfits.slots
      have herase := Tally.tally_eraseIdx (·.slots) hbatch
      exact
        { hfits with
          slots := by simp only at herase ⊢; omega
          sized := fun other hother => hfits.sized other (List.mem_of_mem_eraseIdx hother) }
  | stop hpc =>
      exact hfits.goes (by simp [hpc]) (by simp [hpc, Pc.inHand]) nofun (by simp)
  | drop batch wanted hpc =>
      obtain ⟨-, -, -, hbuffer⟩ := hfits.acquiring batch wanted hpc
      have hlost := hfits.lost_nil (by simp [hpc])
      have horder := hfits.order
      exact
        { hfits with
          order := by simpa [hpc, Pc.inHand, hlost] using horder
          lost := fun _ => ⟨rfl, hbuffer⟩
          room := by simp
          acquiring := nofun }

/-- A listener whose steps are harmless conserves the events it receives, its
buffer is bounded, and so are the events in flight. -/
theorem stream_conservation {n : Nat} (enabled : Bool) (r : Run (Step manager config) n)
    (h0 : r.state 0 = .new config enabled)
    (hharmless : ∀ i < n, Harmless config (r.state i) (r.event i)) :
    ∀ i ≤ n, Conserves manager config (r.state i) := by
  intro i hi
  have hfits : Fits manager config (r.state i) := by
    refine r.stable (h0 ▸ Fits.new enabled) (fun j _ hj hstep h => ?_) i (Nat.zero_le i) hi
    exact (next_cases hstep).fits h (hharmless j hj)
  exact hfits.conserves

-- == inputs

def plainManager : EventManager := ⟨.default, ∅⟩

/-- Every event is a batch. -/
def batchesOfOne : StreamConfig := ⟨.new, 0, 0, 5, 10⟩

/-- An event is received, handed over and delivered. -/
def oneEvent : Nat → Event
  | 0 => .loop 0
  | 1 => .receive plainEvent
  | 2 => .check 0
  | 3 => .loop 0
  | 4 => .acquire
  | _ => .finish 0

def handedOverOnce : Run (Step plainManager batchesOfOne) 6 :=
  .ofPartial (State.next batchesOfOne plainManager) (.new batchesOfOne true) oneEvent (by decide)

theorem stream_conservation_once :
    Conserves plainManager batchesOfOne (handedOverOnce.state 6) := by
  refine stream_conservation true handedOverOnce rfl (fun i hi => ?_) 6 (Nat.le_refl 6)
  match i, hi with
  | 0, _ => exact ⟨by decide, fun _ => by decide⟩
  | 3, _ => exact ⟨by decide, fun _ => by decide⟩
  | 1, _ | 2, _ | 4, _ | 5, _ => trivial

/-- Events may wait as long as a number of seconds can say. -/
def waitsForEver : StreamConfig := ⟨.new, 100, 1000, 18446744073709551615, 18446744073709551615⟩

def dropsBuffer : Run (Step plainManager waitsForEver) 4 :=
  .ofPartial (State.next waitsForEver plainManager) (.new waitsForEver true) oneEvent (by decide)

/-- The deadline of the first event kept is not representable: the listener
panics, and the event is neither handed over nor buffered. -/
theorem buffer_dropped : dropsBuffer.state 0 = .new waitsForEver true ∧
    kept plainManager waitsForEver (dropsBuffer.state 4).received = [plainEvent] ∧
    ¬ Conserves plainManager waitsForEver (dropsBuffer.state 4) := by
  refine ⟨rfl, rfl, fun h => ?_⟩
  have horder : [] = [plainEvent] := h.order
  cases horder

end StreamListener

end Hammerwork
