/-
What a subscriber that did not ask for payloads can learn of them.

Its listener takes the payload off, and its filter looks at no payload.
What is left is the entry `payload_truncated`, which the manager puts
into the metadata of the event of all subscribers when a payload that
somebody asked for is too large. It tells the size of the payload, and a
metadata filter can be about it.

Two events that differ only in payload are handed over alike if and only
if that entry makes no difference (`AsIfUnpaid`).
-/
import Hammerwork.Events

namespace Hammerwork

variable {serialized : Json → String} {manager : EventManager} {enabled : Bool}
  {filter : EventFilter} {event : JobLifecycleEvent}

/-- The entry the manager puts into the metadata of an event with the
payload: only for one that somebody asked for and that is too large. -/
def EventManager.notice (serialized : Json → String) (manager : EventManager)
    (payload : Option Json) : Option String :=
  payload.bind fun payload =>
    if manager.payloadWanted &&
        decide ((serialized payload).utf8ByteSize > manager.config.maxPayloadSizeBytes) then
      some (truncatedMessage (serialized payload).utf8ByteSize manager.config.maxPayloadSizeBytes)
    else
      none

namespace JobLifecycleEvent

/-- The event with the entry of a payload that was too large. -/
def noted (event : JobLifecycleEvent) : Option String → JobLifecycleEvent
  | none => event
  | some text => event.insertMetadata "payload_truncated" text

/-- The event has that entry already. -/
def Carries (event : JobLifecycleEvent) (notice : Option String) : Prop :=
  ∀ text, notice = some text → event.metadata "payload_truncated" = some text

end JobLifecycleEvent

/-- The payloads `p` and `p'` make no difference to the subscriber: the
manager notes the same about both, or the event says so already, or the
subscriber gets neither event. -/
def AsIfUnpaid (serialized : Json → String) (manager : EventManager) (enabled : Bool)
    (filter : EventFilter) (event : JobLifecycleEvent) (p p' : Option Json) : Prop :=
  manager.notice serialized p = manager.notice serialized p' ∨
    (event.Carries (manager.notice serialized p) ∧
      event.Carries (manager.notice serialized p')) ∨
    manager.config.maxBufferSize = 0 ∨ enabled = false ∨
    (filter.matchesEvent (event.noted (manager.notice serialized p)) = false ∧
      filter.matchesEvent (event.noted (manager.notice serialized p')) = false)

-- == lemmas

/-- What is broadcast, apart from the payload. -/
theorem publishEvent_eq (serialized : Json → String) (manager : EventManager)
    (event : JobLifecycleEvent) (h : manager.config.maxBufferSize ≠ 0) :
    ∃ payload, manager.publishEvent serialized event
      = some { event.noted (manager.notice serialized event.payload) with payload := payload } := by
  unfold EventManager.publishEvent EventManager.notice
  rw [if_neg h]
  cases hp : event.payload with
  | none =>
      refine ⟨none, ?_⟩
      show some event = some { event with payload := none }
      rw [← hp]
  | some payload =>
      cases hwanted : manager.payloadWanted with
      | false => exact ⟨none, rfl⟩
      | true =>
          by_cases hsize : (serialized payload).utf8ByteSize > manager.config.maxPayloadSizeBytes
          · exact ⟨none, by simp [hsize, JobLifecycleEvent.noted, JobLifecycleEvent.insertMetadata]⟩
          · refine ⟨some payload, ?_⟩
            simp only [Option.isSome_some, Bool.not_true, Bool.and_false, Bool.false_eq_true,
              if_false, hsize, Option.bind_some, Bool.true_and, decide_false]
            rw [← hp]
            rfl

/-- A filter looks at the noted event the same, whatever its payload. -/
theorem matchesEvent_noted (filter : EventFilter) (event : JobLifecycleEvent)
    (p : Option Json) (notice : Option String) :
    filter.matchesEvent (JobLifecycleEvent.noted { event with payload := p } notice)
      = filter.matchesEvent (event.noted notice) := by
  cases notice <;> rfl

/-- A subscriber that gets no payloads gets the noted event without one.
-/
theorem handsOver_eq (hquiet : manager.deliversPayload filter = false) (p : Option Json) :
    manager.handsOver serialized enabled filter { event with payload := p }
      = if manager.config.maxBufferSize = 0 ∨ enabled = false ∨
            filter.matchesEvent (event.noted (manager.notice serialized p)) = false then
          none
        else
          some (JobLifecycleEvent.noted { event with payload := none }
            (manager.notice serialized p)) := by
  unfold EventManager.handsOver
  by_cases hbuffer : manager.config.maxBufferSize = 0
  · rw [if_pos (.inl hbuffer)]
    unfold EventManager.publishEvent
    rw [if_pos hbuffer]
    rfl
  · obtain ⟨payload, hpublished⟩ :=
      publishEvent_eq serialized manager { event with payload := p } hbuffer
    rw [hpublished]
    show manager.received enabled filter _ = _
    unfold EventManager.received
    rw [EventFilter.matchesEvent_payload, hquiet]
    dsimp only
    rw [matchesEvent_noted]
    cases enabled with
    | false => simp
    | true =>
        cases filter.matchesEvent (event.noted (manager.notice serialized p)) with
        | false => simp
        | true =>
            cases manager.notice serialized p <;>
              simp [hbuffer, JobLifecycleEvent.noted, JobLifecycleEvent.insertMetadata]

/-- Noting differs only in the entry. -/
theorem noted_eq_iff {notice notice' : Option String} :
    event.noted notice = event.noted notice' ↔
      notice = notice' ∨ (event.Carries notice ∧ event.Carries notice') := by
  have hsame : ∀ {n : Option String}, event.Carries n → event.noted n = event := by
    intro n hn
    cases n with
    | none => rfl
    | some text =>
        have hentry := hn text rfl
        show event.insertMetadata _ _ = event
        have hmetadata : (fun k => if k = "payload_truncated" then some text
            else event.metadata k) = event.metadata := by
          funext k
          split
          case isTrue hk => rw [hk, hentry]
          case isFalse => rfl
        unfold JobLifecycleEvent.insertMetadata
        rw [hmetadata]
  have hread : ∀ {n : Option String} {text}, n = some text →
      (event.noted n).metadata "payload_truncated" = some text := by
    intro n text hn
    rw [hn]
    simp [JobLifecycleEvent.noted, JobLifecycleEvent.insertMetadata]
  constructor
  · intro h
    cases hn : notice with
    | none =>
        cases hn' : notice' with
        | none => exact .inl rfl
        | some text =>
            refine .inr ⟨nofun, fun text' htext => ?_⟩
            rw [hn] at h
            rw [← hread (hn'.trans htext), ← h]
            rfl
    | some text =>
        cases hn' : notice' with
        | none =>
            refine .inr ⟨fun text' htext => ?_, nofun⟩
            rw [hn'] at h
            rw [← hread (hn.trans htext), h]
            rfl
        | some text' =>
            refine .inl ?_
            rw [← hread hn, h, hread hn']
  · intro h
    rcases h with rfl | ⟨h, h'⟩
    · rfl
    · rw [hsame h, hsame h']

-- == the claim

/-- A subscriber that did not ask for payloads hands over the same for
two events that differ only in payload, if and only if no notice about a
payload makes a difference to it. -/
theorem payload_withheld_iff (serialized : Json → String) (manager : EventManager)
    (enabled : Bool) (filter : EventFilter) (event : JobLifecycleEvent) (p p' : Option Json)
    (hquiet : manager.deliversPayload filter = false) :
    manager.handsOver serialized enabled filter { event with payload := p }
        = manager.handsOver serialized enabled filter { event with payload := p' } ↔
      AsIfUnpaid serialized manager enabled filter event p p' := by
  have heq : JobLifecycleEvent.noted { event with payload := none } (manager.notice serialized p)
        = JobLifecycleEvent.noted { event with payload := none } (manager.notice serialized p') ↔
      manager.notice serialized p = manager.notice serialized p' ∨
        (event.Carries (manager.notice serialized p) ∧
          event.Carries (manager.notice serialized p')) := noted_eq_iff
  -- what the subscriber sees of the two events decides whether its filter matches
  have hseen : JobLifecycleEvent.noted { event with payload := none } (manager.notice serialized p)
        = JobLifecycleEvent.noted { event with payload := none } (manager.notice serialized p') →
      filter.matchesEvent (event.noted (manager.notice serialized p))
        = filter.matchesEvent (event.noted (manager.notice serialized p')) := by
    intro h
    rw [← matchesEvent_noted filter event none, h, matchesEvent_noted]
  have hcondition : AsIfUnpaid serialized manager enabled filter event p p' ↔ _ ∨ _ :=
    or_assoc.symm
  rw [handsOver_eq hquiet, handsOver_eq hquiet, hcondition, ← heq]
  by_cases hbuffer : manager.config.maxBufferSize = 0
  · simp [hbuffer]
  · cases enabled with
    | false => simp
    | true =>
        cases hm : filter.matchesEvent (event.noted (manager.notice serialized p)) <;>
          cases hm' : filter.matchesEvent (event.noted (manager.notice serialized p')) <;>
          rw [hm, hm'] at hseen
        case false.false => simp
        case true.true => simp [hbuffer]
        all_goals simpa [hbuffer] using hseen

/-- A manager with one subscription, that asks for payloads of up to
three bytes. -/
def curious : EventManager where
  config := { EventConfig.default with maxPayloadSizeBytes := 3 }
  subscriptions := AList.singleton 0 { EventFilter.new with includePayload := true }

/-- The text of two payloads. -/
def plainText : Json → String
  | .null => "null"
  | .number text => text
  | _ => ""

theorem payload_withheld_iff_small :
    curious.deliversPayload EventFilter.new = false ∧
      curious.handsOver plainText true EventFilter.new
          { plainEvent with payload := some (.number "1") }
        = curious.handsOver plainText true EventFilter.new
          { plainEvent with payload := some (.number "22") } :=
  ⟨rfl, (payload_withheld_iff plainText curious true EventFilter.new plainEvent
    (some (.number "1")) (some (.number "22")) rfl).2 (.inl (by decide +kernel))⟩

/-- That somebody asked for payloads shows in the metadata of the event
with the larger one. -/
theorem payload_size_leaks :
    ¬ ∀ (serialized : Json → String) (manager : EventManager) (enabled : Bool)
        (filter : EventFilter) (event : JobLifecycleEvent) (p p' : Option Json),
      manager.deliversPayload filter = false →
      manager.handsOver serialized enabled filter { event with payload := p }
        = manager.handsOver serialized enabled filter { event with payload := p' } := by
  intro h
  have hsame := h plainText curious true EventFilter.new plainEvent
    (some (.number "1")) (some .null) rfl
  have hentry := congrArg (fun handed => handed.bind (·.metadata "payload_truncated")) hsame
  revert hentry
  decide +kernel

end Hammerwork
