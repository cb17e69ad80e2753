/-
What becomes of the events of a batch, whatever the processor answers.

A response acknowledges an event if the last of its results for the event is a
success (`Acknowledges`). The events that failed in an attempt are those the
response does not acknowledge (`countResponse_spec`), so every attempt accounts
for what it does not send again (`attemptOnce_spec`), and the attempts together
for the whole batch.
-/
import Hammerwork.Streaming

namespace Hammerwork

namespace Streaming

-- == statements

/-- A response acknowledges an event. -/
def Response.acknowledges (response : Response) (eventId : EventId) : Bool :=
  match response.result with
  | .ok deliveries =>
      ((deliveries.filter fun d => d.eventId = eventId).getLast?).any (·.success)
  | .error _ => false

/-- How the last response to a batch that held an event was, from an attempt
on. -/
def lastResponse (responses : Nat → Response) (eventId : EventId) :
    Nat → List (List StreamedEvent) → Option Bool
  | _, [] => none
  | attempt, batch :: batches =>
      (lastResponse responses eventId (attempt + 1) batches).or
        (if eventId ∈ eventIds batch then some ((responses attempt).acknowledges eventId) else none)

/-- The events that no response from one attempt up to another acknowledged. -/
def unacknowledged (responses : Nat → Response) (attempt : Nat) (events : List StreamedEvent)
    (k : Nat) : List StreamedEvent :=
  events.filter fun e =>
    (List.range k).all fun j => !(responses (attempt + j)).acknowledges e.event.eventId

/-- What is expected of the delivery of a batch, from an attempt on. -/
structure Delivers (responses : Nat → Response) (attempt maxAttempts : Nat)
    (events : List StreamedEvent) (before after : BatchOutcome)
    (batches : List (List StreamedEvent)) : Prop where
  count : after.delivered + after.failed = before.delivered + before.failed + events.length
  sends : batches.length + attempt ≤ maxAttempts + 1
  /-- What is sent are the events not acknowledged yet, in their order. -/
  retries : ∀ k batch, batches[k]? = some batch →
    batch = unacknowledged responses attempt events k
  delivered : after.delivered = before.delivered +
    events.countP fun e => lastResponse responses e.event.eventId attempt batches = some true

-- == results

variable {responses : Nat → Response} {response : Response} {maxAttempts attempt : Nat}
  {pending events : List StreamedEvent} {outcome : BatchOutcome}

/-- Of several results for one event, the last counts. -/
theorem lookup_byEvent (deliveries : List StreamDelivery) (eventId : EventId) :
    (byEvent deliveries).lookup eventId
      = (deliveries.filter fun d => d.eventId = eventId).getLast? := by
  have hgeneral : ∀ results : Table EventId StreamDelivery,
      (deliveries.foldl (fun results d => results.insert d.eventId d) results).lookup eventId
        = ((deliveries.filter fun d => d.eventId = eventId).getLast?).or
          (results.lookup eventId) := by
    induction deliveries with
    | nil => intro results; simp
    | cons d deliveries ih =>
        intro results
        rw [List.foldl_cons, ih, Table.lookup_insert_if]
        by_cases heq : d.eventId = eventId
        · rw [List.filter_cons_of_pos (by simpa using heq), if_pos heq.symm]
          cases hrest : (deliveries.filter fun d => d.eventId = eventId).getLast? with
          | none => simp [List.getLast?_eq_none_iff.1 hrest]
          | some last =>
              rw [List.getLast?_cons, hrest]
              rfl
        · rw [List.filter_cons_of_neg (by simpa using heq), if_neg fun h => heq h.symm]
  have hempty := hgeneral ∅
  rw [AList.lookup_empty, Option.or_none] at hempty
  exact hempty

theorem acknowledges_ok {deliveries : List StreamDelivery} (h : response.result = .ok deliveries)
    (eventId : EventId) :
    response.acknowledges eventId = ((byEvent deliveries).lookup eventId).any (·.success) := by
  rw [Response.acknowledges, h, lookup_byEvent]

/-- What counting the result of one event comes to. -/
theorem countResult_spec {deliveries : List StreamDelivery}
    (hresult : response.result = .ok deliveries) (eventId : EventId) (outcome : BatchOutcome)
    (failed : Finset EventId) :
    ∃ outcome', countResult (byEvent deliveries) response.elapsedMs (outcome, failed) eventId
        = (outcome', if response.acknowledges eventId then failed else insert eventId failed) ∧
      outcome'.delivered
        = outcome.delivered + (if response.acknowledges eventId then 1 else 0) ∧
      outcome'.failed = outcome.failed := by
  rw [acknowledges_ok hresult]
  unfold countResult
  cases hfound : (byEvent deliveries).lookup eventId with
  | none => exact ⟨_, rfl, rfl, rfl⟩
  | some delivery =>
      cases hsuccess : delivery.success with
      | true => simp [hsuccess]
      | false => simp [hsuccess]

/-- What counting the results of some events comes to. -/
theorem foldl_countResult {deliveries : List StreamDelivery}
    (hresult : response.result = .ok deliveries) (ids : List EventId) (outcome : BatchOutcome)
    (failed : Finset EventId) :
    ∃ outcome', ids.foldl (countResult (byEvent deliveries) response.elapsedMs) (outcome, failed)
        = (outcome', failed ∪ (ids.filter fun id => !response.acknowledges id).toFinset) ∧
      outcome'.delivered = outcome.delivered + ids.countP response.acknowledges ∧
      outcome'.failed = outcome.failed := by
  induction ids generalizing outcome failed with
  | nil => exact ⟨outcome, by simp, by simp, rfl⟩
  | cons id ids ih =>
      obtain ⟨first, hfirst, hdelivered, hfailed⟩ := countResult_spec hresult id outcome failed
      obtain ⟨rest, hrest, hdelivered', hfailed'⟩ :=
        ih first (if response.acknowledges id then failed else insert id failed)
      refine ⟨rest, ?_, ?_, hfailed'.trans hfailed⟩
      · rw [List.foldl_cons, hfirst, hrest]
        cases hack : response.acknowledges id with
        | true => simp [hack]
        | false => simp [hack, Finset.insert_union, Finset.union_insert]
      · rw [hdelivered', hdelivered, List.countP_cons]
        omega

/-- The events that failed are those the response does not acknowledge, and
the others are counted. -/
theorem countResponse_spec (ids : List EventId) (response : Response) (outcome : BatchOutcome) :
    ∃ outcome', countResponse ids response outcome
        = (outcome', (ids.filter fun id => !response.acknowledges id).toFinset) ∧
      outcome'.delivered = outcome.delivered + ids.countP response.acknowledges ∧
      outcome'.failed = outcome.failed := by
  unfold countResponse
  cases hresult : response.result with
  | ok deliveries =>
      obtain ⟨outcome', hcounted, hdelivered, hfailed⟩ :=
        foldl_countResult hresult ids outcome ∅
      rw [Finset.empty_union] at hcounted
      exact ⟨outcome', hcounted, hdelivered, hfailed⟩
  | error e =>
      have hnone : ∀ id, response.acknowledges id = false := fun id => by
        simp [Response.acknowledges, hresult]
      refine ⟨{ outcome with lastError := some e }, ?_, ?_, rfl⟩
      · simp [hnone]
      · simp [hnone]

-- == attempts

/-- The events of a batch that a response acknowledges. -/
def acknowledged (response : Response) (events : List StreamedEvent) : Nat :=
  events.countP fun e => response.acknowledges e.event.eventId

/-- What one attempt comes to. -/
theorem attemptOnce_spec (hnodup : (eventIds pending).Nodup) (attempt : Nat) (response : Response)
    (outcome : BatchOutcome) :
    let once := attemptOnce maxAttempts attempt response pending outcome
    let unsent := pending.filter fun e => !response.acknowledges e.event.eventId
    (once.batches = [] ∧ once.retried = none ∧ once.outcome.delivered = outcome.delivered ∧
      once.outcome.failed = outcome.failed + pending.length) ∨
    (once.batches = [pending] ∧
      once.outcome.delivered = outcome.delivered + acknowledged response pending ∧
      (once.retried = none ∧ once.outcome.failed = outcome.failed + unsent.length ∨
        attempt < maxAttempts ∧ once.retried = some unsent ∧
          once.outcome.failed = outcome.failed)) := by
  intro once unsent
  obtain ⟨counted, hcounted, hdelivered, hfailed⟩ :=
    countResponse_spec (eventIds pending) response outcome
  have hmem : ∀ e ∈ pending, (e.event.eventId ∈
      ((eventIds pending).filter fun id => !response.acknowledges id).toFinset ↔
        (!response.acknowledges e.event.eventId) = true) := by
    intro e he
    have hid : e.event.eventId ∈ eventIds pending := List.mem_map_of_mem he
    simp [hid]
  have hunsent : (pending.filter fun e => e.event.eventId ∈
      ((eventIds pending).filter fun id => !response.acknowledges id).toFinset) = unsent := by
    refine List.filter_congr fun e he => ?_
    rw [Bool.eq_iff_iff, decide_eq_true_iff]
    exact hmem e he
  have hids : ((eventIds pending).filter fun id => !response.acknowledges id)
      = eventIds unsent := by
    rw [eventIds, List.filter_map]
    rfl
  have hcard : ((eventIds pending).filter fun id => !response.acknowledges id).toFinset.card
      = unsent.length := by
    rw [List.toFinset_card_of_nodup (hnodup.filter _), hids, eventIds, List.length_map]
  have hcount : (eventIds pending).countP response.acknowledges
      = acknowledged response pending := by
    rw [eventIds, List.countP_map]
    rfl
  rw [hcount] at hdelivered
  simp only [once, attemptOnce, hcounted, hunsent]
  split
  case isTrue => exact .inl ⟨rfl, rfl, rfl, by simp [eventIds]⟩
  case isFalse =>
    refine .inr ?_
    split
    case isTrue hempty =>
      have hnone : unsent.length = 0 := by rw [← hcard, hempty, Finset.card_empty]
      exact ⟨rfl, hdelivered, .inl ⟨rfl, by rw [hnone]; exact hfailed⟩⟩
    case isFalse =>
      split
      case isTrue => exact ⟨rfl, hdelivered, .inl ⟨rfl, by rw [hcard, hfailed]⟩⟩
      case isFalse hmore =>
        split
        case isTrue => exact ⟨rfl, hdelivered, .inl ⟨rfl, by rw [hfailed]⟩⟩
        case isFalse => exact ⟨rfl, hdelivered, .inr ⟨Nat.not_le.1 hmore, rfl, hfailed⟩⟩

-- == loop

/-- The events a response leaves unacknowledged. -/
def unsent (response : Response) (events : List StreamedEvent) : List StreamedEvent :=
  events.filter fun e => !response.acknowledges e.event.eventId

theorem acknowledged_add_unsent (response : Response) (events : List StreamedEvent) :
    acknowledged response events + (unsent response events).length = events.length := by
  rw [acknowledged, unsent, ← List.countP_eq_length_filter,
    List.length_eq_countP_add_countP fun e => response.acknowledges e.event.eventId]
  simp

variable {before after : BatchOutcome} {batches : List (List StreamedEvent)}

/-- No batch could be sent. -/
theorem Delivers.unsent (hattempt : attempt ≤ maxAttempts + 1)
    (hdelivered : after.delivered = before.delivered)
    (hfailed : after.failed = before.failed + events.length) :
    Delivers responses attempt maxAttempts events before after [] where
  count := by omega
  sends := by simp; omega
  retries := by simp
  delivered := by simp [lastResponse, hdelivered]

/-- What is sent first is the whole batch. -/
theorem unacknowledged_zero (responses : Nat → Response) (attempt : Nat)
    (events : List StreamedEvent) : unacknowledged responses attempt events 0 = events := by
  simp [unacknowledged]

/-- What is sent later is what the first response left over. -/
theorem unacknowledged_succ (responses : Nat → Response) (attempt : Nat)
    (events : List StreamedEvent) (k : Nat) :
    unacknowledged responses attempt events (k + 1)
      = unacknowledged responses (attempt + 1)
          (Streaming.unsent (responses attempt) events) k := by
  rw [unacknowledged, unacknowledged, Streaming.unsent, List.filter_filter]
  refine List.filter_congr fun e _ => ?_
  have hnext : (fun j => !(responses (attempt + (j + 1))).acknowledges e.event.eventId)
      = fun j => !(responses (attempt + 1 + j)).acknowledges e.event.eventId := by
    funext j
    rw [Nat.add_right_comm, Nat.add_assoc]
  rw [List.range_succ_eq_map, List.all_cons, List.all_map, Bool.and_comm, ← hnext]
  rfl

/-- An event in none of the batches has no response. -/
theorem lastResponse_none {eventId : EventId} (attempt : Nat)
    (h : ∀ batch ∈ batches, eventId ∉ eventIds batch) :
    lastResponse responses eventId attempt batches = none := by
  induction batches generalizing attempt with
  | nil => rfl
  | cons batch batches ih =>
      rw [lastResponse, ih _ fun batch hbatch => h batch (List.mem_cons_of_mem _ hbatch),
        if_neg (h batch List.mem_cons_self)]
      rfl

/-- The events of a batch that was sent, and those sent again after it. -/
theorem Delivers.sent {outcome : BatchOutcome} {rest : List (List StreamedEvent)}
    (hdelivered : outcome.delivered
      = before.delivered + acknowledged (responses attempt) events)
    (hfailed : outcome.failed = before.failed)
    (hrest : Delivers responses (attempt + 1) maxAttempts
      (Streaming.unsent (responses attempt) events) outcome after rest) :
    Delivers responses attempt maxAttempts events before after (events :: rest) := by
  have hsplit := acknowledged_add_unsent (responses attempt) events
  have hlast : ∀ e ∈ events, lastResponse responses e.event.eventId attempt (events :: rest)
      = (lastResponse responses e.event.eventId (attempt + 1) rest).or
        (some ((responses attempt).acknowledges e.event.eventId)) := by
    intro e he
    have hid : e.event.eventId ∈ eventIds events := List.mem_map_of_mem he
    rw [lastResponse, if_pos hid]
  have hcount := hrest.count
  refine ⟨by omega, ?_, ?_, ?_⟩
  · have hsends := hrest.sends
    rw [List.length_cons]
    omega
  · intro k batch hbatch
    cases k with
    | zero =>
        rw [unacknowledged_zero]
        exact (Option.some.inj hbatch).symm
    | succ k =>
        rw [unacknowledged_succ]
        exact hrest.retries k batch hbatch
  · -- what is acknowledged is not sent again: this was its last response
    have hacked : ∀ e ∈ events, (responses attempt).acknowledges e.event.eventId = true →
        lastResponse responses e.event.eventId (attempt + 1) rest = none := by
      intro e _ hack
      refine lastResponse_none _ fun batch hbatch hmem => ?_
      obtain ⟨k, hk⟩ := List.mem_iff_getElem?.1 hbatch
      rw [hrest.retries k batch hk] at hmem
      obtain ⟨e', he', heq⟩ := List.mem_map.1 hmem
      have hunsent := (List.mem_filter.1 (List.mem_filter.1 he').1).2
      rw [heq, hack] at hunsent
      cases hunsent
    have hfirst : (events.filter fun e => (responses attempt).acknowledges e.event.eventId).countP
        (fun e => lastResponse responses e.event.eventId attempt (events :: rest) = some true)
          = acknowledged (responses attempt) events := by
      rw [acknowledged, List.countP_filter]
      refine List.countP_congr fun e he => ?_
      by_cases hack : (responses attempt).acknowledges e.event.eventId = true
      · simp [hlast e he, hacked e he hack, hack]
      · simp [hack]
    have hlater : (Streaming.unsent (responses attempt) events).countP
        (fun e => lastResponse responses e.event.eventId attempt (events :: rest) = some true)
          = (Streaming.unsent (responses attempt) events).countP fun e =>
            lastResponse responses e.event.eventId (attempt + 1) rest = some true := by
      refine List.countP_congr fun e he => ?_
      obtain ⟨he, hack⟩ := List.mem_filter.1 he
      rw [hlast e he]
      cases lastResponse responses e.event.eventId (attempt + 1) rest with
      | none => simpa using hack
      | some ok => simp
    rw [hrest.delivered, hdelivered, List.countP_eq_countP_filter_add events _ fun e =>
      (responses attempt).acknowledges e.event.eventId, hfirst, ← hlater, Nat.add_assoc]
    rfl

/-- An attempt after which nothing is sent again. -/
theorem attemptOnce_delivers (hattempt : attempt ≤ maxAttempts)
    (hnodup : (eventIds pending).Nodup) (outcome : BatchOutcome)
    (hretried : (attemptOnce maxAttempts attempt (responses attempt) pending outcome).retried
      = none) :
    Delivers responses attempt maxAttempts pending outcome
      (attemptOnce maxAttempts attempt (responses attempt) pending outcome).outcome
      (attemptOnce maxAttempts attempt (responses attempt) pending outcome).batches := by
  rcases attemptOnce_spec hnodup attempt (responses attempt) outcome with
    ⟨hbatches, -, hdelivered, hfailed⟩ | ⟨hbatches, hdelivered, ⟨-, hfailed⟩ | ⟨-, hmore, -⟩⟩
  · rw [hbatches]
    exact .unsent (by omega) hdelivered hfailed
  · rw [hbatches]
    generalize (attemptOnce maxAttempts attempt (responses attempt) pending outcome).outcome
      = after at hdelivered hfailed
    have hsent : ∃ counted : BatchOutcome, counted.delivered
        = outcome.delivered + acknowledged (responses attempt) pending ∧
        counted.failed = outcome.failed ∧ after.delivered = counted.delivered :=
      ⟨{ after with failed := outcome.failed }, hdelivered, rfl, rfl⟩
    obtain ⟨counted, hcounted, hsame, hafter⟩ := hsent
    exact .sent hcounted hsame (.unsent (by omega) hafter (hsame ▸ hfailed))
  · rw [hretried] at hmore
    cases hmore

/-- The attempts account for what is pending; they end before the fuel
does. -/
theorem attemptDelivery_delivers (left : Nat) (hattempt : attempt ≤ maxAttempts)
    (hleft : maxAttempts ≤ attempt + left) (hnodup : (eventIds pending).Nodup)
    (outcome : BatchOutcome) :
    Delivers responses attempt maxAttempts pending outcome
      (attemptDelivery maxAttempts responses left attempt pending outcome).1
      (attemptDelivery maxAttempts responses left attempt pending outcome).2 := by
  have hspec := @attemptOnce_spec maxAttempts pending hnodup attempt (responses attempt) outcome
  induction left generalizing attempt pending outcome with
  | zero =>
      rw [attemptDelivery]
      refine attemptOnce_delivers hattempt hnodup outcome ?_
      rcases hspec with ⟨-, hnone, -⟩ | ⟨-, -, ⟨hnone, -⟩ | ⟨hmore, -⟩⟩
      · exact hnone
      · exact hnone
      · omega
  | succ left ih =>
      rw [attemptDelivery]
      rcases hspec with ⟨-, hnone, -⟩ | ⟨hbatches, hdelivered, ⟨hnone, -⟩ | hmore⟩
      · simp only [hnone]
        exact attemptOnce_delivers hattempt hnodup outcome hnone
      · simp only [hnone]
        exact attemptOnce_delivers hattempt hnodup outcome hnone
      · obtain ⟨hmore, hretried, hfailed⟩ := hmore
        simp only [hretried, hbatches]
        have hnodup' : (eventIds (unsent (responses attempt) pending)).Nodup :=
          hnodup.sublist (List.filter_sublist.map _)
        exact .sent hdelivered hfailed
          (ih hmore (by omega) hnodup' _ (attemptOnce_spec hnodup' _ _ _))

/-- An event is at most once in a batch. -/
theorem count_sent (eventId : EventId) (h : ∀ batch ∈ batches, (eventIds batch).Nodup) :
    (batches.flatMap eventIds).count eventId ≤ batches.length := by
  induction batches with
  | nil => simp
  | cons batch batches ih =>
      have hfirst := List.nodup_iff_count_le_one.1 (h batch List.mem_cons_self) eventId
      have hrest := ih fun batch hbatch => h batch (List.mem_cons_of_mem _ hbatch)
      rw [List.flatMap_cons, List.count_append, List.length_cons]
      omega

theorem Delivers.count_le (h : Delivers responses 1 maxAttempts events before after batches)
    (hnodup : (eventIds events).Nodup) (eventId : EventId) :
    (batches.flatMap eventIds).count eventId ≤ maxAttempts := by
  have hsends := h.sends
  refine Nat.le_trans (count_sent eventId fun batch hbatch => ?_) (by omega)
  obtain ⟨k, hk⟩ := List.mem_iff_getElem?.1 hbatch
  rw [h.retries k batch hk]
  exact hnodup.sublist (List.filter_sublist.map _)

theorem deliverWithRetries_delivers (policyMaxAttempts : Nat) (responses : Nat → Response)
    (hnodup : (eventIds events).Nodup) (outcome : BatchOutcome) :
    Delivers responses 1 (max policyMaxAttempts 1) events outcome
      (deliverWithRetries policyMaxAttempts responses events outcome).1
      (deliverWithRetries policyMaxAttempts responses events outcome).2 :=
  attemptDelivery_delivers _ (Nat.le_max_right _ _) (by omega) hnodup outcome

/-- A batch is delivered as expected: an event is sent again as long as the
last result of each response for it was no success. -/
theorem stream_delivery (policyMaxAttempts : Nat) (responses : Nat → Response)
    (events : List StreamedEvent) (outcome : BatchOutcome) (hnodup : (eventIds events).Nodup) :
    Delivers responses 1 (max policyMaxAttempts 1) events outcome
      (deliverWithRetries policyMaxAttempts responses events outcome).1
      (deliverWithRetries policyMaxAttempts responses events outcome).2 ∧
    ∀ eventId, ((deliverWithRetries policyMaxAttempts responses events outcome).2.flatMap
      eventIds).count eventId ≤ max policyMaxAttempts 1 := by
  have h := deliverWithRetries_delivers policyMaxAttempts responses hnodup outcome
  exact ⟨h, h.count_le hnodup⟩

/-- The first event, ready to be sent. -/
def firstEvent : StreamedEvent := ⟨.new 1 1 "mail" .completed .normal 0, []⟩

/-- The processor has two results for the event, of which the last is a
failure. -/
def contradicted : Response := ⟨true, .ok [⟨1, true, none, none⟩, ⟨1, false, none, none⟩], 0, false⟩

theorem stream_delivery_contradicted :
    Delivers (fun _ => contradicted) 1 2 [firstEvent] .default
      (deliverWithRetries 2 (fun _ => contradicted) [firstEvent] .default).1
      (deliverWithRetries 2 (fun _ => contradicted) [firstEvent] .default).2 ∧
    ∀ eventId, ((deliverWithRetries 2 (fun _ => contradicted) [firstEvent] .default).2.flatMap
      eventIds).count eventId ≤ 2 :=
  stream_delivery 2 (fun _ => contradicted) [firstEvent] .default (by decide)

/-- The event is sent again, although a result acknowledged it. -/
theorem sent_after_acknowledged :
    (∃ delivery ∈ [(⟨1, true, none, none⟩ : StreamDelivery), ⟨1, false, none, none⟩],
      delivery.eventId = 1 ∧ delivery.success = true) ∧
    contradicted.result = .ok [⟨1, true, none, none⟩, ⟨1, false, none, none⟩] ∧
    (deliverWithRetries 2 (fun _ => contradicted) [firstEvent] .default).2.map eventIds
      = [[1], [1]] :=
  ⟨⟨_, List.mem_cons_self, rfl, rfl⟩, rfl, by decide⟩

-- == batches

variable {serialize : JobLifecycleEvent → Except String (List UInt8)}

/-- The events that cannot be prepared have failed; the others are sent. -/
theorem prepareBatch_spec (events : List JobLifecycleEvent) (outcome : BatchOutcome) :
    (prepareBatch serialize events outcome).1.delivered = outcome.delivered ∧
    (prepareBatch serialize events outcome).1.failed
        + (prepareBatch serialize events outcome).2.length = outcome.failed + events.length ∧
    ((prepareBatch serialize events outcome).2.map (·.event)).Sublist events := by
  induction events generalizing outcome with
  | nil => exact ⟨rfl, rfl, .slnil⟩
  | cons event events ih =>
      rw [prepareBatch, prepareStreamedEvent]
      cases serialize event with
      | ok serializedData =>
          obtain ⟨hdelivered, hfailed, hsublist⟩ := ih outcome
          refine ⟨hdelivered, ?_, ?_⟩
          · simp only [bind, Except.bind, pure, Except.pure, List.length_cons]
            omega
          · exact hsublist.cons_cons event
      | error e =>
          obtain ⟨hdelivered, hfailed, hsublist⟩ := ih
            { outcome with
              failed := outcome.failed + 1
              lastError := some s!"failed to prepare event for streaming: {e}" }
          refine ⟨hdelivered, ?_, hsublist.cons event⟩
          simp only [bind, Except.bind, List.length_cons] at hfailed ⊢
          omega

/-- A batch whose stream has a processor is accounted for: every event was
delivered or failed. -/
theorem processEventBatch_accounts {events : List JobLifecycleEvent}
    (hnodup : (events.map (·.eventId)).Nodup) (policyMaxAttempts : Nat)
    (responses : Nat → Response) :
    ∃ outcome, processEventBatch serialize policyMaxAttempts (some responses) events
        = some outcome ∧
      outcome.delivered + outcome.failed = events.length := by
  obtain ⟨hdelivered, hfailed, hsublist⟩ := prepareBatch_spec events .default
  have hids : (eventIds (prepareBatch serialize events .default).2).Nodup := by
    have hmap : eventIds (prepareBatch serialize events .default).2
        = ((prepareBatch serialize events .default).2.map (·.event)).map (·.eventId) := by
      rw [List.map_map]
      rfl
    rw [hmap]
    exact hnodup.sublist (hsublist.map fun event => event.eventId)
  have hdefault : BatchOutcome.default.delivered = 0 ∧ BatchOutcome.default.failed = 0 :=
    ⟨rfl, rfl⟩
  rw [processEventBatch]
  by_cases hempty : (prepareBatch serialize events .default).2.isEmpty = true
  · refine ⟨_, if_pos hempty, ?_⟩
    rw [List.isEmpty_iff] at hempty
    rw [hempty, List.length_nil] at hfailed
    omega
  · refine ⟨_, if_neg hempty, ?_⟩
    have hcount := (deliverWithRetries_delivers policyMaxAttempts responses hids
      (prepareBatch serialize events .default).1).count
    omega

theorem processEventBatch_accounts_contradicted :
    ∃ outcome, processEventBatch (fun _ => .ok []) 2 (some fun _ => contradicted)
        [firstEvent.event] = some outcome ∧ outcome.delivered + outcome.failed = 1 :=
  processEventBatch_accounts (by decide) 2 _

end Streaming

end Hammerwork
