/-
Who gets the payload of a published event.

Whether a payload is attached is decided when the event is published, from
the filters the subscriptions were made with; whether a listener keeps it
is decided when it is received, from the configuration there is then.
`update_webhook` changes only the latter. So a webhook or stream that is
registered, enabled and entitled to payloads gets the payload exactly if
some subscription was added with a filter that asks for payloads
(`Asked`), and the subscriber has a subscription at all.

An event at the listener of its subscriber is followed through all calls
on others and all steps of listeners (`Keeps`): it is underway or handed
over with its payload, unless so many events were published after it that
the channel overwrote it.
-/
import Hammerwork.Proofs.InTurn

namespace Hammerwork

namespace Delivery

variable {serialized : Json → String} {capacity n : Nat} {s s' s'' : System}
  {w : Subscriber} {id : SubscriptionId} {config : EventConfig} {ledger : Ledger}
  {event : JobLifecycleEvent} {payload : Json}

-- == asked

/-- Some subscription was made with a filter that asks for payloads, or
they are included by default. -/
def Asked (config : EventConfig) (ledger : Ledger) : Prop :=
  config.includePayloadDefault = true ∨
    ∃ w r added, ledger w = some r ∧ r.added = some added ∧ added.includePayload = true

/-- The manager reads who asked off the filters of the subscriptions. -/
theorem payloadWanted_iff (h : Settled config ledger s) :
    s.manager.payloadWanted = true ↔ Asked config ledger := by
  unfold EventManager.payloadWanted Asked
  rw [h.config, Bool.or_eq_true, List.any_eq_true]
  refine or_congr_right ⟨fun hany => ?_, fun hasked => ?_⟩
  · obtain ⟨filter, hfilter, hasks⟩ := hany
    obtain ⟨id, hlookup⟩ := Table.mem_values.1 hfilter
    obtain hid | ⟨sub, hsub, hid⟩ := h.owned id filter hlookup
    · cases hid
    · obtain ⟨-, hnone, hserves⟩ := h.tied sub.subscriber
      cases hadded : (ledger sub.subscriber).bind (·.added) with
      | none =>
          rw [hnone fun r hr => by rw [hr] at hadded; exact hadded] at hid
          cases hid
      | some added =>
          obtain ⟨r, hr, hr'⟩ := Option.bind_eq_some_iff.1 hadded
          obtain ⟨id', hid', _, -, -, -, -, hlookup'⟩ := hserves r added hr hr'
          rw [hid] at hid'
          cases hid'
          rw [hlookup] at hlookup'
          cases hlookup'
          exact ⟨_, r, filter, hr, hr', hasks⟩
  · obtain ⟨w, r, added, hr, hadded, hasks⟩ := hasked
    obtain ⟨id, -, _, -, -, -, -, hlookup⟩ := (h.tied w).2.2 r added hr hadded
    exact ⟨added, Table.mem_values.2 ⟨id, hlookup⟩, hasks⟩

/-- A payload that is not too large is published if it is wanted. -/
theorem publishEvent_small {manager : EventManager} {event' : JobLifecycleEvent}
    (hpayload : event.payload = some payload)
    (hsize : (serialized payload).utf8ByteSize ≤ manager.config.maxPayloadSizeBytes)
    (h : manager.publishEvent serialized event = some event') :
    event' = if manager.payloadWanted then event else { event with payload := none } := by
  unfold EventManager.publishEvent at h
  split at h
  case isTrue => cases h
  case isFalse =>
    rw [hpayload] at h
    cases hwanted : manager.payloadWanted with
    | false =>
        rw [hwanted] at h
        exact (Option.some.inj h).symm
    | true =>
        rw [hwanted] at h
        simp only [Option.isSome_some, Bool.not_true, Bool.and_false, Bool.false_eq_true,
          if_false] at h
        rw [if_neg (by omega)] at h
        exact (Option.some.inj h).symm

-- == one subscription

namespace Subscription

/-- The events the subscription has, or handed over. -/
def items (sub : Subscription) : List Item :=
  sub.deliveries.flatten ++ (sub.listener.inHand ++ sub.queue)

/-- What the channel keeps is in the order of publication. -/
def Ordered (sub : Subscription) : Prop :=
  (sub.queue.map (·.seq)).Pairwise (· < ·)

/-- The event `n` is underway or handed over with its payload, or `n` and
`capacity` more were published before the `count`-th. -/
structure Keeps (capacity count n : Nat) (event : JobLifecycleEvent) (sub : Subscription) :
    Prop where
  here : n ∈ sub.places
  lost : ∀ e ∈ sub.lost, e.1 = n → n + capacity < count
  fresh : ∀ item ∈ sub.listener.fresh ++ sub.queue, item.seq = n → item.event = event
  kept : ∀ item ∈ sub.items, item.seq = n → item.event.payload = event.payload
  ordered : sub.Ordered
  early : ∀ item ∈ sub.queue, item.seq < count

variable {manager : EventManager} {sub sub' : Subscription} {c : SubscriberConfig} {count : Nat}

/-- A listener's step leaves the channel's order. -/
theorem Ordered.step {config : Option SubscriberConfig} (h : sub.Ordered)
    (hstep : sub.Step manager config sub') : sub'.Ordered := by
  cases hstep with
  | receive _ _ hqueue | take _ _ hqueue =>
      unfold Ordered at h
      rw [hqueue] at h
      exact (List.pairwise_cons.1 h).2
  | gone | streamGone | stop => exact List.Pairwise.nil
  | keep | reject | deliver | listen | flush | batch | due | buffer | skip => exact h

/-- A listener that is to hand the event over does not lose it. -/
theorem Keeps.step (h : sub.Keeps capacity count n event)
    (hstep : sub.Step manager (some c) sub') (hrunning : sub.stopped = false)
    (hreads : sub.listener.Reads c.filter w)
    (hreceived : manager.received c.enabled c.filter event = some event) :
    sub'.Keeps capacity count n event := by
  have hhere : n ∈ sub'.places := (places_step hstep).mem_iff.2 h.here
  have hordered := h.ordered.step hstep
  -- what the listener makes of the event, if it is the one
  have hkeep : ∀ {item : Item} {event' : JobLifecycleEvent},
      item ∈ sub.listener.fresh ++ sub.queue →
      manager.received c.enabled c.filter item.event = some event' → item.seq = n →
        event' = event := by
    intro item event' hitem hevent' hseq
    rw [h.fresh item hitem hseq, hreceived] at hevent'
    exact (Option.some.inj hevent').symm
  have hskip : ∀ {item : Item}, item ∈ sub.listener.fresh ++ sub.queue →
      manager.received c.enabled c.filter item.event = none → item.seq ≠ n := by
    intro item hitem hnone hseq
    rw [h.fresh item hitem hseq, hreceived] at hnone
    cases hnone
  have hkept := h.kept
  unfold items at hkept
  have hfresh := h.fresh
  have hstream : ∀ {stream : SubscriberConfig} {buffer : List Item} {item : Item},
      sub.listener = .checking stream buffer item → stream.filter = c.filter := by
    intro stream buffer item hl
    rw [hl] at hreads
    cases w with
    | webhook => exact hreads.elim
    | stream => exact hreads
  cases hstep with
  | gone _ hnone | streamGone _ hnone => cases hnone
  | stop _ hstopped =>
      rw [hrunning] at hstopped
      cases hstopped
  | receive hl _ hqueue =>
      rw [hl, hqueue] at hkept hfresh
      exact ⟨hhere, h.lost, hfresh, hkept, hordered,
        fun item hitem => h.early item (by rw [hqueue]; exact List.mem_cons_of_mem _ hitem)⟩
  | @keep item webhook event' hl hc hevent' =>
      cases hc
      have hitem : item ∈ sub.listener.fresh ++ sub.queue := by simp [hl, Listener.fresh]
      refine ⟨hhere, h.lost, fun other hother => hfresh other (List.mem_append_right _ hother),
        fun other hother hseq => ?_, hordered, h.early⟩
      rw [hl] at hkept
      simp only [items, Listener.inHand, List.mem_append, List.mem_singleton] at hother hkept
      rcases hother with hother | rfl | hother
      · exact hkept other (.inl hother) hseq
      · rw [hkeep hitem hevent' hseq]
      · exact hkept other (.inr (.inr hother)) hseq
  | @reject item webhook hl hc hnone =>
      cases hc
      have hitem : item ∈ sub.listener.fresh ++ sub.queue := by simp [hl, Listener.fresh]
      refine ⟨hhere, fun e he hseq => ?_, fun other hother =>
        hfresh other (List.mem_append_right _ hother), fun other hother => hkept other ?_, hordered,
        h.early⟩
      · rcases List.mem_append.1 he with he | he
        · exact h.lost e he hseq
        · rw [List.mem_singleton.1 he] at hseq
          exact absurd hseq (hskip hitem hnone)
      · simp only [items, Listener.inHand, List.mem_append, List.not_mem_nil, false_or] at hother ⊢
        exact hother.imp_right .inr
  | deliver hl =>
      rw [hl] at hkept
      refine ⟨hhere, h.lost, fun other hother => hfresh other (List.mem_append_right _ hother),
        fun other hother => hkept other ?_, hordered, h.early⟩
      simpa [items, Listener.inHand, or_assoc] using hother
  | listen hl | due hl =>
      rw [hl] at hkept
      exact ⟨hhere, h.lost, fun other hother => hfresh other (List.mem_append_right _ hother),
        hkept, hordered, h.early⟩
  | flush hl =>
      rw [hl] at hkept
      exact ⟨hhere, h.lost, fun other hother => hfresh other (List.mem_append_right _ hother),
        hkept, hordered, h.early⟩
  | batch hl =>
      rw [hl] at hkept
      refine ⟨hhere, h.lost, fun other hother => hfresh other (List.mem_append_right _ hother),
        fun other hother => hkept other ?_, hordered, h.early⟩
      simpa [items, Listener.inHand, or_assoc] using hother
  | @take stream buffer rest item hl _ hqueue =>
      rw [hl, hqueue] at hkept
      refine ⟨hhere, h.lost, ?_, fun other hother => hkept other ?_, hordered,
        fun item hitem => h.early item (by rw [hqueue]; exact List.mem_cons_of_mem _ hitem)⟩
      · rw [hl, hqueue] at hfresh
        exact hfresh
      · simpa [items, Listener.inHand, or_assoc] using hother
  | @buffer stream buffer item event' hl hevent' =>
      have hitem : item ∈ sub.listener.fresh ++ sub.queue := by simp [hl, Listener.fresh]
      rw [hstream hl] at hevent'
      refine ⟨hhere, h.lost, fun other hother => hfresh other (List.mem_append_right _ hother),
        fun other hother hseq => ?_, hordered, h.early⟩
      rw [hl] at hkept
      simp only [items, Listener.inHand, List.mem_append, List.mem_singleton] at hother hkept
      rcases hother with hother | (hother | rfl) | hother
      · exact hkept other (.inl hother) hseq
      · exact hkept other (.inr (.inl (.inl hother))) hseq
      · rw [hkeep hitem hevent' hseq]
      · exact hkept other (.inr (.inr hother)) hseq
  | @skip stream buffer item hl hnone =>
      have hitem : item ∈ sub.listener.fresh ++ sub.queue := by simp [hl, Listener.fresh]
      rw [hstream hl] at hnone
      refine ⟨hhere, fun e he hseq => ?_, fun other hother =>
        hfresh other (List.mem_append_right _ hother), fun other hother => hkept other ?_, hordered,
        h.early⟩
      · rcases List.mem_append.1 he with he | he
        · exact h.lost e he hseq
        · rw [List.mem_singleton.1 he] at hseq
          exact absurd hseq (hskip hitem hnone)
      · rw [hl]
        simp only [items, Listener.inHand, List.mem_append, List.mem_singleton] at hother ⊢
        rcases hother with hother | hother | hother
        · exact .inl hother
        · exact .inr (.inl (.inl hother))
        · exact .inr (.inr hother)

/-- Numbers in order between two bounds. -/
theorem length_le_of_increasing {l : List Nat} (h : l.Pairwise (· < ·)) {m k : Nat}
    (hl : ∀ x ∈ l, m < x ∧ x ≤ k) : l.length ≤ k - m := by
  induction l generalizing m with
  | nil => exact Nat.zero_le _
  | cons a l ih =>
      obtain ⟨hhead, htail⟩ := List.pairwise_cons.1 h
      have hrest := ih htail fun x hx => ⟨hhead x hx, (hl x (List.mem_cons_of_mem _ hx)).2⟩
      have ha := hl a (List.mem_cons_self ..)
      rw [List.length_cons]
      omega

/-- Publishing keeps the channel's order. -/
theorem Ordered.push {item : Item} (h : sub.Ordered)
    (hearly : ∀ old ∈ sub.queue, old.seq < item.seq) : (sub.push capacity item).Ordered := by
  unfold Subscription.push
  split
  case isTrue => exact h
  case isFalse =>
    show (((sub.queue ++ [item]).drop _).map (·.seq)).Pairwise (· < ·)
    rw [List.map_drop]
    refine List.Pairwise.sublist (List.drop_sublist _ _) ?_
    rw [List.map_append, List.pairwise_append]
    refine ⟨h, List.pairwise_singleton _ _, fun a ha b hb => ?_⟩
    obtain ⟨old, hold, rfl⟩ := List.mem_map.1 ha
    obtain ⟨_, hitem, rfl⟩ := List.mem_map.1 hb
    rw [List.mem_singleton.1 hitem]
    exact hearly old hold

/-- What an event pushed into the channel drives out of it is `capacity`
events older. -/
theorem lost_push {item e : Item} (h : sub.Ordered)
    (hearly : ∀ old ∈ sub.queue, old.seq < item.seq)
    (he : e ∈ (sub.queue ++ [item]).take ((sub.queue ++ [item]).length - capacity))
    (hpositive : 0 < capacity) : e ∈ sub.queue ∧ e.seq + capacity ≤ item.seq := by
  have hsorted : ((sub.queue ++ [item]).map (·.seq)).Pairwise (· < ·) := by
    rw [List.map_append, List.pairwise_append]
    refine ⟨h, List.pairwise_singleton _ _, fun a ha b hb => ?_⟩
    obtain ⟨old, hold, rfl⟩ := List.mem_map.1 ha
    obtain ⟨_, hitem, rfl⟩ := List.mem_map.1 hb
    rw [List.mem_singleton.1 hitem]
    exact hearly old hold
  generalize hk : (sub.queue ++ [item]).length - capacity = k at he
  have hsplit := List.take_append_drop k (sub.queue ++ [item])
  have hlength : ((sub.queue ++ [item]).drop k).length = capacity := by
    have hpos : 0 < k := by
      cases k with
      | zero => cases he
      | succ k => omega
    rw [List.length_drop]
    omega
  rw [← hsplit, List.map_append, List.pairwise_append] at hsorted
  obtain ⟨-, hdrop, hbetween⟩ := hsorted
  have hbound := length_le_of_increasing hdrop (m := e.seq) (k := item.seq) fun x hx => by
    refine ⟨hbetween e.seq (List.mem_map_of_mem he) x hx, ?_⟩
    obtain ⟨other, hother, rfl⟩ := List.mem_map.1 hx
    rcases List.mem_append.1 (List.mem_of_mem_drop hother) with hold | hnew
    · exact Nat.le_of_lt (hearly other hold)
    · rw [List.mem_singleton.1 hnew]
  rw [List.length_map, hlength] at hbound
  rcases List.mem_append.1 (List.mem_of_mem_take he) with hold | hnew
  · have hlt := hearly e hold
    exact ⟨hold, by omega⟩
  · rw [List.mem_singleton.1 hnew] at hbound
    omega

/-- An event published later leaves this one where it is, or drives it
out. -/
theorem Keeps.push (h : sub.Keeps capacity count n event) (hpositive : 0 < capacity)
    (hold : n < count) (event' : JobLifecycleEvent) (hopen : sub.listener.isEnded = false) :
    (sub.push capacity ⟨count, event'⟩).Keeps capacity (count + 1) n event := by
  have hplaces : (sub.push capacity ⟨count, event'⟩).places.Perm (sub.places ++ [count]) :=
    places_push hopen
  have hordered : (sub.push capacity ⟨count, event'⟩).Ordered := h.ordered.push h.early
  have hhere := hplaces.mem_iff.2 (List.mem_append_left [count] h.here)
  unfold Subscription.push at hordered hhere ⊢
  rw [hopen, if_neg Bool.false_ne_true] at hordered hhere ⊢
  have hqueue : ∀ k, ∀ item ∈ (sub.queue ++ [(⟨count, event'⟩ : Item)]).drop k,
      item ∈ sub.queue ∨ item.seq = count := by
    intro k item hitem
    refine (List.mem_append.1 (List.mem_of_mem_drop hitem)).imp_right fun hnew => ?_
    rw [List.mem_singleton.1 hnew]
  refine ⟨hhere, fun e he hseq => ?_, fun item hitem hseq => ?_, fun item hitem hseq => ?_,
    hordered, fun item hitem => ?_⟩
  · rcases List.mem_append.1 he with he | he
    · have hlost := h.lost e he hseq
      omega
    · obtain ⟨item, hitem, rfl⟩ := List.mem_map.1 he
      have hlost := (lost_push h.ordered h.early hitem hpositive).2
      have hseq : item.seq = n := hseq
      have hlost : item.seq + capacity ≤ count := hlost
      omega
  · refine h.fresh item ?_ hseq
    rcases List.mem_append.1 hitem with hitem | hitem
    · exact List.mem_append_left _ hitem
    · rcases hqueue _ item hitem with hitem | hnew
      · exact List.mem_append_right _ hitem
      · omega
  · refine h.kept item ?_ hseq
    rcases List.mem_append.1 hitem with hitem | hitem
    · exact List.mem_append_left _ hitem
    · rcases List.mem_append.1 hitem with hitem | hitem
      · exact List.mem_append_right _ (List.mem_append_left _ hitem)
      · rcases hqueue _ item hitem with hitem | hnew
        · exact List.mem_append_right _ (List.mem_append_right _ hitem)
        · omega
  · rcases hqueue _ item hitem with hitem | hnew
    · have hearly := h.early item hitem
      omega
    · omega

/-- An event just published is kept. -/
theorem keeps_push {log : List JobLifecycleEvent} (h : sub.Accounted log) (hordered : sub.Ordered)
    (hpositive : 0 < capacity) (hopen : sub.listener.isEnded = false) :
    (sub.push capacity ⟨log.length, event⟩).Keeps capacity (log.length + 1) log.length event := by
  have hearly : ∀ item ∈ sub.queue, item.seq < log.length := fun item hitem =>
    h.published item.seq (by simp [places]; exact .inr (.inr (.inr ⟨item, hitem, rfl⟩)))
  have hplaces : (sub.push capacity ⟨log.length, event⟩).places.Perm (sub.places ++ [log.length]) :=
    places_push hopen
  have hhere := hplaces.mem_iff.2 (List.mem_append_right sub.places (List.mem_singleton_self _))
  have hpushed : (sub.push capacity ⟨log.length, event⟩).Ordered := hordered.push hearly
  have hold : ∀ item ∈ sub.deliveries.flatten ++ (sub.listener.inHand ++ sub.queue),
      item.seq ≠ log.length := by
    intro item hitem heq
    have hplace : item.seq ∈ sub.places := by
      have hmem := List.mem_map_of_mem (f := fun item : Item => item.seq) hitem
      rw [List.map_append] at hmem
      rcases List.mem_append.1 hmem with hmem | hmem
      · exact List.mem_append_left _ (List.mem_append_left _ hmem)
      · exact List.mem_append_right _ hmem
    have hlt := h.published item.seq hplace
    omega
  have hfresh : ∀ item ∈ sub.listener.fresh, item ∈ sub.listener.inHand := by
    intro item hitem
    cases hl : sub.listener <;> rw [hl] at hitem <;> simp_all [Listener.fresh, Listener.inHand]
  unfold Subscription.push at hhere hpushed ⊢
  rw [hopen, if_neg Bool.false_ne_true] at hhere hpushed ⊢
  have hqueue : ∀ k, ∀ item ∈ (sub.queue ++ [(⟨log.length, event⟩ : Item)]).drop k,
      item ∈ sub.queue ∨ item = ⟨log.length, event⟩ := by
    intro k item hitem
    exact (List.mem_append.1 (List.mem_of_mem_drop hitem)).imp_right List.mem_singleton.1
  refine ⟨hhere, fun e he hseq => ?_, fun item hitem hseq => ?_, fun item hitem hseq => ?_, hpushed,
    fun item hitem => ?_⟩
  · rcases List.mem_append.1 he with he | he
    · have hlt := h.published e.1 (by
        exact List.mem_append_left _ (List.mem_append_right _ (List.mem_map_of_mem he)))
      omega
    · obtain ⟨item, hitem, rfl⟩ := List.mem_map.1 he
      have hlost := (lost_push hordered hearly hitem hpositive).1
      exact absurd hseq (hold item (by simp [hlost]))
  · rcases List.mem_append.1 hitem with hitem | hitem
    · exact absurd hseq (hold item (by simp [hfresh item hitem]))
    · rcases hqueue _ item hitem with hitem | rfl
      · exact absurd hseq (hold item (by simp [hitem]))
      · rfl
  · rcases List.mem_append.1 hitem with hitem | hitem
    · exact absurd hseq (hold item (List.mem_append_left _ hitem))
    · rcases List.mem_append.1 hitem with hitem | hitem
      · exact absurd hseq (hold item (by simp [hitem]))
      · rcases hqueue _ item hitem with hitem | rfl
        · exact absurd hseq (hold item (by simp [hitem]))
        · rfl
  · rcases hqueue _ item hitem with hitem | rfl
    · have hlt := hearly item hitem
      omega
    · exact Nat.lt_succ_self _

end Subscription

-- == the system

/-- A step of a call leaves the channel's order. -/
theorem ordered_call {call : Call} {next : Option Call} (hs : Wired s)
    (hordered : ∀ id sub, s.subs id = some sub → sub.Ordered)
    (h : call.Step serialized capacity s s' next) :
    ∀ id sub, s'.subs id = some sub → sub.Ordered := by
  have hmodify : ∀ (t : System) (id₀ : SubscriptionId) (f : Subscription → Subscription),
      (∀ id sub, t.subs id = some sub → sub.Ordered) → (∀ sub, (f sub).queue = sub.queue) →
      ∀ id sub, (t.modify id₀ f).subs id = some sub → sub.Ordered := by
    intro t id₀ f ht hf id sub hsub
    unfold System.modify at hsub
    dsimp only at hsub
    split at hsub
    case isTrue =>
      obtain ⟨old, hold, rfl⟩ := Option.map_eq_some_iff.1 hsub
      unfold Subscription.Ordered
      rw [hf]
      exact ht _ old hold
    case isFalse => exact ht id sub hsub
  cases h with
  | send =>
      intro id sub hsub
      obtain ⟨old, hold, rfl⟩ := Option.map_eq_some_iff.1 hsub
      refine (hordered id old hold).push fun item hitem => ?_
      refine (hs.accounted id old hold).published item.seq ?_
      exact List.mem_append_right _ (List.mem_map_of_mem (List.mem_append_right _ hitem))
  | subscribe id₀ =>
      intro id sub hsub
      unfold System.subscribe at hsub
      dsimp only at hsub
      split at hsub
      case isTrue =>
        obtain rfl := Option.some.inj hsub
        exact List.Pairwise.nil
      case isFalse => exact hordered id sub hsub
  | @replace w old id₀ => exact hmodify (s.unsubscribe old) old _ hordered fun _ => rfl
  | @stop w id₀ => exact hmodify (s.unsubscribe id₀) id₀ _ hordered fun _ => rfl
  | @start w id₀ => exact hmodify s id₀ _ hordered fun _ => rfl
  | prepare | disabled | store | install | swap | update | updateUnknown | setEnabled | setUnknown
    | removeWebhook | removeStream | detach | detached | failed | forget => exact hordered

/-- The channel's order in every run. -/
theorem Runs.ordered (h : Runs serialized capacity (.new config) s) :
    ∀ id sub, s.subs id = some sub → sub.Ordered := by
  induction h with
  | refl => exact fun _ _ hsub => by cases hsub
  | @tail s₁ s₂ hruns hstep ih =>
      cases hstep with
      | invoke => exact ih
      | call _ hcall =>
          exact fun id sub hsub =>
            ordered_call (Runs.wired hruns (.new config)) ih hcall id sub hsub
      | @listen id sub sub' hsub hlistens =>
          have heffect := (Listens.listen id hsub hlistens).effect
          intro id₁ sub₁ hsub₁
          cases hold : s₁.subs id₁ with
          | none =>
              have hnone : ((if sub'.listener.isEnded then s₁.unsubscribe id else s₁).modify id
                  fun _ => sub').subs id₁ = none := by
                split <;> simp [System.modify, System.unsubscribe, hold]
              rw [hnone] at hsub₁
              cases hsub₁
          | some old =>
              obtain ⟨sub₂, hsub₂, hsame | hstep, -⟩ := heffect.subs id₁ old hold
              · rw [hsub₂] at hsub₁
                cases hsub₁
                rw [hsame]
                exact ih id₁ old hold
              · rw [hsub₂] at hsub₁
                cases hsub₁
                exact (ih id₁ old hold).step hstep

/-- The subscriber a call is about. -/
def Call.about : Call → Option Subscriber
  | .publish _ | .send _ => none
  | .update n _ => some (.webhook n)
  | .add w _ | .store w _ _ | .install w _ | .replace w _ _ | .start w _ | .setEnabled w _
  | .remove w | .detach w | .stop w _ | .forget w => some w

/-- What a call on another subscriber leaves of a subscription: it gets an
event, or stays as it is. -/
structure Spared (capacity : Nat) (s s' : System) (w : Subscriber) (id : SubscriptionId)
    (sub : Subscription) : Prop where
  handle : s'.handles w = s.handles w
  config : s'.configs w = s.configs w
  manager : s'.manager.config = s.manager.config
  sub : (s'.subs id = some sub ∧ s'.published = s.published) ∨
    ∃ event, s'.subs id = some (sub.push capacity ⟨s.published.length, event⟩) ∧
      s'.published.length = s.published.length + 1

theorem Stage.spares {after : Bool → Ledger} {call : Call} {next : Option Call}
    {sub : Subscription} (h : Stage config after s (some call))
    (hstep : call.Step serialized capacity s s' next) (hother : call.about ≠ some w)
    (hsub : s.subs id = some sub) (hw : sub.subscriber = w) :
    Spared capacity s s' w id sub ∧ ∀ call' ∈ next, call'.about = call.about := by
  have hne : ∀ {w' : Subscriber}, call.about = some w' → w ≠ w' := by
    intro w' habout heq
    rw [habout, heq] at hother
    exact hother rfl
  have hid : ∀ {w' : Subscriber} {id' : SubscriptionId}, call.about = some w' →
      (∃ sub, s.subs id' = some sub ∧ sub.subscriber = w') → id ≠ id' := by
    intro w' id' habout hsub' heq
    obtain ⟨sub', hsub', hw'⟩ := hsub'
    rw [← heq, hsub] at hsub'
    cases hsub'
    exact hne habout (hw.symm.trans hw')
  cases hstep with
  | prepare => exact ⟨⟨rfl, rfl, rfl, .inl ⟨hsub, rfl⟩⟩, fun _ h => by cases h; rfl⟩
  | disabled => exact ⟨⟨rfl, rfl, rfl, .inl ⟨hsub, rfl⟩⟩, fun _ h => by cases h⟩
  | send =>
      refine ⟨⟨rfl, rfl, rfl, .inr ⟨_, by simp [System.broadcast, hsub]; rfl, ?_⟩⟩,
        fun _ h => by cases h⟩
      simp [System.broadcast]
  | subscribe id₀ hnew =>
      have hid₀ : id ≠ id₀ := fun heq => by
        rw [heq, hnew] at hsub
        cases hsub
      exact ⟨⟨rfl, rfl, rfl, .inl ⟨(if_neg hid₀).trans hsub, rfl⟩⟩, fun _ h => by cases h; rfl⟩
  | store => exact ⟨⟨rfl, if_neg (hne rfl), rfl, .inl ⟨hsub, rfl⟩⟩, fun _ h => by cases h; rfl⟩
  | install | swap =>
      exact ⟨⟨if_neg (hne rfl), rfl, rfl, .inl ⟨hsub, rfl⟩⟩, fun _ h => by cases h; rfl⟩
  | replace =>
      obtain ⟨_, -, -, -, -, -, -, hold⟩ := h
      exact ⟨⟨rfl, rfl, rfl, .inl ⟨(if_neg (hid rfl hold)).trans hsub, rfl⟩⟩,
        fun _ h => by cases h; rfl⟩
  | start =>
      obtain ⟨_, -, -, ⟨sub', hsub', hw', -⟩, -⟩ := h
      exact ⟨⟨rfl, rfl, rfl, .inl ⟨(if_neg (hid rfl ⟨sub', hsub', hw'⟩)).trans hsub, rfl⟩⟩,
        fun _ h => by cases h⟩
  | update | setEnabled =>
      exact ⟨⟨rfl, if_neg (hne rfl), rfl, .inl ⟨hsub, rfl⟩⟩, fun _ h => by cases h⟩
  | updateUnknown => exact ⟨⟨rfl, rfl, rfl, .inl ⟨hsub, rfl⟩⟩, fun _ h => by cases h; rfl⟩
  | setUnknown | failed => exact ⟨⟨rfl, rfl, rfl, .inl ⟨hsub, rfl⟩⟩, fun _ h => by cases h⟩
  | removeWebhook =>
      exact ⟨⟨rfl, if_neg (hne rfl), rfl, .inl ⟨hsub, rfl⟩⟩, fun _ h => by cases h; rfl⟩
  | removeStream => exact ⟨⟨rfl, rfl, rfl, .inl ⟨hsub, rfl⟩⟩, fun _ h => by cases h; rfl⟩
  | detach =>
      exact ⟨⟨if_neg (hne rfl), rfl, rfl, .inl ⟨hsub, rfl⟩⟩, fun _ h => by cases h; rfl⟩
  | @detached w' =>
      refine ⟨⟨rfl, rfl, rfl, .inl ⟨hsub, rfl⟩⟩, fun _ h => ?_⟩
      cases w' <;> cases h
      rfl
  | @stop w' id' =>
      obtain ⟨-, -, -, hmine⟩ := h
      refine ⟨⟨rfl, rfl, rfl, .inl ⟨(if_neg (hid rfl hmine)).trans hsub, rfl⟩⟩, fun _ h => ?_⟩
      cases w' <;> cases h
      rfl
  | forget => exact ⟨⟨rfl, if_neg (hne rfl), rfl, .inl ⟨hsub, rfl⟩⟩, fun _ h => by cases h⟩

/-- The subscriber has the event `n`, and its listener is to hand it over.
-/
structure Keeping (capacity : Nat) (w : Subscriber) (id : SubscriptionId) (c : SubscriberConfig)
    (n : Nat) (event : JobLifecycleEvent) (s : System) : Prop where
  handle : s.handles w = some id
  config : s.configs w = some c
  received : s.manager.received c.enabled c.filter event = some event
  published : n < s.published.length
  sub : ∃ sub, s.subs id = some sub ∧ sub.subscriber = w ∧ sub.stopped = false ∧
    sub.listener.Reads c.filter w ∧ sub.Keeps capacity s.published.length n event

/-- What a listener makes of an event depends on the manager's
configuration only. -/
theorem received_congr {manager manager' : EventManager} (h : manager'.config = manager.config)
    (enabled : Bool) (filter : EventFilter) (event : JobLifecycleEvent) :
    manager'.received enabled filter event = manager.received enabled filter event := by
  unfold EventManager.received EventManager.deliversPayload
  rw [h]

theorem Keeping.listens {c : SubscriberConfig} (h : Keeping capacity w id c n event s)
    (hstep : Listens s s') : Keeping capacity w id c n event s' := by
  have heffect := hstep.effect
  obtain ⟨sub, hsub, hw, hrunning, hreads, hkeeps⟩ := h.sub
  refine ⟨by rw [heffect.handles, h.handle], by rw [heffect.configs, h.config],
    by rw [received_congr heffect.config, h.received], by rw [heffect.published]; exact h.published,
    ?_⟩
  rw [heffect.published]
  obtain ⟨sub', hsub', hsame | hlistens, -⟩ := heffect.subs id sub hsub
  · rw [hsame] at hsub'
    exact ⟨sub, hsub', hw, hrunning, hreads, hkeeps⟩
  · rw [hw, h.config] at hlistens
    obtain ⟨hw', -, hstopped⟩ := Subscription.kept_step hlistens
    exact ⟨sub', hsub', hw'.trans hw, hstopped.trans hrunning,
      reads_step hlistens hrunning hreads, hkeeps.step hlistens hrunning hreads h.received⟩

theorem Keeping.spared {c : SubscriberConfig} (h : Keeping capacity w id c n event s)
    (hpositive : 0 < capacity)
    (hspared : ∀ sub, s.subs id = some sub → sub.subscriber = w → Spared capacity s s' w id sub) :
    Keeping capacity w id c n event s' := by
  obtain ⟨sub, hsub, hw, hrunning, hreads, hkeeps⟩ := h.sub
  obtain ⟨hhandle, hconfig, hmanager, hsub'⟩ := hspared sub hsub hw
  have hpublished := h.published
  refine ⟨hhandle.trans h.handle, hconfig.trans h.config,
    by rw [received_congr hmanager, h.received], ?_, ?_⟩
  · obtain ⟨-, hsame⟩ | ⟨_, -, hnext⟩ := hsub'
    · rwa [hsame]
    · omega
  · obtain ⟨hsub', hsame⟩ | ⟨event', hsub', hnext⟩ := hsub'
    · rw [hsame]
      exact ⟨sub, hsub', hw, hrunning, hreads, hkeeps⟩
    · rw [hnext]
      obtain ⟨hw', hstopped, hlistener⟩ :=
        Subscription.kept_push capacity ⟨s.published.length, event'⟩ sub
      exact ⟨_, hsub', hw'.trans hw, hstopped.trans hrunning, by rw [hlistener]; exact hreads,
        hkeeps.push hpositive hpublished event' hreads.isEnded⟩

/-- A call on another subscriber leaves the event where it is. -/
theorem Finishes.keeps {after : Bool → Ledger} {next : Option Call} {failed : Bool}
    {c : SubscriberConfig} (h : Finishes serialized capacity s next failed s')
    (hstage : Stage config after s next) (hother : ∀ call ∈ next, call.about ≠ some w)
    (hpositive : 0 < capacity) (hs : Keeping capacity w id c n event s) :
    Keeping capacity w id c n event s' := by
  induction h with
  | done s => exact hs
  | listen hlistens _ ih => exact ih (hstage.listens hlistens) hother (hs.listens hlistens)
  | @go s₁ s₂ s₃ call next failed hstep hgoes _ ih =>
      have habout := hother call rfl
      obtain ⟨sub, hsub, hw, -⟩ := hs.sub
      have hnext := (hstage.spares hstep habout hsub hw).2
      exact ih (hstage.step hstep hgoes) (fun call' hcall' => by rwa [hnext call' hcall'])
        (hs.spared hpositive fun sub hsub hw => (hstage.spares hstep habout hsub hw).1)
  | forget s w' =>
      have habout := hother (.forget w') rfl
      have hforget : Call.Step serialized capacity s (.forget w') (s.setConfig w' none) none :=
        .forget
      exact hs.spared hpositive fun sub hsub hw => (hstage.spares hforget habout hsub hw).1
  | failed s w' => exact hs

/-- Calls on other subscribers leave the event where it is. -/
theorem InTurn.keeps {made : List (Call × Bool)} {c : SubscriberConfig}
    (h : InTurn serialized capacity s made s') (hsettled : Settled config ledger s)
    (hothers : ∀ m ∈ made, m.1.about ≠ some w) (hpositive : 0 < capacity)
    (hs : Keeping capacity w id c n event s) : Keeping capacity w id c n event s' := by
  induction h with
  | start => exact hs
  | listen _ hlistens ih => exact (ih hothers).listens hlistens
  | @call made s₁ s₂ call failed hmade hopens hfinishes ih =>
      have hbefore := ih fun m hm => hothers m (List.mem_append_left _ hm)
      refine hfinishes.keeps ((hmade.settled hsettled).opens hopens) ?_ hpositive hbefore
      intro call' hcall'
      cases hcall'
      exact hothers (call, failed) (List.mem_append_right _ (List.mem_singleton_self _))

-- == the claim

/-- The event `n` is at the subscription of the subscriber: underway or
handed over with the payload, or lost because `capacity` events were
published after it. -/
def Reaches (capacity : Nat) (s : System) (w : Subscriber) (n : Nat) (payload : Json) : Prop :=
  ∃ id sub, s.handles w = some id ∧ s.subs id = some sub ∧ n ∈ sub.places ∧
    (∀ e ∈ sub.lost, e.1 = n → n + capacity < s.published.length) ∧
    ∀ item ∈ sub.items, item.seq = n → item.event.payload = some payload

/-- A payload that is small enough reaches a subscriber that is
registered, enabled, interested and entitled to it, after any calls made
one at a time and whatever calls on others follow, if and only if some
subscription was made with a filter that asks for payloads, and the
subscriber has one. -/
theorem payload_reaches_iff (serialized : Json → String) (capacity : Nat) (config : EventConfig)
    (made : List (Call × Bool)) (s : System) (w : Subscriber) (c : SubscriberConfig)
    (event event' : JobLifecycleEvent) (payload : Json)
    (hs : InTurn serialized capacity (.new config) made s) (hpositive : 0 < capacity)
    (hpublished : s.manager.publishEvent serialized event = some event')
    (hpayload : event.payload = some payload)
    (hsize : (serialized payload).utf8ByteSize ≤ config.maxPayloadSizeBytes)
    (hregistered : s.configs w = some c) (henabled : c.enabled = true)
    (hmatches : c.filter.matchesEvent event = true)
    (hdelivers : s.manager.deliversPayload c.filter = true) :
    (∀ more s', InTurn serialized capacity (s.broadcast capacity event') more s' →
        (∀ m ∈ more, m.1.about ≠ some w) → Reaches capacity s' w s.published.length payload) ↔
      Asked config (.of made) ∧ ∃ r, Ledger.of made w = some r ∧ r.added ≠ none := by
  have hsettled : Settled config (.of made) s := hs.settled (.new config)
  have hruns := (hs.runs rfl).1
  have hordered := Runs.ordered hruns
  have hwired := hruns.wired (.new config)
  have hevent' := publishEvent_small hpayload (by rwa [hsettled.config]) hpublished
  obtain ⟨hentry, hnone, hserves⟩ := hsettled.tied w
  obtain ⟨r, hr, hrc⟩ : ∃ r, Ledger.of made w = some r ∧ r.config = c := by
    rw [hregistered] at hentry
    exact Option.map_eq_some_iff.1 hentry.symm
  constructor
  · intro hreaches
    obtain ⟨id, sub', hhandle, hsub', hhere, hlost, hkept⟩ :=
      hreaches [] _ .start fun m hm => by cases hm
    have hhandle : s.handles w = some id := hhandle
    have hadded : r.added ≠ none := fun hadded => by
      rw [hnone fun r' hr' => by rw [hr] at hr'; cases hr'; exact hadded] at hhandle
      cases hhandle
    refine ⟨(payloadWanted_iff hsettled).1 ?_, r, hr, hadded⟩
    obtain ⟨added, hadded⟩ := Option.ne_none_iff_exists'.1 hadded
    obtain ⟨id', hid', sub, hsub, -, -, hreads, -⟩ := hserves r added hr hadded
    rw [hhandle] at hid'
    cases hid'
    have hpushed : sub' = sub.push capacity ⟨s.published.length, event'⟩ := by
      have h : (s.subs id).map (Subscription.push capacity ⟨s.published.length, event'⟩)
          = some sub' := hsub'
      rw [hsub] at h
      exact (Option.some.inj h).symm
    -- the event is there as it was published
    have hkeeps : sub'.Keeps capacity (s.published.length + 1) s.published.length event' := by
      rw [hpushed]
      exact Subscription.keeps_push (hwired.accounted id sub hsub) (hordered id sub hsub)
        hpositive hreads.isEnded
    have hitem : ∃ item ∈ sub'.items, item.seq = s.published.length := by
      have hunlost : ∀ e ∈ sub'.lost, e.1 ≠ s.published.length := fun e he hseq => by
        have hlt := hkeeps.lost e he hseq
        omega
      unfold Subscription.places Subscription.handed at hhere
      rcases List.mem_append.1 hhere with hhere | hhere
      · rcases List.mem_append.1 hhere with hhere | hhere
        · obtain ⟨item, hitem, hseq⟩ := List.mem_map.1 hhere
          exact ⟨item, List.mem_append_left _ hitem, hseq⟩
        · obtain ⟨e, he, hseq⟩ := List.mem_map.1 hhere
          exact absurd hseq (hunlost e he)
      · obtain ⟨item, hitem, hseq⟩ := List.mem_map.1 hhere
        exact ⟨item, List.mem_append_right _ hitem, hseq⟩
    obtain ⟨item, hitem, hseq⟩ := hitem
    have hsame := (hkeeps.kept item hitem hseq).symm.trans (hkept item hitem hseq)
    cases hwanted : s.manager.payloadWanted with
    | true => rfl
    | false =>
        rw [hevent', hwanted] at hsame
        cases hsame
  · intro ⟨hasked, r', hr', hadded⟩ more s' hmore hothers
    rw [hr] at hr'
    cases hr'
    obtain ⟨added, hadded⟩ := Option.ne_none_iff_exists'.1 hadded
    obtain ⟨id, hhandle, sub, hsub, hw, hrunning, hreads, -⟩ := hserves r added hr hadded
    rw [(payloadWanted_iff hsettled).2 hasked, if_pos rfl] at hevent'
    subst hevent'
    have hreceived : s.manager.received c.enabled c.filter event' = some event' := by
      unfold EventManager.received
      rw [henabled, hmatches, hdelivers]
      rfl
    obtain ⟨hw', hstopped, hlistener⟩ :=
      Subscription.kept_push capacity ⟨s.published.length, event'⟩ sub
    have hkeeping : Keeping capacity w id c s.published.length event'
        (s.broadcast capacity event') := by
      refine ⟨hhandle, hregistered, hreceived, by simp [System.broadcast],
        sub.push capacity ⟨s.published.length, event'⟩, by simp [System.broadcast, hsub],
        hw'.trans hw, hstopped.trans hrunning, by rw [hlistener, ← hrc]; exact hreads, ?_⟩
      have hkeeps : (sub.push capacity ⟨s.published.length, event'⟩).Keeps capacity
          (s.published.length + 1) s.published.length event' :=
        Subscription.keeps_push (hwired.accounted id sub hsub) (hordered id sub hsub) hpositive
          hreads.isEnded
      simpa [System.broadcast] using hkeeps
    obtain ⟨hhandle', -, -, -, sub', hsub', -, -, -, hkeeps⟩ :=
      hmore.keeps (hsettled.broadcast event') hothers hpositive hkeeping
    exact ⟨id, sub', hhandle', hsub', hkeeps.here, hkeeps.lost,
      fun item hitem hseq => (hkeeps.kept item hitem hseq).trans hpayload⟩

-- == examples

/-- An enabled webhook that wants the events of a filter. -/
def wanting (filter : EventFilter) : SubscriberConfig where
  filter := filter
  enabled := true
  batchSize := 1
  maxEvents := 1

/-- A filter that asks for payloads. -/
def asking : EventFilter := { EventFilter.new with includePayload := true }

/-- An event with a payload. -/
def paidEvent : JobLifecycleEvent := { plainEvent with payload := some (.number "1") }

/-- The webhook was added, to a manager with the default configuration. -/
def withFilter (filter : EventFilter) : System :=
  (((System.new .default).subscribe 0 (.webhook 0) filter).setConfig (.webhook 0)
    (some (wanting filter))).setHandle (.webhook 0) (some 0) |>.modify 0 fun sub =>
      { sub with listener := sub.listener.start (.webhook 0) }

theorem inTurn_withFilter (filter : EventFilter) : InTurn serialized capacity (.new .default)
    [(.add (.webhook 0) (wanting filter), false)] (withFilter filter) :=
  .call .start trivial
    (.go (.subscribe 0 rfl) nofun (.go .store nofun (.go (.install rfl) nofun
      (.go .start nofun (.done _)))))

theorem payload_reaches_asking :
    Reaches 1 ((withFilter asking).broadcast 1 paidEvent) (.webhook 0) 0 (.number "1") :=
  (payload_reaches_iff (fun _ => "") 1 .default [(.add (.webhook 0) (wanting asking), false)]
    (withFilter asking) (.webhook 0) (wanting asking) paidEvent paidEvent (.number "1")
    (inTurn_withFilter asking) (by decide) rfl rfl (by decide) rfl rfl rfl rfl).2
    ⟨.inr ⟨.webhook 0, _, asking, rfl, rfl, rfl⟩, _, rfl, nofun⟩ [] _ .start
    fun m hm => by cases hm

/-- The webhook was added without asking for payloads, and updated to ask
for them. -/
def updated : System := (withFilter .new).setConfig (.webhook 0) (some (wanting asking))

theorem inTurn_updated : InTurn serialized capacity (.new .default)
    [(.add (.webhook 0) (wanting .new), false), (.update 0 (wanting asking), false)] updated :=
  .call (inTurn_withFilter .new) trivial (.go (.update rfl) nofun (.done _))

/-- After the update the payload is still taken off when an event is
published, and does not reach the webhook. -/
theorem updated_filter_ignored :
    ¬ ∀ (serialized : Json → String) (capacity : Nat) (config : EventConfig)
        (made : List (Call × Bool)) (s : System) (w : Subscriber) (c : SubscriberConfig)
        (event event' : JobLifecycleEvent) (payload : Json),
      InTurn serialized capacity (.new config) made s → 0 < capacity →
      s.manager.publishEvent serialized event = some event' → event.payload = some payload →
      (serialized payload).utf8ByteSize ≤ config.maxPayloadSizeBytes →
      s.configs w = some c → c.enabled = true → c.filter.matchesEvent event = true →
      s.manager.deliversPayload c.filter = true →
      ∀ more s', InTurn serialized capacity (s.broadcast capacity event') more s' →
        (∀ m ∈ more, m.1.about ≠ some w) → Reaches capacity s' w s.published.length payload := by
  intro h
  obtain ⟨id, sub, hhandle, hsub, -, -, hkept⟩ := h (fun _ => "") 1 .default _ updated (.webhook 0)
    (wanting asking) paidEvent plainEvent (.number "1") inTurn_updated (by decide) rfl rfl
    (by decide) rfl rfl rfl rfl [] _ .start fun m hm => by cases hm
  cases hhandle
  cases hsub
  have hnone := hkept ⟨0, plainEvent⟩ (List.mem_singleton_self (⟨0, plainEvent⟩ : Item)) rfl
  cases hnone

end Delivery

end Hammerwork
