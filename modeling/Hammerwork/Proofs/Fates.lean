/-
What becomes of a published event at one subscription, and which
subscriptions are live.

An event that reached a subscription is in one place there
(`Subscription.places`): still before the listener or in its hands,
handed over, or lost. A listener's step moves events between places, and
publishing adds one (`places_step`, `places_push`). `Accounted` says the
places hold no event twice, and only events published since.

A subscription whose listener was not stopped is the installed one of
its subscriber, or a call under way will install or stop it (`Wired`).
-/
import Hammerwork.Delivery
import Mathlib.Data.List.Perm.Basic

namespace Hammerwork

namespace Delivery

variable {serialized : Json → String} {capacity : Nat} {manager : EventManager}
  {config : Option SubscriberConfig} {sub sub' : Subscription} {s s' : System}
  {w : Subscriber} {id : SubscriptionId} {n : Nat}

-- == places

namespace Subscription

/-- The events that reached the subscription, by where they are. -/
def places (sub : Subscription) : List Nat :=
  sub.handed ++ sub.lost.map Prod.fst ++ (sub.listener.inHand ++ sub.queue).map (·.seq)

/-- The events before the listener, or in its hands. -/
def underway (sub : Subscription) : List Nat :=
  (sub.listener.inHand ++ sub.queue).map (·.seq)

/-- Closing loses what was underway. -/
theorem places_close (sub : Subscription) (loss : Loss) : (sub.close loss).places = sub.places := by
  have hlost : (sub.lost ++ (sub.listener.inHand ++ sub.queue).map fun item =>
      (item.seq, loss)).map Prod.fst = sub.lost.map Prod.fst ++ sub.underway := by
    rw [List.map_append, List.map_map]
    rfl
  show sub.handed ++ (sub.lost ++ _).map Prod.fst ++ [] = _
  rw [hlost, List.append_nil, ← List.append_assoc]
  rfl

/-- The listener's step moves events from place to place. -/
theorem places_step (h : sub.Step manager config sub') : sub'.places.Perm sub.places := by
  cases h with
  | gone | streamGone | stop =>
      rw [places_close]
  | receive hl _ hq | take hl _ hq =>
      simp [places, handed, Listener.inHand, hl, hq]
  | keep hl | reject hl | deliver hl | listen hl | flush hl | batch hl | due hl | buffer hl
    | skip hl =>
      rw [List.perm_iff_count]
      intro n
      simp only [places, handed, Listener.inHand, hl, List.map_append, List.count_append,
        List.flatten_append, List.flatten_cons, List.flatten_nil, List.map_cons, List.map_nil,
        List.nil_append, List.append_nil]
      try omega

/-- An event published reaches an open subscription. -/
theorem places_push {item : Item} (hopen : sub.listener.isEnded = false) :
    (sub.push capacity item).places.Perm (sub.places ++ [item.seq]) := by
  unfold push
  rw [hopen, if_neg Bool.false_ne_true, List.perm_iff_count]
  intro n
  have hqueue := congrArg (fun items => (items.map (·.seq)).count n)
    (List.take_append_drop ((sub.queue ++ [item]).length - capacity) (sub.queue ++ [item]))
  simp only [List.map_append, List.count_append, List.map_cons, List.map_nil] at hqueue
  have hlost : ∀ items : List Item,
      (items.map fun item => (item.seq, Loss.lagged)).map Prod.fst = items.map (·.seq) := by
    intro items
    rw [List.map_map]
    rfl
  simp only [places, handed, List.map_append, List.count_append, hlost]
  omega

theorem push_of_ended {item : Item} (hended : sub.listener.isEnded = true) :
    sub.push capacity item = sub := by
  unfold push
  rw [if_pos hended]

end Subscription

-- == accounted

/-- Why an event was lost: an event rejected is the one published, and
the configuration was disabled or its filter does not match; only a
stopped listener loses what it had by being stopped. -/
def Loss.Explains (log : List JobLifecycleEvent) (stopped : Bool) (n : Nat) : Loss → Prop
  | .lagged | .removed => True
  | .rejected enabled filter event => log[n]? = some event ∧
      (enabled = false ∨ filter.matchesEvent event = false)
  | .stopped => stopped = true

/-- The event a listener has as the channel gave it. -/
def Listener.fresh : Listener → List Item
  | taken item | checking _ _ item => [item]
  | _ => []

namespace Subscription

/-- The events that reached a subscription are in one place each, were
published since it was made, and the lost ones were lost for a reason.
-/
structure Accounted (log : List JobLifecycleEvent) (sub : Subscription) : Prop where
  nodup : sub.places.Nodup
  since : ∀ n ∈ sub.places, sub.since ≤ n
  published : ∀ n ∈ sub.places, n < log.length
  genuine : ∀ item ∈ sub.listener.fresh ++ sub.queue, log[item.seq]? = some item.event
  explained : ∀ e ∈ sub.lost, e.2.Explains log sub.stopped e.1

/-- A listener's step keeps whom it is for. -/
theorem kept_step (h : sub.Step manager config sub') :
    sub'.subscriber = sub.subscriber ∧ sub'.since = sub.since ∧ sub'.stopped = sub.stopped := by
  cases h <;> exact ⟨rfl, rfl, rfl⟩

/-- A stopped listener hands over nothing. -/
theorem handed_step (h : sub.Step manager config sub') (hstopped : sub.stopped = true) :
    sub'.handed = sub.handed := by
  cases h with
  | deliver _ hrunning | batch _ hrunning =>
      rw [hstopped] at hrunning
      cases hrunning
  | receive | keep | reject | gone | listen | flush | streamGone | take | due | buffer | skip
    | stop => rfl

end Subscription

theorem received_eq_none {enabled : Bool} {filter : EventFilter} {event : JobLifecycleEvent}
    (h : manager.received enabled filter event = none) :
    enabled = false ∨ filter.matchesEvent event = false := by
  unfold EventManager.received at h
  split at h
  case isTrue hskip => simpa using hskip
  case isFalse => split at h <;> cases h

namespace Subscription

variable {log : List JobLifecycleEvent}

theorem genuine_step (h : sub.Step manager config sub')
    (hsub : sub.Accounted log) :
    ∀ item ∈ sub'.listener.fresh ++ sub'.queue, log[item.seq]? = some item.event := by
  intro item hitem
  cases h with
  | receive hl _ hq | take hl _ hq =>
      refine hsub.genuine item ?_
      rw [hl, hq]
      exact hitem
  | keep | reject | deliver | listen | flush | batch | due | buffer | skip =>
      exact hsub.genuine item (List.mem_append_right _ hitem)
  | gone | streamGone | stop => cases hitem

theorem explained_step (h : sub.Step manager config sub') (hsub : sub.Accounted log) :
    ∀ e ∈ sub'.lost, e.2.Explains log sub'.stopped e.1 := by
  intro e he
  rw [(kept_step h).2.2]
  have hclose : ∀ loss : Loss, (∀ m, loss.Explains log sub.stopped m) →
      e ∈ (sub.close loss).lost → e.2.Explains log sub.stopped e.1 := by
    intro loss hloss he
    rcases List.mem_append.1 he with he | he
    · exact hsub.explained e he
    · obtain ⟨item, -, rfl⟩ := List.mem_map.1 he
      exact hloss _
  cases h with
  | receive | keep | deliver | listen | flush | batch | take | due | buffer =>
      exact hsub.explained e he
  | reject hl _ hnone | skip hl hnone =>
      rcases List.mem_append.1 he with he | he
      · exact hsub.explained e he
      · cases List.mem_singleton.1 he
        refine ⟨hsub.genuine _ ?_, received_eq_none hnone⟩
        rw [hl]
        exact List.mem_append_left _ (List.mem_singleton.2 rfl)
  | gone | streamGone => exact hclose .removed (fun _ => trivial) he
  | stop _ hstopped => exact hclose .stopped (fun _ => hstopped) he

/-- A listener's step keeps the accounts. -/
theorem Accounted.step (hsub : sub.Accounted log) (h : sub.Step manager config sub') :
    sub'.Accounted log where
  nodup := (places_step h).nodup_iff.2 hsub.nodup
  since n hn := by
    rw [(kept_step h).2.1]
    exact hsub.since n ((places_step h).mem_iff.1 hn)
  published n hn := hsub.published n ((places_step h).mem_iff.1 hn)
  genuine := genuine_step h hsub
  explained := explained_step h hsub

/-- A reason stays one when more is published. -/
theorem explains_append {event : JobLifecycleEvent} {stopped : Bool} {loss : Loss}
    (h : loss.Explains log stopped n) : loss.Explains (log ++ [event]) stopped n := by
  cases loss with
  | lagged | removed => trivial
  | rejected enabled filter event' =>
      refine ⟨?_, h.2⟩
      rw [List.getElem?_append_left (List.getElem?_eq_some_iff.1 h.1).1]
      exact h.1
  | stopped => exact h

/-- Publishing keeps the accounts. -/
theorem Accounted.push (hsub : sub.Accounted log) (hsince : sub.since ≤ log.length)
    (event : JobLifecycleEvent) :
    (sub.push capacity ⟨log.length, event⟩).Accounted (log ++ [event]) := by
  have hgenuine : ∀ item : Item, log[item.seq]? = some item.event →
      (log ++ [event])[item.seq]? = some item.event := by
    intro item h
    rwa [List.getElem?_append_left (List.getElem?_eq_some_iff.1 h).1]
  cases hopen : sub.listener.isEnded with
  | true =>
      rw [push_of_ended hopen]
      refine ⟨hsub.nodup, hsub.since, fun n hn => ?_, fun item hitem => ?_, fun e he => ?_⟩
      · have hlt := hsub.published n hn
        simp
        omega
      · exact hgenuine item (hsub.genuine item hitem)
      · exact explains_append (hsub.explained e he)
  | false =>
      have hplaces : (sub.push capacity ⟨log.length, event⟩).places.Perm
          (sub.places ++ [log.length]) :=
        places_push hopen
      have hmem : ∀ n ∈ (sub.push capacity ⟨log.length, event⟩).places,
          n ∈ sub.places ∨ n = log.length := by
        intro n hn
        have hn := hplaces.mem_iff.1 hn
        simpa using hn
      have hfields : (sub.push capacity ⟨log.length, event⟩).since = sub.since ∧
          (sub.push capacity ⟨log.length, event⟩).stopped = sub.stopped := by
        unfold Subscription.push
        rw [hopen]
        exact ⟨rfl, rfl⟩
      refine ⟨hplaces.nodup_iff.2 ?_, fun n hn => ?_, fun n hn => ?_, fun item hitem => ?_,
        fun e he => ?_⟩
      · rw [List.nodup_append]
        refine ⟨hsub.nodup, List.nodup_singleton _, fun a ha b hb => ?_⟩
        rw [List.mem_singleton.1 hb]
        exact Nat.ne_of_lt (hsub.published a ha)
      · rw [hfields.1]
        rcases hmem n hn with hn | rfl
        · exact hsub.since n hn
        · exact hsince
      · rw [List.length_append]
        rcases hmem n hn with hn | rfl
        · have hlt := hsub.published n hn
          simp
          omega
        · simp
      · have hitem : item ∈ sub.listener.fresh ++ (sub.queue ++ [⟨log.length, event⟩]) := by
          unfold Subscription.push at hitem
          rw [hopen] at hitem
          rcases List.mem_append.1 hitem with hitem | hitem
          · exact List.mem_append_left _ hitem
          · exact List.mem_append_right _ (List.mem_of_mem_drop hitem)
        rw [← List.append_assoc, List.mem_append] at hitem
        rcases hitem with hitem | hitem
        · exact hgenuine item (hsub.genuine item hitem)
        · rw [List.mem_singleton.1 hitem]
          simp
      · rw [hfields.2]
        unfold Subscription.push at he
        rw [hopen] at he
        rcases List.mem_append.1 he with he | he
        · exact explains_append (hsub.explained e he)
        · obtain ⟨item, -, rfl⟩ := List.mem_map.1 he
          exact trivial

/-- What a subscription keeps as the system goes on, from `count`
published events: nothing that reached it goes, only new events come,
and a stopped listener hands over nothing more. -/
structure Continues (count : Nat) (sub sub' : Subscription) : Prop where
  subscriber : sub'.subscriber = sub.subscriber
  since : sub'.since = sub.since
  stopped : sub.stopped = true → sub'.stopped = true
  places : ∀ n, n ∈ sub.places → n ∈ sub'.places
  new : ∀ n, n ∈ sub'.places → n ∈ sub.places ∨ count ≤ n
  handed : sub.stopped = true → sub'.handed = sub.handed

theorem Continues.refl (count : Nat) (sub : Subscription) : Continues count sub sub :=
  ⟨rfl, rfl, fun h => h, fun _ h => h, fun _ => .inl, fun _ => rfl⟩

theorem Continues.trans {a b c : Subscription} {m m' : Nat} (hm : m ≤ m')
    (hab : Continues m a b) (hbc : Continues m' b c) : Continues m a c where
  subscriber := hbc.subscriber.trans hab.subscriber
  since := hbc.since.trans hab.since
  stopped h := hbc.stopped (hab.stopped h)
  places n hn := hbc.places n (hab.places n hn)
  new n hn := by
    rcases hbc.new n hn with hn | hn
    · exact hab.new n hn
    · exact .inr (Nat.le_trans hm hn)
  handed h := (hbc.handed (hab.stopped h)).trans (hab.handed h)

theorem continues_step (h : sub.Step manager config sub') (count : Nat) :
    Continues count sub sub' where
  subscriber := (kept_step h).1
  since := (kept_step h).2.1
  stopped hstopped := (kept_step h).2.2.trans hstopped
  places _ hn := (places_step h).mem_iff.2 hn
  new _ hn := .inl ((places_step h).mem_iff.1 hn)
  handed hstopped := handed_step h hstopped

theorem continues_push (event : JobLifecycleEvent) (sub : Subscription) :
    Continues log.length sub (sub.push capacity ⟨log.length, event⟩) := by
  cases hopen : sub.listener.isEnded with
  | true =>
      rw [push_of_ended hopen]
      exact .refl _ _
  | false =>
      have hplaces : (sub.push capacity ⟨log.length, event⟩).places.Perm
          (sub.places ++ [log.length]) :=
        places_push hopen
      unfold Subscription.push at hplaces ⊢
      rw [hopen] at hplaces ⊢
      refine ⟨rfl, rfl, fun h => h, fun n hn => hplaces.mem_iff.2 (List.mem_append_left _ hn),
        fun n hn => ?_, fun _ => rfl⟩
      rcases List.mem_append.1 (hplaces.mem_iff.1 hn) with hn | hn
      · exact .inl hn
      · exact .inr (Nat.le_of_eq (List.mem_singleton.1 hn).symm)

end Subscription

-- == later

/-- How the system goes on: what was published stays, subscriptions
continue, and those that are new get only what is published after. -/
structure Later (s s' : System) : Prop where
  published : s.published.length ≤ s'.published.length
  subs : ∀ id sub, s.subs id = some sub →
    ∃ sub', s'.subs id = some sub' ∧ sub.Continues s.published.length sub'
  new : ∀ id sub', s'.subs id = some sub' → s.subs id = none →
    s.published.length ≤ sub'.since ∧ sub'.since ≤ s'.published.length

theorem Later.refl (s : System) : Later s s where
  published := le_rfl
  subs _ sub h := ⟨sub, h, .refl _ _⟩
  new _ _ h hnone := by rw [hnone] at h; cases h

theorem Later.trans {a b c : System} (hab : Later a b) (hbc : Later b c) : Later a c where
  published := Nat.le_trans hab.published hbc.published
  subs id sub h := by
    obtain ⟨sub', h', hcontinues⟩ := hab.subs id sub h
    obtain ⟨sub'', h'', hcontinues'⟩ := hbc.subs id sub' h'
    exact ⟨sub'', h'', hcontinues.trans hab.published hcontinues'⟩
  new id sub'' h hnone := by
    cases hb : b.subs id with
    | none =>
        obtain ⟨hfrom, hto⟩ := hbc.new id sub'' h hb
        exact ⟨Nat.le_trans hab.published hfrom, hto⟩
    | some sub' =>
        obtain ⟨sub₂, h₂, hcontinues⟩ := hbc.subs id sub' hb
        cases h.symm.trans h₂
        rw [hcontinues.since]
        obtain ⟨hfrom, hto⟩ := hab.new id sub' hb hnone
        exact ⟨hfrom, Nat.le_trans hto hbc.published⟩

/-- Steps that leave the subscriptions alone. -/
theorem Later.of_subs (hsubs : s'.subs = s.subs) (hpublished : s'.published = s.published) :
    Later s s' where
  published := by rw [hpublished]
  subs id sub h := ⟨sub, by rw [hsubs, h], .refl _ _⟩
  new _ _ h hnone := by rw [hsubs, hnone] at h; cases h

/-- Steps that change one subscription. -/
theorem Later.of_modify {f : Subscription → Subscription}
    (hf : ∀ sub, s.subs id = some sub → sub.Continues s.published.length (f sub)) :
    Later s (s.modify id f) where
  published := le_rfl
  subs id' sub h := by
    by_cases hid : id' = id
    · subst hid
      exact ⟨f sub, by simp [System.modify, h], hf sub h⟩
    · exact ⟨sub, by simp [System.modify, hid, h], .refl _ _⟩
  new id' sub' h hnone := by
    unfold System.modify at h
    dsimp only at h
    rw [hnone] at h
    split at h <;> cases h

/-- A started listener has nothing in hand yet. -/
theorem inHand_start (w : Subscriber) (listener : Listener) :
    (listener.start w).inHand = listener.inHand := by
  cases w <;> cases listener <;> rfl

theorem continues_start (sub : Subscription) (count : Nat) :
    sub.Continues count { sub with listener := sub.listener.start w } := by
  have hplaces : ({ sub with listener := sub.listener.start w } : Subscription).places
      = sub.places := by
    unfold Subscription.places
    dsimp only
    rw [inHand_start]
    rfl
  refine ⟨rfl, rfl, fun h => h, fun n hn => ?_, fun n hn => ?_, fun _ => rfl⟩
  · rwa [hplaces]
  · rw [hplaces] at hn
    exact .inl hn

theorem later_dropHandle (s : System) (id : SubscriptionId) : Later s (s.dropHandle id) := by
  have hmodify : Later (s.unsubscribe id) (s.dropHandle id) :=
    .of_modify fun sub _ =>
      ⟨rfl, rfl, fun _ => rfl, fun _ h => h, fun _ => .inl, fun _ => rfl⟩
  exact (Later.of_subs rfl rfl : Later s (s.unsubscribe id)).trans hmodify

theorem later_call {call : Call} {next : Option Call}
    (h : call.Step serialized capacity s s' next) : Later s s' := by
  cases h with
  | prepare | disabled | updateUnknown | setUnknown | removeStream | detached | failed =>
      exact .refl s
  | store | install | swap | update | setEnabled | removeWebhook | detach | forget =>
      exact .of_subs rfl rfl
  | replace | stop => exact later_dropHandle s _
  | start => exact .of_modify fun sub _ => continues_start sub _
  | send =>
      rename_i event
      refine ⟨by simp [System.broadcast], fun id sub h => ?_, fun id sub' h hnone => ?_⟩
      · exact ⟨sub.push capacity ⟨s.published.length, event⟩, by simp [System.broadcast, h],
          Subscription.continues_push event sub⟩
      · simp [System.broadcast, hnone] at h
  | subscribe id hfree =>
      rename_i subscriber config
      refine ⟨le_rfl, fun id' sub h => ?_, fun id' sub' h hnone => ?_⟩
      · have hid : id' ≠ id := by
          intro hid
          rw [hid, hfree] at h
          cases h
        exact ⟨sub, by simp [System.subscribe, hid, h], .refl _ _⟩
      · unfold System.subscribe at h
        dsimp only at h
        split at h
        · cases h
          exact ⟨le_rfl, le_rfl⟩
        · rw [hnone] at h
          cases h

theorem Step.later (h : Step serialized capacity s s') : Later s s' := by
  cases h with
  | invoke => exact .of_subs rfl rfl
  | call _ hcall => exact (later_call hcall).trans (.of_subs rfl rfl)
  | listen id hsub hstep =>
      rename_i sub sub'
      refine (Later.of_subs ?_ ?_).trans (.of_modify fun sub₀ h₀ => ?_)
      · split <;> rfl
      · split <;> rfl
      · have h₀ : s.subs id = some sub₀ := by
          revert h₀
          split <;> exact fun h => h
        cases hsub.symm.trans h₀
        exact Subscription.continues_step hstep _

/-- However the system runs, it goes on so. -/
theorem Runs.later (h : Runs serialized capacity s s') : Later s s' := by
  induction h with
  | refl => exact .refl s
  | tail _ hstep ih => exact ih.trans hstep.later

-- == wired

/-- The subscription the call is about to install, or to stop. -/
def Call.Carries : Call → Subscriber → SubscriptionId → Prop
  | .store w _ id, w', id' | .install w id, w', id' | .replace w id _, w', id'
  | .stop w id, w', id' => w = w' ∧ id = id'
  | _, _, _ => False

/-- How subscriptions, handles and calls belong together. -/
structure Wired (s : System) : Prop where
  since : ∀ id sub, s.subs id = some sub → sub.since ≤ s.published.length
  accounted : ∀ id sub, s.subs id = some sub → sub.Accounted s.published
  owned : ∀ w id, s.handles w = some id → ∃ sub, s.subs id = some sub ∧ sub.subscriber = w
  carried : ∀ call ∈ s.calls, ∀ w id, call.Carries w id →
    ∃ sub, s.subs id = some sub ∧ sub.subscriber = w
  live : ∀ id sub, s.subs id = some sub → sub.stopped = false →
    s.handles sub.subscriber = some id ∨ ∃ call ∈ s.calls, call.Carries sub.subscriber id

theorem Wired.new (config : EventConfig) : Wired (.new config) where
  since _ _ h := by cases h
  accounted _ _ h := by cases h
  owned _ _ h := by cases h
  carried _ h := by cases h
  live _ _ h := by cases h

/-- An unstopped subscription of a subscriber that no call is about to
install or stop a listener of is the installed one. -/
theorem Wired.installed (hs : Wired s) (hquiet : ∀ call ∈ s.calls, ∀ id, ¬ call.Carries w id)
    (hsub : s.subs id = some sub) (hw : sub.subscriber = w) (hlive : sub.stopped = false) :
    s.handles w = some id := by
  rcases hs.live id sub hsub hlive with h | ⟨call, hcall, hcarries⟩
  · rwa [hw] at h
  · rw [hw] at hcarries
    exact absurd hcarries (hquiet call hcall id)

/-- Accounts are about the places, and about what was lost. -/
theorem Subscription.Accounted.of_places {log : List JobLifecycleEvent}
    (hsub : sub.Accounted log) (hplaces : sub'.places = sub.places)
    (hsince : sub'.since = sub.since)
    (hlost : sub'.lost = sub.lost) (hstopped : sub.stopped = true → sub'.stopped = true)
    (hfresh : sub'.listener.fresh ++ sub'.queue = sub.listener.fresh ++ sub.queue) :
    sub'.Accounted log where
  nodup := by rw [hplaces]; exact hsub.nodup
  since := by rw [hplaces, hsince]; exact hsub.since
  published := by rw [hplaces]; exact hsub.published
  genuine := by rw [hfresh]; exact hsub.genuine
  explained e he := by
    rw [hlost] at he
    have hloss := hsub.explained e he
    cases hreason : e.2 with
    | lagged | removed => trivial
    | rejected =>
        rw [hreason] at hloss
        exact hloss
    | stopped =>
        rw [hreason] at hloss
        exact hstopped hloss

/-- A new subscription has nothing to account for. -/
theorem accounted_new (w : Subscriber) (count : Nat) (log : List JobLifecycleEvent) :
    (Subscription.new w count).Accounted log := by
  have hplaces : (Subscription.new w count).places = [] := rfl
  have hfresh : (Subscription.new w count).listener.fresh ++ (Subscription.new w count).queue
      = [] := rfl
  have hlost : (Subscription.new w count).lost = [] := rfl
  refine ⟨?_, ?_, ?_, ?_, ?_⟩
  · rw [hplaces]
    exact List.nodup_nil
  · rw [hplaces]
    exact fun _ h => absurd h List.not_mem_nil
  · rw [hplaces]
    exact fun _ h => absurd h List.not_mem_nil
  · rw [hfresh]
    exact fun _ h => absurd h List.not_mem_nil
  · rw [hlost]
    exact fun _ h => absurd h List.not_mem_nil

/-- A call keeps the accounts of all subscriptions. -/
theorem accounted_call {call : Call} {next : Option Call}
    (h : call.Step serialized capacity s s' next) (hs : Wired s) :
    ∀ id sub, s'.subs id = some sub → sub.Accounted s'.published := by
  have hmodify : ∀ (s₀ : System) (id : SubscriptionId) (f : Subscription → Subscription),
      s₀.subs = s.subs → s₀.published = s.published →
      (∀ sub, sub.Accounted s.published → (f sub).Accounted s.published) →
      ∀ id' sub, (s₀.modify id f).subs id' = some sub →
        sub.Accounted (s₀.modify id f).published := by
    intro s₀ id f hsubs hpublished hf id' sub hsub
    show sub.Accounted s₀.published
    rw [hpublished]
    have hsub : (if id' = id then (s₀.subs id').map f else s₀.subs id') = some sub := hsub
    rw [hsubs] at hsub
    split at hsub
    · obtain ⟨sub₀, h₀, rfl⟩ := Option.map_eq_some_iff.1 hsub
      exact hf sub₀ (hs.accounted id' sub₀ h₀)
    · exact hs.accounted id' sub hsub
  cases h with
  | prepare | disabled | updateUnknown | setUnknown | removeStream | detached | failed | store
    | install | swap | update | setEnabled | removeWebhook | detach | forget => exact hs.accounted
  | replace | stop =>
      exact hmodify (s.unsubscribe _) _ _ rfl rfl fun sub hsub =>
        hsub.of_places rfl rfl rfl (fun _ => rfl) rfl
  | start =>
      refine hmodify s _ _ rfl rfl fun sub hsub => hsub.of_places ?_ rfl rfl (fun h => h) ?_
      · unfold Subscription.places
        dsimp only
        rw [inHand_start]
        rfl
      · dsimp only
        rename_i w _
        cases w <;> cases sub.listener <;> rfl
  | send =>
      rename_i event
      intro id sub hsub
      obtain ⟨sub₀, h₀, rfl⟩ := Option.map_eq_some_iff.1 hsub
      exact (hs.accounted id sub₀ h₀).push (hs.since id sub₀ h₀) event
  | subscribe id hfree =>
      rename_i w config
      intro id' sub hsub
      have hsub : (if id' = id then some (Subscription.new w s.published.length) else s.subs id')
          = some sub := hsub
      split at hsub
      · cases hsub
        exact accounted_new w _ _
      · exact hs.accounted id' sub hsub

/-- A call's step keeps the wiring, if it hands on what it carries. -/
theorem Wired.of_call (hs : Wired s) {before after : List Call} {call : Call}
    {next : Option Call} (hcalls : s.calls = before ++ call :: after)
    (h : call.Step serialized capacity s s' next)
    (hhandles : ∀ w id, s'.handles w = some id → s.handles w = some id ∨ call.Carries w id)
    (hnext : ∀ call' ∈ next, ∀ w id, call'.Carries w id → call.Carries w id ∨
      s.handles w = some id ∨ ∃ sub, s'.subs id = some sub ∧ sub.subscriber = w)
    (hlive : ∀ w id, s.handles w = some id ∨ call.Carries w id ∨ s.subs id = none →
      (∃ sub, s'.subs id = some sub ∧ sub.subscriber = w ∧ sub.stopped = false) →
      s'.handles w = some id ∨ ∃ call' ∈ next, call'.Carries w id) :
    Wired { s' with calls := before ++ next.toList ++ after } := by
  have hlater := later_call h
  have haccounted := accounted_call h hs
  have hstays : ∀ {w id}, (∃ sub, s.subs id = some sub ∧ sub.subscriber = w) →
      ∃ sub, s'.subs id = some sub ∧ sub.subscriber = w := by
    intro w id ⟨sub, hsub, hw⟩
    obtain ⟨sub', hsub', hcontinues⟩ := hlater.subs id sub hsub
    exact ⟨sub', hsub', hcontinues.subscriber.trans hw⟩
  have hmem : call ∈ s.calls := by rw [hcalls]; simp
  have hothers : ∀ call' ∈ before ++ next.toList ++ after, call' ∈ s.calls ∨ call' ∈ next := by
    intro call' hcall'
    rw [hcalls]
    simp only [List.mem_append, List.mem_cons, Option.mem_toList] at hcall' ⊢
    tauto
  refine ⟨fun id sub hsub => ?_, fun id sub hsub => haccounted id sub hsub, fun w id hid => ?_,
    fun call' hcall' w id hcarries => ?_, fun id sub hsub hrunning => ?_⟩
  · cases hold : s.subs id with
    | none => exact (hlater.new id sub hsub hold).2
    | some sub₀ =>
        obtain ⟨sub', hsub', hcontinues⟩ := hlater.subs id sub₀ hold
        cases hsub.symm.trans hsub'
        rw [hcontinues.since]
        exact Nat.le_trans (hs.since id sub₀ hold) hlater.published
  · rcases hhandles w id hid with hid | hcarries
    · exact hstays (hs.owned w id hid)
    · exact hstays (hs.carried call hmem w id hcarries)
  · rcases hothers call' hcall' with hin | hin
    · exact hstays (hs.carried call' hin w id hcarries)
    · rcases hnext call' hin w id hcarries with hc | hid | hnew
      · exact hstays (hs.carried call hmem w id hc)
      · exact hstays (hs.owned w id hid)
      · exact hnew
  · have hmoved : s'.handles sub.subscriber = some id ∨
          (∃ call' ∈ next, call'.Carries sub.subscriber id) →
        s'.handles sub.subscriber = some id ∨
          ∃ call' ∈ before ++ next.toList ++ after, call'.Carries sub.subscriber id := by
      intro hmoved
      refine hmoved.imp_right fun ⟨call', hcall', hcarries⟩ => ⟨call', ?_, hcarries⟩
      rw [Option.mem_def] at hcall'
      simp [hcall']
    cases hold : s.subs id with
    | none => exact hmoved (hlive _ id (.inr (.inr hold)) ⟨sub, hsub, rfl, hrunning⟩)
    | some sub₀ =>
        obtain ⟨sub', hsub', hcontinues⟩ := hlater.subs id sub₀ hold
        cases hsub.symm.trans hsub'
        have hrunning₀ : sub₀.stopped = false := by
          by_contra hstopped
          rw [hcontinues.stopped (by simpa using hstopped)] at hrunning
          cases hrunning
        rw [hcontinues.subscriber] at hmoved ⊢
        have hthere : ∃ sub₁, s'.subs id = some sub₁ ∧ sub₁.subscriber = sub₀.subscriber ∧
            sub₁.stopped = false := ⟨sub, hsub, hcontinues.subscriber, hrunning⟩
        rcases hs.live id sub₀ hold hrunning₀ with hid | ⟨call', hcall', hcarries⟩
        · exact hmoved (hlive _ id (.inl hid) hthere)
        · by_cases heq : call' = call
          · rw [heq] at hcarries
            exact hmoved (hlive _ id (.inr (.inl hcarries)) hthere)
          · refine .inr ⟨call', ?_, hcarries⟩
            rw [hcalls] at hcall'
            simp only [List.mem_append, List.mem_cons] at hcall' ⊢
            tauto

/-- Every step of a call keeps the wiring. -/
theorem Wired.call (hs : Wired s) {before after : List Call} {call : Call} {next : Option Call}
    (hcalls : s.calls = before ++ call :: after)
    (h : call.Step serialized capacity s s' next) :
    Wired { s' with calls := before ++ next.toList ++ after } := by
  have hcall := h
  cases h with
  | prepare | send | disabled | updateUnknown | setUnknown | removeStream | failed | update
    | setEnabled | removeWebhook | forget | start =>
      refine hs.of_call hcalls hcall (fun _ _ h => .inl h) ?_ fun w id hhad hsub => .inl ?_
      · intro call' hcall' w id hcarries
        first
          | (cases hcall'; exact hcarries.elim)
          | cases hcall'
      · rcases hhad with hid | hcarries | hnone
        · exact hid
        · exact hcarries.elim
        · obtain ⟨sub, hsub, -⟩ := hsub
          simp [System.broadcast, System.modify, System.setConfig, hnone] at hsub
  | detached hnone =>
      refine hs.of_call hcalls hcall (fun _ _ h => .inl h) ?_ fun w id hhad hsub => .inl ?_
      · intro call' hcall' w id hcarries
        rename_i subscriber
        cases subscriber <;> cases hcall'
        exact hcarries.elim
      · rcases hhad with hid | hcarries | hnone
        · exact hid
        · exact hcarries.elim
        · obtain ⟨sub, hsub, -⟩ := hsub
          rw [hnone] at hsub
          cases hsub
  | subscribe id hfree =>
      rename_i subscriber config
      refine hs.of_call hcalls hcall (fun _ _ h => .inl h) ?_ fun w id' hhad hsub => ?_
      · intro call' hcall' w id' hcarries
        cases hcall'
        obtain ⟨rfl, rfl⟩ := hcarries
        exact .inr (.inr ⟨_, if_pos rfl, rfl⟩)
      · obtain ⟨sub, hsub, hw, -⟩ := hsub
        rcases hhad with hid | hcarries | hnone
        · exact .inl hid
        · exact hcarries.elim
        · by_cases hid : id' = id
          · subst hid
            have hsub : some _ = some sub := (if_pos rfl).symm.trans hsub
            cases hsub
            exact .inr ⟨_, rfl, hw, rfl⟩
          · have hsub : s.subs id' = some sub := (if_neg hid).symm.trans hsub
            rw [hnone] at hsub
            cases hsub
  | store =>
      refine hs.of_call hcalls hcall (fun _ _ h => .inl h) ?_ fun w id hhad hsub => ?_
      · intro call' hcall' w id hcarries
        cases hcall'
        exact .inl hcarries
      · rcases hhad with hid | hcarries | hnone
        · exact .inl hid
        · exact .inr ⟨_, rfl, hcarries⟩
        · obtain ⟨sub, hsub, -⟩ := hsub
          have hsub : s.subs id = some sub := hsub
          rw [hnone] at hsub
          cases hsub
  | install hfree =>
      rename_i subscriber id
      refine hs.of_call hcalls hcall (fun w id' h => ?_) ?_ fun w id' hhad hsub => .inl ?_
      · have h : (if w = subscriber then some id else s.handles w) = some id' := h
        split at h
        case isTrue hw => exact .inr ⟨hw.symm, Option.some.inj h⟩
        case isFalse => exact .inl h
      · intro call' hcall' w id' hcarries
        cases hcall'
        exact hcarries.elim
      · show (if w = subscriber then some id else s.handles w) = some id'
        rcases hhad with hid | ⟨rfl, rfl⟩ | hnone
        · rw [if_neg, hid]
          rintro rfl
          rw [hfree] at hid
          cases hid
        · exact if_pos rfl
        · obtain ⟨sub, hsub, -⟩ := hsub
          have hsub : s.subs id' = some sub := hsub
          rw [hnone] at hsub
          cases hsub
  | swap hold =>
      rename_i subscriber id old
      refine hs.of_call hcalls hcall (fun w id' h => ?_) ?_ fun w id' hhad hsub => ?_
      · have h : (if w = subscriber then some id else s.handles w) = some id' := h
        split at h
        case isTrue hw => exact .inr ⟨hw.symm, Option.some.inj h⟩
        case isFalse => exact .inl h
      · intro call' hcall' w id' hcarries
        cases hcall'
        obtain ⟨rfl, rfl⟩ := hcarries
        exact .inr (.inl hold)
      · show (if w = subscriber then some id else s.handles w) = some id' ∨ _
        rcases hhad with hid | ⟨rfl, rfl⟩ | hnone
        · by_cases hw : w = subscriber
          · rw [hw, hold] at hid
            exact .inr ⟨_, rfl, hw.symm, Option.some.inj hid⟩
          · exact .inl (by rw [if_neg hw, hid])
        · exact .inl (if_pos rfl)
        · obtain ⟨sub, hsub, -⟩ := hsub
          have hsub : s.subs id' = some sub := hsub
          rw [hnone] at hsub
          cases hsub
  | detach hid =>
      rename_i subscriber id
      refine hs.of_call hcalls hcall (fun w id' h => ?_) ?_ fun w id' hhad hsub => ?_
      · have h : (if w = subscriber then none else s.handles w) = some id' := h
        split at h
        case isTrue => cases h
        case isFalse => exact .inl h
      · intro call' hcall' w id' hcarries
        cases hcall'
        obtain ⟨rfl, rfl⟩ := hcarries
        exact .inr (.inl hid)
      · show (if w = subscriber then none else s.handles w) = some id' ∨ _
        rcases hhad with hid' | hcarries | hnone
        · by_cases hw : w = subscriber
          · rw [hw, hid] at hid'
            exact .inr ⟨_, rfl, hw.symm, Option.some.inj hid'⟩
          · exact .inl (by rw [if_neg hw, hid'])
        · exact hcarries.elim
        · obtain ⟨sub, hsub, -⟩ := hsub
          have hsub : s.subs id' = some sub := hsub
          rw [hnone] at hsub
          cases hsub
  | replace | stop =>
      rename_i subscriber old
      refine hs.of_call hcalls hcall (fun _ _ h => .inl h) ?_ fun w id hhad hsub => .inl ?_
      · intro call' hcall' w id hcarries
        first
          | (cases hcall'; exact hcarries.elim)
          | (cases subscriber <;> cases hcall'; exact hcarries.elim)
      · obtain ⟨sub, hsub, -, hrunning⟩ := hsub
        -- a subscription whose handle was dropped is stopped
        rcases hhad with hid | ⟨rfl, rfl⟩ | hnone
        · exact hid
        · obtain ⟨sub₀, -, rfl⟩ := Option.map_eq_some_iff.1 ((if_pos rfl).symm.trans hsub)
          cases hrunning
        · simp [System.dropHandle, System.unsubscribe, System.modify, hnone] at hsub

/-- Every step keeps the wiring. -/
theorem Wired.step (hs : Wired s) (h : Step serialized capacity s s') : Wired s' := by
  cases h with
  | invoke hopens =>
      rename_i call
      refine ⟨hs.since, hs.accounted, hs.owned, fun call' hcall' w id hcarries => ?_,
        fun id sub hsub hrunning => ?_⟩
      · rcases List.mem_cons.1 hcall' with rfl | hcall'
        · cases call' <;> first | exact hopens.elim | exact hcarries.elim
        · exact hs.carried call' hcall' w id hcarries
      · refine (hs.live id sub hsub hrunning).imp_right fun ⟨call', hcall', hcarries⟩ => ?_
        exact ⟨call', List.mem_cons_of_mem _ hcall', hcarries⟩
  | call hcalls hcall => exact hs.call hcalls hcall
  | listen id hsub hstep =>
      rename_i sub sub'
      have hsubs : ∀ id', ((if sub'.listener.isEnded then s.unsubscribe id else s).modify id
          fun _ => sub').subs id' = if id' = id then some sub' else s.subs id' := by
        intro id'
        unfold System.modify
        by_cases hid : id' = id
        · subst hid
          split <;> simp [System.unsubscribe, hsub]
        · split <;> simp [System.unsubscribe, hid]
      have hrest : ((if sub'.listener.isEnded then s.unsubscribe id else s).modify id
          fun _ => sub').handles = s.handles ∧ ((if sub'.listener.isEnded then s.unsubscribe id
            else s).modify id fun _ => sub').calls = s.calls ∧
          ((if sub'.listener.isEnded then s.unsubscribe id else s).modify id
            fun _ => sub').published = s.published := by
        unfold System.modify
        split <;> exact ⟨rfl, rfl, rfl⟩
      obtain ⟨hhandles, hcalls, hpublished⟩ := hrest
      obtain ⟨hw, hsince, hstopped⟩ := Subscription.kept_step hstep
      have hstays : ∀ {w id'}, (∃ sub, s.subs id' = some sub ∧ sub.subscriber = w) →
          ∃ sub₁, (if id' = id then some sub' else s.subs id') = some sub₁ ∧
            sub₁.subscriber = w := by
        intro w id' ⟨sub₀, h₀, hw₀⟩
        by_cases hid : id' = id
        · subst hid
          cases hsub.symm.trans h₀
          exact ⟨sub', if_pos rfl, hw.trans hw₀⟩
        · exact ⟨sub₀, by rw [if_neg hid, h₀], hw₀⟩
      constructor
      · intro id' sub₁ h₁
        rw [hsubs] at h₁
        rw [hpublished]
        split at h₁
        · cases h₁
          rw [hsince]
          exact hs.since id sub hsub
        · exact hs.since id' sub₁ h₁
      · intro id' sub₁ h₁
        rw [hsubs] at h₁
        rw [hpublished]
        split at h₁
        · cases h₁
          exact (hs.accounted id sub hsub).step hstep
        · exact hs.accounted id' sub₁ h₁
      · intro w id' hid'
        rw [hhandles] at hid'
        rw [hsubs]
        exact hstays (hs.owned w id' hid')
      · intro call hcall w id' hcarries
        rw [hcalls] at hcall
        rw [hsubs]
        exact hstays (hs.carried call hcall w id' hcarries)
      · intro id' sub₁ h₁ hrunning
        rw [hsubs] at h₁
        rw [hhandles, hcalls]
        split at h₁
        case isTrue hid =>
          cases h₁
          rw [hid, hw]
          exact hs.live id sub hsub (hstopped.symm.trans hrunning)
        case isFalse => exact hs.live id' sub₁ h₁ hrunning

/-- Every reachable system is wired. -/
theorem Runs.wired (h : Runs serialized capacity s s') (hs : Wired s) : Wired s' := by
  induction h with
  | refl => exact hs
  | tail _ hstep ih => exact ih.step hstep

end Delivery

end Hammerwork
