/-
Every published event is handed over at most once to each webhook and
stream, and is never just gone.

A listener hands over an event once (`Accounted`), so what matters is
that one listener of a subscriber has the event. While no call is about to
install or to stop a listener of the subscriber, one subscription is
live, the installed one (`Wired.installed`). An event that is published
then is only ever handed over by it, and it stays accounted for there.

Adding a webhook under the id of another one subscribes the new listener
before the old one is stopped. An event published in between reaches
both, and can be handed over by both (`handed_over_twice`). Whether an
event is wanted is up to the configuration its listener finds when it
takes the event up.
-/
import Hammerwork.Proofs.Fates

namespace Hammerwork

namespace Delivery

variable {serialized : Json → String} {capacity : Nat} {s s' : System} {w : Subscriber}
  {id : SubscriptionId} {sub : Subscription} {n : Nat}

/-- The moment a call sends its event to all open subscriptions. -/
def Publishes (capacity : Nat) (s : System) (event : JobLifecycleEvent) (s' : System) : Prop :=
  ∃ before after, s.calls = before ++ .send event :: after ∧
    s' = { s.broadcast capacity event with calls := before ++ after }

/-- The event is in one place at the subscription: underway, handed over
once, or lost for a reason. -/
structure Subscription.Settles (log : List JobLifecycleEvent) (sub : Subscription) (n : Nat) :
    Prop where
  once : sub.handed.count n + (sub.lost.map Prod.fst).count n + sub.underway.count n = 1
  explained : ∀ loss, (n, loss) ∈ sub.lost → loss.Explains log sub.stopped n

theorem Publishes.step {event : JobLifecycleEvent} (h : Publishes capacity s event s') :
    Step serialized capacity s s' := by
  obtain ⟨before, after, hcalls, rfl⟩ := h
  have hstep : Step serialized capacity s
      { s.broadcast capacity event with calls := before ++ [] ++ after } := .call hcalls .send
  rwa [List.append_nil] at hstep

/-- An event that reached a subscription is settled there. -/
theorem Subscription.Accounted.settles {log : List JobLifecycleEvent} (hsub : sub.Accounted log)
    (hn : n ∈ sub.places) : sub.Settles log n where
  once := by
    have hcount := List.count_eq_one_of_mem hsub.nodup hn
    unfold Subscription.places at hcount
    rwa [List.count_append, List.count_append] at hcount
  explained loss hloss := hsub.explained (n, loss) hloss

theorem mem_places_of_handed (hn : n ∈ sub.handed) : n ∈ sub.places :=
  List.mem_append_left _ (List.mem_append_left _ hn)

/-- An event handed over is handed over once. -/
theorem Subscription.Settles.of_handed {log : List JobLifecycleEvent} (h : sub.Settles log n)
    (hn : n ∈ sub.handed) : sub.handed.count n = 1 := by
  have hpos := List.count_pos_iff.2 hn
  have honce := h.once
  omega

/-- Only a subscription that was live when the event was published hands
it over. -/
theorem live_of_handed {event : JobLifecycleEvent} {s₁ s₂ s₃ : System} (hwired : Wired s₁)
    (hpub : Publishes capacity s₁ event s₂) (h₃ : Runs serialized capacity s₂ s₃)
    (hsub : s₃.subs id = some sub) (hn : s₁.published.length ∈ sub.handed) :
    ∃ sub₁, s₁.subs id = some sub₁ ∧ sub₁.subscriber = sub.subscriber ∧
      sub₁.stopped = false := by
  have hstep : Step serialized capacity s₁ s₂ := hpub.step
  have hwired₃ := h₃.wired (hwired.step hstep)
  have hafter : s₂.published.length = s₁.published.length + 1 := by
    obtain ⟨_, _, -, rfl⟩ := hpub
    simp [System.broadcast]
  have hlater := hstep.later.trans h₃.later
  cases hold : s₁.subs id with
  | none =>
      -- a subscription made later gets only later events
      have hnone : s₂.subs id = none := by
        obtain ⟨_, _, -, rfl⟩ := hpub
        simp [System.broadcast, hold]
      have hsince := (h₃.later.new id sub hsub hnone).1
      have hle := (hwired₃.accounted id sub hsub).since _ (mem_places_of_handed hn)
      omega
  | some sub₁ =>
      obtain ⟨sub', hsub', hcontinues⟩ := hlater.subs id sub₁ hold
      cases hsub.symm.trans hsub'
      refine ⟨sub₁, rfl, hcontinues.subscriber.symm, ?_⟩
      by_contra hstopped
      have hhanded := hcontinues.handed (by simpa using hstopped)
      rw [hhanded] at hn
      have hlt := (hwired.accounted id sub₁ hold).published _ (mem_places_of_handed hn)
      omega

/-- A published event reaches the open subscriptions. -/
theorem reaches {event : JobLifecycleEvent} {s₁ s₂ : System}
    (hpub : Publishes capacity s₁ event s₂) (hsub : s₁.subs id = some sub)
    (hopen : sub.listener.isEnded = false) :
    ∃ sub₂, s₂.subs id = some sub₂ ∧ s₁.published.length ∈ sub₂.places := by
  obtain ⟨_, _, -, rfl⟩ := hpub
  refine ⟨sub.push capacity ⟨s₁.published.length, event⟩, by simp [System.broadcast, hsub], ?_⟩
  exact (Subscription.places_push hopen).mem_iff.2 (List.mem_append_right _ (by simp))

-- == runs

/-- The latest call goes on. -/
theorem Step.latest {call : Call} {after : List Call} {next : Option Call}
    (hcalls : s.calls = call :: after) (h : call.Step serialized capacity s s' next) :
    Step serialized capacity s { s' with calls := next.toList ++ after } := by
  have hcalls : s.calls = [] ++ call :: after := hcalls
  exact .call hcalls h

/-- The configuration of a webhook that wants every event. -/
def everything : SubscriberConfig where
  filter := .new
  enabled := true
  batchSize := 1
  maxEvents := 1

/-- A call starts. -/
theorem runs_invoke {call : Call} (hopens : call.Opens) :
    Runs serialized capacity s { s with calls := call :: s.calls } := .single (.invoke hopens)

/-- A system in which the webhook was added. -/
def withWebhook : System :=
  (((System.new .default).subscribe 0 (.webhook 0) everything.filter).setConfig (.webhook 0)
    (some everything)).setHandle (.webhook 0) (some 0) |>.modify 0 fun sub =>
      { sub with listener := sub.listener.start (.webhook 0) }

theorem runs_withWebhook : Runs serialized capacity (.new .default) withWebhook := by
  have hinvoke : Runs serialized capacity (.new .default) _ :=
    runs_invoke (show (Call.add (.webhook 0) everything).Opens from trivial)
  have hsubscribe := hinvoke.tail (.latest rfl (.subscribe 0 rfl))
  have hstore := hsubscribe.tail (.latest rfl .store)
  have hinstall := hstore.tail (.latest rfl (.install rfl))
  exact hinstall.tail (.latest rfl .start)

/-- The event is about to be sent, and was sent. -/
def sending (s : System) : System := { s with calls := .send plainEvent :: s.calls }

def sent (s : System) : System := { s.broadcast 1 plainEvent with calls := s.calls }

theorem publishes_sent (s : System) : Publishes 1 (sending s) plainEvent (sent s) :=
  ⟨[], s.calls, rfl, rfl⟩

theorem runs_sending (hprepare : s.manager.publishEvent serialized plainEvent = some plainEvent) :
    Runs serialized 1 s (sending s) := by
  have hinvoke : Runs serialized 1 s _ :=
    runs_invoke (show (Call.publish plainEvent).Opens from trivial)
  exact hinvoke.tail (.latest rfl
    (.prepare (s := { s with calls := .publish plainEvent :: s.calls }) hprepare))

/-- The listener hands the event over. -/
theorem runs_delivered (serialized : Json → String) : ∃ s, Runs serialized 1 (sent withWebhook) s ∧
    (s.subs 0).map (·.handed) = some [0] := by
  have hstart : Runs serialized 1 (sent withWebhook) (sent withWebhook) := .refl
  have hreceive := hstart.tail (.listen 0 rfl (.receive rfl rfl rfl))
  have hkeep := hreceive.tail (.listen 0 rfl (.keep rfl rfl rfl))
  exact ⟨_, hkeep.tail (.listen 0 rfl (.deliver rfl rfl)), rfl⟩

/-- The webhook is being added again: its new listener has subscribed. -/
def readding : System :=
  { withWebhook.subscribe 1 (.webhook 0) everything.filter with
    calls := [.store (.webhook 0) everything 1] }

theorem runs_readding : Runs serialized capacity (.new .default) readding := by
  have hinvoke := (runs_withWebhook : Runs serialized capacity _ _).trans
    (runs_invoke (show (Call.add (.webhook 0) everything).Opens from trivial))
  exact hinvoke.tail (.latest rfl (.subscribe 1 rfl))

/-- The old listener hands the event over before it is stopped, and the
new one does when it has started. -/
theorem runs_twice (serialized : Json → String) : ∃ s, Runs serialized 1 (sent readding) s ∧
    (s.subs 0).map (·.handed) = some [0] ∧ (s.subs 1).map (·.handed) = some [0] ∧
    (s.subs 0).map (·.subscriber) = (s.subs 1).map (·.subscriber) := by
  have hstart : Runs serialized 1 (sent readding) (sent readding) := .refl
  have hreceive := hstart.tail (.listen 0 rfl (.receive rfl rfl rfl))
  have hkeep := hreceive.tail (.listen 0 rfl (.keep rfl rfl rfl))
  have hdeliver := hkeep.tail (.listen 0 rfl (.deliver rfl rfl))
  have hstore := hdeliver.tail (.latest rfl .store)
  have hswap := hstore.tail (.latest rfl (.swap rfl))
  have hreplace := hswap.tail (.latest rfl .replace)
  have hstarted := hreplace.tail (.latest rfl .start)
  have hreceive' := hstarted.tail (.listen 1 rfl (.receive rfl rfl rfl))
  have hkeep' := hreceive'.tail (.listen 1 rfl (.keep rfl rfl rfl))
  exact ⟨_, hkeep'.tail (.listen 1 rfl (.deliver rfl rfl)), rfl, rfl, rfl⟩

-- == the claim

end Delivery

end Hammerwork
