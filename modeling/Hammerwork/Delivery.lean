/-
Webhooks and streams: how published events come to be handed over.

Every webhook and every stream has a listener task with a subscription
of its own at the event manager. The channel keeps for each subscription
what its listener has not received yet, up to a capacity, and drops the
oldest beyond it. A webhook's listener starts a delivery for every event
it keeps; a stream's listener buffers them and starts a batch.

The calls of the managers and the listeners take their steps in any
order: a step ends where a call awaits a lock, or a listener an event, a
slot or a lock. A call is the step it takes next (`Call`), a listener is
where it waits (`Listener`).

Events are told apart by their place in the order of publication. What
became of each event is kept with the subscription (`deliveries` and
`lost`), which no step reads. Statistics, logging and the slots of
pending deliveries are left out: a listener can wait for a slot for any
time.
-/
import Hammerwork.Events
import Mathlib.Logic.Relation

namespace Hammerwork

namespace Delivery

-- == listeners

/-- A webhook or a stream, by its id. -/
inductive Subscriber where
  | webhook (id : Nat)
  | stream (id : Nat)
  deriving DecidableEq, Repr

/-- The configuration of a webhook or a stream, as far as its listener
reads it. Only streams have a batch size and a limit of buffered events.
-/
structure SubscriberConfig where
  filter : EventFilter
  enabled : Bool
  batchSize : Nat
  maxEvents : Nat

/-- A published event on its way, with its place in the order of
publication. -/
structure Item where
  seq : Nat
  event : JobLifecycleEvent

/-- How an event came not to be handed over: it was overwritten before
it was received, the configuration found was disabled or its filter
rejected the event, the listener was stopped, or it found no
configuration. -/
inductive Loss where
  | lagged
  | rejected (enabled : Bool) (filter : EventFilter) (event : JobLifecycleEvent)
  | stopped
  | removed

/-- Where a listener is. -/
inductive Listener where
  | unstarted
  /-- A webhook's listener waits for an event. -/
  | waiting
  /-- It received one, and reads the configuration. -/
  | taken (item : Item)
  /-- It keeps the event, and waits for a pending-delivery slot. -/
  | sending (item : Item)
  /-- A stream's listener reads the configuration. -/
  | looping (buffer : List Item)
  /-- It took the buffer, and waits for in-flight slots. -/
  | flushing (batch : List Item)
  /-- It waits for an event, or for the buffer to be due. -/
  | listening (stream : SubscriberConfig) (buffer : List Item)
  /-- It received an event, and reads whether the stream is enabled. -/
  | checking (stream : SubscriberConfig) (buffer : List Item) (item : Item)
  | ended

namespace Listener

/-- The events the listener received and has not handed over. -/
def inHand : Listener → List Item
  | unstarted | waiting | ended => []
  | taken item | sending item => [item]
  | looping buffer | flushing buffer | listening _ buffer => buffer
  | checking _ buffer item => buffer ++ [item]

/-- Whether the listener has ended, and dropped its subscription. -/
def isEnded : Listener → Bool
  | ended => true
  | _ => false

/-- The listener of a subscriber starts, once. -/
def start : Subscriber → Listener → Listener
  | .webhook _, unstarted => waiting
  | .stream _, unstarted => looping []
  | _, listener => listener

end Listener

/-- A subscription with the listener it is for: what the channel keeps
for it, whether its stop signal fired, and what became of the events. -/
structure Subscription where
  subscriber : Subscriber
  since : Nat
  queue : List Item
  stopped : Bool
  listener : Listener
  deliveries : List (List Item)
  lost : List (Nat × Loss)

namespace Subscription

/-- A subscription made after `since` events. -/
def new (subscriber : Subscriber) (since : Nat) : Subscription where
  subscriber := subscriber
  since := since
  queue := []
  stopped := false
  listener := .unstarted
  deliveries := []
  lost := []

/-- The events handed over. -/
def handed (sub : Subscription) : List Nat := sub.deliveries.flatten.map (·.seq)

/-- The listener ends, and everything it had before it is lost. -/
def close (sub : Subscription) (loss : Loss) : Subscription :=
  { sub with
    queue := []
    listener := .ended
    lost := sub.lost ++ (sub.listener.inHand ++ sub.queue).map fun item => (item.seq, loss) }

/-- The channel takes an event for the subscription, and drops the
oldest beyond its capacity. -/
def push (capacity : Nat) (item : Item) (sub : Subscription) : Subscription :=
  if sub.listener.isEnded then
    sub
  else
    let queue := sub.queue ++ [item]
    let excess := queue.length - capacity
    { sub with
      queue := queue.drop excess
      lost := sub.lost ++ (queue.take excess).map fun item => (item.seq, .lagged) }

end Subscription

/-- The most events a stream's listener may have in its hands. -/
def clampPermits (configured : Nat) : Nat := max configured 1

/-- The buffer has to be flushed, whatever the time. -/
def SubscriberConfig.isFull (stream : SubscriberConfig) (buffer : List Item) : Prop :=
  buffer ≠ [] ∧
    (stream.batchSize ≤ buffer.length ∨ clampPermits stream.maxEvents ≤ buffer.length)

/-- One step of a listener: `config` is the configuration of its
subscriber at this moment. -/
inductive Subscription.Step (manager : EventManager) (config : Option SubscriberConfig)
    (sub : Subscription) : Subscription → Prop
  | receive {item : Item} {rest : List Item} : sub.listener = .waiting → sub.stopped = false →
      sub.queue = item :: rest →
      Step manager config sub { sub with queue := rest, listener := .taken item }
  | keep {item : Item} {webhook : SubscriberConfig} {event : JobLifecycleEvent} :
      sub.listener = .taken item → config = some webhook →
      manager.received webhook.enabled webhook.filter item.event = some event →
      Step manager config sub { sub with listener := .sending ⟨item.seq, event⟩ }
  | reject {item : Item} {webhook : SubscriberConfig} :
      sub.listener = .taken item → config = some webhook →
      manager.received webhook.enabled webhook.filter item.event = none →
      Step manager config sub { sub with
        listener := .waiting
        lost := sub.lost ++ [(item.seq, .rejected webhook.enabled webhook.filter item.event)] }
  | gone {item : Item} : sub.listener = .taken item → config = none →
      Step manager config sub (sub.close .removed)
  | deliver {item : Item} : sub.listener = .sending item → sub.stopped = false →
      Step manager config sub { sub with
        listener := .waiting
        deliveries := sub.deliveries ++ [[item]] }
  | listen {buffer : List Item} {stream : SubscriberConfig} :
      sub.listener = .looping buffer → config = some stream → ¬ stream.isFull buffer →
      Step manager config sub { sub with listener := .listening stream buffer }
  | flush {buffer : List Item} {stream : SubscriberConfig} :
      sub.listener = .looping buffer → config = some stream → buffer ≠ [] →
      Step manager config sub { sub with listener := .flushing buffer }
  | streamGone {buffer : List Item} : sub.listener = .looping buffer → config = none →
      Step manager config sub (sub.close .removed)
  | batch {batch : List Item} : sub.listener = .flushing batch → sub.stopped = false →
      Step manager config sub { sub with
        listener := .looping []
        deliveries := sub.deliveries ++ [batch] }
  | take {stream : SubscriberConfig} {buffer rest : List Item} {item : Item} :
      sub.listener = .listening stream buffer → sub.stopped = false → sub.queue = item :: rest →
      Step manager config sub { sub with
        queue := rest
        listener := .checking stream buffer item }
  | due {stream : SubscriberConfig} {buffer : List Item} :
      sub.listener = .listening stream buffer → sub.stopped = false →
      Step manager config sub { sub with listener := .looping buffer }
  | buffer {stream : SubscriberConfig} {buffer : List Item} {item : Item}
      {event : JobLifecycleEvent} :
      sub.listener = .checking stream buffer item →
      manager.received (config.any (·.enabled)) stream.filter item.event = some event →
      Step manager config sub { sub with listener := .looping (buffer ++ [⟨item.seq, event⟩]) }
  | skip {stream : SubscriberConfig} {buffer : List Item} {item : Item} :
      sub.listener = .checking stream buffer item →
      manager.received (config.any (·.enabled)) stream.filter item.event = none →
      Step manager config sub { sub with
        listener := .looping buffer
        lost := sub.lost ++
          [(item.seq, .rejected (config.any (·.enabled)) stream.filter item.event)] }
  | stop : (sub.listener = .waiting ∨ (∃ item, sub.listener = .sending item) ∨
        (∃ batch, sub.listener = .flushing batch) ∨
        ∃ stream buffer, sub.listener = .listening stream buffer) →
      sub.stopped = true →
      Step manager config sub (sub.close .stopped)

-- == calls

/-- A call under way, by the step it takes next. -/
inductive Call where
  | publish (event : JobLifecycleEvent)
  | send (event : JobLifecycleEvent)
  /-- `add_webhook` or `add_stream`: subscribe, store the configuration,
  install the handle, stop the listener replaced, start the new one. -/
  | add (subscriber : Subscriber) (config : SubscriberConfig)
  | store (subscriber : Subscriber) (config : SubscriberConfig) (id : SubscriptionId)
  | install (subscriber : Subscriber) (id : SubscriptionId)
  | replace (subscriber : Subscriber) (old id : SubscriptionId)
  | start (subscriber : Subscriber) (id : SubscriptionId)
  | update (webhookId : Nat) (config : SubscriberConfig)
  | setEnabled (subscriber : Subscriber) (enabled : Bool)
  /-- `remove_webhook` or `remove_stream`: a webhook's configuration is
  removed first, a stream's last. -/
  | remove (subscriber : Subscriber)
  | detach (subscriber : Subscriber)
  | stop (subscriber : Subscriber) (id : SubscriptionId)
  | forget (subscriber : Subscriber)

namespace Call

/-- The calls there are. -/
def Opens : Call → Prop
  | publish _ | add _ _ | update _ _ | setEnabled _ _ | remove _ => True
  | _ => False

/-- What follows the stop of a removed listener. -/
def afterStop : Subscriber → Option Call
  | .webhook _ => none
  | .stream id => some (forget (.stream id))

end Call

-- == system

/-- The event manager, the configurations and handles of webhooks and
streams, their subscriptions, the events published so far, and the calls
under way. -/
structure System where
  manager : EventManager
  published : List JobLifecycleEvent
  configs : Subscriber → Option SubscriberConfig
  handles : Subscriber → Option SubscriptionId
  subs : SubscriptionId → Option Subscription
  calls : List Call

namespace System

/-- Nothing registered and nothing published. -/
def new (config : EventConfig) : System where
  manager := ⟨config, ∅⟩
  published := []
  configs _ := none
  handles _ := none
  subs _ := none
  calls := []

/-- The filter of a subscription is taken off the event manager. -/
def unsubscribe (s : System) (id : SubscriptionId) : System :=
  { s with manager := { s.manager with subscriptions := s.manager.subscriptions.erase id } }

/-- The subscription `id` is as `f` makes it. -/
def modify (s : System) (id : SubscriptionId) (f : Subscription → Subscription) : System :=
  { s with subs := fun id' => if id' = id then (s.subs id').map f else s.subs id' }

/-- The handle is dropped: its subscription is taken off, and the stop
signal of its listener fires. -/
def dropHandle (s : System) (id : SubscriptionId) : System :=
  (s.unsubscribe id).modify id fun sub => { sub with stopped := true }

/-- The subscriber's configuration is replaced. -/
def setConfig (s : System) (subscriber : Subscriber) (config : Option SubscriberConfig) : System :=
  { s with configs := fun w => if w = subscriber then config else s.configs w }

/-- The subscriber's handle is replaced. -/
def setHandle (s : System) (subscriber : Subscriber) (handle : Option SubscriptionId) : System :=
  { s with handles := fun w => if w = subscriber then handle else s.handles w }

/-- A new subscription is registered. -/
def subscribe (s : System) (id : SubscriptionId) (subscriber : Subscriber)
    (filter : EventFilter) : System :=
  { s with
    manager := { s.manager with subscriptions := s.manager.subscriptions.insert id filter }
    subs := fun id' =>
      if id' = id then some (.new subscriber s.published.length) else s.subs id' }

/-- The event goes to every open subscription. -/
def broadcast (capacity : Nat) (s : System) (event : JobLifecycleEvent) : System :=
  { s with
    published := s.published ++ [event]
    subs := fun id => (s.subs id).map (Subscription.push capacity ⟨s.published.length, event⟩) }

end System

/-- One step of a call: the system afterwards, and what the call does
next. -/
inductive Call.Step (serialized : Json → String) (capacity : Nat) (s : System) :
    Call → System → Option Call → Prop
  | prepare {event event' : JobLifecycleEvent} :
      s.manager.publishEvent serialized event = some event' →
      Step serialized capacity s (.publish event) s (some (.send event'))
  | disabled {event : JobLifecycleEvent} : s.manager.publishEvent serialized event = none →
      Step serialized capacity s (.publish event) s none
  | send {event : JobLifecycleEvent} :
      Step serialized capacity s (.send event) (s.broadcast capacity event) none
  | subscribe {subscriber : Subscriber} {config : SubscriberConfig} (id : SubscriptionId) :
      s.subs id = none →
      Step serialized capacity s (.add subscriber config)
        (s.subscribe id subscriber config.filter) (some (.store subscriber config id))
  | store {subscriber : Subscriber} {config : SubscriberConfig} {id : SubscriptionId} :
      Step serialized capacity s (.store subscriber config id)
        (s.setConfig subscriber (some config)) (some (.install subscriber id))
  | install {subscriber : Subscriber} {id : SubscriptionId} : s.handles subscriber = none →
      Step serialized capacity s (.install subscriber id)
        (s.setHandle subscriber (some id)) (some (.start subscriber id))
  | swap {subscriber : Subscriber} {id old : SubscriptionId} :
      s.handles subscriber = some old →
      Step serialized capacity s (.install subscriber id)
        (s.setHandle subscriber (some id)) (some (.replace subscriber old id))
  | replace {subscriber : Subscriber} {old id : SubscriptionId} :
      Step serialized capacity s (.replace subscriber old id) (s.dropHandle old)
        (some (.start subscriber id))
  | start {subscriber : Subscriber} {id : SubscriptionId} :
      Step serialized capacity s (.start subscriber id)
        (s.modify id fun sub => { sub with listener := sub.listener.start subscriber }) none
  | update {webhookId : Nat} {config old : SubscriberConfig} :
      s.configs (.webhook webhookId) = some old →
      Step serialized capacity s (.update webhookId config)
        (s.setConfig (.webhook webhookId) (some config)) none
  | updateUnknown {webhookId : Nat} {config : SubscriberConfig} :
      s.configs (.webhook webhookId) = none →
      Step serialized capacity s (.update webhookId config) s
        (some (.add (.webhook webhookId) config))
  | setEnabled {subscriber : Subscriber} {enabled : Bool} {config : SubscriberConfig} :
      s.configs subscriber = some config →
      Step serialized capacity s (.setEnabled subscriber enabled)
        (s.setConfig subscriber (some { config with enabled := enabled })) none
  | setUnknown {subscriber : Subscriber} {enabled : Bool} : s.configs subscriber = none →
      Step serialized capacity s (.setEnabled subscriber enabled) s none
  | removeWebhook {id : Nat} :
      Step serialized capacity s (.remove (.webhook id)) (s.setConfig (.webhook id) none)
        (some (.detach (.webhook id)))
  | removeStream {id : Nat} :
      Step serialized capacity s (.remove (.stream id)) s (some (.detach (.stream id)))
  | detach {subscriber : Subscriber} {id : SubscriptionId} : s.handles subscriber = some id →
      Step serialized capacity s (.detach subscriber) (s.setHandle subscriber none)
        (some (.stop subscriber id))
  | detached {subscriber : Subscriber} : s.handles subscriber = none →
      Step serialized capacity s (.detach subscriber) s (Call.afterStop subscriber)
  | stop {subscriber : Subscriber} {id : SubscriptionId} :
      Step serialized capacity s (.stop subscriber id) (s.dropHandle id)
        (Call.afterStop subscriber)
  /-- The shutdown of a stream's processor can fail, and ends the call. -/
  | failed {subscriber : Subscriber} : Step serialized capacity s (.forget subscriber) s none
  | forget {subscriber : Subscriber} :
      Step serialized capacity s (.forget subscriber) (s.setConfig subscriber none) none

/-- One step of the system: a call is made, a call goes on, or a
listener does. -/
inductive Step (serialized : Json → String) (capacity : Nat) (s : System) : System → Prop
  | invoke {call : Call} : call.Opens →
      Step serialized capacity s { s with calls := call :: s.calls }
  | call {before after : List Call} {call : Call} {next : Option Call} {s' : System} :
      s.calls = before ++ call :: after → call.Step serialized capacity s s' next →
      Step serialized capacity s { s' with calls := before ++ next.toList ++ after }
  | listen (id : SubscriptionId) {sub sub' : Subscription} : s.subs id = some sub →
      sub.Step s.manager (s.configs sub.subscriber) sub' →
      Step serialized capacity s
        ((if sub'.listener.isEnded then s.unsubscribe id else s).modify id fun _ => sub')

/-- Any number of steps. -/
def Runs (serialized : Json → String) (capacity : Nat) : System → System → Prop :=
  Relation.ReflTransGen (Step serialized capacity)

end Delivery

end Hammerwork
