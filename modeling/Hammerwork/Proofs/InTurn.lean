/-
Calls made one at a time, and what they leave registered.

When every call has returned before the next is made, what is registered
is told by the calls alone: the configuration of each webhook and stream,
and the filter its subscription was made with (`Ledger`). The latter is
the filter of the call that added it; `update_webhook` replaces the
configuration and leaves the subscription as it was. A stream whose
removal failed, in the shutdown of its processor, keeps its configuration
and has no subscription any more.

Listeners take steps at any time, during calls and between them. `Stage`
says, for each step a call takes next, how far the system has come on the
way to what the ledger says.
-/
import Hammerwork.Proofs.Fates

namespace Hammerwork

namespace Delivery

variable {serialized : Json → String} {capacity : Nat} {s s' s'' : System}
  {w w' : Subscriber} {id : SubscriptionId}

-- == one call at a time

/-- One step of a listener. -/
inductive Listens (s : System) : System → Prop
  | listen (id : SubscriptionId) {sub sub' : Subscription} : s.subs id = some sub →
      sub.Step s.manager (s.configs sub.subscriber) sub' →
      Listens s ((if sub'.listener.isEnded then s.unsubscribe id else s).modify id fun _ => sub')

/-- A call goes on to its end, while listeners take steps; the flag says
whether the shutdown of a stream's processor failed. -/
inductive Finishes (serialized : Json → String) (capacity : Nat) :
    System → Option Call → Bool → System → Prop
  | done (s : System) : Finishes serialized capacity s none false s
  | listen {s s' s'' : System} {next : Option Call} {failed : Bool} : Listens s s' →
      Finishes serialized capacity s' next failed s'' →
      Finishes serialized capacity s next failed s''
  | go {s s' s'' : System} {call : Call} {next : Option Call} {failed : Bool} :
      call.Step serialized capacity s s' next → (∀ w, call ≠ .forget w) →
      Finishes serialized capacity s' next failed s'' →
      Finishes serialized capacity s (some call) failed s''
  | forget (s : System) (w : Subscriber) :
      Finishes serialized capacity s (some (.forget w)) false (s.setConfig w none)
  | failed (s : System) (w : Subscriber) :
      Finishes serialized capacity s (some (.forget w)) true s

/-- Calls made one at a time, each with whether it failed, and steps of
listeners. -/
inductive InTurn (serialized : Json → String) (capacity : Nat) (s : System) :
    List (Call × Bool) → System → Prop
  | start : InTurn serialized capacity s [] s
  | listen {made : List (Call × Bool)} {s' s'' : System} :
      InTurn serialized capacity s made s' → Listens s' s'' →
      InTurn serialized capacity s made s''
  | call {made : List (Call × Bool)} {s' s'' : System} {call : Call} {failed : Bool} :
      InTurn serialized capacity s made s' → call.Opens →
      Finishes serialized capacity s' (some call) failed s'' →
      InTurn serialized capacity s (made ++ [(call, failed)]) s''

/-- A call's step has nothing to do with the other calls. -/
theorem Call.Step.withCalls {call : Call} {next : Option Call}
    (h : call.Step serialized capacity s s' next) (calls : List Call) :
    call.Step serialized capacity { s with calls := calls } { s' with calls := calls } next := by
  cases h with
  | prepare h => exact .prepare h
  | disabled h => exact .disabled h
  | send => exact .send
  | subscribe id h => exact .subscribe id h
  | store => exact .store
  | install h => exact .install h
  | swap h => exact .swap h
  | replace => exact .replace
  | start => exact .start
  | update h => exact .update h
  | updateUnknown h => exact .updateUnknown h
  | setEnabled h => exact .setEnabled h
  | setUnknown h => exact .setUnknown h
  | removeWebhook => exact .removeWebhook
  | removeStream => exact .removeStream
  | detach h => exact .detach h
  | detached h => exact .detached h
  | stop => exact .stop
  | failed => exact .failed
  | forget => exact .forget

theorem Call.Step.calls_eq {call : Call} {next : Option Call}
    (h : call.Step serialized capacity s s' next) : s'.calls = s.calls := by
  cases h <;> rfl

/-- The step of the only call. -/
theorem Call.Step.alone {call : Call} {next : Option Call}
    (h : call.Step serialized capacity s s' next) :
    Delivery.Step serialized capacity { s with calls := [call] }
      { s' with calls := next.toList } := by
  have hcall := @Delivery.Step.call serialized capacity { s with calls := [call] } [] [] call next
    { s' with calls := [call] } rfl (h.withCalls [call])
  rw [List.append_nil, List.nil_append] at hcall
  exact hcall

theorem Listens.step (h : Listens s s') : Step serialized capacity s s' := by
  obtain ⟨id, hsub, hstep⟩ := h
  exact .listen id hsub hstep

theorem Listens.calls_eq (h : Listens s s') : s'.calls = s.calls := by
  obtain ⟨id, hsub, hstep⟩ := h
  show (if _ then s.unsubscribe id else s).calls = s.calls
  split <;> rfl

/-- A listener's step beside a call. -/
theorem Listens.withCalls (h : Listens s s') (calls : List Call) :
    Listens { s with calls := calls } { s' with calls := calls } := by
  cases h with
  | @listen id sub sub' hsub hstep =>
      have heq : { (if sub'.listener.isEnded then s.unsubscribe id else s).modify id
            (fun _ => sub') with calls := calls }
          = (if sub'.listener.isEnded then
              ({ s with calls := calls } : System).unsubscribe id
            else { s with calls := calls }).modify id fun _ => sub' := by
        split <;> rfl
      rw [heq]
      exact .listen id hsub hstep

/-- A call that goes on to its end is a run of the system. -/
theorem Finishes.runs {next : Option Call} {failed : Bool}
    (h : Finishes serialized capacity s next failed s') (hidle : s.calls = []) :
    Runs serialized capacity { s with calls := next.toList } s' ∧ s'.calls = [] := by
  induction h with
  | done s =>
      have heq : { s with calls := [] } = s := by rw [← hidle]
      exact ⟨by rw [Option.toList_none, heq]; exact .refl, hidle⟩
  | listen hlistens _ ih =>
      obtain ⟨hruns, hend⟩ := ih (hlistens.calls_eq.trans hidle)
      exact ⟨.head (hlistens.withCalls _).step hruns, hend⟩
  | @go s s' s'' call next failed hstep _ _ ih =>
      obtain ⟨hruns, hend⟩ := ih (hstep.calls_eq.trans hidle)
      exact ⟨.head hstep.alone hruns, hend⟩
  | forget s w =>
      have hcall : Step serialized capacity _ { s.setConfig w none with calls := [] } :=
        Call.Step.forget.alone
      have heq : { s.setConfig w none with calls := [] } = s.setConfig w none := by
        rw [← hidle]
        rfl
      exact ⟨.single (heq ▸ hcall), hidle⟩
  | failed s w =>
      have hcall : Step serialized capacity { s with calls := [.forget w] }
          { s with calls := [] } := Call.Step.failed.alone
      have heq : { s with calls := [] } = s := by rw [← hidle]
      exact ⟨.single (heq ▸ hcall), hidle⟩

/-- Calls made one at a time are a run of the system. -/
theorem InTurn.runs {made : List (Call × Bool)} (h : InTurn serialized capacity s made s')
    (hidle : s.calls = []) : Runs serialized capacity s s' ∧ s'.calls = [] := by
  induction h with
  | start => exact ⟨.refl, hidle⟩
  | listen _ hlistens ih => exact ⟨ih.1.tail hlistens.step, hlistens.calls_eq.trans ih.2⟩
  | @call made s₁ s₂ call failed _ hopens hfinishes ih =>
      obtain ⟨hruns, hend⟩ := hfinishes.runs ih.2
      have hinvoke : Step serialized capacity s₁ { s₁ with calls := [call] } := by
        have h : Step serialized capacity s₁ { s₁ with calls := call :: s₁.calls } :=
          .invoke hopens
        rwa [ih.2] at h
      exact ⟨(ih.1.tail hinvoke).trans hruns, hend⟩

-- == ledger

/-- What is registered for a subscriber: its configuration, and the filter
it was added with, unless a removal of it failed. -/
structure Registered where
  config : SubscriberConfig
  added : Option EventFilter

/-- What is registered. -/
abbrev Ledger := Subscriber → Option Registered

namespace Ledger

/-- The entry of one subscriber replaced. -/
def set (ledger : Ledger) (w : Subscriber) (entry : Option Registered) : Ledger :=
  fun w' => if w' = w then entry else ledger w'

/-- A subscriber added. -/
def add (ledger : Ledger) (w : Subscriber) (config : SubscriberConfig) : Ledger :=
  ledger.set w (some ⟨config, some config.filter⟩)

/-- The ledger after one more call, which failed or did not. -/
def record (ledger : Ledger) (call : Call) (failed : Bool) : Ledger :=
  match call with
  | .add w config => ledger.add w config
  | .update webhookId config =>
      match ledger (.webhook webhookId) with
      | some entry => ledger.set (.webhook webhookId) (some { entry with config := config })
      | none => ledger.add (.webhook webhookId) config
  | .setEnabled w enabled =>
      ledger.set w ((ledger w).map fun entry =>
        { entry with config := { entry.config with enabled := enabled } })
  | .remove w =>
      ledger.set w (if failed then (ledger w).map ({ · with added := none }) else none)
  | _ => ledger

/-- The ledger of calls made on a new system. -/
def of (made : List (Call × Bool)) : Ledger :=
  made.foldl (fun ledger m => ledger.record m.1 m.2) fun _ => none

@[simp] theorem set_self (ledger : Ledger) (w : Subscriber) (entry : Option Registered) :
    ledger.set w entry w = entry := if_pos rfl

theorem set_ne (ledger : Ledger) (entry : Option Registered) (h : w' ≠ w) :
    ledger.set w entry w' = ledger w' := if_neg h

end Ledger

-- == settled

/-- Where the listener of a subscriber can be while it runs; the copy of
its configuration it may have has this filter. -/
def Listener.Reads (filter : EventFilter) : Subscriber → Listener → Prop
  | .webhook _, .waiting | .webhook _, .taken _ | .webhook _, .sending _ => True
  | .stream _, .looping _ | .stream _, .flushing _ => True
  | .stream _, .listening stream _ | .stream _, .checking stream _ _ => stream.filter = filter
  | _, _ => False

/-- The subscription `id` serves the subscriber: its listener runs, and
it is registered with the filter `added`. -/
def Serves (s : System) (w : Subscriber) (filter added : EventFilter) (id : SubscriptionId) :
    Prop :=
  ∃ sub, s.subs id = some sub ∧ sub.subscriber = w ∧ sub.stopped = false ∧
    sub.listener.Reads filter w ∧ s.manager.subscriptions.lookup id = some added

/-- The subscriber is registered as its entry says. -/
def Tied (s : System) (w : Subscriber) (entry : Option Registered) : Prop :=
  s.configs w = entry.map (·.config) ∧
    ((∀ r, entry = some r → r.added = none) → s.handles w = none) ∧
    ∀ r added, entry = some r → r.added = some added →
      ∃ id, s.handles w = some id ∧ Serves s w r.config.filter added id

/-- Every registered filter belongs to an installed subscription, or to
one of `own`. -/
def Owned (s : System) (own : List SubscriptionId) : Prop :=
  ∀ id filter, s.manager.subscriptions.lookup id = some filter →
    id ∈ own ∨ ∃ sub, s.subs id = some sub ∧ s.handles sub.subscriber = some id

/-- What the ledger says is registered is, and nothing else. -/
structure Settled (config : EventConfig) (ledger : Ledger) (s : System) : Prop where
  config : s.manager.config = config
  tied : ∀ w, Tied s w (ledger w)
  owned : Owned s []

/-- Everything is settled but for the subscriber `w`, which a call is
about, with the subscriptions `own`. -/
structure Beside (config : EventConfig) (ledger : Ledger) (w : Subscriber)
    (own : List SubscriptionId) (s : System) : Prop where
  config : s.manager.config = config
  tied : ∀ w', w' ≠ w → Tied s w' (ledger w')
  owned : Owned s own
  held : ∀ id, s.handles w = some id → ∃ sub, s.subs id = some sub ∧ sub.subscriber = w

/-- The subscription `id` was just made for the subscriber. -/
def Fresh (s : System) (w : Subscriber) (filter : EventFilter) (id : SubscriptionId) : Prop :=
  ∃ sub, s.subs id = some sub ∧ sub.subscriber = w ∧ sub.stopped = false ∧
    sub.listener = .unstarted ∧ s.manager.subscriptions.lookup id = some filter

/-- The ledgers a removal can end with, and the configuration while it is
under way. -/
def Removing (after : Bool → Ledger) (s : System) (w : Subscriber) : Prop :=
  after false w = none ∧
    match w with
    | .webhook _ => s.configs w = none
    | .stream _ => s.configs w = (after true w).map (·.config) ∧
        (∀ r, after true w = some r → r.added = none) ∧
        ∀ w', w' ≠ w → after true w' = after false w'

/-- How far a call has come whose end leaves the ledger `after`. -/
def Stage (config : EventConfig) (after : Bool → Ledger) (s : System) : Option Call → Prop
  | none | some (.send _) => Settled config (after false) s
  | some (.store w c id) => Beside config (after false) w [id] s ∧
      after false w = some ⟨c, some c.filter⟩ ∧ Fresh s w c.filter id ∧ s.handles w ≠ some id
  | some (.install w id) => ∃ c, Beside config (after false) w [id] s ∧
      after false w = some ⟨c, some c.filter⟩ ∧ Fresh s w c.filter id ∧
      s.handles w ≠ some id ∧ s.configs w = some c
  | some (.replace w old id) => ∃ c, Beside config (after false) w [old] s ∧
      after false w = some ⟨c, some c.filter⟩ ∧ Fresh s w c.filter id ∧
      s.handles w = some id ∧ s.configs w = some c ∧ old ≠ id ∧
      ∃ sub, s.subs old = some sub ∧ sub.subscriber = w
  | some (.start w id) => ∃ c, Beside config (after false) w [] s ∧
      after false w = some ⟨c, some c.filter⟩ ∧ Fresh s w c.filter id ∧
      s.handles w = some id ∧ s.configs w = some c
  | some (.detach w) => Beside config (after false) w [] s ∧ Removing after s w
  | some (.stop w id) => Beside config (after false) w [id] s ∧ Removing after s w ∧
      s.handles w = none ∧ ∃ sub, s.subs id = some sub ∧ sub.subscriber = w
  | some (.forget w) => Beside config (after false) w [] s ∧ Removing after s w ∧
      s.handles w = none ∧ ∃ n, w = .stream n
  | some call => ∃ ledger, Settled config ledger s ∧
      ∀ failed, after failed = ledger.record call failed

-- == listeners

/-- What a step of a listener does to the system. -/
structure Listens.Effect (s s' : System) : Prop where
  config : s'.manager.config = s.manager.config
  configs : s'.configs = s.configs
  handles : s'.handles = s.handles
  published : s'.published = s.published
  unregisters : ∀ id filter, s'.manager.subscriptions.lookup id = some filter →
    s.manager.subscriptions.lookup id = some filter
  subs : ∀ id sub, s.subs id = some sub → ∃ sub', s'.subs id = some sub' ∧
    (sub' = sub ∨ sub.Step s.manager (s.configs sub.subscriber) sub') ∧
    (sub'.listener.isEnded = false →
      s'.manager.subscriptions.lookup id = s.manager.subscriptions.lookup id)

theorem Listens.effect (h : Listens s s') : Listens.Effect s s' := by
  cases h with
  | @listen id sub sub' hsub hstep =>
      cases hended : sub'.listener.isEnded with
      | false =>
          rw [if_neg Bool.false_ne_true]
          refine ⟨rfl, rfl, rfl, rfl, fun _ _ h => h, fun id₁ sub₁ hsub₁ => ?_⟩
          by_cases hid : id₁ = id
          · subst hid
            rw [hsub] at hsub₁
            obtain rfl := Option.some.inj hsub₁
            exact ⟨sub', by simp [System.modify, hsub], .inr hstep, fun _ => rfl⟩
          · exact ⟨sub₁, by simpa [System.modify, hid] using hsub₁, .inl rfl, fun _ => rfl⟩
      | true =>
          rw [if_pos rfl]
          have hlookup : ∀ id₁, (s.manager.subscriptions.erase id).lookup id₁
              = if id₁ = id then none else s.manager.subscriptions.lookup id₁ :=
            Table.lookup_erase_if s.manager.subscriptions id
          refine ⟨rfl, rfl, rfl, rfl, fun id₁ filter h => ?_, fun id₁ sub₁ hsub₁ => ?_⟩
          · have h : (s.manager.subscriptions.erase id).lookup id₁ = some filter := h
            rw [hlookup] at h
            split at h
            case isTrue => cases h
            case isFalse => exact h
          · by_cases hid : id₁ = id
            · subst hid
              rw [hsub] at hsub₁
              obtain rfl := Option.some.inj hsub₁
              refine ⟨sub', by simp [System.modify, System.unsubscribe, hsub], .inr hstep, ?_⟩
              intro hopen
              rw [hended] at hopen
              cases hopen
            · refine ⟨sub₁, by simpa [System.modify, System.unsubscribe, hid] using hsub₁,
                .inl rfl, fun _ => ?_⟩
              show (s.manager.subscriptions.erase id).lookup id₁ = _
              rw [hlookup, if_neg hid]

/-- A listener that is read the configuration it runs with goes on. -/
theorem reads_step {manager : EventManager} {sub sub' : Subscription} {c : SubscriberConfig}
    (h : sub.Step manager (some c) sub') (hrunning : sub.stopped = false)
    (hreads : sub.listener.Reads c.filter w) : sub'.listener.Reads c.filter w := by
  cases h with
  | gone _ hnone | streamGone _ hnone => cases hnone
  | stop _ hstopped =>
      rw [hrunning] at hstopped
      cases hstopped
  | receive hl | keep hl | reject hl | deliver hl | flush hl | batch hl | due hl | buffer hl
    | skip hl =>
      rw [hl] at hreads
      cases w <;> simp_all [Listener.Reads]
  | listen hl hc =>
      rw [hl] at hreads
      cases hc
      cases w <;> simp_all [Listener.Reads]
  | take hl =>
      rw [hl] at hreads
      cases w <;> simp_all [Listener.Reads]

/-- A running listener has not ended. -/
theorem Listener.Reads.isEnded {filter : EventFilter} {listener : Listener}
    (h : listener.Reads filter w) : listener.isEnded = false := by
  cases listener with
  | ended => cases w <;> exact h.elim
  | _ => rfl

/-- A listener's step goes on serving the subscriber. -/
theorem Serves.listens {c : SubscriberConfig} {added : EventFilter}
    (h : Serves s w c.filter added id) (hconfig : s.configs w = some c) (hstep : Listens s s') :
    Serves s' w c.filter added id := by
  obtain ⟨sub, hsub, hw, hrunning, hreads, hlookup⟩ := h
  obtain ⟨sub', hsub', hsame | hlistens, hkept⟩ := hstep.effect.subs id sub hsub
  · subst hsame
    exact ⟨sub', hsub', hw, hrunning, hreads, (hkept hreads.isEnded).trans hlookup⟩
  · rw [hw, hconfig] at hlistens
    have hreads' := reads_step hlistens hrunning hreads
    obtain ⟨hw', -, hstopped⟩ := Subscription.kept_step hlistens
    exact ⟨sub', hsub', hw'.trans hw, hstopped.trans hrunning, hreads',
      (hkept hreads'.isEnded).trans hlookup⟩

theorem Tied.listens {entry : Option Registered} (h : Tied s w entry) (hstep : Listens s s') :
    Tied s' w entry := by
  obtain ⟨hconfig, hnone, hserves⟩ := h
  have heffect := hstep.effect
  refine ⟨by rw [heffect.configs, hconfig], fun hadded => by rw [heffect.handles, hnone hadded],
    fun r added hr hadded => ?_⟩
  obtain ⟨id, hhandle, hid⟩ := hserves r added hr hadded
  exact ⟨id, by rw [heffect.handles, hhandle], hid.listens (by rw [hconfig, hr]; rfl) hstep⟩

theorem Owned.listens {own : List SubscriptionId} (h : Owned s own) (hstep : Listens s s') :
    Owned s' own := by
  intro id filter hlookup
  refine (h id filter (hstep.effect.unregisters id filter hlookup)).imp_right ?_
  intro ⟨sub, hsub, hhandle⟩
  obtain ⟨sub', hsub', hsame | hlistens, -⟩ := hstep.effect.subs id sub hsub
  · subst hsame
    exact ⟨sub', hsub', by rw [hstep.effect.handles, hhandle]⟩
  · refine ⟨sub', hsub', ?_⟩
    rw [hstep.effect.handles, (Subscription.kept_step hlistens).1, hhandle]

theorem Settled.listens {config : EventConfig} {ledger : Ledger} (h : Settled config ledger s)
    (hstep : Listens s s') : Settled config ledger s' :=
  ⟨hstep.effect.config.trans h.config, fun w => (h.tied w).listens hstep, h.owned.listens hstep⟩

/-- A subscription stays that of its subscriber. -/
theorem of_listens (hstep : Listens s s')
    (h : ∃ sub, s.subs id = some sub ∧ sub.subscriber = w) :
    ∃ sub, s'.subs id = some sub ∧ sub.subscriber = w := by
  obtain ⟨sub, hsub, hw⟩ := h
  obtain ⟨sub', hsub', hsame | hlistens, -⟩ := hstep.effect.subs id sub hsub
  · subst hsame
    exact ⟨sub', hsub', hw⟩
  · exact ⟨sub', hsub', (Subscription.kept_step hlistens).1.trans hw⟩

theorem Beside.listens {config : EventConfig} {ledger : Ledger} {own : List SubscriptionId}
    (h : Beside config ledger w own s) (hstep : Listens s s') :
    Beside config ledger w own s' where
  config := hstep.effect.config.trans h.config
  tied w' hw' := (h.tied w' hw').listens hstep
  owned := h.owned.listens hstep
  held id hid := of_listens hstep (h.held id (by rwa [hstep.effect.handles] at hid))

/-- A listener that has not started takes no step. -/
theorem Fresh.listens {filter : EventFilter} (h : Fresh s w filter id) (hstep : Listens s s') :
    Fresh s' w filter id := by
  obtain ⟨sub, hsub, hw, hrunning, hunstarted, hlookup⟩ := h
  obtain ⟨sub', hsub', hsame | hlistens, hkept⟩ := hstep.effect.subs id sub hsub
  · subst hsame
    exact ⟨sub', hsub', hw, hrunning, hunstarted,
      (hkept (by rw [hunstarted]; rfl)).trans hlookup⟩
  · cases hlistens with
    | stop hl _ => simp [hunstarted] at hl
    | receive hl | keep hl | reject hl | gone hl | deliver hl | listen hl | flush hl
      | streamGone hl | batch hl | take hl | due hl | buffer hl | skip hl =>
        rw [hunstarted] at hl
        cases hl

theorem Removing.listens {after : Bool → Ledger} (h : Removing after s w)
    (hstep : Listens s s') : Removing after s' w := by
  unfold Removing at h ⊢
  rw [hstep.effect.configs]
  exact h

/-- A listener's step leaves a call where it is. -/
theorem Stage.listens {config : EventConfig} {after : Bool → Ledger} {next : Option Call}
    (h : Stage config after s next) (hstep : Listens s s') : Stage config after s' next := by
  have hhandles := hstep.effect.handles
  have hconfigs := hstep.effect.configs
  cases next with
  | none => exact Settled.listens h hstep
  | some call =>
      cases call with
      | send event => exact Settled.listens h hstep
      | store w c id =>
          obtain ⟨hbeside, hafter, hfresh, hnot⟩ := h
          exact ⟨hbeside.listens hstep, hafter, hfresh.listens hstep, by rwa [hhandles]⟩
      | install w id =>
          obtain ⟨c, hbeside, hafter, hfresh, hnot, hc⟩ := h
          exact ⟨c, hbeside.listens hstep, hafter, hfresh.listens hstep, by rwa [hhandles],
            by rwa [hconfigs]⟩
      | replace w old id =>
          obtain ⟨c, hbeside, hafter, hfresh, hhandle, hc, hne, hold⟩ := h
          exact ⟨c, hbeside.listens hstep, hafter, hfresh.listens hstep, by rwa [hhandles],
            by rwa [hconfigs], hne, of_listens hstep hold⟩
      | start w id =>
          obtain ⟨c, hbeside, hafter, hfresh, hhandle, hc⟩ := h
          exact ⟨c, hbeside.listens hstep, hafter, hfresh.listens hstep, by rwa [hhandles],
            by rwa [hconfigs]⟩
      | detach w =>
          obtain ⟨hbeside, hremoving⟩ := h
          exact ⟨hbeside.listens hstep, hremoving.listens hstep⟩
      | stop w id =>
          obtain ⟨hbeside, hremoving, hhandle, hid⟩ := h
          exact ⟨hbeside.listens hstep, hremoving.listens hstep, by rwa [hhandles],
            of_listens hstep hid⟩
      | forget w =>
          obtain ⟨hbeside, hremoving, hhandle, hw⟩ := h
          exact ⟨hbeside.listens hstep, hremoving.listens hstep, by rwa [hhandles], hw⟩
      | publish | add | update | setEnabled | remove =>
          obtain ⟨ledger, hsettled, hafter⟩ := h
          exact ⟨ledger, hsettled.listens hstep, hafter⟩

-- == calls

/-- A webhook's listener keeps no copy of a configuration. -/
theorem reads_webhook {filter filter' : EventFilter} {n : Nat} {listener : Listener}
    (h : listener.Reads filter (.webhook n)) : listener.Reads filter' (.webhook n) := by
  cases listener <;> exact h

/-- What a subscriber's registration rests on. -/
theorem Tied.of_eq {entry : Option Registered} (h : Tied s w entry)
    (hconfig : s'.configs w = s.configs w) (hhandle : s'.handles w = s.handles w)
    (hsubs : ∀ id sub, s.handles w = some id → s.subs id = some sub → sub.subscriber = w →
      ∃ sub', s'.subs id = some sub' ∧ sub'.subscriber = sub.subscriber ∧
        sub'.stopped = sub.stopped ∧ sub'.listener = sub.listener ∧
        s'.manager.subscriptions.lookup id = s.manager.subscriptions.lookup id) :
    Tied s' w entry := by
  obtain ⟨hc, hnone, hserves⟩ := h
  refine ⟨hconfig.trans hc, fun hadded => hhandle.trans (hnone hadded),
    fun r added hr hadded => ?_⟩
  obtain ⟨id, hid, sub, hsub, hw, hrunning, hreads, hlookup⟩ := hserves r added hr hadded
  obtain ⟨sub', hsub', hw', hstopped, hlistener, hkept⟩ := hsubs id sub hid hsub hw
  exact ⟨id, hhandle.trans hid, sub', hsub', hw'.trans hw, hstopped.trans hrunning,
    by rwa [hlistener], hkept.trans hlookup⟩

/-- A subscriber that is registered is the one its handle is for. -/
theorem Tied.held {entry : Option Registered} (h : Tied s w entry) (hid : s.handles w = some id) :
    ∃ sub, s.subs id = some sub ∧ sub.subscriber = w := by
  obtain ⟨-, hnone, hserves⟩ := h
  cases hr : entry.bind (·.added) with
  | none =>
      rw [hnone fun r hr' => by rw [hr'] at hr; exact hr] at hid
      cases hid
  | some added =>
      obtain ⟨r, hentry, hadded⟩ := Option.bind_eq_some_iff.1 hr
      obtain ⟨id', hid', sub, hsub, hw, -⟩ := hserves r added hentry hadded
      rw [hid] at hid'
      cases hid'
      exact ⟨sub, hsub, hw⟩

variable {config : EventConfig} {ledger : Ledger} {after : Bool → Ledger}

/-- What is settled is settled beside any subscriber. -/
theorem Settled.beside (h : Settled config ledger s) (w : Subscriber) :
    Beside config ledger w [] s :=
  ⟨h.config, fun w' _ => h.tied w', h.owned, fun _ hid => (h.tied w).held hid⟩

/-- What is settled beside a subscriber and for it is settled. -/
theorem Beside.settled (h : Beside config ledger w [] s) (hw : Tied s w (ledger w)) :
    Settled config ledger s := by
  refine ⟨h.config, fun w' => ?_, h.owned⟩
  by_cases hw' : w' = w
  · subst hw'
    exact hw
  · exact h.tied w' hw'

/-- The ledger may differ in the entry of the subscriber itself. -/
theorem Beside.congr {ledger' : Ledger} {own : List SubscriptionId}
    (h : Beside config ledger w own s) (hledger : ∀ w', w' ≠ w → ledger' w' = ledger w') :
    Beside config ledger' w own s :=
  ⟨h.config, fun w' hw' => by rw [hledger w' hw']; exact h.tied w' hw', h.owned, h.held⟩

/-- A configuration replaced. -/
theorem Beside.setConfig {own : List SubscriptionId} (h : Beside config ledger w own s)
    (c : Option SubscriberConfig) : Beside config ledger w own (s.setConfig w c) where
  config := h.config
  tied w' hw' := (h.tied w' hw').of_eq (if_neg hw') rfl
    fun _ sub _ hsub _ => ⟨sub, hsub, rfl, rfl, rfl, rfl⟩
  owned := h.owned
  held := h.held

/-- A registered subscriber has another configuration, and its listener
reads with that as with the last. -/
theorem Settled.reconfigured (h : Settled config ledger s) {r : Registered}
    (hentry : ledger w = some r) (c : SubscriberConfig)
    (hreads : ∀ listener : Listener,
      listener.Reads r.config.filter w → listener.Reads c.filter w) :
    Settled config (ledger.set w (some { r with config := c })) (s.setConfig w (some c)) := by
  obtain ⟨-, hnone, hserves⟩ := h.tied w
  refine (((h.beside w).setConfig (some c)).congr
    fun w' hw' => Ledger.set_ne _ _ hw').settled ?_
  rw [Ledger.set_self]
  refine ⟨if_pos rfl, fun hadded => ?_, fun r' added hr' hadded => ?_⟩
  · refine hnone fun r' hr' => ?_
    rw [hentry] at hr'
    cases hr'
    exact hadded ⟨c, r.added⟩ rfl
  · cases hr'
    obtain ⟨id, hid, sub, hsub, hw, hrunning, hlistener, hlookup⟩ :=
      hserves r added hentry hadded
    exact ⟨id, hid, sub, hsub, hw, hrunning, hreads _ hlistener, hlookup⟩

/-- A handle replaced: the subscription it was for is in the hands of the
call. -/
theorem Beside.setHandle {own own' : List SubscriptionId} (h : Beside config ledger w own s)
    {handle : Option SubscriptionId}
    (howned : ∀ id', id' ∈ own ∨ s.handles w = some id' → id' ∈ own' ∨ handle = some id')
    (hheld : ∀ id', handle = some id' → ∃ sub, s.subs id' = some sub ∧ sub.subscriber = w) :
    Beside config ledger w own' (s.setHandle w handle) where
  config := h.config
  tied w' hw' := (h.tied w' hw').of_eq rfl (if_neg hw')
    fun _ sub _ hsub _ => ⟨sub, hsub, rfl, rfl, rfl, rfl⟩
  owned id filter hlookup := by
    have hmine : handle = some id → ∃ sub, s.subs id = some sub ∧
        (s.setHandle w handle).handles sub.subscriber = some id := by
      intro hid
      obtain ⟨sub, hsub, hw⟩ := hheld id hid
      exact ⟨sub, hsub, by rw [hw]; exact (if_pos rfl).trans hid⟩
    rcases h.owned id filter hlookup with hid | ⟨sub, hsub, hid⟩
    · exact (howned id (.inl hid)).imp_right hmine
    · by_cases hw : sub.subscriber = w
      · rw [hw] at hid
        exact (howned id (.inr hid)).imp_right hmine
      · exact .inr ⟨sub, hsub, (if_neg hw).trans hid⟩
  held _ hid := hheld _ (by simpa [System.setHandle] using hid)

/-- A subscription of the call is dropped. -/
theorem Beside.dropHandle (h : Beside config ledger w [id] s)
    (hid : ∃ sub, s.subs id = some sub ∧ sub.subscriber = w) :
    Beside config ledger w [] (s.dropHandle id) := by
  obtain ⟨sub₀, hsub₀, hw₀⟩ := hid
  have hlookup : ∀ id', (s.dropHandle id).manager.subscriptions.lookup id'
      = if id' = id then none else s.manager.subscriptions.lookup id' :=
    Table.lookup_erase_if s.manager.subscriptions id
  have hsubs : ∀ id' sub, s.subs id' = some sub → ∃ sub', (s.dropHandle id).subs id' = some sub' ∧
      sub'.subscriber = sub.subscriber ∧ (id' ≠ id → sub' = sub) := by
    intro id' sub hsub
    by_cases hne : id' = id
    · subst hne
      exact ⟨{ sub with stopped := true },
        by simp [System.dropHandle, System.modify, System.unsubscribe, hsub], rfl,
        fun hne => absurd rfl hne⟩
    · exact ⟨sub, by simpa [System.dropHandle, System.modify, System.unsubscribe, hne] using hsub,
        rfl, fun _ => rfl⟩
  refine ⟨h.config, fun w' hw' => (h.tied w' hw').of_eq rfl rfl fun id' sub _ hsub hmine => ?_,
    fun id' filter hlook => ?_, fun id' hid' => ?_⟩
  · have hne : id' ≠ id := by
      intro heq
      rw [heq, hsub₀] at hsub
      rw [← Option.some.inj hsub] at hmine
      exact hw' (hmine.symm.trans hw₀)
    obtain ⟨sub', hsub', -, hsame⟩ := hsubs id' sub hsub
    rw [hsame hne] at hsub'
    exact ⟨sub, hsub', rfl, rfl, rfl, by rw [hlookup, if_neg hne]⟩
  · rw [hlookup] at hlook
    split at hlook
    case isTrue => cases hlook
    case isFalse hne =>
      rcases h.owned id' filter hlook with hid' | ⟨sub, hsub, hid'⟩
      · exact absurd (List.mem_singleton.1 hid') hne
      · obtain ⟨sub', hsub', -, hsame⟩ := hsubs id' sub hsub
        rw [hsame hne] at hsub'
        exact .inr ⟨sub, hsub', hid'⟩
  · obtain ⟨sub, hsub, hw⟩ := h.held id' hid'
    obtain ⟨sub', hsub', hsame, -⟩ := hsubs id' sub hsub
    exact ⟨sub', hsub', hsame.trans hw⟩

/-- The new listener starts: the subscriber is registered. -/
theorem Beside.started {c : SubscriberConfig} (h : Beside config ledger w [] s)
    (hentry : ledger w = some ⟨c, some c.filter⟩) (hfresh : Fresh s w c.filter id)
    (hhandle : s.handles w = some id) (hconfig : s.configs w = some c) :
    Settled config ledger
      (s.modify id fun sub => { sub with listener := sub.listener.start w }) := by
  obtain ⟨sub₀, hsub₀, hw₀, hrunning, hunstarted, hlookup⟩ := hfresh
  have hsubs : ∀ id' sub, s.subs id' = some sub → id' ≠ id →
      (s.modify id fun sub => { sub with listener := sub.listener.start w }).subs id'
        = some sub := by
    intro id' sub hsub hne
    simpa [System.modify, hne] using hsub
  have hnew : (s.modify id fun sub => { sub with listener := sub.listener.start w }).subs id
      = some { sub₀ with listener := sub₀.listener.start w } := by
    simp [System.modify, hsub₀]
  refine ⟨h.config, fun w' => ?_, fun id' filter hlook => ?_⟩
  · by_cases hw' : w' = w
    · subst hw'
      rw [hentry]
      refine ⟨hconfig, fun hnone => (by cases hnone _ rfl), fun r added hr hadded => ?_⟩
      cases hr
      cases hadded
      refine ⟨id, hhandle, _, hnew, hw₀, hrunning, ?_, hlookup⟩
      show Listener.Reads c.filter w' (sub₀.listener.start w')
      rw [hunstarted]
      cases w' <;> trivial
    · refine (h.tied w' hw').of_eq rfl rfl fun id' sub _ hsub hmine => ?_
      have hne : id' ≠ id := by
        intro heq
        rw [heq, hsub₀] at hsub
        rw [← Option.some.inj hsub] at hmine
        exact hw' (hmine.symm.trans hw₀)
      exact ⟨sub, hsubs id' sub hsub hne, rfl, rfl, rfl, rfl⟩
  · obtain hid' | ⟨sub, hsub, hid'⟩ := h.owned id' filter hlook
    · cases hid'
    · by_cases hne : id' = id
      · subst hne
        exact .inr ⟨_, hnew, by rw [hsub₀] at hsub; rw [← Option.some.inj hsub] at hid'; exact hid'⟩
      · exact .inr ⟨sub, hsubs id' sub hsub hne, hid'⟩

/-- A new subscription. -/
theorem Settled.subscribe (h : Settled config ledger s) (hnew : s.subs id = none)
    (c : SubscriberConfig) :
    Beside config (ledger.add w c) w [id] (s.subscribe id w c.filter) ∧
      Fresh (s.subscribe id w c.filter) w c.filter id ∧
      (s.subscribe id w c.filter).handles w ≠ some id := by
  have hbeside := h.beside w
  have hlookup : ∀ id', (s.subscribe id w c.filter).manager.subscriptions.lookup id'
      = if id' = id then some c.filter else s.manager.subscriptions.lookup id' := fun id' =>
    Table.lookup_insert_if s.manager.subscriptions id id' c.filter
  have hsubs : ∀ id' sub, s.subs id' = some sub →
      (s.subscribe id w c.filter).subs id' = some sub ∧ id' ≠ id := by
    intro id' sub hsub
    have hne : id' ≠ id := fun heq => by
      rw [heq, hnew] at hsub
      cases hsub
    exact ⟨by simpa [System.subscribe, hne] using hsub, hne⟩
  refine ⟨⟨h.config, fun w' hw' => ?_, fun id' filter hlook => ?_, fun id' hid' => ?_⟩,
    ⟨_, if_pos rfl, rfl, rfl, rfl, by rw [hlookup, if_pos rfl]⟩, fun hhandle => ?_⟩
  · rw [Ledger.add, Ledger.set_ne _ _ hw']
    refine (h.tied w').of_eq rfl rfl fun id' sub _ hsub _ => ?_
    obtain ⟨hsub', hne⟩ := hsubs id' sub hsub
    exact ⟨sub, hsub', rfl, rfl, rfl, by rw [hlookup, if_neg hne]⟩
  · rw [hlookup] at hlook
    split at hlook
    case isTrue hid' => exact .inl (List.mem_singleton.2 hid')
    case isFalse =>
      obtain hid' | ⟨sub, hsub, hid'⟩ := h.owned id' filter hlook
      · cases hid'
      · exact .inr ⟨sub, (hsubs id' sub hsub).1, hid'⟩
  · obtain ⟨sub, hsub, hw⟩ := hbeside.held id' hid'
    exact ⟨sub, (hsubs id' sub hsub).1, hw⟩
  · obtain ⟨sub, hsub, -⟩ := hbeside.held id hhandle
    rw [hnew] at hsub
    cases hsub

/-- Publishing keeps whom a subscription is for, and where its listener
is. -/
theorem Subscription.kept_push (capacity : Nat) (item : Item) (sub : Subscription) :
    (sub.push capacity item).subscriber = sub.subscriber ∧
      (sub.push capacity item).stopped = sub.stopped ∧
      (sub.push capacity item).listener = sub.listener := by
  unfold Subscription.push
  split <;> exact ⟨rfl, rfl, rfl⟩

/-- An event on its way to the listeners. -/
theorem Settled.broadcast (h : Settled config ledger s) (event : JobLifecycleEvent) :
    Settled config ledger (s.broadcast capacity event) := by
  refine ⟨h.config, fun w => (h.tied w).of_eq rfl rfl fun id sub _ hsub _ => ?_,
    fun id filter hlook => ?_⟩
  · obtain ⟨hw, hstopped, hlistener⟩ :=
      Subscription.kept_push capacity ⟨s.published.length, event⟩ sub
    exact ⟨_, by simp [System.broadcast, hsub], hw, hstopped, hlistener, rfl⟩
  · obtain hid | ⟨sub, hsub, hid⟩ := h.owned id filter hlook
    · cases hid
    · refine .inr ⟨sub.push capacity ⟨s.published.length, event⟩, ?_, ?_⟩
      · simp [System.broadcast, hsub]
      · rw [(Subscription.kept_push capacity ⟨s.published.length, event⟩ sub).1]
        exact hid

/-- A removed subscriber that is not registered any more. -/
theorem Removing.afterStop (h : Removing after s w) (hbeside : Beside config (after false) w [] s)
    (hhandle : s.handles w = none) : Stage config after s (Call.afterStop w) := by
  cases w with
  | webhook n =>
      refine hbeside.settled ?_
      rw [h.1]
      exact ⟨h.2, fun _ => hhandle, fun _ _ hr => by cases hr⟩
  | stream n => exact ⟨hbeside, h, hhandle, n, rfl⟩

/-- A step of a call brings the system to the next stage. -/
theorem Stage.step {call : Call} {next : Option Call} (h : Stage config after s (some call))
    (hstep : call.Step serialized capacity s s' next) (hgoes : ∀ w, call ≠ .forget w) :
    Stage config after s' next := by
  cases hstep with
  | prepare =>
      obtain ⟨ledger, hsettled, hafter⟩ := h
      show Settled config (after false) s
      rw [hafter false]
      exact hsettled
  | disabled =>
      obtain ⟨ledger, hsettled, hafter⟩ := h
      show Settled config (after false) s
      rw [hafter false]
      exact hsettled
  | send => exact Settled.broadcast h _
  | @subscribe w c id hnew =>
      obtain ⟨ledger, hsettled, hafter⟩ := h
      have hadd : after false = ledger.add w c := hafter false
      obtain ⟨hbeside, hfresh, hnot⟩ := hsettled.subscribe (w := w) hnew c
      exact ⟨hadd ▸ hbeside, by rw [hadd]; exact Ledger.set_self .., hfresh, hnot⟩
  | @store w c id =>
      obtain ⟨hbeside, hentry, hfresh, hnot⟩ := h
      exact ⟨c, hbeside.setConfig _, hentry, hfresh, hnot, if_pos rfl⟩
  | @install w id hnone =>
      obtain ⟨c, hbeside, hentry, hfresh, -, hconfig⟩ := h
      refine ⟨c, hbeside.setHandle (fun id' hid' => ?_) (fun id' hid' => ?_), hentry, hfresh,
        if_pos rfl, hconfig⟩
      · rcases hid' with hid' | hid'
        · exact .inr (by rw [List.mem_singleton.1 hid'])
        · rw [hnone] at hid'
          cases hid'
      · obtain ⟨sub, hsub, hw, -⟩ := hfresh
        exact ⟨sub, Option.some.inj hid' ▸ hsub, hw⟩
  | @swap w id old hold =>
      obtain ⟨c, hbeside, hentry, hfresh, hnot, hconfig⟩ := h
      refine ⟨c, hbeside.setHandle (fun id' hid' => ?_) (fun id' hid' => ?_), hentry, hfresh,
        if_pos rfl, hconfig, fun heq => hnot (heq ▸ hold), hbeside.held old hold⟩
      · rcases hid' with hid' | hid'
        · exact .inr (by rw [List.mem_singleton.1 hid'])
        · rw [hold] at hid'
          exact .inl (List.mem_singleton.2 (Option.some.inj hid').symm)
      · obtain ⟨sub, hsub, hw, -⟩ := hfresh
        exact ⟨sub, Option.some.inj hid' ▸ hsub, hw⟩
  | @replace w old id =>
      obtain ⟨c, hbeside, hentry, hfresh, hhandle, hconfig, hne, hold⟩ := h
      refine ⟨c, hbeside.dropHandle hold, hentry, ?_, hhandle, hconfig⟩
      obtain ⟨sub, hsub, hw, hrunning, hunstarted, hlookup⟩ := hfresh
      refine ⟨sub, ?_, hw, hrunning, hunstarted, ?_⟩
      · simpa [System.dropHandle, System.modify, System.unsubscribe, hne.symm] using hsub
      · have herase := Table.lookup_erase_if s.manager.subscriptions old id
        rw [if_neg hne.symm] at herase
        exact herase.trans hlookup
  | @start w id =>
      obtain ⟨c, hbeside, hentry, hfresh, hhandle, hconfig⟩ := h
      exact hbeside.started hentry hfresh hhandle hconfig
  | @update n c old hold =>
      obtain ⟨ledger, hsettled, hafter⟩ := h
      obtain ⟨hconfig, -⟩ := hsettled.tied (.webhook n)
      cases hentry : ledger (.webhook n) with
      | none =>
          rw [hold, hentry] at hconfig
          cases hconfig
      | some r =>
          have hset : after false = ledger.set (.webhook n) (some { r with config := c }) := by
            rw [hafter, Ledger.record, hentry]
          show Settled config (after false) _
          rw [hset]
          exact hsettled.reconfigured hentry c fun _ => reads_webhook
  | @updateUnknown n c hnone =>
      obtain ⟨ledger, hsettled, hafter⟩ := h
      refine ⟨ledger, hsettled, fun failed => ?_⟩
      have hentry : ledger (.webhook n) = none := by
        have hconfig := (hsettled.tied (.webhook n)).1
        rw [hnone] at hconfig
        simpa using hconfig.symm
      show _ = ledger.add (.webhook n) c
      rw [hafter, Ledger.record, hentry]
  | @setEnabled w enabled c hc =>
      obtain ⟨ledger, hsettled, hafter⟩ := h
      obtain ⟨hconfig, -⟩ := hsettled.tied w
      cases hentry : ledger w with
      | none =>
          rw [hc, hentry] at hconfig
          cases hconfig
      | some r =>
          have hr : c = r.config := by
            rw [hc, hentry] at hconfig
            exact Option.some.inj hconfig
          have hset : after false = ledger.set w
              (some { r with config := { r.config with enabled := enabled } }) := by
            rw [hafter, Ledger.record, hentry]
            rfl
          show Settled config (after false) _
          rw [hset, hr]
          exact hsettled.reconfigured hentry _ fun _ => id
  | @setUnknown w enabled hnone =>
      obtain ⟨ledger, hsettled, hafter⟩ := h
      have hentry : ledger w = none := by
        have hconfig := (hsettled.tied w).1
        rw [hnone] at hconfig
        simpa using hconfig.symm
      have hsame : after false = ledger := by
        rw [hafter, Ledger.record, hentry]
        refine funext fun w' => ?_
        by_cases hw' : w' = w
        · rw [hw', hentry]
          exact Ledger.set_self ..
        · exact Ledger.set_ne _ _ hw'
      show Settled config (after false) s
      rw [hsame]
      exact hsettled
  | @removeWebhook n =>
      obtain ⟨ledger, hsettled, hafter⟩ := h
      have hset : after false = ledger.set (.webhook n) none := hafter false
      refine ⟨?_, by rw [hset]; exact Ledger.set_self .., if_pos rfl⟩
      rw [hset]
      exact ((hsettled.beside _).setConfig none).congr fun w' hw' => Ledger.set_ne _ _ hw'
  | @removeStream n =>
      obtain ⟨ledger, hsettled, hafter⟩ := h
      have hset : after false = ledger.set (.stream n) none := hafter false
      have hfailed : after true
          = ledger.set (.stream n) ((ledger (.stream n)).map ({ · with added := none })) :=
        hafter true
      refine ⟨?_, by rw [hset]; exact Ledger.set_self .., ?_, fun r hr => ?_, fun w' hw' => ?_⟩
      · rw [hset]
        exact (hsettled.beside _).congr fun w' hw' => Ledger.set_ne _ _ hw'
      · rw [hfailed, Ledger.set_self, Option.map_map]
        exact (hsettled.tied (.stream n)).1
      · rw [hfailed, Ledger.set_self] at hr
        obtain ⟨r', -, rfl⟩ := Option.map_eq_some_iff.1 hr
        rfl
      · rw [hset, hfailed, Ledger.set_ne _ _ hw', Ledger.set_ne _ _ hw']
  | @detach w id hid =>
      obtain ⟨hbeside, hremoving⟩ := h
      refine ⟨hbeside.setHandle (fun id' hid' => ?_) (fun id' hid' => by cases hid'), hremoving,
        if_pos rfl, hbeside.held id hid⟩
      rcases hid' with hid' | hid'
      · cases hid'
      · rw [hid] at hid'
        exact .inl (List.mem_singleton.2 (Option.some.inj hid').symm)
  | @detached w hnone =>
      obtain ⟨hbeside, hremoving⟩ := h
      exact hremoving.afterStop hbeside hnone
  | @stop w id =>
      obtain ⟨hbeside, hremoving, hhandle, hid⟩ := h
      have hremoving : Removing after (s.dropHandle id) w := hremoving
      exact hremoving.afterStop (hbeside.dropHandle hid) hhandle
  | failed | forget => exact absurd rfl (hgoes _)

/-- A stream that is forgotten, or is not because its removal failed. -/
theorem Removing.settled (h : Removing after s w) (hbeside : Beside config (after false) w [] s)
    (hhandle : s.handles w = none) (hw : ∃ n, w = .stream n) :
    Settled config (after false) (s.setConfig w none) ∧ Settled config (after true) s := by
  obtain ⟨n, rfl⟩ := hw
  obtain ⟨hnone, hconfig, hadded, hothers⟩ := h
  refine ⟨(hbeside.setConfig none).settled ?_, (hbeside.congr hothers).settled ?_⟩
  · rw [hnone]
    exact ⟨if_pos rfl, fun _ => hhandle, fun _ _ hr => by cases hr⟩
  · refine ⟨hconfig, fun _ => hhandle, fun r added hr hr' => ?_⟩
    rw [hadded r hr] at hr'
    cases hr'

/-- A call that returned has settled. -/
theorem Finishes.settled {next : Option Call} {failed : Bool}
    (h : Finishes serialized capacity s next failed s') (hstage : Stage config after s next) :
    Settled config (after failed) s' := by
  induction h with
  | done s => exact hstage
  | listen hlistens _ ih => exact ih (hstage.listens hlistens)
  | go hstep hgoes _ ih => exact ih (hstage.step hstep hgoes)
  | forget s w =>
      obtain ⟨hbeside, hremoving, hhandle, hw⟩ := hstage
      exact (hremoving.settled hbeside hhandle hw).1
  | failed s w =>
      obtain ⟨hbeside, hremoving, hhandle, hw⟩ := hstage
      exact (hremoving.settled hbeside hhandle hw).2

/-- A call on a settled system is at its first stage. -/
theorem Settled.opens (h : Settled config ledger s) {call : Call} (hopens : call.Opens) :
    Stage config (ledger.record call) s (some call) := by
  cases call with
  | publish | add | update | setEnabled | remove => exact ⟨ledger, h, fun _ => rfl⟩
  | _ => exact hopens.elim

/-- After calls made one at a time, what the ledger says is settled. -/
theorem InTurn.settled {made : List (Call × Bool)} (h : InTurn serialized capacity s made s')
    (hs : Settled config ledger s) :
    Settled config (made.foldl (fun ledger m => ledger.record m.1 m.2) ledger) s' := by
  induction h with
  | start => exact hs
  | listen _ hlistens ih => exact ih.listens hlistens
  | call _ hopens hfinishes ih =>
      rw [List.foldl_append]
      exact hfinishes.settled (ih.opens hopens)

/-- Nothing is registered on a new system. -/
theorem Settled.new (config : EventConfig) :
    Settled config (fun _ => none) (System.new config) where
  config := rfl
  tied _ := ⟨rfl, fun _ => rfl, fun _ _ hr => by cases hr⟩
  owned _ _ h := by cases h

end Delivery

end Hammerwork
