/-
Alerts: at most one per queue and type in a cooldown.

A call of `send_alert_if_needed` is a sequence of lock sections. It checks the
cooldown and reserves it holding `last_alerts`, in which time it also reads
`failed_alerts`; then it sends the alert to one target after the other; and
when the last has answered it takes both locks in turn, to confirm the
reservation or to release it. `Call.section` is the next section of a call,
whatever other calls do in between.

A call also keeps, for the statements, when its attempt started and ended and
when a target was last reached.
-/
import Hammerwork.Time
import Hammerwork.Lib.Table

namespace Hammerwork

namespace Alerting

-- == manager

inductive AlertType where
  | highErrorRate
  | queueDepthExceeded
  | workerStarvation
  | slowProcessing
  | custom (name : String)
  deriving DecidableEq, Repr

/-- The queue and the type of an alert. -/
abbrev AlertKey := String × AlertType

/-- How long an alert that reached no target waits before it is tried again. -/
def failedAlertRetryDelay : Duration := 60 * 1000000000

/-- Of the configuration, what sending an alert reads: how many targets there
are and the cooldown. -/
structure AlertingConfig where
  targets : Nat
  cooldownPeriod : Duration
  deriving DecidableEq, Repr

structure AlertManager where
  lastAlerts : Table AlertKey DateTime
  /-- When each alert last failed to reach any target. -/
  failedAlerts : Table AlertKey DateTime
  /-- The call that holds the lock of `lastAlerts` from one section to the
  next. -/
  holder : Option Nat

variable (config : AlertingConfig)

/-- The delay of an alert that reached no target. -/
def AlertingConfig.retryDelay : Duration := min failedAlertRetryDelay config.cooldownPeriod

/-- Still in the cooldown. -/
def AlertManager.inCooldown (m : AlertManager) (now : DateTime) (key : AlertKey) : Bool :=
  (m.lastAlerts.lookup key).any fun lastTime =>
    now - lastTime < saturatingChronoDuration config.cooldownPeriod

/-- Not to be tried again yet. -/
def AlertManager.retryPending (m : AlertManager) (now : DateTime) (key : AlertKey) : Bool :=
  (m.failedAlerts.lookup key).any fun failedAt =>
    now - failedAt < saturatingChronoDuration config.retryDelay

-- == calls

/-- Where a call is. -/
inductive Pc where
  | built
  /-- Out of the cooldown, holding `last_alerts`. -/
  | checked
  /-- So many targets have yet to answer, and so many failed. -/
  | sending (left failures : Nat)
  /-- Some target was reached: the failure is to be forgotten. -/
  | forgetting
  | confirming
  /-- None was: the reservation is to be released. -/
  | releasing
  | recording
  | skipped
  | delivered
  | undelivered
  deriving DecidableEq, Repr

structure Call where
  key : AlertKey
  /-- When the alert was built. -/
  timestamp : DateTime
  pc : Pc
  startedAt : Option DateTime
  /-- When a target was last reached. -/
  deliveredAt : Option DateTime
  endedAt : Option DateTime
  deriving DecidableEq, Repr

/-- A call with an alert just built. -/
def Call.new (key : AlertKey) (now : DateTime) : Call := ⟨key, now, .built, none, none, none⟩

/-- Where an attempt goes on when so many targets are left. -/
def afterAnswer (left failures : Nat) : Pc :=
  if 0 < left then .sending left failures
  else if failures < config.targets ∨ config.targets = 0 then .forgetting
  else .releasing

/-- The next section of the call with number `c`, or the answer of the next
target. -/
def Call.section (now : DateTime) (ok : Bool) (m : AlertManager) (c : Nat) (call : Call) :
    Option (AlertManager × Call) :=
  match call.pc with
  | .built =>
      if m.holder.isSome then none
      else if m.inCooldown config now call.key then some (m, { call with pc := .skipped })
      else some ({ m with holder := some c }, { call with pc := .checked })
  | .checked =>
      if m.retryPending config now call.key then
        some ({ m with holder := none }, { call with pc := .skipped })
      else
        some
          ({ m with
              lastAlerts := m.lastAlerts.insert call.key call.timestamp
              holder := none },
            { call with
              pc := afterAnswer config config.targets 0
              startedAt := some now
              endedAt := if config.targets = 0 then some now else none })
  | .sending left failures =>
      some (m,
        { call with
          pc := afterAnswer config (left - 1) (if ok then failures else failures + 1)
          deliveredAt := if ok then some now else call.deliveredAt
          endedAt := if left - 1 = 0 then some now else none })
  | .forgetting =>
      some ({ m with failedAlerts := m.failedAlerts.erase call.key },
        { call with pc := .confirming })
  | .confirming =>
      if m.holder.isSome then none
      else
        some ({ m with lastAlerts := m.lastAlerts.insert call.key call.timestamp },
          { call with pc := .delivered })
  | .releasing =>
      if m.holder.isSome then none
      else
        some ({ m with lastAlerts := m.lastAlerts.erase call.key },
          { call with pc := .recording })
  | .recording =>
      some ({ m with failedAlerts := m.failedAlerts.insert call.key now },
        { call with pc := .undelivered })
  | .skipped => none
  | .delivered => none
  | .undelivered => none

-- == system

/-- The manager, its calls and the clock. -/
structure State where
  now : DateTime
  manager : AlertManager
  calls : List Call

/-- A manager without calls. -/
def State.new (now : DateTime) : State := ⟨now, ⟨∅, ∅, none⟩, []⟩

inductive Act where
  /-- An alert is built. -/
  | build (key : AlertKey)
  /-- A call takes its next section. -/
  | own (call : Nat) (ok : Bool)
  deriving DecidableEq, Repr

structure Event where
  now : DateTime
  act : Act
  deriving DecidableEq, Repr

/-- The next state; the clock does not go back, and instants are
representable. -/
def State.next (s : State) (e : Event) : Option State :=
  if s.now ≤ e.now ∧ e.now ≤ maxUtc then
    match e.act with
    | .build key => some { s with now := e.now, calls := s.calls ++ [.new key e.now] }
    | .own c ok =>
        (s.calls[c]?).bind fun call =>
          (call.section config e.now ok s.manager c).map fun next =>
            ⟨e.now, next.1, s.calls.set c next.2⟩
  else
    none

end Alerting

end Hammerwork
