/-
Autoscaling: how many workers a pool should have.

Each sample of the queue's depth is added to a history, of which the samples
outside the evaluation window are dropped. If the average depth per worker is
beyond a threshold and the last scaling is not too recent, the number of
workers moves by one step, up to a bound.

Averages are exact. Counts are machine words, and adding a step to one may
wrap around. Subtracting the evaluation window from the time panics if the
result is not representable; the call then returns nothing (`none`).
-/
import Hammerwork.Time
import Mathlib.Algebra.Order.Ring.Rat

namespace Hammerwork

namespace Autoscale

-- == configuration

/-- One more than the greatest count. -/
def usizeSize : Nat := 2 ^ 64

structure AutoscaleConfig where
  enabled : Bool
  minWorkers : Nat
  maxWorkers : Nat
  scaleUpThreshold : Nat
  scaleDownThreshold : Nat
  cooldownPeriod : Duration
  scaleStep : Nat
  evaluationWindow : Duration
  deriving DecidableEq, Repr

/-- Whole seconds. -/
def fromSecs (seconds : Nat) : Duration := seconds * 1000000000

namespace AutoscaleConfig

def default : AutoscaleConfig where
  enabled := true
  minWorkers := 1
  maxWorkers := 10
  scaleUpThreshold := 5
  scaleDownThreshold := 2
  cooldownPeriod := fromSecs 60
  scaleStep := 1
  evaluationWindow := fromSecs 30

def conservative : AutoscaleConfig where
  enabled := true
  minWorkers := 2
  maxWorkers := 5
  scaleUpThreshold := 10
  scaleDownThreshold := 1
  cooldownPeriod := fromSecs 300
  scaleStep := 1
  evaluationWindow := fromSecs 60

def aggressive : AutoscaleConfig where
  enabled := true
  minWorkers := 1
  maxWorkers := 20
  scaleUpThreshold := 3
  scaleDownThreshold := 1
  cooldownPeriod := fromSecs 30
  scaleStep := 2
  evaluationWindow := fromSecs 15

def disabled : AutoscaleConfig := { default with enabled := false }

variable (config : AutoscaleConfig)

def withEnabled (enabled : Bool) : AutoscaleConfig := { config with enabled := enabled }

/-- At least one; the maximum is raised to it. -/
def withMinWorkers (minWorkers : Nat) : AutoscaleConfig :=
  { config with
    minWorkers := max minWorkers 1
    maxWorkers := max config.maxWorkers (max minWorkers 1) }

def withMaxWorkers (maxWorkers : Nat) : AutoscaleConfig :=
  { config with maxWorkers := max maxWorkers config.minWorkers }

def withScaleUpThreshold (threshold : Nat) : AutoscaleConfig :=
  { config with scaleUpThreshold := max threshold 1 }

def withScaleDownThreshold (threshold : Nat) : AutoscaleConfig :=
  { config with scaleDownThreshold := threshold }

def withCooldownPeriod (period : Duration) : AutoscaleConfig :=
  { config with cooldownPeriod := period }

def withScaleStep (step : Nat) : AutoscaleConfig := { config with scaleStep := max step 1 }

def withEvaluationWindow (window : Duration) : AutoscaleConfig :=
  { config with evaluationWindow := window }

end AutoscaleConfig

/-- A configuration made by the builder methods, from a preset. -/
inductive Built : AutoscaleConfig → Prop where
  | default : Built .default
  | conservative : Built .conservative
  | aggressive : Built .aggressive
  | disabled : Built .disabled
  | withEnabled {config} (enabled : Bool) : Built config → Built (config.withEnabled enabled)
  | withMinWorkers {config} (n : Nat) : n < usizeSize → Built config →
      Built (config.withMinWorkers n)
  | withMaxWorkers {config} (n : Nat) : n < usizeSize → Built config →
      Built (config.withMaxWorkers n)
  | withScaleUpThreshold {config} (n : Nat) : n < usizeSize → Built config →
      Built (config.withScaleUpThreshold n)
  | withScaleDownThreshold {config} (n : Nat) : n < usizeSize → Built config →
      Built (config.withScaleDownThreshold n)
  | withCooldownPeriod {config} (period : Duration) : Built config →
      Built (config.withCooldownPeriod period)
  | withScaleStep {config} (n : Nat) : n < usizeSize → Built config →
      Built (config.withScaleStep n)
  | withEvaluationWindow {config} (window : Duration) : Built config →
      Built (config.withEvaluationWindow window)

-- == decision

/-- A depth of the queue and when it was read. -/
structure Sample where
  now : DateTime
  depth : Nat
  deriving DecidableEq, Repr

/-- Of the metrics, those that autoscaling reads and writes. -/
structure AutoscaleMetrics where
  activeWorkers : Nat
  avgQueueDepth : ℚ
  currentQueueDepth : Nat
  timeSinceLastScale : Duration
  lastScaleTime : Option DateTime
  deriving DecidableEq

structure State where
  metrics : AutoscaleMetrics
  history : List Sample
  deriving DecidableEq

/-- A pool that starts with so many workers. -/
def State.initial (activeWorkers : Nat) : State where
  metrics :=
    { activeWorkers := activeWorkers
      avgQueueDepth := 0
      currentQueueDepth := 0
      timeSinceLastScale := 0
      lastScaleTime := none }
  history := []

inductive ScalingDecision where
  | scaleUp
  | scaleDown
  deriving DecidableEq, Repr

/-- How far back samples count: the evaluation window, or half a minute if it
is not representable. -/
def windowLength (config : AutoscaleConfig) : TimeDelta :=
  if (config.evaluationWindow : Int) ≤ maxTimeDelta then config.evaluationWindow
  else fromSecs 30

/-- The average depth of samples; of none, the current depth. -/
def average (samples : List Sample) (currentDepth : Nat) : ℚ :=
  if samples.isEmpty then currentDepth
  else ((samples.map fun sample => (sample.depth : ℚ)).sum) / samples.length

/-- How long the last scaling is ago; the cooldown if there was none. -/
def timeSinceLast (config : AutoscaleConfig) (now : DateTime) (lastScaleTime : Option DateTime) :
    Duration :=
  match lastScaleTime with
  | none => config.cooldownPeriod
  | some t => if t ≤ now then (now - t).toNat else config.cooldownPeriod

def depthPerWorker (avgDepth : ℚ) (activeWorkers : Nat) : ℚ :=
  if 0 < activeWorkers then avgDepth / activeWorkers else avgDepth

def decision (config : AutoscaleConfig) (depthPerWorker : ℚ) (activeWorkers : Nat) :
    Option ScalingDecision :=
  if (config.scaleUpThreshold : ℚ) < depthPerWorker ∧ activeWorkers < config.maxWorkers then
    some .scaleUp
  else if depthPerWorker < config.scaleDownThreshold ∧ config.minWorkers < activeWorkers then
    some .scaleDown
  else
    none

def newCount (config : AutoscaleConfig) (activeWorkers : Nat) : ScalingDecision → Nat
  | .scaleUp => min ((activeWorkers + config.scaleStep) % usizeSize) config.maxWorkers
  | .scaleDown => max (activeWorkers - config.scaleStep) config.minWorkers

/-- Record a sample and decide whether to scale: the new number of workers. -/
def applyQueueDepth (config : AutoscaleConfig) (sample : Sample) (s : State) :
    Option (Option Nat × State) :=
  match checkedAddSigned sample.now (-windowLength config) with
  | none => none
  | some cutoff =>
      let history := (s.history ++ [sample]).filter fun sample => cutoff < sample.now
      let avgDepth := average history sample.depth
      let timeSince := timeSinceLast config sample.now s.metrics.lastScaleTime
      let metrics :=
        { s.metrics with
          currentQueueDepth := sample.depth
          avgQueueDepth := avgDepth
          timeSinceLastScale := timeSince }
      if timeSince < config.cooldownPeriod then
        some (none, ⟨metrics, history⟩)
      else
        match decision config (depthPerWorker avgDepth metrics.activeWorkers)
            metrics.activeWorkers with
        | none => some (none, ⟨metrics, history⟩)
        | some decision =>
            let count := newCount config metrics.activeWorkers decision
            some (some count,
              ⟨{ metrics with activeWorkers := count, lastScaleTime := some sample.now }, history⟩)

end Autoscale

end Hammerwork
