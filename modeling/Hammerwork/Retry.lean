/-
Retry strategies: the delay before each retry, and how they are stored.

A delay is computed in saturating arithmetic on durations, capped, and at
least a millisecond. A strategy is stored as an object of its fields,
durations as whole milliseconds in 64 bits; the closure of a custom one
cannot be stored.

Durations are nanoseconds, up to `maxDuration`; `asMillis` is the
narrowing the writer does. Floating-point numbers are their bits, and
what is computed with them is a parameter (`Floats`).
-/
import Hammerwork.Job
import Mathlib.Algebra.Ring.Nat

namespace Hammerwork

namespace Retry

-- == durations

/-- The longest duration: 2⁶⁴ seconds but for a nanosecond. -/
def maxDuration : Duration := 2 ^ 64 * 1000000000 - 1

/-- The largest 64-bit number. -/
def u64Max : Nat := 2 ^ 64 - 1

/-- `duration.as_millis() as u64`. -/
def asMillis (duration : Duration) : Nat := duration / 1000000 % 2 ^ 64

def fromMillis (millis : Nat) : Duration := millis * 1000000

/-- `duration * n`, if it can be represented. -/
def checkedMul (duration : Duration) (n : Nat) : Option Duration :=
  if duration * n ≤ maxDuration then some (duration * n) else none

/-- `a + b`, saturating. -/
def saturatingAdd (a b : Duration) : Duration := min (a + b) maxDuration

/-- Clamp a delay to an optional maximum. -/
def capDelay (delay : Duration) (maxDelay : Option Duration) : Duration :=
  match maxDelay with
  | some max => min delay max
  | none => delay

-- == fibonacci

/-- The loop of `fibonacci`: `n` rounds from `prev` and `curr`, each
adding the two, saturating at 64 bits. -/
def fibonacciLoop : Nat → Nat → Nat → Nat
  | 0, _, curr => curr
  | n + 1, prev, curr => fibonacciLoop n curr (min (prev + curr) u64Max)

/-- The `n`th Fibonacci number, as 64 bits hold it. -/
def fibonacci (n : Nat) : Nat :=
  if n = 0 then 0 else if n ≤ 2 then 1 else fibonacciLoop (n - 2) 1 1

-- == delays

/-- What is done with floating-point numbers, given as their bits. -/
structure Floats where
  toValue : UInt64 → Json
  fromValue : Json → Option UInt64
  sanitizeMultiplier : UInt64 → UInt64
  powi : UInt64 → Nat → UInt64
  ofNat : Nat → UInt64
  saturatingMul : Duration → UInt64 → Duration
  applyJitter : JitterType → Duration → Duration

/-- What is written of a floating-point number is read back. -/
def Floats.Exact (floats : Floats) : Prop :=
  ∀ bits, floats.fromValue (floats.toValue bits) = some bits

/-- The delay before the retry `attempt`, never zero. -/
def calculateDelay (floats : Floats) (strategy : RetryStrategy) (attempt : Nat) : Duration :=
  let baseDelay := match strategy with
    | .fixed delay => delay
    | .linear base increment maxDelay =>
        -- the first retry waits `base`
        let step := (checkedMul increment (attempt - 1)).getD maxDuration
        capDelay (saturatingAdd base step) maxDelay
    | .exponential base multiplier maxDelay jitter =>
        let exponent := min (attempt - 1) (2 ^ 31 - 1)
        let delayMultiplier := floats.powi (floats.sanitizeMultiplier multiplier) exponent
        let cappedDelay := capDelay (floats.saturatingMul base delayMultiplier) maxDelay
        match jitter with
        | some jitter => floats.applyJitter jitter cappedDelay
        | none => cappedDelay
    | .fibonacci base maxDelay =>
        capDelay (floats.saturatingMul base (floats.ofNat (fibonacci attempt))) maxDelay
    | .custom delay => delay attempt
  max baseDelay (fromMillis 1)

-- == writing

inductive SerdeError where
  | custom (message : String)
  | missingField (name : String)
  | duplicateField (name : String)
  | unknownVariant (variant : String) (expected : List String)
  | invalidType (expected : String)

def u64Value (n : Nat) : Json := .number (toString n)

def optionValue {α : Type} (value : α → Json) : Option α → Json
  | none => .null
  | some a => value a

def serializeJitter (floats : Floats) : JitterType → Json
  | .additive amount =>
      .object [("type", .string "Additive"), ("duration_ms", u64Value (asMillis amount))]
  | .multiplicative factor =>
      .object [("type", .string "Multiplicative"), ("factor", floats.toValue factor)]

def serialize (floats : Floats) : RetryStrategy → Except SerdeError Json
  | .fixed delay =>
      .ok (.object [("type", .string "Fixed"), ("duration_ms", u64Value (asMillis delay))])
  | .linear base increment maxDelay =>
      .ok (.object [("type", .string "Linear"), ("base_ms", u64Value (asMillis base)),
        ("increment_ms", u64Value (asMillis increment)),
        ("max_delay_ms", optionValue u64Value (maxDelay.map asMillis))])
  | .exponential base multiplier maxDelay jitter =>
      .ok (.object [("type", .string "Exponential"), ("base_ms", u64Value (asMillis base)),
        ("multiplier", floats.toValue multiplier),
        ("max_delay_ms", optionValue u64Value (maxDelay.map asMillis)),
        ("jitter", optionValue (serializeJitter floats) jitter)])
  | .fibonacci base maxDelay =>
      .ok (.object [("type", .string "Fibonacci"), ("base_ms", u64Value (asMillis base)),
        ("max_delay_ms", optionValue u64Value (maxDelay.map asMillis))])
  | .custom _ => .error (.custom "Cannot serialize custom retry strategy functions")

-- == reading

def readString : Json → Except SerdeError String
  | .string text => .ok text
  | _ => .error (.invalidType "a string")

def readU64 : Json → Except SerdeError Nat
  | .number text =>
      match text.toNat?.filter (· < 2 ^ 64) with
      | some n => .ok n
      | none => .error (.invalidType "u64")
  | _ => .error (.invalidType "u64")

def readF64 (floats : Floats) (value : Json) : Except SerdeError UInt64 :=
  match floats.fromValue value with
  | some bits => .ok bits
  | none => .error (.invalidType "f64")

def readOption {α : Type} (read : Json → Except SerdeError α) : Json →
    Except SerdeError (Option α)
  | .null => .ok none
  | value => (read value).map some

/-- A field that may be given once. -/
def once {α : Type} (name : String) (seen : Option α) (value : Except SerdeError α) :
    Except SerdeError (Option α) :=
  if seen.isSome then .error (.duplicateField name) else value.map some

def required {α : Type} (name : String) : Option α → Except SerdeError α
  | some a => .ok a
  | none => .error (.missingField name)

/-- The fields of a jitter read so far. -/
structure JitterFields where
  type : Option String
  durationMs : Option Nat
  factor : Option UInt64

def visitJitter (floats : Floats) (fields : JitterFields) (member : String × Json) :
    Except SerdeError JitterFields :=
  match member with
  | ("type", value) =>
      (once "type" fields.type (readString value)).map fun v => { fields with type := v }
  | ("duration_ms", value) =>
      (once "duration_ms" fields.durationMs (readU64 value)).map
        fun v => { fields with durationMs := v }
  | ("factor", value) =>
      (once "factor" fields.factor (readF64 floats value)).map fun v => { fields with factor := v }
  | _ => .ok fields

def deserializeJitter (floats : Floats) : Json → Except SerdeError JitterType
  | .object members => do
      let fields ← members.foldlM (visitJitter floats) ⟨none, none, none⟩
      let type ← required "type" fields.type
      match type with
      | "Additive" => return .additive (fromMillis (← required "duration_ms" fields.durationMs))
      | "Multiplicative" => return .multiplicative (← required "factor" fields.factor)
      | _ => throw (.unknownVariant type ["Additive", "Multiplicative"])
  | _ => .error (.invalidType "a jitter type")

/-- The fields of a strategy read so far. -/
structure Fields where
  type : Option String
  durationMs : Option Nat
  baseMs : Option Nat
  incrementMs : Option Nat
  maxDelayMs : Option (Option Nat)
  multiplier : Option UInt64
  jitter : Option (Option JitterType)

def visit (floats : Floats) (fields : Fields) (member : String × Json) :
    Except SerdeError Fields :=
  match member with
  | ("type", value) =>
      (once "type" fields.type (readString value)).map fun v => { fields with type := v }
  | ("duration_ms", value) =>
      (once "duration_ms" fields.durationMs (readU64 value)).map
        fun v => { fields with durationMs := v }
  | ("base_ms", value) =>
      (once "base_ms" fields.baseMs (readU64 value)).map fun v => { fields with baseMs := v }
  | ("increment_ms", value) =>
      (once "increment_ms" fields.incrementMs (readU64 value)).map
        fun v => { fields with incrementMs := v }
  | ("max_delay_ms", value) =>
      (once "max_delay_ms" fields.maxDelayMs (readOption readU64 value)).map
        fun v => { fields with maxDelayMs := v }
  | ("multiplier", value) =>
      (once "multiplier" fields.multiplier (readF64 floats value)).map
        fun v => { fields with multiplier := v }
  | ("jitter", value) =>
      (once "jitter" fields.jitter (readOption (deserializeJitter floats) value)).map
        fun v => { fields with jitter := v }
  | _ => .ok fields

/-- The strategy of the fields read. No maximum is given as null or not
at all. -/
def ofFields (fields : Fields) : Except SerdeError RetryStrategy := do
  let type ← required "type" fields.type
  let maxDelay := fields.maxDelayMs.join.map fromMillis
  match type with
  | "Fixed" => return .fixed (fromMillis (← required "duration_ms" fields.durationMs))
  | "Linear" =>
      let base ← required "base_ms" fields.baseMs
      let increment ← required "increment_ms" fields.incrementMs
      return .linear (fromMillis base) (fromMillis increment) maxDelay
  | "Exponential" =>
      let base ← required "base_ms" fields.baseMs
      let multiplier ← required "multiplier" fields.multiplier
      return .exponential (fromMillis base) multiplier maxDelay fields.jitter.join
  | "Fibonacci" =>
      let base ← required "base_ms" fields.baseMs
      return .fibonacci (fromMillis base) maxDelay
  | _ => throw (.unknownVariant type ["Fixed", "Linear", "Exponential", "Fibonacci"])

def deserialize (floats : Floats) : Json → Except SerdeError RetryStrategy
  | .object members => do
      ofFields (← members.foldlM (visit floats) ⟨none, none, none, none, none, none, none⟩)
  | _ => .error (.invalidType "a retry strategy")

end Retry

end Hammerwork
