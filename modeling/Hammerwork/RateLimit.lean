/-
Rate limits: a bucket of tokens that refills.

A call on the bucket first adds the tokens of the time that has passed, up to
the capacity. Amounts are exact; times are nanoseconds of a monotonic clock,
the rate is in tokens a millisecond. How long to wait for a token is a whole
number of milliseconds, and saturates.
-/
import Hammerwork.Time
import Mathlib.Data.Rat.Floor

namespace Hammerwork

/-- A time of the monotonic clock, in nanoseconds. -/
abbrev Instant := Int

/-- The greatest number of milliseconds a wait may have. -/
def u64Max : Nat := 18446744073709551615

-- == bucket

structure TokenBucket where
  tokens : ℚ
  capacity : ℚ
  /-- Tokens a millisecond. -/
  refillRate : ℚ
  lastRefill : Instant
  deriving DecidableEq

namespace TokenBucket

/-- The milliseconds from one time to another; none if it is earlier. -/
def elapsedMs (since now : Instant) : ℚ := (now - since).toNat / 1000000

def new (capacity refillRate : ℚ) (now : Instant) : TokenBucket where
  tokens := capacity
  capacity := capacity
  refillRate := refillRate
  lastRefill := now

variable (bucket : TokenBucket) (now : Instant)

def refill : TokenBucket :=
  { bucket with
    tokens := min (bucket.tokens + bucket.refillRate * elapsedMs bucket.lastRefill now)
      bucket.capacity
    lastRefill := now }

/-- Take tokens, if there are as many. -/
def tryConsume (tokens : ℚ) : Bool × TokenBucket :=
  let bucket := bucket.refill now
  if tokens ≤ bucket.tokens then
    (true, { bucket with tokens := bucket.tokens - tokens })
  else
    (false, bucket)

/-- Return tokens, up to the capacity. -/
def refund (tokens : ℚ) : TokenBucket :=
  let bucket := bucket.refill now
  { bucket with tokens := min (bucket.tokens + tokens) bucket.capacity }

def availableTokens : ℚ × TokenBucket :=
  let bucket := bucket.refill now
  (bucket.tokens, bucket)

/-- How long until there is a token. -/
def timeUntilToken : Duration × TokenBucket :=
  let bucket := bucket.refill now
  if 1 ≤ bucket.tokens then
    (0, bucket)
  else
    let tokensNeeded := 1 - bucket.tokens
    let msNeeded := min ⌈tokensNeeded / bucket.refillRate⌉₊ u64Max
    (msNeeded * 1000000, bucket)

end TokenBucket

-- == limits

/-- Of the errors of the library, the one that limits are rejected with. -/
inductive ConfigError where
  | config (message : String)
  deriving DecidableEq, Repr

/-- At most `rate` operations in `per`, with bursts of up to `burstLimit`. A
limit that would block every operation cannot be built. -/
structure RateLimit where
  rate : Nat
  per : Duration
  burstLimit : Nat
  rate_pos : 0 < rate
  /-- Between a second and an hour. -/
  per_bounds : 1000000000 ≤ per ∧ per ≤ 3600000000000
  burstLimit_pos : 0 < burstLimit

namespace RateLimit

def tryNew (rate : Nat) (per : Duration) (hper : 1000000000 ≤ per ∧ per ≤ 3600000000000)
    (unit : String) : Except ConfigError RateLimit :=
  if h : rate = 0 then
    .error (.config s!"rate limit must allow at least one operation per {unit} (got 0)")
  else
    .ok
      { rate := rate
        per := per
        burstLimit := rate
        rate_pos := Nat.pos_of_ne_zero h
        per_bounds := hper
        burstLimit_pos := Nat.pos_of_ne_zero h }

def perSecond (rate : Nat) : Except ConfigError RateLimit :=
  tryNew rate 1000000000 (by decide) "second"

def perMinute (rate : Nat) : Except ConfigError RateLimit :=
  tryNew rate 60000000000 (by decide) "minute"

def perHour (rate : Nat) : Except ConfigError RateLimit :=
  tryNew rate 3600000000000 (by decide) "hour"

variable (limit : RateLimit)

def withBurstLimit (burstLimit : Nat) : Except ConfigError RateLimit :=
  if h : burstLimit = 0 then
    .error (.config "rate limit burst limit must be at least 1 (got 0)")
  else
    .ok { limit with burstLimit := burstLimit, burstLimit_pos := Nat.pos_of_ne_zero h }

/-- The refill rate in tokens a millisecond. -/
def refillRatePerMs : ℚ := limit.rate / (limit.per / 1000000 : Nat)

/-- The bucket of a limiter. -/
def bucket (now : Instant) : TokenBucket := .new limit.burstLimit limit.refillRatePerMs now

end RateLimit

end Hammerwork
