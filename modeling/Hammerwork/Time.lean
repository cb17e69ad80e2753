/-
Points in time and spans of time, at the resolution the queue stores.

A `DateTime` is a number of nanoseconds since the Unix epoch. The range
of representable instants is finite; `maxUtc` is its last one, and the
queue also uses it as the schedule of a job that is held (far future).
Arithmetic that may leave the range is the checked one.
-/
import Mathlib.Data.Int.Init

namespace Hammerwork

/-- An instant, in nanoseconds since the Unix epoch. -/
abbrev DateTime := Int

/-- A signed span between two instants, in nanoseconds. -/
abbrev TimeDelta := Int

/-- An unsigned span (a lease, a timeout), in nanoseconds. -/
abbrev Duration := Nat

/-- The last representable instant (262142-12-31T23:59:59.999999999). -/
def maxUtc : DateTime := 8210266876799999999999

/-- The first representable instant (-262143-01-01T00:00:00). -/
def minUtc : DateTime := -8334601228800000000000

/-- The longest signed span, `i64::MAX` milliseconds. -/
def maxTimeDelta : TimeDelta := 9223372036854775807 * 1000000

/-- `t + d`, unless that instant is not representable. -/
def checkedAddSigned (t : DateTime) (d : TimeDelta) : Option DateTime :=
  if minUtc ≤ t + d ∧ t + d ≤ maxUtc then some (t + d) else none

/-- Whole microseconds of a span, rounded towards zero; `none` when they
do not fit an `i64`. -/
def numMicroseconds (d : TimeDelta) : Option Int :=
  let micros := d.tdiv 1000
  if -9223372036854775808 ≤ micros ∧ micros ≤ 9223372036854775807 then some micros else none

/-- A span as a signed one, saturating. -/
def saturatingChronoDuration (duration : Duration) : TimeDelta :=
  if (duration : Int) ≤ maxTimeDelta then duration else maxTimeDelta

/-- `now + duration`, saturating at the last representable instant. -/
def saturatingAddTo (now : DateTime) (duration : Duration) : DateTime :=
  (checkedAddSigned now (saturatingChronoDuration duration)).getD maxUtc

/-- When a lease of `lease` taken at `now` expires: never for a zero
lease. -/
def leaseExpiry (now : DateTime) (lease : Duration) : DateTime :=
  if lease = 0 then maxUtc else saturatingAddTo now lease

end Hammerwork
