/-
The delays of retry strategies.

The Fibonacci helper is the Fibonacci sequence until it no longer fits in
64 bits, and the largest 64-bit number from there on (`fibonacci_eq`).

# Stored strategies

Writing a strategy narrows its durations to 64-bit milliseconds: the
sub-millisecond part is dropped, and so is every multiple of 2⁶⁴
milliseconds. What is read back is the strategy `stored`. Dropping the
former makes a delay shorter by less than a millisecond for each attempt;
dropping the latter makes a delay of half a billion years one of no time
at all. `keepsDelays_iff` says for which strategies that does not show.
-/
import Hammerwork.Retry
import Mathlib.Data.Nat.Fib.Basic
import Std.Data.String.ToNat

namespace Hammerwork

namespace Retry

-- == fibonacci

/-- One round in saturating arithmetic is one in exact arithmetic, then
saturated. -/
theorem min_add_min (a b limit : Nat) :
    min (min a limit + min b limit) limit = min (a + b) limit := by
  omega

theorem fibonacciLoop_eq (n k : Nat) :
    fibonacciLoop n (min (Nat.fib k) u64Max) (min (Nat.fib (k + 1)) u64Max)
      = min (Nat.fib (n + k + 1)) u64Max := by
  induction n generalizing k with
  | zero => rw [fibonacciLoop, Nat.zero_add]
  | succ n ih =>
      rw [fibonacciLoop, min_add_min, ← Nat.fib_add_two, ih (k + 1)]
      rw [show n + (k + 1) + 1 = n + 1 + k + 1 by omega]

/-- The helper is the Fibonacci sequence, saturated at 64 bits. -/
theorem fibonacci_eq (n : Nat) : fibonacci n = min (Nat.fib n) (2 ^ 64 - 1) := by
  unfold fibonacci
  split
  case isTrue hzero =>
    rw [hzero]
    rfl
  case isFalse hzero =>
    split
    case isTrue hsmall =>
      obtain rfl | rfl : n = 1 ∨ n = 2 := by omega
      · rfl
      · rfl
    case isFalse hsmall =>
      have hloop := fibonacciLoop_eq (n - 2) 1
      rw [show n - 2 + 1 + 1 = n by omega] at hloop
      exact hloop

-- == what is stored

variable {floats : Floats} {strategy : RetryStrategy} {base increment : Duration}
  {maxDelay : Option Duration} {n : Nat}

/-- A duration as it is read back. -/
def storedDuration (duration : Duration) : Duration := fromMillis (asMillis duration)

/-- A strategy as it is read back. -/
def stored : RetryStrategy → RetryStrategy
  | .fixed delay => .fixed (storedDuration delay)
  | .linear base increment maxDelay =>
      .linear (storedDuration base) (storedDuration increment) (maxDelay.map storedDuration)
  | .exponential base multiplier maxDelay jitter =>
      .exponential (storedDuration base) multiplier (maxDelay.map storedDuration)
        (jitter.map fun
          | .additive amount => .additive (storedDuration amount)
          | .multiplicative factor => .multiplicative factor)
  | .fibonacci base maxDelay => .fibonacci (storedDuration base) (maxDelay.map storedDuration)
  | .custom delay => .custom delay

/-- The strategy is none of a closure. -/
def Storable : RetryStrategy → Prop
  | .custom _ => False
  | _ => True

/-- Writing a strategy and reading it. -/
def reload (floats : Floats) (strategy : RetryStrategy) : Except SerdeError RetryStrategy := do
  deserialize floats (← serialize floats strategy)

theorem asMillis_lt (duration : Duration) : asMillis duration < 2 ^ 64 :=
  Nat.mod_lt _ (by decide)

theorem readU64_u64Value {millis : Nat} (h : millis < 2 ^ 64) :
    readU64 (u64Value millis) = .ok millis := by
  have htext : (toString millis).toNat? = some millis := Nat.toNat?_repr millis
  have hread : (toString millis).toNat?.filter (· < 2 ^ 64) = some millis := by
    rw [htext, Option.filter_some, if_pos (decide_eq_true h)]
  unfold readU64 u64Value
  dsimp only
  rw [hread]

@[simp] theorem readU64_asMillis (duration : Duration) :
    readU64 (u64Value (asMillis duration)) = .ok (asMillis duration) :=
  readU64_u64Value (asMillis_lt duration)

@[simp] theorem readOption_asMillis (maxDelay : Option Duration) :
    readOption readU64 (optionValue u64Value (maxDelay.map asMillis))
      = .ok (maxDelay.map asMillis) := by
  cases maxDelay with
  | none => rfl
  | some duration =>
      show (readU64 (u64Value (asMillis duration))).map some = _
      rw [readU64_asMillis]
      rfl

theorem readF64_toValue (hfloats : floats.Exact) (bits : UInt64) :
    readF64 floats (floats.toValue bits) = .ok bits := by
  unfold readF64
  rw [hfloats bits]

theorem deserializeJitter_serializeJitter (hfloats : floats.Exact) (jitter : JitterType) :
    deserializeJitter floats (serializeJitter floats jitter)
      = .ok (match jitter with
        | .additive amount => .additive (storedDuration amount)
        | .multiplicative factor => .multiplicative factor) := by
  cases jitter with
  | additive amount =>
      simp [serializeJitter, deserializeJitter, visitJitter, once, readString, required,
        storedDuration]
      rfl
  | multiplicative factor =>
      simp [serializeJitter, deserializeJitter, visitJitter, once, readString, required,
        readF64_toValue hfloats]
      rfl

/-- The object of a strategy is read member by member. -/
theorem reload_object {members : List (String × Json)}
    (h : serialize floats strategy = .ok (.object members)) :
    reload floats strategy = (members.foldlM (visit floats)
      ⟨none, none, none, none, none, none, none⟩).bind ofFields := by
  unfold reload
  rw [h]
  rfl

/-- What is read back of a strategy that can be written. -/
theorem reload_eq (hfloats : floats.Exact) (h : Storable strategy) :
    reload floats strategy = .ok (stored strategy) := by
  cases strategy with
  | fixed delay =>
      rw [reload_object rfl]
      simp [visit, once, readString, ofFields, required, stored, storedDuration, bind, Except.bind,
        Except.map, pure, Except.pure]
  | linear base increment maxDelay =>
      rw [reload_object rfl]
      simp [visit, once, readString, ofFields, required, stored, storedDuration, bind, Except.bind,
        Except.map, pure, Except.pure, Function.comp_def]
      rfl
  | exponential base multiplier maxDelay jitter =>
      have hjitter : readOption (deserializeJitter floats)
            (optionValue (serializeJitter floats) jitter)
          = .ok (jitter.map fun
            | .additive amount => .additive (storedDuration amount)
            | .multiplicative factor => .multiplicative factor) := by
        cases jitter with
        | none => rfl
        | some jitter =>
            have hsome : readOption (deserializeJitter floats) (serializeJitter floats jitter)
                = (deserializeJitter floats (serializeJitter floats jitter)).map some := by
              cases jitter <;> rfl
            show readOption (deserializeJitter floats) (serializeJitter floats jitter) = _
            rw [hsome, deserializeJitter_serializeJitter hfloats]
            rfl
      rw [reload_object rfl]
      simp [visit, once, readString, ofFields, required, stored, storedDuration, bind, Except.bind,
        Except.map, pure, Except.pure, Function.comp_def, readF64_toValue hfloats, hjitter]
      rfl
  | fibonacci base maxDelay =>
      rw [reload_object rfl]
      simp [visit, once, readString, ofFields, required, stored, storedDuration, bind, Except.bind,
        Except.map, pure, Except.pure, Function.comp_def]
      rfl
  | custom delay => exact h.elim

-- == delays

/-- A retry strategy whose durations are whole milliseconds, fewer than
2⁶⁴. -/
def WholeMillis : RetryStrategy → Prop
  | .fixed delay => whole delay
  | .linear base increment maxDelay => whole base ∧ whole increment ∧ ∀ d ∈ maxDelay, whole d
  | .exponential base _ maxDelay jitter => whole base ∧ (∀ d ∈ maxDelay, whole d) ∧
      ∀ j ∈ jitter, match j with
        | .additive amount => whole amount
        | .multiplicative _ => True
  | .fibonacci base maxDelay => whole base ∧ ∀ d ∈ maxDelay, whole d
  | .custom _ => False
where
  whole (duration : Duration) : Prop := ∃ millis < 2 ^ 64, duration = fromMillis millis

/-- The durations are ones the type holds. -/
def Representable : RetryStrategy → Prop
  | .fixed delay => delay ≤ maxDuration
  | .linear base increment maxDelay =>
      base ≤ maxDuration ∧ increment ≤ maxDuration ∧ ∀ d ∈ maxDelay, d ≤ maxDuration
  | .exponential base _ maxDelay jitter => base ≤ maxDuration ∧ (∀ d ∈ maxDelay, d ≤ maxDuration) ∧
      ∀ j ∈ jitter, match j with
        | .additive amount => amount ≤ maxDuration
        | .multiplicative _ => True
  | .fibonacci base maxDelay => base ≤ maxDuration ∧ ∀ d ∈ maxDelay, d ≤ maxDuration
  | .custom _ => True

/-- The strategies whose delays are computed in durations alone. -/
def IsPlain : RetryStrategy → Prop
  | .fixed _ | .linear .. => True
  | _ => False

/-- `later` is `delay` but for less than a millisecond for each of the
`n` attempts (one at least), or both are longer than 64-bit milliseconds
can say. -/
def CloseTo (n : Nat) (delay later : Duration) : Prop :=
  (later ≤ delay ∧ delay - later < fromMillis (max 1 n)) ∨
    (fromMillis u64Max < delay ∧ fromMillis u64Max ≤ later)

/-- A stored strategy keeps its delays: one of whole milliseconds is read
back as it was, and a plain one is read back with delays close to its
own, before every attempt. -/
structure KeepsDelays (floats : Floats) (strategy : RetryStrategy) : Prop where
  whole : WholeMillis strategy → reload floats strategy = .ok strategy
  close : IsPlain strategy → ∃ later, reload floats strategy = .ok later ∧ ∀ n < 2 ^ 32,
    CloseTo n (calculateDelay floats strategy n) (calculateDelay floats later n)

theorem storedDuration_whole {duration : Duration} (h : WholeMillis.whole duration) :
    storedDuration duration = duration := by
  obtain ⟨millis, hlt, rfl⟩ := h
  unfold storedDuration asMillis fromMillis
  rw [Nat.mul_div_cancel _ (by decide), Nat.mod_eq_of_lt hlt]

theorem map_storedDuration_whole (h : ∀ d ∈ maxDelay, WholeMillis.whole d) :
    maxDelay.map storedDuration = maxDelay := by
  cases maxDelay with
  | none => rfl
  | some d => exact congrArg some (storedDuration_whole (h d rfl))

/-- A strategy of whole milliseconds is read back as it was. -/
theorem stored_whole (h : WholeMillis strategy) : stored strategy = strategy := by
  cases strategy with
  | fixed delay => exact congrArg _ (storedDuration_whole h)
  | linear base increment maxDelay =>
      obtain ⟨hbase, hincrement, hmax⟩ := h
      rw [stored, storedDuration_whole hbase, storedDuration_whole hincrement,
        map_storedDuration_whole hmax]
  | exponential base multiplier maxDelay jitter =>
      obtain ⟨hbase, hmax, hjitter⟩ := h
      rw [stored, storedDuration_whole hbase, map_storedDuration_whole hmax]
      refine congrArg _ ?_
      cases jitter with
      | none => rfl
      | some jitter =>
          cases jitter with
          | additive amount =>
              exact congrArg (some ∘ JitterType.additive) (storedDuration_whole (hjitter _ rfl))
          | multiplicative factor => rfl
  | fibonacci base maxDelay =>
      rw [stored, storedDuration_whole h.1, map_storedDuration_whole h.2]
  | custom delay => rfl

theorem WholeMillis.storable (h : WholeMillis strategy) : Storable strategy := by
  cases strategy with
  | custom delay => exact h
  | _ => trivial

theorem IsPlain.storable (h : IsPlain strategy) : Storable strategy := by
  cases strategy with
  | custom delay => exact h
  | _ => trivial

/-- Whether a plain strategy keeps its delays is a matter of the delays
of what is read back. -/
theorem keepsDelays_iff_close (hfloats : floats.Exact) :
    KeepsDelays floats strategy ↔ (IsPlain strategy → ∀ n < 2 ^ 32,
      CloseTo n (calculateDelay floats strategy n)
        (calculateDelay floats (stored strategy) n)) := by
  constructor
  · intro h hplain
    obtain ⟨later, hreload, hclose⟩ := h.close hplain
    rw [reload_eq hfloats hplain.storable] at hreload
    obtain rfl := Except.ok.inj hreload
    exact hclose
  · intro h
    refine ⟨fun hwhole => ?_, fun hplain => ⟨_, reload_eq hfloats hplain.storable, h hplain⟩⟩
    rw [reload_eq hfloats hwhole.storable, stored_whole hwhole]

-- == linear delays

variable {base increment cap base' increment' cap' last k delay later : Nat}

/-- The whole milliseconds of a duration. -/
def millis (duration : Nat) : Nat := duration / 1000000

/-- A duration as it is read back, in nanoseconds. -/
def narrowed (duration : Nat) : Nat := asMillis duration * 1000000

/-- The cap `cap` is stored as `cap'`. No cap is one no delay exceeds, and
stays it. -/
def StoredCap (cap cap' : Nat) : Prop :=
  cap' = narrowed cap ∨ (cap = 2 ^ 64 * 1000000000 - 1 ∧ cap' = 2 ^ 64 * 1000000000 - 1)

/-- The delay of a linear strategy `k` retries after the first. -/
def linearDelay (base increment cap k : Nat) : Nat :=
  max (min (base + increment * k) cap) 1000000

/-- `later` is close to `delay`, for one that is not longer. -/
def Near (k delay later : Nat) : Prop :=
  delay < later + (k + 1) * 1000000 ∨ u64Max * 1000000 ≤ later

/-- Up to the `last` retry the delays of a linear strategy stay close to
what they were. -/
def KeepsLinear (last base increment cap base' increment' cap' : Nat) : Prop :=
  ∀ k ≤ last, Near k (linearDelay base increment cap k) (linearDelay base' increment' cap' k)

theorem closeTo_iff_near (h : later ≤ delay) :
    CloseTo n delay later ↔ Near (n - 1) delay later := by
  dsimp only [CloseTo, Near, fromMillis, u64Max, Duration]
  omega

theorem narrowed_le (duration : Nat) : narrowed duration ≤ duration := by
  unfold narrowed asMillis
  omega

theorem StoredCap.le (h : StoredCap cap cap') : cap' ≤ cap := by
  obtain rfl | ⟨rfl, rfl⟩ := h
  · exact narrowed_le cap
  · exact Nat.le_refl _

theorem linearDelay_mono (hbase : base' ≤ base) (hincrement : increment' ≤ increment)
    (hcap : cap' ≤ cap) :
    linearDelay base' increment' cap' k ≤ linearDelay base increment cap k := by
  have hsteps : increment' * k ≤ increment * k := Nat.mul_le_mul_right k hincrement
  unfold linearDelay
  omega

/-- A base that is cut goes unnoticed below a short cap that it still
reaches. -/
theorem keepsLinear_base_short (hbase' : base' = narrowed base) (hcap : StoredCap cap cap')
    (hbase : 2 ^ 64 ≤ millis base) (hshort : millis cap < 2 ^ 64) :
    KeepsLinear last base increment cap base' increment' cap'
      ↔ millis cap ≤ max 1 (asMillis base) := by
  unfold KeepsLinear Near linearDelay
  unfold StoredCap narrowed millis asMillis u64Max at *
  constructor
  · intro h
    have hfirst := h 0 (Nat.zero_le last)
    omega
  · intro h k _
    generalize increment * k = steps
    generalize increment' * k = steps'
    omega

/-- One that is cut goes unnoticed without a short cap if it, and the cap,
are cut to the largest number. -/
theorem keepsLinear_base_long (hbase' : base' = narrowed base) (hcap : StoredCap cap cap')
    (hbase : 2 ^ 64 ≤ millis base) (hlong : 2 ^ 64 ≤ millis cap) :
    KeepsLinear last base increment cap base' increment' cap'
      ↔ asMillis base = u64Max ∧ asMillis cap = u64Max := by
  unfold KeepsLinear Near linearDelay
  unfold StoredCap narrowed millis asMillis u64Max at *
  constructor
  · intro h
    have hfirst := h 0 (Nat.zero_le last)
    omega
  · intro h k _
    generalize increment * k = steps
    generalize increment' * k = steps'
    omega

/-- The second retry decides for an increment that is cut. -/
theorem keepsLinear_increment_short (hlast : 1 ≤ last) (hbase' : base' = narrowed base)
    (hincrement' : increment' = narrowed increment) (hcap : StoredCap cap cap')
    (hbase : millis base < 2 ^ 64) (hincrement : 2 ^ 64 ≤ millis increment)
    (hshort : millis cap < 2 ^ 64) :
    KeepsLinear last base increment cap base' increment' cap'
      ↔ millis cap ≤ 1 + max 1 (millis base + asMillis increment) := by
  unfold KeepsLinear Near linearDelay
  unfold StoredCap narrowed millis asMillis u64Max at *
  constructor
  · intro h
    have hsecond := h 1 hlast
    omega
  · intro h k _
    by_cases hk : k = 0
    · subst hk
      omega
    · have hsteps := Nat.le_mul_of_pos_right increment' (Nat.pos_of_ne_zero hk)
      generalize increment * k = steps
      generalize increment' * k = steps' at hsteps ⊢
      omega

theorem keepsLinear_increment_long (hlast : 1 ≤ last) (hbase' : base' = narrowed base)
    (hincrement' : increment' = narrowed increment) (hcap : StoredCap cap cap')
    (hbase : millis base < 2 ^ 64) (hincrement : 2 ^ 64 ≤ millis increment)
    (hlong : 2 ^ 64 ≤ millis cap) :
    KeepsLinear last base increment cap base' increment' cap'
      ↔ u64Max ≤ millis base + asMillis increment ∧ asMillis cap = u64Max := by
  unfold KeepsLinear Near linearDelay
  unfold StoredCap narrowed millis asMillis u64Max at *
  constructor
  · intro h
    have hsecond := h 1 hlast
    omega
  · intro h k _
    by_cases hk : k = 0
    · subst hk
      omega
    · have hsteps := Nat.le_mul_of_pos_right increment' (Nat.pos_of_ne_zero hk)
      generalize increment * k = steps
      generalize increment' * k = steps' at hsteps ⊢
      omega

/-- `k` increments that are not cut lose less than a millisecond each. -/
theorem increments_close (hincrement' : increment' = narrowed increment)
    (hincrement : millis increment < 2 ^ 64) (k : Nat) :
    increment' * k ≤ increment * k ∧ increment * k ≤ increment' * k + 999999 * k := by
  unfold narrowed millis asMillis at *
  have hle : increment' ≤ increment := by omega
  have hge : increment ≤ increment' + 999999 := by omega
  refine ⟨Nat.mul_le_mul_right k hle, ?_⟩
  calc increment * k ≤ (increment' + 999999) * k := Nat.mul_le_mul_right k hge
    _ = increment' * k + 999999 * k := Nat.add_mul ..

/-- Nothing is cut. -/
theorem keepsLinear_short (hbase' : base' = narrowed base)
    (hincrement' : increment' = narrowed increment) (hcap : StoredCap cap cap')
    (hbase : millis base < 2 ^ 64) (hincrement : millis increment < 2 ^ 64)
    (hshort : millis cap < 2 ^ 64) :
    KeepsLinear last base increment cap base' increment' cap' := by
  intro k _
  obtain ⟨hle, hge⟩ := increments_close hincrement' hincrement k
  unfold Near linearDelay
  unfold StoredCap narrowed millis asMillis u64Max at *
  generalize increment * k = steps at hle hge ⊢
  generalize increment' * k = steps' at hle hge ⊢
  omega

/-- A delay that grows by more than a millisecond each time is furthest
above one that grows by a millisecond the last time, and any other is so
the first time. -/
theorem line_below {limit : Nat} (hk : k ≤ last) (hfirst : millis base ≤ limit)
    (hlast : base + increment * last < (limit + (last + 1)) * 1000000) :
    base + increment * k < (limit + (k + 1)) * 1000000 := by
  unfold millis at hfirst
  by_cases hsteep : increment ≤ 1000000
  · have hsteps := Nat.mul_le_mul_right k hsteep
    generalize increment * k = steps at hsteps ⊢
    omega
  · obtain ⟨rest, rfl⟩ : ∃ rest, last = k + rest := Nat.exists_eq_add_of_le hk
    have hrest := Nat.mul_le_mul_right rest (Nat.le_of_not_le hsteep)
    rw [Nat.mul_add] at hlast
    generalize increment * k = steps at hlast ⊢
    generalize increment * rest = steps' at hrest hlast
    omega

/-- A cap that is cut goes unnoticed if the delays stay below it, and so
does one cut to the largest number. -/
theorem keepsLinear_long (hlast : last < 2 ^ 32) (hbase' : base' = narrowed base)
    (hincrement' : increment' = narrowed increment) (hcap : StoredCap cap cap')
    (hbase : millis base < 2 ^ 64) (hincrement : millis increment < 2 ^ 64)
    (hlong : 2 ^ 64 ≤ millis cap) :
    KeepsLinear last base increment cap base' increment' cap' ↔ asMillis cap = u64Max ∨
      (millis base ≤ max 1 (asMillis cap) ∧
        base + increment * last < (max 1 (asMillis cap) + (last + 1)) * 1000000) := by
  constructor
  · intro h
    have hfirst := h 0 (Nat.zero_le last)
    have hend := h last (Nat.le_refl last)
    unfold Near linearDelay at hfirst hend
    unfold StoredCap narrowed millis asMillis u64Max at *
    generalize increment * last = steps at hend ⊢
    generalize increment' * last = steps' at hend
    omega
  · intro h k hk
    have hline : asMillis cap = u64Max ∨
        base + increment * k < (max 1 (asMillis cap) + (k + 1)) * 1000000 :=
      h.imp_right fun ⟨hfirst, hend⟩ => line_below hk hfirst hend
    obtain ⟨hle, hge⟩ := increments_close hincrement' hincrement k
    unfold Near linearDelay
    unfold StoredCap narrowed millis asMillis u64Max at *
    generalize increment * k = steps at hle hge hline ⊢
    generalize increment' * k = steps' at hle hge ⊢
    omega

/-- When the delays of a linear strategy, capped at `cap`, stay what they
were: what is cut is hidden by a cap that was not, or was cut to the
largest number, or is a cap the delays up to the `last` retry do not
reach. -/
def KeptLinear (last base increment cap : Nat) : Prop :=
  if 2 ^ 64 ≤ millis base then
    if 2 ^ 64 ≤ millis cap then asMillis base = u64Max ∧ asMillis cap = u64Max
    else millis cap ≤ max 1 (asMillis base)
  else if 2 ^ 64 ≤ millis increment then
    if 2 ^ 64 ≤ millis cap then
      u64Max ≤ millis base + asMillis increment ∧ asMillis cap = u64Max
    else millis cap ≤ 1 + max 1 (millis base + asMillis increment)
  else if 2 ^ 64 ≤ millis cap then
    asMillis cap = u64Max ∨ (millis base ≤ max 1 (asMillis cap) ∧
      base + increment * last < (max 1 (asMillis cap) + (last + 1)) * 1000000)
  else True

theorem keepsLinear_iff (hfirst : 1 ≤ last) (hlast : last < 2 ^ 32)
    (hbase' : base' = narrowed base) (hincrement' : increment' = narrowed increment)
    (hcap : StoredCap cap cap') :
    KeepsLinear last base increment cap base' increment' cap'
      ↔ KeptLinear last base increment cap := by
  unfold KeptLinear
  split
  case isTrue hbase =>
    split
    case isTrue hlong => exact keepsLinear_base_long hbase' hcap hbase hlong
    case isFalse hshort =>
      exact keepsLinear_base_short hbase' hcap hbase (Nat.lt_of_not_le hshort)
  case isFalse hbase =>
    replace hbase := Nat.lt_of_not_le hbase
    split
    case isTrue hincrement =>
      split
      case isTrue hlong =>
        exact keepsLinear_increment_long hfirst hbase' hincrement' hcap hbase hincrement hlong
      case isFalse hshort =>
        exact keepsLinear_increment_short hfirst hbase' hincrement' hcap hbase hincrement
          (Nat.lt_of_not_le hshort)
    case isFalse hincrement =>
      replace hincrement := Nat.lt_of_not_le hincrement
      split
      case isTrue hlong =>
        exact keepsLinear_long hlast hbase' hincrement' hcap hbase hincrement hlong
      case isFalse hshort =>
        exact iff_of_true (keepsLinear_short hbase' hincrement' hcap hbase hincrement
          (Nat.lt_of_not_le hshort)) trivial

-- == kept delays

/-- The last retry an attempt number counts. -/
def lastRetry : Nat := 2 ^ 32 - 2

/-- The strategies that keep their delays when they are stored. A fixed
delay is one of less than 2⁶⁴ milliseconds, or is cut to the largest
number. -/
def Kept : RetryStrategy → Prop
  | .fixed delay => millis delay < 2 ^ 64 ∨ asMillis delay = u64Max
  | .linear base increment maxDelay =>
      KeptLinear lastRetry base increment (maxDelay.getD maxDuration)
  | _ => True

theorem storedCap_getD (maxDelay : Option Duration) :
    StoredCap (maxDelay.getD maxDuration) ((maxDelay.map storedDuration).getD maxDuration) := by
  cases maxDelay with
  | none => exact .inr ⟨rfl, rfl⟩
  | some cap => exact .inl rfl

/-- The saturating arithmetic of a linear strategy, without saturation:
what is longer than any duration is capped. -/
theorem calculateDelay_linear (hmax : ∀ d ∈ maxDelay, d ≤ maxDuration) (n : Nat) :
    calculateDelay floats (.linear base increment maxDelay) n
      = linearDelay base increment (maxDelay.getD maxDuration) (n - 1) := by
  have hstep : saturatingAdd base ((checkedMul increment (n - 1)).getD maxDuration)
      = min (base + increment * (n - 1)) maxDuration := by
    unfold checkedMul
    generalize increment * (n - 1) = steps
    split
    case isTrue _ => rfl
    case isFalse hlong =>
      dsimp only [saturatingAdd, Option.getD, Duration] at *
      omega
  unfold calculateDelay
  dsimp only
  rw [hstep]
  cases maxDelay with
  | none => rfl
  | some cap =>
      have hcap := hmax cap rfl
      dsimp only [capDelay, linearDelay, Option.getD, fromMillis, Duration] at *
      omega

theorem maxDelay_stored_le (maxDelay : Option Duration) :
    (∀ d ∈ maxDelay, d ≤ maxDuration) → ∀ d ∈ maxDelay.map storedDuration, d ≤ maxDuration := by
  intro hmax d hd
  obtain ⟨cap, hcap, rfl⟩ := Option.mem_map.1 hd
  exact Nat.le_trans (narrowed_le cap) (hmax cap hcap)

theorem closeTo_fixed_iff {delay : Nat} :
    (∀ n < 2 ^ 32, CloseTo n (calculateDelay floats (.fixed delay) n)
      (calculateDelay floats (.fixed (storedDuration delay)) n)) ↔ Kept (.fixed delay) := by
  have hnear (n : Nat) : CloseTo n (calculateDelay floats (.fixed delay) n)
      (calculateDelay floats (.fixed (storedDuration delay)) n)
      ↔ Near (n - 1) (max delay 1000000) (max (narrowed delay) 1000000) := by
    refine closeTo_iff_near (Nat.max_le.2 ⟨?_, Nat.le_max_right ..⟩)
    exact Nat.le_trans (narrowed_le delay) (Nat.le_max_left ..)
  simp only [hnear]
  unfold Kept Near narrowed millis asMillis u64Max
  constructor
  · intro h
    have hfirst := h 0 (by decide)
    omega
  · intro h n _
    omega

theorem closeTo_linear_iff {base increment : Nat} (hmax : ∀ d ∈ maxDelay, d ≤ maxDuration) :
    (∀ n < 2 ^ 32, CloseTo n (calculateDelay floats (.linear base increment maxDelay) n)
      (calculateDelay floats (stored (.linear base increment maxDelay)) n))
      ↔ Kept (.linear base increment maxDelay) := by
  have hcap := storedCap_getD maxDelay
  have hnear (n : Nat) : CloseTo n (calculateDelay floats (.linear base increment maxDelay) n)
      (calculateDelay floats (stored (.linear base increment maxDelay)) n)
      ↔ Near (n - 1) (linearDelay base increment (maxDelay.getD maxDuration) (n - 1))
        (linearDelay (narrowed base) (narrowed increment)
          ((maxDelay.map storedDuration).getD maxDuration) (n - 1)) := by
    rw [stored, calculateDelay_linear hmax, calculateDelay_linear (maxDelay_stored_le _ hmax)]
    exact closeTo_iff_near (linearDelay_mono (narrowed_le base) (narrowed_le increment) hcap.le)
  have hlast : lastRetry + 2 = 2 ^ 32 := by decide
  unfold Kept
  dsimp only
  rw [← keepsLinear_iff (by omega) (by omega) rfl rfl hcap]
  simp only [hnear]
  constructor
  · intro h k hk
    have hattempt := h (k + 1) (by omega)
    rwa [Nat.add_sub_cancel] at hattempt
  · intro h n hn
    exact h (n - 1) (by omega)

/-- A stored strategy keeps its delays if, and only if, it is of the kind
that the narrowing of its durations does not show in. -/
theorem keepsDelays_iff (hfloats : floats.Exact) (h : Representable strategy) :
    KeepsDelays floats strategy ↔ Kept strategy := by
  rw [keepsDelays_iff_close hfloats]
  cases strategy with
  | fixed delay =>
      refine Iff.trans ?_ (@closeTo_fixed_iff floats delay)
      exact ⟨fun h => h trivial, fun h _ => h⟩
  | linear base increment maxDelay =>
      refine Iff.trans ?_ (@closeTo_linear_iff floats maxDelay base increment h.2.2)
      exact ⟨fun h => h trivial, fun h _ => h⟩
  | exponential base multiplier maxDelay jitter => exact ⟨fun _ => trivial, fun _ h => h.elim⟩
  | fibonacci base maxDelay => exact ⟨fun _ => trivial, fun _ h => h.elim⟩
  | custom delay => exact ⟨fun _ => trivial, fun _ h => h.elim⟩

/-- Floating-point numbers that are whole, as their bits. -/
def Floats.whole : Floats where
  toValue bits := u64Value bits.toNat
  fromValue
    | .number text => text.toNat?.map UInt64.ofNat
    | _ => none
  sanitizeMultiplier := id
  powi multiplier exponent := multiplier ^ exponent
  ofNat := UInt64.ofNat
  saturatingMul delay multiplier := min (delay * multiplier.toNat) maxDuration
  applyJitter _ delay := delay

theorem Floats.whole_exact : Floats.whole.Exact := by
  intro bits
  have htext : (toString bits.toNat).toNat? = some bits.toNat := Nat.toNat?_repr _
  show (toString bits.toNat).toNat?.map UInt64.ofNat = some bits
  rw [htext]
  exact congrArg some UInt64.ofNat_toNat

/-- Five seconds, and ten more each time, up to two minutes. -/
theorem keepsDelays_linear : KeepsDelays .whole
    (.linear (fromMillis 5000) (fromMillis 10000) (some (fromMillis 120000))) := by
  have hrepresentable : Representable
      (.linear (fromMillis 5000) (fromMillis 10000) (some (fromMillis 120000))) := by
    refine ⟨by decide, by decide, ?_⟩
    rintro d ⟨⟩
    decide
  refine (keepsDelays_iff Floats.whole_exact hrepresentable).2 ?_
  simp [Kept, KeptLinear, millis, fromMillis]

/-- A fixed delay of 2⁶⁴ milliseconds is read back as none, and the retry
waits for a millisecond. -/
theorem not_keepsDelays_fixed :
    ¬ ∃ floats : Floats, floats.Exact ∧ KeepsDelays floats (.fixed (fromMillis (2 ^ 64))) := by
  rintro ⟨floats, hfloats, h⟩
  have hkept := closeTo_fixed_iff.1 ((keepsDelays_iff_close hfloats).1 h trivial)
  revert hkept
  show ¬ (millis (fromMillis (2 ^ 64)) < 2 ^ 64 ∨ asMillis (fromMillis (2 ^ 64)) = u64Max)
  decide

end Retry

end Hammerwork
