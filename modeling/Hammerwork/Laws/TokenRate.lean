/-
What a token bucket lets through, over any run of calls.

The potential of a run is the tokens in the bucket plus those spent in the
window: a call only moves tokens from one to the other (`apply_potential`),
and time adds what the rate allows. So the tokens spent in a window are at
most the capacity and what refills during it (`potential_le`).

A wait for a token is long enough unless it saturates: it is so in every state
exactly if, in every state, the longest wait refills what a token lacks.
-/
import Hammerwork.RateLimit
import Hammerwork.Lib.Run

namespace Hammerwork

namespace TokenBucket

-- == statements

inductive Call where
  | tryConsume
  | refund
  | availableTokens
  | timeUntilToken
  deriving DecidableEq, Repr

structure Event where
  now : Instant
  call : Call
  deriving DecidableEq, Repr

/-- The bucket after a call for one token. -/
def Event.apply (bucket : TokenBucket) (e : Event) : TokenBucket :=
  match e.call with
  | .tryConsume => (bucket.tryConsume e.now 1).2
  | .refund => bucket.refund e.now 1
  | .availableTokens => (bucket.availableTokens e.now).2
  | .timeUntilToken => (bucket.timeUntilToken e.now).2

def Step (bucket : TokenBucket) (e : Event) (bucket' : TokenBucket) : Prop :=
  bucket' = e.apply bucket

/-- A call took a token. -/
def consumes (bucket : TokenBucket) (e : Event) : Bool :=
  e.call = .tryConsume ∧ (bucket.tryConsume e.now 1).1

/-- A call gave a token back. -/
def refunds (_ : TokenBucket) (e : Event) : Bool := e.call = .refund

/-- A call is in the window of length `d` from `start`. -/
def Event.within (e : Event) (start : Instant) (d : Duration) : Prop :=
  start ≤ e.now ∧ e.now ≤ start + d

instance (e : Event) (start : Instant) (d : Duration) : Decidable (e.within start d) :=
  inferInstanceAs (Decidable (_ ∧ _))

/-- Of the first `k` calls, those in a window: the successful consumes minus
the refunds. -/
def spent {n : Nat} (r : Run Step n) (start : Instant) (d : Duration) (k : Nat) : Int :=
  r.count (fun bucket e => e.within start d ∧ consumes bucket e) 0 k
    - r.count (fun bucket e => e.within start d ∧ refunds bucket e) 0 k

/-- What is expected of a bucket. -/
structure Enforces (capacity rate : ℚ) {n : Nat} (r : Run Step n) : Prop where
  tokens : ∀ i ≤ n, 0 ≤ (r.state i).tokens ∧ (r.state i).tokens ≤ capacity
  /-- Also of the calls up to any point within the window. -/
  window : ∀ start d, ∀ k ≤ n, spent r start d k ≤ capacity + rate * (d / 1000000)
  /-- At any time after a call, waiting as long as the bucket says is enough. -/
  waits : ∀ i ≤ n, ∀ now later wait bucket, (r.state i).lastRefill ≤ now →
    (r.state i).timeUntilToken now = (wait, bucket) → now + wait ≤ later →
      (bucket.tryConsume later 1).1

-- == one call

section Call

variable {bucket : TokenBucket} {now : Instant} {e : Event}

theorem elapsedMs_nonneg (since now : Instant) : 0 ≤ elapsedMs since now := by
  rw [elapsedMs]
  exact div_nonneg (Nat.cast_nonneg _) (by norm_num)

theorem elapsedMs_of_le {since now : Instant} (h : since ≤ now) :
    elapsedMs since now = (now - since) / 1000000 := by
  have hspan : (((now - since).toNat : Int) : ℚ) = ((now - since : Int) : ℚ) := by
    rw [Int.toNat_of_nonneg (sub_nonneg.2 h)]
  rw [elapsedMs, ← Int.cast_natCast, hspan]
  push_cast
  rfl

/-- No more tokens than fit, and at least none. -/
structure Valid (bucket : TokenBucket) : Prop where
  capacity : 1 ≤ bucket.capacity
  refillRate : 0 < bucket.refillRate
  nonneg : 0 ≤ bucket.tokens
  le_capacity : bucket.tokens ≤ bucket.capacity

theorem Valid.refill (h : bucket.Valid) (now : Instant) : (bucket.refill now).Valid := by
  have hadd := mul_nonneg (le_of_lt h.refillRate) (elapsedMs_nonneg bucket.lastRefill now)
  have hcapacity := h.capacity
  have hnonneg := h.nonneg
  exact ⟨h.capacity, h.refillRate, le_min (by linarith) (by linarith), min_le_right _ _⟩

/-- What a call leaves as it is, and that it is then up to date. -/
structure Kept (bucket : TokenBucket) (now : Instant) (bucket' : TokenBucket) : Prop where
  capacity : bucket'.capacity = bucket.capacity
  refillRate : bucket'.refillRate = bucket.refillRate
  lastRefill : bucket'.lastRefill = now

theorem apply_kept (bucket : TokenBucket) (e : Event) : Kept bucket e.now (e.apply bucket) := by
  unfold Event.apply
  cases e.call with
  | tryConsume =>
      simp only [TokenBucket.tryConsume]
      split
      case isTrue => exact ⟨rfl, rfl, rfl⟩
      case isFalse => exact ⟨rfl, rfl, rfl⟩
  | refund => exact ⟨rfl, rfl, rfl⟩
  | availableTokens => exact ⟨rfl, rfl, rfl⟩
  | timeUntilToken =>
      simp only [TokenBucket.timeUntilToken]
      split
      case isTrue => exact ⟨rfl, rfl, rfl⟩
      case isFalse => exact ⟨rfl, rfl, rfl⟩

theorem Valid.apply (h : bucket.Valid) (e : Event) : (e.apply bucket).Valid := by
  have hrefill := h.refill e.now
  unfold Event.apply
  cases e.call with
  | tryConsume =>
      simp only [TokenBucket.tryConsume]
      split
      case isTrue hle =>
        have hcap := hrefill.le_capacity
        exact ⟨hrefill.capacity, hrefill.refillRate, sub_nonneg.2 hle, by simp only; linarith⟩
      case isFalse => exact hrefill
  | refund =>
      have hnonneg := hrefill.nonneg
      have hcapacity := hrefill.capacity
      exact ⟨hrefill.capacity, hrefill.refillRate, le_min (by linarith) (by linarith),
        min_le_right _ _⟩
  | availableTokens => exact hrefill
  | timeUntilToken =>
      simp only [TokenBucket.timeUntilToken]
      split
      case isTrue => exact hrefill
      case isFalse => exact hrefill

/-- What a call spends. -/
def net (bucket : TokenBucket) (e : Event) : Int :=
  (if consumes bucket e then 1 else 0) - (if refunds bucket e then 1 else 0)

/-- A call moves tokens between the bucket and what is spent; a refund beyond
the capacity is lost. -/
theorem apply_potential (bucket : TokenBucket) (e : Event) :
    (e.apply bucket).tokens + net bucket e ≤ (bucket.refill e.now).tokens := by
  unfold Event.apply net consumes refunds
  cases hcall : e.call with
  | tryConsume =>
      simp only [TokenBucket.tryConsume]
      split
      case isTrue => simp
      case isFalse => simp
  | refund =>
      have hmin := min_le_left ((bucket.refill e.now).tokens + 1) bucket.capacity
      simp only [TokenBucket.refund]
      simp
  | availableTokens => simp [TokenBucket.availableTokens]
  | timeUntilToken =>
      simp only [TokenBucket.timeUntilToken]
      split
      case isTrue => simp
      case isFalse => simp

/-- Time adds tokens at the rate. -/
theorem refill_le (h : bucket.lastRefill ≤ now) :
    (bucket.refill now).tokens
      ≤ bucket.tokens + bucket.refillRate * ((now - bucket.lastRefill) / 1000000) := by
  rw [← elapsedMs_of_le h]
  exact min_le_left _ _

end Call

-- == waits

section Waits

variable {bucket : TokenBucket} {now later : Instant}

theorem elapsedMs_self (now : Instant) : elapsedMs now now = 0 := by
  simp [elapsedMs]

theorem elapsedMs_mono {since : Instant} (h : now ≤ later) :
    elapsedMs since now ≤ elapsedMs since later := by
  have hspan : (now - since).toNat ≤ (later - since).toNat :=
    Int.toNat_le_toNat (sub_le_sub_right h since)
  exact div_le_div_of_nonneg_right (Nat.cast_le.2 hspan) (by norm_num)

theorem elapsedMs_wait (now : Instant) (ms : Nat) :
    elapsedMs now (now + (ms * 1000000 : Nat)) = ms := by
  rw [elapsedMs, add_sub_cancel_left, Int.toNat_natCast]
  push_cast
  rw [mul_div_assoc, div_self (by norm_num), mul_one]

theorem refill_self (h : bucket.Valid) : bucket.refill bucket.lastRefill = bucket := by
  rw [TokenBucket.refill, elapsedMs_self, mul_zero, add_zero, min_eq_left h.le_capacity]

theorem tryConsume_granted (bucket : TokenBucket) (now : Instant) :
    (bucket.tryConsume now 1).1 ↔ 1 ≤ (bucket.refill now).tokens := by
  rw [TokenBucket.tryConsume]
  split
  case isTrue h => simpa using h
  case isFalse h => simpa using h

/-- There is a token once as many have been refilled as were lacking. -/
theorem refill_token (h : bucket.Valid) {ms : ℚ} (hms : ms ≤ elapsedMs bucket.lastRefill now)
    (htoken : 1 ≤ bucket.tokens + bucket.refillRate * ms) : 1 ≤ (bucket.refill now).tokens := by
  have hadd := mul_le_mul_of_nonneg_left hms (le_of_lt h.refillRate)
  exact le_min (by linarith) h.capacity

/-- The longest wait refills what a token lacks. -/
def Suffices (bucket : TokenBucket) : Prop := 1 ≤ bucket.tokens + bucket.refillRate * u64Max

/-- A wait is long enough exactly if it does not have to be longer than the
longest there is. -/
theorem waits_iff (h : bucket.Valid) :
    (∀ now later wait bucket', bucket.lastRefill ≤ now →
      bucket.timeUntilToken now = (wait, bucket') → now + wait ≤ later →
        (bucket'.tryConsume later 1).1) ↔ bucket.Suffices := by
  have hmax := mul_nonneg (le_of_lt h.refillRate) (Nat.cast_nonneg u64Max : (0 : ℚ) ≤ u64Max)
  constructor
  · intro hwaits
    by_cases htoken : 1 ≤ bucket.tokens
    · rw [Suffices]
      linarith
    · have huntil : bucket.timeUntilToken bucket.lastRefill
          = (min ⌈(1 - bucket.tokens) / bucket.refillRate⌉₊ u64Max * 1000000, bucket) := by
        rw [TokenBucket.timeUntilToken, refill_self h]
        exact if_neg htoken
      have hgranted := hwaits _ _ _ _ (le_refl _) huntil (le_refl _)
      rw [tryConsume_granted] at hgranted
      have hrefill := le_trans hgranted (min_le_left _ _)
      rw [elapsedMs_wait] at hrefill
      have hshort : ((min ⌈(1 - bucket.tokens) / bucket.refillRate⌉₊ u64Max : Nat) : ℚ)
          ≤ u64Max := Nat.cast_le.2 (Nat.min_le_right _ _)
      have hadd := mul_le_mul_of_nonneg_left hshort (le_of_lt h.refillRate)
      exact le_trans hrefill (by linarith)
  · intro hsuffices now later wait bucket' hnow huntil hlater
    rw [tryConsume_granted]
    have hvalid := h.refill now
    have hmore : bucket.tokens ≤ (bucket.refill now).tokens := by
      have hadd := mul_nonneg (le_of_lt h.refillRate) (elapsedMs_nonneg bucket.lastRefill now)
      exact le_min (by linarith) h.le_capacity
    simp only [TokenBucket.timeUntilToken] at huntil
    split at huntil
    case isTrue htoken =>
      cases huntil
      have hnone := elapsedMs_nonneg now later
      exact refill_token hvalid hnone (by simpa using htoken)
    case isFalse htoken =>
      cases huntil
      have hwaited := le_trans (le_of_eq (elapsedMs_wait now _).symm) (elapsedMs_mono hlater)
      refine refill_token hvalid hwaited ?_
      have hrate : (bucket.refill now).refillRate = bucket.refillRate := rfl
      rw [hrate]
      -- either what is lacking is refilled, or the longest wait is over
      rcases Nat.le_total ⌈(1 - (bucket.refill now).tokens) / bucket.refillRate⌉₊ u64Max
        with hle | hle
      · rw [min_eq_left hle]
        have hceil := Nat.le_ceil ((1 - (bucket.refill now).tokens) / bucket.refillRate)
        rw [div_le_iff₀' h.refillRate] at hceil
        linarith
      · rw [min_eq_right hle]
        rw [Suffices] at hsuffices
        linarith

end Waits

-- == runs

section Runs

variable {capacity rate : ℚ} {begin : Instant} {n : Nat} {r : Run Step n} {i k : Nat}

theorem new_valid (hcapacity : 1 ≤ capacity) (hrate : 0 < rate) :
    (new capacity rate begin).Valid :=
  ⟨hcapacity, hrate, le_trans zero_le_one hcapacity, le_refl _⟩

theorem state_kept (r : Run Step n) (hi : i < n) :
    Kept (r.state i) (r.event i).now (r.state (i + 1)) := by
  rw [r.next i hi]
  exact apply_kept _ _

/-- Every state of a run of a new bucket. -/
structure Runs (capacity rate : ℚ) (bucket : TokenBucket) : Prop where
  valid : bucket.Valid
  capacity : bucket.capacity = capacity
  refillRate : bucket.refillRate = rate

theorem state_runs (r : Run Step n) (h0 : r.state 0 = .new capacity rate begin)
    (hcapacity : 1 ≤ capacity) (hrate : 0 < rate) :
    ∀ i ≤ n, Runs capacity rate (r.state i) := by
  refine r.invariant ?_ fun bucket e bucket' hstep h => ?_
  · rw [h0]
    exact ⟨new_valid hcapacity hrate, rfl, rfl⟩
  · have hkept := apply_kept bucket e
    rw [show bucket' = e.apply bucket from hstep]
    exact ⟨h.valid.apply e, hkept.capacity.trans h.capacity,
      hkept.refillRate.trans h.refillRate⟩

/-- A call is not earlier than the last refill. -/
theorem clock (h0 : r.state 0 = .new capacity rate begin)
    (hbegin : ∀ i < n, begin ≤ (r.event i).now)
    (hmono : ∀ i j, i ≤ j → j < n → (r.event i).now ≤ (r.event j).now) (hi : i < n) :
    (r.state i).lastRefill ≤ (r.event i).now := by
  cases i with
  | zero =>
      rw [h0]
      exact hbegin 0 hi
  | succ i =>
      rw [(state_kept r (by omega)).lastRefill]
      exact hmono i (i + 1) (by omega) hi

theorem spent_succ (r : Run Step n) (start : Instant) (d : Duration) (k : Nat) :
    spent r start d (k + 1) = spent r start d k
      + if (r.event k).within start d then net (r.state k) (r.event k) else 0 := by
  rw [spent, spent, r.count_succ _ (Nat.zero_le k), r.count_succ _ (Nat.zero_le k), net]
  by_cases hwithin : (r.event k).within start d
  · simp only [hwithin, true_and, if_true, Bool.decide_eq_true]
    push_cast
    omega
  · simp [hwithin]

theorem span_nonneg {since now : Instant} (hrate : 0 < rate) (h : since ≤ now) :
    0 ≤ rate * (((now : ℚ) - since) / 1000000) := by
  have hle : (since : ℚ) ≤ now := by exact_mod_cast h
  exact mul_nonneg (le_of_lt hrate) (div_nonneg (by linarith) (by norm_num))

/-- The potential of a window, after some of the calls. -/
structure Potential (capacity rate : ℚ) (r : Run Step n) (start : Instant) (d : Duration)
    (k : Nat) : Prop where
  before : (r.state k).lastRefill < start → spent r start d k = 0
  during : start ≤ (r.state k).lastRefill → (r.state k).lastRefill ≤ start + d →
    (r.state k).tokens + spent r start d k
      ≤ capacity + rate * (((r.state k).lastRefill - start) / 1000000)
  always : spent r start d k ≤ capacity + rate * (d / 1000000)

/-- The tokens and what was spent grow no faster than the rate. -/
theorem potential_le (h0 : r.state 0 = .new capacity rate begin) (hcapacity : 1 ≤ capacity)
    (hrate : 0 < rate) (hclock : ∀ i < n, (r.state i).lastRefill ≤ (r.event i).now)
    (start : Instant) (d : Duration) : ∀ k ≤ n, Potential capacity rate r start d k := by
  intro k
  have hruns := state_runs r h0 hcapacity hrate
  have hd : 0 ≤ rate * ((d : ℚ) / 1000000) :=
    mul_nonneg (le_of_lt hrate) (div_nonneg (Nat.cast_nonneg _) (by norm_num))
  induction k with
  | zero =>
      intro hk
      have hspent : spent r start d 0 = 0 := by simp [spent, Run.count_self]
      refine ⟨fun _ => hspent, fun hstart _ => ?_, ?_⟩
      · have hbucket := (hruns 0 hk).valid.le_capacity
        rw [(hruns 0 hk).capacity] at hbucket
        have hadd := span_nonneg hrate hstart
        rw [hspent]
        push_cast
        linarith
      · rw [hspent]
        push_cast
        linarith
  | succ k ih =>
      intro hk
      obtain ⟨hbefore, hduring, halways⟩ := ih (by omega)
      have hlast := hclock k (by omega)
      have hrefill := refill_le hlast
      have hfull := ((hruns k (by omega)).valid.refill (r.event k).now).le_capacity
      have happly := apply_potential (r.state k) (r.event k)
      have hnonneg := (hruns (k + 1) hk).valid.nonneg
      rw [← r.next k (by omega)] at happly
      rw [(hruns k (by omega)).refillRate] at hrefill
      rw [show ((r.state k).refill (r.event k).now).capacity = capacity from
        (hruns k (by omega)).capacity] at hfull
      have hnext := (state_kept r (i := k) (by omega)).lastRefill
      have hspent := spent_succ r start d k
      by_cases hwithin : (r.event k).within start d
      · rw [if_pos hwithin] at hspent
        have hnow := span_nonneg hrate hwithin.1
        have hend : rate * (((r.event k).now - start) / 1000000) ≤ rate * (d / 1000000) := by
          have hle : ((r.event k).now : ℚ) ≤ start + d := by exact_mod_cast hwithin.2
          exact mul_le_mul_of_nonneg_left (by linarith) (le_of_lt hrate)
        -- the calls before the window leave the capacity at most
        have hmoved : (r.state (k + 1)).tokens
            + spent r start d (k + 1)
            ≤ capacity + rate * (((r.event k).now - start) / 1000000) := by
          rw [hspent]
          push_cast
          by_cases hfirst : (r.state k).lastRefill < start
          · rw [hbefore hfirst]
            push_cast
            linarith
          · have hpotential := hduring (not_lt.1 hfirst) (le_trans hlast hwithin.2)
            have hsplit : rate * (((r.event k).now - start) / 1000000)
                = rate * (((r.state k).lastRefill - start) / 1000000)
                  + rate * (((r.event k).now - (r.state k).lastRefill) / 1000000) := by ring
            linarith
        refine ⟨fun h => ?_, fun _ _ => ?_, by linarith⟩
        · rw [hnext] at h
          exact absurd hwithin.1 (not_le.2 h)
        · rw [hnext]
          exact hmoved
      · rw [if_neg hwithin, Int.add_zero] at hspent
        refine ⟨fun h => ?_, fun h h' => ?_, ?_⟩
        · rw [hnext] at h
          rw [hspent]
          exact hbefore (lt_of_le_of_lt hlast h)
        · rw [hnext] at h h'
          exact absurd ⟨h, h'⟩ hwithin
        · rw [hspent]
          exact halways

theorem enforces (h0 : r.state 0 = .new capacity rate begin) (hcapacity : 1 ≤ capacity)
    (hrate : 0 < rate) (hbegin : ∀ i < n, begin ≤ (r.event i).now)
    (hmono : ∀ i j, i ≤ j → j < n → (r.event i).now ≤ (r.event j).now)
    (hsuffices : ∀ i ≤ n, (r.state i).Suffices) : Enforces capacity rate r where
  tokens := by
    intro i hi
    have hruns := state_runs r h0 hcapacity hrate i hi
    exact ⟨hruns.valid.nonneg, hruns.capacity ▸ hruns.valid.le_capacity⟩
  window := fun start d k hk =>
    (potential_le h0 hcapacity hrate (fun _ hi => clock h0 hbegin hmono hi) start d k hk).always
  waits := by
    intro i hi
    exact (waits_iff (state_runs r h0 hcapacity hrate i hi).valid).2 (hsuffices i hi)

/-- No bucket keeps a caller waiting too short, the windows are never
exceeded, and the tokens fit, exactly if the longest wait always suffices. -/
theorem bucket_rate_iff (hcapacity : 1 ≤ capacity) (hrate : 0 < rate) (r : Run Step n)
    (h0 : r.state 0 = .new capacity rate begin) (hbegin : ∀ i < n, begin ≤ (r.event i).now)
    (hmono : ∀ i j, i ≤ j → j < n → (r.event i).now ≤ (r.event j).now) :
    Enforces capacity rate r ↔ ∀ i ≤ n, (r.state i).Suffices := by
  constructor
  · intro h i hi
    exact (waits_iff (state_runs r h0 hcapacity hrate i hi).valid).1 (h.waits i hi)
  · exact enforces h0 hcapacity hrate hbegin hmono

theorem Runs.suffices {bucket : TokenBucket} (h : Runs capacity rate bucket)
    (hrate : 1 ≤ rate * u64Max) : bucket.Suffices := by
  have hnonneg := h.valid.nonneg
  rw [Suffices, h.refillRate]
  linarith

end Runs

-- == inputs

/-- Two tokens, one more a second: one is asked for every half second, and the
fourth call gives one back. -/
def burst : Run Step 4 :=
  .ofFn (fun bucket e => e.apply bucket) (.new 2 (1 / 1000) 0)
    (fun i => ⟨500000000 * i, if i = 3 then .refund else .tryConsume⟩) fun _ _ => rfl

theorem bucket_rate_burst : Enforces 2 (1 / 1000) burst :=
  (bucket_rate_iff (by norm_num) (by norm_num) burst rfl
    (fun i _ => show (0 : Int) ≤ 500000000 * i by omega)
    (fun i j _ _ => show (500000000 : Int) * i ≤ 500000000 * j by omega)).2
    fun i hi =>
      (state_runs burst rfl (by norm_num) (by norm_num) i hi).suffices (by norm_num [u64Max])

/-- One token, and a rate of less than one token in the longest wait. -/
def slow : Run Step 1 :=
  .ofFn (fun bucket e => e.apply bucket) (.new 1 (1 / 2 ^ 70) 0) (fun _ => ⟨0, .tryConsume⟩)
    fun _ _ => rfl

/-- The wait after that token is taken is too short. -/
theorem slow_wait_too_short : ¬ Enforces 1 (1 / 2 ^ 70) slow := by
  intro h
  have hruns := state_runs slow rfl (le_refl 1) (by norm_num) 1 (le_refl 1)
  have hsuffices := (waits_iff hruns.valid).1 (h.waits 1 (le_refl 1))
  have htokens : (slow.state 1).tokens = 0 := by
    show (Event.apply (.new 1 (1 / 2 ^ 70) 0) ⟨0, .tryConsume⟩).tokens = 0
    simp [Event.apply, TokenBucket.tryConsume, TokenBucket.refill, elapsedMs, new]
  rw [Suffices, htokens, hruns.refillRate] at hsuffices
  norm_num [u64Max] at hsuffices

end TokenBucket

-- == limits

namespace RateLimit

open TokenBucket

variable (limit : RateLimit) {begin : Instant} {n : Nat}

/-- A limit refills at least a token an hour. -/
theorem refillRatePerMs_ge : 1 / 3600000 ≤ limit.refillRatePerMs := by
  have hper := limit.per_bounds
  have hrate : (1 : ℚ) ≤ limit.rate := Nat.one_le_cast.2 limit.rate_pos
  have hlow : 0 < limit.per / 1000000 :=
    Nat.div_pos (le_trans (by decide) hper.1) (by decide)
  have hhigh : limit.per / 1000000 ≤ 3600000 := Nat.div_le_of_le_mul hper.2
  have hlow : (0 : ℚ) < (limit.per / 1000000 : Nat) := Nat.cast_pos.2 hlow
  have hhigh : ((limit.per / 1000000 : Nat) : ℚ) ≤ 3600000 := by exact_mod_cast hhigh
  rw [refillRatePerMs, le_div_iff₀ hlow]
  linarith

end RateLimit

end Hammerwork
