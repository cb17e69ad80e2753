/-
What autoscaling returns, over any samples.

The history after a call is the samples of the window (`history_eq`), the time
of the last scaling is that of the last call that returned a count
(`lastScale_spec`), and a call returns a count exactly if it decides to scale
(`returned_eq`). So counts are a cooldown apart, and follow the thresholds.

They are within the bounds only from a number of workers that is at most one
step outside: scaling up is not clamped from below, nor scaling down from
above. And a step may wrap around the greatest count, and an evaluation window
that is not representable is replaced by half a minute.
-/
import Hammerwork.Autoscale
import Hammerwork.Lib.Run
import Mathlib.Tactic.NormNum

namespace Hammerwork

namespace Autoscale

-- == statements

/-- A call of `apply_queue_depth` that returns. -/
def Step (config : AutoscaleConfig) (s : State) (sample : Sample) (s' : State) : Prop :=
  ∃ count, applyQueueDepth config sample s = some (count, s')

section Statements

variable {config : AutoscaleConfig} {n : Nat} (r : Run (Step config) n) (i : Nat)

/-- The count a call returns. -/
def returned : Option Nat := (applyQueueDepth config (r.event i) (r.state i)).bind Prod.fst

/-- The number of workers before a call. -/
def active : Nat := (r.state i).metrics.activeWorkers

/-- The samples so far. -/
def samples : List Sample := (List.range (i + 1)).map r.event

/-- The samples of the evaluation window. -/
def windowSamples : List Sample :=
  (samples r i).filter fun sample => (r.event i).now - config.evaluationWindow < sample.now

/-- The average depth per worker over the evaluation window. -/
def windowPerWorker : ℚ :=
  depthPerWorker (average (windowSamples r i) (r.event i).depth) (active r i)

/-- What is expected of a call. -/
structure Scales : Prop where
  window : (r.state (i + 1)).history = windowSamples r i ∧
    (r.state (i + 1)).metrics.avgQueueDepth = average (windowSamples r i) (r.event i).depth
  within : ∀ count, returned r i = some count →
    config.minWorkers ≤ count ∧ count ≤ config.maxWorkers
  moves : ∀ count, returned r i = some count → count ≠ active r i
  larger : ∀ count, returned r i = some count → active r i < count →
    (config.scaleUpThreshold : ℚ) < windowPerWorker r i
  smaller : ∀ count, returned r i = some count → count < active r i →
    windowPerWorker r i < config.scaleDownThreshold
  /-- One step at most, unless the count was outside a bound it is moved to. -/
  step : ∀ count, returned r i = some count →
    (count ≤ active r i + config.scaleStep ∧ active r i ≤ count + config.scaleStep) ∨
      (count = config.minWorkers ∧ active r i < config.minWorkers) ∨
      (count = config.maxWorkers ∧ config.maxWorkers < active r i)
  apart : ∀ j < i, ∀ earlier count, returned r j = some earlier → returned r i = some count →
    (r.event j).now + config.cooldownPeriod ≤ (r.event i).now

/-- The samples a call keeps. -/
def kept (config : AutoscaleConfig) (s : State) (sample : Sample) : List Sample :=
  (s.history ++ [sample]).filter fun old => sample.now - windowLength config < old.now

/-- The average depth per worker a call computes. -/
def perWorker (config : AutoscaleConfig) (s : State) (sample : Sample) : ℚ :=
  depthPerWorker (average (kept config s sample) sample.depth) s.metrics.activeWorkers

/-- The decision a call takes. -/
def scaling (config : AutoscaleConfig) (s : State) (sample : Sample) : Option ScalingDecision :=
  if timeSinceLast config sample.now s.metrics.lastScaleTime < config.cooldownPeriod then
    none
  else
    decision config (perWorker config s sample) s.metrics.activeWorkers

/-- What a call needs. -/
structure Fits : Prop where
  /-- The evaluation window is representable, or no sample so far is as old as
  half a minute. -/
  window : (config.evaluationWindow : Int) ≤ maxTimeDelta ∨
    ∀ j ≤ i, (r.event i).now - fromSecs 30 < (r.event j).now
  /-- A step up reaches the minimum and does not wrap around (or it wraps to a
  count within the bounds, which both thresholds allow). -/
  up : scaling config (r.state i) (r.event i) = some .scaleUp →
    (config.minWorkers ≤ active r i + config.scaleStep ∧
      active r i + config.scaleStep < usizeSize) ∨
    (config.minWorkers + usizeSize ≤ active r i + config.scaleStep ∧
      usizeSize ≤ 2 * config.scaleStep ∧ windowPerWorker r i < config.scaleDownThreshold)
  /-- A step down reaches the maximum. -/
  down : scaling config (r.state i) (r.event i) = some .scaleDown →
    active r i ≤ config.maxWorkers + config.scaleStep

end Statements

-- == configuration

/-- What the builder methods see to. -/
structure AutoscaleConfig.Valid (config : AutoscaleConfig) : Prop where
  minWorkers : 1 ≤ config.minWorkers
  bounds : config.minWorkers ≤ config.maxWorkers
  maxWorkers : config.maxWorkers < usizeSize
  scaleStep : 1 ≤ config.scaleStep ∧ config.scaleStep < usizeSize

theorem Built.valid {config : AutoscaleConfig} (h : Built config) : config.Valid := by
  have husize : 1 < usizeSize := by decide
  induction h with
  | default => exact ⟨by decide, by decide, by decide, by decide⟩
  | conservative => exact ⟨by decide, by decide, by decide, by decide⟩
  | aggressive => exact ⟨by decide, by decide, by decide, by decide⟩
  | disabled => exact ⟨by decide, by decide, by decide, by decide⟩
  | withEnabled _ _ ih => exact ⟨ih.minWorkers, ih.bounds, ih.maxWorkers, ih.scaleStep⟩
  | withMinWorkers n hn _ ih =>
      obtain ⟨hmin, hbounds, hmax, hstep⟩ := ih
      exact ⟨by simp [AutoscaleConfig.withMinWorkers], by simp [AutoscaleConfig.withMinWorkers],
        by simp only [AutoscaleConfig.withMinWorkers]; omega, hstep⟩
  | withMaxWorkers n hn _ ih =>
      obtain ⟨hmin, hbounds, hmax, hstep⟩ := ih
      exact ⟨hmin, by simp [AutoscaleConfig.withMaxWorkers],
        by simp only [AutoscaleConfig.withMaxWorkers]; omega, hstep⟩
  | withScaleUpThreshold _ _ _ ih =>
      exact ⟨ih.minWorkers, ih.bounds, ih.maxWorkers, ih.scaleStep⟩
  | withScaleDownThreshold _ _ _ ih =>
      exact ⟨ih.minWorkers, ih.bounds, ih.maxWorkers, ih.scaleStep⟩
  | withCooldownPeriod _ _ ih => exact ⟨ih.minWorkers, ih.bounds, ih.maxWorkers, ih.scaleStep⟩
  | withScaleStep n hn _ ih =>
      exact ⟨ih.minWorkers, ih.bounds, ih.maxWorkers,
        by simp only [AutoscaleConfig.withScaleStep]; omega⟩
  | withEvaluationWindow _ _ ih =>
      exact ⟨ih.minWorkers, ih.bounds, ih.maxWorkers, ih.scaleStep⟩

-- == one call

section Call

variable {config : AutoscaleConfig} {s s' : State} {sample : Sample} {count : Option Nat}

/-- What a call that returns has done. -/
structure Applies (config : AutoscaleConfig) (s : State) (sample : Sample) (count : Option Nat)
    (s' : State) : Prop where
  decided : count = (scaling config s sample).map (newCount config s.metrics.activeWorkers)
  history : s'.history = kept config s sample
  avgQueueDepth : s'.metrics.avgQueueDepth = average s'.history sample.depth
  activeWorkers : s'.metrics.activeWorkers = count.getD s.metrics.activeWorkers
  lastScaleTime : s'.metrics.lastScaleTime =
    if count.isSome then some sample.now else s.metrics.lastScaleTime

theorem applyQueueDepth_some (h : applyQueueDepth config sample s = some (count, s')) :
    Applies config s sample count s' := by
  unfold applyQueueDepth at h
  split at h
  case h_1 => cases h
  case h_2 cutoff hcutoff =>
    have hcutoff : cutoff = sample.now - windowLength config := by
      unfold checkedAddSigned at hcutoff
      split at hcutoff
      case isTrue =>
        cases hcutoff
        exact (sub_eq_add_neg _ _).symm
      case isFalse => cases hcutoff
    subst hcutoff
    dsimp only at h
    split at h
    case isTrue hearly =>
      cases h
      exact ⟨by rw [scaling, if_pos hearly]; rfl, rfl, rfl, rfl, rfl⟩
    case isFalse hlate =>
      split at h
      case h_1 hnone =>
        cases h
        refine ⟨?_, rfl, rfl, rfl, rfl⟩
        rw [scaling, if_neg hlate]
        exact (congrArg (Option.map _) hnone).symm
      case h_2 decision hsome =>
        cases h
        refine ⟨?_, rfl, rfl, rfl, rfl⟩
        rw [scaling, if_neg hlate]
        exact (congrArg (Option.map _) hsome).symm

/-- The decision to scale up: the average is above the threshold and there is
room. -/
theorem scaling_up (h : scaling config s sample = some .scaleUp) :
    (config.scaleUpThreshold : ℚ) < perWorker config s sample ∧
      s.metrics.activeWorkers < config.maxWorkers := by
  unfold scaling decision at h
  split at h
  case isTrue => cases h
  case isFalse =>
    split at h
    case isTrue hup => exact hup
    case isFalse => split at h <;> cases h

theorem scaling_down (h : scaling config s sample = some .scaleDown) :
    perWorker config s sample < config.scaleDownThreshold ∧
      config.minWorkers < s.metrics.activeWorkers := by
  unfold scaling decision at h
  split at h
  case isTrue => cases h
  case isFalse =>
    split at h
    case isTrue => cases h
    case isFalse =>
      split at h
      case isTrue hdown => exact hdown
      case isFalse => cases h

/-- A call scales only after the cooldown. -/
theorem scaling_late {decision : ScalingDecision} (h : scaling config s sample = some decision)
    {t : DateTime} (ht : s.metrics.lastScaleTime = some t) (hle : t ≤ sample.now) :
    t + config.cooldownPeriod ≤ sample.now := by
  unfold scaling at h
  split at h
  case isTrue => cases h
  case isFalse hlate =>
    have hsince : timeSinceLast config sample.now s.metrics.lastScaleTime
        = (sample.now - t).toNat := by
      rw [ht]
      exact if_pos hle
    rw [hsince] at hlate
    have hle' : (0 : Int) ≤ sample.now - t := by
      simpa using hle
    have hcast : ((sample.now - t).toNat : Int) = sample.now - t := Int.toNat_of_nonneg hle'
    have hcooldown : (config.cooldownPeriod : Int) ≤ (sample.now - t).toNat := by
      exact_mod_cast Nat.le_of_not_lt hlate
    rw [hcast] at hcooldown
    have h := Int.add_le_of_le_sub_left hcooldown
    simpa using h

end Call

-- == a run

section Run

variable {config : AutoscaleConfig} {n : Nat} (r : Run (Step config) n) {i j : Nat}

theorem applies (hi : i < n) :
    Applies config (r.state i) (r.event i) (returned r i) (r.state (i + 1)) := by
  obtain ⟨count, h⟩ := r.next i hi
  have hreturned : returned r i = count := by
    rw [returned, h]
    rfl
  rw [hreturned]
  exact applyQueueDepth_some h

theorem returned_eq (hi : i < n) :
    returned r i = (scaling config (r.state i) (r.event i)).map (newCount config (active r i)) :=
  (applies r hi).decided

theorem samples_succ : samples r (i + 1) = samples r i ++ [r.event (i + 1)] := by
  simp [samples, List.range_succ (n := i + 1)]

theorem mem_samples {sample : Sample} : sample ∈ samples r i ↔ ∃ j ≤ i, r.event j = sample := by
  unfold samples
  rw [List.mem_map]
  refine exists_congr fun j => and_congr_left fun _ => ?_
  rw [List.mem_range, Nat.lt_succ_iff]

/-- A count stays a count. -/
theorem active_lt (hvalid : config.Valid) (h0 : active r 0 < usizeSize) (hi : i ≤ n) :
    active r i < usizeSize := by
  induction i with
  | zero => exact h0
  | succ i ih =>
      rw [active, (applies r hi).activeWorkers, returned_eq r hi]
      have hmax := hvalid.maxWorkers
      have hbounds := hvalid.bounds
      have hbefore := ih (by omega)
      unfold active at hbefore
      cases scaling config (r.state i) (r.event i) with
      | none => exact hbefore
      | some decision =>
          cases decision with
          | scaleUp => exact lt_of_le_of_lt (Nat.min_le_right ..) hmax
          | scaleDown =>
              refine max_lt ?_ (by omega)
              show active r i - _ < _
              unfold active
              omega

variable (hmono : ∀ i j, i ≤ j → j < n → (r.event i).now ≤ (r.event j).now)
include hmono

/-- The history after a call: the samples since the window began. -/
theorem history_eq (h0 : (r.state 0).history = []) (hi : i < n) :
    (r.state (i + 1)).history = (samples r i).filter fun sample =>
      (r.event i).now - windowLength config < sample.now := by
  induction i with
  | zero =>
      rw [(applies r hi).history, kept, h0]
      rfl
  | succ i ih =>
      rw [(applies r hi).history, kept, ih (by omega), samples_succ, List.filter_append,
        List.filter_append, List.filter_filter]
      congr 1
      refine List.filter_congr fun sample _ => ?_
      -- what an earlier window has dropped is not in a later one
      have hlater := hmono i (i + 1) (by omega) hi
      simp only [Bool.and_eq_left_iff_imp, decide_eq_true_eq]
      intro hin
      exact lt_of_le_of_lt (Int.sub_le_sub_right hlater _) hin

/-- Since some call has returned a count, the last scaling is known, and not
earlier. -/
theorem lastScale_spec (hji : j < i) (hi : i ≤ n) {count : Nat} (hj : returned r j = some count) :
    ∃ t, (r.state i).metrics.lastScaleTime = some t ∧ (r.event j).now ≤ t ∧
      ∀ k, i ≤ k → k < n → t ≤ (r.event k).now := by
  induction i, hji using Nat.le_induction with
  | base =>
      refine ⟨(r.event j).now, ?_, le_refl _, fun k hk hkn => hmono j k (by omega) hkn⟩
      rw [(applies r (by omega)).lastScaleTime, hj]
      rfl
  | succ i hji ih =>
      obtain ⟨t, ht, hle, hlater⟩ := ih (by omega)
      rw [(applies r (by omega)).lastScaleTime]
      cases returned r i with
      | none => exact ⟨t, ht, hle, fun k hk hkn => hlater k (by omega) hkn⟩
      | some count' =>
          exact ⟨(r.event i).now, rfl, hmono j i (by omega) (by omega),
            fun k hk hkn => hmono i k (by omega) hkn⟩

/-- Returned counts are a cooldown apart. -/
theorem returned_apart (hi : i < n) (hji : j < i) {earlier count : Nat}
    (hj : returned r j = some earlier) (hcount : returned r i = some count) :
    (r.event j).now + config.cooldownPeriod ≤ (r.event i).now := by
  obtain ⟨t, ht, hle, hlater⟩ := lastScale_spec r hmono hji (Nat.le_of_lt hi) hj
  rw [returned_eq r hi, Option.map_eq_some_iff] at hcount
  obtain ⟨decision, hdecision, -⟩ := hcount
  have hlate := scaling_late hdecision ht (hlater i (le_refl i) hi)
  exact le_trans (Int.add_le_add_right hle _) hlate

omit hmono in
/-- A span that is not representable reaches back before every instant. -/
theorem sub_lt_of_range {now t : Int} {window : Nat} (hwindow : ¬ (window : Int) ≤ maxTimeDelta)
    (hlow : minUtc ≤ t) (hhigh : now ≤ maxUtc) : now - window < t := by
  have hwindow : ¬ (window : Int) ≤ 9223372036854775807000000 := hwindow
  have hlow : (-8334601228800000000000 : Int) ≤ t := hlow
  have hhigh : now ≤ (8210266876799999999999 : Int) := hhigh
  omega

/-- The samples kept are those of the evaluation window. -/
theorem window_iff (h0 : (r.state 0).history = [])
    (hrange : ∀ i < n, minUtc ≤ (r.event i).now ∧ (r.event i).now ≤ maxUtc) (hi : i < n) :
    (r.state (i + 1)).history = windowSamples r i ↔
      (config.evaluationWindow : Int) ≤ maxTimeDelta ∨
        ∀ j ≤ i, (r.event i).now - fromSecs 30 < (r.event j).now := by
  rw [history_eq r hmono h0 hi, windowSamples]
  by_cases hfits : (config.evaluationWindow : Int) ≤ maxTimeDelta
  · rw [windowLength, if_pos hfits]
    exact ⟨fun _ => .inl hfits, fun _ => rfl⟩
  · -- every sample is in a window that long
    have hall : (samples r i).filter (fun sample =>
        (r.event i).now - config.evaluationWindow < sample.now) = samples r i := by
      rw [List.filter_eq_self]
      intro sample hsample
      obtain ⟨j, hj, rfl⟩ := (mem_samples r).1 hsample
      exact decide_eq_true (sub_lt_of_range hfits (hrange j (by omega)).1 (hrange i hi).2)
    rw [windowLength, if_neg hfits, hall, List.filter_eq_self]
    constructor
    · intro h
      refine .inr fun j hj => ?_
      simpa using h (r.event j) ((mem_samples r).2 ⟨j, hj, rfl⟩)
    · intro h sample hsample
      obtain ⟨j, hj, rfl⟩ := (mem_samples r).1 hsample
      exact decide_eq_true (h.resolve_left hfits j hj)

end Run

-- == the counts

section Counts

variable {workers count least most step size : Nat}

/-- A step up that is as expected reaches the minimum and does not wrap
around, or the count goes down. -/
theorem up_needs (hworkers : workers < most) (hmost : most < size) (hstep : step < size)
    (hcount : count = min ((workers + step) % size) most) (hwithin : least ≤ count)
    (hmoved : (count ≤ workers + step ∧ workers ≤ count + step) ∨
      (count = least ∧ workers < least) ∨ (count = most ∧ most < workers)) :
    (least ≤ workers + step ∧ workers + step < size) ∨
      (least + size ≤ workers + step ∧ size ≤ 2 * step ∧ count < workers) := by
  rcases Nat.lt_or_ge (workers + step) size with hlt | hge
  · rw [Nat.mod_eq_of_lt hlt] at hcount
    exact .inl ⟨by omega, hlt⟩
  · rw [Nat.mod_eq_sub_mod hge, Nat.mod_eq_of_lt (by omega)] at hcount
    exact .inr ⟨by omega, by omega, by omega⟩

/-- Otherwise the count goes up, by a step or to the maximum. -/
theorem up_within (hworkers : workers < most) (hbounds : least ≤ most) (hstep : 1 ≤ step)
    (hcount : count = min ((workers + step) % size) most) (hleast : least ≤ workers + step)
    (hlt : workers + step < size) :
    (least ≤ count ∧ count ≤ most) ∧ workers < count ∧ count ≤ workers + step := by
  rw [Nat.mod_eq_of_lt hlt] at hcount
  omega

/-- A count that wraps around into the bounds goes down. -/
theorem up_wraps (hworkers : workers < most) (hmost : most < size) (hstep : step < size)
    (hcount : count = min ((workers + step) % size) most) (hleast : least + size ≤ workers + step)
    (hsize : size ≤ 2 * step) :
    (least ≤ count ∧ count ≤ most) ∧ count < workers ∧ workers ≤ count + step := by
  rw [Nat.mod_eq_sub_mod (by omega), Nat.mod_eq_of_lt (by omega)] at hcount
  omega

/-- A step down goes down, by a step or to the minimum. -/
theorem down_within (hworkers : least < workers) (hbounds : least ≤ most) (hstep : 1 ≤ step)
    (hcount : count = max (workers - step) least) (hmost : workers ≤ most + step) :
    (least ≤ count ∧ count ≤ most) ∧ count < workers ∧ workers ≤ count + step := by
  omega

end Counts

/-- What a call that returns a count has to do. -/
theorem Scales.of_count {config : AutoscaleConfig} {n i count : Nat} {r : Run (Step config) n}
    (hreturned : returned r i = some count)
    (hwindow : (r.state (i + 1)).history = windowSamples r i ∧
      (r.state (i + 1)).metrics.avgQueueDepth = average (windowSamples r i) (r.event i).depth)
    (hwithin : config.minWorkers ≤ count ∧ count ≤ config.maxWorkers)
    (hmoved : (active r i < count ∧ count ≤ active r i + config.scaleStep ∧
        (config.scaleUpThreshold : ℚ) < windowPerWorker r i) ∨
      (count < active r i ∧ active r i ≤ count + config.scaleStep ∧
        windowPerWorker r i < config.scaleDownThreshold))
    (hapart : ∀ j < i, ∀ earlier, returned r j = some earlier →
      (r.event j).now + config.cooldownPeriod ≤ (r.event i).now) : Scales r i where
  window := hwindow
  within := by
    intro count' h
    cases hreturned.symm.trans h
    exact hwithin
  moves := by
    intro count' h
    cases hreturned.symm.trans h
    omega
  larger := by
    intro count' h hmore
    cases hreturned.symm.trans h
    rcases hmoved with ⟨-, -, habove⟩ | ⟨hless, -⟩
    · exact habove
    · omega
  smaller := by
    intro count' h hfewer
    cases hreturned.symm.trans h
    rcases hmoved with ⟨hmore, -⟩ | ⟨-, -, hbelow⟩
    · omega
    · exact hbelow
  step := by
    intro count' h
    cases hreturned.symm.trans h
    exact .inl (by omega)
  apart := fun j hji earlier _ hj _ => hapart j hji earlier hj

/-- A pool that starts with four workers and is sampled once, with an empty
queue. -/
def idlePool : Run (Step .default) 1 where
  state := fun i => if i = 0 then .initial 4 else ⟨⟨3, 0, 0, fromSecs 60, some 0⟩, [⟨0, 0⟩]⟩
  event := fun _ => ⟨0, 0⟩
  next := by
    intro i hi
    obtain rfl : i = 0 := by omega
    have hcutoff : checkedAddSigned 0 (-windowLength .default) = some (-30000000000) := by decide
    refine ⟨some 3, ?_⟩
    simp only [↓reduceIte, applyQueueDepth, hcutoff]
    norm_num [State.initial, average, timeSinceLast, decision, depthPerWorker,
      AutoscaleConfig.default, newCount]

/-- At least five workers. -/
def fiveWorkers : AutoscaleConfig := AutoscaleConfig.default.withMinWorkers 5

/-- A pool that starts with one worker and is sampled once, with a full
queue. -/
def burstPool : Run (Step fiveWorkers) 1 where
  state := fun i =>
    if i = 0 then .initial 1 else ⟨⟨2, 100, 100, fromSecs 60, some 0⟩, [⟨0, 100⟩]⟩
  event := fun _ => ⟨0, 100⟩
  next := by
    intro i hi
    obtain rfl : i = 0 := by omega
    have hcutoff : checkedAddSigned 0 (-windowLength fiveWorkers) = some (-30000000000) := by
      decide
    refine ⟨some 2, ?_⟩
    simp only [↓reduceIte, applyQueueDepth, hcutoff]
    norm_num [State.initial, average, timeSinceLast, decision, depthPerWorker, fiveWorkers,
      AutoscaleConfig.withMinWorkers, AutoscaleConfig.default, newCount, usizeSize]

end Autoscale

end Hammerwork
