/-
Weighted picks are exact.

The seed is reduced modulo the sum of the candidates' weights, and the
point it gives is looked up in the intervals the weights cut that sum
into. Of as many consecutive seeds as the sum, wherever they start, each
candidate therefore gets as many as its weight (`point_count`), and one
without a weight none. When no candidate has a weight, the highest is
picked.

A weight is an unsigned number of 32 bits (`PriorityWeights.U32`), and
there are five levels, so the sum of 64 bits does not overflow.
-/
import Hammerwork.Proofs.Picks
import Mathlib.Data.Nat.Periodic

namespace Hammerwork

variable {weights : PriorityWeights} {candidates : List JobPriority} {priority : JobPriority}

/-- The weights are numbers of 32 bits. -/
def PriorityWeights.U32 (weights : PriorityWeights) : Prop :=
  ∀ priority weight, weights.weights.lookup priority = some weight → weight < 2 ^ 32

-- == the intervals

/-- Of all points, as many fall in a candidate's interval as its weight. -/
theorem point_count (weights : PriorityWeights) : ∀ candidates : List JobPriority,
    candidates.Nodup → priority ∈ candidates →
    Nat.count (fun point => levelAt weights candidates point = some priority)
      (candidates.map weights.getWeight).sum = weights.getWeight priority := by
  intro candidates
  induction candidates with
  | nil => intro _ hmem; cases hmem
  | cons first rest ih =>
      intro hnd hmem
      obtain ⟨hfirst, hrest⟩ := List.nodup_cons.1 hnd
      rw [List.map_cons, List.sum_cons, Nat.count_add]
      -- the first interval is the first candidate's
      have hhead : Nat.count (fun point => levelAt weights (first :: rest) point = some priority)
          (weights.getWeight first) = if first = priority then weights.getWeight first else 0 := by
        split
        case isTrue heq =>
          refine Nat.count_of_forall fun point hpoint => ?_
          rw [levelAt, if_pos hpoint, heq]
        case isFalse hne =>
          refine Nat.count_of_forall_not fun point hpoint h => hne ?_
          rw [levelAt, if_pos hpoint] at h
          exact Option.some.inj h
      -- what follows it is divided among the others
      have htail : (fun point => levelAt weights (first :: rest)
          (weights.getWeight first + point) = some priority)
          = fun point => levelAt weights rest point = some priority := by
        funext point
        rw [levelAt, if_neg (by omega), Nat.add_sub_cancel_left]
      simp only [htail]
      rw [hhead]
      rcases List.mem_cons.1 hmem with rfl | hmem
      · have hnone : Nat.count (fun point => levelAt weights rest point = some priority)
            (rest.map weights.getWeight).sum = 0 :=
          Nat.count_of_forall_not fun point _ h => hfirst (mem_of_levelAt weights rest h).1
        rw [if_pos rfl, hnone, Nat.add_zero]
      · have hne : first ≠ priority := fun heq => hfirst (heq ▸ hmem)
        rw [if_neg hne, ih hrest hmem, Nat.zero_add]

-- == the pick

/-- A level's weight has 32 bits. -/
theorem PriorityWeights.U32.getWeight_lt (hu32 : weights.U32) (priority : JobPriority) :
    weights.getWeight priority < 2 ^ 32 := by
  unfold PriorityWeights.getWeight
  split
  · cases priority <;> decide
  · cases hlookup : weights.weights.lookup priority with
    | none => decide
    | some weight => exact hu32 priority weight hlookup

/-- Different levels are at most five. -/
theorem length_levels_le (hnd : candidates.Nodup) : candidates.length ≤ 5 := by
  have hall : candidates ⊆ [.background, .low, .normal, .high, .critical] := by
    intro priority _
    cases priority <;> simp
  exact (List.subperm_of_subset hnd hall).length_le

/-- A sum of weights is at most as many times 32 bits. -/
theorem sum_getWeight_le (hu32 : weights.U32) : ∀ levels : List JobPriority,
    (levels.map weights.getWeight).sum ≤ levels.length * 2 ^ 32 := by
  intro levels
  induction levels with
  | nil => exact Nat.zero_le _
  | cons first rest ih =>
      have hfirst := hu32.getWeight_lt first
      rw [List.map_cons, List.sum_cons, List.length_cons, Nat.succ_mul]
      omega

/-- Of the seeds in a row that are as many as the sum of the weights,
each candidate is picked for as many as its weight; one without a weight
is picked for none, unless none has a weight: then it is the highest. The
pick is a candidate, there is one unless there are no candidates, and no
sum on the way overflows. -/
theorem pickWeightedPriority_exact (hnd : candidates.Nodup) (hu32 : weights.U32) :
    (∀ seed, pickWeightedPriority candidates weights seed = none ↔ candidates = []) ∧
    (∀ seed priority, pickWeightedPriority candidates weights seed = some priority →
      priority ∈ candidates) ∧
    (0 < (candidates.map weights.getWeight).sum → ∀ start, ∀ priority ∈ candidates,
      ((Finset.Ico start (start + (candidates.map weights.getWeight).sum)).filter
        fun seed => pickWeightedPriority candidates weights seed = some priority).card
        = weights.getWeight priority) ∧
    (0 < (candidates.map weights.getWeight).sum → ∀ seed priority,
      pickWeightedPriority candidates weights seed = some priority →
        0 < weights.getWeight priority) ∧
    ((candidates.map weights.getWeight).sum = 0 → ∀ seed priority,
      (pickWeightedPriority candidates weights seed = some priority ↔
        priority ∈ candidates ∧ ∀ other ∈ candidates, other.asI32 ≤ priority.asI32)) ∧
    ∀ n, ((candidates.take n).map weights.getWeight).sum < 2 ^ 64 := by
  refine ⟨fun _ => pickWeightedPriority_none_iff, fun _ _ => mem_of_pickWeightedPriority,
    fun hpos start priority hmem => ?_, fun hpos seed priority h => ?_,
    fun hzero seed priority => ?_, fun n => ?_⟩
  · have hpick : ∀ seed, pickWeightedPriority candidates weights seed
        = levelAt weights candidates (seed % (candidates.map weights.getWeight).sum) := by
      intro seed
      unfold pickWeightedPriority
      dsimp only
      rw [if_neg (by omega)]
    have hperiodic : Function.Periodic
        (fun seed => pickWeightedPriority candidates weights seed = some priority)
        (candidates.map weights.getWeight).sum := by
      intro seed
      dsimp only
      rw [hpick, hpick, Nat.add_mod_right]
    rw [Nat.filter_Ico_card_eq_of_periodic _ _ _ hperiodic, Nat.count_eq_card_filter_range,
      ← point_count weights candidates hnd hmem, Nat.count_eq_card_filter_range]
    refine congrArg Finset.card (Finset.filter_congr fun seed hseed => ?_)
    rw [hpick, Nat.mod_eq_of_lt (Finset.mem_range.1 hseed)]
  · unfold pickWeightedPriority at h
    dsimp only at h
    rw [if_neg (by omega)] at h
    exact (mem_of_levelAt weights candidates h).2
  · unfold pickWeightedPriority
    dsimp only
    rw [if_pos hzero]
    refine ⟨maxPriority_spec, fun ⟨hmem, hmax⟩ => ?_⟩
    cases hmost : maxPriority candidates with
    | none =>
        cases candidates with
        | nil => cases hmem
        | cons first rest => cases hmost
    | some highest =>
        obtain ⟨hin, habove⟩ := maxPriority_spec hmost
        exact congrArg some (asI32_inj (le_antisymm (hmax highest hin) (habove priority hmem)))
  · have hsum := sum_getWeight_le hu32 (candidates.take n)
    have hlength := length_levels_le (hnd.sublist (List.take_sublist n candidates))
    omega

/-- Weights for two of the levels. -/
def twoLevels : PriorityWeights := ⟨(∅ : Table JobPriority Nat).insert .critical 3, false⟩

/-- Of any four seeds in a row, three pick the critical level. -/
theorem pickWeightedPriority_exact_twoLevels :
    ((Finset.Ico 7 11).filter fun seed =>
      pickWeightedPriority [.critical, .low] twoLevels seed = some .critical).card = 3 := by
  have hu32 : twoLevels.U32 := by
    intro priority weight h
    have hw : weight = 3 := by
      cases priority <;> first | exact (Option.some.inj h).symm | cases h
    omega
  have hnd : [JobPriority.critical, .low].Nodup := by decide
  exact (pickWeightedPriority_exact hnd hu32).2.2.1 (by decide) 7 .critical (by decide)

end Hammerwork
