/-
What a weighted pick picks: a candidate, and one whenever there are
candidates.

A point falls into one of the intervals the weights cut their sum into,
and the seed is first reduced modulo that sum; with no weights at all the
highest candidate is taken.
-/
import Hammerwork.Claim
import Hammerwork.Lib.Selection

namespace Hammerwork

variable {weights : PriorityWeights} {candidates : List JobPriority} {priority : JobPriority}

-- == the intervals

/-- A point within the sum of the weights is in some interval. -/
theorem levelAt_isSome (weights : PriorityWeights) : ∀ (candidates : List JobPriority)
    {point : Nat}, point < (candidates.map weights.getWeight).sum →
    (levelAt weights candidates point).isSome := by
  intro candidates
  induction candidates with
  | nil => intro point h; cases h
  | cons first rest ih =>
      intro point h
      rw [List.map_cons, List.sum_cons] at h
      rw [levelAt]
      split
      · rfl
      · exact ih (by omega)

/-- The level a point falls in is a candidate, and has a weight. -/
theorem mem_of_levelAt (weights : PriorityWeights) : ∀ (candidates : List JobPriority)
    {point : Nat}, levelAt weights candidates point = some priority →
    priority ∈ candidates ∧ 0 < weights.getWeight priority := by
  intro candidates
  induction candidates with
  | nil => intro point h; cases h
  | cons first rest ih =>
      intro point h
      rw [levelAt] at h
      split at h
      case isTrue hlt =>
        injection h with h
        subst h
        exact ⟨List.mem_cons_self .., by omega⟩
      case isFalse =>
        obtain ⟨hmem, hweight⟩ := ih h
        exact ⟨List.mem_cons_of_mem _ hmem, hweight⟩

-- == the highest level

/-- The highest level is one of them, and no other is above it. -/
theorem maxPriority_spec (h : maxPriority candidates = some priority) :
    priority ∈ candidates ∧ ∀ other ∈ candidates, other.asI32 ≤ priority.asI32 := by
  cases candidates with
  | nil => cases h
  | cons first rest =>
      injection h with h
      rw [← h]
      exact Selection.foldl_best (fun other best => other.asI32 ≤ best.asI32)
        (fun best next => best.asI32 ≤ next.asI32) (fun _ => le_refl _) le_trans (fun h => h)
        (fun h => Nat.le_of_lt (Nat.lt_of_not_le h)) rest first

/-- A level's number tells which it is. -/
theorem asI32_inj {a b : JobPriority} (h : a.asI32 = b.asI32) : a = b := by
  cases a <;> cases b <;> first | rfl | cases h

-- == the pick

/-- What is picked is a candidate. -/
theorem mem_of_pickWeightedPriority {seed : Nat}
    (h : pickWeightedPriority candidates weights seed = some priority) :
    priority ∈ candidates := by
  unfold pickWeightedPriority at h
  dsimp only at h
  split at h
  · exact (maxPriority_spec h).1
  · exact (mem_of_levelAt weights candidates h).1

/-- Nothing is picked only from nothing. -/
theorem pickWeightedPriority_none_iff {seed : Nat} :
    pickWeightedPriority candidates weights seed = none ↔ candidates = [] := by
  refine ⟨fun h => ?_, fun h => by rw [h]; rfl⟩
  unfold pickWeightedPriority at h
  dsimp only at h
  split at h
  case isTrue =>
    cases candidates with
    | nil => rfl
    | cons first rest => cases h
  case isFalse htotal =>
    have hsome := levelAt_isSome weights candidates
      (Nat.mod_lt seed (Nat.pos_of_ne_zero htotal))
    rw [h] at hsome
    cases hsome

end Hammerwork
