/-
Maps that iterate in the order of their keys, as sorted lists of entries.

A tree map kept by key is, seen from outside, the list of its entries in
key order. `SortedMap.insert` puts an entry where it belongs, or replaces
the value that is there; `SortedMap.Sorted` says that a list is such a map.
What an insertion does to a lookup needs no order (`lookup_insert`); that
the entries are exactly what can be looked up does (`mem_iff_lookup`).
-/
import Mathlib.Order.Lattice

namespace SortedMap

variable {κ ν : Type _} [LinearOrder κ]

/-- The entries are in strict key order. -/
def Sorted (m : List (κ × ν)) : Prop := m.Pairwise fun a b => a.1 < b.1

/-- The value at a key. -/
def lookup (k : κ) : List (κ × ν) → Option ν
  | [] => none
  | (k', v) :: m => if k = k' then some v else lookup k m

/-- Set the value at a key. -/
def insert (k : κ) (v : ν) : List (κ × ν) → List (κ × ν)
  | [] => [(k, v)]
  | (k', v') :: m =>
      if k < k' then
        (k, v) :: (k', v') :: m
      else if k = k' then
        (k, v) :: m
      else
        (k', v') :: insert k v m

-- == lookups

@[simp] theorem lookup_nil (k : κ) : lookup k ([] : List (κ × ν)) = none := rfl

@[simp] theorem lookup_cons (k k' : κ) (v : ν) (m : List (κ × ν)) :
    lookup k ((k', v) :: m) = if k = k' then some v else lookup k m := rfl

/-- An insertion changes the value at its key, and no other. -/
@[simp] theorem lookup_insert (k k' : κ) (v : ν) (m : List (κ × ν)) :
    lookup k' (insert k v m) = if k' = k then some v else lookup k' m := by
  induction m with
  | nil => rfl
  | cons e m ih =>
      obtain ⟨k₀, v₀⟩ := e
      simp only [insert]
      split
      case isTrue => rfl
      case isFalse =>
        split
        case isTrue heq =>
          subst heq
          simp only [lookup_cons]
          split <;> rfl
        case isFalse hne =>
          simp only [lookup_cons, ih]
          split
          case isTrue heq =>
            subst heq
            rw [if_neg (Ne.symm hne)]
          case isFalse => rfl

-- == entries

theorem mem_insert {k : κ} {v : ν} {m : List (κ × ν)} {e : κ × ν} (h : e ∈ insert k v m) :
    e = (k, v) ∨ e ∈ m := by
  induction m with
  | nil => exact .inl (List.mem_singleton.1 h)
  | cons e₀ m ih =>
      simp only [insert] at h
      split at h
      case isTrue => exact List.mem_cons.1 h
      case isFalse =>
        split at h
        case isTrue =>
          rcases List.mem_cons.1 h with rfl | h
          · exact .inl rfl
          · exact .inr (List.mem_cons_of_mem _ h)
        case isFalse =>
          rcases List.mem_cons.1 h with rfl | h
          · exact .inr List.mem_cons_self
          · exact (ih h).imp_right (List.mem_cons_of_mem _)

/-- An insertion keeps the entries in order. -/
theorem Sorted.insert {m : List (κ × ν)} (h : Sorted m) (k : κ) (v : ν) :
    Sorted (insert k v m) := by
  induction m with
  | nil => exact List.pairwise_singleton _ _
  | cons e m ih =>
      obtain ⟨k₀, v₀⟩ := e
      obtain ⟨hhead, htail⟩ := List.pairwise_cons.1 h
      simp only [SortedMap.insert]
      split
      case isTrue hlt =>
        refine List.pairwise_cons.2 ⟨?_, h⟩
        intro e he
        rcases List.mem_cons.1 he with rfl | he
        · exact hlt
        · exact lt_trans hlt (hhead e he)
      case isFalse hnlt =>
        split
        case isTrue heq =>
          subst heq
          exact List.pairwise_cons.2 ⟨hhead, htail⟩
        case isFalse hne =>
          refine List.pairwise_cons.2 ⟨?_, ih htail⟩
          intro e he
          rcases mem_insert he with rfl | he
          · exact lt_of_le_of_ne (le_of_not_gt hnlt) (Ne.symm hne)
          · exact hhead e he

/-- The entries of a map are what can be looked up. -/
theorem Sorted.mem_iff_lookup {m : List (κ × ν)} (h : Sorted m) {k : κ} {v : ν} :
    (k, v) ∈ m ↔ lookup k m = some v := by
  induction m with
  | nil => simp
  | cons e m ih =>
      obtain ⟨k₀, v₀⟩ := e
      obtain ⟨hhead, htail⟩ := List.pairwise_cons.1 h
      rw [List.mem_cons, ih htail, lookup_cons]
      split
      case isTrue heq =>
        subst heq
        have hnot : lookup k m ≠ some v := by
          intro hlookup
          exact lt_irrefl k (hhead _ ((ih htail).2 hlookup))
        simp [hnot, eq_comm]
      case isFalse hne => simp [hne]

end SortedMap
