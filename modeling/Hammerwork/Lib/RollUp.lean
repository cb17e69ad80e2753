/-
Merging neighbours of a list that have the same key.

`rollUp` goes through the parts in order; one with the key of the last
bucket is absorbed by that, any other begins a new one. What is additive
in the parts keeps its sum (`tally_rollUp`). Where the keys come in order,
there is one bucket for each of them, in strict order (`pairwise_rollUp`,
`mem_map_rollUp`).
-/
import Hammerwork.Lib.Tally
import Mathlib.Data.List.Induction
import Mathlib.Order.Basic

namespace RollUp

variable {α κ : Type _} [DecidableEq κ] {key : α → κ} {absorb : α → α → α} {parts : List α}

/-- Adds a part to the last bucket, or to a new one. -/
def step (key : α → κ) (absorb : α → α → α) (buckets : List α) (part : α) : List α :=
  match buckets.getLast? with
  | some last =>
      if key last = key part then buckets.dropLast ++ [absorb last part] else buckets ++ [part]
  | none => [part]

def rollUp (key : α → κ) (absorb : α → α → α) (parts : List α) : List α :=
  parts.foldl (step key absorb) []

theorem step_nil (part : α) : step key absorb [] part = [part] := rfl

theorem step_concat (buckets : List α) (last part : α) :
    step key absorb (buckets ++ [last]) part
      = if key last = key part then buckets ++ [absorb last part]
        else buckets ++ [last] ++ [part] := by
  unfold step
  rw [List.getLast?_concat, List.dropLast_concat]

theorem rollUp_concat (parts : List α) (part : α) :
    rollUp key absorb (parts ++ [part]) = step key absorb (rollUp key absorb parts) part := by
  unfold rollUp
  rw [List.foldl_concat]

/-- Where no key comes twice, there is nothing to merge. -/
theorem rollUp_of_pairwise (h : parts.Pairwise fun a b => key a ≠ key b) :
    rollUp key absorb parts = parts := by
  induction parts using List.reverseRecOn with
  | nil => rfl
  | append_singleton parts part ih =>
      obtain ⟨hparts, -, hlast⟩ := List.pairwise_append.1 h
      rw [rollUp_concat, ih hparts]
      rcases List.eq_nil_or_concat' parts with rfl | ⟨front, last, rfl⟩
      · rfl
      · rw [step_concat, if_neg]
        exact hlast last (List.mem_append_right _ (List.mem_singleton_self last)) part
          (List.mem_singleton_self part)

/-- A sum over the parts is one over the buckets. -/
theorem tally_rollUp {f : α → Nat} (hf : ∀ a b, f (absorb a b) = f a + f b) (parts : List α) :
    tally f (rollUp key absorb parts) = tally f parts := by
  induction parts using List.reverseRecOn with
  | nil => rfl
  | append_singleton parts part ih =>
      rw [rollUp_concat, Tally.tally_concat, ← ih]
      rcases List.eq_nil_or_concat' (rollUp key absorb parts) with hnil | ⟨buckets, last, hlast⟩
      · rw [hnil, step_nil]
        simp
      · rw [hlast, step_concat]
        split
        case isTrue =>
          rw [Tally.tally_concat, Tally.tally_concat, hf]
          exact (Nat.add_assoc ..).symm
        case isFalse => rw [Tally.tally_concat]

/-- The keys of the buckets are those of the parts. -/
theorem mem_map_rollUp (hkey : ∀ a b, key (absorb a b) = key a) {k : κ} :
    k ∈ (rollUp key absorb parts).map key ↔ k ∈ parts.map key := by
  induction parts using List.reverseRecOn with
  | nil => exact Iff.rfl
  | append_singleton parts part ih =>
      rw [rollUp_concat, List.map_append, List.mem_append, ← ih]
      rcases List.eq_nil_or_concat' (rollUp key absorb parts) with hnil | ⟨buckets, last, hlast⟩
      · rw [hnil, step_nil]
        simp
      · rw [hlast, step_concat]
        split
        case isTrue heq =>
          simp only [List.map_append, List.map_cons, List.map_nil, List.mem_append,
            List.mem_singleton, hkey, heq]
          exact ⟨.inl, fun h => h.elim id fun h => .inr h⟩
        case isFalse =>
          simp only [List.map_append, List.map_cons, List.map_nil, List.mem_append,
            List.mem_singleton]

/-- Keys in order are those of buckets in strict order. -/
theorem pairwise_rollUp [PartialOrder κ] (hkey : ∀ a b, key (absorb a b) = key a)
    (h : parts.Pairwise fun a b => key a ≤ key b) :
    (rollUp key absorb parts).Pairwise fun a b => key a < key b := by
  induction parts using List.reverseRecOn with
  | nil => exact List.Pairwise.nil
  | append_singleton parts part ih =>
      obtain ⟨hparts, -, hlast⟩ := List.pairwise_append.1 h
      have hbuckets := ih hparts
      have hbefore : ∀ bucket ∈ rollUp key absorb parts, key bucket ≤ key part := by
        intro bucket hbucket
        have hmem := (mem_map_rollUp hkey).1 (List.mem_map_of_mem hbucket)
        obtain ⟨a, ha, heq⟩ := List.mem_map.1 hmem
        rw [← heq]
        exact hlast a ha part (List.mem_singleton_self part)
      rw [rollUp_concat]
      rcases List.eq_nil_or_concat' (rollUp key absorb parts) with hnil | ⟨buckets, last, heq⟩
      · rw [hnil, step_nil]
        exact List.pairwise_singleton _ _
      · rw [heq, step_concat]
        rw [heq] at hbuckets hbefore
        obtain ⟨hfront, -, hlt⟩ := List.pairwise_append.1 hbuckets
        split
        case isTrue =>
          refine List.pairwise_append.2 ⟨hfront, List.pairwise_singleton _ _, fun a ha b hb => ?_⟩
          obtain rfl := List.mem_singleton.1 hb
          rw [hkey]
          exact hlt a ha last (List.mem_singleton_self last)
        case isFalse hne =>
          refine List.pairwise_append.2 ⟨hbuckets, List.pairwise_singleton _ _, fun a ha b hb => ?_⟩
          obtain rfl := List.mem_singleton.1 hb
          have hlastlt := lt_of_le_of_ne
            (hbefore last (List.mem_append_right _ (List.mem_singleton_self last))) hne
          rcases List.mem_append.1 ha with ha | ha
          · exact lt_trans (hlt a ha last (List.mem_singleton_self last)) hlastlt
          · rw [List.mem_singleton.1 ha]
            exact hlastlt

end RollUp
