/-
A list regrouped by a key.

`grouped key l keys` lists the elements of `l` group by group, the groups
in the order of `keys` and the elements of a group in the order of `l`.
When the keys cover the list, it is a rearrangement of it
(`grouped_perm`).

A prefix of a list that is sorted by rank first (`Ranked`), as such a
list is, takes all groups but one wholly or not at all.
-/
import Mathlib.Data.List.Perm.Basic
import Mathlib.Data.List.Nodup
import Mathlib.Data.List.Pairwise

namespace Hammerwork.Grouping

variable {α κ : Type _} {key : α → κ} {l : List α} {keys : List κ}

/-- The groups stand in the order of `rank`, and each in the order of
`before`. -/
def Ranked (key : α → κ) (rank : κ → Nat) (before : α → α → Prop) (l : List α) : Prop :=
  l.Pairwise fun a b => rank (key a) < rank (key b) ∨ (key a = key b ∧ before a b)

/-- Within a group, the order may be replaced by one it implies. -/
theorem Ranked.mono {rank : κ → Nat} {before before' : α → α → Prop}
    (h : Ranked key rank before l)
    (himp : ∀ a b, key a = key b → before a b → before' a b) : Ranked key rank before' l :=
  List.Pairwise.imp (fun hab => hab.imp_right fun ⟨hkey, hbefore⟩ =>
    ⟨hkey, himp _ _ hkey hbefore⟩) h

section Grouped

variable [DecidableEq κ]

/-- The elements of `l`, one group after another. -/
def grouped (key : α → κ) (l : List α) (keys : List κ) : List α :=
  keys.flatMap fun k => l.filter (key · = k)

theorem mem_grouped {a : α} : a ∈ grouped key l keys ↔ a ∈ l ∧ key a ∈ keys := by
  unfold grouped
  simp only [List.mem_flatMap, List.mem_filter, decide_eq_true_eq]
  refine ⟨fun ⟨k, hk, ha, hkey⟩ => ⟨ha, hkey ▸ hk⟩, fun ⟨ha, hk⟩ => ⟨_, hk, ha, rfl⟩⟩

/-- Regrouping rearranges the elements whose keys are listed. -/
theorem grouped_perm_filter (hnd : keys.Nodup) :
    (grouped key l keys).Perm (l.filter (key · ∈ keys)) := by
  induction keys with
  | nil => simp [grouped]
  | cons k keys ih =>
      obtain ⟨hk, hnd⟩ := List.nodup_cons.1 hnd
      have hsplit := (List.filter_append_perm (key · = k) (l.filter (key · ∈ k :: keys))).symm
      rw [List.filter_filter, List.filter_filter] at hsplit
      have hfirst : (l.filter fun a => decide (key a = k) && decide (key a ∈ k :: keys))
          = l.filter (key · = k) := by
        refine List.filter_congr fun a _ => ?_
        by_cases h : key a = k <;> simp [h]
      have hrest : (l.filter fun a => (!decide (key a = k)) && decide (key a ∈ k :: keys))
          = l.filter (key · ∈ keys) := by
        refine List.filter_congr fun a _ => ?_
        by_cases h : key a = k
        · simp [h, hk]
        · simp [h]
      rw [hfirst, hrest] at hsplit
      exact ((ih hnd).append_left _).trans hsplit.symm

/-- Regrouping by keys that cover the list rearranges it. -/
theorem grouped_perm (hnd : keys.Nodup) (hcover : ∀ a ∈ l, key a ∈ keys) :
    (grouped key l keys).Perm l := by
  have hperm : (grouped key l keys).Perm (l.filter (key · ∈ keys)) := grouped_perm_filter hnd
  rwa [List.filter_eq_self.2 fun a ha => decide_eq_true (hcover a ha)] at hperm

/-- Regrouping a sorted list keeps the order within the groups. -/
theorem ranked_grouped {before : α → α → Prop} (hsorted : l.Pairwise before)
    (hnd : keys.Nodup) : Ranked key keys.idxOf before (grouped key l keys) := by
  unfold Ranked
  -- the order only matters between keys that are listed
  suffices h : ∀ (rank : κ → Nat) (some : List κ), some.Pairwise (fun k k' => rank k < rank k') →
      (grouped key l some).Pairwise fun a b =>
        rank (key a) < rank (key b) ∨ (key a = key b ∧ before a b) by
    refine h keys.idxOf keys (List.pairwise_iff_getElem.2 fun i j hi hj hij => ?_)
    rw [hnd.idxOf_getElem, hnd.idxOf_getElem]
    exact hij
  intro rank some hrank
  induction some with
  | nil => exact List.Pairwise.nil
  | cons k rest ih =>
      obtain ⟨hfirst, hrest⟩ := List.pairwise_cons.1 hrank
      show ((l.filter (key · = k)) ++ grouped key l rest).Pairwise _
      refine List.pairwise_append.2 ⟨?_, ih hrest, fun a ha b hb => ?_⟩
      · refine List.Pairwise.imp_of_mem (fun {a b} ha hb hab => .inr ⟨?_, hab⟩)
          (hsorted.sublist List.filter_sublist)
        rw [of_decide_eq_true (List.mem_filter.1 ha).2,
          of_decide_eq_true (List.mem_filter.1 hb).2]
      · rw [of_decide_eq_true (List.mem_filter.1 ha).2]
        exact .inl (hfirst _ (mem_grouped.1 hb).2)

end Grouped

section Prefix

variable {rank : κ → Nat} {before : α → α → Prop} {n : Nat} {a b a' b' : α}

/-- Of one group, the prefix takes the first elements. -/
theorem Ranked.first (h : Ranked key rank before l) (ha : a ∈ l.take n) (hb : b ∈ l.drop n)
    (hkey : key a = key b) : before a b := by
  rcases h.rel_of_mem_take_of_mem_drop ha hb with hlt | ⟨-, hbefore⟩
  · rw [hkey] at hlt
    exact absurd hlt (Nat.lt_irrefl _)
  · exact hbefore

/-- Of the groups, the prefix takes at most one partly. -/
theorem Ranked.partly (h : Ranked key rank before l) (ha : a ∈ l.take n) (hb : b ∈ l.drop n)
    (hkey : key a = key b) (ha' : a' ∈ l.take n) (hb' : b' ∈ l.drop n)
    (hkey' : key a' = key b') : key a = key a' := by
  -- each group is taken from before the rest of the other
  rcases h.rel_of_mem_take_of_mem_drop ha hb' with hlt | ⟨heq, -⟩
  · rcases h.rel_of_mem_take_of_mem_drop ha' hb with hlt' | ⟨heq, -⟩
    · rw [hkey] at hlt
      rw [hkey'] at hlt'
      omega
    · exact hkey.trans heq.symm
  · exact heq.trans hkey'.symm

end Prefix

end Hammerwork.Grouping
