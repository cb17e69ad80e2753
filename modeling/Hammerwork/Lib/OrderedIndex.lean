/-
A table with an index that orders its values.

The index lists a key for every entry of the table, in strictly
increasing order, and nothing else (`Aligned`). What is put into the
table, taken out of it, or popped off the front of the index is put into
or taken out of both, so they stay aligned; in particular they have the
same number of entries.
-/
import Hammerwork.Lib.Table

namespace Hammerwork.OrderedIndex

variable {κ ι ν : Type _} [DecidableEq ι] {lt : κ → κ → Prop} {key : ν → κ}
  {order order' : List (κ × ι)} {table : Table ι ν} {k : κ} {i : ι} {v : ν}

/-- The index holds the keys of the entries, in order. -/
structure Aligned (lt : κ → κ → Prop) (key : ν → κ) (order : List (κ × ι))
    (table : Table ι ν) : Prop where
  sorted : order.Pairwise fun a b => lt a.1 b.1
  mem : ∀ k i, (k, i) ∈ order ↔ ∃ v, table.lookup i = some v ∧ key v = k

theorem aligned_nil : Aligned lt key [] (∅ : Table ι ν) where
  sorted := List.Pairwise.nil
  mem k i := ⟨fun h => (by cases h), fun ⟨v, hv, _⟩ => by cases hv⟩

/-- A key stands in the index once. -/
theorem Aligned.unique (hirrefl : ∀ a, ¬ lt a a) (h : Aligned lt key order table) {j : ι}
    (hi : (k, i) ∈ order) (hj : (k, j) ∈ order) : i = j := by
  have hne : order.Pairwise fun a b => a.1 ≠ b.1 := by
    refine h.sorted.imp fun {a b} hlt heq => ?_
    rw [heq] at hlt
    exact hirrefl _ hlt
  have hsymm : Std.Symm fun a b : κ × ι => a.1 ≠ b.1 := ⟨fun _ _ h => Ne.symm h⟩
  by_contra hij
  exact hne.forall hi hj (fun heq => hij (Prod.mk.inj heq).2) rfl

/-- The index and the table hold the same entries. -/
theorem Aligned.perm_keys (hirrefl : ∀ a, ¬ lt a a) (h : Aligned lt key order table) :
    (order.map Prod.snd).Perm table.keys := by
  refine (List.perm_ext_iff_of_nodup ?_ table.nodupKeys).2 fun i => ?_
  · refine List.pairwise_map.2 (h.sorted.imp_of_mem fun {a b} ha hb hlt heq => ?_)
    obtain ⟨v, hv, ha'⟩ := (h.mem a.1 a.2).1 ha
    obtain ⟨w, hw, hb'⟩ := (h.mem b.1 b.2).1 hb
    -- entries of one place are the same, and so are their keys
    rw [heq, hw] at hv
    rw [← ha', ← hb', Option.some.inj hv] at hlt
    exact hirrefl _ hlt
  · rw [List.mem_map]
    refine ⟨fun ⟨e, he, hi⟩ => ?_, fun hi => ?_⟩
    · obtain ⟨v, hv, -⟩ := (h.mem e.1 e.2).1 he
      exact hi ▸ Table.mem_keys_of_lookup hv
    · obtain ⟨v, hv⟩ := Option.isSome_iff_exists.1 (AList.lookup_isSome.2 hi)
      exact ⟨(key v, i), (h.mem _ _).2 ⟨v, hv, rfl⟩, rfl⟩

theorem Aligned.length_eq (hirrefl : ∀ a, ¬ lt a a) (h : Aligned lt key order table) :
    order.length = table.entries.length := by
  have hlength := (h.perm_keys hirrefl).length_eq
  rw [List.length_map] at hlength
  rw [hlength]
  exact List.length_map _

/-- An entry taken out of both. -/
theorem Aligned.erase [DecidableEq κ] (hirrefl : ∀ a, ¬ lt a a) (h : Aligned lt key order table)
    (hv : table.lookup i = some v) :
    Aligned lt key (order.filter (·.1 ≠ key v)) (table.erase i) where
  sorted := h.sorted.sublist List.filter_sublist
  mem k j := by
    have hin : (key v, i) ∈ order := (h.mem _ _).2 ⟨v, hv, rfl⟩
    rw [List.mem_filter, h.mem, Table.lookup_erase_if]
    constructor
    · rintro ⟨⟨w, hw, hk⟩, hne⟩
      have hji : j ≠ i := by
        rintro rfl
        rw [hv] at hw
        rw [Option.some.inj hw] at hne
        exact of_decide_eq_true hne hk.symm
      exact ⟨w, by rwa [if_neg hji], hk⟩
    · rintro ⟨w, hw, hk⟩
      split at hw
      case isTrue => cases hw
      case isFalse hji =>
        refine ⟨⟨w, hw, hk⟩, decide_eq_true fun heq => hji ?_⟩
        dsimp only at heq
        exact h.unique hirrefl ((h.mem k j).2 ⟨w, hw, hk⟩) (by rwa [heq])

/-- The first entry popped off both. -/
theorem Aligned.pop (hirrefl : ∀ a, ¬ lt a a) (h : Aligned lt key ((k, i) :: order) table) :
    Aligned lt key order (table.erase i) where
  sorted := (List.pairwise_cons.1 h.sorted).2
  mem k' j := by
    obtain ⟨v, hv, hk⟩ := (h.mem k i).1 (List.mem_cons_self ..)
    have hlater : ∀ e ∈ order, lt k e.1 := (List.pairwise_cons.1 h.sorted).1
    rw [Table.lookup_erase_if]
    constructor
    · intro hmem
      obtain ⟨w, hw, hk'⟩ := (h.mem k' j).1 (List.mem_cons_of_mem _ hmem)
      have hji : j ≠ i := by
        rintro rfl
        rw [hv] at hw
        have hlt := hlater _ hmem
        rw [← hk', ← hk, Option.some.inj hw] at hlt
        exact hirrefl _ hlt
      exact ⟨w, by rwa [if_neg hji], hk'⟩
    · rintro ⟨w, hw, hk'⟩
      split at hw
      case isTrue => cases hw
      case isFalse hji =>
        rcases List.mem_cons.1 ((h.mem k' j).2 ⟨w, hw, hk'⟩) with heq | hmem
        · exact absurd (Prod.mk.inj heq).2 hji
        · exact hmem

/-- An entry put into both, under a key that is not there. -/
theorem Aligned.insert (h : Aligned lt key order table) (hnone : table.lookup i = none)
    (hsorted : order'.Pairwise fun a b => lt a.1 b.1)
    (hperm : order'.Perm ((key v, i) :: order)) :
    Aligned lt key order' (table.insert i v) where
  sorted := hsorted
  mem k j := by
    rw [hperm.mem_iff, List.mem_cons, h.mem, Table.lookup_insert_if]
    constructor
    · rintro (heq | ⟨w, hw, hk⟩)
      · obtain ⟨rfl, rfl⟩ := Prod.mk.inj heq
        exact ⟨v, if_pos rfl, rfl⟩
      · have hji : j ≠ i := by
          rintro rfl
          rw [hnone] at hw
          cases hw
        exact ⟨w, by rwa [if_neg hji], hk⟩
    · rintro ⟨w, hw, hk⟩
      split at hw
      case isTrue hji =>
        rw [← Option.some.inj hw] at hk
        exact .inl (by rw [hji, hk])
      case isFalse => exact .inr ⟨w, hw, hk⟩

end Hammerwork.OrderedIndex
