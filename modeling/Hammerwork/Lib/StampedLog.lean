/-
A log kept in the order of its stamps.

An entry that comes late is put behind those that are not later
(`insertStamped`). The log stays sorted, and the entries of a kind are
where one would have put them: if those before are not later and those
after are, the entry stands between them (`filter_insertStamped`).
-/
import Mathlib.Data.List.Basic
import Mathlib.Data.List.Pairwise
import Mathlib.Data.List.TakeWhile
import Mathlib.Order.Lattice

namespace StampedLog

variable {α κ : Type _} [LinearOrder κ] {stamp : α → κ} {l front back : List α} {a : α}

/-- Put `a` behind the entries that are not later. -/
def insertStamped (stamp : α → κ) (a : α) (l : List α) : List α :=
  l.takeWhile (stamp · ≤ stamp a) ++ a :: l.dropWhile (stamp · ≤ stamp a)

theorem mem_insertStamped {x : α} : x ∈ insertStamped stamp a l ↔ x = a ∨ x ∈ l := by
  unfold insertStamped
  rw [List.mem_append, List.mem_cons, or_left_comm, ← List.mem_append,
    List.takeWhile_append_dropWhile]

theorem length_insertStamped : (insertStamped stamp a l).length = l.length + 1 := by
  unfold insertStamped
  rw [List.length_append, List.length_cons, ← Nat.add_assoc, ← List.length_append,
    List.takeWhile_append_dropWhile]

/-- No entry is later than the next. -/
def Sorted (stamp : α → κ) (l : List α) : Prop := l.Pairwise fun a b => stamp a ≤ stamp b

/-- The entries that are not later are the first ones. -/
theorem Sorted.takeWhile_eq (h : Sorted stamp l) (k : κ) :
    l.takeWhile (stamp · ≤ k) = l.filter (stamp · ≤ k) := by
  induction l with
  | nil => rfl
  | cons x l ih =>
      obtain ⟨hx, hl⟩ := List.pairwise_cons.1 h
      by_cases hk : stamp x ≤ k
      · simp [hk, ih hl]
      · have hnone : ∀ y ∈ l, ¬ stamp y ≤ k := fun y hy hle => hk ((hx y hy).trans hle)
        simp only [List.takeWhile_cons, List.filter_cons, hk, decide_false]
        simpa using hnone

theorem Sorted.dropWhile_eq (h : Sorted stamp l) (k : κ) :
    l.dropWhile (stamp · ≤ k) = l.filter (k < stamp ·) := by
  induction l with
  | nil => rfl
  | cons x l ih =>
      obtain ⟨hx, hl⟩ := List.pairwise_cons.1 h
      by_cases hk : stamp x ≤ k
      · simp [hk, ih hl, not_lt.2 hk]
      · have hall : ∀ y ∈ l, k < stamp y := fun y hy => lt_of_lt_of_le (not_le.1 hk) (hx y hy)
        simp only [List.dropWhile_cons, List.filter_cons, hk, decide_false, not_le.1 hk,
          decide_true, if_true]
        rw [List.filter_eq_self.2 fun y hy => decide_eq_true (hall y hy)]
        simp

theorem Sorted.insertStamped (h : Sorted stamp l) (a : α) :
    Sorted stamp (insertStamped stamp a l) := by
  unfold StampedLog.insertStamped
  rw [h.takeWhile_eq, h.dropWhile_eq]
  refine List.pairwise_append.2 ⟨List.Pairwise.filter _ h, List.pairwise_cons.2
    ⟨fun y hy => ?_, List.Pairwise.filter _ h⟩, fun x hx y hy => ?_⟩
  · exact le_of_lt (by simpa using (List.mem_filter.1 hy).2)
  · have hxa : stamp x ≤ stamp a := by simpa using (List.mem_filter.1 hx).2
    rcases List.mem_cons.1 hy with rfl | hy
    · exact hxa
    · have hay : stamp a < stamp y := by simpa using (List.mem_filter.1 hy).2
      exact hxa.trans (le_of_lt hay)

/-- An entry that is not earlier than the last comes last. -/
theorem insertStamped_eq_append (h : ∀ x ∈ l, stamp x ≤ stamp a) :
    insertStamped stamp a l = l ++ [a] := by
  have hall : ∀ x ∈ l, decide (stamp x ≤ stamp a) = true := fun x hx => decide_eq_true (h x hx)
  unfold insertStamped
  rw [List.takeWhile_eq_self_iff.2 hall, List.dropWhile_eq_nil_iff.2 hall]

/-- In a sorted log nothing is later than the last entry. -/
theorem Sorted.le_of_getLast (h : Sorted stamp l) {k : κ}
    (hlast : ∀ x ∈ l.getLast?, stamp x ≤ k) : ∀ x ∈ l, stamp x ≤ k := by
  intro x hx
  rcases List.eq_nil_or_concat l with rfl | ⟨l, y, rfl⟩
  · cases hx
  · have hy : stamp y ≤ k := hlast y (by simp)
    rw [List.concat_eq_append] at h hx
    rcases List.mem_append.1 hx with hx | hx
    · exact ((List.pairwise_append.1 h).2.2 x hx y (List.mem_singleton_self y)).trans hy
    · rw [List.mem_singleton.1 hx]
      exact hy

/-- The entries of other kinds stay as they are. -/
theorem filter_insertStamped_of_not {p : α → Bool} (ha : p a = false) (l : List α) :
    (insertStamped stamp a l).filter p = l.filter p := by
  unfold insertStamped
  rw [List.filter_append, List.filter_cons, ha, if_neg Bool.false_ne_true, ← List.filter_append,
    List.takeWhile_append_dropWhile]

/-- Among those of its kind, the entry stands where the stamps say. -/
theorem filter_insertStamped {p : α → Bool} (h : Sorted stamp l) (ha : p a = true)
    (hl : l.filter p = front ++ back) (hfront : ∀ x ∈ front, stamp x ≤ stamp a)
    (hback : ∀ x ∈ back, stamp a < stamp x) :
    (insertStamped stamp a l).filter p = front ++ a :: back := by
  have hfirst : (l.filter (stamp · ≤ stamp a)).filter p = front := by
    rw [List.filter_comm, hl, List.filter_append,
      List.filter_eq_self.2 fun x hx => decide_eq_true (hfront x hx),
      List.filter_eq_nil_iff.2 fun x hx => by simpa using hback x hx, List.append_nil]
  have hlast : (l.filter (stamp a < stamp ·)).filter p = back := by
    rw [List.filter_comm, hl, List.filter_append,
      List.filter_eq_nil_iff.2 fun x hx => by simpa using hfront x hx,
      List.filter_eq_self.2 fun x hx => decide_eq_true (hback x hx), List.nil_append]
  unfold insertStamped
  rw [h.takeWhile_eq, h.dropWhile_eq, List.filter_append, List.filter_cons, if_pos ha, hfirst,
    hlast]

end StampedLog
