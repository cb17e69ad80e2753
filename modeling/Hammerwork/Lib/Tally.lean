/-
Totals over a list of parts of which one changes at a time.

`tally f parts` adds up what `f` says of each part. A step that replaces
one part (`tally_set`) changes the total by what the part changed, a new
part (`tally_concat`) adds its own, and one taken out (`tally_eraseIdx`)
takes it away; what holds of each part's share holds of the totals
(`tally_add`, `tally_congr`, `tally_ite`).

What is where after such a step is `getElem?_replaced` and
`getElem?_added`.
-/
import Mathlib.Data.List.Basic
import Mathlib.Algebra.BigOperators.Group.List.Basic
import Mathlib.Algebra.Ring.Nat

/-- The sum of `f` over the parts. -/
def tally {α : Type _} (f : α → Nat) (parts : List α) : Nat := (parts.map f).sum

namespace Tally

variable {α : Type _} {f g : α → Nat} {parts : List α}

@[simp] theorem tally_nil (f : α → Nat) : tally f [] = 0 := rfl

@[simp] theorem tally_cons (f : α → Nat) (a : α) (parts : List α) :
    tally f (a :: parts) = f a + tally f parts := by
  simp [tally]

@[simp] theorem tally_concat (f : α → Nat) (parts : List α) (a : α) :
    tally f (parts ++ [a]) = tally f parts + f a := by
  simp [tally]

/-- A part is replaced. -/
theorem tally_set (f : α → Nat) {i : Nat} {a b : α} (h : parts[i]? = some a) :
    tally f (parts.set i b) + f a = tally f parts + f b := by
  induction parts generalizing i with
  | nil => cases h
  | cons p parts ih =>
      cases i with
      | zero =>
          cases h
          simp only [List.set_cons_zero, tally_cons]
          omega
      | succ i =>
          have hrest := ih h
          simp only [List.set_cons_succ, tally_cons]
          omega

/-- A part is taken out. -/
theorem tally_eraseIdx (f : α → Nat) {i : Nat} {a : α} (h : parts[i]? = some a) :
    tally f (parts.eraseIdx i) + f a = tally f parts := by
  induction parts generalizing i with
  | nil => cases h
  | cons p parts ih =>
      cases i with
      | zero =>
          cases h
          simp only [List.eraseIdx_zero, List.tail_cons, tally_cons]
          omega
      | succ i =>
          have hrest := ih h
          simp only [List.eraseIdx_cons_succ, tally_cons]
          omega

theorem tally_add (f g : α → Nat) (parts : List α) :
    tally (fun a => f a + g a) parts = tally f parts + tally g parts := by
  induction parts with
  | nil => rfl
  | cons a parts ih =>
      simp only [tally_cons, ih]
      omega

theorem tally_congr (h : ∀ a ∈ parts, f a = g a) : tally f parts = tally g parts := by
  rw [tally, tally, List.map_congr_left h]

/-- Only the parts of a kind count. -/
theorem tally_ite (p : α → Bool) (f : α → Nat) (parts : List α) :
    tally (fun a => if p a then f a else 0) parts = tally f (parts.filter p) := by
  induction parts with
  | nil => rfl
  | cons a parts ih =>
      by_cases ha : p a
      · rw [tally_cons, ih, List.filter_cons_of_pos ha, tally_cons, if_pos ha]
      · rw [tally_cons, ih, List.filter_cons_of_neg ha, if_neg ha, Nat.zero_add]

theorem tally_eq_zero : tally f parts = 0 ↔ ∀ a ∈ parts, f a = 0 := by
  induction parts with
  | nil => simp
  | cons a parts ih => rw [tally_cons, Nat.add_eq_zero_iff, ih, List.forall_mem_cons]

/-- The order of the parts does not matter. -/
theorem tally_perm {parts' : List α} (h : parts.Perm parts') : tally f parts = tally f parts' :=
  (h.map f).sum_eq

/-- Parts of parts. -/
theorem tally_flatMap {β : Type _} (f : α → Nat) (g : β → List α) (groups : List β) :
    tally f (groups.flatMap g) = tally (fun b => tally f (g b)) groups := by
  induction groups with
  | nil => rfl
  | cons b groups ih =>
      rw [List.flatMap_cons, tally_cons, ← ih]
      simp [tally]

/-- Counting the parts of a kind. -/
theorem tally_countP (p : α → Bool) (parts : List α) :
    tally (fun a => if p a then 1 else 0) parts = parts.countP p := by
  induction parts with
  | nil => rfl
  | cons a parts ih =>
      rw [tally_cons, ih, List.countP_cons, Nat.add_comm]

/-- Totals of totals, in either order. -/
theorem tally_comm {β : Type _} (f : α → β → Nat) (as : List α) (bs : List β) :
    tally (fun a => tally (f a) bs) as = tally (fun b => tally (f · b) as) bs := by
  induction as with
  | nil => exact (tally_eq_zero.2 fun _ _ => rfl).symm
  | cons a as ih =>
      rw [tally_cons, ih, ← tally_add]
      exact tally_congr fun b _ => (tally_cons (f · b) a as).symm

/-- Counting the elements of one list in another, or the other way. -/
theorem tally_count_comm [DecidableEq α] (l keys : List α) :
    tally (l.count ·) keys = tally (keys.count ·) l := by
  induction l with
  | nil => exact tally_eq_zero.2 fun _ _ => rfl
  | cons a l ih =>
      rw [tally_cons, ← ih, List.count_eq_countP, ← tally_countP, ← tally_add]
      refine tally_congr fun k _ => ?_
      rw [List.count_cons, Nat.add_comm, BEq.comm]

-- == what is where

/-- After one part is replaced, it is in its place and the others are in
theirs. -/
theorem getElem?_replaced {parts : List α} {i j : Nat} {a b x : α} (h : parts[i]? = some a) :
    (parts.set i b)[j]? = some x ↔ (j = i ∧ x = b) ∨ (j ≠ i ∧ parts[j]? = some x) := by
  obtain ⟨hlt, -⟩ := List.getElem?_eq_some_iff.1 h
  rw [List.getElem?_set]
  by_cases hij : i = j
  · subst hij
    simp [hlt, eq_comm]
  · simp [hij, Ne.symm hij]

/-- A new part is last, and the others are in their places. -/
theorem getElem?_added {parts : List α} {j : Nat} {b x : α} :
    (parts ++ [b])[j]? = some x ↔ parts[j]? = some x ∨ (j = parts.length ∧ x = b) := by
  rw [List.getElem?_append]
  by_cases hlt : j < parts.length
  · simp [hlt, Nat.ne_of_lt hlt]
  · rw [if_neg hlt, List.getElem?_singleton, List.getElem?_eq_none (Nat.le_of_not_lt hlt)]
    by_cases heq : j = parts.length
    · simp [heq, eq_comm]
    · have hne : j - parts.length ≠ 0 := by omega
      simp [heq, hne]

end Tally
