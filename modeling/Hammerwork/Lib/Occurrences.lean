/-
The occurrences of a schedule, visited one after another.

A schedule is a set of instants, `occurs`, of a discrete order: only
finitely many lie between two given ones. It is read through a function
`next` that finds the first occurrence after an instant (`FindsNext`).

Between `t` and `u` there are the occurrences of `between occurs t u`.
Stepping from `t` to `next t` leaves exactly one of them behind
(`FindsNext.between_eq_insert`), and when `next` finds none up to `u`
there is none (`FindsNext.between_eq_empty`): so a loop that steps as
long as it can ends at the last occurrence, after as many steps as there
are occurrences.
-/
import Mathlib.Data.Set.Card
import Mathlib.Order.Interval.Finset.Basic
import Mathlib.Data.Set.Finite.Lemmas
import Mathlib.Algebra.Order.Ring.Int

namespace Hammerwork.Occurrences

variable {α : Type _} [LinearOrder α] {occurs : α → Prop} {next : α → Option α} {t u v : α}

/-- `next t` is the first occurrence after `t`, if there is one. -/
def FindsNext (next : α → Option α) (occurs : α → Prop) : Prop :=
  ∀ t u, next t = some u ↔ IsLeast {v | t < v ∧ occurs v} u

/-- The occurrences after `t` and up to `u`. -/
def between (occurs : α → Prop) (t u : α) : Set α := {v | t < v ∧ v ≤ u ∧ occurs v}

@[simp] theorem mem_between : v ∈ between occurs t u ↔ t < v ∧ v ≤ u ∧ occurs v := Iff.rfl

theorem FindsNext.lt (h : FindsNext next occurs) (hnext : next t = some u) : t < u :=
  ((h t u).1 hnext).1.1

theorem FindsNext.occurs_of_eq (h : FindsNext next occurs) (hnext : next t = some u) : occurs u :=
  ((h t u).1 hnext).1.2

theorem FindsNext.le (h : FindsNext next occurs) (hnext : next t = some u) (htv : t < v)
    (hv : occurs v) : u ≤ v :=
  ((h t u).1 hnext).2 ⟨htv, hv⟩

/-- One step leaves one occurrence behind. -/
theorem FindsNext.between_eq_insert (h : FindsNext next occurs) (hnext : next t = some v)
    (hvu : v ≤ u) : between occurs t u = insert v (between occurs v u) := by
  ext w
  rw [Set.mem_insert_iff, mem_between, mem_between]
  constructor
  · intro ⟨htw, hwu, hw⟩
    rcases (h.le hnext htw hw).eq_or_lt with heq | hlt
    · exact .inl heq.symm
    · exact .inr ⟨hlt, hwu, hw⟩
  · rintro (rfl | ⟨hvw, hwu, hw⟩)
    · exact ⟨h.lt hnext, hvu, h.occurs_of_eq hnext⟩
    · exact ⟨(h.lt hnext).trans hvw, hwu, hw⟩

section Discrete

variable [LocallyFiniteOrder α]

theorem finite_between (occurs : α → Prop) (t u : α) : (between occurs t u).Finite :=
  (Set.finite_Ioc t u).subset fun _ hv => ⟨hv.1, hv.2.1⟩

/-- When no step stays within `u`, there is no occurrence up to `u`. -/
theorem FindsNext.between_eq_empty (h : FindsNext next occurs)
    (hnext : ∀ v, next t = some v → u < v) : between occurs t u = ∅ := by
  by_contra hne
  obtain ⟨v, hv, hmin⟩ := Set.exists_min_image (between occurs t u) id
    (finite_between occurs t u) (Set.nonempty_iff_ne_empty.2 hne)
  have hleast : IsLeast {w | t < w ∧ occurs w} v := by
    refine ⟨⟨hv.1, hv.2.2⟩, fun w ⟨htw, hw⟩ => ?_⟩
    rcases le_total w u with hwu | huw
    · exact hmin w ⟨htw, hwu, hw⟩
    · exact hv.2.1.trans huw
  exact absurd (hnext v ((h t v).2 hleast)) (not_lt.2 hv.2.1)

/-- Each step counts. -/
theorem FindsNext.ncard_between (h : FindsNext next occurs) (hnext : next t = some v)
    (hvu : v ≤ u) : (between occurs t u).ncard = (between occurs v u).ncard + 1 := by
  rw [h.between_eq_insert hnext hvu]
  exact Set.ncard_insert_of_notMem (fun hv => lt_irrefl v hv.1) (finite_between occurs v u)

end Discrete

-- == every period

/-- The multiples of a period are found by division. -/
theorem findsNext_multiples {period : Int} (hpos : 0 < period) :
    FindsNext (fun t => some ((t / period + 1) * period)) (period ∣ ·) := by
  intro t u
  have hlt : t < (t / period + 1) * period := Int.lt_ediv_add_one_mul_self t hpos
  have hle : t / period * period ≤ t := Int.ediv_mul_le t (ne_of_gt hpos)
  have hleast : IsLeast {v | t < v ∧ period ∣ v} ((t / period + 1) * period) := by
    refine ⟨⟨hlt, Dvd.intro_left _ rfl⟩, fun v ⟨htv, hv⟩ => ?_⟩
    obtain ⟨k, rfl⟩ := hv
    rw [mul_comm period k] at htv ⊢
    have hk : t / period < k := by
      by_contra hk
      exact absurd (htv.trans_le (Int.mul_le_mul_of_nonneg_right (not_lt.1 hk) hpos.le))
        (not_lt.2 hle)
    exact Int.mul_le_mul_of_nonneg_right hk hpos.le
  constructor
  · intro h
    rw [← Option.some.inj h]
    exact hleast
  · intro h
    exact congrArg some (hleast.unique h)

end Hammerwork.Occurrences
