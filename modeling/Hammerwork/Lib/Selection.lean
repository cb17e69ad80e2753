/-
Taking the best element of a list again and again.

`pickAll` takes what `pick` chooses out of a list, up to `n` times;
elements are told apart by a key. If `pick` always chooses an element
that comes before all others in a total order, this is selection sort:
it gives the first `n` elements of the list as sorted
(`pickAll_eq_mergeSort`).

The order need only be antisymmetric on the elements of the list, so
that ties which do not occur in it do not matter.

A fold that keeps the better of two elements chooses a best one
(`foldl_best`).
-/
import Mathlib.Data.List.Basic
import Mathlib.Data.List.Perm.Basic
import Mathlib.Data.List.Nodup

namespace Hammerwork.Selection

variable {α κ : Type _} [DecidableEq κ] {pick : List α → Option α} {key : α → κ}

/-- What `pick` chooses, in order, when each choice is taken out of the
list before the next. -/
def pickAll (pick : List α → Option α) (key : α → κ) : Nat → List α → List α
  | 0, _ => []
  | n + 1, l =>
      match pick l with
      | none => []
      | some a => a :: pickAll pick key n (l.filter (key · ≠ key a))

/-- From `l` and what is left of it, `pick` chooses a first element. -/
structure Picks (pick : List α → Option α) (le : α → α → Bool) (l : List α) : Prop where
  first : ∀ l' a, l'.Sublist l → pick l' = some a → a ∈ l' ∧ ∀ b ∈ l', le a b = true
  some : ∀ l', l'.Sublist l → l' ≠ [] → (pick l').isSome

variable {le : α → α → Bool} {l l' : List α}

theorem Picks.sublist (h : Picks pick le l) (hsub : l'.Sublist l) : Picks pick le l' where
  first l'' a h'' := h.first l'' a (h''.trans hsub)
  some l'' h'' := h.some l'' (h''.trans hsub)

/-- An element and the others, when keys are distinct. -/
theorem perm_cons_filter {a : α} (hnd : (l.map key).Nodup) (ha : a ∈ l) :
    (a :: l.filter (key · ≠ key a)).Perm l := by
  induction l with
  | nil => cases ha
  | cons b l ih =>
      rw [List.map_cons, List.nodup_cons] at hnd
      rcases List.mem_cons.1 ha with rfl | ha
      · have hrest : l.filter (key · ≠ key a) = l := by
          refine List.filter_eq_self.2 fun b hb => decide_eq_true fun heq => ?_
          exact hnd.1 (List.mem_map.2 ⟨b, hb, heq⟩)
        rw [List.filter_cons_of_neg (by simp), hrest]
      · have hne : key b ≠ key a := fun heq => hnd.1 (List.mem_map.2 ⟨a, ha, heq.symm⟩)
        rw [List.filter_cons_of_pos (by simpa using hne)]
        exact (List.Perm.swap b a _).trans ((ih hnd.2 ha).cons b)

/-- Picking first elements sorts. -/
theorem pickAll_eq_mergeSort (htrans : ∀ a b c, le a b = true → le b c = true → le a c = true)
    (htotal : ∀ a b, (le a b || le b a) = true) :
    ∀ (n : Nat) (l : List α), (l.map key).Nodup → Picks pick le l →
      (∀ a ∈ l, ∀ b ∈ l, le a b = true → le b a = true → a = b) →
      pickAll pick key n l = (l.mergeSort le).take n := by
  intro n
  induction n with
  | zero => intro l _ _ _; rw [List.take_zero]; rfl
  | succ n ih =>
      intro l hnd hpicks hanti
      rw [pickAll]
      cases hpick : pick l with
      | none =>
          have hempty : l = [] := by
            by_contra hne
            have hsome := hpicks.some l (List.Sublist.refl l) hne
            rw [hpick] at hsome
            cases hsome
          rw [hempty]
          simp
      | some a =>
          obtain ⟨hmem, hfirst⟩ := hpicks.first l a (List.Sublist.refl l) hpick
          have hsub : (l.filter (key · ≠ key a)).Sublist l := List.filter_sublist
          have hperm := perm_cons_filter hnd hmem
          -- both sides are the sorted list that starts with `a`
          have hsorted : l.mergeSort le = a :: (l.filter (key · ≠ key a)).mergeSort le := by
            refine List.Perm.eq_of_pairwise ?_ (List.pairwise_mergeSort htrans htotal l) ?_ ?_
            · intro b c hb hc
              have hc : c ∈ l := hperm.subset (((List.mergeSort_perm _ le).cons a).subset hc)
              exact hanti b (List.mem_mergeSort.1 hb) c hc
            · refine List.pairwise_cons.2 ⟨fun b hb => ?_, List.pairwise_mergeSort htrans htotal _⟩
              exact hfirst b (hsub.subset (List.mem_mergeSort.1 hb))
            · exact (List.mergeSort_perm l le).trans
                (hperm.symm.trans ((List.mergeSort_perm _ le).symm.cons a))
          dsimp only
          rw [hsorted, List.take_succ_cons, ih _ (hnd.sublist (hsub.map key))
            (hpicks.sublist hsub) fun b hb c hc =>
              hanti b (hsub.subset hb) c (hsub.subset hc)]

/-- As many elements are picked as there are, or as asked for. -/
theorem length_pickAll : ∀ (n : Nat) (l : List α), (l.map key).Nodup → Picks pick le l →
    (pickAll pick key n l).length = min n l.length := by
  intro n
  induction n with
  | zero => intro l _ _; rw [Nat.zero_min]; rfl
  | succ n ih =>
      intro l hnd hpicks
      rw [pickAll]
      cases hpick : pick l with
      | none =>
          have hempty : l = [] := by
            by_contra hne
            have hsome := hpicks.some l (List.Sublist.refl l) hne
            rw [hpick] at hsome
            cases hsome
          rw [hempty]
          rfl
      | some a =>
          have hsub : (l.filter (key · ≠ key a)).Sublist l := List.filter_sublist
          have hlength := (perm_cons_filter hnd
            (hpicks.first l a (List.Sublist.refl l) hpick).1).length_eq
          rw [List.length_cons] at hlength
          dsimp only
          rw [List.length_cons, ih _ (hnd.sublist (hsub.map key)) (hpicks.sublist hsub)]
          omega

/-- Everything picked is from the list, and picked once. -/
theorem pickAll_nodup : ∀ (n : Nat) (l : List α), (l.map key).Nodup → Picks pick le l →
    (∀ a ∈ pickAll pick key n l, a ∈ l) ∧ ((pickAll pick key n l).map key).Nodup := by
  intro n
  induction n with
  | zero => exact fun l _ _ => ⟨fun a ha => (by cases ha), List.nodup_nil⟩
  | succ n ih =>
      intro l hnd hpicks
      rw [pickAll]
      cases hpick : pick l with
      | none => exact ⟨fun a ha => (by cases ha), List.nodup_nil⟩
      | some a =>
          have hsub : (l.filter (key · ≠ key a)).Sublist l := List.filter_sublist
          obtain ⟨hmem, hrest⟩ := ih _ (hnd.sublist (hsub.map key)) (hpicks.sublist hsub)
          dsimp only
          refine ⟨fun b hb => ?_, ?_⟩
          · rcases List.mem_cons.1 hb with rfl | hb
            · exact (hpicks.first l b (List.Sublist.refl l) hpick).1
            · exact hsub.subset (hmem b hb)
          · rw [List.map_cons, List.nodup_cons]
            refine ⟨fun hin => ?_, hrest⟩
            obtain ⟨b, hb, heq⟩ := List.mem_map.1 hin
            simpa [heq] using (List.mem_filter.1 (hmem b hb)).2

/-- Going through a list and keeping the better of two each time chooses
an element that none is better than. -/
theorem foldl_best (worse better : α → α → Prop) [DecidableRel better]
    (hrefl : ∀ a, worse a a) (htrans : ∀ {a b c}, worse a b → worse b c → worse a c)
    (hbetter : ∀ {a b}, better a b → worse a b) (hnot : ∀ {a b}, ¬ better a b → worse b a) :
    ∀ (l : List α) (best : α),
    l.foldl (fun best a => if better best a then a else best) best ∈ best :: l ∧
      ∀ a ∈ best :: l,
        worse a (l.foldl (fun best a => if better best a then a else best) best) := by
  intro l
  induction l with
  | nil =>
      intro best
      refine ⟨List.mem_singleton_self _, fun a ha => ?_⟩
      rw [List.mem_singleton.1 ha]
      exact hrefl best
  | cons next l ih =>
      intro best
      rw [List.foldl_cons]
      split
      case isTrue h =>
        obtain ⟨hmem, hbest⟩ := ih next
        refine ⟨List.mem_cons_of_mem _ hmem, fun a ha => ?_⟩
        rcases List.mem_cons.1 ha with rfl | ha
        · exact htrans (hbetter h) (hbest next (List.mem_cons_self ..))
        · exact hbest a ha
      case isFalse h =>
        obtain ⟨hmem, hbest⟩ := ih best
        have hkept := hbest best (List.mem_cons_self ..)
        refine ⟨?_, fun a ha => ?_⟩
        · rcases List.mem_cons.1 hmem with hmem | hmem
          · rw [hmem]
            exact List.mem_cons_self ..
          · exact List.mem_cons_of_mem _ (List.mem_cons_of_mem _ hmem)
        · rcases List.mem_cons.1 ha with rfl | ha
          · exact hkept
          · rcases List.mem_cons.1 ha with rfl | ha
            · exact htrans (hnot h) hkept
            · exact hbest a (List.mem_cons_of_mem _ ha)

/-- Picks from nothing are none. -/
theorem pickAll_of_none (h : pick l = none) (n : Nat) : pickAll pick key n l = [] := by
  cases n with
  | zero => rfl
  | succ n => rw [pickAll, h]

end Hammerwork.Selection
