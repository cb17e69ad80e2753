/-
Memoised evaluation along a directed graph.

Every node has a value, computed from the values of its neighbours. The
search enters a node, asks for the values of its neighbours in order,
searching those never entered, and stores the node's value. A neighbour
that was entered and has no value yet is one the search is still busy
with, and is left out.

# What the values are

The nodes entered are those with a value and those on the stack of the
search (`Sound`). The nodes on the stack lead to the one being searched,
so a neighbour on the stack is on a cycle: a node's value is computed from
those of its neighbours, except for some on cycles (`Gathered`). What
holds of every value computed so holds of every value stored
(`Sound.spec`); on a graph without cycles nothing is left out.

In a finite graph, as much fuel as there are nodes left to enter is
enough (`visit_total`).
-/
import Mathlib.Data.Finset.Card
import Mathlib.Data.List.AList

namespace MemoSearch

variable {α β : Type _} [DecidableEq α]

/-- The nodes entered, and the values of those that were left. -/
structure Memo (α β : Type _) [DecidableEq α] where
  visited : Finset α
  values : AList fun _ : α => β

/-- Enter a node. -/
def Memo.enter (m : Memo α β) (x : α) : Memo α β := { m with visited := insert x m.visited }

/-- Leave a node, with its value. -/
def Memo.store (m : Memo α β) (x : α) (v : β) : Memo α β :=
  { m with values := m.values.insert x v }

/-- The values of nodes in order, searching those never entered with
`visit`, and leaving out those without a value. -/
def visitDeps (visit : α → Memo α β → Option (Memo α β)) :
    List α → Memo α β → Option (List β × Memo α β)
  | [], m => some ([], m)
  | y :: ys, m =>
      match if y ∈ m.visited then some m else visit y m with
      | none => none
      | some m =>
          match visitDeps visit ys m with
          | none => none
          | some (vs, m') => some ((m.values.lookup y).toList ++ vs, m')

/-- Search from `x`, recursing at most `fuel` deep; `none` when that was
not enough. -/
def visit (next : α → List α) (value : α → List β → β) :
    Nat → α → Memo α β → Option (Memo α β)
  | 0, _, _ => none
  | fuel + 1, x, m =>
      match visitDeps (visit next value fuel) (next x) (m.enter x) with
      | none => none
      | some (vs, m) => some (m.store x (value x vs))

/-- Search from each root in turn that was not entered yet. -/
def visitAll (visit : α → Memo α β → Option (Memo α β)) :
    List α → Memo α β → Option (Memo α β)
  | [], m => some m
  | x :: xs, m =>
      match if x ∈ m.visited then some m else visit x m with
      | none => none
      | some m => visitAll visit xs m

variable {next : α → List α} {value : α → List β → β} {spec : α → β → Prop}
  {univ stack : Finset α} {m : Memo α β} {x : α} {v : β}

-- == what is computed

/-- The neighbour relation. -/
def Leads (next : α → List α) (x y : α) : Prop := y ∈ next x

/-- Values of nodes in order, except for some on cycles. -/
inductive Gathered (next : α → List α) (spec : α → β → Prop) : List α → List β → Prop
  | nil : Gathered next spec [] []
  | cons {y : α} {v : β} {ys : List α} {vs : List β} :
      spec y v → Gathered next spec ys vs → Gathered next spec (y :: ys) (v :: vs)
  | skip {y : α} {ys : List α} {vs : List β} : Relation.TransGen (Leads next) y y →
      Gathered next spec ys vs → Gathered next spec (y :: ys) vs

omit [DecidableEq α] in
/-- Without cycles nothing is left out. -/
theorem Gathered.forall₂ (hacyclic : ∀ y, ¬ Relation.TransGen (Leads next) y y) {ys : List α}
    {vs : List β} (h : Gathered next spec ys vs) : List.Forall₂ spec ys vs := by
  induction h with
  | nil => exact .nil
  | cons hy _ ih => exact .cons hy ih
  | skip hcycle _ _ => exact absurd hcycle (hacyclic _)

/-- The nodes entered are those with a value and those on the stack, and
the values are as `spec` says. -/
structure Sound (spec : α → β → Prop) (univ stack : Finset α) (m : Memo α β) : Prop where
  visited : ∀ x, x ∈ m.visited ↔ x ∈ m.values ∨ x ∈ stack
  stack : ∀ x ∈ stack, x ∉ m.values
  inside : m.visited ⊆ univ
  spec : ∀ x v, m.values.lookup x = some v → spec x v

theorem Sound.empty : Sound spec univ ∅ (⟨∅, ∅⟩ : Memo α β) where
  visited x := by simp
  stack x hx := absurd hx (Finset.notMem_empty x)
  inside := Finset.empty_subset univ
  spec x v hv := by
    rw [AList.lookup_empty] at hv
    cases hv

/-- A node that is entered is on the stack. -/
theorem Sound.enter (h : Sound spec univ stack m) (hx : x ∈ univ) (hnew : x ∉ m.visited) :
    Sound spec univ (insert x stack) (m.enter x) where
  visited y := by
    show y ∈ insert x m.visited ↔ y ∈ m.values ∨ y ∈ insert x stack
    rw [Finset.mem_insert, Finset.mem_insert, h.visited y]
    exact or_left_comm
  stack y hy := by
    rcases Finset.mem_insert.1 hy with rfl | hy
    · exact fun hvalue => hnew ((h.visited y).2 (.inl hvalue))
    · exact h.stack y hy
  inside := Finset.insert_subset hx h.inside
  spec := h.spec

/-- A node that is left with its value is off the stack. -/
theorem Sound.store (h : Sound spec univ (insert x stack) m) (hx : x ∉ stack) (hv : spec x v) :
    Sound spec univ stack (m.store x v) where
  visited y := by
    show y ∈ m.visited ↔ y ∈ m.values.insert x v ∨ y ∈ stack
    rw [h.visited y, AList.mem_insert, Finset.mem_insert]
    exact or_left_comm.trans or_assoc.symm
  stack y hy := by
    show y ∉ m.values.insert x v
    rw [AList.mem_insert]
    rintro (rfl | hvalue)
    · exact hx hy
    · exact h.stack y (Finset.mem_insert_of_mem hy) hvalue
  inside := h.inside
  spec y w hw := by
    by_cases hyx : y = x
    · subst hyx
      have hlookup : (m.store y v).values.lookup y = some v := AList.lookup_insert _
      rw [hlookup] at hw
      exact Option.some.inj hw ▸ hv
    · have hlookup : (m.store x v).values.lookup y = m.values.lookup y :=
        AList.lookup_insert_ne hyx
      rw [hlookup] at hw
      exact h.spec y w hw

/-- `m'` is `m` after some finished searches. -/
structure Visits (spec : α → β → Prop) (univ stack : Finset α) (m m' : Memo α β) : Prop where
  sound : Sound spec univ stack m'
  later : m.visited ⊆ m'.visited

/-- The value of a neighbour that was entered, unless it is on a
cycle. -/
theorem Sound.gathered {y : α} {ys : List α} {vs : List β} (h : Sound spec univ stack m)
    (hy : y ∈ m.visited) (hstack : ∀ s ∈ stack, Relation.TransGen (Leads next) s y)
    (hvs : Gathered next spec ys vs) :
    Gathered next spec (y :: ys) ((m.values.lookup y).toList ++ vs) := by
  cases hlookup : m.values.lookup y with
  | some v => exact .cons (h.spec y v hlookup) hvs
  | none =>
      refine .skip (hstack y ?_) hvs
      exact ((h.visited y).1 hy).resolve_left (AList.lookup_eq_none.1 hlookup)

-- == enough fuel

/-- Searching neighbours. -/
theorem visitDeps_total {visit : α → Memo α β → Option (Memo α β)} {fuel : Nat}
    (hvisit : ∀ {y m}, Sound spec univ stack m → y ∈ univ → y ∉ m.visited →
      (∀ s ∈ stack, Relation.TransGen (Leads next) s y) → (univ \ m.visited).card ≤ fuel →
      ∃ m', visit y m = some m' ∧ Visits spec univ stack m m' ∧ y ∈ m'.visited) :
    ∀ (ys : List α) {m : Memo α β}, Sound spec univ stack m → (∀ y ∈ ys, y ∈ univ) →
      (∀ s ∈ stack, ∀ y ∈ ys, Relation.TransGen (Leads next) s y) →
      (univ \ m.visited).card ≤ fuel →
      ∃ vs m', visitDeps visit ys m = some (vs, m') ∧ Visits spec univ stack m m' ∧
        Gathered next spec ys vs := by
  intro ys
  induction ys with
  | nil => exact fun h _ _ _ => ⟨[], _, rfl, ⟨h, Finset.Subset.refl _⟩, .nil⟩
  | cons y ys ih =>
      intro m h hys hstack hfuel
      have hhead : ∀ s ∈ stack, Relation.TransGen (Leads next) s y :=
        fun s hs => hstack s hs y (List.mem_cons_self ..)
      obtain ⟨m₁, hm₁, hvisits₁, hy₁⟩ : ∃ m₁,
          (if y ∈ m.visited then some m else visit y m) = some m₁ ∧
            Visits spec univ stack m m₁ ∧ y ∈ m₁.visited := by
        split
        case isTrue hold => exact ⟨m, rfl, ⟨h, Finset.Subset.refl _⟩, hold⟩
        case isFalse hnew => exact hvisit h (hys y (List.mem_cons_self ..)) hnew hhead hfuel
      have hfuel₁ : (univ \ m₁.visited).card ≤ fuel :=
        le_trans (Finset.card_le_card (Finset.sdiff_subset_sdiff (fun _ h => h) hvisits₁.later))
          hfuel
      obtain ⟨vs, m', hm', hvisits', hvs⟩ := ih hvisits₁.sound
        (fun z hz => hys z (List.mem_cons_of_mem _ hz))
        (fun s hs z hz => hstack s hs z (List.mem_cons_of_mem _ hz)) hfuel₁
      refine ⟨_, m', ?_, ⟨hvisits'.sound, hvisits₁.later.trans hvisits'.later⟩,
        hvisits₁.sound.gathered hy₁ hhead hvs⟩
      rw [visitDeps, hm₁]
      dsimp only
      rw [hm']

/-- A search from a node of a finite graph ends, with the node's value
stored. -/
theorem visit_total (huniv : ∀ x ∈ univ, ∀ y ∈ next x, y ∈ univ)
    (hspec : ∀ x vs, Gathered next spec (next x) vs → spec x (value x vs)) :
    ∀ (fuel : Nat) {stack : Finset α} {x : α} {m : Memo α β}, Sound spec univ stack m →
      x ∈ univ → x ∉ m.visited → (∀ s ∈ stack, Relation.TransGen (Leads next) s x) →
      (univ \ m.visited).card ≤ fuel →
      ∃ m', visit next value fuel x m = some m' ∧ Visits spec univ stack m m' ∧
        x ∈ m'.visited := by
  intro fuel
  induction fuel with
  | zero =>
      intro stack x m _ hx hnew _ hfuel
      have hcard := Finset.card_pos.2 ⟨x, Finset.mem_sdiff.2 ⟨hx, hnew⟩⟩
      omega
  | succ fuel ih =>
      intro stack x m h hx hnew hstack hfuel
      have hlt : (univ \ (m.enter x).visited).card < (univ \ m.visited).card := by
        refine Finset.card_lt_card ⟨?_, ?_⟩
        · exact Finset.sdiff_subset_sdiff (fun _ h => h) (Finset.subset_insert x _)
        · intro hsub
          have hout := hsub (Finset.mem_sdiff.2 ⟨hx, hnew⟩)
          exact (Finset.mem_sdiff.1 hout).2 (Finset.mem_insert_self x _)
      have hleads : ∀ s ∈ insert x stack, ∀ y ∈ next x, Relation.TransGen (Leads next) s y := by
        intro s hs y hy
        rcases Finset.mem_insert.1 hs with rfl | hs
        · exact .single hy
        · exact .tail (hstack s hs) hy
      obtain ⟨vs, m', hm', hvisits, hvs⟩ := visitDeps_total ih (next x) (h.enter hx hnew)
        (huniv x hx) hleads (by omega)
      have hoff : x ∉ stack := fun hs => hnew ((h.visited x).2 (.inr hs))
      refine ⟨m'.store x (value x vs), ?_, ⟨hvisits.sound.store hoff (hspec x vs hvs), ?_⟩, ?_⟩
      · rw [visit, hm']
      · exact (Finset.subset_insert x _).trans hvisits.later
      · exact hvisits.later (Finset.mem_insert_self x _)

/-- A search from many roots ends, with the value of each stored. -/
theorem visitAll_total (huniv : ∀ x ∈ univ, ∀ y ∈ next x, y ∈ univ)
    (hspec : ∀ x vs, Gathered next spec (next x) vs → spec x (value x vs)) {fuel : Nat}
    (hfuel : univ.card ≤ fuel) :
    ∀ (roots : List α) {m : Memo α β}, (∀ x ∈ roots, x ∈ univ) → Sound spec univ ∅ m →
      ∃ m', visitAll (visit next value fuel) roots m = some m' ∧ Visits spec univ ∅ m m' ∧
        ∀ x ∈ roots, x ∈ m'.values := by
  intro roots
  induction roots with
  | nil => exact fun _ h => ⟨_, rfl, ⟨h, Finset.Subset.refl _⟩, fun x hx => by cases hx⟩
  | cons r roots ih =>
      intro m hroots h
      have hcard : (univ \ m.visited).card ≤ fuel :=
        le_trans (Finset.card_le_card Finset.sdiff_subset) hfuel
      obtain ⟨m₁, hm₁, hvisits₁, hr₁⟩ : ∃ m₁,
          (if r ∈ m.visited then some m else visit next value fuel r m) = some m₁ ∧
            Visits spec univ ∅ m m₁ ∧ r ∈ m₁.visited := by
        split
        case isTrue hold => exact ⟨m, rfl, ⟨h, Finset.Subset.refl _⟩, hold⟩
        case isFalse hnew =>
          exact visit_total huniv hspec fuel h (hroots r (List.mem_cons_self ..)) hnew
            (fun s hs => absurd hs (Finset.notMem_empty s)) hcard
      obtain ⟨m', hm', hvisits', hrest⟩ := ih
        (fun x hx => hroots x (List.mem_cons_of_mem _ hx)) hvisits₁.sound
      refine ⟨m', ?_, ⟨hvisits'.sound, hvisits₁.later.trans hvisits'.later⟩, ?_⟩
      · rw [visitAll, hm₁]
        exact hm'
      · intro x hx
        rcases List.mem_cons.1 hx with rfl | hx
        · have hvisited := (hvisits'.sound.visited x).1 (hvisits'.later hr₁)
          exact hvisited.resolve_right (Finset.notMem_empty x)
        · exact hrest x hx

end MemoSearch
