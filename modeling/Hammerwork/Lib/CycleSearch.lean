/-
Depth-first search for a cycle in a finite directed graph.

The search keeps two sets: the nodes it has entered (`visited`) and
those it has entered and not left (`recStack`). Entering a node looks at
its neighbours in order: one that was never entered is searched first,
one that is still on the stack closes a cycle. Leaving a node takes it
off the stack.

# What the answer means

A node that was entered and left is called finished. The invariant is
that a finished node is well-founded (`Acc`) for the neighbour relation:
when a node is left all its neighbours are finished, which is exactly
`Acc.intro`. So a search that answers "no cycle" proves induction along
the graph for every node it entered (`acc_of_anyCycle`), with no
numbering of the nodes and no appeal to finiteness.

The nodes on the stack lead to the one being searched. So a neighbour
that is on the stack leads back to itself, and a search that answers
"cycle" has found one (`cycle_of_anyCycle`).

Finiteness is what ends the search: with more fuel than there are nodes
left to enter it always answers (`anyCycle_isSome`).
-/
import Mathlib.Data.Finset.Card
import Mathlib.Data.Finset.Insert
import Mathlib.Data.Finset.SDiff
import Mathlib.Logic.Relation

namespace CycleSearch

variable {α : Type _}

/-- The nodes entered, and those among them not yet left. -/
structure Colours (α : Type _) where
  visited : Finset α
  recStack : Finset α

/-- `d` is `c` after some finished searches: the stack is as it was. -/
structure Later (c d : Colours α) : Prop where
  stack : d.recStack = c.recStack
  visited : c.visited ⊆ d.visited

theorem Later.refl (c : Colours α) : Later c c := ⟨rfl, fun _ hx => hx⟩

theorem Later.trans {c d e : Colours α} (h₁ : Later c d) (h₂ : Later d e) : Later c e :=
  ⟨h₂.stack.trans h₁.stack, h₁.visited.trans h₂.visited⟩

variable [DecidableEq α]

/-- Enter a node. -/
def Colours.enter (c : Colours α) (x : α) : Colours α where
  visited := insert x c.visited
  recStack := insert x c.recStack

/-- Leave a node. -/
def Colours.leave (c : Colours α) (x : α) : Colours α :=
  { c with recStack := c.recStack.erase x }

/-- Look at neighbours in order, searching those never entered with
`dfs`. Answers whether a cycle was found. -/
def dfsDeps (dfs : α → Colours α → Option (Bool × Colours α)) :
    List α → Colours α → Option (Bool × Colours α)
  | [], c => some (false, c)
  | y :: ys, c =>
      if y ∉ c.visited then
        match dfs y c with
        | none => none
        | some (true, c) => some (true, c)
        | some (false, c) => dfsDeps dfs ys c
      else if y ∈ c.recStack then
        some (true, c)
      else
        dfsDeps dfs ys c

/-- Search from `x`, recursing at most `fuel` deep; `none` when that was
not enough. -/
def dfs (next : α → List α) : Nat → α → Colours α → Option (Bool × Colours α)
  | 0, _, _ => none
  | fuel + 1, x, c =>
      match dfsDeps (dfs next fuel) (next x) (c.enter x) with
      | none => none
      | some (true, c) => some (true, c)
      | some (false, c) => some (false, c.leave x)

/-- Search from each root in turn that was not entered yet. -/
def anyCycle (dfs : α → Colours α → Option (Bool × Colours α)) :
    List α → Colours α → Option Bool
  | [], _ => some false
  | x :: xs, c =>
      if x ∉ c.visited then
        match dfs x c with
        | none => none
        | some (true, _) => some true
        | some (false, c) => anyCycle dfs xs c
      else
        anyCycle dfs xs c

variable {next : α → List α}

-- == no cycle found

/-- The neighbour relation, in the order well-foundedness reads it. -/
def Below (next : α → List α) (y x : α) : Prop := y ∈ next x

/-- Only entered nodes are on the stack, and finished nodes are
well-founded. -/
structure Sound (next : α → List α) (c : Colours α) : Prop where
  entered : c.recStack ⊆ c.visited
  finished : ∀ x ∈ c.visited, x ∉ c.recStack → Acc (Below next) x

theorem Sound.enter {c : Colours α} (h : Sound next c) (x : α) : Sound next (c.enter x) where
  entered := Finset.insert_subset_insert x h.entered
  finished y hy hns := by
    have hne : y ≠ x := by
      intro he
      rw [he] at hns
      exact hns (Finset.mem_insert_self x _)
    refine h.finished y ?_ fun hy' => hns (Finset.mem_insert_of_mem hy')
    exact (Finset.mem_insert.1 hy).resolve_left hne

/-- Looking at neighbours without finding a cycle finishes all of
them. -/
theorem Sound.dfsDeps {dfs : α → Colours α → Option (Bool × Colours α)}
    (hdfs : ∀ {x c d}, Sound next c → x ∉ c.visited → dfs x c = some (false, d) →
      Sound next d ∧ Later c d ∧ x ∈ d.visited) :
    ∀ (ys : List α) {c d : Colours α}, Sound next c →
      CycleSearch.dfsDeps dfs ys c = some (false, d) →
      Sound next d ∧ Later c d ∧ ∀ y ∈ ys, y ∈ d.visited ∧ y ∉ d.recStack := by
  intro ys
  induction ys with
  | nil =>
      intro c d h heq
      simp only [CycleSearch.dfsDeps, Option.some.injEq, Prod.mk.injEq, true_and] at heq
      subst heq
      exact ⟨h, .refl c, fun y hy => by cases hy⟩
  | cons y ys ih =>
      intro c d h heq
      rw [CycleSearch.dfsDeps] at heq
      split at heq
      case isTrue hnew =>
        split at heq
        case h_1 => cases heq
        case h_2 => cases heq
        case h_3 c' hy =>
          obtain ⟨h', hlater, hyv⟩ := hdfs h hnew hy
          obtain ⟨hd, hlater', hys⟩ := ih h' heq
          refine ⟨hd, hlater.trans hlater', ?_⟩
          intro z hz
          rcases List.mem_cons.1 hz with rfl | hz
          · refine ⟨hlater'.visited hyv, fun hst => hnew (h.entered ?_)⟩
            rw [hlater'.stack, hlater.stack] at hst
            exact hst
          · exact hys z hz
      case isFalse hold =>
        split at heq
        case isTrue => cases heq
        case isFalse hoff =>
          obtain ⟨hd, hlater, hys⟩ := ih h heq
          refine ⟨hd, hlater, ?_⟩
          intro z hz
          rcases List.mem_cons.1 hz with rfl | hz
          · exact ⟨hlater.visited (not_not.1 hold), by rw [hlater.stack]; exact hoff⟩
          · exact hys z hz

/-- A search that finds no cycle leaves its node finished. -/
theorem Sound.dfs : ∀ (fuel : Nat) {x : α} {c d : Colours α}, Sound next c →
    x ∉ c.visited → CycleSearch.dfs next fuel x c = some (false, d) →
    Sound next d ∧ Later c d ∧ x ∈ d.visited := by
  intro fuel
  induction fuel with
  | zero => intro x c d _ _ heq; cases heq
  | succ fuel ih =>
      intro x c d h hx heq
      rw [CycleSearch.dfs] at heq
      split at heq
      case h_1 => cases heq
      case h_2 => cases heq
      case h_3 e hdeps =>
        obtain ⟨he, hlater, hys⟩ :=
          Sound.dfsDeps (fun hc hx heq => ih hc hx heq) (next x) (h.enter x) hdeps
        have hxs : x ∉ c.recStack := fun hst => hx (h.entered hst)
        have hacc : Acc (Below next) x :=
          .intro x fun y hy => he.finished y (hys y hy).1 (hys y hy).2
        simp only [Option.some.injEq, Prod.mk.injEq, true_and] at heq
        subst heq
        refine ⟨⟨?_, ?_⟩, ⟨?_, ?_⟩, ?_⟩
        · exact (Finset.erase_subset x _).trans he.entered
        · intro y hy hns
          by_cases hyx : y = x
          · exact hyx ▸ hacc
          · exact he.finished y hy fun hst => hns (Finset.mem_erase.2 ⟨hyx, hst⟩)
        · show e.recStack.erase x = c.recStack
          rw [hlater.stack]
          exact Finset.erase_insert hxs
        · exact (Finset.subset_insert x _).trans hlater.visited
        · exact hlater.visited (Finset.mem_insert_self x _)

/-- Roots searched without finding a cycle are well-founded. -/
theorem acc_of_anyCycle {fuel : Nat} : ∀ (roots : List α) {c : Colours α}, Sound next c →
    c.recStack = ∅ → anyCycle (CycleSearch.dfs next fuel) roots c = some false →
    ∀ x ∈ roots, Acc (Below next) x := by
  intro roots
  induction roots with
  | nil => intro c _ _ _ x hx; cases hx
  | cons r roots ih =>
      intro c h hempty heq x hx
      rw [anyCycle] at heq
      split at heq
      case isTrue hnew =>
        split at heq
        case h_1 => cases heq
        case h_2 => cases heq
        case h_3 d hd =>
          obtain ⟨h', hlater, hr⟩ := Sound.dfs fuel h hnew hd
          have hempty' : d.recStack = ∅ := hlater.stack.trans hempty
          rcases List.mem_cons.1 hx with rfl | hx
          · exact h'.finished x hr (by rw [hempty']; exact Finset.notMem_empty x)
          · exact ih h' hempty' heq x hx
      case isFalse hold =>
        rcases List.mem_cons.1 hx with rfl | hx
        · exact h.finished x (not_not.1 hold) (by rw [hempty]; exact Finset.notMem_empty x)
        · exact ih h hempty heq x hx

omit [DecidableEq α] in
/-- A node of a cycle is not well-founded. -/
theorem not_cycle_of_acc {x : α} (h : Acc (Below next) x) :
    ¬ Relation.TransGen (Below next) x x := by
  have hacc := h.transGen
  clear h
  induction hacc with
  | intro x _ ih => exact fun hcycle => ih x hcycle hcycle

-- == a cycle found

/-- Neighbours of `x` lead to a cycle when the search says so. -/
theorem cycle_of_dfsDeps {fuel : Nat} {x : α}
    (hdfs : ∀ {y c d}, Sound next c → y ∉ c.visited →
      (∀ z ∈ c.recStack, Relation.ReflTransGen (Below next) y z) →
      dfs next fuel y c = some (true, d) → ∃ z, Relation.TransGen (Below next) z z) :
    ∀ (ys : List α) {c d : Colours α}, (∀ y ∈ ys, Below next y x) → Sound next c →
      (∀ z ∈ c.recStack, Relation.ReflTransGen (Below next) x z) →
      dfsDeps (dfs next fuel) ys c = some (true, d) →
      ∃ z, Relation.TransGen (Below next) z z := by
  intro ys
  induction ys with
  | nil =>
      intro c d _ _ _ heq
      cases heq
  | cons y ys ih =>
      intro c d hys h hstack heq
      have hyx := hys y (List.mem_cons_self ..)
      have hrest : ∀ z ∈ ys, Below next z x := fun z hz => hys z (List.mem_cons_of_mem _ hz)
      rw [dfsDeps] at heq
      split at heq
      case isTrue hnew =>
        split at heq
        case h_1 => cases heq
        case h_2 c' hy => exact hdfs h hnew (fun z hz => .head hyx (hstack z hz)) hy
        case h_3 c' hy =>
          obtain ⟨h', hlater, -⟩ := Sound.dfs fuel h hnew hy
          exact ih hrest h' (fun z hz => hstack z (hlater.stack ▸ hz)) heq
      case isFalse =>
        split at heq
        case isTrue hon => exact ⟨y, .head' hyx (hstack y hon)⟩
        case isFalse => exact ih hrest h hstack heq

/-- A search that finds a cycle is right, when the nodes on the stack
lead to where it starts. -/
theorem cycle_of_dfs : ∀ (fuel : Nat) {x : α} {c d : Colours α}, Sound next c →
    x ∉ c.visited → (∀ z ∈ c.recStack, Relation.ReflTransGen (Below next) x z) →
    dfs next fuel x c = some (true, d) → ∃ z, Relation.TransGen (Below next) z z := by
  intro fuel
  induction fuel with
  | zero => intro x c d _ _ _ heq; cases heq
  | succ fuel ih =>
      intro x c d h hx hstack heq
      rw [dfs] at heq
      split at heq
      case h_1 => cases heq
      case h_2 e hdeps =>
        refine cycle_of_dfsDeps ih (next x) (fun y hy => hy) (h.enter x) (fun z hz => ?_) hdeps
        rcases Finset.mem_insert.1 hz with rfl | hz
        · exact .refl
        · exact hstack z hz
      case h_3 => cases heq

/-- So is one from many roots. -/
theorem cycle_of_anyCycle {fuel : Nat} : ∀ (roots : List α) {c : Colours α}, Sound next c →
    c.recStack = ∅ → anyCycle (CycleSearch.dfs next fuel) roots c = some true →
    ∃ z, Relation.TransGen (Below next) z z := by
  intro roots
  induction roots with
  | nil => intro c _ _ heq; cases heq
  | cons r roots ih =>
      intro c h hempty heq
      rw [anyCycle] at heq
      split at heq
      case isTrue hnew =>
        split at heq
        case h_1 => cases heq
        case h_2 d hd =>
          refine cycle_of_dfs fuel h hnew (fun z hz => ?_) hd
          rw [hempty] at hz
          exact absurd hz (Finset.notMem_empty z)
        case h_3 d hd =>
          obtain ⟨h', hlater, -⟩ := Sound.dfs fuel h hnew hd
          exact ih h' (hlater.stack.trans hempty) heq
      case isFalse => exact ih h hempty heq

-- == enough fuel

/-- A search only enters nodes. -/
theorem visited_subset {found : Bool} : ∀ (fuel : Nat) {x : α} {c d : Colours α},
    dfs next fuel x c = some (found, d) → c.visited ⊆ d.visited := by
  intro fuel
  induction fuel generalizing found with
  | zero => intro x c d heq; cases heq
  | succ fuel ih =>
      have hdeps : ∀ (ys : List α) {found : Bool} {c d : Colours α},
          dfsDeps (dfs next fuel) ys c = some (found, d) → c.visited ⊆ d.visited := by
        intro ys
        induction ys with
        | nil =>
            intro found c d heq
            simp only [dfsDeps, Option.some.injEq, Prod.mk.injEq] at heq
            rw [heq.2]
        | cons y ys ihys =>
            intro found c d heq
            rw [dfsDeps] at heq
            split at heq
            · split at heq
              · cases heq
              · next hy =>
                simp only [Option.some.injEq, Prod.mk.injEq] at heq
                rw [← heq.2]
                exact ih hy
              · next hy => exact (ih hy).trans (ihys heq)
            · split at heq
              · simp only [Option.some.injEq, Prod.mk.injEq] at heq
                rw [heq.2]
              · exact ihys heq
      intro x c d heq
      rw [dfs] at heq
      split at heq
      · cases heq
      · next hd =>
        simp only [Option.some.injEq, Prod.mk.injEq] at heq
        rw [← heq.2]
        exact (Finset.subset_insert x _).trans (hdeps _ hd)
      · next hd =>
        simp only [Option.some.injEq, Prod.mk.injEq] at heq
        rw [← heq.2]
        exact (Finset.subset_insert x _).trans (hdeps _ hd)

/-- In a finite graph, more fuel than there are nodes left to enter is
enough. -/
theorem dfs_isSome {univ : Finset α} (huniv : ∀ x ∈ univ, ∀ y ∈ next x, y ∈ univ) :
    ∀ (fuel : Nat) {x : α} {c : Colours α}, x ∈ univ → x ∉ c.visited →
      (univ \ c.visited).card ≤ fuel → (dfs next fuel x c).isSome := by
  intro fuel
  induction fuel with
  | zero =>
      intro x c hx hnew hcard
      have hmem : x ∈ univ \ c.visited := Finset.mem_sdiff.2 ⟨hx, hnew⟩
      have := Finset.card_pos.2 ⟨x, hmem⟩
      omega
  | succ fuel ih =>
      have hdeps : ∀ (ys : List α) {c : Colours α}, (∀ y ∈ ys, y ∈ univ) →
          (univ \ c.visited).card ≤ fuel → (dfsDeps (dfs next fuel) ys c).isSome := by
        intro ys
        induction ys with
        | nil => intro c _ _; rfl
        | cons y ys ihys =>
            intro c hys hcard
            have hrest : ∀ z ∈ ys, z ∈ univ := fun z hz => hys z (List.mem_cons_of_mem _ hz)
            rw [dfsDeps]
            split
            case isTrue hnew =>
              have hy := ih (hys y (List.mem_cons_self ..)) hnew hcard
              split
              case h_1 hnone => rw [hnone] at hy; cases hy
              case h_2 => rfl
              case h_3 d hd =>
                refine ihys hrest (le_trans (Finset.card_le_card ?_) hcard)
                exact Finset.sdiff_subset_sdiff (fun _ h => h) (visited_subset fuel hd)
            case isFalse =>
              split
              · rfl
              · exact ihys hrest hcard
      intro x c hx hnew hcard
      have hlt : (univ \ (c.enter x).visited).card < (univ \ c.visited).card := by
        refine Finset.card_lt_card ⟨?_, ?_⟩
        · exact Finset.sdiff_subset_sdiff (fun _ h => h) (Finset.subset_insert x _)
        · intro hsub
          have := hsub (Finset.mem_sdiff.2 ⟨hx, hnew⟩)
          exact (Finset.mem_sdiff.1 this).2 (Finset.mem_insert_self x _)
      have hsome := hdeps (next x) (c := c.enter x) (huniv x hx) (by omega)
      rw [dfs]
      split
      case h_1 hnone => rw [hnone] at hsome; cases hsome
      all_goals rfl

/-- The same for a search from many roots. -/
theorem anyCycle_isSome {univ : Finset α} (huniv : ∀ x ∈ univ, ∀ y ∈ next x, y ∈ univ)
    {fuel : Nat} (hfuel : univ.card ≤ fuel) :
    ∀ (roots : List α) {c : Colours α}, (∀ x ∈ roots, x ∈ univ) →
      (anyCycle (dfs next fuel) roots c).isSome := by
  intro roots
  induction roots with
  | nil => intro c _; rfl
  | cons r roots ih =>
      intro c hroots
      have hrest : ∀ x ∈ roots, x ∈ univ := fun x hx => hroots x (List.mem_cons_of_mem _ hx)
      rw [anyCycle]
      split
      case isTrue hnew =>
        have hr := dfs_isSome huniv fuel (hroots r (List.mem_cons_self ..)) hnew
          (le_trans (Finset.card_le_card Finset.sdiff_subset) hfuel)
        split
        case h_1 hnone => rw [hnone] at hr; cases hr
        case h_2 => rfl
        case h_3 => exact ih hrest
      case isFalse => exact ih hrest

end CycleSearch
