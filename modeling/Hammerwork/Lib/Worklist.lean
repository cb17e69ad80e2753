/-
Worklist search over a state that the search itself changes.

A `Worklist` knows three things about a state: the neighbours of a node
(`next`), whether a node may still be taken (`fresh`), and what taking
a node does to the state (`act`). The search keeps a stack of nodes
whose neighbours are still to be looked at and a list of the nodes it
took (`marked`); it looks at the neighbours of the node on top, takes
those that are fresh and not taken yet, and pushes them.

# What has to be known about the client

Two laws (`Lawful`): taking a node leaves the neighbours of every node
as they are, and makes that node, and no other, stale. Under them the
search is the search of a fixed graph, whatever else `act` writes:

- `mem_marked_run`: the nodes taken are exactly those reached from the
  root along neighbours that were fresh at the start (`Reached`);
- `fresh_run`: afterwards a node is fresh iff it was fresh and was not
  taken;
- `run_induct`: what holds of the state first and survives taking a
  node that is fresh and reached holds of the final state.

The search is a bounded iteration. Every expansion removes one node
from the stack, and a node enters the stack once, when it is taken, so
one expansion more than there are nodes that can be fresh empties the
stack (`stack_run`).
-/
import Mathlib.Data.List.Basic
import Mathlib.Data.List.Nodup
import Mathlib.Data.List.Perm.Subperm

/-- What a worklist search reads from a state and writes to it. -/
structure Worklist (σ α : Type _) where
  next : σ → α → List α
  fresh : σ → α → Bool
  /-- `act s c x`: take `x`, found as a neighbour of `c`. -/
  act : σ → α → α → σ

namespace Worklist

variable {σ α : Type _}

/-- A search under way: the state as changed so far, the nodes taken in
the order they were taken, and the nodes still to be expanded. -/
structure Progress (σ α : Type _) where
  state : σ
  marked : List α
  stack : List α

/-- Taking a node keeps every node's neighbours, and makes that node
alone stale. -/
structure Lawful [DecidableEq α] (w : Worklist σ α) : Prop where
  next_act : ∀ s c x y, w.next (w.act s c x) y = w.next s y
  fresh_act : ∀ s c x y, w.fresh (w.act s c x) y = (w.fresh s y && !decide (y = x))

/-- The nodes reached from `root` along fresh neighbours. -/
inductive Reached (next : α → List α) (fresh : α → Prop) (root : α) : α → Prop
  | direct {x : α} : x ∈ next root → fresh x → Reached next fresh root x
  | step {y x : α} : Reached next fresh root y → x ∈ next y → fresh x →
      Reached next fresh root x

section Reached

variable {next next' : α → List α} {fresh fresh' : α → Prop} {root x : α}

/-- A reached node is fresh. -/
theorem Reached.isFresh (h : Reached next fresh root x) : fresh x := by
  cases h with
  | direct _ hf => exact hf
  | step _ _ hf => exact hf

/-- More neighbours and more fresh nodes reach more. -/
theorem Reached.mono (hnext : ∀ c y, y ∈ next c → y ∈ next' c)
    (hfresh : ∀ y, fresh y → fresh' y) (h : Reached next fresh root x) :
    Reached next' fresh' root x := by
  induction h with
  | direct hx hf => exact .direct (hnext _ _ hx) (hfresh _ hf)
  | step _ hx hf ih => exact .step ih (hnext _ _ hx) (hfresh _ hf)

/-- Whether the root itself is fresh matters to no other node. -/
theorem Reached.of_ne_root (hnext : ∀ c y, y ∈ next c → y ∈ next' c)
    (hfresh : ∀ y, y ≠ root → fresh y → fresh' y) (h : Reached next fresh root x) :
    x = root ∨ Reached next' fresh' root x := by
  induction h with
  | @direct x hx hf =>
      by_cases hroot : x = root
      · exact .inl hroot
      · exact .inr (.direct (hnext _ _ hx) (hfresh x hroot hf))
  | @step y x _ hx hf ih =>
      by_cases hroot : x = root
      · exact .inl hroot
      · rcases ih with rfl | hy
        · exact .inr (.direct (hnext _ _ hx) (hfresh x hroot hf))
        · exact .inr (.step hy (hnext _ _ hx) (hfresh x hroot hf))

/-- What is reached depends on which nodes are neighbours and fresh, not
on how they are listed. -/
theorem reached_congr (hnext : ∀ c y, y ∈ next c ↔ y ∈ next' c)
    (hfresh : ∀ y, fresh y ↔ fresh' y) :
    Reached next fresh root x ↔ Reached next' fresh' root x :=
  ⟨.mono (fun c y => (hnext c y).1) fun y => (hfresh y).1,
    .mono (fun c y => (hnext c y).2) fun y => (hfresh y).2⟩

/-- A node added to a graph is reached next to the root or to a node
that was reached without it. -/
theorem reached_added (hnext : ∀ c y, y ≠ x → (y ∈ next' c ↔ y ∈ next c))
    (hfresh : ∀ y, y ≠ x → (fresh' y ↔ fresh y)) (hnew : ¬ fresh x) :
    Reached next' fresh' root x ↔
      fresh' x ∧ ∃ c, (c = root ∨ Reached next fresh root c) ∧ x ∈ next' c := by
  have hkept : ∀ z, Reached next' fresh' root z →
      (∃ c, (c = root ∨ Reached next fresh root c) ∧ x ∈ next' c) ∨
        (z ≠ x ∧ Reached next fresh root z) := by
    intro z hz
    induction hz with
    | @direct z hz hf =>
        by_cases hzx : z = x
        · exact .inl ⟨root, .inl rfl, hzx ▸ hz⟩
        · exact .inr ⟨hzx, .direct ((hnext _ _ hzx).1 hz) ((hfresh _ hzx).1 hf)⟩
    | @step y z _ hz hf ih =>
        rcases ih with hfound | ⟨-, hy⟩
        · exact .inl hfound
        · by_cases hzx : z = x
          · exact .inl ⟨y, .inr hy, hzx ▸ hz⟩
          · exact .inr ⟨hzx, .step hy ((hnext _ _ hzx).1 hz) ((hfresh _ hzx).1 hf)⟩
  constructor
  · intro h
    exact ⟨h.isFresh, (hkept x h).resolve_right fun hx => hx.1 rfl⟩
  · intro ⟨hf, c, hc, hx⟩
    have hgrow : ∀ z, Reached next fresh root z → z ≠ x ∧ Reached next' fresh' root z := by
      intro z hz
      induction hz with
      | @direct z hz hf =>
          have hzx : z ≠ x := fun heq => hnew (heq ▸ hf)
          exact ⟨hzx, .direct ((hnext _ _ hzx).2 hz) ((hfresh _ hzx).2 hf)⟩
      | @step y z _ hz hf ih =>
          have hzx : z ≠ x := fun heq => hnew (heq ▸ hf)
          exact ⟨hzx, .step ih.2 ((hnext _ _ hzx).2 hz) ((hfresh _ hzx).2 hf)⟩
    rcases hc with rfl | hc
    · exact .direct hx hf
    · exact .step (hgrow c hc).2 hx hf

end Reached

/-- A node that has been found: the root, or one that was taken. -/
def Found (root : α) (p : Progress σ α) (y : α) : Prop := y = root ∨ y ∈ p.marked

/-- `q` is a later stage than `p` within one expansion: nothing is
forgotten, what is newly taken is on the stack, and the stack grew by
as many nodes as were taken. -/
structure Extends (p q : Progress σ α) : Prop where
  marked : ∀ y ∈ p.marked, y ∈ q.marked
  stack : ∀ y ∈ p.stack, y ∈ q.stack
  fresh : ∀ y ∈ q.marked, y ∈ p.marked ∨ y ∈ q.stack
  count : q.stack.length + p.marked.length = p.stack.length + q.marked.length

theorem Extends.refl (p : Progress σ α) : Extends p p where
  marked _ hy := hy
  stack _ hy := hy
  fresh _ hy := .inl hy
  count := rfl

theorem Extends.trans {p q r : Progress σ α} (h₁ : Extends p q) (h₂ : Extends q r) :
    Extends p r where
  marked y hy := h₂.marked y (h₁.marked y hy)
  stack y hy := h₂.stack y (h₁.stack y hy)
  fresh y hy := by
    rcases h₂.fresh y hy with hq | hr
    · exact (h₁.fresh y hq).imp_right (h₂.stack y)
    · exact .inr hr
  count := by
    have := h₁.count
    have := h₂.count
    omega

theorem Extends.found {root : α} {p q : Progress σ α} (h : Extends p q) {y : α}
    (hy : Found root p y) :
    Found root q y :=
  hy.imp_right (h.marked y)

/-- A found node is still to be expanded, or all its fresh neighbours
are taken. -/
def Closed (w : Worklist σ α) (s : σ) (root : α) (p : Progress σ α) : Prop :=
  ∀ y, Found root p y → y ∈ p.stack ∨ ∀ x ∈ w.next s y, w.fresh s x = true → x ∈ p.marked

theorem closed_start (w : Worklist σ α) (s : σ) (root : α) :
    Closed w s root { state := s, marked := [], stack := [root] } := by
  intro y hy
  rcases hy with rfl | hy
  · exact .inl (List.mem_singleton_self y)
  · cases hy

variable [DecidableEq α] (w : Worklist σ α)

-- == the search

/-- Look at one neighbour `x` of `c`: take it if it is fresh and was
not taken yet. -/
def visit (c : α) (p : Progress σ α) (x : α) : Progress σ α :=
  if w.fresh p.state x ∧ x ∉ p.marked then
    { state := w.act p.state c x, marked := p.marked ++ [x], stack := x :: p.stack }
  else
    p

/-- Pop the node on top and look at its neighbours. -/
def expand (p : Progress σ α) : Progress σ α :=
  match p.stack with
  | [] => p
  | c :: rest => (w.next p.state c).foldl (w.visit c) { p with stack := rest }

/-- At most `fuel` expansions. -/
def search : Nat → Progress σ α → Progress σ α
  | 0, p => p
  | fuel + 1, p => search fuel (w.expand p)

/-- The search from `root` in state `s`. -/
def run (fuel : Nat) (s : σ) (root : α) : Progress σ α :=
  w.search fuel { state := s, marked := [], stack := [root] }

/-- The search without a bound: expansions until the stack is
empty. -/
inductive Ends : Progress σ α → Progress σ α → Prop
  | stop {p : Progress σ α} : p.stack = [] → Ends p p
  | next {p q : Progress σ α} : p.stack ≠ [] → Ends (w.expand p) q → Ends p q

/-- With nothing to expand the search stays where it is. -/
theorem search_of_empty {p : Progress σ α} (hp : p.stack = []) :
    ∀ fuel : Nat, w.search fuel p = p := by
  intro fuel
  induction fuel with
  | zero => rfl
  | succ fuel ih =>
      have hstay : w.expand p = p := by
        unfold Worklist.expand
        rw [hp]
      rw [search, hstay]
      exact ih

/-- A bounded search that emptied its stack is the search without a
bound. -/
theorem ends_search : ∀ (fuel : Nat) {p : Progress σ α}, (w.search fuel p).stack = [] →
    w.Ends p (w.search fuel p) := by
  intro fuel
  induction fuel with
  | zero => exact fun h => .stop h
  | succ fuel ih =>
      intro p h
      by_cases hp : p.stack = []
      · rw [w.search_of_empty hp]
        exact .stop hp
      · exact .next hp (ih h)

-- == the invariant

/-- What every stage of a search from `root` in state `s` satisfies. -/
structure Inv (s : σ) (root : α) (p : Progress σ α) : Prop where
  next_eq : ∀ y, w.next p.state y = w.next s y
  fresh_eq : ∀ y, w.fresh p.state y = (w.fresh s y && !decide (y ∈ p.marked))
  sound : ∀ y ∈ p.marked, Reached (w.next s) (w.fresh s ·) root y
  found : ∀ y ∈ p.stack, Found root p y
  nodup : p.marked.Nodup

variable {w} {s : σ} {root : α} {p : Progress σ α}

theorem inv_start (s : σ) (root : α) :
    Inv w s root { state := s, marked := [], stack := [root] } where
  next_eq _ := rfl
  fresh_eq _ := by simp
  sound _ hy := by cases hy
  found y hy := .inl (List.mem_singleton.1 hy)
  nodup := List.nodup_nil

/-- A fresh node is not among those taken. -/
theorem Inv.fresh_start (h : Inv w s root p) {x : α} (hx : w.fresh p.state x = true) :
    w.fresh s x = true ∧ x ∉ p.marked := by
  rw [h.fresh_eq] at hx
  simpa using hx

/-- A neighbour of a found node that is fresh at the start is
reached. -/
theorem Inv.reached (h : Inv w s root p) {c x : α} (hc : Found root p c)
    (hx : x ∈ w.next s c) (hf : w.fresh s x = true) : Reached (w.next s) (w.fresh s ·) root x := by
  cases hc with
  | inl hroot =>
      subst hroot
      exact .direct hx hf
  | inr hmem => exact .step (h.sound c hmem) hx hf

/-- The step of the search: looking at one neighbour. -/
theorem Inv.visit (hw : w.Lawful) (h : Inv w s root p) {c x : α}
    (hc : Found root p c) (hx : x ∈ w.next s c) : Inv w s root (w.visit c p x) := by
  unfold Worklist.visit
  split
  case isFalse => exact h
  case isTrue hfresh =>
    obtain ⟨hf, hnew⟩ := hfresh
    have hreach := h.reached hc hx (h.fresh_start hf).1
    refine ⟨?_, ?_, ?_, ?_, ?_⟩
    · intro y
      rw [hw.next_act, h.next_eq]
    · intro y
      rw [hw.fresh_act, h.fresh_eq]
      simp only [List.mem_append, List.mem_singleton]
      by_cases hy : y = x <;> simp [hy]
    · intro y hy
      rcases List.mem_append.1 hy with hy | hy
      · exact h.sound y hy
      · rw [List.mem_singleton.1 hy]
        exact hreach
    · intro y hy
      rcases List.mem_cons.1 hy with rfl | hy
      · exact .inr (by simp)
      · exact (h.found y hy).imp_right fun hm => List.mem_append_left _ hm
    · exact List.nodup_append.2 ⟨h.nodup, List.nodup_singleton x, by
        intro a ha b hb hab
        rw [List.mem_singleton.1 hb] at hab
        exact hnew (hab ▸ ha)⟩

/-- After looking at a neighbour, it is taken or was never fresh. -/
theorem Inv.taken (h : Inv w s root p) (c x : α) (hf : w.fresh s x = true) :
    x ∈ (w.visit c p x).marked := by
  unfold Worklist.visit
  split
  case isTrue => simp
  case isFalse hno =>
    by_contra hx
    exact hno ⟨by rw [h.fresh_eq]; simp [hf, hx], hx⟩

-- == growing progress

theorem extends_visit (c : α) (p : Progress σ α) (x : α) : Extends p (w.visit c p x) := by
  unfold Worklist.visit
  split
  case isFalse => exact .refl p
  case isTrue =>
    refine ⟨fun y hy => List.mem_append_left _ hy, fun y hy => List.mem_cons_of_mem _ hy,
      ?_, ?_⟩
    · intro y hy
      rcases List.mem_append.1 hy with hy | hy
      · exact .inl hy
      · exact .inr (List.mem_cons.2 (.inl (List.mem_singleton.1 hy)))
    · simp only [List.length_append, List.length_cons, List.length_nil]
      omega

/-- Looking at neighbours `l` of a found node `c`, one after another. -/
theorem Inv.visits (hw : w.Lawful) {c : α} (l : List α) (hl : ∀ x ∈ l, x ∈ w.next s c) :
    ∀ {p : Progress σ α}, Inv w s root p → Found root p c →
      Inv w s root (l.foldl (w.visit c) p) ∧ Extends p (l.foldl (w.visit c) p)
        ∧ ∀ x ∈ l, w.fresh s x = true → x ∈ (l.foldl (w.visit c) p).marked := by
  induction l with
  | nil =>
      intro p h _
      exact ⟨h, .refl p, fun x hx => by cases hx⟩
  | cons x l ih =>
      intro p h hc
      have hx : x ∈ w.next s c := hl x (List.mem_cons_self ..)
      have hvisit : Extends p (w.visit c p x) := extends_visit c p x
      obtain ⟨hinv, hext, htaken⟩ :=
        ih (fun y hy => hl y (List.mem_cons_of_mem _ hy)) (h.visit hw hc hx) (hvisit.found hc)
      refine ⟨hinv, hvisit.trans hext, ?_⟩
      intro y hy hf
      rcases List.mem_cons.1 hy with rfl | hy
      · exact hext.marked y (h.taken c y hf)
      · exact htaken y hy hf

/-- Looking at neighbours one after another takes the fresh ones among
them together. -/
theorem foldl_visit (hw : w.Lawful) (c : α) (l : List α) (hl : l.Nodup) (p : Progress σ α) :
    l.foldl (w.visit c) p
      = { state := (l.filter fun x => w.fresh p.state x && !decide (x ∈ p.marked)).foldl
            (fun s x => w.act s c x) p.state
          marked := p.marked ++ l.filter fun x => w.fresh p.state x && !decide (x ∈ p.marked)
          stack := (l.filter fun x => w.fresh p.state x && !decide (x ∈ p.marked)).reverse
            ++ p.stack } := by
  induction l generalizing p with
  | nil => simp
  | cons x l ih =>
      obtain ⟨hx, hl⟩ := List.nodup_cons.1 hl
      rw [List.foldl_cons, ih hl, List.filter_cons]
      unfold visit
      by_cases hf : w.fresh p.state x = true ∧ x ∉ p.marked
      · -- taking `x` leaves the others as fresh as they were
        have hrest : (l.filter fun y => w.fresh (w.act p.state c x) y
              && !decide (y ∈ p.marked ++ [x]))
            = l.filter fun y => w.fresh p.state y && !decide (y ∈ p.marked) := by
          refine List.filter_congr fun y hy => ?_
          have hyx : y ≠ x := fun h => hx (h ▸ hy)
          rw [hw.fresh_act]
          simp [hyx]
        rw [if_pos hf]
        dsimp only
        rw [hrest, if_pos (by simp [hf.1, hf.2])]
        simp
      · rw [if_neg hf, if_neg (by simpa using hf)]

-- == whole searches

/-- One expansion keeps the invariant and closedness, and takes the top
node off the books. -/
theorem Inv.expand (hw : w.Lawful) (h : Inv w s root p) (hcl : Closed w s root p) :
    Inv w s root (w.expand p) ∧ Closed w s root (w.expand p)
      ∧ (p.stack ≠ [] →
          (w.expand p).stack.length + 1 + p.marked.length
            = p.stack.length + (w.expand p).marked.length) := by
  unfold Worklist.expand
  split
  case h_1 hs => exact ⟨h, hcl, fun hne => absurd hs hne⟩
  case h_2 c rest hs =>
    have hc : Found root p c := h.found c (by rw [hs]; exact List.mem_cons_self ..)
    have hpop : Inv w s root { p with stack := rest } :=
      ⟨h.next_eq, h.fresh_eq, h.sound,
        fun y hy => h.found y (by rw [hs]; exact List.mem_cons_of_mem _ hy), h.nodup⟩
    obtain ⟨hinv, hext, htaken⟩ :=
      Inv.visits hw (w.next p.state c) (fun x hx => h.next_eq c ▸ hx) hpop hc
    refine ⟨hinv, ?_, ?_⟩
    · intro y hy
      by_cases hyc : y = c
      · subst hyc
        right
        intro x hx hf
        exact htaken x (by rw [h.next_eq]; exact hx) hf
      · -- `y` was found before, or was just put on the stack
        have hold : Found root p y ∨ y ∈ (List.foldl (w.visit c) { p with stack := rest }
            (w.next p.state c)).stack := by
          rcases hy with hroot | hmem
          · exact .inl (.inl hroot)
          · exact (hext.fresh y hmem).imp_left .inr
        rcases hold with hold | hnew
        · rcases hcl y hold with hst | hdone
          · rw [hs] at hst
            rcases List.mem_cons.1 hst with heq | hrest
            · exact absurd heq hyc
            · exact .inl (hext.stack y hrest)
          · exact .inr fun x hx hf => hext.marked x (hdone x hx hf)
        · exact .inl hnew
    · intro _
      have hcount : _ + p.marked.length = rest.length + _ := hext.count
      rw [hs, List.length_cons]
      omega

/-- `fuel` expansions: the invariant, closedness, and, unless the stack
emptied, one node less to expand for each. -/
theorem Inv.search (hw : w.Lawful) :
    ∀ (fuel : Nat) {p : Progress σ α}, Inv w s root p → Closed w s root p →
      Inv w s root (w.search fuel p) ∧ Closed w s root (w.search fuel p)
        ∧ ((w.search fuel p).stack ≠ [] →
            (w.search fuel p).stack.length + fuel + p.marked.length
              = p.stack.length + (w.search fuel p).marked.length) := by
  intro fuel
  induction fuel with
  | zero =>
      intro p h hcl
      exact ⟨h, hcl, fun _ => by simp [Worklist.search]⟩
  | succ fuel ih =>
      intro p h hcl
      obtain ⟨hinv, hcl', hcount⟩ := h.expand hw hcl
      obtain ⟨hinv', hcl'', hcount'⟩ := ih hinv hcl'
      refine ⟨hinv', hcl'', ?_⟩
      intro hne
      have hp : p.stack ≠ [] := fun hp => by
        rw [w.search_of_empty hp] at hne
        exact hne hp
      have h₁ := hcount hp
      have h₂ := hcount' hne
      rw [Worklist.search]
      omega

variable (w)

/-- With one expansion for each node that can be fresh, and one for the
root, the stack empties. -/
theorem stack_run (hw : w.Lawful) {fuel : Nat} (s : σ) (root : α) {univ : List α}
    (huniv : ∀ x, w.fresh s x = true → x ∈ univ) (hfuel : univ.length < fuel) :
    (w.run fuel s root).stack = [] := by
  by_contra hne
  obtain ⟨hinv, -, hcount⟩ := Inv.search hw fuel (inv_start s root) (closed_start w s root)
  have hsub : (w.run fuel s root).marked ⊆ univ := by
    intro x hx
    exact huniv x (hinv.sound x hx).isFresh
  have hle := (List.subperm_of_subset hinv.nodup hsub).length_le
  have hlen := hcount hne
  have hpos : 0 < (w.run fuel s root).stack.length := List.length_pos_of_ne_nil hne
  change (w.run fuel s root).stack.length + fuel + 0
    = 1 + (w.run fuel s root).marked.length at hlen
  change (w.run fuel s root).marked.length ≤ univ.length at hle
  omega

theorem inv_run (hw : w.Lawful) (fuel : Nat) (s : σ) (root : α) :
    Inv w s root (w.run fuel s root) ∧ Closed w s root (w.run fuel s root) := by
  obtain ⟨hinv, hcl', -⟩ := Inv.search hw fuel (inv_start s root) (closed_start w s root)
  exact ⟨hinv, hcl'⟩

/-- The nodes taken are the nodes reached. -/
theorem mem_marked_run (hw : w.Lawful) {fuel : Nat} {s : σ} {root : α} {univ : List α}
    (huniv : ∀ x, w.fresh s x = true → x ∈ univ) (hfuel : univ.length < fuel) {x : α} :
    x ∈ (w.run fuel s root).marked ↔ Reached (w.next s) (w.fresh s ·) root x := by
  obtain ⟨hinv, hcl⟩ := w.inv_run hw fuel s root
  have hstack := w.stack_run hw s root huniv hfuel
  have hdone : ∀ y, Found root (w.run fuel s root) y →
      ∀ x ∈ w.next s y, w.fresh s x = true → x ∈ (w.run fuel s root).marked := by
    intro y hy
    rcases hcl y hy with hst | hdone
    · rw [hstack] at hst
      cases hst
    · exact hdone
  constructor
  · exact hinv.sound x
  · intro hreach
    induction hreach with
    | direct hx hf => exact hdone _ (.inl rfl) _ hx hf
    | step _ hx hf ih => exact hdone _ (.inr ih) _ hx hf

/-- What the search took is stale afterwards; nothing else changed. -/
theorem fresh_run (hw : w.Lawful) (fuel : Nat) (s : σ) (root x : α) :
    w.fresh (w.run fuel s root).state x
      = (w.fresh s x && !decide (x ∈ (w.run fuel s root).marked)) :=
  (w.inv_run hw fuel s root).1.fresh_eq x

-- == the induction rule

section Induct

variable {w} {P : σ → Prop}

/-- The rule for the neighbours of one node. -/
private theorem visits_induct (hw : w.Lawful) {c : α}
    (hact : ∀ s' c x, P s' → w.fresh s' x = true → x ∈ w.next s c →
      c = root ∨ Reached (w.next s) (w.fresh s ·) root c → P (w.act s' c x))
    (l : List α) (hl : ∀ x ∈ l, x ∈ w.next s c) :
    ∀ {p : Progress σ α}, Inv w s root p → Found root p c → P p.state →
      P (l.foldl (w.visit c) p).state := by
  induction l with
  | nil => intro p _ _ hp; exact hp
  | cons x l ih =>
      intro p h hc hp
      have hx : x ∈ w.next s c := hl x (List.mem_cons_self ..)
      refine ih (fun y hy => hl y (List.mem_cons_of_mem _ hy)) (h.visit hw hc hx)
        ((extends_visit c p x).found hc) ?_
      unfold visit
      split
      case isFalse => exact hp
      case isTrue hf => exact hact _ _ _ hp hf.1 hx (hc.imp_right (h.sound c))

/-- What survives taking a node that is fresh and a neighbour of a
found one survives the search. -/
theorem run_induct (hw : w.Lawful) (fuel : Nat) (h0 : P s)
    (hact : ∀ s' c x, P s' → w.fresh s' x = true → x ∈ w.next s c →
      c = root ∨ Reached (w.next s) (w.fresh s ·) root c → P (w.act s' c x)) :
    P (w.run fuel s root).state := by
  have hstep : ∀ {p : Progress σ α}, Inv w s root p → P p.state → P (w.expand p).state := by
    intro p h hp
    unfold expand
    split
    case h_1 => exact hp
    case h_2 c rest hs =>
      have hc : Found root p c := h.found c (by rw [hs]; exact List.mem_cons_self ..)
      exact visits_induct hw hact _ (fun x hx => h.next_eq c ▸ hx)
        ⟨h.next_eq, h.fresh_eq, h.sound,
          fun y hy => h.found y (by rw [hs]; exact List.mem_cons_of_mem _ hy), h.nodup⟩ hc hp
  have hloop : ∀ (fuel : Nat) {p : Progress σ α}, Inv w s root p → Closed w s root p →
      P p.state → P (w.search fuel p).state := by
    intro fuel
    induction fuel with
    | zero => intro p _ _ hp; exact hp
    | succ fuel ih =>
        intro p h hcl hp
        obtain ⟨hinv, hcl', -⟩ := h.expand hw hcl
        exact ih hinv hcl' (hstep h hp)
  exact hloop fuel (inv_start s root) (closed_start w s root) h0

end Induct

end Worklist
