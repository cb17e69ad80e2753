/-
The trail of a worklist search: who found whom, in the order of finding.

A lawful search (`Lib.Worklist`) is guided by neighbours and freshness
alone. The state it changes on its way is therefore the fold of its
actions over a list of pairs `(c, x)` that does not mention states, its
`trail`. Two searches with the same neighbours, whose fresh nodes agree
around the nodes found, leave the same trail, whatever else their states
differ in (`trail_congr`).

# Searches side by side

Both facts are one simulation (`run_simulation`): two searches, perhaps
on different types of state, that see the same neighbours and the same
fresh nodes take the same nodes in the same order, and a relation
between their states that each action keeps holds at the end.
-/
import Hammerwork.Lib.Worklist
import Mathlib.Data.List.Induction

namespace Worklist

variable {σ τ α : Type _} [DecidableEq α]

-- == searches side by side

section Simulation

variable {w : Worklist σ α} {v : Worklist τ α} {R : List α → σ → τ → Prop} {s : σ} {t : τ}
  {root : α}

/-- Two searches that have taken the same nodes and have the same ones
to expand, in states that are related. -/
structure Beside (w : Worklist σ α) (v : Worklist τ α) (R : List α → σ → τ → Prop) (s : σ)
    (t : τ) (root : α) (p : Progress σ α) (q : Progress τ α) : Prop where
  marked : p.marked = q.marked
  stack : p.stack = q.stack
  states : R p.marked p.state q.state
  left : Inv w s root p
  right : Inv v t root q

/-- The two searches see the same graph around the nodes found. -/
structure SameGraph (w : Worklist σ α) (v : Worklist τ α) (s : σ) (t : τ) (root : α) :
    Prop where
  next : ∀ c, w.next s c = v.next t c
  fresh : ∀ c, c = root ∨ Reached (w.next s) (w.fresh s ·) root c →
    ∀ x ∈ w.next s c, w.fresh s x = v.fresh t x

theorem Beside.visit (hw : w.Lawful) (hv : v.Lawful) (hg : SameGraph w v s t root)
    (hact : ∀ m s' t' c x, R m s' t' → c = root ∨ c ∈ m →
      x ∈ w.next s c → x ∉ m →
      R (m ++ [x]) (w.act s' c x) (v.act t' c x))
    {p : Progress σ α} {q : Progress τ α} (h : Beside w v R s t root p q) {c x : α}
    (hc : Found root p c) (hx : x ∈ w.next s c) :
    Beside w v R s t root (w.visit c p x) (v.visit c q x) := by
  have hc' : Found root q c := hc.imp_right fun hm => h.marked ▸ hm
  have hleft := h.left.visit hw hc hx
  have hright := h.right.visit hv hc' (hg.next c ▸ hx)
  have hsame : w.fresh p.state x = v.fresh q.state x := by
    rw [h.left.fresh_eq, h.right.fresh_eq, h.marked,
      hg.fresh c (hc.imp_right (h.left.sound c)) x hx]
  refine ⟨?_, ?_, ?_, hleft, hright⟩
  all_goals
    unfold Worklist.visit
    rw [hsame, h.marked]
    split
  case isTrue => rfl
  case isFalse => exact h.marked
  case isTrue => exact congrArg (x :: ·) h.stack
  case isFalse => exact h.stack
  case isTrue hf =>
    have hstates := h.states
    rw [h.marked] at hstates
    exact hact _ _ _ c x hstates hc' hx hf.2
  case isFalse => exact h.states

theorem Beside.visits (hw : w.Lawful) (hv : v.Lawful) (hg : SameGraph w v s t root)
    (hact : ∀ m s' t' c x, R m s' t' → c = root ∨ c ∈ m →
      x ∈ w.next s c → x ∉ m →
      R (m ++ [x]) (w.act s' c x) (v.act t' c x)) {c : α} (l : List α)
    (hl : ∀ x ∈ l, x ∈ w.next s c) :
    ∀ {p : Progress σ α} {q : Progress τ α}, Beside w v R s t root p q → Found root p c →
      Beside w v R s t root (l.foldl (w.visit c) p) (l.foldl (v.visit c) q) := by
  induction l with
  | nil => exact fun h _ => h
  | cons x l ih =>
      intro p q h hc
      have hx : x ∈ w.next s c := hl x (List.mem_cons_self ..)
      exact ih (fun y hy => hl y (List.mem_cons_of_mem _ hy)) (h.visit hw hv hg hact hc hx)
        ((extends_visit c p x).found hc)

theorem Beside.expand (hw : w.Lawful) (hv : v.Lawful) (hg : SameGraph w v s t root)
    (hact : ∀ m s' t' c x, R m s' t' → c = root ∨ c ∈ m →
      x ∈ w.next s c → x ∉ m →
      R (m ++ [x]) (w.act s' c x) (v.act t' c x))
    {p : Progress σ α} {q : Progress τ α} (h : Beside w v R s t root p q) :
    Beside w v R s t root (w.expand p) (v.expand q) := by
  unfold Worklist.expand
  rw [← h.stack]
  split
  case h_1 => exact h
  case h_2 c rest hs =>
    have hc : Found root p c := h.left.found c (by rw [hs]; exact List.mem_cons_self ..)
    have hneighbours : v.next q.state c = w.next p.state c := by
      rw [h.right.next_eq, h.left.next_eq, hg.next]
    rw [hneighbours]
    refine Beside.visits hw hv hg hact _ (fun x hx => h.left.next_eq c ▸ hx)
      ⟨h.marked, rfl, h.states, ?_, ?_⟩ hc
    · exact ⟨h.left.next_eq, h.left.fresh_eq, h.left.sound,
        fun y hy => h.left.found y (by rw [hs]; exact List.mem_cons_of_mem _ hy), h.left.nodup⟩
    · exact ⟨h.right.next_eq, h.right.fresh_eq, h.right.sound,
        fun y hy => h.right.found y (by rw [← h.stack, hs]; exact List.mem_cons_of_mem _ hy),
        h.right.nodup⟩

/-- Two searches of one graph take the same nodes in the same order, and
their states stay related. -/
theorem run_simulation (hw : w.Lawful) (hv : v.Lawful) (hg : SameGraph w v s t root)
    (h0 : R [] s t)
    (hact : ∀ m s' t' c x, R m s' t' → c = root ∨ c ∈ m →
      x ∈ w.next s c → x ∉ m →
      R (m ++ [x]) (w.act s' c x) (v.act t' c x)) (fuel : Nat) :
    (w.run fuel s root).marked = (v.run fuel t root).marked ∧
      R (w.run fuel s root).marked (w.run fuel s root).state (v.run fuel t root).state := by
  have hloop : ∀ (fuel : Nat) {p : Progress σ α} {q : Progress τ α},
      Beside w v R s t root p q →
        Beside w v R s t root (w.search fuel p) (v.search fuel q) := by
    intro fuel
    induction fuel with
    | zero => exact fun h => h
    | succ fuel ih => exact fun h => ih (h.expand hw hv hg hact)
  have hrun := hloop fuel ⟨rfl, rfl, h0, inv_start s root, inv_start t root⟩
  exact ⟨hrun.marked, hrun.states⟩

end Simulation

-- == the trail

/-- The search that only notes who found whom. -/
def tracing (next : α → List α) (fresh : α → Bool) : Worklist (List (α × α)) α where
  next _ := next
  fresh trail x := fresh x && !decide (x ∈ trail.map Prod.snd)
  act trail c x := trail ++ [(c, x)]

/-- Who finds whom in a search from `root`. -/
def trail (next : α → List α) (fresh : α → Bool) (fuel : Nat) (root : α) : List (α × α) :=
  ((tracing next fresh).run fuel [] root).state

variable {next next' : α → List α} {fresh fresh' : α → Bool} {fuel : Nat} {root : α}

theorem tracing_lawful (next : α → List α) (fresh : α → Bool) :
    (tracing next fresh).Lawful where
  next_act _ _ _ _ := rfl
  fresh_act trail c x y := by
    show (fresh y && !decide (y ∈ (trail ++ [(c, x)]).map Prod.snd)) = _
    show _ = ((fresh y && !decide (y ∈ trail.map Prod.snd)) && !decide (y = x))
    simp only [List.map_append, List.map_singleton, List.mem_append, List.mem_singleton]
    by_cases hy : y = x <;> simp [hy]

/-- A search acts along its trail, and takes the nodes found on it. -/
theorem run_trail {w : Worklist σ α} (hw : w.Lawful) (fuel : Nat) (s : σ) (root : α) :
    (w.run fuel s root).marked = (trail (w.next s) (w.fresh s) fuel root).map Prod.snd ∧
      (w.run fuel s root).state
        = (trail (w.next s) (w.fresh s) fuel root).foldl (fun s e => w.act s e.1 e.2) s := by
  have hgraph : SameGraph w (tracing (w.next s) (w.fresh s)) s [] root :=
    ⟨fun _ => rfl, fun _ _ x _ => by simp [tracing]⟩
  obtain ⟨-, hmarked, hstate⟩ := run_simulation
    (R := fun m s' trail => m = trail.map Prod.snd ∧
      s' = trail.foldl (fun s e => w.act s e.1 e.2) s)
    hw (tracing_lawful (w.next s) (w.fresh s)) hgraph ⟨rfl, rfl⟩
    (fun m s' trail c x h _ _ _ => by
      obtain ⟨rfl, rfl⟩ := h
      refine ⟨?_, ?_⟩
      · show _ = (trail ++ [(c, x)]).map Prod.snd
        rw [List.map_append, List.map_singleton]
      · show _ = (trail ++ [(c, x)]).foldl _ s
        rw [List.foldl_append, List.foldl_cons, List.foldl_nil]) fuel
  exact ⟨hmarked, hstate⟩

/-- Equal neighbours, and equal freshness around the nodes found, leave
equal trails. -/
theorem trail_congr (hnext : ∀ c, next c = next' c)
    (hfresh : ∀ c, c = root ∨ Reached next (fresh · = true) root c →
      ∀ x ∈ next c, fresh x = fresh' x) :
    trail next fresh fuel root = trail next' fresh' fuel root :=
  (run_simulation (R := fun _ trail trail' => trail = trail')
    (tracing_lawful next fresh) (tracing_lawful next' fresh')
    ⟨hnext, fun c hc x hx => by
      have hc' : c = root ∨ Reached next (fresh · = true) root c := by
        simpa [tracing] using hc
      simpa [tracing] using hfresh c hc' x hx⟩ rfl
    (fun _ _ _ c x h _ _ _ => congrArg (· ++ [(c, x)]) h) fuel).2

/-- Who finds a node is the root or was found before. -/
theorem trail_before {before after : List (α × α)} {c x : α}
    (h : trail next fresh fuel root = before ++ (c, x) :: after) :
    c = root ∨ c ∈ before.map Prod.snd := by
  have hgraph : SameGraph (tracing next fresh) (tracing next fresh) [] [] root :=
    ⟨fun _ => rfl, fun _ _ _ _ => rfl⟩
  obtain ⟨-, -, hall⟩ := run_simulation
    (R := fun m tr _ => m = tr.map Prod.snd ∧ ∀ before e after, tr = before ++ e :: after →
      e.1 = root ∨ e.1 ∈ before.map Prod.snd)
    (tracing_lawful next fresh) (tracing_lawful next fresh) hgraph
    ⟨rfl, fun before e after he => by simp at he⟩
    (fun m tr _ c x hm hc _ _ => by
      obtain ⟨hmap, hall⟩ := hm
      refine ⟨?_, fun before e after he => ?_⟩
      · show _ = (tr ++ [(c, x)]).map Prod.snd
        rw [List.map_append, List.map_singleton, hmap]
      · -- the pair is the new one, or was there
        replace he : tr ++ [(c, x)] = before ++ e :: after := he
        rcases List.eq_nil_or_concat after with rfl | ⟨after, e', rfl⟩
        · obtain ⟨rfl, heq⟩ := List.append_inj' he rfl
          obtain rfl := List.singleton_inj.1 heq
          exact hc.imp_right fun h => hmap ▸ h
        · rw [List.concat_eq_append, ← List.cons_append, ← List.append_assoc] at he
          exact hall before e after (List.append_inj' he rfl).1) fuel
  exact hall before (c, x) after h

/-- Who finds a node is the root or was found. -/
theorem trail_finder {c x : α} (h : (c, x) ∈ trail next fresh fuel root) :
    c = root ∨ c ∈ (trail next fresh fuel root).map Prod.snd := by
  obtain ⟨before, after, heq⟩ := List.append_of_mem h
  refine (trail_before heq).imp_right fun hc => ?_
  rw [heq, List.map_append]
  exact List.mem_append_left _ hc

/-- What holds of a node whenever it holds of the one that found it
holds of every node found. By induction on what was found before. -/
theorem trail_induct {Q : α → Prop}
    (h : ∀ c x, (c, x) ∈ trail next fresh fuel root → c = root ∨ Q c → Q x) :
    ∀ x ∈ (trail next fresh fuel root).map Prod.snd, Q x := by
  have hprefix : ∀ before after, trail next fresh fuel root = before ++ after →
      ∀ x ∈ before.map Prod.snd, Q x := by
    intro before
    induction before using List.reverseRecOn with
    | nil => exact fun _ _ x hx => by cases hx
    | append_singleton before e ih =>
        intro after heq x hx
        rw [List.append_assoc, List.singleton_append] at heq
        have hold := ih (e :: after) heq
        rw [List.map_append] at hx
        rcases List.mem_append.1 hx with hx | hx
        · exact hold x hx
        · rw [List.mem_singleton.1 hx]
          refine h e.1 e.2 ?_ ((trail_before heq).imp_right (hold _))
          rw [heq]
          exact List.mem_append_right _ (List.mem_cons_self ..)
  exact hprefix _ [] (List.append_nil _).symm

/-- A node is found as a neighbour. -/
theorem trail_edge {c x : α} (h : (c, x) ∈ trail next fresh fuel root) : x ∈ next c := by
  have hgraph : SameGraph (tracing next fresh) (tracing next fresh) [] [] root :=
    ⟨fun _ => rfl, fun _ _ _ _ => rfl⟩
  obtain ⟨-, hall⟩ := run_simulation (R := fun _ tr _ => ∀ e ∈ tr, e.2 ∈ next e.1)
    (tracing_lawful next fresh) (tracing_lawful next fresh) hgraph (fun e he => by cases he)
    (fun m tr _ c x hall _ hx _ => by
      intro e he
      rcases List.mem_append.1 he with he | he
      · exact hall e he
      · rw [List.mem_singleton.1 he]
        exact hx) fuel
  exact hall (c, x) h

/-- A node is found once. -/
theorem nodup_trail (next : α → List α) (fresh : α → Bool) (fuel : Nat) (root : α) :
    ((trail next fresh fuel root).map Prod.snd).Nodup := by
  have hlawful := tracing_lawful next fresh
  have hinv := ((tracing next fresh).inv_run hlawful fuel [] root).1.nodup
  rw [(run_trail hlawful fuel [] root).1] at hinv
  have hsame : trail ((tracing next fresh).next []) ((tracing next fresh).fresh []) fuel root
      = trail next fresh fuel root :=
    trail_congr (fun _ => rfl) fun _ _ x _ => by simp [tracing]
  rwa [hsame] at hinv

end Worklist
