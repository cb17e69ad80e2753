/-
Finite runs of a labelled transition relation, indexed by time.

A `Run step n` names its `n + 1` states and `n` events, so a statement
about a run can speak of "the state before the third event" or "every
later state" by number. Facts about runs come from facts about steps by
four rules, all in this file:

- `invariant`: what holds first and survives every step holds always;
- `stable`: the same from a later time on, under a hypothesis on the
  steps taken from there;
- `last_rise`: a property that holds now and did not hold earlier has a
  LAST step at which it began to hold (`chain_rise`: in a chain, some
  step);
- `ofFn`, `ofPartial`: a step function and a list of events make a run,
  and so do steps one after the other (`stay`, `snoc`).

`count` counts the steps of a kind, and `collect` lists what the steps
yield: if each takes it out of a store, that is what the store has lost
(`collect_perm`).

Chains that carry no index are Mathlib's `Relation.ReflTransGen`.
-/
import Mathlib.Data.List.Basic
import Mathlib.Data.Nat.Init
import Mathlib.Logic.Relation

/-- A run of `n` steps: the states, the events, and the steps taken. -/
structure Run {σ ε : Type _} (step : σ → ε → σ → Prop) (n : Nat) where
  state : Nat → σ
  event : Nat → ε
  next : ∀ i < n, step (state i) (event i) (state (i + 1))

namespace Run

variable {σ ε : Type _} {step : σ → ε → σ → Prop} {n : Nat}

/-- From time `m` on: what holds at `m` and survives every step taken
from there holds at every later state. -/
theorem stable (r : Run step n) {P : σ → Prop} {m : Nat} (hm : P (r.state m))
    (hstep : ∀ i, m ≤ i → i < n → step (r.state i) (r.event i) (r.state (i + 1)) →
      P (r.state i) → P (r.state (i + 1))) :
    ∀ i, m ≤ i → i ≤ n → P (r.state i) := by
  intro i hmi
  induction i, hmi using Nat.le_induction with
  | base => intro _; exact hm
  | succ i hmi ih =>
      intro hi
      exact hstep i hmi (by omega) (r.next i (by omega)) (ih (by omega))

/-- What holds first and survives every step holds at every state. -/
theorem invariant (r : Run step n) {P : σ → Prop} (h0 : P (r.state 0))
    (hstep : ∀ s e s', step s e s' → P s → P s') :
    ∀ i ≤ n, P (r.state i) := by
  intro i hi
  exact r.stable h0 (fun j _ _ hj => hstep _ _ _ hj) i (Nat.zero_le i) hi

/-- A property of the state number that holds at `k` but not at `m` has
a last time it began to hold. -/
theorem last_rise {P : Nat → Prop} {m k : Nat} (hmk : m ≤ k) (hm : ¬ P m)
    (hk : P k) :
    ∃ i, m ≤ i ∧ i < k ∧ ¬ P i ∧ ∀ j, i < j → j ≤ k → P j := by
  induction k, hmk using Nat.le_induction with
  | base => exact absurd hk hm
  | succ k hmk ih =>
      by_cases hPk : P k
      · obtain ⟨i, hmi, hik, hPi, hall⟩ := ih hPk
        refine ⟨i, hmi, by omega, hPi, ?_⟩
        intro j hij hjk
        by_cases hj : j = k + 1
        · rw [hj]
          exact hk
        · exact hall j hij (by omega)
      · refine ⟨k, hmk, by omega, hPk, ?_⟩
        intro j hkj hjk
        have hj : j = k + 1 := by omega
        rw [hj]
        exact hk

/-- A chain along which a property came to hold has a step at which it
did. -/
theorem chain_rise {R : σ → σ → Prop} {P : σ → Prop} {s s' : σ}
    (h : Relation.ReflTransGen R s s') (hs : ¬ P s) (hs' : P s') :
    ∃ t t', Relation.ReflTransGen R s t ∧ R t t' ∧ Relation.ReflTransGen R t' s' ∧
      ¬ P t ∧ P t' := by
  induction h with
  | refl => exact absurd hs' hs
  | tail hchain hstep ih =>
      rename_i b c
      by_cases hb : P b
      · obtain ⟨t, t', h₁, hR, h₂, ht, ht'⟩ := ih hb
        exact ⟨t, t', h₁, hR, h₂.tail hstep, ht, ht'⟩
      · exact ⟨b, c, hchain, hstep, .refl, hb, hs'⟩

/-- How many of the steps from `start` up to `stop` are of a kind. -/
def count (r : Run step n) (kind : σ → ε → Bool) (start stop : Nat) : Nat :=
  (List.range' start (stop - start)).countP fun i => kind (r.state i) (r.event i)

theorem count_self (r : Run step n) (kind : σ → ε → Bool) (start : Nat) :
    r.count kind start start = 0 := by
  simp [count]

theorem count_succ (r : Run step n) (kind : σ → ε → Bool) {start i : Nat} (hi : start ≤ i) :
    r.count kind start (i + 1)
      = r.count kind start i + if kind (r.state i) (r.event i) then 1 else 0 := by
  have hlast : start + (i - start) = i := by omega
  rw [count, Nat.succ_sub hi, List.range'_concat, List.countP_append, Nat.one_mul, hlast,
    List.countP_singleton]
  rfl

/-- What the first steps of a run yield, in order. -/
def collect {α : Type _} (r : Run step n) (yield : σ → ε → List α) : Nat → List α
  | 0 => []
  | i + 1 => r.collect yield i ++ yield (r.state i) (r.event i)

/-- What steps take out of a store is what it has lost. -/
theorem collect_perm {α : Type _} (r : Run step n) {yield : σ → ε → List α} {store : σ → List α}
    (hstep : ∀ s e s', step s e s' → (yield s e ++ store s').Perm (store s)) :
    ∀ i ≤ n, (r.collect yield i ++ store (r.state i)).Perm (store (r.state 0)) := by
  intro i
  induction i with
  | zero => intro _; exact .refl _
  | succ i ih =>
      intro hi
      rw [collect, List.append_assoc]
      exact ((hstep _ _ _ (r.next i hi)).append_left _).trans (ih (by omega))

theorem map_collect {α β : Type _} (r : Run step n) (yield : σ → ε → List α) (f : α → β) :
    ∀ i, (r.collect yield i).map f = r.collect (fun s e => (yield s e).map f) i := by
  intro i
  induction i with
  | zero => rfl
  | succ i ih => rw [collect, collect, List.map_append, ih]

/-- The states a step function goes through, one event at a time. -/
def states (f : σ → ε → σ) (s : σ) (events : Nat → ε) : Nat → σ
  | 0 => s
  | i + 1 => f (states f s events i) (events i)

/-- A step function makes a run of any length, provided each of its
steps is one of the relation's. -/
def ofFn (f : σ → ε → σ) (s : σ) (events : Nat → ε)
    (h : ∀ i < n, step (states f s events i) (events i) (states f s events (i + 1))) :
    Run step n where
  state := states f s events
  event := events
  next := h

/-- A partial step function makes a run of any length, provided it is
defined at each of its steps. -/
def ofPartial (f : σ → ε → Option σ) (s : σ) (events : Nat → ε)
    (h : ∀ i < n, (f (states (fun s e => (f s e).getD s) s events i) (events i)).isSome) :
    Run (fun s e s' => f s e = some s') n where
  state := states (fun s e => (f s e).getD s) s events
  event := events
  next i hi := by
    obtain ⟨s', hs'⟩ := Option.isSome_iff_exists.1 (h i hi)
    rw [states, hs']
    rfl

/-- The run that takes no step. -/
def stay (s : σ) (e : ε) : Run step 0 where
  state _ := s
  event _ := e
  next _ hi := absurd hi (Nat.not_lt_zero _)

/-- A run with one more step. -/
def snoc (r : Run step n) {e : ε} {s : σ} (h : step (r.state n) e s) : Run step (n + 1) where
  state i := if i ≤ n then r.state i else s
  event i := if i < n then r.event i else e
  next i hi := by
    by_cases hin : i < n
    · rw [if_pos (by omega), if_pos hin, if_pos (by omega)]
      exact r.next i hin
    · have hi : i = n := by omega
      rw [hi, if_pos (Nat.le_refl n), if_neg (Nat.lt_irrefl n), if_neg (by omega)]
      exact h

end Run
