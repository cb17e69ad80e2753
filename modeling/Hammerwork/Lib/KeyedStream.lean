/-
Totals over a stream in which every entry has a key, where the share of
an entry depends on the entry before it of the same key.

`weighKeyed` goes through the stream once and remembers the last entry
of each key. Only the streams of the single keys matter: the total is
the sum of theirs (`weighKeyed_eq`), however they are interleaved. And
where the stream of a key consists of parts that each begin with a kind
that is weighed alike after anything (`Restarts`), its total is the sum
over the parts (`weigh_parts`).
-/
import Hammerwork.Lib.Tally
import Mathlib.Data.List.Nodup
import Mathlib.Logic.Function.Basic

namespace KeyedStream

variable {α κ τ : Type _} {w : Option τ → τ → Nat} {prev : Option τ}

-- == one stream

/-- The total of the kinds of one stream, the first of them after
`prev`. -/
def weigh (w : Option τ → τ → Nat) (prev : Option τ) : List τ → Nat
  | [] => 0
  | t :: ts => w prev t + weigh w (some t) ts

/-- `t` is weighed alike whatever comes before. -/
def Restarts (w : Option τ → τ → Nat) (t : τ) : Prop := ∀ prev, w prev t = w none t

/-- Nothing, or a part that begins with a kind that restarts. -/
def Begins (w : Option τ → τ → Nat) (part : List τ) : Prop :=
  ∀ t ∈ part.head?, Restarts w t

theorem Begins.weigh_eq {part : List τ} (h : Begins w part) (prev : Option τ) :
    weigh w prev part = weigh w none part := by
  cases part with
  | nil => rfl
  | cons t part =>
      have ht : Restarts w t := h t rfl
      rw [weigh, weigh, ht prev]

/-- A stream and one that begins afresh. -/
theorem weigh_append {part rest : List τ} (hrest : Begins w rest) :
    weigh w prev (part ++ rest) = weigh w prev part + weigh w none rest := by
  induction part generalizing prev with
  | nil => rw [List.nil_append, hrest.weigh_eq, weigh, Nat.zero_add]
  | cons t part ih => rw [List.cons_append, weigh, ih, weigh, Nat.add_assoc]

theorem begins_flatMap {β : Type _} {f : β → List τ} {parts : List β}
    (h : ∀ part ∈ parts, Begins w (f part)) : Begins w (parts.flatMap f) := by
  induction parts with
  | nil => exact fun t ht => by cases ht
  | cons part parts ih =>
      intro t ht
      rw [List.flatMap_cons] at ht
      have hrest := ih fun part hpart => h part (List.mem_cons_of_mem _ hpart)
      cases hpart : f part with
      | nil =>
          rw [hpart, List.nil_append] at ht
          exact hrest t ht
      | cons x xs =>
          rw [hpart, List.cons_append, List.head?_cons] at ht
          refine h part (List.mem_cons_self ..) t ?_
          rw [hpart, List.head?_cons]
          exact ht

/-- A stream of parts is weighed part by part. -/
theorem weigh_parts {β : Type _} {f : β → List τ} {parts : List β}
    (h : ∀ part ∈ parts, Begins w (f part)) :
    weigh w none (parts.flatMap f) = tally (fun part => weigh w none (f part)) parts := by
  induction parts with
  | nil => rfl
  | cons part parts ih =>
      have hrest : ∀ part ∈ parts, Begins w (f part) :=
        fun part hpart => h part (List.mem_cons_of_mem _ hpart)
      rw [List.flatMap_cons, weigh_append (begins_flatMap hrest), ih hrest, Tally.tally_cons]

-- == many keys

variable [DecidableEq κ] {key : α → κ} {kind : α → τ} {last : κ → Option τ} {l : List α}

/-- The total of a stream, each entry weighed after the last one of its
key. -/
def weighKeyed (key : α → κ) (kind : α → τ) (w : Option τ → τ → Nat) (last : κ → Option τ) :
    List α → Nat
  | [] => 0
  | a :: l => w (last (key a)) (kind a)
      + weighKeyed key kind w (Function.update last (key a) (some (kind a))) l

/-- What one key adds. -/
theorem tally_key (f : κ → Nat) {keys : List κ} (hnd : keys.Nodup) {k : κ} (hk : k ∈ keys) :
    tally (fun k' => if k' = k then f k else 0) keys = f k := by
  induction keys with
  | nil => cases hk
  | cons k' keys ih =>
      obtain ⟨hout, hnd⟩ := List.nodup_cons.1 hnd
      rw [Tally.tally_cons]
      by_cases heq : k' = k
      · subst heq
        have hother : ∀ x ∈ keys, (if x = k' then f k' else 0) = 0 := by
          intro x hx
          have hne : x ≠ k' := fun heq => hout (heq ▸ hx)
          rw [if_neg hne]
        have hnone : tally (fun x => if x = k' then f k' else 0) keys = 0 := by
          rw [Tally.tally_congr hother]
          simp [tally]
        rw [if_pos rfl, hnone, Nat.add_zero]
      · have hk' := (List.mem_cons.1 hk).resolve_left fun h => heq h.symm
        rw [if_neg heq, Nat.zero_add, ih hnd hk']

/-- The total is the sum of the keys' totals. -/
theorem weighKeyed_eq {keys : List κ} (hnd : keys.Nodup) (hcover : ∀ a ∈ l, key a ∈ keys) :
    weighKeyed key kind w last l
      = tally (fun k => weigh w (last k) ((l.filter (key · = k)).map kind)) keys := by
  induction l generalizing last with
  | nil => simp [weighKeyed, weigh, tally]
  | cons a l ih =>
      rw [weighKeyed, ih fun b hb => hcover b (List.mem_cons_of_mem _ hb),
        ← tally_key (fun k => w (last k) (kind a)) hnd (hcover a (List.mem_cons_self ..)),
        ← Tally.tally_add]
      refine Tally.tally_congr fun k _ => ?_
      by_cases hk : k = key a
      · subst hk
        rw [if_pos rfl, Function.update_self, List.filter_cons_of_pos (by simp), List.map_cons,
          weigh]
      · rw [if_neg hk, Nat.zero_add, Function.update_of_ne hk,
          List.filter_cons_of_neg (by simpa using Ne.symm hk)]

end KeyedStream
