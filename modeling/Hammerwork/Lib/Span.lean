/-
Spans of a text, and functions that skip them.

Where a span ends is a relation of the word it is and of what comes after it
(`ends`). A span ends where it does for the first time, and a span that does
not end has the rest of the text. A function that skips spans is right
(`Skips`) if it comes out after every word that ends, and has found an end
unless nothing is left; then spans are what it skips, and every text begins
with exactly one.
-/
import Mathlib.Data.List.TakeWhile

namespace Spans

variable {α : Type _} {ends : List α → List α → Prop} {skip : List α → List α}

/-- `word` is a span before `rest`: it ends there, or it does not end. -/
def Span (ends : List α → List α → Prop) (word rest : List α) : Prop :=
  ends word rest ∨ (rest = [] ∧ ∀ before after, before ++ after = word → ¬ ends before after)

/-- After skipping a span, what is left is what comes after it. -/
structure Skips (ends : List α → List α → Prop) (skip : List α → List α) : Prop where
  ended : ∀ word rest, ends word rest → skip (word ++ rest) = rest
  found : ∀ text, skip text = [] ∨ ∃ word, word ++ skip text = text ∧ ends word (skip text)

/-- The spans are what is skipped. -/
theorem Skips.span_iff (h : Skips ends skip) {word rest : List α} :
    Span ends word rest ↔ skip (word ++ rest) = rest := by
  constructor
  · rintro (hends | ⟨rfl, hnever⟩)
    · exact h.ended word rest hends
    · rw [List.append_nil]
      rcases h.found word with hnil | ⟨before, heq, hends⟩
      · exact hnil
      · exact absurd hends (hnever before _ heq)
  · intro hskip
    by_cases hends : ends word rest
    · exact Or.inl hends
    · have hnil : rest = [] := by
        rcases h.found (word ++ rest) with hnil | ⟨before, heq, hfound⟩
        · exact hskip.symm.trans hnil
        · rw [hskip] at heq hfound
          rw [List.append_cancel_right heq] at hfound
          exact absurd hfound hends
      subst hnil
      refine Or.inr ⟨rfl, fun before after heq hbefore => hends ?_⟩
      -- an earlier end would be where the skipping comes out
      have hafter : after = [] := by
        rw [← h.ended before after hbefore, heq, ← List.append_nil word]
        exact hskip
      rw [hafter, List.append_nil] at heq
      exact heq ▸ hafter ▸ hbefore

/-- Every text begins with a span. -/
theorem Skips.exists_span (h : Skips ends skip) (text : List α) :
    ∃ word, word ++ skip text = text ∧ Span ends word (skip text) := by
  rcases h.found text with hnil | ⟨word, heq, hends⟩
  · refine ⟨text, by rw [hnil, List.append_nil], h.span_iff.mpr ?_⟩
    rw [hnil, List.append_nil, hnil]
  · exact ⟨word, heq, Or.inl hends⟩

/-- The span that a text begins with is the only one. -/
theorem Skips.unique (h : Skips ends skip) {word word' rest rest' : List α}
    (hspan : Span ends word rest) (hspan' : Span ends word' rest')
    (heq : word ++ rest = word' ++ rest') : word = word' ∧ rest = rest' := by
  have hrest : rest = rest' := by
    rw [← h.span_iff.mp hspan, ← h.span_iff.mp hspan', heq]
  rw [hrest] at heq
  exact ⟨List.append_cancel_right heq, hrest⟩

/-- A span that something comes after has ended. -/
theorem Span.ended {word rest : List α} (h : Span ends word rest) (hmore : rest ≠ []) :
    ends word rest := by
  rcases h with h | ⟨hnil, -⟩
  · exact h
  · exact absurd hnil hmore

-- == lines

/-- Up to the first element with `P`, which comes after it. -/
def UpTo (P : α → Bool) (word rest : List α) : Prop :=
  (∀ a ∈ word, P a = false) ∧ ∃ a, rest.head? = some a ∧ P a = true

theorem skips_dropWhile (P : α → Bool) :
    Skips (UpTo P) (List.dropWhile fun a => ! P a) := by
  constructor
  · rintro word rest ⟨hword, a, hhead, ha⟩
    obtain ⟨rest, rfl⟩ := List.head?_eq_some_iff.mp hhead
    rw [List.dropWhile_append_of_pos fun b hb => by rw [hword b hb]; rfl]
    exact List.dropWhile_cons_of_neg (by rw [ha]; decide)
  · intro text
    cases hleft : text.dropWhile fun a => ! P a with
    | nil => exact Or.inl rfl
    | cons a rest =>
        have hhead := List.head?_dropWhile_not (fun a => ! P a) text
        rw [hleft] at hhead
        refine Or.inr ⟨text.takeWhile fun a => ! P a, ?_, fun b hb => ?_, a, rfl, ?_⟩
        · rw [← hleft, List.takeWhile_append_dropWhile]
        · simpa using List.mem_takeWhile_imp hb
        · simpa using hhead

/-- A span up to something with `P` has nothing with `P` in it, and what comes
after it begins with `P`. -/
theorem span_upTo_iff {P : α → Bool} {word rest : List α} :
    Span (UpTo P) word rest ↔
      (∀ a ∈ word, P a = false) ∧ ∀ a, rest.head? = some a → P a = true := by
  constructor
  · intro hspan
    rcases hspan with ⟨hword, a, hhead, ha⟩ | ⟨rfl, hnever⟩
    · refine ⟨hword, fun b hb => ?_⟩
      rw [hhead] at hb
      cases hb
      exact ha
    · refine ⟨?_, fun b hb => by cases hb⟩
      rcases (skips_dropWhile P).found word with hnil | ⟨before, heq, hends⟩
      · intro a ha
        simpa using List.dropWhile_eq_nil_iff.mp hnil a ha
      · exact absurd hends (hnever before _ heq)
  · rintro ⟨hword, hrest⟩
    rw [(skips_dropWhile P).span_iff,
      List.dropWhile_append_of_pos fun a ha => by rw [hword a ha]; rfl]
    cases rest with
    | nil => rfl
    | cons a rest => exact List.dropWhile_cons_of_neg (by rw [hrest a rfl]; decide)

/-- `span_upTo_iff` as a test. -/
theorem span_upTo_of_test {P : α → Bool} {word rest : List α} (hword : word.any P = false)
    (hrest : rest.head?.all P = true) : Span (UpTo P) word rest := by
  refine span_upTo_iff.mpr ⟨fun a ha => ?_, fun a hhead => ?_⟩
  · simpa using List.any_eq_false.mp hword a ha
  · rw [hhead] at hrest
    exact hrest

end Spans
