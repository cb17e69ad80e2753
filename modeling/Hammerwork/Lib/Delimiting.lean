/-
Codes that show where they end.

A code is self-delimiting on a set of values if a word that begins with
the code of one of them begins with the code of no other
(`SelfDelimiting`). It is then injective there, and no code is the
beginning of another.

Codes of one length are self-delimiting if they are injective. Codes one
after another are, and so is a list with its length before it, whether its
entries are put down as they are (`sized`) or each in its own code
(`counted`).
-/
import Mathlib.Data.List.Basic
import Mathlib.Data.Set.Basic

namespace Delimiting

variable {α β γ : Type _} {P : α → Prop} {Q : β → Prop}

/-- After the code of a value with `P` the rest of the word is known, and so
is the value. -/
def SelfDelimiting (P : α → Prop) (code : α → List γ) : Prop :=
  ∀ a b, P a → P b → ∀ rest rest', code a ++ rest = code b ++ rest' → a = b ∧ rest = rest'

theorem SelfDelimiting.injective {code : α → List γ} (h : SelfDelimiting P code) {a b : α}
    (ha : P a) (hb : P b) (heq : code a = code b) : a = b :=
  (h a b ha hb [] [] (by rw [heq])).1

/-- No code is the beginning of another. -/
theorem SelfDelimiting.eq_of_prefix {code : α → List γ} (h : SelfDelimiting P code) {a b : α}
    (ha : P a) (hb : P b) (hbegins : code a <+: code b) : a = b := by
  obtain ⟨rest, hrest⟩ := hbegins
  exact (h a b ha hb rest [] (by rw [hrest, List.append_nil])).1

-- == single codes

/-- Codes of one length. -/
theorem selfDelimiting_of_length {code : α → List γ} {n : Nat}
    (hlength : ∀ a, (code a).length = n)
    (hinj : ∀ a b, P a → P b → code a = code b → a = b) : SelfDelimiting P code := by
  intro a b ha hb rest rest' heq
  obtain ⟨hcode, hrest⟩ := List.append_inj heq ((hlength a).trans (hlength b).symm)
  exact ⟨hinj a b ha hb hcode, hrest⟩

/-- The code of what a value is made into, if that tells the value. -/
theorem SelfDelimiting.comp {code : β → List γ} (h : SelfDelimiting Q code) {f : α → β}
    (hf : Function.Injective f) (hP : ∀ a, P a → Q (f a)) :
    SelfDelimiting P fun a => code (f a) := by
  intro a b ha hb rest rest' heq
  obtain ⟨hsame, hrest⟩ := h (f a) (f b) (hP a ha) (hP b hb) rest rest' heq
  exact ⟨hf hsame, hrest⟩

-- == one after another

/-- Two codes, one after the other. -/
theorem SelfDelimiting.pair {f : α → List γ} {g : β → List γ} (hf : SelfDelimiting P f)
    (hg : SelfDelimiting Q g) :
    SelfDelimiting (fun p : α × β => P p.1 ∧ Q p.2) fun p => f p.1 ++ g p.2 := by
  rintro ⟨a, c⟩ ⟨b, d⟩ ⟨ha, hc⟩ ⟨hb, hd⟩ rest rest' heq
  rw [List.append_assoc, List.append_assoc] at heq
  obtain ⟨hab, hrest⟩ := hf a b ha hb _ _ heq
  obtain ⟨hcd, hrest⟩ := hg c d hc hd _ _ hrest
  exact ⟨Prod.ext hab hcd, hrest⟩

/-- As many codes as there are, one after the other. -/
theorem SelfDelimiting.flatMap {code : α → List γ} (h : SelfDelimiting P code) :
    ∀ xs ys : List α, xs.length = ys.length → (∀ x ∈ xs, P x) → (∀ y ∈ ys, P y) →
      ∀ rest rest', xs.flatMap code ++ rest = ys.flatMap code ++ rest' →
        xs = ys ∧ rest = rest' := by
  intro xs
  induction xs with
  | nil =>
      intro ys hlength _ _ rest rest' heq
      obtain rfl := List.length_eq_zero_iff.1 hlength.symm
      exact ⟨rfl, heq⟩
  | cons x xs ih =>
      intro ys hlength hxs hys rest rest' heq
      cases ys with
      | nil => cases hlength
      | cons y ys =>
          rw [List.flatMap_cons, List.flatMap_cons, List.append_assoc, List.append_assoc] at heq
          obtain ⟨rfl, htail⟩ :=
            h x y (hxs x List.mem_cons_self) (hys y List.mem_cons_self) _ _ heq
          obtain ⟨rfl, hrest⟩ := ih ys (Nat.succ.inj hlength)
            (fun z hz => hxs z (List.mem_cons_of_mem _ hz))
            (fun z hz => hys z (List.mem_cons_of_mem _ hz)) rest rest' htail
          exact ⟨rfl, hrest⟩

-- == lists

section

variable {size : Nat → List γ} {bound : Nat}

/-- A list with its length before it. -/
theorem sized (hsize : SelfDelimiting (· < bound) size) :
    SelfDelimiting (fun xs : List γ => xs.length < bound) fun xs => size xs.length ++ xs := by
  intro xs ys hxs hys rest rest' heq
  dsimp only at heq
  rw [List.append_assoc, List.append_assoc] at heq
  obtain ⟨hlength, hrest⟩ := hsize _ _ hxs hys _ _ heq
  exact List.append_inj hrest hlength

/-- The codes of a list's entries, with their number before them. -/
theorem counted (hsize : SelfDelimiting (· < bound) size) {code : α → List γ}
    (h : SelfDelimiting P code) :
    SelfDelimiting (fun xs : List α => xs.length < bound ∧ ∀ x ∈ xs, P x)
      fun xs => size xs.length ++ xs.flatMap code := by
  rintro xs ys ⟨hxs, hxs'⟩ ⟨hys, hys'⟩ rest rest' heq
  rw [List.append_assoc, List.append_assoc] at heq
  obtain ⟨hlength, hrest⟩ := hsize _ _ hxs hys _ _ heq
  exact h.flatMap xs ys hlength hxs' hys' rest rest' hrest

end

end Delimiting
