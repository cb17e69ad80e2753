/-
What splitting keeps of a script.

The scanner reads a script in pieces (`Scans`), and whether a piece is read
as it is depends on little of what comes after it: a span that has ended is
read the same before anything that does not begin with its quote, and one
that has not ended is at the end of the script. So a statement is read as
before when the white space around it is taken away and a line end and a
semicolon come after it, and the statements put together again are split
where they were put together.
-/
import Hammerwork.Proofs.SqlScan
import Mathlib

namespace Hammerwork

namespace SqlSplit

open PayloadTemplate (isWhitespace trim)
open Spans (Span Skips)

variable {isAlphanumeric : Char → Bool} {dialect : Dialect}

-- == trimming

/-- White space only. -/
def Blank (text : Text) : Prop := ∀ c ∈ text, isWhitespace c = true

/-- Neither beginning nor ending with white space. -/
structure Trimmed (text : Text) : Prop where
  head : ∀ c, text.head? = some c → isWhitespace c = false
  last : ∀ c, text.getLast? = some c → isWhitespace c = false

/-- Trimming takes white space away on both sides. -/
theorem exists_trim (text : Text) :
    ∃ lead trail, text = lead ++ (trim text ++ trail) ∧ Blank lead ∧ Blank trail := by
  refine ⟨text.takeWhile isWhitespace, (text.dropWhile isWhitespace).rtakeWhile isWhitespace,
    ?_, fun c hc => List.mem_takeWhile_imp hc, fun c hc => List.mem_rtakeWhile_imp hc⟩
  rw [trim, List.rdropWhile_append_rtakeWhile, List.takeWhile_append_dropWhile]

theorem trimmed_trim (text : Text) : Trimmed (trim text) := by
  constructor
  · intro c hc
    have hhead := List.head?_dropWhile_not isWhitespace text
    have hprefix : trim text <+: text.dropWhile isWhitespace :=
      List.rdropWhile_prefix isWhitespace _
    obtain ⟨trail, htrail⟩ := hprefix
    obtain ⟨rest, hrest⟩ := List.head?_eq_some_iff.mp hc
    rw [← htrail, hrest] at hhead
    exact hhead
  · intro c hc
    have hne : trim text ≠ [] := by
      rintro heq
      rw [heq] at hc
      cases hc
    have hlast := List.rdropWhile_last_not (p := isWhitespace)
      (l := text.dropWhile isWhitespace) hne
    rw [List.getLast?_eq_some_getLast hne] at hc
    cases hc
    exact (Bool.not_eq_true _).mp hlast

theorem Trimmed.trim_append {s trail : Text} (h : Trimmed s) (hne : s ≠ []) (htrail : Blank trail) :
    trim (s ++ trail) = s := by
  have hdrop : (s ++ trail).dropWhile isWhitespace = s ++ trail := by
    obtain ⟨c, s, rfl⟩ := List.exists_cons_of_ne_nil hne
    exact List.dropWhile_cons_of_neg (by rw [h.head c rfl]; decide)
  have hreverse : s.reverse.dropWhile isWhitespace = s.reverse := by
    cases hs : s.reverse with
    | nil => rfl
    | cons c rest =>
        have hlast : s.getLast? = some c := by rw [← List.head?_reverse, hs]; rfl
        exact List.dropWhile_cons_of_neg (by rw [h.last c hlast]; decide)
  rw [trim, hdrop, List.rdropWhile, List.reverse_append,
    List.dropWhile_append_of_pos fun c hc => htrail c (List.mem_reverse.mp hc), hreverse,
    List.reverse_reverse]

theorem Trimmed.trim_eq {s : Text} (h : Trimmed s) (hne : s ≠ []) : trim s = s := by
  have hself : trim (s ++ []) = s := h.trim_append hne (by simp [Blank])
  rwa [List.append_nil] at hself

-- == what comes after

/-- After a span, `other` can come instead of `left`. -/
structure Instead (left other : Text) : Prop where
  head : other.head? = left.head? ∨ other = [] ∨ other.head? = some '\n'
  nil : left = [] → other = []

/-- A closing quote closes before anything but another one. -/
theorem QuoteEnds.instead {q : Char} {escapes : Bool} {body left other : Text}
    (h : QuoteEnds q escapes body left) (hq : q ≠ '\n') (hother : Instead left other) :
    QuoteEnds q escapes body other := by
  refine ⟨h.1, ?_⟩
  rcases hother.head with heq | rfl | heq
  · exact heq ▸ h.2
  · simp
  · rw [heq]
    exact fun hsame => hq (Option.some.inj hsame).symm

theorem line_instead {body left other : Text} (h : Spans.UpTo (· == '\n') body left)
    (hother : Instead left other) : Span (Spans.UpTo (· == '\n')) body other := by
  refine Spans.span_upTo_iff.mpr ⟨h.1, fun c hc => ?_⟩
  obtain ⟨-, a, hhead, ha⟩ := h
  rcases hother.head with heq | rfl | heq
  · rw [heq, hhead] at hc
    cases hc
    exact ha
  · cases hc
  · rw [heq] at hc
    cases hc
    rfl

/-- A span is one, whatever comes after it instead. -/
theorem Opens.instead {opener body left other : Text} {ends : Text → Text → Prop} {piece : Piece}
    (h : Opens isAlphanumeric dialect opener ends piece) (hspan : Span ends body left)
    (hother : Instead left other) : Span ends body other := by
  by_cases hleft : left = []
  · rw [hother.nil hleft]
    exact hleft ▸ hspan
  · have hends := hspan.ended hleft
    cases h with
    | quoted hq =>
        refine Or.inl (hends.instead ?_ hother)
        rintro rfl
        revert hq
        decide
    | backtick => exact Or.inl (hends.instead (by decide) hother)
    | dashes => exact line_instead hends hother
    | hash => exact line_instead hends hother
    | block => exact Or.inl hends
    | dollar => exact Or.inl hends

-- == what is last

theorem Quoted.last {q : Char} {escapes : Bool} {text : Text} (h : Quoted q escapes text) :
    [q] <:+ text := by
  induction h with
  | close => exact List.suffix_refl _
  | doubled _ ih => exact ih.trans (List.suffix_append [q, q] _)
  | @escaped c _ _ _ ih => exact ih.trans (List.suffix_append [backslash, c] _)
  | plain _ _ _ ih => exact ih.trans (List.suffix_cons _ _)

theorem Commented.last {nested : Bool} {outer : Nat} {text : Text}
    (h : Commented nested outer text) : ['/'] <:+ text := by
  induction h with
  | close => exact List.suffix_append ['*'] ['/']
  | inner _ ih => exact ih.trans (List.suffix_append ['*', '/'] _)
  | opened _ _ ih => exact ih.trans (List.suffix_append ['/', '*'] _)
  | plain _ _ _ ih => exact ih.trans (List.suffix_cons _ _)

theorem mem_of_last {c : Char} {body blank : Text} (h : [c] <:+ body ++ blank)
    (hne : blank ≠ []) : c ∈ blank := by
  obtain ⟨init, hinit⟩ := h
  have hlast : (body ++ blank).getLast? = some c := by rw [← hinit]; simp
  rw [List.getLast?_append_of_ne_nil _ hne] at hlast
  exact List.mem_of_getLast? hlast

/-- A span other than a line that has ended does not end with white space. -/
theorem Opens.last {opener body blank left : Text} {ends : Text → Text → Prop}
    (h : Opens isAlphanumeric dialect opener ends .code) (hends : ends (body ++ blank) left)
    (hblank : Blank blank) : blank = [] := by
  by_contra hne
  cases h with
  | @quoted q hq =>
      have hwhite := hblank _ (mem_of_last hends.1.last hne)
      rcases hq with rfl | rfl
      · exact absurd hwhite (by decide)
      · exact absurd hwhite (by decide)
  | backtick =>
      have hwhite := hblank _ (mem_of_last hends.1.last hne)
      exact absurd hwhite (by decide)
  | dollar =>
      have hlast := (List.suffix_append _ ['$']).trans (Tagged.suffix hends)
      have hwhite := hblank _ (mem_of_last hlast hne)
      exact absurd hwhite (by decide)

/-- A span whose end is white space is one without it, before the end of the
script or a line end. -/
theorem Opens.truncate {opener body blank left other : Text} {ends : Text → Text → Prop}
    {piece : Piece} (h : Opens isAlphanumeric dialect opener ends piece)
    (hspan : Span ends (body ++ blank) left) (hblank : Blank blank) (hne : blank ≠ [])
    (hother : other = [] ∨ other.head? = some '\n') (hnil : left = [] → other = []) :
    Span ends body other := by
  by_cases hleft : left = []
  · rw [hnil hleft]
    obtain ⟨skip, hskips⟩ := h.skips
    rw [hskips.span_iff, List.append_nil]
    rcases hskips.found body with hfound | ⟨word, heq, hends⟩
    · exact hfound
    · by_contra hrest
      -- what ended in the shorter text has ended in the longer one
      have hlonger : Span ends word (skip body ++ blank) := h.instead (Or.inl hends)
        ⟨Or.inl (List.head?_append_of_ne_nil _ hrest), fun hempty => absurd hempty hrest⟩
      have hskip := hskips.span_iff.mp hlonger
      rw [← List.append_assoc, heq, ← List.append_nil (body ++ blank), ← hleft,
        hskips.span_iff.mp hspan, hleft] at hskip
      exact hrest (List.append_eq_nil_iff.mp hskip.symm).1
  · have hends := hspan.ended hleft
    have hline : ∀ {c}, other.head? = some c → (c == '\n') = true := by
      intro c hc
      rcases hother with rfl | heq
      · cases hc
      · rw [heq] at hc
        cases hc
        rfl
    by_cases hcode : piece = .code
    · subst hcode
      exact absurd (h.last hends hblank) hne
    cases h with
    | quoted => exact absurd rfl hcode
    | backtick => exact absurd rfl hcode
    | dollar => exact absurd rfl hcode
    | dashes =>
        exact Spans.span_upTo_iff.mpr
          ⟨fun a ha => hends.1 a (List.mem_append_left blank ha), fun c hc => hline hc⟩
    | hash =>
        exact Spans.span_upTo_iff.mpr
          ⟨fun a ha => hends.1 a (List.mem_append_left blank ha), fun c hc => hline hc⟩
    | block =>
        have hwhite := hblank _ (mem_of_last (Commented.last hends) hne)
        exact absurd hwhite (by decide)

-- == pieces

/-- Nothing, or what is in no opener. -/
def Boundary (text : Text) : Prop := ∀ c, text.head? = some c → c = ';' ∨ isWhitespace c = true

/-- Nothing, or the end of a line. -/
def LineEnd (text : Text) : Prop := text = [] ∨ text.head? = some '\n'

theorem LineEnd.boundary {text : Text} (h : LineEnd text) : Boundary text := by
  intro c hc
  rcases h with rfl | heq
  · cases hc
  · rw [heq] at hc
    cases hc
    exact Or.inr (by decide)

theorem Blank.boundary {blank text : Text} (h : Blank blank) (htext : Boundary text) :
    Boundary (blank ++ text) := by
  cases blank with
  | nil => exact htext
  | cons c blank =>
      rintro a ⟨⟩
      exact Or.inr (h c (List.mem_cons_self ..))

theorem solid_of_test {opener : Text}
    (h : (opener.all fun c => c != ';' && !isWhitespace c) = true) :
    ∀ c ∈ opener, c ≠ ';' ∧ isWhitespace c = false := by
  intro c hc
  simpa using List.all_eq_true.mp h c hc

/-- No opener has a semicolon or white space in it. -/
theorem Opens.solid (h : Alphanumeric isAlphanumeric) {opener : Text} {ends : Text → Text → Prop}
    {piece : Piece} (hopens : Opens isAlphanumeric dialect opener ends piece) :
    ∀ c ∈ opener, c ≠ ';' ∧ isWhitespace c = false := by
  cases hopens with
  | quoted hq =>
      refine solid_of_test ?_
      rcases hq with rfl | rfl <;> decide
  | backtick => exact solid_of_test (by decide)
  | dashes => exact solid_of_test (by decide)
  | hash => exact solid_of_test (by decide)
  | block => exact solid_of_test (by decide)
  | @dollar tag _ htag =>
      intro c hc
      have hmem : c = '$' ∨ c ∈ tag := by simpa [or_comm] using hc
      rcases hmem with rfl | hmem
      · decide
      · have htagged := htag.1 c hmem
        refine ⟨?_, ?_⟩
        · rintro rfl
          rw [isTagChar, h.ascii ';' (by decide)] at htagged
          exact absurd htagged (by decide)
        · by_contra hwhite
          rw [isTagChar, h.whitespace c (by simpa using hwhite)] at htagged
          obtain rfl : c = '_' := by simpa using htagged
          exact hwhite (by decide)

/-- An opener is not over a boundary. -/
theorem Opens.within (h : Alphanumeric isAlphanumeric) {opener text after : Text}
    {ends : Text → Text → Prop} {piece : Piece}
    (hopens : Opens isAlphanumeric dialect opener ends piece) (hafter : Boundary after)
    ( hprefix : opener <+: text ++ after) : opener <+: text := by
  rcases List.prefix_or_prefix_of_prefix hprefix (List.prefix_append text after) with hin | hover
  · exact hin
  · obtain ⟨more, rfl⟩ := hover
    cases more with
    | nil => exact ⟨[], by simp⟩
    | cons c more =>
        obtain ⟨rest, hrest⟩ := (List.prefix_append_right_inj text).mp hprefix
        have hsolid := hopens.solid h c (by simp)
        rcases hafter c (by rw [← hrest]; rfl) with heq | hwhite
        · exact absurd heq hsolid.1
        · rw [hsolid.2] at hwhite
          cases hwhite

/-- A piece is read as it is before another line end. -/
theorem scan_instead (h : Alphanumeric isAlphanumeric) {c : Char} {word later before after : Text}
    {piece : Piece}
    (hscan : scan isAlphanumeric dialect c (word ++ (later ++ before)) = (piece, later ++ before))
    (hafter : LineEnd after) (hnil : before = [] → after = []) :
    scan isAlphanumeric dialect c (word ++ (later ++ after)) = (piece, later ++ after) := by
  rcases scan_cases h c (word ++ (later ++ before)) with
    ⟨opener, ends, piece', body, left, hopens, heq, hspan, hscan'⟩ | ⟨hnone, hscan'⟩
  · obtain ⟨rfl, rfl⟩ := Prod.mk.inj (hscan.symm.trans hscan')
    rw [← List.append_assoc opener] at heq
    obtain rfl := List.append_cancel_right heq
    have hother : Instead (later ++ before) (later ++ after) := by
      refine ⟨?_, fun hempty => ?_⟩
      · cases later with
        | nil => exact Or.inr hafter
        | cons => exact Or.inl rfl
      · obtain ⟨rfl, hempty⟩ := List.append_eq_nil_iff.mp hempty
        exact hnil hempty
    rw [List.append_assoc]
    exact hopens.scan h (hopens.instead hspan hother)
  · obtain ⟨rfl, hleft⟩ := Prod.mk.inj (hscan.symm.trans hscan')
    obtain rfl : word = [] := by simpa using hleft
    refine scan_single fun opener ends piece hopens hprefix => ?_
    have hin : opener <+: c :: later := hopens.within h hafter.boundary hprefix
    exact hnone opener ends piece hopens (hin.trans (List.prefix_append (c :: later) before))

/-- A piece that ends with white space is read as it is without it, before the
end of the script or a line end. -/
theorem scan_truncate (h : Alphanumeric isAlphanumeric) {c : Char} {word blank left after : Text}
    {piece : Piece}
    (hscan : scan isAlphanumeric dialect c (word ++ (blank ++ left)) = (piece, left))
    (hblank : Blank blank) (hne : blank ≠ []) (hafter : LineEnd after)
    (hnil : left = [] → after = []) :
    scan isAlphanumeric dialect c (word ++ after) = (piece, after) := by
  rcases scan_cases h c (word ++ (blank ++ left)) with
    ⟨opener, ends, piece', body, left', hopens, heq, hspan, hscan'⟩ | ⟨hnone, hscan'⟩
  · obtain ⟨rfl, rfl⟩ := Prod.mk.inj (hscan.symm.trans hscan')
    rw [← List.append_assoc, ← List.append_assoc] at heq
    have hword : word ++ blank = opener ++ body := List.append_cancel_right heq
    have hin : c :: opener <+: c :: word := by
      have hbefore : c :: opener <+: (c :: word) ++ blank := by
        rw [List.cons_append, hword]
        exact List.prefix_append (c :: opener) body
      refine hopens.within h ?_ hbefore
      rw [← List.append_nil blank]
      exact hblank.boundary (fun a ha => by cases ha)
    obtain ⟨body', hbody'⟩ := hin
    obtain rfl : opener ++ body' = word := (List.cons.inj hbody').2
    rw [List.append_assoc] at hword
    obtain rfl := List.append_cancel_left hword
    rw [List.append_assoc]
    exact hopens.scan h (hopens.truncate hspan hblank hne hafter hnil)
  · obtain ⟨-, hleft⟩ := Prod.mk.inj (hscan.symm.trans hscan')
    have hlength := congrArg List.length hleft
    have := List.length_pos_iff.mpr hne
    simp only [List.length_append] at hlength
    omega

/-- The scanner goes over `word`, before `rest`, and takes it for `pieces`. -/
inductive Scans (isAlphanumeric : Char → Bool) (dialect : Dialect) :
    (word rest : Text) → (pieces : List Piece) → Prop
  | done {rest : Text} : Scans isAlphanumeric dialect [] rest []
  | step {c : Char} {word later rest : Text} {piece : Piece} {pieces : List Piece} :
      scan isAlphanumeric dialect c (word ++ (later ++ rest)) = (piece, later ++ rest) →
      Scans isAlphanumeric dialect later rest pieces →
      Scans isAlphanumeric dialect (c :: (word ++ later)) rest (piece :: pieces)

theorem scan_blank {c : Char} {rest : Text} (h : Alphanumeric isAlphanumeric)
    (hwhite : isWhitespace c = true) :
    scan isAlphanumeric dialect c rest = (.blank, rest) := by
  rw [scan_single]
  · have hc : c ≠ ';' := by
      rintro rfl
      exact absurd hwhite (by decide)
    rw [single, if_neg hc, if_pos hwhite]
  · intro opener ends piece hopens hprefix
    obtain ⟨a, opener, rfl⟩ := List.exists_cons_of_ne_nil hopens.ne_nil
    obtain ⟨rest', hrest'⟩ := hprefix
    obtain rfl : a = c := (List.cons.inj hrest').1
    rw [(hopens.solid h a (List.mem_cons_self ..)).2] at hwhite
    cases hwhite

/-- White space is read as such. -/
theorem Scans.blank (h : Alphanumeric isAlphanumeric) {lead word rest : Text}
    {pieces : List Piece} (hblank : Blank lead)
    (hscans : Scans isAlphanumeric dialect (lead ++ word) rest pieces) :
    ∃ before after, pieces = before ++ after ∧ (∀ piece ∈ before, piece = .blank) ∧
      Scans isAlphanumeric dialect word rest after := by
  induction lead generalizing pieces with
  | nil => exact ⟨[], pieces, rfl, by simp, hscans⟩
  | cons c lead ih =>
      generalize htext : c :: lead ++ word = text at hscans
      cases hscans with
      | done => cases htext
      | @step _ taken later _ _ _ hscan hlater =>
          obtain ⟨rfl, hlead⟩ := List.cons.inj htext
          rw [scan_blank h (hblank c (List.mem_cons_self ..))] at hscan
          obtain ⟨rfl, hleft⟩ := Prod.mk.inj hscan
          obtain rfl : taken = [] := by simpa using hleft
          obtain rfl : lead ++ word = later := hlead
          obtain ⟨before, after, rfl, hbefore, hafter⟩ :=
            ih (fun a ha => hblank a (List.mem_cons_of_mem c ha)) hlater
          exact ⟨.blank :: before, after, rfl, by simpa using hbefore, hafter⟩

theorem Scans.of_blank (h : Alphanumeric isAlphanumeric) {blank rest : Text}
    {pieces : List Piece} (hscans : Scans isAlphanumeric dialect blank rest pieces)
    (hblank : Blank blank) : ∀ piece ∈ pieces, piece = .blank := by
  rw [← List.append_nil blank] at hscans
  obtain ⟨before, after, rfl, hbefore, hafter⟩ := hscans.blank h hblank
  cases hafter with
  | done => rwa [List.append_nil]

/-- What is read with white space after it is read without, before the end of
the script or a line end. -/
theorem Scans.truncate (h : Alphanumeric isAlphanumeric) {word blank before after : Text}
    {pieces : List Piece} (hscans : Scans isAlphanumeric dialect (word ++ blank) before pieces)
    (hblank : Blank blank) (hafter : LineEnd after) (hnil : before = [] → after = []) :
    ∃ pieces' blanks, pieces = pieces' ++ blanks ∧ (∀ piece ∈ blanks, piece = .blank) ∧
      Scans isAlphanumeric dialect word after pieces' := by
  generalize htext : word ++ blank = text at hscans
  induction hscans generalizing word with
  | done =>
      obtain ⟨rfl, -⟩ := List.append_eq_nil_iff.mp htext
      exact ⟨[], [], rfl, by simp, .done⟩
  | @step c taken later before piece pieces hscan hlater ih =>
      cases word with
      | nil =>
          rw [List.nil_append] at htext
          have hall := (Scans.step hscan hlater).of_blank h (htext ▸ hblank)
          exact ⟨[], piece :: pieces, rfl, hall, .done⟩
      | cons a word =>
          obtain ⟨rfl, htail⟩ := List.cons.inj htext
          have hsplit : word ++ blank = taken ++ later := htail
          -- the white space begins in a later piece, or in this one
          have hcases : (∃ more, word = taken ++ more ∧ later = more ++ blank) ∨
              ∃ more, more ≠ [] ∧ taken = word ++ more ∧ blank = more ++ later := by
            rcases List.append_eq_append_iff.mp hsplit with ⟨more, rfl, rfl⟩ | ⟨more, rfl, rfl⟩
            · by_cases hmore : more = []
              · subst hmore
                exact Or.inl ⟨[], by rw [List.append_nil, List.append_nil], rfl⟩
              · exact Or.inr ⟨more, hmore, rfl, rfl⟩
            · exact Or.inl ⟨more, rfl, rfl⟩
          rcases hcases with ⟨more, rfl, rfl⟩ | ⟨more, hmore, rfl, rfl⟩
          · rw [List.append_assoc] at hscan
            have hscan' := scan_instead h hscan hafter
              (fun hempty => hnil (List.append_eq_nil_iff.mp hempty).2)
            obtain ⟨pieces', blanks, rfl, hblanks, hscans'⟩ := ih hnil rfl
            exact ⟨piece :: pieces', blanks, rfl, hblanks, .step hscan' hscans'⟩
          · rw [List.append_assoc] at hscan
            have hscan' := scan_truncate h hscan (fun b hb => hblank b (List.mem_append_left _ hb))
              hmore hafter (fun hempty => hnil (List.append_eq_nil_iff.mp hempty).2)
            have hlast := hlater.of_blank h fun b hb => hblank b (List.mem_append_right _ hb)
            refine ⟨[piece], pieces, rfl, hlast, ?_⟩
            rw [← List.append_nil word]
            exact .step hscan' .done

-- == sections

theorem scan_semicolon (h : Alphanumeric isAlphanumeric) (rest : Text) :
    scan isAlphanumeric dialect ';' rest = (.terminator, rest) := by
  rw [scan_single]
  · rfl
  · intro opener ends piece hopens hprefix
    obtain ⟨a, opener, rfl⟩ := List.exists_cons_of_ne_nil hopens.ne_nil
    obtain ⟨rest', hrest'⟩ := hprefix
    obtain rfl : a = ';' := (List.cons.inj hrest').1
    exact (hopens.solid h ';' (List.mem_cons_self ..)).1 rfl

/-- Only a semicolon ends a statement. -/
theorem eq_semicolon (h : Alphanumeric isAlphanumeric) {c : Char} {rest left : Text}
    (hscan : scan isAlphanumeric dialect c rest = (.terminator, left)) : c = ';' := by
  rcases scan_cases h c rest with
    ⟨opener, ends, piece, body, left', hopens, -, -, hscan'⟩ | ⟨-, hscan'⟩
  · obtain ⟨rfl, -⟩ := Prod.mk.inj (hscan.symm.trans hscan')
    cases hopens
  · obtain ⟨hsingle, -⟩ := Prod.mk.inj (hscan.symm.trans hscan')
    by_contra hc
    rw [single, if_neg hc] at hsingle
    split_ifs at hsingle

/-- The scanner goes over `word` within a statement, and `rest` is nothing or
begins with the semicolon after it. -/
structure Section (isAlphanumeric : Char → Bool) (dialect : Dialect) (word rest : Text)
    (pieces : List Piece) : Prop where
  scans : Scans isAlphanumeric dialect word rest pieces
  inside : .terminator ∉ pieces
  stops : rest = [] ∨ ∃ after, rest = ';' :: after

/-- A script is a section and what comes after its semicolon. -/
theorem section_induction (h : Alphanumeric isAlphanumeric) (dialect : Dialect) {P : Text → Prop}
    (hstep : ∀ word rest pieces, Section isAlphanumeric dialect word rest pieces →
      (rest ≠ [] → P rest.tail) → P (word ++ rest)) : ∀ sql, P sql := by
  have hsection : ∀ text : Text, ∃ word rest pieces, text = word ++ rest ∧
      Section isAlphanumeric dialect word rest pieces := by
    intro text
    induction hlength : text.length using Nat.strong_induction_on generalizing text with
    | _ n ih =>
        cases text with
        | nil => exact ⟨[], [], [], rfl, .done, by simp, Or.inl rfl⟩
        | cons c text =>
            obtain ⟨taken, htaken⟩ := scan_suffix isAlphanumeric dialect c text
            cases hscan : scan isAlphanumeric dialect c text with
            | mk piece left =>
                rw [hscan] at htaken
                dsimp only at htaken
                by_cases hpiece : piece = .terminator
                · subst hpiece
                  obtain rfl := eq_semicolon h hscan
                  exact ⟨[], ';' :: text, [], rfl, .done, by simp, Or.inr ⟨text, rfl⟩⟩
                · have hless : left.length < n := by
                    rw [← hlength, ← htaken, List.length_cons, List.length_append]
                    omega
                  obtain ⟨word, rest, pieces, rfl, hin⟩ := ih _ hless left rfl
                  refine ⟨c :: (taken ++ word), rest, piece :: pieces, ?_, .step ?_ hin.scans,
                    ?_, hin.stops⟩
                  · rw [List.cons_append, List.append_assoc, htaken]
                  · rw [htaken]
                    exact hscan
                  · rintro (_ | ⟨_, hmem⟩)
                    · exact hpiece rfl
                    · exact hin.inside hmem
  intro sql
  induction hlength : sql.length using Nat.strong_induction_on generalizing sql with
  | _ n ih =>
      obtain ⟨word, rest, pieces, rfl, hin⟩ := hsection sql
      refine hstep word rest pieces hin fun hne => ih _ ?_ rest.tail rfl
      have := List.length_pos_iff.mpr hne
      rw [← hlength, List.length_tail, List.length_append]
      omega

theorem Scans.loop {word rest : Text} {pieces : List Piece}
    (hscans : Scans isAlphanumeric dialect word rest pieces) (hinside : .terminator ∉ pieces)
    (start : Text) (hasCode : Bool) :
    splitLoop isAlphanumeric dialect start hasCode (word ++ rest) =
      splitLoop isAlphanumeric dialect start (hasCode || .code ∈ pieces) rest := by
  induction hscans generalizing hasCode with
  | done => simp
  | @step c taken later rest piece pieces hscan _ ih =>
      rw [List.mem_cons, not_or] at hinside
      rw [List.cons_append, List.append_assoc, splitLoop_piece hscan fun heq => hinside.1 heq.symm,
        ih hinside.2]
      congr 1
      rw [Bool.or_assoc]
      simp [eq_comm]

/-- The statement of a section is its text, if there is code in it. -/
theorem Section.statements (h : Alphanumeric isAlphanumeric) {word rest : Text}
    {pieces : List Piece} (hin : Section isAlphanumeric dialect word rest pieces) :
    splitStatements isAlphanumeric dialect (word ++ rest) =
      (if .code ∈ pieces then [trim word] else []) ++
        splitStatements isAlphanumeric dialect rest.tail := by
  rw [splitStatements, hin.scans.loop hin.inside, Bool.false_or]
  rcases hin.stops with rfl | ⟨after, rfl⟩
  · rw [splitLoop_nil, splitStatements, List.tail_nil, splitLoop_nil]
    simp
  · rw [splitLoop_terminator (scan_semicolon h after), upTo_append]
    simp [splitStatements]

/-- The statement of a section is in it, with white space around it. -/
theorem Section.kept (h : Alphanumeric isAlphanumeric) {word rest : Text} {pieces : List Piece}
    (hin : Section isAlphanumeric dialect word rest pieces) (hcode : .code ∈ pieces) :
    ∃ lead trail pieces', word = lead ++ (trim word ++ trail) ∧ Blank lead ∧ Blank trail ∧
      trim word ≠ [] ∧ .code ∈ pieces' ∧
      Section isAlphanumeric dialect (trim word ++ trail) rest pieces' := by
  obtain ⟨lead, trail, hword, hlead, htrail⟩ := exists_trim word
  have hscans := hin.scans
  rw [hword] at hscans
  obtain ⟨before, after, rfl, hbefore, hafter⟩ := hscans.blank h hlead
  have hkept : .code ∈ after := by
    rcases List.mem_append.mp hcode with hmem | hmem
    · cases hbefore _ hmem
    · exact hmem
  refine ⟨lead, trail, after, hword, hlead, htrail, ?_, hkept, hafter,
    fun hmem => hin.inside (List.mem_append_right _ hmem), hin.stops⟩
  intro hempty
  rw [hempty, List.nil_append] at hafter
  cases hafter.of_blank h htrail _ hkept

/-- The statement of a section is one before something else. -/
theorem Section.cut (h : Alphanumeric isAlphanumeric) {s trail rest after : Text}
    {pieces : List Piece} (hin : Section isAlphanumeric dialect (s ++ trail) rest pieces)
    (hcode : .code ∈ pieces) (htrail : Blank trail) (hafter : LineEnd after)
    (hnil : rest = [] → after = []) (start : Text) :
    splitLoop isAlphanumeric dialect start false (s ++ after) =
      splitLoop isAlphanumeric dialect start true after := by
  obtain ⟨kept, blanks, rfl, hblanks, hscans⟩ := hin.scans.truncate h htrail hafter hnil
  have hkept : .code ∈ kept := by
    rcases List.mem_append.mp hcode with hmem | hmem
    · exact hmem
    · cases hblanks _ hmem
  rw [hscans.loop fun hmem => hin.inside (List.mem_append_left _ hmem)]
  simp [hkept]

-- == the results

/-- The statements again as a script. -/
def joined (statements : List Text) : Text := List.intercalate ['\n', ';'] statements

/-- A script is its statements in order, and between them white space,
comments and the semicolons of the top level. -/
inductive Decomposes (isAlphanumeric : Char → Bool) (dialect : Dialect) :
    (sql : Text) → (statements : List Text) → Prop
  | nil : Decomposes isAlphanumeric dialect [] []
  | blank {c : Char} {sql : Text} {statements : List Text} :
      isWhitespace c = true → Decomposes isAlphanumeric dialect sql statements →
        Decomposes isAlphanumeric dialect (c :: sql) statements
  | comment {opener body sql : Text} {ends : Text → Text → Prop} {statements : List Text} :
      Opens isAlphanumeric dialect opener ends .comment → Span ends body sql →
        Decomposes isAlphanumeric dialect sql statements →
        Decomposes isAlphanumeric dialect (opener ++ (body ++ sql)) statements
  | terminator {sql : Text} {statements : List Text} :
      Decomposes isAlphanumeric dialect sql statements →
        Decomposes isAlphanumeric dialect (';' :: sql) statements
  | statement {s trail rest : Text} {pieces : List Piece} {statements : List Text} :
      Section isAlphanumeric dialect (s ++ trail) rest pieces → Blank trail →
        Decomposes isAlphanumeric dialect rest statements →
        Decomposes isAlphanumeric dialect (s ++ (trail ++ rest)) (s :: statements)

theorem Decomposes.blanks {lead sql : Text} {statements : List Text} (hlead : Blank lead)
    (h : Decomposes isAlphanumeric dialect sql statements) :
    Decomposes isAlphanumeric dialect (lead ++ sql) statements := by
  induction lead with
  | nil => exact h
  | cons c lead ih =>
      exact .blank (hlead c (List.mem_cons_self ..))
        (ih fun a ha => hlead a (List.mem_cons_of_mem c ha))

/-- A section without code is white space and comments. -/
theorem Scans.decomposes (h : Alphanumeric isAlphanumeric) {word rest : Text}
    {pieces : List Piece} {statements : List Text}
    (hscans : Scans isAlphanumeric dialect word rest pieces) (hinside : .terminator ∉ pieces)
    (hcode : .code ∉ pieces) (hrest : Decomposes isAlphanumeric dialect rest statements) :
    Decomposes isAlphanumeric dialect (word ++ rest) statements := by
  induction hscans with
  | done => exact hrest
  | @step c taken later rest piece pieces hscan _ ih =>
      rw [List.mem_cons, not_or] at hinside hcode
      have hlater := ih hinside.2 hcode.2 hrest
      rw [List.cons_append, List.append_assoc]
      rcases scan_cases h c (taken ++ (later ++ rest)) with
        ⟨opener, ends, piece', body, left, hopens, heq, hspan, hscan'⟩ | ⟨-, hscan'⟩
      · obtain ⟨rfl, rfl⟩ := Prod.mk.inj (hscan.symm.trans hscan')
        have hcomment : piece = .comment := by
          cases hopens with
          | quoted => exact absurd rfl hcode.1
          | backtick => exact absurd rfl hcode.1
          | dollar => exact absurd rfl hcode.1
          | dashes => rfl
          | hash => rfl
          | block => rfl
        subst hcomment
        rw [heq]
        exact .comment hopens hspan hlater
      · obtain ⟨rfl, hleft⟩ := Prod.mk.inj (hscan.symm.trans hscan')
        rw [← hleft]
        refine .blank ?_ hlater
        by_contra hwhite
        have hsemicolon : c ≠ ';' := by
          rintro rfl
          exact hinside.1 rfl
        rw [single, if_neg hsemicolon, if_neg hwhite] at hcode
        exact hcode.1 rfl

theorem splitStatements_nil : splitStatements isAlphanumeric dialect [] = [] := by
  rw [splitStatements, splitLoop_nil]
  rfl

theorem statements_trimmed (h : Alphanumeric isAlphanumeric) (sql : Text) :
    ∀ s ∈ splitStatements isAlphanumeric dialect sql, s ≠ [] ∧ trim s = s := by
  induction sql using section_induction h dialect with
  | _ word rest pieces hin ih =>
      intro s hs
      rw [hin.statements h, List.mem_append] at hs
      rcases hs with hs | hs
      · split_ifs at hs with hcode
        · obtain rfl := List.mem_singleton.mp hs
          obtain ⟨-, -, -, -, -, -, hne, -⟩ := hin.kept h hcode
          exact ⟨hne, (trimmed_trim word).trim_eq hne⟩
        · cases hs
      · rcases hin.stops with rfl | ⟨after, rfl⟩
        · rw [List.tail_nil, splitStatements_nil] at hs
          cases hs
        · exact ih (List.cons_ne_nil _ _) s hs

theorem splitStatements_decomposes (h : Alphanumeric isAlphanumeric) (sql : Text) :
    Decomposes isAlphanumeric dialect sql (splitStatements isAlphanumeric dialect sql) := by
  induction sql using section_induction h dialect with
  | _ word rest pieces hin ih =>
      have hrest : Decomposes isAlphanumeric dialect rest
          (splitStatements isAlphanumeric dialect rest.tail) := by
        rcases hin.stops with rfl | ⟨after, rfl⟩
        · rw [List.tail_nil, splitStatements_nil]
          exact .nil
        · exact .terminator (ih (List.cons_ne_nil _ _))
      rw [hin.statements h]
      split_ifs with hcode
      · obtain ⟨lead, trail, pieces', hword, hlead, htrail, -, -, hin'⟩ := hin.kept h hcode
        have hdecomposes := (Decomposes.statement hin' htrail hrest).blanks hlead
        have hsql : word ++ rest = lead ++ (trim word ++ (trail ++ rest)) := by
          rw [← List.append_assoc (trim word), ← List.append_assoc lead, ← hword]
        rw [hsql]
        exact hdecomposes
      · exact hin.scans.decomposes h hin.inside hcode hrest

/-- Before a line end and a semicolon the statement of a section is split off
as it is. -/
theorem Section.split_again (h : Alphanumeric isAlphanumeric) {word rest : Text}
    {pieces : List Piece} (hin : Section isAlphanumeric dialect word rest pieces)
    (hcode : .code ∈ pieces) :
    splitStatements isAlphanumeric dialect (trim word) = [trim word] ∧
      (rest ≠ [] → ∀ after, splitStatements isAlphanumeric dialect
        (trim word ++ '\n' :: ';' :: after) =
          trim word :: splitStatements isAlphanumeric dialect after) := by
  obtain ⟨lead, trail, pieces', -, -, htrail, hne, hcode', hin'⟩ := hin.kept h hcode
  constructor
  · have hcut := hin'.cut h hcode' htrail (Or.inl rfl) (fun _ => rfl) (trim word)
    rw [List.append_nil] at hcut
    rw [splitStatements, hcut, splitLoop_nil, if_pos rfl, (trimmed_trim word).trim_eq hne]
  · intro hrest after
    rw [splitStatements, hin'.cut h hcode' htrail (Or.inr rfl) (fun hnil => absurd hnil hrest),
      splitLoop_piece (scan_blank h (by decide)) (by decide),
      splitLoop_terminator (scan_semicolon h after)]
    have hsplit : trim word ++ '\n' :: ';' :: after = (trim word ++ ['\n']) ++ ';' :: after := by
      simp
    have hline : Blank ['\n'] := by simp [Blank]; decide
    rw [hsplit, upTo_append, (trimmed_trim word).trim_append hne hline]
    rfl

theorem splitStatements_joined (h : Alphanumeric isAlphanumeric) (sql : Text) :
    splitStatements isAlphanumeric dialect (joined (splitStatements isAlphanumeric dialect sql)) =
      splitStatements isAlphanumeric dialect sql := by
  induction sql using section_induction h dialect with
  | _ word rest pieces hin ih =>
      rw [hin.statements h]
      have hafter : splitStatements isAlphanumeric dialect
          (joined (splitStatements isAlphanumeric dialect rest.tail)) =
            splitStatements isAlphanumeric dialect rest.tail := by
        by_cases hrest : rest = []
        · rw [hrest, List.tail_nil, splitStatements_nil]
          exact splitStatements_nil
        · exact ih hrest
      split_ifs with hcode
      · obtain ⟨halone, hbefore⟩ := hin.split_again h hcode
        by_cases hlast : splitStatements isAlphanumeric dialect rest.tail = []
        · rw [hlast, List.append_nil, joined, List.intercalate_singleton, halone]
        · have hrest : rest ≠ [] := by
            rintro rfl
            exact hlast splitStatements_nil
          rw [joined, List.singleton_append, List.intercalate_cons_of_ne_nil hlast,
            List.append_assoc]
          rw [joined] at hafter
          exact (hbefore hrest _).trans (congrArg _ hafter)
      · exact hafter

/-- Of every script, the statements are not empty and trimmed, they are in it
in order with only white space, comments and semicolons of the top level
outside them, and joined again they are split into the same list. -/
theorem splitting_stable (h : Alphanumeric isAlphanumeric) (dialect : Dialect) (sql : Text) :
    (∀ s ∈ splitStatements isAlphanumeric dialect sql, s ≠ [] ∧ trim s = s) ∧
      Decomposes isAlphanumeric dialect sql (splitStatements isAlphanumeric dialect sql) ∧
      splitStatements isAlphanumeric dialect (joined (splitStatements isAlphanumeric dialect sql)) =
        splitStatements isAlphanumeric dialect sql :=
  ⟨statements_trimmed h sql, splitStatements_decomposes h sql, splitStatements_joined h sql⟩

theorem toNat_of_isAlphanum {c : Char} (h : c.isAlphanum = true) :
    48 ≤ c.toNat ∧ c.toNat ≤ 122 := by
  simp [Char.isAlphanum, Char.isAlpha, Char.isUpper, Char.isLower, Char.isDigit,
    UInt32.le_iff_toNat_le] at h
  omega

theorem isAlphanum_alphanumeric : Alphanumeric Char.isAlphanum := by
  refine ⟨fun c _ => rfl, fun c hwhite => ?_⟩
  by_contra hc
  have := toNat_of_isAlphanum ((Bool.not_eq_false _).mp hc)
  simp only [isWhitespace, Bool.or_eq_true, Bool.and_eq_true, decide_eq_true_eq] at hwhite
  omega

/-- Semicolons in a comment and in a string, and a string that is not ended. -/
theorem splitting_stable_script :
    let sql := "-- a;\nSELECT ';' ; /* b; */ ; SELECT 'c".toList
    (∀ s ∈ splitStatements Char.isAlphanum .postgres sql, s ≠ [] ∧ trim s = s) ∧
      Decomposes Char.isAlphanum .postgres sql (splitStatements Char.isAlphanum .postgres sql) ∧
      splitStatements Char.isAlphanum .postgres
          (joined (splitStatements Char.isAlphanum .postgres sql)) =
        splitStatements Char.isAlphanum .postgres sql :=
  splitting_stable isAlphanum_alphanumeric .postgres _

end SqlSplit

end Hammerwork
