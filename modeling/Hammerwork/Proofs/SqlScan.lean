/-
The scanner of migration scripts.

What it skips are the spans of the lexical rules: quoted text, the rest of a
line, a comment with those nested in it, and a dollar-quoted body. A step of
it is a span with what opens it (`Opens`), or a character alone.
-/
import Hammerwork.SqlLexemes

namespace Hammerwork

namespace SqlSplit

open PayloadTemplate (isWhitespace trim)
open Spans (Span Skips)

-- == quoted text

section Quoted

variable {q c : Char} {escapes : Bool} {text : Text}

theorem skipQuoted_escaped (hescapes : escapes = true) :
    skipQuoted q escapes (backslash :: c :: text) = skipQuoted q escapes text := by
  simp [skipQuoted, hescapes]

theorem skipQuoted_doubled (hq : q ≠ backslash) :
    skipQuoted q escapes (q :: q :: text) = skipQuoted q escapes text := by
  simp [skipQuoted, hq]

theorem skipQuoted_close (hq : q ≠ backslash) (htext : text.head? ≠ some q) :
    skipQuoted q escapes (q :: text) = text := by
  cases text with
  | nil => rfl
  | cons next rest =>
      have hnext : next ≠ q := fun heq => htext (by rw [heq]; rfl)
      simp [skipQuoted, hq, hnext]

theorem skipQuoted_plain (hc : c ≠ q) (hescapes : escapes = true → c ≠ backslash) :
    skipQuoted q escapes (c :: text) = skipQuoted q escapes text := by
  cases text with
  | nil => rfl
  | cons next rest =>
      have hplain : ¬ (c = backslash ∧ escapes = true) := fun h => hescapes h.2 h.1
      simp [skipQuoted, hc, hplain]

/-- Quoted text is what is skipped from an opening quote. -/
theorem skips_quoted (hq : q ≠ backslash) :
    Skips (QuoteEnds q escapes) (skipQuoted q escapes) := by
  constructor
  · rintro word rest ⟨hword, hrest⟩
    induction hword with
    | close => exact skipQuoted_close hq hrest
    | doubled _ ih => exact (skipQuoted_doubled hq).trans ih
    | escaped hescapes _ ih => exact (skipQuoted_escaped hescapes).trans ih
    | plain hc hescapes _ ih => exact (skipQuoted_plain hc hescapes).trans ih
  · intro text
    fun_induction skipQuoted q escapes text with
    | case1 => exact Or.inl rfl
    | case2 => exact Or.inl rfl
    | case3 c next rest hc ih =>
        obtain ⟨rfl, hescapes⟩ : c = backslash ∧ escapes = true := by simpa using hc
        refine ih.imp_right ?_
        rintro ⟨word, heq, hword, hleft⟩
        exact ⟨backslash :: next :: word, by rw [List.cons_append, List.cons_append, heq],
          .escaped hescapes hword, hleft⟩
    | case4 rest _ ih =>
        refine ih.imp_right ?_
        rintro ⟨word, heq, hword, hleft⟩
        exact ⟨q :: q :: word, by rw [List.cons_append, List.cons_append, heq],
          .doubled hword, hleft⟩
    | case5 next rest hnext _ =>
        refine Or.inr ⟨[q], rfl, .close, ?_⟩
        rintro ⟨⟩
        exact hnext rfl
    | case6 c next rest hc hcq ih =>
        refine ih.imp_right ?_
        rintro ⟨word, heq, hword, hleft⟩
        refine ⟨c :: word, by rw [List.cons_append, heq], .plain hcq ?_ hword, hleft⟩
        rintro rfl rfl
        exact hc rfl

end Quoted

-- == comments

section Commented

variable {outer : Nat} {text : Text}

theorem skipBlockComment_close : skipBlockComment 1 ('*' :: '/' :: text) = text := by
  simp [skipBlockComment]

theorem skipBlockComment_inner :
    skipBlockComment (outer + 2) ('*' :: '/' :: text) = skipBlockComment (outer + 1) text := by
  simp [skipBlockComment]

theorem skipBlockComment_plain {c : Char} (hclose : c = '*' → text.head? ≠ some '/')
    (hopen : c = '/' → text.head? ≠ some '*') :
    skipBlockComment outer (c :: text) = skipBlockComment outer text := by
  cases text with
  | nil => rfl
  | cons next rest =>
      have h1 : ¬ (c = '/' ∧ next = '*') := fun h => hopen h.1 (by rw [h.2]; rfl)
      have h2 : ¬ (c = '*' ∧ next = '/') := fun h => hclose h.1 (by rw [h.2]; rfl)
      simp [skipBlockComment, h1, h2]

theorem Commented.ne_nil {nested : Bool} (h : Commented nested outer text) : text ≠ [] := by
  cases h <;> exact List.cons_ne_nil _ _

/-- What begins a comment decides what the first character is for, whatever
comes after it. -/
theorem Commented.head?_append {nested : Bool} {rest : Text} (h : Commented nested outer text) :
    (text ++ rest).head? = text.head? := by
  obtain ⟨c, text, rfl⟩ := List.exists_cons_of_ne_nil h.ne_nil
  rfl

/-- The end of nested comments is what is skipped from within them. -/
theorem skips_comment :
    Skips (fun word _ => Commented true outer word) (skipBlockComment (outer + 1)) := by
  constructor
  · intro word rest hword
    induction hword with
    | close => exact skipBlockComment_close
    | inner _ ih => exact skipBlockComment_inner.trans ih
    | opened _ _ ih => exact (skipBlockComment_open _ _).trans ih
    | plain hclose hopen hbody ih =>
        rw [List.cons_append, skipBlockComment_plain _ _]
        · exact ih
        · rw [hbody.head?_append]; exact hclose
        · rw [hbody.head?_append]; exact hopen rfl
  · intro text
    generalize hdepth : outer + 1 = depth
    fun_induction skipBlockComment depth text generalizing outer with
    | case1 => exact Or.inl rfl
    | case2 => exact Or.inl rfl
    | case3 depth c next rest hc ih =>
        obtain ⟨rfl, rfl⟩ : c = '/' ∧ next = '*' := by simpa using hc
        refine (ih (congrArg (· + 1) hdepth)).imp_right ?_
        rintro ⟨word, heq, hword⟩
        exact ⟨'/' :: '*' :: word, by rw [List.cons_append, List.cons_append, heq],
          .opened rfl hword⟩
    | case4 depth c next rest _ hc hlast =>
        obtain ⟨rfl, rfl⟩ : c = '*' ∧ next = '/' := by simpa using hc
        obtain rfl : outer = 0 := by omega
        exact Or.inr ⟨['*', '/'], rfl, .close⟩
    | case5 depth c next rest _ hc hlast ih =>
        obtain ⟨rfl, rfl⟩ : c = '*' ∧ next = '/' := by simpa using hc
        obtain ⟨outer, rfl⟩ : ∃ inside, outer = inside + 1 := ⟨outer - 1, by omega⟩
        refine (ih (by omega : outer + 1 = depth - 1)).imp_right ?_
        rintro ⟨word, heq, hword⟩
        exact ⟨'*' :: '/' :: word, by rw [List.cons_append, List.cons_append, heq], .inner hword⟩
    | case6 depth c next rest hopen hclose ih =>
        refine (ih hdepth).imp_right ?_
        rintro ⟨word, heq, hword⟩
        have hhead : word.head? = some next := by rw [← hword.head?_append, heq]; rfl
        refine ⟨c :: word, by rw [List.cons_append, heq], .plain ?_ ?_ hword⟩
        · rintro rfl hnext
          rw [hhead] at hnext
          cases hnext
          exact hclose rfl
        · rintro - rfl hnext
          rw [hhead] at hnext
          cases hnext
          exact hopen rfl

end Commented

-- == bodies

section Tagged

variable {tag text : Text}

theorem skipBody_here : skipBody tag (tag ++ text) = text := by
  cases htext : tag ++ text with
  | nil => exact (List.append_eq_nil_iff.mp htext).2.symm
  | cons c rest =>
      have hprefix : tag.isPrefixOf (c :: rest) = true := by
        rw [List.isPrefixOf_iff_prefix, ← htext]
        exact List.prefix_append tag text
      rw [skipBody, if_pos hprefix, ← htext, List.drop_left]

theorem skipBody_later {c : Char} (h : ¬ tag <+: c :: text) :
    skipBody tag (c :: text) = skipBody tag text := by
  rw [skipBody, if_neg]
  rw [List.isPrefixOf_iff_prefix]
  exact h

theorem Tagged.suffix (h : Tagged tag text) : tag <:+ text := by
  induction h with
  | here => exact List.suffix_refl tag
  | later _ _ ih => exact ih.trans (List.suffix_cons _ _)

/-- A dollar-quoted body is what is skipped before the rest. -/
theorem skips_body : Skips (BodyEnds tag) (skipBody tag) := by
  constructor
  · intro word rest hword
    induction hword with
    | here => exact skipBody_here
    | @later c body hnot hbody ih =>
        refine (skipBody_later fun hprefix => hnot ?_).trans ih
        -- the tag is at the end of the body, so it is not longer
        exact List.prefix_of_prefix_length_le hprefix (List.prefix_append (c :: body) rest)
          (hbody.suffix.length_le.trans (Nat.le_succ _))
  · intro text
    induction text with
    | nil => exact Or.inl rfl
    | cons c text ih =>
        by_cases hprefix : tag <+: c :: text
        · obtain ⟨rest, hrest⟩ := hprefix
          rw [← hrest, skipBody_here]
          exact Or.inr ⟨tag, rfl, .here⟩
        · rw [skipBody_later hprefix]
          refine ih.imp_right ?_
          rintro ⟨word, heq, hword⟩
          refine ⟨c :: word, by rw [List.cons_append, heq], .later (fun h => hprefix ?_) hword⟩
          refine h.trans ?_
          rw [← heq]
          exact List.prefix_append (c :: word) _

end Tagged

-- == lines

/-- The rest of a line is what is skipped from within it. -/
theorem skips_line : Skips (Spans.UpTo (· == '\n')) skipLine := by
  have hskip : skipLine = List.dropWhile fun c => ! (c == '\n') := by
    funext text
    simp [skipLine, beq_eq_decide]
  rw [hskip]
  exact Spans.skips_dropWhile _

-- == openers

variable {isAlphanumeric : Char → Bool} {dialect : Dialect}

/-- The tags that open a dollar-quoted body. -/
def IsTag (isAlphanumeric : Char → Bool) (tag : Text) : Prop :=
  (∀ c ∈ tag, isTagChar isAlphanumeric c = true) ∧ tag.head?.any Char.isDigit = false

/-- What opens a span for the scanner, where the span ends, and the piece it
is. -/
inductive Opens (isAlphanumeric : Char → Bool) (dialect : Dialect) :
    Text → (Text → Text → Prop) → Piece → Prop
  | quoted {q : Char} : q = quote ∨ q = doubleQuote →
      Opens isAlphanumeric dialect [q] (QuoteEnds q (dialect = .mySql)) .code
  | backtick : dialect = .mySql →
      Opens isAlphanumeric dialect [backtick] (QuoteEnds backtick false) .code
  | dashes : Opens isAlphanumeric dialect ['-', '-'] (Spans.UpTo (· == '\n')) .comment
  | hash : dialect = .mySql →
      Opens isAlphanumeric dialect ['#'] (Spans.UpTo (· == '\n')) .comment
  | block : Opens isAlphanumeric dialect ['/', '*'] (CommentEnds true) .comment
  | dollar {tag : Text} : dialect = .postgres → IsTag isAlphanumeric tag →
      Opens isAlphanumeric dialect ('$' :: tag ++ ['$']) (BodyEnds ('$' :: tag ++ ['$'])) .code

theorem isTagChar_dollar (h : Alphanumeric isAlphanumeric) :
    isTagChar isAlphanumeric '$' = false := by
  rw [isTagChar, h.ascii '$' (by decide)]
  decide

theorem skipDollarQuoted_opened (h : Alphanumeric isAlphanumeric) {tag body : Text}
    (htag : IsTag isAlphanumeric tag) :
    skipDollarQuoted isAlphanumeric (tag ++ '$' :: body) =
      some (skipBody ('$' :: tag ++ ['$']) body) := by
  have hnot : ¬ isTagChar isAlphanumeric '$' = true := by rw [isTagChar_dollar h]; decide
  have htake : (tag ++ '$' :: body).takeWhile (isTagChar isAlphanumeric) = tag := by
    rw [List.takeWhile_append_of_pos htag.1, List.takeWhile_cons_of_neg hnot, List.append_nil]
  have hdrop : (tag ++ '$' :: body).dropWhile (isTagChar isAlphanumeric) = '$' :: body := by
    rw [List.dropWhile_append_of_pos htag.1, List.dropWhile_cons_of_neg hnot]
  simp only [skipDollarQuoted, htake, hdrop]
  rw [if_neg (by decide), if_neg (by rw [htag.2]; decide)]

theorem exists_tag {text left : Text} (hskip : skipDollarQuoted isAlphanumeric text = some left) :
    ∃ tag body, text = tag ++ '$' :: body ∧ IsTag isAlphanumeric tag := by
  have hsplit := List.takeWhile_append_dropWhile (p := isTagChar isAlphanumeric) (l := text)
  simp only [skipDollarQuoted] at hskip
  split at hskip
  case h_1 c body hbody =>
    split_ifs at hskip with hc hdigit
    rw [hbody, not_not.mp hc] at hsplit
    refine ⟨_, body, hsplit.symm, fun a ha => List.mem_takeWhile_imp ha, ?_⟩
    simpa using hdigit
  case h_2 => cases hskip

/-- The scanner skips what an opener opens. -/
theorem Opens.scan (h : Alphanumeric isAlphanumeric) {c : Char} {opener body left : Text}
    {ends : Text → Text → Prop} {piece : Piece}
    (hopens : Opens isAlphanumeric dialect (c :: opener) ends piece) (hspan : Span ends body left) :
    scan isAlphanumeric dialect c (opener ++ (body ++ left)) = (piece, left) := by
  cases hopens with
  | quoted hq =>
      have hc : c ≠ backslash := by
        rintro rfl
        revert hq
        decide
      have hquote : (decide (c = quote) || decide (c = doubleQuote)) = true := by simpa using hq
      rw [SqlSplit.scan, if_pos hquote, List.nil_append, (skips_quoted hc).span_iff.mp hspan]
  | backtick hmysql =>
      subst hmysql
      exact congrArg (Prod.mk Piece.code) ((skips_quoted (by decide)).span_iff.mp hspan)
  | dashes =>
      have hskip : skipLine ('-' :: ['-'] ++ (body ++ left)) = left := by
        rw [List.cons_append, List.singleton_append, skipLine_cons (by decide),
          skipLine_cons (by decide)]
        exact skips_line.span_iff.mp hspan
      exact congrArg (Prod.mk Piece.comment) hskip
  | hash hmysql =>
      subst hmysql
      have hskip : skipLine ('#' :: (body ++ left)) = left := by
        rw [skipLine_cons (by decide)]
        exact skips_line.span_iff.mp hspan
      exact congrArg (Prod.mk Piece.comment) hskip
  | block =>
      have hskip : skipBlockComment 0 ('/' :: '*' :: (body ++ left)) = left := by
        rw [skipBlockComment_open]
        exact skips_comment.span_iff.mp hspan
      exact congrArg (Prod.mk Piece.comment) hskip
  | @dollar tag hpostgres htag =>
      subst hpostgres
      have hskip :
          skipDollarQuoted isAlphanumeric (tag ++ ['$'] ++ (body ++ left)) = some left := by
        rw [List.append_assoc, List.singleton_append, skipDollarQuoted_opened h htag,
          skips_body.span_iff.mp hspan]
      show (Piece.code, (skipDollarQuoted isAlphanumeric (tag ++ ['$'] ++ (body ++ left))).getD
        (tag ++ ['$'] ++ (body ++ left))) = _
      rw [hskip]
      rfl

/-- The piece that a character is when it opens nothing. -/
def single (c : Char) : Piece :=
  if c = ';' then .terminator else if isWhitespace c then .blank else .code

/-- The scanner takes a character that opens nothing alone. -/
theorem scan_single {c : Char} {rest : Text}
    (hnone : ∀ opener ends piece,
      Opens isAlphanumeric dialect opener ends piece → ¬ opener <+: c :: rest) :
    scan isAlphanumeric dialect c rest = (single c, rest) := by
  have hquoted : ¬ (c = quote ∨ c = doubleQuote) := fun h =>
    hnone _ _ _ (.quoted h) (List.prefix_append [c] rest)
  have hbacktick : ¬ (c = backtick ∧ dialect = .mySql) := by
    rintro ⟨rfl, h⟩
    exact hnone _ _ _ (.backtick h) (List.prefix_append [backtick] rest)
  have hdashes : ¬ (c = '-' ∧ rest.head? = some '-') := by
    rintro ⟨rfl, h⟩
    obtain ⟨rest, rfl⟩ := List.head?_eq_some_iff.mp h
    exact hnone _ _ _ .dashes (List.prefix_append ['-', '-'] rest)
  have hhash : ¬ (c = '#' ∧ dialect = .mySql) := by
    rintro ⟨rfl, h⟩
    exact hnone _ _ _ (.hash h) (List.prefix_append ['#'] rest)
  have hblock : ¬ (c = '/' ∧ rest.head? = some '*') := by
    rintro ⟨rfl, h⟩
    obtain ⟨rest, rfl⟩ := List.head?_eq_some_iff.mp h
    exact hnone _ _ _ .block (List.prefix_append ['/', '*'] rest)
  have hdollar : c = '$' → dialect = .postgres → skipDollarQuoted isAlphanumeric rest = none := by
    rintro rfl h
    cases hskip : skipDollarQuoted isAlphanumeric rest with
    | none => rfl
    | some left =>
        obtain ⟨tag, body, rfl, htag⟩ := exists_tag hskip
        refine absurd ?_ (hnone _ _ _ (.dollar h htag))
        exact ⟨body, by simp⟩
  rw [scan, if_neg (by simpa using hquoted), if_neg (by simpa using hbacktick),
    if_neg (by simpa using hdashes), if_neg (by simpa using hhash),
    if_neg (by simpa using hblock)]
  split
  case isTrue h =>
    obtain ⟨rfl, hpostgres⟩ : c = '$' ∧ dialect = .postgres := by simpa using h
    rw [hdollar rfl hpostgres]
    rfl
  case isFalse =>
    unfold single
    split_ifs <;> rfl

theorem Opens.ne_nil {opener : Text} {ends : Text → Text → Prop} {piece : Piece}
    (h : Opens isAlphanumeric dialect opener ends piece) : opener ≠ [] := by
  cases h <;> exact List.cons_ne_nil _ _

theorem Opens.skips {opener : Text} {ends : Text → Text → Prop} {piece : Piece}
    (h : Opens isAlphanumeric dialect opener ends piece) : ∃ skip, Skips ends skip := by
  cases h with
  | quoted hq =>
      refine ⟨_, skips_quoted ?_⟩
      rintro rfl
      revert hq
      decide
  | backtick => exact ⟨_, skips_quoted (by decide)⟩
  | dashes => exact ⟨_, skips_line⟩
  | hash => exact ⟨_, skips_line⟩
  | block => exact ⟨_, skips_comment⟩
  | dollar => exact ⟨_, skips_body⟩

/-- What the scanner does at a character. -/
theorem scan_cases (h : Alphanumeric isAlphanumeric) (c : Char) (rest : Text) :
    (∃ opener ends piece body left, Opens isAlphanumeric dialect (c :: opener) ends piece ∧
      rest = opener ++ (body ++ left) ∧ Span ends body left ∧
      scan isAlphanumeric dialect c rest = (piece, left)) ∨
    ((∀ opener ends piece,
        Opens isAlphanumeric dialect opener ends piece → ¬ opener <+: c :: rest) ∧
      scan isAlphanumeric dialect c rest = (single c, rest)) := by
  by_cases hnone : ∀ opener ends piece,
      Opens isAlphanumeric dialect opener ends piece → ¬ opener <+: c :: rest
  · exact Or.inr ⟨hnone, scan_single hnone⟩
  · push Not at hnone
    obtain ⟨opener, ends, piece, hopens, after, hafter⟩ := hnone
    obtain ⟨a, opener, rfl⟩ := List.exists_cons_of_ne_nil hopens.ne_nil
    rw [List.cons_append] at hafter
    obtain ⟨rfl, rfl⟩ := List.cons.inj hafter
    obtain ⟨skip, hskips⟩ := hopens.skips
    obtain ⟨body, hbody, hspan⟩ := hskips.exists_span after
    refine Or.inl ⟨opener, ends, piece, body, skip after, hopens, ?_, hspan, ?_⟩
    · rw [hbody]
    · rw [← hopens.scan h hspan, hbody]

-- == the loop

theorem splitLoop_nil (start : Text) (hasCode : Bool) :
    splitLoop isAlphanumeric dialect start hasCode [] =
      if hasCode then [trim start] else [] := by
  rw [splitLoop]

/-- At the end of a statement. -/
theorem splitLoop_terminator {start rest left : Text} {hasCode : Bool} {c : Char}
    (h : scan isAlphanumeric dialect c rest = (.terminator, left)) :
    splitLoop isAlphanumeric dialect start hasCode (c :: rest) =
      (if hasCode then [trim (upTo start (c :: rest))] else []) ++
        splitLoop isAlphanumeric dialect left false left := by
  rw [splitLoop]
  split
  case h_1 left' h' =>
    rw [h] at h'
    cases h'
    cases hasCode <;> rfl
  all_goals
    rename_i left' h'
    rw [h] at h'
    cases h'

/-- At a piece of a statement. -/
theorem splitLoop_piece {start rest left : Text} {hasCode : Bool} {c : Char} {piece : Piece}
    (h : scan isAlphanumeric dialect c rest = (piece, left)) (hpiece : piece ≠ .terminator) :
    splitLoop isAlphanumeric dialect start hasCode (c :: rest) =
      splitLoop isAlphanumeric dialect start (hasCode || piece = .code) left := by
  rw [splitLoop]
  split
  case h_1 left' h' =>
    rw [h] at h'
    cases h'
    exact absurd rfl hpiece
  all_goals
    rename_i left' h'
    rw [h] at h'
    cases h'
    cases hasCode <;> rfl

theorem upTo_append (word rest : Text) : upTo (word ++ rest) rest = word := by
  rw [upTo, List.length_append, Nat.add_sub_cancel, List.take_left]

end SqlSplit

end Hammerwork
