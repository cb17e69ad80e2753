/-
Where a script is cut.

The lexical rules give every script one reading. The scanner follows them
but for a few lexemes (`Misread`), which are told by what they are and what
comes after them. In a script without these every lexeme is skipped as one
piece, or as several in which no semicolon is, so the cuts are at the
semicolons that are lexemes of their own.

The escape strings of PostgreSQL are among those lexemes: an escaped quote is
taken for their end, and a semicolon after it for one between statements.
-/
import Hammerwork.Laws.SplitStability

namespace Hammerwork

namespace SqlSplit

open PayloadTemplate (isWhitespace trim)
open Spans (Span Skips)

variable {isAlphanumeric : Char → Bool} {dialect : Dialect} {context : Context}

-- == one reading

theorem Begins.ne_nil {kind : Kind} {opener after : Text} {ends : Text → Text → Prop}
    (h : Begins dialect context kind opener ends after) : opener ≠ [] := by
  cases h <;> exact List.cons_ne_nil _ _

/-- Tags have no dollar sign in them, so the first one is after the tag. -/
theorem DollarTag.unique {tag tag' after after' : Text} (h : DollarTag tag) (h' : DollarTag tag')
    (heq : tag ++ '$' :: after = tag' ++ '$' :: after') : tag = tag' ∧ after = after' := by
  have hnot : ∀ {tag}, DollarTag tag → ∀ c ∈ tag, (c == '$') = false := by
    intro tag h c hc
    by_contra hdollar
    obtain rfl : c = '$' := by simpa using hdollar
    rcases h.1 _ hc with hstart | hdigit
    · exact absurd hstart (by decide)
    · exact absurd hdigit (by decide)
  have hspan : Span (Spans.UpTo (· == '$')) tag ('$' :: after) :=
    Spans.span_upTo_iff.mpr ⟨hnot h, by simp⟩
  have hspan' : Span (Spans.UpTo (· == '$')) tag' ('$' :: after') :=
    Spans.span_upTo_iff.mpr ⟨hnot h', by simp⟩
  obtain ⟨rfl, hafter⟩ := (Spans.skips_dropWhile (· == '$')).unique hspan hspan' heq
  exact ⟨rfl, (List.cons.inj hafter).2⟩

theorem Begins.unique {kind kind' : Kind} {opener opener' after after' : Text}
    {ends ends' : Text → Text → Prop} (h : Begins dialect context kind opener ends after)
    (h' : Begins dialect context kind' opener' ends' after')
    (heq : opener ++ after = opener' ++ after') :
    kind = kind' ∧ opener = opener' ∧ ends = ends' := by
  cases h <;> cases h'
  case dollarQuote.dollarQuote tag htag tag' htag' =>
    have hafter : tag ++ '$' :: after = tag' ++ '$' :: after' := by simpa using heq
    obtain ⟨rfl, -⟩ := htag.unique htag' hafter
    exact ⟨rfl, rfl, rfl⟩
  -- other openers with the same first character are the same
  all_goals grind [quote, doubleQuote, SqlSplit.backtick]

theorem commented_iff {body : Text} : Commented false 0 body ↔ Tagged ['*', '/'] body := by
  constructor
  · intro h
    generalize houter : 0 = outer at h
    induction h with
    | close => exact .here
    | inner => cases houter
    | opened hnested => cases hnested
    | @plain outer c body hclose _ _ ih =>
        refine .later ?_ (ih houter)
        rintro ⟨rest, hrest⟩
        obtain ⟨rfl, rfl⟩ := List.cons.inj hrest
        exact hclose rfl rfl
  · intro h
    induction h with
    | here => exact .close
    | @later c body hnot _ ih =>
        refine .plain ?_ (fun hnested => by cases hnested) ih
        rintro rfl hhead
        obtain ⟨rest, rfl⟩ := List.head?_eq_some_iff.mp hhead
        exact hnot (List.prefix_append ['*', '/'] rest)

theorem Begins.skips {kind : Kind} {opener after : Text} {ends : Text → Text → Prop}
    (h : Begins dialect context kind opener ends after) : ∃ skip, Skips ends skip := by
  have hflat : CommentEnds false = BodyEnds ['*', '/'] := by
    funext word rest
    exact propext commented_iff
  cases h with
  | string => exact ⟨_, skips_quoted (by decide)⟩
  | continuedString => exact ⟨_, skips_quoted (by decide)⟩
  | escapeString => exact ⟨_, skips_quoted (by decide)⟩
  | identifier => exact ⟨_, skips_quoted (by decide)⟩
  | dollarQuote => exact ⟨_, skips_body⟩
  | mySqlString hq =>
      refine ⟨_, skips_quoted ?_⟩
      rintro rfl
      revert hq
      decide
  | backtick => exact ⟨_, skips_quoted (by decide)⟩
  | dashes => exact ⟨_, Spans.skips_dropWhile _⟩
  | mySqlDashes => exact ⟨_, Spans.skips_dropWhile _⟩
  | hash => exact ⟨_, Spans.skips_dropWhile _⟩
  | block =>
      cases dialect with
      | postgres => exact ⟨_, skips_comment⟩
      | mySql =>
          show ∃ skip, Skips (CommentEnds false) skip
          rw [hflat]
          exact ⟨_, skips_body⟩

theorem Reads.ne_nil {lexeme : Lexeme} {rest : Text} (h : Reads dialect context lexeme rest) :
    lexeme.word ≠ [] := by
  cases h with
  | span hbegins => exact fun hnil => hbegins.ne_nil (List.append_eq_nil_iff.mp hnil).1
  | plain => exact List.cons_ne_nil _ _

theorem KindEnds.skips (kind : Kind) : ∃ skip, Skips (KindEnds kind) skip := by
  unfold KindEnds
  split
  case isTrue => exact ⟨_, Spans.skips_dropWhile _⟩
  case isFalse =>
    refine ⟨id, ?_, fun text => Or.inr ⟨[], rfl, rfl⟩⟩
    rintro word rest rfl
    rfl

/-- Something is read at every character. -/
theorem exists_reads (c : Char) (text : Text) :
    ∃ lexeme rest, Reads dialect context lexeme rest ∧ lexeme.word ++ rest = c :: text := by
  by_cases hnone : NoneBegins dialect context (c :: text)
  · obtain ⟨skip, hskips⟩ := KindEnds.skips (kindOf dialect c)
    obtain ⟨body, hbody, hspan⟩ := hskips.exists_span text
    refine ⟨⟨kindOf dialect c, c :: body⟩, skip text, .plain ?_ hspan, congrArg _ hbody⟩
    rw [hbody]
    exact hnone
  · simp only [NoneBegins, not_forall, not_not] at hnone
    obtain ⟨kind, opener, ends, after, hbegins, heq⟩ := hnone
    obtain ⟨skip, hskips⟩ := hbegins.skips
    obtain ⟨body, hbody, hspan⟩ := hskips.exists_span after
    refine ⟨⟨kind, opener ++ body⟩, skip after, .span ?_ hspan, ?_⟩
    · rw [hbody]
      exact hbegins
    · show opener ++ body ++ skip after = c :: text
      rw [List.append_assoc, hbody, heq]

theorem Reads.unique {lexeme lexeme' : Lexeme} {rest rest' : Text}
    (h : Reads dialect context lexeme rest) (h' : Reads dialect context lexeme' rest')
    (heq : lexeme.word ++ rest = lexeme'.word ++ rest') : lexeme = lexeme' ∧ rest = rest' := by
  cases h with
  | @span kind opener body _ ends hbegins hspan =>
      cases h' with
      | @span kind' opener' body' _ ends' hbegins' hspan' =>
          dsimp only at heq
          rw [List.append_assoc, List.append_assoc] at heq
          obtain ⟨rfl, rfl, rfl⟩ := hbegins.unique hbegins' heq
          obtain ⟨skip, hskips⟩ := hbegins.skips
          obtain ⟨rfl, rfl⟩ := hskips.unique hspan hspan' (List.append_cancel_left heq)
          exact ⟨rfl, rfl⟩
      | plain hnone =>
          rw [List.append_assoc] at heq
          exact absurd heq (hnone _ _ _ _ hbegins)
  | @plain c body _ hnone hspan =>
      cases h' with
      | span hbegins =>
          rw [List.append_assoc] at heq
          exact absurd heq.symm (hnone _ _ _ _ hbegins)
      | @plain c' body' _ hnone' hspan' =>
          obtain ⟨rfl, htail⟩ := List.cons.inj heq
          obtain ⟨skip, hskips⟩ := KindEnds.skips (kindOf dialect c)
          obtain ⟨rfl, rfl⟩ := hskips.unique hspan hspan' htail
          exact ⟨rfl, rfl⟩

/-- Every script has one reading. -/
theorem exists_unique_lexes (sql : Text) : ∃! lexemes, Lexes dialect context sql lexemes := by
  induction hlength : sql.length using Nat.strong_induction_on generalizing sql context with
  | _ n ih =>
      cases sql with
      | nil =>
          refine ⟨[], .nil, ?_⟩
          intro lexemes h
          generalize hsql : [] = sql at h
          cases h with
          | nil => rfl
          | cons hreads => exact absurd (List.append_eq_nil_iff.mp hsql.symm).1 hreads.ne_nil
      | cons c text =>
          obtain ⟨lexeme, rest, hreads, heq⟩ : ∃ lexeme rest,
              Reads dialect context lexeme rest ∧ lexeme.word ++ rest = c :: text :=
            exists_reads c text
          have hless : rest.length < n := by
            have := List.length_pos_iff.mpr hreads.ne_nil
            rw [← hlength, ← heq, List.length_append]
            omega
          obtain ⟨lexemes, hlexes, honly⟩ : ∃! lexemes,
              Lexes dialect (context.after lexeme) rest lexemes := ih _ hless rest rfl
          refine ⟨lexeme :: lexemes, heq ▸ .cons hreads hlexes, ?_⟩
          intro others h
          generalize hsql : c :: text = sql at h
          cases h with
          | nil => cases hsql
          | cons hreads' hlexes' =>
              obtain ⟨rfl, rfl⟩ := hreads.unique hreads' (heq.trans hsql)
              rw [honly _ hlexes']

-- == misreadings

/-- The lexemes that the scanner does not know: an escape string whose end a
backslash decides, a word with a dollar quote in it, a comment that a carriage
return ends before other text, a dollar quote with a tag that is not
alphanumeric, a comment in a comment where they do not nest, and two dashes
that are no comment. -/
inductive Misread (isAlphanumeric : Char → Bool) : Dialect → Lexeme → (rest : Text) → Prop
  | escapes {opener body rest : Text} : opener = [] ∨ opener = ['e'] ∨ opener = ['E'] →
      ¬ Span (QuoteEnds quote false) body rest →
        Misread isAlphanumeric .postgres ⟨.escapeString, opener ++ quote :: body⟩ rest
  | word {before tag after rest : Text} : IsTag isAlphanumeric tag →
      Misread isAlphanumeric .postgres ⟨.word, before ++ '$' :: (tag ++ '$' :: after)⟩ rest
  | line {word rest : Text} : ¬ (∀ c ∈ rest.takeWhile (· ≠ '\n'), isSpace c = true) →
      Misread isAlphanumeric .postgres ⟨.lineComment, word⟩ rest
  | tag {tag body rest : Text} : DollarTag tag → ¬ IsTag isAlphanumeric tag →
      Misread isAlphanumeric .postgres ⟨.dollarQuoted, '$' :: tag ++ '$' :: body⟩ rest
  | nested {body rest : Text} : ¬ Span (CommentEnds true) body rest →
      Misread isAlphanumeric .mySql ⟨.blockComment, '/' :: '*' :: body⟩ rest
  | dashes {rest : Text} : rest.head? = some '-' →
      Misread isAlphanumeric .mySql ⟨.symbol, ['-']⟩ rest

theorem Opens.loop (h : Alphanumeric isAlphanumeric) {opener body rest : Text}
    {ends : Text → Text → Prop} {piece : Piece}
    (hopens : Opens isAlphanumeric dialect opener ends piece) (hspan : Span ends body rest)
    (start : Text) (hasCode : Bool) :
    splitLoop isAlphanumeric dialect start hasCode (opener ++ (body ++ rest)) =
      splitLoop isAlphanumeric dialect start (hasCode || piece = .code) rest := by
  obtain ⟨c, opener, rfl⟩ := List.exists_cons_of_ne_nil hopens.ne_nil
  refine splitLoop_piece (hopens.scan h hspan) ?_
  cases hopens <;> exact Piece.noConfusion

theorem shows_of_mem {kind : Kind} {word : Text} {c : Char} (hline : kind ≠ .lineComment)
    (hblock : kind ≠ .blockComment) (hc : c ∈ word) (hwhite : isWhitespace c = false) :
    (Lexeme.mk kind word).shows = true := by
  have hany : (word.any fun c => ! isWhitespace c) = true :=
    List.any_eq_true.mpr ⟨c, hc, by rw [hwhite]; rfl⟩
  simp [Lexeme.shows, hline, hblock, hany]

/-- A span that is no comment. -/
theorem Opens.code_loop (h : Alphanumeric isAlphanumeric) {kind : Kind} {opener body rest : Text}
    {ends : Text → Text → Prop} (hopens : Opens isAlphanumeric dialect opener ends .code)
    (hspan : Span ends body rest) (hline : kind ≠ .lineComment) (hblock : kind ≠ .blockComment)
    (start : Text) (hasCode : Bool) :
    splitLoop isAlphanumeric dialect start hasCode (opener ++ body ++ rest) =
      splitLoop isAlphanumeric dialect start
        (hasCode || (Lexeme.mk kind (opener ++ body)).shows) rest := by
  have hshows : (Lexeme.mk kind (opener ++ body)).shows = true := by
    obtain ⟨c, tail, rfl⟩ := List.exists_cons_of_ne_nil hopens.ne_nil
    exact shows_of_mem hline hblock (List.mem_cons_self ..)
      (hopens.solid h c (List.mem_cons_self ..)).2
  rw [List.append_assoc, hopens.loop h hspan, hshows]
  rfl

/-- A comment. -/
theorem Opens.comment_loop (h : Alphanumeric isAlphanumeric) {kind : Kind}
    {opener body rest : Text} {ends : Text → Text → Prop}
    (hopens : Opens isAlphanumeric dialect opener ends .comment) (hspan : Span ends body rest)
    (hkind : kind = .lineComment ∨ kind = .blockComment) (word start : Text) (hasCode : Bool) :
    splitLoop isAlphanumeric dialect start hasCode (opener ++ body ++ rest) =
      splitLoop isAlphanumeric dialect start (hasCode || (Lexeme.mk kind word).shows) rest := by
  have hshows : (Lexeme.mk kind word).shows = false := by
    rcases hkind with rfl | rfl <;> rfl
  rw [List.append_assoc, hopens.loop h hspan, hshows]
  rfl

theorem isWhitespace_of_isSpace {c : Char} (h : isSpace c = true) : isWhitespace c = true := by
  have hspace : (9 ≤ c.toNat ∧ c.toNat ≤ 13) ∨ c = ' ' := by simpa [isSpace] using h
  rcases hspace with ⟨hlow, hhigh⟩ | rfl
  · simp [isWhitespace, hlow, hhigh]
  · decide

theorem splitLoop_blank (h : Alphanumeric isAlphanumeric) {blank : Text} (hblank : Blank blank)
    (start rest : Text) (hasCode : Bool) :
    splitLoop isAlphanumeric dialect start hasCode (blank ++ rest) =
      splitLoop isAlphanumeric dialect start hasCode rest := by
  induction blank with
  | nil => rfl
  | cons c blank ih =>
      rw [List.cons_append, splitLoop_piece (scan_blank h (hblank c (List.mem_cons_self ..)))
        (by decide), decide_eq_false (by decide), Bool.or_false]
      exact ih fun a ha => hblank a (List.mem_cons_of_mem c ha)

/-- A line comment of PostgreSQL, for the scanner up to the line feed. -/
theorem line_loop (h : Alphanumeric isAlphanumeric) {body rest : Text}
    (hspan : Span (Spans.UpTo (isNewline .postgres)) body rest)
    (hrest : ∀ c ∈ rest.takeWhile (· ≠ '\n'), isSpace c = true) (start : Text) (hasCode : Bool) :
    splitLoop isAlphanumeric dialect start hasCode (['-', '-'] ++ body ++ rest) =
      splitLoop isAlphanumeric dialect start
        (hasCode || (Lexeme.mk .lineComment (['-', '-'] ++ body)).shows) rest := by
  obtain ⟨hbody, -⟩ := Spans.span_upTo_iff.mp hspan
  obtain ⟨blank, hsplit, hline⟩ := skips_line.exists_span rest
  have htake : blank ++ skipLine rest = rest.takeWhile (· ≠ '\n') ++ skipLine rest := by
    rw [hsplit, skipLine, List.takeWhile_append_dropWhile]
  have hblank : Blank blank := by
    intro c hc
    rw [List.append_cancel_right htake] at hc
    exact isWhitespace_of_isSpace (hrest c hc)
  obtain ⟨hblankLine, hnext⟩ := Spans.span_upTo_iff.mp hline
  have hlonger : Span (Spans.UpTo (· == '\n')) (body ++ blank) (skipLine rest) := by
    refine Spans.span_upTo_iff.mpr ⟨fun c hc => ?_, hnext⟩
    rcases List.mem_append.mp hc with hc | hc
    · have hnot := hbody c hc
      rw [isNewline, Bool.or_eq_false_iff] at hnot
      rw [beq_eq_decide]
      exact hnot.1
    · exact hblankLine c hc
  have hdashes : Opens isAlphanumeric dialect ['-', '-'] (Spans.UpTo (· == '\n')) .comment :=
    .dashes
  have hlong := hdashes.comment_loop h hlonger (Or.inl rfl) (['-', '-'] ++ body) start hasCode
  rw [List.append_assoc, List.append_assoc, hsplit] at hlong
  rw [List.append_assoc, hlong, ← splitLoop_blank h hblank start (skipLine rest), hsplit]

theorem isIdentPart_of_tag (h : Alphanumeric isAlphanumeric) {c : Char}
    (hc : isTagChar isAlphanumeric c = true) : isIdentStart c = true ∨ c.isDigit = true := by
  by_cases hascii : c.toNat < 128
  · rw [isTagChar, h.ascii c hascii] at hc
    simp only [Char.isAlphanum, Bool.or_eq_true, decide_eq_true_eq] at hc
    rcases hc with (halpha | hdigit) | hunderscore
    · exact Or.inl (by simp [isIdentStart, halpha])
    · exact Or.inr hdigit
    · exact Or.inl (by simp [isIdentStart, hunderscore])
  · refine Or.inl ?_
    simp [isIdentStart, Nat.le_of_not_lt hascii]

theorem IsTag.dollarTag (h : Alphanumeric isAlphanumeric) {tag : Text}
    (htag : IsTag isAlphanumeric tag) : DollarTag tag :=
  ⟨fun c hc => isIdentPart_of_tag h (htag.1 c hc), htag.2⟩

/-- In a word, only a dollar sign opens something. -/
theorem Opens.head {c : Char} {opener : Text} {ends : Text → Text → Prop} {piece : Piece}
    (hopens : Opens isAlphanumeric dialect (c :: opener) ends piece) (hc : isIdentPart c = true) :
    c = '$' := by
  cases hopens with
  | quoted hq =>
      rcases hq with rfl | rfl
      · exact absurd hc (by decide)
      · exact absurd hc (by decide)
  | dollar => rfl
  | _ => exact absurd hc (by decide)

theorem scan_letter {c : Char} (hc : isIdentStart c = true) (rest : Text) :
    scan isAlphanumeric dialect c rest = (single c, rest) := by
  refine scan_single fun opener ends piece hopens hprefix => ?_
  obtain ⟨a, opener, rfl⟩ := List.exists_cons_of_ne_nil hopens.ne_nil
  obtain ⟨after, hafter⟩ := hprefix
  obtain rfl : a = c := (List.cons.inj hafter).1
  obtain rfl := hopens.head (by simp [isIdentPart, hc])
  exact absurd hc (by decide)

/-- A dollar quote in the text after a word's dollar sign is in the word. -/
theorem tag_within (h : Alphanumeric isAlphanumeric) {tag word rest after : Text}
    (htag : IsTag isAlphanumeric tag) (hrest : ∀ c, rest.head? = some c → isIdentPart c = false)
    (heq : tag ++ '$' :: after = word ++ rest) : ∃ inside, word = tag ++ '$' :: inside := by
  have hpart : ∀ c ∈ tag ++ ['$'], isIdentPart c = true := by
    intro c hc
    rcases List.mem_append.mp hc with hc | hc
    · rcases isIdentPart_of_tag h (htag.1 c hc) with hstart | hdigit
      · simp [isIdentPart, hstart]
      · simp [isIdentPart, hdigit]
    · rw [List.mem_singleton.mp hc]
      decide
  have hprefix : tag ++ ['$'] <+: word ++ rest := ⟨after, by rw [← heq]; simp⟩
  rcases List.prefix_or_prefix_of_prefix hprefix (List.prefix_append word rest) with hin | hover
  · obtain ⟨inside, hinside⟩ := hin
    exact ⟨inside, by rw [← hinside]; simp⟩
  · obtain ⟨more, hmore⟩ := hover
    cases more with
    | nil =>
        rw [List.append_nil] at hmore
        exact ⟨[], hmore⟩
    | cons c more =>
        rw [← hmore] at hprefix hpart
        obtain ⟨later, hlater⟩ := (List.prefix_append_right_inj word).mp hprefix
        have hnot := hrest c (by rw [← hlater]; rfl)
        rw [hpart c (by simp)] at hnot
        cases hnot

/-- A word is read one character after another, if no dollar quote opens in
it. -/
theorem word_loop (h : Alphanumeric isAlphanumeric) {word rest : Text}
    (hword : ∀ c ∈ word, isIdentPart c = true)
    (hrest : ∀ c, rest.head? = some c → isIdentPart c = false)
    (hnone : ∀ before tag after, IsTag isAlphanumeric tag →
      word ≠ before ++ '$' :: (tag ++ '$' :: after)) (start : Text) (hasCode : Bool) :
    splitLoop isAlphanumeric dialect start hasCode (word ++ rest) =
      splitLoop isAlphanumeric dialect start
        (hasCode || word.any fun c => ! isWhitespace c) rest := by
  induction word generalizing hasCode with
  | nil => simp
  | cons c word ih =>
      have hc := hword c (List.mem_cons_self ..)
      have hscan : scan isAlphanumeric dialect c (word ++ rest) = (single c, word ++ rest) := by
        refine scan_single fun opener ends piece hopens hprefix => ?_
        obtain ⟨a, opener, rfl⟩ := List.exists_cons_of_ne_nil hopens.ne_nil
        obtain ⟨after, hafter⟩ := hprefix
        rw [List.cons_append] at hafter
        obtain ⟨rfl, hafter⟩ := List.cons.inj hafter
        obtain rfl := hopens.head hc
        cases hopens with
        | quoted hq => exact absurd hq (by decide)
        | @dollar tag _ htag =>
            have heq : tag ++ '$' :: after = word ++ rest := by simpa using hafter
            obtain ⟨inside, rfl⟩ := tag_within h htag hrest heq
            exact hnone [] tag inside htag rfl
      have hsemicolon : c ≠ ';' := by
        rintro rfl
        exact absurd hc (by decide)
      have hpiece : single c ≠ .terminator := by
        rw [single, if_neg hsemicolon]
        split_ifs <;> exact Piece.noConfusion
      have hlater := ih (fun a ha => hword a (List.mem_cons_of_mem c ha))
        (fun before tag after htag heq => hnone (c :: before) tag after htag (by rw [heq]; rfl))
      rw [List.cons_append, splitLoop_piece hscan hpiece, hlater, List.any_cons, ← Bool.or_assoc]
      cases hwhite : isWhitespace c with
      | true => simp [single, hsemicolon, hwhite]
      | false => simp [single, hsemicolon, hwhite]

theorem opens_postgres {q : Char} (hq : q = quote ∨ q = doubleQuote) :
    Opens isAlphanumeric .postgres [q] (QuoteEnds q false) .code :=
  .quoted hq

theorem opens_mySql {q : Char} (hq : q = quote ∨ q = doubleQuote) :
    Opens isAlphanumeric .mySql [q] (QuoteEnds q true) .code :=
  .quoted hq

theorem span_single {body rest : Text} (h : Span (fun word _ => word = []) body rest) :
    body = [] := by
  rcases h with hnil | ⟨-, hnever⟩
  · exact hnil
  · exact absurd rfl (hnever [] body rfl)

theorem kindOf_eq_word {c : Char} (h : kindOf dialect c = .word) :
    dialect = .postgres ∧ isIdentStart c = true := by
  unfold kindOf at h
  split_ifs at h with hsemicolon hspace hword
  simpa using hword

/-- A symbol opens nothing for the scanner either, unless it is the first of
two dashes. -/
theorem scan_symbol (h : Alphanumeric isAlphanumeric) {c : Char} {rest : Text}
    (hnone : NoneBegins dialect context (c :: rest))
    (hknown : ¬ Misread isAlphanumeric dialect ⟨.symbol, [c]⟩ rest) :
    scan isAlphanumeric dialect c rest = (single c, rest) := by
  refine scan_single fun opener ends piece hopens hprefix => ?_
  obtain ⟨after, hafter⟩ := hprefix
  cases hopens with
  | @quoted q hq =>
      cases dialect with
      | postgres =>
          rcases hq with rfl | rfl
          · by_cases hcontext : context = .continued
            · subst hcontext
              exact hnone _ _ _ _ .continuedString hafter
            · exact hnone _ _ _ _ (.string hcontext) hafter
          · exact hnone _ _ _ _ .identifier hafter
      | mySql => exact hnone _ _ _ _ (.mySqlString hq) hafter
  | backtick hmysql =>
      subst hmysql
      exact hnone _ _ _ _ .backtick hafter
  | dashes =>
      cases dialect with
      | postgres => exact hnone _ _ _ _ .dashes hafter
      | mySql =>
          obtain ⟨rfl, rfl⟩ := List.cons.inj hafter
          exact hknown (.dashes rfl)
  | hash hmysql =>
      subst hmysql
      exact hnone _ _ _ _ .hash hafter
  | block => exact hnone _ _ _ _ .block hafter
  | dollar hpostgres htag =>
      subst hpostgres
      exact hnone _ _ _ _ (.dollarQuote (htag.dollarTag h)) hafter

/-- A lexeme that the scanner knows is one piece or several, with code if it
has some. -/
theorem Reads.loop (h : Alphanumeric isAlphanumeric) {lexeme : Lexeme} {rest : Text}
    (hreads : Reads dialect context lexeme rest)
    (hknown : ¬ Misread isAlphanumeric dialect lexeme rest)
    (hinside : lexeme.kind ≠ .terminator) (start : Text) (hasCode : Bool) :
    splitLoop isAlphanumeric dialect start hasCode (lexeme.word ++ rest) =
      splitLoop isAlphanumeric dialect start (hasCode || lexeme.shows) rest := by
  have hlineEnd : isNewline .mySql = (· == '\n') := by
    funext c
    simp [isNewline, beq_eq_decide]
  cases hreads with
  | @span kind opener body _ ends hbegins hspan =>
      cases hbegins with
      | string =>
          exact (opens_postgres (Or.inl rfl)).code_loop h hspan (by decide) (by decide) start _
      | continuedString =>
          have hplain : Span (QuoteEnds quote false) body rest := by
            by_contra hnot
            exact hknown (.escapes (Or.inl rfl) hnot)
          exact (opens_postgres (Or.inl rfl)).code_loop h hplain (by decide) (by decide) start _
      | @escapeString _ c _ hc =>
          have hplain : Span (QuoteEnds quote false) body rest := by
            by_contra hnot
            have hopener : [c] = [] ∨ [c] = ['e'] ∨ [c] = ['E'] := by simpa using hc
            exact hknown (.escapes hopener hnot)
          have hstart : isIdentStart c = true := by rcases hc with rfl | rfl <;> decide
          have hsingle : single c = .code := by rcases hc with rfl | rfl <;> decide
          have hscan : scan isAlphanumeric .postgres c (quote :: (body ++ rest)) =
              (.code, quote :: (body ++ rest)) := by rw [scan_letter hstart, hsingle]
          have hquote : quote ∈ [c, quote] ++ body := by simp
          rw [shows_of_mem (by decide) (by decide) hquote (by decide)]
          refine (splitLoop_piece hscan (by decide)).trans ?_
          refine ((opens_postgres (Or.inl rfl)).loop h hplain start _).trans ?_
          simp
      | identifier =>
          exact (opens_postgres (Or.inr rfl)).code_loop h hspan (by decide) (by decide) start _
      | @dollarQuote _ tag _ htag =>
          have hknownTag : IsTag isAlphanumeric tag := by
            by_contra hnot
            have hmisread : Misread isAlphanumeric .postgres
                ⟨.dollarQuoted, '$' :: tag ++ '$' :: body⟩ rest := .tag htag hnot
            exact hknown (by simpa using hmisread)
          exact (Opens.dollar rfl hknownTag).code_loop h hspan (by decide) (by decide) start _
      | mySqlString hq =>
          exact (opens_mySql hq).code_loop h hspan (by decide) (by decide) start _
      | backtick =>
          exact (Opens.backtick rfl).code_loop h hspan (by decide) (by decide) start _
      | dashes =>
          refine line_loop h hspan ?_ start hasCode
          by_contra hnot
          exact hknown (.line hnot)
      | mySqlDashes =>
          rw [hlineEnd] at hspan
          exact Opens.dashes.comment_loop h hspan (Or.inl rfl) _ start hasCode
      | hash =>
          rw [hlineEnd] at hspan
          exact (Opens.hash rfl).comment_loop h hspan (Or.inl rfl) _ start hasCode
      | block =>
          cases dialect with
          | postgres => exact Opens.block.comment_loop h hspan (Or.inr rfl) _ start hasCode
          | mySql =>
              have hnested : Span (CommentEnds true) body rest := by
                by_contra hnot
                exact hknown (.nested hnot)
              exact Opens.block.comment_loop h hnested (Or.inr rfl) _ start hasCode
  | @plain c body _ hnone hspan =>
      by_cases hword : kindOf dialect c = .word
      · obtain ⟨rfl, hstart⟩ := kindOf_eq_word hword
        rw [hword] at hspan hknown ⊢
        obtain ⟨hbody, hrest⟩ := Spans.span_upTo_iff.mp hspan
        have hpart : ∀ a ∈ c :: body, isIdentPart a = true := by
          intro a ha
          rcases List.mem_cons.mp ha with rfl | ha
          · simp [isIdentPart, hstart]
          · simpa using hbody a ha
        have hend : ∀ a, rest.head? = some a → isIdentPart a = false := by
          intro a ha
          simpa using hrest a ha
        refine (word_loop h hpart hend ?_ start hasCode).trans ?_
        · intro before tag after htag heq
          rw [heq] at hknown
          exact hknown (.word htag)
        · simp [Lexeme.shows]
      · obtain rfl : body = [] := span_single (by simpa [KindEnds, hword] using hspan)
        have hsemicolon : c ≠ ';' := by
          rintro rfl
          exact hinside rfl
        by_cases hspace : isSpace c = true
        · have hkind : kindOf dialect c = .space := by simp [kindOf, hsemicolon, hspace]
          have hwhite := isWhitespace_of_isSpace hspace
          refine (splitLoop_piece (scan_blank h hwhite) (by decide)).trans ?_
          simp [Lexeme.shows, hwhite]
        · have hkind : kindOf dialect c = .symbol := by
            unfold kindOf at hword ⊢
            rw [if_neg hsemicolon, if_neg hspace] at hword ⊢
            exact if_neg fun hstart => hword (if_pos hstart)
          rw [hkind] at hknown ⊢
          refine (splitLoop_piece (scan_symbol h hnone hknown) ?_).trans ?_
          · rw [single, if_neg hsemicolon]
            split_ifs <;> exact Piece.noConfusion
          · cases hwhite : isWhitespace c with
            | true => simp [single, Lexeme.shows, hsemicolon, hwhite]
            | false => simp [single, Lexeme.shows, hsemicolon, hwhite]

-- == the cuts

theorem Lexes.text_eq {sql : Text} {lexemes : List Lexeme}
    (h : Lexes dialect context sql lexemes) : textOf lexemes = sql := by
  induction h with
  | nil => rfl
  | cons _ _ ih =>
      rw [textOf, List.flatMap_cons]
      exact congrArg _ ih

/-- No lexeme of a script is misread, each with what comes after it. -/
def NoneMisread (isAlphanumeric : Char → Bool) (dialect : Dialect) (lexemes : List Lexeme) : Prop :=
  ∀ before lexeme after, lexemes = before ++ lexeme :: after →
    ¬ Misread isAlphanumeric dialect lexeme (textOf after)

theorem statements_alone {lexemes : List Lexeme} (h : ∀ l ∈ lexemes, l.kind ≠ .terminator) :
    statements lexemes = if lexemes.any Lexeme.shows then [trim (textOf lexemes)] else [] := by
  rw [statements, List.splitOnP_eq_singleton fun l hl => decide_eq_false (h l hl)]
  cases hshows : lexemes.any Lexeme.shows with
  | true => simp [hshows]
  | false => simp [hshows]

theorem statements_cut {lexemes after : List Lexeme} {terminator : Lexeme}
    (h : ∀ l ∈ lexemes, l.kind ≠ .terminator) (hterminator : terminator.kind = .terminator) :
    statements (lexemes ++ terminator :: after) =
      statements lexemes ++ statements after := by
  rw [statements, List.splitOnP_append_cons_of_forall_mem (fun l hl => decide_eq_false (h l hl))
    terminator (decide_eq_true hterminator), statements_alone h, List.filter_cons]
  cases hshows : lexemes.any Lexeme.shows with
  | true => rfl
  | false => rfl

theorem Reads.terminator {lexeme : Lexeme} {rest : Text} (h : Reads dialect context lexeme rest)
    (hkind : lexeme.kind = .terminator) : lexeme.word = [';'] := by
  cases h with
  | span hbegins => cases hbegins <;> cases hkind
  | @plain c body _ _ hspan =>
      have hterminator : kindOf dialect c = .terminator := hkind
      rw [hterminator] at hspan
      obtain rfl : body = [] := span_single hspan
      by_contra hword
      have hc : c ≠ ';' := by
        rintro rfl
        exact hword rfl
      rw [kindOf, if_neg hc] at hterminator
      split_ifs at hterminator

/-- From within a statement on. -/
theorem Lexes.loop (h : Alphanumeric isAlphanumeric) {sql : Text} {lexemes : List Lexeme}
    (hlexes : Lexes dialect context sql lexemes)
    (hknown : NoneMisread isAlphanumeric dialect lexemes) (before : List Lexeme)
    (hbefore : ∀ l ∈ before, l.kind ≠ .terminator) :
    splitLoop isAlphanumeric dialect (textOf before ++ sql) (before.any Lexeme.shows) sql =
      statements (before ++ lexemes) := by
  induction hlexes generalizing before with
  | nil => rw [splitLoop_nil, List.append_nil, List.append_nil, statements_alone hbefore]
  | @cons context lexeme rest lexemes hreads hlexes ih =>
      have hfirst : ¬ Misread isAlphanumeric dialect lexeme rest := by
        rw [← hlexes.text_eq]
        exact hknown [] lexeme lexemes rfl
      have hlater : NoneMisread isAlphanumeric dialect lexemes :=
        fun before' l after heq => hknown (lexeme :: before') l after (congrArg _ heq)
      by_cases hkind : lexeme.kind = .terminator
      · rw [hreads.terminator hkind, statements_cut hbefore hkind, statements_alone hbefore]
        refine (splitLoop_terminator (scan_semicolon h rest)).trans ?_
        rw [List.singleton_append, upTo_append]
        exact congrArg _ (ih hlater [] (by simp))
      · rw [hreads.loop h hfirst hkind]
        have hmore := ih hlater (before ++ [lexeme]) fun l hl => by
          rcases List.mem_append.mp hl with hl | hl
          · exact hbefore l hl
          · rw [List.mem_singleton.mp hl]
            exact hkind
        simpa [textOf] using hmore

/-- Every script has one reading by the lexical rules, and if no lexeme of it
is misread, it is cut at the semicolons that are lexemes of their own. -/
theorem cuts_at_top_level (h : Alphanumeric isAlphanumeric) (dialect : Dialect) (sql : Text) :
    (∃! lexemes, Lexes dialect .fresh sql lexemes) ∧
      ∀ lexemes, Lexes dialect .fresh sql lexemes →
        NoneMisread isAlphanumeric dialect lexemes →
        splitStatements isAlphanumeric dialect sql = statements lexemes :=
  ⟨exists_unique_lexes sql, fun _ hlexes hknown => hlexes.loop h hknown [] (by simp)⟩

theorem NoneMisread.nil : NoneMisread isAlphanumeric dialect [] := by
  intro before lexeme after heq
  exact absurd heq.symm (List.append_ne_nil_of_right_ne_nil before (List.cons_ne_nil _ _))

theorem NoneMisread.cons {lexeme : Lexeme} {lexemes : List Lexeme}
    (hfirst : ¬ Misread isAlphanumeric dialect lexeme (textOf lexemes))
    (hlater : NoneMisread isAlphanumeric dialect lexemes) :
    NoneMisread isAlphanumeric dialect (lexeme :: lexemes) := by
  intro before l after heq
  cases before with
  | nil =>
      obtain ⟨rfl, rfl⟩ := List.cons.inj heq
      exact hfirst
  | cons b before => exact hlater before l after (List.cons.inj heq).2

/-- A character that is in no opener begins no span. -/
theorem noneBegins_of_head {c : Char} {text : Text}
    (h : c ∉ [quote, 'e', 'E', doubleQuote, '$', backtick, '-', '#', '/']) :
    NoneBegins dialect context (c :: text) := by
  intro kind opener ends after hbegins heq
  refine h ?_
  cases hbegins with
  | escapeString hc =>
      obtain rfl := (List.cons.inj heq).1
      rcases hc with rfl | rfl <;> decide
  | mySqlString hq =>
      obtain rfl := (List.cons.inj heq).1
      rcases hq with rfl | rfl <;> decide
  | _ =>
      rw [← (List.cons.inj heq).1]
      decide

/-- A string with a semicolon in it, after a semicolon. -/
theorem cuts_at_top_level_string :
    splitStatements Char.isAlphanum .postgres ['A', ';', quote, ';', quote] =
      [['A'], [quote, ';', quote]] := by
  have hword : Reads .postgres .fresh ⟨kindOf .postgres 'A', ['A']⟩ [';', quote, ';', quote] :=
    .plain (noneBegins_of_head (by decide)) (Spans.span_upTo_of_test (by decide) (by decide))
  have hsemicolon : Reads .postgres .fresh ⟨kindOf .postgres ';', [';']⟩ [quote, ';', quote] :=
    .plain (noneBegins_of_head (by decide)) (Or.inl rfl)
  have hquoted : Quoted quote false [';', quote] := .plain (by decide) (by decide) .close
  have hstring : Reads .postgres .fresh ⟨.string, [quote] ++ [';', quote]⟩ [] :=
    .span (.string (by decide)) (Or.inl ⟨hquoted, by decide⟩)
  have hlexes : Lexes .postgres .fresh ['A', ';', quote, ';', quote]
      [⟨.word, ['A']⟩, ⟨.terminator, [';']⟩, ⟨.string, [quote, ';', quote]⟩] :=
    .cons hword (.cons hsemicolon (.cons hstring .nil))
  have hknown : NoneMisread Char.isAlphanum .postgres
      [⟨.word, ['A']⟩, ⟨.terminator, [';']⟩, ⟨.string, [quote, ';', quote]⟩] := by
    refine .cons ?_ (.cons nofun (.cons nofun .nil))
    generalize hlexeme : (⟨.word, ['A']⟩ : Lexeme) = lexeme
    intro hmisread
    cases hmisread with
    | @word before tag after =>
        have hdollar : '$' ∈ ['A'] := by
          rw [(Lexeme.mk.inj hlexeme).2]
          simp
        exact absurd hdollar (by decide)
    | _ => cases hlexeme
  exact ((cuts_at_top_level isAlphanum_alphanumeric .postgres _).2 _ hlexes hknown).trans
    (by decide)

/-- A script with an escape string: `SELECT E'\';'`. -/
def escapeScript : Text :=
  ['S', 'E', 'L', 'E', 'C', 'T', ' ', 'E', quote, backslash, quote, ';', quote]

theorem splitLoop_code {c : Char} {start rest : Text} {hasCode : Bool}
    (h : scan isAlphanumeric dialect c rest = (.code, rest)) :
    splitLoop isAlphanumeric dialect start hasCode (c :: rest) =
      splitLoop isAlphanumeric dialect start true rest := by
  rw [splitLoop_piece h (by decide), decide_eq_true rfl, Bool.or_true]

theorem escapeScript_split : splitStatements Char.isAlphanum .postgres escapeScript =
    [['S', 'E', 'L', 'E', 'C', 'T', ' ', 'E', quote, backslash, quote], [quote]] := by
  rw [splitStatements, escapeScript]
  iterate 6 refine (splitLoop_code rfl).trans ?_
  have hspace : scan Char.isAlphanum .postgres ' ' ['E', quote, backslash, quote, ';', quote] =
      (.blank, ['E', quote, backslash, quote, ';', quote]) := rfl
  have hstring : scan Char.isAlphanum .postgres quote [backslash, quote, ';', quote] =
      (.code, [';', quote]) := rfl
  have hcut : scan Char.isAlphanum .postgres ';' [quote] = (.terminator, [quote]) := rfl
  have hlast : scan Char.isAlphanum .postgres quote [] = (.code, []) := rfl
  rw [splitLoop_piece hspace (by decide), splitLoop_code rfl, splitLoop_piece hstring (by decide),
    splitLoop_terminator hcut, splitLoop_code hlast, splitLoop_nil]
  decide

theorem escapeScript_lexes : Lexes .postgres .fresh escapeScript
    [⟨.word, ['S', 'E', 'L', 'E', 'C', 'T']⟩, ⟨.space, [' ']⟩,
      ⟨.escapeString, ['E', quote, backslash, quote, ';', quote]⟩] := by
  have hquoted : Quoted quote true [backslash, quote, ';', quote] :=
    .escaped rfl (.plain (by decide) (by decide) .close)
  have hstring : Reads .postgres .fresh
      ⟨.escapeString, ['E', quote] ++ [backslash, quote, ';', quote]⟩ [] :=
    .span (.escapeString (Or.inr rfl)) (Or.inl ⟨hquoted, by decide⟩)
  have hspace : Reads .postgres .fresh ⟨kindOf .postgres ' ', [' ']⟩
      ['E', quote, backslash, quote, ';', quote] :=
    .plain (noneBegins_of_head (by decide)) (Or.inl rfl)
  have hword : Reads .postgres .fresh ⟨kindOf .postgres 'S', ['S', 'E', 'L', 'E', 'C', 'T']⟩
      [' ', 'E', quote, backslash, quote, ';', quote] :=
    .plain (noneBegins_of_head (by decide)) (Spans.span_upTo_of_test (by decide) (by decide))
  exact .cons hword (.cons hspace (.cons hstring .nil))

/-- An escaped quote in an escape string is taken for its end, and the
semicolon after it cuts the string. -/
theorem escape_string_cut :
    ∃ lexemes, Lexes .postgres .fresh escapeScript lexemes ∧
      splitStatements Char.isAlphanum .postgres escapeScript ≠ statements lexemes := by
  refine ⟨_, escapeScript_lexes, ?_⟩
  rw [escapeScript_split]
  decide


end SqlSplit

end Hammerwork
