/-
Splitting a migration script into its statements.

The scanner goes over the script once. It skips quoted text, comments and, on
PostgreSQL, dollar-quoted bodies, each from its first character to the one
after its last; a semicolon between them ends a statement. Statements with
nothing but comments are dropped, and the others are trimmed.

The rest of the script stands for the scanner's position. Which characters
are alphanumeric is a table of the Unicode standard; it is a parameter, and
what is used of it is `Alphanumeric`.
-/
import Hammerwork.PayloadTemplate

namespace Hammerwork

namespace SqlSplit

open PayloadTemplate (isWhitespace trim)

abbrev Text := List Char

/-- The dialects, which differ in where a statement can end. -/
inductive Dialect where
  | postgres
  | mySql
  deriving DecidableEq

/-- What a table of alphanumeric characters has of ASCII, and that it has no
white space. -/
structure Alphanumeric (isAlphanumeric : Char → Bool) : Prop where
  ascii : ∀ c : Char, c.toNat < 128 → isAlphanumeric c = c.isAlphanum
  whitespace : ∀ c, isWhitespace c = true → isAlphanumeric c = false

/-- The quote of a string. -/
def quote : Char := '\x27'

/-- The quote of an identifier, and of a string on MySQL. -/
def doubleQuote : Char := '\x22'

def backslash : Char := '\x5c'

/-- The quote of a MySQL identifier. -/
def backtick : Char := '\x60'

-- == skipping

/-- After the closing quote, from after the opening one. A doubled quote is
an escaped one, and so may be the character after a backslash. -/
def skipQuoted (quote : Char) (backslashEscapes : Bool) : Text → Text
  | [] => []
  | [_] => []
  | c :: next :: rest =>
      if c = backslash && backslashEscapes then
        skipQuoted quote backslashEscapes rest
      else if c = quote then
        if next = quote then skipQuoted quote backslashEscapes rest else next :: rest
      else
        skipQuoted quote backslashEscapes (next :: rest)

/-- At the end of the line. -/
def skipLine (text : Text) : Text := text.dropWhile (· ≠ '\n')

/-- After the end of a comment, from within `depth` of them. -/
def skipBlockComment : (depth : Nat) → Text → Text
  | _, [] => []
  | _, [_] => []
  | depth, c :: next :: rest =>
      if c = '/' && next = '*' then
        skipBlockComment (depth + 1) rest
      else if c = '*' && next = '/' then
        if depth - 1 = 0 then rest else skipBlockComment (depth - 1) rest
      else
        skipBlockComment depth (next :: rest)

/-- After the first `tag`. -/
def skipBody (tag : Text) : Text → Text
  | [] => []
  | c :: rest =>
      if tag.isPrefixOf (c :: rest) then (c :: rest).drop tag.length else skipBody tag rest

variable (isAlphanumeric : Char → Bool) (dialect : Dialect)

/-- A character of the tag of a dollar quote. -/
def isTagChar (c : Char) : Bool := isAlphanumeric c || c = '_'

/-- After a dollar-quoted body, from after its first dollar sign, if there
is one. -/
def skipDollarQuoted (text : Text) : Option Text :=
  let tag := text.takeWhile (isTagChar isAlphanumeric)
  match text.dropWhile (isTagChar isAlphanumeric) with
  | c :: body =>
      if c ≠ '$' then
        none
      else if tag.head?.any Char.isDigit then
        -- a tag cannot start with a digit
        none
      else
        some (skipBody ('$' :: tag ++ ['$']) body)
  | [] => none

-- == the loop

/-- What the scanner takes a piece of the script for. -/
inductive Piece where
  | code
  | comment
  | blank
  | terminator
  deriving DecidableEq

/-- The piece that `c` begins, and what comes after it. -/
def scan (c : Char) (rest : Text) : Piece × Text :=
  if c = quote || c = doubleQuote then
    (.code, skipQuoted c (dialect = .mySql) rest)
  else if c = backtick && dialect = .mySql then
    (.code, skipQuoted backtick false rest)
  else if c = '-' && rest.head? = some '-' then
    (.comment, skipLine (c :: rest))
  else if c = '#' && dialect = .mySql then
    (.comment, skipLine (c :: rest))
  else if c = '/' && rest.head? = some '*' then
    (.comment, skipBlockComment 0 (c :: rest))
  else if c = '$' && dialect = .postgres then
    (.code, (skipDollarQuoted isAlphanumeric rest).getD rest)
  else if c = ';' then
    (.terminator, rest)
  else if isWhitespace c then
    (.blank, rest)
  else
    (.code, rest)

/-- What is left is an end of the text. -/
theorem skipQuoted_suffix (quote : Char) (escapes : Bool) (text : Text) :
    skipQuoted quote escapes text <:+ text := by
  fun_induction skipQuoted quote escapes text with
  | case1 => exact List.suffix_refl _
  | case2 => exact List.nil_suffix
  | case3 c next rest _ ih => exact ih.trans (List.suffix_append [c, next] rest)
  | case4 c rest ih => exact ih.trans (List.suffix_append [_, _] _)
  | case5 c next rest => exact List.suffix_append [_] _
  | case6 c next rest _ _ ih => exact ih.trans (List.suffix_append [_] _)

theorem skipBlockComment_suffix (depth : Nat) (text : Text) :
    skipBlockComment depth text <:+ text := by
  fun_induction skipBlockComment depth text with
  | case1 => exact List.suffix_refl _
  | case2 => exact List.nil_suffix
  | case3 _ c next rest _ ih => exact ih.trans (List.suffix_append [c, next] rest)
  | case4 _ c next rest => exact List.suffix_append [c, next] rest
  | case5 _ c next rest _ _ _ ih => exact ih.trans (List.suffix_append [c, next] rest)
  | case6 _ c next rest _ _ ih => exact ih.trans (List.suffix_append [c] _)

theorem skipBody_suffix (tag text : Text) : skipBody tag text <:+ text := by
  induction text with
  | nil => exact List.suffix_refl _
  | cons c rest ih =>
      rw [skipBody]
      split
      · exact List.drop_suffix _ _
      · exact ih.trans (List.suffix_cons c rest)

theorem skipLine_suffix (text : Text) : skipLine text <:+ text := List.dropWhile_suffix _

theorem skipDollarQuoted_suffix {isAlphanumeric : Char → Bool} {text left : Text}
    (skipped : skipDollarQuoted isAlphanumeric text = some left) : left <:+ text := by
  simp only [skipDollarQuoted] at skipped
  split at skipped
  case h_1 c body h =>
    split_ifs at skipped
    cases skipped
    refine (skipBody_suffix _ _).trans ?_
    exact (List.suffix_cons c body).trans (h ▸ List.dropWhile_suffix _)
  case h_2 => cases skipped

theorem skipLine_cons {c : Char} (inline : c ≠ '\n') (rest : Text) :
    skipLine (c :: rest) = skipLine rest := by
  simp [skipLine, inline]

theorem skipBlockComment_open (depth : Nat) (rest : Text) :
    skipBlockComment depth ('/' :: '*' :: rest) = skipBlockComment (depth + 1) rest := by
  simp [skipBlockComment]

/-- Every piece has its first character. -/
theorem scan_suffix (c : Char) (rest : Text) :
    (scan isAlphanumeric dialect c rest).2 <:+ rest := by
  unfold scan
  split_ifs with quoted backticked dashes hash block dollar
  · exact skipQuoted_suffix _ _ _
  · exact skipQuoted_suffix _ _ _
  · obtain ⟨rfl, -⟩ : c = '-' ∧ rest.head? = some '-' := by simpa using dashes
    show skipLine ('-' :: rest) <:+ rest
    rw [skipLine_cons (by decide)]
    exact skipLine_suffix rest
  · obtain ⟨rfl, -⟩ : c = '#' ∧ dialect = .mySql := by simpa using hash
    show skipLine ('#' :: rest) <:+ rest
    rw [skipLine_cons (by decide)]
    exact skipLine_suffix rest
  · obtain ⟨rfl, star⟩ : c = '/' ∧ rest.head? = some '*' := by simpa using block
    obtain ⟨rest, rfl⟩ := List.head?_eq_some_iff.mp star
    show skipBlockComment 0 ('/' :: '*' :: rest) <:+ '*' :: rest
    rw [skipBlockComment_open]
    exact (skipBlockComment_suffix _ _).trans (List.suffix_cons _ _)
  · cases h : skipDollarQuoted isAlphanumeric rest with
    | none => exact List.suffix_refl _
    | some left => exact skipDollarQuoted_suffix h
  · exact List.suffix_refl _
  · exact List.suffix_refl _
  · exact List.suffix_refl _

/-- The text of `start` before `text`. -/
def upTo (start text : Text) : Text := start.take (start.length - text.length)

/-- Goes over `text`, the end of `start`, where the statement begins. -/
def splitLoop (start : Text) (hasCode : Bool) (text : Text) : List Text :=
  match text with
  | [] => if hasCode then [trim start] else []
  | c :: rest =>
      match _scanned : scan isAlphanumeric dialect c rest with
      | (.terminator, left) =>
          let statements := splitLoop left false left
          if hasCode then trim (upTo start (c :: rest)) :: statements else statements
      | (.code, left) => splitLoop start true left
      | (.comment, left) => splitLoop start hasCode left
      | (.blank, left) => splitLoop start hasCode left
termination_by text.length
decreasing_by
  all_goals
    have := (scan_suffix isAlphanumeric dialect c rest).length_le
    rw [_scanned] at this
    exact Nat.lt_succ_of_le this

/-- The statements of a script, each without its terminating semicolon. -/
def splitStatements (sql : Text) : List Text := splitLoop isAlphanumeric dialect sql false sql

end SqlSplit

end Hammerwork
