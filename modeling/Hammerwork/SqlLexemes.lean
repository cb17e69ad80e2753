/-
The lexical rules of the two dialects, as far as they decide where a
statement ends.

A script is read from its start, one lexeme after another, and every lexeme
is as long as its rule lets it be. Strings, quoted identifiers, comments and
dollar-quoted bodies are spans: from their opening to where they end for the
first time, or to the end of the script if they do not. A semicolon is a
lexeme of its own, and ends a statement.

An escape string of PostgreSQL goes on with a quote on a later line, so the
rules depend on what was read before (`Context`).
-/
import Hammerwork.Lib.Span
import Hammerwork.SqlSplit

namespace Hammerwork

namespace SqlSplit

open PayloadTemplate (isWhitespace trim)
open Spans (Span Skips)

-- == spans

/-- From after an opening quote to the closing one. -/
inductive Quoted (quote : Char) (escapes : Bool) : Text → Prop
  | close : Quoted quote escapes [quote]
  | doubled {body : Text} :
      Quoted quote escapes body → Quoted quote escapes (quote :: quote :: body)
  | escaped {c : Char} {body : Text} :
      escapes = true → Quoted quote escapes body → Quoted quote escapes (backslash :: c :: body)
  | plain {c : Char} {body : Text} :
      c ≠ quote → (escapes = true → c ≠ backslash) → Quoted quote escapes body →
        Quoted quote escapes (c :: body)

/-- From within a comment, and `outer` around it, to the end of the last of
them. Comments are in comments only if they nest. -/
inductive Commented (nested : Bool) : (outer : Nat) → Text → Prop
  | close : Commented nested 0 ['*', '/']
  | inner {outer : Nat} {body : Text} :
      Commented nested outer body → Commented nested (outer + 1) ('*' :: '/' :: body)
  | opened {outer : Nat} {body : Text} :
      nested = true → Commented nested (outer + 1) body →
        Commented nested outer ('/' :: '*' :: body)
  | plain {outer : Nat} {c : Char} {body : Text} :
      (c = '*' → body.head? ≠ some '/') →
        (nested = true → c = '/' → body.head? ≠ some '*') →
        Commented nested outer body → Commented nested outer (c :: body)

/-- To the first `tag`. -/
inductive Tagged (tag : Text) : Text → Prop
  | here : Tagged tag tag
  | later {c : Char} {body : Text} :
      ¬ tag <+: c :: body → Tagged tag body → Tagged tag (c :: body)

/-- A quote is the closing one only if it is not doubled. -/
def QuoteEnds (quote : Char) (escapes : Bool) (word rest : Text) : Prop :=
  Quoted quote escapes word ∧ rest.head? ≠ some quote

def CommentEnds (nested : Bool) (word _rest : Text) : Prop := Commented nested 0 word

def BodyEnds (tag : Text) (word _rest : Text) : Prop := Tagged tag word

-- == characters

/-- White space of both dialects. -/
def isSpace (c : Char) : Bool := (9 ≤ c.toNat && c.toNat ≤ 13) || c = ' '

/-- The end of a line comment. -/
def isNewline (dialect : Dialect) (c : Char) : Bool :=
  c = '\n' || (dialect = .postgres && c = '\r')

/-- A letter of a PostgreSQL identifier, and of the tag of a dollar quote. -/
def isIdentStart (c : Char) : Bool := c.isAlpha || c = '_' || 128 ≤ c.toNat

def isIdentPart (c : Char) : Bool := isIdentStart c || c.isDigit || c = '$'

/-- The tags of dollar quotes. -/
def DollarTag (tag : Text) : Prop :=
  (∀ c ∈ tag, isIdentStart c = true ∨ c.isDigit = true) ∧ tag.head?.any Char.isDigit = false

/-- After two dashes on MySQL, what makes them a comment. -/
def SpaceFollows (text : Text) : Prop :=
  ∀ c, text.head? = some c → c.toNat ≤ 32 ∨ c.toNat = 127

-- == lexemes

inductive Kind where
  | terminator
  | space
  | lineComment
  | blockComment
  | string
  | escapeString
  | dollarQuoted
  | word
  | symbol
  deriving DecidableEq

structure Lexeme where
  kind : Kind
  word : Text

/-- Whether an escape string was read last, and whether a line has ended
since. -/
inductive Context where
  | fresh
  | ended
  | continued
  deriving DecidableEq

/-- The context after a lexeme. Comments to the end of a line do not change
it. -/
def Context.after (context : Context) (lexeme : Lexeme) : Context :=
  match lexeme.kind with
  | .escapeString => .ended
  | .lineComment => context
  | .space =>
      match context with
      | .ended => if lexeme.word.any (isNewline .postgres) then .continued else .ended
      | context => context
  | _ => .fresh

/-- What begins a span, of what kind it is and where it ends. `after` is the
text after the opener. -/
inductive Begins : Dialect → Context → Kind → (opener : Text) → (Text → Text → Prop) →
    (after : Text) → Prop
  | string {context : Context} {after : Text} : context ≠ .continued →
      Begins .postgres context .string [quote] (QuoteEnds quote false) after
  | continuedString {after : Text} :
      Begins .postgres .continued .escapeString [quote] (QuoteEnds quote true) after
  | escapeString {context : Context} {c : Char} {after : Text} : c = 'e' ∨ c = 'E' →
      Begins .postgres context .escapeString [c, quote] (QuoteEnds quote true) after
  | identifier {context : Context} {after : Text} :
      Begins .postgres context .string [doubleQuote] (QuoteEnds doubleQuote false) after
  | dollarQuote {context : Context} {tag after : Text} : DollarTag tag →
      Begins .postgres context .dollarQuoted ('$' :: tag ++ ['$'])
        (BodyEnds ('$' :: tag ++ ['$'])) after
  | mySqlString {context : Context} {q : Char} {after : Text} : q = quote ∨ q = doubleQuote →
      Begins .mySql context .string [q] (QuoteEnds q true) after
  | backtick {context : Context} {after : Text} :
      Begins .mySql context .string [backtick] (QuoteEnds backtick false) after
  | dashes {context : Context} {after : Text} :
      Begins .postgres context .lineComment ['-', '-'] (Spans.UpTo (isNewline .postgres)) after
  | mySqlDashes {context : Context} {after : Text} : SpaceFollows after →
      Begins .mySql context .lineComment ['-', '-'] (Spans.UpTo (isNewline .mySql)) after
  | hash {context : Context} {after : Text} :
      Begins .mySql context .lineComment ['#'] (Spans.UpTo (isNewline .mySql)) after
  | block {dialect : Dialect} {context : Context} {after : Text} :
      Begins dialect context .blockComment ['/', '*'] (CommentEnds (dialect = .postgres)) after

/-- No span begins with `text`. -/
def NoneBegins (dialect : Dialect) (context : Context) (text : Text) : Prop :=
  ∀ kind opener ends after, Begins dialect context kind opener ends after →
    opener ++ after ≠ text

/-- The kind of a lexeme that is not a span, by its first character. -/
def kindOf (dialect : Dialect) (c : Char) : Kind :=
  if c = ';' then .terminator
  else if isSpace c then .space
  else if dialect = .postgres && isIdentStart c then .word
  else .symbol

/-- Where a lexeme that is not a span ends, after its first character. -/
def KindEnds (kind : Kind) : Text → Text → Prop :=
  if kind = .word then Spans.UpTo fun c => ! isIdentPart c else fun word _ => word = []

/-- The lexeme before `rest`. -/
inductive Reads (dialect : Dialect) (context : Context) : Lexeme → (rest : Text) → Prop
  | span {kind : Kind} {opener body rest : Text} {ends : Text → Text → Prop} :
      Begins dialect context kind opener ends (body ++ rest) → Span ends body rest →
        Reads dialect context ⟨kind, opener ++ body⟩ rest
  | plain {c : Char} {body rest : Text} :
      NoneBegins dialect context (c :: (body ++ rest)) →
        Span (KindEnds (kindOf dialect c)) body rest →
        Reads dialect context ⟨kindOf dialect c, c :: body⟩ rest

/-- The lexemes of a script. -/
inductive Lexes (dialect : Dialect) : Context → (sql : Text) → List Lexeme → Prop
  | nil {context : Context} : Lexes dialect context [] []
  | cons {context : Context} {lexeme : Lexeme} {rest : Text} {lexemes : List Lexeme} :
      Reads dialect context lexeme rest → Lexes dialect (context.after lexeme) rest lexemes →
        Lexes dialect context (lexeme.word ++ rest) (lexeme :: lexemes)

-- == statements

/-- A statement has to have something other than comments and white space. -/
def Lexeme.shows (lexeme : Lexeme) : Bool :=
  lexeme.kind ≠ .lineComment && lexeme.kind ≠ .blockComment &&
    lexeme.word.any fun c => ! isWhitespace c

def textOf (lexemes : List Lexeme) : Text := lexemes.flatMap Lexeme.word

/-- The statements between the semicolons. -/
def statements (lexemes : List Lexeme) : List Text :=
  ((lexemes.splitOnP fun lexeme => lexeme.kind = .terminator).filter
    fun part => part.any Lexeme.shows).map fun part => trim (textOf part)

end SqlSplit

end Hammerwork
