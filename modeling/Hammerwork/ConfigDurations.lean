/-
Durations in configuration files, as text.

There are two formats. `serde_duration` reads and writes the unsigned
durations of the standard library, down to milliseconds; a bare number is
seconds. `chrono_duration_days` does so with signed spans, down to
seconds; a bare number is days, and a negative one is refused.

Reading cuts the unit off a text by its length in bytes. That is a panic
where a character is cut in two (`Parsed.panicked`). Texts are lists of
characters, and what has been read from a table or a number is given as
it is (`Repr`).
-/
import Hammerwork.PayloadTemplate
import Hammerwork.Retry
import Mathlib.Algebra.Order.Ring.Int

namespace Hammerwork

namespace ConfigDurations

open PayloadTemplate (trim)
open Retry (maxDuration fromMillis)

/-- What comes of reading a text. -/
inductive Parsed (α : Type) where
  | value (a : α)
  | error (message : String)
  | panicked
  deriving DecidableEq

-- == numbers

/-- The number that decimal digits write. -/
def parseDigits (digits : List Char) : Option Nat :=
  if digits ≠ [] ∧ digits.all (·.isDigit) then some (Nat.ofDigitChars 10 digits 0) else none

/-- `text.parse::<u64>()`. -/
def parseU64 (text : List Char) : Option Nat :=
  let digits := match text with
    | '+' :: digits => digits
    | digits => digits
  (parseDigits digits).filter (· < 2 ^ 64)

/-- `text.parse::<i64>()`. -/
def parseI64 (text : List Char) : Option Int :=
  match text with
  | '-' :: digits => ((parseDigits digits).filter (· ≤ 2 ^ 63)).map fun n : Nat => -(n : Int)
  | '+' :: digits => ((parseDigits digits).filter (· < 2 ^ 63)).map Int.ofNat
  | digits => ((parseDigits digits).filter (· < 2 ^ 63)).map Int.ofNat

/-- A number as it is written. -/
def digitsOf (n : Nat) : List Char := Nat.toDigits 10 n

-- == cutting off

/-- The length of a text in bytes. -/
def byteLen (text : List Char) : Nat := (text.map Char.utf8Size).sum

/-- `s.split_at(s.len() - 1)`: all but the last byte, and that; nothing
where it is not a character. -/
def splitLast (s : List Char) : Option (List Char × Char) :=
  match s.getLast? with
  | some c => if c.utf8Size = 1 then some (s.dropLast, c) else none
  | none => none

/-- `s.strip_suffix("ms")`. -/
def stripMs (s : List Char) : Option (List Char) :=
  if ['m', 's'] <:+ s then some (s.take (s.length - 2)) else none

-- == serde_duration

def fromSecs (secs : Nat) : Duration := secs * 1000000000

def checkedSecs (num unit : Nat) : Parsed Duration :=
  if num * unit < 2 ^ 64 then .value (fromSecs (num * unit))
  else .error s!"Duration too large: {num} x {unit}s"

/-- Parse a duration string like "500ms", "30s", "5m", "1h", "90". -/
def parseDuration (s : List Char) : Parsed Duration :=
  let s := trim s
  match parseU64 s with
  | some secs => .value (fromSecs secs)
  | none =>
      match stripMs s with
      | some millis =>
          match parseU64 (trim millis) with
          | some millis => .value (fromMillis millis)
          | none => .error s!"Invalid number in duration: {String.ofList millis}"
      | none =>
          if byteLen s < 2 then
            .error s!"Invalid duration format: {String.ofList s}"
          else
            match splitLast s with
            | none => .panicked
            | some (numStr, suffix) =>
                match parseU64 numStr with
                | none => .error s!"Invalid number in duration: {String.ofList numStr}"
                | some num =>
                    match suffix with
                    | 's' => .value (fromSecs num)
                    | 'm' => checkedSecs num 60
                    | 'h' => checkedSecs num 3600
                    | 'd' => checkedSecs num 86400
                    | _ => .error s!"Invalid duration suffix: {suffix}. Use s, m, h, or d"

/-- What a duration is read from. -/
inductive Repr where
  | text (s : List Char)
  | seconds (secs : Nat)
  | table (secs nanos : Nat)

def deserialize : Repr → Parsed Duration
  | .text s => parseDuration s
  | .seconds secs => .value (fromSecs secs)
  | .table secs nanos =>
      if nanos ≥ 1000000000 then .error "nanos must be below 1000000000"
      else .value (fromSecs secs + nanos)

/-- The text a duration is written as. -/
def serialize (duration : Duration) : List Char :=
  let secs := duration / 1000000000
  if duration % 1000000000 ≠ 0 then
    -- sub-second precision is kept in milliseconds
    digitsOf (max (duration / 1000000) 1) ++ ['m', 's']
  else if secs = 0 then
    ['0', 's']
  else if secs % 3600 = 0 then
    digitsOf (secs / 3600) ++ ['h']
  else if secs % 60 = 0 then
    digitsOf (secs / 60) ++ ['m']
  else
    digitsOf secs ++ ['s']

-- == chrono_duration_days

/-- `chrono::Duration::try_seconds`. -/
def trySeconds (secs : Int) : Option TimeDelta :=
  if -maxTimeDelta ≤ secs * 1000000000 ∧ secs * 1000000000 ≤ maxTimeDelta then
    some (secs * 1000000000)
  else
    none

/-- `num.checked_mul(unit_secs)` in 64 bits. -/
def checkedMul (num unit : Int) : Option Int :=
  if -2 ^ 63 ≤ num * unit ∧ num * unit < 2 ^ 63 then some (num * unit) else none

/-- The seconds of a unit. -/
def unitSecs : Char → Option Int
  | 'd' => some 86400
  | 'h' => some 3600
  | 'm' => some 60
  | 's' => some 1
  | _ => none

/-- The span of `num` units, from the text `s`. -/
def chronoOf (s numStr : List Char) (unit : Int) : Parsed TimeDelta :=
  match parseI64 numStr with
  | none => .error s!"Invalid number in duration: {String.ofList numStr}"
  | some num =>
      if num < 0 then
        .error s!"Duration must not be negative: {String.ofList s}"
      else
        match (checkedMul num unit).bind trySeconds with
        | some duration => .value duration
        | none => .error s!"Duration too large: {String.ofList s}"

/-- Parse a duration string like "30d", "12h", "90m", "45s" or "7"
(days). -/
def parseChronoDuration (s : List Char) : Parsed TimeDelta :=
  let s := trim s
  if (parseI64 s).isSome then
    chronoOf s s 86400
  else if byteLen s < 2 then
    .error s!"Invalid duration format: {String.ofList s}"
  else
    match splitLast s with
    | none => .panicked
    | some (numStr, suffix) =>
        match unitSecs suffix with
        | some unit => chronoOf s numStr unit
        | none => .error s!"Invalid duration suffix: {suffix}. Use d, h, m or s"

/-- A signed number as it is written. -/
def intDigitsOf (n : Int) : List Char :=
  if n < 0 then '-' :: digitsOf n.natAbs else digitsOf n.natAbs

/-- `duration` in the largest of d/h/m/s that holds it exactly, without
its sub-second part. -/
def formatChronoDuration (duration : TimeDelta) : List Char :=
  let secs := duration.tdiv 1000000000
  if secs.tmod 86400 = 0 then
    intDigitsOf (secs.tdiv 86400) ++ ['d']
  else if secs.tmod 3600 = 0 then
    intDigitsOf (secs.tdiv 3600) ++ ['h']
  else if secs.tmod 60 = 0 then
    intDigitsOf (secs.tdiv 60) ++ ['m']
  else
    intDigitsOf secs ++ ['s']

end ConfigDurations

end Hammerwork
