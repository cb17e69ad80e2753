/-
Templates of webhook payloads.

A template is a JSON value whose strings may hold placeholders: a path between
double braces. Rendering it replaces the placeholders by what their paths lead
to in the event. A string that is a single placeholder becomes that value; in
a longer string the value is inserted as text.

The texts of JSON values and the serialization of an event are those of
another library (`Serde`).
-/
import Hammerwork.Events
import Hammerwork.Redaction
import Mathlib.Data.List.DropRight

namespace Hammerwork

namespace PayloadTemplate

/-- Of the errors of the library, those of templates. -/
inductive TemplateError where
  | config (message : String)
  | serialization (message : String)
  deriving DecidableEq, Repr

/-- The JSON of another library: its parser, the value of an event, and the
text of a value. -/
structure Serde where
  fromStr : String → Except String Json
  toValue : JobLifecycleEvent → Except String Json
  toText : Json → String

/-- One piece of a template string. -/
inductive TemplatePart where
  | text (text : String)
  | placeholder (path : List String)
  deriving DecidableEq, Repr

-- == strings

/-- The characters with the property White_Space. -/
def isWhitespace (c : Char) : Bool :=
  let n := c.toNat
  (9 ≤ n && n ≤ 13) || n = 32 || n = 133 || n = 160 || n = 5760 || (8192 ≤ n && n ≤ 8202) ||
    n = 8232 || n = 8233 || n = 8239 || n = 8287 || n = 12288

def trim (text : List Char) : List Char := (text.dropWhile isWhitespace).rdropWhile isWhitespace

def openBrace : Char := '\x7b'

def closeBrace : Char := '\x7d'

/-- What comes before the first two `c` in a row, and what after them. -/
def findPair (c : Char) : List Char → Option (List Char × List Char)
  | a :: b :: rest =>
      if a = c ∧ b = c then some ([], rest)
      else (findPair c (b :: rest)).map fun found => (a :: found.1, found.2)
  | _ => none

theorem findPair_length {c : Char} {text before after : List Char}
    (h : findPair c text = some (before, after)) : after.length < text.length := by
  induction text generalizing before with
  | nil => cases h
  | cons a text ih =>
      cases text with
      | nil => cases h
      | cons b rest =>
          rw [findPair] at h
          split at h
          case isTrue =>
            cases h
            rw [List.length_cons, List.length_cons]
            omega
          case isFalse =>
            obtain ⟨found, hfound, heq⟩ := Option.map_eq_some_iff.1 h
            cases heq
            have hless := ih hfound
            rw [List.length_cons]
            omega

/-- The segments of what stands between the braces. -/
def parsePath (inner : List Char) : List String :=
  ((trim inner).splitOn '.').map fun segment => String.ofList (trim segment)

/-- Text, if there is any. -/
def textPart (text : List Char) : List TemplatePart :=
  if text.isEmpty then [] else [.text (String.ofList text)]

/-- The parts of what is left of a string, unless some braces are not
closed. -/
def splitRest (rest : List Char) : Option (List TemplatePart) :=
  match _hopen : findPair openBrace rest with
  | none => some (textPart rest)
  | some (before, after) =>
      match hclose : findPair closeBrace after with
      | none => none
      | some (inner, rest) =>
          (splitRest rest).map fun parts =>
            textPart before ++ .placeholder (parsePath inner) :: parts
  termination_by rest.length
  decreasing_by exact Nat.lt_trans (findPair_length hclose) (findPair_length _hopen)

/-- Split a template string into text and placeholders. -/
def split (text : String) : Except TemplateError (List TemplatePart) :=
  match splitRest text.toList with
  | some parts => .ok parts
  | none =>
      .error (.config ("payload_template: unterminated '\x7b\x7b' in \"" ++ text ++ "\""))

-- == parsing

/-- The error of a path that leads nowhere. -/
def unknownPlaceholder (path : List String) : TemplateError :=
  .config ("payload_template: unknown placeholder '\x7b\x7b" ++ ".".intercalate path
    ++ "\x7d\x7d'")

/-- The fields of an event that hold no others. -/
def plainFields : List String :=
  ["event_id", "job_id", "queue_name", "event_type", "priority", "timestamp",
    "processing_time_ms"]

def errorFields : List String := ["message", "error_type", "details", "retry_attempt"]

def validatePath (path : List String) : Except TemplateError Unit :=
  if path.any (·.isEmpty) then
    .error (unknownPlaceholder path)
  else
    match path with
    | ["event"] => .ok ()
    | "event" :: field :: rest =>
        if field ∈ plainFields ∧ rest = [] then .ok ()
        else if field = "error" then
          match rest with
          | [] => .ok ()
          | [name] => if name ∈ errorFields then .ok () else .error (unknownPlaceholder path)
          | _ => .error (unknownPlaceholder path)
        else if field = "metadata" ∧ rest.length ≤ 1 then .ok ()
        else if field = "payload" then .ok ()
        else .error (unknownPlaceholder path)
    | _ => .error (unknownPlaceholder path)

/-- Validate the paths among some parts. -/
def validateParts : List TemplatePart → Except TemplateError Unit
  | [] => .ok ()
  | .text _ :: parts => validateParts parts
  | .placeholder path :: parts => do
      validatePath path
      validateParts parts

mutual

def validateValue : Json → Except TemplateError Unit
  | .string text => do validateParts (← split text)
  | .array items => validateItems items
  | .object members => validateMembers members
  | .null => .ok ()
  | .bool _ => .ok ()
  | .number _ => .ok ()

def validateItems : List Json → Except TemplateError Unit
  | [] => .ok ()
  | item :: items => do
      validateValue item
      validateItems items

def validateMembers : List (String × Json) → Except TemplateError Unit
  | [] => .ok ()
  | (key, value) :: members => do
      if contains key "\x7b\x7b" then
        .error (.config
          ("payload_template: placeholders are not allowed in object keys ('" ++ key ++ "')"))
      else
        validateValue value
        validateMembers members

end

-- == rendering

/-- A number written in decimal, as the standard library reads one. -/
def parseUsize (text : String) : Option Nat :=
  let digits : List Char :=
    match text.toList with
    | '+' :: rest => rest
    | digits => digits
  let value := digits.foldl (fun value digit => 10 * value + (digit.toNat - 48)) 0
  if digits ≠ [] ∧ digits.all (·.isDigit) ∧ value < 18446744073709551616 then some value else none

/-- One step down. -/
def descend (value : Json) (segment : String) : Option Json :=
  match value with
  | .object members => members.lookup segment
  | .array items => (parseUsize segment).bind fun i => items[i]?
  | _ => none

/-- What a path leads to, from the event on. -/
def lookup (event : Json) (path : List String) : Option Json :=
  match path with
  | [] => none
  | _ :: segments => segments.foldlM descend event

variable (serde : Serde)

/-- What is inserted for a part of a longer string. -/
def partText (event : Json) : TemplatePart → String
  | .text text => text
  | .placeholder path =>
      match lookup event path with
      | none => ""
      | some .null => ""
      | some (.string text) => text
      | some value => serde.toText value

/-- Render the parts of a string. -/
def renderParts (event : Json) (parts : List TemplatePart) : Json :=
  match parts with
  | [.placeholder path] => (lookup event path).getD .null
  | parts => .string (parts.foldl (fun rendered part => rendered ++ partText serde event part) "")

def renderString (text : String) (event : Json) : Json :=
  match split text with
  | .ok parts => renderParts serde event parts
  | .error _ => .string text

mutual

def renderValue (event : Json) : Json → Json
  | .string text => renderString serde text event
  | .array items => .array (renderItems event items)
  | .object members => .object (renderMembers event members)
  | .null => .null
  | .bool b => .bool b
  | .number text => .number text

def renderItems (event : Json) : List Json → List Json
  | [] => []
  | item :: items => renderValue event item :: renderItems event items

def renderMembers (event : Json) : List (String × Json) → List (String × Json)
  | [] => []
  | (key, value) :: members => (key, renderValue event value) :: renderMembers event members

end

/-- A template that was validated. -/
structure Template where
  root : Json
  valid : validateValue root = .ok ()

/-- Parse and validate a template. -/
def parse (template : String) : Except TemplateError Template :=
  match serde.fromStr template with
  | .error e => .error (.config ("payload_template is not valid JSON: " ++ e))
  | .ok root =>
      match hvalid : validateValue root with
      | .error e => .error e
      | .ok () => .ok ⟨root, hvalid⟩

/-- Render a template for an event. -/
def Template.render (template : Template) (event : JobLifecycleEvent) :
    Except TemplateError Json := do
  let eventValue ←
    match serde.toValue event with
    | .ok value => .ok value
    | .error e => .error (.serialization e)
  return renderValue serde eventValue template.root

end PayloadTemplate

end Hammerwork
