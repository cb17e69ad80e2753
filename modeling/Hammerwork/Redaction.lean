/-
Per-field encryption of a JSON payload.

The scanner lists the paths of the object keys that look personal, and
the redactor takes the value out of each listed path. The two read a path
their own way. The scanner writes one down as it descends, through arrays
as well as objects. The redactor looks for a top-level key equal to the
whole path, and failing that follows its segments through nested objects
only; a path it cannot follow is passed over.
-/
import Hammerwork.Job
import Mathlib.Data.List.Infix

namespace Hammerwork

-- == the key names

/-- Whether `pattern` occurs in `text`. -/
def contains (text pattern : String) : Bool :=
  decide (pattern.toList <:+: text.toList)

/-- `text` without its underscores. -/
def withoutUnderscores (text : String) : String :=
  String.ofList (text.toList.filter (· ≠ '_'))

/-- The key names taken for personal data. -/
def piiPatterns : List String :=
  ["ssn", "social_security", "social_security_number", "credit_card",
    "credit_card_number", "card_number", "cc_number", "email",
    "email_address", "e_mail", "phone", "phone_number", "telephone",
    "mobile", "passport", "passport_number", "driver_license",
    "drivers_license", "license_number", "bank_account",
    "account_number", "routing_number", "password", "secret",
    "private_key", "address", "street_address", "home_address",
    "date_of_birth", "birth_date", "dob", "tax_id", "taxpayer_id", "ein"]

section

variable (toLowercase : String → String)

/-- Whether a key looks personal, with or without its underscores. -/
def isPiiKey (key : String) : Bool :=
  let keyLower := toLowercase key
  piiPatterns.any fun pattern =>
    contains keyLower pattern ||
      contains (withoutUnderscores keyLower) (withoutUnderscores pattern)

-- == the scanner

/-- The path of the key `key` of the object at `path`. -/
def memberPath (path key : String) : String :=
  if path.isEmpty then key else path ++ "." ++ key

/-- The path of the item `i` of the array at `path`. -/
def itemPath (path : String) (i : Nat) : String :=
  path ++ "[" ++ toString i ++ "]"

mutual

/-- The paths pushed by a scan of the value at `path`. -/
def scanObjectForPii : Json → String → List String
  | .object members, path => scanMembers members path
  | .array items, path => scanItems items path 0
  | _, _ => []

/-- Each key is pushed before what lies under it. -/
def scanMembers : List (String × Json) → String → List String
  | [], _ => []
  | (key, value) :: members, path =>
      (if isPiiKey toLowercase key then [memberPath path key] else []) ++
        scanObjectForPii value (memberPath path key) ++ scanMembers members path

/-- The items of an array, from the position `i` on. -/
def scanItems : List Json → String → Nat → List String
  | [], _, _ => []
  | item :: items, path, i =>
      scanObjectForPii item (itemPath path i) ++ scanItems items path (i + 1)

end

/-- The paths of the personal fields of a payload. -/
def identifyPiiFields (payload : Json) : List String :=
  scanObjectForPii toLowercase payload ""

end

-- == the redactor

namespace Json

/-- One step down: into a member of an object, or an item of an array. -/
inductive Step where
  | key (name : String)
  | index (i : Nat)
  deriving DecidableEq, Repr

/-- The value some steps below another. -/
def get? : List Step → Json → Option Json
  | [], value => some value
  | .key name :: rest, .object members => (members.lookup name).bind (get? rest)
  | .index i :: rest, .array items => items[i]?.bind (get? rest)
  | _ :: _, _ => none

/-- The value with the one under the keys of `place` replaced. -/
def put : Json → List String → Json → Json
  | _, [], new => new
  | .object members, key :: rest, new =>
      .object (members.map fun m => if m.1 = key then (m.1, put m.2 rest new) else m)
  | value, _ :: _, _ => value

/-- The keys that lead to the slot `resolve_mut` finds for a path: the
top-level key equal to it, otherwise its segments. -/
def resolve (value : Json) (path : String) : Option (List String) :=
  match value with
  | .object members =>
      if (members.lookup path).isSome then
        some [path]
      else
        let segments := (path.toList.splitOn '.').map String.ofList
        if (value.get? (segments.map .key)).isSome then some segments else none
  | _ => none

end Json

/-- The value stored in place of an encrypted field. -/
def redactedFieldValue : String := "[ENCRYPTED]"

/-- The errors of the encryption of fields. -/
inductive EncryptionError where
  | fieldProcessing (message : String)
  deriving DecidableEq, Repr

/-- What the redactor has done so far. -/
structure Redaction where
  redacted : Json
  removed : List Json
  found : List String

/-- Take the value of one field out. -/
def redactField (r : Redaction) (field : String) : Redaction :=
  if field ∈ r.found then
    r
  else
    match r.redacted.resolve field with
    | none => r
    | some place =>
        let value := (r.redacted.get? (place.map .key)).getD .null
        { redacted := r.redacted.put place (.string redactedFieldValue)
          removed := r.removed ++ [Json.array [Json.string field, value]]
          found := r.found ++ [field] }

/-- Take the values of `fields` out of a payload: what is left, the values
with their paths, and the paths that were found. -/
def redactFields (payload : Json) (fields : List String) :
    Except EncryptionError (Json × Json × List String) :=
  match payload with
  | .object _ =>
      let r := fields.foldl redactField ⟨payload, [], []⟩
      .ok (r.redacted, .array r.removed, r.found)
  | _ =>
      .error (.fieldProcessing "PII field encryption needs a JSON object payload; use whole-payload encryption (no PII fields) for other payloads")

-- == putting back

/-- The error for removed values in another form. -/
def invalidFields : EncryptionError :=
  .fieldProcessing "Decrypted PII fields are not in the expected [[path, value], ...] form"

/-- Put the value of one entry back. -/
def restoreField (payload entry : Json) : Except EncryptionError Json :=
  match entry with
  | .array [.string path, value] =>
      match payload.resolve path with
      | some place => .ok (payload.put place value)
      | none =>
          .error (.fieldProcessing
            s!"Encrypted PII field '{path}' is missing from the stored payload")
  | _ => .error invalidFields

/-- Put the removed values back, the last one first: a field nested in
another listed field is restored after its parent. -/
def restoreFields (redacted removed : Json) : Except EncryptionError Json :=
  match removed with
  | .array entries => entries.reverse.foldlM restoreField redacted
  | _ => .error invalidFields

end Hammerwork
