/-
Backing jobs up to JSON, and restoring them.

A row of the job table is read column by column into a JSON object, each
column by its kind, in one encoding for both databases; a value passes back
through normalization, which fills in what old backups leave out, and is
converted for the column of its name. A backup is restored in one
transaction, after all its jobs are decoded.

# Rows

A row is a value for every column, as the driver reads it after the casts of
the `SELECT` list. UUIDs, RFC 3339 timestamps, base64 and the text of JSON
are formats of other libraries, a parameter; what the claims on them rest on
is `Formats.Exact`. The clock is read when a timestamp is missing.
-/
import Mathlib.Data.String.Basic
import Hammerwork.Archive
import Hammerwork.Lib.SortedMap

namespace Hammerwork

namespace Backup

/-- A job's identity where its text matters. -/
abbrev Uuid := Fin (2 ^ 128)

inductive Backend where
  | postgres
  | mySql
  deriving DecidableEq, Repr

inductive Error where
  | message (text : String)
  | database
  deriving DecidableEq, Repr

-- == formats

/-- The formats of other libraries, with their error texts. -/
structure Formats where
  uuidString : Uuid → String
  parseUuid : String → Except String Uuid
  rfc3339 : DateTime → String
  parseRfc3339 : String → Except String DateTime
  base64Encode : List UInt8 → String
  base64Decode : String → Option (List UInt8)
  text : Json → String

/-- A timestamp of microsecond resolution, in the years 0 to 9999. -/
def Micros (t : DateTime) : Prop :=
  t % 1000 = 0 ∧ -62167219200000000000 ≤ t ∧ t < 253402300800000000000

/-- What is parsed is what was written. -/
structure Formats.Exact (formats : Formats) : Prop where
  uuid : ∀ id, formats.parseUuid (formats.uuidString id) = .ok id
  uuid_ne : ∀ id, formats.uuidString id ≠ ""
  rfc3339 : ∀ t, Micros t → formats.parseRfc3339 (formats.rfc3339 t) = .ok t
  base64 : ∀ bytes, formats.base64Decode (formats.base64Encode bytes) = some bytes

-- == columns

/-- How the values of a column are read, written to a backup, and bound
back. -/
inductive ColumnKind where
  | uuid
  | text
  | int
  | bool
  | timestamp
  | json
  | bytes
  | uuidArray
  | textArray
  deriving DecidableEq, Repr

/-- The kind of a PostgreSQL column, from its `udt_name`. -/
def ColumnKind.postgres : String → Option ColumnKind
  | "uuid" => some .uuid
  | "varchar" | "text" | "bpchar" => some .text
  | "int2" | "int4" | "int8" => some .int
  | "bool" => some .bool
  | "timestamptz" | "timestamp" => some .timestamp
  | "jsonb" | "json" => some .json
  | "bytea" => some .bytes
  | "_uuid" => some .uuidArray
  | "_text" | "_varchar" => some .textArray
  | _ => none

/-- The kind of a MySQL column, from its `DATA_TYPE` and `COLUMN_TYPE`. -/
def ColumnKind.mysql (dataType columnType : String) : Option ColumnKind :=
  match dataType with
  | "tinyint" => if columnType.startsWith "tinyint(1)" then some .bool else some .int
  | "smallint" | "mediumint" | "int" | "bigint" => some .int
  | "char" | "varchar" | "tinytext" | "text" | "mediumtext" | "longtext" => some .text
  | "timestamp" | "datetime" => some .timestamp
  | "json" => some .json
  | "tinyblob" | "blob" | "mediumblob" | "longblob" | "binary" | "varbinary" => some .bytes
  | _ => none

structure Column where
  name : String
  kind : ColumnKind
  deriving DecidableEq, Repr

/-- A value of a row. -/
inductive Cell where
  | null
  | uuid (id : Uuid)
  | text (text : String)
  | int (n : Int)
  | bool (b : Bool)
  | timestamp (t : DateTime)
  | json (value : Json)
  | bytes (bytes : List UInt8)
  | uuidArray (ids : List Uuid)
  | textArray (items : List String)

/-- A row, by the names of its columns. -/
abbrev Row := String → Cell

/-- The members of a JSON object. -/
abbrev Map := List (String × Json)

-- == backing up

variable (formats : Formats)

/-- A value of a PostgreSQL row, unless it is of another type. -/
def pgValue : ColumnKind → Cell → Option Json
  | _, .null => some .null
  | .uuid, .uuid id => some (.string (formats.uuidString id))
  | .text, .text text => some (.string text)
  | .int, .int n => some (.number n.repr)
  | .bool, .bool b => some (.bool b)
  | .timestamp, .timestamp t => some (.string (formats.rfc3339 t))
  | .json, .json value => some value
  | .bytes, .bytes bytes => some (.string (formats.base64Encode bytes))
  | .uuidArray, .uuidArray ids => some (.array (ids.map fun id => .string (formats.uuidString id)))
  | .textArray, .textArray items => some (.array (items.map .string))
  | _, _ => none

/-- A value of a MySQL row, unless it is of another type. -/
def mysqlValue : ColumnKind → Cell → Option Json
  | _, .null => some .null
  | .uuid, .text text | .text, .text text => some (.string text)
  | .int, .int n => some (.number n.repr)
  | .bool, .bool b => some (.bool b)
  | .timestamp, .timestamp t => some (.string (formats.rfc3339 t))
  | .json, .json value | .uuidArray, .json value | .textArray, .json value => some value
  | .bytes, .bytes bytes => some (.string (formats.base64Encode bytes))
  | _, _ => none

/-- The columns of a row, each read by its kind. -/
def readColumns (read : ColumnKind → Cell → Option Json) (row : Row) :
    List Column → Map → Except Error Map
  | [], object => .ok object
  | column :: columns, object =>
      match read column.kind (row column.name) with
      | some value => readColumns read row columns (SortedMap.insert column.name value object)
      | none => .error .database

/-- A PostgreSQL row as a backup object. -/
def pgRowToJson (row : Row) (columns : List Column) : Except Error Map :=
  readColumns (pgValue formats) row columns []

/-- A MySQL row as a backup object. -/
def mysqlRowToJson (row : Row) (columns : List Column) : Except Error Map :=
  readColumns (mysqlValue formats) row columns []

/-- A row of either database as a backup object. -/
def rowToJson : Backend → Row → List Column → Except Error Map
  | .postgres => pgRowToJson formats
  | .mySql => mysqlRowToJson formats

-- == values

/-- A member of an object; nothing has none. -/
def get (job : Json) (field : String) : Option Json :=
  match job with
  | .object members => SortedMap.lookup field members
  | _ => none

def asStr : Json → Option String
  | .string text => some text
  | _ => none

def asArray : Json → Option (List Json)
  | .array items => some items
  | _ => none

/-- A number that is an integer of 64 bits; `-0` is not an integer. -/
def asI64 : Json → Option Int
  | .number text =>
      if text = "-0" then
        none
      else
        text.toInt?.filter fun n => -9223372036854775808 ≤ n ∧ n ≤ 9223372036854775807
  | _ => none

/-- An integer of 32 bits. -/
def toI32 (n : Int) : Option Int :=
  if -2147483648 ≤ n ∧ n ≤ 2147483647 then some n else none

def isNull : Json → Bool
  | .null => true
  | _ => false

/-- In lower case, as far as it makes a difference to a name of ASCII
letters: the Kelvin sign becomes a `k`. -/
def toLowercase (text : String) : String :=
  String.ofList (text.toList.map fun c => if c.toNat = 0x212A then 'k' else c.toLower)

-- == parameters

/-- A backup value converted for binding to a column. -/
inductive Param where
  | null (kind : ColumnKind)
  | uuid (id : Uuid)
  | text (text : String)
  | int (n : Int)
  | bool (b : Bool)
  | time (t : DateTime)
  | json (value : Json)
  | bytes (bytes : List UInt8)
  | uuidArray (ids : List Uuid)
  | textArray (items : List String)

/-- The error of a value that does not fit its column. -/
def invalid (column : Column) (value : Json) (expected : String) : Error :=
  let got := formats.text value
  .message s!"backup column '{column.name}' must be {expected}, got {got}"

/-- The value of a decoder that may fail. -/
def orInvalid {α : Type} (column : Column) (value : Json) (expected : String) :
    Option α → Except Error α
  | some result => .ok result
  | none => .error (invalid formats column value expected)

/-- The items of an array of strings. -/
def strings (column : Column) (value : Json) : Except Error (List String) := do
  let items ← orInvalid formats column value "an array of strings" (asArray value)
  items.mapM fun item => orInvalid formats column value "an array of strings" (asStr item)

/-- Convert the backup value of a column for binding. -/
def Param.fromBackup (column : Column) (value : Json) : Except Error Param :=
  let orInvalid {α : Type} (expected : String) (result : Option α) : Except Error α :=
    orInvalid formats column value expected result
  if isNull value then
    .ok (.null column.kind)
  else
    match column.kind with
    | .uuid => do
        let text ← orInvalid "a UUID string" (asStr value)
        let id ← orInvalid "a UUID string" (formats.parseUuid text).toOption
        return .uuid id
    | .text => do
        let text ← orInvalid "a string" (asStr value)
        return .text text
    | .int => do
        let n ← orInvalid "an integer" (asI64 value)
        return .int n
    | .bool =>
        match value with
        | .bool b => .ok (.bool b)
        | _ =>
            if asI64 value = some 0 then
              .ok (.bool false)
            else if asI64 value = some 1 then
              .ok (.bool true)
            else
              .error (invalid formats column value "a boolean")
    | .timestamp => do
        let text ← orInvalid "an RFC 3339 timestamp" (asStr value)
        let t ← orInvalid "an RFC 3339 timestamp" (formats.parseRfc3339 text).toOption
        return .time t
    | .json => .ok (.json value)
    | .bytes => do
        let text ← orInvalid "a base64 string" (asStr value)
        let bytes ← orInvalid "a base64 string" (formats.base64Decode text)
        return .bytes bytes
    | .uuidArray => do
        let items ← strings formats column value
        let ids ← items.mapM fun id =>
          orInvalid "an array of UUIDs" (formats.parseUuid id).toOption
        return .uuidArray ids
    | .textArray => do
        let items ← strings formats column value
        return .textArray items

/-- What is stored for a parameter bound on PostgreSQL. -/
def bindPg : Param → Cell
  | .null _ => .null
  | .uuid id => .uuid id
  | .text text => .text text
  | .int n => .int n
  | .bool b => .bool b
  | .time t => .timestamp t
  | .json value => .json value
  | .bytes bytes => .bytes bytes
  | .uuidArray ids => .uuidArray ids
  | .textArray items => .textArray items

/-- What is stored for a parameter bound on MySQL, which keeps arrays as
JSON. -/
def bindMysql : Param → Cell
  | .null _ => .null
  | .uuid id => .text (formats.uuidString id)
  | .text text => .text text
  | .int n => .int n
  | .bool b => .bool b
  | .time t => .timestamp t
  | .json value => .json value
  | .bytes bytes => .bytes bytes
  | .uuidArray ids => .json (.array (ids.map fun id => .string (formats.uuidString id)))
  | .textArray items => .json (.array (items.map .string))

/-- What is stored for a parameter. -/
def bind : Backend → Param → Cell
  | .postgres => bindPg
  | .mySql => bindMysql formats

-- == normalization

/-- Fields of a backed-up job, validated and converted for insertion. -/
structure BackupJobFields where
  id : Uuid
  queueName : String
  payload : Json
  status : String
  priority : Int
  attempts : Int
  maxAttempts : Int
  createdAt : DateTime
  scheduledAt : DateTime
  startedAt : Option DateTime
  completedAt : Option DateTime
  failedAt : Option DateTime
  errorMessage : Option String

def jobStatuses : List String :=
  ["Pending", "Running", "Completed", "Failed", "Dead", "TimedOut", "Retrying", "Archived"]

/-- An optional string field; a value that is not a string is an error. -/
def backupStr (job : Json) (field default : String) : Except Error String :=
  match get job field with
  | none | some .null => .ok default
  | some (.string text) => .ok text
  | some other =>
      let got := formats.text other
      .error (.message s!"backup field '{field}' must be a string, got {got}")

/-- An optional field of 32 bits; any other value is an error. -/
def backupI32 (job : Json) (field : String) (default : Int) : Except Error Int :=
  match get job field with
  | none | some .null => .ok default
  | some value =>
      match (asI64 value).bind toI32 with
      | some n => .ok n
      | none =>
          let got := formats.text value
          .error (.message s!"backup field '{field}' must be a 32-bit integer, got {got}")

/-- A timestamp field; a missing one is the time it is read at. -/
def backupTimestamp (now : String → DateTime) (job : Json) (field : String) :
    Except Error DateTime :=
  match get job field with
  | none | some .null => .ok (now field)
  | some (.string text) =>
      match formats.parseRfc3339 text with
      | .ok t => .ok t
      | .error e => .error (.message s!"backup field '{field}' is not RFC 3339 ({text}): {e}")
  | some other =>
      let got := formats.text other
      .error (.message s!"backup field '{field}' must be a timestamp string, got {got}")

/-- An optional timestamp. -/
def backupOptionalTimestamp (now : String → DateTime) (job : Json) (field : String) :
    Except Error (Option DateTime) :=
  match get job field with
  | none | some .null => .ok none
  | some _ => (backupTimestamp formats now job field).map some

def validatePriority (priority : String) : Except Error JobPriority :=
  match toLowercase priority with
  | "background" => .ok .background
  | "low" => .ok .low
  | "normal" => .ok .normal
  | "high" => .ok .high
  | "critical" => .ok .critical
  | _ =>
      .error (.message s!"Invalid priority '{priority}'. Valid options: background, low, normal, high, critical")

/-- The priority: a name, or the level that is stored. -/
def backupPriority (job : Json) : Except Error Int :=
  match get job "priority" with
  | none | some .null => .ok (JobPriority.normal.asI32 : Nat)
  | some (.string name) => (validatePriority name).map fun priority => (priority.asI32 : Nat)
  | some value =>
      match ((asI64 value).bind toI32).filter fun n => (Archive.priorityFromI32 n).isSome with
      | some n => .ok n
      | none =>
          let got := formats.text value
          .error (.message s!"backup field 'priority' is not a priority, got {got}")

/-- The error message of a job, unless there is none. -/
def backupErrorMessage (job : Json) : Except Error (Option String) :=
  match get job "error_message" with
  | none | some .null => .ok none
  | some _ => (backupStr formats job "error_message" "").map some

/-- The id of a backed-up job. -/
def parseBackupId (job : Json) : Except Error Uuid := do
  let id ← backupStr formats job "id" ""
  if id.isEmpty then
    throw (.message "backup job is missing required field 'id'")
  match formats.parseUuid id with
  | .ok id => return id
  | .error e => throw (.message s!"backup job id '{id}' is not a UUID: {e}")

/-- The queue of a backed-up job. -/
def parseBackupQueue (job : Json) (id : Uuid) : Except Error String := do
  let queueName ← backupStr formats job "queue_name" ""
  if queueName.isEmpty then
    let id := formats.uuidString id
    throw (.message s!"backup job {id} is missing required field 'queue_name'")
  return queueName

/-- The status of a backed-up job. -/
def parseBackupStatus (job : Json) (id : Uuid) : Except Error String := do
  let status ← backupStr formats job "status" "Pending"
  if status ∉ jobStatuses then
    let id := formats.uuidString id
    let expected := String.intercalate ", " jobStatuses
    throw (.message s!"backup job {id} has unknown status '{status}' (expected one of {expected})")
  return status

def parseBackupJob (now : String → DateTime) (job : Json) : Except Error BackupJobFields := do
  let id ← parseBackupId formats job
  let queueName ← parseBackupQueue formats job id
  let status ← parseBackupStatus formats job id
  let priority ← backupPriority formats job
  let attempts ← backupI32 formats job "attempts" 0
  let maxAttempts ← backupI32 formats job "max_attempts" 3
  let createdAt ← backupTimestamp formats now job "created_at"
  let scheduledAt ← backupTimestamp formats now job "scheduled_at"
  let startedAt ← backupOptionalTimestamp formats now job "started_at"
  let completedAt ← backupOptionalTimestamp formats now job "completed_at"
  let failedAt ← backupOptionalTimestamp formats now job "failed_at"
  let errorMessage ← backupErrorMessage formats job
  return {
    id, queueName, status, priority, attempts, maxAttempts, createdAt, scheduledAt, startedAt
    completedAt, failedAt, errorMessage
    payload := (get job "payload").getD .null }

/-- The members that normalization sets. -/
def BackupJobFields.members (fields : BackupJobFields) : Map :=
  let time (t : DateTime) : Json := .string (formats.rfc3339 t)
  let optionalTime (t : Option DateTime) : Json := (t.map time).getD .null
  [("id", .string (formats.uuidString fields.id)),
    ("queue_name", .string fields.queueName),
    ("payload", if isNull fields.payload then .object [] else fields.payload),
    ("status", .string fields.status),
    ("priority", .number fields.priority.repr),
    ("attempts", .number fields.attempts.repr),
    ("max_attempts", .number fields.maxAttempts.repr),
    ("created_at", time fields.createdAt),
    ("scheduled_at", time fields.scheduledAt),
    ("started_at", optionalTime fields.startedAt),
    ("completed_at", optionalTime fields.completedAt),
    ("failed_at", optionalTime fields.failedAt),
    ("error_message", (fields.errorMessage.map .string).getD .null)]

/-- Set the members of an object. -/
def setMembers (object : Map) (members : Map) : Map :=
  members.foldl (fun object member => SortedMap.insert member.1 member.2 object) object

/-- A backed-up job with its core fields validated and normalized, and every
other column as it was backed up. -/
def normalizedBackupJob (now : String → DateTime) (job : Json) : Except Error Map :=
  match job with
  | .object object =>
      (parseBackupJob formats now job).map fun fields => setMembers object (fields.members formats)
  | _ =>
      let got := formats.text job
      .error (.message s!"backup job must be a JSON object, got {got}")

-- == restoring

/-- An `INSERT` of one backed-up job: the columns it sets and their
values. -/
structure RowInsert where
  id : String
  columns : List Column
  params : List Param

/-- An error with the job it is about. -/
def Error.ofJob (id : String) : Error → Error
  | .message text => .message s!"backup job {id}: {text}"
  | .database => .database

/-- The columns of an object that a table has, with their parameters. A value
for a column it does not have is an error, unless it is null. -/
def restoreColumns (target : List Column) (id : String) :
    Map → Except Error (List (Column × Param))
  | [] => .ok []
  | (name, value) :: object =>
      match target.find? (·.name = name) with
      | some column => do
          let param ← (Param.fromBackup formats column value).mapError (Error.ofJob id)
          let rest ← restoreColumns target id object
          return (column, param) :: rest
      | none =>
          if isNull value then
            restoreColumns target id object
          else
            .error (.message s!"backup job {id} has a value for column '{name}', which this database's hammerwork_jobs table does not have; run `cargo hammerwork migration run` on it first")

/-- The insert of one backed-up job into a table with the `target`
columns. -/
def restoreRow (now : String → DateTime) (job : Json) (target : List Column) :
    Except Error RowInsert := do
  let object ← normalizedBackupJob formats now job
  let id := ((SortedMap.lookup "id" object).bind asStr).getD ""
  let pairs ← restoreColumns formats target id object
  return { id, columns := pairs.map (·.1), params := pairs.map (·.2) }

/-- The rows of the table, each the columns its insert set, by the text of
the job's id. -/
abbrev Jobs := Table String (List (Column × Param))

/-- Insert rows, one after the other; a row whose id exists is left
untouched. Any other error of the database ends it. -/
def insertAll (accepts : RowInsert → Bool) : List RowInsert → Jobs → Except Error (Nat × Jobs)
  | [], jobs => .ok (0, jobs)
  | row :: rows, jobs =>
      if (jobs.lookup row.id).isSome then
        insertAll accepts rows jobs
      else if accepts row then
        (insertAll accepts rows (jobs.insert row.id (row.columns.zip row.params))).map
          fun (inserted, jobs) => (inserted + 1, jobs)
      else
        let id := row.id
        .error (.message s!"Cannot restore job {id}")

/-- Insert rows in one transaction. -/
def insertRows (accepts : RowInsert → Bool) (rows : List RowInsert) (jobs : Jobs) :
    Except Error Nat × Jobs :=
  match insertAll accepts rows jobs with
  | .ok (inserted, jobs') => (.ok inserted, jobs')
  | .error e => (.error e, jobs)

/-- Decode every job of a backup; those that exist are left out when they are
to be skipped. -/
def restoreRows (now : String → DateTime) (target : List Column) (skipExisting : Bool)
    (stored : Jobs) : List Json → Except Error (List RowInsert × Nat)
  | [] => .ok ([], 0)
  | job :: jobs => do
      let row ← restoreRow formats now job target
      let (rows, skipped) ← restoreRows now target skipExisting stored jobs
      if skipExisting && (stored.lookup row.id).isSome then
        return (rows, skipped + 1)
      else
        return (row :: rows, skipped)

/-- The columns of a table, from their names, kinds and SQL types; one whose
type is not known is an error. -/
def jobColumns (described : List (String × Option ColumnKind × String)) :
    Except Error (List Column) :=
  if described.isEmpty then
    .error (.message "Table hammerwork_jobs not found; run `cargo hammerwork migration run` first")
  else
    described.mapM fun (name, kind, sqlType) =>
      match kind with
      | some kind => .ok { name, kind }
      | none =>
          .error (.message s!"Column hammerwork_jobs.{name} has type {sqlType}, which backups cannot copy yet")

/-- The jobs of a backup of a version that can be restored. -/
def backupJobs (input : String) (backupData : Json) : Except Error (List Json) :=
  let supported := match (get backupData "version").bind asStr with
    | none | some "1.0" | some "2.0" => true
    | some _ => false
  let other := ((get backupData "version").bind asStr).getD ""
  if supported then
    match (get backupData "jobs").bind asArray with
    | some jobs => .ok jobs
    | none => .error (.message "Invalid backup format: missing jobs array")
  else
    .error (.message s!"{input} is a version {other} backup, which this cargo-hammerwork cannot restore; upgrade cargo-hammerwork")

/-- The rows of a backup, decoded for the columns of the table: every job is
checked before anything is written. -/
def decodeBackup (now : String → DateTime)
    (described : List (String × Option ColumnKind × String)) (input : String) (backupData : Json)
    (skipExisting : Bool) (stored : Jobs) : Except Error (List RowInsert × Nat) := do
  let jobs ← backupJobs input backupData
  let target ← jobColumns described
  restoreRows formats now target skipExisting stored jobs

/-- Restore a backup: how many jobs were restored, and how many skipped. -/
def restoreBackup (now : String → DateTime)
    (described : List (String × Option ColumnKind × String)) (accepts : RowInsert → Bool)
    (input : String) (backupData : Json) (confirm skipExisting : Bool) (stored : Jobs) :
    Except Error (Nat × Nat) × Jobs :=
  if !confirm then
    (.ok (0, 0), stored)
  else
    match decodeBackup formats now described input backupData skipExisting stored with
    | .error e => (.error e, stored)
    | .ok (rows, skipped) =>
        match insertRows accepts rows stored with
        | (.ok restored, stored') => (.ok (restored, skipped + (rows.length - restored)), stored')
        | (.error e, stored') => (.error e, stored')

end Backup

end Hammerwork
