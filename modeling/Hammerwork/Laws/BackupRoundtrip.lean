/-
Restoring a backed-up job sets every column to the value it had, but for
JSON `null`.

Both databases write one encoding (`Cell.encode`), and both read it back
(`fromBackup_encode`); normalization leaves the fields of a stored row as
they are (`normalizedBackupJob_stored`). SQL `NULL` and JSON `null` have the
same encoding: a JSON column that holds `null` is restored as SQL `NULL`,
and a payload of `null` as an empty object.
-/
import Mathlib
import Hammerwork.Backup
import Hammerwork.Proofs.Sections

namespace Hammerwork

namespace Backup

variable {formats : Formats}

-- == statements

/-- The columns every version of the table has, as far as a backup checks
them. -/
def coreColumns (backend : Backend) : List Column :=
  [⟨"id", if backend = .postgres then .uuid else .text⟩, ⟨"queue_name", .text⟩,
    ⟨"payload", .json⟩, ⟨"status", .text⟩, ⟨"priority", .int⟩, ⟨"attempts", .int⟩,
    ⟨"max_attempts", .int⟩, ⟨"created_at", .timestamp⟩, ⟨"scheduled_at", .timestamp⟩,
    ⟨"started_at", .timestamp⟩, ⟨"completed_at", .timestamp⟩, ⟨"failed_at", .timestamp⟩,
    ⟨"error_message", .text⟩]

/-- A value of a column: null, or of the column's type. -/
def Cell.Fits (backend : Backend) (kind : ColumnKind) : Cell → Prop
  | .null => True
  | .uuid _ => backend = .postgres ∧ kind = .uuid
  | .text _ => kind = .text
  | .int n => kind = .int ∧ -9223372036854775808 ≤ n ∧ n ≤ 9223372036854775807
  | .bool _ => kind = .bool
  | .timestamp t => kind = .timestamp ∧ Micros t
  | .json _ => kind = .json
  | .bytes _ => kind = .bytes
  | .uuidArray _ => backend = .postgres ∧ kind = .uuidArray
  | .textArray _ => backend = .postgres ∧ kind = .textArray

/-- A row of the job table: the columns hold values of their types, and those
that are never null hold a job's. -/
structure Stored (formats : Formats) (backend : Backend) (columns : List Column) (row : Row) :
    Prop where
  nodup : (columns.map (·.name)).Nodup
  core : ∀ column ∈ coreColumns backend, column ∈ columns
  fits : ∀ column ∈ columns, (row column.name).Fits backend column.kind
  id : ∃ id, row "id"
    = match backend with
      | .postgres => .uuid id
      | .mySql => .text (formats.uuidString id)
  queueName : ∃ name, row "queue_name" = .text name ∧ name ≠ ""
  payload : ∃ value, row "payload" = .json value
  status : ∃ status ∈ jobStatuses, row "status" = .text status
  priority : ∃ p : JobPriority, row "priority" = .int (p.asI32 : Nat)
  attempts : ∃ n, row "attempts" = .int n ∧ -2147483648 ≤ n ∧ n ≤ 2147483647
  maxAttempts : ∃ n, row "max_attempts" = .int n ∧ -2147483648 ≤ n ∧ n ≤ 2147483647
  createdAt : ∃ t, row "created_at" = .timestamp t
  scheduledAt : ∃ t, row "scheduled_at" = .timestamp t

/-- The kind on MySQL of a column that PostgreSQL has. -/
def ColumnKind.toMysql : ColumnKind → ColumnKind
  | .uuid => .text
  | .uuidArray | .textArray => .json
  | kind => kind

/-- The value on MySQL of a value that PostgreSQL has. -/
def Cell.toMysql (formats : Formats) : Cell → Cell
  | .uuid id => .text (formats.uuidString id)
  | .uuidArray ids => .json (.array (ids.map fun id => .string (formats.uuidString id)))
  | .textArray items => .json (.array (items.map .string))
  | cell => cell

/-- Kinds and values of one column on two databases. -/
def SameColumn (formats : Formats) (kind kind' : ColumnKind) (cell cell' : Cell) :
    Backend → Backend → Prop
  | .postgres, .mySql => kind' = kind.toMysql ∧ cell' = cell.toMysql formats
  | .mySql, .postgres => kind = kind'.toMysql ∧ cell = cell'.toMysql formats
  | .postgres, .postgres | .mySql, .mySql => kind' = kind ∧ cell' = cell

/-- One row in two tables of the same columns. -/
structure SameRow (formats : Formats) (source target : Backend) (columns columns' : List Column)
    (row row' : Row) : Prop where
  forth : ∀ column ∈ columns, ∃ column' ∈ columns', column'.name = column.name
  back : ∀ column' ∈ columns', ∃ column ∈ columns, column.name = column'.name ∧
    SameColumn formats column.kind column'.kind (row column'.name) (row' column'.name) source target

/-- The value an insert sets a column to. -/
def RowInsert.value (insert : RowInsert) (formats : Formats) (backend : Backend) (name : String) :
    Option Cell :=
  ((insert.columns.zip insert.params).find? (·.1.name = name)).map fun pair =>
    bind formats backend pair.2

/-- A row that is read from one database and restored into another has the
values it had. -/
def RestoresExactly (formats : Formats) (now : String → DateTime) (source target : Backend)
    (columns columns' : List Column) (row row' : Row) : Prop :=
  ∃ object insert, rowToJson formats source row columns = .ok object ∧
    restoreRow formats now (.object object) columns' = .ok insert ∧
    ∀ column ∈ columns', insert.value formats target column.name = some (row' column.name)

-- == encoding

/-- The backup value of a value, on either database. -/
def Cell.encode (formats : Formats) : Cell → Json
  | .null => .null
  | .uuid id => .string (formats.uuidString id)
  | .text s => .string s
  | .int n => .number n.repr
  | .bool b => .bool b
  | .timestamp t => .string (formats.rfc3339 t)
  | .json value => value
  | .bytes b => .string (formats.base64Encode b)
  | .uuidArray ids => .array (ids.map fun id => .string (formats.uuidString id))
  | .textArray items => .array (items.map .string)

/-- What is restored of a value: JSON `null` is not told from SQL `NULL`. -/
def Cell.restored : Cell → Cell
  | .json .null => .null
  | cell => cell

theorem encode_toMysql (cell : Cell) :
    (cell.toMysql formats).encode formats = cell.encode formats := by
  cases cell <;> rfl

theorem SameColumn.encode_eq {kind kind' : ColumnKind} {cell cell' : Cell} {source target : Backend}
    (h : SameColumn formats kind kind' cell cell' source target) :
    cell.encode formats = cell'.encode formats := by
  cases source <;> cases target
  case postgres.postgres => rw [h.2]
  case mySql.mySql => rw [h.2]
  case postgres.mySql => rw [h.2, encode_toMysql]
  case mySql.postgres => rw [h.2, encode_toMysql]

/-- How a value is read on a database. -/
def readValue (formats : Formats) : Backend → ColumnKind → Cell → Option Json
  | .postgres => pgValue formats
  | .mySql => mysqlValue formats

theorem rowToJson_eq (backend : Backend) (row : Row) (columns : List Column) :
    rowToJson formats backend row columns
      = readColumns (readValue formats backend) row columns [] := by
  cases backend <;> rfl

/-- A value that fits its column is read. -/
theorem readValue_fits {backend : Backend} {kind : ColumnKind} {cell : Cell}
    (h : cell.Fits backend kind) :
    readValue formats backend kind cell = some (cell.encode formats) := by
  cases cell <;> simp only [Cell.Fits] at h
  case null => cases backend <;> cases kind <;> rfl
  case uuid id =>
    obtain ⟨rfl, rfl⟩ := h
    rfl
  case text text =>
    subst h
    cases backend <;> rfl
  case int n =>
    obtain ⟨rfl, -⟩ := h
    cases backend <;> rfl
  case bool b =>
    subst h
    cases backend <;> rfl
  case timestamp t =>
    obtain ⟨rfl, -⟩ := h
    cases backend <;> rfl
  case json value =>
    subst h
    cases backend <;> rfl
  case bytes bytes =>
    subst h
    cases backend <;> rfl
  case uuidArray ids =>
    obtain ⟨rfl, rfl⟩ := h
    rfl
  case textArray items =>
    obtain ⟨rfl, rfl⟩ := h
    rfl

/-- The object of a row has the encoding of every column. -/
theorem readColumns_ok {backend : Backend} {row : Row} {columns : List Column}
    (hfits : ∀ column ∈ columns, (row column.name).Fits backend column.kind) :
    ∀ object : Map, ∃ object', readColumns (readValue formats backend) row columns object
        = .ok object' ∧
      (SortedMap.Sorted object → SortedMap.Sorted object') ∧
      ∀ name, SortedMap.lookup name object' = if name ∈ columns.map (·.name) then
        some ((row name).encode formats) else SortedMap.lookup name object := by
  induction columns with
  | nil =>
      intro object
      exact ⟨object, rfl, id, fun name => by simp⟩
  | cons column columns ih =>
      intro object
      obtain ⟨object', hread, hsorted, hlookup⟩ :=
        ih (fun c hc => hfits c (List.mem_cons_of_mem _ hc))
          (SortedMap.insert column.name ((row column.name).encode formats) object)
      refine ⟨object', ?_, fun h => hsorted (h.insert _ _), ?_⟩
      · rw [readColumns, readValue_fits (hfits column List.mem_cons_self)]
        exact hread
      · intro name
        rw [hlookup, SortedMap.lookup_insert, List.map_cons]
        by_cases hname : name = column.name
        · subst hname
          simp
        · simp [hname]

-- == decoding

theorem asI64_repr {n : Int} (hmin : -9223372036854775808 ≤ n) (hmax : n ≤ 9223372036854775807) :
    asI64 (.number n.repr) = some n := by
  have hne : n.repr ≠ "-0" := by
    intro h
    rw [Int.repr_eq_if] at h
    split at h
    case isTrue hn =>
      have hdigits : '-' ∈ Nat.toDigits 10 n.toNat := by
        rw [← Nat.toList_repr, h]
        simp
      have hdigit := Nat.isDigit_of_mem_toDigits (by omega) (by omega) hdigits
      revert hdigit
      decide
    case isFalse hn =>
      have htail : (-n).toNat.repr.toList = (0 : Nat).repr.toList := by
        simpa using congrArg String.toList h
      have hzero := Nat.repr_injective (String.toList_inj.1 htail)
      omega
  rw [asI64, if_neg hne, Int.toInt?_repr]
  simp [hmin, hmax]

theorem mapM_strings {column : Column} {value : Json} {expected : String} (items : List String) :
    (items.map Json.string).mapM (fun item => orInvalid formats column value expected (asStr item))
      = .ok items := by
  induction items with
  | nil => rfl
  | cons item items ih =>
      rw [List.map_cons, List.mapM_cons, ih]
      rfl

theorem strings_array {column : Column} (items : List String) :
    strings formats column (.array (items.map .string)) = .ok items :=
  mapM_strings items

theorem mapM_uuids (hexact : formats.Exact) {column : Column} {value : Json} {expected : String}
    (ids : List Uuid) :
    (ids.map formats.uuidString).mapM (fun id =>
        orInvalid formats column value expected (formats.parseUuid id).toOption)
      = .ok ids := by
  induction ids with
  | nil => rfl
  | cons id ids ih =>
      rw [List.map_cons, List.mapM_cons, ih, hexact.uuid]
      rfl

/-- A backed-up value is bound as the value it was. -/
theorem fromBackup_encode (hexact : formats.Exact) {backend : Backend} {column : Column}
    {cell : Cell} (h : cell.Fits backend column.kind) :
    ∃ param, Param.fromBackup formats column (cell.encode formats) = .ok param ∧
      bind formats backend param = cell.restored := by
  obtain ⟨name, kind⟩ := column
  cases cell <;> simp only [Cell.Fits] at h
  case null => exact ⟨.null kind, rfl, by cases backend <;> rfl⟩
  case uuid id =>
    obtain ⟨rfl, rfl⟩ := h
    refine ⟨.uuid id, ?_, rfl⟩
    refine bind_eq_ok.2 ⟨formats.uuidString id, rfl, bind_eq_ok.2 ⟨id, ?_, rfl⟩⟩
    rw [hexact.uuid]
    rfl
  case text text =>
    subst h
    exact ⟨.text text, rfl, by cases backend <;> rfl⟩
  case int n =>
    obtain ⟨rfl, hmin, hmax⟩ := h
    refine ⟨.int n, ?_, by cases backend <;> rfl⟩
    refine bind_eq_ok.2 ⟨n, ?_, rfl⟩
    show orInvalid formats _ _ "an integer" (asI64 (.number n.repr)) = _
    rw [asI64_repr hmin hmax]
    rfl
  case bool b =>
    subst h
    exact ⟨.bool b, rfl, by cases backend <;> rfl⟩
  case timestamp t =>
    obtain ⟨rfl, ht⟩ := h
    refine ⟨.time t, ?_, by cases backend <;> rfl⟩
    refine bind_eq_ok.2 ⟨formats.rfc3339 t, rfl, bind_eq_ok.2 ⟨t, ?_, rfl⟩⟩
    rw [hexact.rfc3339 t ht]
    rfl
  case json value =>
    subst h
    cases value
    case null => exact ⟨.null .json, rfl, by cases backend <;> rfl⟩
    all_goals exact ⟨.json _, rfl, by cases backend <;> rfl⟩
  case bytes bytes =>
    subst h
    refine ⟨.bytes bytes, ?_, by cases backend <;> rfl⟩
    refine bind_eq_ok.2 ⟨formats.base64Encode bytes, rfl, bind_eq_ok.2 ⟨bytes, ?_, rfl⟩⟩
    rw [hexact.base64]
    rfl
  case uuidArray ids =>
    obtain ⟨rfl, rfl⟩ := h
    refine ⟨.uuidArray ids, ?_, rfl⟩
    refine bind_eq_ok.2 ⟨ids.map formats.uuidString, ?_, bind_eq_ok.2 ⟨ids, ?_, rfl⟩⟩
    · have hstrings : (ids.map fun id => Json.string (formats.uuidString id))
          = (ids.map formats.uuidString).map .string := by simp
      rw [Cell.encode, hstrings]
      exact strings_array _
    · exact mapM_uuids hexact ids
  case textArray items =>
    obtain ⟨rfl, rfl⟩ := h
    exact ⟨.textArray items, bind_eq_ok.2 ⟨items, strings_array items, rfl⟩, rfl⟩

-- == normalization

/-- What normalization makes of a value: a payload of `null` is taken to be
missing. -/
def normalized (formats : Formats) (row : Row) (name : String) : Json :=
  if name = "payload" ∧ isNull ((row name).encode formats) then
    .object []
  else
    (row name).encode formats

theorem fits_timestamp {backend : Backend} {cell : Cell} (h : cell.Fits backend .timestamp) :
    cell = .null ∨ ∃ t, cell = .timestamp t ∧ Micros t := by
  cases cell <;> simp_all [Cell.Fits]

theorem fits_text {backend : Backend} {cell : Cell} (h : cell.Fits backend .text) :
    cell = .null ∨ ∃ s, cell = .text s := by
  cases cell <;> simp_all [Cell.Fits]

theorem backupI32_stored {job : Json} {field : String} {default n : Int}
    (hget : get job field = some (.number n.repr)) (hmin : -2147483648 ≤ n)
    (hmax : n ≤ 2147483647) :
    backupI32 formats job field default = .ok n := by
  unfold backupI32
  rw [hget]
  have hn : (asI64 (.number n.repr)).bind toI32 = some n := by
    rw [asI64_repr (by omega) (by omega), Option.bind_some, toI32, if_pos ⟨hmin, hmax⟩]
  dsimp only
  rw [hn]

theorem backupPriority_stored {job : Json} {p : JobPriority}
    (hget : get job "priority" = some (.number (p.asI32 : Int).repr)) :
    backupPriority formats job = .ok (p.asI32 : Int) := by
  unfold backupPriority
  rw [hget]
  have hn : (asI64 (.number (p.asI32 : Int).repr)).bind toI32 = some (p.asI32 : Int) := by
    cases p <;> rw [asI64_repr (by decide) (by decide)] <;> rfl
  dsimp only
  rw [hn]
  cases p <;> rfl

theorem backupTimestamp_stored (hexact : formats.Exact) {now : String → DateTime} {job : Json}
    {field : String} {t : DateTime} (ht : Micros t)
    (hget : get job field = some (.string (formats.rfc3339 t))) :
    backupTimestamp formats now job field = .ok t := by
  unfold backupTimestamp
  rw [hget]
  dsimp only
  rw [hexact.rfc3339 t ht]

theorem backupOptionalTimestamp_fits (hexact : formats.Exact) {now : String → DateTime}
    {job : Json} {field : String} {backend : Backend} {cell : Cell}
    (h : cell.Fits backend .timestamp)
    (hget : get job field = some (cell.encode formats)) :
    ∃ t, backupOptionalTimestamp formats now job field = .ok t ∧
      (t.map fun t => Json.string (formats.rfc3339 t)).getD .null = cell.encode formats := by
  unfold backupOptionalTimestamp
  rw [hget]
  rcases fits_timestamp h with rfl | ⟨t, rfl, ht⟩
  · exact ⟨none, rfl, rfl⟩
  · refine ⟨some t, ?_, rfl⟩
    simp only [Cell.encode]
    rw [backupTimestamp_stored hexact ht hget]
    rfl

theorem backupErrorMessage_fits {job : Json} {backend : Backend} {cell : Cell}
    (h : cell.Fits backend .text) (hget : get job "error_message" = some (cell.encode formats)) :
    ∃ message, backupErrorMessage formats job = .ok message ∧
      (message.map Json.string).getD .null = cell.encode formats := by
  unfold backupErrorMessage backupStr
  rw [hget]
  rcases fits_text h with rfl | ⟨s, rfl⟩
  · exact ⟨none, rfl, rfl⟩
  · exact ⟨some s, rfl, rfl⟩

theorem backupStr_stored {job : Json} {field default s : String}
    (hget : get job field = some (.string s)) : backupStr formats job field default = .ok s := by
  unfold backupStr
  rw [hget]

theorem parseBackupId_stored (hexact : formats.Exact) {job : Json} {id : Uuid}
    (hget : get job "id" = some (.string (formats.uuidString id))) :
    parseBackupId formats job = .ok id := by
  have hne : (formats.uuidString id).isEmpty = false := by
    simpa using hexact.uuid_ne id
  refine bind_eq_ok.2 ⟨formats.uuidString id, backupStr_stored hget, ?_⟩
  rw [hne, hexact.uuid]
  rfl

theorem parseBackupQueue_stored {job : Json} {id : Uuid} {name : String} (hne : name ≠ "")
    (hget : get job "queue_name" = some (.string name)) :
    parseBackupQueue formats job id = .ok name := by
  have hempty : name.isEmpty = false := by simpa using hne
  refine bind_eq_ok.2 ⟨name, backupStr_stored hget, ?_⟩
  rw [hempty]
  rfl

theorem parseBackupStatus_stored {job : Json} {id : Uuid} {status : String}
    (hstatus : status ∈ jobStatuses) (hget : get job "status" = some (.string status)) :
    parseBackupStatus formats job id = .ok status := by
  refine bind_eq_ok.2 ⟨status, backupStr_stored hget, ?_⟩
  rw [if_neg (by simpa using hstatus)]
  rfl

theorem normalized_of_ne {row : Row} {name : String} (h : name ≠ "payload") :
    normalized formats row name = (row name).encode formats :=
  if_neg fun hpayload => h hpayload.1

/-- The fields of a stored row are parsed, and written as they were. -/
theorem parseBackupJob_stored (hexact : formats.Exact) {now : String → DateTime}
    {backend : Backend} {columns : List Column} {row : Row}
    (hstored : Stored formats backend columns row) {job : Json}
    (hget : ∀ column ∈ coreColumns backend,
      get job column.name = some ((row column.name).encode formats)) :
    ∃ fields, parseBackupJob formats now job = .ok fields ∧
      ∀ m ∈ fields.members formats, m.2 = normalized formats row m.1 := by
  have hfits : ∀ column ∈ coreColumns backend, (row column.name).Fits backend column.kind :=
    fun column hcolumn => hstored.fits column (hstored.core column hcolumn)
  simp only [coreColumns, List.forall_mem_cons] at hget hfits
  obtain ⟨gid, gqueue, gpayload, gstatus, gpriority, gattempts, gmax, gcreated, gscheduled,
    gstarted, gcompleted, gfailed, gmessage, -⟩ := hget
  obtain ⟨-, -, -, -, -, -, -, fcreated, fscheduled, fstarted, fcompleted, ffailed, fmessage, -⟩ :=
    hfits
  obtain ⟨id, hid⟩ := hstored.id
  have eid : (row "id").encode formats = .string (formats.uuidString id) := by
    rw [hid]
    cases backend <;> rfl
  obtain ⟨name, hname, hne⟩ := hstored.queueName
  obtain ⟨status, hknown, hstatus⟩ := hstored.status
  obtain ⟨priority, hpriority⟩ := hstored.priority
  obtain ⟨attempts, hattempts, hamin, hamax⟩ := hstored.attempts
  obtain ⟨maxAttempts, hmax, hmmin, hmmax⟩ := hstored.maxAttempts
  obtain ⟨createdAt, hcreated⟩ := hstored.createdAt
  obtain ⟨scheduledAt, hscheduled⟩ := hstored.scheduledAt
  rw [hcreated] at fcreated gcreated
  rw [hscheduled] at fscheduled gscheduled
  rw [eid] at gid
  rw [hname] at gqueue
  rw [hstatus] at gstatus
  rw [hpriority] at gpriority
  rw [hattempts] at gattempts
  rw [hmax] at gmax
  obtain ⟨startedAt, pstarted, estarted⟩ :=
    @backupOptionalTimestamp_fits formats hexact now job _ backend _ fstarted gstarted
  obtain ⟨completedAt, pcompleted, ecompleted⟩ :=
    @backupOptionalTimestamp_fits formats hexact now job _ backend _ fcompleted gcompleted
  obtain ⟨failedAt, pfailed, efailed⟩ :=
    @backupOptionalTimestamp_fits formats hexact now job _ backend _ ffailed gfailed
  obtain ⟨errorMessage, pmessage, emessage⟩ := backupErrorMessage_fits fmessage gmessage
  refine ⟨{
    id, queueName := name, status, priority := (priority.asI32 : Nat), attempts, maxAttempts
    createdAt, scheduledAt, startedAt, completedAt, failedAt, errorMessage
    payload := (get job "payload").getD .null }, ?_, ?_⟩
  · refine bind_eq_ok.2 ⟨id, parseBackupId_stored hexact gid, ?_⟩
    refine bind_eq_ok.2 ⟨name, parseBackupQueue_stored hne gqueue, ?_⟩
    refine bind_eq_ok.2 ⟨status, parseBackupStatus_stored hknown gstatus, ?_⟩
    refine bind_eq_ok.2 ⟨_, backupPriority_stored gpriority, ?_⟩
    refine bind_eq_ok.2 ⟨attempts, backupI32_stored gattempts hamin hamax, ?_⟩
    refine bind_eq_ok.2 ⟨maxAttempts, backupI32_stored gmax hmmin hmmax, ?_⟩
    refine bind_eq_ok.2 ⟨createdAt, backupTimestamp_stored hexact fcreated.2 gcreated, ?_⟩
    refine bind_eq_ok.2 ⟨scheduledAt, backupTimestamp_stored hexact fscheduled.2 gscheduled, ?_⟩
    refine bind_eq_ok.2 ⟨startedAt, pstarted, ?_⟩
    refine bind_eq_ok.2 ⟨completedAt, pcompleted, ?_⟩
    refine bind_eq_ok.2 ⟨failedAt, pfailed, ?_⟩
    exact bind_eq_ok.2 ⟨errorMessage, pmessage, rfl⟩
  · have hpayload : (if isNull ((get job "payload").getD .null) then Json.object []
        else (get job "payload").getD .null) = normalized formats row "payload" := by
      rw [gpayload]
      simp [normalized]
    simp only [BackupJobFields.members, List.forall_mem_cons, estarted, ecompleted, efailed,
      emessage]
    refine ⟨?_, ?_, hpayload, ?_, ?_, ?_, ?_, ?_, ?_, ?_, ?_, ?_, ?_, by simp⟩
    all_goals rw [normalized_of_ne (by decide)]
    · exact eid.symm
    · rw [hname]
      rfl
    · rw [hstatus]
      rfl
    · rw [hpriority]
      rfl
    · rw [hattempts]
      rfl
    · rw [hmax]
      rfl
    · rw [hcreated]
      rfl
    · rw [hscheduled]
      rfl

-- == objects

/-- Members that agree with `want`, set in an object that does elsewhere. -/
theorem lookup_setMembers {want : String → Option Json} {members : Map}
    (hmembers : ∀ m ∈ members, want m.1 = some m.2) :
    ∀ {object : Map}, (∀ name, name ∉ members.map (·.1) →
        SortedMap.lookup name object = want name) →
      ∀ name, SortedMap.lookup name (setMembers object members) = want name := by
  induction members with
  | nil => exact fun h name => h name (by simp)
  | cons m members ih =>
      intro object h
      refine ih (fun m' hm' => hmembers m' (List.mem_cons_of_mem _ hm')) ?_
      intro name hname
      rw [SortedMap.lookup_insert]
      split
      case isTrue heq =>
        rw [heq]
        exact (hmembers m List.mem_cons_self).symm
      case isFalse hne =>
        refine h name ?_
        simp only [List.map_cons, List.mem_cons, not_or]
        exact ⟨hne, hname⟩

theorem sorted_setMembers {members : Map} :
    ∀ {object : Map}, SortedMap.Sorted object → SortedMap.Sorted (setMembers object members) := by
  induction members with
  | nil => exact fun h => h
  | cons m members ih => exact fun h => ih (h.insert _ _)

/-- The columns of a stored row, backed up and normalized. -/
theorem normalizedBackupJob_stored (hexact : formats.Exact) {now : String → DateTime}
    {backend : Backend} {columns : List Column} {row : Row}
    (hstored : Stored formats backend columns row) :
    ∃ object object', rowToJson formats backend row columns = .ok object ∧
      normalizedBackupJob formats now (.object object) = .ok object' ∧
      SortedMap.Sorted object' ∧
      ∀ name, SortedMap.lookup name object' = if name ∈ columns.map (·.name) then
        some (normalized formats row name) else none := by
  obtain ⟨object, hread, hsorted, hlookup⟩ := @readColumns_ok formats backend row columns
    hstored.fits []
  obtain ⟨fields, hparsed, hmembers⟩ := @parseBackupJob_stored formats hexact now backend columns
    row hstored (.object object) (fun column hcolumn => by
      show SortedMap.lookup column.name object = _
      rw [hlookup, if_pos (List.mem_map_of_mem (hstored.core column hcolumn))])
  refine ⟨object, setMembers object (fields.members formats), ?_, ?_, ?_, ?_⟩
  · rw [rowToJson_eq]
    exact hread
  · unfold normalizedBackupJob
    rw [hparsed]
    rfl
  · exact sorted_setMembers (hsorted List.Pairwise.nil)
  · have hcore : ∀ name ∈ (fields.members formats).map (·.1), name ∈ columns.map (·.name) := by
      intro name hname
      have hnames : (fields.members formats).map (·.1) = (coreColumns backend).map (·.name) := rfl
      rw [hnames] at hname
      obtain ⟨column, hcolumn, rfl⟩ := List.mem_map.1 hname
      exact List.mem_map_of_mem (hstored.core column hcolumn)
    refine lookup_setMembers ?_ ?_
    · intro m hm
      rw [if_pos (hcore m.1 (List.mem_map_of_mem hm)), hmembers m hm]
    · intro name hname
      have hpayload : name ≠ "payload" := by
        intro heq
        subst heq
        exact hname (by simp [BackupJobFields.members])
      rw [hlookup, normalized_of_ne hpayload]
      rfl

-- == inserts

theorem zip_pairs {α β : Type} (pairs : List (α × β)) :
    (pairs.map (·.1)).zip (pairs.map (·.2)) = pairs := by
  induction pairs with
  | nil => rfl
  | cons pair pairs ih =>
      rw [List.map_cons, List.map_cons, List.zip_cons_cons, ih]

/-- Every member of an object is converted for its column. -/
theorem restoreColumns_ok {target : List Column} {id : String} {object : Map}
    (h : ∀ m ∈ object, ∃ column param, target.find? (·.name = m.1) = some column ∧
      Param.fromBackup formats column m.2 = .ok param) :
    ∃ pairs, restoreColumns formats target id object = .ok pairs ∧
      ∀ name column value param, SortedMap.lookup name object = some value →
        target.find? (·.name = name) = some column →
        Param.fromBackup formats column value = .ok param →
        (pairs.find? (·.1.name = name)).map (·.2) = some param := by
  induction object with
  | nil => exact ⟨[], rfl, fun name column value param h => (nomatch h)⟩
  | cons m object ih =>
      obtain ⟨name, value⟩ := m
      obtain ⟨column, param, hcolumn, hparam⟩ := h _ List.mem_cons_self
      obtain ⟨pairs, hpairs, hlookup⟩ := ih fun m hm => h m (List.mem_cons_of_mem _ hm)
      have hname : column.name = name := by simpa using List.find?_some hcolumn
      refine ⟨(column, param) :: pairs, ?_, ?_⟩
      · rw [restoreColumns, hcolumn]
        dsimp only
        rw [hparam, hpairs]
        rfl
      · intro name' column' value' param' hvalue hcolumn' hparam'
        rw [SortedMap.lookup_cons] at hvalue
        split at hvalue
        case isTrue heq =>
          subst heq
          cases hvalue
          cases hcolumn.symm.trans hcolumn'
          cases hparam.symm.trans hparam'
          simp [hname]
        case isFalse hne =>
          have hother : ¬ column.name = name' := by
            rw [hname]
            exact fun h => hne h.symm
          simp only [List.find?_cons, hother, decide_false]
          exact hlookup name' column' value' param' hvalue hcolumn' hparam'

theorem find?_name {columns : List Column} (hnodup : (columns.map (·.name)).Nodup)
    {column : Column} (h : column ∈ columns) :
    columns.find? (·.name = column.name) = some column := by
  induction columns with
  | nil => cases h
  | cons c columns ih =>
      obtain ⟨hnew, hnodup⟩ := List.nodup_cons.1 hnodup
      rcases List.mem_cons.1 h with rfl | h
      · simp
      · have hne : ¬ c.name = column.name := by
          intro heq
          have hmem : column.name ∈ columns.map (·.name) := List.mem_map_of_mem h
          rw [← heq] at hmem
          exact hnew hmem
        simp only [List.find?_cons, hne, decide_false]
        exact ih hnodup h

-- == restoring

/-- The value that a backed-up value is normalized to. -/
def normalizedCell (formats : Formats) (row : Row) (name : String) : Cell :=
  if name = "payload" ∧ isNull ((row name).encode formats) then
    .json (.object [])
  else
    row name

theorem encode_normalizedCell (row : Row) (name : String) :
    (normalizedCell formats row name).encode formats = normalized formats row name := by
  unfold normalizedCell normalized
  split <;> rfl

/-- A restored value is the one that was backed up exactly if that is not
JSON `null`. -/
theorem restored_eq_iff {row : Row} {name : String}
    (hpayload : name = "payload" → ∃ value, row name = .json value) :
    (normalizedCell formats row name).restored = row name ↔ row name ≠ .json .null := by
  unfold normalizedCell
  split
  case isTrue h =>
    obtain ⟨hname, hnull⟩ := h
    obtain ⟨value, hvalue⟩ := hpayload hname
    rw [hvalue] at hnull ⊢
    cases value <;> simp_all [Cell.restored, Cell.encode, isNull]
  case isFalse h =>
    cases hcell : row name with
    | json value => cases value <;> simp [Cell.restored]
    | _ => simp [Cell.restored]

theorem normalizedCell_fits {backend : Backend} {columns : List Column} {row : Row}
    (hstored : Stored formats backend columns row) {column : Column} (hcolumn : column ∈ columns) :
    (normalizedCell formats row column.name).Fits backend column.kind := by
  unfold normalizedCell
  split
  case isTrue h =>
    have hcore : (⟨"payload", .json⟩ : Column) ∈ columns := hstored.core _ (by simp [coreColumns])
    have hsame := find?_name hstored.nodup hcolumn
    rw [h.1] at hsame
    cases hsame.symm.trans (find?_name hstored.nodup hcore)
    rfl
  case isFalse h => exact hstored.fits column hcolumn

/-- A backed-up row is restored, with the normalized values. -/
theorem restoreRow_stored (hexact : formats.Exact) {now : String → DateTime}
    {source target : Backend} {columns columns' : List Column} {row row' : Row}
    (hstored : Stored formats source columns row) (hstored' : Stored formats target columns' row')
    (hsame : SameRow formats source target columns columns' row row') :
    ∃ object insert, rowToJson formats source row columns = .ok object ∧
      restoreRow formats now (.object object) columns' = .ok insert ∧
      ∀ column ∈ columns', insert.value formats target column.name
        = some (normalizedCell formats row' column.name).restored := by
  obtain ⟨object, object', hread, hnormalized, hsorted, hlookup⟩ :=
    @normalizedBackupJob_stored formats hexact now source columns row hstored
  -- the column of a name is one of both tables, and its value is converted
  have hconverted : ∀ column ∈ columns', ∃ param,
      columns'.find? (·.name = column.name) = some column ∧
      SortedMap.lookup column.name object' = some (normalized formats row' column.name) ∧
      Param.fromBackup formats column (normalized formats row' column.name) = .ok param ∧
      bind formats target param = (normalizedCell formats row' column.name).restored := by
    intro column hcolumn
    obtain ⟨column₀, hcolumn₀, hname, hcells⟩ := hsame.back column hcolumn
    obtain ⟨param, hparam, hbind⟩ :=
      fromBackup_encode hexact (normalizedCell_fits hstored' hcolumn)
    rw [encode_normalizedCell] at hparam
    refine ⟨param, find?_name hstored'.nodup hcolumn, ?_, hparam, hbind⟩
    have hencode : normalized formats row column.name = normalized formats row' column.name := by
      unfold normalized
      rw [hcells.encode_eq]
    rw [hlookup, ← hencode, if_pos (hname ▸ List.mem_map_of_mem hcolumn₀)]
  obtain ⟨pairs, hpairs, hvalues⟩ := @restoreColumns_ok formats columns'
    (((SortedMap.lookup "id" object').bind asStr).getD "") object' (by
      intro m hm
      have hm := hsorted.mem_iff_lookup.1 hm
      have hmem : m.1 ∈ columns.map (·.name) := by
        by_contra hnot
        rw [hlookup, if_neg hnot] at hm
        cases hm
      obtain ⟨column₀, hcolumn₀, hname₀⟩ := List.mem_map.1 hmem
      obtain ⟨column, hcolumn, hname⟩ := hsame.forth column₀ hcolumn₀
      obtain ⟨param, hfind, hhere, hparam, -⟩ := hconverted column hcolumn
      rw [hname.trans hname₀] at hfind hhere hparam
      rw [← Option.some.inj (hm.symm.trans hhere)] at hparam
      exact ⟨column, param, hfind, hparam⟩)
  refine ⟨object, _, hread, bind_eq_ok.2 ⟨object', hnormalized, bind_eq_ok.2 ⟨pairs, hpairs, rfl⟩⟩,
    ?_⟩
  intro column hcolumn
  obtain ⟨param, hfind, hhere, hparam, hbind⟩ := hconverted column hcolumn
  have hvalue := hvalues column.name column _ param hhere hfind hparam
  unfold RowInsert.value
  rw [zip_pairs, ← hbind]
  obtain ⟨pair, hpair, hsecond⟩ := Option.map_eq_some_iff.1 hvalue
  rw [hpair, Option.map_some, hsecond]

-- == the backup

/-- A job that does not decode fails the whole backup. -/
theorem restoreRows_error {now : String → DateTime} {target : List Column} {skipExisting : Bool}
    {stored : Jobs} {job : Json} {e : Error} (he : restoreRow formats now job target = .error e) :
    ∀ {jobs : List Json}, job ∈ jobs →
      ∃ e', restoreRows formats now target skipExisting stored jobs = .error e' := by
  intro jobs
  induction jobs with
  | nil => exact fun h => (nomatch h)
  | cons first jobs ih =>
      intro hmem
      unfold restoreRows
      cases hfirst : restoreRow formats now first target with
      | error e' => exact ⟨e', rfl⟩
      | ok row =>
          rcases List.mem_cons.1 hmem with rfl | hmem
          · rw [he] at hfirst
            cases hfirst
          · obtain ⟨e', he'⟩ := ih hmem
            rw [he']
            exact ⟨e', rfl⟩

-- == the claim

theorem toMysql_eq_null {cell : Cell} :
    cell.toMysql formats = .json .null ↔ cell = .json .null := by
  cases cell <;> simp [Cell.toMysql]

/-- Both rows hold JSON `null` in the same columns. -/
theorem SameColumn.null_iff {kind kind' : ColumnKind} {cell cell' : Cell} {source target : Backend}
    (h : SameColumn formats kind kind' cell cell' source target) :
    cell' = .json .null ↔ cell = .json .null := by
  cases source <;> cases target
  case postgres.postgres => rw [h.2]
  case mySql.mySql => rw [h.2]
  case postgres.mySql => rw [h.2, toMysql_eq_null]
  case mySql.postgres => rw [h.2, toMysql_eq_null]

/-- A row is restored exactly if no column of it holds JSON `null`. -/
theorem restoresExactly_iff (hexact : formats.Exact) {now : String → DateTime}
    {source target : Backend} {columns columns' : List Column} {row row' : Row}
    (hstored : Stored formats source columns row) (hstored' : Stored formats target columns' row')
    (hsame : SameRow formats source target columns columns' row row') :
    RestoresExactly formats now source target columns columns' row row' ↔
      ∀ column ∈ columns, row column.name ≠ .json .null := by
  obtain ⟨object, insert, hread, hrestore, hvalues⟩ :=
    @restoreRow_stored formats hexact now source target columns columns' row row' hstored
      hstored' hsame
  have hpayload : ∀ name, name = "payload" → ∃ value, row' name = .json value := by
    intro name hname
    rw [hname]
    exact hstored'.payload
  constructor
  · intro h column hcolumn hnull
    obtain ⟨object₁, insert₁, hread₁, hrestore₁, hvalues₁⟩ := h
    cases hread.symm.trans hread₁
    cases hrestore.symm.trans hrestore₁
    obtain ⟨column', hcolumn', hname⟩ := hsame.forth column hcolumn
    obtain ⟨column₀, -, -, hcells⟩ := hsame.back column' hcolumn'
    have hvalue := Option.some.inj ((hvalues column' hcolumn').symm.trans
      (hvalues₁ column' hcolumn'))
    rw [← hname] at hnull
    exact (restored_eq_iff (hpayload column'.name)).1 hvalue (hcells.null_iff.2 hnull)
  · intro h
    refine ⟨object, insert, hread, hrestore, ?_⟩
    intro column hcolumn
    obtain ⟨column₀, hcolumn₀, hname, hcells⟩ := hsame.back column hcolumn
    have hnot : row' column.name ≠ .json .null := by
      intro hnull
      refine h column₀ hcolumn₀ ?_
      rw [hname]
      exact hcells.null_iff.1 hnull
    rw [hvalues column hcolumn, (restored_eq_iff (hpayload column.name)).2 hnot]

/-- A row that is backed up is restored exactly if no column of it holds JSON
`null`; a backup with a job that does not decode inserts nothing. -/
theorem backup_restores_iff (hexact : formats.Exact) (now : String → DateTime)
    {source target : Backend} {columns columns' : List Column} {row row' : Row}
    (hstored : Stored formats source columns row) (hstored' : Stored formats target columns' row')
    (hsame : SameRow formats source target columns columns' row row') :
    (RestoresExactly formats now source target columns columns' row row' ↔
      ∀ column ∈ columns, row column.name ≠ .json .null) ∧
    ∀ (described : List (String × Option ColumnKind × String)) (accepts : RowInsert → Bool)
      (input : String) (backupData : Json) (jobs : List Json) (known : List Column) (job : Json)
      (e : Error) (skipExisting : Bool) (stored : Jobs),
      backupJobs input backupData = .ok jobs → jobColumns described = .ok known →
      job ∈ jobs → restoreRow formats now job known = .error e →
      ∃ e', restoreBackup formats now described accepts input backupData true skipExisting stored
        = (.error e', stored) := by
  refine ⟨restoresExactly_iff hexact hstored hstored' hsame, ?_⟩
  intro described accepts input backupData jobs known job e skipExisting stored hjobs hknown hmem he
  obtain ⟨e', he'⟩ := @restoreRows_error formats now known skipExisting stored job e he jobs hmem
  have hdecoded : decodeBackup formats now described input backupData skipExisting stored
      = .error e' := by
    unfold decodeBackup
    rw [hjobs, hknown]
    exact he'
  refine ⟨e', ?_⟩
  unfold restoreBackup
  rw [hdecoded]
  rfl

/-- Formats that write the first id and the epoch as they are written. -/
def plainFormats : Formats where
  uuidString := fun id =>
    if id = 1 then "00000000-0000-0000-0000-000000000001" else id.val.repr
  parseUuid := fun text =>
    if text = "00000000-0000-0000-0000-000000000001" then
      .ok 1
    else
      match text.toNat? with
      | some n => if h : n < 2 ^ 128 then .ok ⟨n, h⟩ else .error "invalid length"
      | none => .error "invalid character"
  rfc3339 := fun t => if t = 0 then "1970-01-01T00:00:00.000000Z" else t.repr
  parseRfc3339 := fun text =>
    if text = "1970-01-01T00:00:00.000000Z" then
      .ok 0
    else
      match text.toInt? with
      | some t => .ok t
      | none => .error "input contains invalid characters"
  base64Encode := fun bytes => String.ofList (bytes.map fun b => Char.ofNat b.toNat)
  base64Decode := fun text => some (text.toList.map fun c => UInt8.ofNat c.toNat)
  text := fun _ => "null"

theorem plainFormats_exact : plainFormats.Exact where
  uuid := by
    intro id
    by_cases hid : id = 1
    · subst hid
      rfl
    · have hne : id.val.repr ≠ "00000000-0000-0000-0000-000000000001" := by
        intro h
        have hdash : '-' ∈ Nat.toDigits 10 id.val := by
          rw [← Nat.toList_repr, h]
          decide
        have hdigit := Nat.isDigit_of_mem_toDigits (by omega) (by omega) hdash
        revert hdigit
        decide
      simp [plainFormats, hid, hne]
  uuid_ne := by
    intro id
    by_cases hid : id = 1
    · subst hid
      decide
    · simp [plainFormats, hid]
  rfc3339 := by
    intro t _
    by_cases ht : t = 0
    · subst ht
      rfl
    · have hne : t.repr ≠ "1970-01-01T00:00:00.000000Z" := by
        intro h
        rw [Int.repr_eq_if] at h
        split at h
        case isTrue =>
          have hletter : 'T' ∈ Nat.toDigits 10 t.toNat := by
            rw [← Nat.toList_repr, h]
            decide
          have hdigit := Nat.isDigit_of_mem_toDigits (by omega) (by omega) hletter
          revert hdigit
          decide
        case isFalse =>
          have hfirst := congrArg String.toList h
          simp at hfirst
      simp [plainFormats, ht, hne]
  base64 := by
    intro bytes
    have hbyte : ∀ b : UInt8, UInt8.ofNat (Char.ofNat b.toNat).toNat = b := by
      intro b
      have hlt := b.toNat_lt
      rw [Char.toNat_ofNat, if_pos (Or.inl (by omega)), UInt8.ofNat_toNat]
    simp [plainFormats, Function.comp_def, hbyte]

/-- A job without anything optional. -/
def plainRow (id : Cell) (payload : Json) : Row
  | "id" => id
  | "queue_name" => .text "mail"
  | "payload" => .json payload
  | "status" => .text "Pending"
  | "priority" => .int 2
  | "attempts" => .int 0
  | "max_attempts" => .int 3
  | "created_at" | "scheduled_at" => .timestamp 0
  | _ => .null

theorem plainRow_stored (backend : Backend) (payload : Json) :
    Stored plainFormats backend (coreColumns backend)
      (plainRow (match backend with
        | .postgres => .uuid 1
        | .mySql => .text (plainFormats.uuidString 1)) payload) where
  nodup := by
    show ["id", "queue_name", "payload", "status", "priority", "attempts", "max_attempts",
      "created_at", "scheduled_at", "started_at", "completed_at", "failed_at",
      "error_message"].Nodup
    decide
  core := fun _ h => h
  fits := by
    have hmicros : Micros 0 := by simp [Micros]
    cases backend <;> simp [coreColumns, plainRow, Cell.Fits, hmicros]
  id := ⟨1, by cases backend <;> rfl⟩
  queueName := ⟨"mail", rfl, by decide⟩
  payload := ⟨payload, rfl⟩
  status := ⟨"Pending", by decide, rfl⟩
  priority := ⟨.normal, rfl⟩
  attempts := ⟨0, rfl, by decide, by decide⟩
  maxAttempts := ⟨3, rfl, by decide, by decide⟩
  createdAt := ⟨0, rfl⟩
  scheduledAt := ⟨0, rfl⟩

theorem plainRow_same (payload : Json) :
    SameRow plainFormats .postgres .mySql (coreColumns .postgres) (coreColumns .mySql)
      (plainRow (.uuid 1) payload) (plainRow (.text (plainFormats.uuidString 1)) payload) where
  forth := by simp [coreColumns]
  back := by simp [coreColumns, SameColumn, ColumnKind.toMysql, Cell.toMysql, plainRow]

/-- A job of PostgreSQL is restored into MySQL. -/
theorem backup_restores_plain :
    RestoresExactly plainFormats (fun _ => 0) .postgres .mySql (coreColumns .postgres)
      (coreColumns .mySql) (plainRow (.uuid 1) (.bool true))
      (plainRow (.text (plainFormats.uuidString 1)) (.bool true)) :=
  (backup_restores_iff plainFormats_exact (fun _ => 0) (plainRow_stored .postgres (.bool true))
    (plainRow_stored .mySql (.bool true)) (plainRow_same _)).1.2
    (by simp [coreColumns, plainRow])

/-- A payload of `null` is restored as an empty object. -/
theorem null_payload_lost :
    ¬ ∀ (formats : Formats) (now : String → DateTime) (source target : Backend)
        (columns columns' : List Column) (row row' : Row), formats.Exact →
      Stored formats source columns row → Stored formats target columns' row' →
      SameRow formats source target columns columns' row row' →
      RestoresExactly formats now source target columns columns' row row' := by
  intro h
  have hsame : SameRow plainFormats .postgres .postgres (coreColumns .postgres)
      (coreColumns .postgres) (plainRow (.uuid 1) .null) (plainRow (.uuid 1) .null) :=
    ⟨fun column hcolumn => ⟨column, hcolumn, rfl⟩,
      fun column hcolumn => ⟨column, hcolumn, rfl, rfl, rfl⟩⟩
  have hstored := plainRow_stored .postgres .null
  have hrestores := h plainFormats (fun _ => 0) .postgres .postgres _ _ _ _ plainFormats_exact
    hstored hstored hsame
  exact (restoresExactly_iff plainFormats_exact hstored hstored hsame).1 hrestores
    ⟨"payload", .json⟩ (by decide) rfl

end Backup

end Hammerwork
