/-
Archiving jobs on PostgreSQL, and restoring them.

A job passes through four lists of columns: it is selected from the job
table and decoded, inserted into the archive table, decoded from there, and
inserted into the job table again. The encryption columns are copied from
table to table without being decoded, if the job is encrypted or names
personal fields. Archiving a batch and restoring a job are transactions.

# Rows

A row has the columns the four lists name. Columns nothing here reads or
writes (leases, the size and the ratios that are only reported) are left
out. The text of JSON, gzip and base64 are a `Codec`; what the claims on
them rest on is `Codec.Exact`.

A batch skips the rows other transactions hold locks on; which they are is
a parameter, the same for the whole batch.
-/
import Hammerwork.Redaction
import Hammerwork.Results
import Mathlib.Algebra.Ring.Nat

namespace Hammerwork

namespace Archive

abbrev Bytes := List UInt8

-- == jobs

/-- How a job's results are kept, and how large they may be. -/
structure ResultConfig where
  storage : ResultStorage
  ttl : Option Duration
  maxSizeBytes : Option Nat

/-- What is known of an encrypted payload. -/
structure EncryptionMetadata where
  algorithm : EncryptionAlgorithm
  keyId : String
  configVersion : Nat
  compressed : Bool
  encryptedFields : List String
  retentionPolicy : RetentionPolicy
  encryptedAt : DateTime
  deleteAt : Option DateTime
  payloadHash : String
  formatVersion : Nat

/-- A job with the fields the queue's own record leaves out: its result
configuration and the metadata of its encrypted payload. -/
structure FullJob extends Job where
  resultConfig : ResultConfig
  encryptionMetadata : Option EncryptionMetadata

inductive Error where
  | hammerwork (error : HammerworkError)
  | archive (message : String)
  | processing (message : String)
  | json
  | io
  | database (message : String)
  deriving DecidableEq, Repr

-- == codec

/-- The formats of other libraries: JSON text, gzip, base64, and the JSON of
the values that are stored as such. -/
structure Codec where
  toVec : Json → Bytes
  fromSlice : Bytes → Option Json
  compress : Nat → Bytes → Bytes
  decompress : Bytes → Option Bytes
  base64Encode : Bytes → String
  base64Decode : String → Option Bytes
  strategyToValue : RetryStrategy → Json
  strategyFromValue : Json → Option RetryStrategy
  strategyToString : RetryStrategy → String
  strategyFromStr : String → Option RetryStrategy
  resultConfigToValue : ResultConfig → Json
  resultConfigFromValue : Json → Option ResultConfig
  metadataToValue : EncryptionMetadata → Json

/-- JSON and gzip are exact on a payload: what is decoded is what was
encoded. A strategy whose JSON does not decode (a multiplier that is not
finite) decodes from no text either. -/
structure Codec.Exact (codec : Codec) (payload : Json) : Prop where
  json : codec.fromSlice (codec.toVec payload) = some payload
  gzip : ∀ level, codec.decompress (codec.compress level (codec.toVec payload))
    = some (codec.toVec payload)
  strategy : ∀ s s', codec.strategyFromValue (codec.strategyToValue s) = some s' → s' = s
  strategyText : ∀ s, codec.strategyFromStr (codec.strategyToString s)
    = codec.strategyFromValue (codec.strategyToValue s)
  resultConfig : ∀ config,
    codec.resultConfigFromValue (codec.resultConfigToValue config) = some config

-- == rows

/-- The encryption columns of both tables. -/
structure EncryptionColumns where
  isEncrypted : Bool
  encryptionKeyId : Option String
  encryptionAlgorithm : Option String
  encryptedPayload : Option Bytes
  encryptionNonce : Option Bytes
  encryptionTag : Option Bytes
  encryptionMetadata : Option Json
  payloadHash : Option String
  piiFields : Option (List String)
  retentionPolicy : Option String
  retentionDeleteAt : Option DateTime
  encryptedAt : Option DateTime

/-- The encryption columns of a row inserted without them. -/
def EncryptionColumns.default : EncryptionColumns where
  isEncrypted := false
  encryptionKeyId := none
  encryptionAlgorithm := none
  encryptedPayload := none
  encryptionNonce := none
  encryptionTag := none
  encryptionMetadata := none
  payloadHash := none
  piiFields := none
  retentionPolicy := none
  retentionDeleteAt := none
  encryptedAt := none

/-- A row of the job table. -/
structure JobRow where
  queueName : String
  payload : Json
  status : String
  priority : Int
  attempts : Int
  maxAttempts : Int
  timeoutSeconds : Option Int
  createdAt : DateTime
  scheduledAt : DateTime
  startedAt : Option DateTime
  completedAt : Option DateTime
  failedAt : Option DateTime
  timedOutAt : Option DateTime
  errorMessage : Option String
  cronSchedule : Option String
  nextRunAt : Option DateTime
  recurring : Bool
  timezone : Option String
  batchId : Option BatchId
  resultData : Option Json
  resultStoredAt : Option DateTime
  resultExpiresAt : Option DateTime
  resultStorageType : Option String
  resultTtlSeconds : Option Int
  resultMaxSizeBytes : Option Int
  dependsOn : List JobId
  dependents : List JobId
  dependencyStatus : Option String
  workflowId : Option WorkflowId
  workflowName : Option String
  traceId : Option String
  correlationId : Option String
  parentSpanId : Option String
  spanContext : Option String
  retryStrategy : Option Json
  encryption : EncryptionColumns
  archivedAt : Option DateTime

/-- A row of the archive table. -/
structure ArchiveRow where
  queueName : String
  payload : Bytes
  payloadCompressed : Bool
  originalPayloadSize : Nat
  status : String
  priority : String
  attempts : Int
  maxAttempts : Int
  createdAt : DateTime
  scheduledAt : DateTime
  startedAt : Option DateTime
  completedAt : Option DateTime
  failedAt : Option DateTime
  timedOutAt : Option DateTime
  archivedAt : DateTime
  errorMessage : Option String
  result : Option Json
  resultTtl : Option DateTime
  retryStrategy : Option String
  timeoutSeconds : Option Int
  cronSchedule : Option String
  nextRunAt : Option DateTime
  recurring : Bool
  timezone : Option String
  batchId : Option BatchId
  dependsOn : Option (List JobId)
  dependencyStatus : Option String
  resultConfig : Option Json
  traceId : Option String
  correlationId : Option String
  parentSpanId : Option String
  spanContext : Option String
  archivalReason : String
  archivedBy : Option String
  originalTable : String
  workflowId : Option WorkflowId
  workflowName : Option String
  encryption : EncryptionColumns

/-- The two tables, by their primary keys. -/
structure Db where
  jobs : Table JobId JobRow
  archive : Table JobId ArchiveRow

/-- Run in a transaction: an error rolls back. -/
def transaction {α : Type} (db : Db) (run : Except Error (α × Db)) : Except Error α × Db :=
  match run with
  | .ok (value, db') => (.ok value, db')
  | .error error => (.error error, db)

-- == columns

/-- Without the quotes around a value that older rows hold as JSON. -/
def trimQuotes (text : String) : String :=
  let quote := fun c : Char => c.toNat = 34
  String.ofList ((text.toList.dropWhile quote).reverse.dropWhile quote).reverse

/-- With ASCII letters in lower case. -/
def lowercase (text : String) : String := String.ofList (text.toList.map Char.toLower)

def jobStatusFromDb (value : String) : Option JobStatus :=
  match trimQuotes value with
  | "Pending" => some .pending
  | "Running" => some .running
  | "Completed" => some .completed
  | "Failed" => some .failed
  | "Dead" => some .dead
  | "TimedOut" => some .timedOut
  | "Retrying" => some .retrying
  | "Archived" => some .archived
  | _ => none

def jobStatusFromRow (value : String) : Except Error JobStatus :=
  match jobStatusFromDb value with
  | some status => .ok status
  | none => .error (.processing s!"Unknown job status: {trimQuotes value}")

/-- The status a job was archived with; an unknown one counts as `Dead`. -/
def parseArchivedStatus (value : String) : JobStatus := (jobStatusFromDb value).getD .dead

def dependencyStatusStr : DependencyStatus → String
  | .none => "none"
  | .waiting => "waiting"
  | .satisfied => "satisfied"
  | .failed => "failed"

def dependencyStatusFromDb : String → Option DependencyStatus
  | "none" => some .none
  | "waiting" => some .waiting
  | "satisfied" => some .satisfied
  | "failed" => some .failed
  | _ => none

def dependencyStatusFromRow : Option String → Except Error DependencyStatus
  | none => .ok .none
  | some value =>
      match dependencyStatusFromDb value with
      | some status => .ok status
      | none => .error (.hammerwork (.workflow s!"Invalid dependency status: {value}"))

def parseArchivedDependencyStatus (value : Option String) : DependencyStatus :=
  (value.bind fun value => dependencyStatusFromDb (lowercase (trimQuotes value))).getD .none

def priorityFromI32 (value : Int) : Option JobPriority :=
  match value with
  | 0 => some .background
  | 1 => some .low
  | 2 => some .normal
  | 3 => some .high
  | 4 => some .critical
  | _ => none

def priorityStr : JobPriority → String
  | .background => "background"
  | .low => "low"
  | .normal => "normal"
  | .high => "high"
  | .critical => "critical"

def priorityFromStr (value : String) : Option JobPriority :=
  match lowercase value with
  | "background" | "bg" => some .background
  | "low" | "l" => some .low
  | "normal" | "n" | "default" => some .normal
  | "high" | "h" => some .high
  | "critical" | "crit" | "c" => some .critical
  | _ => none

def resultStorageStr : ResultStorage → String
  | .database => "database"
  | .memory => "memory"
  | .none => "none"

def resultStorageFromDb : Option String → ResultStorage
  | some "database" => .database
  | some "memory" => .memory
  | _ => .none

/-- The nanoseconds of a second. -/
def second : Nat := 1000000000

/-- An unsigned value from a column. -/
def dbInt (value : Int) (column : String) : Except Error Nat :=
  if 0 ≤ value then
    .ok value.toNat
  else
    .error (.hammerwork (.queue s!"{column} read from the database is out of range: {value}"))

def dbSeconds (value : Int) (column : String) : Except Error Duration :=
  (dbInt value column).map (· * second)

/-- The stored timeout: whole seconds, rounded up; none for no time. -/
def timeoutDbSeconds (timeout : Option Duration) : Option Int :=
  (timeout.filter (· ≠ 0)).map fun timeout =>
    (min (timeout / second + if timeout % second > 0 then 1 else 0) 2147483647 : Nat)

def saturatingI64 (value : Nat) : Int := min value 9223372036854775807

/-- Decode a column that may be null. -/
def column {α β : Type} (decode : α → Except Error β) : Option α → Except Error (Option β)
  | none => .ok none
  | some value => (decode value).map some

/-- The value of a decoder that may fail. -/
def decoded {α : Type} : Option α → Except Error α
  | none => .error .json
  | some value => .ok value

-- == payloads

/-- What is archived when, and how. -/
structure ArchivalPolicy where
  archiveCompletedAfter : Option TimeDelta
  archiveFailedAfter : Option TimeDelta
  archiveDeadAfter : Option TimeDelta
  archiveTimedOutAfter : Option TimeDelta
  compressPayloads : Bool
  batchSize : Nat
  enabled : Bool

structure ArchivalConfig where
  compressionLevel : Nat
  verifyCompression : Bool

variable (codec : Codec)

/-- The compressed bytes give back the original. -/
def verifyCompressedPayload (compressed original : Bytes) : Except Error Unit :=
  if codec.decompress compressed = some original then
    .ok ()
  else
    .error (.archive "compressed payload failed verification: it does not decompress to the original payload")

/-- The stored bytes of a payload, whether they are compressed, and the size
of the payload. -/
def encodeArchivedPayload (payload : Json) (policy : ArchivalPolicy) (config : ArchivalConfig) :
    Except Error (Bytes × Bool × Nat) := do
  let json := codec.toVec payload
  let originalSize := json.length
  if !policy.compressPayloads then
    return (json, false, originalSize)
  let compressed := codec.compress config.compressionLevel json
  if compressed.length < originalSize then
    if config.verifyCompression then
      verifyCompressedPayload codec compressed json
    return (compressed, true, originalSize)
  else
    return (json, false, originalSize)

def decodeArchivedPayload (stored : Bytes) (isCompressed : Bool) : Except Error Json :=
  if isCompressed then
    match codec.decompress stored with
    | none => .error .io
    | some bytes => decoded (codec.fromSlice bytes)
  else
    decoded (codec.fromSlice stored)

-- == encryption

def asStr : Json → Option String
  | .string text => some text
  | _ => none

def asBool : Json → Option Bool
  | .bool b => some b
  | _ => none

def asU64 : Json → Option Nat
  | .number text => text.toNat?.filter (· < 2 ^ 64)
  | _ => none

/-- A member of a metadata object. -/
def member (metadata : Json) (name : String) : Option Json := metadata.get? [.key name]

namespace EncryptionColumns

variable (c : EncryptionColumns)

def algorithm : Except Error EncryptionAlgorithm :=
  match c.encryptionAlgorithm with
  | some "AES256GCM" => .ok .aes256Gcm
  | some "ChaCha20Poly1305" => .ok .chaCha20Poly1305
  | some alg => .error (.processing s!"Unknown encryption algorithm: {alg}")
  | none => .error (.processing "Missing encryption algorithm for encrypted job")

/-- The payload was compressed, as its metadata has it. -/
def compressed : Bool :=
  ((c.encryptionMetadata.bind (member · "compressed")).bind asBool).getD false

def decodeConfig : Except Error (Option EncryptionConfig) :=
  if !c.isEncrypted then
    .ok none
  else
    c.algorithm.map fun algorithm => some
      { algorithm
        compressionEnabled := c.compressed
        keyId := c.encryptionKeyId }

def decodeRetentionPolicy (createdAt : DateTime) : Except Error (Option RetentionPolicy) :=
  match c.retentionPolicy with
  | none => .ok none
  | some "KeepIndefinitely" => .ok (some .keepIndefinitely)
  | some "DeleteImmediately" => .ok (some .deleteImmediately)
  | some "UseDefault" => .ok (some .useDefault)
  | some policy =>
      match c.retentionDeleteAt with
      | some deleteAt =>
          if policy = "DeleteAt" then
            .ok (some (.deleteAt deleteAt))
          else if policy = "DeleteAfter" then
            if createdAt ≤ deleteAt then
              .ok (some (.deleteAfter (deleteAt - createdAt).toNat))
            else
              .ok (some .useDefault)
          else
            .error (.processing s!"Unknown retention policy: {policy}")
      | none =>
          .error (.processing s!"Retention policy '{policy}' requires retention_delete_at timestamp")

/-- The metadata of the payload, from its JSON or else from the columns. -/
def decodeMetadata (createdAt : DateTime) (piiFields : List String)
    (retentionPolicy : RetentionPolicy) : EncryptionMetadata :=
  let text (name : String) := (c.encryptionMetadata.bind (member · name)).bind asStr
  let number (name : String) := (c.encryptionMetadata.bind (member · name)).bind asU64
  { algorithm :=
      if c.encryptionAlgorithm = some "ChaCha20Poly1305" then .chaCha20Poly1305 else .aes256Gcm
    keyId := ((text "key_id").or c.encryptionKeyId).getD "unknown"
    configVersion := ((number "config_version").getD 1) % 2 ^ 32
    compressed := c.compressed
    encryptedFields :=
      match c.encryptionMetadata.bind (member · "encrypted_fields") with
      | some (.array items) => items.filterMap asStr
      | _ => piiFields
    retentionPolicy
    encryptedAt := c.encryptedAt.getD createdAt
    deleteAt := c.retentionDeleteAt
    payloadHash := c.payloadHash.getD ""
    formatVersion := min ((number "format_version").getD 0) (2 ^ 32 - 1) }

def decodePayload (createdAt : DateTime) (piiFields : List String) :
    Except Error (Option (EncryptedPayload × EncryptionMetadata)) :=
  if !c.isEncrypted then
    .ok none
  else
    match c.encryptedPayload, c.encryptionNonce, c.encryptionTag with
    | none, _, _ => .error (.processing "Missing encrypted payload for encrypted job")
    | _, none, _ => .error (.processing "Missing encryption nonce for encrypted job")
    | _, _, none => .error (.processing "Missing encryption tag for encrypted job")
    | some data, some nonce, some tag =>
        (c.decodeRetentionPolicy createdAt).map fun policy => some
          ({ ciphertext := codec.base64Encode data
             nonce := codec.base64Encode nonce
             tag := codec.base64Encode tag
             deleteAt := c.retentionDeleteAt },
            c.decodeMetadata createdAt piiFields (policy.getD .useDefault))

/-- The stored name of a retention policy; one too long to represent never
ends. -/
def retentionPolicyStr (metadata : EncryptionMetadata) : String :=
  match metadata.retentionPolicy with
  | .deleteAfter _ => if metadata.deleteAt.isNone then "KeepIndefinitely" else "DeleteAfter"
  | .deleteAt _ => "DeleteAt"
  | .keepIndefinitely => "KeepIndefinitely"
  | .deleteImmediately => "DeleteImmediately"
  | .useDefault => "UseDefault"

/-- The personal fields of a job as stored. -/
def piiFieldsColumn (job : Job) : Option (List String) :=
  if job.piiFields.isEmpty then none else some job.piiFields

/-- The columns for a job that has been sealed. -/
def forJob (job : FullJob) : Except Error EncryptionColumns :=
  if !job.isEncrypted then
    if job.hasEncryption then
      .error (.hammerwork (.encryption s!"Job {job.id} has an encryption config but its payload was not encrypted"))
    else
      .ok { EncryptionColumns.default with piiFields := piiFieldsColumn job.toJob }
  else
    match job.encryptedPayload, job.encryptionMetadata with
    | some encrypted, some metadata => do
        let ciphertext ← decoded (codec.base64Decode encrypted.ciphertext)
        let nonce ← decoded (codec.base64Decode encrypted.nonce)
        let tag ← decoded (codec.base64Decode encrypted.tag)
        return {
          isEncrypted := true
          encryptionKeyId := some metadata.keyId
          encryptionAlgorithm := some (match metadata.algorithm with
            | .aes256Gcm => "AES256GCM"
            | .chaCha20Poly1305 => "ChaCha20Poly1305")
          encryptedPayload := some ciphertext
          encryptionNonce := some nonce
          encryptionTag := some tag
          encryptionMetadata := some (codec.metadataToValue metadata)
          payloadHash := some metadata.payloadHash
          piiFields := piiFieldsColumn job.toJob
          retentionPolicy := some (retentionPolicyStr metadata)
          retentionDeleteAt := metadata.deleteAt
          encryptedAt := some metadata.encryptedAt }
    | _, _ =>
        .error (.hammerwork (.encryption s!"Job {job.id} is marked encrypted but has no encrypted payload"))

end EncryptionColumns

-- == the job table

/-- The columns of a row that are decoded. -/
structure Decoded where
  encryptionConfig : Option EncryptionConfig
  retentionPolicy : Option RetentionPolicy
  encrypted : Option (EncryptedPayload × EncryptionMetadata)
  status : JobStatus
  timeout : Option Duration
  ttl : Option Duration
  maxSizeBytes : Option Nat
  retryStrategy : Option RetryStrategy
  dependencyStatus : DependencyStatus

namespace JobRow

variable (row : JobRow)

/-- The names of the personal fields. -/
def piiFields : List String := row.encryption.piiFields.getD []

def decode : Except Error Decoded := do
  let encryptionConfig ← row.encryption.decodeConfig
  let retentionPolicy ← row.encryption.decodeRetentionPolicy row.createdAt
  let encrypted ← row.encryption.decodePayload codec row.createdAt row.piiFields
  let status ← jobStatusFromRow row.status
  let timeout ← column (dbSeconds · "timeout_seconds") row.timeoutSeconds
  let ttl ← column (dbSeconds · "result_ttl_seconds") row.resultTtlSeconds
  let maxSizeBytes ← column (dbInt · "result_max_size_bytes") row.resultMaxSizeBytes
  let retryStrategy ←
    column (fun value => decoded (codec.strategyFromValue value)) row.retryStrategy
  let dependencyStatus ← dependencyStatusFromRow row.dependencyStatus
  return {
    encryptionConfig, retentionPolicy, encrypted, status, timeout, ttl, maxSizeBytes
    retryStrategy, dependencyStatus }

/-- The job of a row whose columns are decoded. -/
def job (id : JobId) (d : Decoded) : FullJob where
  id := id
  queueName := row.queueName
  payload := row.payload
  status := d.status
  priority := (priorityFromI32 row.priority).getD .normal
  attempts := row.attempts
  maxAttempts := row.maxAttempts
  createdAt := row.createdAt
  scheduledAt := row.scheduledAt
  startedAt := row.startedAt
  completedAt := row.completedAt
  failedAt := row.failedAt
  timedOutAt := row.timedOutAt
  timeout := d.timeout
  errorMessage := row.errorMessage
  cronSchedule := row.cronSchedule
  nextRunAt := row.nextRunAt
  recurring := row.recurring
  timezone := row.timezone
  batchId := row.batchId
  resultConfig :=
    { storage := resultStorageFromDb row.resultStorageType
      ttl := d.ttl
      maxSizeBytes := d.maxSizeBytes }
  resultData := row.resultData
  resultStoredAt := row.resultStoredAt
  resultExpiresAt := row.resultExpiresAt
  retryStrategy := d.retryStrategy
  dependsOn := row.dependsOn
  dependents := row.dependents
  dependencyStatus := d.dependencyStatus
  workflowId := row.workflowId
  workflowName := row.workflowName
  traceId := row.traceId
  correlationId := row.correlationId
  parentSpanId := row.parentSpanId
  spanContext := row.spanContext
  encryptionConfig := d.encryptionConfig
  piiFields := row.piiFields
  retentionPolicy := d.retentionPolicy
  isEncrypted := row.encryption.isEncrypted
  encryptedPayload := d.encrypted.map (·.1)
  encryptionMetadata := d.encrypted.map (·.2)

/-- The job of a row. -/
def intoJob (id : JobId) : Except Error FullJob := (row.decode codec).map (row.job id)

end JobRow

/-- A strategy that is a closure cannot be stored. -/
def retryStrategyJson (job : Job) : Except Error (Option Json) :=
  match job.retryStrategy with
  | none => .ok none
  | some (.custom _) =>
      .error (.processing s!"job {job.id} has a custom retry strategy, which cannot be stored; use Worker::with_default_retry_strategy for custom strategies")
  | some strategy => .ok (some (codec.strategyToValue strategy))

/-- The row of a job, given the columns that are encoded apart. -/
def FullJob.row (job : FullJob) (retryStrategy : Option Json) (encryption : EncryptionColumns) :
    JobRow where
  queueName := job.queueName
  payload := job.payload
  status := job.status.asStr
  priority := job.priority.asI32
  attempts := job.attempts
  maxAttempts := job.maxAttempts
  timeoutSeconds := timeoutDbSeconds job.timeout
  createdAt := job.createdAt
  scheduledAt := job.scheduledAt
  startedAt := job.startedAt
  completedAt := job.completedAt
  failedAt := job.failedAt
  timedOutAt := job.timedOutAt
  errorMessage := job.errorMessage
  cronSchedule := job.cronSchedule
  nextRunAt := job.nextRunAt
  recurring := job.recurring
  timezone := job.timezone
  batchId := job.batchId
  resultData := none
  resultStoredAt := none
  resultExpiresAt := none
  resultStorageType := some (resultStorageStr job.resultConfig.storage)
  resultTtlSeconds := job.resultConfig.ttl.map fun ttl => saturatingI64 (ttl / second)
  resultMaxSizeBytes := job.resultConfig.maxSizeBytes.map saturatingI64
  dependsOn := job.dependsOn
  dependents := job.dependents
  dependencyStatus := some (dependencyStatusStr job.dependencyStatus)
  workflowId := job.workflowId
  workflowName := job.workflowName
  traceId := job.traceId
  correlationId := job.correlationId
  parentSpanId := job.parentSpanId
  spanContext := job.spanContext
  retryStrategy := retryStrategy
  encryption := encryption
  archivedAt := none

/-- The row of a job that is inserted. -/
def insertRow (job : FullJob) : Except Error JobRow := do
  let retryStrategy ← retryStrategyJson codec job.toJob
  let encryption ← EncryptionColumns.forJob codec job
  return job.row retryStrategy encryption

/-- A job is inserted, unless there is one of its id. -/
def enqueueWithTx (db : Db) (job : FullJob) : Except Error Db := do
  let row ← insertRow codec job
  if (db.jobs.lookup job.id).isSome then
    throw (.database "duplicate key value violates unique constraint")
  return { db with jobs := db.jobs.insert job.id row }

-- == archiving

/-- The statuses a policy archives, each with its age and the time it is
measured from. -/
def archivalCandidates (policy : ArchivalPolicy) :
    List (Option TimeDelta × JobStatus × (JobRow → Option DateTime)) :=
  [(policy.archiveCompletedAfter, .completed, (·.completedAt)),
    (policy.archiveFailedAfter, .failed, (·.failedAt)),
    (policy.archiveDeadAfter, .dead, (·.failedAt)),
    (policy.archiveTimedOutAfter, .timedOut, (·.timedOutAt))]

/-- The latest time that is of an age; none reaches back before the epoch. -/
def ageThreshold (now : DateTime) (age : TimeDelta) : Option DateTime :=
  if age ≤ 0 then some now else (checkedAddSigned now (-age)).filter (0 ≤ ·)

/-- The statuses to archive, with the latest time of each. -/
def statusConditions (policy : ArchivalPolicy) (now : DateTime) :
    List (DateTime × JobStatus × (JobRow → Option DateTime)) :=
  (archivalCandidates policy).filterMap fun (after, candidate) =>
    (after.bind (ageThreshold now)).map fun threshold => (threshold, candidate)

/-- A row meets one of the conditions. -/
def meets (conditions : List (DateTime × JobStatus × (JobRow → Option DateTime))) (row : JobRow) :
    Bool :=
  conditions.any fun (threshold, status, time) =>
    row.status = status.asStr && (time row).any fun time => time ≤ threshold

/-- The rows to archive, oldest first. -/
def candidates (db : Db) (locked : JobId → Bool) (queueName : Option String)
    (conditions : List (DateTime × JobStatus × (JobRow → Option DateTime))) :
    List (Sigma fun _ : JobId => JobRow) :=
  (db.jobs.entries.filter fun ⟨id, row⟩ =>
    row.archivedAt.isNone && (queueName.all fun queue => row.queueName = queue)
      && meets conditions row && !locked id).mergeSort fun a b => a.2.createdAt ≤ b.2.createdAt

/-- The jobs of a batch of up to `wanted` rows: a row that cannot be decoded
is skipped, and the batch is filled up with the rows after it. -/
def selectJobs (wanted : Nat) (rows : List (Sigma fun _ : JobId => JobRow)) : List FullJob :=
  if wanted = 0 then
    []
  else
    let fetched := rows.take wanted
    let jobs := fetched.filterMap fun ⟨id, row⟩ => (row.intoJob codec id).toOption
    if jobs.length = fetched.length ∨ fetched.length < wanted then
      jobs
    else
      jobs ++ selectJobs (wanted - jobs.length) (rows.drop wanted)
termination_by rows.length
decreasing_by
  simp only [fetched, List.length_take] at *
  simp only [List.length_drop]
  omega

/-- Why and by whom jobs are archived, and when by the worker's clock. -/
structure Archiving where
  reason : String
  archivedBy : Option String
  archivedAt : DateTime

/-- The archive row of a job, without its encryption columns. -/
def archiveRow (job : FullJob) (payload : Bytes) (compressed : Bool) (size : Nat)
    (by_ : Archiving) : ArchiveRow where
  queueName := job.queueName
  payload := payload
  payloadCompressed := compressed
  originalPayloadSize := size
  status := job.status.asStr
  priority := priorityStr job.priority
  attempts := job.attempts
  maxAttempts := job.maxAttempts
  createdAt := job.createdAt
  scheduledAt := job.scheduledAt
  startedAt := job.startedAt
  completedAt := job.completedAt
  failedAt := job.failedAt
  timedOutAt := job.timedOutAt
  archivedAt := by_.archivedAt
  errorMessage := job.errorMessage
  result := job.resultData
  resultTtl := job.resultExpiresAt
  retryStrategy := job.retryStrategy.map codec.strategyToString
  timeoutSeconds := timeoutDbSeconds job.timeout
  cronSchedule := job.cronSchedule
  nextRunAt := job.nextRunAt
  recurring := job.recurring
  timezone := job.timezone
  batchId := job.batchId
  dependsOn := some job.dependsOn
  dependencyStatus := some (dependencyStatusStr job.dependencyStatus)
  resultConfig := some (codec.resultConfigToValue job.resultConfig)
  traceId := job.traceId
  correlationId := job.correlationId
  parentSpanId := job.parentSpanId
  spanContext := job.spanContext
  archivalReason := by_.reason
  archivedBy := by_.archivedBy
  originalTable := "hammerwork_jobs"
  workflowId := job.workflowId
  workflowName := job.workflowName
  encryption := .default

/-- The encryption columns of a job are copied. -/
def copiesEncryption (job : Job) : Bool := job.isEncrypted || !job.piiFields.isEmpty

/-- The selected jobs are inserted into the archive table. -/
def insertArchived (policy : ArchivalPolicy) (config : ArchivalConfig) (by_ : Archiving) :
    List FullJob → Table JobId ArchiveRow → Except Error (Table JobId ArchiveRow)
  | [], archive => .ok archive
  | job :: jobs, archive => do
      let (payload, compressed, size) ← encodeArchivedPayload codec job.payload policy config
      if (archive.lookup job.id).isSome then
        throw (.database "duplicate key value violates unique constraint")
      insertArchived policy config by_ jobs
        (archive.insert job.id (archiveRow codec job payload compressed size by_))

/-- One batch of archiving, in one transaction at `now` by the database
clock. -/
def archiveJobsOnce (db : Db) (locked : JobId → Bool) (queueName : Option String)
    (policy : ArchivalPolicy) (config : ArchivalConfig) (by_ : Archiving) (now : DateTime) :
    Except Error Nat × Db :=
  let conditions := statusConditions policy now
  if !policy.enabled || conditions.isEmpty || policy.batchSize = 0 then
    (.ok 0, db)
  else
    transaction db do
      let jobs := selectJobs codec policy.batchSize (candidates db locked queueName conditions)
      let archive ← insertArchived codec policy config by_ jobs db.archive
      let encryptedIds := (jobs.filter fun job => copiesEncryption job.toJob).map (·.id)
      -- the encryption columns are moved as they are
      let archive := archive.mapVals fun id row =>
        match db.jobs.lookup id with
        | some src => if id ∈ encryptedIds then { row with encryption := src.encryption } else row
        | none => row
      let left := (jobs.map (·.id)).foldl (fun left id => left.erase id) db.jobs
      return (jobs.length, { jobs := left, archive := archive })

-- == restoring

/-- The job of an archive row, given the columns that are decoded. -/
def ArchiveRow.job (id : JobId) (row : ArchiveRow) (payload : Json) (timeout : Option Duration)
    (resultConfig : Option ResultConfig) (retryStrategy : Option RetryStrategy) : FullJob where
  id := id
  queueName := row.queueName
  payload := payload
  status := .archived
  priority := (priorityFromStr row.priority).getD .normal
  attempts := row.attempts
  maxAttempts := row.maxAttempts
  createdAt := row.createdAt
  scheduledAt := row.scheduledAt
  startedAt := row.startedAt
  completedAt := row.completedAt
  failedAt := row.failedAt
  timedOutAt := row.timedOutAt
  timeout := timeout
  errorMessage := row.errorMessage
  cronSchedule := row.cronSchedule
  nextRunAt := row.nextRunAt
  recurring := row.recurring
  timezone := row.timezone
  batchId := row.batchId
  resultConfig := resultConfig.getD { storage := .none, ttl := none, maxSizeBytes := none }
  resultData := row.result
  resultStoredAt := none
  resultExpiresAt := row.resultTtl
  retryStrategy := retryStrategy
  dependsOn := row.dependsOn.getD []
  dependents := []
  dependencyStatus := parseArchivedDependencyStatus row.dependencyStatus
  workflowId := row.workflowId
  workflowName := row.workflowName
  traceId := row.traceId
  correlationId := row.correlationId
  parentSpanId := row.parentSpanId
  spanContext := row.spanContext
  encryptionConfig := none
  piiFields := row.encryption.piiFields.getD []
  retentionPolicy := none
  isEncrypted := row.encryption.isEncrypted
  encryptedPayload := none
  encryptionMetadata := none

/-- The job of an archive row. -/
def archivedJobFromRow (id : JobId) (row : ArchiveRow) : Except Error FullJob := do
  let payload ← decodeArchivedPayload codec row.payload row.payloadCompressed
  let timeout ← column (dbSeconds · "timeout_seconds") row.timeoutSeconds
  let resultConfig ←
    column (fun value => decoded (codec.resultConfigFromValue value)) row.resultConfig
  let retryStrategy ←
    column (fun text => decoded (codec.strategyFromStr text)) row.retryStrategy
  return row.job id payload timeout resultConfig retryStrategy

/-- The job can be processed again. -/
def resetForRestore (job : FullJob) (now : DateTime) : FullJob :=
  { job with
    status := .pending
    attempts := 0
    scheduledAt := now
    startedAt := none
    completedAt := none
    failedAt := none
    timedOutAt := none
    errorMessage := none
    resultData := none
    resultStoredAt := none
    resultExpiresAt := none }

/-- The status of a dependency: of its row, or else of its archive row. -/
def dependencyStates (db : Db) (id : JobId) : Option JobStatus :=
  match (db.jobs.lookup id).bind fun row => jobStatusFromDb row.status with
  | some status => some status
  | none => (db.archive.lookup id).map fun row => parseArchivedStatus row.status

/-- The dependency status of a restored job: its dependencies may have
finished since it was archived. -/
def restoredStatus (db : Db) (job : FullJob) : Except Error DependencyStatus :=
  if job.dependsOn.isEmpty then
    .ok job.dependencyStatus
  else
    (reevaluateDependencies job.toJob (dependencyStates db) "restored").mapError .hammerwork

/-- A job is restored from the archive, in one transaction, at `now` by the
caller's clock. -/
def restoreArchivedJobOnce (db : Db) (jobId : JobId) (now : DateTime) : Except Error FullJob × Db :=
  transaction db do
    let row ← match db.archive.lookup jobId with
      | some row => .ok row
      | none => .error (.hammerwork (jobNotFound jobId))
    let job ← archivedJobFromRow codec jobId row
    let job := resetForRestore job now
    let status ← restoredStatus db job
    let job := { job with dependencyStatus := status }
    -- a row that an older version left in the job table
    let jobs :=
      if (db.jobs.lookup jobId).any (·.archivedAt.isSome) then db.jobs.erase jobId else db.jobs
    let inserted ← enqueueWithTx codec { db with jobs := jobs } { job with isEncrypted := false }
    let jobs :=
      if copiesEncryption job.toJob then
        inserted.jobs.modify jobId fun dst => { dst with encryption := row.encryption }
      else
        inserted.jobs
    return (job, { jobs := jobs, archive := db.archive.erase jobId })

end Archive

end Hammerwork
