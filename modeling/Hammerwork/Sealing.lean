/-
Sealing a job, down to the columns of its row.

Sealing encrypts a job's payload, or the personal fields of it, and records
how: the metadata of the encrypted payload. When the data is to be deleted
is worked out from the job's retention policy at that time.

What the ciphers return for a payload and its associated data is a
parameter of the engine. The statistics of an engine are left out.
-/
import Hammerwork.Archive

namespace Hammerwork

namespace Sealing

open Archive

inductive SealError where
  | invalidConfiguration (message : String)
  | fields (error : EncryptionError)
  | encryption (message : String)

-- == retention

/-- A span as a signed one, unless it is too long. -/
def fromStd (duration : Duration) : Option TimeDelta :=
  if (duration : Int) ≤ maxTimeDelta then some duration else none

/-- When data created at `createdAt` is to be deleted; never, if that time
cannot be represented. -/
def calculateDeletionTime (policy : RetentionPolicy) (createdAt : DateTime)
    (completedAt : Option DateTime) (defaultRetention : Option Duration) : Option DateTime :=
  match policy with
  | .deleteAfter duration => (fromStd duration).bind (checkedAddSigned createdAt)
  | .deleteAt timestamp => some timestamp
  | .keepIndefinitely => none
  | .deleteImmediately => completedAt.or (some createdAt)
  | .useDefault =>
      defaultRetention.bind fun duration => (fromStd duration).bind (checkedAddSigned createdAt)

-- == engines

/-- What the ciphers return. -/
structure Ciphertext where
  payloadHash : String
  ciphertext : Bytes
  nonce : Bytes
  tag : Bytes

/-- An engine: its configuration, and what its ciphers return for a payload
and its associated data. -/
structure Engine where
  algorithm : EncryptionAlgorithm
  configKeyId : Option String
  version : Nat
  compressionEnabled : Bool
  defaultRetention : Option Duration
  encryptData : Json → Bytes → Except String Ciphertext

/-- Id of the key the engine encrypts with. -/
def Engine.keyId (engine : Engine) : String := engine.configKeyId.getD "default"

/-- The format of a ciphertext without associated data. -/
def formatUnbound : Nat := 0

/-- The format of a ciphertext bound to its job. -/
def formatJobBound : Nat := 1

/-- New metadata, at the time `now`. -/
def newMetadata (engine : Engine) (encryptedFields : List String)
    (retentionPolicy : RetentionPolicy) (payloadHash : String) (now : DateTime) :
    EncryptionMetadata where
  algorithm := engine.algorithm
  keyId := engine.configKeyId.getD "default"
  configVersion := engine.version
  compressed := engine.compressionEnabled
  encryptedFields := encryptedFields
  retentionPolicy := retentionPolicy
  encryptedAt := now
  deleteAt := calculateDeletionTime retentionPolicy now none engine.defaultRetention
  payloadHash := payloadHash
  formatVersion := formatUnbound

/-- Encrypt a payload, at the time `now`. -/
def encryptPayload (codec : Codec) (engine : Engine) (payload : Json) (piiFields : List String)
    (retentionPolicy : RetentionPolicy) (associatedData : Bytes) (now : DateTime) :
    Except SealError (EncryptedPayload × EncryptionMetadata) :=
  match engine.encryptData payload associatedData with
  | .error message => .error (.encryption message)
  | .ok encrypted =>
      let metadata := newMetadata engine piiFields retentionPolicy encrypted.payloadHash now
      let metadata := { metadata with
        keyId := engine.keyId
        deleteAt := calculateDeletionTime metadata.retentionPolicy metadata.encryptedAt none
          engine.defaultRetention }
      .ok
        ({ ciphertext := codec.base64Encode encrypted.ciphertext
           nonce := codec.base64Encode encrypted.nonce
           tag := codec.base64Encode encrypted.tag
           deleteAt := metadata.deleteAt },
          metadata)

-- == associated data

/-- The bytes of a number, the most significant first. -/
def toBeBytes (width n : Nat) : Bytes :=
  (List.range width).map fun i => UInt8.ofNat (n / 256 ^ (width - 1 - i))

def jobAadContext : String := "hammerwork/job-payload/v1"

/-- A value with its length before it. -/
def push (out bytes : Bytes) : Bytes := out ++ toBeBytes 8 bytes.length ++ bytes

def pushText (out : Bytes) (text : String) : Bytes := push out text.toUTF8.toList

def pushList (out : Bytes) (items : List String) : Bytes :=
  items.foldl pushText (out ++ toBeBytes 8 items.length)

/-- The data that binds a ciphertext to its job. -/
def jobAssociatedData (jobId : JobId) (queueName keyId : String) (algorithm : EncryptionAlgorithm)
    (piiFields encryptedFields : List String) : Bytes :=
  let out := pushText [] jobAadContext
  let out := push out (toBeBytes 16 jobId)
  let out := pushText out queueName
  let out := pushText out keyId
  let out := pushText out algorithm.debugStr
  let out := pushList out piiFields
  pushList out encryptedFields

-- == sealing

/-- The payload stored in place of one that is encrypted as a whole. -/
def encryptedPayloadPlaceholder : Json := .object [("encrypted", .bool true)]

/-- The payload to store, and what was encrypted. -/
def sealPayload (codec : Codec) (engine : Engine) (job : FullJob)
    (retentionPolicy : RetentionPolicy) (now : DateTime) :
    Except SealError (Json × EncryptedPayload × EncryptionMetadata) :=
  let aad := jobAssociatedData job.id job.queueName engine.keyId engine.algorithm job.piiFields
  if job.piiFields.isEmpty then do
    let encrypted ← encryptPayload codec engine job.payload [] retentionPolicy (aad []) now
    return (encryptedPayloadPlaceholder, encrypted)
  else
    match redactFields job.payload job.piiFields with
    | .error e => .error (.fields e)
    | .ok (redacted, removed, found) => do
        let encrypted ← encryptPayload codec engine removed found retentionPolicy (aad found) now
        return (redacted, encrypted)

/-- Encrypt the payload of a job that asks for it, at the time `now`. -/
def sealJob (codec : Codec) (engine : Engine) (now : DateTime) (job : FullJob) :
    Except SealError FullJob :=
  match job.encryptionConfig with
  | none => .ok job
  | some config =>
      if job.isEncrypted then
        .ok job
      else if config.algorithm ≠ engine.algorithm then
        .error (.invalidConfiguration s!"Job {job.id} asks for {config.algorithm.debugStr} but the queue's encryption engine uses {engine.algorithm.debugStr}")
      else
        match config.keyId.filter (· ≠ engine.keyId) with
        | some keyId =>
            .error (.invalidConfiguration s!"Job {job.id} asks for key '{keyId}' but the queue's encryption engine encrypts with key '{engine.keyId}'")
        | none => do
            let (storedPayload, encrypted, metadata) ←
              sealPayload codec engine job (job.retentionPolicy.getD .useDefault) now
            return { job with
              payload := storedPayload
              isEncrypted := true
              encryptedPayload := some encrypted
              encryptionMetadata := some { metadata with formatVersion := formatJobBound } }

-- == rows

/-- Decode the encryption configuration, the retention policy and the
encrypted payload of a row. -/
def decode (codec : Codec) (columns : EncryptionColumns) (createdAt : DateTime)
    (piiFields : List String) :
    Except Archive.Error (Option EncryptionConfig × Option RetentionPolicy ×
      Option (EncryptedPayload × EncryptionMetadata)) := do
  let config ← columns.decodeConfig
  let retentionPolicy ← columns.decodeRetentionPolicy createdAt
  let encrypted ← columns.decodePayload codec createdAt piiFields
  return (config, retentionPolicy, encrypted)

end Sealing

end Hammerwork
