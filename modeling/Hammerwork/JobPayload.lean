/-
Sealing and opening jobs with an engine that holds keys.

Sealing encrypts with the active key of the engine. It works on the job in
place, so what it does to the job before it fails is seen: the steps here
are those of the source, in its order. Opening reads how a job was sealed
from its metadata, decrypts with the keys the engine holds under the
recorded key id, and puts the fields back.

A decryption that fails reads the stored keys again, and is tried once
more if there were new ones; the engine they leave is a parameter.
-/
import Hammerwork.Engine
import Hammerwork.Sealing

namespace Hammerwork

namespace Sealing

open Archive

-- == an engine

/-- An engine with its keys, and the settings its metadata are made of. -/
structure KeyedEngine extends Kms.Engine where
  version : Nat
  defaultRetention : Option Duration

section

variable (prims : Kms.Primitives)

/-- Encrypt a payload, up to base64. -/
def encryptRaw (config : EncryptionConfig) (key nonce : Bytes) (payload : Json) (aad : Bytes) :
    Except Kms.EncryptionError Ciphertext := do
  let bytes ← (prims.toVec payload).mapError .serialization
  let payloadHash ← Kms.keyedPayloadHash prims key bytes
  let data ← Kms.packed prims config.compressionEnabled bytes
  let (ciphertext, tag) ← Kms.encryptData prims config.algorithm key nonce data aad
  .ok ⟨payloadHash, ciphertext, nonce, tag⟩

/-- What sealing sees of the engine. The next nonce is `nonce`. -/
def KeyedEngine.forSealing (engine : KeyedEngine) (nonce : Bytes) : Engine where
  algorithm := engine.config.algorithm
  configKeyId := engine.config.keyId
  version := engine.version
  compressionEnabled := engine.config.compressionEnabled
  defaultRetention := engine.defaultRetention
  encryptData payload aad :=
    match engine.keys (Kms.keyId engine.config) with
    | none => .error s!"Key management error: Key not found: {Kms.keyId engine.config}"
    | some held =>
        (encryptRaw prims engine.config held.active nonce payload aad).mapError
          Kms.EncryptionError.display

/-- The codec with the base64 of the primitives. -/
def withBase64 (codec : Codec) : Codec := { codec with base64Encode := prims.encode }

-- == in place

/-- Seal a job in place: what is returned, and what the job is then. -/
def sealJobMut (codec : Codec) (engine : Engine) (now : DateTime) (job : FullJob) :
    Except SealError Unit × FullJob :=
  match job.encryptionConfig with
  | none => (.ok (), job)
  | some config =>
      if job.isEncrypted then
        (.ok (), job)
      else if config.algorithm ≠ engine.algorithm then
        (.error (.invalidConfiguration s!"Job {job.id} asks for {config.algorithm.debugStr} but the queue's encryption engine uses {engine.algorithm.debugStr}"), job)
      else
        match config.keyId.filter (· ≠ engine.keyId) with
        | some keyId =>
            (.error (.invalidConfiguration s!"Job {job.id} asks for key '{keyId}' but the queue's encryption engine encrypts with key '{engine.keyId}'"), job)
        | none =>
            match sealPayload codec engine job (job.retentionPolicy.getD .useDefault) now with
            | .error e => (.error e, job)
            | .ok (storedPayload, encrypted, metadata) =>
                let job := { job with payload := storedPayload }
                let job := { job with isEncrypted := true }
                let job := { job with
                  encryptedPayload := some encrypted
                  encryptionMetadata := some { metadata with formatVersion := formatJobBound } }
                (.ok (), job)

-- == opening

inductive OpenError where
  | decryptionFailed (message : String)
  | fields (error : EncryptionError)
  | engine (error : Kms.EncryptionError)

/-- What decryption reads of an encrypted payload and its metadata. -/
def toDecrypt (payload : EncryptedPayload) (metadata : EncryptionMetadata) :
    Kms.EncryptedPayload where
  ciphertext := payload.ciphertext
  nonce := payload.nonce
  tag := payload.tag
  metadata := ⟨metadata.algorithm, metadata.keyId, metadata.compressed, metadata.payloadHash⟩

/-- The keys to try for a key id. -/
def candidates (engine : Kms.Engine) (keyId : String) : Option (List Bytes) :=
  (engine.keys keyId).map Kms.KeyVersions.candidates

/-- Decrypt a payload. When that fails, `reload` is the engine with the
keys another process has stored, if there were any. -/
def decryptPayload (engine : Kms.Engine) (reload : String → Option Kms.Engine)
    (payload : Kms.EncryptedPayload) (aad : Bytes) : Except Kms.EncryptionError Json :=
  let keyId := payload.metadata.keyId
  match Kms.decryptValue prims (candidates engine keyId) payload aad with
  | .ok value => .ok value
  | .error e =>
      match reload keyId with
      | none => .error e
      | some reloaded => Kms.decryptValue prims (candidates reloaded keyId) payload aad

/-- Decrypt what was encrypted of a job, as its format says. -/
def decryptJob (engine : Kms.Engine) (reload : String → Option Kms.Engine) (job : FullJob)
    (encrypted : EncryptedPayload) (metadata : EncryptionMetadata) : Except OpenError Json :=
  let payload := toDecrypt encrypted metadata
  if metadata.formatVersion = formatUnbound then
    (decryptPayload prims engine reload payload []).mapError .engine
  else if metadata.formatVersion = formatJobBound then
    let aad := jobAssociatedData job.id job.queueName metadata.keyId metadata.algorithm
      job.piiFields metadata.encryptedFields
    (decryptPayload prims engine reload payload aad).mapError .engine
  else
    .error (.decryptionFailed s!"Job {job.id} has an encrypted payload in an unknown format ({metadata.formatVersion}); it was written by a newer version of hammerwork")

/-- The payload of a job, from what was decrypted of it. -/
def openedPayload (job : FullJob) (decrypted : Json) : Except OpenError Json :=
  if job.piiFields.isEmpty then
    .ok decrypted
  else
    (restoreFields job.payload decrypted).mapError .fields

/-- Decrypt the payload of a stored job. -/
def openJob (engine : Kms.Engine) (reload : String → Option Kms.Engine) (job : FullJob) :
    Except OpenError FullJob :=
  if !job.isEncrypted then
    .ok job
  else
    match job.encryptedPayload, job.encryptionMetadata with
    | some encrypted, some metadata => do
        let decrypted ← decryptJob prims engine reload job encrypted metadata
        let payload ← openedPayload job decrypted
        return { job with
          payload := payload
          isEncrypted := false
          encryptedPayload := none
          encryptionMetadata := none }
    | _, _ =>
        .error (.decryptionFailed s!"Job {job.id} is marked encrypted but has no encrypted payload")

end

end Sealing

end Hammerwork
