/-
Encryption engines that share a table of KMS-wrapped keys.

An engine encrypts with the active version of its key. When it cannot
decrypt a payload it reads the stored versions it does not hold, adds
them, and tries once more: but only if that reading gave it any. The read
happens without the lock on the engine's keys, between a section that
notes the versions held and one that adds what was loaded.

A call is cut into its sections: what it does between two calls of the
store, or under the lock. The sections of any number of calls, on any
engines, interleave. A call may also never go on.

The ciphers, the hashes, base64, gzip and the JSON text of values are
parameters. Of a payload's metadata only what decryption reads is kept,
and the statistics are left out.
-/
import Hammerwork.Envelope
import Hammerwork.Lib.Run
import Mathlib.Logic.Function.Basic

namespace Hammerwork

/-- The size of the algorithm's keys. -/
def EncryptionConfig.keySizeBytes (config : EncryptionConfig) : Nat :=
  match config.algorithm with
  | .aes256Gcm => 32
  | .chaCha20Poly1305 => 32

namespace Kms

/-- What encryption is made of. A cipher takes the key, the nonce, the
data and the associated data, and its ciphertext ends in the tag. -/
structure Primitives where
  toVec : Json → Except String Bytes
  fromSlice : Bytes → Except String Json
  compress : Bytes → Except String Bytes
  decompress : Bytes → Except String Bytes
  encode : Bytes → String
  decode : String → Except String Bytes
  encrypt : EncryptionAlgorithm → Bytes → Bytes → Bytes → Bytes → Except String Bytes
  decrypt : EncryptionAlgorithm → Bytes → Bytes → Bytes → Bytes → Except String Bytes
  hmac : Bytes → Bytes → Except String String
  sha256 : Bytes → String

-- == one payload

def nonceSize : Nat := 12
def tagSize : Nat := 16
def keySize : Nat := 32
def keyedHashPrefix : String := "hmac-sha256:"

structure EncryptionMetadata where
  algorithm : EncryptionAlgorithm
  keyId : String
  compressed : Bool
  payloadHash : String

structure EncryptedPayload where
  ciphertext : String
  nonce : String
  tag : String
  metadata : EncryptionMetadata

/-- Id of the key an engine encrypts with. -/
def keyId (config : EncryptionConfig) : String := config.keyId.getD "default"

/-- Name of a key in the table. -/
def kmsKeyName (keyId : String) : String := s!"engine/{keyId}"

section Payload

variable (prims : Primitives)

def checkKeySize (key : Bytes) : Except EncryptionError Unit :=
  if key.length = keySize then .ok ()
  else .error (.keyManagement s!"Invalid key size: expected {keySize} bytes, got {key.length}")

def keyedPayloadHash (key data : Bytes) : Except EncryptionError String :=
  match prims.hmac key data with
  | .error e => .error (.cryptographic s!"HMAC key error: {e}")
  | .ok digest => .ok (keyedHashPrefix ++ digest)

/-- A cipher's name in its error messages. -/
def shortName : EncryptionAlgorithm → String
  | .aes256Gcm => "AES"
  | .chaCha20Poly1305 => "ChaCha20"

/-- The ciphertext and the tag. -/
def encryptData (algorithm : EncryptionAlgorithm) (key nonce data aad : Bytes) :
    Except EncryptionError (Bytes × Bytes) := do
  checkKeySize key
  match prims.encrypt algorithm key nonce data aad with
  | .error e => .error (.encryptionFailed s!"{shortName algorithm} encryption failed: {e}")
  | .ok sealed =>
      let tagStart := sealed.length - tagSize
      .ok (sealed.take tagStart, sealed.drop tagStart)

def decryptData (algorithm : EncryptionAlgorithm) (ciphertext nonce tag key aad : Bytes) :
    Except EncryptionError Bytes := do
  checkKeySize key
  if nonce.length ≠ nonceSize ∨ tag.length ≠ tagSize then
    .error (.decryptionFailed s!"Invalid nonce or tag size ({nonce.length} and {tag.length} bytes, expected {nonceSize} and {tagSize})")
  else
    match prims.decrypt algorithm key nonce (ciphertext ++ tag) aad with
    | .error e => .error (.decryptionFailed s!"{shortName algorithm} decryption failed: {e}")
    | .ok data => .ok data

/-- The data to encrypt. -/
def packed (compressed : Bool) (bytes : Bytes) : Except EncryptionError Bytes :=
  if compressed then
    (prims.compress bytes).mapError fun e => .fieldProcessing s!"Compression failed: {e}"
  else
    .ok bytes

/-- The payload of decrypted data. -/
def unpacked (compressed : Bool) (data : Bytes) : Except EncryptionError Bytes :=
  if compressed then
    (prims.decompress data).mapError fun e => .fieldProcessing s!"Decompression failed: {e}"
  else
    .ok data

def encryptValue (config : EncryptionConfig) (key nonce : Bytes) (payload : Json) (aad : Bytes) :
    Except EncryptionError EncryptedPayload := do
  let bytes ← (prims.toVec payload).mapError .serialization
  let payloadHash ← keyedPayloadHash prims key bytes
  let data ← packed prims config.compressionEnabled bytes
  let (ciphertext, tag) ← encryptData prims config.algorithm key nonce data aad
  .ok
    { ciphertext := prims.encode ciphertext
      nonce := prims.encode nonce
      tag := prims.encode tag
      metadata := ⟨config.algorithm, keyId config, config.compressionEnabled, payloadHash⟩ }

/-- The first key that decrypts, and what it gives; otherwise the error of
the first key tried. -/
def firstDecrypted (decrypted : Bytes → Except EncryptionError Bytes) :
    Option EncryptionError → List Bytes → Except EncryptionError (Bytes × Bytes)
  | firstError, [] =>
      .error (firstError.getD (.decryptionFailed "no key could decrypt the payload"))
  | firstError, key :: keys =>
      match decrypted key with
      | .ok data => .ok (key, data)
      | .error e => firstDecrypted decrypted (firstError.or (some e)) keys

/-- The payload in decrypted data, if its hash is the one recorded. -/
def verified (metadata : EncryptionMetadata) (key data : Bytes) : Except EncryptionError Json := do
  let bytes ← unpacked prims metadata.compressed data
  let calculated ←
    if keyedHashPrefix.toList.isPrefixOf metadata.payloadHash.toList then
      keyedPayloadHash prims key bytes
    else
      .ok (prims.sha256 bytes)
  if calculated ≠ metadata.payloadHash then
    .error (.decryptionFailed "Payload integrity check failed")
  else
    (prims.fromSlice bytes).mapError .serialization

def decryptValue (candidates : Option (List Bytes)) (payload : EncryptedPayload) (aad : Bytes) :
    Except EncryptionError Json :=
  match candidates with
  | none =>
      .error (.keyManagement s!"Key not found: {payload.metadata.keyId} (the payload was encrypted with a key this engine does not have; see EncryptionEngine::with_decryption_key)")
  | some candidates => do
      let ciphertext ← (prims.decode payload.ciphertext).mapError .base64
      let nonce ← (prims.decode payload.nonce).mapError .base64
      let tag ← (prims.decode payload.tag).mapError .base64
      let (key, data) ← firstDecrypted
        (fun key => decryptData prims payload.metadata.algorithm ciphertext nonce tag key aad)
        none candidates
      verified prims payload.metadata key data

end Payload

-- == engines

/-- An engine: its settings, and the keys it holds by key id. -/
structure Engine where
  config : EncryptionConfig
  keys : String → Option KeyVersions

/-- The versions the engine holds of a key. -/
def Engine.versions (engine : Engine) (keyId : String) : List Nat :=
  ((engine.keys keyId).map KeyVersions.versions).getD []

/-- Put loaded keys into the entry of a key id. -/
def merge (loaded : List EnvelopeKey) : Option KeyVersions → Option KeyVersions
  | some held => some (held.add loaded)
  | none => KeyVersions.fromEnvelopeKeys loaded

/-- Put loaded keys into the key map. -/
def Engine.merge (engine : Engine) (keyId : String) (loaded : List EnvelopeKey) : Engine :=
  { engine with
    keys := Function.update engine.keys keyId (Kms.merge loaded (engine.keys keyId)) }

/-- The table, and the engines that were started. -/
structure Fleet where
  store : Store
  engines : List Engine

/-- Replace an engine. -/
def Fleet.setEngine (fleet : Fleet) (e : Nat) (engine : Engine) : Fleet :=
  { fleet with engines := fleet.engines.set e engine }

-- == calls

inductive Call where
  | withKmsStore (config : EncryptionConfig)
  | rotateKmsKeyIn (e : Nat)
  | reloadKmsKeys (e : Nat)
  | encrypt (e : Nat) (payload : Json) (aad : Bytes)
  | decrypt (e : Nat) (payload : EncryptedPayload) (aad : Bytes)

/-- The engine a call is made on. -/
def Call.engine : Call → Option Nat
  | .withKmsStore _ => none
  | .rotateKmsKeyIn e | .reloadKmsKeys e | .encrypt e .. | .decrypt e .. => some e

inductive Outcome where
  | started (e : Nat)
  | rotated (version : Nat)
  | reloaded (added : Bool)
  | encrypted (payload : EncryptedPayload)
  | decrypted (payload : Json)
  | failed (error : EncryptionError)

/-- Where a call is. A reload knows the error of the decryption it is for,
if it is for one. -/
inductive Phase where
  | begun
  | inserting (record : KmsWrappedKey) (plaintext : Bytes)
  | confirming (record : KmsWrappedKey) (plaintext : Bytes)
  | extending (key : EnvelopeKey)
  | rotating (record : KmsWrappedKey) (plaintext : Bytes)
  | adding (key : EnvelopeKey)
  | reloading (failure : EncryptionError)
  | loading (failure : Option EncryptionError) (known : List Nat)
  | merging (failure : Option EncryptionError) (loaded : List EnvelopeKey)
  | retrying
  | done (outcome : Outcome)

/-- A call in progress. -/
structure Task where
  call : Call
  phase : Phase

/-- The random choices of a section: a seed for the KMS, and a nonce. -/
structure Dice where
  seed : Nat
  nonce : Bytes
  nonce_length : nonce.length = nonceSize

namespace Fleet

variable (kms : KmsKeyWrapper) (prims : Primitives)

/-- A new engine with its keys. -/
def started (fleet : Fleet) (config : EncryptionConfig) (held : KeyVersions) : Phase × Fleet :=
  (.done (.started fleet.engines.length),
    { fleet with engines := fleet.engines ++
        [⟨config, Function.update (fun _ => none) (keyId config) (some held)⟩] })

/-- With the active key at hand: earlier versions are loaded too. -/
def opened (fleet : Fleet) (config : EncryptionConfig) (key : EnvelopeKey) : Phase × Fleet :=
  if key.version > 1 then
    (.extending key, fleet)
  else
    fleet.started config ⟨key.key, key.version, []⟩

/-- The next section of `with_kms_store`. -/
def nextStart (fleet : Fleet) (id seed : Nat) (config : EncryptionConfig) :
    Phase → Phase × Fleet
  | .begun =>
      let keyName := kmsKeyName (keyId config)
      match loadActive kms keyName config.keySizeBytes (versions fleet.store kms keyName) with
      | .error e => (.done (.failed e), fleet)
      | .ok (some key) => fleet.opened config key
      | .ok none =>
          match generate kms seed id keyName 1 config.keySizeBytes with
          | .error e => (.done (.failed e), fleet)
          | .ok (record, plaintext) => (.inserting record plaintext, fleet)
  | .inserting record plaintext =>
      match fleet.store.insertIfAbsent record with
      | .error e => (.done (.failed e), fleet)
      | .ok store => (.confirming record plaintext, { fleet with store := store })
  | .confirming record plaintext =>
      let keyName := kmsKeyName (keyId config)
      match loadWinner kms keyName config.keySizeBytes record plaintext
        (versions fleet.store kms keyName) with
      | .error e => (.done (.failed e), fleet)
      | .ok key => fleet.opened config key
  | .extending key =>
      let keyName := kmsKeyName (keyId config)
      match loadNew kms config.keySizeBytes (· == key.version)
        (versions fleet.store kms keyName) with
      | .error e => (.done (.failed e), fleet)
      | .ok loaded => fleet.started config (KeyVersions.add ⟨key.key, key.version, []⟩ loaded)
  | phase => (phase, fleet)

/-- The next section of `rotate_kms_key_in`. -/
def nextRotate (fleet : Fleet) (id seed e : Nat) (engine : Engine) : Phase → Phase × Fleet
  | .begun =>
      let keyName := kmsKeyName (keyId engine.config)
      match generate kms seed id keyName (nextVersion (versions fleet.store kms keyName))
        engine.config.keySizeBytes with
      | .error e => (.done (.failed e), fleet)
      | .ok (record, plaintext) => (.rotating record plaintext, fleet)
  | .rotating record plaintext =>
      match fleet.store.insertRotated record with
      | .error e => (.done (.failed e), fleet)
      | .ok store =>
          (.adding ⟨record.version, plaintext, true⟩, { fleet with store := store })
  | .adding key =>
      (.done (.rotated key.version), fleet.setEngine e (engine.merge (keyId engine.config) [key]))
  | phase => (phase, fleet)

/-- How a reload ends that added nothing. -/
def notReloaded (failure : Option EncryptionError) : Phase :=
  match failure with
  | some e => .done (.failed e)
  | none => .done (.reloaded false)

/-- The next section of `reload_kms_key`. -/
def nextReload (fleet : Fleet) (e : Nat) (engine : Engine) (keyId : String) :
    Phase → Phase × Fleet
  | .loading failure known =>
      match loadNew kms engine.config.keySizeBytes known.contains
        (versions fleet.store kms (kmsKeyName keyId)) with
      | .error e => (.done (.failed (failure.getD e)), fleet)
      | .ok [] => (notReloaded failure, fleet)
      | .ok loaded => (.merging failure loaded, fleet)
  | .merging failure loaded =>
      (if failure.isSome then .retrying else .done (.reloaded true),
        fleet.setEngine e (engine.merge keyId loaded))
  | phase => (phase, fleet)

/-- The next section of `encrypt_payload_with_associated_data`. -/
def nextEncrypt (fleet : Fleet) (nonce : Bytes) (engine : Engine) (payload : Json)
    (aad : Bytes) : Phase × Fleet :=
  match engine.keys (keyId engine.config) with
  | none => (.done (.failed (.keyManagement s!"Key not found: {keyId engine.config}")), fleet)
  | some held =>
      match encryptValue prims engine.config held.active nonce payload aad with
      | .error e => (.done (.failed e), fleet)
      | .ok encrypted => (.done (.encrypted encrypted), fleet)

/-- The next section of `decrypt_payload_with_associated_data`. -/
def nextDecrypt (fleet : Fleet) (e : Nat) (engine : Engine) (payload : EncryptedPayload)
    (aad : Bytes) (phase : Phase) : Phase × Fleet :=
  let keyId := payload.metadata.keyId
  let attempt := decryptValue prims ((engine.keys keyId).map KeyVersions.candidates) payload aad
  match phase with
  | .begun =>
      match attempt with
      | .ok value => (.done (.decrypted value), fleet)
      | .error failure => (.reloading failure, fleet)
  | .reloading failure => (.loading (some failure) (engine.versions keyId), fleet)
  | .retrying =>
      match attempt with
      | .ok value => (.done (.decrypted value), fleet)
      | .error failure => (.done (.failed failure), fleet)
  | phase => fleet.nextReload kms e engine keyId phase

/-- The next section of call number `t`. -/
def next (fleet : Fleet) (t : Nat) (dice : Dice) (task : Task) : Phase × Fleet :=
  match task.call with
  | .withKmsStore config => fleet.nextStart kms t dice.seed config task.phase
  | .rotateKmsKeyIn e =>
      match fleet.engines[e]? with
      | none => (task.phase, fleet)
      | some engine => fleet.nextRotate kms t dice.seed e engine task.phase
  | .reloadKmsKeys e =>
      match fleet.engines[e]? with
      | none => (task.phase, fleet)
      | some engine =>
          match task.phase with
          | .begun => (.loading none (engine.versions (keyId engine.config)), fleet)
          | phase => fleet.nextReload kms e engine (keyId engine.config) phase
  | .encrypt e payload aad =>
      match fleet.engines[e]? with
      | none => (task.phase, fleet)
      | some engine => fleet.nextEncrypt prims dice.nonce engine payload aad
  | .decrypt e payload aad =>
      match fleet.engines[e]? with
      | none => (task.phase, fleet)
      | some engine => fleet.nextDecrypt kms prims e engine payload aad task.phase

end Fleet

-- == the system

/-- The engines, and the calls made so far. -/
structure System where
  fleet : Fleet
  tasks : List Task

/-- Nothing stored, no engine started. -/
def System.new : System := ⟨⟨[], []⟩, []⟩

/-- A call is made, or goes on. -/
inductive Move where
  | call (call : Call)
  | own (t : Nat) (dice : Dice)

/-- The call has not returned. -/
def Phase.Unfinished (phase : Phase) : Prop := ∀ outcome, phase ≠ .done outcome

variable (kms : KmsKeyWrapper) (prims : Primitives)

/-- One step of the system. The id of a stored key is the number of the
call that made it. -/
inductive Step : System → Move → System → Prop
  | call (sys : System) (call : Call) :
      (∀ e, call.engine = some e → e < sys.fleet.engines.length) →
      Step sys (.call call) { sys with tasks := sys.tasks ++ [⟨call, .begun⟩] }
  | own {sys : System} {t : Nat} {task : Task} (dice : Dice) :
      sys.tasks[t]? = some task → task.phase.Unfinished →
      Step sys (.own t dice)
        { fleet := (sys.fleet.next kms prims t dice task).2
          tasks := sys.tasks.set t
            { task with phase := (sys.fleet.next kms prims t dice task).1 } }

end Kms

end Hammerwork
