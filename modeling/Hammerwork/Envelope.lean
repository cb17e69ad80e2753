/-
Envelope encryption: data keys generated by a KMS and stored wrapped.

A KMS never hands out the same data key twice, so what is stored is the
KMS-encrypted form of a key; every process decrypts that. Stored keys are
scoped by name, provider and KMS key, and versioned in their scope: one
version is active, the earlier ones are kept to read what was written
under them. The functions here are cut where the code calls the store;
what runs between two calls is one function.

The KMS is a parameter. The randomness of a generated key is a number the
KMS is given, and an id is made by whoever asks for one.
-/
import Hammerwork.Job
import Mathlib.Data.List.Sort
import Mathlib.Algebra.Ring.Nat

namespace Hammerwork

namespace Kms

abbrev Bytes := List UInt8

inductive EncryptionError where
  | keyManagement (message : String)
  | encryptionFailed (message : String)
  | decryptionFailed (message : String)
  | fieldProcessing (message : String)
  | serialization (message : String)
  | base64 (message : String)
  | cryptographic (message : String)
  | databaseError (message : String)
  deriving DecidableEq, Repr

/-- The text of an error. -/
def EncryptionError.display : EncryptionError → String
  | .keyManagement message => s!"Key management error: {message}"
  | .encryptionFailed message => s!"Encryption failed: {message}"
  | .decryptionFailed message => s!"Decryption failed: {message}"
  | .fieldProcessing message => s!"Field processing error: {message}"
  | .serialization message => s!"Serialization error: {message}"
  | .base64 message => s!"Base64 error: {message}"
  | .cryptographic message => s!"Cryptographic error: {message}"
  | .databaseError message => s!"Database error: {message}"

/-- A generated data key: the plaintext and its KMS-encrypted form. -/
structure DataKey where
  plaintext : Bytes
  ciphertext : Bytes

/-- A KMS key. A data key is bound to the context it was generated in. -/
structure KmsKeyWrapper where
  provider : String
  kmsKeyId : String
  generateDataKey : Nat → Nat → String → Except EncryptionError DataKey
  decrypt : Bytes → String → Except EncryptionError Bytes

-- == the store

/-- A stored key. -/
structure KmsWrappedKey where
  id : Nat
  keyName : String
  kmsProvider : String
  kmsKeyId : String
  version : Nat
  keySize : Nat
  wrappedKey : Bytes
  active : Bool
  deriving DecidableEq

/-- The stored keys, in the order they were inserted. -/
abbrev Store := List KmsWrappedKey

namespace KmsWrappedKey

/-- The key is in the scope. -/
def inScope (keyName kmsProvider kmsKeyId : String) (key : KmsWrappedKey) : Bool :=
  key.keyName = keyName && key.kmsProvider = kmsProvider && key.kmsKeyId = kmsKeyId

def sameScope (a b : KmsWrappedKey) : Bool :=
  a.inScope b.keyName b.kmsProvider b.kmsKeyId

end KmsWrappedKey

/-- The columns of versions and sizes are signed 32-bit integers. -/
def toI32 (value : Nat) (what : String) : Except EncryptionError Unit :=
  if value < 2 ^ 31 then .ok () else .error (.keyManagement s!"{what} {value} is out of range")

namespace Store

/-- A key of the same scope and version is stored. -/
def hasVersion (store : Store) (key : KmsWrappedKey) : Bool :=
  store.any fun k => k.sameScope key && k.version = key.version

/-- Insert a key unless one with the same scope and version exists. -/
def insertIfAbsent (store : Store) (key : KmsWrappedKey) : Except EncryptionError Store := do
  toI32 key.version "key version"
  toI32 key.keySize "key size"
  .ok (if store.hasVersion key then store else store ++ [key])

/-- The store with the keys of a scope retired. -/
def retireScope (store : Store) (key : KmsWrappedKey) : Store :=
  store.map fun k => if k.sameScope key then { k with active := false } else k

/-- Retire the active versions of the key's scope and insert the key;
nothing is written where the version exists. -/
def insertRotated (store : Store) (key : KmsWrappedKey) : Except EncryptionError Store := do
  toI32 key.version "key version"
  toI32 key.keySize "key size"
  if store.hasVersion key then
    .error (.databaseError "duplicate")
  else
    .ok (store.retireScope key ++ [key])

/-- Every version in a scope, newest first. -/
def loadVersions (store : Store) (keyName kmsProvider kmsKeyId : String) : List KmsWrappedKey :=
  (store.filter (·.inScope keyName kmsProvider kmsKeyId)).insertionSort
    fun a b => b.version ≤ a.version

end Store

-- == the keys

/-- A plaintext key recovered from the KMS, with its stored version. -/
structure EnvelopeKey where
  version : Nat
  key : Bytes
  active : Bool

def newRecord (kms : KmsKeyWrapper) (id : Nat) (keyName : String) (version size : Nat)
    (wrappedKey : Bytes) : Except EncryptionError KmsWrappedKey :=
  if size < 2 ^ 32 then
    .ok ⟨id, keyName, kms.provider, kms.kmsKeyId, version, size, wrappedKey, true⟩
  else
    .error (.keyManagement s!"Unsupported key size {size}")

/-- Decrypt a stored key with the KMS and check its size. -/
def unwrap (kms : KmsKeyWrapper) (size : Nat) (record : KmsWrappedKey) :
    Except EncryptionError EnvelopeKey :=
  if record.keySize ≠ size then
    .error (.keyManagement s!"Stored KMS data key {record.keyName} version {record.version} is {record.keySize} bytes, expected {size}")
  else
    match kms.decrypt record.wrappedKey record.keyName with
    | .error e =>
        .error (.keyManagement s!"Failed to decrypt stored data key {record.keyName} version {record.version} with {record.kmsProvider} KMS key {record.kmsKeyId}: {e.display}")
    | .ok key =>
        if key.length ≠ size then
          .error (.keyManagement s!"KMS returned a {key.length}-byte key for {record.keyName} version {record.version}, expected {size}")
        else
          .ok ⟨record.version, key, record.active⟩

def versions (store : Store) (kms : KmsKeyWrapper) (keyName : String) : List KmsWrappedKey :=
  store.loadVersions keyName kms.provider kms.kmsKeyId

def active (versions : List KmsWrappedKey) : Option KmsWrappedKey :=
  versions.find? (·.active)

/-- Generate a data key, and the record that stores it. -/
def generate (kms : KmsKeyWrapper) (seed id : Nat) (keyName : String) (version size : Nat) :
    Except EncryptionError (KmsWrappedKey × Bytes) :=
  match kms.generateDataKey seed size keyName with
  | .error e => .error e
  | .ok dataKey =>
      if dataKey.plaintext.length ≠ size then
        .error (.keyManagement s!"KMS generated a {dataKey.plaintext.length}-byte key, expected {size}")
      else
        match newRecord kms id keyName version size dataKey.ciphertext with
        | .error e => .error e
        | .ok record => .ok (record, dataKey.plaintext)

/-- `load_or_create`, up to its second call of the store: the active key
if there is one; `none` where nothing is stored and a key is to be
created. -/
def loadActive (kms : KmsKeyWrapper) (keyName : String) (size : Nat)
    (existing : List KmsWrappedKey) : Except EncryptionError (Option EnvelopeKey) :=
  match active existing with
  | some record => (unwrap kms size record).map some
  | none =>
      if existing ≠ [] then
        .error (.keyManagement s!"No active KMS data key for {keyName} ({kms.provider} key {kms.kmsKeyId}); refusing to generate a new one while retired versions exist")
      else
        .ok none

/-- `load_or_create`, from its last read on: whoever stored its key first
has won. -/
def loadWinner (kms : KmsKeyWrapper) (keyName : String) (size : Nat) (record : KmsWrappedKey)
    (plaintext : Bytes) (stored : List KmsWrappedKey) : Except EncryptionError EnvelopeKey :=
  match active stored with
  | none =>
      .error (.keyManagement s!"KMS data key for {keyName} was not found after storing it")
  | some winner =>
      if winner.id = record.id then .ok ⟨record.version, plaintext, true⟩
      else unwrap kms size winner

/-- The version a rotation creates. A stored version fits its column, so
adding one stays within 32 bits. -/
def nextVersion (existing : List KmsWrappedKey) : Nat :=
  (existing.map (·.version)).max?.getD 0 + 1

/-- Decrypt the versions that are not known, newest first. -/
def loadNew (kms : KmsKeyWrapper) (size : Nat) (known : Nat → Bool)
    (stored : List KmsWrappedKey) : Except EncryptionError (List EnvelopeKey) :=
  (stored.filter fun record => !known record.version).mapM (unwrap kms size)

-- == what an engine holds

/-- The keys an engine holds for one key id: the one it encrypts with, and
earlier versions, newest first. -/
structure KeyVersions where
  active : Bytes
  activeVersion : Nat
  previous : List (Nat × Bytes)

namespace KeyVersions

/-- The versions held. -/
def versions (held : KeyVersions) : List Nat :=
  held.activeVersion :: held.previous.map Prod.fst

/-- Add one version. -/
def addOne (held : KeyVersions) (key : EnvelopeKey) : KeyVersions :=
  if held.versions.contains key.version then
    held
  else if key.active && decide (key.version > held.activeVersion) then
    { active := key.key
      activeVersion := key.version
      previous := held.previous ++ [(held.activeVersion, held.active)] }
  else
    { held with previous := held.previous ++ [(key.version, key.key)] }

/-- Add versions loaded from the store. A newer active version becomes the
key used for encryption. -/
def add (held : KeyVersions) (keys : List EnvelopeKey) : KeyVersions :=
  let held := keys.foldl addOne held
  { held with previous := held.previous.insertionSort fun a b => b.1 ≤ a.1 }

/-- The versions loaded from the store, if there are any. -/
def fromEnvelopeKeys : List EnvelopeKey → Option KeyVersions
  | [] => none
  | first :: keys => some (add ⟨first.key, first.version, []⟩ keys)

/-- Every key to try for decryption. -/
def candidates (held : KeyVersions) : List Bytes :=
  held.active :: held.previous.map Prod.snd

end KeyVersions

end Kms

end Hammerwork
