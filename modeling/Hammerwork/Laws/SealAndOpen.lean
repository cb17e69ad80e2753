/-
What is sealed can be opened, by nobody who changes where it belongs.

A sealed job says in its metadata how it was sealed, and its list of
personal fields says whether the payload was encrypted as a whole
(`SealedAs`). Opening follows the same two, so it finds the data the
payload was encrypted with, decrypts what was encrypted, and puts back what
was taken out.

The data is the job's context, and different contexts have different data.
So a job whose context was changed does not open, whatever keys are tried.
-/
import Hammerwork.JobPayload
import Hammerwork.Laws.FieldRedaction
import Hammerwork.Laws.KeyConvergence
import Hammerwork.Laws.SealedColumns
import Hammerwork.Laws.SealedContext

namespace Hammerwork

namespace Sealing

open Archive

variable {prims : Kms.Primitives} {codec : Codec} {engine : Engine} {keyed : KeyedEngine}
  {nonce : Bytes} {now : DateTime} {job sealedJob : FullJob}

-- == in place

/-- A sealing that fails changes nothing; one that succeeds gives the sealed
job. -/
theorem sealJobMut_eq (codec : Codec) (engine : Engine) (now : DateTime) (job : FullJob) :
    sealJobMut codec engine now job =
      match sealJob codec engine now job with
      | .ok sealedJob => (.ok (), sealedJob)
      | .error e => (.error e, job) := by
  unfold sealJobMut sealJob
  cases hconfig : job.encryptionConfig with
  | none => rfl
  | some config =>
      dsimp only
      by_cases hencrypted : job.isEncrypted
      · rw [if_pos hencrypted, if_pos hencrypted]
      · rw [if_neg hencrypted, if_neg hencrypted]
        by_cases halgorithm : config.algorithm ≠ engine.algorithm
        · rw [if_pos halgorithm, if_pos halgorithm]
        · rw [if_neg halgorithm, if_neg halgorithm]
          cases config.keyId.filter (· ≠ engine.keyId) with
          | some keyId => rfl
          | none =>
              dsimp only
              cases sealPayload codec engine job (job.retentionPolicy.getD .useDefault) now with
              | error e => rfl
              | ok sealed => rfl

theorem sealJobMut_ok (h : (sealJobMut codec engine now job).1 = .ok ()) :
    sealJob codec engine now job = .ok (sealJobMut codec engine now job).2 := by
  rw [sealJobMut_eq] at h ⊢
  cases hsealed : sealJob codec engine now job with
  | error e =>
      rw [hsealed] at h
      cases h
  | ok sealed => rfl

/-- A job that is sealed, or does not ask for it, is left as it is. -/
theorem sealJobMut_again {codec' : Codec} {engine' : Engine} {now' : DateTime}
    (h : sealJob codec engine now job = .ok sealedJob) :
    sealJobMut codec' engine' now' sealedJob = (.ok (), sealedJob) := by
  have hdone : sealedJob.encryptionConfig = none ∨ sealedJob.isEncrypted = true := by
    unfold sealJob at h
    split at h
    case h_1 hnone =>
      cases h
      exact .inl hnone
    case h_2 =>
      split at h
      case isTrue hencrypted =>
        cases h
        exact .inr hencrypted
      case isFalse =>
        split at h
        case isTrue => cases h
        case isFalse =>
          split at h
          case h_1 => cases h
          case h_2 =>
            obtain ⟨sealed, -, heq⟩ := bind_eq_ok.1 h
            cases heq
            exact .inr rfl
  unfold sealJobMut
  rcases hdone with hnone | hencrypted
  · rw [hnone]
  · cases sealedJob.encryptionConfig with
    | none => rfl
    | some config =>
        dsimp only
        rw [if_pos hencrypted]

-- == how it was sealed

/-- What a sealing did: what was encrypted and under which key, what is
stored in clear, and what is stored encrypted. -/
structure SealRecord where
  value : Json
  fields : List String
  key : Bytes
  stored : Json
  encrypted : EncryptedPayload
  metadata : EncryptionMetadata

/-- The job it leaves. -/
def SealRecord.apply (r : SealRecord) (job : FullJob) : FullJob :=
  { job with
    payload := r.stored
    isEncrypted := true
    encryptedPayload := some r.encrypted
    encryptionMetadata := some r.metadata }

/-- The record is one of sealing the job: under the active key, the whole
payload if no fields are listed, otherwise what a redaction takes out. -/
structure SealedAs (prims : Kms.Primitives) (keyed : KeyedEngine) (nonce : Bytes) (job : FullJob)
    (r : SealRecord) : Prop where
  format : r.metadata.formatVersion = formatJobBound
  keyId : r.metadata.keyId = Kms.keyId keyed.config
  algorithm : r.metadata.algorithm = keyed.config.algorithm
  encryptedFields : r.metadata.encryptedFields = r.fields
  held : ∃ held, keyed.keys (Kms.keyId keyed.config) = some held ∧ held.active = r.key
  encrypts : Kms.encryptValue prims keyed.config r.key nonce r.value
    (jobAssociatedData job.id job.queueName (Kms.keyId keyed.config) keyed.config.algorithm
      job.piiFields r.fields) = .ok (toDecrypt r.encrypted r.metadata)
  whole : job.piiFields.isEmpty = true → r.value = job.payload
  parts : job.piiFields.isEmpty = false →
    redactFields job.payload job.piiFields = .ok (r.stored, r.value, r.fields)

/-- What decryption reads of a payload was encrypted under the active key. -/
theorem encryptValue_of_encryptPayload {aad : Bytes} {payload : Json} {fields : List String}
    {policy : RetentionPolicy} {r : EncryptedPayload × EncryptionMetadata}
    (h : encryptPayload (withBase64 prims codec) (keyed.forSealing prims nonce) payload fields
      policy aad now = .ok r) :
    r.2.keyId = Kms.keyId keyed.config ∧ r.2.algorithm = keyed.config.algorithm ∧
      r.2.encryptedFields = fields ∧
      ∃ held, keyed.keys (Kms.keyId keyed.config) = some held ∧
        Kms.encryptValue prims keyed.config held.active nonce payload aad =
          .ok (toDecrypt r.1 r.2) := by
  unfold encryptPayload at h
  split at h
  case h_1 => cases h
  case h_2 data hdata =>
    cases h
    refine ⟨rfl, rfl, rfl, ?_⟩
    dsimp only [KeyedEngine.forSealing] at hdata
    split at hdata
    case h_1 => cases hdata
    case h_2 held hheld =>
      refine ⟨held, hheld, ?_⟩
      have hraw := Kms.mapError_eq_ok.1 hdata
      unfold encryptRaw at hraw
      obtain ⟨bytes, hbytes, hraw⟩ := bind_eq_ok.1 hraw
      obtain ⟨hash, hhash, hraw⟩ := bind_eq_ok.1 hraw
      obtain ⟨packed, hpacked, hraw⟩ := bind_eq_ok.1 hraw
      obtain ⟨⟨ciphertext, tag⟩, hcipher, hraw⟩ := bind_eq_ok.1 hraw
      cases hraw
      exact bind_eq_ok.2 ⟨bytes, hbytes, bind_eq_ok.2 ⟨hash, hhash, bind_eq_ok.2 ⟨packed, hpacked,
        bind_eq_ok.2 ⟨(ciphertext, tag), hcipher, rfl⟩⟩⟩⟩

/-- How a job was sealed that asked for it. -/
theorem sealJob_sealedAs
    (h : sealJob (withBase64 prims codec) (keyed.forSealing prims nonce) now job = .ok sealedJob)
    (hasks : job.encryptionConfig.isSome) (hplain : job.isEncrypted = false) :
    ∃ r, SealedAs prims keyed nonce job r ∧ sealedJob = r.apply job := by
  obtain ⟨config, hconfig⟩ := Option.isSome_iff_exists.1 hasks
  unfold sealJob at h
  rw [hconfig] at h
  dsimp only at h
  rw [if_neg (by simp [hplain])] at h
  split at h
  case isTrue => cases h
  case isFalse =>
    split at h
    case h_1 => cases h
    case h_2 =>
      obtain ⟨⟨stored, r⟩, hr, heq⟩ := bind_eq_ok.1 h
      cases heq
      unfold sealPayload at hr
      dsimp only at hr
      split at hr
      case isTrue hempty =>
        obtain ⟨r', hr', heq⟩ := bind_eq_ok.1 hr
        cases heq
        obtain ⟨hkeyId, halgorithm, hfields, held, hheld, hencrypts⟩ :=
          encryptValue_of_encryptPayload hr'
        refine ⟨⟨job.payload, [], held.active, encryptedPayloadPlaceholder, r.1,
          { r.2 with formatVersion := formatJobBound }⟩, ?_,
          by simp only [SealRecord.apply, hconfig]⟩
        exact ⟨rfl, hkeyId, halgorithm, hfields, ⟨held, hheld, rfl⟩, hencrypts, fun _ => rfl,
          fun hsome => absurd (hempty.symm.trans hsome) (by decide)⟩
      case isFalse hsome =>
        split at hr
        case h_1 => cases hr
        case h_2 redacted removed found hredact =>
          obtain ⟨r', hr', heq⟩ := bind_eq_ok.1 hr
          cases heq
          obtain ⟨hkeyId, halgorithm, hfields, held, hheld, hencrypts⟩ :=
            encryptValue_of_encryptPayload hr'
          refine ⟨⟨removed, found, held.active, stored, r.1,
            { r.2 with formatVersion := formatJobBound }⟩, ?_,
            by simp only [SealRecord.apply, hconfig]⟩
          exact ⟨rfl, hkeyId, halgorithm, hfields, ⟨held, hheld, rfl⟩, hencrypts,
            fun hempty => absurd hempty hsome, fun _ => hredact⟩

-- == opening

/-- Every key the engine holds has the size of its algorithm. -/
def Sized (engine : Kms.Engine) : Prop :=
  ∀ keyId, ∀ keys ∈ candidates engine keyId, ∀ key ∈ keys, key.length = Kms.keySize

/-- What is encrypted of a job. -/
def sealedValue (job : FullJob) : Json :=
  if job.piiFields.isEmpty then
    job.payload
  else
    match redactFields job.payload job.piiFields with
    | .ok (_, removed, _) => removed
    | .error _ => .null

/-- The JSON text of the value says the value, and nothing else. -/
def ReadsBack (prims : Kms.Primitives) (value : Json) : Prop :=
  ∀ value', Kms.Reads prims value value' → value' = value

/-- Nothing is encrypted of the job, and nothing known of its encryption. -/
structure Unsealed (job : FullJob) : Prop where
  isEncrypted : job.isEncrypted = false
  encryptedPayload : job.encryptedPayload = none
  encryptionMetadata : job.encryptionMetadata = none

variable {r : SealRecord}

theorem SealedAs.value_eq (h : SealedAs prims keyed nonce job r) : sealedValue job = r.value := by
  unfold sealedValue
  cases hempty : job.piiFields.isEmpty with
  | true => exact (h.whole hempty).symm
  | false =>
      rw [h.parts hempty]
      rfl

/-- What was encrypted is decrypted at the first attempt. -/
theorem SealedAs.decrypts (hprims : prims.Lawful) (hnonce : nonce.length = Kms.nonceSize)
    (hsized : Sized keyed.toEngine) (hreads : ReadsBack prims r.value)
    (h : SealedAs prims keyed nonce job r) (reload : String → Option Kms.Engine) :
    decryptPayload prims keyed.toEngine reload (toDecrypt r.encrypted r.metadata)
      (jobAssociatedData job.id job.queueName r.metadata.keyId r.metadata.algorithm job.piiFields
        r.metadata.encryptedFields) = .ok r.value := by
  obtain ⟨held, hheld, hactive⟩ := h.held
  have hkeys : candidates keyed.toEngine r.metadata.keyId = some held.candidates := by
    unfold candidates
    rw [h.keyId, hheld]
    rfl
  have hmem : r.key ∈ held.candidates := hactive ▸ List.mem_cons_self
  obtain ⟨value, hvalue, hdecrypted⟩ := (Kms.decryptValue_spec hprims hnonce h.encrypts
    (hsized r.metadata.keyId)).1 ⟨_, hkeys, hmem⟩
  rw [hreads value hvalue] at hdecrypted
  have hid : (toDecrypt r.encrypted r.metadata).metadata.keyId = r.metadata.keyId := rfl
  unfold decryptPayload
  dsimp only
  rw [hid, h.algorithm, h.encryptedFields]
  rw [← h.keyId] at hdecrypted
  rw [hdecrypted]

/-- What was taken out is put back. -/
theorem SealedAs.restores (hkeyed : job.payload.Keyed) (h : SealedAs prims keyed nonce job r)
    (hsome : job.piiFields.isEmpty = false) :
    restoreFields r.stored r.value = .ok job.payload := by
  have hparts := h.parts hsome
  cases hpayload : job.payload with
  | object members =>
      rw [hpayload] at hparts hkeyed
      obtain ⟨redacted, removed, found, hredact, hrestore⟩ :=
        restore_redacted members job.piiFields hkeyed
      have hsame := Except.ok.inj (hredact.symm.trans hparts)
      simp only [Prod.mk.injEq] at hsame
      rw [← hsame.1, ← hsame.2.1]
      exact hrestore
  | _ =>
      rw [hpayload] at hparts
      cases hparts

/-- Opening gives the job back. -/
theorem SealedAs.opens (hprims : prims.Lawful) (hnonce : nonce.length = Kms.nonceSize)
    (hsized : Sized keyed.toEngine) (hreads : ReadsBack prims r.value) (hplain : Unsealed job)
    (hkeyed : job.payload.Keyed) (h : SealedAs prims keyed nonce job r)
    (reload : String → Option Kms.Engine) :
    openJob prims keyed.toEngine reload (r.apply job) = .ok job := by
  have hdecrypts := h.decrypts hprims hnonce hsized hreads reload
  have hback : ∀ payload, payload = job.payload → { r.apply job with
      payload := payload
      isEncrypted := false
      encryptedPayload := none
      encryptionMetadata := none } = job := by
    intro payload hpayload
    rw [hpayload]
    unfold SealRecord.apply
    dsimp only
    rw [← hplain.isEncrypted, ← hplain.encryptedPayload, ← hplain.encryptionMetadata]
  unfold openJob
  rw [if_neg (by simp [SealRecord.apply])]
  refine bind_eq_ok.2 ⟨r.value, ?_, bind_eq_ok.2 ⟨job.payload, ?_, ?_⟩⟩
  · unfold decryptJob
    dsimp only
    rw [if_neg (by rw [h.format]; decide), if_pos h.format]
    exact Kms.mapError_eq_ok.2 hdecrypts
  · show (if job.piiFields.isEmpty = true then _ else _) = _
    cases hempty : job.piiFields.isEmpty with
    | true => rw [if_pos rfl, h.whole hempty]
    | false =>
        rw [if_neg (by decide)]
        exact Kms.mapError_eq_ok.2 (h.restores hkeyed hempty)
  · exact congrArg Except.ok (hback _ rfl)

-- == tampering

/-- What was encrypted with some associated data is rejected with any
other, under every key and by every algorithm. -/
def Binds (prims : Kms.Primitives) : Prop :=
  ∀ (algorithm other : EncryptionAlgorithm) (key key' nonce data aad aad' sealed : Bytes),
    prims.encrypt algorithm key nonce data aad = .ok sealed → aad' ≠ aad →
      ∃ e, prims.decrypt other key' nonce sealed aad' = .error e

/-- The context a stored job claims to be sealed in. -/
def context (job : FullJob) : Option JobContext :=
  job.encryptionMetadata.map fun metadata =>
    ⟨job.id, job.queueName, metadata.keyId, metadata.algorithm, job.piiFields,
      metadata.encryptedFields⟩

/-- The job has the encrypted payload of `sealedJob`, in its format, but not
its id, queue name, personal fields, key id, algorithm and encrypted
fields. -/
structure Tampered (sealedJob tampered : FullJob) : Prop where
  isEncrypted : tampered.isEncrypted = true
  encryptedPayload : tampered.encryptedPayload = sealedJob.encryptedPayload
  format : tampered.encryptionMetadata.map (·.formatVersion) =
    sealedJob.encryptionMetadata.map (·.formatVersion)
  context : context tampered ≠ context sealedJob

/-- No key decrypts a payload with other associated data. -/
theorem decryptValue_rejects (hprims : prims.Lawful) (hbinds : Binds prims)
    (hnonce : nonce.length = Kms.nonceSize) {config : EncryptionConfig} {key aad aad' : Bytes}
    {value : Json} {encrypted payload : Kms.EncryptedPayload}
    (henc : Kms.encryptValue prims config key nonce value aad = .ok encrypted)
    (hciphertext : payload.ciphertext = encrypted.ciphertext)
    (hnonce' : payload.nonce = encrypted.nonce) (htag : payload.tag = encrypted.tag)
    (hne : aad' ≠ aad) (keys : Option (List Bytes)) :
    ∃ e, Kms.decryptValue prims keys payload aad' = .error e := by
  obtain ⟨-, bytes, data, sealed, hsealed⟩ := Kms.encryptValue_ok henc
  cases keys with
  | none => exact ⟨_, rfl⟩
  | some keys =>
      have hshut : ∀ other ∈ keys, ∃ e, Kms.decryptData prims payload.metadata.algorithm
          (sealed.take (sealed.length - Kms.tagSize)) nonce
          (sealed.drop (sealed.length - Kms.tagSize)) other aad' = .error e := by
        intro other _
        unfold Kms.decryptData
        cases hsize : Kms.checkKeySize other with
        | error e => exact ⟨e, rfl⟩
        | ok _ =>
            obtain ⟨e, he⟩ := hbinds config.algorithm payload.metadata.algorithm key other nonce
              data aad aad' sealed hsealed.seals hne
            have hlength : (sealed.drop (sealed.length - Kms.tagSize)).length = Kms.tagSize := by
              have hle := hprims.tagged _ _ _ _ _ _ hsealed.seals
              rw [List.length_drop]
              omega
            simp only [hnonce, hlength, ne_eq, not_true_eq_false, or_self, if_false,
              List.take_append_drop, he]
            exact ⟨_, rfl⟩
      obtain ⟨e, he⟩ := Kms.firstDecrypted_error none hshut
      refine ⟨e, ?_⟩
      unfold Kms.decryptValue
      simp only [hciphertext, hnonce', htag, hsealed.ciphertext, hsealed.nonce, hsealed.tag,
        hprims.decodes, Except.mapError, bind, Except.bind, he]

/-- So it does not open, whatever the engine holds and reloads. -/
theorem SealedAs.rejects (hprims : prims.Lawful) (hbinds : Binds prims)
    (hnonce : nonce.length = Kms.nonceSize) (h : SealedAs prims keyed nonce job r)
    {tampered : FullJob} (htampered : Tampered (r.apply job) tampered)
    (hshort : ∀ c ∈ context (r.apply job), c.Short) (hshort' : ∀ c ∈ context tampered, c.Short)
    (engine' : Kms.Engine) (reload : String → Option Kms.Engine) :
    ∃ e, openJob prims engine' reload tampered = .error e := by
  have hpayload : tampered.encryptedPayload = some r.encrypted := htampered.encryptedPayload
  obtain ⟨metadata, hmetadata⟩ : ∃ metadata, tampered.encryptionMetadata = some metadata := by
    have hformat := htampered.format
    cases hm : tampered.encryptionMetadata with
    | none =>
        rw [hm] at hformat
        cases hformat
    | some metadata => exact ⟨metadata, rfl⟩
  have hformat : metadata.formatVersion = formatJobBound := by
    have hformat := htampered.format
    rw [hmetadata] at hformat
    exact (Option.some.inj hformat).trans h.format
  -- other contexts have other data
  have hne : jobAssociatedData tampered.id tampered.queueName metadata.keyId metadata.algorithm
      tampered.piiFields metadata.encryptedFields ≠
        jobAssociatedData job.id job.queueName (Kms.keyId keyed.config) keyed.config.algorithm
          job.piiFields r.fields := by
    intro heq
    refine htampered.context ?_
    have hown : context tampered = some ⟨tampered.id, tampered.queueName, metadata.keyId,
        metadata.algorithm, tampered.piiFields, metadata.encryptedFields⟩ := by
      unfold context
      rw [hmetadata]
      rfl
    have hsealed : context (r.apply job) = some ⟨job.id, job.queueName, Kms.keyId keyed.config,
        keyed.config.algorithm, job.piiFields, r.fields⟩ := by
      rw [← h.keyId, ← h.algorithm, ← h.encryptedFields]
      rfl
    rw [hown, hsealed]
    exact congrArg some (delimiting_associatedData.injective (hshort' _ hown) (hshort _ hsealed)
      heq)
  have hfails : ∀ keys, ∃ e, Kms.decryptValue prims keys (toDecrypt r.encrypted metadata) _ =
      .error e :=
    decryptValue_rejects hprims hbinds hnonce h.encrypts rfl rfl rfl hne
  obtain ⟨e, he⟩ : ∃ e, decryptPayload prims engine' reload (toDecrypt r.encrypted metadata)
      (jobAssociatedData tampered.id tampered.queueName metadata.keyId metadata.algorithm
        tampered.piiFields metadata.encryptedFields) = .error e := by
    unfold decryptPayload
    dsimp only
    obtain ⟨e, he⟩ := hfails (candidates engine' (toDecrypt r.encrypted metadata).metadata.keyId)
    rw [he]
    cases reload (toDecrypt r.encrypted metadata).metadata.keyId with
    | none => exact ⟨e, rfl⟩
    | some reloaded => exact hfails _
  refine ⟨.engine e, ?_⟩
  unfold openJob
  rw [if_neg (by simp [htampered.isEncrypted]), hpayload, hmetadata]
  dsimp only
  have hdecrypt : decryptJob prims engine' reload tampered r.encrypted metadata =
      .error (.engine e) := by
    unfold decryptJob
    dsimp only
    rw [if_neg (by rw [hformat]; decide), if_pos hformat, he]
    rfl
  rw [hdecrypt]
  rfl

-- == round trips

/-- Each byte with a mark before it, and a mark that they end. -/
def marked (bytes : Bytes) : Bytes := bytes.flatMap (fun byte => [1, byte]) ++ [0]

/-- The marks show where the bytes end. -/
theorem marked_inj : ∀ {a b rest rest' : Bytes}, marked a ++ rest = marked b ++ rest' →
    a = b ∧ rest = rest' := by
  intro a
  induction a with
  | nil =>
      intro b rest rest' h
      cases b with
      | nil => exact ⟨rfl, by simpa [marked] using h⟩
      | cons byte b => simp [marked] at h
  | cons byte a ih =>
      intro b rest rest' h
      cases b with
      | nil => simp [marked] at h
      | cons byte' b =>
          have hcons : byte = byte' ∧ marked a ++ rest = marked b ++ rest' := by
            simpa [marked] using h
          obtain ⟨rfl, hrest⟩ := ih hcons.2
          exact ⟨by rw [hcons.1], hrest⟩

/-- The fields of a contact, as they are taken out. -/
def contactFields : Json := .array [.array [.string "ssn", .string "123-45-6789"]]

/-- Primitives for these fields. Their cipher writes the associated data and
the key before the data and a tag after it. -/
def contactPrims : Kms.Primitives :=
  { Kms.plainPrims with
    toVec := fun _ => .ok "[[\"ssn\",\"123-45-6789\"]]".toUTF8.toList
    fromSlice := fun _ => .ok contactFields
    encrypt := fun _ key _ data aad =>
      .ok (marked aad ++ (marked key ++ (data ++ List.replicate 16 0)))
    decrypt := fun _ key _ sealed aad =>
      if (marked aad ++ marked key).isPrefixOf sealed then
        let body := sealed.drop (marked aad ++ marked key).length
        .ok (body.take (body.length - 16))
      else
        .error "aead::Error" }

theorem contactPrims_binds : Binds contactPrims := by
  intro algorithm other key key' nonce data aad aad' sealed h hne
  cases h
  refine ⟨"aead::Error", if_neg fun hbegins => hne ?_⟩
  obtain ⟨rest, hrest⟩ := List.isPrefixOf_iff_prefix.1 hbegins
  rw [List.append_assoc] at hrest
  exact (marked_inj hrest).1

theorem contactPrims_lawful : contactPrims.Lawful where
  parses _ _ _ := ⟨contactFields, rfl⟩
  inflates := Kms.plainPrims_lawful.inflates
  decodes := Kms.plainPrims_decodes
  tagged algorithm key nonce data aad sealed h := by
    cases h
    simp [Kms.tagSize]
    omega
  opens algorithm key nonce data aad sealed _ _ h := by
    cases h
    simp only [contactPrims]
    rw [← List.append_assoc, if_pos (List.isPrefixOf_iff_prefix.2 (List.prefix_append _ _)),
      List.drop_left]
    simp
  authentic algorithm key other nonce data aad sealed _ _ _ hne h := by
    cases h
    refine ⟨"aead::Error", if_neg fun hbegins => hne ?_⟩
    obtain ⟨rest, hrest⟩ := List.isPrefixOf_iff_prefix.1 hbegins
    rw [List.append_assoc] at hrest
    exact (marked_inj (marked_inj hrest).2).1

/-- An engine with one key. -/
def contactEngine : KeyedEngine where
  config := ⟨.aes256Gcm, false, none⟩
  keys keyId := if keyId = "default" then some ⟨List.replicate 32 7, 0, []⟩ else none
  version := 1
  defaultRetention := none

/-- A job whose payload has a personal field. -/
def contactJob : FullJob where
  toJob := { Job.new 1 0 "mail"
      (.object [("ssn", .string "123-45-6789"), ("name", .string "Ann")]) with
    encryptionConfig := some ⟨.aes256Gcm, false, none⟩
    piiFields := ["ssn"] }
  resultConfig := ⟨.none, none, none⟩
  encryptionMetadata := none

/-- The job, sealed. -/
def sealedContact : FullJob :=
  (sealJobMut (withBase64 contactPrims Archive.plainCodec)
    (contactEngine.forSealing contactPrims (zeros 12)) 0 contactJob).2

end Sealing

end Hammerwork
