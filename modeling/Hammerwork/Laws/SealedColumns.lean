/-
Sealed jobs and the columns of their rows.

The columns of a sealed job are decoded to what was encoded, but for one
thing. The time its data is to be deleted counts from when the job was
sealed; the span of its policy is recovered from that time and from when
the job was created (`decodeRetentionPolicy_sealed`). So a policy that
deletes after a span comes back longer, by the time between the two.
-/
import Hammerwork.Laws.ArchiveRestore
import Hammerwork.Sealing
import Mathlib

namespace Hammerwork

namespace Sealing

open Archive

variable {codec : Codec} {engine : Engine} {now : DateTime} {job sealedJob : FullJob}

-- == codec

/-- Base64 is exact, and the JSON of metadata is an object that has its
fields under their names. -/
structure Derived (codec : Codec) : Prop where
  base64 : ∀ bytes, codec.base64Decode (codec.base64Encode bytes) = some bytes
  keyId : ∀ metadata, member (codec.metadataToValue metadata) "key_id" =
    some (.string metadata.keyId)
  configVersion : ∀ metadata, member (codec.metadataToValue metadata) "config_version" =
    some (.number (toString metadata.configVersion))
  compressed : ∀ metadata, member (codec.metadataToValue metadata) "compressed" =
    some (.bool metadata.compressed)
  encryptedFields : ∀ metadata, member (codec.metadataToValue metadata) "encrypted_fields" =
    some (.array (metadata.encryptedFields.map .string))
  formatVersion : ∀ metadata, member (codec.metadataToValue metadata) "format_version" =
    some (.number (toString metadata.formatVersion))

/-- A retention policy as it is kept: one whose deletion time cannot be
represented never ends. -/
def keptPolicy (metadata : EncryptionMetadata) : RetentionPolicy :=
  match metadata.retentionPolicy with
  | .deleteAfter duration =>
      if metadata.deleteAt.isNone then .keepIndefinitely else .deleteAfter duration
  | policy => policy

/-- The columns of the sealed job are decoded, with the job's creation time
and personal fields, to the payload and the metadata that were encoded and
to the job's retention policy. A job without a policy has the default one. -/
def RoundTrips (codec : Codec) (job sealedJob : FullJob) : Prop :=
  ∃ columns config policy encrypted metadata,
    EncryptionColumns.forJob codec sealedJob = .ok columns ∧
    sealedJob.encryptedPayload = some encrypted ∧
    sealedJob.encryptionMetadata = some metadata ∧
    metadata.retentionPolicy = job.retentionPolicy.getD .useDefault ∧
    policy = keptPolicy metadata ∧
    decode codec columns job.createdAt job.piiFields =
      .ok (config, some policy, some (encrypted, { metadata with retentionPolicy := policy }))

-- == sealing

/-- What sealing recorded. -/
structure Recorded (codec : Codec) (engine : Engine) (now : DateTime) (job sealedJob : FullJob)
    (data : Ciphertext) (encrypted : EncryptedPayload) (metadata : EncryptionMetadata) :
    Prop where
  isEncrypted : sealedJob.isEncrypted = true
  piiFields : sealedJob.piiFields = job.piiFields
  hasPayload : sealedJob.encryptedPayload = some encrypted
  hasMetadata : sealedJob.encryptionMetadata = some metadata
  payload : encrypted = {
    ciphertext := codec.base64Encode data.ciphertext
    nonce := codec.base64Encode data.nonce
    tag := codec.base64Encode data.tag
    deleteAt := metadata.deleteAt }
  configVersion : metadata.configVersion = engine.version
  policy : metadata.retentionPolicy = job.retentionPolicy.getD .useDefault
  deleteAt : metadata.deleteAt =
    calculateDeletionTime metadata.retentionPolicy now none engine.defaultRetention
  formatVersion : metadata.formatVersion = formatJobBound

/-- What encrypting a payload returns. -/
theorem encryptPayload_ok {payload : Json} {piiFields : List String}
    {policy : RetentionPolicy} {aad : Bytes} {r : EncryptedPayload × EncryptionMetadata}
    (h : encryptPayload codec engine payload piiFields policy aad now = .ok r) :
    ∃ data : Ciphertext, r.1 = {
        ciphertext := codec.base64Encode data.ciphertext
        nonce := codec.base64Encode data.nonce
        tag := codec.base64Encode data.tag
        deleteAt := r.2.deleteAt } ∧
      r.2.configVersion = engine.version ∧ r.2.retentionPolicy = policy ∧
      r.2.deleteAt = calculateDeletionTime policy now none engine.defaultRetention := by
  unfold encryptPayload at h
  split at h
  case h_1 => cases h
  case h_2 data _ =>
    cases h
    exact ⟨data, rfl, rfl, rfl, rfl⟩

/-- So does sealing, whichever part of the payload is encrypted. -/
theorem sealPayload_ok {policy : RetentionPolicy} {stored : Json}
    {r : EncryptedPayload × EncryptionMetadata}
    (h : sealPayload codec engine job policy now = .ok (stored, r)) :
    ∃ payload piiFields aad,
      encryptPayload codec engine payload piiFields policy aad now = .ok r := by
  unfold sealPayload at h
  dsimp only at h
  split at h
  case isTrue =>
    obtain ⟨r', hr', heq⟩ := bind_eq_ok.1 h
    cases heq
    exact ⟨_, _, _, hr'⟩
  case isFalse =>
    split at h
    case h_1 => cases h
    case h_2 =>
      obtain ⟨r', hr', heq⟩ := bind_eq_ok.1 h
      cases heq
      exact ⟨_, _, _, hr'⟩

/-- Sealing a job records how it was done. -/
theorem sealJob_recorded (hsealed : sealJob codec engine now job = .ok sealedJob)
    (hasks : job.encryptionConfig.isSome) (hplain : job.isEncrypted = false) :
    ∃ data encrypted metadata,
      Recorded codec engine now job sealedJob data encrypted metadata := by
  obtain ⟨config, hconfig⟩ := Option.isSome_iff_exists.1 hasks
  unfold sealJob at hsealed
  rw [hconfig] at hsealed
  dsimp only at hsealed
  rw [if_neg (by simp [hplain])] at hsealed
  split at hsealed
  case isTrue => cases hsealed
  case isFalse =>
    split at hsealed
    case h_1 => cases hsealed
    case h_2 =>
      obtain ⟨⟨stored, r⟩, hr, heq⟩ := bind_eq_ok.1 hsealed
      cases heq
      obtain ⟨payload, piiFields, aad, hencrypted⟩ := sealPayload_ok hr
      obtain ⟨data, hpayload, hversion, hpolicy, hdelete⟩ := encryptPayload_ok hencrypted
      refine ⟨data, r.1, { r.2 with formatVersion := formatJobBound }, ?_⟩
      exact ⟨rfl, rfl, rfl, rfl, hpayload, hversion, hpolicy, hpolicy ▸ hdelete, rfl⟩

/-- The engine as a queue knows it: by the payload it stores for a job and
the ciphertext. -/
def Engine.toQueue (codec : Codec) (engine : Engine) (now : DateTime) : EncryptionEngine where
  algorithm := engine.algorithm
  keyId := engine.keyId
  compressionEnabled := engine.compressionEnabled
  encrypt job :=
    match sealPayload codec engine ⟨job, ⟨.none, none, none⟩, none⟩
        (job.retentionPolicy.getD .useDefault) now with
    | .ok (stored, encrypted, _) => .ok (stored, encrypted)
    | .error _ => .error ""

/-- What a queue stores of a job it seals is what sealing makes of it. -/
theorem sealJob_toJob (h : sealJob codec engine now job = .ok sealedJob) :
    Hammerwork.sealJob (engine.toQueue codec now) job.toJob = .ok sealedJob.toJob := by
  unfold sealJob at h
  unfold Hammerwork.sealJob
  cases hconfig : job.encryptionConfig with
  | none =>
      rw [hconfig] at h
      cases h
      rfl
  | some config =>
      rw [hconfig] at h
      dsimp only at h ⊢
      split at h
      case isTrue hencrypted =>
        cases h
        rw [if_pos hencrypted]
      case isFalse hencrypted =>
        rw [if_neg hencrypted]
        split at h
        case isTrue => cases h
        case isFalse hsame =>
          have hsame' : ¬ config.algorithm ≠ (engine.toQueue codec now).algorithm := hsame
          rw [if_neg hsame']
          split at h
          case h_1 => cases h
          case h_2 hkey =>
            obtain ⟨⟨stored, encrypted, metadata⟩, hr, heq⟩ := bind_eq_ok.1 h
            cases heq
            have hencrypt : (engine.toQueue codec now).encrypt job.toJob =
                .ok (stored, encrypted) := by
              have hsealed : sealPayload codec engine ⟨job.toJob, ⟨.none, none, none⟩, none⟩
                  (job.retentionPolicy.getD .useDefault) now = .ok (stored, encrypted, metadata) :=
                hr
              simp only [Engine.toQueue, hsealed]
            have hown : config.keyId.filter (· ≠ (engine.toQueue codec now).keyId) = none := hkey
            rw [hown, hencrypt]

-- == columns

/-- The columns of a sealed job. -/
def sealedColumns (codec : Codec) (job : Job) (data : Ciphertext) (metadata : EncryptionMetadata) :
    EncryptionColumns where
  isEncrypted := true
  encryptionKeyId := some metadata.keyId
  encryptionAlgorithm := some (match metadata.algorithm with
    | .aes256Gcm => "AES256GCM"
    | .chaCha20Poly1305 => "ChaCha20Poly1305")
  encryptedPayload := some data.ciphertext
  encryptionNonce := some data.nonce
  encryptionTag := some data.tag
  encryptionMetadata := some (codec.metadataToValue metadata)
  payloadHash := some metadata.payloadHash
  piiFields := EncryptionColumns.piiFieldsColumn job
  retentionPolicy := some (EncryptionColumns.retentionPolicyStr metadata)
  retentionDeleteAt := metadata.deleteAt
  encryptedAt := some metadata.encryptedAt

variable {data : Ciphertext} {encrypted : EncryptedPayload} {metadata : EncryptionMetadata}

theorem forJob_sealed (hderived : Derived codec)
    (h : Recorded codec engine now job sealedJob data encrypted metadata) :
    EncryptionColumns.forJob codec sealedJob =
      .ok (sealedColumns codec sealedJob.toJob data metadata) := by
  unfold EncryptionColumns.forJob
  simp only [h.isEncrypted, h.hasPayload, h.hasMetadata, h.payload, hderived.base64, decoded]
  rfl

/-- The policy that is decoded: the span of a deletion counts from the job's
creation. -/
def decodedPolicy (metadata : EncryptionMetadata) (createdAt : DateTime) : RetentionPolicy :=
  match metadata.retentionPolicy, metadata.deleteAt with
  | .deleteAfter _, some deleteAt =>
      if createdAt ≤ deleteAt then .deleteAfter (deleteAt - createdAt).toNat else .useDefault
  | .deleteAfter _, none => .keepIndefinitely
  | policy, _ => policy

theorem decodeRetentionPolicy_sealed (createdAt : DateTime)
    (hdelete : metadata.deleteAt =
      calculateDeletionTime metadata.retentionPolicy now none engine.defaultRetention) :
    (sealedColumns codec job.toJob data metadata).decodeRetentionPolicy createdAt =
      .ok (some (decodedPolicy metadata createdAt)) := by
  unfold EncryptionColumns.decodeRetentionPolicy sealedColumns decodedPolicy
    EncryptionColumns.retentionPolicyStr
  dsimp only
  cases hpolicy : metadata.retentionPolicy with
  | deleteAfter duration =>
      cases hat : metadata.deleteAt with
      | none => rfl
      | some deleteAt =>
          by_cases hafter : createdAt ≤ deleteAt
          · simp [hafter]
          · simp [hafter]
  | deleteAt timestamp =>
      rw [hpolicy] at hdelete
      rw [hdelete]
      rfl
  | keepIndefinitely => rfl
  | deleteImmediately => rfl
  | useDefault => rfl

theorem asU64_toString {n : Nat} (h : n < 2 ^ 32) : asU64 (.number (toString n)) = some n := by
  have htext : (toString n).toNat? = some n := Nat.toNat?_repr n
  have hless : n < 18446744073709551616 := Nat.lt_trans h (by decide)
  show (toString n).toNat?.filter (· < 2 ^ 64) = some n
  rw [htext]
  simpa using hless

/-- The metadata are decoded, but for the retention policy. -/
theorem decodeMetadata_sealed (hderived : Derived codec) (createdAt : DateTime)
    (piiFields : List String) (policy : RetentionPolicy)
    (hversion : metadata.configVersion < 2 ^ 32)
    (hformat : metadata.formatVersion = formatJobBound) :
    (sealedColumns codec job.toJob data metadata).decodeMetadata createdAt piiFields policy =
      { metadata with retentionPolicy := policy } := by
  have hformat' : asU64 (.number (toString metadata.formatVersion)) = some metadata.formatVersion :=
    asU64_toString (by rw [hformat]; decide)
  have hfields : ∀ fields : List String, (fields.map Json.string).filterMap asStr = fields := by
    intro fields
    induction fields with
    | nil => rfl
    | cons field fields ih => simp [asStr, ih]
  unfold EncryptionColumns.decodeMetadata EncryptionColumns.compressed sealedColumns
  dsimp only [Option.bind_some]
  rw [hderived.keyId, hderived.configVersion, hderived.compressed, hderived.encryptedFields,
    hderived.formatVersion]
  dsimp only [Option.bind_some]
  rw [asU64_toString hversion, hformat', hfields]
  obtain ⟨algorithm, keyId, configVersion, compressed, encryptedFields, retentionPolicy,
    encryptedAt, deleteAt, payloadHash, formatVersion⟩ := metadata
  cases algorithm <;> simp_all [asStr, asBool, formatJobBound, Nat.mod_eq_of_lt]

/-- The columns of a sealed job are decoded to its payload and metadata,
with the policy that is decoded. -/
theorem decode_sealed (hderived : Derived codec)
    (h : Recorded codec engine now job sealedJob data encrypted metadata)
    (hversion : engine.version < 2 ^ 32) :
    ∃ config, decode codec (sealedColumns codec sealedJob.toJob data metadata) job.createdAt
        job.piiFields =
      .ok (config, some (decodedPolicy metadata job.createdAt), some (encrypted,
        { metadata with retentionPolicy := decodedPolicy metadata job.createdAt })) := by
  have hpolicy := @decodeRetentionPolicy_sealed codec engine now sealedJob data metadata
    job.createdAt h.deleteAt
  have hmetadata := @decodeMetadata_sealed codec sealedJob data metadata hderived job.createdAt
    job.piiFields (decodedPolicy metadata job.createdAt) (h.configVersion ▸ hversion)
    h.formatVersion
  have hconfig : ∃ config, (sealedColumns codec sealedJob.toJob data metadata).decodeConfig =
      .ok config := by
    unfold EncryptionColumns.decodeConfig EncryptionColumns.algorithm sealedColumns
    cases metadata.algorithm <;> exact ⟨_, rfl⟩
  obtain ⟨config, hconfig⟩ := hconfig
  refine ⟨config, bind_eq_ok.2 ⟨_, hconfig, bind_eq_ok.2 ⟨_, hpolicy, bind_eq_ok.2 ⟨_, ?_, rfl⟩⟩⟩⟩
  unfold EncryptionColumns.decodePayload
  rw [hpolicy]
  show Except.ok (some (_, (sealedColumns codec sealedJob.toJob data metadata).decodeMetadata
    job.createdAt job.piiFields (decodedPolicy metadata job.createdAt))) = _
  rw [hmetadata, h.payload]
  rfl

-- == round trips

/-- The time after which the data of a job sealed at `now` is deleted can be
represented. -/
theorem deletionTime_eq {createdAt : DateTime} {duration : Duration} {deleteAt : DateTime}
    {defaultRetention : Option Duration}
    (h : calculateDeletionTime (.deleteAfter duration) createdAt none defaultRetention =
      some deleteAt) : deleteAt = createdAt + duration := by
  unfold calculateDeletionTime fromStd checkedAddSigned at h
  dsimp only at h
  split at h
  case isTrue =>
    rw [Option.bind_some] at h
    split at h
    case isTrue => exact (Option.some.inj h).symm
    case isFalse => cases h
  case isFalse => cases h

/-- The policy that is decoded is the one that is kept, unless it deletes
after a span and the job was not sealed when it was created. -/
theorem decodedPolicy_iff {createdAt : DateTime} (hcreated : createdAt ≤ now)
    (hdelete : metadata.deleteAt =
      calculateDeletionTime metadata.retentionPolicy now none engine.defaultRetention) :
    decodedPolicy metadata createdAt = keptPolicy metadata ↔
      ∀ duration, metadata.retentionPolicy = .deleteAfter duration →
        calculateDeletionTime (.deleteAfter duration) now none none ≠ none → now = createdAt := by
  unfold decodedPolicy keptPolicy
  cases hpolicy : metadata.retentionPolicy with
  | deleteAfter duration =>
      rw [hpolicy] at hdelete
      cases hat : metadata.deleteAt with
      | none =>
          have hnever : calculateDeletionTime (.deleteAfter duration) now none none = none :=
            hdelete.symm.trans hat
          simp only [Option.isNone_none, reduceIte, true_iff]
          intro duration' hduration hsome
          cases hduration
          exact absurd hnever hsome
      | some deleteAt =>
          have hsome : calculateDeletionTime (.deleteAfter duration) now none none =
              some deleteAt :=
            hdelete.symm.trans hat
          have hat' := deletionTime_eq hsome
          have hafter : createdAt ≤ deleteAt := by
            dsimp only [DateTime, Duration] at *
            omega
          simp only [if_pos hafter, Option.isNone_some, Bool.false_eq_true, if_false,
            RetentionPolicy.deleteAfter.injEq]
          constructor
          · intro hspan _ _ _
            dsimp only [DateTime, Duration] at *
            omega
          · intro hsame
            have hnow := hsame duration rfl (by simp [hsome])
            dsimp only [DateTime, Duration] at *
            omega
  | _ => simp

/-- The columns of a sealed job round trip if its policy does. -/
theorem roundTrips_iff_policy (hderived : Derived codec)
    (h : Recorded codec engine now job sealedJob data encrypted metadata)
    (hversion : engine.version < 2 ^ 32) :
    RoundTrips codec job sealedJob ↔
      decodedPolicy metadata job.createdAt = keptPolicy metadata := by
  obtain ⟨config, hdecode⟩ := decode_sealed hderived h hversion
  have hcolumns := forJob_sealed hderived h
  constructor
  · intro hround
    obtain ⟨columns, config', policy, encrypted', metadata', hcolumns', -, hmetadata', -, hkept,
      hdecode'⟩ := hround
    cases hcolumns.symm.trans hcolumns'
    cases h.hasMetadata.symm.trans hmetadata'
    have heq := Except.ok.inj (hdecode.symm.trans hdecode')
    have hsame := Option.some.inj (Prod.mk.inj (Prod.mk.inj heq).2).1
    exact hsame.trans hkept
  · intro hsame
    rw [hsame] at hdecode
    exact ⟨_, config, _, encrypted, metadata, hcolumns, h.hasPayload, h.hasMetadata, h.policy, rfl,
      hdecode⟩

/-- The columns of a sealed job are decoded to what was encoded exactly if
the job's policy does not delete after a span, or never does, or the job was
sealed when it was created. -/
theorem columns_decode_iff (hderived : Derived codec) (hversion : engine.version < 2 ^ 32)
    (hasks : job.encryptionConfig.isSome) (hplain : job.isEncrypted = false)
    (hcreated : job.createdAt ≤ now) (hsealed : sealJob codec engine now job = .ok sealedJob) :
    RoundTrips codec job sealedJob ↔
      ∀ duration, job.retentionPolicy = some (.deleteAfter duration) →
        calculateDeletionTime (.deleteAfter duration) now none none ≠ none →
        now = job.createdAt := by
  obtain ⟨data, encrypted, metadata, hrecorded⟩ := sealJob_recorded hsealed hasks hplain
  have hown : ∀ duration, metadata.retentionPolicy = .deleteAfter duration ↔
      job.retentionPolicy = some (.deleteAfter duration) := by
    intro duration
    rw [hrecorded.policy]
    cases job.retentionPolicy <;> simp
  rw [roundTrips_iff_policy hderived hrecorded hversion,
    decodedPolicy_iff hcreated hrecorded.deleteAt]
  simp only [hown]

/-- As many zeros stand for a ciphertext, a nonce or a tag. -/
def zeros (n : Nat) : Bytes := List.replicate n 0

/-- A text that is not in base64. -/
def otherText (bytes : Bytes) : String :=
  String.ofList (bytes.map fun b => Char.ofNat (256 + b.toNat))

/-- A codec that knows the base64 of some zeros, and writes metadata as an
object. -/
def derivedCodec : Codec :=
  { plainCodec with
    base64Encode := fun bytes =>
      if bytes = zeros 4 then "AAAAAA=="
      else if bytes = zeros 12 then "AAAAAAAAAAAAAAAA"
      else if bytes = zeros 16 then "AAAAAAAAAAAAAAAAAAAAAA=="
      else otherText bytes
    base64Decode := fun text =>
      if text = "AAAAAA==" then some (zeros 4)
      else if text = "AAAAAAAAAAAAAAAA" then some (zeros 12)
      else if text = "AAAAAAAAAAAAAAAAAAAAAA==" then some (zeros 16)
      else some (text.toList.map fun c => UInt8.ofNat (c.toNat - 256))
    metadataToValue := fun metadata => .object
      [("compressed", .bool metadata.compressed),
        ("config_version", .number (toString metadata.configVersion)),
        ("encrypted_fields", .array (metadata.encryptedFields.map .string)),
        ("format_version", .number (toString metadata.formatVersion)),
        ("key_id", .string metadata.keyId), ("payload_hash", .string metadata.payloadHash)] }

theorem derivedCodec_derived : Derived derivedCodec where
  base64 := by
    intro bytes
    have hchar : ∀ b : UInt8, (Char.ofNat (256 + b.toNat)).toNat = 256 + b.toNat := by
      intro b
      have hlt := b.toNat_lt
      rw [Char.toNat_ofNat, if_pos (Or.inl (by omega))]
    have hother : 'A' ∉ (otherText bytes).toList := by
      intro hmem
      obtain ⟨b, -, hb⟩ : ∃ b ∈ bytes, Char.ofNat (256 + b.toNat) = 'A' := by
        simpa [otherText] using hmem
      have hcode := congrArg Char.toNat hb
      rw [hchar] at hcode
      simp at hcode
      omega
    have hne : ∀ text : String, 'A' ∈ text.toList → otherText bytes ≠ text := by
      intro text htext heq
      rw [heq] at hother
      exact hother htext
    have hback : (otherText bytes).toList.map (fun c => UInt8.ofNat (c.toNat - 256)) = bytes := by
      simp [otherText, Function.comp_def, hchar]
    unfold derivedCodec
    dsimp only
    by_cases h4 : bytes = zeros 4
    · simp [h4]
    by_cases h12 : bytes = zeros 12
    · simp [h12, zeros]
    by_cases h16 : bytes = zeros 16
    · simp [h16, zeros]
    rw [if_neg h4, if_neg h12, if_neg h16, if_neg (hne _ (by simp)), if_neg (hne _ (by simp)),
      if_neg (hne _ (by simp)), hback]
  keyId _ := rfl
  configVersion _ := rfl
  compressed _ := rfl
  encryptedFields _ := rfl
  formatVersion _ := rfl

/-- An engine whose ciphers return zeros. -/
def zeroEngine : Engine where
  algorithm := .aes256Gcm
  configKeyId := none
  version := 1
  compressionEnabled := false
  defaultRetention := none
  encryptData _ _ := .ok ⟨"hmac-sha256:00", zeros 4, zeros 12, zeros 16⟩

/-- A job whose data is to be deleted after an hour. -/
def hourJob : FullJob where
  toJob := { Job.new 1 0 "mail" .null with
    encryptionConfig := some ⟨.aes256Gcm, false, none⟩
    retentionPolicy := some (.deleteAfter 3600000000000) }
  resultConfig := ⟨.none, none, none⟩
  encryptionMetadata := none

theorem columns_decode_at_creation :
    ∃ sealedJob, sealJob derivedCodec zeroEngine 0 hourJob = .ok sealedJob ∧
      RoundTrips derivedCodec hourJob sealedJob := by
  have hversion : zeroEngine.version < 2 ^ 32 := by decide
  refine ⟨_, rfl, (columns_decode_iff derivedCodec_derived hversion rfl rfl ?_ rfl).2 ?_⟩
  · exact Int.le_refl 0
  · intro _ _ _
    rfl

/-- Sealed a second after it was created, the job comes back with a second
more. -/
theorem sealed_later_keeps_longer :
    ¬ ∀ (codec : Codec) (engine : Engine) (now : DateTime) (job sealedJob : FullJob),
      Derived codec → engine.version < 2 ^ 32 → job.encryptionConfig.isSome →
      job.isEncrypted = false → job.createdAt ≤ now →
      sealJob codec engine now job = .ok sealedJob → RoundTrips codec job sealedJob := by
  intro h
  have hround := h derivedCodec zeroEngine 1000000000 hourJob _ derivedCodec_derived (by decide)
    rfl rfl (by decide) rfl
  obtain ⟨data, encrypted, metadata, hrecorded⟩ :=
    @sealJob_recorded derivedCodec zeroEngine 1000000000 hourJob _ rfl rfl rfl
  have hversion : zeroEngine.version < 2 ^ 32 := by decide
  have hkept := (roundTrips_iff_policy derivedCodec_derived hrecorded hversion).1 hround
  have hnow := (decodedPolicy_iff (by decide) hrecorded.deleteAt).1 hkept 3600000000000
    hrecorded.policy (by decide)
  exact absurd hnow (by decide)

end Sealing

end Hammerwork
