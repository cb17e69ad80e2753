/-
What each section of a call does.

First one payload: it is decrypted with exactly the keys it was encrypted
with, so a decryption finds it if the engine holds that key and fails
otherwise. Then the key map, the table, and one lemma for each kind of
section.
-/
import Hammerwork.Engine
import Hammerwork.Proofs.Envelope
import Hammerwork.Proofs.Sections
import Hammerwork.Lib.Tally

namespace Hammerwork

namespace Kms

variable {kms : KmsKeyWrapper} {prims : Primitives} {config : EncryptionConfig}
  {key nonce aad : Bytes} {payload : Json} {encrypted : EncryptedPayload}

-- == one payload

/-- What is documented of the primitives: what was written is read back,
and only the key that sealed a text opens it. -/
structure Primitives.Lawful (prims : Primitives) : Prop where
  parses : ∀ (payload : Json) (bytes : Bytes), prims.toVec payload = .ok bytes →
    ∃ value, prims.fromSlice bytes = .ok value
  inflates : ∀ bytes data : Bytes, prims.compress bytes = .ok data →
    prims.decompress data = .ok bytes
  decodes : ∀ bytes : Bytes, prims.decode (prims.encode bytes) = .ok bytes
  tagged : ∀ (algorithm : EncryptionAlgorithm) (key nonce data aad sealed : Bytes),
    prims.encrypt algorithm key nonce data aad = .ok sealed → tagSize ≤ sealed.length
  opens : ∀ (algorithm : EncryptionAlgorithm) (key nonce data aad sealed : Bytes),
    key.length = keySize → nonce.length = nonceSize →
    prims.encrypt algorithm key nonce data aad = .ok sealed →
    prims.decrypt algorithm key nonce sealed aad = .ok data
  authentic : ∀ (algorithm : EncryptionAlgorithm) (key other nonce data aad sealed : Bytes),
    key.length = keySize → other.length = keySize → nonce.length = nonceSize → other ≠ key →
    prims.encrypt algorithm key nonce data aad = .ok sealed →
    ∃ e, prims.decrypt algorithm other nonce sealed aad = .error e

/-- The value is what the text of the payload says. -/
def Reads (prims : Primitives) (payload value : Json) : Prop :=
  ∃ bytes, prims.toVec payload = .ok bytes ∧ prims.fromSlice bytes = .ok value

theorem mapError_eq_ok {ε ε' α : Type _} {f : ε → ε'} {x : Except ε α} {a : α} :
    x.mapError f = .ok a ↔ x = .ok a := by
  cases x <;> simp [Except.mapError]

theorem checkKeySize_ok (h : key.length = keySize) : checkKeySize key = .ok () := if_pos h

/-- What was encrypted, and with what. -/
structure Encrypts (prims : Primitives) (config : EncryptionConfig) (key nonce : Bytes)
    (payload : Json) (aad : Bytes) (encrypted : EncryptedPayload) (bytes data sealed : Bytes) :
    Prop where
  text : prims.toVec payload = .ok bytes
  packed : packed prims config.compressionEnabled bytes = .ok data
  seals : prims.encrypt config.algorithm key nonce data aad = .ok sealed
  keySize : key.length = keySize
  hash : keyedPayloadHash prims key bytes = .ok encrypted.metadata.payloadHash
  ciphertext : encrypted.ciphertext = prims.encode (sealed.take (sealed.length - tagSize))
  tag : encrypted.tag = prims.encode (sealed.drop (sealed.length - tagSize))
  nonce : encrypted.nonce = prims.encode nonce
  algorithm : encrypted.metadata.algorithm = config.algorithm
  compressed : encrypted.metadata.compressed = config.compressionEnabled

theorem encryptData_ok {algorithm : EncryptionAlgorithm} {data ciphertext tag : Bytes}
    (h : encryptData prims algorithm key nonce data aad = .ok (ciphertext, tag)) :
    key.length = keySize ∧ ∃ sealed, prims.encrypt algorithm key nonce data aad = .ok sealed ∧
      ciphertext = sealed.take (sealed.length - tagSize) ∧
      tag = sealed.drop (sealed.length - tagSize) := by
  unfold encryptData at h
  obtain ⟨_, hcheck, h⟩ := bind_eq_ok.1 h
  have hsize : key.length = keySize := by
    by_contra hne
    simp [checkKeySize, hne] at hcheck
  refine ⟨hsize, ?_⟩
  cases hsealed : prims.encrypt algorithm key nonce data aad with
  | error e =>
      rw [hsealed] at h
      cases h
  | ok sealed =>
      rw [hsealed] at h
      cases h
      exact ⟨sealed, rfl, rfl, rfl⟩

theorem encryptValue_ok (h : encryptValue prims config key nonce payload aad = .ok encrypted) :
    encrypted.metadata.keyId = keyId config ∧ ∃ bytes data sealed,
      Encrypts prims config key nonce payload aad encrypted bytes data sealed := by
  unfold encryptValue at h
  obtain ⟨bytes, htext, h⟩ := bind_eq_ok.1 h
  obtain ⟨hash, hhash, h⟩ := bind_eq_ok.1 h
  obtain ⟨data, hpacked, h⟩ := bind_eq_ok.1 h
  obtain ⟨⟨ciphertext, tag⟩, hdata, h⟩ := bind_eq_ok.1 h
  obtain ⟨hsize, sealed, hsealed, rfl, rfl⟩ := encryptData_ok hdata
  cases h
  exact ⟨rfl, bytes, data, sealed, mapError_eq_ok.1 htext, hpacked, hsealed, hsize, hhash,
    rfl, rfl, rfl, rfl, rfl⟩

/-- The attempts stop at a key that decrypts, if the other keys do not. -/
theorem firstDecrypted_ok {decrypted : Bytes → Except EncryptionError Bytes} {data : Bytes}
    (hkey : decrypted key = .ok data) :
    ∀ {keys : List Bytes} (firstError : Option EncryptionError), key ∈ keys →
      (∀ other ∈ keys, other ≠ key → ∃ e, decrypted other = .error e) →
      firstDecrypted decrypted firstError keys = .ok (key, data) := by
  intro keys
  induction keys with
  | nil => exact fun _ hmem => nomatch hmem
  | cons other keys ih =>
      intro firstError hmem hothers
      by_cases heq : other = key
      · subst heq
        simp [firstDecrypted, hkey]
      · obtain ⟨e, he⟩ := hothers other List.mem_cons_self heq
        have hmem' : key ∈ keys := (List.mem_cons.1 hmem).resolve_left (Ne.symm heq)
        simp only [firstDecrypted, he]
        exact ih _ hmem' fun k hk => hothers k (List.mem_cons_of_mem _ hk)

/-- They fail if none of the keys decrypts. -/
theorem firstDecrypted_error {decrypted : Bytes → Except EncryptionError Bytes} :
    ∀ {keys : List Bytes} (firstError : Option EncryptionError),
      (∀ other ∈ keys, ∃ e, decrypted other = .error e) →
      ∃ e, firstDecrypted decrypted firstError keys = .error e := by
  intro keys
  induction keys with
  | nil => exact fun _ _ => ⟨_, rfl⟩
  | cons other keys ih =>
      intro firstError hothers
      obtain ⟨e, he⟩ := hothers other List.mem_cons_self
      simp only [firstDecrypted, he]
      exact ih _ fun k hk => hothers k (List.mem_cons_of_mem _ hk)

/-- A keyed hash is told by its prefix. -/
theorem isPrefixOf_keyed {bytes : Bytes} {hash : String}
    (h : keyedPayloadHash prims key bytes = .ok hash) :
    keyedHashPrefix.toList.isPrefixOf hash.toList = true := by
  unfold keyedPayloadHash at h
  split at h
  · cases h
  · cases h
    rw [String.toList_append, List.isPrefixOf_iff_prefix]
    exact List.prefix_append _ _

/-- What was encrypted passes the check of its hash. -/
theorem Encrypts.verified {bytes data sealed : Bytes} {value : Json} (hprims : prims.Lawful)
    (h : Encrypts prims config key nonce payload aad encrypted bytes data sealed)
    (hvalue : prims.fromSlice bytes = .ok value) :
    verified prims encrypted.metadata key data = .ok value := by
  have hunpacked : unpacked prims encrypted.metadata.compressed data = .ok bytes := by
    have hpacked := h.packed
    unfold Kms.packed at hpacked
    unfold unpacked
    rw [h.compressed]
    cases hc : config.compressionEnabled with
    | false =>
        rw [hc] at hpacked
        cases hpacked
        rfl
    | true =>
        rw [hc] at hpacked
        rw [if_pos rfl, hprims.inflates _ _ (mapError_eq_ok.1 hpacked)]
        rfl
  simp [Kms.verified, bind, Except.bind, hunpacked, isPrefixOf_keyed h.hash, h.hash, hvalue,
    Except.mapError]

/-- Decryption under the keys `candidates` succeeds if the payload's key is
among them, and fails otherwise. -/
theorem decryptValue_spec (hprims : prims.Lawful) (hnonce : nonce.length = nonceSize)
    (h : encryptValue prims config key nonce payload aad = .ok encrypted)
    {candidates : Option (List Bytes)}
    (hsizes : ∀ keys ∈ candidates, ∀ k ∈ keys, k.length = keySize) :
    ((∃ keys ∈ candidates, key ∈ keys) →
      ∃ value, Reads prims payload value ∧
        decryptValue prims candidates encrypted aad = .ok value) ∧
    ((¬ ∃ keys ∈ candidates, key ∈ keys) →
      ∃ e, decryptValue prims candidates encrypted aad = .error e) := by
  obtain ⟨-, bytes, data, sealed, henc⟩ := encryptValue_ok h
  have htag : (sealed.drop (sealed.length - tagSize)).length = tagSize := by
    have hle := hprims.tagged _ _ _ _ _ _ henc.seals
    rw [List.length_drop]
    omega
  obtain ⟨decrypted, hdecrypted⟩ : ∃ f : Bytes → Except EncryptionError Bytes, f = fun other =>
      decryptData prims encrypted.metadata.algorithm (sealed.take (sealed.length - tagSize)) nonce
        (sealed.drop (sealed.length - tagSize)) other aad := ⟨_, rfl⟩
  have hgood : ∀ other : Bytes, other.length = keySize →
      decrypted other = (prims.decrypt config.algorithm other nonce sealed aad).mapError fun e =>
        .decryptionFailed s!"{shortName config.algorithm} decryption failed: {e}" := by
    intro other hother
    rw [hdecrypted]
    dsimp only
    rw [decryptData, checkKeySize_ok hother, henc.algorithm]
    simp only [hnonce, htag, ne_eq, not_true_eq_false, or_self, if_false,
      List.take_append_drop]
    cases prims.decrypt config.algorithm other nonce sealed aad <;> rfl
  have hopen : decrypted key = .ok data := by
    rw [hgood key henc.keySize, hprims.opens _ _ _ _ _ _ henc.keySize hnonce henc.seals]
    rfl
  have hshut : ∀ other : Bytes, other.length = keySize → other ≠ key → ∃ e,
      decrypted other = .error e := by
    intro other hother hne
    obtain ⟨e, he⟩ := hprims.authentic _ _ _ _ _ _ _ henc.keySize hother hnonce hne henc.seals
    rw [hgood other hother, he]
    exact ⟨_, rfl⟩
  cases candidates with
  | none =>
      refine ⟨fun hknown => ?_, fun _ => ⟨_, rfl⟩⟩
      obtain ⟨_, hkeys, -⟩ := hknown
      cases hkeys
  | some keys =>
      have hunder : decryptValue prims (some keys) encrypted aad
          = (firstDecrypted decrypted none keys).bind
            fun found => verified prims encrypted.metadata found.1 found.2 := by
        rw [hdecrypted]
        unfold decryptValue
        simp only [henc.ciphertext, henc.nonce, henc.tag, hprims.decodes, Except.mapError]
        rfl
      have hsizes' := hsizes keys rfl
      refine ⟨fun hknown => ?_, fun hnone => ?_⟩
      · obtain ⟨_, hkeys, hmem⟩ := hknown
        obtain rfl := Option.some.inj hkeys
        obtain ⟨value, hvalue⟩ := hprims.parses payload bytes henc.text
        refine ⟨value, ⟨bytes, henc.text, hvalue⟩, ?_⟩
        rw [hunder, firstDecrypted_ok hopen none hmem fun other hother hne =>
          hshut other (hsizes' other hother) hne]
        exact henc.verified hprims hvalue
      · obtain ⟨e, he⟩ := firstDecrypted_error none fun other hother =>
          hshut other (hsizes' other hother) fun heq => hnone ⟨keys, rfl, heq ▸ hother⟩
        rw [hunder, he]
        exact ⟨e, rfl⟩

-- == key maps

@[simp] theorem keySizeBytes_eq (config : EncryptionConfig) : config.keySizeBytes = keySize := by
  cases h : config.algorithm <;> simp [EncryptionConfig.keySizeBytes, h, keySize]

variable {held held' : KeyVersions} {loaded : List EnvelopeKey} {engine engine' : Engine}
  {id : String} {version : Nat}

/-- The engine holds a version of a key. -/
def Engine.Holds (engine : Engine) (id : String) (version : Nat) (key : Bytes) : Prop :=
  ∃ held, engine.keys id = some held ∧ (version, key) ∈ held.entries

theorem Engine.mem_versions :
    version ∈ engine.versions id ↔ ∃ key, engine.Holds id version key := by
  unfold Engine.versions Holds
  cases engine.keys id with
  | none => simp
  | some held =>
      simp only [Option.map_some, Option.getD_some, KeyVersions.mem_versions, Option.some.injEq,
        exists_eq_left']

/-- An entry of the key map, later on. -/
structure EntryLater (entry entry' : Option KeyVersions) : Prop where
  kept : ∀ held ∈ entry, ∃ held' ∈ entry', held.activeVersion ≤ held'.activeVersion ∧
    ∀ e ∈ held.entries, e ∈ held'.entries

/-- An engine, later on: it holds what it held. -/
structure Engine.Later (engine engine' : Engine) : Prop where
  config : engine'.config = engine.config
  keys : ∀ id : String, EntryLater (engine.keys id) (engine'.keys id)

theorem EntryLater.refl (entry : Option KeyVersions) : EntryLater entry entry :=
  ⟨fun held hheld => ⟨held, hheld, le_rfl, fun _ he => he⟩⟩

theorem EntryLater.trans {entry entry' entry'' : Option KeyVersions} (h : EntryLater entry entry')
    (h' : EntryLater entry' entry'') : EntryLater entry entry'' := by
  refine ⟨fun held hheld => ?_⟩
  obtain ⟨held', hheld', hle, hkept⟩ := h.kept held hheld
  obtain ⟨held'', hheld'', hle', hkept'⟩ := h'.kept held' hheld'
  exact ⟨held'', hheld'', hle.trans hle', fun e he => hkept' e (hkept e he)⟩

theorem Engine.Later.refl (engine : Engine) : engine.Later engine :=
  ⟨rfl, fun _ => .refl _⟩

theorem Engine.Later.trans {engine'' : Engine} (h : engine.Later engine')
    (h' : engine'.Later engine'') : engine.Later engine'' :=
  ⟨h'.config.trans h.config, fun id => (h.keys id).trans (h'.keys id)⟩

theorem Engine.Later.holds (h : engine.Later engine') (hheld : engine.Holds id version key) :
    engine'.Holds id version key := by
  obtain ⟨held, hkeys, hentry⟩ := hheld
  obtain ⟨held', hkeys', -, hkept⟩ := (h.keys id).kept held hkeys
  exact ⟨held', hkeys', hkept _ hentry⟩

/-- Merging into an entry: it is tidy, keeps what it has, has every version
loaded, and nothing else. -/
theorem merge_spec {entry : Option KeyVersions} (htidy : ∀ held ∈ entry, held.Tidy)
    (loaded : List EnvelopeKey) :
    EntryLater entry (merge loaded entry) ∧
      (∀ held' ∈ merge loaded entry, held'.Tidy ∧
        ∀ e ∈ held'.entries, (∃ held ∈ entry, e ∈ held.entries) ∨
          ∃ key ∈ loaded, e = (key.version, key.key)) ∧
      ∀ key ∈ loaded, ∃ held' ∈ merge loaded entry, key.version ∈ held'.versions := by
  cases entry with
  | some held =>
      have hadds := KeyVersions.add_adds held loaded
      refine ⟨⟨fun held₀ hheld => ?_⟩, fun held' hheld' => ?_, fun key hkey => ?_⟩
      · obtain rfl := Option.some.inj hheld
        exact ⟨_, rfl, hadds.newer, hadds.kept⟩
      · obtain rfl := Option.some.inj hheld'
        refine ⟨KeyVersions.add_tidy (htidy held rfl).nodup loaded, fun e he => ?_⟩
        exact (hadds.back e he).imp_left fun hold => ⟨held, rfl, hold⟩
      · exact ⟨_, rfl, hadds.added key hkey⟩
  | none =>
      cases loaded with
      | nil => exact ⟨.refl _, nofun, nofun⟩
      | cons first keys =>
          have hadds := KeyVersions.add_adds ⟨first.key, first.version, []⟩ keys
          refine ⟨⟨nofun⟩, fun held' hheld' => ?_, fun key hkey => ?_⟩
          · obtain rfl := Option.some.inj hheld'
            have hnodup : (KeyVersions.mk first.key first.version []).versions.Nodup :=
              List.nodup_singleton _
            refine ⟨KeyVersions.add_tidy hnodup keys, fun e he => .inr ?_⟩
            rcases hadds.back e he with hold | ⟨k, hk, rfl⟩
            · exact ⟨first, List.mem_cons_self, List.mem_singleton.1 hold⟩
            · exact ⟨k, List.mem_cons_of_mem _ hk, rfl⟩
          · refine ⟨_, rfl, ?_⟩
            rcases List.mem_cons.1 hkey with rfl | hkey
            · exact KeyVersions.mem_versions.2
                ⟨key.key, hadds.kept _ (List.mem_singleton_self (key.version, key.key))⟩
            · exact hadds.added key hkey

-- == the whole fleet

variable {fleet fleet' fleet'' : Fleet} {t e : Nat}

/-- The fleet after a section of call number `t`: what is stored stays,
what is new was made by that call, and the engines hold what they held. -/
structure Fleet.Later (t : Nat) (fleet fleet' : Fleet) : Prop where
  kept : ∀ k ∈ fleet.store, ∃ k' ∈ fleet'.store, k.SameKey k'
  back : ∀ k' ∈ fleet'.store, k'.id = t ∨ ∃ k ∈ fleet.store, k.SameKey k'
  engines : ∀ (e : Nat) (engine : Engine), fleet.engines[e]? = some engine →
    ∃ engine', fleet'.engines[e]? = some engine' ∧ engine.Later engine'

theorem Fleet.Later.refl (t : Nat) (fleet : Fleet) : fleet.Later t fleet :=
  ⟨fun k hk => ⟨k, hk, .refl k⟩, fun k hk => .inr ⟨k, hk, .refl k⟩,
    fun _ engine he => ⟨engine, he, .refl engine⟩⟩

/-- The table is in order, every key in it can be decrypted, and what an
engine holds is tidy and what is stored; every engine holds its own key. -/
structure Fleet.Sound (kms : KmsKeyWrapper) (fleet : Fleet) : Prop where
  ordered : fleet.store.Ordered
  wrapped : fleet.store.Wrapped kms keySize
  tidy : ∀ (e : Nat) (engine : Engine), fleet.engines[e]? = some engine →
    ∀ (id : String), ∀ held ∈ engine.keys id, held.Tidy
  stored : ∀ (e : Nat) (engine : Engine), fleet.engines[e]? = some engine →
    ∀ (id : String) (version : Nat) (key : Bytes), engine.Holds id version key →
      Stored kms (kmsKeyName id) keySize fleet.store version key
  own : ∀ (e : Nat) (engine : Engine), fleet.engines[e]? = some engine →
    (engine.keys (keyId engine.config)).isSome = true

theorem stored_later {keyName : String} (hlater : fleet.Later t fleet')
    (h : Stored kms keyName keySize fleet.store version key) :
    Stored kms keyName keySize fleet'.store version key := by
  obtain ⟨record, hmem, hversion, hwraps⟩ := h
  obtain ⟨record', hmem', hsame⟩ := hlater.kept record hmem
  refine ⟨record', hmem', ?_, hwraps.sameKey hsame⟩
  rw [← hversion, ← hsame]

/-- Keys put into an engine. -/
theorem Fleet.Sound.merged (hs : fleet.Sound kms) (he : fleet.engines[e]? = some engine)
    (t : Nat) (id : String) (loaded : List EnvelopeKey)
    (hloaded : ∀ key ∈ loaded,
      Stored kms (kmsKeyName id) keySize fleet.store key.version key.key) :
    fleet.Later t (fleet.setEngine e (engine.merge id loaded)) ∧
      (fleet.setEngine e (engine.merge id loaded)).Sound kms := by
  have hentry := merge_spec (hs.tidy e engine he id) loaded
  have hlt : e < fleet.engines.length := (List.getElem?_eq_some_iff.1 he).1
  have hat : ∀ (e' : Nat) (engine' : Engine),
      (fleet.setEngine e (engine.merge id loaded)).engines[e']? = some engine' →
      (e' = e ∧ engine' = engine.merge id loaded) ∨ fleet.engines[e']? = some engine' := by
    intro e' engine' h
    exact ((Tally.getElem?_replaced he).1 h).imp_right And.right
  have hkeys : ∀ id' : String, (engine.merge id loaded).keys id'
      = if id' = id then Kms.merge loaded (engine.keys id) else engine.keys id' := by
    intro id'
    by_cases heq : id' = id
    · subst heq
      simp [Engine.merge]
    · simp [Engine.merge, heq]
  refine ⟨⟨fun k hk => ⟨k, hk, .refl k⟩, fun k hk => .inr ⟨k, hk, .refl k⟩, ?_⟩,
    hs.ordered, hs.wrapped, ?_, ?_, ?_⟩
  · intro e' engine' he'
    by_cases heq : e = e'
    · subst heq
      obtain rfl := Option.some.inj (he.symm.trans he')
      refine ⟨engine.merge id loaded, by simp [setEngine, hlt], rfl, fun id' => ?_⟩
      rw [hkeys]
      split
      case isTrue hid => exact hid ▸ hentry.1
      case isFalse => exact .refl _
    · exact ⟨engine', by simp [setEngine, heq, he'], .refl _⟩
  · intro e' engine' he' id' held hheld
    rcases hat e' engine' he' with ⟨-, rfl⟩ | hold
    · rw [hkeys] at hheld
      split at hheld
      case isTrue => exact (hentry.2.1 held hheld).1
      case isFalse => exact hs.tidy e engine he id' held hheld
    · exact hs.tidy e' engine' hold id' held hheld
  · rintro e' engine' he' id' version key ⟨held, hheld, hmem⟩
    rcases hat e' engine' he' with ⟨-, rfl⟩ | hold
    · rw [hkeys] at hheld
      split at hheld
      case isTrue hid =>
        subst hid
        rcases (hentry.2.1 held hheld).2 _ hmem with ⟨held₀, hheld₀, hmem₀⟩ | ⟨k, hk, heq⟩
        · exact hs.stored e engine he id' version key ⟨held₀, hheld₀, hmem₀⟩
        · obtain ⟨rfl, rfl⟩ := Prod.mk.inj heq
          exact hloaded k hk
      case isFalse => exact hs.stored e engine he id' version key ⟨held, hheld, hmem⟩
    · exact hs.stored e' engine' hold id' version key ⟨held, hheld, hmem⟩
  · intro e' engine' he'
    rcases hat e' engine' he' with ⟨-, rfl⟩ | hold
    · have hown := hs.own e engine he
      rw [hkeys]
      split
      case isTrue hid =>
        have hid' : keyId engine.config = id := hid
        rw [← hid']
        obtain ⟨held, hheld⟩ := Option.isSome_iff_exists.1 hown
        rw [hheld]
        rfl
      case isFalse => exact hown
    · exact hs.own e' engine' hold

/-- A key put into the table. -/
theorem Fleet.Sound.inserted (hs : fleet.Sound kms) {store : Store} {record : KmsWrappedKey}
    {keyName : String} {plaintext : Bytes} (hid : record.id = t)
    (hwraps : Wraps kms keyName keySize plaintext record) (hordered : store.Ordered)
    (hinserts : Inserts record fleet.store store) :
    fleet.Later t { fleet with store := store } ∧
      Fleet.Sound kms { fleet with store := store } := by
  refine ⟨⟨hinserts.kept, fun k hk => ?_, fun e engine he => ⟨engine, he, .refl engine⟩⟩,
    hordered, hs.wrapped.inserts hwraps hinserts, hs.tidy, ?_, hs.own⟩
  · exact (hinserts.back k hk).imp_left fun h => (congrArg KmsWrappedKey.id h).trans hid
  · exact fun e engine he id version key hheld =>
      (hs.stored e engine he id version key hheld).inserts hinserts

/-- An engine started. -/
theorem Fleet.Sound.started (hs : fleet.Sound kms) (t : Nat) {config : EncryptionConfig}
    {held : KeyVersions} (htidy : held.Tidy)
    (hstored : ∀ e ∈ held.entries,
      Stored kms (kmsKeyName (keyId config)) keySize fleet.store e.1 e.2) :
    fleet.Later t (fleet.started config held).2 ∧ (fleet.started config held).2.Sound kms := by
  have hat : ∀ (e : Nat) (engine : Engine),
      (fleet.started config held).2.engines[e]? = some engine →
      fleet.engines[e]? = some engine ∨
        engine = ⟨config, Function.update (fun _ => none) (keyId config) (some held)⟩ := by
    intro e engine he
    exact (Tally.getElem?_added.1 he).imp_right And.right
  have hkeys : ∀ (id : String) (found : KeyVersions),
      Function.update (fun _ => none) (keyId config) (some held) id = some found →
      id = keyId config ∧ found = held := by
    intro id found hfound
    by_cases hid : id = keyId config
    · subst hid
      rw [Function.update_self] at hfound
      exact ⟨rfl, (Option.some.inj hfound).symm⟩
    · rw [Function.update_of_ne hid] at hfound
      cases hfound
  refine ⟨⟨fun k hk => ⟨k, hk, .refl k⟩, fun k hk => .inr ⟨k, hk, .refl k⟩, ?_⟩,
    hs.ordered, hs.wrapped, ?_, ?_, ?_⟩
  · intro e engine he
    refine ⟨engine, ?_, .refl engine⟩
    simp only [Fleet.started]
    rw [List.getElem?_append_left (List.getElem?_eq_some_iff.1 he).1]
    exact he
  · intro e engine he id found hfound
    rcases hat e engine he with hold | rfl
    · exact hs.tidy e engine hold id found hfound
    · obtain ⟨-, rfl⟩ := hkeys id found hfound
      exact htidy
  · rintro e engine he id version key ⟨found, hfound, hmem⟩
    rcases hat e engine he with hold | rfl
    · exact hs.stored e engine hold id version key ⟨found, hfound, hmem⟩
    · obtain ⟨rfl, rfl⟩ := hkeys id found hfound
      exact hstored _ hmem
  · intro e engine he
    rcases hat e engine he with hold | rfl
    · exact hs.own e engine hold
    · simp

-- == phases

/-- The id of the key a call is about. -/
def Fleet.keyIdOf (fleet : Fleet) : Call → String
  | .withKmsStore config => keyId config
  | .rotateKmsKeyIn e | .reloadKmsKeys e | .encrypt e .. =>
      ((fleet.engines[e]?).map fun engine => keyId engine.config).getD ""
  | .decrypt _ payload _ => payload.metadata.keyId

/-- The engine a call is made on exists. -/
def Fleet.Serves (fleet : Fleet) (call : Call) : Prop :=
  ∀ e, call.engine = some e → e < fleet.engines.length

/-- What holds of a call number `t` in each phase: a key it generated is
not in the table before it is inserted, and what it carries is stored. -/
def Phase.Sound (kms : KmsKeyWrapper) (prims : Primitives) (fleet : Fleet) (t : Nat)
    (call : Call) : Phase → Prop
  | .begun => ∀ k ∈ fleet.store, k.id ≠ t
  | .inserting record plaintext =>
      (∀ k ∈ fleet.store, k.id ≠ t) ∧ record.id = t ∧ record.version = 1 ∧
        record.active = true ∧
        Wraps kms (kmsKeyName (fleet.keyIdOf call)) keySize plaintext record
  | .confirming record plaintext =>
      (∀ k ∈ fleet.store, k.id = t → record.SameKey k) ∧ record.id = t ∧
        Wraps kms (kmsKeyName (fleet.keyIdOf call)) keySize plaintext record
  | .rotating record plaintext =>
      (∀ k ∈ fleet.store, k.id ≠ t) ∧ record.id = t ∧ 1 ≤ record.version ∧
        record.version ≤ (fleet.store.scopeOf record).length + 1 ∧ record.active = true ∧
        Wraps kms (kmsKeyName (fleet.keyIdOf call)) keySize plaintext record
  | .extending key | .adding key =>
      Stored kms (kmsKeyName (fleet.keyIdOf call)) keySize fleet.store key.version key.key
  | .merging _ loaded => ∀ key ∈ loaded,
      Stored kms (kmsKeyName (fleet.keyIdOf call)) keySize fleet.store key.version key.key
  | .done (.encrypted encrypted) => ∃ e engine payload aad version key nonce,
      call = .encrypt e payload aad ∧ fleet.engines[e]? = some engine ∧
        nonce.length = nonceSize ∧
        encryptValue prims engine.config key nonce payload aad = .ok encrypted ∧
        Stored kms (kmsKeyName (keyId engine.config)) keySize fleet.store version key
  | .reloading _ | .loading .. | .retrying | .done _ => True

theorem Fleet.Later.serves (h : fleet.Later t fleet') {call : Call} (hserves : fleet.Serves call) :
    fleet'.Serves call := by
  intro e he
  obtain ⟨engine, hengine⟩ : ∃ engine, fleet.engines[e]? = some engine :=
    ⟨_, List.getElem?_eq_getElem (hserves e he)⟩
  obtain ⟨engine', hengine', -⟩ := h.engines e engine hengine
  exact (List.getElem?_eq_some_iff.1 hengine').1

/-- An engine keeps the id of its key. -/
theorem Fleet.Later.keyIdOf (h : fleet.Later t fleet') {call : Call}
    (hserves : fleet.Serves call) : fleet'.keyIdOf call = fleet.keyIdOf call := by
  have hsame : ∀ e, e < fleet.engines.length →
      ((fleet'.engines[e]?).map fun engine => keyId engine.config)
        = (fleet.engines[e]?).map fun engine => keyId engine.config := by
    intro e he
    obtain ⟨engine', hengine', hlater⟩ :=
      h.engines e _ (List.getElem?_eq_getElem he)
    rw [hengine', List.getElem?_eq_getElem he, Option.map_some, Option.map_some, hlater.config]
  cases call with
  | withKmsStore config => rfl
  | decrypt e payload aad => rfl
  | rotateKmsKeyIn e | reloadKmsKeys e | encrypt e payload aad =>
      simp only [Fleet.keyIdOf, hsame e (hserves e rfl)]

/-- A scope does not shrink. -/
theorem scope_length_mono (hs : fleet.store.Ordered) (hs' : fleet'.store.Ordered)
    (hlater : fleet.Later t fleet') (keyName kmsProvider kmsKeyId : String) :
    (fleet.store.scope keyName kmsProvider kmsKeyId).length
      ≤ (fleet'.store.scope keyName kmsProvider kmsKeyId).length := by
  by_contra hlt
  -- the last version is stored still
  have hlast : (fleet.store.scope keyName kmsProvider kmsKeyId).length
      ∈ (fleet.store.scope keyName kmsProvider kmsKeyId).map (·.version) := by
    rw [hs.versions, List.mem_range'_1]
    omega
  obtain ⟨k, hk, hversion⟩ := List.mem_map.1 hlast
  obtain ⟨hmem, hscope⟩ := mem_scope.1 hk
  obtain ⟨k', hk', hsame⟩ := hlater.kept k hmem
  have hmem' : k' ∈ fleet'.store.scope keyName kmsProvider kmsKeyId := by
    refine mem_scope.2 ⟨hk', ?_⟩
    rw [← hsame]
    exact hscope
  have hversion' : k'.version ∈ (fleet'.store.scope keyName kmsProvider kmsKeyId).map (·.version) :=
    List.mem_map_of_mem hmem'
  rw [hs'.versions, List.mem_range'_1, ← hsame] at hversion'
  simp only [hversion] at hversion'
  omega

/-- A call's phase survives the sections of other calls. -/
theorem Phase.Sound.later {u : Nat} {call : Call} {phase : Phase}
    (h : phase.Sound kms prims fleet u call) (hserves : fleet.Serves call)
    (hs : fleet.store.Ordered) (hs' : fleet'.store.Ordered) (hlater : fleet.Later t fleet')
    (hne : t ≠ u) : phase.Sound kms prims fleet' u call := by
  have hkeyId := hlater.keyIdOf hserves
  have hnone : (∀ k ∈ fleet.store, k.id ≠ u) → ∀ k ∈ fleet'.store, k.id ≠ u := by
    intro hfree k hk
    rcases hlater.back k hk with hid | ⟨k₀, hk₀, hsame⟩
    · rw [hid]
      exact hne
    · rw [← hsame]
      exact hfree k₀ hk₀
  cases phase with
  | begun => exact hnone h
  | inserting record plaintext =>
      unfold Phase.Sound at h ⊢
      rw [hkeyId]
      exact ⟨hnone h.1, h.2⟩
  | confirming record plaintext =>
      unfold Phase.Sound at h ⊢
      rw [hkeyId]
      refine ⟨fun k hk hid => ?_, h.2⟩
      rcases hlater.back k hk with hid' | ⟨k₀, hk₀, hsame⟩
      · exact absurd (hid'.symm.trans hid) hne
      · refine (h.1 k₀ hk₀ ?_).trans hsame
        rw [← hid, ← hsame]
  | rotating record plaintext =>
      unfold Phase.Sound at h ⊢
      rw [hkeyId]
      obtain ⟨hfree, hid, hpositive, hnext, hrest⟩ := h
      refine ⟨hnone hfree, hid, hpositive, hnext.trans ?_, hrest⟩
      exact Nat.succ_le_succ (scope_length_mono hs hs' hlater _ _ _)
  | extending key | adding key =>
      unfold Phase.Sound at h ⊢
      rw [hkeyId]
      exact stored_later hlater h
  | merging failure loaded =>
      unfold Phase.Sound at h ⊢
      rw [hkeyId]
      exact fun key hkey => stored_later hlater (h key hkey)
  | done outcome =>
      cases outcome with
      | encrypted encrypted =>
          obtain ⟨e, engine, payload, aad, version, key, nonce, hcall, he, hnonce, hvalue,
            hstored⟩ := h
          obtain ⟨engine', he', hengine⟩ := hlater.engines e engine he
          refine ⟨e, engine', payload, aad, version, key, nonce, hcall, he', hnonce, ?_, ?_⟩
          · rw [hengine.config]
            exact hvalue
          · rw [hengine.config]
            exact stored_later hlater hstored
      | started | rotated | reloaded | decrypted | failed => trivial
  | reloading | loading | retrying => trivial

-- == sections

/-- A section of call number `t` leaves the fleet sound, and the call in a
phase that is. -/
structure SoundAfter (kms : KmsKeyWrapper) (prims : Primitives) (fleet : Fleet) (t : Nat)
    (call : Call) (after : Phase × Fleet) : Prop where
  later : fleet.Later t after.2
  fleet : after.2.Sound kms
  phase : after.1.Sound kms prims after.2 t call

variable {call : Call} {phase : Phase} {seed : Nat}

theorem SoundAfter.unchanged (hs : fleet.Sound kms) (hphase : phase.Sound kms prims fleet t call) :
    SoundAfter kms prims fleet t call (phase, fleet) :=
  ⟨.refl t fleet, hs, hphase⟩

theorem SoundAfter.failed (hs : fleet.Sound kms) (e : EncryptionError) :
    SoundAfter kms prims fleet t call (.done (.failed e), fleet) :=
  .unchanged hs trivial

/-- An engine is started with a stored key and stored versions. -/
theorem started_sound (hs : fleet.Sound kms) {key : EnvelopeKey}
    (hkey : Stored kms (kmsKeyName (keyId config)) keySize fleet.store key.version key.key)
    {held : KeyVersions} (htidy : held.Tidy)
    (hback : ∀ e ∈ held.entries, e = (key.version, key.key) ∨
      ∃ k ∈ loaded, e = (k.version, k.key))
    (hloaded : ∀ k ∈ loaded,
      Stored kms (kmsKeyName (keyId config)) keySize fleet.store k.version k.key) :
    SoundAfter kms prims fleet t (.withKmsStore config) (fleet.started config held) := by
  obtain ⟨hlater, hsound⟩ := hs.started t htidy fun e he => by
    rcases hback e he with rfl | ⟨k, hk, rfl⟩
    · exact hkey
    · exact hloaded k hk
  exact ⟨hlater, hsound, trivial⟩

theorem opened_sound (hs : fleet.Sound kms) {key : EnvelopeKey}
    (hkey : Stored kms (kmsKeyName (keyId config)) keySize fleet.store key.version key.key) :
    SoundAfter kms prims fleet t (.withKmsStore config) (fleet.opened config key) := by
  unfold Fleet.opened
  split
  case isTrue => exact .unchanged hs hkey
  case isFalse =>
    refine @started_sound kms prims config [] fleet t hs key hkey _
      ⟨List.nodup_singleton _, .nil⟩ (fun e he => .inl (List.mem_singleton.1 he)) nofun

theorem nextStart_sound (hkms : kms.Undoes) (hs : fleet.Sound kms)
    (hphase : phase.Sound kms prims fleet t (.withKmsStore config)) :
    SoundAfter kms prims fleet t (.withKmsStore config)
      (fleet.nextStart kms t seed config phase) := by
  unfold Fleet.nextStart
  cases phase with
  | begun =>
      simp only [keySizeBytes_eq]
      split
      case h_1 => exact .failed hs _
      case h_2 key hkey => exact opened_sound hs (loadActive_stored hs.wrapped hkey)
      case h_3 =>
        split
        case h_1 => exact .failed hs _
        case h_2 record plaintext hgenerated =>
          obtain ⟨hwraps, hid, hversion, hactive⟩ := generate_wraps hkms hgenerated
          exact .unchanged hs ⟨hphase, hid, hversion, hactive, hwraps⟩
  | inserting record plaintext =>
      obtain ⟨hfree, hid, hversion, hactive, hwraps⟩ := hphase
      dsimp only
      split
      case h_1 => exact .failed hs _
      case h_2 store hstore =>
        obtain ⟨hordered, hinserts⟩ := insertIfAbsent_spec hs.ordered hactive hversion hstore
        obtain ⟨hlater, hsound⟩ := hs.inserted hid hwraps hordered hinserts
        refine ⟨hlater, hsound, fun k hk hkid => ?_, hid, hwraps⟩
        rcases hinserts.back k hk with rfl | ⟨k₀, hk₀, hsame⟩
        · exact .refl _
        · refine absurd ?_ (hfree k₀ hk₀)
          rw [← hkid, ← hsame]
  | confirming record plaintext =>
      obtain ⟨hown, hid, hwraps⟩ := hphase
      simp only [keySizeBytes_eq]
      split
      case h_1 => exact .failed hs _
      case h_2 key hkey =>
        refine opened_sound hs (loadWinner_stored hs.wrapped hwraps (fun k hk hkid => ?_) hkey)
        exact hown k hk (hkid.trans hid)
  | extending key =>
      simp only [keySizeBytes_eq]
      obtain ⟨loaded, hloaded, hstored, -⟩ :=
        loadNew_spec hs.wrapped (kmsKeyName (keyId config)) (· == key.version)
      rw [hloaded]
      have hadds := KeyVersions.add_adds ⟨key.key, key.version, []⟩ loaded
      refine started_sound hs hphase (KeyVersions.add_tidy ?_ loaded) (fun e he => ?_)
        fun k hk => (hstored k hk).2
      · exact List.nodup_singleton _
      · exact (hadds.back e he).imp_left List.mem_singleton.1
  | rotating | adding | reloading | loading | merging | retrying | done =>
      exact .unchanged hs hphase

theorem nextRotate_sound (hkms : kms.Undoes) (hs : fleet.Sound kms)
    (he : fleet.engines[e]? = some engine)
    (hphase : phase.Sound kms prims fleet t (.rotateKmsKeyIn e)) :
    SoundAfter kms prims fleet t (.rotateKmsKeyIn e)
      (fleet.nextRotate kms t seed e engine phase) := by
  have hid : fleet.keyIdOf (.rotateKmsKeyIn e) = keyId engine.config := by
    simp [Fleet.keyIdOf, he]
  unfold Fleet.nextRotate
  cases phase with
  | begun =>
      simp only [keySizeBytes_eq]
      split
      case h_1 => exact .failed hs _
      case h_2 record plaintext hgenerated =>
        obtain ⟨hwraps, hrid, hversion, hactive⟩ := generate_wraps hkms hgenerated
        refine .unchanged hs ⟨hphase, hrid, ?_, ?_, hactive, hid ▸ hwraps⟩
        · rw [hversion, nextVersion_eq hs.ordered]
          omega
        · rw [hversion, nextVersion_eq hs.ordered, Store.scopeOf, hwraps.keyName,
            hwraps.kmsProvider, hwraps.kmsKeyId]
  | rotating record plaintext =>
      obtain ⟨hfree, hrid, hpositive, hnext, hactive, hwraps⟩ := hphase
      dsimp only
      split
      case h_1 => exact .failed hs _
      case h_2 store hstore =>
        obtain ⟨hordered, hinserts, hmem⟩ :=
          insertRotated_spec hs.ordered hactive hpositive hnext hstore
        obtain ⟨hlater, hsound⟩ := hs.inserted hrid hwraps hordered hinserts
        exact ⟨hlater, hsound, record, hmem, rfl, hwraps⟩
  | adding key =>
      have hkey : Stored kms (kmsKeyName (keyId engine.config)) keySize fleet.store
          key.version key.key := hid ▸ hphase
      obtain ⟨hlater, hsound⟩ := hs.merged he t (keyId engine.config) [key] fun k hk => by
        rw [List.mem_singleton.1 hk]
        exact hkey
      exact ⟨hlater, hsound, trivial⟩
  | inserting | confirming | extending | reloading | loading | merging | retrying | done =>
      exact .unchanged hs hphase

theorem nextReload_sound (hs : fleet.Sound kms) (he : fleet.engines[e]? = some engine)
    (hid : fleet.keyIdOf call = id) (hphase : phase.Sound kms prims fleet t call) :
    SoundAfter kms prims fleet t call (fleet.nextReload kms e engine id phase) := by
  unfold Fleet.nextReload
  cases phase with
  | loading failure known =>
      simp only [keySizeBytes_eq]
      obtain ⟨loaded, hloaded, hstored, -⟩ :=
        loadNew_spec hs.wrapped (kmsKeyName id) known.contains
      rw [hloaded]
      cases loaded with
      | nil =>
          refine .unchanged hs ?_
          cases failure <;> trivial
      | cons first loaded =>
          refine .unchanged hs ?_
          unfold Phase.Sound
          rw [hid]
          exact fun k hk => (hstored k hk).2
  | merging failure loaded =>
      have hloaded : ∀ k ∈ loaded,
          Stored kms (kmsKeyName id) keySize fleet.store k.version k.key := hid ▸ hphase
      obtain ⟨hlater, hsound⟩ := hs.merged he t id loaded hloaded
      refine ⟨hlater, hsound, ?_⟩
      dsimp only
      split <;> trivial
  | begun | inserting | confirming | extending | rotating | adding | reloading | retrying
  | done => exact .unchanged hs hphase

theorem nextEncrypt_sound (hs : fleet.Sound kms) (he : fleet.engines[e]? = some engine)
    (hnonce : nonce.length = nonceSize) :
    SoundAfter kms prims fleet t (.encrypt e payload aad)
      (fleet.nextEncrypt prims nonce engine payload aad) := by
  unfold Fleet.nextEncrypt
  cases hheld : engine.keys (keyId engine.config) with
  | none => exact .failed hs _
  | some held =>
      dsimp only
      split
      case h_1 => exact .failed hs _
      case h_2 encrypted hencrypted =>
        refine .unchanged hs ⟨e, engine, payload, aad, held.activeVersion, held.active, nonce,
          rfl, he, hnonce, hencrypted, ?_⟩
        exact hs.stored e engine he _ _ _ ⟨held, hheld, List.mem_cons_self⟩

/-- What any section does. -/
theorem next_sound (hkms : kms.Undoes) (hs : fleet.Sound kms) (dice : Dice) {task : Task}
    (hphase : task.phase.Sound kms prims fleet t task.call) :
    SoundAfter kms prims fleet t task.call (fleet.next kms prims t dice task) := by
  obtain ⟨call, phase⟩ := task
  unfold Fleet.next
  cases call with
  | withKmsStore config => exact nextStart_sound hkms hs hphase
  | rotateKmsKeyIn e =>
      dsimp only
      split
      case h_1 => exact .unchanged hs hphase
      case h_2 engine he => exact nextRotate_sound hkms hs he hphase
  | reloadKmsKeys e =>
      dsimp only
      split
      case h_1 => exact .unchanged hs hphase
      case h_2 engine he =>
        have hid : fleet.keyIdOf (.reloadKmsKeys e) = keyId engine.config := by
          simp [Fleet.keyIdOf, he]
        split
        case h_1 => exact .unchanged hs trivial
        case h_2 => exact nextReload_sound hs he hid hphase
  | encrypt e payload aad =>
      dsimp only
      split
      case h_1 => exact .unchanged hs hphase
      case h_2 engine he => exact nextEncrypt_sound hs he dice.nonce_length
  | decrypt e payload aad =>
      dsimp only
      split
      case h_1 => exact .unchanged hs hphase
      case h_2 engine he =>
        unfold Fleet.nextDecrypt
        dsimp only
        split
        · split <;> exact .unchanged hs trivial
        · exact .unchanged hs trivial
        · split <;> exact .unchanged hs trivial
        · exact nextReload_sound hs he rfl hphase

-- == one attempt to decrypt

/-- The engine holds the key under some version. -/
def Engine.HoldsKey (engine : Engine) (id : String) (key : Bytes) : Prop :=
  ∃ version, engine.Holds id version key

theorem Engine.Later.holdsKey (h : engine.Later engine') (hheld : engine.HoldsKey id key) :
    engine'.HoldsKey id key :=
  ⟨hheld.choose, h.holds hheld.choose_spec⟩

/-- An attempt succeeds if the engine holds the payload's key, and fails
otherwise. -/
theorem attempt_spec (hprims : prims.Lawful) (hs : fleet.Sound kms)
    (he : fleet.engines[e]? = some engine) (hnonce : nonce.length = nonceSize)
    (henc : encryptValue prims config key nonce payload aad = .ok encrypted) (id : String) :
    (engine.HoldsKey id key → ∃ value, Reads prims payload value ∧
      decryptValue prims ((engine.keys id).map KeyVersions.candidates) encrypted aad
        = .ok value) ∧
    (¬ engine.HoldsKey id key → ∃ failure,
      decryptValue prims ((engine.keys id).map KeyVersions.candidates) encrypted aad
        = .error failure) := by
  have hsizes : ∀ keys ∈ (engine.keys id).map KeyVersions.candidates, ∀ k ∈ keys,
      k.length = keySize := by
    intro keys hkeys k hk
    obtain ⟨held, hheld, rfl⟩ := Option.map_eq_some_iff.1 hkeys
    obtain ⟨version, hentry⟩ := KeyVersions.mem_candidates.1 hk
    obtain ⟨_, -, -, hwraps⟩ := hs.stored e engine he id version k ⟨held, hheld, hentry⟩
    exact hwraps.length
  have hiff : (∃ keys ∈ (engine.keys id).map KeyVersions.candidates, key ∈ keys) ↔
      engine.HoldsKey id key := by
    constructor
    · rintro ⟨keys, hkeys, hk⟩
      obtain ⟨held, hheld, rfl⟩ := Option.map_eq_some_iff.1 hkeys
      obtain ⟨version, hentry⟩ := KeyVersions.mem_candidates.1 hk
      exact ⟨version, held, hheld, hentry⟩
    · rintro ⟨version, held, hheld, hentry⟩
      exact ⟨held.candidates, Option.map_eq_some_iff.2 ⟨held, hheld, rfl⟩,
        KeyVersions.mem_candidates.2 ⟨version, hentry⟩⟩
  rw [← hiff]
  exact decryptValue_spec hprims hnonce henc hsizes

/-- What a reload's read gives: nothing if the versions stored are all
known, and otherwise stored versions, among them all that are not known. -/
theorem nextReload_loading (hs : fleet.Sound kms) (e : Nat) (engine : Engine) (id : String)
    (failure : EncryptionError) (known : List Nat) :
    ((∀ record ∈ fleet.store.scope (kmsKeyName id) kms.provider kms.kmsKeyId,
        record.version ∈ known) ∧
      fleet.nextReload kms e engine id (.loading (some failure) known)
        = (.done (.failed failure), fleet)) ∨
    ∃ loaded, (∃ record ∈ fleet.store.scope (kmsKeyName id) kms.provider kms.kmsKeyId,
        record.version ∉ known) ∧
      (∀ record ∈ fleet.store.scope (kmsKeyName id) kms.provider kms.kmsKeyId,
        record.version ∉ known → ∃ k ∈ loaded, k.version = record.version) ∧
      fleet.nextReload kms e engine id (.loading (some failure) known)
        = (.merging (some failure) loaded, fleet) := by
  obtain ⟨loaded, hloaded, hstored, hall⟩ :=
    loadNew_spec hs.wrapped (kmsKeyName id) known.contains
  have hall' : ∀ record ∈ fleet.store.scope (kmsKeyName id) kms.provider kms.kmsKeyId,
      record.version ∉ known → ∃ k ∈ loaded, k.version = record.version :=
    fun record hrecord hnew => hall record hrecord (by simpa using hnew)
  unfold Fleet.nextReload
  simp only [keySizeBytes_eq]
  rw [hloaded]
  cases loaded with
  | nil =>
      refine .inl ⟨fun record hrecord => ?_, rfl⟩
      by_contra hnew
      obtain ⟨_, hk, -⟩ := hall' record hrecord hnew
      exact absurd hk List.not_mem_nil
  | cons first loaded =>
      obtain ⟨hnew, record, hmem, hversion, hwraps⟩ := hstored first List.mem_cons_self
      refine .inr ⟨first :: loaded, ⟨record, ?_, ?_⟩, hall', rfl⟩
      · exact mem_scope.2 ⟨hmem, hwraps.keyName, hwraps.kmsProvider, hwraps.kmsKeyId⟩
      · rw [hversion]
        simpa using hnew

/-- After merging the engine holds every version that was loaded. -/
theorem merged_holds (hs : fleet.Sound kms) (he : fleet.engines[e]? = some engine) (id : String)
    {k : EnvelopeKey} (hk : k ∈ loaded) :
    ∃ key, (engine.merge id loaded).Holds id k.version key := by
  obtain ⟨held', hheld', hversion⟩ := (merge_spec (hs.tidy e engine he id) loaded).2.2 k hk
  obtain ⟨key, hentry⟩ := KeyVersions.mem_versions.1 hversion
  refine ⟨key, held', ?_, hentry⟩
  simp only [Engine.merge, Function.update_self]
  exact hheld'

end Kms

end Hammerwork
