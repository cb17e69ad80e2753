/-
Stored keys, and the keys an engine holds.

Of the table: in every scope the versions are 1, 2, … in the order of
insertion and the last one is the active one (`Store.Ordered`); both ways
of inserting keep that. Of an engine's keys: adding keeps what is held,
holds no version twice, and leaves the earlier versions sorted
(`KeyVersions.Tidy`).
-/
import Hammerwork.Envelope
import Mathlib.Data.List.Range

namespace Hammerwork

namespace Kms

variable {store store' : Store} {kms : KmsKeyWrapper} {key record : KmsWrappedKey}
  {keyName kmsProvider kmsKeyId : String} {size n : Nat}

-- == the keys of a scope

/-- The keys of a scope, in the order of insertion. -/
def Store.scope (store : Store) (keyName kmsProvider kmsKeyId : String) : List KmsWrappedKey :=
  store.filter (·.inScope keyName kmsProvider kmsKeyId)

/-- The key's own scope. -/
def Store.scopeOf (store : Store) (key : KmsWrappedKey) : List KmsWrappedKey :=
  store.scope key.keyName key.kmsProvider key.kmsKeyId

/-- In every scope the versions are 1, 2, … without gaps, and the last of
them is the active one. -/
structure Store.Ordered (store : Store) : Prop where
  versions : ∀ keyName kmsProvider kmsKeyId : String,
    (store.scope keyName kmsProvider kmsKeyId).map (·.version)
      = List.range' 1 (store.scope keyName kmsProvider kmsKeyId).length
  active : ∀ (keyName kmsProvider kmsKeyId : String),
    ∀ key ∈ store.scope keyName kmsProvider kmsKeyId,
      key.active = decide (key.version = (store.scope keyName kmsProvider kmsKeyId).length)

namespace KmsWrappedKey

@[simp] theorem inScope_iff :
    key.inScope keyName kmsProvider kmsKeyId = true ↔
      key.keyName = keyName ∧ key.kmsProvider = kmsProvider ∧ key.kmsKeyId = kmsKeyId := by
  simp [inScope, and_assoc]

theorem sameScope_iff {a b : KmsWrappedKey} :
    a.sameScope b = true ↔
      a.keyName = b.keyName ∧ a.kmsProvider = b.kmsProvider ∧ a.kmsKeyId = b.kmsKeyId := by
  simp [sameScope]

end KmsWrappedKey

theorem mem_scope :
    key ∈ store.scope keyName kmsProvider kmsKeyId ↔
      key ∈ store ∧ key.keyName = keyName ∧ key.kmsProvider = kmsProvider ∧
        key.kmsKeyId = kmsKeyId := by
  simp [Store.scope]

/-- Reading a scope finds what is in it. -/
theorem mem_versions :
    record ∈ versions store kms keyName ↔
      record ∈ store.scope keyName kms.provider kms.kmsKeyId :=
  List.mem_insertionSort _

theorem scope_append :
    (store ++ [key]).scope keyName kmsProvider kmsKeyId
      = store.scope keyName kmsProvider kmsKeyId
        ++ if key.inScope keyName kmsProvider kmsKeyId then [key] else [] := by
  simp [Store.scope, List.filter_append, List.filter_singleton]

/-- Retiring a scope keeps every scope but for the flags. -/
theorem scope_retireScope :
    (store.retireScope key).scope keyName kmsProvider kmsKeyId
      = (store.scope keyName kmsProvider kmsKeyId).map fun k =>
          if k.sameScope key then { k with active := false } else k := by
  simp only [Store.scope, Store.retireScope, List.filter_map]
  congr 1
  refine List.filter_congr fun k _ => ?_
  simp only [Function.comp_apply]
  split <;> rfl

/-- A version is stored in its scope exactly if it is one of the first. -/
theorem hasVersion_iff (hs : store.Ordered) :
    store.hasVersion key = true ↔ 1 ≤ key.version ∧ key.version ≤ (store.scopeOf key).length := by
  have hlisted : store.hasVersion key = true ↔
      key.version ∈ (store.scopeOf key).map (·.version) := by
    simp only [Store.hasVersion, List.any_eq_true, Bool.and_eq_true, decide_eq_true_eq,
      KmsWrappedKey.sameScope_iff, List.mem_map, Store.scopeOf, mem_scope]
    constructor
    · rintro ⟨k, hk, hscope, hversion⟩
      exact ⟨k, ⟨hk, hscope⟩, hversion⟩
    · rintro ⟨k, ⟨hk, hscope⟩, hversion⟩
      exact ⟨k, hk, hscope, hversion⟩
  rw [hlisted, Store.scopeOf, hs.versions, List.mem_range'_1]
  omega

/-- The scope of a key is that of another, or the key is not in it. -/
theorem scope_cases (key : KmsWrappedKey) (keyName kmsProvider kmsKeyId : String) :
    (key.inScope keyName kmsProvider kmsKeyId = true ∧ keyName = key.keyName ∧
      kmsProvider = key.kmsProvider ∧ kmsKeyId = key.kmsKeyId) ∨
    key.inScope keyName kmsProvider kmsKeyId = false := by
  cases h : key.inScope keyName kmsProvider kmsKeyId with
  | false => exact .inr rfl
  | true =>
      obtain ⟨h₁, h₂, h₃⟩ := KmsWrappedKey.inScope_iff.1 h
      exact .inl ⟨rfl, h₁.symm, h₂.symm, h₃.symm⟩

/-- The next version inserted, with the others of its scope retired. -/
theorem Store.Ordered.rotated (hs : store.Ordered) (hactive : key.active = true)
    (hnext : key.version = (store.scopeOf key).length + 1) :
    (store.retireScope key ++ [key]).Ordered := by
  have hscope : ∀ keyName kmsProvider kmsKeyId : String,
      key.inScope keyName kmsProvider kmsKeyId = false →
      (store.retireScope key ++ [key]).scope keyName kmsProvider kmsKeyId
        = store.scope keyName kmsProvider kmsKeyId := by
    intro keyName kmsProvider kmsKeyId hout
    rw [scope_append, scope_retireScope, hout]
    simp only [Bool.false_eq_true, if_false, List.append_nil]
    refine (List.map_congr_left fun k hk => ?_).trans (List.map_id _)
    have hk' := (mem_scope.1 hk).2
    split
    case isTrue hsame =>
      obtain ⟨h₁, h₂, h₃⟩ := KmsWrappedKey.sameScope_iff.1 hsame
      have hin : key.inScope keyName kmsProvider kmsKeyId = true :=
        KmsWrappedKey.inScope_iff.2
          ⟨h₁.symm.trans hk'.1, h₂.symm.trans hk'.2.1, h₃.symm.trans hk'.2.2⟩
      rw [hout] at hin
      cases hin
    case isFalse => rfl
  have hown : (store.retireScope key ++ [key]).scope key.keyName key.kmsProvider key.kmsKeyId
      = (store.scopeOf key).map (fun k => { k with active := false }) ++ [key] := by
    have hin : key.inScope key.keyName key.kmsProvider key.kmsKeyId = true := by simp
    rw [scope_append, scope_retireScope, hin, if_pos rfl]
    congr 1
    refine List.map_congr_left fun k hk => ?_
    rw [if_pos (KmsWrappedKey.sameScope_iff.2 (mem_scope.1 hk).2)]
  refine ⟨fun keyName kmsProvider kmsKeyId => ?_, fun keyName kmsProvider kmsKeyId k hk => ?_⟩
  · rcases scope_cases key keyName kmsProvider kmsKeyId with ⟨-, rfl, rfl, rfl⟩ | hout
    · have hversions : ((store.scopeOf key).map fun k => { k with active := false }).map
          (·.version) = List.range' 1 (store.scopeOf key).length := by
        rw [List.map_map]
        exact hs.versions key.keyName key.kmsProvider key.kmsKeyId
      rw [hown, List.map_append, hversions, List.length_append, List.length_map,
        List.length_singleton, List.range'_concat, List.map_singleton, hnext, Nat.one_mul,
        Nat.add_comm 1]
    · rw [hscope _ _ _ hout]
      exact hs.versions keyName kmsProvider kmsKeyId
  · rcases scope_cases key keyName kmsProvider kmsKeyId with ⟨-, rfl, rfl, rfl⟩ | hout
    · rw [hown] at hk ⊢
      rw [List.length_append, List.length_map, List.length_singleton]
      rcases List.mem_append.1 hk with hold | hnew
      · obtain ⟨k₀, hk₀, rfl⟩ := List.mem_map.1 hold
        have hmem : k₀.version ∈ (store.scopeOf key).map (·.version) :=
          List.mem_map_of_mem hk₀
        rw [Store.scopeOf, hs.versions, List.mem_range'_1] at hmem
        have hne : k₀.version ≠ (store.scopeOf key).length + 1 := by
          unfold Store.scopeOf
          omega
        simp [hne]
      · obtain rfl := List.mem_singleton.1 hnew
        simp [hactive, hnext]
    · rw [hscope _ _ _ hout] at hk ⊢
      exact hs.active keyName kmsProvider kmsKeyId k hk

-- == inserts

/-- The same stored key, but for whether it is active. -/
def KmsWrappedKey.SameKey (a b : KmsWrappedKey) : Prop :=
  { a with active := b.active } = b

theorem KmsWrappedKey.SameKey.refl (a : KmsWrappedKey) : a.SameKey a := rfl

theorem KmsWrappedKey.SameKey.trans {a b c : KmsWrappedKey} (h₁ : a.SameKey b)
    (h₂ : b.SameKey c) : a.SameKey c := by
  unfold SameKey at *
  rw [← h₂, ← h₁]

/-- What an insert of a key may do to the table: every key stays, and no
other comes in. -/
structure Inserts (key : KmsWrappedKey) (store store' : Store) : Prop where
  kept : ∀ k ∈ store, ∃ k' ∈ store', k.SameKey k'
  back : ∀ k' ∈ store', k' = key ∨ ∃ k ∈ store, k.SameKey k'

theorem inserts_rotated (key : KmsWrappedKey) (store : Store) :
    Inserts key store (store.retireScope key ++ [key]) := by
  have hsame : ∀ k : KmsWrappedKey,
      k.SameKey (if k.sameScope key then { k with active := false } else k) := by
    intro k
    split <;> rfl
  refine ⟨fun k hk => ?_, fun k' hk' => ?_⟩
  · exact ⟨_, List.mem_append_left _ (List.mem_map_of_mem hk), hsame k⟩
  · rcases List.mem_append.1 hk' with hold | hnew
    · obtain ⟨k, hk, rfl⟩ := List.mem_map.1 hold
      exact .inr ⟨k, hk, hsame k⟩
    · exact .inl (List.mem_singleton.1 hnew)

theorem Store.insertRotated_ok (h : store.insertRotated key = .ok store') :
    store.hasVersion key = false ∧ store' = store.retireScope key ++ [key] := by
  unfold Store.insertRotated toI32 at h
  split at h
  · split at h
    · cases hversion : store.hasVersion key with
      | true => simp [hversion, bind, Except.bind] at h
      | false =>
          simp only [hversion, bind, Except.bind, Bool.false_eq_true, if_false] at h
          cases h
          exact ⟨rfl, rfl⟩
    · cases h
  · cases h

theorem Store.insertIfAbsent_ok (h : store.insertIfAbsent key = .ok store') :
    store' = if store.hasVersion key then store else store ++ [key] := by
  unfold Store.insertIfAbsent toI32 at h
  split at h
  · split at h
    · cases h
      rfl
    · cases h
  · cases h

/-- A rotation inserts the version after the last one, or nothing. -/
theorem insertRotated_spec (hs : store.Ordered) (hactive : key.active = true)
    (hpositive : 1 ≤ key.version) (hnext : key.version ≤ (store.scopeOf key).length + 1)
    (h : store.insertRotated key = .ok store') :
    store'.Ordered ∧ Inserts key store store' ∧ key ∈ store' := by
  obtain ⟨hnew, rfl⟩ := Store.insertRotated_ok h
  have hfree : ¬ key.version ≤ (store.scopeOf key).length := by
    intro hle
    have hhas := (hasVersion_iff hs).2 ⟨hpositive, hle⟩
    rw [hnew] at hhas
    cases hhas
  refine ⟨hs.rotated hactive (by omega), inserts_rotated key store, ?_⟩
  exact List.mem_append_right _ (List.mem_singleton_self key)

/-- The first version is inserted into an empty scope, or not at all. -/
theorem insertIfAbsent_spec (hs : store.Ordered) (hactive : key.active = true)
    (hfirst : key.version = 1) (h : store.insertIfAbsent key = .ok store') :
    store'.Ordered ∧ Inserts key store store' := by
  rw [Store.insertIfAbsent_ok h]
  cases hhas : store.hasVersion key with
  | true =>
      exact ⟨hs, fun k hk => ⟨k, hk, .refl k⟩, fun k hk => .inr ⟨k, hk, .refl k⟩⟩
  | false =>
      have hempty : (store.scopeOf key).length = 0 := by
        by_contra hne
        have hhas' : store.hasVersion key = true :=
          (hasVersion_iff hs).2 ⟨by omega, by omega⟩
        rw [hhas] at hhas'
        cases hhas'
      -- with nothing in the scope there is nothing to retire
      have hretire : store.retireScope key = store := by
        refine (List.map_congr_left fun k hk => ?_).trans (List.map_id _)
        split
        case isTrue hsame =>
          have hmem : k ∈ store.scopeOf key :=
            mem_scope.2 ⟨hk, KmsWrappedKey.sameScope_iff.1 hsame⟩
          rw [List.length_eq_zero_iff.1 hempty] at hmem
          cases hmem
        case isFalse => rfl
      have hrotated := hs.rotated hactive (by rw [hempty, hfirst])
      have hinserts := inserts_rotated key store
      rw [hretire] at hrotated hinserts
      exact ⟨hrotated, hinserts⟩

/-- A version and its scope say which key it is. -/
theorem Store.Ordered.unique (hs : store.Ordered) {k k' : KmsWrappedKey}
    (hk : k ∈ store.scope keyName kmsProvider kmsKeyId)
    (hk' : k' ∈ store.scope keyName kmsProvider kmsKeyId) (heq : k.version = k'.version) :
    k = k' := by
  have hnodup : ((store.scope keyName kmsProvider kmsKeyId).map (·.version)).Nodup := by
    rw [hs.versions]
    exact List.nodup_range'
  exact List.inj_on_of_nodup_map hnodup hk hk' heq

/-- The version after the greatest one. -/
theorem nextVersion_eq (hs : store.Ordered) :
    nextVersion (versions store kms keyName)
      = (store.scope keyName kms.provider kms.kmsKeyId).length + 1 := by
  have hperm : (versions store kms keyName).map (·.version) |>.Perm
      (List.range' 1 (store.scope keyName kms.provider kms.kmsKeyId).length) := by
    rw [← hs.versions]
    exact (List.perm_insertionSort _ _).map _
  unfold nextVersion
  cases hmax : ((versions store kms keyName).map (·.version)).max? with
  | none =>
      rw [List.max?_eq_none_iff] at hmax
      rw [hmax] at hperm
      have hlength := hperm.length_eq
      rw [List.length_range', List.length_nil] at hlength
      rw [← hlength]
      rfl
  | some v =>
      rw [List.max?_eq_some_iff] at hmax
      obtain ⟨hmem, hle⟩ := hmax
      have hv := hperm.mem_iff.1 hmem
      rw [List.mem_range'_1] at hv
      have hlast := hle (store.scope keyName kms.provider kms.kmsKeyId).length
        (hperm.mem_iff.2 (List.mem_range'_1.2 ⟨by omega, by omega⟩))
      simp only [Option.getD_some]
      omega

-- == plaintexts

/-- The KMS decrypts the data keys it generated. -/
def KmsKeyWrapper.Undoes (kms : KmsKeyWrapper) : Prop :=
  ∀ (seed size : Nat) (context : String) (dataKey : DataKey),
    kms.generateDataKey seed size context = .ok dataKey →
    kms.decrypt dataKey.ciphertext context = .ok dataKey.plaintext

/-- The record stores the plaintext, as a key of that name and size. -/
structure Wraps (kms : KmsKeyWrapper) (keyName : String) (size : Nat) (plaintext : Bytes)
    (record : KmsWrappedKey) : Prop where
  keyName : record.keyName = keyName
  kmsProvider : record.kmsProvider = kms.provider
  kmsKeyId : record.kmsKeyId = kms.kmsKeyId
  keySize : record.keySize = size
  decrypts : kms.decrypt record.wrappedKey record.keyName = .ok plaintext
  length : plaintext.length = size

variable {plaintext plaintext' : Bytes} {record' : KmsWrappedKey}

theorem Wraps.sameKey (h : Wraps kms keyName size plaintext record)
    (hsame : record.SameKey record') : Wraps kms keyName size plaintext record' := by
  unfold KmsWrappedKey.SameKey at hsame
  rw [← hsame]
  exact ⟨h.keyName, h.kmsProvider, h.kmsKeyId, h.keySize, h.decrypts, h.length⟩

/-- A stored key has one plaintext. -/
theorem Wraps.unique (h : Wraps kms keyName size plaintext record)
    (h' : Wraps kms keyName size plaintext' record) : plaintext = plaintext' :=
  Except.ok.inj (h.decrypts.symm.trans h'.decrypts)

theorem Wraps.unwrap (h : Wraps kms keyName size plaintext record) :
    unwrap kms size record = .ok ⟨record.version, plaintext, record.active⟩ := by
  simp [Kms.unwrap, h.keySize, h.decrypts, h.length]

/-- What a generated record is. -/
theorem generate_wraps (hkms : kms.Undoes) {seed id version : Nat}
    (h : generate kms seed id keyName version size = .ok (record, plaintext)) :
    Wraps kms keyName size plaintext record ∧ record.id = id ∧ record.version = version ∧
      record.active = true := by
  unfold generate newRecord at h
  split at h
  case h_1 => cases h
  case h_2 dataKey hgenerated =>
    split at h
    case isTrue => cases h
    case isFalse hlength =>
      split at h
      case h_1 => cases h
      case h_2 made hmade =>
        obtain ⟨rfl, rfl⟩ := Prod.mk.inj (Except.ok.inj h)
        split at hmade
        case isFalse => cases hmade
        case isTrue =>
          obtain rfl := Except.ok.inj hmade
          refine ⟨⟨rfl, rfl, rfl, rfl, ?_, not_not.1 hlength⟩, rfl, rfl, rfl⟩
          exact hkms seed size keyName dataKey hgenerated

/-- A version of the key `keyName` is stored, with that plaintext. -/
def Stored (kms : KmsKeyWrapper) (keyName : String) (size : Nat) (store : Store)
    (version : Nat) (plaintext : Bytes) : Prop :=
  ∃ record ∈ store, record.version = version ∧ Wraps kms keyName size plaintext record

theorem Stored.inserts {version : Nat} (h : Stored kms keyName size store version plaintext)
    (hinserts : Inserts key store store') :
    Stored kms keyName size store' version plaintext := by
  obtain ⟨record, hmem, hversion, hwraps⟩ := h
  obtain ⟨record', hmem', hsame⟩ := hinserts.kept record hmem
  refine ⟨record', hmem', ?_, hwraps.sameKey hsame⟩
  rw [← hversion, ← hsame]

/-- A version has one plaintext. -/
theorem Stored.unique (hs : store.Ordered) {version : Nat}
    (h : Stored kms keyName size store version plaintext)
    (h' : Stored kms keyName size store version plaintext') : plaintext = plaintext' := by
  obtain ⟨record, hmem, hversion, hwraps⟩ := h
  obtain ⟨record', hmem', hversion', hwraps'⟩ := h'
  have heq : record = record' := by
    refine hs.unique (mem_scope.2 ⟨hmem, hwraps.keyName, hwraps.kmsProvider, hwraps.kmsKeyId⟩)
      (mem_scope.2 ⟨hmem', hwraps'.keyName, hwraps'.kmsProvider, hwraps'.kmsKeyId⟩) ?_
    rw [hversion, hversion']
  subst heq
  exact hwraps.unique hwraps'

/-- Every key in the table wraps a data key of the KMS. -/
def Store.Wrapped (kms : KmsKeyWrapper) (size : Nat) (store : Store) : Prop :=
  ∀ record ∈ store, ∃ plaintext, Wraps kms record.keyName size plaintext record

theorem Store.Wrapped.inserts (hs : store.Wrapped kms size)
    (hkey : Wraps kms keyName size plaintext key) (hinserts : Inserts key store store') :
    store'.Wrapped kms size := by
  intro record hmem
  rcases hinserts.back record hmem with rfl | ⟨old, hold, hsame⟩
  · exact ⟨plaintext, hkey.keyName ▸ hkey⟩
  · obtain ⟨plaintext, hwraps⟩ := hs old hold
    have hname : record.keyName = old.keyName := by rw [← hsame]
    exact ⟨plaintext, hname ▸ hwraps.sameKey hsame⟩

/-- Loading what is not known gives exactly the stored versions that are
not known, with their plaintexts; it cannot fail. -/
theorem loadNew_spec (hs : store.Wrapped kms size) (keyName : String) (known : Nat → Bool) :
    ∃ loaded, loadNew kms size known (versions store kms keyName) = .ok loaded ∧
      (∀ key ∈ loaded, known key.version = false ∧
        Stored kms keyName size store key.version key.key) ∧
      ∀ record ∈ store.scope keyName kms.provider kms.kmsKeyId,
        known record.version = false → ∃ key ∈ loaded, key.version = record.version := by
  have hload : ∀ records : List KmsWrappedKey,
      (∀ record ∈ records, record ∈ store.scope keyName kms.provider kms.kmsKeyId) →
      ∃ loaded, records.mapM (unwrap kms size) = .ok loaded ∧
        (∀ key ∈ loaded, (∃ record ∈ records, record.version = key.version) ∧
          Stored kms keyName size store key.version key.key) ∧
        ∀ record ∈ records, ∃ key ∈ loaded, key.version = record.version := by
    intro records
    induction records with
    | nil => exact fun _ => ⟨[], rfl, nofun, nofun⟩
    | cons record records ih =>
        intro hrecords
        obtain ⟨loaded, hloaded, hstored, hall⟩ :=
          ih fun r hr => hrecords r (List.mem_cons_of_mem _ hr)
        have hmem := mem_scope.1 (hrecords record List.mem_cons_self)
        obtain ⟨plaintext, hwraps⟩ := hs record hmem.1
        refine ⟨⟨record.version, plaintext, record.active⟩ :: loaded, ?_, ?_, ?_⟩
        · rw [List.mapM_cons, hwraps.unwrap, hloaded]
          rfl
        · intro key hkey
          rcases List.mem_cons.1 hkey with rfl | hkey
          · exact ⟨⟨record, List.mem_cons_self, rfl⟩, record, hmem.1, rfl, hmem.2.1 ▸ hwraps⟩
          · obtain ⟨⟨r, hr, hversion⟩, hkept⟩ := hstored key hkey
            exact ⟨⟨r, List.mem_cons_of_mem _ hr, hversion⟩, hkept⟩
        · intro r hr
          rcases List.mem_cons.1 hr with rfl | hr
          · exact ⟨_, List.mem_cons_self, rfl⟩
          · obtain ⟨key, hkey, hversion⟩ := hall r hr
            exact ⟨key, List.mem_cons_of_mem _ hkey, hversion⟩
  obtain ⟨loaded, hloaded, hstored, hall⟩ :=
    hload ((versions store kms keyName).filter fun record => !known record.version)
      fun record hmem => mem_versions.1 (List.mem_of_mem_filter hmem)
  refine ⟨loaded, hloaded, fun key hkey => ?_, fun record hmem hnew => hall record ?_⟩
  · obtain ⟨⟨r, hr, hversion⟩, hkept⟩ := hstored key hkey
    refine ⟨?_, hkept⟩
    rw [← hversion]
    simpa using (List.mem_filter.1 hr).2
  · exact List.mem_filter.2 ⟨mem_versions.2 hmem, by simp [hnew]⟩

/-- The active key of a read is stored. -/
theorem active_stored {found : KmsWrappedKey}
    (h : active (versions store kms keyName) = some found) :
    found ∈ store.scope keyName kms.provider kms.kmsKeyId :=
  mem_versions.1 (List.mem_of_find?_eq_some h)

/-- What `load_or_create` reads, if it reads anything, is a stored key. -/
theorem loadActive_stored (hs : store.Wrapped kms size) {loaded : EnvelopeKey}
    (h : loadActive kms keyName size (versions store kms keyName) = .ok (some loaded)) :
    Stored kms keyName size store loaded.version loaded.key := by
  unfold loadActive at h
  split at h
  case h_1 found hfound =>
    have hmem := mem_scope.1 (active_stored hfound)
    obtain ⟨plaintext, hwraps⟩ := hs found hmem.1
    rw [hwraps.unwrap] at h
    cases h
    exact ⟨found, hmem.1, rfl, hmem.2.1 ▸ hwraps⟩
  case h_2 =>
    split at h
    · cases h
    · cases h

/-- So is what it reads last, whoever won. -/
theorem loadWinner_stored (hs : store.Wrapped kms size) {loaded : EnvelopeKey}
    (hrecord : Wraps kms keyName size plaintext record)
    (hown : ∀ k ∈ store, k.id = record.id → record.SameKey k)
    (h : loadWinner kms keyName size record plaintext (versions store kms keyName) = .ok loaded) :
    Stored kms keyName size store loaded.version loaded.key := by
  unfold loadWinner at h
  split at h
  case h_1 => cases h
  case h_2 winner hwinner =>
    have hmem := mem_scope.1 (active_stored hwinner)
    split at h
    case isTrue hid =>
      cases h
      have hsame := hown winner hmem.1 hid
      exact ⟨winner, hmem.1, by rw [← hsame], hrecord.sameKey hsame⟩
    case isFalse =>
      obtain ⟨plaintext, hwraps⟩ := hs winner hmem.1
      rw [hwraps.unwrap] at h
      cases h
      exact ⟨winner, hmem.1, rfl, hmem.2.1 ▸ hwraps⟩

-- == the versions held

namespace KeyVersions

variable {held : KeyVersions} {loaded : List EnvelopeKey}

/-- The versions held, with their keys. -/
def entries (held : KeyVersions) : List (Nat × Bytes) :=
  (held.activeVersion, held.active) :: held.previous

/-- A version is held if it has an entry. -/
theorem mem_versions {version : Nat} :
    version ∈ held.versions ↔ ∃ key, (version, key) ∈ held.entries := by
  have hmap : held.versions = held.entries.map Prod.fst := rfl
  rw [hmap, List.mem_map]
  exact ⟨fun ⟨entry, hentry, heq⟩ => ⟨entry.2, heq ▸ hentry⟩, fun ⟨key, hkey⟩ => ⟨_, hkey, rfl⟩⟩

/-- The keys tried are those of the entries. -/
theorem mem_candidates {key : Bytes} :
    key ∈ held.candidates ↔ ∃ version, (version, key) ∈ held.entries := by
  have hmap : held.candidates = held.entries.map Prod.snd := rfl
  rw [hmap, List.mem_map]
  exact ⟨fun ⟨entry, hentry, heq⟩ => ⟨entry.1, heq ▸ hentry⟩, fun ⟨v, hv⟩ => ⟨_, hv, rfl⟩⟩

/-- No version is held twice, and the earlier ones are sorted, newest
first. -/
structure Tidy (held : KeyVersions) : Prop where
  nodup : held.versions.Nodup
  sorted : held.previous.Pairwise fun a b => b.1 < a.1

/-- One key added: nothing changes if its version is held, and it is held
afterwards. -/
theorem addOne_entries (held : KeyVersions) (key : EnvelopeKey) :
    (key.version ∈ held.versions ∧ held.addOne key = held) ∨
    (key.version ∉ held.versions ∧
      (held.addOne key).entries.Perm ((key.version, key.key) :: held.entries)) := by
  unfold addOne
  split
  case isTrue hheld => exact .inl ⟨List.contains_iff_mem.1 hheld, rfl⟩
  case isFalse hnew =>
    refine .inr ⟨fun hmem => hnew (List.contains_iff_mem.2 hmem), ?_⟩
    split
    case isTrue =>
      refine .cons _ ?_
      exact List.perm_append_comm
    case isFalse =>
      refine .trans (.cons _ List.perm_append_comm) ?_
      exact .swap _ _ _

theorem addOne_activeVersion (held : KeyVersions) (key : EnvelopeKey) :
    held.activeVersion ≤ (held.addOne key).activeVersion := by
  unfold addOne
  split
  case isTrue => exact le_rfl
  case isFalse =>
    split
    case isTrue hnewer =>
      simp only [Bool.and_eq_true, decide_eq_true_eq] at hnewer
      exact hnewer.2.le
    case isFalse => exact le_rfl

/-- What adding keys one by one does. -/
structure Adds (held : KeyVersions) (loaded : List EnvelopeKey) (held' : KeyVersions) : Prop where
  nodup : held.versions.Nodup → held'.versions.Nodup
  kept : ∀ entry ∈ held.entries, entry ∈ held'.entries
  added : ∀ key ∈ loaded, key.version ∈ held'.versions
  back : ∀ entry ∈ held'.entries, entry ∈ held.entries ∨
    ∃ key ∈ loaded, entry = (key.version, key.key)
  newer : held.activeVersion ≤ held'.activeVersion

theorem foldl_addOne (loaded : List EnvelopeKey) :
    ∀ held : KeyVersions, Adds held loaded (loaded.foldl addOne held) := by
  induction loaded with
  | nil => exact fun held => ⟨id, fun _ h => h, nofun, fun _ h => .inl h, le_rfl⟩
  | cons key loaded ih =>
      intro held
      have hrest := ih (held.addOne key)
      have hnewer := (addOne_activeVersion held key).trans hrest.newer
      rcases addOne_entries held key with ⟨hheld, heq⟩ | ⟨hnew, hperm⟩
      · rw [heq] at hrest
        simp only [List.foldl_cons, heq]
        refine ⟨hrest.nodup, hrest.kept, fun k hk => ?_, fun entry hentry => ?_, hrest.newer⟩
        · rcases List.mem_cons.1 hk with rfl | hk
          · obtain ⟨plaintext, hentry⟩ := mem_versions.1 hheld
            exact mem_versions.2 ⟨plaintext, hrest.kept _ hentry⟩
          · exact hrest.added k hk
        · rcases hrest.back entry hentry with hold | ⟨k, hk, rfl⟩
          · exact .inl hold
          · exact .inr ⟨k, List.mem_cons_of_mem _ hk, rfl⟩
      · have hversions : (held.addOne key).versions.Perm (key.version :: held.versions) :=
          hperm.map Prod.fst
        simp only [List.foldl_cons]
        refine ⟨fun hnodup => hrest.nodup ?_, fun entry hentry => ?_, fun k hk => ?_,
          fun entry hentry => ?_, hnewer⟩
        · exact hversions.nodup_iff.2 (List.nodup_cons.2 ⟨hnew, hnodup⟩)
        · exact hrest.kept entry (hperm.mem_iff.2 (List.mem_cons_of_mem _ hentry))
        · rcases List.mem_cons.1 hk with rfl | hk
          · exact mem_versions.2 ⟨k.key, hrest.kept _ (hperm.mem_iff.2 List.mem_cons_self)⟩
          · exact hrest.added k hk
        · rcases hrest.back entry hentry with hold | ⟨k, hk, rfl⟩
          · rcases List.mem_cons.1 (hperm.mem_iff.1 hold) with rfl | hold
            · exact .inr ⟨key, List.mem_cons_self, rfl⟩
            · exact .inl hold
          · exact .inr ⟨k, List.mem_cons_of_mem _ hk, rfl⟩

/-- The earlier versions are sorted at the end. -/
theorem add_entries (held : KeyVersions) (loaded : List EnvelopeKey) :
    (held.add loaded).entries.Perm (loaded.foldl addOne held).entries :=
  .cons _ (List.perm_insertionSort _ _)

theorem add_adds (held : KeyVersions) (loaded : List EnvelopeKey) :
    Adds held loaded (held.add loaded) := by
  have hfold := foldl_addOne loaded held
  have hperm := add_entries held loaded
  have hversions : (held.add loaded).versions.Perm (loaded.foldl addOne held).versions :=
    hperm.map Prod.fst
  refine ⟨fun hnodup => hversions.nodup_iff.2 (hfold.nodup hnodup),
    fun entry hentry => hperm.mem_iff.2 (hfold.kept entry hentry),
    fun key hkey => hversions.mem_iff.2 (hfold.added key hkey),
    fun entry hentry => hfold.back entry (hperm.mem_iff.1 hentry), hfold.newer⟩

/-- Adding tidies up. -/
theorem add_tidy (hnodup : held.versions.Nodup) (loaded : List EnvelopeKey) :
    (held.add loaded).Tidy := by
  have hadded := (add_adds held loaded).nodup hnodup
  refine ⟨hadded, ?_⟩
  have hsorted : (held.add loaded).previous.Pairwise fun a b => b.1 ≤ a.1 := by
    have htotal : Std.Total fun a b : Nat × Bytes => b.1 ≤ a.1 :=
      ⟨fun a b => Nat.le_total b.1 a.1⟩
    have htrans : IsTrans (Nat × Bytes) fun a b => b.1 ≤ a.1 :=
      ⟨fun a b c hab hbc => hbc.trans hab⟩
    exact List.pairwise_insertionSort _ _
  have hdistinct : (held.add loaded).previous.Pairwise fun a b => a.1 ≠ b.1 :=
    List.pairwise_map.1 (List.nodup_cons.1 hadded).2
  exact (hsorted.and hdistinct).imp fun h => lt_of_le_of_ne h.1 (Ne.symm h.2)

end KeyVersions

end Kms

end Hammerwork
