/-
Archiving and restoring keeps the job, but for its dependents.

What is inserted into the archive table is decoded to the job it was
(`archivedJob_archiveRow`), and what is inserted into the job table again
has the settings of the first insert (`row_settings`); the encryption
columns are copied with the row. The archive table has no column for the
jobs that depend on a job, so the restored row has none.
-/
import Hammerwork.Archive
import Hammerwork.Proofs.Sections

namespace Hammerwork

namespace Archive

variable {codec : Codec}

-- == statements

/-- The settings of a row that its inserts and no run of it wrote, as far as
they are decoded and encoded again. -/
structure SameSettings (first row : JobRow) : Prop where
  priority : row.priority = first.priority
  timeoutSeconds : row.timeoutSeconds = first.timeoutSeconds
  resultStorageType : row.resultStorageType = first.resultStorageType
  resultTtlSeconds : row.resultTtlSeconds = first.resultTtlSeconds
  resultMaxSizeBytes : row.resultMaxSizeBytes = first.resultMaxSizeBytes
  retryStrategy : row.retryStrategy = first.retryStrategy
  encryption : row.encryption = first.encryption

/-- A row that was inserted for a job, whatever has become of it. -/
def Written (codec : Codec) (row : JobRow) : Prop :=
  (∃ job first, insertRow codec job = .ok first ∧ SameSettings first row) ∧
    ∃ status, row.dependencyStatus = some (dependencyStatusStr status)

/-- Every column of the row is as before, except those a restored job starts
anew with; the dependency status too, unless it was evaluated again. -/
def Keeps (before after : JobRow) : Prop :=
  after = { before with
    status := after.status
    attempts := after.attempts
    scheduledAt := after.scheduledAt
    startedAt := after.startedAt
    completedAt := after.completedAt
    failedAt := after.failedAt
    timedOutAt := after.timedOutAt
    errorMessage := after.errorMessage
    resultData := after.resultData
    resultStoredAt := after.resultStoredAt
    resultExpiresAt := after.resultExpiresAt
    dependencyStatus := after.dependencyStatus } ∧
  (before.dependsOn = [] → after.dependencyStatus = before.dependencyStatus)

-- == columns

theorem priority_roundtrip (p : JobPriority) :
    (priorityFromStr (priorityStr p)).getD .normal = p := by
  cases p <;> decide

theorem priority_stored (p : JobPriority) : (priorityFromI32 p.asI32).getD .normal = p := by
  cases p <;> rfl

theorem dependency_roundtrip (d : DependencyStatus) :
    parseArchivedDependencyStatus (some (dependencyStatusStr d)) = d := by
  cases d <;> decide

theorem dependency_stored (d : DependencyStatus) :
    dependencyStatusFromRow (some (dependencyStatusStr d)) = .ok d := by
  cases d <;> rfl

theorem storage_stored (s : ResultStorage) :
    resultStorageFromDb (some (resultStorageStr s)) = s := by
  cases s <;> rfl

/-- Seconds from a column are the seconds that were stored. -/
theorem seconds_stored {name : String} {n : Nat} {d : Duration}
    (h : dbSeconds (n : Int) name = .ok d) : d = n * second := by
  have hn : (0 : Int) ≤ n := by omega
  simp only [dbSeconds, dbInt, if_pos hn, Except.map, Int.toNat_natCast] at h
  exact (Except.ok.inj h).symm

/-- What a decoder that goes through an optional column keeps. -/
theorem column_ok {α β : Type} {decode : α → Except Error β} {value : Option α} {out : Option β}
    (h : column decode value = .ok out) :
    (value = none ∧ out = none) ∨ ∃ v o, value = some v ∧ out = some o ∧ decode v = .ok o := by
  cases value with
  | none =>
      cases h
      exact .inl ⟨rfl, rfl⟩
  | some v =>
      simp only [column] at h
      cases hv : decode v with
      | error e =>
          rw [hv] at h
          cases h
      | ok o =>
          rw [hv] at h
          cases h
          exact .inr ⟨v, o, rfl, rfl, hv⟩

/-- The stored timeouts: whole seconds, at least one. -/
theorem timeoutDbSeconds_eq_some {timeout : Option Duration} {seconds : Int}
    (h : timeoutDbSeconds timeout = some seconds) :
    ∃ n : Nat, seconds = n ∧ 0 < n ∧ n ≤ 2147483647 := by
  obtain ⟨t, ht, rfl⟩ := Option.map_eq_some_iff.1 h
  have hpos : t ≠ 0 := by simpa using (Option.filter_eq_some_iff.1 ht).2
  refine ⟨min (t / second + if t % second > 0 then 1 else 0) 2147483647, rfl, ?_, by omega⟩
  have hsplit := Nat.div_add_mod t second
  unfold second at hsplit ⊢
  split <;> omega

theorem timeoutDbSeconds_seconds {n : Nat} (hpos : 0 < n) (hmax : n ≤ 2147483647) :
    timeoutDbSeconds (some (n * second)) = some (n : Int) := by
  have hne : n * second ≠ 0 := by unfold second; omega
  have hdiv : n * second / second = n := Nat.mul_div_cancel _ (by decide)
  have hmod : n * second % second = 0 := Nat.mul_mod_left ..
  have hkept : Option.filter (fun t : Duration => t ≠ 0) (some (n * second))
      = some (n * second) := by
    simp [hne]
  rw [timeoutDbSeconds, hkept, Option.map_some, hdiv, hmod]
  congr 2
  exact Nat.min_eq_left hmax

/-- A timeout that was read from its column is stored as it was. -/
theorem timeout_stored {name : String} {timeout out : Option Duration}
    (h : column (dbSeconds · name) (timeoutDbSeconds timeout) = .ok out) :
    timeoutDbSeconds out = timeoutDbSeconds timeout := by
  rcases column_ok h with ⟨hnone, rfl⟩ | ⟨seconds, d, hseconds, rfl, hd⟩
  · rw [hnone]
    rfl
  · obtain ⟨n, rfl, hpos, hmax⟩ := timeoutDbSeconds_eq_some hseconds
    rw [hseconds, seconds_stored hd, timeoutDbSeconds_seconds hpos hmax]

/-- A time to live is stored as it was. -/
theorem ttl_stored {name : String} {ttl out : Option Duration}
    (h : column (dbSeconds · name) (ttl.map fun ttl => saturatingI64 (ttl / second)) = .ok out) :
    (out.map fun ttl => saturatingI64 (ttl / second))
      = ttl.map fun ttl => saturatingI64 (ttl / second) := by
  rcases column_ok h with ⟨hnone, rfl⟩ | ⟨seconds, d, hseconds, rfl, hd⟩
  · rw [hnone]
    rfl
  · obtain ⟨t, rfl, rfl⟩ := Option.map_eq_some_iff.1 hseconds
    have hnat :
        saturatingI64 (t / second) = ((min (t / second) 9223372036854775807 : Nat) : Int) := by
      unfold saturatingI64
      omega
    rw [hnat] at hd
    have hdiv : min (t / second) 9223372036854775807 * second / second
        = min (t / second) 9223372036854775807 := Nat.mul_div_cancel _ (by decide)
    simp only [seconds_stored hd, Option.map_some, hdiv, saturatingI64]
    congr 1
    omega

/-- A size is stored as it was. -/
theorem size_stored {name : String} {size out : Option Nat}
    (h : column (dbInt · name) (size.map saturatingI64) = .ok out) :
    out.map saturatingI64 = size.map saturatingI64 := by
  rcases column_ok h with ⟨hnone, rfl⟩ | ⟨value, n, hvalue, rfl, hn⟩
  · rw [hnone]
    rfl
  · obtain ⟨m, rfl, rfl⟩ := Option.map_eq_some_iff.1 hvalue
    have hpos : (0 : Int) ≤ saturatingI64 m := by unfold saturatingI64; omega
    rw [dbInt, if_pos hpos] at hn
    cases hn
    simp only [Option.map_some, saturatingI64]
    congr 1
    omega

/-- What is stored of a strategy. -/
theorem retryStrategyJson_eq_ok {job : Job} {stored : Option Json} :
    retryStrategyJson codec job = .ok stored ↔
      (job.retryStrategy = none ∧ stored = none) ∨
        ∃ s, job.retryStrategy = some s ∧ (∀ delay, s ≠ .custom delay) ∧
          stored = some (codec.strategyToValue s) := by
  unfold retryStrategyJson
  cases job.retryStrategy with
  | none => simp [eq_comm]
  | some s => cases s <;> simp [eq_comm]

theorem decoded_eq_ok {α : Type} {value : Option α} {out : α} :
    decoded value = .ok out ↔ value = some out := by
  cases value <;> simp [decoded]

/-- A strategy that was stored is read from the archive and stored again. -/
theorem strategy_stored {payload : Json} (hexact : codec.Exact payload) {job : Job}
    {stored : Option Json} {out : Option RetryStrategy}
    (hstored : retryStrategyJson codec job = .ok stored)
    (hread : column (fun value => decoded (codec.strategyFromValue value)) stored = .ok out) :
    (∀ job' : Job, job'.retryStrategy = out → retryStrategyJson codec job' = .ok stored) ∧
      column (fun text => decoded (codec.strategyFromStr text))
        (out.map codec.strategyToString) = .ok out := by
  rcases retryStrategyJson_eq_ok.1 hstored with ⟨-, rfl⟩ | ⟨s, -, hcustom, rfl⟩
  · cases hread
    exact ⟨fun job' h => retryStrategyJson_eq_ok.2 (.inl ⟨h, rfl⟩), rfl⟩
  · rcases column_ok hread with ⟨hnone, -⟩ | ⟨value, s', hvalue, rfl, hdecoded⟩
    · cases hnone
    · cases hvalue
      have hvalue := decoded_eq_ok.1 hdecoded
      cases hexact.strategy s s' hvalue
      refine ⟨fun job' h => retryStrategyJson_eq_ok.2 (.inr ⟨s, h, hcustom, rfl⟩), ?_⟩
      rw [Option.map_some, column, hexact.strategyText, hvalue]
      rfl

-- == payloads

/-- An archived payload decodes to what it was. -/
theorem payload_roundtrip {payload : Json} (hexact : codec.Exact payload) {policy : ArchivalPolicy}
    {config : ArchivalConfig} {stored : Bytes × Bool × Nat}
    (h : encodeArchivedPayload codec payload policy config = .ok stored) :
    decodeArchivedPayload codec stored.1 stored.2.1 = .ok payload := by
  have hplain : decodeArchivedPayload codec (codec.toVec payload) false = .ok payload := by
    simp [decodeArchivedPayload, hexact.json, decoded]
  have hgzip : decodeArchivedPayload codec
      (codec.compress config.compressionLevel (codec.toVec payload)) true = .ok payload := by
    simp [decodeArchivedPayload, hexact.json, hexact.gzip, decoded]
  unfold encodeArchivedPayload at h
  dsimp only at h
  split at h
  case isTrue =>
    cases h
    exact hplain
  case isFalse =>
    split at h
    case isTrue =>
      split at h
      case isTrue =>
        obtain ⟨_, -, h⟩ := bind_eq_ok.1 h
        cases h
        exact hgzip
      case isFalse =>
        cases h
        exact hgzip
    case isFalse =>
      cases h
      exact hplain

-- == encryption

/-- The personal fields are stored as they are. -/
theorem piiFields_forJob {job : FullJob} {columns : EncryptionColumns}
    (h : EncryptionColumns.forJob codec job = .ok columns) :
    columns.piiFields = EncryptionColumns.piiFieldsColumn job.toJob ∧
      (columns.isEncrypted = false →
        columns = { EncryptionColumns.default with
          piiFields := EncryptionColumns.piiFieldsColumn job.toJob }) := by
  unfold EncryptionColumns.forJob at h
  split at h
  case isTrue =>
    split at h
    case isTrue => cases h
    case isFalse =>
      cases h
      exact ⟨rfl, fun _ => rfl⟩
  case isFalse =>
    split at h
    case h_1 =>
      obtain ⟨ciphertext, -, h⟩ := bind_eq_ok.1 h
      obtain ⟨nonce, -, h⟩ := bind_eq_ok.1 h
      obtain ⟨tag, -, h⟩ := bind_eq_ok.1 h
      cases h
      exact ⟨rfl, nofun⟩
    case h_2 => cases h

/-- The columns of a job that is not encrypted. -/
theorem forJob_plain {job : FullJob} (hplain : job.isEncrypted = false)
    (hconfig : job.encryptionConfig = none) :
    EncryptionColumns.forJob codec job = .ok { EncryptionColumns.default with
      piiFields := EncryptionColumns.piiFieldsColumn job.toJob } := by
  unfold EncryptionColumns.forJob Job.hasEncryption
  rw [hplain, hconfig]
  rfl

-- == the row

/-- A restored row: as before, but for what is reset, and without
dependents. -/
def Restored (before after : JobRow) : Prop :=
  after = { before with
    status := after.status
    attempts := after.attempts
    scheduledAt := after.scheduledAt
    startedAt := after.startedAt
    completedAt := after.completedAt
    failedAt := after.failedAt
    timedOutAt := after.timedOutAt
    errorMessage := after.errorMessage
    resultData := after.resultData
    resultStoredAt := after.resultStoredAt
    resultExpiresAt := after.resultExpiresAt
    dependencyStatus := after.dependencyStatus
    dependents := [] } ∧
  (before.dependsOn = [] → after.dependencyStatus = before.dependencyStatus)

theorem Restored.keeps_iff {before after : JobRow} (h : Restored before after) :
    Keeps before after ↔ before.dependents = [] := by
  constructor
  · intro hkeeps
    have hafter := congrArg JobRow.dependents h.1
    have hbefore := congrArg JobRow.dependents hkeeps.1
    exact hbefore.symm.trans hafter
  · intro hnone
    refine ⟨?_, h.2⟩
    conv_lhs => rw [h.1]
    simp only [JobRow.mk.injEq]
    simp [hnone]

/-- The columns that are decoded, from a successful decoding. -/
structure Decodes (codec : Codec) (row : JobRow) (d : Decoded) : Prop where
  timeout : column (dbSeconds · "timeout_seconds") row.timeoutSeconds = .ok d.timeout
  ttl : column (dbSeconds · "result_ttl_seconds") row.resultTtlSeconds = .ok d.ttl
  maxSizeBytes :
    column (dbInt · "result_max_size_bytes") row.resultMaxSizeBytes = .ok d.maxSizeBytes
  retryStrategy : column (fun value => decoded (codec.strategyFromValue value)) row.retryStrategy
    = .ok d.retryStrategy
  dependencyStatus : dependencyStatusFromRow row.dependencyStatus = .ok d.dependencyStatus

theorem decodes_of_decode {row : JobRow} {d : Decoded} (h : row.decode codec = .ok d) :
    Decodes codec row d := by
  unfold JobRow.decode at h
  obtain ⟨encryptionConfig, -, h⟩ := bind_eq_ok.1 h
  obtain ⟨retentionPolicy, -, h⟩ := bind_eq_ok.1 h
  obtain ⟨encrypted, -, h⟩ := bind_eq_ok.1 h
  obtain ⟨status, -, h⟩ := bind_eq_ok.1 h
  obtain ⟨timeout, htimeout, h⟩ := bind_eq_ok.1 h
  obtain ⟨ttl, httl, h⟩ := bind_eq_ok.1 h
  obtain ⟨maxSizeBytes, hsize, h⟩ := bind_eq_ok.1 h
  obtain ⟨retryStrategy, hstrategy, h⟩ := bind_eq_ok.1 h
  obtain ⟨dependencyStatus, hdependency, h⟩ := bind_eq_ok.1 h
  cases h
  exact ⟨htimeout, httl, hsize, hstrategy, hdependency⟩

/-- The job that an archive row decodes to. -/
def archivedJob (before : JobRow) (id : JobId) (d : Decoded) (columns : EncryptionColumns) :
    FullJob :=
  { before.job id d with
    status := .archived
    resultStoredAt := none
    dependents := []
    encryptionConfig := none
    piiFields := columns.piiFields.getD []
    retentionPolicy := none
    isEncrypted := columns.isEncrypted
    encryptedPayload := none
    encryptionMetadata := none }

/-- The archive row of a job decodes to the job. -/
theorem archivedJob_archiveRow {before : JobRow} (hexact : codec.Exact before.payload)
    (hwritten : Written codec before) {id : JobId} {d : Decoded} (hd : Decodes codec before d)
    {policy : ArchivalPolicy} {config : ArchivalConfig} {stored : Bytes × Bool × Nat}
    (hstored : encodeArchivedPayload codec before.payload policy config = .ok stored)
    {by_ : Archiving} {columns : EncryptionColumns} :
    archivedJobFromRow codec id
      { archiveRow codec (before.job id d) stored.1 stored.2.1 stored.2.2 by_ with
        encryption := columns } = .ok (archivedJob before id d columns) := by
  obtain ⟨⟨job₀, first, hfirst, hsame⟩, -⟩ := hwritten
  obtain ⟨strategy₀, hstrategy₀, hfirst⟩ := bind_eq_ok.1 hfirst
  obtain ⟨columns₀, -, hfirst⟩ := bind_eq_ok.1 hfirst
  cases hfirst
  have hpayload := payload_roundtrip hexact hstored
  have htimeout : column (dbSeconds · "timeout_seconds") (timeoutDbSeconds d.timeout)
      = .ok d.timeout := by
    have hread := hd.timeout
    rw [hsame.timeoutSeconds] at hread
    have hsaved : timeoutDbSeconds d.timeout = timeoutDbSeconds job₀.timeout := timeout_stored hread
    rw [hsaved]
    exact hread
  have hresultConfig : column (fun value => decoded (codec.resultConfigFromValue value))
      (some (codec.resultConfigToValue (before.job id d).resultConfig))
        = .ok (some (before.job id d).resultConfig) := by
    rw [column, hexact.resultConfig]
    rfl
  have hretryStrategy : column (fun text => decoded (codec.strategyFromStr text))
      (d.retryStrategy.map codec.strategyToString) = .ok d.retryStrategy := by
    have hread := hd.retryStrategy
    rw [hsame.retryStrategy] at hread
    exact (strategy_stored hexact hstrategy₀ hread).2
  have hjob : ArchiveRow.job id
      { archiveRow codec (before.job id d) stored.1 stored.2.1 stored.2.2 by_ with
        encryption := columns }
      before.payload d.timeout (some (before.job id d).resultConfig) d.retryStrategy
        = archivedJob before id d columns := by
    simp only [ArchiveRow.job, archiveRow, archivedJob, JobRow.job, priority_roundtrip,
      dependency_roundtrip, Option.getD_some]
  rw [← hjob]
  refine bind_eq_ok.2 ⟨before.payload, hpayload, ?_⟩
  refine bind_eq_ok.2 ⟨d.timeout, htimeout, ?_⟩
  refine bind_eq_ok.2 ⟨some (before.job id d).resultConfig, hresultConfig, ?_⟩
  exact bind_eq_ok.2 ⟨d.retryStrategy, hretryStrategy, rfl⟩

/-- The columns that are encoded again are as they were. -/
theorem row_settings {before : JobRow} (hexact : codec.Exact before.payload)
    (hwritten : Written codec before) {id : JobId} {d : Decoded} (hd : Decodes codec before d)
    {job : FullJob} {after : JobRow}
    (h : insertRow codec job = .ok after)
    (hjob : job.priority = (before.job id d).priority ∧ job.timeout = d.timeout ∧
      job.resultConfig = (before.job id d).resultConfig ∧ job.retryStrategy = d.retryStrategy) :
    after.priority = before.priority ∧ after.timeoutSeconds = before.timeoutSeconds ∧
      after.resultStorageType = before.resultStorageType ∧
      after.resultTtlSeconds = before.resultTtlSeconds ∧
      after.resultMaxSizeBytes = before.resultMaxSizeBytes ∧
      after.retryStrategy = before.retryStrategy := by
  obtain ⟨⟨job₀, first, hfirst, hsame⟩, -⟩ := hwritten
  obtain ⟨strategy₀, hstrategy₀, hfirst⟩ := bind_eq_ok.1 hfirst
  obtain ⟨columns₀, -, hfirst⟩ := bind_eq_ok.1 hfirst
  cases hfirst
  obtain ⟨strategy, hstrategy, h⟩ := bind_eq_ok.1 h
  obtain ⟨columns, -, h⟩ := bind_eq_ok.1 h
  cases h
  obtain ⟨hpriority, htimeout, hresultConfig, hretry⟩ := hjob
  obtain ⟨hp, ht, hs, httl, hsize, hr, -⟩ := hsame
  have htimeouts := hd.timeout
  have httls := hd.ttl
  have hsizes := hd.maxSizeBytes
  have hstrategies := hd.retryStrategy
  rw [ht] at htimeouts
  rw [httl] at httls
  rw [hsize] at hsizes
  rw [hr] at hstrategies
  refine ⟨?_, ?_, ?_, ?_, ?_, ?_⟩
  · show (job.priority.asI32 : Int) = _
    rw [hpriority, hp]
    show (((priorityFromI32 before.priority).getD .normal).asI32 : Int) = job₀.priority.asI32
    rw [hp]
    show (((priorityFromI32 job₀.priority.asI32).getD .normal).asI32 : Int) = _
    rw [priority_stored]
  · show timeoutDbSeconds job.timeout = _
    rw [htimeout, ht]
    exact timeout_stored htimeouts
  · show some (resultStorageStr job.resultConfig.storage) = _
    rw [hresultConfig, hs]
    show some (resultStorageStr (resultStorageFromDb before.resultStorageType)) = _
    rw [hs]
    show some (resultStorageStr (resultStorageFromDb (some _))) = _
    rw [storage_stored]
    rfl
  · show job.resultConfig.ttl.map _ = _
    rw [hresultConfig, httl]
    exact ttl_stored httls
  · show job.resultConfig.maxSizeBytes.map _ = _
    rw [hresultConfig, hsize]
    exact size_stored hsizes
  · show strategy = before.retryStrategy
    rw [hr]
    have hagain := (strategy_stored hexact hstrategy₀ hstrategies).1 job.toJob hretry
    exact Except.ok.inj (hstrategy.symm.trans hagain)

-- == archiving

theorem transaction_ok {α : Type} {db db' : Db} {run : Except Error (α × Db)} {value : α} :
    transaction db run = (.ok value, db') ↔ run = .ok (value, db') := by
  unfold transaction
  cases run with
  | error error => simp
  | ok result => simp [Prod.ext_iff]

theorem transaction_succeeds {α : Type} {db : Db} {run : Except Error (α × Db)}
    (h : ∃ result, run = .ok result) : ∃ value db', transaction db run = (.ok value, db') := by
  obtain ⟨⟨value, db'⟩, hrun⟩ := h
  exact ⟨value, db', transaction_ok.2 hrun⟩

theorem bind_succeeds {α β : Type} {run : Except Error α} {next : α → Except Error β} {value : α}
    (hrun : run = .ok value) (hnext : ∃ result, next value = .ok result) :
    ∃ result, (run >>= next) = .ok result := by
  obtain ⟨result, hresult⟩ := hnext
  exact ⟨result, bind_eq_ok.2 ⟨value, hrun, hresult⟩⟩

/-- A transaction that fails changes nothing. -/
theorem transaction_error {α : Type} {db db' : Db} {run : Except Error (α × Db)} {error : Error}
    (h : transaction db run = (.error error, db')) : db' = db := by
  unfold transaction at h
  split at h
  case h_1 => cases h
  case h_2 =>
    cases h
    rfl

theorem intoJob_eq_ok {row : JobRow} {id : JobId} {job : FullJob} :
    row.intoJob codec id = .ok job ↔ ∃ d, row.decode codec = .ok d ∧ job = row.job id d := by
  unfold JobRow.intoJob
  cases row.decode codec with
  | error e => simp [Except.map]
  | ok d => simp [Except.map, eq_comm]

/-- A selected job is the job of a row. -/
theorem mem_selectJobs {job : FullJob} (wanted : Nat) (rows : List (Sigma fun _ : JobId => JobRow))
    (h : job ∈ selectJobs codec wanted rows) :
    ∃ e ∈ rows, e.2.intoJob codec e.1 = .ok job := by
  have hfetched : ∀ (wanted : Nat) (rows : List (Sigma fun _ : JobId => JobRow)),
      job ∈ (rows.take wanted).filterMap (fun e => (e.2.intoJob codec e.1).toOption) →
      ∃ e ∈ rows, e.2.intoJob codec e.1 = .ok job := by
    intro wanted rows h
    obtain ⟨⟨id, row⟩, he, hjob⟩ := List.mem_filterMap.1 h
    refine ⟨⟨id, row⟩, List.mem_of_mem_take he, ?_⟩
    dsimp only at hjob ⊢
    cases hdecoded : row.intoJob codec id with
    | error error =>
        rw [hdecoded] at hjob
        cases hjob
    | ok job' =>
        rw [hdecoded] at hjob
        cases hjob
        rfl
  fun_induction selectJobs codec wanted rows with
  | case1 rows => cases h
  | case2 wanted rows hwanted fetched jobs hdone => exact hfetched wanted rows h
  | case3 wanted rows hwanted fetched jobs hmore ih =>
      rcases List.mem_append.1 h with h | h
      · exact hfetched wanted rows h
      · obtain ⟨e, he, hjob⟩ := ih h
        exact ⟨e, List.mem_of_mem_drop he, hjob⟩

/-- What is in the archive table was there, or is the archive row of a job
of the batch. -/
theorem lookup_insertArchived {policy : ArchivalPolicy} {config : ArchivalConfig} {by_ : Archiving}
    {id : JobId} {row : ArchiveRow} :
    ∀ {jobs : List FullJob} {archive archive' : Table JobId ArchiveRow},
      insertArchived codec policy config by_ jobs archive = .ok archive' →
      archive'.lookup id = some row →
      archive.lookup id = some row ∨ ∃ job ∈ jobs, job.id = id ∧ ∃ stored,
        encodeArchivedPayload codec job.payload policy config = .ok stored ∧
          row = archiveRow codec job stored.1 stored.2.1 stored.2.2 by_ := by
  intro jobs
  induction jobs with
  | nil =>
      intro archive archive' h hrow
      cases h
      exact .inl hrow
  | cons job jobs ih =>
      intro archive archive' h hrow
      obtain ⟨stored, hstored, h⟩ := bind_eq_ok.1 h
      dsimp only at h
      split at h
      case isTrue => cases h
      case isFalse =>
        rcases ih h hrow with hhere | ⟨job', hmem, hjob'⟩
        · rw [Table.lookup_insert_if] at hhere
          split at hhere
          case isTrue hid =>
            cases hhere
            exact .inr ⟨job, List.mem_cons_self, hid.symm, stored, hstored, rfl⟩
          case isFalse => exact .inl hhere
        · exact .inr ⟨job', List.mem_cons_of_mem _ hmem, hjob'⟩

/-- The archive row of a job that was archived: it was in the job table, and
the encryption columns are copied if it needs them. -/
theorem archiveJobsOnce_row {db db' : Db} {locked : JobId → Bool} {queueName : Option String}
    {policy : ArchivalPolicy} {config : ArchivalConfig} {by_ : Archiving} {now : DateTime} {n : Nat}
    {id : JobId} {row : ArchiveRow}
    (h : archiveJobsOnce codec db locked queueName policy config by_ now = (.ok n, db'))
    (hfresh : db.archive.lookup id = none) (hrow : db'.archive.lookup id = some row) :
    ∃ before d stored, db.jobs.lookup id = some before ∧ before.archivedAt = none ∧
      before.decode codec = .ok d ∧
      encodeArchivedPayload codec before.payload policy config = .ok stored ∧
      row = { archiveRow codec (before.job id d) stored.1 stored.2.1 stored.2.2 by_ with
        encryption :=
          if copiesEncryption (before.job id d).toJob then before.encryption else .default } := by
  unfold archiveJobsOnce at h
  dsimp only at h
  split at h
  case isTrue =>
    cases h
    rw [hfresh] at hrow
    cases hrow
  case isFalse =>
    have h := transaction_ok.1 h
    obtain ⟨archive, hinserted, h⟩ := bind_eq_ok.1 h
    cases h
    rw [Table.lookup_mapVals] at hrow
    obtain ⟨inserted, hlookup, hcopied⟩ := Option.map_eq_some_iff.1 hrow
    rcases lookup_insertArchived hinserted hlookup with
      hthere | ⟨job, hmem, hid, stored, hstored, rfl⟩
    · rw [hfresh] at hthere
      cases hthere
    · -- every selected job of this id is the job of the row
      have hof : ∀ job' ∈ selectJobs codec policy.batchSize
          (candidates db locked queueName (statusConditions policy now)), job'.id = id →
          ∃ before d, db.jobs.lookup id = some before ∧ before.archivedAt = none ∧
            before.decode codec = .ok d ∧ job' = before.job id d := by
        intro job' hmem' hid'
        obtain ⟨e, he, hjob⟩ := mem_selectJobs _ _ hmem'
        obtain ⟨d, hd, rfl⟩ := intoJob_eq_ok.1 hjob
        obtain ⟨hentry, hkept⟩ := List.mem_filter.1 ((List.mem_mergeSort).1 he)
        have hkey : e.1 = id := hid'
        have hstored := Table.lookup_of_mem_entries hentry
        rw [hkey] at hstored
        rw [hkey]
        have hunarchived : e.2.archivedAt = none := by
          simp only [Bool.and_eq_true, Option.isNone_iff_eq_none] at hkept
          exact hkept.1.1.1
        exact ⟨e.2, d, hstored, hunarchived, hd, rfl⟩
      obtain ⟨before, d, hbefore, hunarchived, hd, rfl⟩ := hof job hmem hid
      refine ⟨before, d, stored, hbefore, hunarchived, hd, hstored, ?_⟩
      rw [hbefore] at hcopied
      rw [← hcopied]
      dsimp only
      split
      case isTrue hcopies =>
        obtain ⟨job', hjob', hid'⟩ := List.mem_map.1 hcopies
        obtain ⟨hmem', hcopies'⟩ := List.mem_filter.1 hjob'
        obtain ⟨before', d', hbefore', -, hd', rfl⟩ := hof job' hmem' hid'
        cases hbefore.symm.trans hbefore'
        cases hd.symm.trans hd'
        rw [if_pos hcopies']
      case isFalse hcopies =>
        rw [if_neg fun hcopies' => hcopies (List.mem_map.2
          ⟨_, List.mem_filter.2 ⟨hmem, hcopies'⟩, hid⟩)]
        rfl

-- == restoring

/-- A row whose encryption columns are not copied has none. -/
theorem encryption_of_not_copied {before : JobRow} (hwritten : Written codec before) {id : JobId}
    {d : Decoded} (h : copiesEncryption (before.job id d).toJob = false) :
    before.encryption = .default := by
  obtain ⟨⟨job₀, first, hfirst, hsame⟩, -⟩ := hwritten
  obtain ⟨strategy₀, -, hfirst⟩ := bind_eq_ok.1 hfirst
  obtain ⟨columns, hcolumns, hfirst⟩ := bind_eq_ok.1 hfirst
  cases hfirst
  have hencryption : before.encryption = columns := hsame.encryption
  obtain ⟨hplain, hpii⟩ : before.encryption.isEncrypted = false ∧
      before.encryption.piiFields.getD [] = [] := by
    simpa [copiesEncryption, JobRow.job, JobRow.piiFields] using h
  rw [hencryption] at hplain hpii ⊢
  obtain ⟨hfields, hdefault⟩ := piiFields_forJob hcolumns
  rw [hdefault hplain]
  rw [hfields] at hpii
  have hnone : EncryptionColumns.piiFieldsColumn job₀.toJob = none := by
    unfold EncryptionColumns.piiFieldsColumn at hpii ⊢
    split at hpii
    case isTrue hempty => exact if_pos hempty
    case isFalse hempty => simp_all
  rw [hnone]
  rfl

theorem enqueueWithTx_ok {db db' : Db} {job : FullJob} (h : enqueueWithTx codec db job = .ok db') :
    ∃ row, insertRow codec job = .ok row ∧ db' = { db with jobs := db.jobs.insert job.id row } := by
  obtain ⟨row, hrow, h⟩ := bind_eq_ok.1 h
  refine ⟨row, hrow, ?_⟩
  split at h
  case isTrue => cases h
  case isFalse =>
    cases h
    rfl

/-- The job that a restore inserts. -/
def restoredJob (before : JobRow) (id : JobId) (d : Decoded) (columns : EncryptionColumns)
    (now : DateTime) (status : DependencyStatus) : FullJob :=
  { resetForRestore (archivedJob before id d columns) now with dependencyStatus := status }

/-- A restored job can be inserted. -/
theorem insertRow_restoredJob {before : JobRow} (hexact : codec.Exact before.payload)
    (hwritten : Written codec before) {id : JobId} {d : Decoded} (hd : Decodes codec before d)
    (columns : EncryptionColumns) (now : DateTime) (status : DependencyStatus) :
    ∃ inserted, insertRow codec
      { restoredJob before id d columns now status with isEncrypted := false } = .ok inserted := by
  obtain ⟨⟨job₀, first, hfirst, hsame⟩, -⟩ := hwritten
  obtain ⟨strategy₀, hstrategy₀, hfirst⟩ := bind_eq_ok.1 hfirst
  obtain ⟨columns₀, -, hfirst⟩ := bind_eq_ok.1 hfirst
  cases hfirst
  have hread := hd.retryStrategy
  rw [hsame.retryStrategy] at hread
  have hstrategy := (strategy_stored hexact hstrategy₀ hread).1
    (restoredJob before id d columns now status).toJob rfl
  exact ⟨_, bind_eq_ok.2 ⟨_, hstrategy, bind_eq_ok.2 ⟨_, forJob_plain rfl rfl, rfl⟩⟩⟩

/-- What a restore writes. -/
theorem restoreArchivedJobOnce_row {before : JobRow} (hexact : codec.Exact before.payload)
    (hwritten : Written codec before) {id : JobId} {d : Decoded} (hd : Decodes codec before d)
    {policy : ArchivalPolicy} {config : ArchivalConfig} {stored : Bytes × Bool × Nat}
    (hstored : encodeArchivedPayload codec before.payload policy config = .ok stored)
    {by_ : Archiving} {columns : EncryptionColumns} {db db' : Db} {now : DateTime} {job : FullJob}
    (hrow : db.archive.lookup id =
      some { archiveRow codec (before.job id d) stored.1 stored.2.1 stored.2.2 by_ with
        encryption := columns })
    (h : restoreArchivedJobOnce codec db id now = (.ok job, db')) :
    ∃ status inserted, (before.dependsOn = [] → status = d.dependencyStatus) ∧
      insertRow codec { restoredJob before id d columns now status with isEncrypted := false }
        = .ok inserted ∧
      db'.jobs.lookup id = some
        (if copiesEncryption (restoredJob before id d columns now status).toJob then
          { inserted with encryption := columns } else inserted) := by
  have h := transaction_ok.1 h
  rw [hrow] at h
  obtain ⟨row, hlookup, h⟩ := bind_eq_ok.1 h
  cases hlookup
  obtain ⟨archived, harchived, h⟩ := bind_eq_ok.1 h
  cases harchived.symm.trans (archivedJob_archiveRow hexact hwritten hd hstored)
  obtain ⟨status, hstatus, h⟩ := bind_eq_ok.1 h
  obtain ⟨db₁, hinserted, h⟩ := bind_eq_ok.1 h
  cases h
  obtain ⟨inserted, hinsert, rfl⟩ := enqueueWithTx_ok hinserted
  refine ⟨status, inserted, ?_, hinsert, ?_⟩
  · intro hnone
    unfold restoredStatus at hstatus
    split at hstatus
    case isTrue =>
      cases hstatus
      rfl
    case isFalse hdepends =>
      exact absurd (List.isEmpty_iff.2 hnone) hdepends
  · have hhere : ∀ jobs : Table JobId JobRow, (jobs.insert id inserted).lookup id = some inserted :=
      fun jobs => AList.lookup_insert ..
    dsimp only
    split
    case isTrue hcopies =>
      rw [Table.lookup_modify, if_pos rfl]
      refine (congrArg _ (hhere _)).trans ?_
      rw [Option.map_some]
      exact congrArg some (if_pos hcopies).symm
    case isFalse hcopies =>
      refine (hhere _).trans ?_
      exact congrArg some (if_neg hcopies).symm

/-- The dependencies of a job, re-evaluated, let it be restored. -/
def Accepts (codec : Codec) (db : Db) (id : JobId) (row : JobRow) : Prop :=
  ∃ d status, row.decode codec = .ok d ∧ restoredStatus db (row.job id d) = .ok status

/-- A job whose dependencies allow it is restored, if its id is free. -/
theorem restoreArchivedJobOnce_accepted {before : JobRow} (hexact : codec.Exact before.payload)
    (hwritten : Written codec before) {id : JobId} {d : Decoded} (hd : before.decode codec = .ok d)
    {policy : ArchivalPolicy} {config : ArchivalConfig} {stored : Bytes × Bool × Nat}
    (hstored : encodeArchivedPayload codec before.payload policy config = .ok stored)
    {by_ : Archiving} {columns : EncryptionColumns} {db : Db} {now : DateTime}
    (hrow : db.archive.lookup id =
      some { archiveRow codec (before.job id d) stored.1 stored.2.1 stored.2.2 by_ with
        encryption := columns })
    (hfree : ∀ leftover, db.jobs.lookup id = some leftover → leftover.archivedAt.isSome)
    (haccepts : Accepts codec db id before) :
    ∃ job db', restoreArchivedJobOnce codec db id now = (.ok job, db') := by
  obtain ⟨d', status, hd', hstatus⟩ := haccepts
  cases hd.symm.trans hd'
  have hdecodes := decodes_of_decode hd
  obtain ⟨inserted, hinserted⟩ :=
    @insertRow_restoredJob codec before hexact hwritten id d hdecodes columns now status
  have harchived := @archivedJob_archiveRow codec before hexact hwritten id d hdecodes policy config
    stored hstored by_ columns
  have henqueued : ∀ jobs : Table JobId JobRow, jobs.lookup id = none →
      enqueueWithTx codec { db with jobs := jobs }
          { restoredJob before id d columns now status with isEncrypted := false }
        = .ok { db with jobs := jobs.insert id inserted } := by
    intro jobs hnone
    refine bind_eq_ok.2 ⟨inserted, hinserted, ?_⟩
    show (if (jobs.lookup id).isSome then _ else _) = _
    rw [hnone]
    rfl
  have hcleared : (if (db.jobs.lookup id).any (·.archivedAt.isSome) then db.jobs.erase id
      else db.jobs).lookup id = none := by
    cases hleft : db.jobs.lookup id with
    | none =>
        rw [if_neg (by simp)]
        exact hleft
    | some leftover =>
        rw [if_pos (by simpa using hfree leftover hleft)]
        exact AList.lookup_erase ..
  unfold restoreArchivedJobOnce
  rw [hrow]
  refine transaction_succeeds (bind_succeeds rfl ?_)
  refine bind_succeeds harchived ?_
  refine bind_succeeds hstatus ?_
  exact bind_succeeds (henqueued _ hcleared) ⟨_, rfl⟩

/-- The encryption columns of a restored row are those of before. -/
theorem restored_encryption {before : JobRow} (hwritten : Written codec before) {id : JobId}
    {d : Decoded} {columns columns' : EncryptionColumns} {now : DateTime}
    {status : DependencyStatus}
    (hcolumns : columns = if copiesEncryption (before.job id d).toJob then before.encryption
      else .default)
    (h : EncryptionColumns.forJob codec
      { restoredJob before id d columns now status with isEncrypted := false } = .ok columns') :
    (if copiesEncryption (restoredJob before id d columns now status).toJob then columns
      else columns') = before.encryption := by
  cases hcopies : copiesEncryption (before.job id d).toJob with
  | true =>
      rw [hcopies, if_pos rfl] at hcolumns
      have hagain : copiesEncryption (restoredJob before id d columns now status).toJob = true := by
        rw [← hcopies, hcolumns]
        rfl
      rw [hagain, if_pos rfl, hcolumns]
  | false =>
      rw [hcopies, if_neg Bool.false_ne_true] at hcolumns
      subst hcolumns
      have hagain : copiesEncryption (restoredJob before id d .default now status).toJob = false :=
        rfl
      have hplain : EncryptionColumns.forJob codec
          { restoredJob before id d .default now status with isEncrypted := false }
            = .ok EncryptionColumns.default := forJob_plain rfl rfl
      rw [encryption_of_not_copied hwritten hcopies]
      rw [hagain, if_neg Bool.false_ne_true]
      exact Except.ok.inj (h.symm.trans hplain)

/-- A restored row is as it was before, without dependents. -/
theorem restored_row {before : JobRow} (hexact : codec.Exact before.payload)
    (hwritten : Written codec before)
    (hunarchived : before.archivedAt = none) {id : JobId} {d : Decoded}
    (hd : Decodes codec before d) {columns : EncryptionColumns}
    (hcolumns : columns = if copiesEncryption (before.job id d).toJob then before.encryption
      else .default)
    {now : DateTime} {status : DependencyStatus} {inserted : JobRow}
    (hstatus : before.dependsOn = [] → status = d.dependencyStatus)
    (h : insertRow codec { restoredJob before id d columns now status with isEncrypted := false }
      = .ok inserted) :
    Restored before
      (if copiesEncryption (restoredJob before id d columns now status).toJob then
        { inserted with encryption := columns } else inserted) := by
  obtain ⟨hpriority, htimeout, hstorage, httl, hsize, hstrategy⟩ :=
    @row_settings codec before hexact hwritten id d hd _ inserted h ⟨rfl, rfl, rfl, rfl⟩
  obtain ⟨strategy, -, h⟩ := bind_eq_ok.1 h
  obtain ⟨columns', hcolumns', h⟩ := bind_eq_ok.1 h
  cases h
  have hencryption := restored_encryption hwritten hcolumns hcolumns'
  have hdependency : before.dependsOn = [] →
      some (dependencyStatusStr status) = before.dependencyStatus := by
    intro hnone
    obtain ⟨-, d₀, hd₀⟩ := hwritten
    have hread := hd.dependencyStatus
    rw [hd₀, dependency_stored] at hread
    rw [hstatus hnone, hd₀, Except.ok.inj hread]
  have hrow : (if copiesEncryption (restoredJob before id d columns now status).toJob then
      { FullJob.row { restoredJob before id d columns now status with isEncrypted := false }
          strategy columns' with encryption := columns }
      else FullJob.row { restoredJob before id d columns now status with isEncrypted := false }
        strategy columns')
      = FullJob.row { restoredJob before id d columns now status with isEncrypted := false }
        strategy before.encryption := by
    rw [← hencryption]
    split <;> rfl
  rw [hrow]
  refine ⟨?_, hdependency⟩
  simp only [FullJob.row, restoredJob, resetForRestore, archivedJob, JobRow.job]
    at hpriority htimeout hstorage httl hsize
  simp only [FullJob.row] at hstrategy
  simp only [FullJob.row, restoredJob, resetForRestore, archivedJob, JobRow.job, hpriority,
    htimeout, hstorage, httl, hsize, hstrategy, hunarchived]

-- == the claims

/-- A job is restored as it was archived, but for what a restore resets. -/
def RestoresExactly (codec : Codec) (db : Db) (id : JobId) (now : DateTime) (before : JobRow) :
    Prop :=
  ∃ job db' after, restoreArchivedJobOnce codec db id now = (.ok job, db') ∧
    db'.jobs.lookup id = some after ∧ Keeps before after

/-- Formats that are right about the payload `null` and the result
configurations. -/
def plainCodec : Codec where
  toVec := fun _ => [110, 117, 108, 108]
  fromSlice := fun bytes => if bytes = [110, 117, 108, 108] then some .null else none
  compress := fun _ bytes => 31 :: 139 :: bytes
  decompress := fun bytes => if bytes.take 2 = [31, 139] then some (bytes.drop 2) else none
  base64Encode := fun _ => ""
  base64Decode := fun _ => none
  strategyToValue := fun _ => .null
  strategyFromValue := fun _ => none
  strategyToString := fun _ => "null"
  strategyFromStr := fun _ => none
  resultConfigToValue := fun config => .object [
    ("storage", .string (match config.storage with
      | .database => "Database"
      | .memory => "Memory"
      | .none => "None")),
    ("ttl", countToValue config.ttl),
    ("max_size_bytes", countToValue config.maxSizeBytes)]
  resultConfigFromValue := fun
    | .object [(_, .string storage), (_, ttl), (_, maxSizeBytes)] => some {
        storage := match storage with
          | "Database" => .database
          | "Memory" => .memory
          | _ => .none
        ttl := countFromValue ttl
        maxSizeBytes := countFromValue maxSizeBytes }
    | _ => none
  metadataToValue := fun _ => .null
where
  countToValue : Option Nat → Json
    | none => .null
    | some n => .array (List.replicate n .null)
  countFromValue : Json → Option Nat
    | .array items => some items.length
    | _ => none

theorem plainCodec_exact : plainCodec.Exact .null where
  json := rfl
  gzip := fun _ => rfl
  strategy := fun _ _ h => (nomatch h)
  strategyText := fun _ => rfl
  resultConfig := by
    have hcount : ∀ n, plainCodec.countFromValue (plainCodec.countToValue n) = n := by
      intro n
      cases n with
      | none => rfl
      | some n => simp [plainCodec.countToValue, plainCodec.countFromValue]
    intro config
    obtain ⟨storage, ttl, maxSizeBytes⟩ := config
    simp only [plainCodec, hcount]
    cases storage <;> rfl

/-- A job that other jobs may depend on. -/
def nightlyReport (dependents : List JobId) : FullJob where
  toJob := { Job.new 1 0 "reports" .null with dependents }
  resultConfig := { storage := .none, ttl := none, maxSizeBytes := none }
  encryptionMetadata := none

/-- Its row, after it completed. -/
def completedReport (dependents : List JobId) : JobRow :=
  { (nightlyReport dependents).row none .default with
    status := "Completed"
    completedAt := some 5 }

theorem completedReport_written (dependents : List JobId) :
    Written plainCodec (completedReport dependents) :=
  ⟨⟨nightlyReport dependents, _, rfl, rfl, rfl, rfl, rfl, rfl, rfl, rfl⟩, .none, rfl⟩

/-- The job is completed, and nothing is archived. -/
def reported (dependents : List JobId) : Db where
  jobs := (∅ : Table JobId JobRow).insert 1 (completedReport dependents)
  archive := ∅

/-- Completed jobs are archived at once. -/
def archiveCompleted : ArchivalPolicy where
  archiveCompletedAfter := some 0
  archiveFailedAfter := none
  archiveDeadAfter := none
  archiveTimedOutAfter := none
  compressPayloads := true
  batchSize := 10
  enabled := true

def plainConfig : ArchivalConfig where
  compressionLevel := 6
  verifyCompression := true

def byNight : Archiving where
  reason := "Automatic"
  archivedBy := none
  archivedAt := 9

/-- What its row decodes to. -/
def decodedReport : Decoded where
  encryptionConfig := none
  retentionPolicy := none
  encrypted := none
  status := .completed
  timeout := none
  ttl := none
  maxSizeBytes := none
  retryStrategy := none
  dependencyStatus := .none

/-- The archive row of the job. -/
def archivedReport (dependents : List JobId) : ArchiveRow :=
  archiveRow plainCodec ((completedReport dependents).job 1 decodedReport) [110, 117, 108, 108]
    false 4 byNight

/-- The database after the job is archived. -/
def archivedReports (dependents : List JobId) : Db where
  jobs := ∅
  archive := (∅ : Table JobId ArchiveRow).insert 1 (archivedReport dependents)

theorem decode_completedReport (dependents : List JobId) :
    (completedReport dependents).decode plainCodec = .ok decodedReport := by
  have hdb : jobStatusFromDb "Completed" = some .completed := by decide
  have hstatus : jobStatusFromRow (completedReport dependents).status = .ok .completed := by
    show jobStatusFromRow "Completed" = _
    unfold jobStatusFromRow
    rw [hdb]
  unfold JobRow.decode
  rw [hstatus]
  rfl

theorem archive_reported (dependents : List JobId) :
    archiveJobsOnce plainCodec (reported dependents) (fun _ => false) none archiveCompleted
      plainConfig byNight 9 = (.ok 1, archivedReports dependents) := by
  have hcandidates : candidates (reported dependents) (fun _ => false) none
      (statusConditions archiveCompleted 9) = [⟨1, completedReport dependents⟩] := by
    unfold candidates
    exact List.mergeSort_singleton _
  have hjob : (completedReport dependents).intoJob plainCodec 1
      = .ok ((completedReport dependents).job 1 decodedReport) :=
    intoJob_eq_ok.2 ⟨_, decode_completedReport dependents, rfl⟩
  have hselected : selectJobs plainCodec archiveCompleted.batchSize
      (candidates (reported dependents) (fun _ => false) none (statusConditions archiveCompleted 9))
        = [(completedReport dependents).job 1 decodedReport] := by
    rw [hcandidates, selectJobs]
    simp [hjob, Except.toOption, archiveCompleted]
  unfold archiveJobsOnce
  dsimp only
  rw [hselected]
  rfl

end Archive

end Hammerwork
