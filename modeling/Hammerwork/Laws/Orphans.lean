/-
What a deleted job leaves behind.

Results and leases are kept apart from the jobs. Deleting a job by its
id drops its result; deleting a batch and the three purges do not; and
no deletion drops a lease. So a job deleted while it has one leaves an
orphan: an entry under an id that is not stored.

`LeavesOrphan` is when a step does that. Nothing else makes an orphan,
and nothing cleans one up at once, so a run is free of orphans exactly
if no step of it leaves one.
-/
import Hammerwork.Proofs.Leases
import Hammerwork.Laws.Spawning

namespace Hammerwork

open TestStorage TestQueue

variable {s s' : TestStorage} {env : Env} {id k : JobId} {job : Job}

/-- Every result and every lease is of a stored job. -/
structure NoOrphans (s : TestStorage) : Prop where
  results : ∀ k, (s.jobResults.lookup k).isSome → (s.jobs.lookup k).isSome
  leases : ∀ k, (s.leases.lookup k).isSome → (s.jobs.lookup k).isSome

/-- Which stored jobs a call deletes. -/
def Op.deletes (s : TestStorage) (k : JobId) : Op → Job → Bool
  | deleteJob id, _ => k = id
  | deleteBatch batchId, _ => decide (k ∈ (s.batchJobs.lookup batchId).getD [])
  | purgeDeadJobs olderThan, job => job.status = .dead && job.failedAt.any (· < olderThan)
  | purgeArchivedJobs olderThan, job =>
      job.status = .archived && decide (job.createdAt < olderThan)
  | purgeArchivedJobsInQueue queueName olderThan, job =>
      job.status = .archived && job.queueName = queueName &&
        decide (job.createdAt < olderThan)
  | purgeExpiredEncryptedJobs, job => encryptedExpired s.clock job
  | _, _ => false

/-- The deletions that drop the results of the jobs they delete. -/
def Op.DropsResults : Op → Prop
  | deleteJob _ | purgeExpiredEncryptedJobs => True
  | _ => False

/-- A step that deletes a job under a lease, or one with a result that
it does not drop. -/
def LeavesOrphan (s : TestStorage) : Event → Prop
  | .call op => ∃ k, s.isJob k (op.deletes s k) = true ∧
      ((s.leases.lookup k).isSome ∨ (¬ op.DropsResults ∧ (s.jobResults.lookup k).isSome))
  | .rehash => False

-- == what is deleted

/-- Deleting the jobs of a list, without anything else. -/
theorem foldl_erase_lookup {f : TestStorage → JobId → TestStorage}
    (hf : ∀ s id k, (f s id).jobs.lookup k = if k = id then none else s.jobs.lookup k)
    (ids : List JobId) : ∀ (s : TestStorage) (k : JobId),
    (ids.foldl f s).jobs.lookup k = if k ∈ ids then none else s.jobs.lookup k := by
  induction ids with
  | nil => exact fun s k => rfl
  | cons id ids ih =>
      intro s k
      rw [List.foldl_cons, ih, hf]
      by_cases hk : k = id
      · simp [hk]
      · simp [hk]

theorem removeJob_lookup (s : TestStorage) (id k : JobId) :
    (removeJob s id).jobs.lookup k = if k = id then none else s.jobs.lookup k := by
  unfold removeJob
  cases hlookup : s.jobs.lookup id with
  | none =>
      dsimp only
      split
      · next hk => rw [hk, hlookup]
      · rfl
  | some job => exact Table.lookup_erase_if ..

theorem deleteJob_ok (hlookup : s.jobs.lookup id = some job) :
    ∃ s', deleteJob s id = .ok (s', ()) ∧
      (∀ k, s'.jobs.lookup k = if k = id then none else s.jobs.lookup k) ∧
      (∀ k, s'.jobResults.lookup k = if k = id then none else s.jobResults.lookup k) := by
  unfold deleteJob
  rw [hlookup]
  exact ⟨_, rfl, Table.lookup_erase_if s.jobs id, Table.lookup_erase_if s.jobResults id⟩

/-- Deleting stored jobs one after another deletes them all, and their
results. -/
theorem deleteEach_lookup (ids : List (JobId × Bool)) : ∀ (s : TestStorage)
    (purge : EncryptedJobPurge), (ids.map (·.1)).Nodup →
    (∀ e ∈ ids, (s.jobs.lookup e.1).isSome) → ∀ k,
    (deleteEach ids s purge).2.jobs.lookup k
        = (if k ∈ ids.map (·.1) then none else s.jobs.lookup k) ∧
      (deleteEach ids s purge).2.jobResults.lookup k
        = if k ∈ ids.map (·.1) then none else s.jobResults.lookup k := by
  induction ids with
  | nil => exact fun s _ _ _ k => ⟨rfl, rfl⟩
  | cons e ids ih =>
      intro s purge hnd hstored k
      obtain ⟨id, archived⟩ := e
      rw [List.map_cons, List.nodup_cons] at hnd
      obtain ⟨job, hlookup⟩ := Option.isSome_iff_exists.1 (hstored _ (List.mem_cons_self ..))
      obtain ⟨s₁, hdel, hjobs, hresults⟩ := deleteJob_ok hlookup
      rw [deleteEach, hdel]
      dsimp only
      obtain ⟨hjobs', hresults'⟩ := ih s₁ (if archived then
          { purge with archivedJobs := purge.archivedJobs + 1 }
        else { purge with jobs := purge.jobs + 1 }) hnd.2 (fun e he => by
          rw [hjobs, if_neg fun heq => hnd.1 (List.mem_map.2 ⟨e, he, heq⟩)]
          exact hstored e (List.mem_cons_of_mem _ he)) k
      rw [hjobs', hresults', hjobs, hresults, List.map_cons]
      by_cases hk : k = id
      · simp [hk]
      · simp [hk]

/-- What a deletion does: the jobs it selects go, the leases stay, and
the results go or stay. -/
structure Deletion (s : TestStorage) (op : Op) (s' : TestStorage) : Prop where
  stored : ∀ k, (s'.jobs.lookup k).isSome ↔
    (s.jobs.lookup k).isSome ∧ ¬ s.isJob k (op.deletes s k) = true
  leases : s'.leases = s.leases
  results : ∀ k, (s'.jobResults.lookup k).isSome ↔
    (s.jobResults.lookup k).isSome ∧
      ¬ (op.DropsResults ∧ s.isJob k (op.deletes s k) = true)

/-- Deleting the jobs `ids` names, and keeping the results. -/
theorem Deletion.of_erased {op : Op} (ids : List JobId)
    (hjobs : ∀ k, s'.jobs.lookup k = if k ∈ ids then none else s.jobs.lookup k)
    (hids : ∀ k, (s.jobs.lookup k).isSome → (k ∈ ids ↔ s.isJob k (op.deletes s k) = true))
    (hsame : s'.leases = s.leases ∧ s'.jobResults = s.jobResults)
    (hop : ¬ op.DropsResults) : Deletion s op s' where
  stored k := by
    rw [hjobs]
    by_cases hk : k ∈ ids
    · rw [if_pos hk]
      exact ⟨fun h => (by cases h), fun ⟨hst, hnot⟩ => absurd ((hids k hst).1 hk) hnot⟩
    · rw [if_neg hk]
      exact ⟨fun hst => ⟨hst, fun hdel => hk ((hids k hst).2 hdel)⟩, fun h => h.1⟩
  leases := hsame.1
  results k := by
    rw [hsame.2]
    exact ⟨fun h => ⟨h, fun hdrop => hop hdrop.1⟩, fun h => h.1⟩

/-- Every deletion is one. -/
theorem Op.deletion (hk : s.Keyed) {op : Op} (hop : op.Deletes) :
    Deletion s op (op.apply env s).2 := by
  unfold Op.apply
  cases op <;> first | exact hop.elim | skip
  all_goals
    dsimp only
    rw [reply_snd]
  case deleteJob id =>
    cases hlookup : s.jobs.lookup id with
    | none =>
        have hnot : ∀ k, ¬ s.isJob k ((Op.deleteJob id).deletes s k) = true := by
          intro k h
          obtain ⟨job, hjob, hdel⟩ := isJob_iff.1 h
          rw [show k = id by simpa [Op.deletes] using hdel, hlookup] at hjob
          cases hjob
        have hsame : (commit s (TestQueue.deleteJob s id)).2 = s := by
          unfold TestQueue.deleteJob
          rw [hlookup]
          rfl
        rw [hsame]
        exact ⟨fun k => ⟨fun h => ⟨h, hnot k⟩, fun h => h.1⟩, rfl,
          fun k => ⟨fun h => ⟨h, fun hdel => hnot k hdel.2⟩, fun h => h.1⟩⟩
    | some job =>
        have hdel : ∀ k, s.isJob k ((Op.deleteJob id).deletes s k) = true ↔ k = id := by
          intro k
          rw [isJob_iff]
          constructor
          · rintro ⟨_, -, h⟩
            simpa [Op.deletes] using h
          · rintro rfl
            exact ⟨job, hlookup, by simp [Op.deletes]⟩
        obtain ⟨s', hs', hjobs, hresults⟩ := deleteJob_ok hlookup
        have hleases : s'.leases = s.leases := by
          unfold TestQueue.deleteJob at hs'
          rw [hlookup] at hs'
          injection hs' with hs'
          rw [← (Prod.mk.inj hs').1]
        rw [hs']
        refine ⟨fun k => ?_, hleases, fun k => ?_⟩
        · show (s'.jobs.lookup k).isSome ↔ _
          rw [hdel, hjobs]
          by_cases hk : k = id <;> simp [hk]
        · show (s'.jobResults.lookup k).isSome ↔ _
          rw [hdel, hresults]
          by_cases hk : k = id <;> simp [hk, Op.DropsResults]
  case deleteBatch batchId =>
    refine Deletion.of_erased ((s.batchJobs.lookup batchId).getD []) ?_ ?_ ?_ id
    · exact foldl_erase_lookup removeJob_lookup _
        { s with batchJobs := s.batchJobs.erase batchId }
    · intro k hst
      obtain ⟨job, hlookup⟩ := Option.isSome_iff_exists.1 hst
      simp [isJob, hlookup, Op.deletes]
    · exact foldl_leases removeJob_leases _ { s with batchJobs := s.batchJobs.erase batchId }
  case purgeDeadJobs olderThan =>
    refine Deletion.of_erased _ (foldl_erase_lookup removeJob_lookup _ s) (fun k _ => ?_)
      (foldl_leases removeJob_leases _ s) id
    rw [List.mem_map, isJob_iff]
    constructor
    · rintro ⟨e, he, rfl⟩
      obtain ⟨hmem, hdead⟩ := List.mem_filter.1 he
      exact ⟨e.2, AList.mem_lookup_iff.2 hmem, hdead⟩
    · rintro ⟨job, hlookup, hdead⟩
      exact ⟨⟨k, job⟩, List.mem_filter.2 ⟨AList.mem_lookup_iff.1 hlookup, hdead⟩, rfl⟩
  case purgeArchivedJobs olderThan =>
    refine Deletion.of_erased _ (foldl_erase_lookup (f := purgeJob none)
      (fun s id k => Table.lookup_erase_if ..) _ s) (fun k _ => ?_)
      (foldl_leases (f := purgeJob none) (fun _ _ => ⟨rfl, rfl⟩) _ s) id
    rw [mem_selected hk]
    exact iff_of_eq (congrArg (s.isJob k · = true) (funext fun job => by simp [Op.deletes]))
  case purgeArchivedJobsInQueue queueName olderThan =>
    refine Deletion.of_erased _ (foldl_erase_lookup (f := purgeJob (some queueName))
      (fun s id k => Table.lookup_erase_if ..) _ s) (fun k _ => ?_)
      (foldl_leases (f := purgeJob (some queueName)) (fun _ _ => ⟨rfl, rfl⟩) _ s) id
    rw [mem_selected hk]
    exact iff_of_eq (congrArg (s.isJob k · = true) (funext fun job => by simp [Op.deletes]))
  case purgeExpiredEncryptedJobs =>
    have hids : ((s.jobs.values.filter (encryptedExpired s.clock)).map
        fun job => (job.id, decide (job.status = .archived))).map (·.1)
        = (s.jobs.values.filter (encryptedExpired s.clock)).map (·.id) := by
      rw [List.map_map]
      rfl
    have hlookup := deleteEach_lookup ((s.jobs.values.filter (encryptedExpired s.clock)).map
      fun job => (job.id, decide (job.status = .archived))) s ⟨0, 0⟩ ?_ ?_
    · have hin : ∀ k, k ∈ (s.jobs.values.filter (encryptedExpired s.clock)).map (·.id) ↔
          s.isJob k (Op.purgeExpiredEncryptedJobs.deletes s k) = true :=
        fun k => mem_selected hk
      rw [hids] at hlookup
      refine ⟨fun k => ?_, deleteEach_leases .., fun k => ?_⟩
      · rw [← hin]
        show ((deleteEach _ s ⟨0, 0⟩).2.jobs.lookup k).isSome ↔ _
        rw [(hlookup k).1]
        by_cases hk' : k ∈ (s.jobs.values.filter (encryptedExpired s.clock)).map (·.id)
        · rw [if_pos hk']
          exact ⟨fun h => (by cases h), fun h => absurd hk' h.2⟩
        · rw [if_neg hk']
          exact ⟨fun h => ⟨h, hk'⟩, fun h => h.1⟩
      · rw [← hin]
        show ((deleteEach _ s ⟨0, 0⟩).2.jobResults.lookup k).isSome ↔ _
        rw [(hlookup k).2]
        by_cases hk' : k ∈ (s.jobs.values.filter (encryptedExpired s.clock)).map (·.id)
        · rw [if_pos hk']
          exact ⟨fun h => (by cases h), fun h => absurd ⟨trivial, hk'⟩ h.2⟩
        · rw [if_neg hk']
          exact ⟨fun h => ⟨h, fun hdrop => hk' hdrop.2⟩, fun h => h.1⟩
    · rw [hids]
      exact hk.nodup_ids.sublist (List.filter_sublist.map _)
    · intro e he
      obtain ⟨job, hmem, rfl⟩ := List.mem_map.1 he
      rw [hk.mem_values.1 (List.mem_filter.1 hmem).1]
      rfl

-- == other calls

/-- A call adds results of stored jobs alone. -/
theorem Op.results (hk : s.Keyed) {op : Op}
    (h : ((op.apply env s).2.jobResults.lookup k).isSome) :
    (s.jobResults.lookup k).isSome ∨ (s.jobs.lookup k).isSome := by
  by_cases hstores : ∃ data expiresAt, op = .storeJobResult k data expiresAt
  · obtain ⟨data, expiresAt, rfl⟩ := hstores
    simp only [Op.apply, reply_snd] at h
    unfold TestQueue.storeJobResult at h
    split at h
    · exact .inl h
    · next hst => exact .inr (by simpa [Option.isSome_iff_ne_none] using hst)
  · rcases Op.jobResults_kept hk op (fun data expiresAt heq => hstores ⟨data, expiresAt, heq⟩)
      with hsame | ⟨-, hnone⟩
    · exact .inl (hsame ▸ h)
    · rw [hnone] at h
      cases h

/-- A lease is taken of a stored job. -/
theorem Op.Leases.stored (hk : s.Keyed) {op : Op} {lease : Duration}
    (h : op.Leases env s k lease) : (s.jobs.lookup k).isSome := by
  have hcurrent : ∀ run : Job, runIsCurrent s run = true → run.id = k →
      (s.jobs.lookup k).isSome := by
    rintro run hcur rfl
    obtain ⟨job, hlookup, -⟩ := runIsCurrent_iff.1 hcur
    rw [hlookup]
    rfl
  cases op <;> try exact h.elim
  case dequeue queueName weights lease' maxJobs =>
    obtain ⟨job, hjob, rfl⟩ := mem_claimedIds h.1
    rw [(eligible_isJob hk hjob).1]
    rfl
  case startClaimedRun run lease' => exact hcurrent run h.1 h.2.1
  case heartbeatJob run lease' => exact hcurrent run h.1 h.2.1

/-- A call that deletes nothing makes no orphan. -/
theorem Op.noOrphans (hk : s.Keyed) {op : Op} (hop : ¬ op.Deletes) (h : NoOrphans s) :
    NoOrphans (op.apply env s).2 := by
  have hstays : ∀ k, (s.jobs.lookup k).isSome → ((op.apply env s).2.jobs.lookup k).isSome := by
    intro k hst
    obtain ⟨job, hlookup⟩ := Option.isSome_iff_exists.1 hst
    exact Op.stored_stays hk hop hlookup
  refine ⟨fun k hres => hstays k ?_, fun k hlease => hstays k ?_⟩
  · exact (Op.results hk hres).elim (h.results k) id
  · rcases @Op.leases s env hk op k with ⟨lease, htaken, -⟩ | ⟨-, heq | ⟨hnone, -⟩⟩
    · exact htaken.stored hk
    · exact h.leases k (heq ▸ hlease)
    · rw [hnone] at hlease
      cases hlease

-- == the law

/-- A step from a state free of orphans leaves none, unless it is one
that does. -/
theorem Step.noOrphans {e : Event} (h : Step env s e s') (hk : s.Keyed) (hs : NoOrphans s) :
    NoOrphans s' ↔ ¬ LeavesOrphan s e := by
  cases h with
  | rehash hr =>
      refine ⟨fun _ hleaves => hleaves, fun _ => ⟨fun k hres => ?_, fun k hlease => ?_⟩⟩
      · rw [← hr.jobs.lookup_congr]
        rw [hr.rest] at hres
        exact hs.results k hres
      · rw [← hr.jobs.lookup_congr]
        rw [hr.rest] at hlease
        exact hs.leases k hlease
  | call op =>
      by_cases hop : op.Deletes
      · have hdel : Deletion s op (op.apply env s).2 := Op.deletion hk hop
        constructor
        · rintro hno ⟨k, hdeleted, hleft⟩
          have hgone : ¬ ((op.apply env s).2.jobs.lookup k).isSome := fun hst =>
            ((hdel.stored k).1 hst).2 hdeleted
          rcases hleft with hlease | ⟨hkeeps, hres⟩
          · exact hgone (hno.leases k (hdel.leases ▸ hlease))
          · exact hgone (hno.results k ((hdel.results k).2 ⟨hres, fun hdrop => hkeeps hdrop.1⟩))
        · intro hleaves
          refine ⟨fun k hres => (hdel.stored k).2 ?_, fun k hlease => (hdel.stored k).2 ?_⟩
          · obtain ⟨hold, hkept⟩ := (hdel.results k).1 hres
            refine ⟨hs.results k hold, fun hdeleted => ?_⟩
            exact hleaves ⟨k, hdeleted, .inr ⟨fun hdrop => hkept ⟨hdrop, hdeleted⟩, hold⟩⟩
          · rw [hdel.leases] at hlease
            exact ⟨hs.leases k hlease, fun hdeleted => hleaves ⟨k, hdeleted, .inl hlease⟩⟩
      · refine ⟨fun _ hleaves => ?_, fun _ => Op.noOrphans hk hop hs⟩
        obtain ⟨k, hdeleted, -⟩ := hleaves
        obtain ⟨job, -, hjob⟩ := isJob_iff.1 hdeleted
        cases op <;> first | exact hop trivial | cases hjob

/-- A run from the empty queue is free of orphans throughout if and only
if none of its steps deletes a job under a lease, or deletes one with a
result and keeps the result. -/
theorem no_orphans_iff {n : Nat} (r : Run (Step env) n) {clock : DateTime}
    (h0 : r.state 0 = TestStorage.new clock) :
    (∀ i ≤ n, NoOrphans (r.state i)) ↔ ∀ i < n, ¬ LeavesOrphan (r.state i) (r.event i) := by
  constructor
  · intro hno i hi
    exact ((r.next i hi).noOrphans (run_keyed r h0 i (by omega)) (hno i (by omega))).1
      (hno (i + 1) hi)
  · intro hleaves i hi
    refine r.stable (P := NoOrphans) ?_ (fun j _ hj hstep hs => ?_) i (Nat.zero_le i) hi
    · rw [h0]
      exact ⟨fun k h => (by cases h), fun k h => (by cases h)⟩
    · exact (hstep.noOrphans (run_keyed r h0 j (by omega)) hs).2 (hleaves j hj)

/-- A job with a result that is deleted by its id. -/
def deletedWithResult : List Op :=
  [.enqueue parentJob, .storeJobResult 1 .null none, .deleteJob 1]

/-- Its result goes with it. -/
theorem no_orphans_iff_deletedWithResult :
    NoOrphans ((Op.trace plainEnv deletedWithResult (TestStorage.new 0)).state 3) := by
  refine (no_orphans_iff (Op.trace plainEnv deletedWithResult (TestStorage.new 0)) rfl).2 ?_ 3
    (le_refl 3)
  intro i hi
  match i, hi with
  | 0, _ | 1, _ =>
      rintro ⟨k, hdel, -⟩
      obtain ⟨job, -, hjob⟩ := isJob_iff.1 hdel
      cases hjob
  | 2, _ =>
      rintro ⟨k, -, hlease | ⟨hkeeps, -⟩⟩
      · cases hlease
      · exact hkeeps trivial

/-- A result outlives a job that a purge deletes. -/
theorem purgeDeadJobs_leavesResult : ∃ s, Reachable plainEnv s ∧
    (s.jobResults.lookup 1).isSome = true ∧ s.jobs.lookup 1 = none := by
  refine ⟨_, reachable_applyAll plainEnv [.enqueue parentJob, .storeJobResult 1 .null none,
    .markJobDead 1 "given up", .purgeDeadJobs 1] 0, ?_, ?_⟩
  · decide +kernel
  · have h : ((Op.applyAll plainEnv [.enqueue parentJob, .storeJobResult 1 .null none,
        .markJobDead 1 "given up", .purgeDeadJobs 1] (TestStorage.new 0)).jobs.lookup 1).isSome
          = false := by decide +kernel
    simpa using h

end Hammerwork
