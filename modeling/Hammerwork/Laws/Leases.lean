/-
Leases, and what a stale-job recovery may take for granted.

On a clock that never goes back, every running job holds a lease whose
last heartbeat is not before the start of its run (`Leased`): a claim
and the start of a claimed run take a lease at the moment they set the
start time, a heartbeat renews it later, and no other operation touches
the lease of a job that is running afterwards.

So a recovery reclaims exactly the running jobs whose lease has expired,
each of them once. A lease stays as it was taken until it is taken anew
or ended, so a job whose last lease still runs is never reclaimed.
-/
import Hammerwork.Proofs.Leases
import Hammerwork.Laws.Fencing

namespace Hammerwork

open TestStorage TestQueue

variable {s s' : TestStorage} {env : Env} {e : Event} {id k : JobId} {job : Job}
variable {attempts : Int} {startedAt : Option DateTime}

-- == leases in steps

/-- A step takes a lease of `lease` on the job `k`. -/
def Event.Leases (env : Env) (s : TestStorage) (k : JobId) (lease : Duration) : Event → Prop
  | call op => op.Leases env s k lease
  | rehash => False

/-- After a step a lease is one that the step took, or as before, or
ended with the run of its job. -/
theorem Step.leases (h : Step env s e s') (hk : s.Keyed) (k : JobId) :
    (∃ lease, e.Leases env s k lease ∧
      s'.leases.lookup k = some (s.clock, leaseExpiry s.clock lease)) ∨
    ((∀ lease, ¬ e.Leases env s k lease) ∧
      (s'.leases.lookup k = s.leases.lookup k ∨
        (s'.leases.lookup k = none ∧ Stopped s' k))) := by
  cases h with
  | call op => exact Op.leases hk op k
  | rehash hr => exact .inr ⟨fun _ h => h, .inl (by rw [hr.rest])⟩

/-- Whoever sets the start time of a job takes a lease on it. -/
theorem SetsStart.leases (h : SetsStart env s e k) (hk : s.Keyed) :
    ∃ lease, e.Leases env s k lease := by
  obtain ⟨handle, hissues, rfl⟩ := h
  rcases hissues.cases hk with ⟨queueName, weights, lease, maxJobs, rfl, hid, -⟩ |
    ⟨run, lease, rfl, hcur, rfl⟩
  · exact ⟨lease, hid, rfl⟩
  · exact ⟨lease, hcur, rfl, rfl⟩

-- == the invariant

/-- Every running job has a start time that is past, and holds a lease
with a heartbeat no earlier. -/
def Leased (s : TestStorage) : Prop :=
  ∀ k attempts startedAt, RunningAs s k attempts startedAt →
    ∃ started heartbeat expires, startedAt = some started ∧
      s.leases.lookup k = some (heartbeat, expires) ∧ started ≤ heartbeat ∧ started ≤ s.clock

/-- A step on a clock that does not go back keeps it. -/
theorem Step.leased (h : Step env s e s') (hk : s.Keyed)
    (hnew : ∀ job ∈ e.enqueued, job.status ≠ .running) (hclock : s.clock ≤ s'.clock)
    (hs : Leased s) : Leased s' := by
  intro k attempts startedAt hrun
  by_cases hset : SetsStart env s e k
  · have hstarted := h.started hk hset hrun
    obtain ⟨lease, htakes⟩ := hset.leases hk
    rcases h.leases hk k with ⟨lease', -, htaken⟩ | ⟨hnone, -⟩
    · exact ⟨_, _, _, hstarted, htaken, le_refl _, hclock⟩
    · exact absurd htakes (hnone lease)
  · obtain ⟨started, heartbeat, expires, rfl, hlease, hle, hpast⟩ :=
      hs k attempts startedAt (h.runningAs_back hk hset (fun job hjob _ => hnew job hjob) hrun)
    rcases h.leases hk k with ⟨lease', -, htaken⟩ | ⟨-, heq | ⟨-, hstop⟩⟩
    · exact ⟨started, _, _, rfl, htaken, hpast, le_trans hpast hclock⟩
    · exact ⟨started, heartbeat, expires, rfl, heq.trans hlease, hle, le_trans hpast hclock⟩
    · exact absurd hrun (hstop _ _)

-- == expiries

/-- A lease does not expire before its time, on a clock that shows
representable instants. -/
theorem le_leaseExpiry {now later : DateTime} {lease : Duration} (hnow : minUtc ≤ now)
    (hlater : later ≤ maxUtc) (h : lease = 0 ∨ later ≤ now + lease) :
    later ≤ leaseExpiry now lease := by
  unfold leaseExpiry
  split
  · exact hlater
  · next hpos =>
    have hle := h.resolve_left hpos
    unfold saturatingAddTo checkedAddSigned saturatingChronoDuration
    split
    · split
      · exact hle
      · exact hlater
    · next hlong =>
      -- a longer lease reaches past the last representable instant
      rw [if_neg]
      · exact hlater
      · have hpast : ∀ t : Int, -8334601228800000000000 ≤ t →
            ¬ t + 9223372036854775807 * 1000000 ≤ 8210266876799999999999 := by
          intro t ht
          omega
        exact fun hin => hpast now hnow hin.2

-- == recoveries

/-- A running job whose lease has expired, of a queue that is asked
for. -/
def LeaseExpired (s : TestStorage) (queueName : Option String) (k : JobId) : Prop :=
  ∃ job heartbeat expires, s.jobs.lookup k = some job ∧ job.status = .running ∧
    (∀ name, queueName = some name → job.queueName = name) ∧
    s.leases.lookup k = some (heartbeat, expires) ∧ expires < s.clock

/-- With leases as they should be, the stale jobs are those. -/
theorem isStale_iff (hk : s.Keyed) (hs : Leased s) {queueName : Option String} :
    s.isJob k (isStale s queueName) = true ↔ LeaseExpired s queueName k := by
  rw [isJob_iff]
  unfold isStale
  constructor
  · rintro ⟨job, hlookup, hjob⟩
    rw [hk k job hlookup] at hjob
    simp only [Bool.and_eq_true, decide_eq_true_eq, Option.any_eq_true] at hjob
    obtain ⟨⟨hrun, hqueue⟩, started, -, ⟨heartbeat, expires⟩, hlease, -, hexpired⟩ := hjob
    refine ⟨job, heartbeat, expires, hlookup, hrun, ?_, hlease, hexpired⟩
    rintro name rfl
    simpa using hqueue
  · rintro ⟨job, heartbeat, expires, hlookup, hrun, hqueue, hlease, hexpired⟩
    obtain ⟨started, heartbeat', expires', hstarted, hlease', hle, -⟩ :=
      hs k job.attempts job.startedAt ⟨job, hlookup, hrun, rfl, rfl⟩
    rw [hlease] at hlease'
    injection hlease' with hlease'
    obtain ⟨rfl, rfl⟩ := Prod.mk.inj hlease'
    refine ⟨job, hlookup, ?_⟩
    rw [hk k job hlookup, hstarted]
    simp only [Bool.and_eq_true, decide_eq_true_eq, Option.any_eq_true]
    refine ⟨⟨hrun, ?_⟩, started, rfl, (heartbeat, expires), hlease, hle, hexpired⟩
    cases queueName with
    | none => rfl
    | some name => simpa using hqueue name rfl

/-- What a recovery reports: the stale jobs, each once. -/
structure Recovers (s : TestStorage) (queueName : Option String) (recovery : StaleJobRecovery) :
    Prop where
  nodup : (recovery.requeued ++ recovery.dead).Nodup
  mem : ∀ k, k ∈ recovery.requeued ++ recovery.dead ↔ s.isJob k (isStale s queueName) = true

/-- A recovery succeeds, reports the stale jobs, stops them, and leaves
the other running jobs alone. -/
theorem requeueStaleJobs_recovers (hk : s.Keyed) (cron : CronLibrary)
    (queueName : Option String) :
    ∃ recovery s', requeueStaleJobs cron s queueName = (.ok recovery, s') ∧
      Recovers s queueName recovery ∧
      (∀ k ∈ recovery.requeued ++ recovery.dead, Stopped s' k) ∧
      ∀ k ∉ recovery.requeued ++ recovery.dead, ∀ job, s.jobs.lookup k = some job →
        job.status = .running → s'.jobs.lookup k = some job := by
  obtain ⟨heq, -⟩ := requeueStaleJobs_eq hk cron queueName
  obtain ⟨hwrites, hstopped⟩ :=
    @requeueStaleJobs_writes s ⟨cron, ⟨none, []⟩, fun _ _ _ => 0⟩ hk cron queueName
  have hids : (((s.jobs.values.filter (isStale s queueName)).map fun job =>
      (job.id, decide (job.maxAttempts ≤ job.attempts))).map (·.1))
      = (s.jobs.values.filter (isStale s queueName)).map (·.id) := by
    rw [List.map_map]
    rfl
  generalize (s.jobs.values.filter (isStale s queueName)).map (fun job =>
    (job.id, decide (job.maxAttempts ≤ job.attempts))) = stale at heq hids
  have hperm : ((stale.filter (!·.2)).map (·.1) ++ (stale.filter (·.2)).map (·.1)).Perm
      ((s.jobs.values.filter (isStale s queueName)).map (·.id)) := by
    rw [← List.map_append, ← hids]
    exact (List.perm_append_comm.trans (List.filter_append_perm (·.2) stale)).map _
  have hrec : Recovers s queueName
      ⟨(stale.filter (!·.2)).map (·.1), (stale.filter (·.2)).map (·.1)⟩ := by
    refine ⟨hperm.nodup_iff.2 (hk.nodup_ids.sublist (List.filter_sublist.map _)), fun k => ?_⟩
    rw [hperm.mem_iff, mem_selected hk]
  rw [heq] at hwrites hstopped
  refine ⟨_, _, heq, hrec, hstopped _ rfl, fun k hout job hlookup hrun => ?_⟩
  -- every write of the recovery is about a stale job
  refine hwrites.preserves (P := fun t => t.jobs.lookup k = some job)
    (fun t w t' hw hwrite ht => ?_) hlookup
  obtain ⟨id, job', hlookup', hstale, hw⟩ := hw
  refine reclaim_kept (Writes.one hw hwrite) (fun hid => hout ?_) ht hrun
  exact (hrec.mem k).2 (isJob_iff.2 ⟨job', hid ▸ hlookup', hstale⟩)

-- == the law

section Runs

variable {n : Nat} {clock : DateTime} {r : Run (Step env) n}

theorem run_leased (h0 : r.state 0 = TestStorage.new clock) (hnew : NewJobs r)
    (hclock : ∀ i < n, (r.state i).clock ≤ (r.state (i + 1)).clock) :
    ∀ i ≤ n, Leased (r.state i) := by
  intro i hi
  refine r.stable (P := Leased) ?_ (fun j _ hj hstep hs => ?_) i (Nat.zero_le i) hi
  · rw [h0]
    rintro k attempts startedAt ⟨job, hlookup, -⟩
    cases hlookup
  · exact hstep.leased (run_keyed r h0 j (by omega)) (hnew j hj) (hclock j hj) hs

/-- A lease that is not taken anew stays as it was taken, or ends. -/
theorem lease_stays (h0 : r.state 0 = TestStorage.new clock) {j : Nat} {k : JobId}
    {lease : Duration} (htakes : (r.event j).Leases env (r.state j) k lease) :
    ∀ m, j < m → m ≤ n →
      (∀ i, j < i → i < m → ∀ lease', ¬ (r.event i).Leases env (r.state i) k lease') →
      (∃ lease', (r.event j).Leases env (r.state j) k lease' ∧ (r.state m).leases.lookup k
          = some ((r.state j).clock, leaseExpiry (r.state j).clock lease')) ∨
        (r.state m).leases.lookup k = none := by
  intro m hjm
  induction m, hjm using Nat.le_induction with
  | base =>
      intro hm _
      rcases (r.next j hm).leases (run_keyed r h0 j (by omega)) k with htaken | ⟨hno, -⟩
      · exact .inl htaken
      · exact absurd htakes (hno lease)
  | succ m hjm ih =>
      intro hm hlast
      rcases (r.next m hm).leases (run_keyed r h0 m (by omega)) k with
        ⟨lease', htaken, -⟩ | ⟨-, heq | ⟨hnone, -⟩⟩
      · exact absurd htaken (hlast m hjm (by omega) lease')
      · rw [heq]
        exact ih (by omega) fun i hji him => hlast i hji (by omega)
      · exact .inr hnone

/-- A call takes leases of one duration. -/
theorem Event.Leases.unique {lease lease' : Duration} (h : e.Leases env s k lease)
    (h' : e.Leases env s k lease') : lease = lease' := by
  cases e with
  | rehash => exact h.elim
  | call op =>
      cases op <;> try exact h.elim
      case dequeue => exact h.2.symm.trans h'.2
      case startClaimedRun | heartbeatJob => exact h.2.2.symm.trans h'.2.2

end Runs

-- == on one job

/-- A job claimed under a lease of ten nanoseconds, and recovered too
early and in time. -/
def recoveredTwice : List Op :=
  [.enqueue parentJob, .dequeue "mail" none 10 1, .setTime 10, .requeueStaleJobs none,
    .setTime 11, .requeueStaleJobs none]

end Hammerwork
