/-
Attempts are bounded.

Two parties decide whether a job that was claimed may run again: the
worker, when it reports a failed run, and the recovery of stale runs.
Each compares the attempts with the job's number, the worker on the copy
it was handed, the recovery on the stored job. A claim counts an attempt
and only a release takes one back, so the stored attempts are the claims
that were not released; and a copy is compared only with the run it was
handed out for, which is fenced.

The law is about a job that does not recur and that no operator puts
back. It is carried by `Tally`, which holds in every state.
-/
import Hammerwork.Proofs.Attempts
import Hammerwork.Laws.Fencing
import Hammerwork.Laws.ClaimOrder

namespace Hammerwork

open TestStorage TestQueue

variable {s s' : TestStorage} {env : Env} {id k : JobId} {run job job' : Job} {e : Event}

-- == claims, releases

/-- A step claims the job `k`: a dequeue hands it out. -/
def Event.claimsJob (env : Env) (k : JobId) (s : TestStorage) (e : Event) : Bool :=
  match e.reply env s with
  | some (.jobs jobs) => jobs.any (·.id = k)
  | _ => false

/-- A step releases the claim of the job `k`. -/
def Event.releasesJob (env : Env) (k : JobId) (s : TestStorage) (e : Event) : Bool :=
  match e with
  | .call (.releaseJobRun run) =>
      run.id = k && match ((Op.releaseJobRun run).apply env s).1 with
        | .flag released => released
        | _ => false
  | _ => false

/-- The calls by which an operator hands the job `k` back. -/
def Op.PutsBackByHand (k : JobId) : Op → Prop
  | retryJob id _ | retryDeadJob id | restoreArchivedJob id | rescheduleCronJob id _
  | enableRecurringJob id => id = k
  | _ => False

/-- Claims of different stored jobs, and nothing else, are made. -/
theorem claimEach_lookup (lease : Duration) (ids : List JobId) : ∀ s : TestStorage,
    ids.Nodup → (∀ id ∈ ids, (s.jobs.lookup id).isSome) → ∀ job, s.jobs.lookup k = some job →
    (claimEach lease ids s).2.jobs.lookup k
      = some (if k ∈ ids then job.claimed s.clock else job) := by
  induction ids with
  | nil => exact fun s _ _ job hlookup => hlookup
  | cons id ids ih =>
      intro s hnd hstored job hlookup
      rw [List.nodup_cons] at hnd
      obtain ⟨job₀, hlookup₀⟩ :=
        Option.isSome_iff_exists.1 (hstored id (List.mem_cons_self ..))
      rw [claimEach]
      cases hclaim : claim s id lease with
      | error e =>
          unfold claim at hclaim
          rw [updateJobStatus_eq hlookup₀] at hclaim
          cases hclaim
      | ok out =>
          obtain ⟨s₁, claimed⟩ := out
          obtain ⟨job₁, hlookup₁, hr, rfl⟩ := claim_ok hclaim
          obtain rfl := Option.some.inj (hlookup₁.symm.trans hlookup₀)
          have hstored₁ : ∀ id' ∈ ids, (s₁.jobs.lookup id').isSome := by
            intro id' hid'
            rw [hr.lookup_ne fun heq => hnd.1 (heq ▸ hid')]
            exact hstored id' (List.mem_cons_of_mem _ hid')
          have hrest : (claimEach lease ids s₁).2.jobs.lookup k
              = some (if k ∈ id :: ids then job.claimed s.clock else job) := by
            by_cases hk : k = id
            · subst hk
              obtain rfl := Option.some.inj (hlookup₁.symm.trans hlookup)
              rw [ih s₁ hnd.2 hstored₁ _ hr.lookup_self, if_neg hnd.1,
                if_pos (List.mem_cons_self ..)]
            · rw [ih s₁ hnd.2 hstored₁ job ((hr.lookup_ne hk).trans hlookup), hr.rest.clock]
              simp [hk]
          dsimp only
          generalize claimEach lease ids s₁ = result at hrest ⊢
          obtain ⟨outcome, s₂⟩ := result
          cases outcome <;> exact hrest

/-- A dequeue claims the jobs it chose. -/
theorem dequeue_reply (hk : s.Keyed) (queueName : String) (weights : Option PriorityWeights)
    (lease : Duration) (maxJobs : Nat) : ∃ jobs,
      (Op.apply env (.dequeue queueName weights lease maxJobs) s).1 = .jobs jobs ∧
        jobs.map (·.id) = claimedIds env s queueName weights maxJobs := by
  obtain ⟨-, -, jobs, hjobs, hids, -⟩ := dequeue_writes env hk queueName weights lease maxJobs
  refine ⟨jobs, ?_, hids⟩
  have hdeq : TestQueue.dequeue env s queueName weights lease maxJobs
      = (.ok jobs, (TestQueue.dequeue env s queueName weights lease maxJobs).2) :=
    Prod.ext hjobs rfl
  simp only [Op.apply]
  rw [hdeq]
  rfl

theorem claimsJob_dequeue (hk : s.Keyed) (queueName : String) (weights : Option PriorityWeights)
    (lease : Duration) (maxJobs : Nat) :
    (Event.call (.dequeue queueName weights lease maxJobs)).claimsJob env k s = true ↔
      k ∈ claimedIds env s queueName weights maxJobs := by
  obtain ⟨jobs, hreply, hids⟩ := @dequeue_reply _ env hk queueName weights lease maxJobs
  simp only [Event.claimsJob, Event.reply, hreply, ← hids]
  simp

/-- A job is claimed when it is pending. -/
theorem Step.claims (h : Step env s e s') (hk : s.Keyed) (hco : s.Coherent)
    (hclaims : e.claimsJob env k s = true) :
    ∃ job, s.jobs.lookup k = some job ∧ job.status = .pending ∧
      s'.jobs.lookup k = some (job.claimed s.clock) := by
  have hissues : ∃ handle, Issues env s e handle ∧ handle.id = k := by
    unfold Event.claimsJob at hclaims
    split at hclaims
    next jobs hreply =>
      obtain ⟨handle, hmem, hid⟩ := List.any_eq_true.1 hclaims
      exact ⟨handle, .inl ⟨jobs, hreply, hmem⟩, of_decide_eq_true hid⟩
    next => cases hclaims
  obtain ⟨handle, hissues, hid⟩ := hissues
  rcases hissues.cases hk with ⟨queueName, weights, lease, maxJobs, rfl, hmem, -⟩ |
    ⟨run, lease, rfl, -, -⟩
  · rw [hid] at hmem
    obtain ⟨job, hlookup, hst, -⟩ := claimed_pending hk hco hmem
    refine ⟨job, hlookup, hst, ?_⟩
    cases h
    simp only [Op.apply]
    rw [reply_snd, dequeue_eq, claimEach_lookup lease _ s
      (nodup_claimedIds hk hco queueName weights maxJobs) (fun id hid => ?_) job hlookup,
      if_pos hmem]
    obtain ⟨job', hlookup', -⟩ := claimed_pending hk hco hid
    rw [hlookup']
    rfl
  · have hreply := reply_fst (fun (p : Bool × Job) => Reply.started p.1 p.2)
      (commit s (TestQueue.startClaimedRun s run lease))
    unfold Event.claimsJob at hclaims
    simp only [Event.reply, Op.apply] at hclaims
    rcases hreply with ⟨err, herr⟩ | ⟨p, hp⟩
    · simp [herr] at hclaims
    · simp [hp] at hclaims

/-- A job is released when it is running. -/
theorem Step.releases (h : Step env s e s') (hreleases : e.releasesJob env k s = true) :
    ∃ job, s.jobs.lookup k = some job ∧ job.status = .running ∧
      s'.jobs.lookup k = some job.released := by
  unfold Event.releasesJob at hreleases
  split at hreleases
  next run =>
    obtain ⟨hid, hflag⟩ := Bool.and_eq_true_iff.1 hreleases
    have hid := of_decide_eq_true hid
    cases h
    simp only [Op.apply] at hflag ⊢
    cases hrel : TestQueue.releaseJobRun s run with
    | error e => simp [hrel, commit, Result.reply] at hflag
    | ok out =>
        obtain ⟨s₁, released⟩ := out
        rw [hrel] at hflag
        replace hflag : released = true := hflag
        rcases releaseJobRun_ok hrel with ⟨hfalse, -, -⟩ | ⟨-, job, hlookup, hst, -, hr⟩
        · rw [hflag] at hfalse
          cases hfalse
        · exact ⟨job, hid ▸ hlookup, hst, hid ▸ hr.lookup_self⟩
  next => cases hreleases

/-- A current run that is released is put back. -/
theorem releasesJob_of_current (h : runIsCurrent s run = true) :
    (Event.call (.releaseJobRun run)).releasesJob env run.id s = true := by
  obtain ⟨stored, hlookup, -⟩ := runIsCurrent_iff.1 h
  have hreply : ((Op.releaseJobRun run).apply env s).1 = .flag true := by
    simp only [Op.apply]
    unfold TestQueue.releaseJobRun
    rw [h, updateJobStatus_eq hlookup]
    rfl
  simp [Event.releasesJob, hreply]

/-- Every other step keeps the attempts of a job that does not recur and
that no operator puts back, and makes it pending only if it has attempts
left. -/
theorem Step.keepsAttempts (h : Step env s e s') (hk : s.Keyed) (hfresh : e.Fresh s)
    (hlookup : s.jobs.lookup k = some job) (hrec : job.recurring = false)
    (hclaims : e.claimsJob env k s = false) (hreleases : e.releasesJob env k s = false)
    (hhand : ∀ op, e = .call op → ¬ op.PutsBackByHand k)
    (hleft : ∀ run outcome wall, e = .call (.finishJobRun run outcome wall) → run.id = k →
      outcome.terminalStatus = none → runIsCurrent s run = true →
      job.attempts < job.maxAttempts)
    (hlookup' : s'.jobs.lookup k = some job') : KeepsAttempts job job' := by
  cases h with
  | rehash hre =>
      have hsame : s'.jobs.lookup k = s.jobs.lookup k :=
        (Table.SameEntries.lookup_congr hre.jobs k).symm
      rw [hsame, hlookup] at hlookup'
      obtain rfl := Option.some.inj hlookup'
      exact .refl job
  | call op =>
      have hinsert : ∀ given, op.Allows env s (.insert given) → ∀ job ∈ given, job.id ≠ k :=
        fun given hw => hfresh.not_inserted hlookup (e := .call op) hw
      have hwrites : (∀ d, op.Allows env s (.deed d) → ¬ d.Recounts k) → KeepsAttempts job job' :=
        fun hdeed => (Op.writes hk op).keepsAttempts hlookup hinsert hdeed hlookup'
      replace hhand := hhand op rfl
      cases op
      case dequeue queueName weights lease maxJobs =>
        refine hwrites fun d hw hd => ?_
        obtain ⟨id, hid, hw⟩ := hw
        cases hw
        obtain rfl : id = k := hd
        rw [(claimsJob_dequeue hk queueName weights lease maxJobs).2 hid] at hclaims
        cases hclaims
      case releaseJobRun run =>
        refine hwrites fun d hw hd => ?_
        obtain ⟨hcur, hw⟩ := hw
        cases hw
        obtain rfl : run.id = k := hd
        rw [releasesJob_of_current hcur] at hreleases
        cases hreleases
      case finishJobRun run outcome wall =>
        refine finishJobRun_keepsAttempts hk env.cron outcome wall hlookup hrec
          (hleft run outcome wall rfl) ?_
        simp only [Op.apply] at hlookup'
        rwa [reply_snd] at hlookup'
      case completeJobRunWithChildren run children wall =>
        refine completeJobRunWithChildren_keepsAttempts env hk wall hlookup hrec ?_
          (by simp only [Op.apply] at hlookup'; rwa [reply_snd] at hlookup')
        intro child hchild hid
        have hnone := hfresh.new child hchild
        rw [hid, hlookup] at hnone
        cases hnone
      case requeueStaleJobs queueName =>
        obtain ⟨job'', hlookup'', hkeeps⟩ :=
          requeueStaleJobs_keepsAttempts hk env.cron queueName hlookup hrec
        simp only [Op.apply] at hlookup'
        rw [reply_snd, hlookup''] at hlookup'
        obtain rfl := Option.some.inj hlookup'
        exact hkeeps
      all_goals
        refine hwrites fun d hw hd => ?_
        simp only [Op.Allows, WriteKind.deed.injEq, reduceCtorEq, and_false, exists_false,
          or_false] at hw
      case retryJob | retryDeadJob | rescheduleCronJob | enableRecurringJob
          | restoreArchivedJob =>
        rw [hw] at hd
        exact hhand hd
      case startClaimedRun =>
        rw [hw.2] at hd
        exact hd
      case completeJob | failJob | markJobDead | markJobTimedOut =>
        rcases hw with rfl | rfl <;> exact hd
      all_goals
        rw [hw] at hd
        exact hd

-- == handles

/-- Stored jobs by their ids. -/
theorem exists_stored (hk : s.Keyed) (ids : List JobId)
    (h : ∀ id ∈ ids, (s.jobs.lookup id).isSome) :
    ∃ jobs : List Job, jobs.map (·.id) = ids ∧ ∀ job ∈ jobs, s.jobs.lookup job.id = some job := by
  induction ids with
  | nil => exact ⟨[], rfl, fun _ hjob => absurd hjob List.not_mem_nil⟩
  | cons id ids ih =>
      obtain ⟨job, hlookup⟩ := Option.isSome_iff_exists.1 (h id (List.mem_cons_self ..))
      obtain ⟨jobs, hids, hstored⟩ := ih fun id' hid' => h id' (List.mem_cons_of_mem _ hid')
      have hid : job.id = id := hk id job hlookup
      refine ⟨job :: jobs, by rw [List.map_cons, hids, hid], fun job' hjob' => ?_⟩
      rcases List.mem_cons.1 hjob' with rfl | hjob'
      · rw [hid]
        exact hlookup
      · exact hstored job' hjob'

/-- A handle is a copy of the stored job, claimed, or of the handle a run
was started on. -/
theorem Issues.copies {handle : Job} (hk : s.Keyed) (hco : s.Coherent)
    (h : Issues env s e handle) :
    (∃ stored, s.jobs.lookup handle.id = some stored ∧ handle = stored.claimed s.clock) ∨
      ∃ run lease, e = .call (.startClaimedRun run lease) ∧
        handle = { run with startedAt := some s.clock } := by
  rcases h.cases hk with ⟨queueName, weights, lease, maxJobs, rfl, -, -⟩ |
    ⟨run, lease, he, -, heq⟩
  · have hstored : ∀ id ∈ claimedIds env s queueName weights maxJobs,
        (s.jobs.lookup id).isSome := by
      intro id hid
      obtain ⟨job, hlookup, -⟩ := claimed_pending hk hco hid
      rw [hlookup]
      rfl
    obtain ⟨jobs, hids, hjobs⟩ := exists_stored hk _ hstored
    have hout := claimEach_eq lease jobs s hk
      (hids ▸ nodup_claimedIds hk hco queueName weights maxJobs) hjobs
    rw [hids, ← dequeue_eq] at hout
    have hdeq : TestQueue.dequeue env s queueName weights lease maxJobs
        = (.ok (jobs.map (·.claimed s.clock)),
          (TestQueue.dequeue env s queueName weights lease maxJobs).2) :=
      Prod.ext hout rfl
    unfold Issues at h
    simp only [Event.reply, Op.apply] at h
    rw [hdeq] at h
    simp only [Result.reply, Option.some.injEq, Reply.jobs.injEq, exists_eq_left', reduceCtorEq,
      or_false] at h
    obtain ⟨stored, hmem, rfl⟩ := List.mem_map.1 h
    exact .inl ⟨stored, hjobs stored hmem, rfl⟩
  · exact .inr ⟨run, lease, he, heq⟩

variable {n : Nat} {r : Run (Step env) n} {clock : DateTime} {start i : Nat}

/-- A copy of the job handed out since the step `start`. -/
def IssuedSince (r : Run (Step env) n) (start i : Nat) (handle : Job) : Prop :=
  ∃ j, start ≤ j ∧ j < i ∧ Issues env (r.state j) (r.event j) handle

/-- From the step `start` on, the job `k` is worked on by workers alone:
no operator puts it back, a run is started on a copy that was handed out,
and its outcome is one that some worker chose for such a copy. -/
structure WorkedOn (r : Run (Step env) n) (start : Nat) (k : JobId) : Prop where
  byHand : ∀ i, start ≤ i → i < n → ∀ op, r.event i = .call op → ¬ op.PutsBackByHand k
  started : ∀ i, start ≤ i → i < n → ∀ run lease,
    r.event i = .call (.startClaimedRun run lease) → run.id = k → IssuedSince r start i run
  reported : ∀ i, start ≤ i → i < n → ∀ run outcome wall,
    r.event i = .call (.finishJobRun run outcome wall) → run.id = k →
    IssuedSince r start i run ∧
      ∃ (worker : Worker) (now : DateTime) (ended : Worker.HandlerEnd),
        outcome = worker.outcome run now ended

/-- The stored job after `claims` claims, of which `releases` were
released, when it started with `first` attempts of `limit`. -/
structure Tally (first limit : Int) (claims releases : Nat) (job : Job) : Prop where
  recurring : job.recurring = false
  maxAttempts : job.maxAttempts = limit
  attempts : job.attempts = first + claims - releases
  bound : job.attempts ≤ max 1 limit
  pending : job.status = .pending → 0 ≤ job.attempts ∧ job.attempts < max 1 limit
  running : job.status = .running → 1 ≤ job.attempts

variable {first limit : Int} {claims releases : Nat}

theorem Tally.claimed (h : Tally first limit claims releases job) (now : DateTime)
    (hst : job.status = .pending) :
    Tally first limit (claims + 1) releases (job.claimed now) := by
  obtain ⟨hpos, hlt⟩ := h.pending hst
  have hattempts := h.attempts
  have hclaimed : (job.claimed now).attempts = job.attempts + 1 := rfl
  refine ⟨h.recurring, h.maxAttempts, ?_, ?_, nofun, fun _ => ?_⟩
  · rw [hclaimed]
    push_cast
    omega
  · rw [hclaimed]
    omega
  · rw [hclaimed]
    omega

theorem Tally.released (h : Tally first limit claims releases job)
    (hst : job.status = .running) :
    Tally first limit claims (releases + 1) job.released := by
  have hpos := h.running hst
  have hattempts := h.attempts
  have hbound := h.bound
  have hreleased : job.released.attempts = job.attempts - 1 :=
    max_eq_left (by omega)
  refine ⟨h.recurring, h.maxAttempts, ?_, ?_, fun _ => ?_, nofun⟩
  · rw [hreleased]
    push_cast
    omega
  · rw [hreleased]
    omega
  · rw [hreleased]
    omega

theorem Tally.kept (h : Tally first limit claims releases job)
    (hkeeps : KeepsAttempts job job') : Tally first limit claims releases job' where
  recurring := hkeeps.recurring h.recurring
  maxAttempts := hkeeps.maxAttempts.trans h.maxAttempts
  attempts := hkeeps.attempts.trans h.attempts
  bound := hkeeps.attempts ▸ h.bound
  pending hst := by
    rw [hkeeps.attempts]
    rcases hkeeps.pending hst with hpending | ⟨hrunning, hlt⟩
    · exact h.pending hpending
    · have hpos := h.running hrunning
      rw [h.maxAttempts] at hlt
      omega
  running hst := by
    rw [hkeeps.attempts]
    exact h.running (hkeeps.running hst)

theorem Tally.claims_le (h : Tally first limit claims releases job) (hfirst : 0 ≤ first) :
    (claims : Int) ≤ releases + max 1 limit := by
  have hattempts := h.attempts
  have hbound := h.bound
  omega

-- == the law

/-- What holds after the steps from `start` up to `i`. -/
structure Tallied (r : Run (Step env) n) (start : Nat) (k : JobId) (first limit : Int) (i : Nat) :
    Prop where
  stored : ∀ job, (r.state i).jobs.lookup k = some job →
    Tally first limit (r.count (Event.claimsJob env k) start i)
      (r.count (Event.releasesJob env k) start i) job
  bound : (r.count (Event.claimsJob env k) start i : Int)
    ≤ r.count (Event.releasesJob env k) start i + max 1 limit
  handles : ∀ handle, IssuedSince r start i handle → handle.id = k → handle.maxAttempts = limit

/-- The counters may be given by their values. -/
theorem Tallied.of_counts {claims releases : Nat}
    (hclaims : r.count (Event.claimsJob env k) start i = claims)
    (hreleases : r.count (Event.releasesJob env k) start i = releases)
    (hstored : ∀ job, (r.state i).jobs.lookup k = some job →
      Tally first limit claims releases job)
    (hbound : (claims : Int) ≤ releases + max 1 limit)
    (hhandles : ∀ handle, IssuedSince r start i handle → handle.id = k →
      handle.maxAttempts = limit) :
    Tallied r start k first limit i := by
  subst hclaims hreleases
  exact ⟨hstored, hbound, hhandles⟩

/-- It survives a step. -/
theorem Tallied.step (h0 : r.state 0 = TestStorage.new clock) (hnew : NewIds r)
    (hworked : WorkedOn r start k) (hfirst : 0 ≤ first) (hstart : start ≤ i) (hi : i < n)
    (hstored : ∃ j < start, ∃ given ∈ (r.event j).enqueued, given.id = k)
    (h : Tallied r start k first limit i) : Tallied r start k first limit (i + 1) := by
  have hk := run_keyed r h0 i (by omega)
  have hco := run_coherent r h0 (hnew.fresh h0) i (by omega)
  have hfresh := hnew.fresh h0 i hi
  have hnext := r.next i hi
  have hhandles : ∀ handle, IssuedSince r start (i + 1) handle → handle.id = k →
      handle.maxAttempts = limit := by
    rintro handle ⟨j, hj, hji, hissues⟩ hid
    rcases Nat.lt_succ_iff_lt_or_eq.1 hji with hlt | rfl
    · exact h.handles handle ⟨j, hj, hlt, hissues⟩ hid
    · rcases hissues.copies hk hco with ⟨stored, hlookup, rfl⟩ | ⟨run, lease, he, rfl⟩
      · exact (h.stored stored (hid ▸ hlookup)).maxAttempts
      · exact h.handles run (hworked.started j hstart hi run lease he hid) hid
  have hback : ∀ job', (r.state (i + 1)).jobs.lookup k = some job' →
      ∃ job, (r.state i).jobs.lookup k = some job := by
    intro job' hlookup'
    rcases hnext.stored_back hk hlookup' with hold | ⟨given, hgiven, hid⟩
    · exact Option.isSome_iff_exists.1 hold
    · obtain ⟨j, hj, given', hgiven', hid'⟩ := hstored
      exact absurd (hid'.trans hid.symm)
        (hnew.across j i (by omega) hi given' hgiven' given hgiven)
  -- what the counters are afterwards, and what the stored job is then
  have hcounts := And.intro (r.count_succ (Event.claimsJob env k) hstart)
    (r.count_succ (Event.releasesJob env k) hstart)
  cases hclaims : Event.claimsJob env k (r.state i) (r.event i) with
  | true =>
      obtain ⟨job, hlookup, hst, hlookup'⟩ := hnext.claims hk hco hclaims
      have hreleases : Event.releasesJob env k (r.state i) (r.event i) = false := by
        by_contra hrel
        obtain ⟨job₁, hlookup₁, hst₁, -⟩ := hnext.releases (by simpa using hrel)
        obtain rfl := Option.some.inj (hlookup₁.symm.trans hlookup)
        rw [hst] at hst₁
        cases hst₁
      rw [hclaims, hreleases, if_pos rfl, if_neg Bool.false_ne_true, Nat.add_zero] at hcounts
      have htally := (h.stored job hlookup).claimed (r.state i).clock hst
      refine .of_counts hcounts.1 hcounts.2 (fun job' hjob' => ?_) (htally.claims_le hfirst)
        hhandles
      rw [hlookup'] at hjob'
      obtain rfl := Option.some.inj hjob'
      exact htally
  | false =>
      cases hreleases : Event.releasesJob env k (r.state i) (r.event i) with
      | true =>
          obtain ⟨job, hlookup, hst, hlookup'⟩ := hnext.releases hreleases
          rw [hclaims, hreleases, if_pos rfl, if_neg Bool.false_ne_true, Nat.add_zero] at hcounts
          have htally := (h.stored job hlookup).released hst
          refine .of_counts hcounts.1 hcounts.2 (fun job' hjob' => ?_) (htally.claims_le hfirst)
            hhandles
          rw [hlookup'] at hjob'
          obtain rfl := Option.some.inj hjob'
          exact htally
      | false =>
          rw [hclaims, hreleases, if_neg Bool.false_ne_true, Nat.add_zero, Nat.add_zero] at hcounts
          refine .of_counts hcounts.1 hcounts.2 (fun job' hjob' => ?_) h.bound hhandles
          obtain ⟨job, hlookup⟩ := hback job' hjob'
          have htally := h.stored job hlookup
          have hleft : ∀ run outcome wall,
              r.event i = .call (.finishJobRun run outcome wall) → run.id = k →
              outcome.terminalStatus = none → runIsCurrent (r.state i) run = true →
              job.attempts < job.maxAttempts := by
            intro run outcome wall he hid hretry hcur
            obtain ⟨hissued, worker, now, ended, rfl⟩ :=
              hworked.reported i hstart hi run outcome wall he hid
            obtain ⟨_, ⟨stored, hlookup₁, -, hattempts, -⟩, -⟩ := runningAs_of_current hcur
            rw [hid, hlookup] at hlookup₁
            obtain rfl := Option.some.inj hlookup₁
            rw [hattempts, htally.maxAttempts, ← h.handles run hissued hid]
            cases hout : worker.outcome run now ended with
            | retry retryAt error timedOut => exact Worker.attempts_lt_of_retry hout
            | _ => rw [hout] at hretry; cases hretry
          exact htally.kept (hnext.keepsAttempts hk hfresh hlookup htally.recurring hclaims
            hreleases (hworked.byHand i hstart hi) hleft hjob')

/-- A job that does not recur, and has been handed in with attempts left,
is claimed at most as often as it has attempts (once if it has none), not
counting the claims that were released; and whenever it is pending it has
attempts left. This holds in every run in which it is worked on by
workers alone. -/
theorem attempts_bounded (r : Run (Step env) n) (h0 : r.state 0 = TestStorage.new clock)
    (hnew : NewIds r) (hstart : start ≤ n) (hlookup : (r.state start).jobs.lookup k = some job)
    (hst : job.status = .pending) (hrec : job.recurring = false) (hfirst : 0 ≤ job.attempts)
    (hleft : job.attempts < max 1 job.maxAttempts) (hworked : WorkedOn r start k) :
    ∀ i, start ≤ i → i ≤ n →
      (r.count (Event.claimsJob env k) start i : Int)
          ≤ r.count (Event.releasesJob env k) start i + max 1 job.maxAttempts ∧
        ∀ job', (r.state i).jobs.lookup k = some job' → job'.status = .pending →
          0 ≤ job'.attempts ∧ job'.attempts < max 1 job.maxAttempts := by
  have hhanded := stored_handedIn h0 start hstart k job hlookup
  have htallied : ∀ i, start ≤ i → i ≤ n →
      Tallied r start k job.attempts job.maxAttempts i := by
    intro i hi
    induction i, hi using Nat.le_induction with
    | base =>
        intro _
        refine ⟨fun job' hjob' => ?_, ?_, ?_⟩
        · rw [hlookup] at hjob'
          obtain rfl := Option.some.inj hjob'
          rw [r.count_self, r.count_self]
          refine ⟨hrec, rfl, by simp, by omega, fun _ => ⟨hfirst, hleft⟩, fun hrun => ?_⟩
          rw [hst] at hrun
          cases hrun
        · rw [r.count_self, r.count_self]
          omega
        · rintro handle ⟨j, hj, hlt, -⟩
          omega
    | succ i hi ih =>
        intro hin
        exact (ih (by omega)).step h0 hnew hworked hfirst hi (by omega) hhanded
  intro i hi hin
  have h := htallied i hi hin
  exact ⟨h.bound, fun job' hjob' hst' => (h.stored job' hjob').pending hst'⟩

/-- A worker that retries at once. -/
def eagerWorker : Worker where
  attemptCap := none
  defaultRetryStrategy := none
  retryDelay := 0
  calculateDelay _ _ := 0

/-- A job is claimed, and its run fails. -/
def failedOnce : List Op :=
  [.enqueue parentJob, .dequeue "mail" none 0 1,
    .finishJobRun (parentJob.claimed 0)
      (eagerWorker.outcome (parentJob.claimed 0) 0 (.failure "no mailbox")) 0]

/-- It is pending again, with attempts left. -/
theorem attempts_bounded_failedOnce :
    ((Op.trace plainEnv failedOnce (TestStorage.new 0)).count
        (Event.claimsJob plainEnv 1) 1 3 : Int)
      ≤ (Op.trace plainEnv failedOnce (TestStorage.new 0)).count
        (Event.releasesJob plainEnv 1) 1 3 + 3 ∧
      ∀ job, (Op.applyAll plainEnv failedOnce (TestStorage.new 0)).jobs.lookup 1 = some job →
        job.status = .pending → 0 ≤ job.attempts ∧ job.attempts < 3 := by
  have hissued : Issues plainEnv ((Op.trace plainEnv failedOnce (TestStorage.new 0)).state 1)
      ((Op.trace plainEnv failedOnce (TestStorage.new 0)).event 1) (parentJob.claimed 0) :=
    .inl ⟨[parentJob.claimed 0], rfl, List.mem_singleton_self _⟩
  have hnew : NewIds (Op.trace plainEnv failedOnce (TestStorage.new 0)) := by
    refine ⟨fun i hi => ?_, fun i j hij hj => ?_⟩
    · match i, hi with
      | 0, _ | 1, _ | 2, _ => decide
    · match j, hj with
      | 0, _ => omega
      | 1, _ | 2, _ => exact fun job _ job' hjob' => absurd hjob' List.not_mem_nil
  have hworked : WorkedOn (Op.trace plainEnv failedOnce (TestStorage.new 0)) 1 1 := by
    refine ⟨fun i hi hin op he => ?_, fun i hi hin run lease he => ?_,
      fun i hi hin run outcome wall he _ => ?_⟩
    · match i, hin with
      | 1, _ | 2, _ =>
          cases he
          exact id
    · match i, hin with
      | 1, _ | 2, _ => cases he
    · match i, hin with
      | 1, _ => cases he
      | 2, _ =>
          cases he
          exact ⟨⟨1, le_refl 1, by omega, hissued⟩, eagerWorker, 0, .failure "no mailbox", rfl⟩
  have hlaw := attempts_bounded (Op.trace plainEnv failedOnce (TestStorage.new 0)) rfl hnew
    (show 1 ≤ 3 by omega) (show _ = some parentJob from rfl) rfl rfl (by decide) (by decide)
    hworked 3 (by omega) (le_refl 3)
  rw [← Op.trace_last]
  exact hlaw

end Hammerwork
