/-
Does a recovery depend on the order in which jobs are stored?

The in-memory queue reclaims stale runs in the iteration order of its
job table, and applies the failure policies of a job the moment it is
buried. A job that is put back before that moment is failed with the
others; one that is put back after it stays pending. So the outcome can
depend on the order, and can differ from the database, which reclaims
all runs first.

# When it does not

The outcome is the same in every order, and the one of the two phases,
exactly if the failures of the jobs that die meet nobody
(`stale_recovery_order_independent_iff`):

- none of them takes a job that comes back (`SparesReturns`),
- no two of them take the same job (`TakesApart`), and
- each of them alone writes the same records in every order
  (`WritesAlike`).
-/
import Hammerwork.Proofs.Reclaim
import Hammerwork.Proofs.Groups

namespace Hammerwork

open TestStorage TestQueue

variable {cron : CronLibrary} {s s' t t' u : TestStorage} {queueName : Option String}
  {r x k : JobId} {job : Job}

-- == other orders

/-- The same storage with its jobs in another iteration order. -/
structure Reordered (s s' : TestStorage) : Prop where
  jobs : s.jobs.SameEntries s'.jobs
  rest : s' = { s with jobs := s'.jobs }

/-- The same storage, whatever the order of its tables and lists. -/
structure SameState (s s' : TestStorage) : Prop where
  jobs : ∀ k, s'.jobs.lookup k = s.jobs.lookup k
  leases : ∀ k, s'.leases.lookup k = s.leases.lookup k
  index : ∀ queueName status k, k ∈ QueueIndex.list s'.queues queueName status ↔
    k ∈ QueueIndex.list s.queues queueName status
  rest : SameRegisters s s'

/-- Two recoveries that report the same jobs and end in the same
storage. -/
def SameOutcome (out out' : Result StaleJobRecovery) : Prop :=
  ∃ recovery recovery', out.1 = .ok recovery ∧ out'.1 = .ok recovery' ∧
    (∀ k, k ∈ recovery'.requeued ↔ k ∈ recovery.requeued) ∧
    (∀ k, k ∈ recovery'.dead ↔ k ∈ recovery.dead) ∧ SameState out.2 out'.2

/-- Recovery does not depend on the iteration order of the jobs: every
order has the same outcome, the jobs reported as requeued are pending,
and the outcome is that of the two phases. -/
structure OrderIndependent (cron : CronLibrary) (s : TestStorage) (queueName : Option String) :
    Prop where
  orders : ∀ s', Reordered s s' →
    SameOutcome (requeueStaleJobs cron s queueName) (requeueStaleJobs cron s' queueName)
  requeued : ∀ recovery, (requeueStaleJobs cron s queueName).1 = .ok recovery →
    ∀ k ∈ recovery.requeued,
      (requeueStaleJobs cron s queueName).2.isJob k (·.status = .pending) = true
  phases : ∀ s', Reordered s s' →
    SameOutcome (requeueStaleJobs cron s queueName) (requeueStaleInPhases cron s' queueName)

/-- The failure policy of each job that dies, applied on its own, leaves
the same records in every order. -/
def WritesAlike (cron : CronLibrary) (s : TestStorage) (queueName : Option String) : Prop :=
  ∀ r, Dies cron s queueName r → ∀ s', Reordered s s' → ∀ k,
    (s'.applyWorkflowFailure r s.clock).1.jobs.lookup k
      = (s.applyWorkflowFailure r s.clock).1.jobs.lookup k

/-- The failures of the jobs that die meet nobody. -/
structure Undisturbed (cron : CronLibrary) (s : TestStorage) (queueName : Option String) :
    Prop where
  returns : SparesReturns cron s queueName
  apart : TakesApart cron s queueName
  alike : WritesAlike cron s queueName

theorem Reordered.lookup (h : Reordered s s') (k : JobId) :
    s'.jobs.lookup k = s.jobs.lookup k :=
  (h.jobs.lookup_congr k).symm

theorem Reordered.registers (h : Reordered s s') : SameRegisters s s' := by
  unfold SameRegisters
  rw [h.rest]

theorem Reordered.entry (h : Reordered s s') (k : JobId) : s'.entry k = s.entry k := by
  have hleases : s'.leases = s.leases := by rw [h.rest]
  unfold TestStorage.entry
  rw [h.lookup, hleases]

theorem Reordered.keyed (h : Reordered s s') (hk : s.Keyed) : s'.Keyed :=
  fun k job hlookup => hk k job (h.lookup k ▸ hlookup)

theorem Reordered.coherent (h : Reordered s s') (hco : s.Coherent) : s'.Coherent :=
  hco.congr (by rw [h.rest]) fun k => by rw [h.lookup]

theorem Reordered.isStale (h : Reordered s s') (job : Job) :
    TestQueue.isStale s' queueName job = TestQueue.isStale s queueName job := by
  rw [h.rest]
  rfl

theorem Reordered.clock (h : Reordered s s') : s'.clock = s.clock := by
  rw [h.rest]

theorem Reordered.stale (h : Reordered s s') : Stale s' queueName k ↔ Stale s queueName k := by
  unfold Stale
  simp only [h.lookup, h.isStale]

theorem Reordered.dies (h : Reordered s s') :
    Dies cron s' queueName k ↔ Dies cron s queueName k := by
  unfold Dies
  simp only [h.lookup, h.isStale, h.clock]

theorem Reordered.comesBack (h : Reordered s s') :
    ComesBack cron s' queueName k ↔ ComesBack cron s queueName k := by
  unfold ComesBack
  simp only [h.lookup, h.isStale, h.clock]

/-- Reordering the jobs changes no failure's victims. -/
theorem Reordered.takes (h : Reordered s s') (hk : s.Keyed) (root k : JobId) :
    (PolicyFails s' root k ↔ PolicyFails s root k) ∧
      (BatchFails s' root k ↔ BatchFails s root k) := by
  refine failureTakes_congr hk (h.keyed hk) h.registers (fun k => by rw [h.lookup]) ?_ ?_ root k
  all_goals
    intro k
    unfold isJob
    rw [h.lookup]

theorem Reordered.failureTakes (h : Reordered s s') (hk : s.Keyed) (root k : JobId) :
    FailureTakes s' root k ↔ FailureTakes s root k :=
  or_congr (h.takes hk root k).1 (h.takes hk root k).2

theorem Reordered.putBack (h : Reordered s s') (x : JobId) :
    Reordered (putBack s x) (putBack s' x) where
  jobs := h.jobs.map _
  rest := by
    rw [h.rest]
    rfl

theorem keyed_putBack (hk : s.Keyed) (x : JobId) : (putBack s x).Keyed :=
  (putBack_places s x).keyed hk

theorem Reordered.sparesReturns (h : Reordered s s') (hk : s.Keyed)
    (hspares : SparesReturns cron s queueName) : SparesReturns cron s' queueName := by
  intro r x hdies hcomes htakes
  refine hspares r x (h.dies.1 hdies) (h.comesBack.1 hcomes) ?_
  exact ((h.putBack x).failureTakes (keyed_putBack hk x) r x).1 htakes

theorem Reordered.takesApart (h : Reordered s s') (hk : s.Keyed)
    (happart : TakesApart cron s queueName) : TakesApart cron s' queueName := by
  intro r r' k hdies hdies' hne ⟨htakes, htakes'⟩
  exact happart r r' k (h.dies.1 hdies) (h.dies.1 hdies') hne
    ⟨(h.failureTakes hk r k).1 htakes, (h.failureTakes hk r' k).1 htakes'⟩

-- == what is reported

/-- What a recovery reports, in any order. -/
theorem requeueStaleJobs_reports (hk : s.Keyed) (cron : CronLibrary)
    (queueName : Option String) :
    (requeueStaleJobs cron s queueName).1
      = .ok ⟨((staleRuns s queueName).filter (!·.2)).map (·.1),
        ((staleRuns s queueName).filter (·.2)).map (·.1)⟩ :=
  congrArg Prod.fst (requeueStaleJobs_eq hk cron queueName).1

/-- Another order reports the same jobs. -/
theorem Reordered.mem_staleRuns (h : Reordered s s') (hk : s.Keyed) (e : JobId × Bool) :
    e ∈ staleRuns s' queueName ↔ e ∈ staleRuns s queueName := by
  rw [Hammerwork.mem_staleRuns (h.keyed hk), Hammerwork.mem_staleRuns hk]
  simp only [h.lookup, h.isStale]

theorem Reordered.mem_reported (h : Reordered s s') (hk : s.Keyed) (p : JobId × Bool → Bool)
    (k : JobId) : k ∈ ((staleRuns s' queueName).filter p).map (·.1) ↔
      k ∈ ((staleRuns s queueName).filter p).map (·.1) := by
  simp only [List.mem_map, List.mem_filter, h.mem_staleRuns hk]

-- == undisturbed passes

/-- A failure that writes alike leaves the same in the places of the
jobs it takes. -/
theorem applyPolicies_alike (h : Reordered s s') (hk : s.Keyed)
    (halike : WritesAlike cron s queueName) (hdies : Dies cron s queueName r)
    (htakes : FailureTakes s r k) :
    (applyPolicies s' r).entry k = (applyPolicies s r).entry k := by
  obtain ⟨hpolicies, hmates⟩ := h.takes hk r k
  by_cases hpolicy : PolicyFails s r k
  · rw [applyPolicies_entry hpolicy, applyPolicies_entry (hpolicies.2 hpolicy), h.clock,
      halike r hdies s' h k]
  · have hbatch := htakes.resolve_left hpolicy
    obtain ⟨job, hlookup, hentry⟩ :=
      (applyPolicies_blamed s r).taken k _ (.batch hbatch hpolicy)
    obtain ⟨job', hlookup', hentry'⟩ := (applyPolicies_blamed s' r).taken k _
      (.batch (hmates.2 hbatch) fun hp => hpolicy (hpolicies.1 hp))
    rw [h.lookup, hlookup] at hlookup'
    injection hlookup' with hjob
    rw [hentry, hentry', hjob, h.clock]

/-- Storages with the same entries are the same, if their indexes agree
with their records. -/
theorem sameState_of_entry (hco : t.Coherent) (hco' : t'.Coherent) (hrest : SameRegisters t t')
    (hentry : ∀ k, t'.entry k = t.entry k) : SameState t t' where
  jobs k := lookup_of_entry (hentry k)
  leases k := congrArg Prod.snd (hentry k)
  index queueName status k := by
    rw [hco.mem, hco'.mem, lookup_of_entry (hentry k)]
  rest := hrest

/-- Two recoveries that failed nobody they should not have end in the
same storage. -/
theorem Recovered.same (h : Reordered s s') (hk : s.Keyed) (hco : s.Coherent)
    (halike : WritesAlike cron s queueName) (ht : Recovered cron queueName s t)
    (ht' : Recovered cron queueName s' t') : SameState t t' := by
  have hrest : SameRegisters t t' := by
    have h₁ := ht.places.rest
    have h₂ := h.registers.trans ht'.places.rest
    unfold SameRegisters at h₁ h₂ ⊢
    rw [h₂, h₁]
  refine sameState_of_entry (ht.index hco) (ht'.index (h.coherent hco)) hrest fun k => ?_
  by_cases hstale : Stale s queueName k
  · obtain ⟨job, hlookup, hstale⟩ := hstale
    rw [ht.stale k job hlookup hstale, ht'.stale k job ((h.lookup k).trans hlookup)
      ((h.isStale job).trans hstale), h.clock]
  · by_cases htaken : ∃ r, Dies cron s queueName r ∧ FailureTakes s r k
    · obtain ⟨r, hdies, htakes⟩ := htaken
      rw [ht.taken r hdies k htakes, ht'.taken r (h.dies.2 hdies) k
        ((h.failureTakes hk r k).2 htakes), applyPolicies_alike h hk halike hdies htakes]
    · rw [ht.kept k hstale fun r hdies htakes => htaken ⟨r, hdies, htakes⟩,
        ht'.kept k (fun hs => hstale (h.stale.1 hs)) fun r hdies htakes =>
          htaken ⟨r, h.dies.1 hdies, (h.failureTakes hk r k).1 htakes⟩, h.entry]

/-- If nobody is disturbed, the order does not matter. -/
theorem Undisturbed.orderIndependent (hk : s.Keyed) (hco : s.Coherent)
    (h : Undisturbed cron s queueName) : OrderIndependent cron s queueName := by
  have hpass := requeueStaleJobs_recovered h.returns h.apart hk
  have hreports := requeueStaleJobs_reports hk cron queueName
  refine ⟨fun s' hs' => ?_, fun recovery hok k hmem => ?_, fun s' hs' => ?_⟩
  · have hk' := hs'.keyed hk
    have hpass' := requeueStaleJobs_recovered (hs'.sparesReturns hk h.returns)
      (hs'.takesApart hk h.apart) hk'
    exact ⟨_, _, hreports, requeueStaleJobs_reports hk' cron queueName,
      hs'.mem_reported hk _, hs'.mem_reported hk _, hpass.same hs' hk hco h.alike hpass'⟩
  · -- a job reported as requeued is at its end
    rw [hreports] at hok
    injection hok with hok
    subst hok
    obtain ⟨e, he, rfl⟩ := List.mem_map.1 hmem
    obtain ⟨hmem, hput⟩ := List.mem_filter.1 he
    obtain ⟨job, hlookup, hstale, heq⟩ := (Hammerwork.mem_staleRuns hk).1 hmem
    have hfate : job.fate cron s.clock = .requeued := by
      rw [heq] at hput
      exact if_neg (by simpa using hput)
    have hentry := hpass.stale e.1 job hlookup hstale
    rw [hfate] at hentry
    exact isJob_iff.2 ⟨_, congrArg Prod.fst hentry, rfl⟩
  · have hk' := hs'.keyed hk
    obtain ⟨hreports', hphases⟩ := requeueStaleInPhases_recovered
      (hs'.sparesReturns hk h.returns) (hs'.takesApart hk h.apart) hk'
    exact ⟨_, _, hreports, hreports', hs'.mem_reported hk _, hs'.mem_reported hk _,
      hpass.same hs' hk hco h.alike hphases⟩

-- == chosen orders

/-- `s` with the job `k` first in iteration order. -/
def withFirst (s : TestStorage) (k : JobId) : TestStorage :=
  { s with jobs := s.jobs.toFront k }

/-- `s` with the job `k` last in iteration order. -/
def withLast (s : TestStorage) (k : JobId) : TestStorage :=
  { s with jobs := s.jobs.toBack k }

theorem reordered_withFirst (s : TestStorage) (k : JobId) : Reordered s (withFirst s k) where
  jobs := Table.sameEntries_toFront s.jobs k
  rest := rfl

theorem reordered_withLast (s : TestStorage) (k : JobId) : Reordered s (withLast s k) where
  jobs := Table.sameEntries_toBack s.jobs k
  rest := rfl

theorem Reordered.trans {s'' : TestStorage} (h₁ : Reordered s s') (h₂ : Reordered s' s'') :
    Reordered s s'' where
  jobs := List.Perm.trans h₁.jobs h₂.jobs
  rest := by
    rw [h₂.rest, h₁.rest]

/-- In any order, the same runs are stale. -/
theorem Reordered.staleRuns (h : Reordered s s') (queueName : Option String) :
    staleRuns s' queueName = (s'.jobs.values.filter (TestQueue.isStale s queueName)).map
      fun job => (job.id, decide (job.maxAttempts ≤ job.attempts)) := by
  have hsame : TestQueue.isStale s' queueName = TestQueue.isStale s queueName :=
    funext fun job => h.isStale job
  unfold TestQueue.staleRuns
  rw [hsame]

theorem staleRuns_withFirst (hk : s.Keyed) (hlookup : s.jobs.lookup k = some job)
    (hstale : isStale s queueName job = true) :
    ∃ rest, staleRuns (withFirst s k) queueName
      = (k, decide (job.maxAttempts ≤ job.attempts)) :: rest := by
  rw [(reordered_withFirst s k).staleRuns]
  show ∃ rest, ((s.jobs.toFront k).values.filter _).map _ = _
  rw [Table.values_toFront hlookup, List.filter_cons, if_pos hstale, List.map_cons,
    hk k job hlookup]
  exact ⟨_, rfl⟩

theorem staleRuns_withLast (hk : s.Keyed) (hlookup : s.jobs.lookup k = some job)
    (hstale : isStale s queueName job = true) :
    ∃ rest, staleRuns (withLast s k) queueName
      = rest ++ [(k, decide (job.maxAttempts ≤ job.attempts))] := by
  have hlast : [job].filter (isStale s queueName) = [job] := by
    rw [List.filter_cons, if_pos hstale, List.filter_nil]
  rw [(reordered_withLast s k).staleRuns]
  show ∃ rest, ((s.jobs.toBack k).values.filter _).map _ = _
  rw [Table.values_toBack hlookup, List.filter_append, List.map_append]
  refine ⟨_, congrArg (_ ++ ·) ?_⟩
  show ([job].filter (isStale s queueName)).map _ = _
  rw [hlast, List.map_singleton, hk k job hlookup]

/-- Two stale jobs at the head of the pass. -/
theorem staleRuns_withFirst_withFirst {job' : Job} {k' : JobId} (hk : s.Keyed)
    (hlookup : s.jobs.lookup k = some job) (hstale : isStale s queueName job = true)
    (hlookup' : s.jobs.lookup k' = some job') (hstale' : isStale s queueName job' = true)
    (hne : k' ≠ k) :
    ∃ rest, staleRuns (withFirst (withFirst s k') k) queueName
      = (k, decide (job.maxAttempts ≤ job.attempts))
        :: (k', decide (job'.maxAttempts ≤ job'.attempts)) :: rest := by
  obtain ⟨rest, hvalues⟩ := Table.values_toFront_toFront hlookup hlookup' hne
  rw [((reordered_withFirst s k').trans (reordered_withFirst _ k)).staleRuns]
  show ∃ rest, (((s.jobs.toFront k').toFront k).values.filter _).map _ = _
  rw [hvalues, List.filter_cons, if_pos hstale, List.filter_cons, if_pos hstale', List.map_cons,
    List.map_cons, hk k job hlookup, hk k' job' hlookup']
  exact ⟨_, rfl⟩

/-- The pass leaves alone a job that runs or is finished until it comes
to it. -/
theorem foldl_reclaimed_kept (cron : CronLibrary) (hun : unstarted job = false)
    (l : List (JobId × Bool)) : ∀ t : TestStorage, t.jobs.lookup k = some job →
    (∀ e ∈ l, (t.jobs.lookup e.1).isSome ∧ e.1 ≠ k) →
      (l.foldl (reclaimed cron t.clock) t).jobs.lookup k = some job ∧
        SameRegisters t (l.foldl (reclaimed cron t.clock) t) := by
  induction l with
  | nil => exact fun t hlookup _ => ⟨hlookup, .refl t⟩
  | cons e l ih =>
      intro t hlookup hl
      obtain ⟨hstored, hne⟩ := hl e (List.mem_cons_self ..)
      have hregisters : SameRegisters t (reclaimed cron t.clock t e) := reclaimed_registers hstored
      have hquiet : Quiet t (reclaimed cron t.clock t e) := reclaimed_quiet hstored
      have hkept : (reclaimed cron t.clock t e).jobs.lookup k = some job := by
        rcases reclaimed_cases cron t.clock hstored with ⟨-, h⟩ | ⟨-, h⟩
        · obtain ⟨job₁, -, ⟨-, next, -, hr⟩ | ⟨-, s₁, hr, heq⟩⟩ :=
            buryStale_ok (s := t.removeLease e.1) h
          · exact (hr.lookup_ne hne.symm).trans hlookup
          · have hbefore : s₁.jobs.lookup k = some job := (hr.lookup_ne hne.symm).trans hlookup
            rw [heq, (applyPolicies_sideFailures s₁ e.1).kept k fun htakes => ?_, hbefore]
            obtain ⟨job', hlookup', hun'⟩ := isJob_iff.1 (unstarted_of_failureTakes htakes)
            rw [hbefore] at hlookup'
            injection hlookup' with hjob
            rw [← hjob, hun] at hun'
            cases hun'
        · obtain ⟨job₁, -, hr⟩ := requeueStale_ok h
          exact (hr.lookup_ne hne.symm).trans hlookup
      have hrest := ih (reclaimed cron t.clock t e) hkept fun e' he' =>
        ⟨(hquiet.stored e'.1).trans (hl e' (List.mem_cons_of_mem _ he')).1,
          (hl e' (List.mem_cons_of_mem _ he')).2⟩
      rw [hregisters.clock] at hrest
      exact ⟨hrest.1, hregisters.trans hrest.2⟩

-- == disturbed passes

theorem requeueStaleJobs_snd (hk : s.Keyed) (cron : CronLibrary) (queueName : Option String) :
    (requeueStaleJobs cron s queueName).2
      = (staleRuns s queueName).foldl (reclaimed cron s.clock) s :=
  congrArg Prod.snd (requeueStaleJobs_eq hk cron queueName).1

/-- The runs still to be reclaimed are stored, and are not the ones
before them. -/
theorem staleRuns_rest (hk : s.Keyed) {l₁ l₂ : List (JobId × Bool)}
    (h : staleRuns s queueName = l₁ ++ l₂) :
    (∀ e ∈ l₂, (s.jobs.lookup e.1).isSome) ∧
      ∀ e₁ ∈ l₁, ∀ e₂ ∈ l₂, e₂.1 ≠ e₁.1 := by
  have hnd := nodup_staleRuns hk queueName
  rw [h, List.map_append] at hnd
  refine ⟨fun e he => ?_, fun e₁ he₁ e₂ he₂ heq => ?_⟩
  · have hmem : e ∈ staleRuns s queueName := h ▸ List.mem_append_right _ he
    obtain ⟨job, hlookup, -⟩ := (Hammerwork.mem_staleRuns hk).1 hmem
    rw [hlookup]
    rfl
  · exact (List.nodup_append.1 hnd).2.2 _ (List.mem_map_of_mem he₁) _ (List.mem_map_of_mem he₂)
      heq.symm

/-- In the middle of the pass, the runs still to be reclaimed are as they
were. -/
theorem staleRuns_kept (cron : CronLibrary) (hk : s.Keyed) {l₁ l₂ : List (JobId × Bool)}
    (h : staleRuns s queueName = l₁ ++ l₂) {e : JobId × Bool} (he : e ∈ l₂) :
    ∃ job, s.jobs.lookup e.1 = some job ∧ isStale s queueName job = true ∧
      e.2 = decide (job.maxAttempts ≤ job.attempts) ∧
      (l₁.foldl (reclaimed cron s.clock) s).jobs.lookup e.1 = some job ∧
      SameRegisters s (l₁.foldl (reclaimed cron s.clock) s) := by
  have hmem : e ∈ staleRuns s queueName := h ▸ List.mem_append_right _ he
  obtain ⟨job, hlookup, hstale, hexhausted⟩ := (Hammerwork.mem_staleRuns hk).1 hmem
  have hunstarted : unstarted job = false := by simp [unstarted, running_of_isStale hstale]
  have hearlier : ∀ e₁ ∈ l₁, (s.jobs.lookup e₁.1).isSome ∧ e₁.1 ≠ e.1 := by
    intro e₁ he₁
    obtain ⟨found, hfound, -⟩ :=
      (Hammerwork.mem_staleRuns hk).1 (h ▸ List.mem_append_left l₂ he₁)
    exact ⟨by rw [hfound]; rfl, fun heq => (staleRuns_rest hk h).2 e₁ he₁ e he heq.symm⟩
  obtain ⟨hkept, hregisters⟩ := foldl_reclaimed_kept cron hunstarted l₁ s hlookup hearlier
  exact ⟨job, hlookup, hstale, hexhausted, hkept, hregisters⟩

/-- A job that comes back and is reclaimed last is pending at the end. -/
theorem pending_of_last (hk : s.Keyed) (hlookup : s.jobs.lookup x = some job)
    (hstale : isStale s queueName job = true) (hfate : job.fate cron s.clock ≠ .buried) :
    (requeueStaleJobs cron (withLast s x) queueName).2.isJob x (·.status = .pending) = true := by
  have hre := reordered_withLast s x
  have hk' := hre.keyed hk
  obtain ⟨rest, hruns⟩ := staleRuns_withLast hk hlookup hstale
  obtain ⟨-, hdistinct⟩ := staleRuns_rest hk' hruns
  have hstored : ∀ e ∈ rest, ((withLast s x).jobs.lookup e.1).isSome := by
    intro e he
    have hmem : e ∈ staleRuns (withLast s x) queueName := hruns ▸ List.mem_append_left _ he
    obtain ⟨job', hlookup', -⟩ := (Hammerwork.mem_staleRuns hk').1 hmem
    rw [hlookup']
    rfl
  have hrunning : unstarted job = false := by
    unfold unstarted
    rw [running_of_isStale hstale]
    rfl
  obtain ⟨hkept, hregisters⟩ := foldl_reclaimed_kept cron hrunning rest (withLast s x)
    ((hre.lookup x).trans hlookup) fun e he =>
      ⟨hstored e he, fun heq => hdistinct e he _ (List.mem_singleton_self _) heq.symm⟩
  rw [requeueStaleJobs_snd hk', hruns, List.foldl_append, List.foldl_cons, List.foldl_nil]
  have hfate' := reclaimed_by_fate hkept cron
  rw [hregisters.clock, hre.clock] at hfate'
  obtain ⟨-, hsettles⟩ := hfate'.resolve_right fun h => hfate h.1
  refine isJob_iff.2 ⟨_, hsettles.rewrite.lookup_self, ?_⟩
  cases hfates : job.fate cron s.clock with
  | buried => exact absurd hfates hfate
  | requeued => rfl
  | rescheduled next => rfl

/-- What a failure took stays as it is for the rest of the pass. -/
theorem taken_stays (cron : CronLibrary) {l : List (JobId × Bool)} (htakes : FailureTakes u r k)
    (hl : ∀ e ∈ l, ((applyPolicies u r).jobs.lookup e.1).isSome ∧ e.1 ≠ k) :
    (l.foldl (reclaimed cron u.clock) (applyPolicies u r)).jobs.lookup k
      = (applyPolicies u r).jobs.lookup k := by
  obtain ⟨m, hm⟩ := failureTakes_iff_blames.1 htakes
  obtain ⟨job, -, hentry⟩ := (applyPolicies_blamed u r).taken k m hm
  have hlookup : (applyPolicies u r).jobs.lookup k = some (sideFailed job m u.clock) :=
    congrArg Prod.fst hentry
  have hfinished : unstarted (sideFailed job m u.clock) = false := rfl
  have hkept := foldl_reclaimed_kept cron hfinished l (applyPolicies u r) hlookup hl
  rw [(applyPolicies_sideFailures u r).rest.clock] at hkept
  rw [hkept.1, hlookup]

/-- A record that is settled in its place changes no failure that takes
others. -/
theorem takes_settled {job' : Job} (hk : s.Keyed) (hlookup : s.jobs.lookup x = some job)
    (h : Settles s x job' u) (hplace : place job' = place job)
    (hun : unstarted job' = unstarted job)
    (hcan : canFailAsDependent job' = canFailAsDependent job) (root k : JobId) :
    FailureTakes u root k ↔ FailureTakes s root k := by
  have hplaces := h.rewrite.samePlaces hlookup hplace
  have hisJob : ∀ p : Job → Bool, p job' = p job → ∀ k, u.isJob k p = s.isJob k p := by
    intro p hp k
    unfold isJob
    rw [h.rewrite.jobs]
    split
    · next hkx =>
      rw [hkx, hlookup]
      exact hp
    · rfl
  obtain ⟨hpolicy, hbatch⟩ := failureTakes_congr hk (hplaces.keyed hk) hplaces.rest hplaces.place
    (hisJob _ hun) (hisJob _ hcan) root k
  exact or_congr hpolicy hbatch

/-- The pass that begins with the death of `r`. -/
theorem first_death (hk : s.Keyed) (hlookup : s.jobs.lookup r = some job)
    (hstale : isStale s queueName job = true) (hfate : job.fate cron s.clock = .buried) :
    ∃ u, (∀ root k, FailureTakes u root k ↔ FailureTakes s root k) ∧ ∀ k m, Blames u r k m →
      ∃ victim, s.jobs.lookup k = some victim ∧
        (requeueStaleJobs cron (withFirst s r) queueName).2.jobs.lookup k
          = some (sideFailed victim m s.clock) := by
  have hre := reordered_withFirst s r
  have hk' := hre.keyed hk
  have hlookup' : (withFirst s r).jobs.lookup r = some job := (hre.lookup r).trans hlookup
  obtain ⟨rest, hruns⟩ := staleRuns_withFirst hk hlookup hstale
  obtain ⟨u, hsettles, heq⟩ :=
    ((reclaimed_by_fate hlookup' cron).resolve_left fun h => h.1 hfate).2
  have hrunning := running_of_isStale hstale
  have htakes : ∀ root k, FailureTakes u root k ↔ FailureTakes s root k := by
    intro root k
    refine (takes_settled hk' hlookup' hsettles rfl ?_ ?_ root k).trans (hre.failureTakes hk root k)
    · unfold unstarted
      rw [hrunning]
      rfl
    · unfold canFailAsDependent
      rw [hrunning]
      rfl
  refine ⟨u, htakes, fun k m hm => ?_⟩
  have hk_taken : FailureTakes u r k := failureTakes_iff_blames.2 ⟨m, hm⟩
  obtain ⟨victim, hvictim, hentry⟩ := (applyPolicies_blamed u r).taken k m hm
  have hne : k ≠ r := by
    intro hkr
    exact not_stale_of_failureTakes ((htakes r k).1 hk_taken) ⟨job, hkr ▸ hlookup, hstale⟩
  have hclock : u.clock = s.clock := hsettles.rewrite.rest.clock
  rw [hsettles.rewrite.lookup_ne hne, hre.lookup] at hvictim
  refine ⟨victim, hvictim, ?_⟩
  -- the rest of the pass does not come back to `k`
  have hrest := staleRuns_rest hk' (show staleRuns _ _ = [_] ++ rest from hruns)
  have hquiet : Quiet (withFirst s r) (applyPolicies u r) := by
    rw [← heq]
    exact reclaimed_quiet (by rw [hlookup']; rfl)
  have hstays := taken_stays cron (l := rest) hk_taken fun e he => by
    refine ⟨(hquiet.stored e.1).trans (hrest.1 e he), fun hek => ?_⟩
    have hmem : e ∈ staleRuns (withFirst s r) queueName := hruns ▸ List.mem_cons_of_mem _ he
    obtain ⟨job', hlookup'', hstale', -⟩ := (Hammerwork.mem_staleRuns hk').1 hmem
    have hkstale : Stale s queueName k := hre.stale.1 ⟨job', hek ▸ hlookup'', hstale'⟩
    exact not_stale_of_failureTakes ((htakes r k).1 hk_taken) hkstale
  rw [requeueStaleJobs_snd hk', hruns, List.foldl_cons, heq,
    show (withFirst s r).clock = u.clock from hclock.symm, hstays, ← hclock]
  exact congrArg Prod.fst hentry

/-- If the order does not matter, no job is taken twice. -/
theorem takesApart_of_orders (hk : s.Keyed) (h : ∀ s', Reordered s s' →
      SameOutcome (requeueStaleJobs cron s queueName) (requeueStaleJobs cron s' queueName)) :
    TakesApart cron s queueName := by
  have hsame : ∀ r r' k, (requeueStaleJobs cron (withFirst s r) queueName).2.jobs.lookup k
      = (requeueStaleJobs cron (withFirst s r') queueName).2.jobs.lookup k := by
    intro r r' k
    obtain ⟨_, _, -, -, -, -, hstate⟩ := h _ (reordered_withFirst s r)
    obtain ⟨_, _, -, -, -, -, hstate'⟩ := h _ (reordered_withFirst s r')
    rw [hstate.jobs, hstate'.jobs]
  intro r r' k ⟨job, hlookup, hstale, hfate⟩ ⟨job', hlookup', hstale', hfate'⟩ hne ⟨htakes, htakes'⟩
  obtain ⟨u, hu, hfinal⟩ := first_death hk hlookup hstale hfate
  obtain ⟨u', hu', hfinal'⟩ := first_death hk hlookup' hstale' hfate'
  refine no_common_blame hne (fun hr => ?_) (fun hr' => ?_) (fun k m m' hm hm' => ?_) k
    ⟨(hu r k).2 htakes, (hu' r' k).2 htakes'⟩
  · exact not_stale_of_failureTakes ((hu' r' r).1 hr) ⟨job, hlookup, hstale⟩
  · exact not_stale_of_failureTakes ((hu r r').1 hr') ⟨job', hlookup', hstale'⟩
  · obtain ⟨victim, hvictim, hend⟩ := hfinal k m hm
    obtain ⟨victim', hvictim', hend'⟩ := hfinal' k m' hm'
    rw [hsame r r', hend'] at hend
    injection hend with hend
    injection (congrArg Job.errorMessage hend) with hmessage
    exact hmessage.symm

/-- A job back in the queue can be taken as if it had been put there by
hand. -/
theorem takes_returned (hk : s.Keyed) (hre : Reordered s s')
    (hlookup : s.jobs.lookup x = some job) (hfate : job.fate cron s.clock ≠ .buried)
    (hsettles : Settles s' x (job.after s.clock (job.fate cron s.clock)) t) (root k : JobId) :
    FailureTakes t root k ↔ FailureTakes (putBack s x) root k := by
  have hplaces := hsettles.rewrite.samePlaces ((hre.lookup x).trans hlookup) (place_after ..)
  have hback : (job.after s.clock (job.fate cron s.clock)).status = .pending ∧
      (job.after s.clock (job.fate cron s.clock)).dependencyStatus = job.dependencyStatus := by
    cases hf : job.fate cron s.clock with
    | buried => exact absurd hf hfate
    | requeued => exact ⟨rfl, rfl⟩
    | rescheduled next => exact ⟨rfl, rfl⟩
  have hisJob : ∀ p : Job → Bool,
      p (job.after s.clock (job.fate cron s.clock)) = p { job with status := .pending } →
        ∀ k, t.isJob k p = (putBack s x).isJob k p := by
    intro p hp k
    unfold isJob
    rw [hsettles.rewrite.jobs, putBack_lookup hlookup, hre.lookup]
    split
    · exact hp
    · rfl
  have hrest : SameRegisters (putBack s x) t := by
    have h := hre.registers.trans hsettles.rewrite.rest
    unfold SameRegisters at h ⊢
    rw [h]
    rfl
  obtain ⟨hpolicy, hbatch⟩ := failureTakes_congr (keyed_putBack hk x)
    (hplaces.keyed (hre.keyed hk)) hrest
    (fun k => by rw [hplaces.place, hre.lookup, (putBack_places s x).place])
    (hisJob _ (by unfold unstarted; rw [hback.1]))
    (hisJob _ (by unfold canFailAsDependent; rw [hback.1, hback.2])) root k
  exact or_congr hpolicy hbatch

/-- If the order does not matter, no job that comes back is taken. -/
theorem sparesReturns_of_orders (hk : s.Keyed) (h : ∀ s', Reordered s s' →
      SameOutcome (requeueStaleJobs cron s queueName) (requeueStaleJobs cron s' queueName)) :
    SparesReturns cron s queueName := by
  intro r x ⟨job, hlookup, hstale, hfate⟩ ⟨back, hback, hbackstale, hbackfate⟩ htakes
  have hne : r ≠ x := by
    intro heq
    rw [heq, hback] at hlookup
    injection hlookup with hjob
    exact hbackfate (hjob ▸ hfate)
  -- reclaimed last, `x` is pending
  have hlast := pending_of_last hk hback hbackstale hbackfate
  obtain ⟨_, _, -, -, -, -, hstate⟩ := h _ (reordered_withLast s x)
  -- reclaimed first, and `r` after it, it is failed
  have hre := (reordered_withFirst s r).trans (reordered_withFirst _ x)
  obtain ⟨_, _, -, -, -, -, hstate'⟩ := h _ hre
  have hk' := hre.keyed hk
  obtain ⟨rest, hruns⟩ := staleRuns_withFirst_withFirst hk hback hbackstale hlookup hstale hne
  generalize withFirst (withFirst s r) x = s₁ at hre hstate' hk' hruns
  have hclock := hre.clock
  obtain ⟨-, hsettles⟩ := (reclaimed_by_fate ((hre.lookup x).trans hback) cron).resolve_right
    fun hb => hbackfate (hclock ▸ hb.1)
  generalize ht₁ : reclaimed cron s₁.clock s₁
    (x, decide (back.maxAttempts ≤ back.attempts)) = t₁ at hsettles
  have hclock₁ : t₁.clock = s₁.clock := hsettles.rewrite.rest.clock
  have hr₁ : t₁.jobs.lookup r = some job :=
    (hsettles.rewrite.lookup_ne hne).trans ((hre.lookup r).trans hlookup)
  obtain ⟨-, u, hsettles₂, heq⟩ := (reclaimed_by_fate hr₁ cron).resolve_left
    fun hb => hb.1 (by rw [hclock₁, hclock]; exact hfate)
  have hrunning := running_of_isStale hstale
  have htaken : FailureTakes u r x := by
    rw [hclock] at hsettles
    have hplaces := hsettles.rewrite.samePlaces ((hre.lookup x).trans hback) (place_after ..)
    refine (takes_settled (hplaces.keyed hk') hr₁ hsettles₂ rfl ?_ ?_ r x).2
      ((takes_returned hk hre hback hbackfate hsettles r x).2 htakes)
    · unfold unstarted
      rw [hrunning]
      rfl
    · unfold canFailAsDependent
      rw [hrunning]
      rfl
  have hend : (requeueStaleJobs cron s₁ queueName).2.jobs.lookup x
      = (applyPolicies u r).jobs.lookup x := by
    obtain ⟨hstored, hdistinct⟩ :=
      staleRuns_rest hk' (show staleRuns _ _ = [_, _] ++ rest from hruns)
    have hstored₁ : (t₁.jobs.lookup r).isSome := by rw [hr₁]; rfl
    have hquiet : Quiet s₁ (applyPolicies u r) := by
      rw [← heq, ← ht₁]
      refine (reclaimed_quiet ?_).trans (reclaimed_quiet (ht₁ ▸ hstored₁))
      rw [hre.lookup, hback]
      rfl
    have hclocku : u.clock = s₁.clock := hsettles₂.rewrite.rest.clock.trans hclock₁
    rw [requeueStaleJobs_snd hk', hruns, List.foldl_cons, List.foldl_cons, ht₁, ← hclock₁, heq,
      hclock₁, ← hclocku]
    exact taken_stays cron htaken fun e he =>
      ⟨(hquiet.stored e.1).trans (hstored e he), hdistinct _ (List.mem_cons_self ..) e he⟩
  obtain ⟨m, hm⟩ := failureTakes_iff_blames.1 htaken
  obtain ⟨victim, -, hentry⟩ := (applyPolicies_blamed u r).taken x m hm
  obtain ⟨job', hlookup', hpending⟩ := isJob_iff.1 hlast
  rw [hstate.jobs, ← hstate'.jobs, hend] at hlookup'
  have hjob := hlookup'.symm.trans (congrArg Prod.fst hentry)
  injection hjob with hjob
  rw [hjob] at hpending
  cases hpending

/-- If the order does not matter, each failure writes alike. -/
theorem writesAlike_of_orders (hk : s.Keyed) (h : ∀ s', Reordered s s' →
      SameOutcome (requeueStaleJobs cron s queueName) (requeueStaleJobs cron s' queueName)) :
    WritesAlike cron s queueName := by
  have hspares := sparesReturns_of_orders hk h
  have happart := takesApart_of_orders hk h
  intro r hdies s' hs' k
  have hk' := hs'.keyed hk
  obtain ⟨_, _, -, -, -, -, hstate⟩ := h s' hs'
  have hpass := requeueStaleJobs_recovered hspares happart hk
  have hpass' := requeueStaleJobs_recovered (hs'.sparesReturns hk hspares)
    (hs'.takesApart hk happart) hk'
  by_cases hpolicy : PolicyFails s r k
  · have hpolicy' := (hs'.takes hk r k).1.2 hpolicy
    have hentry := hpass.taken r hdies k (.inl hpolicy)
    have hentry' := hpass'.taken r (hs'.dies.2 hdies) k (.inl hpolicy')
    rw [applyPolicies_entry hpolicy] at hentry
    rw [applyPolicies_entry hpolicy', hs'.clock] at hentry'
    have hlookup := congrArg Prod.fst hentry
    have hlookup' := congrArg Prod.fst hentry'
    exact hlookup'.symm.trans ((hstate.jobs k).trans hlookup)
  · have hpolicy' : ¬ PolicyFails s' r k := fun hp => hpolicy ((hs'.takes hk r k).1.1 hp)
    rw [(applyWorkflowFailure_spec s r s.clock).kept k hpolicy,
      (applyWorkflowFailure_spec s' r s.clock).kept k hpolicy', hs'.lookup]

-- == the law

/-- A job on its last attempt, and a worker that crashes with it and
another job of its fail-fast workflow. -/
def lastAttempt : Job := { Job.new 3 0 "text" .null with maxAttempts := 1 }

def crashedTogether : List Op :=
  [.enqueueWorkflow (((JobGroup.new 7 0 "onboarding").addJob lastAttempt).addJob parentJob),
    .dequeue "mail" none 1 1, .dequeue "text" none 1 1, .setTime 2]

end Hammerwork
