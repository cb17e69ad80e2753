/-
A fail-fast workflow or batch stops.

When a job ends in failure, a fail-fast policy fails the jobs of its
workflow and of its batch that have not started. What it finds pending
or retrying is failed, and what had ended stays ended, so none of these
jobs is handed out again unless an operator puts it back
(`fail_fast_stops`).

Jobs that are running at that moment finish their runs, and a run may
finish by putting its job back: it reports a retry, is released, or is
reclaimed. Such a job is handed out again
(`running_sibling_comes_back`).
-/
import Hammerwork.Laws.StatusEdges
import Hammerwork.Laws.StaleRecovery
import Hammerwork.Laws.DependencySafety
import Hammerwork.Laws.EnqueueOrder

namespace Hammerwork

open TestStorage TestQueue

variable {s s' t : TestStorage} {env : Env} {k root : JobId} {job job' : Job} {op : Op}

-- == statement

namespace TestStorage

/-- The fail-fast workflow of `root` lists `k`. -/
def WorkflowMate (s : TestStorage) (root k : JobId) : Prop :=
  ∃ workflow, s.workflowOf root = some workflow ∧ workflow.failurePolicy = .failFast ∧
    k ∈ workflow.jobs.map (·.id)

/-- The fail-fast batch of `root` lists `k`. -/
def BatchMate (s : TestStorage) (root k : JobId) : Prop :=
  ∃ batchId, (s.jobs.lookup root).bind (·.batchId) = some batchId ∧
    (s.batches.lookup batchId).any (·.failureMode = .failFast) = true ∧
    k ∈ (s.batchJobs.lookup batchId).getD []

end TestStorage

/-- The call ends the job `root` in failure: by hand, as the outcome of
its run, or because its run is stale and was its last. -/
def Op.EndsInFailure (env : Env) (s : TestStorage) (root : JobId) : Op → Prop
  | failJob id _ => id = root ∧ s.isJob root (JobTransition.fail.isAllowedFrom ·.status) = true
  | markJobDead id _ =>
      id = root ∧ s.isJob root (JobTransition.markDead.isAllowedFrom ·.status) = true
  | markJobTimedOut id _ =>
      id = root ∧ s.isJob root (JobTransition.markTimedOut.isAllowedFrom ·.status) = true
  | finishJobRun run outcome _ =>
      run.id = root ∧ (∃ status error, Ends outcome status error) ∧
        ∃ job, Current s run job ∧ rerunAt env.cron s job outcome = none
  | requeueStaleJobs queueName => Dies env.cron s queueName root
  | _ => False

/-- The call applies the failure policies of `root`, which concern
`k`. -/
def Op.Stops (env : Env) (s : TestStorage) (root k : JobId) (op : Op) : Prop :=
  (op.EndsInFailure env s root ∧ (s.WorkflowMate root k ∨ s.BatchMate root k)) ∨
    (op = .failJobDependencies root ∧ s.WorkflowMate root k)

/-- The call puts `k` back by hand. -/
def Op.ByOperator (k : JobId) : Op → Prop
  | retryJob id _ | retryDeadJob id | restoreArchivedJob id | rescheduleCronJob id _
  | enableRecurringJob id => id = k
  | _ => False

def Event.ByOperator (k : JobId) : Event → Prop
  | call op => op.ByOperator k
  | rehash => False

-- == one failure

namespace TestStorage

/-- The job is pending, running or retrying. -/
def Active (s : TestStorage) (k : JobId) : Prop := s.isJob k unfinished = true

def IsRunning (s : TestStorage) (k : JobId) : Prop := s.isJob k (·.status = .running) = true

/-- A job that is active and does not run has not started. -/
theorem unstarted_of_active (hactive : Active s k) (hruns : ¬ IsRunning s k) :
    s.isJob k unstarted = true := by
  obtain ⟨job, hlookup, hjob⟩ := isJob_iff.1 hactive
  refine isJob_iff.2 ⟨job, hlookup, ?_⟩
  rw [unstarted_iff]
  rcases unfinished_iff.1 hjob with h | h | h
  · exact .inl h
  · exact absurd (isJob_iff.2 ⟨job, hlookup, by simpa using h⟩) hruns
  · exact .inr h

/-- Failures make no job active. -/
theorem SideFailures.active {now : DateTime} {fails : JobId → Prop}
    (h : SideFailures s s' now fails) : Active s' k ↔ Active s k ∧ ¬ fails k :=
  h.isJob (fun _ hjob => hjob) k

/-- Applying the policies of a job that ended in failure leaves none of
its mates active, those that run apart. -/
theorem applyPolicies_stops {s₁ : TestStorage} (hk : s.Keyed)
    (hlookup : s.jobs.lookup root = some job) (hr : Rewrite s root job' s₁)
    (hplace : place job' = place job) (hended : unfinished job' = false)
    (hmate : s.WorkflowMate root k ∨ s.BatchMate root k) (hruns : ¬ IsRunning s k) :
    ¬ Active (applyPolicies s₁ root) k := by
  have hside : SideFailures s₁ (applyPolicies s₁ root) s₁.clock (FailureTakes s₁ root) :=
    failureTakes_spec s₁ root s₁.clock
  rw [hside.active]
  intro ⟨hactive, hnot⟩
  by_cases hne : k = root
  · obtain ⟨found, hfound, hjob⟩ := isJob_iff.1 hactive
    rw [hne, hr.lookup_self] at hfound
    obtain rfl := Option.some.inj hfound
    rw [hended] at hjob
    cases hjob
  · have hkept : Active s k := by
      unfold Active isJob at hactive ⊢
      rwa [hr.lookup_ne hne] at hactive
    have hunstarted := unstarted_of_active hkept hruns
    injection hplace with hid hplace
    injection hplace with hdeps hplace
    injection hplace with hworkflow hbatch
    obtain ⟨hsibling, -, hbatch⟩ :=
      failureTakes_rewrite hk hlookup hr hid hdeps hworkflow hbatch hne
    rcases hmate with ⟨workflow, hof, hpolicy, hlisted⟩ | ⟨batchId, hof, hmode, hlisted⟩
    · exact hnot (.inl (.inl (hsibling.2 ⟨workflow, hof, hpolicy, hlisted, hne, hunstarted⟩)))
    · exact hnot (.inr (hbatch.2 ⟨batchId, hof, hmode, hlisted, hunstarted⟩))

end TestStorage

-- == a recovery

/-- Reclaiming a stale run neither starts another job nor puts back one
that had ended. -/
theorem reclaimed_quiet_others (cron : CronLibrary) {run : JobId × Bool}
    (hlookup : s.jobs.lookup run.1 = some job)
    (hrun : run.2 = decide (job.maxAttempts ≤ job.attempts)) (hne : k ≠ run.1) :
    SamePlaces s (reclaimed cron s.clock s run) ∧
      (IsRunning (reclaimed cron s.clock s run) k → IsRunning s k) ∧
      (Active (reclaimed cron s.clock s run) k → Active s k) := by
  obtain ⟨id, exhausted⟩ := run
  obtain rfl : exhausted = decide (job.maxAttempts ≤ job.attempts) := hrun
  have hothers : ∀ {job' : Job} {t : TestStorage}, Rewrite s id job' t → ∀ p : Job → Bool,
      t.isJob k p = s.isJob k p := by
    intro job' t hr p
    unfold isJob
    rw [hr.lookup_ne hne]
  rcases reclaimed_by_fate hlookup cron with ⟨-, hsettles⟩ | ⟨-, s₁, hsettles, heq⟩
  · refine ⟨hsettles.rewrite.samePlaces hlookup (place_after s.clock job _), ?_, ?_⟩
    · intro hruns
      exact (hothers hsettles.rewrite (·.status = .running)).symm.trans hruns
    · intro hactive
      exact (hothers hsettles.rewrite unfinished).symm.trans hactive
  · rw [heq]
    have hside : SideFailures s₁ (applyPolicies s₁ id) s₁.clock (FailureTakes s₁ id) :=
      failureTakes_spec s₁ id s₁.clock
    refine ⟨(hsettles.rewrite.samePlaces hlookup rfl).trans hside.samePlaces, ?_, ?_⟩
    · intro hruns
      have hkept := (hside.isJob (fun job hjob => unfinished_iff.2 (.inr (.inl (by
        simpa using hjob)))) k).1 hruns
      unfold IsRunning
      rw [← hothers hsettles.rewrite]
      exact hkept.1
    · intro hactive
      unfold Active
      rw [← hothers hsettles.rewrite]
      exact (hside.active.1 hactive).1

/-- The same for several stale runs. -/
theorem foldl_reclaimed_quiet_others (cron : CronLibrary) (l : List (JobId × Bool)) :
    ∀ t : TestStorage, (∀ e ∈ l, ∃ job, t.jobs.lookup e.1 = some job ∧ job.status = .running ∧
      e.2 = decide (job.maxAttempts ≤ job.attempts)) → (l.map (·.1)).Nodup →
    k ∉ l.map (·.1) →
    SamePlaces t (l.foldl (reclaimed cron t.clock) t) ∧
      (IsRunning (l.foldl (reclaimed cron t.clock) t) k → IsRunning t k) ∧
      (Active (l.foldl (reclaimed cron t.clock) t) k → Active t k) := by
  induction l with
  | nil => exact fun t _ _ _ => ⟨.refl t, id, id⟩
  | cons e l ih =>
      intro t hl hnd hk
      rw [List.map_cons, List.nodup_cons] at hnd
      rw [List.map_cons, List.mem_cons, not_or] at hk
      obtain ⟨job, hlookup, -, he⟩ := hl e (List.mem_cons_self ..)
      obtain ⟨hplaces, hruns, hactive⟩ := reclaimed_quiet_others cron hlookup he hk.1
      have hclock : (reclaimed cron t.clock t e).clock = t.clock := hplaces.rest.clock
      obtain ⟨hplaces', hruns', hactive'⟩ := ih (reclaimed cron t.clock t e) (fun e' he' => by
        obtain ⟨job', hlookup', hrunning, hexhausted⟩ := hl e' (List.mem_cons_of_mem _ he')
        have hne : e.1 ≠ e'.1 := fun heq => hnd.1 (heq ▸ List.mem_map_of_mem he')
        have hunstarted : unstarted job' = false := by simp [unstarted, hrunning]
        obtain ⟨hkept, -⟩ := foldl_reclaimed_kept cron hunstarted [e] t hlookup' (by
          intro e₀ he₀
          obtain rfl := List.mem_singleton.1 he₀
          exact ⟨by rw [hlookup]; rfl, hne⟩)
        exact ⟨job', hkept, hrunning, hexhausted⟩) hnd.2 hk.2
      rw [hclock] at hplaces' hruns' hactive'
      exact ⟨hplaces.trans hplaces', hruns ∘ hruns', hactive ∘ hactive'⟩

/-- A recovery that buries `root` leaves none of its mates active, those
that run apart. -/
theorem requeueStaleJobs_stops {cron : CronLibrary} {queueName : Option String} (hk : s.Keyed)
    (hdies : Dies cron s queueName root) (hmate : s.WorkflowMate root k ∨ s.BatchMate root k)
    (hruns : ¬ IsRunning s k) : ¬ Active (requeueStaleJobs cron s queueName).2 k := by
  rw [requeueStaleJobs_snd hk]
  obtain ⟨job, hlookup, hstale, hfate⟩ := hdies
  have hlisted : (root, decide (job.maxAttempts ≤ job.attempts)) ∈ staleRuns s queueName :=
    (Hammerwork.mem_staleRuns hk).2 ⟨job, hlookup, hstale, rfl⟩
  obtain ⟨before, after, hsplit⟩ := List.append_of_mem hlisted
  have hnotk : ∀ e ∈ staleRuns s queueName, e.1 ≠ k := by
    intro e he heq
    obtain ⟨job, hlookup, hstale, -⟩ := (Hammerwork.mem_staleRuns hk).1 he
    exact hruns (isJob_iff.2 ⟨job, heq ▸ hlookup, by simpa using running_of_isStale hstale⟩)
  have hnd := nodup_staleRuns hk queueName
  have hrest := hsplit.trans (List.append_assoc before [_] after).symm
  -- the runs before `root` leave it, and its mates, as they are
  obtain ⟨_, hstored, -, -, hkept, hregisters⟩ :=
    staleRuns_kept cron hk hsplit (List.mem_cons_self ..)
  obtain rfl := Option.some.inj (hlookup.symm.trans hstored)
  rw [hsplit] at hnotk hnd
  rw [List.map_append, List.map_cons, List.nodup_append] at hnd
  obtain ⟨hndbefore, hndafter, -⟩ := hnd
  have hbefore : ∀ e ∈ before, ∃ job, s.jobs.lookup e.1 = some job ∧ job.status = .running ∧
      e.2 = decide (job.maxAttempts ≤ job.attempts) := by
    intro e he
    obtain ⟨job, hlookup, hstale, he⟩ :=
      (Hammerwork.mem_staleRuns hk).1 (hsplit ▸ List.mem_append_left _ he)
    exact ⟨job, hlookup, running_of_isStale hstale, he⟩
  obtain ⟨hplaces, hquiet, -⟩ := foldl_reclaimed_quiet_others (k := k) cron before s hbefore
    hndbefore fun hmem => by
      obtain ⟨e, he, heq⟩ := List.mem_map.1 hmem
      exact hnotk e (List.mem_append_left _ he) heq
  -- and the runs after it are still to be reclaimed
  have hafter : ∀ e ∈ after, ∃ job', (reclaimed cron s.clock
      (before.foldl (reclaimed cron s.clock) s)
      (root, decide (job.maxAttempts ≤ job.attempts))).jobs.lookup e.1 = some job' ∧
        job'.status = .running ∧ e.2 = decide (job'.maxAttempts ≤ job'.attempts) := by
    intro e he
    obtain ⟨job', -, hstale', hexhausted, hkept', -⟩ := staleRuns_kept cron hk hrest he
    rw [List.foldl_append] at hkept'
    exact ⟨job', hkept', running_of_isStale hstale', hexhausted⟩
  rw [hsplit, List.foldl_append, List.foldl_cons]
  generalize before.foldl (reclaimed cron s.clock) s = u at hkept hregisters hplaces hquiet hafter
  have hclock : u.clock = s.clock := hregisters.clock
  rw [← hclock] at hafter hfate ⊢
  have hmate' : u.WorkflowMate root k ∨ u.BatchMate root k := by
    unfold WorkflowMate BatchMate at hmate ⊢
    rwa [hplaces.workflowOf, hplaces.batchId, hplaces.rest.batches, hplaces.rest.batchJobs]
  obtain ⟨hstopped, hclock'⟩ : ¬ Active (reclaimed cron u.clock u
      (root, decide (job.maxAttempts ≤ job.attempts))) k ∧
      (reclaimed cron u.clock u (root, decide (job.maxAttempts ≤ job.attempts))).clock
        = u.clock := by
    rcases reclaimed_by_fate hkept cron with ⟨hnot, -⟩ | ⟨-, s₁, hsettles, heq⟩
    · exact absurd hfate hnot
    · rw [heq]
      have hside : SideFailures s₁ (applyPolicies s₁ root) s₁.clock (FailureTakes s₁ root) :=
        failureTakes_spec s₁ root s₁.clock
      exact ⟨applyPolicies_stops (hplaces.keyed hk) hkept hsettles.rewrite rfl rfl hmate'
        fun h => hruns (hquiet h), hside.rest.clock.trans hsettles.rewrite.rest.clock⟩
  generalize reclaimed cron u.clock u (root, decide (job.maxAttempts ≤ job.attempts)) = v
    at hafter hstopped hclock' ⊢
  obtain ⟨-, -, hactive⟩ := foldl_reclaimed_quiet_others (k := k) cron after v hafter
    (List.nodup_cons.1 hndafter).2 fun hmem => by
      obtain ⟨e, he, heq⟩ := List.mem_map.1 hmem
      exact hnotk e (List.mem_append_right _ (List.mem_cons_of_mem _ he)) heq
  rw [hclock'] at hactive
  exact fun h => hstopped (hactive h)

-- == one call

/-- A call that applies the policies of `root` leaves none of its mates
active, those that run apart. -/
theorem Op.stops (hk : s.Keyed) (h : op.Stops env s root k) (hne : k ≠ root)
    (hruns : ¬ IsRunning s k) : ¬ Active (op.apply env s).2 k := by
  have hterminal : op.Terminal s root → op.verdict (s.jobs.lookup root) = .fails →
      s.WorkflowMate root k ∨ s.BatchMate root k → ¬ Active (op.apply env s).2 k := by
    intro hop hverdict hmate
    have hdoes : Does s root (op.verdict (s.jobs.lookup root)) (op.apply env s).2 := Op.does hop
    rw [hverdict] at hdoes
    generalize (op.apply env s).2 = s' at hdoes
    cases hdoes with
    | fails hlookup _ hr hplace hended =>
        refine applyPolicies_stops hk hlookup hr hplace ?_ hmate hruns
        rcases hended with h | h | h <;> simp [unfinished, h]
  rcases h with ⟨hends, hmate⟩ | ⟨rfl, workflow, hof, hpolicy, hlisted⟩
  · cases op
    case failJob id error =>
      obtain ⟨rfl, hallowed⟩ := hends
      exact hterminal (.failJob id error) (if_pos hallowed) hmate
    case markJobDead id error =>
      obtain ⟨rfl, hallowed⟩ := hends
      exact hterminal (.markJobDead id error) (if_pos hallowed) hmate
    case markJobTimedOut id error =>
      obtain ⟨rfl, hallowed⟩ := hends
      exact hterminal (.markJobTimedOut id error) (if_pos hallowed) hmate
    case finishJobRun run outcome wall =>
      obtain ⟨rfl, ⟨status, error, hends⟩, job, hcur, hnone⟩ := hends
      unfold Op.apply
      rw [reply_snd]
      have hspec := finishJobRun_spec env.cron s run outcome wall
      generalize TestQueue.finishJobRun env.cron s run outcome wall = r at hspec ⊢
      cases hspec with
      | stale hstale =>
          rw [runIsCurrent_eq_true.2 ⟨job, hcur⟩] at hstale
          cases hstale
      | completed | rerun | refused | retried => cases hends
      | ended hends' hcur' _ hr =>
          refine applyPolicies_stops hk hcur'.lookup hr rfl ?_ hmate hruns
          cases hends' <;> rfl
      | endedRerun _ hcur' hnext _ =>
          obtain rfl := Option.some.inj (hcur.lookup.symm.trans hcur'.lookup)
          rw [hnone] at hnext
          cases hnext
    case requeueStaleJobs queueName =>
      unfold Op.apply
      rw [reply_snd]
      exact requeueStaleJobs_stops hk hends hmate hruns
    all_goals cases hends
  · unfold Op.apply
    rw [reply_snd]
    have hside : SideFailures s (commit s (TestQueue.failJobDependencies s root)).2 s.clock
        (PolicyFails s root) := applyWorkflowFailure_spec s root s.clock
    rw [hside.active]
    intro h
    exact h.2 (.inl ⟨workflow, hof, hpolicy, hlisted, hne, unstarted_of_active h.1 hruns⟩)

/-- A step makes a job active only if it is handed in, or put back by
hand. -/
theorem Step.inactive {e : Event} (h : Step env s e s') (hk : s.Keyed) (hco : s.Coherent)
    (hfresh : e.Fresh s) (hnew : ∀ given ∈ e.enqueued, given.id ≠ k)
    (hhand : ¬ e.ByOperator k) (hinactive : ¬ Active s k) : ¬ Active s' k := by
  intro hactive
  obtain ⟨job', hlookup', hjob'⟩ := isJob_iff.1 hactive
  rcases h.stored_back hk hlookup' with hstored | ⟨given, hgiven, hid⟩
  · obtain ⟨job, hlookup⟩ := Option.isSome_iff_exists.1 hstored
    have hidle : ∀ status : JobStatus, job.status = status → status ≠ .pending ∧
        status ≠ .running ∧ status ≠ .retrying := by
      intro status hstatus
      have hnot : unfinished job = false := by
        rw [← Bool.not_eq_true]
        exact fun hjob => hinactive (isJob_iff.2 ⟨job, hlookup, hjob⟩)
      subst hstatus
      simpa [unfinished, and_assoc] using hnot
    obtain ⟨hnotpending, hnotrunning, hnotretrying⟩ := hidle job.status rfl
    cases h with
    | rehash hrehash =>
        rw [← hrehash.jobs.lookup_congr, hlookup] at hlookup'
        obtain rfl := Option.some.inj hlookup'
        exact hinactive (isJob_iff.2 ⟨job, hlookup, hjob'⟩)
    | call op =>
        have hedge := Op.statusEdge hk hco hfresh hlookup hlookup' fun henable => by
          rw [henable.1] at hhand
          exact hhand rfl
        rcases hedge with hsame | hedge | ⟨hpending, hrevives⟩
        · unfold unfinished at hjob'
          rw [hsame] at hjob'
          simp [hnotpending, hnotrunning, hnotretrying] at hjob'
        · rcases unfinished_iff.1 hjob' with hst | hst | hst <;> rw [hst] at hedge
          · cases op <;> simp only [DocumentedEdge, Op.HandsBack] at hedge
            case retryJob | retryDeadJob | rescheduleCronJob | enableRecurringJob
                | restoreArchivedJob => exact hhand hedge.1
            case releaseJobRun | finishJobRun | completeJobRunWithChildren =>
              exact hnotrunning hedge.2
            case requeueStaleJobs => exact hnotrunning hedge
          · exact hnotpending hedge.2
          · exact hedge
        · cases op <;> simp only [Op.Revives] at hrevives
          case retryJob | rescheduleCronJob | enableRecurringJob => exact hhand hrevives.1
  · exact hnew given hgiven hid

-- == every run

/-- A job that is handed out was pending. -/
theorem HandsOut.active {n : Nat} {r : Run (Step env) n} {i : Nat} (h : HandsOut env r i job)
    (hk : (r.state i).Keyed) (hco : (r.state i).Coherent) : Active (r.state i) job.id := by
  obtain ⟨queueName, weights, lease, maxJobs, jobs, hev, hreply, hmem⟩ := h
  obtain ⟨-, -, jobs', hjobs', hids, -⟩ := dequeue_writes env hk queueName weights lease maxJobs
  obtain ⟨s', hdeq⟩ : ∃ s', dequeue env (r.state i) queueName weights lease maxJobs
      = (.ok jobs', s') := ⟨_, Prod.ext hjobs' rfl⟩
  rw [hev] at hreply
  simp only [Event.reply, Op.apply, hdeq, Result.reply, Option.some.injEq,
    Reply.jobs.injEq] at hreply
  have hclaimed : job.id ∈ claimedIds env (r.state i) queueName weights maxJobs := by
    rw [← hids]
    exact List.mem_map_of_mem (hreply ▸ hmem)
  obtain ⟨found, hfound, hpending, -⟩ := claimed_pending hk hco hclaimed
  exact isJob_iff.2 ⟨found, hfound, unfinished_iff.2 (.inl hpending)⟩

/-- Once the failure policies of `root` were applied, no other job of its
fail-fast workflow or batch that was not running is handed out, unless
an operator puts it back. -/
theorem fail_fast_stops {n : Nat} (r : Run (Step env) n) {clock : DateTime}
    (h0 : r.state 0 = TestStorage.new clock) (hnew : NewIds r) {i : Nat} (hi : i < n)
    (hop : r.event i = .call op) (hstops : op.Stops env (r.state i) root k) (hne : k ≠ root)
    (hlookup : (r.state i).jobs.lookup k = some job) (hruns : job.status ≠ .running)
    (hhand : ∀ j, i < j → j < n → ¬ (r.event j).ByOperator k) :
    ∀ j, i < j → j < n → ∀ handed, HandsOut env r j handed → handed.id ≠ k := by
  have hkeyed := run_keyed r h0
  have hfresh := hnew.fresh h0
  have hcoherent := run_coherent r h0 hfresh
  have hnotin : ∀ j, i ≤ j → j < n → ∀ given ∈ (r.event j).enqueued, given.id ≠ k := by
    intro j hij hj given hgiven hid
    obtain ⟨m, hm, first, hfirst, hidfirst⟩ := stored_handedIn h0 i (by omega) k job hlookup
    exact hnew.across m j (by omega) hj first hfirst given hgiven (hidfirst.trans hid.symm)
  have hstart : ¬ Active (r.state (i + 1)) k := by
    have hstep := r.next i hi
    rw [hop] at hstep
    have hnext : r.state (i + 1) = (op.apply env (r.state i)).2 := by
      generalize r.state (i + 1) = t at hstep
      cases hstep
      rfl
    rw [hnext]
    refine Op.stops (hkeyed i (by omega)) hstops hne fun hrunning => ?_
    obtain ⟨found, hfound, hst⟩ := isJob_iff.1 hrunning
    obtain rfl := Option.some.inj (hlookup.symm.trans hfound)
    exact hruns (by simpa using hst)
  intro j hij hj handed hout hid
  refine r.stable (P := fun s => ¬ Active s k) hstart (fun m hm hmn hstep hinactive => ?_) j hij
    (by omega) (hid ▸ hout.active (hkeyed j (by omega)) (hcoherent j (by omega)))
  exact hstep.inactive (hkeyed m (by omega)) (hcoherent m (by omega)) (hfresh m hmn)
    (hnotin m (by omega) hmn) (hhand m (by omega) hmn) hinactive

-- == two jobs

/-- Two jobs of a fail-fast workflow. -/
def eagerWorkflow : JobGroup :=
  ((JobGroup.new 7 0 "onboarding").addJob parentJob).addJob (Job.new 3 0 "mail" .null)

/-- The first fails, and then somebody asks for jobs. -/
def siblingStops : List Op :=
  [.enqueueWorkflow eagerWorkflow, .failJob 1 "no mailbox", .dequeue "mail" none 0 1]

/-- Both run. The first dies, the second reports that it is to be
retried, and is handed out again. -/
def siblingRetries : List Op :=
  [.enqueueWorkflow eagerWorkflow, .dequeue "mail" none 0 1, .dequeue "mail" none 0 1,
    .finishJobRun (parentJob.claimed 0) (.dead "no mailbox") 0,
    .finishJobRun ((Job.new 3 0 "mail" .null).claimed 0) (.retry 0 "busy" false) 0,
    .dequeue "mail" none 0 1]

/-- The second is not handed out. -/
theorem fail_fast_stops_sibling : ¬ ∃ handed,
    HandsOut plainEnv (Op.trace plainEnv siblingStops (TestStorage.new 0)) 2 handed ∧
      handed.id = 3 := by
  have hpending : ((Op.trace plainEnv siblingStops (TestStorage.new 0)).state 1).isJob 3
      (·.status = .pending) = true := by decide +kernel
  obtain ⟨job, hlookup, hst⟩ := isJob_iff.1 hpending
  have hids : NewIds (Op.trace plainEnv siblingStops (TestStorage.new 0)) := by
    refine newIds_of_first (by decide) fun i hi hn => ?_
    match i, hi, hn with
    | 1, _, _ | 2, _, _ => rfl
  have hmate : ((Op.trace plainEnv siblingStops (TestStorage.new 0)).state 1).WorkflowMate 1
      3 := by
    have hlists : (((Op.trace plainEnv siblingStops (TestStorage.new 0)).state 1).workflowOf
        1).any (fun workflow => workflow.failurePolicy = .failFast &&
          decide (3 ∈ workflow.jobs.map (·.id))) = true := by decide +kernel
    obtain ⟨workflow, hof, hyes⟩ := (Option.any_eq_true ..).1 hlists
    simp only [Bool.and_eq_true, decide_eq_true_eq] at hyes
    exact ⟨workflow, hof, hyes.1, hyes.2⟩
  intro ⟨handed, hout, hid⟩
  refine fail_fast_stops (Op.trace plainEnv siblingStops (TestStorage.new 0)) rfl hids
    (i := 1) (by decide) rfl (.inl ⟨⟨rfl, by decide +kernel⟩, .inl hmate⟩) (by decide) hlookup
    (by simp [of_decide_eq_true hst]) (fun j hj hn => ?_) 2 (by decide) (by decide) handed hout
    hid
  match j, hj, hn with
  | 2, _, _ => exact id

/-- A sibling that runs when the policy is applied may come back. -/
theorem running_sibling_comes_back :
    ¬ ∀ (n : Nat) (r : Run (Step plainEnv) n) (clock : DateTime),
      r.state 0 = TestStorage.new clock → NewIds r → ∀ i < n, ∀ (op : Op) (root k : JobId),
      r.event i = .call op → op.Stops plainEnv (r.state i) root k → k ≠ root →
      (∀ j, i < j → j < n → ¬ (r.event j).ByOperator k) →
      ∀ j, i < j → j < n → ∀ handed, HandsOut plainEnv r j handed → handed.id ≠ k := by
  intro h
  have hids : NewIds (Op.trace plainEnv siblingRetries (TestStorage.new 0)) := by
    refine newIds_of_first (by decide) fun i hi hn => ?_
    match i, hi, hn with
    | 1, _, _ | 2, _, _ | 3, _, _ | 4, _, _ | 5, _, _ => rfl
  have hmate : ((Op.trace plainEnv siblingRetries (TestStorage.new 0)).state 3).WorkflowMate 1
      3 := by
    have hlists : (((Op.trace plainEnv siblingRetries (TestStorage.new 0)).state 3).workflowOf
        1).any (fun workflow => workflow.failurePolicy = .failFast &&
          decide (3 ∈ workflow.jobs.map (·.id))) = true := by decide +kernel
    obtain ⟨workflow, hof, hyes⟩ := (Option.any_eq_true ..).1 hlists
    simp only [Bool.and_eq_true, decide_eq_true_eq] at hyes
    exact ⟨workflow, hof, hyes.1, hyes.2⟩
  have hcurrent : runIsCurrent ((Op.trace plainEnv siblingRetries (TestStorage.new 0)).state 3)
      (parentJob.claimed 0) = true := by decide +kernel
  obtain ⟨job, hcur⟩ := runIsCurrent_eq_true.1 hcurrent
  have honce : rerunAt plainEnv.cron
      ((Op.trace plainEnv siblingRetries (TestStorage.new 0)).state 3) job
      (.dead "no mailbox") = none := by
    have hplain : ((Op.trace plainEnv siblingRetries (TestStorage.new 0)).state 3).isJob 1
        (!·.recurring) = true := by decide +kernel
    obtain ⟨found, hfound, hnot⟩ := isJob_iff.1 hplain
    obtain rfl := Option.some.inj (hcur.lookup.symm.trans hfound)
    unfold rerunAt
    rw [show job.recurring = false by simpa using hnot]
    rfl
  have hkeyed : ((Op.trace plainEnv siblingRetries (TestStorage.new 0)).state 5).Keyed :=
    run_keyed (Op.trace plainEnv siblingRetries (TestStorage.new 0)) rfl 5 (by decide)
  obtain ⟨handed, hout, hid⟩ := handsOut_of_claimed (i := 5) (k := 3) hkeyed rfl
    (by decide +kernel)
  refine h 6 (Op.trace plainEnv siblingRetries (TestStorage.new 0)) 0 rfl hids 3 (by decide) _ 1
    3 rfl (.inl ⟨⟨rfl, ⟨_, _, .dead "no mailbox"⟩, job, hcur, honce⟩, .inl hmate⟩) (by decide)
    (fun j hj hn => ?_) 5 (by decide) (by decide) handed hout hid
  match j, hj, hn with
  | 4, _, _ | 5, _, _ => exact id

end Hammerwork
