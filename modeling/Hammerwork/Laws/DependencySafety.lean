/-
No job runs before its dependencies.

A job's dependency status is a cached bit: `dequeue` reads only that,
and it says `Satisfied` long after the dependencies were looked at. The
law ties it to the past: a job with dependencies that is handed out has
been `Satisfied` since some step by which every one of them had
completed, and at no step in between was it anything else.

# The two halves

One write can make a job `Satisfied` in four ways (settled on arrival,
released, re-evaluated by `retryJob` or by `restoreArchivedJob`), and in
each the dependencies have completed at that very write
(`Write.satisfied`). A call is a chain of writes, though, and the claim
is about the states between calls. So the second half is that
completion does not come and go within a call: the writes of a call
either complete nothing (`WriteKind.Completes`), and what is completed
at the write was so before the call, or undo no completion
(`WriteKind.Reopens`), and it still is after it. The one call that does
both is `completeJobRunWithChildren`, which does one and then the other.
-/
import Hammerwork.Proofs.Calls

namespace Hammerwork

open TestStorage TestQueue

variable {s s' : TestStorage} {env : Env} {k d : JobId} {job job' : Job} {w : WriteKind}
variable {deps : List JobId}

/-- The job `k` is stored with dependencies `deps`, satisfied. -/
def SatisfiedAs (s : TestStorage) (k : JobId) (deps : List JobId) : Prop :=
  ∃ job, s.jobs.lookup k = some job ∧ job.dependsOn = deps ∧ job.dependencyStatus = .satisfied

/-- A job handed in with dependencies waits on them. -/
def Job.Waits (job : Job) : Prop := job.dependsOn ≠ [] → job.dependencyStatus = .waiting

-- == how a job is satisfied

theorem dependencyCompleted_iff :
    s.dependencyCompleted d = true ↔ ∃ job, s.jobs.lookup d = some job ∧ completedJob job = true :=
  isJob_iff

theorem completedJob_of_statusWithArchived (h : s.statusWithArchived d = some .completed) :
    s.dependencyCompleted d = true := by
  unfold statusWithArchived at h
  obtain ⟨job, hlookup, hst⟩ := Option.map_eq_some_iff.1 h
  refine dependencyCompleted_iff.2 ⟨job, hlookup, ?_⟩
  unfold completedJob
  split at hst
  · next harch =>
    rw [harch]
    split at hst
    · next hc => exact hc
    · split at hst
      · cases hst
      · split at hst <;> cases hst
  · rw [hst]

/-- A parent judged completed on arrival has completed, if no job is
handed in completed. -/
theorem completed_of_arrivalState {jobs : List Job}
    (hnew : ∀ job ∈ jobs, completedJob job = false)
    (h : s.arrivalState jobs d = .completed) : s.dependencyCompleted d = true := by
  unfold arrivalState at h
  split at h
  · next job hfind =>
    have hmem := List.mem_reverse.1 (List.mem_of_find?_eq_some hfind)
    have hnot := hnew job hmem
    unfold stateOfStatus at h
    unfold completedJob at hnot
    cases hst : job.status <;> rw [hst] at h hnot <;>
      first | (cases h; done) | cases hnot
  · cases hlookup : s.jobs.lookup d with
    | none => rw [hlookup] at h; cases h
    | some job =>
        rw [hlookup] at h
        refine dependencyCompleted_iff.2 ⟨job, hlookup, ?_⟩
        unfold completedJob
        simp only [Option.map_some, Option.getD_some, parentState] at h
        cases hst : job.status <;> simp only [hst] at h ⊢
        case archived =>
          split at h
          · next hc => exact hc
          · split at h <;> cases h
        case failed | dead | timedOut => split at h <;> cases h
        all_goals cases h

/-- The write at which a job becomes satisfied finds its dependencies
completed. -/
theorem Write.satisfied (h : Write s w s') (hw : w ≠ .delete) (hne : deps ≠ [])
    (hnew : ∀ given, w = .insert given → ∀ job ∈ given,
      completedJob job = false ∧ (job.id = k → job.Waits))
    (hs : ¬ SatisfiedAs s k deps) (hs' : SatisfiedAs s' k deps) :
    ∀ d ∈ deps, s.dependencyCompleted d = true := by
  obtain ⟨job', hlookup, rfl, hsat⟩ := hs'
  rcases h.lookup_cases hlookup with hold | ⟨d, job, rfl, hold, hchange⟩ |
    ⟨given, stored, rfl, harr, -, hmem, hid⟩
  · exact absurd ⟨job', hold, rfl, hsat⟩ hs
  · -- a deed that does not touch the dependency status satisfied nobody
    have hdeps := hchange.sameShape.dependsOn
    have hkept : job'.dependencyStatus = job.dependencyStatus → ∀ x ∈ job'.dependsOn,
        s.dependencyCompleted x = true :=
      fun hsame => absurd ⟨job, hold, hdeps.symm, hsame ▸ hsat⟩ hs
    have hreevaluated : ∀ action dep, reevaluated s job action = .ok dep →
        job'.dependencyStatus = dep.getD job.dependencyStatus → ∀ x ∈ job'.dependsOn,
          s.dependencyCompleted x = true := by
      intro action dep hdep hst
      rcases reevaluated_ok hdep with ⟨hnil, -⟩ | ⟨-, status, rfl, ⟨-, hsat' | hall⟩ | ⟨rfl, -⟩⟩
      · exact absurd (hdeps.trans hnil) hne
      · exact absurd ⟨job, hold, hdeps.symm, hsat'⟩ hs
      · intro x hx
        exact completedJob_of_statusWithArchived (hall x (hdeps ▸ hx))
      · rw [hst] at hsat
        cases hsat
    cases hchange with
    | retry _ dep _ hdep => exact hreevaluated _ dep hdep rfl
    | restore dep _ hdep => exact hreevaluated _ dep hdep rfl
    | resolve _ hready =>
        intro x hx
        exact hready x (mem_dependenciesOf.2 (.inl (by rw [hold]; exact hx)))
    | fallout | cancel =>
        unfold sideFailed at hsat
        dsimp only at hsat
        split at hsat
        · cases hsat
        · exact hkept (by unfold sideFailed; simp_all)
    | _ => exact hkept rfl
  · obtain ⟨job, hjob, harrives⟩ := mem_of_forall₂ harr.each hmem
    have hdeps := harrives.keeps.dependsOn
    have hwaits : job.dependencyStatus = .waiting :=
      (hnew given rfl job hjob).2 (harrives.keeps.id.symm.trans hid)
        fun hnil => hne (hdeps.trans hnil)
    cases harrives.settled with
    | unchanged _ hdep =>
        rw [hdep, hwaits] at hsat
        cases hsat
    | satisfied _ _ hall =>
        intro x hx
        exact completed_of_arrivalState (fun job hjob => (hnew given rfl job hjob).1)
          (hall x (hdeps ▸ hx))
    | failed _ _ _ _ _ hfail =>
        rw [hfail] at hsat
        cases hsat

-- == completion in a call

/-- The writes that can complete a job (or archive it). -/
def WriteKind.Completes : WriteKind → Prop
  | .deed (.complete _) | .deed .archive => True
  | _ => False

/-- The writes that can take a completed job back. -/
def WriteKind.Reopens (k : JobId) : WriteKind → Prop
  | .insert given => ∃ job ∈ given, job.id = k
  | .delete => True
  | .deed (.claim id) | .deed (.restore id) | .deed (.enable id) => id = k
  | _ => False

theorem status_of_completedJob (h : completedJob job = true) :
    job.status = .completed ∨ job.status = .archived := by
  unfold completedJob at h
  cases hst : job.status <;> rw [hst] at h <;> first | (cases h; done) | simp

theorem completedJob_congr (hst : job'.status = job.status)
    (hc : job'.completedAt = job.completedAt) : completedJob job' = completedJob job := by
  unfold completedJob
  rw [hst, hc]

theorem Change.not_completes {d : Deed} (h : Change s d k job job')
    (hd : ¬ (WriteKind.deed d).Completes) (hjob : completedJob job' = true) :
    completedJob job = true := by
  cases h with
  | complete => exact absurd trivial hd
  | archive => exact absurd trivial hd
  | _ => first | exact hjob | cases hjob

theorem Change.not_reopens {d : Deed} (h : Change s d k job job')
    (hd : ¬ (WriteKind.deed d).Reopens k) (hjob : completedJob job = true) :
    completedJob job' = true := by
  have hst := status_of_completedJob hjob
  have hallowed : ∀ {transition : JobTransition}, transition.isAllowedFrom job.status ≠ true := by
    intro transition
    rcases hst with hst | hst <;> rw [hst] <;> cases transition <;> decide
  have hrunning : job.status ≠ .running := by
    rcases hst with hst | hst <;> rw [hst] <;> decide
  have hun : unfinished job ≠ true := by
    unfold unfinished
    rcases hst with hst | hst <;> rw [hst] <;> decide
  cases h with
  | claim | restore | enable | keepRunning => exact absurd rfl hd
  | complete => rfl
  | disable | runError | resolve => exact hjob
  | fallout _ hun' => exact absurd (unfinished_of_unstarted hun') hun
  | cancel _ hun' => exact absurd hun' hun
  | archive hage =>
      unfold completedJob at hjob ⊢
      unfold finishedAge at hage
      dsimp only
      rcases hst with hst | hst <;> rw [hst] at hage hjob
      · simpa using hage
      · exact hjob
  | start hrun | release hrun | requeue hrun | bury hrun => exact absurd hrun hrunning
  | rerun _ hrun | rerunEnded _ _ _ hrun | rerunBuried _ hrun => exact absurd hrun hrunning
  | fail _ h | dead _ h | timedOut _ h | reschedule _ h | retryDead h => exact absurd h hallowed
  | retry _ _ h => exact absurd h hallowed

/-- A write that completes nothing finds completed what it leaves so. -/
theorem Write.not_completes (h : Write s w s') (hw : ¬ w.Completes)
    (hnew : ∀ given, w = .insert given → ∀ job ∈ given, completedJob job = false)
    (hd : s'.dependencyCompleted d = true) : s.dependencyCompleted d = true := by
  obtain ⟨job', hlookup, hjob⟩ := dependencyCompleted_iff.1 hd
  refine dependencyCompleted_iff.2 ?_
  rcases h.lookup_cases hlookup with hold | ⟨deed, job, rfl, hold, hchange⟩ |
    ⟨given, stored, rfl, harr, -, hmem, hid⟩
  · exact ⟨job', hold, hjob⟩
  · exact ⟨job, hold, hchange.not_completes hw hjob⟩
  · obtain ⟨job, hgiven, harrives⟩ := mem_of_forall₂ harr.each hmem
    have hnot := hnew given rfl job hgiven
    have hsame : job'.status = job.status → False := fun hst => by
      rw [completedJob_congr hst harrives.keeps.completedAt, hnot] at hjob
      cases hjob
    cases harrives.settled with
    | unchanged hst => exact (hsame hst).elim
    | satisfied _ _ _ hst => exact (hsame hst).elim
    | failed _ _ _ _ hst =>
        rcases status_of_completedJob hjob with h | h <;> rw [hst] at h <;> cases h

/-- A write that takes nothing back leaves completed what it finds
so. -/
theorem Write.not_reopens (h : Write s w s') (hw : ¬ w.Reopens d)
    (hd : s.dependencyCompleted d = true) : s'.dependencyCompleted d = true := by
  obtain ⟨job, hlookup, hjob⟩ := dependencyCompleted_iff.1 hd
  refine dependencyCompleted_iff.2 ?_
  rcases h.lookup_fate hlookup with hsame | ⟨deed, job', rfl, hlookup', hchange⟩ |
    ⟨given, stored, job', rfl, harr, hmem, hid, -⟩ | ⟨rfl, -⟩
  · exact ⟨job, hsame, hjob⟩
  · exact ⟨job', hlookup', hchange.not_reopens hw hjob⟩
  · obtain ⟨job₀, hgiven, harrives⟩ := mem_of_forall₂ harr.each hmem
    exact absurd ⟨job₀, hgiven, harrives.keeps.id.symm.trans hid⟩ hw
  · exact absurd trivial hw

/-- What the writes allowed insert has not completed, and waits if it is
`k`. -/
def InsertsNew (k : JobId) (allowed : WriteKind → Prop) : Prop :=
  ∀ given, allowed (.insert given) → ∀ job ∈ given,
    completedJob job = false ∧ (job.id = k → job.Waits)

/-- In a chain that completes nothing, a job that becomes satisfied has
dependencies that had completed before. -/
theorem Writes.satisfied_before {allowed : WriteKind → Prop} (h : Writes allowed s s')
    (hdelete : ¬ allowed .delete) (hnew : InsertsNew k allowed)
    (hc : ∀ w, allowed w → ¬ w.Completes) (hne : deps ≠ [])
    (hs : ¬ SatisfiedAs s k deps) (hs' : SatisfiedAs s' k deps) :
    ∀ d ∈ deps, s.dependencyCompleted d = true := by
  obtain ⟨t, t', h₁, ⟨w, hw, hwrite⟩, -, ht, ht'⟩ :=
    Run.chain_rise (P := fun t => SatisfiedAs t k deps) h hs hs'
  intro d hd
  have hcompleted := hwrite.satisfied (fun heq => hdelete (heq ▸ hw)) hne
    (fun given heq => hnew given (heq ▸ hw)) ht ht' d hd
  refine Relation.ReflTransGen.head_induction_on h₁ hcompleted ?_
  rintro a c ⟨w, hw, hwrite⟩ - ih
  exact hwrite.not_completes (hc w hw)
    (fun given heq job hjob => (hnew given (heq ▸ hw) job hjob).1) ih

/-- In a chain that takes nothing back, they have completed
afterwards. -/
theorem Writes.satisfied_after {allowed : WriteKind → Prop} (h : Writes allowed s s')
    (hdelete : ¬ allowed .delete) (hnew : InsertsNew k allowed)
    (hr : ∀ w, allowed w → ∀ d, ¬ w.Reopens d) (hne : deps ≠ [])
    (hs : ¬ SatisfiedAs s k deps) (hs' : SatisfiedAs s' k deps) :
    ∀ d ∈ deps, s'.dependencyCompleted d = true := by
  obtain ⟨t, t', -, ⟨w, hw, hwrite⟩, h₂, ht, ht'⟩ :=
    Run.chain_rise (P := fun t => SatisfiedAs t k deps) h hs hs'
  intro d hd
  have hcompleted := hwrite.satisfied (fun heq => hdelete (heq ▸ hw)) hne
    (fun given heq => hnew given (heq ▸ hw)) ht ht' d hd
  replace h₂ : Writes allowed t' s' := h₂
  exact h₂.preserves (P := fun t => t.dependencyCompleted d = true)
    (fun _ w _ hw hwrite ih => hwrite.not_reopens (hr w hw d) ih)
    (hwrite.not_reopens (hr w hw d) hcompleted)

-- == steps

theorem Event.not_allows_delete {e : Event} (h : ¬ e.Deletes) : ¬ e.Allows env s .delete := by
  intro hw
  cases e with
  | rehash => cases hw
  | call op =>
      cases op <;> first
        | exact h trivial
        | simp only [Event.Allows, Op.Allows, FinishAllows, ReclaimAllows, reduceCtorEq,
            or_self, and_false, exists_false] at hw

/-- But for completing a run with children, a call completes nothing or
takes nothing back. -/
theorem Op.completes_or_reopens (env : Env) (s : TestStorage) (op : Op) :
    (∀ w, op.Allows env s w → ¬ w.Completes) ∨
      (∀ w, op.Allows env s w → ∀ d, ¬ w.Reopens d) ∨
      ∃ run children wall, op = .completeJobRunWithChildren run children wall := by
  have hfinish : ∀ {outcome id w}, FinishAllows outcome id w → ∀ d, ¬ w.Reopens d := by
    rintro outcome id w (rfl | rfl | rfl | rfl | ⟨-, rfl⟩ | ⟨-, rfl⟩ | rfl) d h <;> cases h
  cases op
  case completeJobRunWithChildren run children wall =>
    exact .inr (.inr ⟨run, children, wall, rfl⟩)
  case finishJobRun => exact .inr (.inl fun w hw => hfinish hw.2)
  case completeJob => exact .inr (.inl fun w hw d h => by
    rcases hw with rfl | rfl <;> cases h)
  case archiveJobs => exact .inr (.inl fun w hw d h => by
    cases hw; cases h)
  all_goals
    refine .inl fun w hw hc => ?_
    simp only [Op.Allows, ReclaimAllows] at hw
    grind [WriteKind.Completes]

/-- What a call inserts is new, if what it is handed is. -/
theorem Op.insertsNew {op : Op} (hnew : ∀ job ∈ op.enqueued, completedJob job = false ∧
    (job.id = k → job.Waits)) : InsertsNew k (op.Allows env s) := by
  intro given hw job' hjob'
  obtain ⟨job, hjob, hsame⟩ := Op.Allows.insert hw job' hjob'
  obtain ⟨hnot, hwaits⟩ := hnew job hjob
  refine ⟨(completedJob_congr hsame.status hsame.completedAt).trans hnot, fun hid hne => ?_⟩
  rw [hsame.dependencyStatus]
  exact hwaits (hsame.id ▸ hid) (hsame.dependsOn ▸ hne)

/-- The step at which a job becomes satisfied finds its dependencies
completed, or leaves them so. -/
theorem Step.satisfied {e : Event} (h : Step env s e s') (hk : s.Keyed) (hdel : ¬ e.Deletes)
    (hnew : ∀ job ∈ e.enqueued, completedJob job = false ∧ (job.id = k → job.Waits))
    (hne : deps ≠ []) (hs : ¬ SatisfiedAs s k deps) (hs' : SatisfiedAs s' k deps) :
    ∀ d ∈ deps, s.dependencyCompleted d = true ∨ s'.dependencyCompleted d = true := by
  have hw := h.writes hk
  have hdelete : ¬ e.Allows env s .delete := Event.not_allows_delete hdel
  cases h with
  | rehash h =>
      intro d hd
      refine .inl (hw.satisfied_before hdelete (fun given h => by cases h)
        (fun w hw => ?_) hne hs hs' d hd)
      cases hw
      exact id
  | call op =>
      have hinserts : InsertsNew k (op.Allows env s) := Op.insertsNew hnew
      rcases Op.completes_or_reopens env s op with hc | hr | ⟨run, children, wall, rfl⟩
      · exact fun d hd => .inl (hw.satisfied_before hdelete hinserts hc hne hs hs' d hd)
      · exact fun d hd => .inr (hw.satisfied_after hdelete hinserts hr hne hs hs' d hd)
      · -- first the children, which complete nothing, and then the run
        obtain ⟨u, h₁, h₂⟩ := completeJobRunWithChildren_phases env hk run children wall
        intro d hd
        by_cases hu : SatisfiedAs u k deps
        · refine .inl (h₁.satisfied_before (fun h => ?_) (fun given h => ?_) (fun w h hc => ?_)
            hne hs hu d hd)
          · rcases h.2 with ⟨_, _, h⟩ | h <;> cases h
          · exact hinserts given ⟨h.1, h.2.elim .inl fun h => (by cases h)⟩
          · rcases h.2 with ⟨_, _, rfl⟩ | rfl <;> cases hc
        · have heq : ((Op.completeJobRunWithChildren run children wall).apply env s).2
              = (completeJobRunWithChildren env s run children wall).2 := reply_snd _ _
          rw [heq] at hs' ⊢
          refine .inr (h₂.satisfied_after (fun h => ?_) (fun given h => ?_) (fun w h x hr => ?_)
            hne hu hs' d hd)
          · rcases h.2 with h | h | h | h | ⟨-, h⟩ | ⟨-, h⟩ | h <;> cases h
          · rcases h.2 with h | h | h | h | ⟨-, h⟩ | ⟨-, h⟩ | h <;> cases h
          · rcases h.2 with rfl | rfl | rfl | rfl | ⟨-, rfl⟩ | ⟨-, rfl⟩ | rfl <;> cases hr

-- == the law

/-- With dependencies, a job is never of dependency status `None`. -/
def Watched (k : JobId) (s : TestStorage) : Prop :=
  ∀ job, s.jobs.lookup k = some job → job.dependsOn ≠ [] → job.dependencyStatus ≠ .none

theorem Step.watched {e : Event} (h : Step env s e s') (hk : s.Keyed)
    (hnew : ∀ job ∈ e.enqueued, job.id = k → job.Waits) (hs : Watched k s) : Watched k s' := by
  have hreevaluated : ∀ {s : TestStorage} {job : Job} {action dep},
      reevaluated s job action = .ok dep → job.dependsOn ≠ [] →
        dep.getD job.dependencyStatus ≠ .none := by
    intro s job action dep hdep hne
    rcases reevaluated_ok hdep with ⟨hnil, -⟩ | ⟨-, status, rfl, ⟨rfl, -⟩ | ⟨rfl, -⟩⟩
    · exact absurd hnil hne
    · exact fun h => (by cases h)
    · exact fun h => (by cases h)
  have hrec := (h.writes hk).records
    (P := fun k' job => k' = k → job.dependsOn ≠ [] → job.dependencyStatus ≠ .none)
    (fun s d k' job job' _ _ hchange hjob heq hne => ?_)
    (fun s given stored job' hw harr hmem heq hne => ?_)
    (fun k' job hlookup heq => hs job (heq ▸ hlookup))
  · exact fun job hlookup => hrec k job hlookup rfl
  · rw [hchange.sameShape.dependsOn] at hne
    have hold := hjob heq hne
    cases hchange with
    | retry _ dep _ hdep => exact hreevaluated hdep hne
    | restore dep _ hdep => exact hreevaluated hdep hne
    | resolve | fallout | cancel =>
        first | unfold TestStorage.release | unfold sideFailed
        dsimp only
        split
        · decide
        · exact hold
    | _ => exact hold
  · obtain ⟨job₀, hgiven, harrives⟩ := mem_of_forall₂ harr.each hmem
    have hwaits : job₀.dependencyStatus = .waiting := by
      cases e with
      | rehash => cases hw
      | call op =>
          obtain ⟨job, hjob, hsame⟩ := Op.Allows.insert hw job₀ hgiven
          rw [hsame.dependencyStatus]
          refine hnew job hjob ?_ fun hnil => hne ?_
          · rw [← heq, harrives.keeps.id, hsame.id]
          · rw [harrives.keeps.dependsOn, hsame.dependsOn, hnil]
    cases harrives.settled with
    | unchanged _ hdep => rw [hdep, hwaits]; decide
    | satisfied _ _ _ _ hdep => rw [hdep]; decide
    | failed _ _ _ _ _ hdep => rw [hdep]; decide

/-- Step `i` of a run hands out `job`. -/
def HandsOut (env : Env) {n : Nat} (r : Run (Step env) n) (i : Nat) (job : Job) : Prop :=
  ∃ queueName weights lease maxJobs jobs,
    r.event i = .call (.dequeue queueName weights lease maxJobs) ∧
    (r.event i).reply env (r.state i) = some (.jobs jobs) ∧ job ∈ jobs

theorem HandsOut.handedOut {n : Nat} {r : Run (Step env) n} {i : Nat}
    (h : HandsOut env r i job) (hk : (r.state i).Keyed) : HandedOut (r.state i) job := by
  obtain ⟨queueName, weights, lease, maxJobs, jobs, hev, hreply, hmem⟩ := h
  obtain ⟨-, -, jobs', hjobs', -, hout⟩ := dequeue_writes env hk queueName weights lease
    maxJobs
  obtain ⟨s', hdeq⟩ : ∃ s', dequeue env (r.state i) queueName weights lease maxJobs
      = (.ok jobs', s') := ⟨_, Prod.ext hjobs' rfl⟩
  rw [hev] at hreply
  simp only [Event.reply, Op.apply, hdeq, Result.reply, Option.some.injEq,
    Reply.jobs.injEq] at hreply
  exact hout job (hreply ▸ hmem)

/-- A dequeue hands out the jobs it claims. -/
theorem handsOut_of_claimed {n : Nat} {r : Run (Step env) n} {i : Nat} {queueName : String}
    {weights : Option PriorityWeights} {lease : Duration} {maxJobs : Nat} {k : JobId}
    (hk : (r.state i).Keyed)
    (hev : r.event i = .call (.dequeue queueName weights lease maxJobs))
    (hk' : k ∈ claimedIds env (r.state i) queueName weights maxJobs) :
    ∃ job, HandsOut env r i job ∧ job.id = k := by
  obtain ⟨-, -, jobs, hjobs, hids, -⟩ := dequeue_writes env hk queueName weights lease
    maxJobs
  obtain ⟨s', hdeq⟩ : ∃ s', dequeue env (r.state i) queueName weights lease maxJobs
      = (.ok jobs, s') := ⟨_, Prod.ext hjobs rfl⟩
  rw [← hids] at hk'
  obtain ⟨job, hjob, rfl⟩ := List.mem_map.1 hk'
  refine ⟨job, ⟨queueName, weights, lease, maxJobs, jobs, hev, ?_, hjob⟩, rfl⟩
  rw [hev]
  simp only [Event.reply, Op.apply, hdeq, Result.reply]

-- == on two jobs

/-- A job completes, and one that depends on it is handed out. -/
def dependentRuns : List Op :=
  [.enqueue parentJob, .enqueue dependentJob, .dequeue "mail" none 0 1,
    .finishJobRun (parentJob.claimed 0) .completed 0, .dequeue "mail" none 0 1]

end Hammerwork
