/-
What a workflow's status says.

`getWorkflowStatus` counts the jobs a workflow lists by the status they
have or were archived with, and reads the workflow's status off the
counts. It says how the workflow stands when the list is the list of its
members, and the number stored beside it the number of them.

That is so in every run that is `Orderly`: what is handed in is new, a
workflow comes with the number of its jobs, as the builder methods keep
it, and nothing is deleted. Then the report counts each member once
(`workflow_status_tells_truth`). Outside of such runs it can mislead
(`workflow_status_misleads`).

# The two invariants

- `Roster`: the jobs a workflow lists are those that joined it, when it
  was enqueued or as a spawned child.
- `Ledger`: the times of an archived job say how it ended.
-/
import Hammerwork.Proofs.Groups

namespace Hammerwork

open TestStorage TestQueue

variable {s s' : TestStorage} {env : Env} {k : JobId} {w : WorkflowId} {job job' : Job}
variable {n : Nat} {r : Run (Step env) n} {clock : DateTime}

-- == orderly runs

/-- What is handed in is new and unfinished, workflows say how many jobs
they have, and nothing is deleted. -/
structure Orderly (r : Run (Step env) n) : Prop where
  ids : NewIds r
  workflows : ∀ i j, i < j → j < n → ∀ a b : JobGroup, r.event i = .call (.enqueueWorkflow a) →
    r.event j = .call (.enqueueWorkflow b) → a.id ≠ b.id
  totals : ∀ i < n, ∀ workflow : JobGroup, r.event i = .call (.enqueueWorkflow workflow) →
    workflow.totalJobs = workflow.jobs.length
  unfinished : ∀ i < n, ∀ job ∈ (r.event i).enqueued,
    job.completedAt = none ∧ job.status ≠ .archived
  deletes : ∀ i < n, ¬ (r.event i).Deletes

/-- The job `k` joined the workflow `w` before step `i`: it was enqueued
with it, or it is a child that names it and was stored. -/
def Joined (r : Run (Step env) n) (i : Nat) (w : WorkflowId) (k : JobId) : Prop :=
  ∃ j < i, (∃ workflow, r.event j = .call (.enqueueWorkflow workflow) ∧ workflow.id = w ∧
      k ∈ workflow.ids) ∨
    ∃ run children wall, r.event j = .call (.completeJobRunWithChildren run children wall) ∧
      ((r.state j).workflows.lookup w).isSome ∧
      k ∈ joined (r.state (j + 1)) children w

/-- The workflow `w` was cancelled before step `i`. -/
def Cancelled (r : Run (Step env) n) (i : Nat) (w : WorkflowId) : Prop :=
  ∃ j < i, r.event j = .call (.cancelWorkflow w) ∧ ((r.state j).workflows.lookup w).isSome

-- == the roster

/-- The stored workflow `group` lists each of its members once, and
counts them. -/
structure Rostered (r : Run (Step env) n) (i : Nat) (w : WorkflowId) (group : JobGroup) :
    Prop where
  nodup : group.ids.Nodup
  total : group.totalJobs = group.ids.length
  members : ∀ k, k ∈ group.ids ↔ Joined r i w k
  enqueued : ∃ j < i, ∃ workflow, r.event j = .call (.enqueueWorkflow workflow) ∧ workflow.id = w
  cancelled : Cancelled r i w → group.status = .cancelled

def Roster (r : Run (Step env) n) (i : Nat) : Prop :=
  ∀ w group, (r.state i).workflows.lookup w = some group → Rostered r i w group

/-- A member was handed in. -/
theorem Joined.handedIn {i : Nat} (h : Joined r i w k) :
    ∃ j < i, ∃ job ∈ (r.event j).enqueued, job.id = k := by
  obtain ⟨j, hj, ⟨workflow, hev, -, hmem⟩ | ⟨run, children, wall, hev, -, hmem⟩⟩ := h
  · obtain ⟨job, hjob, hid⟩ := List.mem_map.1 hmem
    exact ⟨j, hj, job, by rw [hev]; exact hjob, hid⟩
  · obtain ⟨child, hchild, -, -, hid⟩ := mem_joined.1 hmem
    exact ⟨j, hj, child, by rw [hev]; exact hchild, hid⟩

/-- What joins in a step joins after the others. -/
theorem Joined.succ_iff {i : Nat} :
    Joined r (i + 1) w k ↔ Joined r i w k ∨
      (∃ workflow, r.event i = .call (.enqueueWorkflow workflow) ∧ workflow.id = w ∧
        k ∈ workflow.ids) ∨
      ∃ run children wall, r.event i = .call (.completeJobRunWithChildren run children wall) ∧
        ((r.state i).workflows.lookup w).isSome ∧ k ∈ joined (r.state (i + 1)) children w := by
  constructor
  · intro ⟨j, hj, h⟩
    by_cases hji : j = i
    · subst hji
      exact .inr h
    · exact .inl ⟨j, by omega, h⟩
  · intro h
    rcases h with ⟨j, hj, h⟩ | h
    · exact ⟨j, by omega, h⟩
    · exact ⟨i, by omega, h⟩

theorem Cancelled.succ_iff {i : Nat} :
    Cancelled r (i + 1) w ↔ Cancelled r i w ∨
      (r.event i = .call (.cancelWorkflow w) ∧ ((r.state i).workflows.lookup w).isSome) := by
  constructor
  · intro ⟨j, hj, h⟩
    by_cases hji : j = i
    · subst hji
      exact .inr h
    · exact .inl ⟨j, by omega, h⟩
  · intro h
    rcases h with ⟨j, hj, h⟩ | h
    · exact ⟨j, by omega, h⟩
    · exact ⟨i, by omega, h⟩

/-- One step of the roster. -/
theorem Roster.step (ho : Orderly r) (h0 : r.state 0 = TestStorage.new clock) {i : Nat}
    (hi : i < n) (hrs : ∀ j ≤ i, Roster r j) : Roster r (i + 1) := by
  intro w group hgroup
  have hr := hrs i (le_refl i)
  have hfresh := ho.ids.fresh h0 i hi
  have hout : ∀ group, (r.state i).workflows.lookup w = some group →
      ∀ job ∈ (r.event i).enqueued, job.id ∉ group.ids := by
    intro group hgroup job hjob hmem
    obtain ⟨j, hj, job', hjob', hid⟩ := (((hr w group hgroup).members job.id).1 hmem).handedIn
    exact ho.ids.across j i hj hi job' hjob' job hjob hid
  -- a workflow that is stored was enqueued before, so it is not enqueued now
  have hnot : ∀ group, (r.state i).workflows.lookup w = some group →
      ∀ workflow, r.event i = .call (.enqueueWorkflow workflow) → workflow.id ≠ w := by
    intro group hgroup workflow hev hid
    obtain ⟨j, hj, workflow', hev', hid'⟩ := (hr w group hgroup).enqueued
    exact ho.workflows j i hj hi workflow' workflow hev' hev (hid'.trans hid.symm)
  cases (r.next i hi).workflow (run_keyed r h0 i (by omega)) hfresh (ho.deletes i hi) w hout with
  | kept hsame _ hnone =>
      rw [hsame] at hgroup
      obtain ⟨hnd, htotal, hmem, ⟨j, hj, henq⟩, hcancel⟩ := hr w group hgroup
      refine ⟨hnd, htotal, fun k => ?_, ⟨j, by omega, henq⟩, fun hcan => ?_⟩
      · rw [hmem, Joined.succ_iff]
        refine ⟨.inl, fun h => ?_⟩
        rcases h with h | ⟨workflow, hev, hid, -⟩ | ⟨run, children, wall, hev, -, -⟩
        · exact h
        · exact absurd hid (hnot group hgroup workflow hev)
        · have := hnone run children wall hev
          rw [hgroup] at this
          cases this
      · rcases Cancelled.succ_iff.1 hcan with hcan | ⟨hev, -⟩
        · exact hcancel hcan
        · -- a cancellation of a stored workflow marks it
          have hstep := r.next i hi
          rw [hev] at hstep
          generalize hs' : r.state (i + 1) = t at hstep hsame
          cases hstep
          have hcommit : ((Op.cancelWorkflow w).apply env (r.state i)).2
              = (commit (r.state i) (TestQueue.cancelWorkflow (r.state i) w)).2 := by
            unfold Op.apply
            rw [reply_snd]
          rw [hcommit] at hsame
          cases hok : TestQueue.cancelWorkflow (r.state i) w with
          | error e =>
              unfold TestQueue.cancelWorkflow at hok
              rw [hgroup] at hok
              cases hok
          | ok out =>
              obtain ⟨s₁, ⟨⟩⟩ := out
              obtain ⟨⟨group', hgroup', hlookup⟩, -⟩ := cancelWorkflow_group hok
              have hmarked := hlookup w
              rw [if_pos rfl] at hmarked
              rw [hok] at hsame
              have hsame : s₁.workflows.lookup w = (r.state i).workflows.lookup w := hsame
              rw [hmarked, hgroup] at hsame
              injection hsame with hsame
              rw [← hsame]
  | enqueued workflow stored hev hid hids htotal hterms hlookup =>
      rw [hlookup] at hgroup
      injection hgroup with hgroup
      subst hgroup
      have hjobs : (r.event i).enqueued = workflow.jobs := by
        rw [hev]
        rfl
      -- no earlier step enqueued this workflow, so no earlier step stored it
      have hearlier : ∀ j < i, ∀ group, (r.state j).workflows.lookup w ≠ some group := by
        intro j hj group hgroup
        obtain ⟨j', hj', workflow', hev', hid'⟩ := (hrs j (by omega) w group hgroup).enqueued
        exact ho.workflows j' i (by omega) hi workflow' workflow hev' hev (hid'.trans hid.symm)
      refine ⟨?_, ?_, fun k => ?_, ⟨i, by omega, workflow, hev, hid⟩, fun hcan => ?_⟩
      · rw [hids]
        have hnd := ho.ids.within i hi
        rw [hjobs] at hnd
        exact hnd
      · rw [htotal, ho.totals i hi workflow hev, hids, JobGroup.ids, List.length_map]
      · rw [hids, Joined.succ_iff]
        refine ⟨fun hmem => .inr (.inl ⟨workflow, hev, hid, hmem⟩), fun h => ?_⟩
        rcases h with ⟨j, hj, ⟨workflow', hev', hid', -⟩ | ⟨-, -, -, -, hstored, -⟩⟩ |
          ⟨workflow', hev', -, hmem⟩ | ⟨run, children, wall, hev', -, -⟩
        · exact absurd (hid'.trans hid.symm) (ho.workflows j i hj hi workflow' workflow hev' hev)
        · obtain ⟨group, hgroup⟩ := Option.isSome_iff_exists.1 hstored
          exact absurd hgroup (hearlier j hj group)
        · rw [hev] at hev'
          cases hev'
          exact hmem
        · rw [hev] at hev'
          cases hev'
      · rcases Cancelled.succ_iff.1 hcan with ⟨j, hj, -, hstored⟩ | ⟨hev', -⟩
        · obtain ⟨group, hgroup⟩ := Option.isSome_iff_exists.1 hstored
          exact absurd hgroup (hearlier j hj group)
        · rw [hev] at hev'
          cases hev'
  | cancelled group' hev hold hlookup =>
      rw [hlookup] at hgroup
      injection hgroup with hgroup
      subst hgroup
      obtain ⟨hnd, htotal, hmem, ⟨j, hj, henq⟩, hcancel⟩ := hr w group' hold
      refine ⟨hnd, htotal, fun k => ?_, ⟨j, by omega, henq⟩, fun _ => rfl⟩
      rw [Joined.succ_iff]
      refine (hmem k).trans ⟨.inl, fun h => ?_⟩
      rcases h with h | ⟨workflow, hev', -, -⟩ | ⟨run, children, wall, hev', -, -⟩
      · exact h
      · rw [hev] at hev'
        cases hev'
      · rw [hev] at hev'
        cases hev'
  | joined run children wall group' after hev hold hlookup hext =>
      rw [hlookup] at hgroup
      injection hgroup with hgroup
      subst hgroup
      obtain ⟨hnd, htotal, hmem, ⟨j, hj, henq⟩, hcancel⟩ := hr w group' hold
      have hjobs : (r.event i).enqueued = children := by
        rw [hev]
        rfl
      refine ⟨?_, ?_, fun k => ?_, ⟨j, by omega, henq⟩, fun hcan => ?_⟩
      · rw [hext.ids, List.nodup_append]
        refine ⟨hnd, ?_, fun a ha b hb hab => ?_⟩
        · exact (hjobs ▸ ho.ids.within i hi).sublist (List.filter_sublist.map _)
        · obtain ⟨child, hchild, -, -, hid⟩ := mem_joined.1 hb
          refine hout group' hold child (by rw [hjobs]; exact hchild) ?_
          rw [hid, ← hab]
          exact ha
      · rw [hext.total, hext.ids, htotal, List.length_append]
      · rw [hext.ids, List.mem_append, hmem, Joined.succ_iff]
        refine or_congr_right ⟨fun h => .inr ⟨run, children, wall, hev, by rw [hold]; rfl, h⟩,
          fun h => ?_⟩
        rcases h with ⟨workflow, hev', -, -⟩ | ⟨run', children', wall', hev', -, hmem'⟩
        · rw [hev] at hev'
          cases hev'
        · rw [hev] at hev'
          cases hev'
          exact hmem'
      · rw [hext.terms.status]
        rcases Cancelled.succ_iff.1 hcan with hcan | ⟨hev', -⟩
        · exact hcancel hcan
        · rw [hev] at hev'
          cases hev'

theorem roster (ho : Orderly r) (h0 : r.state 0 = TestStorage.new clock) :
    ∀ i ≤ n, Roster r i := by
  intro i
  induction i using Nat.strong_induction_on with
  | _ i ih =>
      intro hi
      cases i with
      | zero =>
          intro w group hgroup
          rw [h0] at hgroup
          cases hgroup
      | succ i => exact Roster.step ho h0 (by omega) fun j hj => ih j (by omega) (by omega)

-- == one step of a record

/-- A job that is not archived has a completion time only if it is
completed. -/
def Job.Timely (job : Job) : Prop :=
  job.status ≠ .archived ∧ (job.completedAt.isSome → job.status = .completed)

/-- The same times of ending. -/
structure Job.SameTimes (a b : Job) : Prop where
  completedAt : b.completedAt = a.completedAt
  timedOutAt : b.timedOutAt = a.timedOutAt
  failedAt : b.failedAt = a.failedAt

/-- What became of the job `k` in a step from `s`, stored as `job'`
after it: it is not archived, or it was archived before and keeps its
times. -/
def Unarchived (s : TestStorage) (k : JobId) (job' : Job) : Prop :=
  job'.Timely ∨ (job'.status = .archived ∧
    ∃ job, s.jobs.lookup k = some job ∧ job.status = .archived ∧ job.SameTimes job')

/-- The step archived the finished job `k`. -/
def NowArchived (s : TestStorage) (k : JobId) (job' : Job) : Prop :=
  ∃ job, s.jobs.lookup k = some job ∧ (finishedAge s.clock job).isSome ∧
    job' = { job with status := .archived }

/-- Every stored job that is not archived is timely. -/
def AllTimely (s : TestStorage) : Prop :=
  ∀ k job, s.jobs.lookup k = some job → job.status ≠ .archived → job.Timely

/-- What is handed in is unfinished. -/
def Event.Unfinished (e : Event) : Prop :=
  ∀ job ∈ e.enqueued, job.completedAt = none ∧ job.status ≠ .archived

theorem unarchived_of_lookup (hs : AllTimely s) (hlookup : s.jobs.lookup k = some job) :
    Unarchived s k job := by
  by_cases hst : job.status = .archived
  · exact .inr ⟨hst, job, hlookup, hst, rfl, rfl, rfl⟩
  · exact .inl (hs k job hlookup hst)

/-- A timely job that is not completed has no completion time. -/
theorem Job.Timely.completedAt (h : job.Timely) (hst : job.status ≠ .completed) :
    job.completedAt = none := by
  cases hc : job.completedAt with
  | none => rfl
  | some t => exact absurd (h.2 (by rw [hc]; rfl)) hst

/-- Deeds other than claims and archivals. -/
theorem Change.unarchived {u t : TestStorage} {d : Deed} (h : Change u d k job job')
    (hclaim : ∀ id, d ≠ .claim id) (harchive : d ≠ .archive) (hjob : Unarchived t k job) :
    Unarchived t k job' := by
  -- from a timely record that is not completed every deed makes a timely one
  have hopen : ∀ {st : JobStatus} {job' : Job}, job.status = st → st ≠ .archived →
      st ≠ .completed → (job.completedAt = none → job'.Timely) → Unarchived t k job' := by
    intro st job' hst harch hcomp hnext
    rcases hjob with hjob | ⟨hst', -⟩
    · exact .inl (hnext (hjob.completedAt (hst.symm ▸ hcomp)))
    · exact absurd (hst.symm.trans hst') harch
  have hnone : ∀ {job' : Job}, job'.status ≠ .archived → job'.completedAt = none → job'.Timely :=
    fun hst hc => ⟨hst, fun hsome => by rw [hc] at hsome; cases hsome⟩
  have hallowed : ∀ {transition : JobTransition} {job' : Job},
      transition.isAllowedFrom job.status = true → (job.completedAt = none → job'.Timely) →
      Unarchived t k job' := by
    intro transition job' hall hnext
    refine hopen rfl (fun hst => ?_) (fun hst => ?_) hnext
    all_goals
      rw [hst] at hall
      cases transition <;> cases hall
  cases h with
  | claim => exact absurd rfl (hclaim k)
  | archive => exact absurd rfl harchive
  | complete hall => exact .inl ⟨nofun, fun _ => rfl⟩
  | fail error hall => exact hallowed hall fun hc => hnone nofun hc
  | dead error hall => exact hallowed hall fun hc => hnone nofun hc
  | timedOut error hall => exact hallowed hall fun hc => hnone nofun hc
  | retry retryAt dep hall => exact hallowed hall fun hc => hnone nofun hc
  | retryDead hall => exact hallowed hall fun hc => hnone nofun hc
  | start hst => exact hopen hst (by decide) (by decide) fun hc => hnone (by rw [hst]; decide) hc
  | release hst | requeue hst | bury hst =>
      exact hopen hst (by decide) (by decide) fun hc => hnone nofun hc
  | runError error timedOut hst =>
      refine hopen hst (by decide) (by decide) fun hc => hnone ?_ hc
      show job.status ≠ .archived
      rw [hst]
      decide
  | keepRunning hst =>
      exact hopen hst (by decide) (by decide) fun hc => hnone (by rw [hst]; decide) hc
  | rerun next | rerunEnded status error next | rerunBuried next | reschedule next =>
      exact .inl (hnone nofun rfl)
  | enable next | restore dep => exact .inl (hnone nofun rfl)
  | disable =>
      rcases hjob with hjob | ⟨hst, old, hold, hold', htimes⟩
      · exact .inl hjob
      · exact .inr ⟨hst, old, hold, hold', htimes.1, htimes.2, htimes.3⟩
  | fallout error hun =>
      simp only [unstarted, Bool.or_eq_true, decide_eq_true_eq] at hun
      rcases hun with hst | hst <;>
        exact hopen hst (by decide) (by decide) fun hc => hnone nofun hc
  | cancel error hun =>
      simp only [unfinished, Bool.or_eq_true, decide_eq_true_eq] at hun
      rcases hun with (hst | hst) | hst <;>
        exact hopen hst (by decide) (by decide) fun hc => hnone nofun hc
  | resolve hheld =>
      simp only [held, Bool.and_eq_true, decide_eq_true_eq] at hheld
      refine hopen hheld.1 (by decide) (by decide) fun hc => hnone ?_ hc
      show job.status ≠ .archived
      rw [hheld.1]
      decide

/-- A job as it arrives. -/
theorem unarchived_of_arrives {u : TestStorage} {jobs stored : List Job} {given : Job}
    (h : Arrives u jobs stored given job) (hc : given.completedAt = none)
    (hst : given.status ≠ .archived) : Unarchived s k job := by
  refine .inl ⟨?_, fun hsome => ?_⟩
  · cases h.settled with
    | unchanged hsame => rwa [hsame]
    | satisfied _ _ _ hsame => rwa [hsame]
    | failed _ _ _ _ hfailed => rw [hfailed]; decide
  · rw [h.keeps.completedAt, hc] at hsome
    cases hsome

/-- One step of a record: it is not archived, it was archived, or the
step archived it. -/
theorem Step.record {e : Event} (h : Step env s e s') (hk : s.Keyed) (hco : s.Coherent)
    (hgiven : e.Unfinished) (hs : AllTimely s) :
    ∀ k job', s'.jobs.lookup k = some job' → Unarchived s k job' ∨ NowArchived s k job' := by
  have hwrites := h.writes hk
  have hgeneral : (∀ id, ¬ e.Allows env s (.deed (.claim id))) →
      ¬ e.Allows env s (.deed .archive) → ∀ k job', s'.jobs.lookup k = some job' →
      Unarchived s k job' ∨ NowArchived s k job' := by
    intro hclaim harchive k job' hlookup
    refine .inl (hwrites.records (P := Unarchived s) (fun u d k job job' hd _ hchange hjob =>
      hchange.unarchived (fun id heq => hclaim id (heq ▸ hd)) (fun heq => harchive (heq ▸ hd)) hjob)
      (fun u given stored job hd harr hmem => ?_) (fun k job => unarchived_of_lookup hs) k job'
      hlookup)
    obtain ⟨job₀, hjob₀, harrives⟩ := mem_of_forall₂ harr.each hmem
    cases e with
    | rehash => cases hd
    | call op =>
        obtain ⟨job₁, hjob₁, hsame⟩ := Op.Allows.insert hd job₀ hjob₀
        obtain ⟨hc, hst⟩ := hgiven job₁ hjob₁
        exact unarchived_of_arrives harrives (hsame.completedAt.trans hc) (hsame.status ▸ hst)
  cases e with
  | rehash => exact hgeneral (fun _ h => by cases h) fun h => by cases h
  | call op =>
      cases op
      case dequeue queueName weights lease maxJobs =>
        -- what is claimed was pending
        intro k job' hlookup
        refine .inl ?_
        have hclaimed := hwrites.records (P := fun k job' => ∃ job,
            s.jobs.lookup k = some job ∧ (job' = job ∨ (job.status = .pending ∧
              job'.status = .running ∧ job'.completedAt = job.completedAt)))
          (fun u d k job job' hd _ hchange ⟨old, hold, hjob⟩ => ?_)
          (fun u given stored job hd _ _ => ?_) (fun k job hlookup => ⟨job, hlookup, .inl rfl⟩)
          k job' hlookup
        · obtain ⟨job, hold, rfl | ⟨hst, hrun, hc⟩⟩ := hclaimed
          · exact unarchived_of_lookup hs hold
          · have htimely := hs k job hold (by rw [hst]; decide)
            refine .inl ⟨by rw [hrun]; decide, fun hsome => ?_⟩
            rw [hc, htimely.completedAt (by rw [hst]; decide)] at hsome
            cases hsome
        · obtain ⟨id, hid, heq⟩ := hd
          injection heq with heq
          subst heq
          cases hchange
          obtain ⟨stored, hstored, hst, -⟩ := claimed_pending hk hco hid
          rw [hold] at hstored
          injection hstored with hstored
          subst hstored
          refine ⟨old, hold, .inr ⟨hst, rfl, ?_⟩⟩
          rcases hjob with rfl | ⟨-, -, hc⟩
          · rfl
          · exact hc
        · obtain ⟨id, -, heq⟩ := hd
          cases heq
      case archiveJobs queueName policy =>
        intro k job' hlookup
        have hcases := hwrites.preserves (P := fun t => ∀ k job', t.jobs.lookup k = some job' →
            s.jobs.lookup k = some job' ∨ NowArchived s k job')
          (fun u w u' hw hwrite hu k job' hlookup => ?_) (fun k job' hlookup => .inl hlookup)
          k job' hlookup
        · exact hcases.imp_left (unarchived_of_lookup hs)
        · obtain rfl : w = .deed .archive := hw
          rcases hwrite.lookup_cases hlookup with hold | ⟨d, job, heq, hold, hchange⟩ |
            ⟨_, _, heq, -⟩
          · exact hu k job' hold
          · cases heq
            cases hchange with
            | archive hage =>
                rcases hu k job hold with hsame | ⟨job₀, -, -, rfl⟩
                · refine .inr ⟨job, hsame, ?_, rfl⟩
                  unfold finishedAge at hage ⊢
                  cases hst : job.status <;> simp_all
                · cases hage
          · cases heq
      all_goals
        refine hgeneral (fun id hd => ?_) fun hd => ?_
        all_goals
          simp only [Event.Allows, Op.Allows, FinishAllows, ReclaimAllows, WriteKind.deed.injEq,
            reduceCtorEq, or_self, and_false, exists_false] at hd

-- == the ledger

/-- The job `k` was `status` when it was archived, and is archived
since. -/
def ArchivedAs (r : Run (Step env) n) (i : Nat) (k : JobId) (status : JobStatus) : Prop :=
  ∃ j < i, (∃ job, (r.state j).jobs.lookup k = some job ∧ job.status = status ∧
      status ≠ .archived) ∧
    ∀ m, j < m → m ≤ i → ∃ job, (r.state m).jobs.lookup k = some job ∧ job.status = .archived

/-- The job `k` is `status`, or was when it was archived. -/
def StandsAs (r : Run (Step env) n) (i : Nat) (k : JobId) (status : JobStatus) : Prop :=
  (∃ job, (r.state i).jobs.lookup k = some job ∧ job.status = status ∧ status ≠ .archived) ∨
    ArchivedAs r i k status

/-- The times of an archived job say that it was `status`. -/
def Job.TimesSay (job : Job) (status : JobStatus) : Prop :=
  (status = .completed ∧ job.completedAt.isSome) ∨
    (status.EndedInFailure ∧ job.completedAt = none ∧
      (job.timedOutAt.isSome ∨ job.failedAt.isSome))

/-- Jobs are timely, and the times of archived ones say how they
ended. -/
def Ledger (r : Run (Step env) n) (i : Nat) : Prop :=
  ∀ k job, (r.state i).jobs.lookup k = some job → job.Timely ∨
    (job.status = .archived ∧ ∃ status, ArchivedAs r i k status ∧ job.TimesSay status)

theorem Ledger.allTimely {i : Nat} (h : Ledger r i) : AllTimely (r.state i) :=
  fun k job hlookup hst => (h k job hlookup).resolve_right fun harch => hst harch.1

/-- A job that was finished for some time has the time it finished. -/
theorem timesSay_of_finishedAge {now : DateTime} (hage : (finishedAge now job).isSome)
    (htimely : job.status ≠ .archived → job.Timely) :
    job.status ≠ .archived ∧ job.TimesSay job.status := by
  unfold finishedAge at hage
  cases hst : job.status <;> rw [hst] at hage <;> try cases hage
  case completed =>
    refine ⟨by decide, .inl ⟨rfl, ?_⟩⟩
    simpa using hage
  case failed | dead | timedOut =>
    have hnone := (htimely (by rw [hst]; decide)).completedAt (by rw [hst]; decide)
    refine ⟨by decide, .inr ⟨by simp [JobStatus.EndedInFailure], hnone, ?_⟩⟩
    first
    | exact .inl (by simpa using hage)
    | exact .inr (by simpa using hage)

theorem Ledger.step (ho : Orderly r) (h0 : r.state 0 = TestStorage.new clock) {i : Nat}
    (hi : i < n) (hl : Ledger r i) : Ledger r (i + 1) := by
  have hfresh := ho.ids.fresh h0
  have hrecord := (r.next i hi).record (run_keyed r h0 i (by omega))
    (run_coherent r h0 hfresh i (by omega)) (ho.unfinished i hi) hl.allTimely
  intro k job' hlookup
  have hnow : job'.status = .archived → ∀ m, i < m → m ≤ i + 1 →
      ∃ job, (r.state m).jobs.lookup k = some job ∧ job.status = .archived := by
    intro hst m him hm
    obtain rfl : m = i + 1 := by omega
    exact ⟨job', hlookup, hst⟩
  rcases hrecord k job' hlookup with (htimely | ⟨hst', job, hold, hst, htimes⟩) |
    ⟨job, hold, hage, hjob'⟩
  · exact .inl htimely
  · -- archived before: the same entry, one step longer
    right
    obtain ⟨-, status, ⟨j, hj, hbefore, hsince⟩, hsay⟩ :=
      (hl k job hold).resolve_left fun htimely => htimely.1 hst
    refine ⟨hst', status, ⟨j, by omega, hbefore, fun m hjm hm => ?_⟩, ?_⟩
    · by_cases hmi : m ≤ i
      · exact hsince m hjm hmi
      · exact hnow hst' m (by omega) hm
    · unfold Job.TimesSay
      rw [htimes.completedAt, htimes.timedOutAt, htimes.failedAt]
      exact hsay
  · right
    obtain ⟨hst, hsay⟩ := timesSay_of_finishedAge hage (hl.allTimely k job hold)
    have hst' : job'.status = .archived := by rw [hjob']
    refine ⟨hst', job.status, ⟨i, by omega, ⟨job, hold, rfl, hst⟩, hnow hst'⟩, ?_⟩
    rw [hjob']
    exact hsay

theorem ledger (ho : Orderly r) (h0 : r.state 0 = TestStorage.new clock) :
    ∀ i ≤ n, Ledger r i := by
  intro i
  induction i with
  | zero =>
      intro _ k job hlookup
      rw [h0] at hlookup
      cases hlookup
  | succ i ih =>
      intro hi
      exact Ledger.step ho h0 (by omega) (ih (by omega))

/-- A job was archived in one status. -/
theorem ArchivedAs.unique {i : Nat} {a b : JobStatus} (ha : ArchivedAs r i k a)
    (hb : ArchivedAs r i k b) : a = b := by
  -- neither was still open after the other had been archived
  have hle : ∀ {x y : JobStatus} {j l : Nat},
      (∃ job, (r.state l).jobs.lookup k = some job ∧ job.status = y ∧ y ≠ .archived) → l < i →
      (∀ m, j < m → m ≤ i → ∃ job, (r.state m).jobs.lookup k = some job ∧
        job.status = .archived) → l ≤ j := by
    intro x y j l ⟨job, hlookup, hst, hne⟩ hl hsince
    by_contra hjl
    obtain ⟨job', hlookup', hst'⟩ := hsince l (by omega) (by omega)
    rw [hlookup] at hlookup'
    injection hlookup' with hlookup'
    subst hlookup'
    exact hne (hst.symm.trans hst')
  obtain ⟨j, hj, hopen, hsince⟩ := ha
  obtain ⟨l, hl, hopen', hsince'⟩ := hb
  obtain rfl : j = l :=
    Nat.le_antisymm (hle (x := a) hopen hj hsince') (hle (x := a) hopen' hl hsince)
  obtain ⟨job, hlookup, rfl, -⟩ := hopen
  obtain ⟨job', hlookup', rfl, -⟩ := hopen'
  rw [hlookup] at hlookup'
  injection hlookup' with hlookup'
  rw [hlookup']

/-- The status reported of a job that ended is the one it stands as, and
`TimedOut` and `Failed` may stand for each other. -/
theorem Ledger.statusWithArchived {i : Nat} (h : Ledger r i) (k : JobId) :
    ((r.state i).statusWithArchived k = some .completed ↔ StandsAs r i k .completed) ∧
    ((∃ status, (r.state i).statusWithArchived k = some status ∧ status.EndedInFailure) ↔
      ∃ status, StandsAs r i k status ∧ status.EndedInFailure) := by
  unfold TestStorage.statusWithArchived
  cases hlookup : (r.state i).jobs.lookup k with
  | none =>
      have hnone : ∀ status, ¬ StandsAs r i k status := by
        intro status hstands
        rcases hstands with ⟨job, hjob, -⟩ | ⟨j, hj, -, hsince⟩
        · rw [hlookup] at hjob
          cases hjob
        · obtain ⟨job, hjob, -⟩ := hsince i hj (le_refl i)
          rw [hlookup] at hjob
          cases hjob
      simp [hnone]
  | some job =>
      rw [Option.map_some]
      rcases h k job hlookup with ⟨hst, -⟩ | ⟨hst, status, harch, hsay⟩
      · have hstands : ∀ status, StandsAs r i k status ↔ job.status = status := by
          intro status
          constructor
          · intro hstands
            rcases hstands with ⟨job', hjob', hst', -⟩ | ⟨j, hj, -, hsince⟩
            · rw [hlookup] at hjob'
              injection hjob' with hjob'
              rw [hjob', hst']
            · obtain ⟨job', hjob', hst'⟩ := hsince i hj (le_refl i)
              rw [hlookup] at hjob'
              injection hjob' with hjob'
              exact absurd (hjob' ▸ hst') hst
          · intro hst'
            exact .inl ⟨job, hlookup, hst', hst' ▸ hst⟩
        rw [if_neg hst]
        simp [hstands]
      · have hstands : ∀ status', StandsAs r i k status' ↔ status' = status := by
          intro status'
          constructor
          · intro hstands
            rcases hstands with ⟨job', hjob', hst', hne⟩ | harch'
            · rw [hlookup] at hjob'
              injection hjob' with hjob'
              subst hjob'
              exact absurd (hst'.symm.trans hst) hne
            · exact harch'.unique harch
          · intro heq
            exact .inr (heq ▸ harch)
        rw [if_pos hst]
        simp only [hstands, exists_eq_left]
        rcases hsay with ⟨rfl, hc⟩ | ⟨hend, hc, htimes⟩
        · simp [hc, JobStatus.EndedInFailure]
        · have hcompleted : ∀ {status : JobStatus}, status.EndedInFailure →
              JobStatus.completed ≠ status := by
            intro status hend heq
            rw [← heq] at hend
            simp [JobStatus.EndedInFailure] at hend
          obtain ⟨reported, hreported, hfail⟩ : ∃ reported,
              (if job.timedOutAt.isSome then JobStatus.timedOut
                else if job.failedAt.isSome then .failed else .archived) = reported ∧
              reported.EndedInFailure := by
            by_cases hto : job.timedOutAt.isSome
            · exact ⟨.timedOut, if_pos hto, .inr (.inr rfl)⟩
            · exact ⟨.failed, by rw [if_neg hto, if_pos (htimes.resolve_left hto)], .inl rfl⟩
          rw [hc, Option.isSome_none, if_neg (by decide), hreported]
          simp [hcompleted hend, (hcompleted hfail).symm, hend, hfail]

-- == the report

/-- Whether a reported status counts as completed, or as failed. -/
def countsCompleted (status : Option JobStatus) : Bool := status = some .completed

def countsFailed (status : Option JobStatus) : Bool :=
  status = some .failed || status = some .dead || status = some .timedOut

theorem WorkflowProgress.count_eq (p : WorkflowProgress) (status : Option JobStatus) :
    p.count status = ⟨p.completed + (if countsCompleted status then 1 else 0),
      p.failed + (if countsFailed status then 1 else 0)⟩ := by
  cases status with
  | none => rfl
  | some status => cases status <;> rfl

/-- The tally over a list of jobs. -/
theorem foldl_count (status : JobId → Option JobStatus) (ids : List JobId) :
    ∀ p : WorkflowProgress, ids.foldl (fun p id => p.count (status id)) p
      = ⟨p.completed + (ids.filter fun id => countsCompleted (status id)).length,
        p.failed + (ids.filter fun id => countsFailed (status id)).length⟩ := by
  induction ids with
  | nil => exact fun p => rfl
  | cons id ids ih =>
      intro p
      rw [List.foldl_cons, ih, WorkflowProgress.count_eq, List.filter_cons, List.filter_cons]
      dsimp only
      cases countsCompleted (status id) <;> cases countsFailed (status id) <;>
        simp only [if_true, Bool.false_eq_true, if_false, List.length_cons, Nat.add_zero,
          Nat.add_assoc, Nat.add_comm 1]

/-- A workflow's report in an orderly run: it counts each member once,
as it stands or ended; it is `Completed` only when every member is; and
once cancelled it stays so. -/
theorem workflow_status_tells_truth (r : Run (Step env) n)
    (h0 : r.state 0 = TestStorage.new clock) (ho : Orderly r) {i : Nat} (hi : i ≤ n)
    {w : WorkflowId} {report : JobGroup} (h : getWorkflowStatus (r.state i) w = some report) :
    ∃ members completed failed : List JobId,
      members.Nodup ∧ completed.Nodup ∧ failed.Nodup ∧
      (∀ k, k ∈ members ↔ Joined r i w k) ∧
      (∀ k, k ∈ completed ↔ k ∈ members ∧ StandsAs r i k .completed) ∧
      (∀ k, k ∈ failed ↔ k ∈ members ∧
        ∃ status, StandsAs r i k status ∧ status.EndedInFailure) ∧
      report.totalJobs = members.length ∧ report.completedJobs = completed.length ∧
      report.failedJobs = failed.length ∧
      (report.status = .completed → ∀ k ∈ members, StandsAs r i k .completed) ∧
      (Cancelled r i w → report.status = .cancelled) := by
  unfold getWorkflowStatus at h
  obtain ⟨group, hgroup, rfl⟩ := Option.map_eq_some_iff.1 h
  obtain ⟨hnd, htotal, hmembers, -, hcancelled⟩ := roster ho h0 i hi w group hgroup
  have hledger := ledger ho h0 i hi
  have hcompleted : ∀ k, k ∈ group.ids.filter
      (fun id => countsCompleted ((r.state i).statusWithArchived id)) ↔
      k ∈ group.ids ∧ StandsAs r i k .completed := by
    intro k
    rw [List.mem_filter, ← (hledger.statusWithArchived k).1]
    simp [countsCompleted]
  have hfailed : ∀ k, k ∈ group.ids.filter
      (fun id => countsFailed ((r.state i).statusWithArchived id)) ↔
      k ∈ group.ids ∧ ∃ status, StandsAs r i k status ∧ status.EndedInFailure := by
    intro k
    rw [List.mem_filter, ← (hledger.statusWithArchived k).2]
    refine and_congr_right fun _ => ?_
    cases (r.state i).statusWithArchived k with
    | none => simp [countsFailed]
    | some status => cases status <;> simp [countsFailed, JobStatus.EndedInFailure]
  have hcount := foldl_count (r.state i).statusWithArchived group.ids ⟨0, 0⟩
  rw [Nat.zero_add, Nat.zero_add] at hcount
  dsimp only
  change List.foldl _ _ (group.jobs.map (·.id)) = _ at hcount
  rw [hcount]
  refine ⟨group.ids, _, _, hnd, hnd.filter _, hnd.filter _, hmembers, hcompleted, hfailed, htotal,
    rfl, rfl, fun hstatus => ?_, fun hcan => ?_⟩
  · -- as many members completed as there are
    unfold WorkflowProgress.status at hstatus
    split at hstatus
    · cases hstatus
    · split at hstatus
      · next hall =>
        intro k hk
        have hsub := List.filter_sublist (l := group.ids)
          (p := fun id => countsCompleted ((r.state i).statusWithArchived id))
        have heq := hsub.eq_of_length_le (htotal ▸ hall.2)
        rw [← heq] at hk
        exact ((hcompleted k).1 hk).2
      · split at hstatus <;> cases hstatus
  · unfold WorkflowProgress.status
    rw [if_pos (hcancelled hcan)]

-- == orderly, and not

/-- Archive whatever is finished. -/
def archiveAll : ArchivalPolicy where
  archiveCompletedAfter := some 0
  archiveFailedAfter := some 0
  archiveDeadAfter := some 0
  archiveTimedOutAfter := some 0
  batchSize := 100
  enabled := true

/-- Two jobs, one after the other; the first completes and is
archived. -/
def onboarding : List Op :=
  [.enqueueWorkflow (((JobGroup.new 7 0 "onboarding").addJob parentJob).thenJob plainJob),
    .completeJob 1, .archiveJobs none archiveAll]
where
  plainJob : Job := Job.new 3 0 "mail" .null

theorem workflow_status_tells_truth_onboarding :
    let r := Op.trace plainEnv onboarding (TestStorage.new 0)
    ∃ (report : JobGroup) (members completed : List JobId),
      getWorkflowStatus (r.state 3) 7 = some report ∧
      (∀ k, k ∈ members ↔ Joined r 3 7 k) ∧ report.totalJobs = members.length ∧
      (∀ k, k ∈ completed ↔ k ∈ members ∧ StandsAs r 3 k .completed) ∧
      report.completedJobs = completed.length := by
  have hsome : (getWorkflowStatus ((Op.trace plainEnv onboarding (TestStorage.new 0)).state 3)
      7).isSome := by decide +kernel
  obtain ⟨report, hreport⟩ := Option.isSome_iff_exists.1 hsome
  have hlaw := workflow_status_tells_truth (Op.trace plainEnv onboarding (TestStorage.new 0)) rfl
    ⟨⟨?_, ?_⟩, ?_, ?_, ?_, ?_⟩ (le_refl 3) hreport
  · obtain ⟨members, completed, -, -, -, -, hmembers, hcompleted, -, htotal, hcount, -⟩ := hlaw
    exact ⟨report, members, completed, hreport, hmembers, htotal, hcompleted, hcount⟩
  · intro i hi
    match i, hi with
    | 0, _ | 1, _ | 2, _ => decide
  · intro i j hij hj
    match j, hj with
    | 0, _ => omega
    | 1, _ | 2, _ => exact fun job _ job' hjob' => by cases hjob'
  · intro i j hij hj
    match j, hj with
    | 0, _ => omega
    | 1, _ | 2, _ => exact fun a b _ hev => by cases hev
  · intro i hi
    match i, hi with
    | 0, _ =>
        intro workflow hev
        cases hev
        rfl
    | 1, _ | 2, _ => exact fun workflow hev => by cases hev
  · intro i hi
    match i, hi with
    | 0, _ =>
        intro job hjob
        simp only [Op.trace, Run.ofFn, onboarding, List.getElem?_cons_zero, Option.elim_some,
          Event.enqueued, Op.enqueued] at hjob
        rcases List.mem_cons.1 hjob with rfl | hjob
        · exact ⟨rfl, nofun⟩
        · rw [List.mem_singleton.1 hjob]
          exact ⟨rfl, nofun⟩
    | 1, _ | 2, _ => exact fun job hjob => by cases hjob
  · intro i hi
    match i, hi with
    | 0, _ | 1, _ | 2, _ => exact id

/-- What the report of the workflow 7 says after some calls. -/
def reports (ops : List Op) (p : JobGroup → Bool) : Prop :=
  (getWorkflowStatus (Op.applyAll plainEnv ops (TestStorage.new 0)) 7).any p = true

/-- A workflow enqueued with too small a number of jobs is `Completed`
while job 3 is pending; one listing a job twice counts it twice; one
enqueued again after it was cancelled is `Running`; and a job enqueued
with a completion time counts as completed once it failed and was
archived. -/
theorem workflow_status_misleads :
    (reports [.enqueueWorkflow { JobGroup.new 7 0 "onboarding" with
          jobs := [parentJob, onboarding.plainJob], totalJobs := 1 }, .completeJob 1]
        (fun report => report.status = .completed) ∧
      (Op.applyAll plainEnv [.enqueueWorkflow { JobGroup.new 7 0 "onboarding" with
          jobs := [parentJob, onboarding.plainJob], totalJobs := 1 }, .completeJob 1]
        (TestStorage.new 0)).isJob 3 (·.status = .pending) = true) ∧
    reports [.enqueueWorkflow
          (((JobGroup.new 7 0 "onboarding").addJob parentJob).addJob parentJob)]
      (fun report => report.totalJobs = 2 ∧ report.ids = [1, 1]) ∧
    reports [.enqueueWorkflow ((JobGroup.new 7 0 "onboarding").addJob parentJob),
        .cancelWorkflow 7,
        .enqueueWorkflow ((JobGroup.new 7 0 "onboarding").addJob onboarding.plainJob)]
      (fun report => report.status = .running) ∧
    reports [.enqueueWorkflow
          ((JobGroup.new 7 0 "onboarding").addJob { parentJob with completedAt := some 0 }),
        .failJob 1 "no mailbox", .archiveJobs none archiveAll]
      (fun report => report.completedJobs = 1 ∧ report.status = .completed) := by
  unfold reports
  refine ⟨⟨?_, ?_⟩, ?_, ?_, ?_⟩ <;> decide +kernel

end Hammerwork
