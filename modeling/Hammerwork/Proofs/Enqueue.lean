/-
What enqueueing stores.

Every way in ends the same: the jobs handed in are sealed, prepared
(stamped with the clock, and, for workflows, held), settled against the
jobs already stored, and inserted. `arriving` is that pipeline, with the
preparation as a parameter, and the three ways in are three uses of it
(`enqueue_ok`, `enqueueBatch_ok`, `enqueueWorkflow_ok`).

What a stored job has to do with the job handed in is `Arrives`: its
identity, queue, dependencies and run are the same, and its status and
dependency status are the ones it came with, or settled. Parents are
judged by `arrivalState`: a parent among the jobs handed in by the
status it is stored with, any other by its stored record.
-/
import Hammerwork.Proofs.Settle
import Hammerwork.Proofs.Sections
import Mathlib.Data.List.Forall2

namespace Hammerwork

-- == what arrives

/-- `b` is `a` in everything the dependency rules and the run fence
read. -/
structure Job.Keeps (a b : Job) : Prop where
  id : b.id = a.id
  queueName : b.queueName = a.queueName
  dependsOn : b.dependsOn = a.dependsOn
  attempts : b.attempts = a.attempts
  startedAt : b.startedAt = a.startedAt
  completedAt : b.completedAt = a.completedAt
  workflowId : b.workflowId = a.workflowId
  recurring : b.recurring = a.recurring
  cronSchedule : b.cronSchedule = a.cronSchedule

theorem Job.Keeps.refl (a : Job) : a.Keeps a := ⟨rfl, rfl, rfl, rfl, rfl, rfl, rfl, rfl, rfl⟩

theorem Job.Keeps.trans {a b c : Job} (h₁ : a.Keeps b) (h₂ : b.Keeps c) : a.Keeps c :=
  ⟨h₂.id.trans h₁.id, h₂.queueName.trans h₁.queueName, h₂.dependsOn.trans h₁.dependsOn,
    h₂.attempts.trans h₁.attempts, h₂.startedAt.trans h₁.startedAt,
    h₂.completedAt.trans h₁.completedAt, h₂.workflowId.trans h₁.workflowId,
    h₂.recurring.trans h₁.recurring, h₂.cronSchedule.trans h₁.cronSchedule⟩

/-- `b` is `a` with the same status and dependency status, too. -/
structure Job.KeepsState (a b : Job) : Prop extends Job.Keeps a b where
  status : b.status = a.status
  dependencyStatus : b.dependencyStatus = a.dependencyStatus

theorem Job.KeepsState.trans {a b c : Job} (h₁ : a.KeepsState b) (h₂ : b.KeepsState c) :
    a.KeepsState c :=
  ⟨h₁.toKeeps.trans h₂.toKeeps, h₂.status.trans h₁.status,
    h₂.dependencyStatus.trans h₁.dependencyStatus⟩

theorem Job.SameButPayload.keepsState {a b : Job} (h : a.SameButPayload b) :
    a.KeepsState b := by
  rw [h.eq]
  exact ⟨⟨rfl, rfl, rfl, rfl, rfl, rfl, rfl, rfl, rfl⟩, rfl, rfl⟩

namespace TestStorage

/-- The state of the parent `d` of jobs enqueued as `jobs` into `s`. -/
def arrivalState (s : TestStorage) (jobs : List Job) (d : JobId) : ParentState :=
  match jobs.reverse.find? (·.id = d) with
  | some job => stateOfStatus job.status
  | none => ((s.jobs.lookup d).map (s.parentState d)).getD .unfinished

/-- How a job handed in as `given` is stored, when the jobs handed in
with it are `jobs` and are stored as `stored`. -/
inductive ArrivesAs (s : TestStorage) (jobs stored : List Job) (given job : Job) : Prop
  | unchanged : job.status = given.status → job.dependencyStatus = given.dependencyStatus →
      ArrivesAs s jobs stored given job
  | satisfied : given.dependencyStatus = .waiting → given.dependsOn ≠ [] →
      (∀ d ∈ given.dependsOn, s.arrivalState jobs d = .completed) →
      job.status = given.status → job.dependencyStatus = .satisfied →
      ArrivesAs s jobs stored given job
  | failed (d : JobId) : given.dependencyStatus = .waiting → d ∈ given.dependsOn →
      s.arrivalState stored d = .failed → job.status = .failed →
      job.dependencyStatus = .failed → ArrivesAs s jobs stored given job

/-- The stored job, and how it arrived. -/
structure Arrives (s : TestStorage) (jobs stored : List Job) (given job : Job) : Prop where
  keeps : given.Keeps job
  settled : ArrivesAs s jobs stored given job

/-- The jobs of `jobs` that are failed, or fail when they are enqueued
into `s`. -/
def FailsOnArrival (s : TestStorage) (jobs : List Job) : JobId → Prop :=
  Doomed jobs fun d => (s.jobs.lookup d).map (s.parentState d)

/-- The jobs `jobs`, handed in together, are stored as `stored`. -/
structure Arrival (s : TestStorage) (jobs stored : List Job) : Prop where
  each : List.Forall₂ (Arrives s jobs stored) jobs stored
  fails : ∀ job ∈ stored, stateOfStatus job.status = .failed → s.FailsOnArrival jobs job.id
  waits : ∀ job ∈ stored, job.dependencyStatus = .waiting → job.dependsOn ≠ [] →
    (∀ d ∈ job.dependsOn, s.arrivalState stored d ≠ .failed) ∧
    ∃ d ∈ job.dependsOn, s.arrivalState stored d ≠ .completed

end TestStorage

-- == the pipeline

namespace TestQueue

open TestStorage

variable {s s' : TestStorage}

/-- The jobs as they are stored: prepared, settled, and looked over once
more. -/
def arriving (s : TestStorage) (prepare finish : Job → Job) (sealedJobs : List Job) :
    List Job :=
  (s.settleNewDependents (sealedJobs.map prepare) s.clock).1.map finish

/-- A parent of a waiting job is looked up: among the jobs, or in the
storage. -/
private theorem settledStateOf_parentStates {jobs jobs' : List Job} {job : Job}
    (hids : jobs'.map (·.id) = jobs.map (·.id)) (hmem : job ∈ jobs)
    (hw : job.dependencyStatus = .waiting) {d : JobId} (hd : d ∈ job.dependsOn) :
    settledStateOf jobs' (s.parentStates jobs) d = s.arrivalState jobs' d := by
  rw [settledStateOf_eq]
  unfold arrivalState
  cases hfind : jobs'.reverse.find? (·.id = d) with
  | some _ => rfl
  | none =>
      have hout : d ∉ jobs.map (·.id) := by
        rw [← hids]
        intro hin
        obtain ⟨j, hj, hjd⟩ := List.mem_map.1 hin
        have := List.find?_eq_none.1 hfind j (List.mem_reverse.2 hj)
        simp [hjd] at this
      have hext : d ∈ externalDependencies jobs :=
        mem_externalDependencies.2 ⟨⟨job, hmem, hw, hd⟩, hout⟩
      unfold parentStates
      rw [if_pos hext]

/-- `arrivalState` reads ids and statuses. -/
private theorem arrivalState_congr {jobs jobs' : List Job}
    (h : List.Forall₂ (fun a b : Job => b.id = a.id ∧ b.status = a.status) jobs jobs')
    (d : JobId) : s.arrivalState jobs' d = s.arrivalState jobs d := by
  unfold arrivalState
  have hfind := find_forall₂ (fun _ _ h => h.1) d (List.rel_reverse h)
  revert hfind
  generalize jobs.reverse.find? _ = found
  generalize jobs'.reverse.find? _ = found'
  intro hfind
  cases hfind with
  | none => rfl
  | some hab => simp only [hab.2]

/-- Two elementwise relations, one after the other, remember the
element in between. -/
theorem forall₂_comp_mem {R T : Job → Job → Prop} {l m u : List Job}
    (h₁ : List.Forall₂ R l m) (h₂ : List.Forall₂ T m u) :
    List.Forall₂ (fun a c => ∃ b ∈ m, R a b ∧ T b c) l u := by
  induction h₁ generalizing u with
  | nil =>
      cases h₂
      exact .nil
  | cons hab _ ih =>
      cases h₂ with
      | cons hbc h₂ =>
          refine .cons ⟨_, List.mem_cons_self .., hab, hbc⟩ ((ih h₂).imp fun a c h => ?_)
          obtain ⟨b, hb, hR, hT⟩ := h
          exact ⟨b, List.mem_cons_of_mem _ hb, hR, hT⟩

/-- Jobs of the same ids, dependencies and states are failed alike. -/
private theorem doomed_of_keepsState {jobs jobs' : List Job}
    {parents parents' : JobId → Option ParentState} (h : List.Forall₂ Job.KeepsState jobs jobs')
    (hparents : ∀ p, parents' p = some .failed → parents p = some .failed) {k : JobId}
    (hd : Doomed jobs' parents' k) : Doomed jobs parents k := by
  induction hd with
  | given hjob hfail =>
      obtain ⟨job, hmem, hkeep⟩ := mem_of_forall₂ h hjob
      rw [hkeep.id]
      exact .given hmem (hkeep.status ▸ hfail)
  | parent hjob hw hp hout hfail =>
      obtain ⟨job, hmem, hkeep⟩ := mem_of_forall₂ h hjob
      rw [hkeep.id]
      exact .parent hmem (hkeep.dependencyStatus ▸ hw) (hkeep.dependsOn ▸ hp)
        (forall₂_ids (fun _ _ h => h.id) h ▸ hout) (hparents _ hfail)
  | sibling hjob hw hp _ ih =>
      obtain ⟨job, hmem, hkeep⟩ := mem_of_forall₂ h hjob
      rw [hkeep.id]
      exact .sibling hmem (hkeep.dependencyStatus ▸ hw) (hkeep.dependsOn ▸ hp) ih

/-- The pipeline stores the jobs handed in, settled. -/
theorem arriving_arrival {prepare finish : Job → Job}
    (hprepare : ∀ job : Job, job.KeepsState (prepare job))
    (hfinish : ∀ job : Job, job.KeepsState (finish job)) {jobs sealedJobs : List Job}
    (hseal : List.Forall₂ Job.SameButPayload jobs sealedJobs) :
    Arrival s jobs (arriving s prepare finish sealedJobs) := by
  have hprep : List.Forall₂ Job.KeepsState jobs (sealedJobs.map prepare) :=
    List.forall₂_map_right_iff.2 (hseal.imp fun _ _ h => h.keepsState.trans (hprepare _))
  have hprep' : List.Forall₂ (fun a b : Job => b.id = a.id ∧ b.status = a.status) jobs
      (sealedJobs.map prepare) := hprep.imp fun _ _ h => ⟨h.id, h.status⟩
  obtain ⟨hgrow, hsettled⟩ := settleNewDependents_settled (sealedJobs.map prepare)
    (s.parentStates (sealedJobs.map prepare)) s.clock
  have hdoomed := settleNewDependents_doomed (sealedJobs.map prepare)
    (s.parentStates (sealedJobs.map prepare)) s.clock
  have hwaits := settleNewDependents_waits (sealedJobs.map prepare)
    (s.parentStates (sealedJobs.map prepare)) s.clock
  unfold arriving TestStorage.settleNewDependents
  generalize (Hammerwork.settleNewDependents (sealedJobs.map prepare)
    (s.parentStates (sealedJobs.map prepare)) s.clock).1 = settled
      at hgrow hsettled hdoomed hwaits
  generalize sealedJobs.map prepare = prepared at hprep hprep' hgrow hsettled hdoomed hwaits
  have hids : settled.map (·.id) = prepared.map (·.id) := forall₂_ids (fun _ _ h => h.1) hgrow
  have hstored : List.Forall₂ (fun a b : Job => b.id = a.id ∧ b.status = a.status) settled
      (settled.map finish) :=
    List.forall₂_map_right_iff.2
      (List.forall₂_same.2 fun job _ => ⟨(hfinish job).id, (hfinish job).status⟩)
  -- a settled job came from a prepared one of the same dependencies
  have hfrom : ∀ job ∈ settled, ∃ given ∈ prepared,
      SettledAs (s.parentStates prepared) s.clock prepared settled given job :=
    fun job hjob => mem_of_forall₂ hsettled hjob
  refine ⟨?_, ?_, ?_⟩
  · rw [List.forall₂_map_right_iff]
    refine (forall₂_comp_mem hprep hsettled).imp fun given job h => ?_
    obtain ⟨prep, hmem, hkeep, hset⟩ := h
    have hfin := hfinish job
    have hto : given.Keeps prep := hkeep.toKeeps
    cases hset with
    | unchanged =>
        exact ⟨hto.trans hfin.toKeeps, .unchanged (hfin.status.trans hkeep.status)
          (hfin.dependencyStatus.trans hkeep.dependencyStatus)⟩
    | satisfied hw hne hall =>
        have hsat : prep.Keeps { prep with dependencyStatus := .satisfied } :=
          ⟨rfl, rfl, rfl, rfl, rfl, rfl, rfl, rfl, rfl⟩
        refine ⟨hto.trans (hsat.trans hfin.toKeeps), ?_⟩
        refine .satisfied (hkeep.dependencyStatus.symm.trans hw)
          (fun hnil => hne (hkeep.dependsOn.trans hnil)) ?_
          (hfin.status.trans hkeep.status) hfin.dependencyStatus
        intro d hd
        rw [← hkeep.dependsOn] at hd
        have hstate := hall d hd
        rw [settledStateOf_parentStates rfl hmem hw hd] at hstate
        rw [← hstate]
        exact (arrivalState_congr hprep' d).symm
    | failed d hw hd hstate =>
        have hfail : prep.Keeps (prep.failOnArrival d s.clock) :=
          ⟨rfl, rfl, rfl, rfl, rfl, rfl, rfl, rfl, rfl⟩
        refine ⟨hto.trans (hfail.trans hfin.toKeeps), ?_⟩
        refine .failed d (hkeep.dependencyStatus.symm.trans hw) (hkeep.dependsOn ▸ hd) ?_
          hfin.status hfin.dependencyStatus
        rw [settledStateOf_parentStates hids hmem hw hd] at hstate
        rw [← hstate]
        exact arrivalState_congr hstored d
  · intro job hjob hfail
    obtain ⟨job₀, hjob₀, rfl⟩ := List.mem_map.1 hjob
    rw [(hfinish job₀).status] at hfail
    rw [(hfinish job₀).id]
    refine doomed_of_keepsState hprep (fun p hp => ?_) (hdoomed job₀ hjob₀ hfail)
    unfold parentStates at hp
    split at hp
    · exact hp
    · cases hp
  · intro job hjob hw hne
    obtain ⟨job₀, hjob₀, rfl⟩ := List.mem_map.1 hjob
    have hfin := hfinish job₀
    rw [hfin.dependencyStatus] at hw
    rw [hfin.dependsOn] at hne ⊢
    obtain ⟨given, hgiven, hset⟩ := hfrom job₀ hjob₀
    have hstate : ∀ d ∈ job₀.dependsOn,
        settledStateOf settled (s.parentStates prepared) d
          = s.arrivalState (settled.map finish) d := by
      intro d hd
      cases hset with
      | unchanged =>
          rw [settledStateOf_parentStates hids hgiven hw hd]
          exact (arrivalState_congr hstored d).symm
      | satisfied => cases hw
      | failed => cases hw
    obtain ⟨hnofail, d, hd, hnot⟩ := hwaits job₀ hjob₀ hw hne
    exact ⟨fun d hd => hstate d hd ▸ hnofail d hd, d, hd, hstate d hd ▸ hnot⟩

-- == inserting

/-- What a storage has after `stored` was inserted into `s`. -/
structure Inserted (s : TestStorage) (stored : List Job) (s' : TestStorage) : Prop where
  jobs : ∀ k, s'.jobs.lookup k = (stored.reverse.find? (·.id = k)).or (s.jobs.lookup k)
  clock : s'.clock = s.clock
  index : (∀ job ∈ stored, s.jobs.lookup job.id = none) → (stored.map (·.id)).Nodup →
    s.Coherent → s'.Coherent

/-- A job seen through an insertion: one of those inserted, or the one
stored before. -/
theorem Inserted.lookup_cases {stored : List Job} (h : Inserted s stored s') {k : JobId}
    {job : Job} (hlookup : s'.jobs.lookup k = some job) :
    (job ∈ stored ∧ job.id = k) ∨
      (k ∉ stored.map (·.id) ∧ s.jobs.lookup k = some job) := by
  rw [h.jobs] at hlookup
  cases hfind : stored.reverse.find? (·.id = k) with
  | some found =>
      rw [hfind] at hlookup
      injection hlookup with hlookup
      subst hlookup
      exact .inl ⟨List.mem_reverse.1 (List.mem_of_find?_eq_some hfind),
        by simpa using List.find?_some hfind⟩
  | none =>
      rw [hfind] at hlookup
      refine .inr ⟨fun hin => ?_, hlookup⟩
      obtain ⟨job', hjob', hid⟩ := List.mem_map.1 hin
      have := List.find?_eq_none.1 hfind job' (List.mem_reverse.2 hjob')
      simp [hid] at this

/-- A job not inserted is as before. -/
theorem Inserted.lookup_old {stored : List Job} (h : Inserted s stored s') {k : JobId}
    (hk : k ∉ stored.map (·.id)) : s'.jobs.lookup k = s.jobs.lookup k := by
  rw [h.jobs]
  have hnone : stored.reverse.find? (·.id = k) = none := by
    refine List.find?_eq_none.2 fun job hjob => ?_
    simpa using fun hid : job.id = k =>
      hk (List.mem_map.2 ⟨job, List.mem_reverse.1 hjob, hid⟩)
  rw [hnone]
  rfl

/-- Jobs of distinct ids are all stored. -/
theorem Inserted.lookup_new {stored : List Job} (h : Inserted s stored s')
    (hnd : (stored.map (·.id)).Nodup) {job : Job} (hjob : job ∈ stored) :
    s'.jobs.lookup job.id = some job := by
  rw [h.jobs]
  cases hfind : stored.reverse.find? (·.id = job.id) with
  | none =>
      have := List.find?_eq_none.1 hfind job (List.mem_reverse.2 hjob)
      simp at this
  | some found =>
      have hmem := List.mem_reverse.1 (List.mem_of_find?_eq_some hfind)
      have hid : found.id = job.id := by simpa using List.find?_some hfind
      rw [List.inj_on_of_nodup_map hnd hmem hjob hid]
      rfl

/-- Inserting keeps jobs under their ids. -/
theorem Inserted.keyed {stored : List Job} (h : Inserted s stored s') (hk : s.Keyed) :
    s'.Keyed := by
  intro k job hlookup
  rcases h.lookup_cases hlookup with ⟨-, hid⟩ | ⟨-, hold⟩
  · exact hid
  · exact hk k job hold

/-- Indexing one new job. -/
private theorem coherent_insert (hco : s.Coherent) {job : Job}
    (hnew : s.jobs.lookup job.id = none) :
    Coherent { s.addJobToQueue job with jobs := s.jobs.insert job.id job } := by
  have hnot : ∀ q st, job.id ∉ QueueIndex.list s.queues q st := by
    intro q st hin
    obtain ⟨job', hlookup, -⟩ := (hco.mem q st job.id).1 hin
    rw [hnew] at hlookup
    cases hlookup
  have hlist : ∀ q st, QueueIndex.list (s.addJobToQueue job).queues q st
      = if q = job.queueName ∧ st = job.status then
          QueueIndex.list s.queues job.queueName job.status ++ [job.id]
        else QueueIndex.list s.queues q st := by
    intro q st
    unfold addJobToQueue
    rw [QueueIndex.list_add, if_neg (hnot _ _)]
  have hqueues : ({ s.addJobToQueue job with jobs := s.jobs.insert job.id job } :
      TestStorage).queues = (s.addJobToQueue job).queues := rfl
  refine hco.moved (Table.lookup_insert_if s.jobs job.id · job) ?_ ?_ ?_
  all_goals
    intro q st
    rw [hqueues, hlist]
  · split
    · next heq => simp [heq]
    · next hne => simp [hnot, hne]
  · intro k hk
    split
    · next heq => simp [heq.1, heq.2, hk]
    · rfl
  · split
    · exact nodup_append_new (hco.nodup _ _) (hnot _ _)
    · exact hco.nodup _ _

theorem insertJobs_cons (job : Job) (jobs : List Job) (s : TestStorage) :
    insertJobs (job :: jobs) s
      = insertJobs jobs { s.addJobToQueue job with jobs := s.jobs.insert job.id job } := rfl

theorem insertJobs_inserted (stored : List Job) : ∀ s : TestStorage,
    Inserted s stored (insertJobs stored s) ∧ SameRegisters s (insertJobs stored s) := by
  induction stored with
  | nil => exact fun s => ⟨⟨fun k => rfl, rfl, fun _ _ h => h⟩, .refl s⟩
  | cons job stored ih =>
      intro s
      rw [insertJobs_cons]
      obtain ⟨hin, hreg⟩ := ih { s.addJobToQueue job with jobs := s.jobs.insert job.id job }
      refine ⟨⟨fun k => ?_, hin.clock, fun hfresh hnd hco => ?_⟩, ?_⟩
      · rw [hin.jobs, List.reverse_cons, List.find?_append, Option.or_assoc]
        congr 1
        show (s.jobs.insert job.id job).lookup k = _
        rw [Table.lookup_insert_if]
        by_cases hk : k = job.id
        · simp [hk]
        · simp [hk, Ne.symm hk]
      · rw [List.map_cons, List.nodup_cons] at hnd
        refine hin.index (fun job' hjob' => ?_) hnd.2
          (coherent_insert hco (hfresh job (List.mem_cons_self ..)))
        show (s.jobs.insert job.id job).lookup job'.id = none
        rw [Table.lookup_insert_if, if_neg, hfresh job' (List.mem_cons_of_mem _ hjob')]
        intro hid
        exact hnd.1 (List.mem_map.2 ⟨job', hjob', hid⟩)
      · refine SameRegisters.trans ?_ hreg
        rfl

-- == the ways in

variable {env : Env} {job : Job} {batch : JobBatch} {workflow : JobGroup} {id : Nat}

/-- Jobs that are not looked over once more. -/
theorem arriving_id (s : TestStorage) (prepare : Job → Job) (sealedJobs : List Job) :
    arriving s prepare (fun job => job) sealedJobs
      = (s.settleNewDependents (sealedJobs.map prepare) s.clock).1 := List.map_id' _

/-- How a single job is stored. -/
def storedJobs (s : TestStorage) (sealedJobs : List Job) : List Job :=
  arriving s (stampEnqueued · s.clock) (fun job => job) sealedJobs

theorem enqueue_ok : enqueue env s job = .ok (s', id) ↔
    id = job.id ∧ job.validateDependencies = .ok () ∧
      ∃ sealedJobs, env.encryption.sealJobs [job] = .ok sealedJobs ∧
        s' = insertJobs (storedJobs s sealedJobs) s := by
  unfold enqueue
  constructor
  · intro h
    obtain ⟨⟨⟩, hvalid, h⟩ := bind_eq_ok.1 h
    obtain ⟨sealedJobs, hseal, h⟩ := bind_eq_ok.1 h
    obtain ⟨hs', hid⟩ := Prod.mk.inj (pure_eq_ok.1 h)
    refine ⟨hid.symm, hvalid, sealedJobs, hseal, ?_⟩
    rw [storedJobs, arriving_id]
    exact hs'.symm
  · rintro ⟨rfl, hvalid, sealedJobs, hseal, rfl⟩
    refine bind_eq_ok.2 ⟨(), hvalid, bind_eq_ok.2 ⟨sealedJobs, hseal, ?_⟩⟩
    rw [storedJobs, arriving_id]
    rfl

theorem stampEnqueued_keepsState (job : Job) (now : DateTime) :
    job.KeepsState (stampEnqueued job now) :=
  ⟨⟨rfl, rfl, rfl, rfl, rfl, rfl, rfl, rfl, rfl⟩, rfl, rfl⟩

theorem Job.KeepsState.refl (job : Job) : job.KeepsState job := ⟨.refl job, rfl, rfl⟩

theorem storedJobs_arrival {jobs sealedJobs : List Job}
    (hseal : env.encryption.sealJobs jobs = .ok sealedJobs) :
    Arrival s jobs (storedJobs s sealedJobs) :=
  arriving_arrival (stampEnqueued_keepsState · s.clock) Job.KeepsState.refl 
    (PayloadEncryption.sealJobs_same hseal)

/-- What a way in that succeeded did to the storage: it inserted the
jobs handed in, settled. -/
def Enqueued (s : TestStorage) (jobs : List Job) (s' : TestStorage) : Prop :=
  ∃ stored, Arrival s jobs stored ∧ Inserted s stored s'

theorem enqueue_enqueued (h : enqueue env s job = .ok (s', id)) :
    Enqueued s [job] s' ∧ SameRegisters s s' := by
  obtain ⟨-, -, sealedJobs, hseal, rfl⟩ := enqueue_ok.1 h
  obtain ⟨hin, hreg⟩ := insertJobs_inserted (storedJobs s sealedJobs) s
  exact ⟨⟨_, storedJobs_arrival hseal, hin⟩, hreg⟩

/-- How a job of the batch `batchId` is prepared. -/
def inBatch (batchId : BatchId) (now : DateTime) (job : Job) : Job :=
  stampEnqueued { job with batchId := some batchId } now

theorem inBatch_keepsState (batchId : BatchId) (now : DateTime) (job : Job) :
    job.KeepsState (inBatch batchId now job) :=
  ⟨⟨rfl, rfl, rfl, rfl, rfl, rfl, rfl, rfl, rfl⟩, rfl, rfl⟩

theorem enqueueBatch_ok (h : enqueueBatch env s batch = .ok (s', id)) :
    id = batch.id ∧ ∃ sealedJobs stored, env.encryption.sealJobs batch.jobs = .ok sealedJobs ∧
      stored = arriving s (inBatch batch.id s.clock) (fun job => job) sealedJobs ∧
      s' = { insertJobs stored s with
        batchJobs := s.batchJobs.insert batch.id (stored.map (·.id))
        batches := s.batches.insert batch.id
          { batch with jobs := sealedJobs, createdAt := s.clock } } := by
  unfold enqueueBatch at h
  obtain ⟨⟨⟩, hvalid, h⟩ := bind_eq_ok.1 h
  obtain ⟨sealedJobs, hseal, h⟩ := bind_eq_ok.1 h
  obtain ⟨hs', hid⟩ := Prod.mk.inj (pure_eq_ok.1 h)
  refine ⟨hid.symm, sealedJobs, _, hseal, rfl, ?_⟩
  have hreg := (insertJobs_inserted
    (arriving s (inBatch batch.id s.clock) (fun job => job) sealedJobs) s).2
  rw [← hreg.batchJobs, ← hreg.batches, arriving_id]
  exact hs'.symm

theorem enqueueBatch_enqueued (h : enqueueBatch env s batch = .ok (s', id)) :
    Enqueued s batch.jobs s' := by
  obtain ⟨-, sealedJobs, stored, hseal, rfl, rfl⟩ := enqueueBatch_ok h
  have hin := (insertJobs_inserted
    (arriving s (inBatch batch.id s.clock) (fun job => job) sealedJobs) s).1
  refine ⟨_, arriving_arrival (inBatch_keepsState batch.id s.clock) Job.KeepsState.refl
    (PayloadEncryption.sealJobs_same hseal), hin.jobs, hin.clock, fun hfresh hnd hco => ?_⟩
  exact (hin.index hfresh hnd hco).congr rfl fun _ => rfl

-- == workflows

theorem storeDependencies_eq (dependencies : Table JobId (List JobId)) (s : TestStorage) :
    storeDependencies dependencies s = { s with
      dependencies := (storeDependencies dependencies s).dependencies
      dependents := (storeDependencies dependencies s).dependents } := by
  unfold storeDependencies
  generalize dependencies.entries = entries
  induction entries generalizing s with
  | nil => rfl
  | cons entry entries ih =>
      rw [List.foldl_cons]
      exact (ih _).trans rfl

/-- The workflow as it is stored. -/
def storedWorkflow (s : TestStorage) (workflow : JobGroup) (sealedJobs : List Job) :
    JobGroup :=
  { workflow with
    jobs := sealedJobs
    createdAt := s.clock
    dependencies := mergedDependencies { workflow with jobs := sealedJobs, createdAt := s.clock } }

private theorem insertJobs_dependencies (deps dependents : Table JobId (List JobId)) :
    ∀ (stored : List Job) (s : TestStorage),
      insertJobs stored { s with dependencies := deps, dependents := dependents }
        = { insertJobs stored s with dependencies := deps, dependents := dependents } := by
  intro stored
  induction stored with
  | nil => exact fun s => rfl
  | cons job stored ih =>
      intro s
      exact ih { s.addJobToQueue job with jobs := s.jobs.insert job.id job }

theorem enqueueWorkflow_ok (h : enqueueWorkflow env s workflow = .ok (s', id)) :
    id = workflow.id ∧ ∃ sealedJobs stored dependencies,
      env.encryption.sealJobs workflow.jobs = .ok sealedJobs ∧
      dependencies = (storedWorkflow s workflow sealedJobs).dependencies ∧
      stored = arriving s (holdForDependencies dependencies s.clock) (dueIfSatisfied s.clock)
        sealedJobs ∧
      s' = { insertJobs stored s with
        dependencies := (storeDependencies dependencies s).dependencies
        dependents := (storeDependencies dependencies s).dependents
        workflows := s.workflows.insert workflow.id (storedWorkflow s workflow sealedJobs) } := by
  unfold enqueueWorkflow at h
  obtain ⟨⟨⟩, hvalid, h⟩ := bind_eq_ok.1 h
  obtain ⟨sealedJobs, hseal, h⟩ := bind_eq_ok.1 h
  refine ⟨(Prod.mk.inj (pure_eq_ok.1 h)).2.symm, sealedJobs, _, _, hseal, rfl, rfl, ?_⟩
  have hs' : { insertJobs (arriving
        (storeDependencies (storedWorkflow s workflow sealedJobs).dependencies s)
        (holdForDependencies (storedWorkflow s workflow sealedJobs).dependencies s.clock)
        (dueIfSatisfied s.clock) sealedJobs)
        (storeDependencies (storedWorkflow s workflow sealedJobs).dependencies s) with
      workflows := (insertJobs (arriving
        (storeDependencies (storedWorkflow s workflow sealedJobs).dependencies s)
        (holdForDependencies (storedWorkflow s workflow sealedJobs).dependencies s.clock)
        (dueIfSatisfied s.clock) sealedJobs)
        (storeDependencies (storedWorkflow s workflow sealedJobs).dependencies s)
        ).workflows.insert workflow.id (storedWorkflow s workflow sealedJobs) } = s' := by
    have heq := (Prod.mk.inj (pure_eq_ok.1 h)).1
    rw [storeDependencies_eq] at heq
    rw [storeDependencies_eq]
    exact heq
  generalize (storedWorkflow s workflow sealedJobs).dependencies = deps at hs'
  -- the parents are looked up after the dependency map was stored
  have hsettle : arriving (storeDependencies deps s) (holdForDependencies deps s.clock)
      (dueIfSatisfied s.clock) sealedJobs = arriving s (holdForDependencies deps s.clock)
        (dueIfSatisfied s.clock) sealedJobs := by
    rw [storeDependencies_eq]
    rfl
  rw [hsettle] at hs'
  generalize arriving s (holdForDependencies deps s.clock) (dueIfSatisfied s.clock)
    sealedJobs = stored at hs'
  have hinsert : insertJobs stored (storeDependencies deps s) = { insertJobs stored s with
      dependencies := (storeDependencies deps s).dependencies
      dependents := (storeDependencies deps s).dependents } := by
    rw [storeDependencies_eq]
    exact insertJobs_dependencies _ _ stored s
  rw [hinsert, (insertJobs_inserted stored s).2.workflows] at hs'
  exact hs'.symm

theorem holdForDependencies_keepsState (dependencies : Table JobId (List JobId))
    (now : DateTime) (job : Job) :
    job.KeepsState (holdForDependencies dependencies now job) := by
  unfold holdForDependencies
  dsimp only
  split <;> exact ⟨⟨rfl, rfl, rfl, rfl, rfl, rfl, rfl, rfl, rfl⟩, rfl, rfl⟩

theorem dueIfSatisfied_keepsState (now : DateTime) (job : Job) :
    job.KeepsState (dueIfSatisfied now job) := by
  unfold dueIfSatisfied
  split <;> exact ⟨⟨rfl, rfl, rfl, rfl, rfl, rfl, rfl, rfl, rfl⟩, rfl, rfl⟩

theorem enqueueWorkflow_enqueued (h : enqueueWorkflow env s workflow = .ok (s', id)) :
    Enqueued s workflow.jobs s' := by
  obtain ⟨-, sealedJobs, stored, deps, hseal, -, rfl, rfl⟩ := enqueueWorkflow_ok h
  have hin := (insertJobs_inserted (arriving s (holdForDependencies deps s.clock)
    (dueIfSatisfied s.clock) sealedJobs) s).1
  refine ⟨_, arriving_arrival (holdForDependencies_keepsState deps s.clock)
    (dueIfSatisfied_keepsState s.clock) (PayloadEncryption.sealJobs_same hseal), hin.jobs,
    hin.clock, fun hfresh hnd hco => ?_⟩
  exact (hin.index hfresh hnd hco).congr rfl fun _ => rfl

end TestQueue

end Hammerwork
