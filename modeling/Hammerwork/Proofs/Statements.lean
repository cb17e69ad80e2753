/-
The statements up to a transaction's first write keep the assertion
about it.

A `SELECT` before the first write only adds to what is known
(`moves_select`). A read or a write by key is one step, from the facts
of its phase to those of the next: jobs are inserted (`Inserts`), and a
transition writes its target (`Retargets`).
-/
import Hammerwork.Proofs.Phases

namespace Hammerwork

namespace Postgres

open ReadCommitted

variable {env : Env} {db : JobId → Slot} {slot new : Slot} {k d : JobId} {job row : Job}
  {s s' : Tx} {jobs : List Job} {target : Target} {now wall : DateTime}
  {status : DependencyStatus} {locked : List (JobId × Slot)} {rows : List JobId}
  {mode : LockMode} {stmt : Statement JobId Slot} {next : List (JobId × Slot) → Phase}

-- == before the first write

/-- A `SELECT` of a transaction that wrote nothing: it goes on, or is
over with the rows it took. -/
theorem moves_select (h : Asserts env db s) (hs : Untouched s)
    (hreq : s.phase.request env = .scan stmt next) (hselect : ∀ set, stmt.access ≠ .update set)
    (hmove : Move (Phase.request env) db s rows mode s')
    (hstay : Untouched s' → KeepsLocks s s' → Facts env db s' s.phase)
    (hnext : ∀ hits, Untouched s' → KeepsLocks s s' → s'.Took db stmt hits →
      Facts env db s' (next hits)) : Asserts env db s' := by
  obtain ⟨hown, hphase⟩ := hmove.select hreq hselect (h.taking stmt next hreq hselect)
  have hs' : Untouched s' := fun k => by rw [hown, hs k]
  have hlocks := KeepsLocks.of_move hmove
  rcases hphase with ⟨hphase, htaking⟩ | ⟨hits, hphase, hscan, htook⟩
  · refine ⟨fun hidle => absurd hreq (hphase ▸ hidle stmt next), fun stmt' next' hreq' _ => ?_,
      hs'.writes, hs'.owesRelease _, hs'.owesFailure _, ?_⟩
    · rw [hphase, hreq] at hreq'
      cases hreq'
      exact htaking
    · rw [hphase]
      exact hstay hs' hlocks
  · exact .of_untouched hs' hscan hphase (hnext hits hs' hlocks htook)

/-- Rows that a `SELECT` by a condition on stored rows took are locked as
they are stored. -/
theorem locked_of_took {access : Access Slot} {p : JobId → Slot → Bool} {hits : List (JobId × Slot)}
    (hs : Untouched s) (h : s.Took db (.whereRow access p) hits)
    (hp : ∀ k slot, p k slot = true → slot.stored.isSome = true) : Locked db s hits := by
  intro e he
  obtain ⟨hholds, hversion, hkeeps⟩ := h e he
  rw [hs.view] at hversion
  exact ⟨hholds.held, hversion, hp e.1 e.2 hkeeps⟩

theorem not_update_forShare (p : JobId → Slot → Bool) (set : Slot → Slot) :
    (Statement.whereRow (.forShare : Access Slot) p).access ≠ .update set := nofun

theorem not_update_forUpdate (p : JobId → Slot → Bool) (set : Slot → Slot) :
    (Statement.whereRow (.forUpdate : Access Slot) p).access ≠ .update set := nofun

/-- A guard admits no completed job. -/
theorem not_completed_of_admits {guard : Guard} (h : guard.admits job = true) :
    job.status ≠ .completed := by
  intro hc
  cases guard with
  | manual transition =>
      have h : transition.isAllowedFrom job.status = true := h
      rw [hc] at h
      cases transition <;> cases h
  | run handle =>
      have h : (decide (job.status = .running) && isSameRun job handle) = true := h
      rw [hc] at h
      cases h

/-- A guard for a run admits running jobs. -/
theorem running_of_admits {handle : Job} (h : (Guard.run handle).admits job = true) :
    job.status = .running := by
  unfold Guard.admits at h
  simp only [Bool.and_eq_true, decide_eq_true_eq] at h
  exact h.1

/-- What is known once the job to transition is locked. -/
theorem facts_afterLock (hdb : Consistent env db) {jobId : JobId} {guard : Guard}
    {hits : List (JobId × Slot)} (hs : Untouched s)
    (h : s.Took db
      (.whereRow .forUpdate fun id slot => decide (id = jobId) && slot.stored.isSome) hits) :
    Facts env db s (Phase.afterLock guard target now wall hits) := by
  match hits, h with
  | [], _ => exact trivial
  | (k, ⟨none, archived, ended⟩) :: _, _ => exact trivial
  | (k, ⟨some job, archived, ended⟩) :: rest, h =>
      obtain ⟨hheld, hversion, -⟩ := h (k, ⟨some job, archived, ended⟩) (List.mem_cons_self ..)
      rw [hs.view] at hversion
      have hstored : (db k).stored = some job := by rw [← hversion]
      have hid : job.id = k := (hdb.sound k).id_eq job (.inl hstored)
      unfold Phase.afterLock
      dsimp only
      cases hadmits : guard.admits job with
      | false => exact trivial
      | true =>
          have hjob : LockedJob db s job :=
            ⟨by rw [hid]; exact hheld, by rw [hid]; exact hstored, not_completed_of_admits hadmits⟩
          cases guard with
          | run handle =>
              refine ⟨hs, hjob, fun _ => ?_, fun _ => rfl⟩
              exact judged_of_stored hdb hstored (.inl (running_of_admits hadmits))
          | manual transition =>
              cases target with
              | completed | failed | dead | timedOut =>
                  exact ⟨hs, hjob, nofun, fun _ => rfl⟩
              | retry retryAt error timedOut =>
                  dsimp only
                  cases hempty : job.dependsOn.isEmpty with
                  | true =>
                      refine ⟨hs, hjob, fun _ => ?_, fun _ => rfl⟩
                      exact judged_of_stored hdb hstored (.inr (List.isEmpty_iff.1 hempty))
                  | false => exact ⟨hs, hjob, rfl⟩

-- == enqueue

theorem insertRow_eq_some {failed : List JobId} (h : insertRow jobs failed k slot = some new) :
    slot.stored = none ∧ ∃ job ∈ jobs, job.id = k ∧ (∀ j ∈ jobs, j.id = k → j = job) ∧
      new.stored = some job ∧ new.archived = slot.archived := by
  unfold insertRow at h
  split at h
  case h_2 => cases h
  case h_1 job hstored hfilter =>
    cases h
    have hmem : ∀ j, j ∈ jobs ∧ j.id = k ↔ j = job := by
      intro j
      have hj : j ∈ jobs.filter (·.id = k) ↔ j ∈ [job] := by rw [hfilter]
      simpa using hj
    obtain ⟨hjob, hid⟩ := (hmem job).2 rfl
    exact ⟨hstored, job, hjob, hid, fun j hj hjk => (hmem j).1 ⟨hj, hjk⟩, rfl, rfl⟩

/-- The transaction inserted the rows `jobs`, and wrote nothing else. -/
structure Inserts (db : JobId → Slot) (s s' : Tx) (jobs : List Job) : Prop where
  row : ∀ {k slot}, s'.own k = some slot → (db k).stored = none ∧ (db k).archived = none ∧
    slot.archived = none ∧ ∃ job ∈ jobs, job.id = k ∧ slot.stored = some job
  inside : ∀ {d}, d ∈ jobs.map (·.id) → s'.held d = some .exclusive ∧
    ∃ slot job, s'.own d = some slot ∧ slot.stored = some job ∧ ∀ j ∈ jobs, j.id = d → j = job
  outside : ∀ {d}, d ∉ jobs.map (·.id) → s'.own d = none
  locks : KeepsLocks s s'

theorem inserts_of_move (hs : Untouched s) {failed : List JobId}
    (hfine : ∀ job ∈ jobs, (db job.id).archived = none)
    (hreq : s.phase.request env = .write (jobs.map (·.id)) (insertRow jobs failed) .finished)
    (hmove : Move (Phase.request env) db s rows mode s') : Inserts db s s' jobs := by
  obtain ⟨hset, hown, hheld, -, -⟩ := hmove.of_write hreq
  rw [hs.view] at hset
  have hown : ∀ k, s'.own k
      = if k ∈ jobs.map (·.id) then insertRow jobs failed k (db k) else none := by
    intro k
    rw [hown, hs.view, hs k]
  refine ⟨fun hk => ?_, fun hd => ⟨hheld _ hd, ?_⟩, fun hd => by rw [hown, if_neg hd],
    .of_move hmove⟩
  · rw [hown] at hk
    split at hk
    case isFalse => cases hk
    case isTrue hin =>
      obtain ⟨hstored, job, hjob, rfl, -, hnewrow, harch⟩ := insertRow_eq_some hk
      have hfree := hfine job hjob
      exact ⟨hstored, hfree, by rw [harch, hfree], job, hjob, rfl, hnewrow⟩
  · obtain ⟨slot, hslot⟩ := Option.isSome_iff_exists.1 (hset _ hd)
    obtain ⟨-, job, -, -, huniq, hstored, -⟩ := insertRow_eq_some hslot
    exact ⟨slot, job, by rw [hown, if_pos hd, hslot], hstored, huniq⟩

namespace Inserts

variable (h : Inserts db s s' jobs)
include h

/-- A new row is the only one under its id. -/
theorem has_unique (hk : s'.own k = some slot) (hjob : slot.stored = some job) {r : Job}
    (hr : slot.Has r) : r = job := by
  obtain ⟨-, -, harch, -⟩ := h.row hk
  rcases hr with hr | hr
  · exact (Option.some.inj (hjob.symm.trans hr)).symm
  · rw [harch] at hr
    cases hr

/-- The ids were free. -/
theorem unknown (hk : s'.own k = some slot) : ¬ (db k).Known := by
  intro ⟨r, hr⟩
  obtain ⟨hstored, harch, -⟩ := h.row hk
  rcases hr with hr | hr
  · rw [hstored] at hr
    cases hr
  · rw [harch] at hr
    cases hr

theorem view_of_known (hd : (db d).Known) : s'.view db d = db d := by
  cases hk : s'.own d with
  | none => exact view_of_not_own hk
  | some slot => exact absurd hd (h.unknown hk)

/-- No new row has completed. -/
theorem new_open (hsettled : ∀ job ∈ jobs, Settled env db s jobs job)
    (hk : s'.own k = some slot) : slot.completed = false := by
  obtain ⟨-, -, harch, job, hjob, -, hstored⟩ := h.row hk
  unfold Slot.completed
  rw [hstored, harch]
  rcases (hsettled job hjob).status with hst | hst <;> simp [hst]

theorem sound (hsettled : ∀ job ∈ jobs, Settled env db s jobs job)
    (hk : s'.own k = some slot) : slot.Sound k := by
  obtain ⟨-, -, harch, job, hjob, hid, hstored⟩ := h.row hk
  refine ⟨?_, fun _ _ => harch, ?_, ?_, ?_, ?_⟩
  · intro r hr
    rw [h.has_unique hk hstored hr, hid]
  · intro r hr
    rw [harch] at hr
    cases hr
  · intro r hr
    cases hstored.symm.trans hr
    exact (hsettled job hjob).judged
  · intro r hr hrun
    cases hstored.symm.trans hr
    rcases (hsettled job hjob).status with hst | hst <;> rw [hst] at hrun <;> cases hrun
  · intro r hr
    rw [h.has_unique hk hstored hr]
    exact (hsettled job hjob).waiting

theorem writes (hsettled : ∀ job ∈ jobs, Settled env db s jobs job) : Writes env db s' where
  sound _ _ hk := h.sound hsettled hk
  completed _ _ hk hc := absurd (Slot.known_of_completed hc) (h.unknown hk)
  stays _ _ hk hknown := absurd hknown (h.unknown hk)
  known k slot hk r hr d hd := by
    obtain ⟨-, -, -, job, hjob, -, hstored⟩ := h.row hk
    rw [h.has_unique hk hstored hr] at hd
    rcases (hsettled job hjob).known d hd with hin | hknown
    · obtain ⟨-, slot', job', hk', hstored', -⟩ := h.inside hin
      rw [view_of_own hk']
      exact Slot.known_of_stored hstored'
    · rwa [h.view_of_known hknown]
  satisfied k slot hk r hr hsat d hd := by
    obtain ⟨-, -, -, job, hjob, -, hstored⟩ := h.row hk
    rw [h.has_unique hk hstored hr] at hsat hd
    have hc := (hsettled job hjob).satisfied hsat d hd
    rwa [h.view_of_known (Slot.known_of_completed hc)]
  waits k slot hk r hr hwaits := by
    obtain ⟨-, -, -, job, hjob, -, hstored⟩ := h.row hk
    cases hstored.symm.trans hr
    obtain ⟨d, hd, hwait⟩ := (hsettled r hjob).waits hwaits
    refine ⟨d, hd, ?_⟩
    by_cases hin : d ∈ jobs.map (·.id)
    · obtain ⟨hheld, slot', -, hk', -⟩ := h.inside hin
      exact ⟨by rw [hheld]; exact nofun, by rw [view_of_own hk', h.new_open hsettled hk']⟩
    · obtain ⟨hheld, hopen⟩ := hwait.resolve_left hin
      exact ⟨h.locks.held d hheld, by rw [view_of_not_own (h.outside hin), hopen]⟩
  spared k slot hk r hr hpending d hd := by
    obtain ⟨-, -, -, job, hjob, -, hstored⟩ := h.row hk
    cases hstored.symm.trans hr
    by_cases hin : d ∈ jobs.map (·.id)
    · obtain ⟨hheld, slot', job'', hk', hstored', huniq⟩ := h.inside hin
      refine .inr ⟨by rw [hheld]; exact nofun, ?_⟩
      -- a pending job's parent among the jobs is pending as well
      obtain ⟨job', hjob', hid', hst'⟩ := (hsettled r hjob).inside hpending d hd hin
      rw [view_of_own hk']
      intro ⟨r', hr', hf, _⟩
      rw [h.has_unique hk' hstored' hr', ← huniq job' hjob' hid', hst'] at hf
      rcases hf with hf | hf | hf <;> cases hf
    · rw [view_of_not_own (h.outside hin)]
      exact ((hsettled r hjob).outside hpending d hd hin).imp_right
        fun hspared => ⟨h.locks.held d hspared.1, hspared.2⟩

end Inserts

/-- Settled jobs are inserted. -/
theorem moves_insert (hdb : Consistent env db) (hscan : s.scan = none) (hs : Untouched s)
    {failed : List JobId} (hsettled : ∀ job ∈ jobs, Settled env db s jobs job)
    (hfine : ∀ job ∈ jobs, (db job.id).archived = none)
    (hreq : s.phase.request env = .write (jobs.map (·.id)) (insertRow jobs failed) .finished)
    (hmove : Move (Phase.request env) db s rows mode s') : Asserts env db s' := by
  have hins := inserts_of_move hs hfine hreq hmove
  obtain ⟨-, -, -, hphase, hscan'⟩ := hmove.of_write hreq
  refine ⟨fun _ => hscan'.trans hscan, fun stmt next hreq' => ?_, hins.writes hsettled,
    .of_open (fun _ _ hd => hins.new_open hsettled hd) _, ?_, ?_⟩
  · rw [hphase] at hreq'
    cases hreq'
  · intro d slot hd _ _ k r _ hr _ hdep
    exact absurd (hdb.known k r (.inl hr) d hdep) (hins.unknown hd)
  · rw [hphase]
    exact trivial

-- == targets

/-- The status a transition leaves. -/
theorem transitioned_status (status : DependencyStatus) (target : Target) (now : DateTime)
    (row : Job) :
    (transitioned status target now row).status = target.terminalStatus.getD .pending := by
  cases target <;> rfl

/-- A transition keeps what else the transactions read, and leaves the
dependency status it was judged by. -/
theorem transitioned_keeps (env : Env) (status : DependencyStatus) (target : Target)
    (now : DateTime)
    (row : Job) :
    (transitioned status target now row).id = row.id ∧
      (transitioned status target now row).dependsOn = row.dependsOn ∧
      (transitioned status target now row).dependencyStatus = status ∧
      env.policy (transitioned status target now row) = env.policy row := by
  cases target <;> exact ⟨rfl, rfl, rfl, rfl⟩

theorem terminalStatus_cases {target : Target} {st : JobStatus}
    (h : target.terminalStatus = some st) : st = .completed ∨ st.EndedInFailure := by
  cases target <;> cases h <;> simp [JobStatus.EndedInFailure]

theorem writeTarget_eq (status : DependencyStatus) (target : Target) (now : DateTime)
    (slot : Slot) :
    (writeTarget status target now slot).stored
        = slot.stored.map (transitioned status target now) ∧
      (writeTarget status target now slot).archived = slot.archived := by
  unfold writeTarget
  split <;> exact ⟨rfl, rfl⟩

/-- The phase after a failure policy was looked up, for a failed job
that is the only one written. -/
theorem facts_failed (db : JobId → Slot) (henv : env.policy row = env.policy job)
    (hscan : s.scan = none) (hended : Ended s)
    (honly : ∀ k slot, s.own k = some slot → k = job.id ∧ slot.stored = some row ∧
      ∀ r, slot.Has r → r = row)
    {phase : Phase} (hphase : phase = Phase.applyFailurePolicy env job now) :
    OwesFailure env db s (LeftToFail phase s.scan) ∧ Facts env db s phase := by
  have hbatch : ∀ {p}, p = Phase.batchOutcome env job now → Facts env db s p := by
    intro p hp
    unfold Phase.batchOutcome at hp
    split at hp
    · split at hp
      · rw [hp]
        exact hended
      · rw [hp]
        exact trivial
    · rw [hp]
      exact trivial
  have hfails : ∀ k slot, s.own k = some slot → slot.Fails env → env.policy job ≠ some .manual := by
    intro k slot hk ⟨r, hr, _, _, hpolicy⟩
    rwa [(honly k slot hk).2.2 r hr, henv] at hpolicy
  unfold Phase.applyFailurePolicy at hphase
  split at hphase
  case h_1 hmanual =>
    exact ⟨.of_spared (fun d slot hd hf => hfails d slot hd hf hmanual) _, hbatch hphase⟩
  case h_2 =>
    rw [hphase]
    refine ⟨?_, hended, fun k slot hk _ => (honly k slot hk).1⟩
    intro _ _ _ _ _ _ _ _ _ _ _
    exact trivial
  case h_3 =>
    rw [hphase, hscan]
    refine ⟨?_, hended, nofun, fun scan h => by rw [hscan] at h; cases h⟩
    intro d slot hd _ _ _ _ _ _ _ _
    exact .inl (honly d slot hd).1

/-- A transition wrote its target, and nothing else. -/
structure Retargets (db : JobId → Slot) (s' : Tx) (job row : Job) (new : Slot) : Prop where
  own : ∀ k, s'.own k = if k = job.id then some new else none
  stored : new.stored = some row
  archived : new.archived = none
  id_eq : row.id = job.id
  deps : row.dependsOn = job.dependsOn

namespace Retargets

variable (h : Retargets db s' job row new)
include h

/-- The job's slot is the only one written. -/
theorem only (hk : s'.own k = some slot) : k = job.id ∧ slot = new := by
  rw [h.own] at hk
  split at hk
  case isTrue hid => exact ⟨hid, (Option.some.inj hk).symm⟩
  case isFalse => cases hk

theorem has_unique {r : Job} (hr : new.Has r) : r = row := by
  rcases hr with hr | hr
  · exact (Option.some.inj (h.stored.symm.trans hr)).symm
  · rw [h.archived] at hr
    cases hr

theorem completed_eq : new.completed = decide (row.status = .completed) := by
  unfold Slot.completed
  rw [h.stored, h.archived]
  simp

theorem view_self : s'.view db job.id = new := view_of_own (by rw [h.own, if_pos rfl])

theorem view_ne (hk : k ≠ job.id) : s'.view db k = db k :=
  view_of_not_own (by rw [h.own, if_neg hk])

/-- What had completed has still: the job had not. -/
theorem view_completed (hopen : (db job.id).completed = false) (hd : (db d).completed = true) :
    (s'.view db d).completed = true := by
  have hne : d ≠ job.id := by
    intro heq
    rw [heq, hopen] at hd
    cases hd
  rwa [h.view_ne hne]

/-- A row that did not fail fails no dependents. -/
theorem not_fails (hnot : ¬ row.status.EndedInFailure) (hd : s'.own d = some slot) :
    ¬ slot.Fails env := by
  intro ⟨r, hr, hf, _⟩
  obtain ⟨-, rfl⟩ := h.only hd
  rw [h.has_unique hr] at hf
  exact hnot hf

/-- The writes of a transition whose job goes on as it was judged, or
else ends. -/
theorem writes (hdb : Consistent env db) (hjob : LockedJob db s job) (hlocks : KeepsLocks s s')
    (hstatus : row.status = .pending ∨ row.status = .completed ∨ row.status.EndedInFailure)
    (hpending : row.status = .pending → Judged env db s job row.dependencyStatus)
    (hended : row.status ≠ .pending → row.dependencyStatus = job.dependencyStatus) :
    Writes env db s' := by
  have hhas : (db job.id).Has job := .inl hjob.stored
  have hopen : (db job.id).completed = false := by
    rw [(hdb.sound job.id).completed_eq hhas]
    simpa using hjob.unfinished
  refine ⟨?_, ?_, ?_, ?_, ?_, ?_, ?_⟩
  · intro k slot hk
    obtain ⟨rfl, rfl⟩ := h.only hk
    refine ⟨fun r hr => by rw [h.has_unique hr, h.id_eq], fun _ _ => h.archived, ?_, ?_, ?_, ?_⟩
    · intro r hr
      rw [h.archived] at hr
      cases hr
    · intro r hr hp hne
      cases h.stored.symm.trans hr
      rw [h.deps] at hne
      exact (hpending hp).judged hne
    · intro r hr hrun
      cases h.stored.symm.trans hr
      rw [hrun] at hstatus
      rcases hstatus with hst | hst | hst | hst | hst <;> cases hst
    · intro r hr hwait
      rw [h.has_unique hr] at hwait ⊢
      rw [h.deps]
      by_cases hp : row.status = .pending
      · exact (hpending hp).waiting hwait
      · rw [hended hp] at hwait
        exact (hdb.sound job.id).waiting job hhas hwait
  · intro k slot hk hc
    obtain ⟨rfl, rfl⟩ := h.only hk
    rw [hopen] at hc
    cases hc
  · intro k slot hk _
    obtain ⟨rfl, rfl⟩ := h.only hk
    exact Slot.known_of_stored h.stored
  · intro k slot hk r hr d hd
    obtain ⟨rfl, rfl⟩ := h.only hk
    rw [h.has_unique hr, h.deps] at hd
    by_cases hd_self : d = job.id
    · rw [hd_self, h.view_self]
      exact Slot.known_of_stored h.stored
    · rw [h.view_ne hd_self]
      exact hdb.known _ job hhas d hd
  · intro k slot hk r hr hsat d hd
    obtain ⟨rfl, rfl⟩ := h.only hk
    rw [h.has_unique hr] at hsat hd
    rw [h.deps] at hd
    refine h.view_completed hopen ?_
    by_cases hp : row.status = .pending
    · exact (hpending hp).satisfied hsat d hd
    · rw [hended hp] at hsat
      exact hdb.satisfied _ job hhas hsat d hd
  · intro k slot hk r hr hwaits
    obtain ⟨rfl, rfl⟩ := h.only hk
    cases h.stored.symm.trans hr
    obtain ⟨d, hd, hheld, hwait⟩ := (hpending hwaits.1).waits hwaits.2
    refine ⟨d, by rwa [h.deps], hlocks.held d hheld, ?_⟩
    by_cases hd_self : d = job.id
    · rw [hd_self, h.view_self, h.completed_eq, hwaits.1]
      rfl
    · rw [h.view_ne hd_self, hwait]
  · intro k slot hk r hr hp d hd
    obtain ⟨rfl, rfl⟩ := h.only hk
    cases h.stored.symm.trans hr
    rw [h.deps] at hd
    rcases (hpending hp).spared d hd with hc | ⟨hheld, hspared⟩
    · exact .inl (h.view_completed hopen hc)
    · refine .inr ⟨hlocks.held d hheld, ?_⟩
      by_cases hd_self : d = job.id
      · rw [hd_self]
        refine h.not_fails ?_ (by rw [h.own, if_pos rfl, h.view_self])
        rw [hp]
        simp [JobStatus.EndedInFailure]
      · rwa [h.view_ne hd_self]

end Retargets

/-- A transition's write leaves the job's new row. -/
theorem retargets_of_move (hdb : Consistent env db) (hs : Untouched s) (hjob : LockedJob db s job)
    {reschedule : Bool} (hphase : s.phase = .write job status target now reschedule)
    (hmove : Move (Phase.request env) db s rows mode s') :
    Retargets db s' job (transitioned status target now job)
      (writeTarget status target now (db job.id)) := by
  obtain ⟨-, hown, -⟩ := hmove.of_write (by rw [hphase]; rfl)
  obtain ⟨hid, hdeps, -, -⟩ := transitioned_keeps env status target now job
  obtain ⟨hstored, harchived⟩ := writeTarget_eq status target now (db job.id)
  refine ⟨fun k => ?_, ?_, ?_, hid, hdeps⟩
  · rw [hown, hs.view, hs k]
    by_cases hk : k = job.id
    · rw [if_pos (List.mem_singleton.2 hk), if_pos hk, hk]
    · rw [if_neg (fun h => hk (List.mem_singleton.1 h)), if_neg hk]
  · rw [hstored, hjob.stored]
    rfl
  · rw [harchived, (hdb.sound job.id).once job hjob.stored]

/-- A transition writes its target. -/
theorem moves_write (hdb : Consistent env db) (hscan : s.scan = none) {reschedule : Bool}
    (hphase : s.phase = .write job status target now reschedule)
    (hfacts : Facts env db s (.write job status target now reschedule))
    (hfine : reschedule = true → job.recurring = false)
    (hmove : Move (Phase.request env) db s rows mode s') : Asserts env db s' := by
  obtain ⟨hs, hjob, hretry, hterminal⟩ := hfacts
  have hrt := retargets_of_move hdb hs hjob hphase hmove
  obtain ⟨-, -, -, hnext, hscan'⟩ := hmove.of_write (by rw [hphase]; rfl)
  rw [hscan] at hscan'
  obtain ⟨-, -, hdep_status, hpolicy⟩ := transitioned_keeps env status target now job
  have hstatus := transitioned_status status target now job
  generalize transitioned status target now job = row at *
  generalize writeTarget status target now (db job.id) = new at *
  have hassemble : Writes env db s' → OwesRelease db s' (LeftToRelease s'.phase s'.scan) →
      OwesFailure env db s' (LeftToFail s'.phase s'.scan) → Facts env db s' s'.phase →
      Asserts env db s' := by
    intro hw hr hf hfacts
    refine ⟨fun _ => hscan', fun _ _ _ _ scan h => ?_, hw, hr, hf, hfacts⟩
    rw [hscan'] at h
    cases h
  unfold Phase.afterWrite at hnext
  cases hterm : target.terminalStatus with
  | none =>
      rw [hterm] at hnext hstatus
      have hst : row.status = .pending := hstatus
      have hnext : s'.phase = .finished := hnext
      have hw := hrt.writes hdb hjob (.of_move hmove) (.inl hst)
        (fun _ => by rw [hdep_status]; exact hretry hterm) (fun hne => absurd hst hne)
      refine hassemble hw (.of_open (fun d slot hd => ?_) _) (.of_spared ?_ _) ?_
      · obtain ⟨-, rfl⟩ := hrt.only hd
        rw [hrt.completed_eq, hst]
        rfl
      · exact fun d slot hd => hrt.not_fails (by rw [hst]; simp [JobStatus.EndedInFailure]) hd
      · rw [hnext]
        exact trivial
  | some st =>
      rw [hterm] at hnext hstatus
      have hst : row.status = st := hstatus
      have hover := terminalStatus_cases hterm
      have hne : row.status ≠ .pending := by
        rw [hst]
        rintro rfl
        rcases hover with h | h | h | h <;> cases h
      have hw := hrt.writes hdb hjob (.of_move hmove) (.inr (by rwa [hst]))
        (fun hp => absurd hp hne)
        (fun _ => by
          rw [hdep_status]
          exact hterminal (by rw [hterm]; exact Option.some_ne_none st))
      have hnext : s'.phase = Phase.afterTerminal env job st now reschedule := hnext
      unfold Phase.afterTerminal at hnext
      have hnot : (reschedule && job.recurring) = false := by
        cases reschedule with
        | false => rfl
        | true => simpa using hfine rfl
      rw [if_neg (by rw [hnot]; exact Bool.false_ne_true)] at hnext
      dsimp only at hnext
      by_cases hc : st = .completed
      · rw [if_pos hc] at hnext
        refine hassemble hw ?_ (.of_spared ?_ _) ?_
        · rw [hnext, hscan']
          intro _ _ _ _ _ _ _ _ _ _ _
          exact .inl trivial
        · exact fun d slot hd =>
            hrt.not_fails (by rw [hst, hc]; simp [JobStatus.EndedInFailure]) hd
        · rw [hnext]
          intro k slot hk
          obtain ⟨hk, rfl⟩ := hrt.only hk
          exact ⟨hk, by rw [hrt.completed_eq, hst, hc]; rfl⟩
      · rw [if_neg hc] at hnext
        have hended : Ended s' := by
          intro k slot hk
          obtain ⟨-, rfl⟩ := hrt.only hk
          exact ⟨row, hrt.stored, by rw [hst]; exact hover.resolve_left hc⟩
        have honly : ∀ k slot, s'.own k = some slot → k = job.id ∧ slot.stored = some row ∧
            ∀ r, slot.Has r → r = row := by
          intro k slot hk
          obtain ⟨hk, rfl⟩ := hrt.only hk
          exact ⟨hk, hrt.stored, fun r hr => hrt.has_unique hr⟩
        obtain ⟨hfail, hfacts⟩ := facts_failed db hpolicy hscan' hended honly hnext
        refine hassemble hw (.of_open (fun d slot hd => ?_) _) hfail hfacts
        obtain ⟨-, rfl⟩ := hrt.only hd
        rw [hrt.completed_eq, hst]
        simpa using hc

end Postgres

end Hammerwork
