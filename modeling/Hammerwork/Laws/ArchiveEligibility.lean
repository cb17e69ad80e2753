/-
Who is archived, said three times.

A policy asks for the age of a job. The database compares the time it
finished with a cutoff, and the dashboard counts with cutoffs of its own.
The first two agree at every age (`ageThreshold_iff`): a cutoff before the
epoch or out of range is one no job meets, and no job is younger than zero.

The dashboard's count is the number archived if its cutoffs can be computed
and bound. They cannot for an age that leads out of the range of times.
-/
import Hammerwork.ArchiveEstimate
import Hammerwork.Laws.ArchiveRestore

namespace Hammerwork

namespace Archive

variable {codec : Codec} {policy : ArchivalPolicy} {now t : DateTime} {row : JobRow}

-- == cutoffs

/-- A time is of an age exactly if it is not after the cutoff. -/
theorem ageThreshold_iff {age : TimeDelta} (hnow : now ≤ maxUtc) (h0 : 0 ≤ t) (ht : t ≤ now) :
    (ageThreshold now age).any (t ≤ ·) = true ↔ age ≤ now - t := by
  unfold ageThreshold
  by_cases hage : age ≤ 0
  · rw [if_pos hage]
    simp only [Option.any_some, decide_eq_true_eq]
    dsimp only [DateTime, TimeDelta] at *
    omega
  · rw [if_neg hage]
    unfold checkedAddSigned
    by_cases hrange : minUtc ≤ now + -age ∧ now + -age ≤ maxUtc
    · rw [if_pos hrange, Option.filter_some]
      by_cases hepoch : 0 ≤ now + -age
      · simp only [hepoch, decide_true, if_true, Option.any_some, decide_eq_true_eq]
        dsimp only [DateTime, TimeDelta] at *
        omega
      · simp only [hepoch, decide_false, Bool.false_eq_true, if_false, Option.any_none, false_iff]
        dsimp only [DateTime, TimeDelta] at *
        omega
    · rw [if_neg hrange]
      simp only [Option.filter_none, Option.any_none, Bool.false_eq_true, false_iff]
      unfold minUtc at hrange
      dsimp only [DateTime, TimeDelta] at *
      omega

/-- When a row's job finished, by its status. -/
def finishTime (status : JobStatus) (row : JobRow) : Option DateTime :=
  match status with
  | .completed => row.completedAt
  | .failed => row.failedAt
  | .dead => row.failedAt
  | .timedOut => row.timedOutAt
  | _ => none

/-- The policy's age for a status. -/
def archiveAfter (policy : ArchivalPolicy) (status : JobStatus) : Option TimeDelta :=
  match status with
  | .completed => policy.archiveCompletedAfter
  | .failed => policy.archiveFailedAfter
  | .dead => policy.archiveDeadAfter
  | .timedOut => policy.archiveTimedOutAfter
  | _ => none

theorem asStr_inj {a b : JobStatus} (h : a.asStr = b.asStr) : a = b := by
  cases a <;> cases b <;> first | rfl | simp [JobStatus.asStr] at h

/-- The condition a candidate of a policy makes. -/
def eligible (now : DateTime) (row : JobRow)
    (candidate : Option TimeDelta × JobStatus × (JobRow → Option DateTime)) : Bool :=
  match candidate with
  | (after, status, time) =>
      row.status = status.asStr &&
        (after.bind (ageThreshold now)).any fun threshold => (time row).any (· ≤ threshold)

/-- A row meets one of the conditions of a policy if it is eligible for one
of its candidates. -/
theorem meets_statusConditions :
    meets (statusConditions policy now) row
      = (archivalCandidates policy).any (eligible now row) := by
  unfold meets statusConditions
  rw [List.any_filterMap]
  refine List.any_congr rfl fun candidate => ?_
  obtain ⟨after, status, time⟩ := candidate
  unfold eligible
  dsimp only
  cases after.bind (ageThreshold now) with
  | none => simp
  | some threshold => rfl

/-- It is so for the candidate of its own status only. -/
theorem eligible_own {status : JobStatus} (hstatus : row.status = status.asStr) :
    (archivalCandidates policy).any (eligible now row) = true ↔
      ∃ age time, archiveAfter policy status = some age ∧ finishTime status row = some time ∧
        (ageThreshold now age).any (time ≤ ·) = true := by
  have hown : ∀ other : JobStatus, (row.status = other.asStr) ↔ status = other := by
    intro other
    rw [hstatus]
    exact ⟨asStr_inj, fun h => by rw [h]⟩
  have hcase : ∀ (after : Option TimeDelta) (time : Option DateTime),
      ((after.bind (ageThreshold now)).any fun threshold => time.any (· ≤ threshold)) = true ↔
        ∃ age t, after = some age ∧ time = some t ∧ (ageThreshold now age).any (t ≤ ·) = true := by
    intro after time
    cases after <;> cases time <;> simp
  unfold archivalCandidates eligible
  simp only [List.any_cons, List.any_nil, hown, Bool.or_false]
  cases status <;> simp [archiveAfter, finishTime, hcase]

-- == by a row's age

/-- The fields of a policy that the age of a job is compared with. -/
def ArchivalPolicy.ages (policy : ArchivalPolicy) : Hammerwork.ArchivalPolicy where
  archiveCompletedAfter := policy.archiveCompletedAfter
  archiveFailedAfter := policy.archiveFailedAfter
  archiveDeadAfter := policy.archiveDeadAfter
  archiveTimedOutAfter := policy.archiveTimedOutAfter
  batchSize := policy.batchSize
  enabled := policy.enabled

theorem shouldArchive_iff {status : JobStatus} {age : TimeDelta} :
    policy.ages.shouldArchive status age = true ↔
      policy.enabled = true ∧ ∃ after, archiveAfter policy status = some after ∧ after ≤ age := by
  unfold Hammerwork.ArchivalPolicy.shouldArchive archiveAfter ArchivalPolicy.ages
  cases status <;> simp [Option.any_eq_true]

/-- A job that finished at `t` should be archived by its age exactly if the
database selects it, for a policy that is enabled. -/
theorem should_archive_iff_selected (policy : ArchivalPolicy) (status : JobStatus) (row : JobRow)
    (now t : DateTime) (hnow : now ≤ maxUtc) (h0 : 0 ≤ t) (ht : t ≤ now)
    (hstatus : row.status = status.asStr) (hfinished : finishTime status row = some t) :
    policy.ages.shouldArchive status (now - t) = true ↔
      policy.enabled = true ∧ meets (statusConditions policy now) row = true := by
  rw [shouldArchive_iff, meets_statusConditions, eligible_own hstatus]
  refine and_congr_right fun _ => ⟨fun h => ?_, fun h => ?_⟩
  · obtain ⟨after, hafter, hage⟩ := h
    exact ⟨after, t, hafter, hfinished, (ageThreshold_iff hnow h0 ht).2 hage⟩
  · obtain ⟨after, time, hafter, htime, hmeets⟩ := h
    cases hfinished.symm.trans htime
    exact ⟨after, hafter, (ageThreshold_iff hnow h0 ht).1 hmeets⟩

/-- Completed jobs are archived after four nanoseconds. -/
def archiveAfterFour : ArchivalPolicy := { archiveCompleted with archiveCompletedAfter := some 4 }

/-- At the boundary the job is old enough, and its row is selected. -/
theorem should_archive_at_boundary :
    archiveAfterFour.ages.shouldArchive .completed (9 - 5) = true ↔
      archiveAfterFour.enabled = true ∧
        meets (statusConditions archiveAfterFour 9) (completedReport []) = true :=
  should_archive_iff_selected archiveAfterFour .completed (completedReport []) 9 5 (by decide)
    (by decide) (by decide) rfl rfl

-- == the count query

/-- The cutoff of an age can be computed, and bound. -/
def Bindable (now : DateTime) (age : TimeDelta) : Prop :=
  firstTimestamp ≤ now - age ∧ now - age ≤ maxUtc

theorem subTimeDelta_ok {age : TimeDelta} {cutoff : DateTime}
    (h : subTimeDelta now age = .ok cutoff) : cutoff = now - age ∧ now - age ≤ maxUtc := by
  unfold subTimeDelta checkedAddSigned at h
  split at h
  case h_1 t ht =>
    cases h
    split at ht
    case isTrue hrange =>
      cases ht
      dsimp only [DateTime, TimeDelta] at *
      omega
    case isFalse => cases ht
  case h_2 => cases h

theorem subTimeDelta_of_bindable {age : TimeDelta} (h : Bindable now age) :
    subTimeDelta now age = .ok (now - age) := by
  have hrange : minUtc ≤ now + -age ∧ now + -age ≤ maxUtc := by
    unfold Bindable firstTimestamp at h
    unfold minUtc
    dsimp only [DateTime, TimeDelta] at *
    omega
  unfold subTimeDelta checkedAddSigned
  rw [if_pos hrange]
  rfl

/-- A row meets the condition of a candidate, by the dashboard's cutoff. -/
def counted (now : DateTime) (row : JobRow)
    (candidate : Option TimeDelta × JobStatus × (JobRow → Option DateTime)) : Bool :=
  match candidate with
  | (after, status, time) =>
      row.status = status.asStr &&
        after.any fun after => (time row).any (· ≤ now - after)

/-- The builder has conditions and cutoffs for some candidates, to be bound
behind `before`. -/
structure CountBuilder.Covers (now : DateTime) (before : List Param)
    (done : List (Option TimeDelta × JobStatus × (JobRow → Option DateTime)))
    (b : CountBuilder) : Prop where
  param : b.param = before.length + b.cutoffs.length
  cutoffs : b.cutoffs = (done.filterMap fun candidate => candidate.1.map (now - ·))
  isEmpty : b.conditions.isEmpty = b.cutoffs.isEmpty
  placed : ∀ condition ∈ b.conditions, 0 < condition.2.2 ∧ condition.2.2 ≤ b.param
  holds : ∀ row, b.conditions.any (CountQuery.holds
    (before ++ b.cutoffs.map Param.timestamp) row) = done.any (counted now row)

/-- A bound placeholder stays bound to its value. -/
theorem bound_append {params more : List Param} {placeholder : Nat} (h : 0 < placeholder)
    (hle : placeholder ≤ params.length) :
    bound (params ++ more) placeholder = bound params placeholder := by
  unfold bound
  exact List.getElem?_append_left (by omega)

theorem holds_append {params more : List Param}
    {condition : JobStatus × (JobRow → Option DateTime) × Nat} (h : 0 < condition.2.2)
    (hle : condition.2.2 ≤ params.length) :
    CountQuery.holds (params ++ more) row condition = CountQuery.holds params row condition := by
  obtain ⟨status, column, placeholder⟩ := condition
  unfold CountQuery.holds
  dsimp only
  rw [bound_append h hle]

/-- One more candidate is covered, if its cutoff can be computed. -/
theorem CountBuilder.Covers.push {before : List Param}
    {done : List (Option TimeDelta × JobStatus × (JobRow → Option DateTime))}
    {b b' : CountBuilder} (h : b.Covers now before done)
    {candidate : Option TimeDelta × JobStatus × (JobRow → Option DateTime)}
    (hpush : b.push now candidate = .ok b') : b'.Covers now before (done ++ [candidate]) := by
  obtain ⟨after, status, time⟩ := candidate
  cases after with
  | none =>
      cases hpush
      refine ⟨h.param, ?_, h.isEmpty, h.placed, fun row => ?_⟩
      · rw [h.cutoffs, List.filterMap_append]
        simp
      · rw [h.holds, List.any_append]
        simp [counted]
  | some after =>
      obtain ⟨cutoff, hcutoff, hb⟩ := bind_eq_ok.1 hpush
      cases hb
      obtain ⟨rfl, -⟩ := subTimeDelta_ok hcutoff
      have hlength : (before ++ b.cutoffs.map Param.timestamp).length = b.param := by
        rw [List.length_append, List.length_map, h.param]
      refine ⟨?_, ?_, ?_, ?_, fun row => ?_⟩
      · dsimp only
        rw [h.param, List.length_append, List.length_singleton, Nat.add_assoc]
      · dsimp only
        rw [h.cutoffs, List.filterMap_append]
        rfl
      · cases b.conditions <;> cases b.cutoffs <;> rfl
      · intro condition hcondition
        dsimp only at hcondition ⊢
        rcases List.mem_append.1 hcondition with hold | hnew
        · have hplaced := h.placed condition hold
          omega
        · rw [List.mem_singleton.1 hnew]
          exact ⟨Nat.succ_pos _, Nat.le_refl _⟩
      · dsimp only
        have hold : b.conditions.any (CountQuery.holds
            ((before ++ b.cutoffs.map Param.timestamp) ++ [.timestamp (now - after)]) row) =
            b.conditions.any (CountQuery.holds (before ++ b.cutoffs.map Param.timestamp) row) := by
          rw [Bool.eq_iff_iff, List.any_eq_true, List.any_eq_true]
          refine exists_congr fun condition => and_congr_right fun hcondition => ?_
          obtain ⟨hpos, hle⟩ := h.placed condition hcondition
          rw [holds_append hpos (hle.trans_eq hlength.symm)]
        have hnew : bound ((before ++ b.cutoffs.map Param.timestamp) ++
            [.timestamp (now - after)]) (b.param + 1) = some (.timestamp (now - after)) := by
          unfold bound
          rw [Nat.add_sub_cancel, ← hlength, List.getElem?_append_right (Nat.le_refl _),
            Nat.sub_self]
          rfl
        rw [List.map_append, List.map_singleton, ← List.append_assoc, List.any_append,
          List.any_append, hold, h.holds]
        congr 1
        simp only [List.any_cons, List.any_nil, Bool.or_false]
        unfold CountQuery.holds counted
        dsimp only
        rw [hnew]
        cases time row <;> simp

theorem CountBuilder.Covers.start (queue : Option String) :
    (⟨[], [], if queue.isSome then 1 else 0⟩ : CountBuilder).Covers now
      (queue.toList.map Param.text) [] := by
  refine ⟨?_, rfl, rfl, fun _ h => absurd h List.not_mem_nil, fun _ => rfl⟩
  cases queue <;> rfl

/-- So all candidates are. -/
theorem CountBuilder.Covers.foldlM {before : List Param} :
    ∀ {candidates done : List (Option TimeDelta × JobStatus × (JobRow → Option DateTime))}
      {b b' : CountBuilder}, b.Covers now before done →
      candidates.foldlM (CountBuilder.push now) b = .ok b' →
      b'.Covers now before (done ++ candidates) := by
  intro candidates
  induction candidates with
  | nil =>
      intro done b b' h hfold
      cases hfold
      rwa [List.append_nil]
  | cons candidate candidates ih =>
      intro done b b' h hfold
      rw [List.foldlM_cons] at hfold
      obtain ⟨b₁, hpush, hfold⟩ := bind_eq_ok.1 hfold
      have hcovers := ih (h.push hpush) hfold
      rwa [List.append_assoc, List.singleton_append] at hcovers

/-- Bindable cutoffs can be computed. -/
theorem foldlM_push_of_bindable :
    ∀ {candidates : List (Option TimeDelta × JobStatus × (JobRow → Option DateTime))}
      (b : CountBuilder),
      (∀ candidate ∈ candidates, ∀ after ∈ candidate.1, Bindable now after) →
      ∃ b', candidates.foldlM (CountBuilder.push now) b = .ok b' := by
  intro candidates
  induction candidates with
  | nil => exact fun b _ => ⟨b, rfl⟩
  | cons candidate candidates ih =>
      intro b hall
      have hpush : ∃ b₁, b.push now candidate = .ok b₁ := by
        obtain ⟨after, status, time⟩ := candidate
        cases after with
        | none => exact ⟨b, rfl⟩
        | some after =>
            have hbindable := hall _ List.mem_cons_self after rfl
            exact ⟨_, bind_eq_ok.2 ⟨_, subTimeDelta_of_bindable hbindable, rfl⟩⟩
      obtain ⟨b₁, hb₁⟩ := hpush
      obtain ⟨b', hb'⟩ := ih b₁ fun candidate hmem => hall candidate (List.mem_cons_of_mem _ hmem)
      refine ⟨b', ?_⟩
      rw [List.foldlM_cons]
      exact bind_eq_ok.2 ⟨b₁, hb₁, hb'⟩

/-- And no other cutoffs of an age can be computed and lie in the range. -/
theorem le_of_foldlM_push :
    ∀ {candidates : List (Option TimeDelta × JobStatus × (JobRow → Option DateTime))}
      {b b' : CountBuilder}, candidates.foldlM (CountBuilder.push now) b = .ok b' →
      ∀ candidate ∈ candidates, ∀ after ∈ candidate.1, now - after ≤ maxUtc := by
  intro candidates
  induction candidates with
  | nil => exact fun _ _ h => absurd h List.not_mem_nil
  | cons candidate candidates ih =>
      intro b b' hfold other hother after hafter
      rw [List.foldlM_cons] at hfold
      obtain ⟨b₁, hpush, hfold⟩ := bind_eq_ok.1 hfold
      rcases List.mem_cons.1 hother with rfl | hother
      · obtain ⟨after', status, time⟩ := other
        cases hafter
        obtain ⟨cutoff, hcutoff, -⟩ := bind_eq_ok.1 hpush
        exact (subTimeDelta_ok hcutoff).2
      · exact ih hfold other hother after hafter

-- == predictions

/-- The policy archives nothing, or each of its ages leads to a time that
can be computed and bound. -/
def Predictable (policy : ArchivalPolicy) (now : DateTime) : Prop :=
  policy.enabled = true → policy.batchSize ≠ 0 →
    ∀ candidate ∈ archivableStatuses policy, ∀ after ∈ candidate.1, Bindable now after

/-- The rows the dashboard counts. -/
def dashboardRows (db : Db) (queue : Option String) (policy : ArchivalPolicy) (now : DateTime) :
    Nat :=
  db.jobs.entries.countP fun ⟨_, row⟩ =>
    row.archivedAt.isNone && (queue.all fun queue => row.queueName = queue)
      && (archivableStatuses policy).any (counted now row)

/-- What the query counts. -/
theorem CountBuilder.Covers.counts {queue : Option String} {b : CountBuilder}
    {done : List (Option TimeDelta × JobStatus × (JobRow → Option DateTime))}
    (h : b.Covers now (queue.toList.map Param.text) done) (limit : Nat) (row : JobRow) :
    (CountQuery.mk (if queue.isSome then some 1 else none) b.conditions limit).counts
        (queue.toList.map Param.text ++ b.cutoffs.map Param.timestamp) row =
      (row.archivedAt.isNone && (queue.all fun queue => row.queueName = queue)
        && done.any (counted now row)) := by
  unfold CountQuery.counts
  rw [h.holds]
  cases queue <;> simp [bound]

/-- The dashboard's count, if there is one. -/
theorem countArchivable_iff {db : Db} {queue : Option String} {n : Nat} :
    countArchivable db queue policy now = .ok n ↔
      Predictable policy now ∧
        n = if policy.enabled = true ∧ policy.batchSize ≠ 0 then
          min policy.batchSize (dashboardRows db queue policy now) else 0 := by
  by_cases hactive : policy.enabled = true ∧ policy.batchSize ≠ 0
  · rw [if_pos hactive]
    have hpredict : Predictable policy now ↔
        ∀ candidate ∈ archivableStatuses policy, ∀ after ∈ candidate.1, Bindable now after :=
      ⟨fun h => h hactive.1 hactive.2, fun h _ _ => h⟩
    rw [hpredict]
    unfold countArchivable archivableCountQuery
    rw [if_neg (by simpa using hactive)]
    cases hfold : (archivableStatuses policy).foldlM (CountBuilder.push now)
        ⟨[], [], if queue.isSome then 1 else 0⟩ with
    | error e =>
        simp only [hfold, bind, Except.bind]
        refine iff_of_false (fun h => (nomatch h)) fun h => ?_
        obtain ⟨b, hb⟩ := foldlM_push_of_bindable ⟨[], [], if queue.isSome then 1 else 0⟩ h.1
        cases hfold.symm.trans hb
    | ok b =>
        have hcovers := (CountBuilder.Covers.start queue).foldlM hfold
        rw [List.nil_append] at hcovers
        have hle := le_of_foldlM_push hfold
        have hbindable : (∀ candidate ∈ archivableStatuses policy, ∀ after ∈ candidate.1,
            Bindable now after) ↔ b.cutoffs.all (firstTimestamp ≤ ·) = true := by
          rw [hcovers.cutoffs, List.all_eq_true]
          constructor
          · intro h cutoff hcutoff
            obtain ⟨candidate, hcandidate, hmap⟩ := List.mem_filterMap.1 hcutoff
            obtain ⟨after, hafter, rfl⟩ := Option.map_eq_some_iff.1 hmap
            exact decide_eq_true (h candidate hcandidate after hafter).1
          · intro h candidate hcandidate after hafter
            refine ⟨of_decide_eq_true (h (now - after) ?_), hle candidate hcandidate after hafter⟩
            exact List.mem_filterMap.2 ⟨candidate, hcandidate, by rw [hafter]; rfl⟩
        rw [hbindable]
        simp only [hfold, bind, Except.bind, pure, Except.pure]
        by_cases hempty : b.conditions.isEmpty
        · have hnone : b.cutoffs = [] := List.isEmpty_iff.1 (hcovers.isEmpty.symm.trans hempty)
          have hzero : dashboardRows db queue policy now = 0 := by
            unfold dashboardRows
            refine List.countP_eq_zero.2 fun entry _ => ?_
            have hholds := hcovers.holds entry.2
            rw [List.isEmpty_iff.1 hempty, List.any_nil] at hholds
            dsimp only
            rw [← hholds]
            simp
          simp [hempty, hnone, hzero, eq_comm]
        · rw [if_neg hempty]
          dsimp only
          by_cases hall : b.cutoffs.all (firstTimestamp ≤ ·) = true
          · have hcount : db.jobs.entries.countP (fun ⟨_, row⟩ =>
                (CountQuery.mk (if queue.isSome then some 1 else none) b.conditions
                  policy.batchSize).counts
                    (queue.toList.map Param.text ++ b.cutoffs.map Param.timestamp) row) =
                dashboardRows db queue policy now :=
              List.countP_congr fun entry _ => by
                dsimp only
                rw [hcovers.counts]
            rw [if_pos hall]
            show Except.ok (min policy.batchSize _) = .ok n ↔ _
            rw [hcount]
            simp [hall, eq_comm]
          · rw [if_neg hall]
            exact iff_of_false (fun h => nomatch h) fun h => hall h.1
  · rw [if_neg hactive]
    have hpredict : Predictable policy now := fun h h' => absurd ⟨h, h'⟩ hactive
    have hidle : (!policy.enabled || decide (policy.batchSize = 0)) = true := by
      rcases Classical.not_and_iff_not_or_not.1 hactive with h | h
      · simp [h]
      · simp [not_not.1 h]
    unfold countArchivable archivableCountQuery
    rw [if_pos hidle]
    simp [bind, Except.bind, pure, Except.pure, hpredict, eq_comm]

-- == the archive

/-- Decodable rows are taken in order, as many as are wanted. -/
theorem selectJobs_ids (wanted : Nat) {rows : List (Sigma fun _ : JobId => JobRow)}
    (hdecodable : ∀ e ∈ rows, ∃ job, e.2.intoJob codec e.1 = .ok job) :
    (selectJobs codec wanted rows).map (·.id) = (rows.take wanted).map (·.1) := by
  have hjobs : ∀ rows : List (Sigma fun _ : JobId => JobRow),
      (∀ e ∈ rows, ∃ job, e.2.intoJob codec e.1 = .ok job) →
      (rows.filterMap fun ⟨id, row⟩ => (row.intoJob codec id).toOption).map (·.id) =
        rows.map (·.1) := by
    intro rows
    induction rows with
    | nil => exact fun _ => rfl
    | cons e rows ih =>
        intro hdecodable
        obtain ⟨job, hjob⟩ := hdecodable e List.mem_cons_self
        obtain ⟨d, -, rfl⟩ := intoJob_eq_ok.1 hjob
        have htail := ih fun e' he' => hdecodable e' (List.mem_cons_of_mem _ he')
        have hhead : (e.2.intoJob codec e.1).toOption = some (e.2.job e.1 d) := by
          rw [hjob]
          rfl
        rw [List.filterMap_cons]
        dsimp only
        rw [hhead]
        dsimp only
        rw [List.map_cons, List.map_cons, htail]
        rfl
  have htaken := hjobs (rows.take wanted) fun e he => hdecodable e (List.mem_of_mem_take he)
  unfold selectJobs
  split
  case isTrue hnone =>
    rw [hnone]
    rfl
  case isFalse =>
    dsimp only
    have hlength := congrArg List.length htaken
    rw [List.length_map, List.length_map] at hlength
    rw [if_pos (.inl hlength)]
    exact htaken

/-- Compressing is exact, so every payload can be encoded. -/
theorem encodeArchivedPayload_ok
    (hgzip : ∀ level bytes, codec.decompress (codec.compress level bytes) = some bytes)
    (payload : Json) (policy : ArchivalPolicy) (config : ArchivalConfig) :
    ∃ stored, encodeArchivedPayload codec payload policy config = .ok stored := by
  unfold encodeArchivedPayload
  dsimp only
  split
  case isTrue => exact ⟨_, rfl⟩
  case isFalse =>
    split
    case isTrue =>
      split
      case isTrue =>
        refine ⟨_, bind_eq_ok.2 ⟨(), ?_, rfl⟩⟩
        unfold verifyCompressedPayload
        rw [if_pos (hgzip _ _)]
      case isFalse => exact ⟨_, rfl⟩
    case isFalse => exact ⟨_, rfl⟩

/-- Jobs that are not archived yet can be. -/
theorem insertArchived_ok
    (hgzip : ∀ level bytes, codec.decompress (codec.compress level bytes) = some bytes)
    (policy : ArchivalPolicy) (config : ArchivalConfig) (by_ : Archiving) :
    ∀ {jobs : List FullJob} {archive : Table JobId ArchiveRow}, (jobs.map (·.id)).Nodup →
      (∀ job ∈ jobs, archive.lookup job.id = none) →
      ∃ archive', insertArchived codec policy config by_ jobs archive = .ok archive' := by
  intro jobs
  induction jobs with
  | nil => exact fun _ _ => ⟨_, rfl⟩
  | cons job jobs ih =>
      intro archive hnodup hfresh
      obtain ⟨hhead, htail⟩ := List.nodup_cons.1 hnodup
      obtain ⟨stored, hstored⟩ := encodeArchivedPayload_ok hgzip job.payload policy config
      have hnew : ¬ (archive.lookup job.id).isSome = true := by
        rw [hfresh job List.mem_cons_self]
        decide
      have hrest : ∀ job' ∈ jobs, ∀ row : ArchiveRow,
          (archive.insert job.id row).lookup job'.id = none := by
        intro job' hmem row
        have hin : job'.id ∈ jobs.map (·.id) := List.mem_map_of_mem hmem
        have hne : job'.id ≠ job.id := by
          intro heq
          rw [heq] at hin
          exact hhead hin
        rw [Table.lookup_insert_if, if_neg hne]
        exact hfresh job' (List.mem_cons_of_mem _ hmem)
      obtain ⟨archive', harchive'⟩ := ih htail fun job' hmem => hrest job' hmem _
      refine ⟨archive', bind_eq_ok.2 ⟨stored, hstored, ?_⟩⟩
      dsimp only
      rw [if_neg hnew]
      exact harchive'

/-- How many jobs one batch archives, if no row is locked. -/
theorem archiveJobsOnce_fst
    (hgzip : ∀ level bytes, codec.decompress (codec.compress level bytes) = some bytes) {db : Db}
    (hdecodable : ∀ e ∈ db.jobs.entries, ∃ job, e.2.intoJob codec e.1 = .ok job)
    (hfresh : ∀ e ∈ db.jobs.entries, db.archive.lookup e.1 = none) (queue : Option String)
    (policy : ArchivalPolicy) (config : ArchivalConfig) (by_ : Archiving) (now : DateTime) :
    (archiveJobsOnce codec db (fun _ => false) queue policy config by_ now).1 =
      .ok (if policy.enabled = true ∧ policy.batchSize ≠ 0 then
        min policy.batchSize (db.jobs.entries.countP fun ⟨_, row⟩ =>
          row.archivedAt.isNone && (queue.all fun queue => row.queueName = queue)
            && meets (statusConditions policy now) row) else 0) := by
  unfold archiveJobsOnce
  dsimp only
  by_cases hactive : policy.enabled = true ∧ policy.batchSize ≠ 0
  · rw [if_pos hactive]
    by_cases hempty : (statusConditions policy now).isEmpty = true
    · have hnone : db.jobs.entries.countP (fun ⟨_, row⟩ =>
          row.archivedAt.isNone && (queue.all fun queue => row.queueName = queue)
            && meets (statusConditions policy now) row) = 0 := by
        refine List.countP_eq_zero.2 fun e _ => ?_
        dsimp only
        rw [List.isEmpty_iff.1 hempty]
        simp [meets]
      rw [if_pos (by simp [hempty]), hnone, Nat.min_zero]
    · have hbusy : ¬ (!policy.enabled || (statusConditions policy now).isEmpty ||
          decide (policy.batchSize = 0)) = true := by
        simp [hactive.1, hactive.2, hempty]
      rw [if_neg hbusy]
      obtain ⟨rows, hrows⟩ : ∃ rows, rows =
          candidates db (fun _ => false) queue (statusConditions policy now) := ⟨_, rfl⟩
      have hmem : ∀ e ∈ rows, e ∈ db.jobs.entries := fun e he => by
        rw [hrows] at he
        exact (List.mem_filter.1 (List.mem_mergeSort.1 he)).1
      have hlength : rows.length = db.jobs.entries.countP fun ⟨_, row⟩ =>
          row.archivedAt.isNone && (queue.all fun queue => row.queueName = queue)
            && meets (statusConditions policy now) row := by
        rw [hrows]
        unfold candidates
        rw [List.length_mergeSort, ← List.countP_eq_length_filter]
        simp
      have hids := @selectJobs_ids codec policy.batchSize rows fun e he =>
        hdecodable e (hmem e he)
      have hnodup : ((selectJobs codec policy.batchSize rows).map (·.id)).Nodup := by
        rw [hids]
        have hkeys : (rows.map (·.1)).Nodup := by
          rw [hrows]
          unfold candidates
          refine ((List.mergeSort_perm _ _).map _).nodup_iff.2 ?_
          exact (List.filter_sublist.map Sigma.fst).nodup db.jobs.nodupKeys
        exact (List.take_sublist _ _).map _ |>.nodup hkeys
      have hnew : ∀ job ∈ selectJobs codec policy.batchSize rows,
          db.archive.lookup job.id = none := by
        intro job hjob
        have hid : job.id ∈ (rows.take policy.batchSize).map (·.1) :=
          hids ▸ List.mem_map_of_mem hjob
        obtain ⟨e, he, heq⟩ := List.mem_map.1 hid
        rw [← heq]
        exact hfresh e (hmem e (List.mem_of_mem_take he))
      obtain ⟨archive, harchive⟩ := insertArchived_ok hgzip policy config by_ hnodup hnew
      have hcount : (selectJobs codec policy.batchSize rows).length =
          min policy.batchSize rows.length := by
        have hcount := congrArg List.length hids
        rwa [List.length_map, List.length_map, List.length_take] at hcount
      rw [← hlength, ← hcount, ← hrows]
      simp only [transaction, bind, Except.bind, harchive]
      rfl
  · have hidle : (!policy.enabled || (statusConditions policy now).isEmpty ||
        decide (policy.batchSize = 0)) = true := by
      rcases Classical.not_and_iff_not_or_not.1 hactive with h | h
      · simp [h]
      · simp [not_not.1 h]
    rw [if_neg hactive, if_pos hidle]

/-- Every row finished between the epoch and now. -/
def FinishedBy (now : DateTime) (db : Db) : Prop :=
  ∀ e ∈ db.jobs.entries, ∀ status : JobStatus, e.2.status = status.asStr →
    ∀ t ∈ finishTime status e.2, 0 ≤ t ∧ t ≤ now

/-- The two cutoffs agree on such rows. -/
theorem counted_eq_eligible (hnow : now ≤ maxUtc)
    (hfinished : ∀ status : JobStatus, row.status = status.asStr →
      ∀ t ∈ finishTime status row, 0 ≤ t ∧ t ≤ now)
    {candidate : Option TimeDelta × JobStatus × (JobRow → Option DateTime)}
    (hcandidate : candidate ∈ archivalCandidates policy) :
    counted now row candidate = eligible now row candidate := by
  obtain ⟨after, status, time⟩ := candidate
  have htime : time row = finishTime status row := by
    simp only [archivalCandidates, List.mem_cons, List.not_mem_nil, or_false, Prod.mk.injEq]
      at hcandidate
    rcases hcandidate with ⟨-, rfl, rfl⟩ | ⟨-, rfl, rfl⟩ | ⟨-, rfl, rfl⟩ | ⟨-, rfl, rfl⟩ <;> rfl
  unfold counted eligible
  dsimp only
  by_cases hstatus : row.status = status.asStr
  · rw [htime]
    cases after with
    | none => rfl
    | some after =>
        cases ht : finishTime status row with
        | none => simp
        | some t =>
            obtain ⟨h0, hle⟩ := hfinished status hstatus t ht
            have hsame := @ageThreshold_iff now t after hnow h0 hle
            simp only [Option.any_some, Option.bind_some]
            rw [Bool.eq_iff_iff, Bool.and_eq_true, Bool.and_eq_true]
            refine and_congr_right fun _ => ?_
            rw [hsame, decide_eq_true_iff]
            dsimp only [DateTime, TimeDelta] at *
            omega
  · simp [hstatus]

theorem reported_finished (dependents : List JobId) : FinishedBy 9 (reported dependents) := by
  intro e he status hstatus t ht
  cases List.mem_singleton.1 he
  have hcompleted : status = .completed := (@asStr_inj .completed status hstatus).symm
  rw [hcompleted] at ht
  cases ht
  decide

theorem reported_decodable (dependents : List JobId) :
    ∀ e ∈ (reported dependents).jobs.entries,
      ∃ job, e.2.intoJob plainCodec e.1 = .ok job := by
  intro e he
  cases List.mem_singleton.1 he
  exact ⟨_, intoJob_eq_ok.2 ⟨_, decode_completedReport dependents, rfl⟩⟩

end Archive

end Hammerwork
