/-
Each queue has at most one turn in a scheduled pass.

The calls of a pass are recorded beside the run, which answers as it does
without the record (`runScheduledPass_recording`). They are those of turns:
one for each queue, in the order of the names, under the policy of the queue,
which is enabled (`EachQueueOnce`). A turn is batches, full ones before the
last, and then at most one purge (`Turn.Regular`).

A failure ends the pass (`PassEnds`): the turns are those up to the queue it
happened in, and the queues after it wait for the next pass.
-/
import Hammerwork.ScheduledArchival

namespace Hammerwork

namespace Archive

variable {σ : Type}

-- == recording

/-- A call on the database, with its answer. -/
inductive Call where
  | queueNames (answer : Except Error (List String))
  | archiveJobs (queueName : Option String) (policy : ArchivalPolicy) (answer : Except Error Nat)
  | purge (queueName : Option String) (olderThan : DateTime) (answer : Except Error Nat)

/-- The queue a call is about. -/
def Call.queue? : Call → Option String
  | .queueNames _ => none
  | .archiveJobs queueName _ _ => queueName
  | .purge queueName _ _ => queueName

/-- The same queue, with the calls on it recorded. -/
def ArchiveQueue.recording (q : ArchiveQueue σ) : ArchiveQueue (σ × List Call) where
  now s := q.now s.1
  shouldStop s := ((q.shouldStop s.1).1, (q.shouldStop s.1).2, s.2)
  queueNames s := ((q.queueNames s.1).1, (q.queueNames s.1).2,
    s.2 ++ [.queueNames (q.queueNames s.1).1])
  archiveJobs queueName policy config reason archivedBy s :=
    let r := q.archiveJobs queueName policy config reason archivedBy s.1
    (r.1, r.2, s.2 ++ [.archiveJobs queueName policy r.1])
  purgeArchivedJobs olderThan s :=
    let r := q.purgeArchivedJobs olderThan s.1
    (r.1, r.2, s.2 ++ [.purge none olderThan r.1])
  purgeArchivedJobsInQueue name olderThan s :=
    let r := q.purgeArchivedJobsInQueue name olderThan s.1
    (r.1, r.2, s.2 ++ [.purge (some name) olderThan r.1])

@[simp] theorem recording_now (q : ArchiveQueue σ) (s : σ × List Call) :
    q.recording.now s = q.now s.1 := rfl

@[simp] theorem recording_shouldStop (q : ArchiveQueue σ) (s : σ × List Call) :
    q.recording.shouldStop s = ((q.shouldStop s.1).1, (q.shouldStop s.1).2, s.2) := rfl

@[simp] theorem recording_archiveJobs (q : ArchiveQueue σ) (queueName : Option String)
    (policy : ArchivalPolicy) (config : ArchivalConfig) (reason : ArchivalReason)
    (archivedBy : Option String) (s : σ × List Call) :
    q.recording.archiveJobs queueName policy config reason archivedBy s
      = ((q.archiveJobs queueName policy config reason archivedBy s.1).1,
          (q.archiveJobs queueName policy config reason archivedBy s.1).2,
          s.2 ++ [.archiveJobs queueName policy
            (q.archiveJobs queueName policy config reason archivedBy s.1).1]) := rfl

@[simp] theorem recording_purge (q : ArchiveQueue σ) (queueName : Option String)
    (olderThan : DateTime) (s : σ × List Call) :
    q.recording.purge queueName olderThan s
      = ((q.purge queueName olderThan s.1).1, (q.purge queueName olderThan s.1).2,
          s.2 ++ [.purge queueName olderThan (q.purge queueName olderThan s.1).1]) := by
  cases queueName <;> rfl

@[simp] theorem recording_listQueueNames (q : ArchiveQueue σ) (s : σ × List Call) :
    q.recording.listQueueNames s
      = ((q.listQueueNames s.1).1, (q.listQueueNames s.1).2,
          s.2 ++ [.queueNames (q.queueNames s.1).1]) := by
  simp only [ArchiveQueue.listQueueNames, ArchiveQueue.recording]
  cases q.queueNames s.1 with
  | mk answer w => cases answer <;> rfl

section Recording

variable (archiver : JobArchiver) (q : ArchiveQueue σ) (archivedBy : Option String)

/-- A run with the record answers and ends as the run without it. -/
def Erases {α : Type} (recorded : Except Error α × σ × List Call) (run : Except Error α × σ) :
    Prop :=
  recorded.1 = run.1 ∧ recorded.2.1 = run.2

theorem archiveInBatches_recording (queueName : Option String) (policy : ScheduledPolicy)
    (reason : ArchivalReason) (left total : Nat) (s : σ × List Call) :
    Erases
      (archiver.archiveInBatches q.recording archivedBy queueName policy reason (fun _ s => s)
        left total s)
      (archiver.archiveInBatches q archivedBy queueName policy reason (fun _ w => w)
        left total s.1) := by
  induction left generalizing total s with
  | zero => exact ⟨rfl, rfl⟩
  | succ left ih =>
      simp only [JobArchiver.archiveInBatches, recording_shouldStop, recording_archiveJobs]
      cases q.shouldStop s.1 with
      | mk stop w =>
          cases stop with
          | true => exact ⟨rfl, rfl⟩
          | false =>
              dsimp only
              cases q.archiveJobs queueName policy.toArchivalPolicy archiver.config reason
                archivedBy w with
              | mk answer w =>
                  cases answer with
                  | error e => exact ⟨rfl, rfl⟩
                  | ok jobs =>
                      dsimp only
                      split
                      · exact ⟨rfl, rfl⟩
                      · split
                        · exact ⟨rfl, rfl⟩
                        · exact ih _ _

theorem purgeAfter_recording (queueName : Option String) (policy : ScheduledPolicy)
    (stopped : Bool) (pass : ScheduledArchivalPass) (s : σ × List Call) :
    Erases (JobArchiver.purgeAfter q.recording queueName policy stopped pass s)
      (JobArchiver.purgeAfter q queueName policy stopped pass s.1) := by
  simp only [JobArchiver.purgeAfter]
  cases policy.purgeArchivedAfter with
  | none => exact ⟨rfl, rfl⟩
  | some after =>
      cases stopped with
      | true => exact ⟨rfl, rfl⟩
      | false =>
          simp only [Bool.false_eq_true, if_false, recording_shouldStop]
          cases q.shouldStop s.1 with
          | mk stop w =>
              cases stop with
              | true => exact ⟨rfl, rfl⟩
              | false =>
                  simp only [recording_now, recording_purge]
                  cases ageThreshold (q.now w) after with
                  | none => exact ⟨rfl, rfl⟩
                  | some olderThan =>
                      dsimp only
                      cases q.purge queueName olderThan w with
                      | mk answer w => cases answer <;> exact ⟨rfl, rfl⟩

theorem scheduledPassFor_recording (queueName : Option String) (policy : ScheduledPolicy)
    (pass : ScheduledArchivalPass) (s : σ × List Call) :
    Erases (archiver.scheduledPassFor q.recording archivedBy queueName policy pass s)
      (archiver.scheduledPassFor q archivedBy queueName policy pass s.1) := by
  simp only [JobArchiver.scheduledPassFor]
  obtain ⟨hanswer, hworld⟩ := archiveInBatches_recording archiver q archivedBy queueName policy
    .automatic maxArchivalBatchesPerOperation 0 s
  revert hanswer hworld
  cases archiver.archiveInBatches q archivedBy queueName policy .automatic (fun _ w => w)
    maxArchivalBatchesPerOperation 0 s.1 with
  | mk answer w =>
      cases archiver.archiveInBatches q.recording archivedBy queueName policy .automatic
        (fun _ s => s) maxArchivalBatchesPerOperation 0 s with
      | mk answer' s' =>
          intro hanswer hworld
          dsimp only at hanswer hworld
          subst hanswer hworld
          cases answer' with
          | error e => exact ⟨rfl, rfl⟩
          | ok batched => exact purgeAfter_recording q queueName policy _ _ s'

theorem scheduledPasses_recording (plan : List (String × ScheduledPolicy))
    (pass : ScheduledArchivalPass) (s : σ × List Call) :
    Erases (archiver.scheduledPasses q.recording archivedBy plan pass s)
      (archiver.scheduledPasses q archivedBy plan pass s.1) := by
  induction plan generalizing pass s with
  | nil => exact ⟨rfl, rfl⟩
  | cons entry plan ih =>
      obtain ⟨name, policy⟩ := entry
      simp only [JobArchiver.scheduledPasses, recording_shouldStop]
      split
      · exact ih pass s
      · cases q.shouldStop s.1 with
        | mk stop w =>
            cases stop with
            | true => exact ⟨rfl, rfl⟩
            | false =>
                dsimp only
                obtain ⟨hanswer, hworld⟩ := scheduledPassFor_recording archiver q archivedBy
                  (some name) policy pass (w, s.2)
                revert hanswer hworld
                dsimp only
                cases archiver.scheduledPassFor q archivedBy (some name) policy pass w with
                | mk answer w =>
                    cases archiver.scheduledPassFor q.recording archivedBy (some name) policy
                      pass (_, s.2) with
                    | mk answer' s' =>
                        intro hanswer hworld
                        dsimp only at hanswer hworld
                        subst hanswer hworld
                        cases answer' with
                        | error e => exact ⟨rfl, rfl⟩
                        | ok pass =>
                            dsimp only
                            split
                            · exact ⟨rfl, rfl⟩
                            · exact ih pass s'

/-- The record does not change the pass. -/
theorem runScheduledPass_recording (s : σ × List Call) :
    Erases (archiver.runScheduledPass q.recording archivedBy s)
      (archiver.runScheduledPass q archivedBy s.1) := by
  simp only [JobArchiver.runScheduledPass, recording_listQueueNames]
  split
  · split
    · exact scheduledPassFor_recording archiver q archivedBy none _ _ s
    · exact ⟨rfl, rfl⟩
  · split
    · cases q.listQueueNames s.1 with
      | mk answer w =>
          cases answer with
          | error e => exact ⟨rfl, rfl⟩
          | ok names => exact scheduledPasses_recording archiver q archivedBy _ _ _
    · exact scheduledPasses_recording archiver q archivedBy _ _ s

end Recording

-- == turns

/-- The failure of a call. -/
def failure? {α : Type} : Except Error α → Option Error
  | .error e => some e
  | .ok _ => none

/-- The number a call answers with. -/
def count (answer : Except Error Nat) : Nat := answer.toOption.getD 0

/-- What is done for a queue, or for all queues at once. -/
structure Turn where
  queueName : Option String
  policy : ScheduledPolicy
  batches : List (Except Error Nat)
  purge : Option (DateTime × Except Error Nat)

namespace Turn

def calls (t : Turn) : List Call :=
  t.batches.map (Call.archiveJobs t.queueName t.policy.toArchivalPolicy)
    ++ t.purge.toList.map fun p => Call.purge t.queueName p.1 p.2

/-- The failure that ends the turn. -/
def failure (t : Turn) : Option Error :=
  (t.batches.findSome? failure?).or (t.purge.bind fun p => failure? p.2)

/-- The jobs archived. -/
def archived (t : Turn) : Nat := (t.batches.map count).sum

/-- The jobs purged. -/
def purged (t : Turn) : Nat := (t.purge.map fun p => count p.2).getD 0

/-- The last batch was a short one, or it was the last that is allowed. -/
def Exhausted (t : Turn) : Prop :=
  t.batches.length = maxArchivalBatchesPerOperation
    ∨ ∃ n, t.batches.getLast? = some (.ok n) ∧ (n = 0 ∨ n < t.policy.batchSize)

/-- Full batches before the last one, no more than are allowed, and a purge
only after them and only if the policy has one. -/
structure Regular (t : Turn) : Prop where
  few : t.batches.length ≤ maxArchivalBatchesPerOperation
  full : ∀ b ∈ t.batches.dropLast, ∃ n, b = .ok n ∧ 0 < n ∧ t.policy.batchSize ≤ n
  purge : t.purge.isSome → t.policy.purgeArchivedAfter.isSome
    ∧ t.batches.findSome? failure? = none ∧ t.Exhausted

end Turn

/-- What a batch loop that may run `left` batches comes to. -/
structure Batched (policy : ScheduledPolicy) (left total : Nat) (batches : List (Except Error Nat))
    (result : Except Error (Nat × Bool)) : Prop where
  few : batches.length ≤ left
  full : ∀ b ∈ batches.dropLast, ∃ n, b = .ok n ∧ 0 < n ∧ policy.batchSize ≤ n
  failed : ∀ e, result = .error e → batches.findSome? failure? = some e
  archived : ∀ jobs stopped, result = .ok (jobs, stopped) →
    batches.findSome? failure? = none ∧ jobs = total + (batches.map count).sum
  exhausted : ∀ jobs, result = .ok (jobs, false) → batches.length = left
    ∨ ∃ n, batches.getLast? = some (.ok n) ∧ (n = 0 ∨ n < policy.batchSize)

section Turns

variable (archiver : JobArchiver) (q : ArchiveQueue σ) (archivedBy : Option String)

/-- A loop that ends without a batch. -/
theorem Batched.nil (policy : ScheduledPolicy) {left total : Nat} {stopped : Bool}
    (h : stopped = false → left = 0) : Batched policy left total [] (.ok (total, stopped)) where
  few := Nat.zero_le left
  full := by simp
  failed := by simp
  archived := by simp +contextual
  exhausted jobs hresult := by
    simp only [Except.ok.injEq, Prod.mk.injEq] at hresult
    exact .inl (h hresult.2).symm

/-- The last batch, after which the loop ends by itself. -/
theorem Batched.last (policy : ScheduledPolicy) {left total jobs : Nat}
    (h : jobs = 0 ∨ jobs < policy.batchSize) :
    Batched policy (left + 1) total [.ok jobs] (.ok (total + jobs, false)) where
  few := by simp
  full := by simp
  failed := by simp
  archived := by simp +contextual [failure?, count, Except.toOption]
  exhausted _ _ := .inr ⟨jobs, rfl, h⟩

/-- A batch that fails. -/
theorem Batched.failing (policy : ScheduledPolicy) {left total : Nat} (e : Error) :
    Batched policy (left + 1) total [.error e] (.error e) where
  few := by simp
  full := by simp
  failed := by simp [failure?]
  archived := by simp
  exhausted := by simp

/-- A full batch, after which the loop goes on. -/
theorem Batched.cons {policy : ScheduledPolicy} {left total jobs : Nat}
    {batches : List (Except Error Nat)} {result : Except Error (Nat × Bool)}
    (h : Batched policy left (total + jobs) batches result)
    (hsome : jobs ≠ 0) (hfull : ¬ jobs < policy.batchSize) :
    Batched policy (left + 1) total (.ok jobs :: batches) result where
  few := by simpa using h.few
  full b hb := by
    cases batches with
    | nil => simp at hb
    | cons b' batches =>
        rw [List.dropLast_cons_cons, List.mem_cons] at hb
        obtain rfl | hb := hb
        · exact ⟨jobs, rfl, by omega, by omega⟩
        · exact h.full b hb
  failed e hresult := by
    show batches.findSome? failure? = some e
    exact h.failed e hresult
  archived n stopped hresult := by
    obtain ⟨hnone, hsum⟩ := h.archived n stopped hresult
    refine ⟨by simpa [failure?] using hnone, ?_⟩
    simp only [List.map_cons, List.sum_cons, hsum, count, Except.toOption, Option.getD_some]
    omega
  exhausted n hresult := by
    obtain hleft | ⟨m, hlast, hm⟩ := h.exhausted n hresult
    · exact .inl (by simp [hleft])
    · exact .inr ⟨m, by rw [List.getLast?_cons, hlast]; rfl, hm⟩

theorem archiveInBatches_batched (queueName : Option String) (policy : ScheduledPolicy)
    (reason : ArchivalReason) (left total : Nat) (s : σ × List Call) :
    ∃ batches, (archiver.archiveInBatches q.recording archivedBy queueName policy reason
        (fun _ s => s) left total s).2.2
        = s.2 ++ batches.map (Call.archiveJobs queueName policy.toArchivalPolicy)
      ∧ Batched policy left total batches (archiver.archiveInBatches q.recording archivedBy
          queueName policy reason (fun _ s => s) left total s).1 := by
  induction left generalizing total s with
  | zero => exact ⟨[], by simp [JobArchiver.archiveInBatches], Batched.nil policy fun _ => rfl⟩
  | succ left ih =>
      simp only [JobArchiver.archiveInBatches, recording_shouldStop, recording_archiveJobs]
      cases q.shouldStop s.1 with
      | mk stop w =>
          cases stop with
          | true => exact ⟨[], by simp, Batched.nil policy nofun⟩
          | false =>
              dsimp only
              cases q.archiveJobs queueName policy.toArchivalPolicy archiver.config reason
                archivedBy w with
              | mk answer w =>
                  cases answer with
                  | error e => exact ⟨[.error e], by simp, Batched.failing policy e⟩
                  | ok jobs =>
                      dsimp only
                      by_cases hzero : jobs = 0
                      · subst hzero
                        exact ⟨[.ok 0], by simp, Batched.last policy (.inl rfl)⟩
                      · rw [if_neg hzero]
                        by_cases hshort : jobs < policy.batchSize
                        · rw [if_pos hshort]
                          exact ⟨[.ok jobs], by simp, Batched.last policy (.inr hshort)⟩
                        · rw [if_neg hshort]
                          obtain ⟨batches, hcalls, hbatched⟩ := ih (total + jobs) (w, s.2 ++ _)
                          refine ⟨.ok jobs :: batches, ?_, hbatched.cons hzero hshort⟩
                          rw [hcalls]
                          simp

/-- What the end of a turn comes to. -/
structure Purged (policy : ScheduledPolicy) (stopped : Bool) (pass : ScheduledArchivalPass)
    (purge : Option (DateTime × Except Error Nat)) (result : Except Error ScheduledArchivalPass) :
    Prop where
  due : purge.isSome → policy.purgeArchivedAfter.isSome ∧ stopped = false
  failed : ∀ e, result = .error e → (purge.bind fun p => failure? p.2) = some e
  passed : ∀ pass', result = .ok pass' →
    (purge.bind fun p => failure? p.2) = none ∧ pass'.jobsArchived = pass.jobsArchived
      ∧ pass'.jobsPurged = pass.jobsPurged + (purge.map fun p => count p.2).getD 0
      ∧ (pass'.stoppedEarly = false → stopped = false)

/-- A turn that ends without a purge. -/
theorem Purged.none (policy : ScheduledPolicy) {stopped early : Bool}
    (pass : ScheduledArchivalPass) (h : early = false → stopped = false) :
    Purged policy stopped pass none (.ok { pass with stoppedEarly := early }) where
  due := nofun
  failed := nofun
  passed pass' hresult := by
    cases hresult
    exact ⟨rfl, rfl, rfl, h⟩

theorem purgeAfter_purged (queueName : Option String) (policy : ScheduledPolicy)
    (stopped : Bool) (pass : ScheduledArchivalPass) (s : σ × List Call) :
    ∃ purge : Option (DateTime × Except Error Nat),
      (JobArchiver.purgeAfter q.recording queueName policy stopped pass s).2.2
        = s.2 ++ purge.toList.map (fun p => Call.purge queueName p.1 p.2)
      ∧ Purged policy stopped pass purge
        (JobArchiver.purgeAfter q.recording queueName policy stopped pass s).1 := by
  have hor : (pass.stoppedEarly || stopped) = false → stopped = false := by
    cases stopped <;> simp
  simp only [JobArchiver.purgeAfter]
  cases hafter : policy.purgeArchivedAfter with
  | none => exact ⟨none, by simp, Purged.none policy pass hor⟩
  | some after =>
      cases stopped with
      | true => exact ⟨none, by simp, Purged.none policy pass (by simp)⟩
      | false =>
          simp only [Bool.false_eq_true, if_false, recording_shouldStop]
          cases q.shouldStop s.1 with
          | mk stop w =>
              cases stop with
              | true => exact ⟨none, by simp, Purged.none policy pass (by simp)⟩
              | false =>
                  simp only [recording_now, recording_purge]
                  cases ageThreshold (q.now w) after with
                  | none => exact ⟨none, by simp, Purged.none policy pass hor⟩
                  | some olderThan =>
                      have hdue : policy.purgeArchivedAfter.isSome := by rw [hafter]; rfl
                      dsimp only
                      cases q.purge queueName olderThan w with
                      | mk answer w =>
                          cases answer with
                          | error e =>
                              refine ⟨some (olderThan, .error e), by simp,
                                ⟨fun _ => ⟨hdue, rfl⟩, ?_, ?_⟩⟩
                              · intro e' he
                                cases he
                                rfl
                              · intro pass' hresult
                                cases hresult
                          | ok jobs =>
                              refine ⟨some (olderThan, .ok jobs), by simp,
                                ⟨fun _ => ⟨hdue, rfl⟩, ?_, ?_⟩⟩
                              · intro e' he
                                cases he
                              · intro pass' hresult
                                cases hresult
                                exact ⟨rfl, rfl, rfl, fun _ => rfl⟩

/-- What a turn comes to, from the pass so far. -/
structure Turned (t : Turn) (pass : ScheduledArchivalPass)
    (result : Except Error ScheduledArchivalPass) : Prop where
  regular : t.Regular
  failed : ∀ e, result = .error e → t.failure = some e
  passed : ∀ pass', result = .ok pass' →
    t.failure = none ∧ pass'.jobsArchived = pass.jobsArchived + t.archived
      ∧ pass'.jobsPurged = pass.jobsPurged + t.purged
      ∧ (pass'.stoppedEarly = false → t.Exhausted)

theorem scheduledPassFor_turned (queueName : Option String) (policy : ScheduledPolicy)
    (pass : ScheduledArchivalPass) (s : σ × List Call) :
    ∃ t : Turn, t.queueName = queueName ∧ t.policy = policy
      ∧ (archiver.scheduledPassFor q.recording archivedBy queueName policy pass s).2.2
        = s.2 ++ t.calls
      ∧ Turned t pass
        (archiver.scheduledPassFor q.recording archivedBy queueName policy pass s).1 := by
  obtain ⟨batches, hcalls, hbatched⟩ := archiveInBatches_batched archiver q archivedBy queueName
    policy .automatic maxArchivalBatchesPerOperation 0 s
  simp only [JobArchiver.scheduledPassFor]
  revert hcalls hbatched
  cases archiver.archiveInBatches q.recording archivedBy queueName policy .automatic
    (fun _ s => s) maxArchivalBatchesPerOperation 0 s with
  | mk answer s' =>
      intro hcalls hbatched
      dsimp only at hcalls hbatched
      cases answer with
      | error e =>
          have hfailed := hbatched.failed e rfl
          refine ⟨⟨queueName, policy, batches, none⟩, rfl, rfl, by simp [hcalls, Turn.calls],
            ⟨⟨hbatched.few, hbatched.full, nofun⟩, ?_, nofun⟩⟩
          intro e' he
          cases he
          simp [Turn.failure, hfailed]
      | ok batched =>
          obtain ⟨jobs, stopped⟩ := batched
          obtain ⟨hnone, hjobs⟩ := hbatched.archived jobs stopped rfl
          obtain ⟨purge, hpurge, hpurged⟩ := purgeAfter_purged q queueName policy stopped
            { pass with jobsArchived := pass.jobsArchived + jobs } s'
          have hexhausted : stopped = false →
              Turn.Exhausted ⟨queueName, policy, batches, purge⟩ := by
            intro hstopped
            subst hstopped
            exact hbatched.exhausted jobs rfl
          refine ⟨⟨queueName, policy, batches, purge⟩, rfl, rfl, ?_, ⟨?_, ?_, ?_⟩⟩
          · rw [hpurge, hcalls, List.append_assoc]
            rfl
          · refine ⟨hbatched.few, hbatched.full, fun hsome => ?_⟩
            obtain ⟨hdue, hstopped⟩ := hpurged.due hsome
            exact ⟨hdue, hnone, hexhausted hstopped⟩
          · intro e he
            simp only [Turn.failure, hnone, Option.none_or]
            exact hpurged.failed e he
          · intro pass' hresult
            obtain ⟨hok, harchived, hjobsPurged, hstop⟩ := hpurged.passed pass' hresult
            refine ⟨?_, ?_, hjobsPurged, fun hearly => hexhausted (hstop hearly)⟩
            · simpa only [Turn.failure, hnone, Option.none_or] using hok
            · rw [harchived, hjobs, Nat.zero_add]
              rfl

/-- What the turns of a plan come to. -/
structure Planned (plan : List (String × ScheduledPolicy)) (turns : List Turn)
    (pass : ScheduledArchivalPass) (result : Except Error ScheduledArchivalPass) : Prop where
  inPlan : turns.map (fun t => (t.queueName, t.policy))
    <+: (plan.filter fun p => p.2.enabled).map fun p => (some p.1, p.2)
  regular : ∀ t ∈ turns, t.Regular
  untilFailure : ∀ t ∈ turns.dropLast, t.failure = none
  failed : ∀ e, result = .error e → ∃ t, turns.getLast? = some t ∧ t.failure = some e
  passed : ∀ pass', result = .ok pass' →
    (∀ t ∈ turns, t.failure = none)
      ∧ pass'.jobsArchived = pass.jobsArchived + (turns.map Turn.archived).sum
      ∧ pass'.jobsPurged = pass.jobsPurged + (turns.map Turn.purged).sum
  finished : ∀ pass', result = .ok pass' → pass'.stoppedEarly = false →
    (∀ t ∈ turns, t.Exhausted)
      ∧ turns.map (fun t => (t.queueName, t.policy))
        = (plan.filter fun p => p.2.enabled).map fun p => (some p.1, p.2)

/-- A pass that ends before a turn. -/
theorem Planned.nil {plan : List (String × ScheduledPolicy)} {pass pass' : ScheduledArchivalPass}
    (harchived : pass'.jobsArchived = pass.jobsArchived)
    (hpurged : pass'.jobsPurged = pass.jobsPurged)
    (h : pass'.stoppedEarly = false → plan = []) : Planned plan [] pass (.ok pass') where
  inPlan := List.nil_prefix
  regular := by simp
  untilFailure := by simp
  failed := nofun
  passed pass'' hresult := by
    cases hresult
    simp [harchived, hpurged]
  finished pass'' hresult hearly := by
    cases hresult
    simp [h hearly]

theorem Planned.skip {name : String} {policy : ScheduledPolicy}
    {plan : List (String × ScheduledPolicy)} {turns : List Turn} {pass : ScheduledArchivalPass}
    {result : Except Error ScheduledArchivalPass} (h : Planned plan turns pass result)
    (hdisabled : policy.enabled = false) :
    Planned ((name, policy) :: plan) turns pass result := by
  have hfilter : ((name, policy) :: plan).filter (fun p => p.2.enabled)
      = plan.filter fun p => p.2.enabled := by
    simp [hdisabled]
  exact ⟨by rw [hfilter]; exact h.inPlan, h.regular, h.untilFailure, h.failed, h.passed,
    by rw [hfilter]; exact h.finished⟩

section First

variable {name : String} {policy : ScheduledPolicy} {plan : List (String × ScheduledPolicy)}
  {t : Turn} {turns : List Turn} {pass pass' : ScheduledArchivalPass}

/-- The plan with its first queue, whose turn comes first. -/
private theorem first_inPlan (henabled : policy.enabled = true)
    (hqueue : t.queueName = some name) (hpolicy : t.policy = policy) :
    (((name, policy) :: plan).filter fun p => p.2.enabled).map (fun p => (some p.1, p.2))
      = (t.queueName, t.policy)
        :: (plan.filter fun p => p.2.enabled).map fun p => (some p.1, p.2) := by
  simp [henabled, hqueue, hpolicy]

/-- A turn that fails. -/
theorem Planned.failing {e : Error} (henabled : policy.enabled = true)
    (hqueue : t.queueName = some name) (hpolicy : t.policy = policy)
    (h : Turned t pass (.error e)) : Planned ((name, policy) :: plan) [t] pass (.error e) where
  inPlan := by
    rw [first_inPlan henabled hqueue hpolicy]
    exact List.prefix_append [(t.queueName, t.policy)] _
  regular := by simpa using h.regular
  untilFailure := by simp
  failed e' he := ⟨t, rfl, h.failed e' he⟩
  passed := nofun
  finished := nofun

/-- A turn in which the pass is stopped. -/
theorem Planned.stopping (henabled : policy.enabled = true)
    (hqueue : t.queueName = some name) (hpolicy : t.policy = policy)
    (h : Turned t pass (.ok pass')) (hstopped : pass'.stoppedEarly = true) :
    Planned ((name, policy) :: plan) [t] pass (.ok pass') where
  inPlan := by
    rw [first_inPlan henabled hqueue hpolicy]
    exact List.prefix_append [(t.queueName, t.policy)] _
  regular := by simpa using h.regular
  untilFailure := by simp
  failed := nofun
  passed pass'' hresult := by
    obtain ⟨hok, harchived, hpurged, -⟩ := h.passed pass'' hresult
    simpa [hok] using ⟨harchived, hpurged⟩
  finished pass'' hresult hearly := by
    cases hresult
    exact absurd hearly (by simp [hstopped])

/-- A turn after which the pass goes on. -/
theorem Planned.cons {result : Except Error ScheduledArchivalPass}
    (henabled : policy.enabled = true)
    (hqueue : t.queueName = some name) (hpolicy : t.policy = policy)
    (h : Turned t pass (.ok pass')) (hgoes : pass'.stoppedEarly = false)
    (hplanned : Planned plan turns pass' result) :
    Planned ((name, policy) :: plan) (t :: turns) pass result := by
  obtain ⟨hok, harchived, hpurged, hexhausted⟩ := h.passed pass' rfl
  refine ⟨?_, ?_, ?_, ?_, ?_, ?_⟩
  · rw [first_inPlan henabled hqueue hpolicy, List.map_cons]
    exact (List.prefix_cons_inj _).2 hplanned.inPlan
  · intro t' ht'
    obtain rfl | ht' := List.mem_cons.1 ht'
    · exact h.regular
    · exact hplanned.regular t' ht'
  · intro t' ht'
    cases turns with
    | nil => simp at ht'
    | cons t'' turns =>
        rw [List.dropLast_cons_cons, List.mem_cons] at ht'
        obtain rfl | ht' := ht'
        · exact hok
        · exact hplanned.untilFailure t' ht'
  · intro e he
    obtain ⟨t', hlast, hfailure⟩ := hplanned.failed e he
    exact ⟨t', by rw [List.getLast?_cons, hlast]; rfl, hfailure⟩
  · intro pass'' hresult
    obtain ⟨hnone, harchived', hpurged'⟩ := hplanned.passed pass'' hresult
    refine ⟨List.forall_mem_cons.2 ⟨hok, hnone⟩, ?_, ?_⟩
    · rw [harchived', harchived, List.map_cons, List.sum_cons, Nat.add_assoc]
    · rw [hpurged', hpurged, List.map_cons, List.sum_cons, Nat.add_assoc]
  · intro pass'' hresult hearly
    obtain ⟨hall, hplan⟩ := hplanned.finished pass'' hresult hearly
    refine ⟨List.forall_mem_cons.2 ⟨hexhausted hgoes, hall⟩, ?_⟩
    rw [first_inPlan henabled hqueue hpolicy, List.map_cons, hplan]

end First

theorem scheduledPasses_planned (plan : List (String × ScheduledPolicy))
    (pass : ScheduledArchivalPass) (s : σ × List Call) :
    ∃ turns : List Turn,
      (archiver.scheduledPasses q.recording archivedBy plan pass s).2.2
        = s.2 ++ turns.flatMap Turn.calls
      ∧ Planned plan turns pass
        (archiver.scheduledPasses q.recording archivedBy plan pass s).1 := by
  induction plan generalizing pass s with
  | nil => exact ⟨[], by simp [JobArchiver.scheduledPasses], Planned.nil rfl rfl fun _ => rfl⟩
  | cons entry plan ih =>
      obtain ⟨name, policy⟩ := entry
      simp only [JobArchiver.scheduledPasses, recording_shouldStop]
      by_cases hdisabled : policy.enabled = false
      · rw [if_pos (by simp [hdisabled])]
        obtain ⟨turns, hcalls, hplanned⟩ := ih pass s
        exact ⟨turns, hcalls, hplanned.skip hdisabled⟩
      · rw [if_neg (by simpa using hdisabled)]
        cases q.shouldStop s.1 with
        | mk stop w =>
            cases stop with
            | true => exact ⟨[], by simp, Planned.nil rfl rfl nofun⟩
            | false =>
                dsimp only
                have henabled : policy.enabled = true := by simpa using hdisabled
                obtain ⟨t, hqueue, hpolicy, hcalls, hturned⟩ := scheduledPassFor_turned archiver
                  q archivedBy (some name) policy pass (w, s.2)
                revert hcalls hturned
                cases archiver.scheduledPassFor q.recording archivedBy (some name) policy pass
                  (w, s.2) with
                | mk answer s' =>
                    intro hcalls hturned
                    dsimp only at hcalls hturned ⊢
                    cases answer with
                    | error e =>
                        exact ⟨[t], by simp [hcalls],
                          Planned.failing henabled hqueue hpolicy hturned⟩
                    | ok pass' =>
                        dsimp only
                        by_cases hstopped : pass'.stoppedEarly = true
                        · rw [if_pos hstopped]
                          exact ⟨[t], by simp [hcalls],
                            Planned.stopping henabled hqueue hpolicy hturned hstopped⟩
                        · rw [if_neg hstopped]
                          obtain ⟨turns, hcalls', hplanned⟩ := ih pass' s'
                          refine ⟨t :: turns, ?_, Planned.cons henabled hqueue hpolicy hturned
                            (by simpa using hstopped) hplanned⟩
                          rw [hcalls', hcalls, List.flatMap_cons, List.append_assoc]

end Turns

-- == plan

@[simp] theorem mem_sortedQueueNames {names : List String} {name : String} :
    name ∈ sortedQueueNames names ↔ name ∈ names := by
  rw [sortedQueueNames, List.mem_dedup, List.mem_insertionSort]

theorem nodup_sortedQueueNames (names : List String) : (sortedQueueNames names).Nodup :=
  List.nodup_dedup _

section Plan

variable (archiver : JobArchiver) {names : List String}

/-- Plan membership, unpacked: a queue of the plan is there under its own
policy, or is one of the names and there under the default policy. -/
theorem mem_plan {name : String} {policy : ScheduledPolicy} :
    (name, policy) ∈ archiver.plan names ↔ policy = archiver.policyFor (some name)
      ∧ (name ∈ archiver.policies ∨ name ∈ names) := by
  have hown : (name, policy)
        ∈ archiver.policies.entries.map (fun e : Sigma fun _ : String => ScheduledPolicy =>
          (e.1, e.2))
      ↔ policy ∈ archiver.policies.lookup name := by
    rw [AList.mem_lookup_iff]
    simp [List.mem_map]
  have hothers : (name, policy)
        ∈ (names.filter (· ∉ archiver.policies)).map (·, archiver.defaultPolicy)
      ↔ (name ∈ names ∧ name ∉ archiver.policies) ∧ policy = archiver.defaultPolicy := by
    simp only [List.mem_map, List.mem_filter, decide_eq_true_eq, Prod.mk.injEq]
    constructor
    · rintro ⟨name', hname, rfl, rfl⟩
      exact ⟨hname, rfl⟩
    · rintro ⟨hname, rfl⟩
      exact ⟨name, hname, rfl, rfl⟩
  rw [JobArchiver.plan, List.mem_insertionSort, List.mem_append, hown, hothers,
    JobArchiver.policyFor, ← AList.lookup_isSome]
  cases hlookup : archiver.policies.lookup name with
  | none => simp [hlookup, and_comm]
  | some own => simp [hlookup, eq_comm]

/-- The names of a plan go up. -/
theorem plan_pairwise (hnames : names.Nodup) :
    ((archiver.plan names).map Prod.fst).Pairwise (· < ·) := by
  have hnodup : ((archiver.policies.entries.map
        fun e : Sigma fun _ : String => ScheduledPolicy => (e.1, e.2))
      ++ (names.filter (· ∉ archiver.policies)).map (·, archiver.defaultPolicy)).map Prod.fst
      |>.Nodup := by
    rw [List.map_append, List.map_map, List.map_map, List.nodup_append']
    refine ⟨archiver.policies.nodupKeys, ?_, ?_⟩
    · exact (hnames.filter _).map fun _ _ h => h
    · intro name hown hother
      obtain ⟨e, he, rfl⟩ := List.mem_map.1 hown
      simp only [List.mem_map, List.mem_filter, Function.comp_apply, decide_eq_true_eq] at hother
      obtain ⟨name, ⟨-, hnot⟩, rfl⟩ := hother
      exact hnot (List.mem_map_of_mem he)
  rw [JobArchiver.plan, List.map_insertionSort (fun a b => a.1 ≤ b.1) (· ≤ ·) Prod.fst _
    fun _ _ _ _ => Iff.rfl]
  refine ((List.pairwise_insertionSort (fun a b : String => a ≤ b) _).and
    ((List.perm_insertionSort _ _).nodup_iff.2 hnodup)).imp ?_
  intro name name' h
  exact lt_of_le_of_ne h.1 h.2

end Plan

-- == pass

section Pass

variable (archiver : JobArchiver) (q : ArchiveQueue σ) (archivedBy : Option String)

/-- The queues there are: those with a policy of their own and the names in
the tables. -/
def JobArchiver.Knows (listed : Option (Except Error (List String))) (name : String) : Prop :=
  name ∈ archiver.policies ∨ ∃ names, listed = some (.ok names) ∧ name ∈ names

/-- The turns of a pass: one for each queue at most, in the order of the
names, under the queue's policy, and that is enabled. -/
structure EachQueueOnce (listed : Option (Except Error (List String))) (turns : List Turn) :
    Prop where
  inOrder : (turns.map Turn.queueName).Pairwise fun a b => ∃ x y, a = some x ∧ b = some y ∧ x < y
  own : ∀ t ∈ turns, t.policy = archiver.policyFor t.queueName ∧ t.policy.enabled = true
  known : ∀ t ∈ turns, ∀ name, t.queueName = some name → archiver.Knows listed name
  whole : ∀ t ∈ turns, t.queueName = none ↔ archiver.policies.entries = []
  regular : ∀ t ∈ turns, t.Regular
  untilFailure : ∀ t ∈ turns.dropLast, t.failure = none

/-- How a pass ends: with the failure of its last call, or with what its
turns come to, and unless it is stopped every queue with an enabled policy
has had its turn. -/
structure PassEnds (listed : Option (Except Error (List String))) (turns : List Turn)
    (result : Except Error ScheduledArchivalPass) : Prop where
  failed : ∀ e, result = .error e → (turns = [] ∧ listed = some (.error e))
    ∨ ∃ t, turns.getLast? = some t ∧ t.failure = some e
  passed : ∀ pass, result = .ok pass → (∀ t ∈ turns, t.failure = none)
    ∧ pass.jobsArchived = (turns.map Turn.archived).sum
    ∧ pass.jobsPurged = (turns.map Turn.purged).sum
  finished : ∀ pass, result = .ok pass → pass.stoppedEarly = false → (∀ t ∈ turns, t.Exhausted)
    ∧ ∀ name, (archiver.policyFor (some name)).enabled = true → archiver.Knows listed name →
      ∃ t ∈ turns, t.queueName = none ∨ t.queueName = some name

variable {archiver}

/-- The turns of a plan are those of a pass with policies. -/
theorem Planned.eachQueueOnce {names : List String} {turns : List Turn}
    {listed : Option (Except Error (List String))} {pass : ScheduledArchivalPass}
    {result : Except Error ScheduledArchivalPass} (hnodup : names.Nodup)
    (hpolicies : archiver.policies.entries ≠ [])
    (hknown : ∀ name ∈ names, archiver.Knows listed name)
    (h : Planned (archiver.plan names) turns pass result) :
    EachQueueOnce archiver listed turns := by
  have hmem : ∀ t ∈ turns, ∃ name, t.queueName = some name
      ∧ (name, t.policy) ∈ archiver.plan names ∧ t.policy.enabled = true := by
    intro t ht
    have hin := h.inPlan.subset (List.mem_map_of_mem ht)
    obtain ⟨⟨name, policy⟩, hplan, heq⟩ := List.mem_map.1 hin
    obtain ⟨hplan, henabled⟩ := List.mem_filter.1 hplan
    obtain ⟨hname, hpolicy⟩ := Prod.mk.inj heq
    exact ⟨name, hname.symm, hpolicy ▸ hplan, hpolicy ▸ henabled⟩
  refine ⟨?_, ?_, ?_, ?_, h.regular, h.untilFailure⟩
  · have hprefix := (h.inPlan.map Prod.fst).sublist
    rw [List.map_map, List.map_map] at hprefix
    refine List.Pairwise.sublist hprefix ?_
    rw [List.pairwise_map]
    have hplan := List.pairwise_map.1 (plan_pairwise archiver hnodup)
    exact (hplan.filter _).imp fun {a b} hab => ⟨a.1, b.1, rfl, rfl, hab⟩
  · intro t ht
    obtain ⟨name, hname, hplan, henabled⟩ := hmem t ht
    rw [hname]
    exact ⟨((mem_plan archiver).1 hplan).1, henabled⟩
  · intro t ht name hname
    obtain ⟨name', hname', hplan, -⟩ := hmem t ht
    obtain rfl : name' = name := Option.some.inj (hname'.symm.trans hname)
    obtain hown | hother := ((mem_plan archiver).1 hplan).2
    · exact .inl hown
    · exact hknown name' hother
  · intro t ht
    obtain ⟨name, hname, -⟩ := hmem t ht
    simp [hname, hpolicies]

/-- The end of a plan is that of a pass with policies. -/
theorem Planned.passEnds {names : List String} {turns : List Turn}
    {listed : Option (Except Error (List String))} {result : Except Error ScheduledArchivalPass}
    (hknown : ∀ name, archiver.Knows listed name → name ∈ archiver.policies ∨ name ∈ names)
    (h : Planned (archiver.plan names) turns .default result) :
    PassEnds archiver listed turns result := by
  refine ⟨fun e he => .inr (h.failed e he), ?_, ?_⟩
  · intro pass hresult
    simpa [ScheduledArchivalPass.default] using h.passed pass hresult
  · intro pass hresult hearly
    obtain ⟨hall, hplan⟩ := h.finished pass hresult hearly
    refine ⟨hall, fun name henabled hknows => ?_⟩
    have hin : (some name, archiver.policyFor (some name))
        ∈ turns.map fun t => (t.queueName, t.policy) := by
      rw [hplan]
      refine List.mem_map.2 ⟨(name, archiver.policyFor (some name)), ?_, rfl⟩
      exact List.mem_filter.2 ⟨(mem_plan archiver).2 ⟨rfl, hknown name hknows⟩, henabled⟩
    obtain ⟨t, ht, heq⟩ := List.mem_map.1 hin
    exact ⟨t, ht, .inr (Prod.mk.inj heq).1⟩

/-- One turn over all queues is a pass without policies. -/
theorem Turned.wholePass {t : Turn} {result : Except Error ScheduledArchivalPass}
    (hpolicies : archiver.policies.entries = []) (henabled : archiver.defaultPolicy.enabled = true)
    (hqueue : t.queueName = none) (hpolicy : t.policy = archiver.defaultPolicy)
    (h : Turned t .default result) :
    EachQueueOnce archiver none [t] ∧ PassEnds archiver none [t] result := by
  refine ⟨⟨?_, ?_, ?_, ?_, ?_, ?_⟩, ⟨?_, ?_, ?_⟩⟩
  · simp
  · simp [hqueue, hpolicy, JobArchiver.policyFor, henabled]
  · simp [hqueue]
  · simp [hqueue, hpolicies]
  · simpa using h.regular
  · simp
  · intro e he
    exact .inr ⟨t, rfl, h.failed e he⟩
  · intro pass hresult
    obtain ⟨hok, harchived, hpurged, -⟩ := h.passed pass hresult
    rw [ScheduledArchivalPass.default, Nat.zero_add] at harchived hpurged
    simp [hok, harchived, hpurged]
  · intro pass hresult hearly
    obtain ⟨-, -, -, hexhausted⟩ := h.passed pass hresult
    exact ⟨by simpa using hexhausted hearly, fun _ _ _ => ⟨t, by simp, .inl hqueue⟩⟩

/-- A pass with nothing to do. -/
theorem idle_pass (hpolicies : archiver.policies.entries = [])
    (hdisabled : archiver.defaultPolicy.enabled = false) :
    EachQueueOnce archiver none [] ∧ PassEnds archiver none [] (.ok .default) := by
  refine ⟨⟨by simp, by simp, by simp, by simp, by simp, by simp⟩, ⟨nofun, ?_, ?_⟩⟩
  · intro pass hresult
    cases hresult
    simp [ScheduledArchivalPass.default]
  · intro pass hresult _
    refine ⟨by simp, fun name henabled _ => ?_⟩
    have hlookup : archiver.policies.lookup name = none := by
      rw [AList.lookup_eq_none, AList.mem_keys, AList.keys, hpolicies]
      simp
    simp [JobArchiver.policyFor, hlookup, hdisabled] at henabled

variable (archiver)

/-- A pass gives each queue one turn at most, under its own policy or, if it
has none, under the default policy, and only if that policy is enabled; a
turn's loop ends, with at most one purge after it. A call that fails ends the
pass; without a failure and without a signal to stop, every queue with an
enabled policy has had its turn. -/
theorem scheduled_pass_each_queue_once (w : σ) :
    let run := archiver.runScheduledPass q.recording archivedBy (w, [])
    (run.1, run.2.1) = archiver.runScheduledPass q archivedBy w
      ∧ ∃ listed turns, run.2.2 = listed.toList.map Call.queueNames ++ turns.flatMap Turn.calls
        ∧ (listed.isSome ↔ archiver.policies.entries ≠ [] ∧ archiver.defaultPolicy.enabled = true)
        ∧ EachQueueOnce archiver listed turns ∧ PassEnds archiver listed turns run.1 := by
  intro run
  obtain ⟨hanswer, hworld⟩ := runScheduledPass_recording archiver q archivedBy (w, [])
  refine ⟨Prod.ext hanswer hworld, ?_⟩
  clear hanswer hworld
  simp only [run, JobArchiver.runScheduledPass, recording_listQueueNames, List.isEmpty_iff]
  by_cases hpolicies : archiver.policies.entries = []
  · rw [if_pos hpolicies]
    cases henabled : archiver.defaultPolicy.enabled with
    | true =>
        obtain ⟨t, hqueue, hpolicy, hcalls, hturned⟩ := scheduledPassFor_turned archiver q
          archivedBy none archiver.defaultPolicy .default (w, [])
        refine ⟨none, [t], ?_, by simp [hpolicies], hturned.wholePass hpolicies henabled hqueue
          hpolicy⟩
        simpa using hcalls
    | false =>
        exact ⟨none, [], by simp, by simp, idle_pass hpolicies henabled⟩
  · rw [if_neg hpolicies]
    cases henabled : archiver.defaultPolicy.enabled with
    | true =>
        simp only [if_true, ArchiveQueue.listQueueNames]
        cases q.queueNames w with
        | mk answer w =>
            cases answer with
            | error e =>
                refine ⟨some (.error e), [], by simp, by simp [hpolicies], ?_, ?_⟩
                · exact ⟨by simp, by simp, by simp, by simp, by simp, by simp⟩
                · refine ⟨?_, nofun, nofun⟩
                  intro e' he
                  cases he
                  exact .inl ⟨rfl, rfl⟩
            | ok names =>
                obtain ⟨turns, hcalls, hplanned⟩ := scheduledPasses_planned archiver q archivedBy
                  (archiver.plan (sortedQueueNames names)) .default (w, [.queueNames (.ok names)])
                refine ⟨some (.ok names), turns, by simpa using hcalls, by simp [hpolicies], ?_, ?_⟩
                · refine hplanned.eachQueueOnce (nodup_sortedQueueNames names) hpolicies ?_
                  intro name hname
                  exact .inr ⟨names, rfl, mem_sortedQueueNames.1 hname⟩
                · refine hplanned.passEnds fun name hknows => ?_
                  obtain hown | ⟨names', hlisted, hname⟩ := hknows
                  · exact .inl hown
                  · cases hlisted
                    exact .inr (mem_sortedQueueNames.2 hname)
    | false =>
        obtain ⟨turns, hcalls, hplanned⟩ := scheduledPasses_planned archiver q archivedBy
          (archiver.plan []) .default (w, [])
        refine ⟨none, turns, by simpa using hcalls, by simp, ?_, ?_⟩
        · exact hplanned.eachQueueOnce List.nodup_nil hpolicies (by simp)
        · refine hplanned.passEnds fun name hknows => ?_
          obtain hown | ⟨names, hlisted, -⟩ := hknows
          · exact .inl hown
          · cases hlisted

/-- A policy for jobs of every age. -/
def everything : ScheduledPolicy where
  archiveCompletedAfter := some 0
  archiveFailedAfter := some 0
  archiveDeadAfter := some 0
  archiveTimedOutAfter := some 0
  compressPayloads := false
  batchSize := 10
  enabled := true
  purgeArchivedAfter := none

/-- Two queues with policies of their own; the other queues are left alone. -/
def billingAndEmails : JobArchiver where
  policies := (AList.singleton "emails" everything).insert "billing" everything
  defaultPolicy := { everything with enabled := false }
  config := { compressionLevel := 6, verifyCompression := true }

/-- The names of the queues with finished jobs; billing cannot be archived. -/
def brokenBilling : ArchiveQueue (List String) where
  now _ := 0
  shouldStop w := (false, w)
  queueNames w := (.ok w, w)
  archiveJobs queueName _ _ _ _ w :=
    if queueName = some "billing" then
      (.error (.database "could not read block 7"), w)
    else
      (.ok (w.countP fun name => queueName = some name), w.filter fun name => queueName ≠ some name)
  purgeArchivedJobs _ w := (.ok 0, w)
  purgeArchivedJobsInQueue _ _ w := (.ok 0, w)

/-- A failure in one queue keeps the queues after it from their turn. -/
theorem failing_queue_stops_others :
    let run := billingAndEmails.runScheduledPass brokenBilling.recording none
      (["emails", "billing"], [])
    failure? run.1 = some (.database "could not read block 7") ∧ "emails" ∈ run.2.1
      ∧ (billingAndEmails.policyFor (some "emails")).enabled = true
      ∧ ∀ call ∈ run.2.2, call.queue? ≠ some "emails" := by
  decide

end Pass

end Archive

end Hammerwork
