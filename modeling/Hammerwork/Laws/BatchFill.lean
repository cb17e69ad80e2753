/-
A weighted batch keeps what it claimed.

The batch asks one level after another for the room left. It stops when
it is full, when no level is left, or when a claim fails; the jobs
claimed until then are what it returns, and an error is returned only
when there are none (`Ended`). Each level is asked at most once, so the
loop ends.

What the batch asks for is read off a claim that notes the question and
the answer with the database (`noting`); the notes change nothing else.
-/
import Hammerwork.Dispatch
import Hammerwork.Machine

namespace Hammerwork

variable {Db : Type} {claim : JobPriority → Nat → Db → DbReply Db (List Job)} {maxJobs : Nat}
  {candidates : List JobPriority} {jobs : List Job}

-- == the asks

/-- A claim of a level: how many jobs it was asked for, and its answer. -/
structure Ask where
  level : JobPriority
  room : Nat
  answer : Except HammerworkError (List Job)

/-- The jobs an ask claimed. -/
def Ask.claimed (ask : Ask) : List Job :=
  match ask.answer with
  | .ok jobs => jobs
  | .error _ => []

theorem Ask.claimed_of_ok {ask : Ask} {claimed : List Job} (h : ask.answer = .ok claimed) :
    ask.claimed = claimed := by
  unfold Ask.claimed
  rw [h]

theorem Ask.claimed_of_error {ask : Ask} {error : HammerworkError}
    (h : ask.answer = .error error) : ask.claimed = [] := by
  unfold Ask.claimed
  rw [h]

/-- The jobs the asks claimed. -/
def claimedBy (asks : List Ask) : List Job := asks.flatMap Ask.claimed

@[simp] theorem claimedBy_nil : claimedBy [] = [] := rfl

@[simp] theorem claimedBy_cons (ask : Ask) (asks : List Ask) :
    claimedBy (ask :: asks) = ask.claimed ++ claimedBy asks := rfl

/-- None of the asks failed. -/
def NoneFailed (asks : List Ask) : Prop := ∀ ask ∈ asks, ∃ claimed, ask.answer = .ok claimed

/-- The claim, with a note of every ask. -/
def noting (claim : JobPriority → Nat → Db → DbReply Db (List Job)) (level : JobPriority)
    (room : Nat) (db : Db × List Ask) : DbReply (Db × List Ask) (List Job) :=
  ((claim level room db.1).1,
    (claim level room db.1).2, db.2 ++ [⟨level, room, (claim level room db.1).1⟩])

-- == how it ended

/-- How a batch that had `jobs` ended: full, with no level left, or by a
failed claim; then the jobs claimed are returned, if there are any. -/
inductive Ended (maxJobs : Nat) (candidates : List JobPriority) (jobs : List Job)
    (asks : List Ask) : Except HammerworkError (List Job) → Prop where
  | full : NoneFailed asks → maxJobs ≤ (jobs ++ claimedBy asks).length →
      Ended maxJobs candidates jobs asks (.ok (jobs ++ claimedBy asks))
  | exhausted : NoneFailed asks → (∀ level ∈ candidates, level ∈ asks.map (·.level)) →
      Ended maxJobs candidates jobs asks (.ok (jobs ++ claimedBy asks))
  | kept (before : List Ask) (ask : Ask) (error : HammerworkError) :
      asks = before ++ [ask] → NoneFailed before → ask.answer = .error error →
      jobs ++ claimedBy asks ≠ [] →
      Ended maxJobs candidates jobs asks (.ok (jobs ++ claimedBy asks))
  | failed (before : List Ask) (ask : Ask) (error : HammerworkError) :
      asks = before ++ [ask] → NoneFailed before → ask.answer = .error error →
      jobs ++ claimedBy asks = [] → Ended maxJobs candidates jobs asks (.error error)

/-- What is returned is what was claimed. -/
theorem Ended.jobs_eq {asks : List Ask} {returned : List Job}
    (h : Ended maxJobs candidates jobs asks (.ok returned)) :
    returned = jobs ++ claimedBy asks := by
  generalize hout : Except.ok returned = outcome at h
  cases h <;> first | exact Except.ok.inj hout | cases hout

/-- What a batch that had `jobs` asked for, and how it ended. -/
structure Filling (claim : JobPriority → Nat → Db → DbReply Db (List Job)) (maxJobs : Nat)
    (candidates : List JobPriority) (jobs : List Job) (asks : List Ask)
    (outcome : Except HammerworkError (List Job)) : Prop where
  once : (asks.map (·.level)).Nodup
  candidate : ∀ ask ∈ asks, ask.level ∈ candidates
  answered : ∀ ask ∈ asks, ∃ db, (claim ask.level ask.room db).1 = ask.answer
  room : ∀ before ask after, asks = before ++ ask :: after →
    0 < ask.room ∧ (jobs ++ claimedBy before).length + ask.room = maxJobs
  ended : Ended maxJobs candidates jobs asks outcome

/-- A batch that asks for nothing. -/
theorem Filling.idle {outcome : Except HammerworkError (List Job)}
    (h : Ended maxJobs candidates jobs [] outcome) :
    Filling claim maxJobs candidates jobs [] outcome where
  once := List.nodup_nil
  candidate := fun _ h => by cases h
  answered := fun _ h => by cases h
  room := fun before ask after h => by cases before <;> cases h
  ended := h

/-- An ask before what a batch does with the other levels. -/
theorem Ended.cons {ask : Ask} {claimed : List Job} {asks : List Ask}
    {outcome : Except HammerworkError (List Job)} (hok : ask.answer = .ok claimed)
    (h : Ended maxJobs (candidates.filter (· ≠ ask.level)) (jobs ++ claimed) asks outcome) :
    Ended maxJobs candidates jobs (ask :: asks) outcome := by
  have hjobs : jobs ++ claimed ++ claimedBy asks = jobs ++ claimedBy (ask :: asks) := by
    simp [Ask.claimed_of_ok hok]
  have hnone : ∀ {asks}, NoneFailed asks → NoneFailed (ask :: asks) := by
    intro asks hasks next hnext
    rcases List.mem_cons.1 hnext with rfl | hnext
    · exact ⟨claimed, hok⟩
    · exact hasks next hnext
  cases h with
  | full hasks hfull =>
      rw [hjobs] at hfull ⊢
      exact .full (hnone hasks) hfull
  | exhausted hasks hall =>
      rw [hjobs]
      refine .exhausted (hnone hasks) fun level hlevel => ?_
      by_cases heq : level = ask.level
      · rw [heq]
        exact List.mem_cons_self ..
      · exact List.mem_cons_of_mem _
          (hall level (List.mem_filter.2 ⟨hlevel, decide_eq_true heq⟩))
  | kept before last error heq hbefore herror hsome =>
      rw [hjobs] at hsome ⊢
      exact .kept (ask :: before) last error (by rw [heq]; rfl) (hnone hbefore) herror hsome
  | failed before last error heq hbefore herror hnothing =>
      rw [hjobs] at hnothing
      exact .failed (ask :: before) last error (by rw [heq]; rfl) (hnone hbefore) herror hnothing

theorem Filling.cons {ask : Ask} {claimed : List Job} {asks : List Ask}
    {outcome : Except HammerworkError (List Job)} (hlevel : ask.level ∈ candidates)
    (hanswer : ∃ db, (claim ask.level ask.room db).1 = ask.answer)
    (hok : ask.answer = .ok claimed) (hroom : jobs.length < maxJobs)
    (hasked : ask.room = maxJobs - jobs.length)
    (h : Filling claim maxJobs (candidates.filter (· ≠ ask.level)) (jobs ++ claimed) asks
      outcome) : Filling claim maxJobs candidates jobs (ask :: asks) outcome where
  once := by
    rw [List.map_cons, List.nodup_cons]
    refine ⟨fun hmem => ?_, h.once⟩
    obtain ⟨next, hnext, heq⟩ := List.mem_map.1 hmem
    exact of_decide_eq_true (List.mem_filter.1 (h.candidate next hnext)).2 heq
  candidate := fun next hnext => by
    rcases List.mem_cons.1 hnext with rfl | hnext
    · exact hlevel
    · exact (List.mem_filter.1 (h.candidate next hnext)).1
  answered := fun next hnext => by
    rcases List.mem_cons.1 hnext with rfl | hnext
    · exact hanswer
    · exact h.answered next hnext
  room := fun before next after heq => by
    cases before with
    | nil =>
        injection heq with heq
        subst heq
        simp only [claimedBy_nil, List.append_nil]
        omega
    | cons first before =>
        injection heq with heq hrest
        subst heq
        have hnext := h.room before next after hrest
        rwa [List.append_assoc, ← Ask.claimed_of_ok hok, ← claimedBy_cons] at hnext
  ended := h.ended.cons hok

/-- A batch ends with the first ask that fails. -/
theorem Filling.last {ask : Ask} {error : HammerworkError} (hlevel : ask.level ∈ candidates)
    (hanswer : ∃ db, (claim ask.level ask.room db).1 = ask.answer)
    (herror : ask.answer = .error error) (hroom : jobs.length < maxJobs)
    (hasked : ask.room = maxJobs - jobs.length) :
    Filling claim maxJobs candidates jobs [ask]
      (if jobs.isEmpty then .error error else .ok jobs) where
  once := List.nodup_singleton _
  candidate := fun next hnext => by rwa [List.mem_singleton.1 hnext]
  answered := fun next hnext => by rwa [List.mem_singleton.1 hnext]
  room := fun before next after heq => by
    cases before with
    | nil =>
        injection heq with heq
        subst heq
        simp only [claimedBy_nil, List.append_nil]
        omega
    | cons first before =>
        injection heq with _ heq
        cases before <;> cases heq
  ended := by
    have hjobs : jobs ++ claimedBy [ask] = jobs := by simp [Ask.claimed_of_error herror]
    have hnone : NoneFailed [] := fun _ h => by cases h
    cases jobs with
    | nil => exact .failed [] ask error rfl hnone herror hjobs
    | cons first rest =>
        have hkept : Ended maxJobs candidates (first :: rest) [ask]
            (.ok (first :: rest ++ claimedBy [ask])) :=
          .kept [] ask error rfl hnone herror (by rw [hjobs]; simp)
        rwa [hjobs] at hkept

/-- The batch returns no more jobs than asked for, if no claim does. -/
theorem Filling.length_le {asks : List Ask} {outcome : Except HammerworkError (List Job)}
    (hclaim : ∀ level room db claimed, (claim level room db).1 = .ok claimed →
      claimed.length ≤ room) (hjobs : jobs.length ≤ maxJobs)
    (h : Filling claim maxJobs candidates jobs asks outcome) :
    (jobs ++ claimedBy asks).length ≤ maxJobs := by
  rcases List.eq_nil_or_concat asks with rfl | ⟨before, ask, rfl⟩
  · simpa using hjobs
  · -- the last ask was for what was left
    have hroom := (h.room before ask [] (by simp)).2
    have hlast : ask.claimed.length ≤ ask.room := by
      obtain ⟨db, hanswer⟩ := h.answered ask (by simp)
      cases hask : ask.answer with
      | ok claimed =>
          rw [Ask.claimed_of_ok hask]
          exact hclaim _ _ db _ (hanswer.trans hask)
      | error error =>
          rw [Ask.claimed_of_error hask]
          exact Nat.zero_le _
    have hsplit : claimedBy (before ++ [ask]) = claimedBy before ++ ask.claimed := by
      simp [claimedBy]
    rw [List.concat_eq_append, hsplit, ← List.append_assoc, List.length_append]
    omega

-- == the loop

/-- What the loop asks for, and how it ends, from any point of it. -/
theorem fillWeightedBatch_filling (weights : PriorityWeights) (seed : Nat → Nat)
    (claim : JobPriority → Nat → Db → DbReply Db (List Job)) (maxJobs : Nat) :
    ∀ (n : Nat) (candidates : List JobPriority) (attempt : Nat) (jobs : List Job) (db : Db)
      (noted : List Ask), candidates.length = n →
    ∃ asks outcome db',
      fillWeightedBatch weights seed (noting claim) maxJobs candidates attempt jobs (db, noted)
        = (outcome, db', noted ++ asks) ∧
      fillWeightedBatch weights seed claim maxJobs candidates attempt jobs db = (outcome, db') ∧
      Filling claim maxJobs candidates jobs asks outcome := by
  intro n
  induction n using Nat.strongRecOn with
  | ind n ih =>
      intro candidates attempt jobs db noted hn
      by_cases hroom : jobs.length < maxJobs
      · cases hpick : pickWeightedPriority candidates weights (seed attempt) with
        | none =>
            have hnone := pickWeightedPriority_none_iff.1 hpick
            subst hnone
            have hended : Ended maxJobs [] jobs [] (.ok (jobs ++ claimedBy [])) :=
              .exhausted (fun _ h => by cases h) fun _ h => by cases h
            refine ⟨[], .ok jobs, db, ?_, ?_, Filling.idle (by simpa using hended)⟩
            · rw [fillWeightedBatch, if_pos hroom, List.append_nil]
              rfl
            · rw [fillWeightedBatch, if_pos hroom]
              rfl
        | some priority =>
            have hmem := mem_of_pickWeightedPriority hpick
            have hfewer : (candidates.filter (· ≠ priority)).length < n := by
              rw [← hn]
              exact List.length_filter_lt_length_iff_exists.2 ⟨priority, hmem, by simp⟩
            rw [fillWeightedBatch_pick _ hroom hpick, fillWeightedBatch_pick _ hroom hpick]
            dsimp only [noting]
            cases hclaim : claim priority (maxJobs - jobs.length) db with
            | mk answer db₁ =>
              cases answer with
              | ok claimed =>
                  obtain ⟨asks, outcome, db', hnoted, hplain, hfilling⟩ := ih _ hfewer
                    (candidates.filter (· ≠ priority)) (attempt + 1) (jobs ++ claimed) db₁
                    (noted ++ [⟨priority, maxJobs - jobs.length, .ok claimed⟩]) rfl
                  refine ⟨⟨priority, maxJobs - jobs.length, .ok claimed⟩ :: asks, outcome, db',
                    ?_, hplain, hfilling.cons hmem ⟨db, by rw [hclaim]⟩ rfl hroom rfl⟩
                  rw [List.append_assoc] at hnoted
                  exact hnoted
              | error error =>
                  refine ⟨[⟨priority, maxJobs - jobs.length, .error error⟩],
                    if jobs.isEmpty then .error error else .ok jobs, db₁, ?_, ?_,
                    Filling.last hmem ⟨db, by rw [hclaim]⟩ rfl hroom rfl⟩
                  · dsimp only
                    split <;> rfl
                  · dsimp only
                    split <;> rfl
      · have hended : Ended maxJobs candidates jobs [] (.ok (jobs ++ claimedBy [])) :=
          .full (fun _ h => by cases h) (by simpa using hroom)
        refine ⟨[], .ok jobs, db, ?_, ?_, Filling.idle (by simpa using hended)⟩
        · rw [fillWeightedBatch, if_neg hroom, List.append_nil]
        · rw [fillWeightedBatch, if_neg hroom]

-- == the law

/-- Whatever the levels, the weights, the seeds and the claims: the batch
asks each level at most once, for the room left, and returns all the jobs
it claimed and nothing else; it stops when it is full, when every level
was asked, or when a claim fails, and it returns the error of a claim
only when nothing was claimed. If no claim returns more jobs than asked
for, neither does the batch. When the levels cannot be listed, nothing is
claimed. -/
theorem fillWeightedBatch_keeps (weights : PriorityWeights) (seed : Nat → Nat)
    (statements : ClaimStatements Db) (candidates : List JobPriority) (maxJobs : Nat) (db : Db)
    (hclaim : ∀ level room db claimed,
      (statements.claimBatchAttempt (some level) room db).1 = .ok claimed →
        claimed.length ≤ room) :
    (∃ asks outcome db',
      fillWeightedBatch weights seed
          (noting fun level => statements.claimBatchAttempt (some level)) maxJobs candidates 0 []
          (db, []) = (outcome, db', asks) ∧
      fillWeightedBatch weights seed (fun level => statements.claimBatchAttempt (some level))
          maxJobs candidates 0 [] db = (outcome, db') ∧
      Filling (fun level => statements.claimBatchAttempt (some level)) maxJobs candidates []
        asks outcome ∧
      ∀ jobs, outcome = .ok jobs → jobs.length ≤ maxJobs) ∧
    (weights.isStrict = false → ∀ error db', statements.runnablePriorities db = (.error error, db')
      → statements.claimMany (some weights) seed maxJobs db = (.error error, db')) := by
  refine ⟨?_, fun hweighted error db' hlist => ?_⟩
  · obtain ⟨asks, outcome, db', hnoted, hplain, hfilling⟩ :=
      fillWeightedBatch_filling weights seed
        (fun level => statements.claimBatchAttempt (some level)) maxJobs _ candidates 0 [] db [] rfl
    refine ⟨asks, outcome, db', hnoted, hplain, hfilling, fun jobs hjobs => ?_⟩
    have hended := hfilling.ended
    rw [hjobs] at hended
    rw [hended.jobs_eq]
    exact hfilling.length_le hclaim (Nat.zero_le _)
  · unfold ClaimStatements.claimMany ClaimStatements.runnableLevels
    dsimp only
    rw [if_neg (by simp [hweighted]), hlist]

/-- A database whose connection is reset after the first claim. -/
def resetConnection : ClaimStatements Nat where
  runnablePriorities calls := (.ok [3, 2], calls)
  claimAttempt _ calls := (.error (.queue "connection reset"), calls + 1)
  claimBatchAttempt _ room calls :=
    if calls = 0 ∧ 0 < room then (.ok [parentJob], 1)
    else (.error (.queue "connection reset"), calls + 1)

/-- The job claimed before is returned. -/
theorem fillWeightedBatch_keeps_resetConnection :
    ∃ asks, fillWeightedBatch ⟨∅, false⟩ id
        (noting fun level => resetConnection.claimBatchAttempt (some level)) 10 [.high, .normal] 0
        [] (0, []) = (.ok [parentJob], 2, asks) ∧ claimedBy asks = [parentJob] := by
  have hclaim : ∀ level room db claimed,
      (resetConnection.claimBatchAttempt (some level) room db).1 = .ok claimed →
        claimed.length ≤ room := by
    intro level room db claimed h
    by_cases hfirst : db = 0 ∧ 0 < room
    · simp only [resetConnection, if_pos hfirst, Except.ok.injEq] at h
      rw [← h]
      exact hfirst.2
    · simp only [resetConnection, if_neg hfirst] at h
      cases h
  obtain ⟨asks, outcome, db', hnoted, hplain, hfilling, -⟩ := (fillWeightedBatch_keeps ⟨∅, false⟩ id
    resetConnection [.high, .normal] 10 0 hclaim).1
  have hreset : fillWeightedBatch ⟨∅, false⟩ id
      (fun level => resetConnection.claimBatchAttempt (some level)) 10 [.high, .normal] 0 [] 0
      = (.ok [parentJob], 2) := by
    have hfirst : pickWeightedPriority [.high, .normal] ⟨∅, false⟩ 0 = some .high := by decide
    have hsecond : pickWeightedPriority [.normal] ⟨∅, false⟩ 1 = some .normal := by decide
    rw [fillWeightedBatch_pick _ (by decide) hfirst]
    show fillWeightedBatch _ _ _ _ [.normal] 1 [parentJob] 1 = _
    rw [fillWeightedBatch_pick _ (by decide) hsecond]
    rfl
  rw [hreset] at hplain
  obtain ⟨rfl, rfl⟩ := Prod.mk.inj hplain
  exact ⟨asks, hnoted, hfilling.ended.jobs_eq.symm⟩

end Hammerwork
