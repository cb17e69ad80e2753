/-
The rate limit tokens of a claimed batch.

Every claimed job has one token, and it is in one place: with a job that
waits or is about to be processed (`unsettled`), used, refunded, or gone.
A step moves tokens between these places and loses those `leakedBy` names
(`next_accounts`). At the end nothing is unsettled, so the tokens are
conserved in a run exactly if none of its steps leaked one: the release of
a job that is no longer running its run hands back no token, and neither
does a task that is cancelled before its job is processed.
-/
import Hammerwork.Lib.Run
import Hammerwork.Proofs.Batch
import Mathlib.Data.List.Perm.Basic

namespace Hammerwork

namespace BatchRun

variable {concurrency : Nat} {s s' : State} {e : Event} {id : JobId}

-- == ledger

/-- All tokens of claimed jobs that can be accounted for. -/
def State.accounted (s : State) : List JobId :=
  s.started ++ (s.refunded ++ s.unsettled)

/-- The jobs whose token a step loses. -/
def leakedBy (s : State) : Event → List JobId
  | .held answer =>
      match s.pc with
      | .handing (job :: _) _ _ _ => if answer = .failed .error then [job.id] else []
      | _ => []
  | .released answer =>
      match s.pc with
      | .handing _ _ (job :: _) _ => if answer = .yes then [] else [job.id]
      | _ => []
  | .task i progress =>
      if progress = .held (.failed .error) then
        (s.running[i]?.map fun run => run.1.id).toList
      else
        []
  | .cancelled => unprocessed s.running
  | _ => []

-- == tasks

/-- A step of a task moves its token, or loses it. -/
theorem stepTask_accounts {i : Nat} {progress : Progress} (h : s.stepTask i progress = some s') :
    (s'.started ++ (s'.refunded ++ unprocessed s'.running)).count id
        + (if progress = .held (.failed .error) then
            (s.running[i]?.map fun run => run.1.id).toList else []).count id
      = (s.started ++ (s.refunded ++ unprocessed s.running)).count id ∧
      s'.queued = s.queued ∧ s'.pc.handed = s.pc.handed := by
  obtain ⟨job, phase, next, hrun, hnext, rfl⟩ := stepTask_cases h
  rw [hrun]
  obtain ⟨hrunning, hset, herase⟩ := split_running hrun
  have hbefore : (unprocessed s.running).count id
      = (unprocessed (s.running.take i)).count id
        + ((if phase ≠ .processing then [job.id] else []).count id
          + (unprocessed (s.running.drop (i + 1))).count id) := by
    conv_lhs => rw [hrunning]
    simp
  have hpc := setTask_handed s i job none
  rcases Phase.goesOn_cases hnext with ⟨call, rfl, hcall⟩ | ⟨hphase, hprogress, hnext⟩ |
    ⟨rfl, rfl, rfl⟩
  · rcases hcall with ⟨rfl, hprogress⟩ | ⟨rfl, hprogress⟩ | ⟨rfl, rfl⟩
    · refine ⟨?_, rfl, rfl⟩
      simp only [State.setTask, State.settleToken, hset, List.count_append,
        count_unprocessed_append, count_unprocessed_cons, if_neg hprogress, List.count_nil]
      simp at hbefore ⊢
      omega
    · refine ⟨?_, rfl, hpc⟩
      simp only [State.setTask, State.settleToken, State.refundRateToken, herase,
        List.count_append, count_unprocessed_append, if_neg hprogress, List.count_nil]
      simp at hbefore ⊢
      omega
    · refine ⟨?_, rfl, hpc⟩
      simp only [State.setTask, State.settleToken, herase, List.count_append,
        count_unprocessed_append, if_true, Option.map_some, Option.toList_some]
      simp at hbefore ⊢
      omega
  · have hopen : phase ≠ .processing := by
      intro heq
      rw [heq] at hphase
      rcases hphase with h | h <;> cases h
    rw [if_pos hopen] at hbefore
    rcases hnext with rfl | rfl
    · refine ⟨?_, rfl, hpc⟩
      simp only [State.setTask, State.settleToken, State.refundRateToken, herase,
        List.count_append, count_unprocessed_append, if_neg hprogress, List.count_nil]
      omega
    · refine ⟨?_, rfl, rfl⟩
      simp only [State.setTask, State.settleToken, hset, List.count_append,
        count_unprocessed_append, count_unprocessed_cons, if_neg hprogress, List.count_nil]
      simp only [ne_eq, not_true_eq_false, if_false, List.count_nil]
      omega
  · refine ⟨?_, rfl, hpc⟩
    simp only [State.setTask, State.settleToken, herase, List.count_append,
      count_unprocessed_append]
    simp at hbefore ⊢
    omega

-- == steps

/-- Handing back moves the waiting jobs. -/
theorem handBack_accounts (s : State) (after : After) (hpc : s.pc.handed = []) :
    (s.handBack after).accounted.count id = s.accounted.count id := by
  have hsplit := (List.filter_append_perm (doomed s.failedBatches) s.queued).map (·.id)
  have hcount := hsplit.count_eq id
  simp only [State.accounted, State.unsettled, State.handBack, handed_handing, hpc,
    List.count_append, List.map_append, List.map_nil, List.count_nil] at hcount ⊢
  omega

/-- Starting a job moves its token. -/
theorem startHeld_accounts {job : Job} {queued : List Job} {recent : Bool}
    (hqueued : s.queued = job :: queued) :
    (s.startHeld job queued recent).accounted.count id = s.accounted.count id := by
  have hcons : (s.queued.map (·.id)).count id
      = [job.id].count id + (queued.map (·.id)).count id := by
    rw [hqueued, List.map_cons, ← List.singleton_append, List.count_append]
  unfold State.startHeld
  dsimp only
  split
  case isTrue =>
    simp only [State.accounted, State.unsettled, State.refundRateToken,
      List.count_append] at hcons ⊢
    omega
  case isFalse =>
    -- a task that has just been made is not processing
    have hphase : ∀ a b : Bool,
        (if a then Phase.failing .renew else if b then .starting else .ready) ≠ .processing := by
      decide
    simp only [State.accounted, State.unsettled, List.count_append, count_unprocessed_append,
      count_unprocessed_cons] at hcons ⊢
    rw [if_pos (hphase _ _)]
    simp only [unprocessed, List.filter_nil, List.map_nil, List.count_nil]
    omega

/-- A step that hands nothing back and leaks nothing. -/
theorem accounted_of_eq (hqueued : s'.queued = s.queued) (hrunning : s'.running = s.running)
    (hstarted : s'.started = s.started) (hrefunded : s'.refunded = s.refunded)
    (hhanded : s'.pc.handed = s.pc.handed) (hleaks : leakedBy s e = []) :
    s'.accounted.count id + (leakedBy s e).count id = s.accounted.count id := by
  simp [State.accounted, State.unsettled, hqueued, hrunning, hstarted, hrefunded, hhanded, hleaks]

/-- A step of a task moves its token, or leaks it. -/
theorem task_accounts {i : Nat} {progress : Progress} (h : s.stepTask i progress = some s') :
    s'.accounted.count id + (leakedBy s (.task i progress)).count id = s.accounted.count id := by
  obtain ⟨htokens, hqueued, hhanded⟩ := @stepTask_accounts _ _ id _ _ h
  show _ + (if _ then _ else []).count id = _
  simp only [State.accounted, State.unsettled, hqueued, hhanded, List.count_append] at htokens ⊢
  omega

/-- A step moves tokens, and loses those it leaks. -/
theorem next_accounts (h : s.next concurrency e = some s') :
    s'.accounted.count id + (leakedBy s e).count id = s.accounted.count id := by
  cases next_moves h with
  | skip hpc | check hpc | batchStatus hpc | unpaused hpc | resumed hpc | drained hpc
  | filled hpc | beat hpc =>
      exact accounted_of_eq rfl rfl rfl rfl (by simp [hpc, Pc.handed]) rfl
  | heartbeat hpc => exact accounted_of_eq rfl rfl rfl rfl rfl rfl
  | idle hpc =>
      refine accounted_of_eq rfl rfl rfl rfl ?_ rfl
      rcases hpc with hpc | hpc <;> simp [hpc, Pc.handed]
  | paused hpc =>
      exact @handBack_accounts id { s with waiting := [] } .loop (by simp [hpc, Pc.handed])
  | shutdown hpc => exact handBack_accounts s .drain (by rw [hpc]; rfl)
  | start _ hqueued => exact startHeld_accounts hqueued
  | task _ htask => exact task_accounts htask
  | cancelled hpc =>
      simp only [State.accounted, State.unsettled, leakedBy, hpc, unprocessed, Pc.handed,
        List.count_append, List.filter_nil, List.map_nil, List.count_nil]
      omega
  | @failing job _ _ _ _ _ answer hpc hcall =>
      have hleaks : leakedBy s (.held answer) =
          if answer = .failed .error then [job.id] else [] := by
        unfold leakedBy
        rw [hpc]
      rcases HeldCall.answered_cases hcall with ⟨-, hanswer⟩ | ⟨hnext, -⟩ | ⟨hnext, -⟩
      · exact accounted_of_eq rfl rfl rfl rfl (by rw [hpc]; rfl) (by rw [hleaks, if_neg hanswer])
      · cases hnext
      · cases hnext
  | @failed job doomed _ _ _ answer _ hpc hcall =>
      have hleaks : leakedBy s (.held answer) =
          if answer = .failed .error then [job.id] else [] := by
        unfold leakedBy
        rw [hpc]
      have hcons : ((job :: doomed).map (·.id)).count id
          = [job.id].count id + (doomed.map (·.id)).count id := by
        rw [List.map_cons, ← List.singleton_append, List.count_append]
      rcases HeldCall.answered_cases hcall with ⟨hnext, -⟩ | ⟨hnext, hanswer⟩ | ⟨hnext, -, hanswer⟩
      · cases hnext
      · cases hnext
        rw [hleaks, if_neg hanswer]
        simp only [State.accounted, State.unsettled, hpc, handed_handing, List.map_append,
          List.count_append, hcons, if_true, List.count_nil]
        omega
      · cases hnext
        rw [hleaks, if_pos hanswer]
        simp only [State.accounted, State.unsettled, hpc, handed_handing, List.map_append,
          List.count_append, hcons, Bool.false_eq_true, if_false]
        omega
  | @released job released _ _ answer hpc =>
      have hleaks : leakedBy s (.released answer) = if answer = .yes then [] else [job.id] := by
        unfold leakedBy
        rw [hpc]
      have hcons : ((job :: released).map (·.id)).count id
          = [job.id].count id + (released.map (·.id)).count id := by
        rw [List.map_cons, ← List.singleton_append, List.count_append]
      rw [hleaks]
      simp only [State.accounted, State.unsettled, hpc, handed_handing, List.map_append,
        List.count_append, hcons]
      split
      case isTrue =>
        simp only [List.count_append, List.count_nil]
        omega
      case isFalse => omega

-- == runs

/-- The jobs whose token the first steps of a run lost. -/
def lostTokens {len : Nat} (r : Run (Step concurrency) len) : Nat → List JobId
  | 0 => []
  | i + 1 => lostTokens r i ++ leakedBy (r.state i) (r.event i)

/-- Every token is accounted for, or was lost. -/
theorem run_accounts {len : Nat} (r : Run (Step concurrency) len) (id : JobId) :
    ∀ i ≤ len, (r.state i).accounted.count id + (lostTokens r i).count id
      = (r.state 0).accounted.count id := by
  intro i
  induction i with
  | zero => simp [lostTokens]
  | succ i ih =>
      intro hi
      have hstep := @next_accounts _ _ _ _ id (r.next i hi)
      have hbefore := ih (by omega)
      simp only [lostTokens, List.count_append]
      omega

/-- Nothing is lost exactly if no step loses anything. -/
theorem lostTokens_eq_nil {len : Nat} {r : Run (Step concurrency) len} :
    ∀ {k : Nat}, lostTokens r k = [] ↔ ∀ i < k, leakedBy (r.state i) (r.event i) = [] := by
  intro k
  induction k with
  | zero => simp [lostTokens]
  | succ k ih =>
      simp only [lostTokens, List.append_eq_nil_iff, ih]
      refine ⟨fun h i hi => ?_, fun h => ⟨fun i hi => h i (by omega), h k (by omega)⟩⟩
      by_cases hik : i = k
      · rw [hik]
        exact h.2
      · exact h.1 i (by omega)

theorem startHeld_claim (s : State) (job : Job) (queued : List Job) (recent : Bool) :
    (s.startHeld job queued recent).taken = s.taken ∧
      (s.startHeld job queued recent).returned = s.returned := by
  unfold State.startHeld
  dsimp only
  split <;> exact ⟨rfl, rfl⟩

/-- The tokens taken and handed back at the claim are fixed. -/
theorem next_claim (h : s.next concurrency e = some s') :
    s'.taken = s.taken ∧ s'.returned = s.returned := by
  cases next_moves h with
  | start => exact startHeld_claim s ..
  | task _ htask =>
      obtain ⟨job, phase, next, -, -, rfl⟩ := stepTask_cases htask
      simp
  | _ => exact ⟨rfl, rfl⟩

-- == tokens

/-- A queue call of the step answered with an error. -/
def Event.isError : Event → Bool
  | .held (.renewed .error) | .held (.failed .error) => true
  | .task _ (.held (.renewed .error)) | .task _ (.held (.failed .error)) => true
  | .task _ (.recorded .error) => true
  | .released .error | .heartbeat .error => true
  | _ => false

/-- Every claimed job's token was used or refunded, and once: the token is
used if the job's processing started. The tokens of jobs that could not be
claimed were handed back. -/
def Conserved (claimed : List Job) (s : State) : Prop :=
  (s.started ++ s.refunded).Perm (claimed.map (·.id)) ∧
    s.taken = s.started.length + s.refunded.length + s.returned

/-- A step after which a token is gone: a job is released that is not
running its claimed run any more, or the grace period is over before a
started job is processed. -/
def Leaks (s : State) (e : Event) : Prop :=
  e = .released .no ∨ (e = .cancelled ∧ ∃ run ∈ s.running, run.2 ≠ .processing)

/-- A release is of a job. -/
theorem releases_job {answer : Answer} (h : s.next concurrency (.released answer) = some s') :
    ∃ job : Job, leakedBy s (.released answer) = if answer = .yes then [] else [job.id] := by
  show ∃ job : Job, (match s.pc with
    | .handing _ _ (job :: _) _ => if answer = .yes then [] else [job.id]
    | _ => []) = if answer = .yes then [] else [job.id]
  cases hpc : s.pc with
  | handing doomed call released after =>
      cases doomed with
      | nil =>
          cases released with
          | nil => cases after <;> simp [State.next, hpc] at h
          | cons job released => exact ⟨job, rfl⟩
      | cons job doomed => simp [State.next, hpc] at h
  | asking batches => cases batches <;> simp [State.next, hpc] at h
  | _ => simp [State.next, hpc] at h

/-- Without an error, the steps that leak are the two kinds. -/
theorem leakedBy_eq_nil (h : s.next concurrency e = some s') (hok : e.isError = false) :
    leakedBy s e = [] ↔ ¬ Leaks s e := by
  cases e with
  | held answer =>
      have hanswer : answer ≠ .failed .error := fun heq => by rw [heq] at hok; cases hok
      have hnil : leakedBy s (.held answer) = [] := by
        show (match s.pc with
          | .handing (job :: _) _ _ _ => if answer = .failed .error then [job.id] else []
          | _ => []) = []
        split
        case h_1 => exact if_neg hanswer
        case h_2 => rfl
      simp [hnil, Leaks]
  | released answer =>
      obtain ⟨job, hjob⟩ := releases_job h
      cases answer with
      | error => cases hok
      | yes => simp [hjob, Leaks]
      | no => simp [hjob, Leaks]
  | task i progress =>
      have hprogress : progress ≠ .held (.failed .error) := fun heq => by rw [heq] at hok; cases hok
      simp [leakedBy, Leaks, hprogress]
  | cancelled => simp [leakedBy, Leaks, unprocessed, List.filter_eq_nil_iff]
  | _ => simp [leakedBy, Leaks]

/-- The tokens of a batch are conserved exactly if no job is released in
vain and none is cancelled before it is processed. -/
theorem tokens_conserved_iff {len capacity batchConcurrency : Nat} {free : List Bool}
    {claimed : List Job} (r : Run (Step (max batchConcurrency 1)) len)
    (hstart : r.state 0 = acquireBatch capacity free claimed)
    (hlimit : claimed.length ≤ takeTokens capacity free)
    (hended : (r.state len).pc = .ended)
    (hok : ∀ i < len, (r.event i).isError = false) :
    Conserved claimed (r.state len) ↔ ∀ i < len, ¬ Leaks (r.state i) (r.event i) := by
  have hcleared : Cleared (max batchConcurrency 1) (r.state len) := by
    refine r.invariant ?_ (fun s e s' hstep hs => next_cleared hstep (by omega) hs) len
      (Nat.le_refl _)
    rw [hstart]
    unfold Cleared acquireBatch
    cases claimed <;> simp
  have hclaim := r.invariant (P := fun s => s.taken = takeTokens capacity free ∧
    s.returned = takeTokens capacity free - claimed.length) (by rw [hstart]; exact ⟨rfl, rfl⟩)
    (fun s e s' hstep hs => by
      obtain ⟨htaken, hreturned⟩ := next_claim hstep
      rw [htaken, hreturned]
      exact hs) len (Nat.le_refl _)
  have hfirst : (r.state 0).accounted = claimed.map (·.id) := by
    rw [hstart]
    unfold acquireBatch State.accounted State.unsettled
    cases claimed <;> simp [unprocessed, Pc.handed]
  have haccounts : ((r.state len).started ++ (r.state len).refunded ++ lostTokens r len).Perm
      (claimed.map (·.id)) := by
    refine List.perm_iff_count.2 fun id => ?_
    have hcount := run_accounts r id len (Nat.le_refl _)
    rw [hfirst] at hcount
    simp only [State.accounted, unsettled_ended hcleared hended, List.append_nil,
      List.count_append] at hcount ⊢
    omega
  have hlost : lostTokens r len = [] ↔ ∀ i < len, ¬ Leaks (r.state i) (r.event i) := by
    rw [lostTokens_eq_nil]
    exact forall₂_congr fun i hi => leakedBy_eq_nil (r.next i hi) (hok i hi)
  rw [← hlost]
  have hlength := haccounts.length_eq
  simp only [List.length_append, List.length_map] at hlength
  constructor
  · intro hconserved
    have hsame := hconserved.1.length_eq
    simp only [List.length_append, List.length_map] at hsame
    exact List.length_eq_zero_iff.1 (by omega)
  · intro hnone
    rw [hnone, List.append_nil] at haccounts
    refine ⟨haccounts, ?_⟩
    rw [hnone, List.length_nil] at hlength
    omega

-- == examples

/-- The events of a batch of one job that runs. -/
def oneRuns : List Event :=
  [.skip, .start true, .filled, .task 0 .polled, .task 0 .finished, .skip, .filled, .idle]

/-- The events of a batch of two, one of which runs when the worker shuts
down; the other is not running its claimed run any more. -/
def oneLost : List Event :=
  [.skip, .start true, .filled, .task 0 .polled, .shutdown, .released .no, .handed,
    .task 0 .finished, .idle]

/-- A batch goes on, or stays as it is where the event cannot happen. -/
def State.go (s : State) (e : Event) : State := (s.next 1 e).getD s

theorem step_go (h : (s.next 1 e).isSome) : Step 1 s e (s.go e) := by
  unfold Step State.go
  obtain ⟨s', hs'⟩ := Option.isSome_iff_exists.1 h
  rw [hs']
  rfl

def heldJob (id : JobId) : Job := Job.new id 0 "mail" .null

/-- The jobs go on one at a time. -/
def plainStates (claimed : List Job) (events : List Event) : Nat → State :=
  Run.states State.go (acquireBatch 2 [true] claimed) (events.getD · .idle)

def plainBatch (claimed : List Job) (events : List Event)
    (h : ∀ i < events.length,
      ((plainStates claimed events i).next 1 (events.getD i .idle)).isSome) :
    Run (Step (max 0 1)) events.length :=
  Run.ofFn State.go (acquireBatch 2 [true] claimed) (events.getD · .idle)
    fun i hi => step_go (h i hi)

theorem tokens_conserved_one :
    Conserved [heldJob 1] ((plainBatch [heldJob 1] oneRuns (by decide)).state 8) :=
  (tokens_conserved_iff (plainBatch [heldJob 1] oneRuns (by decide)) rfl (by decide) rfl
    (by decide)).2 fun i hi h => by
      have hplain : ∀ i < oneRuns.length, oneRuns.getD i .idle ≠ .released .no ∧
          oneRuns.getD i .idle ≠ .cancelled := by decide
      exact h.elim (hplain i hi).1 fun h => (hplain i hi).2 h.1

/-- The token of the job that was not running any more is neither used nor
refunded. -/
theorem released_job_keeps_token :
    ¬ ∀ (len capacity batchConcurrency : Nat) (free : List Bool) (claimed : List Job)
        (r : Run (Step (max batchConcurrency 1)) len),
      r.state 0 = acquireBatch capacity free claimed →
      claimed.length ≤ takeTokens capacity free → (r.state len).pc = .ended →
      (∀ i < len, (r.event i).isError = false) → Conserved claimed (r.state len) := by
  intro h
  have hconserved := h _ 2 0 [true] _ (plainBatch [heldJob 1, heldJob 2] oneLost (by decide))
    rfl (by decide) rfl (by decide)
  have hfalse : ¬ (2 = 1 + 0 + 0) := by decide
  exact hfalse hconserved.2

end BatchRun

end Hammerwork
