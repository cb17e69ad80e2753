/-
A held job is failed by its holder, as long as nobody takes it first.

Renewing the lease confirms that the worker still holds the run, but the
job is then failed by its id, from every unfinished status. Between the
two calls another party can take the job out of the run and leave it
unfinished: put back to be claimed again, or running for another worker.
The worker then fails a job it no longer holds. This is the only way the
call goes wrong.
-/
import Hammerwork.Held
import Hammerwork.Laws.Spawning

namespace Hammerwork

open TestStorage TestQueue FailHeldJob

namespace FailHeldJob

variable {env : Env} {job : Job} {lease : Duration} {n : Nat}
variable {r : Run (Step env job lease) n}

/-- The worker's calls change the queue only while the job is running the
run the worker holds. -/
def FailsOnlyHeld (r : Run (Step env job lease) n) : Prop :=
  ∀ i < n, r.event i = .own → runIsCurrent (r.state i).queue job = false →
    (r.state (i + 1)).queue = (r.state i).queue

/-- The job is unfinished, and not running the run of the copy `job`. -/
def Elsewhere (job : Job) (s : TestStorage) : Prop :=
  ∃ stored, s.jobs.lookup job.id = some stored ∧
    JobTransition.fail.isAllowedFrom stored.status = true ∧ runIsCurrent s job = false

/-- Another party took the job at step `j`, and it is elsewhere up to the
worker's call at step `i`. -/
def TakenAt (r : Run (Step env job lease) n) (j i : Nat) : Prop :=
  (∃ e, r.event j = .other e) ∧ ¬ Elsewhere job (r.state j).queue ∧
    ∀ m, j < m → m ≤ i → Elsewhere job (r.state m).queue

theorem Step.own_eq {sys sys' : System} (h : Step env job lease sys .own sys') :
    sys' = ⟨(next job lease sys.queue sys.call).1, (next job lease sys.queue sys.call).2⟩ := by
  cases h
  rfl

theorem Step.other_call {sys sys' : System} {e : Event}
    (h : Step env job lease sys (.other e) sys') : sys'.call = sys.call := by
  cases h
  rfl

-- == own calls

/-- Renewing the lease of a run that is not current changes nothing. -/
theorem next_renew_stale {s : TestStorage} (h : runIsCurrent s job = false) :
    next job lease s .renew = (.refunded, s) := by
  simp [next, heartbeatJob, h, commit]

/-- Renewing the lease of a current run leaves it current. -/
theorem next_renew_current {s : TestStorage} (h : runIsCurrent s job = true) :
    (next job lease s .renew).1 = .fail ∧
      runIsCurrent (next job lease s .renew).2 job = true := by
  have hnext : next job lease s .renew = (.fail,
      { s with leases := s.leases.insert job.id (s.clock, leaseExpiry s.clock lease) }) := by
    simp [next, heartbeatJob, h, commit]
  rw [hnext]
  exact ⟨rfl, h⟩

/-- Failing the job leaves the queue as it is, or fails the stored job. -/
theorem next_fail (s : TestStorage) :
    ((next job lease s .fail).2 = s ∨ ∃ stored, s.jobs.lookup job.id = some stored ∧
      JobTransition.fail.isAllowedFrom stored.status = true) ∧
      (next job lease s .fail).1 ≠ .renew ∧ (next job lease s .fail).1 ≠ .fail := by
  unfold next
  cases hfail : failJob s job.id batchFailedBeforeStartMessage with
  | error e => cases e <;> exact ⟨.inl rfl, nofun, nofun⟩
  | ok out =>
      obtain ⟨s', ⟨⟩⟩ := out
      obtain ⟨stored, _, hlookup, hallowed, -, -⟩ := failJob_ok hfail
      exact ⟨.inr ⟨stored, hlookup, hallowed⟩, nofun, nofun⟩

/-- A job that is elsewhere is failed all the same. -/
theorem next_fail_elsewhere (lease : Duration) {s : TestStorage} (h : Elsewhere job s) :
    (next job lease s .fail).2 ≠ s := by
  obtain ⟨stored, hlookup, hallowed, -⟩ := h
  have hok : ∃ s', failJob s job.id batchFailedBeforeStartMessage = .ok (s', ()) := by
    unfold failJob
    rw [checkTransition_of hlookup hallowed, updateJobStatus_eq hlookup]
    exact ⟨_, rfl⟩
  obtain ⟨s', hfail⟩ := hok
  have hnext : (next job lease s .fail).2 = s' := by
    unfold next
    rw [hfail]
    rfl
  rw [hnext]
  rintro rfl
  obtain ⟨stored₁, s₁, hlookup₁, -, hr, hpolicies⟩ := failJob_ok hfail
  have hfailed : ∃ job', s'.jobs.lookup job.id = some job' ∧ job'.status = .failed := by
    rw [hpolicies]
    rcases (applyPolicies_fallout s₁ job.id).jobs job.id with hkept | ⟨_, job', _, hnew, hchange⟩
    · exact ⟨_, hkept.trans hr.lookup_self, rfl⟩
    · refine ⟨job', hnew, ?_⟩
      cases hchange
      rfl
  obtain ⟨job', hlookup', hst⟩ := hfailed
  obtain rfl := Option.some.inj (hlookup'.symm.trans hlookup)
  rw [hst] at hallowed
  cases hallowed

/-- Only renewing the lease of a current run leads to failing the job. -/
theorem current_of_next_fail {s : TestStorage} {call : FailHeldJob}
    (h : (next job lease s call).1 = .fail) :
    runIsCurrent (next job lease s call).2 job = true := by
  cases call with
  | renew =>
      cases hcur : runIsCurrent s job with
      | true => exact (next_renew_current hcur).2
      | false =>
          rw [next_renew_stale hcur] at h
          cases h
  | fail => exact absurd h (next_fail s).2.2
  | refunded => cases h
  | failed e => cases h

-- == the law

/-- In a run from the start of the call: the worker's calls change the
queue only while it holds the run, exactly if no step of another party
before its last call took the job out of the run and left it unfinished
up to that call. -/
theorem fails_only_held_iff (r : Run (Step env job lease) n)
    (h0 : (r.state 0).call = .renew) :
    FailsOnlyHeld r ↔
      ∀ i < n, r.event i = .own → (r.state i).call = .fail → ∀ j < i, ¬ TakenAt r j i := by
  have hown : ∀ i < n, r.event i = .own → r.state (i + 1)
      = ⟨(next job lease (r.state i).queue (r.state i).call).1,
          (next job lease (r.state i).queue (r.state i).call).2⟩ := by
    intro i hi he
    have hnext := r.next i hi
    rw [he] at hnext
    exact hnext.own_eq
  have hother : ∀ i < n, ∀ e, r.event i = .other e →
      (r.state (i + 1)).call = (r.state i).call := by
    intro i hi e he
    have hnext := r.next i hi
    rw [he] at hnext
    exact hnext.other_call
  constructor
  · intro hheld i hi he hcall j hj htaken
    obtain ⟨-, -, helse⟩ := htaken
    have hi' := helse i hj (le_refl i)
    obtain ⟨_, _, _, hstale⟩ := hi'
    have hsame := hheld i hi he hstale
    rw [hown i hi he, hcall] at hsame
    exact next_fail_elsewhere lease (helse i hj (le_refl i)) hsame
  · intro huntaken i hi he hstale
    rw [hown i hi he]
    cases hcall : (r.state i).call with
    | renew => exact congrArg Prod.snd (next_renew_stale hstale)
    | refunded => rfl
    | failed e => rfl
    | fail =>
        rcases (next_fail (r.state i).queue).1 with hsame |
          ⟨stored, hlookup, hallowed⟩
        · exact hsame
        -- the run was current when the lease was renewed; it was lost after that
        have helse : Elsewhere job (r.state i).queue := ⟨stored, hlookup, hallowed, hstale⟩
        obtain ⟨h, -, hlt, hnot, hfail⟩ := Run.last_rise (P := fun m => (r.state m).call = .fail)
          (Nat.zero_le i) (by rw [h0]; nofun) hcall
        have hrenewed : ¬ Elsewhere job (r.state (h + 1)).queue := by
          rintro ⟨_, _, _, hlost⟩
          cases hmove : r.event h with
          | other e => exact hnot (hother h (by omega) e hmove ▸ hfail (h + 1) (by omega) hlt)
          | own =>
              have hafter := hfail (h + 1) (by omega) hlt
              rw [hown h (by omega) hmove] at hafter hlost
              rw [current_of_next_fail hafter] at hlost
              cases hlost
        obtain ⟨j, hj, hji, hbefore, hafter⟩ := Run.last_rise
          (P := fun m => Elsewhere job (r.state m).queue) hlt hrenewed helse
        refine absurd ⟨?_, hbefore, hafter⟩ (huntaken i hi he hcall j hji)
        cases hmove : r.event j with
        | other e => exact ⟨e, rfl⟩
        | own =>
            have hlater := hfail (j + 1) (by omega) hji
            rw [hown j (by omega) hmove, hfail j (by omega) (by omega)] at hlater
            exact absurd hlater (next_fail (r.state j).queue).2.2

-- == on one job

/-- The system after a move. -/
def System.after (env : Env) (job : Job) (lease : Duration) (sys : System) : Move → System
  | .own => ⟨(next job lease sys.queue sys.call).1, (next job lease sys.queue sys.call).2⟩
  | .other e => ⟨sys.call, e.after env sys.queue⟩

theorem System.step_after (env : Env) (job : Job) (lease : Duration) (sys : System) (m : Move) :
    Step env job lease sys m (sys.after env job lease m) := by
  cases m with
  | own => exact .own sys
  | other e => exact .other (Hammerwork.step_after env sys.queue e)

/-- The run that makes a list of moves, its own from then on, while the
one job of the queue is held. -/
def moves (ms : List Move) : Run (Step plainEnv (parentJob.claimed 0) 0) ms.length :=
  Run.ofFn (System.after plainEnv (parentJob.claimed 0) 0)
    ⟨.renew, Op.applyAll plainEnv claimedParent (TestStorage.new 0)⟩
    (fun i => ms[i]?.getD .own) fun _ _ => System.step_after _ _ _ _ _

/-- Left alone, the worker fails the run it holds. -/
theorem fails_only_held_iff_alone : FailsOnlyHeld (moves [.own, .own]) := by
  refine (fails_only_held_iff (moves [.own, .own]) rfl).2 fun i hi _ _ j hj htaken => ?_
  obtain ⟨⟨e, he⟩, -⟩ := htaken
  have hj : j < 1 := Nat.lt_of_lt_of_le hj (Nat.le_of_lt_succ hi)
  match j, hj with
  | 0, _ => cases he

/-- An operator puts the job back and another worker claims it, while its
holder is about to fail it. -/
def handedOn : List Move :=
  [.own, .other (.call (.retryJob 1 0)), .other (.call (.dequeue "mail" none 0 1)), .own]

/-- The run of the other worker is failed. -/
theorem other_run_failed :
    Reachable plainEnv ((moves handedOn).state 0).queue ∧
      ((moves handedOn).state 0).call = .renew ∧
      ((moves handedOn).state 3).queue.isJob 1 (fun job =>
        job.status = .running && job.attempts = 2) = true ∧
      ((moves handedOn).state 4).queue.isJob 1 (·.status = .failed) = true ∧
      ¬ FailsOnlyHeld (moves handedOn) := by
  have hrunning : ((moves handedOn).state 3).queue.isJob 1 (fun job =>
      job.status = .running && job.attempts = 2) = true := by decide +kernel
  have hstale : runIsCurrent ((moves handedOn).state 3).queue (parentJob.claimed 0) = false := by
    decide +kernel
  refine ⟨reachable_applyAll plainEnv claimedParent 0, rfl, hrunning, by decide +kernel,
    fun hheld => ?_⟩
  obtain ⟨stored, hlookup, hst⟩ := isJob_iff.1 hrunning
  have hallowed : JobTransition.fail.isAllowedFrom stored.status = true := by
    simp only [Bool.and_eq_true, decide_eq_true_eq] at hst
    rw [hst.1]
    rfl
  have hsame := hheld 3 (show 3 < 4 by omega) rfl hstale
  exact next_fail_elsewhere 0 ⟨stored, hlookup, hallowed, hstale⟩ hsame

end FailHeldJob

end Hammerwork
