/-
How many passwords a client can try.

A client is an attempt key. Its own checks move through their phases, record
failures and clear them; everything else leaves its record and the phases of
its checks alone, but for time (`step_effect`). So what the lockout gate
answers depends on the history of the key alone (`Agrees.step`), and it
refuses a key whose last failures lie within the lockout until that is over.

The gate does not count the checks that are under way: they pass it before
any of them has recorded its failure, in any number. If there is room for
each check that passes (`HasRoom`), the live failures and the checks under
way stay within the maximum (`load_step`), and so do the wrong passwords of a
window (`Window.step`).
-/
import Hammerwork.Auth

namespace Hammerwork

namespace Auth

variable {δ : Type} [DecidableEq δ] {inner : Inner δ} {s s' : State δ} {e : Event}
  {key : AttemptKey}

-- == counting

/-- The checks of a key in some phases. -/
def inPhase (inner : Inner δ) (key : AttemptKey) (p : Phase → Bool) (checks : List Check) : Nat :=
  checks.countP fun c => c.key inner = key && p c.phase

/-- Past the gate, and not done. -/
def Phase.underWay : Phase → Bool
  | .entered => false
  | .done _ => false
  | _ => true

/-- Past the gate, and not verified. -/
def Phase.unverified : Phase → Bool
  | .passed => true
  | .verifying => true
  | _ => false

/-- The failures of a record, unless it has expired. -/
def counted (lockout now : Nat) : Option Failures → Nat
  | some failures => if now - failures.last < lockout then failures.count else 0
  | none => 0

/-- The failures of a key that have not expired. -/
def liveFailures (inner : Inner δ) (s : State δ) (key : AttemptKey) : Nat :=
  counted inner.config.lockoutDuration s.now (s.failedAttempts.lookup key)

/-- A check goes on, and it is one of some. -/
def proceeds (p : Check → Bool) (s : State δ) : Event → Bool
  | .proceed i => s.checks[i]?.any p
  | _ => false

/-- A wrong password of the key is verified. -/
def wrongPassword (inner : Inner δ) (key : AttemptKey) : State δ → Event → Bool :=
  proceeds fun c => c.key inner = key && c.phase = .verifying && !c.correct inner

/-- A failure of the key is recorded. -/
def recordsFailure (inner : Inner δ) (key : AttemptKey) : State δ → Event → Bool :=
  proceeds fun c => c.key inner = key && c.phase = .recording

/-- The failures of the key are cleared by a login. -/
def logsIn (inner : Inner δ) (key : AttemptKey) : State δ → Event → Bool :=
  proceeds fun c => c.key inner = key && c.phase = .clearing

theorem inPhase_set (inner : Inner δ) (key : AttemptKey) {checks : List Check} {i : Nat}
    {c : Check} (h : checks[i]? = some c) (phase : Phase) (p : Phase → Bool) :
    inPhase inner key p (checks.set i { c with phase })
        + (if c.key inner = key ∧ p c.phase then 1 else 0)
      = inPhase inner key p checks + if c.key inner = key ∧ p phase then 1 else 0 := by
  obtain ⟨hi, hget⟩ := List.getElem?_eq_some_iff.1 h
  have hpos : (if c.key inner = key ∧ p c.phase then 1 else 0)
      ≤ checks.countP fun c => c.key inner = key && p c.phase := by
    have hle := List.boole_getElem_le_countP
      (p := fun c : Check => c.key inner = key && p c.phase) hi
    simpa [hget] using hle
  have hkey : Check.key inner { c with phase } = c.key inner := rfl
  rw [inPhase, inPhase, List.countP_set hi, hget]
  simp only [hkey, Bool.and_eq_true, decide_eq_true_eq] at hpos ⊢
  omega

/-- A check of another key counts for nothing. -/
theorem inPhase_set_other {checks : List Check} {i : Nat} {c : Check} (h : checks[i]? = some c)
    (hother : c.key inner ≠ key) (phase : Phase) (p : Phase → Bool) :
    inPhase inner key p (checks.set i { c with phase }) = inPhase inner key p checks := by
  simpa [hother] using inPhase_set inner key h phase p

/-- Recording and not verified are two parts of being under way. -/
theorem inPhase_add_le (inner : Inner δ) (key : AttemptKey) (checks : List Check) :
    inPhase inner key (· = .recording) checks + inPhase inner key Phase.unverified checks
      ≤ inPhase inner key Phase.underWay checks := by
  induction checks with
  | nil => exact Nat.le_refl _
  | cons c checks ih =>
      simp only [inPhase, List.countP_cons] at ih ⊢
      have hphase : (if (c.key inner = key && decide (c.phase = .recording)) = true then 1 else 0)
          + (if (c.key inner = key && c.phase.unverified) = true then 1 else 0)
          ≤ if (c.key inner = key && c.phase.underWay) = true then 1 else 0 := by
        by_cases hkey : c.key inner = key
        · cases hphase : c.phase <;> simp [hkey, Phase.unverified, Phase.underWay]
        · simp [hkey]
      omega

-- == records

omit [DecidableEq δ] in
theorem lookup_recordFailedAttempt {attempts : Attempts} {now : Instant} {key' : AttemptKey}
    (hroom : attempts.entries.length < maxTrackedClients) :
    (recordFailedAttempt inner now key' attempts).lookup key
      = if key = key' then
          some (Failures.add inner.config.lockoutDuration now (attempts.lookup key))
        else
          attempts.lookup key := by
  have hmake : makeRoom inner now key' attempts = attempts :=
    if_neg fun h => absurd h.2 (Nat.not_le.2 hroom)
  rw [recordFailedAttempt, hmake, Table.lookup_insert_if]
  split
  case isTrue h => rw [h]
  case isFalse => rfl

theorem lookup_unexpired (lockout : Nat) (now : Instant) (attempts : Attempts) :
    (unexpired lockout now attempts).lookup key
      = (attempts.lookup key).filter fun failures => now - failures.last < lockout :=
  Table.lookup_retain _ _ _

-- == steps

/-- A step of a check: its phase after it, the failures and the
verifications. -/
inductive Proceeds (inner : Inner δ) (s : State δ) (c : Check) :
    Phase → Attempts → Table δ Instant → Prop
  | disabled : c.phase = .entered → inner.config.enabled = false →
      Proceeds inner s c (.done .accepted) s.failedAttempts s.verified
  | refused : c.phase = .entered → inner.config.enabled = true →
      keyLockedOut inner s.failedAttempts s.now (c.key inner) = true →
      Proceeds inner s c (.done .lockedOut) s.failedAttempts s.verified
  | passed : c.phase = .entered → inner.config.enabled = true →
      keyLockedOut inner s.failedAttempts s.now (c.key inner) = false →
      Proceeds inner s c .passed s.failedAttempts s.verified
  | found {verified : Table δ Instant} : c.phase = .passed →
      recentlyVerified s.now (credentialsDigest inner c.username c.password) s.verified
        = (true, verified) →
      Proceeds inner s c .clearing s.failedAttempts verified
  | unknown {verified : Table δ Instant} : c.phase = .passed →
      recentlyVerified s.now (credentialsDigest inner c.username c.password) s.verified
        = (false, verified) →
      Proceeds inner s c .verifying s.failedAttempts verified
  | correct : c.phase = .verifying → c.correct inner = true →
      Proceeds inner s c .remembering s.failedAttempts s.verified
  | wrong : c.phase = .verifying → c.correct inner = false →
      Proceeds inner s c .recording s.failedAttempts s.verified
  | remembered : c.phase = .remembering →
      Proceeds inner s c .clearing s.failedAttempts
        (rememberVerified inner s.now (credentialsDigest inner c.username c.password) s.verified)
  | cleared : c.phase = .clearing →
      Proceeds inner s c (.done .accepted) (clearFailedAttempts (c.key inner) s.failedAttempts)
        s.verified
  | recorded : c.phase = .recording →
      Proceeds inner s c (.done .rejected)
        (recordFailedAttempt inner s.now (c.key inner) s.failedAttempts) s.verified

theorem proceeds_of_proceed {c : Check} {phase : Phase} {attempts : Attempts}
    {verified : Table δ Instant} (h : c.proceed inner s = some (phase, attempts, verified)) :
    Proceeds inner s c phase attempts verified := by
  rw [Check.proceed] at h
  cases hphase : c.phase with
  | entered =>
      simp only [hphase] at h
      cases henabled : inner.config.enabled with
      | false =>
          rw [henabled] at h
          cases h
          exact .disabled hphase henabled
      | true =>
          cases hlocked : keyLockedOut inner s.failedAttempts s.now (c.key inner) with
          | true =>
              rw [henabled, hlocked] at h
              cases h
              exact .refused hphase henabled hlocked
          | false =>
              rw [henabled, hlocked] at h
              cases h
              exact .passed hphase henabled hlocked
  | passed =>
      simp only [hphase] at h
      cases hfound : recentlyVerified s.now (credentialsDigest inner c.username c.password)
          s.verified with
      | mk found verified =>
          rw [hfound] at h
          cases found with
          | true =>
              cases h
              exact .found hphase hfound
          | false =>
              cases h
              exact .unknown hphase hfound
  | verifying =>
      simp only [hphase] at h
      cases hcorrect : c.correct inner with
      | true =>
          rw [hcorrect] at h
          cases h
          exact .correct hphase hcorrect
      | false =>
          rw [hcorrect] at h
          cases h
          exact .wrong hphase hcorrect
  | remembering =>
      simp only [hphase] at h
      cases h
      exact .remembered hphase
  | clearing =>
      simp only [hphase] at h
      cases h
      exact .cleared hphase
  | recording =>
      simp only [hphase] at h
      cases h
      exact .recorded hphase
  | done verdict =>
      simp only [hphase] at h
      cases h

/-- A step of a check of the key: its phase after it, and the record. -/
inductive OwnStep (inner : Inner δ) (s : State δ) (c : Check) (record : Option Failures) :
    Phase → Option Failures → Prop
  | disabled : c.phase = .entered → inner.config.enabled = false →
      OwnStep inner s c record (.done .accepted) record
  | refused : c.phase = .entered → inner.config.enabled = true →
      record.any (Failures.lockOut inner.config s.now) = true →
      OwnStep inner s c record (.done .lockedOut) record
  | passed : c.phase = .entered → inner.config.enabled = true →
      record.any (Failures.lockOut inner.config s.now) = false →
      OwnStep inner s c record .passed record
  | found : c.phase = .passed → OwnStep inner s c record .clearing record
  | unknown : c.phase = .passed → OwnStep inner s c record .verifying record
  | correct : c.phase = .verifying → c.correct inner = true →
      OwnStep inner s c record .remembering record
  | wrong : c.phase = .verifying → c.correct inner = false →
      OwnStep inner s c record .recording record
  | remembered : c.phase = .remembering → OwnStep inner s c record .clearing record
  | cleared : c.phase = .clearing → OwnStep inner s c record (.done .accepted) none
  | recorded : c.phase = .recording →
      OwnStep inner s c record (.done .rejected)
        (some (Failures.add inner.config.lockoutDuration s.now record))

/-- What a step means for a key. -/
inductive Effect (inner : Inner δ) (key : AttemptKey) (s s' : State δ) : Event → Prop
  | other {e : Event} :
      (∀ p : Check → Bool, proceeds (fun c => c.key inner = key && p c) s e = false) →
      s.now ≤ s'.now →
      (∀ p : Phase → Bool, p .entered = false →
        inPhase inner key p s'.checks = inPhase inner key p s.checks) →
      (s'.failedAttempts.lookup key = s.failedAttempts.lookup key
        ∨ s'.now = s.now ∧ s'.failedAttempts.lookup key = (s.failedAttempts.lookup key).filter
          fun failures => s.now - failures.last < inner.config.lockoutDuration) →
      Effect inner key s s' e
  | own {i : Nat} {c : Check} {phase : Phase} : s.checks[i]? = some c → c.key inner = key →
      s'.now = s.now → s'.checks = s.checks.set i { c with phase } →
      OwnStep inner s c (s.failedAttempts.lookup key) phase (s'.failedAttempts.lookup key) →
      Effect inner key s s' (.proceed i)

/-- A step of a check, unpacked. -/
theorem step_proceed {i : Nat} (h : step inner s (.proceed i) = some s') :
    ∃ c phase attempts verified, s.checks[i]? = some c
      ∧ Proceeds inner s c phase attempts verified
      ∧ s' = { s with
          failedAttempts := attempts
          verified := verified
          checks := s.checks.set i { c with phase } } := by
  rw [step] at h
  split at h
  · cases h
  · rename_i c hc
    obtain ⟨⟨phase, attempts, verified⟩, hproceed, heq⟩ := Option.map_eq_some_iff.1 h
    exact ⟨c, phase, attempts, verified, hc, proceeds_of_proceed hproceed, heq.symm⟩

/-- What a step of a check does to the record of its own key. -/
theorem Proceeds.own {c : Check} {phase : Phase} {attempts : Attempts}
    {verified : Table δ Instant} (hroom : s.failedAttempts.entries.length < maxTrackedClients)
    (hkey : c.key inner = key) (h : Proceeds inner s c phase attempts verified) :
    OwnStep inner s c (s.failedAttempts.lookup key) phase (attempts.lookup key) := by
  subst hkey
  cases h with
  | disabled hphase hdisabled => exact .disabled hphase hdisabled
  | refused hphase henabled hlocked => exact .refused hphase henabled hlocked
  | passed hphase henabled hopen => exact .passed hphase henabled hopen
  | found hphase => exact .found hphase
  | unknown hphase => exact .unknown hphase
  | correct hphase hcorrect => exact .correct hphase hcorrect
  | wrong hphase hwrong => exact .wrong hphase hwrong
  | remembered hphase => exact .remembered hphase
  | cleared hphase =>
      rw [clearFailedAttempts, Table.lookup_erase_if, if_pos rfl]
      exact .cleared hphase
  | recorded hphase =>
      rw [lookup_recordFailedAttempt hroom, if_pos rfl]
      exact .recorded hphase

/-- A step of a check leaves the records of other keys alone. -/
theorem Proceeds.other {c : Check} {phase : Phase} {attempts : Attempts}
    {verified : Table δ Instant} (hroom : s.failedAttempts.entries.length < maxTrackedClients)
    (hother : c.key inner ≠ key) (h : Proceeds inner s c phase attempts verified) :
    attempts.lookup key = s.failedAttempts.lookup key := by
  cases h with
  | cleared => rw [clearFailedAttempts, Table.lookup_erase_if, if_neg hother.symm]
  | recorded => rw [lookup_recordFailedAttempt hroom, if_neg hother.symm]
  | disabled | refused | passed | found | unknown | correct | wrong | remembered => rfl

/-- The clock does not go back. -/
theorem step_now (h : step inner s e = some s') : s.now ≤ s'.now := by
  cases e with
  | tick time =>
      cases h
      exact Nat.le_add_right _ _
  | proceed i =>
      obtain ⟨c, phase, attempts, verified, -, -, rfl⟩ := step_proceed h
      exact Nat.le_refl _
  | dropVerified read =>
      rw [step] at h
      split at h
      · cases h
        exact Nat.le_refl _
      · cases h
  | enter | dropFailures =>
      cases h
      exact Nat.le_refl _

/-- What a step means for a key, as long as no record is dropped for lack of
room. -/
theorem step_effect (hroom : s.failedAttempts.entries.length < maxTrackedClients)
    (h : step inner s e = some s') : Effect inner key s s' e := by
  cases e with
  | tick time =>
      cases h
      exact .other (fun _ => rfl) (Nat.le_add_right _ _) (fun _ _ => rfl) (.inl rfl)
  | enter client username password =>
      cases h
      refine .other (fun _ => rfl) (Nat.le_refl _) (fun p hp => ?_) (.inl rfl)
      simp [inPhase, List.countP_append, hp]
  | proceed i =>
      obtain ⟨c, phase, attempts, verified, hc, hproceed, rfl⟩ := step_proceed h
      by_cases hkey : c.key inner = key
      · exact .own hc hkey rfl rfl (hproceed.own hroom hkey)
      · refine .other ?_ (Nat.le_refl _) (fun p _ => inPhase_set_other hc hkey phase p) (.inl ?_)
        · intro p
          simp [proceeds, hc, hkey]
        · exact hproceed.other hroom hkey
  | dropFailures =>
      cases h
      exact .other (fun _ => rfl) (Nat.le_refl _) (fun _ _ => rfl)
        (.inr ⟨rfl, lookup_unexpired _ _ _⟩)
  | dropVerified read =>
      rw [step] at h
      split at h
      · cases h
        exact .other (fun _ => rfl) (Nat.le_refl _) (fun _ _ => rfl) (.inl rfl)
      · cases h

-- == the load

/-- There is room for the check that passes the gate: with the failures the
gate counts and the checks of the key under way there are fewer than the
maximum. -/
def HasRoom (inner : Inner δ) (s : State δ) : Event → Prop
  | .proceed i => ∀ c, s.checks[i]? = some c → c.phase = .entered →
      inner.config.enabled = true →
      keyLockedOut inner s.failedAttempts s.now (c.key inner) = false →
        liveFailures inner s (c.key inner) + inPhase inner (c.key inner) Phase.underWay s.checks
          < inner.config.maxFailedAttempts.toNat
  | _ => True

instance (s : State δ) : ∀ e, Decidable (HasRoom inner s e)
  | .proceed i => inferInstanceAs (Decidable (∀ c ∈ s.checks[i]?, c.phase = .entered →
      inner.config.enabled = true →
      keyLockedOut inner s.failedAttempts s.now (c.key inner) = false →
        liveFailures inner s (c.key inner) + inPhase inner (c.key inner) Phase.underWay s.checks
          < inner.config.maxFailedAttempts.toNat))
  | .tick _ => isTrue trivial
  | .enter _ _ _ => isTrue trivial
  | .dropFailures => isTrue trivial
  | .dropVerified _ => isTrue trivial

/-- The failures that count and the checks under way. -/
def load (inner : Inner δ) (s : State δ) (key : AttemptKey) : Nat :=
  liveFailures inner s key + inPhase inner key Phase.underWay s.checks

/-- Time only takes away what counts. -/
theorem counted_le_of_le {lockout now now' : Nat} (hnow : now ≤ now') (record : Option Failures) :
    counted lockout now' record ≤ counted lockout now record := by
  cases record with
  | none => exact Nat.le_refl _
  | some failures =>
      obtain ⟨count, last⟩ := failures
      dsimp only [counted, Instant] at *
      split
      · rw [if_pos (by omega)]
      · exact Nat.zero_le _

/-- The cleanup takes nothing away that counts. -/
theorem counted_filter (lockout now : Nat) (record : Option Failures) :
    counted lockout now (record.filter fun failures => now - failures.last < lockout)
      = counted lockout now record := by
  cases record with
  | none => rfl
  | some failures =>
      by_cases hlive : now - failures.last < lockout
      · simp [Option.filter, counted, hlive]
      · simp [Option.filter, counted, hlive]

/-- A failure recorded counts for one more at most. -/
theorem counted_add_le (lockout now : Nat) (record : Option Failures) :
    counted lockout now (some (Failures.add lockout now record))
      ≤ counted lockout now record + 1 := by
  have hcount : (Failures.add lockout now record).count ≤ counted lockout now record + 1 := by
    cases record with
    | none => simp [Failures.add]
    | some failures =>
        by_cases hlive : now - failures.last < lockout
        · simp [Failures.add, counted, hlive, Nat.not_le.2 hlive]
        · simp [Failures.add, Nat.not_lt.1 hlive]
  rw [counted]
  split
  · exact hcount
  · exact Nat.zero_le _

/-- The load of a key stays within the maximum. -/
theorem load_step (heffect : Effect inner key s s' e) (hroom : HasRoom inner s e)
    (h : load inner s key ≤ inner.config.maxFailedAttempts.toNat) :
    load inner s' key ≤ inner.config.maxFailedAttempts.toNat := by
  cases heffect with
  | other _ hnow hphases hrecord =>
      have hlive : liveFailures inner s' key ≤ liveFailures inner s key := by
        rw [liveFailures, liveFailures]
        obtain hrecord | ⟨hsame, hrecord⟩ := hrecord
        · rw [hrecord]
          exact counted_le_of_le hnow _
        · rw [hrecord, hsame, counted_filter]
      rw [load, hphases _ rfl]
      rw [load] at h
      omega
  | own hc hkey hnow hchecks hown =>
      rename_i i c phase
      have hset := inPhase_set inner key hc phase Phase.underWay
      rw [← hchecks] at hset
      rw [load, liveFailures] at h ⊢
      rw [hnow]
      generalize hrecord : s'.failedAttempts.lookup key = record at hown ⊢
      cases hown with
      | passed hphase henabled hopen =>
          have hfree := hroom c hc hphase henabled (by rw [hkey]; exact hopen)
          rw [hkey, liveFailures] at hfree
          simp only [hkey, hphase, Phase.underWay] at hset
          simp at hset
          omega
      | cleared hphase =>
          have hnone : counted inner.config.lockoutDuration s.now none = 0 := rfl
          simp only [hkey, hphase, Phase.underWay] at hset
          simp at hset
          omega
      | recorded hphase =>
          have hadd := counted_add_le inner.config.lockoutDuration s.now
            (s.failedAttempts.lookup key)
          simp only [hkey, hphase, Phase.underWay] at hset
          simp at hset
          omega
      | disabled hphase | refused hphase | found hphase | unknown hphase | correct hphase
        | wrong hphase | remembered hphase =>
          simp only [hkey, hphase, Phase.underWay] at hset
          simp at hset
          omega

-- == a window

/-- Failures of a window that have been counted: each of them is in the
record, whose last failure is one of them. -/
def InRecord (config : AuthConfig) (start recorded : Nat) (record : Option Failures) : Prop :=
  recorded = 0 ∨ ∃ failures, record = some failures ∧ start ≤ failures.last
    ∧ min recorded config.maxFailedAttempts.toNat ≤ failures.count

/-- After some steps of a window: the wrong passwords of these steps are
recorded or about to be, those recorded are in the record, and the wrong
passwords and the checks before their verification are within the maximum. -/
structure Window (inner : Inner δ) (key : AttemptKey) (start wrong recorded : Nat) (s : State δ) :
    Prop where
  verified : wrong ≤ recorded + inPhase inner key (· = .recording) s.checks
  counted : InRecord inner.config start recorded (s.failedAttempts.lookup key)
  bounded : wrong + inPhase inner key Phase.unverified s.checks
    ≤ inner.config.maxFailedAttempts.toNat

/-- In the window, what is in the record counts. -/
theorem InRecord.le_counted {config : AuthConfig} {start recorded now : Nat}
    {record : Option Failures} (h : InRecord config start recorded record) (hstart : start ≤ now)
    (hnow : now < start + config.lockoutDuration) :
    min recorded config.maxFailedAttempts.toNat ≤ counted config.lockoutDuration now record := by
  obtain rfl | ⟨⟨count, last⟩, rfl, hlast, hcount⟩ := h
  · simp
  · dsimp only [Auth.counted, Instant] at *
    rw [if_pos (by omega)]
    exact hcount

/-- A failure recorded in the window. -/
theorem InRecord.add {config : AuthConfig} {start recorded now : Nat} {record : Option Failures}
    (h : InRecord config start recorded record) (hstart : start ≤ now)
    (hnow : now < start + config.lockoutDuration) :
    InRecord config start (recorded + 1)
      (some (Failures.add config.lockoutDuration now record)) := by
  have hmax : config.maxFailedAttempts.toNat ≤ u32Max := by
    have hlt := config.maxFailedAttempts.toNat_lt
    rw [u32Max]
    omega
  refine .inr ⟨_, rfl, hstart, ?_⟩
  obtain rfl | ⟨⟨count, last⟩, rfl, hlast, hcount⟩ := h
  · have hone : 1 ≤ (Failures.add config.lockoutDuration now record).count := by
      simp [Failures.add, u32Max]
    omega
  · dsimp only [Failures.add, Option.getD_some, Instant] at *
    rw [if_neg (by omega)]
    omega

/-- Time and the cleanup leave a failure of the window in the record. -/
theorem InRecord.filter {config : AuthConfig} {start recorded now : Nat} {record : Option Failures}
    (h : InRecord config start recorded record) (hstart : start ≤ now)
    (hnow : now < start + config.lockoutDuration) :
    InRecord config start recorded
      (record.filter fun failures => now - failures.last < config.lockoutDuration) := by
  obtain rfl | ⟨⟨count, last⟩, rfl, hlast, hcount⟩ := h
  · exact .inl rfl
  · have hlive : now - last < config.lockoutDuration := by
      dsimp only [Instant] at *
      omega
    exact .inr ⟨⟨count, last⟩, by simp [Option.filter, hlive], hlast, hcount⟩

/-- The first steps of a window: none of it has been verified. -/
theorem Window.start (hload : load inner s key ≤ inner.config.maxFailedAttempts.toNat) :
    Window inner key s.now 0 0 s where
  verified := Nat.zero_le _
  counted := .inl rfl
  bounded := by
    have hle := inPhase_add_le inner key s.checks
    rw [load] at hload
    omega

/-- A step of a window in which the key does not log in. -/
theorem Window.step {start wrong recorded : Nat} (heffect : Effect inner key s s' e)
    (hroom : HasRoom inner s e) (hstart : start ≤ s.now)
    (hnow : s.now < start + inner.config.lockoutDuration)
    (hlogin : logsIn inner key s e = false)
    (h : Window inner key start wrong recorded s) :
    Window inner key start (wrong + if wrongPassword inner key s e then 1 else 0)
      (recorded + if recordsFailure inner key s e then 1 else 0) s' := by
  obtain ⟨hverified, hcounted, hbounded⟩ := h
  cases heffect with
  | other hnot _ hphases hrecord =>
      have hwrong : wrongPassword inner key s e = false := by
        rw [wrongPassword]
        simpa only [Bool.and_assoc] using
          hnot fun c => decide (c.phase = .verifying) && !c.correct inner
      have hrecords : recordsFailure inner key s e = false := hnot fun c => c.phase = .recording
      rw [hwrong, hrecords]
      refine ⟨?_, ?_, ?_⟩
      · rw [hphases _ rfl]
        exact hverified
      · obtain hrecord | ⟨-, hrecord⟩ := hrecord
        · rw [hrecord]
          exact hcounted
        · rw [hrecord]
          exact hcounted.filter hstart hnow
      · rw [hphases _ rfl]
        exact hbounded
  | own hc hkey hsame hchecks hown =>
      rename_i i c phase
      have hwrong : wrongPassword inner key s (.proceed i)
          = (decide (c.phase = .verifying) && !c.correct inner) := by
        simp [wrongPassword, proceeds, hc, hkey]
      have hrecords : recordsFailure inner key s (.proceed i) = decide (c.phase = .recording) := by
        simp [recordsFailure, proceeds, hc, hkey]
      have hsetRecording := inPhase_set inner key hc phase (· = .recording)
      have hsetUnverified := inPhase_set inner key hc phase Phase.unverified
      rw [← hchecks] at hsetRecording hsetUnverified
      rw [hwrong, hrecords]
      generalize hrecord : s'.failedAttempts.lookup key = record at hown
      cases hown with
      | cleared hphase =>
          exfalso
          simp [logsIn, proceeds, hc, hkey, hphase] at hlogin
      | recorded hphase =>
          simp only [hkey, hphase, Phase.unverified] at hsetRecording hsetUnverified
          simp at hsetRecording hsetUnverified
          refine ⟨?_, ?_, ?_⟩
          · simp [hphase]
            omega
          · rw [hrecord]
            simpa [hphase] using hcounted.add hstart hnow
          · simp [hphase]
            omega
      | passed hphase henabled hopen =>
          have hfree := hroom c hc hphase henabled (by rw [hkey]; exact hopen)
          have hlive := hcounted.le_counted hstart hnow
          have hsum : inPhase inner key (· = .recording) s.checks
              + inPhase inner key Phase.unverified s.checks
              ≤ inPhase inner key Phase.underWay s.checks := inPhase_add_le inner key s.checks
          rw [hkey, liveFailures] at hfree
          simp only [hkey, hphase, Phase.unverified] at hsetRecording hsetUnverified
          simp at hsetRecording hsetUnverified
          refine ⟨?_, ?_, ?_⟩
          · simp [hphase]
            omega
          · rw [hrecord]
            simpa [hphase] using hcounted
          · simp [hphase]
            omega
      | wrong hphase hwrong' =>
          simp only [hkey, hphase, Phase.unverified] at hsetRecording hsetUnverified
          simp at hsetRecording hsetUnverified
          refine ⟨?_, ?_, ?_⟩
          · simp [hphase, hwrong']
            omega
          · rw [hrecord]
            simpa [hphase] using hcounted
          · simp [hphase, hwrong']
            omega
      | correct hphase hcorrect =>
          simp only [hkey, hphase, Phase.unverified] at hsetRecording hsetUnverified
          simp at hsetRecording hsetUnverified
          refine ⟨?_, ?_, ?_⟩
          · simp [hphase, hcorrect]
            omega
          · rw [hrecord]
            simpa [hphase] using hcounted
          · simp [hphase, hcorrect]
            omega
      | disabled hphase | refused hphase | found hphase | unknown hphase | remembered hphase =>
          simp only [hkey, hphase, Phase.unverified] at hsetRecording hsetUnverified
          simp at hsetRecording hsetUnverified
          refine ⟨?_, ?_, ?_⟩
          · simp [hphase]
            omega
          · rw [hrecord]
            simpa [hphase] using hcounted
          · simp [hphase]
            omega

-- == history

/-- What a check notes about its key. -/
inductive Mark where
  | failure
  | login
  deriving DecidableEq

/-- What a step notes about a key, and when. -/
def marks (inner : Inner δ) (key : AttemptKey) (s : State δ) : Event → List (Instant × Mark)
  | .proceed i =>
      match s.checks[i]? with
      | some c =>
          if c.key inner = key ∧ c.phase = .recording then
            [(s.now, .failure)]
          else if c.key inner = key ∧ c.phase = .clearing then
            [(s.now, .login)]
          else
            []
      | none => []
  | _ => []

theorem marks_eq_nil (h : ∀ p : Check → Bool,
    proceeds (fun c => c.key inner = key && p c) s e = false) : marks inner key s e = [] := by
  cases e with
  | proceed i =>
      have hany := h fun _ => true
      rw [marks]
      cases hc : s.checks[i]? with
      | none => rfl
      | some c =>
          have hkey : c.key inner ≠ key := by simpa [proceeds, hc] using hany
          simp [hkey]
  | tick | enter | dropFailures | dropVerified => rfl

/-- A step notes one thing at most, at its time. -/
theorem marks_cases (inner : Inner δ) (key : AttemptKey) (s : State δ) (e : Event) :
    marks inner key s e = [] ∨ ∃ mark, marks inner key s e = [(s.now, mark)] := by
  cases e with
  | proceed i =>
      rw [marks]
      split
      · split
        · exact .inr ⟨.failure, rfl⟩
        · split
          · exact .inr ⟨.login, rfl⟩
          · exact .inl rfl
      · exact .inl rfl
  | tick | enter | dropFailures | dropVerified => exact .inl rfl

/-- The record after one more mark. -/
def noted (lockout : Nat) (record : Option Failures) : Instant × Mark → Option Failures
  | (now, .failure) => some (Failures.add lockout now record)
  | (_, .login) => none

/-- The record that a history comes to. -/
def recordOf (lockout : Nat) (history : List (Instant × Mark)) : Option Failures :=
  history.foldl (noted lockout) none

/-- The record is that of the history, or that one has expired. -/
def Agrees (lockout now : Nat) (record ofHistory : Option Failures) : Prop :=
  record = ofHistory
    ∨ record = none ∧ ∃ failures, ofHistory = some failures ∧ lockout ≤ now - failures.last

/-- Records that agree lock out alike. -/
theorem Agrees.any_lockOut {config : AuthConfig} {now : Instant}
    {record ofHistory : Option Failures} (h : Agrees config.lockoutDuration now record ofHistory) :
    record.any (Failures.lockOut config now) = ofHistory.any (Failures.lockOut config now) := by
  obtain rfl | ⟨rfl, failures, rfl, hexpired⟩ := h
  · rfl
  · simp [Failures.lockOut, Nat.not_lt.2 hexpired]

/-- Records that agree still do after a failure. -/
theorem Agrees.add {lockout now : Nat} {record ofHistory : Option Failures}
    (h : Agrees lockout now record ofHistory) :
    Failures.add lockout now record = Failures.add lockout now ofHistory := by
  obtain rfl | ⟨rfl, failures, rfl, hexpired⟩ := h
  · rfl
  · simp [Failures.add, hexpired]

theorem Agrees.mono {lockout now now' : Nat} {record ofHistory : Option Failures}
    (h : Agrees lockout now record ofHistory) (hnow : now ≤ now') :
    Agrees lockout now' record ofHistory := by
  obtain hsame | ⟨hnone, failures, hhistory, hexpired⟩ := h
  · exact .inl hsame
  · exact .inr ⟨hnone, failures, hhistory, hexpired.trans (Nat.sub_le_sub_right hnow _)⟩

theorem Agrees.filter {lockout now : Nat} {record ofHistory : Option Failures}
    (h : Agrees lockout now record ofHistory) :
    Agrees lockout now (record.filter fun failures => now - failures.last < lockout) ofHistory := by
  obtain rfl | ⟨rfl, failures, rfl, hexpired⟩ := h
  · cases record with
    | none => exact .inl rfl
    | some failures =>
        by_cases hlive : now - failures.last < lockout
        · exact .inl (by simp [Option.filter, hlive])
        · exact .inr ⟨by simp [Option.filter, hlive], failures, rfl, Nat.not_lt.1 hlive⟩
  · exact .inr ⟨rfl, failures, rfl, hexpired⟩

/-- A step changes the record as it changes the history. -/
theorem Agrees.step {history : List (Instant × Mark)} (heffect : Effect inner key s s' e)
    (h : Agrees inner.config.lockoutDuration s.now (s.failedAttempts.lookup key)
      (recordOf inner.config.lockoutDuration history)) :
    Agrees inner.config.lockoutDuration s'.now (s'.failedAttempts.lookup key)
      (recordOf inner.config.lockoutDuration (history ++ marks inner key s e)) := by
  rw [recordOf, List.foldl_append, ← recordOf]
  cases heffect with
  | other hnot hnow _ hrecord =>
      have hmarks : marks inner key s e = [] := marks_eq_nil fun p => hnot p
      rw [hmarks, List.foldl_nil]
      obtain hrecord | ⟨hsame, hrecord⟩ := hrecord
      · rw [hrecord]
        exact h.mono hnow
      · rw [hrecord, hsame]
        exact h.filter
  | own hc hkey hsame hchecks hown =>
      rename_i i c phase
      have hmarks : marks inner key s (.proceed i)
          = if c.phase = .recording then [(s.now, .failure)]
            else if c.phase = .clearing then [(s.now, .login)] else [] := by
        simp [marks, hc, hkey]
      rw [hmarks, hsame]
      generalize s'.failedAttempts.lookup key = record at hown ⊢
      cases hown with
      | recorded hphase =>
          rw [if_pos hphase, h.add]
          exact .inl rfl
      | cleared hphase =>
          rw [if_neg (by simp [hphase]), if_pos hphase]
          exact .inl rfl
      | disabled hphase | refused hphase | passed hphase | found hphase | unknown hphase
        | correct hphase | wrong hphase | remembered hphase =>
          rw [if_neg (by simp [hphase]), if_neg (by simp [hphase])]
          exact h

/-- After failures that lie within the lockout, the last of them and at least
their number are in the record. -/
theorem recordOf_failures {lockout : Nat} (older : List (Instant × Mark)) {fails : List Instant}
    {last : Instant} (hlast : fails.getLast? = some last) (hsorted : fails.Pairwise (· ≤ ·))
    (hwithin : ∀ t ∈ fails, last < t + lockout) :
    ∃ failures, recordOf lockout (older ++ fails.map (·, .failure)) = some failures
      ∧ failures.last = last ∧ min fails.length u32Max ≤ failures.count := by
  induction fails using List.reverseRecOn generalizing last with
  | nil => cases hlast
  | append_singleton fails last' ih =>
      rw [List.getLast?_append, List.getLast?_singleton, Option.some_or, Option.some.injEq] at hlast
      subst hlast
      rw [List.map_append, ← List.append_assoc, recordOf, List.foldl_append, ← recordOf]
      refine ⟨_, rfl, rfl, ?_⟩
      cases hprevious : fails.getLast? with
      | none =>
          rw [List.getLast?_eq_none_iff] at hprevious
          subst hprevious
          have hone : 1 ≤ (Failures.add lockout last' (recordOf lockout older)).count := by
            simp [Failures.add, u32Max]
          simp only [List.map_nil, List.append_nil, List.nil_append, List.length_singleton]
          omega
      | some previous =>
          have hmem := List.mem_of_getLast? hprevious
          rw [List.pairwise_append] at hsorted
          have hle : ∀ t ∈ fails, t ≤ last' := fun t ht => hsorted.2.2 t ht last' (by simp)
          obtain ⟨⟨count, _⟩, hrecord, rfl, hcount⟩ := ih hprevious hsorted.1 fun t ht =>
            lt_of_le_of_lt (hle previous hmem) (hwithin t (List.mem_append_left _ ht))
          have hbefore := hle _ hmem
          have hlive := hwithin _ (List.mem_append_left _ hmem)
          rw [hrecord, List.length_append, List.length_singleton]
          dsimp only [Failures.add, Option.getD_some, Instant] at *
          rw [if_neg (by omega)]
          omega

-- == runs

section Runs

variable {n : Nat} (r : CheckRun inner n)

/-- In a window of the length of the lockout, without a login of the key,
at most the maximum of wrong passwords is verified. -/
def GuessesBounded (key : AttemptKey) : Prop :=
  ∀ start stop, start ≤ stop → stop ≤ n →
    (∀ i, start ≤ i → i < stop →
      (r.state i).now < (r.state start).now + inner.config.lockoutDuration) →
    (∀ i, start ≤ i → i < stop → logsIn inner key (r.state i) (r.event i) = false) →
    r.count (wrongPassword inner key) start stop ≤ inner.config.maxFailedAttempts.toNat

variable {r}

theorem now_le {i j : Nat} (hij : i ≤ j) (hj : j ≤ n) : (r.state i).now ≤ (r.state j).now :=
  r.stable (P := fun s => (r.state i).now ≤ s.now) (Nat.le_refl _)
    (fun _ _ _ hstep hle => hle.trans (step_now hstep)) j hij hj

theorem guesses_bounded {now : Instant} (hinit : r.state 0 = State.initial now)
    (htracked : ∀ i ≤ n, (r.state i).failedAttempts.entries.length < maxTrackedClients)
    (hroom : ∀ i < n, HasRoom inner (r.state i) (r.event i)) (key : AttemptKey) :
    GuessesBounded r key := by
  have hload : ∀ i ≤ n, load inner (r.state i) key ≤ inner.config.maxFailedAttempts.toNat := by
    refine fun i hi => r.stable
      (P := fun s => load inner s key ≤ inner.config.maxFailedAttempts.toNat) ?_ ?_ i
      (Nat.zero_le i) hi
    · rw [hinit]
      exact Nat.zero_le _
    · intro j _ hj hstep
      exact load_step (step_effect (htracked j (by omega)) hstep) (hroom j hj)
  intro start stop hle hstop hwindow hlogin
  suffices hsteps : ∀ i, start ≤ i → i ≤ stop → Window inner key (r.state start).now
      (r.count (wrongPassword inner key) start i) (r.count (recordsFailure inner key) start i)
      (r.state i) by
    have hbounded := (hsteps stop hle (Nat.le_refl _)).bounded
    omega
  intro i hi
  induction i, hi using Nat.le_induction with
  | base =>
      intro _
      rw [Run.count_self, Run.count_self]
      exact Window.start (hload start (by omega))
  | succ i hi ih =>
      intro hlt
      rw [Run.count_succ r _ hi, Run.count_succ r _ hi]
      exact Window.step (step_effect (htracked i (by omega)) (r.next i (by omega)))
        (hroom i (by omega)) (now_le hi (by omega)) (hwindow i hi (by omega))
        (hlogin i hi (by omega)) (ih (by omega))

/-- The history of a key in the first steps. -/
def history (r : CheckRun inner n) (key : AttemptKey) : Nat → List (Instant × Mark) :=
  r.collect (marks inner key)

/-- The record is that of the key's own history. -/
theorem agrees_history {now : Instant} (hinit : r.state 0 = State.initial now)
    (htracked : ∀ i ≤ n, (r.state i).failedAttempts.entries.length < maxTrackedClients)
    (key : AttemptKey) :
    ∀ i ≤ n, Agrees inner.config.lockoutDuration (r.state i).now
      ((r.state i).failedAttempts.lookup key)
      (recordOf inner.config.lockoutDuration (history r key i)) := by
  intro i
  induction i with
  | zero =>
      intro _
      rw [hinit]
      exact .inl rfl
  | succ i ih =>
      intro hi
      exact Agrees.step (step_effect (htracked i (by omega)) (r.next i (by omega)))
        (ih (by omega))

/-- Histories are in the order of time. -/
theorem history_sorted (key : AttemptKey) : ∀ i ≤ n,
    (history r key i).Pairwise (fun a b => a.1 ≤ b.1)
      ∧ ∀ m ∈ history r key i, m.1 ≤ (r.state i).now := by
  intro i
  induction i with
  | zero => exact fun _ => ⟨.nil, nofun⟩
  | succ i ih =>
      intro hi
      obtain ⟨hsorted, hle⟩ := ih (by omega)
      have hnow := step_now (r.next i (by omega))
      rw [history, Run.collect, ← history]
      obtain hmarks | ⟨mark, hmarks⟩ := marks_cases inner key (r.state i) (r.event i)
      · rw [hmarks, List.append_nil]
        exact ⟨hsorted, fun m hm => (hle m hm).trans hnow⟩
      · rw [hmarks]
        refine ⟨List.pairwise_append.2 ⟨hsorted, List.pairwise_singleton _ _, ?_⟩, ?_⟩
        · intro m hm m' hm'
          rw [List.mem_singleton.1 hm']
          exact hle m hm
        · intro m hm
          obtain hm | hm := List.mem_append.1 hm
          · exact (hle m hm).trans hnow
          · rw [List.mem_singleton.1 hm]
            exact hnow

end Runs

-- == verdicts

/-- The phase after the gate. -/
def gateVerdict (config : AuthConfig) (now : Instant) (record : Option Failures) : Phase :=
  if !config.enabled then
    .done .accepted
  else if record.any (Failures.lockOut config now) then
    .done .lockedOut
  else
    .passed

/-- What holds of the checks of a state: those past the gate are not without
a login, and each is on the way its own credentials take. -/
structure Check.Sound (inner : Inner δ) (c : Check) : Prop where
  enabled : c.phase.underWay = true → inner.config.enabled = true
  good : c.phase = .remembering ∨ c.phase = .clearing → c.correct inner = true
  bad : c.phase = .recording ∨ c.phase = .done .rejected → c.correct inner = false
  accepted : c.phase = .done .accepted →
    inner.config.enabled = false ∨ c.correct inner = true

/-- Credentials that are remembered are the right ones. -/
def Remembers (inner : Inner δ) (verified : Table δ Instant) : Prop :=
  ∀ digest expires, verified.lookup digest = some expires →
    ∃ username password, digest = credentialsDigest inner username password
      ∧ usernameMatches inner username = true ∧ verifyPassword inner password = true

theorem mem_recentlyVerified {now : Instant} {digest : δ} {verified verified' : Table δ Instant}
    {found : Bool} (h : recentlyVerified now digest verified = (found, verified')) :
    (found = true → ∃ expires, verified.lookup digest = some expires)
      ∧ ∀ digest' expires, verified'.lookup digest' = some expires →
        verified.lookup digest' = some expires := by
  rw [recentlyVerified] at h
  split at h
  · rename_i expires hlookup
    split at h
    · cases h
      exact ⟨fun _ => ⟨expires, hlookup⟩, fun _ _ h => h⟩
    · cases h
      refine ⟨nofun, fun digest' expires' h => ?_⟩
      rw [Table.lookup_erase_if] at h
      split at h
      · cases h
      · exact h
  · cases h
    exact ⟨nofun, fun _ _ h => h⟩

/-- What is remembered after a verification was remembered before, but for
its own credentials. -/
theorem mem_rememberVerified {now : Instant} {digest digest' : δ} {verified : Table δ Instant}
    {expires : Instant}
    (h : (rememberVerified inner now digest verified).lookup digest' = some expires) :
    digest' = digest ∨ verified.lookup digest' = some expires := by
  simp only [rememberVerified] at h
  split at h
  · exact .inr h
  · rw [Table.lookup_insert_if] at h
    split at h
    case isTrue hsame => exact .inl hsame
    case isFalse =>
      right
      split at h
      · split at h
        · cases h
        · rw [Table.lookup_retain, Option.filter_eq_some_iff] at h
          exact h.1
      · exact h

/-- A step of a sound check leaves it sound. -/
theorem Proceeds.sound (hinj : Function.Injective inner.keyedDigest) {c : Check} {phase : Phase}
    {attempts : Attempts} {verified : Table δ Instant}
    (h : Proceeds inner s c phase attempts verified) (hsound : c.Sound inner)
    (hremembers : Remembers inner s.verified) :
    Check.Sound inner { c with phase } ∧ Remembers inner verified := by
  have hcorrect : Check.correct inner { c with phase } = c.correct inner := rfl
  cases h with
  | disabled hphase hdisabled =>
      exact ⟨⟨nofun, by simp, by simp, fun _ => .inl hdisabled⟩, hremembers⟩
  | refused hphase henabled hlocked =>
      exact ⟨⟨nofun, by simp, by simp, by simp⟩, hremembers⟩
  | passed hphase henabled hopen =>
      exact ⟨⟨fun _ => henabled, by simp, by simp, by simp⟩, hremembers⟩
  | found hphase hfound =>
      obtain ⟨hlookup, hsub⟩ := mem_recentlyVerified hfound
      obtain ⟨expires, hlookup⟩ := hlookup rfl
      obtain ⟨username, password, hdigest, husername, hpassword⟩ := hremembers _ _ hlookup
      have hgood : c.correct inner = true := by
        have htexts := hinj hdigest
        simp only [List.cons.injEq, and_true, true_and] at htexts
        rw [Check.correct, Check.key, attemptKey, htexts.1, htexts.2, husername, hpassword]
        rfl
      exact ⟨⟨fun _ => hsound.enabled (by rw [hphase]; rfl), fun _ => hgood, by simp, by simp⟩,
        fun digest expires h => hremembers digest expires (hsub digest expires h)⟩
  | unknown hphase hunknown =>
      obtain ⟨-, hsub⟩ := mem_recentlyVerified hunknown
      exact ⟨⟨fun _ => hsound.enabled (by rw [hphase]; rfl), by simp, by simp, by simp⟩,
        fun digest expires h => hremembers digest expires (hsub digest expires h)⟩
  | correct hphase hgood =>
      exact ⟨⟨fun _ => hsound.enabled (by rw [hphase]; rfl), fun _ => hgood, by simp, by simp⟩,
        hremembers⟩
  | wrong hphase hbad =>
      exact ⟨⟨fun _ => hsound.enabled (by rw [hphase]; rfl), by simp, fun _ => hbad, by simp⟩,
        hremembers⟩
  | remembered hphase =>
      have hgood := hsound.good (.inl hphase)
      refine ⟨⟨fun _ => hsound.enabled (by rw [hphase]; rfl), fun _ => hgood, by simp, by simp⟩, ?_⟩
      intro digest expires hlookup
      obtain rfl | hbefore := mem_rememberVerified hlookup
      · rw [Check.correct, Bool.and_eq_true] at hgood
        exact ⟨c.username, c.password, rfl, hgood.1, hgood.2⟩
      · exact hremembers digest expires hbefore
  | cleared hphase =>
      exact ⟨⟨nofun, by simp, by simp, fun _ => .inr (hsound.good (.inr hphase))⟩, hremembers⟩
  | recorded hphase =>
      exact ⟨⟨nofun, by simp, fun _ => hsound.bad (.inl hphase), by simp⟩, hremembers⟩

/-- Every check of a state is sound, and what is remembered is right. -/
structure Sound (inner : Inner δ) (s : State δ) : Prop where
  checks : ∀ c ∈ s.checks, c.Sound inner
  remembers : Remembers inner s.verified

theorem Sound.step (hinj : Function.Injective inner.keyedDigest) (h : Sound inner s)
    (hstep : step inner s e = some s') : Sound inner s' := by
  cases e with
  | enter client username password =>
      cases hstep
      refine ⟨fun c hc => ?_, h.remembers⟩
      obtain hc | hc := List.mem_append.1 hc
      · exact h.checks c hc
      · rw [List.mem_singleton.1 hc]
        exact ⟨nofun, by simp, by simp, by simp⟩
  | proceed i =>
      obtain ⟨c, phase, attempts, verified, hc, hproceeds, rfl⟩ := step_proceed hstep
      obtain ⟨hsound, hremembers⟩ :=
        hproceeds.sound hinj (h.checks c (List.mem_of_getElem? hc)) h.remembers
      refine ⟨fun c' hc' => ?_, hremembers⟩
      obtain hc' | rfl := List.mem_or_eq_of_mem_set hc'
      · exact h.checks c' hc'
      · exact hsound
  | dropVerified read =>
      rw [Auth.step] at hstep
      split at hstep
      · cases hstep
        refine ⟨h.checks, fun digest expires hlookup => ?_⟩
        rw [Table.lookup_retain, Option.filter_eq_some_iff] at hlookup
        exact h.remembers digest expires hlookup.1
      · cases hstep
  | tick | dropFailures =>
      cases hstep
      exact ⟨h.checks, h.remembers⟩

/-- A check that has passed the gate, with any verdict but the lockout. -/
def LookedAt (j : Nat) (s : State δ) : Prop :=
  ∃ c, s.checks[j]? = some c ∧ c.phase ≠ .entered ∧ c.phase ≠ .done .lockedOut

/-- No check is locked out after the gate. -/
theorem Proceeds.lookedAt {c : Check} {phase : Phase} {attempts : Attempts}
    {verified : Table δ Instant} (h : Proceeds inner s c phase attempts verified)
    (hphase : c.phase ≠ .entered) : phase ≠ .entered ∧ phase ≠ .done .lockedOut := by
  cases h with
  | disabled h | refused h | passed h => exact absurd h hphase
  | found | unknown | correct | wrong | remembered | cleared | recorded =>
      exact ⟨nofun, by simp⟩

theorem LookedAt.step {j : Nat} (h : LookedAt j s) (hstep : step inner s e = some s') :
    LookedAt j s' := by
  obtain ⟨c, hc, hentered, hlocked⟩ := h
  cases e with
  | enter client username password =>
      cases hstep
      refine ⟨c, ?_, hentered, hlocked⟩
      rw [List.getElem?_append_left (List.getElem?_eq_some_iff.1 hc).1]
      exact hc
  | proceed i =>
      obtain ⟨c', phase, attempts, verified, hc', hproceeds, rfl⟩ := step_proceed hstep
      by_cases hij : i = j
      · subst hij
        rw [hc] at hc'
        cases hc'
        refine ⟨{ c with phase }, ?_, hproceeds.lookedAt hentered⟩
        rw [List.getElem?_set_self (List.getElem?_eq_some_iff.1 hc).1]
      · exact ⟨c, by rw [List.getElem?_set_ne hij]; exact hc, hentered, hlocked⟩
  | dropVerified read =>
      rw [Auth.step] at hstep
      split at hstep
      · cases hstep
        exact ⟨c, hc, hentered, hlocked⟩
      · cases hstep
  | tick | dropFailures =>
      cases hstep
      exact ⟨c, hc, hentered, hlocked⟩

section Runs

variable {n : Nat} (r : CheckRun inner n)

/-- When a check of the key comes to the gate with the maximum of failures
last, all within the lockout, it is refused until the lockout after the last
of them is over, and passes from then on. -/
def RefusedUntilOver (key : AttemptKey) : Prop :=
  ∀ i < n, ∀ j c, r.event i = .proceed j → (r.state i).checks[j]? = some c →
    c.key inner = key → c.phase = .entered →
    ∀ older (fails : List Instant) last, history r key i = older ++ fails.map (·, .failure) →
      fails.length = inner.config.maxFailedAttempts.toNat → fails.getLast? = some last →
      (∀ t ∈ fails, last < t + inner.config.lockoutDuration) →
      (r.state (i + 1)).checks[j]? = some { c with
        phase := if (r.state i).now < last + inner.config.lockoutDuration then
          .done .lockedOut else .passed }

/-- A check that is refused has taken no step but the one through the gate. -/
def RefusedUnseen : Prop :=
  ∀ i ≤ n, ∀ j c, (r.state i).checks[j]? = some c → c.phase = .done .lockedOut →
    ∀ k < i, r.event k = .proceed j →
      ∃ c', (r.state k).checks[j]? = some c' ∧ c'.phase = .entered

/-- What the gate answers a check of the key depends on the key's own
history, and the verdict after it on the credentials. -/
def OwnVerdicts (key : AttemptKey) : Prop :=
  (∀ i < n, ∀ j c, r.event i = .proceed j → (r.state i).checks[j]? = some c →
    c.key inner = key → c.phase = .entered →
    (r.state (i + 1)).checks[j]? = some { c with
      phase := gateVerdict inner.config (r.state i).now
        (recordOf inner.config.lockoutDuration (history r key i)) })
  ∧ ∀ i ≤ n, ∀ c ∈ (r.state i).checks, c.key inner = key →
    (c.phase = .done .accepted → inner.config.enabled = false ∨ c.correct inner = true)
      ∧ (c.phase = .done .rejected → c.correct inner = false)

variable {r}

theorem refused_unseen : RefusedUnseen r := by
  intro i hi j c hc hlocked k hk hevent
  have hnext := r.next k (by omega)
  rw [hevent] at hnext
  obtain ⟨c', phase, attempts, verified, hc', hproceeds, hs'⟩ := step_proceed hnext
  refine ⟨c', hc', ?_⟩
  by_contra hentered
  have hlooked : LookedAt j (r.state (k + 1)) := by
    refine ⟨{ c' with phase }, ?_, hproceeds.lookedAt hentered⟩
    rw [hs', List.getElem?_set_self (List.getElem?_eq_some_iff.1 hc').1]
  obtain ⟨c'', hc'', -, hnot⟩ := r.stable hlooked
    (fun _ _ _ hstep hlooked => hlooked.step hstep) i (by omega) hi
  rw [hc] at hc''
  cases hc''
  exact hnot hlocked

/-- In a run, every check is sound. -/
theorem sound {now : Instant} (hinj : Function.Injective inner.keyedDigest)
    (hinit : r.state 0 = State.initial now) : ∀ i ≤ n, Sound inner (r.state i) := by
  refine r.invariant ?_ fun s e s' hstep h => Sound.step hinj h hstep
  rw [hinit]
  exact ⟨nofun, nofun⟩

theorem own_verdicts {now : Instant} (hinj : Function.Injective inner.keyedDigest)
    (hinit : r.state 0 = State.initial now)
    (htracked : ∀ i ≤ n, (r.state i).failedAttempts.entries.length < maxTrackedClients)
    (key : AttemptKey) : OwnVerdicts r key := by
  refine ⟨?_, ?_⟩
  · intro i hi j c hevent hc hkey hphase
    have hnext := r.next i hi
    rw [hevent] at hnext
    obtain ⟨c', phase, attempts, verified, hc', hproceeds, hs'⟩ := step_proceed hnext
    rw [hc] at hc'
    cases hc'
    rw [hs', List.getElem?_set_self (List.getElem?_eq_some_iff.1 hc).1]
    have hagrees := (agrees_history hinit htracked key i (by omega)).any_lockOut
    have hgate : keyLockedOut inner (r.state i).failedAttempts (r.state i).now (c.key inner)
        = (recordOf inner.config.lockoutDuration (history r key i)).any
          (Failures.lockOut inner.config (r.state i).now) := by
      rw [← hagrees, hkey]
      rfl
    have hverdict : phase = gateVerdict inner.config (r.state i).now
        (recordOf inner.config.lockoutDuration (history r key i)) := by
      rw [gateVerdict, ← hgate]
      cases hproceeds with
      | disabled _ hdisabled => simp [hdisabled]
      | refused _ henabled hlocked => simp [henabled, hlocked]
      | passed _ henabled hopen => simp [henabled, hopen]
      | found h | unknown h | correct h | wrong h | remembered h | cleared h | recorded h =>
          rw [hphase] at h
          cases h
    rw [hverdict]
  · intro i hi c hc _
    have hcheck := (sound hinj hinit i hi).checks c hc
    exact ⟨hcheck.accepted, fun h => hcheck.bad (.inr h)⟩

/-- A check that notes something is past the gate. -/
theorem enabled_of_marks (hsound : Sound inner s) (h : marks inner key s e ≠ []) :
    inner.config.enabled = true := by
  cases e with
  | proceed i =>
      rw [marks] at h
      split at h
      · rename_i c hc
        have hcheck := hsound.checks c (List.mem_of_getElem? hc)
        split at h
        · rename_i hrecording
          exact hcheck.enabled (by rw [hrecording.2]; rfl)
        · split at h
          · rename_i hclearing
            exact hcheck.enabled (by rw [hclearing.2]; rfl)
          · exact absurd rfl h
      · exact absurd rfl h
  | tick | enter | dropFailures | dropVerified => exact absurd rfl h

/-- A failure is noted only if a login is needed. -/
theorem enabled_of_history {now : Instant} (hinj : Function.Injective inner.keyedDigest)
    (hinit : r.state 0 = State.initial now) (key : AttemptKey) :
    ∀ i ≤ n, history r key i ≠ [] → inner.config.enabled = true := by
  intro i
  induction i with
  | zero => exact fun _ h => absurd rfl h
  | succ i ih =>
      intro hi hne
      by_cases hbefore : history r key i = []
      · rw [history, Run.collect, ← history, hbefore, List.nil_append] at hne
        exact enabled_of_marks (sound hinj hinit i (by omega)) hne
      · exact ih (by omega) hbefore

theorem refused_until_over {now : Instant} (hinj : Function.Injective inner.keyedDigest)
    (hinit : r.state 0 = State.initial now)
    (htracked : ∀ i ≤ n, (r.state i).failedAttempts.entries.length < maxTrackedClients)
    (key : AttemptKey) : RefusedUntilOver r key := by
  intro i hi j c hevent hc hkey hphase older fails last hhistory hlength hlast hwithin
  obtain ⟨hgate, -⟩ := own_verdicts hinj hinit htracked key
  rw [hgate i hi j c hevent hc hkey hphase]
  have hne : history r key i ≠ [] := by
    rw [hhistory]
    cases fails with
    | nil => cases hlast
    | cons => simp
  have henabled := enabled_of_history hinj hinit key i (by omega) hne
  have hsorted : fails.Pairwise (· ≤ ·) := by
    have hpairwise := (history_sorted (r := r) key i (by omega)).1
    rw [hhistory, List.pairwise_append, List.pairwise_map] at hpairwise
    exact hpairwise.2.1
  obtain ⟨failures, hrecord, hfailuresLast, hcount⟩ :=
    recordOf_failures older hlast hsorted hwithin
  have hlt := inner.config.maxFailedAttempts.toNat_lt
  have hmaxCount : inner.config.maxFailedAttempts.toNat ≤ failures.count := by
    rw [u32Max] at hcount
    omega
  have hnow : last ≤ (r.state i).now := by
    have hmem : (last, Mark.failure) ∈ history r key i := by
      rw [hhistory]
      exact List.mem_append_right _ (List.mem_map_of_mem (List.mem_of_getLast? hlast))
    exact (history_sorted (r := r) key i (by omega)).2 _ hmem
  have hlock : failures.lockOut inner.config (r.state i).now
      = decide ((r.state i).now < last + inner.config.lockoutDuration) := by
    rw [Failures.lockOut, decide_eq_true hmaxCount, Bool.true_and, hfailuresLast]
    refine decide_eq_decide.2 ?_
    dsimp only [Instant] at *
    omega
  rw [gateVerdict, henabled, hhistory, hrecord, Option.any_some, hlock]
  simp

/-- The lockout, for runs of any checks at once: if there is room for each
check that passes the gate, no more than the maximum of wrong passwords of a
key is verified in a window without a login; a key whose last failures lie
within the lockout is refused, unseen, until it is over; and the verdicts of
a key depend on its own history and credentials. -/
theorem login_lockout (inner : Inner δ) (hinj : Function.Injective inner.keyedDigest)
    {n : Nat} (r : CheckRun inner n) (now : Instant) (hinit : r.state 0 = State.initial now)
    (htracked : ∀ i ≤ n, (r.state i).failedAttempts.entries.length < maxTrackedClients)
    (key : AttemptKey) :
    ((∀ i < n, HasRoom inner (r.state i) (r.event i)) → GuessesBounded r key)
      ∧ RefusedUntilOver r key ∧ RefusedUnseen r ∧ OwnVerdicts r key :=
  ⟨fun hroom => guesses_bounded hinit htracked hroom key,
    refused_until_over hinj hinit htracked key, refused_unseen,
    own_verdicts hinj hinit htracked key⟩

end Runs

-- == guesses

/-- One failure locks out for a minute. -/
def strict : Inner (List String) where
  config := {
    enabled := true
    username := "admin"
    passwordHash := "$2b$12$hash"
    sessionTimeout := 0
    maxFailedAttempts := 1
    lockoutDuration := 60000000000 }
  keyedDigest := id
  bcryptVerify password _ := password = "correct horse"

/-- A guess at the password. -/
def guess (password : String) : Event := .enter none "admin" password

/-- A second guess comes in after the first has been recorded. -/
def oneByOne : CheckRun strict 7 :=
  Run.ofPartial (step strict) (.initial 0)
    (fun i => [guess "123456", .proceed 0, .proceed 0, .proceed 0, .proceed 0, guess "letmein",
      .proceed 1].getD i (.tick 0))
    (by decide)

/-- Two guesses go on side by side. -/
def sideBySide : CheckRun strict 8 :=
  Run.ofPartial (step strict) (.initial 0)
    (fun i => [guess "123456", guess "letmein", .proceed 0, .proceed 1, .proceed 0, .proceed 1,
      .proceed 0, .proceed 1].getD i (.tick 0))
    (by decide)

/-- One guess after another. -/
theorem login_lockout_one_by_one :
    let key := attemptKey strict none "admin"
    GuessesBounded oneByOne key ∧ RefusedUntilOver oneByOne key ∧ RefusedUnseen oneByOne
      ∧ OwnVerdicts oneByOne key := by
  have h := login_lockout strict Function.injective_id oneByOne 0 rfl (by decide)
    (attemptKey strict none "admin")
  exact ⟨h.1 (by decide), h.2⟩

/-- Side by side, two wrong passwords are verified where one is the
maximum. -/
theorem side_by_side_unbounded : ¬ GuessesBounded sideBySide (attemptKey strict none "admin") := by
  intro h
  have hcount := h 0 8 (by decide) (by decide) (by decide) (by decide)
  revert hcount
  decide

end Auth

end Hammerwork
