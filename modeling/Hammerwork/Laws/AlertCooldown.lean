/-
How far apart the attempts to send an alert are, over any interleaving.

An attempt in progress, and one that reached a target, is protected by the
entry of its key in `last_alerts`, up to the cooldown after its alert was
built; a failed one by the entry in `failed_alerts`, from when its failure is
recorded (`Fits`). A run keeps this as long as no call takes away or overwrites
what protects another (`Harmless`).

So in such a run attempts are as far apart as they should be (`Spaced`). Else
another attempt may start while a failure is being recorded, or after a slow
call has released or replaced the entry of a newer one.
-/
import Hammerwork.Alerting
import Hammerwork.Lib.Run
import Hammerwork.Lib.Tally

namespace Hammerwork

namespace Alerting

variable (config : AlertingConfig)

-- == statements

def Step (s : State) (e : Event) (s' : State) : Prop := s.next config e = some s'

/-- An event starts the attempt of a call: it is out of the cooldown, and not
delayed. -/
def Starts (s : State) (e : Event) (c : Nat) (call : Call) : Prop :=
  (∃ ok, e.act = .own c ok) ∧ s.calls[c]? = some call ∧ call.pc = .checked ∧
    s.manager.retryPending config e.now call.key = false

/-- What is expected of another attempt of the key when one starts. -/
structure Spaced (now : DateTime) (other : Call) : Prop where
  delivery : ∀ t, other.deliveredAt = some t → t + config.cooldownPeriod ≤ now
  /-- It reached no target. -/
  failure : ∀ t, other.deliveredAt = none → other.endedAt = some t → t + config.retryDelay ≤ now
  /-- It is still in progress. -/
  overlap : ∀ t, other.startedAt = some t → other.endedAt = none →
    t + config.cooldownPeriod ≤ now

/-- A call whose attempt is in progress or reached a target. -/
def Call.Guarded (call : Call) : Prop :=
  match call.pc with
  | .sending _ _ => True
  | .forgetting => True
  | .confirming => True
  | .delivered => True
  | _ => False

/-- The other calls of the key of a call. -/
def Others (s : State) (c : Nat) (call : Call) (P : Call → Prop) : Prop :=
  ∀ d other, s.calls[d]? = some other → d ≠ c → other.key = call.key → P other

/-- The cooldown of another attempt is not between its end as counted from
when the alert was built and as counted from the attempt, and its failure is
recorded. -/
structure Clear (now : DateTime) (other : Call) : Prop where
  delivery : ∀ t, other.deliveredAt = some t →
    other.timestamp + config.cooldownPeriod ≤ now → t + config.cooldownPeriod ≤ now
  overlap : ∀ t, other.startedAt = some t → other.endedAt = none →
    other.timestamp + config.cooldownPeriod ≤ now → t + config.cooldownPeriod ≤ now
  recorded : ∀ t, other.endedAt = some t → other.pc = .releasing ∨ other.pc = .recording →
    t + config.retryDelay ≤ now

/-- What a call must not do to others in its next section. -/
def Harmless (s : State) (e : Event) : Prop :=
  ∀ c ok call, e.act = .own c ok → s.calls[c]? = some call →
    match call.pc with
    | .checked => Others s c call (Clear config e.now)
    -- the failure it forgets does not delay the alert any more
    | .forgetting => s.manager.retryPending config e.now call.key = false
    | .confirming => Others s c call fun other => other.Guarded →
        other.timestamp + config.cooldownPeriod ≤ e.now ∨ other.timestamp ≤ call.timestamp
    | .releasing => Others s c call fun other => other.Guarded →
        other.timestamp + config.cooldownPeriod ≤ e.now
    | _ => True

-- == sections

variable {config} {now now' : DateTime} {ok : Bool} {m m' : AlertManager} {c : Nat}
  {call call' : Call}

variable (config now ok m c call) in
/-- What a section of a call does. -/
inductive Section : AlertManager → Call → Prop where
  | cooling : call.pc = .built → Section m { call with pc := .skipped }
  | check : call.pc = .built → m.holder = none → m.inCooldown config now call.key = false →
      Section { m with holder := some c } { call with pc := .checked }
  | pending : call.pc = .checked →
      Section { m with holder := none } { call with pc := .skipped }
  | start : call.pc = .checked → m.retryPending config now call.key = false →
      Section
        { m with
          lastAlerts := m.lastAlerts.insert call.key call.timestamp
          holder := none }
        { call with
          pc := afterAnswer config config.targets 0
          startedAt := some now
          endedAt := if config.targets = 0 then some now else none }
  | answer (left failures : Nat) : call.pc = .sending left failures →
      Section m
        { call with
          pc := afterAnswer config (left - 1) (if ok then failures else failures + 1)
          deliveredAt := if ok then some now else call.deliveredAt
          endedAt := if left - 1 = 0 then some now else none }
  | forget : call.pc = .forgetting →
      Section { m with failedAlerts := m.failedAlerts.erase call.key }
        { call with pc := .confirming }
  | confirm : call.pc = .confirming → m.holder = none →
      Section { m with lastAlerts := m.lastAlerts.insert call.key call.timestamp }
        { call with pc := .delivered }
  | release : call.pc = .releasing → m.holder = none →
      Section { m with lastAlerts := m.lastAlerts.erase call.key } { call with pc := .recording }
  | record : call.pc = .recording →
      Section { m with failedAlerts := m.failedAlerts.insert call.key now }
        { call with pc := .undelivered }

theorem section_cases (h : call.section config now ok m c = some (m', call')) :
    Section config now ok m c call m' call' := by
  unfold Call.section at h
  cases hpc : call.pc with
  | built =>
      simp only [hpc] at h
      split at h
      case isTrue => cases h
      case isFalse hfree =>
        split at h
        case isTrue => cases h; exact .cooling hpc
        case isFalse hout =>
          cases h
          exact .check hpc (by simpa using hfree) (by simpa using hout)
  | checked =>
      simp only [hpc] at h
      split at h
      case isTrue => cases h; exact .pending hpc
      case isFalse hout => cases h; exact .start hpc (by simpa using hout)
  | sending left failures =>
      simp only [hpc] at h
      cases h
      exact .answer left failures hpc
  | forgetting =>
      simp only [hpc] at h
      cases h
      exact .forget hpc
  | confirming =>
      simp only [hpc] at h
      split at h
      case isTrue => cases h
      case isFalse hfree => cases h; exact .confirm hpc (by simpa using hfree)
  | releasing =>
      simp only [hpc] at h
      split at h
      case isTrue => cases h
      case isFalse hfree => cases h; exact .release hpc (by simpa using hfree)
  | recording =>
      simp only [hpc] at h
      cases h
      exact .record hpc
  | skipped => simp [hpc] at h
  | delivered => simp [hpc] at h
  | undelivered => simp [hpc] at h

-- == invariant

/-- What protects the attempt of a call, and where a call is. -/
structure Fits (config : AlertingConfig) (now : DateTime) (m : AlertManager) (c : Nat)
    (call : Call) : Prop where
  checked : call.pc = .checked → m.holder = some c ∧
    ∀ t, m.lastAlerts.lookup call.key = some t → t + config.cooldownPeriod ≤ now
  guarded : call.Guarded → now < call.timestamp + config.cooldownPeriod →
    ∃ t, m.lastAlerts.lookup call.key = some t ∧ call.timestamp ≤ t
  recorded : call.pc = .undelivered → ∀ t, call.endedAt = some t → now < t + config.retryDelay →
    ∃ t', m.failedAlerts.lookup call.key = some t' ∧ t ≤ t'
  low : minUtc ≤ call.timestamp
  fresh : call.pc = .built ∨ call.pc = .checked ∨ call.pc = .skipped →
    call.startedAt = none ∧ call.deliveredAt = none ∧ call.endedAt = none
  sending : ∀ left failures, call.pc = .sending left failures →
    0 < left ∧ failures + left ≤ config.targets ∧ call.endedAt = none ∧
      (call.deliveredAt = none ↔ failures + left = config.targets)
  reached : call.pc = .forgetting ∨ call.pc = .confirming ∨ call.pc = .delivered →
    call.deliveredAt.isSome ∧ call.endedAt.isSome
  failed : call.pc = .releasing ∨ call.pc = .recording ∨ call.pc = .undelivered →
    call.deliveredAt = none ∧ ∃ t, call.endedAt = some t ∧ t ≤ now

/-- What every state of a harmless run is like. -/
structure Sound (config : AlertingConfig) (s : State) : Prop where
  range : minUtc ≤ s.now ∧ s.now ≤ maxUtc
  last : ∀ key t, s.manager.lastAlerts.lookup key = some t → minUtc ≤ t
  failed : ∀ key t, s.manager.failedAlerts.lookup key = some t → minUtc ≤ t
  calls : ∀ c call, s.calls[c]? = some call → Fits config s.now s.manager c call

-- == manager

/-- Spans that no two instants are apart count as for ever. -/
theorem elapsed {t : DateTime} {d : Duration} (hlow : minUtc ≤ t) (hhigh : now ≤ maxUtc)
    (h : ¬ now - t < saturatingChronoDuration d) : t + d ≤ now := by
  unfold saturatingChronoDuration at h
  split at h
  case isTrue => exact Int.add_le_of_le_sub_left (Int.not_lt.1 h)
  case isFalse =>
    have hspan := Int.le_trans (Int.not_lt.1 h) (Int.sub_le_sub hhigh hlow)
    exact absurd hspan (by decide)

theorem not_inCooldown {key : AlertKey} (hlow : ∀ t, m.lastAlerts.lookup key = some t → minUtc ≤ t)
    (hhigh : now ≤ maxUtc) (h : m.inCooldown config now key = false) :
    ∀ t, m.lastAlerts.lookup key = some t → t + config.cooldownPeriod ≤ now := by
  intro t ht
  refine elapsed (hlow t ht) hhigh ?_
  simpa [AlertManager.inCooldown, ht] using h

theorem not_retryPending {key : AlertKey}
    (hlow : ∀ t, m.failedAlerts.lookup key = some t → minUtc ≤ t)
    (hhigh : now ≤ maxUtc) (h : m.retryPending config now key = false) :
    ∀ t, m.failedAlerts.lookup key = some t → t + config.retryDelay ≤ now := by
  intro t ht
  refine elapsed (hlow t ht) hhigh ?_
  simpa [AlertManager.retryPending, ht] using h

theorem Fits.later (h : Fits config now m c call) (hle : now ≤ now') :
    Fits config now' m c call where
  checked := by
    intro hpc
    obtain ⟨hholder, hout⟩ := h.checked hpc
    exact ⟨hholder, fun t ht => Int.le_trans (hout t ht) hle⟩
  guarded := fun hguarded hnow => h.guarded hguarded (Int.lt_of_le_of_lt hle hnow)
  recorded := fun hpc t ht hnow => h.recorded hpc t ht (Int.lt_of_le_of_lt hle hnow)
  low := h.low
  fresh := h.fresh
  sending := h.sending
  reached := h.reached
  failed := by
    intro hpc
    obtain ⟨hnone, t, ht, hpast⟩ := h.failed hpc
    exact ⟨hnone, t, ht, Int.le_trans hpast hle⟩

/-- An attempt is out of its cooldown once the entry of its key is. -/
theorem Fits.expired (h : Fits config now m c call) (hguarded : call.Guarded)
    (hfound : ∀ t, m.lastAlerts.lookup call.key = some t → t + config.cooldownPeriod ≤ now) :
    call.timestamp + config.cooldownPeriod ≤ now := by
  by_cases hnow : now < call.timestamp + config.cooldownPeriod
  · obtain ⟨t, ht, hle⟩ := h.guarded hguarded hnow
    exact Int.le_trans (Int.add_le_add_right hle _) (hfound t ht)
  · exact Int.not_lt.1 hnow

-- == steps

/-- A section of a call keeps what the others rely on, if it is harmless. -/
theorem Section.others {d : Nat} {other : Call} (h : Section config now ok m c call m' call')
    (hown : Fits config now m c call) (hother : Fits config now m d other) (hne : d ≠ c)
    (hforget : call.pc = .forgetting → other.key = call.key →
      ∀ t, m.failedAlerts.lookup call.key = some t → t + config.retryDelay ≤ now)
    (hconfirm : call.pc = .confirming → other.key = call.key → other.Guarded →
      other.timestamp + config.cooldownPeriod ≤ now ∨ other.timestamp ≤ call.timestamp)
    (hrelease : call.pc = .releasing → other.key = call.key → other.Guarded →
      other.timestamp + config.cooldownPeriod ≤ now) : Fits config now m' d other := by
  -- only the call itself holds the lock
  have hlocked : other.pc = .checked → m.holder = none ∨ call.pc = .checked → False := by
    intro hchecked hcase
    have hholder := (hother.checked hchecked).1
    rcases hcase with hfree | hpc
    · rw [hfree] at hholder
      cases hholder
    · rw [(hown.checked hpc).1] at hholder
      exact hne (Option.some.inj hholder).symm
  cases h with
  | cooling => exact hother
  | check hpc hfree hout =>
      exact { hother with checked := fun hchecked => absurd (.inl hfree) (hlocked hchecked) }
  | pending hpc =>
      exact { hother with checked := fun hchecked => absurd (.inr hpc) (hlocked hchecked) }
  | start hpc hnot =>
      refine
        { hother with
          checked := fun hchecked => absurd (.inr hpc) (hlocked hchecked)
          guarded := fun hguarded hnow => ?_ }
      rw [Table.lookup_insert_if]
      split
      case isTrue heq =>
        have hout := hother.expired hguarded (heq ▸ (hown.checked hpc).2)
        exact absurd hout (Int.not_le.2 hnow)
      case isFalse => exact hother.guarded hguarded hnow
  | answer left failures hpc => exact hother
  | forget hpc =>
      refine { hother with recorded := fun hundelivered t ht hnow => ?_ }
      obtain ⟨t', ht', hle⟩ := hother.recorded hundelivered t ht hnow
      rw [Table.lookup_erase_if]
      split
      case isTrue heq =>
        have hout := hforget hpc heq t' (heq ▸ ht')
        exact absurd (Int.le_trans (Int.add_le_add_right hle _) hout) (Int.not_le.2 hnow)
      case isFalse => exact ⟨t', ht', hle⟩
  | confirm hpc hfree =>
      refine
        { hother with
          checked := fun hchecked => absurd (.inl hfree) (hlocked hchecked)
          guarded := fun hguarded hnow => ?_ }
      rw [Table.lookup_insert_if]
      split
      case isTrue heq =>
        rcases hconfirm hpc heq hguarded with hout | hle
        · exact absurd hout (Int.not_le.2 hnow)
        · exact ⟨_, rfl, hle⟩
      case isFalse => exact hother.guarded hguarded hnow
  | release hpc hfree =>
      refine
        { hother with
          checked := fun hchecked => absurd (.inl hfree) (hlocked hchecked)
          guarded := fun hguarded hnow => ?_ }
      rw [Table.lookup_erase_if]
      split
      case isTrue heq => exact absurd (hrelease hpc heq hguarded) (Int.not_le.2 hnow)
      case isFalse => exact hother.guarded hguarded hnow
  | record hpc =>
      refine { hother with recorded := fun hundelivered t ht hnow => ?_ }
      rw [Table.lookup_insert_if]
      split
      case isTrue =>
        obtain ⟨-, t', ht', hpast⟩ := hother.failed (.inr (.inr hundelivered))
        cases ht.symm.trans ht'
        exact ⟨now, rfl, hpast⟩
      case isFalse => exact hother.recorded hundelivered t ht hnow

/-- A call whose attempt is in progress. -/
theorem Fits.of_sending {left failures : Nat} (hpc : call.pc = .sending left failures)
    (hleft : 0 < left) (hcount : failures + left ≤ config.targets) (hended : call.endedAt = none)
    (hnone : call.deliveredAt = none ↔ failures + left = config.targets)
    (hlow : minUtc ≤ call.timestamp)
    (hguarded : now < call.timestamp + config.cooldownPeriod →
      ∃ t, m.lastAlerts.lookup call.key = some t ∧ call.timestamp ≤ t) :
    Fits config now m c call where
  checked := by simp [hpc]
  guarded := fun _ => hguarded
  recorded := by simp [hpc]
  low := hlow
  fresh := by simp [hpc]
  sending := by
    intro left' failures' hpc'
    cases hpc.symm.trans hpc'
    exact ⟨hleft, hcount, hended, hnone⟩
  reached := by simp [hpc]
  failed := by simp [hpc]

/-- A call whose attempt reached a target. -/
theorem Fits.of_reached
    (hpc : call.pc = .forgetting ∨ call.pc = .confirming ∨ call.pc = .delivered)
    (hdelivered : call.deliveredAt.isSome) (hended : call.endedAt.isSome)
    (hlow : minUtc ≤ call.timestamp)
    (hguarded : now < call.timestamp + config.cooldownPeriod →
      ∃ t, m.lastAlerts.lookup call.key = some t ∧ call.timestamp ≤ t) :
    Fits config now m c call where
  checked := by rcases hpc with hpc | hpc | hpc <;> simp [hpc]
  guarded := fun _ => hguarded
  recorded := by rcases hpc with hpc | hpc | hpc <;> simp [hpc]
  low := hlow
  fresh := by rcases hpc with hpc | hpc | hpc <;> simp [hpc]
  sending := by rcases hpc with hpc | hpc | hpc <;> simp [hpc]
  reached := fun _ => ⟨hdelivered, hended⟩
  failed := by rcases hpc with hpc | hpc | hpc <;> simp [hpc]

/-- A call whose attempt reached no target. -/
theorem Fits.of_failed
    (hpc : call.pc = .releasing ∨ call.pc = .recording ∨ call.pc = .undelivered)
    (hnone : call.deliveredAt = none) {t : DateTime} (hended : call.endedAt = some t)
    (hpast : t ≤ now) (hlow : minUtc ≤ call.timestamp)
    (hrecorded : call.pc = .undelivered →
      ∃ t', m.failedAlerts.lookup call.key = some t' ∧ t ≤ t') :
    Fits config now m c call where
  checked := by rcases hpc with hpc | hpc | hpc <;> simp [hpc]
  guarded := by rcases hpc with hpc | hpc | hpc <;> simp [hpc, Call.Guarded]
  recorded := by
    intro hpc' t' ht' _
    cases hended.symm.trans ht'
    exact hrecorded hpc'
  low := hlow
  fresh := by rcases hpc with hpc | hpc | hpc <;> simp [hpc]
  sending := by rcases hpc with hpc | hpc | hpc <;> simp [hpc]
  reached := by rcases hpc with hpc | hpc | hpc <;> simp [hpc]
  failed := fun _ => ⟨hnone, t, hended, hpast⟩

/-- A call whose attempt has not started. -/
theorem Fits.of_fresh (hpc : call.pc = .built ∨ call.pc = .checked ∨ call.pc = .skipped)
    (hstarted : call.startedAt = none) (hnone : call.deliveredAt = none)
    (hended : call.endedAt = none) (hlow : minUtc ≤ call.timestamp)
    (hchecked : call.pc = .checked → m.holder = some c ∧
      ∀ t, m.lastAlerts.lookup call.key = some t → t + config.cooldownPeriod ≤ now) :
    Fits config now m c call where
  checked := hchecked
  guarded := by rcases hpc with hpc | hpc | hpc <;> simp [hpc, Call.Guarded]
  recorded := by rcases hpc with hpc | hpc | hpc <;> simp [hpc]
  low := hlow
  fresh := fun _ => ⟨hstarted, hnone, hended⟩
  sending := by rcases hpc with hpc | hpc | hpc <;> simp [hpc]
  reached := by rcases hpc with hpc | hpc | hpc <;> simp [hpc]
  failed := by rcases hpc with hpc | hpc | hpc <;> simp [hpc]

theorem afterAnswer_reached {left failures : Nat} (hleft : left = 0)
    (h : failures < config.targets) : afterAnswer config left failures = .forgetting := by
  simp [afterAnswer, hleft, h]

theorem afterAnswer_failed {left failures : Nat} (hleft : left = 0)
    (htargets : 0 < config.targets) (h : failures = config.targets) :
    afterAnswer config left failures = .releasing := by
  simp [afterAnswer, hleft, h]
  omega

/-- A section of a call keeps what the call itself relies on. -/
theorem Section.own (h : Section config now ok m c call m' call')
    (hown : Fits config now m c call) (htargets : 0 < config.targets)
    (hout : m.inCooldown config now call.key = false →
      ∀ t, m.lastAlerts.lookup call.key = some t → t + config.cooldownPeriod ≤ now) :
    Fits config now m' c call' := by
  cases h with
  | cooling hpc =>
      obtain ⟨hstarted, hnone, hended⟩ := hown.fresh (.inl hpc)
      exact .of_fresh (.inr (.inr rfl)) hstarted hnone hended hown.low nofun
  | check hpc hfree hnot =>
      obtain ⟨hstarted, hnone, hended⟩ := hown.fresh (.inl hpc)
      exact .of_fresh (.inr (.inl rfl)) hstarted hnone hended hown.low fun _ => ⟨rfl, hout hnot⟩
  | pending hpc =>
      obtain ⟨hstarted, hnone, hended⟩ := hown.fresh (.inr (.inl hpc))
      exact .of_fresh (.inr (.inr rfl)) hstarted hnone hended hown.low nofun
  | start hpc hnot =>
      obtain ⟨hstarted, hnone, hended⟩ := hown.fresh (.inr (.inl hpc))
      have hpc' : afterAnswer config config.targets 0 = .sending config.targets 0 :=
        if_pos htargets
      refine .of_sending hpc' htargets (by omega) ?_ ?_ hown.low fun _ => ?_
      · exact if_neg (by omega)
      · simpa using hnone
      · exact ⟨_, by simp, Int.le_refl _⟩
  | answer left failures hpc =>
      obtain ⟨hleft, hcount, hended, hnone⟩ := hown.sending left failures hpc
      have hguarded := hown.guarded (by simp [Call.Guarded, hpc])
      by_cases hmore : 0 < left - 1
      · refine .of_sending (if_pos hmore) hmore ?_ (if_neg (by omega)) ?_ hown.low hguarded
        · split <;> omega
        · cases ok with
          | true =>
              simp
              omega
          | false =>
              simp [hnone]
              omega
      · have hlast : left - 1 = 0 := by omega
        have hended' : (if left - 1 = 0 then some now else none) = some now := if_pos hlast
        -- the last target has answered: was any reached?
        cases ok with
        | true =>
            have hpc' : afterAnswer config (left - 1) failures = .forgetting :=
              afterAnswer_reached hlast (by omega)
            exact .of_reached (.inl hpc') rfl (by simp [hlast]) hown.low hguarded
        | false =>
            cases hdelivered : call.deliveredAt with
            | none =>
                have hall := hnone.1 hdelivered
                have hpc' : afterAnswer config (left - 1) (failures + 1) = .releasing :=
                  afterAnswer_failed hlast htargets (by omega)
                exact .of_failed (.inl hpc') rfl hended' (Int.le_refl _) hown.low fun h =>
                  absurd (hpc'.symm.trans h) nofun
            | some t =>
                have hsome : failures + left ≠ config.targets := fun heq => by
                  simp [hnone.2 heq] at hdelivered
                have hpc' : afterAnswer config (left - 1) (failures + 1) = .forgetting :=
                  afterAnswer_reached hlast (by omega)
                exact .of_reached (.inl hpc') rfl (by simp [hlast]) hown.low hguarded
  | forget hpc =>
      obtain ⟨hdelivered, hended⟩ := hown.reached (.inl hpc)
      exact .of_reached (.inr (.inl rfl)) hdelivered hended hown.low
        (hown.guarded (by simp [Call.Guarded, hpc]))
  | confirm hpc =>
      obtain ⟨hdelivered, hended⟩ := hown.reached (.inr (.inl hpc))
      exact .of_reached (.inr (.inr rfl)) hdelivered hended hown.low fun _ =>
        ⟨_, by simp, Int.le_refl _⟩
  | release hpc =>
      obtain ⟨hnone, t, hended, hpast⟩ := hown.failed (.inl hpc)
      exact .of_failed (.inr (.inl rfl)) hnone hended hpast hown.low nofun
  | record hpc =>
      obtain ⟨hnone, t, hended, hpast⟩ := hown.failed (.inr (.inl hpc))
      exact .of_failed (.inr (.inr rfl)) hnone hended hpast hown.low fun _ =>
        ⟨now, by simp, hpast⟩

theorem Section.last (h : Section config now ok m c call m' call')
    (hlow : minUtc ≤ call.timestamp)
    (hlast : ∀ key t, m.lastAlerts.lookup key = some t → minUtc ≤ t) :
    ∀ key t, m'.lastAlerts.lookup key = some t → minUtc ≤ t := by
  have hinsert : ∀ key t, (m.lastAlerts.insert call.key call.timestamp).lookup key = some t →
      minUtc ≤ t := by
    intro key t ht
    rw [Table.lookup_insert_if] at ht
    split at ht
    case isTrue => exact Option.some.inj ht ▸ hlow
    case isFalse => exact hlast key t ht
  cases h with
  | start => exact hinsert
  | confirm => exact hinsert
  | release =>
      intro key t ht
      rw [Table.lookup_erase_if] at ht
      split at ht
      case isTrue => cases ht
      case isFalse => exact hlast key t ht
  | _ => exact hlast

theorem Section.failed (h : Section config now ok m c call m' call') (hnow : minUtc ≤ now)
    (hfailed : ∀ key t, m.failedAlerts.lookup key = some t → minUtc ≤ t) :
    ∀ key t, m'.failedAlerts.lookup key = some t → minUtc ≤ t := by
  cases h with
  | forget =>
      intro key t ht
      rw [Table.lookup_erase_if] at ht
      split at ht
      case isTrue => cases ht
      case isFalse => exact hfailed key t ht
  | record =>
      intro key t ht
      rw [Table.lookup_insert_if] at ht
      split at ht
      case isTrue => exact Option.some.inj ht ▸ hnow
      case isFalse => exact hfailed key t ht
  | _ => exact hfailed

-- == runs

variable {s s' : State} {e : Event}

/-- What an event does. -/
theorem next_cases (h : s.next config e = some s') :
    (s.now ≤ e.now ∧ e.now ≤ maxUtc) ∧
    ((∃ key, e.act = .build key ∧
        s' = { s with now := e.now, calls := s.calls ++ [.new key e.now] }) ∨
      ∃ c ok call m' call', e.act = .own c ok ∧ s.calls[c]? = some call ∧
        Section config e.now ok s.manager c call m' call' ∧
        s' = ⟨e.now, m', s.calls.set c call'⟩) := by
  unfold State.next at h
  split at h
  case isFalse => cases h
  case isTrue hclock =>
    refine ⟨hclock, ?_⟩
    cases hact : e.act with
    | build key =>
        simp only [hact] at h
        cases h
        exact .inl ⟨key, rfl, rfl⟩
    | own c ok =>
        simp only [hact] at h
        obtain ⟨call, hcall, h⟩ := Option.bind_eq_some_iff.1 h
        obtain ⟨⟨m', call'⟩, hsection, h⟩ := Option.map_eq_some_iff.1 h
        exact .inr ⟨c, ok, call, m', call', rfl, hcall, section_cases hsection, h.symm⟩

theorem Sound.step (htargets : 0 < config.targets) (h : s.next config e = some s')
    (hharmless : Harmless config s e) (hsound : Sound config s) : Sound config s' := by
  obtain ⟨⟨hclock, hhigh⟩, hcases⟩ := next_cases h
  have hlow : minUtc ≤ e.now := Int.le_trans hsound.range.1 hclock
  rcases hcases with ⟨key, hact, rfl⟩ | ⟨c, ok, call, m', call', hact, hcall, hsection, rfl⟩
  · refine ⟨⟨hlow, hhigh⟩, hsound.last, hsound.failed, fun d other hd => ?_⟩
    obtain hold | ⟨-, rfl⟩ := Tally.getElem?_added.1 hd
    · exact (hsound.calls d other hold).later hclock
    · exact .of_fresh (.inl rfl) rfl rfl rfl hlow nofun
  · have hown := (hsound.calls c call hcall).later hclock
    have hharmless := hharmless c ok call hact hcall
    refine ⟨⟨hlow, hhigh⟩, hsection.last hown.low hsound.last,
      hsection.failed hlow hsound.failed, fun d other hd => ?_⟩
    obtain ⟨rfl, rfl⟩ | ⟨hne, hold⟩ := (Tally.getElem?_replaced hcall).1 hd
    · exact hsection.own hown htargets (not_inCooldown (hsound.last _) hhigh)
    · refine hsection.others hown ((hsound.calls d other hold).later hclock) hne
        (fun hpc _ => ?_) (fun hpc => ?_) fun hpc => ?_
      · rw [hpc] at hharmless
        exact not_retryPending (hsound.failed _) hhigh hharmless
      · rw [hpc] at hharmless
        exact hharmless d other hold hne
      · rw [hpc] at hharmless
        exact hharmless d other hold hne

theorem Sound.new {begin : DateTime} (hlow : minUtc ≤ begin) (hhigh : begin ≤ maxUtc) :
    Sound config (.new begin) where
  range := ⟨hlow, hhigh⟩
  last := by simp [State.new]
  failed := by simp [State.new]
  calls := by simp [State.new]

theorem Call.stages (call : Call) :
    (call.pc = .built ∨ call.pc = .checked ∨ call.pc = .skipped) ∨
      (∃ left failures, call.pc = .sending left failures) ∨
      (call.pc = .forgetting ∨ call.pc = .confirming ∨ call.pc = .delivered) ∨
      (call.pc = .releasing ∨ call.pc = .recording ∨ call.pc = .undelivered) := by
  cases call.pc <;> simp

theorem Fits.guarded_of_delivered {t : DateTime} (h : Fits config now m c call)
    (hdelivered : call.deliveredAt = some t) : call.Guarded := by
  rcases call.stages with hpc | ⟨left, failures, hpc⟩ | hpc | hpc
  · cases (h.fresh hpc).2.1.symm.trans hdelivered
  · simp [Call.Guarded, hpc]
  · rcases hpc with hpc | hpc | hpc <;> simp [Call.Guarded, hpc]
  · cases (h.failed hpc).1.symm.trans hdelivered

theorem Fits.guarded_of_inProgress {t : DateTime} (h : Fits config now m c call)
    (hstarted : call.startedAt = some t) (hended : call.endedAt = none) : call.Guarded := by
  rcases call.stages with hpc | ⟨left, failures, hpc⟩ | hpc | hpc
  · cases (h.fresh hpc).1.symm.trans hstarted
  · simp [Call.Guarded, hpc]
  · have hended' := (h.reached hpc).2
    simp [hended] at hended'
  · obtain ⟨-, t', ht', -⟩ := h.failed hpc
    cases hended.symm.trans ht'

theorem Fits.failed_of_ended {t : DateTime} (h : Fits config now m c call)
    (hended : call.endedAt = some t) (hnone : call.deliveredAt = none) :
    call.pc = .releasing ∨ call.pc = .recording ∨ call.pc = .undelivered := by
  rcases call.stages with hpc | ⟨left, failures, hpc⟩ | hpc | hpc
  · cases (h.fresh hpc).2.2.symm.trans hended
  · cases (h.sending left failures hpc).2.2.1.symm.trans hended
  · have hdelivered := (h.reached hpc).1
    simp [hnone] at hdelivered
  · exact hpc

/-- An attempt that starts is as far from the others of its key as it should
be, if the others are clear. -/
theorem Sound.spaced (hsound : Sound config s) (hclock : s.now ≤ e.now) (hhigh : e.now ≤ maxUtc)
    (hstarts : Starts config s e c call) (hclear : Others s c call (Clear config e.now)) :
    Others s c call (Spaced config e.now) := by
  obtain ⟨-, hcall, hpc, hnot⟩ := hstarts
  intro d other hd hne hkey
  have hclear := hclear d other hd hne hkey
  have hfound := (((hsound.calls c call hcall).later hclock).checked hpc).2
  have hfits := (hsound.calls d other hd).later hclock
  refine ⟨fun t hdelivered => ?_, fun t hnone hended => ?_, fun t hstarted hended => ?_⟩
  · have hexpired := hfits.expired (hfits.guarded_of_delivered hdelivered) (hkey ▸ hfound)
    exact hclear.delivery t hdelivered hexpired
  · rcases hfits.failed_of_ended hended hnone with hpc | hpc | hpc
    · exact hclear.recorded t hended (.inl hpc)
    · exact hclear.recorded t hended (.inr hpc)
    · by_cases hnow : e.now < t + config.retryDelay
      · obtain ⟨t', ht', hle⟩ := hfits.recorded hpc t hended hnow
        have hout := not_retryPending (hsound.failed _) hhigh hnot t' (hkey ▸ ht')
        exact Int.le_trans (Int.add_le_add_right hle _) hout
      · exact Int.not_lt.1 hnow
  · have hexpired := hfits.expired (hfits.guarded_of_inProgress hstarted hended) (hkey ▸ hfound)
    exact hclear.overlap t hstarted hended hexpired

/-- In a run in which no call takes another's protection away, attempts of
one key are spaced. -/
theorem alert_cooldown {n : Nat} {begin : DateTime} (htargets : 0 < config.targets)
    (hlow : minUtc ≤ begin) (hhigh : begin ≤ maxUtc) (r : Run (Step config) n)
    (h0 : r.state 0 = .new begin) (hharmless : ∀ i < n, Harmless config (r.state i) (r.event i)) :
    ∀ i < n, ∀ c call, Starts config (r.state i) (r.event i) c call →
      Others (r.state i) c call (Spaced config (r.event i).now) := by
  intro i hi c call hstarts
  have hsound : Sound config (r.state i) := by
    refine r.stable (h0 ▸ Sound.new hlow hhigh) (fun j _ hj hstep h => ?_) i (Nat.zero_le i)
      (Nat.le_of_lt hi)
    exact h.step htargets hstep (hharmless j hj)
  obtain ⟨⟨hclock, hlast⟩, -⟩ := next_cases (r.next i hi)
  obtain ⟨⟨ok, hact⟩, hcall, hpc, hnot⟩ := hstarts
  have hclear := hharmless i hi c ok call hact hcall
  rw [hpc] at hclear
  exact hsound.spaced hclock hlast ⟨⟨ok, hact⟩, hcall, hpc, hnot⟩ hclear

-- == inputs

/-- One target, and a cooldown of five minutes. -/
def oneTarget : AlertingConfig := ⟨1, 300000000000⟩

def queueDepth : AlertKey := ("mail", .queueDepthExceeded)

/-- An alert is delivered, and after the cooldown another one is sent. -/
def twoAlerts : Nat → Event
  | 0 => ⟨0, .build queueDepth⟩
  | 1 | 2 | 3 | 4 | 5 => ⟨1000000000, .own 0 true⟩
  | 6 => ⟨400000000000, .build queueDepth⟩
  | _ => ⟨400000000000, .own 1 true⟩

def delivered : Run (Step oneTarget) 9 :=
  .ofPartial (State.next oneTarget) (.new 0) twoAlerts (by decide)

/-- A call that is alone takes nothing away, nor if no alert failed. -/
theorem harmless_alone (hcalls : s.calls.length ≤ 1) (hfailed : s.manager.failedAlerts = ∅) :
    Harmless config s e := by
  intro c ok call hact hcall
  have hothers : ∀ P, Others s c call P := by
    intro P d other hd hne
    have hc := (List.getElem?_eq_some_iff.1 hcall).1
    have hd := (List.getElem?_eq_some_iff.1 hd).1
    omega
  split
  · exact hothers _
  · simp [AlertManager.retryPending, hfailed]
  · exact hothers _
  · exact hothers _
  · trivial

/-- The second attempt is far enough from the first. -/
theorem alert_cooldown_delivered :
    Others (delivered.state 8) 1 ⟨queueDepth, 400000000000, .checked, none, none, none⟩
      (Spaced oneTarget 400000000000) := by
  refine alert_cooldown (by decide) (by decide) (by decide) delivered rfl (fun i hi => ?_) 8
    (by decide) 1 _ ⟨⟨true, rfl⟩, rfl, rfl, by decide⟩
  match i, hi with
  | 0, _ | 1, _ | 2, _ | 3, _ | 4, _ | 5, _ | 6, _ => exact harmless_alone (by decide) rfl
  | 7, _ =>
      intro c ok call hact hcall
      cases hact
      cases hcall
      trivial
  | 8, _ =>
      intro c ok call hact hcall
      cases hact
      cases hcall
      intro d other hd hne _
      match d, hd with
      | 0, hd =>
          cases hd
          exact ⟨fun t ht _ => by cases ht; decide, nofun, nofun⟩
      | 1, _ => exact absurd rfl hne

/-- While the failure of an alert is being recorded, another call checks. -/
def checksBetween : Nat → Event
  | 0 => ⟨0, .build queueDepth⟩
  | 1 | 2 | 4 => ⟨0, .own 0 true⟩
  | 3 => ⟨0, .own 0 false⟩
  | 5 => ⟨0, .build queueDepth⟩
  | _ => ⟨0, .own 1 true⟩

def undelivered : Run (Step oneTarget) 8 :=
  .ofPartial (State.next oneTarget) (.new 0) checksBetween (by decide)

/-- Its attempt starts right after the first has reached no target. -/
theorem retried_at_once : undelivered.state 0 = .new 0 ∧
    Starts oneTarget (undelivered.state 7) (undelivered.event 7) 1
      ⟨queueDepth, 0, .checked, none, none, none⟩ ∧
    ¬ Others (undelivered.state 7) 1 ⟨queueDepth, 0, .checked, none, none, none⟩
      (Spaced oneTarget (undelivered.event 7).now) := by
  refine ⟨rfl, ⟨⟨true, rfl⟩, rfl, rfl, by decide⟩, fun h => ?_⟩
  have hfailure := (h 0 _ rfl (by decide) rfl).failure 0 rfl rfl
  exact absurd hfailure (by decide)

end Alerting

end Hammerwork
