/-
What webhook statistics count, over any interleaving of deliveries.

A delivery attempts until it succeeds, its failure is final or its attempts
are used up (`Delivery.Fits`), and it gets there: each section brings it
nearer to its end (`Delivery.rank`). The counters are totals over the
deliveries of what each has counted so far (`Counts`): a section that counts
something adds to both. So once the deliveries have finished, the counters
agree with each other and with what the endpoint answered.
-/
import Hammerwork.Webhooks
import Hammerwork.Lib.Run
import Hammerwork.Lib.Tally

namespace Hammerwork

namespace Webhooks

-- == statements

def Step (s : State) (e : Event) (s' : State) : Prop := s.next e = some s'

/-- What the attempts of a delivery that has finished are like. -/
structure Complete (d : Delivery) (success : Bool) : Prop where
  count : 1 ≤ d.attempts.length ∧ d.attempts.length ≤ max d.retryPolicy.maxAttempts 1
  /-- All but the last attempt failed, and might be repeated. -/
  before : ∀ delivery ∈ d.attempts.dropLast,
    delivery.success = false ∧ shouldRetry d.retryPolicy delivery = true
  /-- The last attempt succeeded, or it must not be repeated, or there are no
  attempts left. -/
  last : ∃ delivery, d.attempts.getLast? = some delivery ∧ delivery.success = success ∧
    (success = true ∨ shouldRetry d.retryPolicy delivery = false ∨
      d.attempts.length = max d.retryPolicy.maxAttempts 1)

/-- How far a delivery is from its end. -/
def Delivery.rank (d : Delivery) : Nat :=
  3 * (d.maxAttempts - d.attempt) +
    match d.pc with
    | .attempting => 3
    | .updating _ => 2
    | .recording _ => 1
    | .finished _ => 0

def Delivery.isFinished (d : Delivery) : Bool :=
  match d.pc with
  | .finished _ => true
  | _ => false

/-- The event hands an event over to a webhook. -/
def Event.handsOver (w : Nat) : Event → Bool
  | .handOver id _ => id = w
  | _ => false

/-- The event replaces or removes a webhook. -/
def Event.replaces (w : Nat) : Event → Bool
  | .add id => id = w
  | .remove id => id = w
  | _ => false

section Statements

variable {n : Nat} (r : Run Step n) (w i : Nat)

/-- The deliveries of a webhook, after some steps. -/
def deliveriesOf : List Delivery := (r.state i).deliveries.filter fun d => d.webhookId = w

/-- How many events were handed over to a webhook. -/
def handedOver : Nat := r.count (fun _ e => e.handsOver w) 0 i

/-- What is expected of the statistics once all deliveries have finished. -/
structure Balanced (stats : WebhookStats) : Prop where
  attempts : stats.totalAttempts = stats.failedAttempts + stats.successfulDeliveries
  events : stats.successfulDeliveries + stats.failedDeliveries = handedOver r w i
  total : stats.totalAttempts = tally (fun d => d.attempts.length) (deliveriesOf r w i)

/-- What is expected of a webhook's deliveries and statistics. -/
structure Accounted : Prop where
  complete : ∀ d ∈ deliveriesOf r w i, ∀ success, d.pc = .finished success → Complete d success
  /-- A delivery goes on until it has finished. -/
  continues : ∀ d ∈ deliveriesOf r w i, d.isFinished = false → ∀ now durationMs answer stats,
    ∃ next, d.section now durationMs answer stats = some next ∧ next.2.rank < d.rank
  balanced : (∀ d ∈ deliveriesOf r w i, d.isFinished = true) →
    ∃ stats, (r.state i).stats.lookup w = some stats ∧ Balanced r w i stats

end Statements

-- == deliveries

variable {now : DateTime} {durationMs : Nat} {answer : Answer} {d d' : Delivery}
  {stats stats' : Table Nat WebhookStats}

variable (d stats) in
/-- What a section of a delivery does. -/
inductive Section : Table Nat WebhookStats → Delivery → Prop where
  | answer (delivery : WebhookDelivery) : d.pc = .attempting →
      Section stats { d with pc := .updating delivery }
  | update (delivery : WebhookDelivery) : d.pc = .updating delivery →
      Section (stats.modify d.webhookId fun stats => updateWebhookStats stats delivery)
        { d.afterAttempt delivery with attempts := d.attempts ++ [delivery] }
  | record (success : Bool) : d.pc = .recording success →
      Section (stats.modify d.webhookId fun stats => recordDeliveryOutcome stats success)
        { d with pc := .finished success }

theorem section_cases (h : d.section now durationMs answer stats = some (stats', d')) :
    Section d stats stats' d' := by
  unfold Delivery.section at h
  cases hpc : d.pc with
  | attempting =>
      simp only [hpc] at h
      cases h
      exact .answer _ hpc
  | updating delivery =>
      simp only [hpc] at h
      cases h
      exact .update delivery hpc
  | recording success =>
      simp only [hpc] at h
      cases h
      exact .record success hpc
  | finished success => simp [hpc] at h

/-- How a delivery goes on after an attempt. -/
theorem afterAttempt_cases (d : Delivery) (delivery : WebhookDelivery) :
    (delivery.success = false ∧ shouldRetry d.retryPolicy delivery = true ∧
      d.attempt < d.maxAttempts ∧
      d.afterAttempt delivery = { d with attempt := d.attempt + 1, pc := .attempting }) ∨
    ((delivery.success = true ∨ shouldRetry d.retryPolicy delivery = false ∨
        d.maxAttempts ≤ d.attempt) ∧
      d.afterAttempt delivery = { d with pc := .recording delivery.success }) := by
  unfold Delivery.afterAttempt
  split
  case isTrue hsuccess => exact .inr ⟨.inl hsuccess, by rw [hsuccess]⟩
  case isFalse hsuccess =>
    have hfailed : delivery.success = false := by simpa using hsuccess
    split
    case isTrue hmore => exact .inl ⟨hfailed, hmore.2, hmore.1, rfl⟩
    case isFalse hlast =>
      refine .inr ⟨.inr ?_, by rw [hfailed]⟩
      by_cases hretry : shouldRetry d.retryPolicy delivery = true
      · exact .inr (Nat.not_lt.1 fun hlt => hlast ⟨hlt, hretry⟩)
      · exact .inl (by simpa using hretry)

@[simp] theorem afterAttempt_webhookId (d : Delivery) (delivery : WebhookDelivery) :
    (d.afterAttempt delivery).webhookId = d.webhookId := by
  rcases afterAttempt_cases d delivery with ⟨-, -, -, h⟩ | ⟨-, h⟩ <;> rw [h]

theorem Section.webhookId (h : Section d stats stats' d') : d'.webhookId = d.webhookId := by
  cases h with
  | answer => rfl
  | update => simp
  | record => rfl

/-- Where a delivery is, and what its attempts so far are like. -/
structure Delivery.Fits (d : Delivery) : Prop where
  attempt : 1 ≤ d.attempt ∧ d.attempt ≤ d.maxAttempts
  ongoing : d.pc = .attempting ∨ (∃ delivery, d.pc = .updating delivery) →
    d.attempts.length + 1 = d.attempt ∧ ∀ delivery ∈ d.attempts,
      delivery.success = false ∧ shouldRetry d.retryPolicy delivery = true
  complete : ∀ success, d.pc = .recording success ∨ d.pc = .finished success →
    Complete d success

theorem Fits.new (w : Nat) (policy : RetryPolicy) : (Delivery.new w policy).Fits where
  attempt := ⟨Nat.le_refl 1, Nat.le_max_right _ _⟩
  ongoing := fun _ => ⟨rfl, by simp [Delivery.new]⟩
  complete := by simp [Delivery.new]

theorem Section.fits (h : Section d stats stats' d') (hfits : d.Fits) : d'.Fits := by
  cases h with
  | answer delivery hpc =>
      exact ⟨hfits.attempt, fun _ => hfits.ongoing (.inl hpc), by simp⟩
  | update delivery hpc =>
      obtain ⟨hlength, hfailed⟩ := hfits.ongoing (.inr ⟨delivery, hpc⟩)
      have hattempt := hfits.attempt
      rcases afterAttempt_cases d delivery with ⟨hfailure, hretry, hmore, h⟩ | ⟨hend, h⟩
      · rw [h]
        refine ⟨⟨by simp, hmore⟩, fun _ => ⟨by simp [hlength], fun old hold => ?_⟩, by simp⟩
        rcases List.mem_append.1 hold with hold | hold
        · exact hfailed old hold
        · rw [List.mem_singleton.1 hold]
          exact ⟨hfailure, hretry⟩
      · rw [h]
        refine ⟨hattempt, by simp, fun success hpc' => ?_⟩
        have hsuccess : delivery.success = success := by simpa using hpc'
        have hcount : (d.attempts ++ [delivery]).length = d.attempt := by simp [hlength]
        refine ⟨hcount ▸ hattempt, ?_, delivery, by simp, hsuccess, ?_⟩
        · rw [List.dropLast_concat]
          exact hfailed
        · rcases hend with hend | hend | hend
          · exact .inl (hsuccess ▸ hend)
          · exact .inr (.inl hend)
          · exact .inr (.inr (hcount.trans (Nat.le_antisymm hattempt.2 hend)))
  | record success hpc =>
      refine ⟨hfits.attempt, by simp, fun success' hpc' => ?_⟩
      have hsuccess : success = success' := by simpa using hpc'
      obtain ⟨hcount, hbefore, hlast⟩ := hfits.complete success (.inl hpc)
      exact hsuccess ▸ ⟨hcount, hbefore, hlast⟩

/-- A delivery takes a next section until it has finished. -/
theorem section_isSome (h : d.isFinished = false) (now : DateTime) (durationMs : Nat)
    (answer : Answer) (stats : Table Nat WebhookStats) :
    ∃ next, d.section now durationMs answer stats = some next := by
  unfold Delivery.isFinished at h
  unfold Delivery.section
  cases hpc : d.pc with
  | finished => simp [hpc] at h
  | _ => exact ⟨_, rfl⟩

theorem Section.rank_lt (h : Section d stats stats' d') : d'.rank < d.rank := by
  cases h with
  | answer delivery hpc =>
      simp only [Delivery.rank, hpc, Delivery.maxAttempts]
      omega
  | update delivery hpc =>
      rcases afterAttempt_cases d delivery with ⟨-, -, hmore, h⟩ | ⟨-, h⟩
      · simp only [Delivery.rank, hpc, h, Delivery.maxAttempts] at hmore ⊢
        omega
      · simp only [Delivery.rank, hpc, h, Delivery.maxAttempts]
        omega
  | record success hpc =>
      simp only [Delivery.rank, hpc, Delivery.maxAttempts]
      omega

-- == counters

variable {w : Nat} {s s' : State} {e : Event}

/-- What a delivery counted so far, if it is the webhook's. -/
def attemptsOf (w : Nat) (d : Delivery) : Nat := if d.webhookId = w then d.attempts.length else 0

def failuresOf (w : Nat) (d : Delivery) : Nat :=
  if d.webhookId = w then d.attempts.countP fun delivery => !delivery.success else 0

def outcomeOf (w : Nat) (success : Bool) (d : Delivery) : Nat :=
  if d.webhookId = w ∧ d.pc = .finished success then 1 else 0

/-- The counters of a webhook are totals over its deliveries. -/
structure Counts (w : Nat) (deliveries : List Delivery) (stats : WebhookStats) : Prop where
  totalAttempts : stats.totalAttempts = tally (attemptsOf w) deliveries
  failedAttempts : stats.failedAttempts = tally (failuresOf w) deliveries
  successfulDeliveries : stats.successfulDeliveries = tally (outcomeOf w true) deliveries
  failedDeliveries : stats.failedDeliveries = tally (outcomeOf w false) deliveries

/-- What a section adds to the counters of its webhook. -/
structure Adds (w : Nat) (d d' : Delivery) (stats stats' : WebhookStats) : Prop where
  totalAttempts : stats'.totalAttempts + attemptsOf w d = stats.totalAttempts + attemptsOf w d'
  failedAttempts : stats'.failedAttempts + failuresOf w d = stats.failedAttempts + failuresOf w d'
  successfulDeliveries : stats'.successfulDeliveries + outcomeOf w true d
    = stats.successfulDeliveries + outcomeOf w true d'
  failedDeliveries : stats'.failedDeliveries + outcomeOf w false d
    = stats.failedDeliveries + outcomeOf w false d'

theorem Counts.set {deliveries : List Delivery} {counters counters' : WebhookStats} {i : Nat}
    (h : Counts w deliveries counters) (hi : deliveries[i]? = some d)
    (hadds : Adds w d d' counters counters') : Counts w (deliveries.set i d') counters' := by
  have htotal := Tally.tally_set (attemptsOf w) hi (b := d')
  have hfailed := Tally.tally_set (failuresOf w) hi (b := d')
  have hsuccess := Tally.tally_set (outcomeOf w true) hi (b := d')
  have hfailure := Tally.tally_set (outcomeOf w false) hi (b := d')
  obtain ⟨htotal', hfailed', hsuccess', hfailure'⟩ := h
  obtain ⟨htotal'', hfailed'', hsuccess'', hfailure''⟩ := hadds
  exact ⟨by omega, by omega, by omega, by omega⟩

/-- What counting an attempt changes. -/
theorem updateWebhookStats_counters (counters : WebhookStats) (delivery : WebhookDelivery) :
    (updateWebhookStats counters delivery).totalAttempts = counters.totalAttempts + 1 ∧
    (updateWebhookStats counters delivery).failedAttempts
      = counters.failedAttempts + (if delivery.success then 0 else 1) ∧
    (updateWebhookStats counters delivery).successfulDeliveries = counters.successfulDeliveries ∧
    (updateWebhookStats counters delivery).failedDeliveries = counters.failedDeliveries := by
  unfold updateWebhookStats
  cases delivery.durationMs with
  | none => split <;> simp
  | some duration => split <;> simp

/-- What counting an event changes. -/
theorem recordDeliveryOutcome_counters (counters : WebhookStats) (success : Bool) :
    (recordDeliveryOutcome counters success).totalAttempts = counters.totalAttempts ∧
    (recordDeliveryOutcome counters success).failedAttempts = counters.failedAttempts ∧
    (recordDeliveryOutcome counters success).successfulDeliveries
      = counters.successfulDeliveries + (if success then 1 else 0) ∧
    (recordDeliveryOutcome counters success).failedDeliveries
      = counters.failedDeliveries + (if success then 0 else 1) := by
  unfold recordDeliveryOutcome
  cases success <;> simp

/-- A section that does not finish a delivery leaves the events counted as
they are. -/
theorem outcomeOf_unfinished (h : ∀ success, d.pc ≠ .finished success) (w : Nat)
    (success : Bool) : outcomeOf w success d = 0 := by
  simp [outcomeOf, h success]

theorem Section.adds {counters : WebhookStats} (h : Section d stats stats' d')
    (hfound : stats.lookup w = some counters) :
    ∃ counters', stats'.lookup w = some counters' ∧ Adds w d d' counters counters' := by
  by_cases hw : d.webhookId = w
  · cases h with
    | answer delivery hpc =>
        have hbefore := outcomeOf_unfinished (d := d) (by simp [hpc]) w
        have hafter := outcomeOf_unfinished (d := { d with pc := .updating delivery }) (by simp) w
        refine ⟨counters, hfound, rfl, rfl, ?_, ?_⟩
        · rw [hbefore, hafter]
        · rw [hbefore, hafter]
    | update delivery hpc =>
        obtain ⟨htotal, hfailed, hsuccess, hfailure⟩ :=
          updateWebhookStats_counters counters delivery
        have hbefore := outcomeOf_unfinished (d := d) (by simp [hpc]) w
        have hunfinished : ∀ success, (d.afterAttempt delivery).pc ≠ .finished success := by
          intro success
          rcases afterAttempt_cases d delivery with ⟨-, -, -, h⟩ | ⟨-, h⟩ <;> simp [h]
        have hafter := outcomeOf_unfinished
          (d := { d.afterAttempt delivery with attempts := d.attempts ++ [delivery] })
          hunfinished w
        refine ⟨updateWebhookStats counters delivery, ?_, ?_, ?_, ?_, ?_⟩
        · rw [Table.lookup_modify, if_pos hw.symm, hw, hfound]
          rfl
        · rw [htotal]
          simp [attemptsOf, hw]
          omega
        · rw [hfailed]
          simp only [failuresOf, hw, afterAttempt_webhookId, if_true, List.countP_append,
            List.countP_singleton]
          cases delivery.success with
          | true => simp
          | false =>
              simp
              omega
        · rw [hbefore, hafter, hsuccess]
        · rw [hbefore, hafter, hfailure]
    | record success hpc =>
        obtain ⟨htotal, hfailed, hsuccess, hfailure⟩ :=
          recordDeliveryOutcome_counters counters success
        have hbefore := outcomeOf_unfinished (d := d) (by simp [hpc]) w
        refine ⟨recordDeliveryOutcome counters success, ?_, ?_, ?_, ?_, ?_⟩
        · rw [Table.lookup_modify, if_pos hw.symm, hw, hfound]
          rfl
        · rw [htotal]
          rfl
        · rw [hfailed]
          rfl
        · rw [hbefore, hsuccess]
          cases success <;> simp [outcomeOf, hw]
        · rw [hbefore, hfailure]
          cases success <;> simp [outcomeOf, hw]
  · have hw' : d'.webhookId ≠ w := by
      rw [h.webhookId]
      exact hw
    have hne : w ≠ d.webhookId := fun heq => hw heq.symm
    refine ⟨counters, ?_, by simp [attemptsOf, hw, hw'], by simp [failuresOf, hw, hw'],
      by simp [outcomeOf, hw, hw'], by simp [outcomeOf, hw, hw']⟩
    cases h with
    | answer => exact hfound
    | update => rw [Table.lookup_modify, if_neg hne, hfound]
    | record => rw [Table.lookup_modify, if_neg hne, hfound]

-- == runs

/-- One for every delivery of a webhook. -/
def isOf (w : Nat) (d : Delivery) : Nat := if d.webhookId = w then 1 else 0

theorem finished_cases (h : d.isFinished = true) : ∃ success, d.pc = .finished success := by
  unfold Delivery.isFinished at h
  split at h
  · exact ⟨_, by assumption⟩
  · cases h

/-- What every state is like while a webhook is neither replaced nor
removed. -/
structure Ledger (w : Nat) (s : State) (handed : Nat) : Prop where
  fits : ∀ d ∈ s.deliveries, d.webhookId = w → d.Fits
  counts : ∃ counters, s.stats.lookup w = some counters ∧ Counts w s.deliveries counters
  handed : tally (isOf w) s.deliveries = handed

theorem Ledger.step {handed : Nat} (h : Ledger w s handed) (hkept : e.replaces w = false)
    (hstep : s.next e = some s') : Ledger w s' (handed + if e.handsOver w then 1 else 0) := by
  obtain ⟨hfits, ⟨counters, hfound, hcounts⟩, hhanded⟩ := h
  cases e with
  | add id =>
      cases hstep
      have hne : w ≠ id := fun heq => by simp [Event.replaces, heq] at hkept
      refine ⟨hfits, ⟨counters, ?_, hcounts⟩, by simpa [Event.handsOver] using hhanded⟩
      rw [Table.lookup_insert_if, if_neg hne, hfound]
  | remove id =>
      cases hstep
      have hne : w ≠ id := fun heq => by simp [Event.replaces, heq] at hkept
      refine ⟨hfits, ⟨counters, ?_, hcounts⟩, by simpa [Event.handsOver] using hhanded⟩
      rw [Table.lookup_erase_if, if_neg hne, hfound]
  | lagged id skipped =>
      cases hstep
      obtain ⟨htotal, hfailed, hsuccess, hfailure⟩ := hcounts
      refine ⟨hfits, ?_, by simpa [Event.handsOver] using hhanded⟩
      simp only [Table.lookup_modify]
      split
      case isTrue heq =>
        rw [← heq, hfound]
        exact ⟨_, rfl, htotal, hfailed, hsuccess, hfailure⟩
      case isFalse => exact ⟨counters, hfound, htotal, hfailed, hsuccess, hfailure⟩
  | handOver id policy =>
      cases hstep
      obtain ⟨htotal, hfailed, hsuccess, hfailure⟩ := hcounts
      refine ⟨?_, ⟨counters, hfound, ?_, ?_, ?_, ?_⟩, ?_⟩
      · intro d hd hw
        rcases List.mem_append.1 hd with hd | hd
        · exact hfits d hd hw
        · rw [List.mem_singleton.1 hd]
          exact Fits.new id policy
      · simp [htotal, attemptsOf, Delivery.new]
      · simp [hfailed, failuresOf, Delivery.new]
      · simp [hsuccess, outcomeOf, Delivery.new]
      · simp [hfailure, outcomeOf, Delivery.new]
      · rw [Tally.tally_concat, hhanded]
        by_cases hid : id = w <;> simp [isOf, Event.handsOver, Delivery.new, hid]
  | own i now durationMs answer =>
      obtain ⟨d, hd, hstep⟩ := Option.bind_eq_some_iff.1 hstep
      obtain ⟨⟨stats', d'⟩, hnext, hstep⟩ := Option.map_eq_some_iff.1 hstep
      subst hstep
      have hsection := section_cases hnext
      obtain ⟨counters', hfound', hadds⟩ := hsection.adds hfound
      refine ⟨?_, ⟨counters', hfound', hcounts.set hd hadds⟩, ?_⟩
      · intro other hother hw
        rcases List.mem_or_eq_of_mem_set hother with hother | heq
        · exact hfits other hother hw
        · subst heq
          rw [hsection.webhookId] at hw
          exact hsection.fits (hfits d (List.mem_of_getElem? hd) hw)
      · have hset := Tally.tally_set (isOf w) hd (b := d')
        have hsame : isOf w d' = isOf w d := by rw [isOf, isOf, hsection.webhookId]
        simp only [Event.handsOver, Bool.false_eq_true, if_false]
        omega

theorem Ledger.run {n : Nat} {r : Run Step n} (h : Ledger w (r.state 0) 0)
    (hkept : ∀ i < n, (r.event i).replaces w = false) :
    ∀ i ≤ n, Ledger w (r.state i) (handedOver r w i) := by
  intro i
  induction i with
  | zero =>
      intro _
      rw [handedOver, r.count_self]
      exact h
  | succ i ih =>
      intro hi
      rw [handedOver, r.count_succ _ (Nat.zero_le i)]
      exact (ih (by omega)).step (hkept i (by omega)) (r.next i (by omega))

/-- Of the attempts of a delivery that has finished, the last may have
succeeded. -/
theorem Complete.failures {success : Bool} (h : Complete d success) :
    d.attempts.length = (d.attempts.countP fun delivery => !delivery.success)
      + (if success then 1 else 0) := by
  obtain ⟨last, hlast, hsuccess, -⟩ := h.last
  have hsplit := List.dropLast_append_getLast? last hlast
  have hbefore : (d.attempts.dropLast.countP fun delivery => !delivery.success)
      = d.attempts.dropLast.length := by
    rw [List.countP_eq_length]
    intro delivery hdelivery
    rw [(h.before delivery hdelivery).1]
    rfl
  rw [← hsplit, List.countP_append, hbefore, List.length_append, List.countP_singleton, hsuccess]
  cases success with
  | true => simp
  | false => simp

/-- The deliveries of a webhook that is neither replaced nor removed attempt
as they should, and its statistics balance once they have finished. -/
theorem webhook_accounting {n : Nat} (r : Run Step n) (w : Nat)
    (hempty : (r.state 0).stats.lookup w = some .empty)
    (hnone : ∀ d ∈ (r.state 0).deliveries, d.webhookId ≠ w)
    (hkept : ∀ i < n, (r.event i).replaces w = false) : ∀ i ≤ n, Accounted r w i := by
  intro i hi
  have hledger : Ledger w (r.state 0) 0 := by
    have hzero : ∀ f : Delivery → Nat, (∀ d, d.webhookId ≠ w → f d = 0) →
        tally f (r.state 0).deliveries = 0 := by
      intro f hf
      rw [Tally.tally_congr fun d hd => hf d (hnone d hd)]
      simp [tally]
    exact ⟨fun d hd hw => absurd hw (hnone d hd),
      ⟨_, hempty, (hzero _ fun d hw => if_neg hw).symm, (hzero _ fun d hw => if_neg hw).symm,
        (hzero _ fun d hw => if_neg fun h => hw h.1).symm,
        (hzero _ fun d hw => if_neg fun h => hw h.1).symm⟩,
      hzero _ fun d hw => if_neg hw⟩
  obtain ⟨hfits, ⟨counters, hfound, htotal, hfailed, hsuccess, hfailure⟩, hhanded⟩ :=
    hledger.run hkept i hi
  have hmem : ∀ d ∈ deliveriesOf r w i, d ∈ (r.state i).deliveries ∧ d.webhookId = w := by
    intro d hd
    simpa [deliveriesOf] using hd
  refine ⟨fun d hd success hpc => ?_, fun d hd hunfinished now durationMs answer stats => ?_,
    fun hfinished => ⟨counters, hfound, ?_, ?_, ?_⟩⟩
  · exact (hfits d (hmem d hd).1 (hmem d hd).2).complete success (.inr hpc)
  · obtain ⟨next, hnext⟩ := section_isSome hunfinished now durationMs answer stats
    exact ⟨next, hnext, (section_cases hnext).rank_lt⟩
  · rw [htotal, hfailed, hsuccess, ← Tally.tally_add]
    refine Tally.tally_congr fun d hd => ?_
    by_cases hw : d.webhookId = w
    · obtain ⟨success, hpc⟩ := finished_cases (hfinished d (by simpa [deliveriesOf] using ⟨hd, hw⟩))
      have hcomplete := ((hfits d hd hw).complete success (.inr hpc)).failures
      simp [attemptsOf, failuresOf, outcomeOf, hw, hpc, hcomplete]
    · simp [attemptsOf, failuresOf, outcomeOf, hw]
  · rw [hsuccess, hfailure, ← Tally.tally_add, ← hhanded]
    refine Tally.tally_congr fun d hd => ?_
    by_cases hw : d.webhookId = w
    · obtain ⟨success, hpc⟩ := finished_cases (hfinished d (by simpa [deliveriesOf] using ⟨hd, hw⟩))
      cases success <;> simp [isOf, outcomeOf, hw, hpc]
    · simp [isOf, outcomeOf, hw]
  · rw [htotal, deliveriesOf, ← Tally.tally_ite]
    refine Tally.tally_congr fun d _ => ?_
    simp [attemptsOf]

-- == inputs

/-- An event is delivered by the second of two attempts. -/
def secondAttempt : Nat → Event
  | 0 => .handOver 1 ⟨2, [500]⟩
  | 1 => .own 0 0 10 (.status 500)
  | 3 => .own 0 0 10 (.status 200)
  | _ => .own 0 0 10 .error

def deliveredLate : Run Step 6 :=
  .ofPartial State.next ⟨(∅ : Table Nat WebhookStats).insert 1 .empty, []⟩ secondAttempt
    (by decide)

theorem webhook_accounting_late : Accounted deliveredLate 1 6 := by
  refine webhook_accounting deliveredLate 1 rfl nofun (fun i hi => ?_) 6 (Nat.le_refl 6)
  match i, hi with
  | 0, _ | 1, _ | 2, _ | 3, _ | 4, _ | 5, _ => rfl

end Webhooks

end Hammerwork
