/-
The leases of a claimed batch do not lapse.

A lease is three heartbeat intervals long, or more. A waiting job's lease
is written again within an interval, at the next round of the keeper; a job
that starts at once had it written less than an interval ago, and its first
heartbeat comes an interval later; any other start writes it. So at every
moment the lease of a job that is held was written less than a lease ago
(`Timely.lt`), over the hand-over from the keeper to the job's own
heartbeats as well.
-/
import Hammerwork.BatchLeases
import Hammerwork.Laws.Leases
import Hammerwork.Laws.RateTokens

namespace Hammerwork

namespace BatchRun

variable {lease : Duration} {concurrency : Nat}

-- == intervals

/-- A long enough lease is at least three intervals long. -/
theorem interval_spec (h : 3 * minHeartbeatInterval ≤ lease) :
    lease ≠ 0 ∧ 0 < heldRenewalInterval lease ∧ 3 * heldRenewalInterval lease ≤ lease := by
  have hmin : 0 < minHeartbeatInterval := by decide
  unfold heldRenewalInterval
  dsimp only [DateTime, Duration] at *
  omega

theorem everyHeartbeat_eq (h : 3 * minHeartbeatInterval ≤ lease) (now : DateTime) :
    everyHeartbeat lease now = some (now + heldRenewalInterval lease) :=
  if_neg (interval_spec h).1

-- == invariant

/-- The lease of a waiting job is renewed within an interval: at the next
round of the keeper, or later in this one. -/
def Keeper.Timely (keeper : Keeper) (interval : Duration) (now written : DateTime)
    (inRound : Prop) : Prop :=
  match keeper with
  | .unpolled => now ≤ written
  | .sleeping due => ∃ d, due = some d ∧ now ≤ d ∧ d ≤ written + interval
  | .beating => now ≤ written + interval ∧ (inRound ∨ now ≤ written)

/-- The lease of a started job is renewed in time: at its next heartbeat,
once it is processed. -/
def Phase.Timely (phase : Phase) (lease : Duration) (now written : DateTime)
    (due : Option DateTime) : Prop :=
  match phase with
  | .processing => ∃ d, due = some d ∧ now ≤ d ∧ d < written + lease
  | .ready => now < written + heldRenewalInterval lease
  | _ => now ≤ written + heldRenewalInterval lease

/-- The leases of all jobs that are held are renewed in time. -/
structure Timely (lease : Duration) (concurrency : Nat) (s : Timed) : Prop where
  past : ∀ id, s.written id ≤ s.now
  renewed : ∀ id renewed, s.renewed id = some renewed → renewed ≤ s.written id
  distinct : (s.batch.queued.map (·.id)).Nodup
  known : ∀ job ∈ s.batch.queued, job ∈ s.batch.waiting
  kept : ∀ job ∈ s.batch.queued, s.keeper.Timely (heldRenewalInterval lease) s.now
    (s.written job.id) (job ∈ s.batch.round)
  running : ∀ run ∈ s.batch.running, run.2.Timely lease s.now (s.written run.1.id)
    (s.beatDue run.1.id)
  handed : ∀ id ∈ s.batch.pc.handed, s.now ≤ s.written id + heldRenewalInterval lease
  cleared : Cleared concurrency s.batch

variable {interval : Duration} {now written written' : DateTime} {inRound : Prop}

theorem Keeper.Timely.le {keeper : Keeper} (h : keeper.Timely interval now written inRound) :
    now ≤ written + interval := by
  cases keeper with
  | unpolled =>
      have hle : now ≤ written := h
      dsimp only [DateTime, Duration] at *
      omega
  | sleeping due =>
      obtain ⟨d, -, hnow, hd⟩ := h
      exact Int.le_trans hnow hd
  | beating => exact h.1

theorem Keeper.Timely.mono {keeper : Keeper} (h : keeper.Timely interval now written inRound)
    (hle : written ≤ written') : keeper.Timely interval now written' inRound := by
  cases keeper with
  | unpolled => exact Int.le_trans h hle
  | sleeping due =>
      obtain ⟨d, hdue, hnow, hd⟩ := h
      refine ⟨d, hdue, hnow, ?_⟩
      dsimp only [DateTime, Duration] at *
      omega
  | beating =>
      refine ⟨?_, h.2.imp_right fun hnow => Int.le_trans hnow hle⟩
      have hwithin := h.1
      dsimp only [DateTime, Duration] at *
      omega

theorem Phase.Timely.mono {phase : Phase} {due : Option DateTime}
    (h : phase.Timely lease now written due) (hle : written ≤ written') :
    phase.Timely lease now written' due := by
  cases phase with
  | processing =>
      obtain ⟨d, hdue, hnow, hd⟩ := h
      refine ⟨d, hdue, hnow, ?_⟩
      dsimp only [DateTime, Duration] at *
      omega
  | ready =>
      have hlt : now < written + heldRenewalInterval lease := h
      show now < written' + heldRenewalInterval lease
      dsimp only [DateTime, Duration] at *
      omega
  | starting | failing =>
      have hlt : now ≤ written + heldRenewalInterval lease := h
      show now ≤ written' + heldRenewalInterval lease
      dsimp only [DateTime, Duration] at *
      omega

/-- A started job's lease was written less than a lease ago. -/
theorem Phase.Timely.lt {phase : Phase} {due : Option DateTime}
    (hlease : 3 * minHeartbeatInterval ≤ lease) (h : phase.Timely lease now written due) :
    now < written + lease := by
  obtain ⟨-, hpos, hthird⟩ := interval_spec hlease
  cases phase with
  | processing =>
      obtain ⟨d, -, hnow, hd⟩ := h
      exact Int.lt_of_le_of_lt hnow hd
  | ready =>
      have hlt : now < written + heldRenewalInterval lease := h
      dsimp only [DateTime, Duration] at *
      omega
  | starting | failing =>
      have hle : now ≤ written + heldRenewalInterval lease := h
      dsimp only [DateTime, Duration] at *
      omega

-- == updates

namespace Timely

variable {s : Timed}

/-- Leases are written. -/
theorem write (hs : Timely lease concurrency s) {times : JobId → DateTime}
    (hle : ∀ id, s.written id ≤ times id) (hpast : ∀ id, times id ≤ s.now) :
    Timely lease concurrency { s with written := times } where
  past := hpast
  renewed id renewed h := Int.le_trans (hs.renewed id renewed h) (hle id)
  distinct := hs.distinct
  known := hs.known
  kept job hjob := (hs.kept job hjob).mono (hle job.id)
  running run hrun := (hs.running run hrun).mono (hle run.1.id)
  handed id hid := by
    have hbefore := hs.handed id hid
    have hlater := hle id
    show s.now ≤ times id + heldRenewalInterval lease
    dsimp only [DateTime, Duration] at *
    omega
  cleared := hs.cleared

/-- A running job sleeps until its next heartbeat. -/
theorem sleeps (hs : Timely lease concurrency s) (hlease : 3 * minHeartbeatInterval ≤ lease)
    {id : JobId} (h : s.now + heldRenewalInterval lease < s.written id + lease) :
    Timely lease concurrency (s.sleeps lease id) where
  past := hs.past
  renewed := hs.renewed
  distinct := hs.distinct
  known := hs.known
  kept := hs.kept
  running run hrun := by
    have hbefore := hs.running run hrun
    obtain ⟨job, phase⟩ := run
    show phase.Timely lease s.now (s.written job.id)
      (if job.id = id then everyHeartbeat lease s.now else s.beatDue job.id)
    split
    case isTrue hid =>
      cases phase with
      | processing =>
          rw [hid]
          refine ⟨_, everyHeartbeat_eq hlease s.now, ?_, h⟩
          dsimp only [DateTime, Duration] at *
          omega
      | _ => exact hbefore
    case isFalse => exact hbefore
  handed := hs.handed
  cleared := hs.cleared

/-- The batch goes on: jobs leave the queue, and those that are started or
handed back are in time. -/
theorem advance (hs : Timely lease concurrency s) {batch : State}
    (hqueued : batch.queued.Sublist s.batch.queued)
    (hknown : ∀ job ∈ batch.queued, job ∈ s.batch.waiting → job ∈ batch.waiting)
    (hround : ∀ job ∈ batch.queued, job ∈ s.batch.round → job ∈ batch.round)
    (hrunning : ∀ run ∈ batch.running, run.2.Timely lease s.now (s.written run.1.id)
      (s.beatDue run.1.id))
    (hhanded : ∀ id ∈ batch.pc.handed, id ∈ s.batch.queued.map (·.id) ∨ id ∈ s.batch.pc.handed)
    (hcleared : Cleared concurrency batch) :
    Timely lease concurrency { s with batch := batch } where
  past := hs.past
  renewed := hs.renewed
  distinct := hs.distinct.sublist (hqueued.map _)
  known job hjob := hknown job hjob (hs.known job (hqueued.subset hjob))
  kept job hjob := by
    have hbefore := hs.kept job (hqueued.subset hjob)
    show s.keeper.Timely _ _ _ (job ∈ batch.round)
    cases hkeeper : s.keeper with
    | beating =>
        rw [hkeeper] at hbefore
        exact ⟨hbefore.1, hbefore.2.imp_left (hround job hjob)⟩
    | unpolled | sleeping =>
        rw [hkeeper] at hbefore
        exact hbefore
  running := hrunning
  handed id hid := by
    rcases hhanded id hid with hwaits | hhanded
    · obtain ⟨job, hjob, rfl⟩ := List.mem_map.1 hwaits
      exact (hs.kept job hjob).le
    · exact hs.handed id hhanded
  cleared := hcleared

/-- What the worker knows of renewals changes. -/
theorem renew (hs : Timely lease concurrency s) {times : JobId → Option DateTime}
    (h : ∀ id renewed, times id = some renewed → renewed ≤ s.written id) :
    Timely lease concurrency { s with renewed := times } :=
  { hs with renewed := h }

-- == steps

/-- The batch goes on in another place; nothing else changes. -/
theorem goOn (hs : Timely lease concurrency s) {batch : State}
    (hqueued : batch.queued = s.batch.queued) (hwaiting : batch.waiting = s.batch.waiting)
    (hround : batch.round = s.batch.round) (hrunning : batch.running = s.batch.running)
    (hhanded : ∀ id ∈ batch.pc.handed, id ∈ s.batch.pc.handed)
    (hcleared : Cleared concurrency batch) :
    Timely lease concurrency { s with batch := batch } := by
  refine hs.advance (by rw [hqueued]) ?_ ?_ ?_ (fun id hid => .inr (hhanded id hid)) hcleared
  · intro job _ hjob
    rw [hwaiting]
    exact hjob
  · intro job _ hjob
    rw [hround]
    exact hjob
  · intro run hrun
    rw [hrunning] at hrun
    exact hs.running run hrun

/-- The waiting jobs are handed back. -/
theorem handBack (hs : Timely lease concurrency s) {batch : State} {after : After}
    (hqueued : batch.queued = s.batch.queued) (hrunning : batch.running = s.batch.running) :
    Timely lease concurrency { s with batch := batch.handBack after } := by
  refine hs.advance (List.nil_sublist _) (fun _ h => absurd h List.not_mem_nil)
    (fun _ h => absurd h List.not_mem_nil) ?_ ?_ rfl
  · intro run hrun
    refine hs.running run ?_
    rw [← hrunning]
    exact hrun
  · intro id hid
    left
    obtain ⟨job, hjob, rfl⟩ := List.mem_map.1 hid
    refine List.mem_map_of_mem ?_
    rw [← hqueued]
    rcases List.mem_append.1 hjob with hjob | hjob
    · exact (List.mem_filter.1 hjob).1
    · exact (List.mem_filter.1 hjob).1

/-- The next job starts. If it runs at once, its lease was written less than
an interval ago. -/
theorem start (hs : Timely lease concurrency s) {job : Job} {queued : List Job} {recent : Bool}
    (hpc : s.batch.pc = .filling) (hqueued : s.batch.queued = job :: queued)
    (hrecent : s.recent lease job.id = recent) :
    Timely lease concurrency { s with batch := s.batch.startHeld job queued recent } := by
  have hjob : job ∈ s.batch.queued := by
    rw [hqueued]
    exact List.mem_cons_self
  have hwithin := (hs.kept job hjob).le
  have hready : recent = true → s.now < s.written job.id + heldRenewalInterval lease := by
    intro hrecently
    obtain ⟨renewed, hrenewed, hage⟩ :=
      (Option.any_eq_true _ _).1 (hrecent.trans hrecently)
    have hle := hs.renewed job.id renewed hrenewed
    have hless := of_decide_eq_true hage
    dsimp only [DateTime, Duration] at *
    omega
  have hother : ∀ other ∈ queued, other.id ≠ job.id := by
    intro other hother heq
    have hdistinct := hs.distinct
    rw [hqueued, List.map_cons, List.nodup_cons] at hdistinct
    exact hdistinct.1 (List.mem_map.2 ⟨other, hother, heq⟩)
  have hknown : ∀ other ∈ queued, other ∈ s.batch.waiting →
      other ∈ s.batch.waiting.filter fun run => run.id ≠ job.id := by
    intro other hmem hwaits
    exact List.mem_filter.2 ⟨hwaits, by simpa using hother other hmem⟩
  have hsublist : queued.Sublist s.batch.queued := by
    rw [hqueued]
    exact List.sublist_cons_self ..
  unfold State.startHeld
  dsimp only
  split
  case isTrue =>
    refine hs.advance hsublist hknown (fun _ _ h => h) hs.running (fun _ h => .inr h) ?_
    unfold Cleared
    simp [State.refundRateToken, hpc]
  case isFalse =>
    refine hs.advance hsublist hknown (fun _ _ h => h) ?_ (fun _ h => .inr h) ?_
    · intro run hrun
      rcases List.mem_append.1 hrun with hrun | hrun
      · exact hs.running run hrun
      · cases List.mem_singleton.1 hrun
        dsimp only
        split
        · exact hwithin
        · split
          · exact hwithin
          · next hphase =>
              have hboth : s.batch.initialFill = true ∧ recent = true := by simpa using hphase
              exact hready hboth.2
    · unfold Cleared
      simp [hpc]

/-- A task is in another phase, or over. -/
theorem setTask (hs : Timely lease concurrency s) {i : Nat} {job : Job} {next : Option Phase}
    {token : Token}
    (hnext : ∀ phase, next = some phase →
      phase.Timely lease s.now (s.written job.id) (s.beatDue job.id))
    (hcleared : Cleared concurrency ((s.batch.setTask i job next).settleToken job token)) :
    Timely lease concurrency
      { s with batch := (s.batch.setTask i job next).settleToken job token } := by
  refine hs.advance (by simp) (by simp) (by simp) ?_ (fun id hid => .inr ?_) hcleared
  case refine_2 => simpa using hid
  intro run hrun
  rw [settleToken_running] at hrun
  cases next with
  | none => exact hs.running run (List.mem_of_mem_eraseIdx hrun)
  | some phase =>
      rcases List.mem_or_eq_of_mem_set hrun with hrun | rfl
      · exact hs.running run hrun
      · exact hnext phase rfl

/-- A task goes on. A job that is about to be processed sleeps until its
first heartbeat. -/
theorem task (hs : Timely lease concurrency s) (hlease : 3 * minHeartbeatInterval ≤ lease)
    {i : Nat} {progress : Progress} {batch : State}
    (htask : s.batch.stepTask i progress = some batch)
    (hpermits : s.permits lease (.task i progress))
    (hwrites : ∀ id, s.writes (.batch (.task i progress)) = some id → s.now ≤ s.written id)
    (hcleared : Cleared concurrency batch) :
    Timely lease concurrency (s.noted lease batch (.task i progress)) := by
  obtain ⟨-, hpos, hthird⟩ := interval_spec hlease
  obtain ⟨job, phase, next, hrun, hnext, rfl⟩ := stepTask_cases htask
  have hphase := hs.running _ (List.mem_of_getElem? hrun)
  have hjob : s.taskJob i = some job.id := by simp [Timed.taskJob, hrun]
  cases progress with
  | held answer =>
      refine hs.setTask (fun phase' hphase' => ?_) hcleared
      rcases Phase.goesOn_cases hnext with ⟨call, rfl, hcall⟩ | ⟨rfl | rfl, -, -⟩ | ⟨rfl, -, -⟩
      · rcases hcall with ⟨rfl, -⟩ | ⟨rfl, -⟩ | ⟨rfl, -⟩
        · cases hphase'
          exact hphase
        · cases hphase'
        · cases hphase'
      · cases hnext
      · cases hnext
      · cases hnext
  | recorded answer =>
      obtain rfl : answer = .yes := by simpa [Timed.permits] using hpermits
      have hnow := hwrites job.id hjob
      have hsleeps : s.now + heldRenewalInterval lease < s.written job.id + lease := by
        dsimp only [DateTime, Duration] at *
        omega
      simp only [Timed.noted, hjob]
      refine (hs.sleeps hlease hsleeps).setTask (fun phase' hphase' => ?_) hcleared
      cases phase with
      | starting =>
          cases hnext
          cases hphase'
          refine ⟨_, (if_pos rfl).trans (everyHeartbeat_eq hlease s.now), ?_, hsleeps⟩
          show s.now ≤ s.now + heldRenewalInterval lease
          dsimp only [DateTime, Duration] at *
          omega
      | _ => cases hnext
  | polled =>
      simp only [Timed.noted, hjob]
      cases phase with
      | ready =>
          have hlt : s.now < s.written job.id + heldRenewalInterval lease := hphase
          have hsleeps : s.now + heldRenewalInterval lease < s.written job.id + lease := by
            dsimp only [DateTime, Duration] at *
            omega
          refine (hs.sleeps hlease hsleeps).setTask (fun phase' hphase' => ?_) hcleared
          cases hnext
          cases hphase'
          refine ⟨_, (if_pos rfl).trans (everyHeartbeat_eq hlease s.now), ?_, hsleeps⟩
          show s.now ≤ s.now + heldRenewalInterval lease
          dsimp only [DateTime, Duration] at *
          omega
      | _ => cases hnext
  | finished =>
      refine hs.setTask (fun phase' hphase' => ?_) hcleared
      cases phase with
      | processing =>
          cases hnext
          cases hphase'
      | _ => cases hnext

/-- The keeper begins a round, in time for all waiting jobs. -/
theorem beatRound (hs : Timely lease concurrency s)
    (hcleared : Cleared concurrency { s.batch with round := s.batch.waiting }) :
    Timely lease concurrency
      { s with batch := { s.batch with round := s.batch.waiting }, keeper := .beating } := by
  refine { hs with kept := fun job hjob => ?_, cleared := hcleared }
  have hkept := hs.kept job hjob
  exact ⟨hkept.le, .inl (hs.known job hjob)⟩

/-- The lease of a job of the round is renewed. -/
theorem heartbeat (hs : Timely lease concurrency s) {run : Job} {round : List Job}
    (hround : s.batch.round = run :: round) (hnow : s.now ≤ s.written run.id)
    (hcleared : Cleared concurrency { s.batch with round := round }) :
    Timely lease concurrency
      { s with
        batch := { s.batch with round := round }
        renewed := fun id =>
          if s.batch.round.head?.any (·.id = id) ∧ s.batch.waiting.any (·.id = id) then some s.now
          else s.renewed id } := by
  refine { hs with renewed := fun id renewed h => ?_, kept := fun job hjob => ?_,
                   cleared := hcleared }
  · dsimp only at h
    split at h
    case isTrue hrun =>
      obtain ⟨hrun, -⟩ := hrun
      rw [hround, List.head?_cons, Option.any_some, decide_eq_true_iff] at hrun
      cases h
      rw [← hrun]
      exact hnow
    case isFalse => exact hs.renewed id renewed h
  · have hkept := hs.kept job hjob
    show s.keeper.Timely _ _ _ (job ∈ round)
    cases hkeeper : s.keeper with
    | beating =>
        rw [hkeeper, hround] at hkept
        refine ⟨hkept.1, ?_⟩
        rcases hkept.2 with hmem | hlater
        · rcases List.mem_cons.1 hmem with rfl | hmem
          · exact .inr hnow
          · exact .inl hmem
        · exact .inr hlater
    | unpolled | sleeping =>
        rw [hkeeper] at hkept
        exact hkept

/-- A job of the round has started meanwhile. -/
theorem heartbeatStarted (hs : Timely lease concurrency s) {run : Job} {round : List Job}
    {lost : List JobId} (hround : s.batch.round = run :: round)
    (hstarted : ∀ waiting ∈ s.batch.waiting, waiting.id ≠ run.id) {batch : State}
    (hbatch : batch = { s.batch with
      round := round
      waiting := s.batch.waiting.filter fun waiting => waiting.id ≠ run.id
      lost := lost })
    (hcleared : Cleared concurrency batch) :
    Timely lease concurrency { s with batch := batch } := by
  subst hbatch
  refine hs.advance (.refl _) (fun job hjob hwaits => ?_) (fun job hjob hmem => ?_) hs.running
    (fun id hid => .inr hid) hcleared
  · exact List.mem_filter.2 ⟨hwaits, by simpa using hstarted job hwaits⟩
  · rw [hround] at hmem
    rcases List.mem_cons.1 hmem with rfl | hmem
    · exact absurd rfl (hstarted job (hs.known job hjob))
    · exact hmem

/-- A step of the batch keeps the leases in time. -/
theorem batch (hs : Timely lease concurrency s) (hlease : 3 * minHeartbeatInterval ≤ lease)
    (hconcurrency : 0 < concurrency) {e : Event} {batch : State}
    (hstep : s.batch.next concurrency e = some batch) (hpermits : s.permits lease e)
    (hwrites : ∀ id, s.writes (.batch e) = some id → s.now ≤ s.written id) :
    Timely lease concurrency (s.noted lease batch e) := by
  have hcleared := next_cleared hstep hconcurrency hs.cleared
  cases next_moves hstep with
  | skip | check | batchStatus | unpaused | resumed | drained | filled | idle =>
      exact hs.goOn rfl rfl rfl rfl (fun _ h => absurd h List.not_mem_nil) hcleared
  | paused =>
      have hforgot : Timely lease concurrency { s with renewed := fun _ => none } :=
        hs.renew fun _ _ h => nomatch h
      exact @Timely.handBack _ _ _ hforgot { s.batch with waiting := [] } .loop rfl rfl
  | shutdown => exact hs.handBack rfl rfl
  | failing hpc =>
      refine hs.goOn rfl rfl rfl rfl (fun id h => ?_) hcleared
      rw [hpc]
      exact h
  | failed hpc =>
      refine hs.goOn rfl rfl rfl rfl (fun id h => ?_) hcleared
      rw [hpc]
      exact List.mem_cons_of_mem _ h
  | released hpc =>
      refine hs.goOn rfl rfl rfl rfl (fun id h => ?_) hcleared
      rw [hpc]
      exact List.mem_cons_of_mem _ h
  | @start job _ recent hpc hqueued =>
      have hrecent : s.recent lease job.id = recent := by
        simpa [Timed.permits, hqueued] using hpermits
      refine (hs.start hpc hqueued hrecent).renew fun id renewed h => ?_
      split at h
      · cases h
      · exact hs.renewed id renewed h
  | task _ htask => exact hs.task hlease htask hpermits hwrites hcleared
  | beat => exact hs.beatRound hcleared
  | @heartbeat run round answer hpc hround =>
      unfold Timed.permits at hpermits
      cases answer with
      | yes => exact hs.heartbeat hround (hwrites run.id (by simp [Timed.writes, hround])) hcleared
      | no =>
          refine hs.heartbeatStarted hround ?_ rfl hcleared
          cases hkeeper : s.keeper <;> simp_all
      | error => cases hkeeper : s.keeper <;> simp_all
  | cancelled =>
      exact hs.advance (.refl _) (fun _ _ h => h) (fun _ _ h => h)
        (fun _ h => absurd h List.not_mem_nil) (fun _ h => absurd h List.not_mem_nil) hcleared

/-- The keeper sleeps for an interval, once all waiting jobs' leases are
renewed. -/
theorem sleepKeeper (hs : Timely lease concurrency s) (hlease : 3 * minHeartbeatInterval ≤ lease)
    (hwritten : ∀ job ∈ s.batch.queued, s.now ≤ s.written job.id) :
    Timely lease concurrency { s with keeper := .sleeping (everyHeartbeat lease s.now) } := by
  refine { hs with kept := fun job hjob => ?_ }
  have hnow := hwritten job hjob
  refine ⟨_, everyHeartbeat_eq hlease s.now, ?_, ?_⟩
  · show s.now ≤ s.now + heldRenewalInterval lease
    dsimp only [DateTime, Duration] at *
    omega
  · show s.now + heldRenewalInterval lease ≤ s.written job.id + heldRenewalInterval lease
    dsimp only [DateTime, Duration] at *
    omega

/-- Time passes, no further than to the next timer. -/
theorem tick (hs : Timely lease concurrency s) {later : DateTime} (hwaiting : s.waiting)
    (hlater : s.now < later) (hquiet : s.quietUntil later) :
    Timely lease concurrency { s with now := later } := by
  unfold Timed.quietUntil at hquiet
  obtain ⟨hkeeper, htasks⟩ := Bool.and_eq_true_iff.1 hquiet
  refine { hs with past := fun id => ?_, kept := fun job hjob => ?_, running := fun run hrun => ?_,
                   handed := fun id hid => ?_ }
  · exact Int.le_trans (hs.past id) (Int.le_of_lt hlater)
  · have hkept := hs.kept job hjob
    have hcleared := hs.cleared
    unfold Cleared at hcleared
    unfold Timed.waiting at hwaiting
    split at hwaiting
    case h_1 due hpc hsleeping =>
      rw [hpc, hsleeping] at hkeeper
      rw [hsleeping] at hkept
      obtain ⟨d, rfl, -, hd⟩ := hkept
      show Keeper.Timely s.keeper _ later _ _
      rw [hsleeping]
      exact ⟨d, rfl, by simpa using hkeeper, hd⟩
    case h_2 hpc =>
      rw [hpc] at hcleared
      dsimp only at hcleared
      rw [hcleared] at hjob
      exact absurd hjob List.not_mem_nil
    case h_3 => cases hwaiting
  · obtain ⟨job, phase⟩ := run
    have hrun' := List.all_eq_true.1 htasks _ hrun
    simp only [Bool.and_eq_true, decide_eq_true_eq] at hrun'
    obtain ⟨rfl, hdue⟩ := hrun'
    obtain ⟨d, hd, -, hless⟩ := hs.running _ hrun
    exact ⟨d, hd, by simpa [hd] using hdue, hless⟩
  · unfold Timed.waiting at hwaiting
    split at hwaiting
    case h_1 hpc _ =>
      rw [hpc] at hid
      exact absurd hid List.not_mem_nil
    case h_2 hpc =>
      rw [hpc] at hid
      exact absurd hid List.not_mem_nil
    case h_3 => cases hwaiting

/-- An action keeps the leases in time. -/
theorem next (hs : Timely lease concurrency s) (hlease : 3 * minHeartbeatInterval ≤ lease)
    (hconcurrency : 0 < concurrency) {a : Action} {s' : Timed}
    (h : s.next lease concurrency a = some s') : Timely lease concurrency s' := by
  obtain ⟨-, hpos, hthird⟩ := interval_spec hlease
  unfold Timed.next at h
  generalize ht : { s with
    written := fun id => if s.writes a = some id then s.now else s.written id } = t at h
  have hwritten : Timely lease concurrency t := by
    rw [← ht]
    refine hs.write (fun id => ?_) (fun id => ?_)
    · split
      · exact hs.past id
      · exact Int.le_refl _
    · split
      · exact Int.le_refl _
      · exact hs.past id
  have hwrites : ∀ id, t.writes a = some id → t.now ≤ t.written id := by
    intro id hid
    subst ht
    have hid : s.writes a = some id := hid
    show s.now ≤ if s.writes a = some id then s.now else s.written id
    rw [if_pos hid]
  clear ht
  cases a with
  | batch e =>
      simp only [Timed.advance] at h
      split at h
      case isFalse => cases h
      case isTrue hpermits =>
        obtain ⟨batch, hstep, rfl⟩ := Option.map_eq_some_iff.1 h
        exact hwritten.batch hlease hconcurrency hstep hpermits hwrites
  | poll =>
      simp only [Timed.advance] at h
      split at h
      case h_1 hpc hkeeper =>
        cases h
        refine hwritten.sleepKeeper hlease fun job hjob => ?_
        have hkept := hwritten.kept job hjob
        rw [hkeeper] at hkept
        exact hkept
      case h_2 => cases h
  | rest =>
      simp only [Timed.advance] at h
      split at h
      case h_1 hpc hkeeper hround =>
        cases h
        refine hwritten.sleepKeeper hlease fun job hjob => ?_
        have hkept := hwritten.kept job hjob
        rw [hkeeper, hround] at hkept
        exact hkept.2.resolve_left List.not_mem_nil
      case h_2 => cases h
  | beat i =>
      have hsleeps : ∀ {job : Job}, t.batch.running[i]? = some (job, .processing) →
          Timely lease concurrency (t.sleeps lease job.id) := by
        intro job hrun
        have hnow := hwrites job.id (by simp [Timed.writes, Timed.taskJob, hrun])
        refine hwritten.sleeps hlease ?_
        dsimp only [DateTime, Duration] at *
        omega
      simp only [Timed.advance] at h
      split at h
      case h_1 hrun =>
        split at h <;> cases h
        exact hsleeps hrun
      case h_2 hrun =>
        split at h <;> cases h
        exact hsleeps hrun
      case h_3 => cases h
  | tick later =>
      simp only [Timed.advance] at h
      split at h
      case isTrue htick =>
        cases h
        exact hwritten.tick htick.1 htick.2.1 htick.2.2
      case isFalse => cases h

end Timely

-- == writes

namespace Timed

/-- One step of a batch in time. -/
def Step (lease : Duration) (concurrency : Nat) (s : Timed) (a : Action) (s' : Timed) : Prop :=
  s.next lease concurrency a = some s'

/-- The job is held: it waits, is about to be processed, is processed or
handed back. -/
def Holds (s : Timed) (id : JobId) : Prop :=
  id ∈ s.batch.queued.map (·.id) ∨ id ∈ s.batch.running.map (fun run => run.1.id) ∨
    id ∈ s.batch.pc.handed

variable {s s' : Timed} {a : Action} {id : JobId}

theorem noted_times (batch : State) (e : Event) :
    (s.noted lease batch e).written = s.written ∧ (s.noted lease batch e).now = s.now := by
  unfold noted
  split
  case h_5 => split <;> exact ⟨rfl, rfl⟩
  case h_6 => split <;> exact ⟨rfl, rfl⟩
  all_goals exact ⟨rfl, rfl⟩

/-- What an action does besides takes no time, unless time passes. -/
theorem advance_times (h : s.advance lease concurrency a = some s') :
    s'.written = s.written ∧ (s'.now = s.now ∨ ∃ now, a = .tick now) := by
  cases a with
  | batch e =>
      simp only [advance] at h
      split at h
      case isFalse => cases h
      case isTrue =>
        obtain ⟨batch, -, rfl⟩ := Option.map_eq_some_iff.1 h
        exact ⟨(noted_times batch e).1, .inl (noted_times batch e).2⟩
  | poll | rest =>
      simp only [advance] at h
      split at h <;> cases h
      exact ⟨rfl, .inl rfl⟩
  | beat i =>
      simp only [advance] at h
      split at h
      case h_1 | h_2 =>
        split at h <;> cases h
        exact ⟨rfl, .inl rfl⟩
      case h_3 => cases h
  | tick now =>
      simp only [advance] at h
      split at h <;> cases h
      exact ⟨rfl, .inr ⟨now, rfl⟩⟩

/-- An action writes the lease of the job it names, and no other. -/
theorem next_written (h : s.next lease concurrency a = some s') :
    s'.written id = if s.writes a = some id then s.now else s.written id := by
  rw [(advance_times h).1]

/-- Writing a lease takes no time. -/
theorem next_now (h : s.next lease concurrency a = some s') (hwrites : s.writes a = some id) :
    s'.now = s.now := by
  rcases (advance_times h).2 with hnow | ⟨now, rfl⟩
  · exact hnow
  · cases hwrites

end Timed

/-- The lease of a held job was written less than a lease ago. -/
theorem Timely.lt {s : Timed} {id : JobId} (hs : Timely lease concurrency s)
    (hlease : 3 * minHeartbeatInterval ≤ lease) (hid : s.Holds id) :
    s.now < s.written id + lease := by
  obtain ⟨-, hpos, hthird⟩ := interval_spec hlease
  have hwithin : s.now ≤ s.written id + heldRenewalInterval lease →
      s.now < s.written id + lease := by
    intro hle
    dsimp only [DateTime, Duration] at *
    omega
  rcases hid with hid | hid | hid
  · obtain ⟨job, hjob, rfl⟩ := List.mem_map.1 hid
    exact hwithin (hs.kept job hjob).le
  · obtain ⟨run, hrun, rfl⟩ := List.mem_map.1 hid
    exact (hs.running run hrun).lt hlease
  · exact hwithin (hs.handed id hid)

/-- The leases of jobs that were claimed just now are in time. -/
theorem Timely.claimed {start : DateTime} {capacity : Nat} {free : List Bool} {jobs : List Job}
    (hdistinct : (jobs.map (·.id)).Nodup) :
    Timely lease concurrency (.claimed start (acquireBatch capacity free jobs)) where
  past _ := Int.le_refl start
  renewed id renewed h := by
    unfold Timed.claimed at h
    dsimp only at h
    split at h <;> cases h
    exact Int.le_refl start
  distinct := hdistinct
  known _ hjob := hjob
  kept _ _ := Int.le_refl start
  running _ h := absurd h List.not_mem_nil
  handed id h := by
    unfold Timed.claimed acquireBatch at h
    cases jobs <;> exact absurd h List.not_mem_nil
  cleared := by
    show Cleared concurrency (acquireBatch capacity free jobs)
    unfold Cleared acquireBatch
    cases jobs <;> simp

-- == runs

/-- The lease of the job was written just before the state `i` of a run: by
the claim, or by the step that led there. -/
def WrittenBefore {len : Nat} (r : Run (Timed.Step lease concurrency) len) (i : Nat)
    (id : JobId) : Prop :=
  i = 0 ∨ ∃ k, i = k + 1 ∧ (r.state k).writes (r.event k) = some id

/-- When the lease was last written is when the last step wrote it. -/
theorem run_written {len : Nat} (r : Run (Timed.Step lease concurrency) len) {i j : Nat}
    {id : JobId} (hfirst : (r.state 0).written id = (r.state 0).now) (hij : i ≤ j) (hj : j ≤ len)
    (hbefore : WrittenBefore r i id)
    (hnone : ∀ k, i ≤ k → k < j → (r.state k).writes (r.event k) ≠ some id) :
    (r.state j).written id = (r.state i).now := by
  induction j, hij using Nat.le_induction with
  | base =>
      rcases hbefore with rfl | ⟨k, rfl, hwrites⟩
      · exact hfirst
      · have hstep := r.next k (by omega)
        rw [Timed.next_written hstep, if_pos hwrites, Timed.next_now hstep hwrites]
  | succ j hij ih =>
      rw [Timed.next_written (r.next j (by omega)), if_neg (hnone j hij (by omega))]
      exact ih (by omega) fun k hik hkj => hnone k hik (by omega)

/-- From the claim of a job until its handler ends, its lease is written
less than a lease after it was written before; so it has not expired when
stale jobs are reclaimed. -/
theorem held_leases_never_lapse {len capacity batchConcurrency : Nat} {free : List Bool}
    {jobs : List Job} {start : DateTime} (hlease : 3 * minHeartbeatInterval ≤ lease)
    (r : Run (Timed.Step lease (max batchConcurrency 1)) len)
    (hstart : r.state 0 = .claimed start (acquireBatch capacity free jobs))
    (hdistinct : (jobs.map (·.id)).Nodup)
    (hrange : ∀ i ≤ len, minUtc ≤ (r.state i).now ∧ (r.state i).now ≤ maxUtc) :
    (∀ i j id, i ≤ j → j ≤ len → WrittenBefore r i id →
      (∀ k, i ≤ k → k < j → (r.state k).writes (r.event k) ≠ some id) → (r.state j).Holds id →
      (r.state j).now < (r.state i).now + lease) ∧
    ∀ i ≤ len, ∀ id, (r.state i).Holds id →
      ∀ (queue : TestStorage) (queueName : Option String) (job : Job), job.id = id →
        queue.clock = (r.state i).now →
        queue.leases.lookup id = some ((r.state i).written id,
          leaseExpiry ((r.state i).written id) lease) →
        TestQueue.isStale queue queueName job = false := by
  have htimely : ∀ i ≤ len, Timely lease (max batchConcurrency 1) (r.state i) := by
    refine r.invariant ?_ fun s a s' hstep hs => hs.next hlease (by omega) hstep
    rw [hstart]
    exact .claimed hdistinct
  refine ⟨fun i j id hij hj hbefore hnone hholds => ?_, fun i hi id hholds => ?_⟩
  · have hfirst : (r.state 0).written id = (r.state 0).now := by
      rw [hstart]
      rfl
    rw [← run_written r hfirst hij hj hbefore hnone]
    exact (htimely j hj).lt hlease hholds
  · intro queue queueName job hjob hclock hlookup
    have hless := (htimely i hi).lt hlease hholds
    have hlow : minUtc ≤ (r.state i).written id := by
      refine r.stable (P := fun s => minUtc ≤ s.written id) ?_ (fun k _ hk hstep hbefore => ?_) i
        (Nat.zero_le i) hi
      · have hfirst := (hrange 0 (by omega)).1
        rw [hstart] at hfirst ⊢
        exact hfirst
      · rw [Timed.next_written hstep]
        split
        · exact (hrange k (by omega)).1
        · exact hbefore
    have hlive := le_leaseExpiry hlow (hrange i hi).2 (.inr (Int.le_of_lt hless))
    subst hjob
    unfold TestQueue.isStale
    rw [hlookup, hclock]
    have hexpired : ¬ leaseExpiry ((r.state i).written job.id) lease < (r.state i).now :=
      Int.not_lt.2 hlive
    simp [hexpired]

/-- What happens to two jobs, one of which waits while the other is
processed: the keeper renews the lease of the one, and the heartbeat of the
other its own. -/
def oneWaits : List Action :=
  [.batch .skip, .batch (.start true), .batch .filled, .poll, .batch (.task 0 .polled),
    .tick 100000000, .batch .beat, .batch (.heartbeat .yes), .rest, .beat 0, .tick 150000000]

def waitingRun : Run (Timed.Step 300000000 (max 1 1)) oneWaits.length :=
  Run.ofPartial (fun s : Timed => s.next 300000000 (max 1 1))
    (Timed.claimed 0 (acquireBatch 2 [true] [heldJob 1, heldJob 2])) (oneWaits.getD · .poll)
    (by decide)

theorem held_leases_never_lapse_waiting :
    (waitingRun.state 11).now < (waitingRun.state 8).now + 300000000 := by
  have hjobs : waitingRun.state 0 =
      .claimed 0 (acquireBatch 2 [true] [heldJob 1, heldJob 2]) := rfl
  refine (held_leases_never_lapse (by decide) waitingRun hjobs (by decide) ?_).1 8 11 2 (by decide)
    (by decide) (.inr ⟨7, rfl, by decide⟩) (by decide) (.inl (by decide))
  decide

end BatchRun

end Hammerwork
