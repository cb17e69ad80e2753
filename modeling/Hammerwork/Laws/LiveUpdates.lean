/-
What live updates push, and when they lose or repeat it.

A poll that succeeds pushes what it reads, unless it is what was pushed last,
and one that fails before its last query remembers what it did before
(`pollOnce_cases`). So a job that was seen running stays tracked until a poll
has pushed it, and a change is read again until one has.

Not in every case: a poll that fails at its last query has already forgotten
the jobs it found stopped, one that fails before forgets those it saw running
for the first time, and a job that finishes between two queries of a poll is
pushed twice, with the poll's time and then with its own.
-/
import Hammerwork.Live
import Mathlib.Data.Finmap

namespace Hammerwork

namespace Live

open Postgres (Jobs)

-- == statements

/-- The poller before each poll. -/
def before (maxJobs : Nat) (reads : Nat → Reads) : Nat → LiveUpdates
  | 0 => .new maxJobs
  | n + 1 => ((before maxJobs reads n).pollOnce (reads n)).2

/-- What a poll pushes, unless it fails. -/
def pushed (maxJobs : Nat) (reads : Nat → Reads) (n : Nat) : Option Pushed :=
  ((before maxJobs reads n).pollOnce (reads n)).1.toOption

/-- The jobs at the three queries of a poll that read them. -/
def Reads.tables (r : Reads) : List Jobs := [r.atChanges, r.atRunning, r.atStates]

/-- The job exists, with a status that satisfies `p`. -/
def HasStatus (jobs : Jobs) (id : JobId) (p : JobStatus → Prop) : Prop :=
  ∃ job, jobs.lookup id = some job ∧ p job.status

/-- The updates of jobs a poll reads as not running, as far as its queries
succeed. -/
def LiveUpdates.found (live : LiveUpdates) (r : Reads) : List JobUpdate :=
  if r.fails = some .databaseNow ∨ r.fails = some .recentJobChanges then
    []
  else
    (live.changes r).filter (·.status ≠ .running) ++
      if r.fails = some .runningJobs ∨ r.fails = some .jobStates then [] else (live.stopped r).2

/-- A poll sees a job running, as far as its queries succeed. -/
def LiveUpdates.SeesRunning (live : LiveUpdates) (r : Reads) (id : JobId) : Prop :=
  r.fails ≠ some .databaseNow ∧ r.fails ≠ some .recentJobChanges ∧
    ((∃ u ∈ live.changes r, u.id = id ∧ u.status = .running) ∨
      r.fails ≠ some .runningJobs ∧
        ((∃ u ∈ runningJobs r.atRunning live.maxJobs, u.id = id) ∨
          r.fails ≠ some .jobStates ∧ id ∈ live.checked r ∧
            HasStatus r.atStates id (· = .running)))

section Properties

variable (maxJobs : Nat) (reads : Nat → Reads)

/-- No poll from `m` on succeeds before `m'`. -/
def FailsUntil (m m' : Nat) : Prop := ∀ j, m ≤ j → j < m' → pushed maxJobs reads j = none

/-- An earlier poll saw the job running, and none found it stopped since; it
still exists. -/
def SeenRunning (m : Nat) (id : JobId) : Prop :=
  ∃ k < m, (before maxJobs reads k).SeesRunning (reads k) id ∧ ∀ j, k < j → j < m →
    (∀ u ∈ (before maxJobs reads j).found (reads j), u.id ≠ id) ∧
      ∀ jobs ∈ (reads j).tables, (jobs.lookup id).isSome

/-- A job that was seen running and that a poll finds stopped is pushed as it
is found; if the poll fails, the next one that succeeds pushes it as it is
then, if it is still there and not running again. -/
def PushesStopped : Prop :=
  ∀ m u, u ∈ (before maxJobs reads m).found (reads m) → SeenRunning maxJobs reads m u.id →
    (∀ p, pushed maxJobs reads m = some p → u ∈ p.jobs) ∧
    ∀ m' p, m < m' → FailsUntil maxJobs reads m m' → pushed maxJobs reads m' = some p →
      (∀ jobs ∈ (reads m').tables, HasStatus jobs u.id (· ≠ .running)) →
      ∃ u' ∈ p.jobs, u'.id = u.id ∧ ∃ jobs ∈ (reads m').tables, ∃ job,
        jobs.lookup u.id = some job ∧ u'.status = job.status ∧ u'.attempts = job.attempts

/-- A change that a poll is told of has been pushed once a poll succeeds,
unless the job changed again by then. -/
def PushesChanges : Prop :=
  ∀ m u, u ∈ (before maxJobs reads m).changes (reads m) →
    (reads m).fails ≠ some .databaseNow → (reads m).fails ≠ some .recentJobChanges →
    ∀ m', m ≤ m' → FailsUntil maxJobs reads m m' → (pushed maxJobs reads m').isSome →
      (reads m').atChanges.lookup u.id = (reads m).atChanges.lookup u.id →
      ∃ k ≤ m', ∃ p, pushed maxJobs reads k = some p ∧
        ∃ u' ∈ p.jobs, u'.id = u.id ∧ u'.state = u.state

/-- The jobs at the three queries of each poll, one after the other. -/
def tableAt (t : Nat) : Jobs :=
  match t % 3 with
  | 0 => (reads (t / 3)).atChanges
  | 1 => (reads (t / 3)).atRunning
  | _ => (reads (t / 3)).atStates

/-- The query a pushed update was read by. -/
def ReadAt (m : Nat) (u : JobUpdate) (t : Nat) : Prop :=
  (t = 3 * m ∧ u ∈ (before maxJobs reads m).changes (reads m)) ∨
    (t = 3 * m + 2 ∧ u ∈ ((before maxJobs reads m).stopped (reads m)).2)

/-- Two polls that succeed, one after the other, do not push one change
twice: the job has changed in between. -/
def PushesOnce : Prop :=
  ∀ m m' p p', m < m' → FailsUntil maxJobs reads (m + 1) m' → pushed maxJobs reads m = some p →
    pushed maxJobs reads m' = some p' → ∀ u ∈ p.jobs, ∀ u' ∈ p'.jobs, u'.id = u.id →
    ∀ t t', ReadAt maxJobs reads m u t → ReadAt maxJobs reads m' u' t' →
      ¬ ∀ x, t ≤ x → x ≤ t' → (tableAt reads x).lookup u.id = (tableAt reads t).lookup u.id

/-- Live updates lose nothing and repeat nothing. -/
structure Lossless : Prop where
  stopped : PushesStopped maxJobs reads
  changes : PushesChanges maxJobs reads
  once : PushesOnce maxJobs reads

/-- There is always a client; at most `maxJobs` jobs change in what a poll
looks back on, and at most as many run during a poll. -/
structure Bounded : Prop where
  connected : ∀ n, (reads n).connections ≠ 0
  changes : ∀ n, ((reads n).atChanges.entries.filter fun e =>
    changedSince ((before maxJobs reads n).since (reads n).now) e.2).length ≤ max maxJobs 1
  running : ∀ n (ids : List JobId), ids.Nodup →
    (∀ id ∈ ids, ∃ jobs ∈ (reads n).tables, HasStatus jobs id (· = .running)) →
    ids.length ≤ max maxJobs 1

/-- What goes wrong does not happen at this poll. -/
structure Clean (live : LiveUpdates) (r : Reads) (ok : Bool) : Prop where
  /-- A poll that fails before its last query saw no job running that is not
  tracked. -/
  running : ok = false → r.fails ≠ some .queueStats → ∀ id, live.SeesRunning r id →
    id ∈ live.running
  /-- If the statistics fail, the poll saw every tracked job running. -/
  stats : r.fails = some .queueStats → ∀ id ∈ live.running, live.SeesRunning r id
  /-- A poll that fails before any succeeded was told of no change. -/
  first : live.lastPoll = none → ok = false → r.fails ≠ some .databaseNow →
    r.fails ≠ some .recentJobChanges → live.changes r = []
  /-- A job that stopped after the poll read the changes left no timestamp
  the next poll reads. -/
  timeless : ok → ∀ id ∈ live.checked r, ∀ job, r.atStates.lookup id = some job →
    job.status ≠ .running → latestChange job ≤ r.now - pollOverlap
  /-- A tracked job that stopped does not look as when it was last pushed. -/
  sent : ok → ∀ u ∈ live.found r, u.id ∈ live.running → live.sent.lookup u.id ≠ some u.state

end Properties

-- == queries

theorem foldl_max_lt {times : List DateTime} {since : DateTime} :
    ∀ {t : DateTime}, since < times.foldl max t ↔ since < t ∨ ∃ t' ∈ times, since < t' := by
  induction times with
  | nil => simp
  | cons t' times ih =>
      intro t
      rw [List.foldl_cons, ih, lt_max_iff]
      simp [or_assoc]

/-- A job changed after a time if its latest change is after it. -/
theorem changedSince_iff {since : DateTime} {job : Job} :
    changedSince since job = true ↔ since < latestChange job := by
  unfold changedSince latestChange
  rw [foldl_max_lt]
  simp only [List.any_eq_true, Option.any_eq_true, decide_eq_true_eq, List.mem_filterMap, id]
  constructor
  · intro h
    obtain ⟨column, hcolumn, t, ht, hlt⟩ := h
    exact .inr ⟨t, ⟨column, hcolumn, ht⟩, hlt⟩
  · intro h
    rcases h with h | ⟨t, ⟨column, hcolumn, ht⟩, hlt⟩
    · exact ⟨some job.createdAt, List.mem_cons_self, job.createdAt, rfl, h⟩
    · exact ⟨column, hcolumn, t, ht, hlt⟩

theorem mem_entries_iff {jobs : Jobs} {id : JobId} {job : Job} :
    (⟨id, job⟩ : Sigma fun _ : JobId => Job) ∈ jobs.entries ↔ jobs.lookup id = some job :=
  AList.mem_lookup_iff.symm

/-- A recent change is the change of a row. -/
theorem of_mem_recentJobChanges {jobs : Jobs} {since : DateTime} {limit : Nat} {u : JobUpdate}
    (h : u ∈ recentJobChanges jobs since limit) :
    ∃ job, jobs.lookup u.id = some job ∧ since < latestChange job ∧
      u = jobChange u.id job (latestChange job) := by
  obtain ⟨⟨id, job⟩, hmem, rfl⟩ := List.mem_map.1 (List.mem_mergeSort.1 (List.mem_of_mem_take h))
  obtain ⟨hentry, hchanged⟩ := List.mem_filter.1 hmem
  exact ⟨job, mem_entries_iff.1 hentry, changedSince_iff.1 hchanged, rfl⟩

/-- Every recent change is among those read, if they are not more than the
limit. -/
theorem mem_recentJobChanges {jobs : Jobs} {since : DateTime} {limit : Nat}
    (hlimit : (jobs.entries.filter fun e => changedSince since e.2).length ≤ limit) {id : JobId}
    {job : Job} (hjob : jobs.lookup id = some job) (hchanged : since < latestChange job) :
    jobChange id job (latestChange job) ∈ recentJobChanges jobs since limit := by
  unfold recentJobChanges
  rw [List.take_of_length_le (by simpa using hlimit)]
  refine List.mem_mergeSort.2 (List.mem_map.2 ⟨⟨id, job⟩, ?_, rfl⟩)
  exact List.mem_filter.2 ⟨mem_entries_iff.2 hjob, changedSince_iff.2 hchanged⟩

theorem of_mem_runningJobs {jobs : Jobs} {limit : Nat} {u : JobUpdate}
    (h : u ∈ runningJobs jobs limit) :
    u.status = .running ∧ HasStatus jobs u.id (· = .running) := by
  obtain ⟨⟨id, job⟩, hmem, rfl⟩ := List.mem_map.1 h
  obtain ⟨hentry, hrunning⟩ := List.mem_filter.1 (List.mem_mergeSort.1 (List.mem_of_mem_take hmem))
  have hrunning : job.status = .running := by simpa using hrunning
  exact ⟨hrunning, job, mem_entries_iff.1 hentry, hrunning⟩

theorem mem_jobStates {jobs : Jobs} {ids : List JobId} {u : JobUpdate} :
    u ∈ jobStates jobs ids ↔ u.id ∈ ids ∧ ∃ job, jobs.lookup u.id = some job ∧
      u = jobChange u.id job (latestChange job) := by
  unfold jobStates
  simp only [List.mem_map, List.mem_filter, decide_eq_true_eq]
  constructor
  · intro h
    obtain ⟨⟨id, job⟩, ⟨hentry, hid⟩, rfl⟩ := h
    exact ⟨hid, job, mem_entries_iff.1 hentry, rfl⟩
  · intro h
    obtain ⟨hid, job, hjob, hu⟩ := h
    exact ⟨⟨u.id, job⟩, ⟨mem_entries_iff.2 hjob, hid⟩, hu.symm⟩

-- == one poll

namespace LiveUpdates

variable {live : LiveUpdates} {r : Reads}

/-- A tracked job the poll does not see. -/
theorem mem_left {id : JobId} :
    id ∈ live.left r ↔ id ∈ live.running ∧
      ∀ u ∈ live.changes r ++ runningJobs r.atRunning live.maxJobs, u.id ≠ id := by
  unfold left leftRunning
  simp only [List.mem_mergeSort, List.mem_filter, decide_eq_true_eq, List.mem_map, not_exists,
    not_and, ne_eq]

/-- The states are read if there are any to read. -/
theorem mem_statesRead {ids : List JobId} {jobs : Jobs} {u : JobUpdate} :
    u ∈ (if ids.isEmpty then [] else jobStates jobs ids) ↔ u ∈ jobStates jobs ids := by
  split
  case isTrue hempty =>
    rw [mem_jobStates, List.isEmpty_iff.1 hempty]
    simp
  case isFalse => rfl

/-- A job that is found stopped: the poll reads its state. -/
theorem mem_stopped {u : JobUpdate} :
    u ∈ (live.stopped r).2 ↔ u.id ∈ live.checked r ∧ ∃ job, r.atStates.lookup u.id = some job ∧
      job.status ≠ .running ∧ u = jobChange u.id job r.now := by
  unfold stopped stoppedRunning
  simp only [List.mem_map, List.mem_filter, mem_statesRead, mem_jobStates, decide_eq_true_eq]
  constructor
  · intro h
    obtain ⟨v, ⟨⟨⟨hid, job, hjob, hv⟩, -⟩, hstatus⟩, rfl⟩ := h
    rw [hv] at hstatus
    refine ⟨hid, job, hjob, hstatus, ?_⟩
    rw [hv]
    rfl
  · intro h
    obtain ⟨hid, job, hjob, hstatus, hu⟩ := h
    refine ⟨jobChange u.id job (latestChange job), ⟨⟨⟨hid, job, hjob, rfl⟩, hid⟩, hstatus⟩, ?_⟩
    rw [hu]
    rfl

theorem mem_stillRunning {id : JobId} :
    id ∈ (live.stopped r).1 ↔ id ∈ live.checked r ∧ HasStatus r.atStates id (· = .running) := by
  unfold stopped stoppedRunning
  simp only [List.mem_map, List.mem_filter, mem_statesRead, mem_jobStates, decide_eq_true_eq]
  constructor
  · intro h
    obtain ⟨v, ⟨⟨⟨hid, job, hjob, hv⟩, -⟩, hstatus⟩, rfl⟩ := h
    rw [hv] at hstatus
    exact ⟨hid, job, hjob, hstatus⟩
  · intro h
    obtain ⟨hid, job, hjob, hstatus⟩ := h
    exact ⟨jobChange id job (latestChange job), ⟨⟨⟨hid, job, hjob, rfl⟩, hid⟩, hstatus⟩, rfl⟩

/-- What a poll tracks: what it sees running, and what it did not look at. -/
theorem mem_tracked {id : JobId} :
    id ∈ live.tracked r ↔
      (∃ u ∈ live.changes r ++ runningJobs r.atRunning live.maxJobs, u.id = id ∧
        u.status = .running) ∨
      (id ∈ live.checked r ∧ HasStatus r.atStates id (· = .running)) ∨
      id ∈ (live.left r).drop live.maxJobs := by
  unfold tracked
  simp only [List.mem_dedup, List.mem_append, List.mem_map, List.mem_filter, mem_stillRunning,
    decide_eq_true_eq]
  constructor
  · intro h
    rcases h with (⟨u, ⟨hmem, hrunning⟩, hid⟩ | h) | h
    · exact .inl ⟨u, hmem.symm, hid, hrunning⟩
    · exact .inr (.inl h)
    · exact .inr (.inr h)
  · intro h
    rcases h with ⟨u, hmem, hid, hrunning⟩ | h | h
    · exact .inl (.inl ⟨u, ⟨hmem.symm, hrunning⟩, hid⟩)
    · exact .inl (.inr h)
    · exact .inr h

theorem nodup_ids {jobs : Jobs} {rows : List (Sigma fun _ : JobId => Job)}
    (hrows : rows.Sublist jobs.entries) (time : Job → DateTime) :
    ((rows.map fun e => jobChange e.1 e.2 (time e.2)).map (·.id)).Nodup := by
  have hkeys : (rows.map Sigma.fst).Nodup := (hrows.map Sigma.fst).nodup jobs.nodupKeys
  rw [List.map_map]
  exact hkeys

theorem nodup_recentJobChanges {jobs : Jobs} {since : DateTime} {limit : Nat} :
    ((recentJobChanges jobs since limit).map (·.id)).Nodup := by
  have hsorted : ∀ (l : List JobUpdate) (le : JobUpdate → JobUpdate → Bool),
      (l.map (·.id)).Nodup → ((l.mergeSort le).map (·.id)).Nodup := by
    intro l le h
    exact ((List.mergeSort_perm l le).map (·.id)).nodup_iff.2 h
  exact ((List.take_sublist limit _).map JobUpdate.id).nodup
    (hsorted _ _ (nodup_ids List.filter_sublist latestChange))

theorem nodup_stopped : (((live.stopped r).2).map (·.id)).Nodup := by
  have hread : ((if (live.checked r).isEmpty then [] else
      jobStates r.atStates (live.checked r)).map (·.id)).Nodup := by
    split
    case isTrue => exact List.nodup_nil
    case isFalse => exact nodup_ids List.filter_sublist latestChange
  unfold stopped stoppedRunning
  rw [List.map_map]
  exact ((List.filter_sublist.trans List.filter_sublist).map JobUpdate.id).nodup hread

/-- Each job is among the changes of a poll once. -/
theorem nodup_changes_stopped :
    ((live.changes r ++ (live.stopped r).2).map (·.id)).Nodup := by
  rw [List.map_append, List.nodup_append]
  refine ⟨nodup_recentJobChanges, nodup_stopped, ?_⟩
  intro id hchanged id' hstopped heq
  subst heq
  obtain ⟨u, hu, hid⟩ := List.mem_map.1 hchanged
  obtain ⟨u', hu', hid'⟩ := List.mem_map.1 hstopped
  have hleft := List.mem_of_mem_take (mem_stopped.1 hu').1
  exact (mem_left.1 hleft).2 u (List.mem_append_left _ hu) (hid.trans hid'.symm)

-- == what is sent

/-- What is fresh is what does not look as when it was last pushed. -/
theorem mem_keepFresh {u : JobUpdate} : ∀ {changes : List JobUpdate} {sent : Table JobId SentState},
    (changes.map (·.id)).Nodup →
    (u ∈ (keepFresh changes sent).1 ↔ u ∈ changes ∧ sent.lookup u.id ≠ some u.state) := by
  intro changes
  induction changes with
  | nil => simp [keepFresh]
  | cons job changes ih =>
      intro sent hnodup
      obtain ⟨hnew, hnodup⟩ := List.nodup_cons.1 hnodup
      have hother : ∀ v ∈ changes, v.id ≠ job.id := by
        intro v hv heq
        refine hnew ?_
        show job.id ∈ changes.map (·.id)
        rw [← heq]
        exact List.mem_map_of_mem hv
      have hrest : u ∈ (keepFresh changes (sent.insert job.id job.state)).1 ↔
          u ∈ changes ∧ sent.lookup u.id ≠ some u.state := by
        rw [ih hnodup]
        constructor
        · intro h
          obtain ⟨hmem, hne⟩ := h
          rw [Table.lookup_insert_if, if_neg (hother u hmem)] at hne
          exact ⟨hmem, hne⟩
        · intro h
          obtain ⟨hmem, hne⟩ := h
          rw [Table.lookup_insert_if, if_neg (hother u hmem)]
          exact ⟨hmem, hne⟩
      unfold keepFresh
      dsimp only
      split
      case isTrue hsame =>
        rw [hrest, List.mem_cons]
        constructor
        · exact fun h => ⟨.inr h.1, h.2⟩
        · intro h
          obtain ⟨hmem, hne⟩ := h
          rcases hmem with rfl | hmem
          · exact absurd hsame hne
          · exact ⟨hmem, hne⟩
      case isFalse hnew =>
        rw [List.mem_cons, hrest, List.mem_cons]
        constructor
        · intro h
          rcases h with rfl | h
          · exact ⟨.inl rfl, hnew⟩
          · exact ⟨.inr h.1, h.2⟩
        · intro h
          obtain ⟨hmem, hne⟩ := h
          exact hmem.imp_right fun hmem => ⟨hmem, hne⟩

/-- Every change is remembered, and no other. -/
theorem lookup_keepFresh {id : JobId} :
    ∀ {changes : List JobUpdate} {sent : Table JobId SentState}, (changes.map (·.id)).Nodup →
      (∀ u ∈ changes, u.id = id → (keepFresh changes sent).2.lookup id = some u.state) ∧
      ((∀ u ∈ changes, u.id ≠ id) → (keepFresh changes sent).2.lookup id = sent.lookup id) := by
  intro changes
  induction changes with
  | nil =>
      intro sent _
      exact ⟨fun u hu => (nomatch hu), fun _ => rfl⟩
  | cons job changes ih =>
      intro sent hnodup
      obtain ⟨hnew, hnodup⟩ := List.nodup_cons.1 hnodup
      have hsent : (keepFresh (job :: changes) sent).2
          = (keepFresh changes (sent.insert job.id job.state)).2 := by
        rw [keepFresh]
        dsimp only
        split <;> rfl
      rw [hsent]
      obtain ⟨hmem, hnot⟩ := @ih (sent.insert job.id job.state) hnodup
      constructor
      · intro u hu hid
        rcases List.mem_cons.1 hu with rfl | hu
        · subst hid
          have hother : ∀ v ∈ changes, v.id ≠ u.id := by
            intro v hv heq
            refine hnew ?_
            show u.id ∈ changes.map (·.id)
            rw [← heq]
            exact List.mem_map_of_mem hv
          rw [hnot hother, Table.lookup_insert_if, if_pos rfl]
        · exact hmem u hu hid
      · intro hne
        rw [hnot fun v hv => hne v (List.mem_cons_of_mem _ hv), Table.lookup_insert_if,
          if_neg (Ne.symm (hne job List.mem_cons_self))]

/-- What is left of what was pushed, when a poll looks for what is fresh. -/
def kept (live : LiveUpdates) (r : Reads) : Table JobId SentState :=
  live.sent.retain fun _ state => live.since r.now < state.2.2

/-- What a poll that succeeds has done. -/
structure Succeeds (live : LiveUpdates) (r : Reads) (p : Pushed) (next : LiveUpdates) : Prop where
  read : r.fails ≠ some .databaseNow ∧ r.fails ≠ some .recentJobChanges ∧
    r.fails ≠ some .runningJobs
  states : r.fails = some .jobStates → live.checked r = []
  running : next.running = live.tracked r
  lastPoll : next.lastPoll = some r.now
  maxJobs : next.maxJobs = live.maxJobs
  sent : next.sent = (keepFresh (live.changes r ++ (live.stopped r).2) (live.kept r)).2
  jobs : ∀ u, u ∈ p.jobs ↔ u ∈ live.changes r ++ (live.stopped r).2 ∧
    (live.kept r).lookup u.id ≠ some u.state

/-- A poll succeeds, or fails and changes nothing, or fails at its last query
with the tracked jobs changed. -/
theorem pollOnce_cases (hconnected : r.connections ≠ 0) :
    (∃ p next, live.pollOnce r = (.ok p, next) ∧ live.Succeeds r p next) ∨
      (∃ q, live.pollOnce r = (.error q, live)) ∨
      (r.fails = some .queueStats ∧
        live.pollOnce r = (.error .queueStats, { live with running := live.tracked r })) := by
  unfold pollOnce
  rw [if_neg hconnected]
  split
  case isTrue => exact .inr (.inl ⟨_, rfl⟩)
  case isFalse hnow =>
    split
    case isTrue => exact .inr (.inl ⟨_, rfl⟩)
    case isFalse hchanges =>
      split
      case isTrue => exact .inr (.inl ⟨_, rfl⟩)
      case isFalse hrunning =>
        split
        case isTrue => exact .inr (.inl ⟨_, rfl⟩)
        case isFalse hstates =>
          dsimp only
          split
          case isTrue hstats => exact .inr (.inr ⟨hstats, rfl⟩)
          case isFalse hstats =>
            refine .inl ⟨_, _, rfl, ⟨⟨hnow, hchanges, hrunning⟩, ?_, rfl, rfl, rfl, rfl, ?_⟩⟩
            · intro hfails
              have hnone : (live.checked r).isEmpty := by
                cases hempty : (live.checked r).isEmpty with
                | true => rfl
                | false => exact absurd ⟨by rw [hempty]; rfl, hfails⟩ hstates
              exact List.isEmpty_iff.1 hnone
            · intro u
              exact List.mem_mergeSort.trans (mem_keepFresh nodup_changes_stopped)

/-- A poll that fails at its last query has changed what it tracks. -/
theorem pollOnce_queueStats (hconnected : r.connections ≠ 0) (hstats : r.fails = some .queueStats) :
    live.pollOnce r = (.error .queueStats, { live with running := live.tracked r }) := by
  unfold pollOnce
  simp [hconnected, hstats]

end LiveUpdates

-- == many polls

section Run

variable {maxJobs : Nat} {reads : Nat → Reads}

open LiveUpdates

/-- What one poll of a run did. -/
theorem poll_cases (hconnected : ∀ n, (reads n).connections ≠ 0) (n : Nat) :
    (∃ p, pushed maxJobs reads n = some p ∧
      (before maxJobs reads n).Succeeds (reads n) p (before maxJobs reads (n + 1))) ∨
    pushed maxJobs reads n = none ∧
      (before maxJobs reads (n + 1) = before maxJobs reads n ∨
        (reads n).fails = some .queueStats ∧ before maxJobs reads (n + 1) =
          { before maxJobs reads n with
            running := (before maxJobs reads n).tracked (reads n) }) := by
  have hnext : before maxJobs reads (n + 1)
      = ((before maxJobs reads n).pollOnce (reads n)).2 := rfl
  rw [hnext]
  unfold pushed
  rcases @pollOnce_cases (before maxJobs reads n) (reads n) (hconnected n) with
    ⟨p, next, heq, h⟩ | ⟨q, heq⟩ | ⟨hfails, heq⟩
  · rw [heq]
    exact .inl ⟨p, rfl, h⟩
  · rw [heq]
    exact .inr ⟨rfl, .inl rfl⟩
  · rw [heq]
    exact .inr ⟨rfl, .inr ⟨hfails, rfl⟩⟩

theorem succeeds_of_pushed (hconnected : ∀ n, (reads n).connections ≠ 0) {n : Nat} {p : Pushed}
    (h : pushed maxJobs reads n = some p) :
    (before maxJobs reads n).Succeeds (reads n) p (before maxJobs reads (n + 1)) := by
  rcases poll_cases hconnected n with ⟨p', hp', hsucceeds⟩ | ⟨hnone, -⟩
  · cases h.symm.trans hp'
    exact hsucceeds
  · cases h.symm.trans hnone

/-- Polls that fail keep everything but the tracked jobs. -/
theorem failed_keeps (hconnected : ∀ n, (reads n).connections ≠ 0) {m : Nat} :
    ∀ {m' : Nat}, m ≤ m' → FailsUntil maxJobs reads m m' →
      (before maxJobs reads m').lastPoll = (before maxJobs reads m).lastPoll ∧
        (before maxJobs reads m').sent = (before maxJobs reads m).sent := by
  intro m' hle
  induction m', hle using Nat.le_induction with
  | base => exact fun _ => ⟨rfl, rfl⟩
  | succ n hmn ih =>
      intro hfails
      obtain ⟨hlast, hsent⟩ := ih fun j hmj hjn => hfails j hmj (by omega)
      rcases poll_cases hconnected n with ⟨p, hp, -⟩ | ⟨-, heq | ⟨-, heq⟩⟩
      · cases (hfails n hmn (by omega)).symm.trans hp
      · rw [heq]
        exact ⟨hlast, hsent⟩
      · rw [heq]
        exact ⟨hlast, hsent⟩

theorem maxJobs_before (hconnected : ∀ n, (reads n).connections ≠ 0) (n : Nat) :
    (before maxJobs reads n).maxJobs = max maxJobs 1 := by
  induction n with
  | zero => rfl
  | succ n ih =>
      rcases poll_cases hconnected n with ⟨p, -, h⟩ | ⟨-, heq | ⟨-, heq⟩⟩
      · rw [h.maxJobs, ih]
      · rw [heq, ih]
      · rw [heq]
        exact ih

/-- What was pushed and is remembered was pushed. -/
theorem sent_pushed (hconnected : ∀ n, (reads n).connections ≠ 0) {id : JobId} {state : SentState}
    (n : Nat) (h : (before maxJobs reads n).sent.lookup id = some state) :
    ∃ k < n, ∃ p, pushed maxJobs reads k = some p ∧ ∃ u ∈ p.jobs, u.id = id ∧ u.state = state := by
  induction n with
  | zero => cases h
  | succ n ih =>
      rcases poll_cases hconnected n with ⟨p, hp, hsucceeds⟩ | ⟨-, heq | ⟨-, heq⟩⟩
      · rw [hsucceeds.sent] at h
        have hkept : ∀ state, ((before maxJobs reads n).kept (reads n)).lookup id = some state →
            (before maxJobs reads n).sent.lookup id = some state := by
          intro state hkept
          unfold kept at hkept
          rw [Table.lookup_retain] at hkept
          exact (Option.filter_eq_some_iff.1 hkept).1
        have hbefore : (before maxJobs reads n).sent.lookup id = some state →
            ∃ k < n + 1, ∃ p, pushed maxJobs reads k = some p ∧
              ∃ u ∈ p.jobs, u.id = id ∧ u.state = state := by
          intro h
          obtain ⟨k, hk, rest⟩ := ih h
          exact ⟨k, by omega, rest⟩
        obtain ⟨hmem, hnot⟩ := @lookup_keepFresh id _ ((before maxJobs reads n).kept (reads n))
          (@nodup_changes_stopped (before maxJobs reads n) (reads n))
        by_cases hchanged : ∃ u ∈ (before maxJobs reads n).changes (reads n)
            ++ ((before maxJobs reads n).stopped (reads n)).2, u.id = id
        · obtain ⟨u, hu, hid⟩ := hchanged
          have hstate := Option.some.inj ((hmem u hu hid).symm.trans h)
          by_cases hsame : ((before maxJobs reads n).kept (reads n)).lookup u.id = some u.state
          · rw [hid, hstate] at hsame
            exact hbefore (hkept state hsame)
          · exact ⟨n, by omega, p, hp, u, (hsucceeds.jobs u).2 ⟨hu, hsame⟩, hid, hstate⟩
        · rw [hnot fun u hu hid => hchanged ⟨u, hu, hid⟩] at h
          exact hbefore (hkept state h)
      · rw [heq] at h
        obtain ⟨k, hk, rest⟩ := ih h
        exact ⟨k, by omega, rest⟩
      · rw [heq] at h
        obtain ⟨k, hk, rest⟩ := ih h
        exact ⟨k, by omega, rest⟩

theorem left_length (live : LiveUpdates) (r : Reads) :
    (live.left r).length ≤ live.running.length := by
  unfold left leftRunning
  rw [List.length_mergeSort]
  exact List.length_filter_le ..

/-- A job of which an update was read as running ran at that query. -/
theorem ran_of_update {live : LiveUpdates} {r : Reads} {u : JobUpdate}
    (hmem : u ∈ live.changes r ++ runningJobs r.atRunning live.maxJobs)
    (hrunning : u.status = .running) :
    HasStatus r.atChanges u.id (· = .running) ∨ HasStatus r.atRunning u.id (· = .running) := by
  rcases List.mem_append.1 hmem with hmem | hmem
  · obtain ⟨job, hjob, -, hu⟩ := of_mem_recentJobChanges hmem
    rw [hu] at hrunning
    exact .inl ⟨job, hjob, hrunning⟩
  · exact .inr (of_mem_runningJobs hmem).2

/-- As many jobs are tracked as may run during a poll. -/
theorem running_bounded (h : Bounded maxJobs reads) (n : Nat) :
    (before maxJobs reads n).running.Nodup ∧
      (before maxJobs reads n).running.length ≤ max maxJobs 1 := by
  induction n with
  | zero => exact ⟨List.nodup_nil, Nat.zero_le _⟩
  | succ n ih =>
      obtain ⟨hnodup, hlength⟩ := ih
      have hmax : (before maxJobs reads n).maxJobs = max maxJobs 1 := maxJobs_before h.connected n
      have htracked : ((before maxJobs reads n).tracked (reads n)).Nodup ∧
          ((before maxJobs reads n).tracked (reads n)).length ≤ max maxJobs 1 := by
        have hdistinct : ((before maxJobs reads n).tracked (reads n)).Nodup := List.nodup_dedup _
        refine ⟨hdistinct, h.running n _ hdistinct ?_⟩
        intro id hid
        rcases mem_tracked.1 hid with ⟨u, hmem, rfl, hrunning⟩ | ⟨-, hrunning⟩ | hdrop
        · rcases ran_of_update hmem hrunning with hran | hran
          · exact ⟨_, by simp [Reads.tables], hran⟩
          · exact ⟨_, by simp [Reads.tables], hran⟩
        · exact ⟨_, by simp [Reads.tables], hrunning⟩
        · have hleft := left_length (before maxJobs reads n) (reads n)
          rw [List.drop_eq_nil_of_le (by omega)] at hdrop
          cases hdrop
      rcases poll_cases h.connected n with ⟨p, -, hsucceeds⟩ | ⟨-, heq | ⟨-, heq⟩⟩
      · rw [hsucceeds.running]
        exact htracked
      · rw [heq]
        exact ⟨hnodup, hlength⟩
      · rw [heq]
        exact htracked

/-- A poll leaves no tracked job for later. -/
theorem drop_left (h : Bounded maxJobs reads) (n : Nat) :
    ((before maxJobs reads n).left (reads n)).drop (before maxJobs reads n).maxJobs = [] := by
  have hleft := left_length (before maxJobs reads n) (reads n)
  have hbounded := (running_bounded h n).2
  have hmax : (before maxJobs reads n).maxJobs = max maxJobs 1 := maxJobs_before h.connected n
  exact List.drop_eq_nil_of_le (by omega)

/-- A poll reads the state of every tracked job it does not see. -/
theorem checked_of_left (h : Bounded maxJobs reads) {n : Nat} {id : JobId}
    (hid : id ∈ (before maxJobs reads n).left (reads n)) :
    id ∈ (before maxJobs reads n).checked (reads n) := by
  rw [← List.take_append_drop (before maxJobs reads n).maxJobs
    ((before maxJobs reads n).left (reads n)), drop_left h n, List.append_nil] at hid
  exact hid

-- == the changes

/-- A change that a poll that succeeds reads is pushed, or was. -/
theorem pushed_of_read (hconnected : ∀ n, (reads n).connections ≠ 0) {n : Nat} {p : Pushed}
    (hp : pushed maxJobs reads n = some p) {u : JobUpdate}
    (hu : u ∈ (before maxJobs reads n).changes (reads n) ++
      ((before maxJobs reads n).stopped (reads n)).2) :
    u ∈ p.jobs ∨ (before maxJobs reads n).sent.lookup u.id = some u.state := by
  by_cases hsame : ((before maxJobs reads n).kept (reads n)).lookup u.id = some u.state
  · unfold kept at hsame
    rw [Table.lookup_retain] at hsame
    exact .inr (Option.filter_eq_some_iff.1 hsame).1
  · exact .inl (((succeeds_of_pushed hconnected hp).jobs u).2 ⟨hu, hsame⟩)

theorem pushes_changes (h : Bounded maxJobs reads)
    (hclean : ∀ n, Clean (before maxJobs reads n) (reads n) (pushed maxJobs reads n).isSome) :
    PushesChanges maxJobs reads := by
  intro m u hu hnow hchanges m' hle hfails hsucceeds hsame
  obtain ⟨p, hp⟩ := Option.isSome_iff_exists.1 hsucceeds
  -- the poll that succeeds reads the change too
  have hread : u ∈ (before maxJobs reads m').changes (reads m') := by
    rcases Nat.eq_or_lt_of_le hle with rfl | hlt
    · exact hu
    · obtain ⟨hlast, -⟩ := failed_keeps h.connected hle hfails
      obtain ⟨job, hjob, hsince, hchange⟩ := of_mem_recentJobChanges hu
      have hwindow : (before maxJobs reads m').since (reads m').now
          = (before maxJobs reads m).since (reads m).now := by
        unfold since
        cases hnone : (before maxJobs reads m).lastPoll with
        | none =>
            have hnothing := (hclean m).first hnone (by rw [hfails m (Nat.le_refl m) hlt]; rfl)
              hnow hchanges
            rw [hnothing] at hu
            cases hu
        | some t =>
            rw [hlast, hnone]
            rfl
      rw [hchange]
      unfold LiveUpdates.changes
      rw [hwindow, maxJobs_before h.connected m']
      refine mem_recentJobChanges ?_ (hsame.trans hjob) hsince
      rw [← hwindow]
      exact h.changes m'
  rcases pushed_of_read h.connected hp (List.mem_append_left _ hread) with hpushed | hsent
  · exact ⟨m', Nat.le_refl m', p, hp, u, hpushed, rfl, rfl⟩
  · obtain ⟨k, hk, q, hq, u', hu', hid, hstate⟩ := sent_pushed h.connected m' hsent
    exact ⟨k, by omega, q, hq, u', hu', hid, hstate⟩

-- == stopped

/-- A poll that reaches its last query tracks the jobs it saw running. -/
theorem tracked_of_sees {live : LiveUpdates} {r : Reads} {id : JobId}
    (h : live.SeesRunning r id) : id ∈ live.tracked r := by
  obtain ⟨-, -, ⟨u, hu, hid, hrunning⟩ | ⟨-, ⟨u, hu, hid⟩ | ⟨-, hchecked, hrunning⟩⟩⟩ := h
  · exact mem_tracked.2 (.inl ⟨u, List.mem_append_left _ hu, hid, hrunning⟩)
  · exact mem_tracked.2 (.inl ⟨u, List.mem_append_right _ hu, hid, (of_mem_runningJobs hu).1⟩)
  · exact mem_tracked.2 (.inr (.inl ⟨hchecked, hrunning⟩))

/-- A tracked job stays tracked until a poll succeeds. -/
theorem tracked_until (h : Bounded maxJobs reads)
    (hclean : ∀ n, Clean (before maxJobs reads n) (reads n) (pushed maxJobs reads n).isSome)
    {m : Nat} {id : JobId} (hid : id ∈ (before maxJobs reads m).running) :
    ∀ {m' : Nat}, m ≤ m' → FailsUntil maxJobs reads m m' →
      id ∈ (before maxJobs reads m').running := by
  intro m' hle
  induction m', hle using Nat.le_induction with
  | base => exact fun _ => hid
  | succ n hmn ih =>
      intro hfails
      have htracked := ih fun j hmj hjn => hfails j hmj (by omega)
      rcases poll_cases h.connected n with ⟨p, hp, -⟩ | ⟨-, heq | ⟨hstats, heq⟩⟩
      · cases (hfails n hmn (by omega)).symm.trans hp
      · rw [heq]
        exact htracked
      · rw [heq]
        exact tracked_of_sees ((hclean n).stats hstats id htracked)

/-- What a poll finds is what it reads. -/
theorem read_of_found {live : LiveUpdates} {r : Reads} {u : JobUpdate} (hu : u ∈ live.found r) :
    u ∈ live.changes r ++ (live.stopped r).2 := by
  unfold found at hu
  split at hu
  case isTrue => cases hu
  case isFalse =>
    rcases List.mem_append.1 hu with hu | hu
    · exact List.mem_append_left _ (List.mem_of_mem_filter hu)
    · split at hu
      case isTrue => cases hu
      case isFalse => exact List.mem_append_right _ hu

/-- What a poll that succeeds reads is what it finds, if it does not run. -/
theorem found_of_read {live next : LiveUpdates} {r : Reads} {p : Pushed}
    (hsucceeds : live.Succeeds r p next) {u : JobUpdate}
    (hu : u ∈ live.changes r ++ (live.stopped r).2) (hstatus : u.status ≠ .running) :
    u ∈ live.found r := by
  obtain ⟨hnow, hchanges, hrunning⟩ := hsucceeds.read
  unfold found
  rw [if_neg (by simp [hnow, hchanges])]
  rcases List.mem_append.1 hu with hu | hu
  · exact List.mem_append_left _ (List.mem_filter.2 ⟨hu, by simpa using hstatus⟩)
  · refine List.mem_append_right _ ?_
    have hstates : r.fails ≠ some .jobStates := by
      intro hfails
      have hchecked := (mem_stopped.1 hu).1
      rw [hsucceeds.states hfails] at hchecked
      cases hchecked
    rw [if_neg (by simp [hrunning, hstates])]
    exact hu

/-- A tracked job that a poll that succeeds does not find stopped stays
tracked while it exists. -/
theorem tracked_of_not_found (h : Bounded maxJobs reads) {n : Nat} {p : Pushed}
    (hsucceeds : (before maxJobs reads n).Succeeds (reads n) p (before maxJobs reads (n + 1)))
    {id : JobId} (hid : id ∈ (before maxJobs reads n).running)
    (hnot : ∀ u ∈ (before maxJobs reads n).found (reads n), u.id ≠ id)
    (hthere : ∀ jobs ∈ (reads n).tables, (jobs.lookup id).isSome) :
    id ∈ (before maxJobs reads (n + 1)).running := by
  rw [hsucceeds.running]
  by_cases hseen : ∃ u ∈ (before maxJobs reads n).changes (reads n) ++
      runningJobs (reads n).atRunning (before maxJobs reads n).maxJobs, u.id = id
  · obtain ⟨u, hu, huid⟩ := hseen
    refine mem_tracked.2 (.inl ⟨u, hu, huid, ?_⟩)
    rcases List.mem_append.1 hu with hu | hu
    · refine Classical.byContradiction fun hstatus => ?_
      exact hnot u (found_of_read hsucceeds (List.mem_append_left _ hu) hstatus) huid
    · exact (of_mem_runningJobs hu).1
  · have hleft : id ∈ (before maxJobs reads n).left (reads n) :=
      mem_left.2 ⟨hid, fun u hu huid => hseen ⟨u, hu, huid⟩⟩
    obtain ⟨job, hjob⟩ := Option.isSome_iff_exists.1
      (hthere (reads n).atStates (by simp [Reads.tables]))
    refine mem_tracked.2 (.inr (.inl ⟨checked_of_left h hleft, job, hjob, ?_⟩))
    refine Classical.byContradiction fun hstatus => ?_
    have hstopped : jobChange id job (reads n).now
        ∈ ((before maxJobs reads n).stopped (reads n)).2 :=
      mem_stopped.2 ⟨checked_of_left h hleft, job, hjob, hstatus, rfl⟩
    exact hnot _ (found_of_read hsucceeds (List.mem_append_right _ hstopped) hstatus) rfl

/-- A job that was seen running is tracked. -/
theorem tracked_of_seen (h : Bounded maxJobs reads)
    (hclean : ∀ n, Clean (before maxJobs reads n) (reads n) (pushed maxJobs reads n).isSome)
    {m : Nat} {id : JobId} (hseen : SeenRunning maxJobs reads m id) :
    id ∈ (before maxJobs reads m).running := by
  obtain ⟨k, hlt, hsees, hsince⟩ := hseen
  have hstart : id ∈ (before maxJobs reads (k + 1)).running := by
    by_cases hstats : (reads k).fails = some .queueStats
    · show id ∈ ((before maxJobs reads k).pollOnce (reads k)).2.running
      rw [pollOnce_queueStats (h.connected k) hstats]
      exact tracked_of_sees hsees
    · rcases poll_cases h.connected k with ⟨p, -, hsucceeds⟩ | ⟨hnone, heq | ⟨hfails, -⟩⟩
      · rw [hsucceeds.running]
        exact tracked_of_sees hsees
      · rw [heq]
        exact (hclean k).running (by rw [hnone]; rfl) hstats id hsees
      · exact absurd hfails hstats
  have hstep : ∀ n, k < n → n ≤ m → id ∈ (before maxJobs reads n).running := by
    intro n hkn
    induction n, hkn using Nat.le_induction with
    | base => exact fun _ => hstart
    | succ n hkn ih =>
        intro hnm
        have htracked := ih (by omega)
        obtain ⟨hnot, hthere⟩ := hsince n hkn hnm
        rcases poll_cases h.connected n with ⟨p, -, hsucceeds⟩ | ⟨-, heq | ⟨hstats, heq⟩⟩
        · exact tracked_of_not_found h hsucceeds htracked hnot hthere
        · rw [heq]
          exact htracked
        · rw [heq]
          exact tracked_of_sees ((hclean n).stats hstats id htracked)
  exact hstep m hlt (Nat.le_refl m)

theorem pushes_stopped (h : Bounded maxJobs reads)
    (hclean : ∀ n, Clean (before maxJobs reads n) (reads n) (pushed maxJobs reads n).isSome) :
    PushesStopped maxJobs reads := by
  -- a poll that succeeds pushes the tracked jobs it reads as stopped
  have hpushes : ∀ n p, pushed maxJobs reads n = some p →
      ∀ u ∈ (before maxJobs reads n).found (reads n), u.id ∈ (before maxJobs reads n).running →
        u ∈ p.jobs := by
    intro n p hp u hu hid
    rcases pushed_of_read h.connected hp (read_of_found hu) with hpushed | hsent
    · exact hpushed
    · exact absurd hsent ((hclean n).sent (by rw [hp]; rfl) u hu hid)
  intro m u hu hseen
  have hid := tracked_of_seen h hclean hseen
  refine ⟨fun p hp => hpushes m p hp u hu hid, ?_⟩
  intro m' p hlt hfails hp hthere
  have htracked := tracked_until h hclean hid (Nat.le_of_lt hlt) hfails
  have hsucceeds := succeeds_of_pushed h.connected hp
  by_cases hchanged : ∃ v ∈ (before maxJobs reads m').changes (reads m'), v.id = u.id
  · obtain ⟨v, hv, hvid⟩ := hchanged
    obtain ⟨job, hjob, -, hchange⟩ := of_mem_recentJobChanges hv
    obtain ⟨job', hjob', hstatus⟩ := hthere (reads m').atChanges (by simp [Reads.tables])
    rw [hvid] at hjob
    cases hjob.symm.trans hjob'
    have hvstatus : v.status ≠ .running := by
      rw [hchange]
      exact hstatus
    have hfound := found_of_read hsucceeds (List.mem_append_left _ hv) hvstatus
    refine ⟨v, hpushes m' p hp v hfound (by rw [hvid]; exact htracked), hvid, (reads m').atChanges,
      by simp [Reads.tables], job, hjob, ?_, ?_⟩
    · rw [hchange]
      rfl
    · rw [hchange]
      rfl
  · have hleft : u.id ∈ (before maxJobs reads m').left (reads m') := by
      refine mem_left.2 ⟨htracked, ?_⟩
      intro v hv hvid
      rcases List.mem_append.1 hv with hv | hv
      · exact hchanged ⟨v, hv, hvid⟩
      · obtain ⟨-, job, hjob, hrunning⟩ := of_mem_runningJobs hv
        obtain ⟨job', hjob', hstatus⟩ := hthere (reads m').atRunning (by simp [Reads.tables])
        rw [hvid] at hjob
        cases hjob.symm.trans hjob'
        exact hstatus hrunning
    obtain ⟨job, hjob, hstatus⟩ := hthere (reads m').atStates (by simp [Reads.tables])
    have hstopped : jobChange u.id job (reads m').now
        ∈ ((before maxJobs reads m').stopped (reads m')).2 :=
      mem_stopped.2 ⟨checked_of_left h hleft, job, hjob, hstatus, rfl⟩
    have hfound := found_of_read hsucceeds (List.mem_append_right _ hstopped) hstatus
    exact ⟨_, hpushes m' p hp _ hfound htracked, rfl, (reads m').atStates,
      by simp [Reads.tables], job, hjob, rfl, rfl⟩

-- == once

/-- A job that does not run from some query on is not tracked later, if the
poll of that query does not track it. -/
theorem not_tracked (h : Bounded maxJobs reads) {m : Nat} {id : JobId}
    (hnot : id ∉ (before maxJobs reads (m + 1)).running) :
    ∀ {m' : Nat}, m + 1 ≤ m' →
      (∀ j, m + 1 ≤ j → j < m' → ∀ jobs ∈ (reads j).tables, ¬ HasStatus jobs id (· = .running)) →
      id ∉ (before maxJobs reads m').running := by
  intro m' hle
  induction m', hle using Nat.le_induction with
  | base => exact fun _ => hnot
  | succ n hmn ih =>
      intro hstopped
      have hbefore := ih fun j hmj hjn => hstopped j hmj (by omega)
      have hhere := hstopped n hmn (by omega)
      have htracked : id ∉ (before maxJobs reads n).tracked (reads n) := by
        intro hid
        rcases mem_tracked.1 hid with ⟨u, hmem, rfl, hrunning⟩ | ⟨-, hrunning⟩ | hdrop
        · rcases ran_of_update hmem hrunning with hran | hran
          · exact hhere _ (by simp [Reads.tables]) hran
          · exact hhere _ (by simp [Reads.tables]) hran
        · exact hhere _ (by simp [Reads.tables]) hrunning
        · exact hbefore (mem_left.1 (List.mem_of_mem_drop hdrop)).1
      rcases poll_cases h.connected n with ⟨p, -, hsucceeds⟩ | ⟨-, heq | ⟨-, heq⟩⟩
      · rw [hsucceeds.running]
        exact htracked
      · rw [heq]
        exact hbefore
      · rw [heq]
        exact htracked

theorem tableAt_changes (n : Nat) : tableAt reads (3 * n) = (reads n).atChanges := by
  have hmod : 3 * n % 3 = 0 := by omega
  have hdiv : 3 * n / 3 = n := by omega
  simp only [tableAt, hmod, hdiv]

theorem tableAt_running (n : Nat) : tableAt reads (3 * n + 1) = (reads n).atRunning := by
  have hmod : (3 * n + 1) % 3 = 1 := by omega
  have hdiv : (3 * n + 1) / 3 = n := by omega
  simp only [tableAt, hmod, hdiv]

theorem tableAt_states (n : Nat) : tableAt reads (3 * n + 2) = (reads n).atStates := by
  have hmod : (3 * n + 2) % 3 = 2 := by omega
  have hdiv : (3 * n + 2) / 3 = n := by omega
  simp only [tableAt, hmod, hdiv]

/-- A job that a poll pushed and that does not run until it is read again is
not tracked by that poll. -/
theorem not_tracked_pushed (h : Bounded maxJobs reads) {m t : Nat} {u : JobUpdate}
    (hread : ReadAt maxJobs reads m u t)
    (hnot : ∀ x, t ≤ x → x ≤ 3 * m + 2 → ¬ HasStatus (tableAt reads x) u.id (· = .running)) :
    u.id ∉ (before maxJobs reads m).tracked (reads m) := by
  have hstates : ¬ HasStatus (reads m).atStates u.id (· = .running) := by
    have hhere := hnot (3 * m + 2) (by rcases hread with ⟨rfl, -⟩ | ⟨rfl, -⟩ <;> omega) (by omega)
    rw [tableAt_states] at hhere
    exact hhere
  intro hid
  rcases mem_tracked.1 hid with ⟨v, hmem, hvid, hrunning⟩ | ⟨-, hrunning⟩ | hdrop
  · rcases hread with ⟨rfl, -⟩ | ⟨-, hu⟩
    · rcases ran_of_update hmem hrunning with hran | hran
      · have hhere := hnot (3 * m) (by omega) (by omega)
        rw [tableAt_changes] at hhere
        exact hhere (hvid ▸ hran)
      · have hhere := hnot (3 * m + 1) (by omega) (by omega)
        rw [tableAt_running] at hhere
        exact hhere (hvid ▸ hran)
    · have hleft := List.mem_of_mem_take (mem_stopped.1 hu).1
      exact (mem_left.1 hleft).2 v hmem hvid
  · exact hstates hrunning
  · rw [drop_left h m] at hdrop
    cases hdrop

theorem pushes_once (h : Bounded maxJobs reads)
    (hclean : ∀ n, Clean (before maxJobs reads n) (reads n) (pushed maxJobs reads n).isSome) :
    PushesOnce maxJobs reads := by
  intro m m' p p' hlt hfails hp hp' u hu u' hu' hid t t' hread hread' hsame
  have hsucceeds := succeeds_of_pushed h.connected hp
  have hsucceeds' := succeeds_of_pushed h.connected hp'
  obtain ⟨hlast, hsent⟩ := failed_keeps h.connected (show m + 1 ≤ m' by omega) hfails
  rcases hread' with ⟨rfl, hchanged'⟩ | ⟨rfl, hstopped'⟩
  · -- read as a change again
    obtain ⟨job', hjob', hsince', hchange'⟩ := of_mem_recentJobChanges hchanged'
    rcases hread with ⟨rfl, hchanged⟩ | ⟨rfl, hstopped⟩
    · obtain ⟨job, hjob, -, hchange⟩ := of_mem_recentJobChanges hchanged
      have hrow := hsame (3 * m') (by omega) (by omega)
      rw [tableAt_changes, tableAt_changes, hjob, ← hid, hjob'] at hrow
      cases hrow
      have hagain : u' = u := by
        rw [hchange', hchange, hid]
      subst hagain
      have hremembered : (before maxJobs reads m').sent.lookup u'.id = some u'.state := by
        rw [hsent, hsucceeds.sent]
        exact (lookup_keepFresh nodup_changes_stopped).1 u' (List.mem_append_left _ hchanged) rfl
      have hkept : ((before maxJobs reads m').kept (reads m')).lookup u'.id = some u'.state := by
        unfold kept
        rw [Table.lookup_retain, hremembered, Option.filter_eq_some_iff]
        refine ⟨rfl, ?_⟩
        rw [hchange']
        exact decide_eq_true hsince'
      exact ((hsucceeds'.jobs u').1 hu').2 hkept
    · obtain ⟨hchecked, job, hjob, hstatus, -⟩ := mem_stopped.1 hstopped
      have hrow := hsame (3 * m') (by omega) (by omega)
      rw [tableAt_changes, tableAt_states, hjob, ← hid, hjob'] at hrow
      cases hrow
      have hold := (hclean m).timeless (by rw [hp]; rfl) u.id hchecked job' hjob hstatus
      have hwindow : (before maxJobs reads m').since (reads m').now
          = (reads m).now - pollOverlap := by
        unfold since
        rw [hlast, hsucceeds.lastPoll]
        rfl
      rw [hwindow] at hsince'
      exact absurd hsince' (not_lt.2 hold)
  · -- found stopped again: but it was not tracked any more
    obtain ⟨hchecked', job', hjob', hstatus', -⟩ := mem_stopped.1 hstopped'
    have htle : t ≤ 3 * m + 2 := by
      rcases hread with ⟨rfl, -⟩ | ⟨rfl, -⟩ <;> omega
    have hrow : ∀ x, t ≤ x → x ≤ 3 * m' + 2 →
        ¬ HasStatus (tableAt reads x) u.id (· = .running) := by
      intro x htx hxt hrunning
      obtain ⟨job, hjob, hrunning⟩ := hrunning
      have hlater := hsame (3 * m' + 2) (by omega) (by omega)
      rw [tableAt_states, ← hid, hjob'] at hlater
      have hnow := hsame x htx hxt
      rw [hjob, ← hid, ← hlater] at hnow
      cases hnow
      exact hstatus' hrunning
    have hgone : u.id ∉ (before maxJobs reads (m + 1)).running := by
      rw [hsucceeds.running]
      exact not_tracked_pushed h hread fun x htx hx => hrow x htx (by omega)
    have hnot : u.id ∉ (before maxJobs reads m').running := by
      refine not_tracked h hgone (by omega) ?_
      intro j hmj hjm jobs hjobs
      simp only [Reads.tables, List.mem_cons, List.not_mem_nil, or_false] at hjobs
      rcases hjobs with rfl | rfl | rfl
      · rw [← tableAt_changes]
        exact hrow _ (by omega) (by omega)
      · rw [← tableAt_running]
        exact hrow _ (by omega) (by omega)
      · rw [← tableAt_states]
        exact hrow _ (by omega) (by omega)
    rw [hid] at hchecked'
    exact hnot (mem_left.1 (List.mem_of_mem_take hchecked')).1

end Run

/-- Live updates lose nothing and repeat nothing over any polls in which what
goes wrong does not happen. -/
theorem live_updates_lossless {maxJobs : Nat} {reads : Nat → Reads} (h : Bounded maxJobs reads)
    (hclean : ∀ n, Clean (before maxJobs reads n) (reads n) (pushed maxJobs reads n).isSome) :
    Lossless maxJobs reads :=
  ⟨pushes_stopped h hclean, pushes_changes h hclean, pushes_once h hclean⟩

-- == single jobs

def plainMail : Job := Job.new 1 0 "mail" (.bool true)

/-- A poll that finds one job. -/
def plainReads (atChanges atStates : Job) (fails : Option Query) : Reads where
  connections := 1
  now := 10000000000
  atChanges := AList.singleton 1 atChanges
  atRunning := AList.singleton 1 atStates
  atStates := AList.singleton 1 atStates
  stats := []
  fails := fails

theorem lookup_one {id : JobId} {job job' : Job}
    (h : AList.lookup id (AList.singleton (1 : JobId) job : Jobs) = some job') :
    id = 1 ∧ job' = job := by
  have hmem := mem_entries_iff.2 h
  rw [show (AList.singleton (1 : JobId) job : Jobs).entries = [⟨1, job⟩] from rfl] at hmem
  cases List.mem_singleton.1 hmem
  exact ⟨rfl, rfl⟩

theorem bounded_plain (atChanges atStates : Nat → Job) (fails : Nat → Option Query) :
    Bounded 1 fun n => plainReads (atChanges n) (atStates n) (fails n) where
  connected := fun _ => Nat.one_ne_zero
  changes := fun _ => List.length_filter_le ..
  running := by
    intro n ids hnodup hids
    have hone : ∀ id ∈ ids, id = 1 := by
      intro id hid
      obtain ⟨jobs, hjobs, job, hjob, -⟩ := hids id hid
      simp only [Reads.tables, plainReads, List.mem_cons, List.not_mem_nil, or_false] at hjobs
      rcases hjobs with rfl | rfl | rfl <;> exact (lookup_one hjob).1
    cases ids with
    | nil => simp
    | cons id ids =>
        cases ids with
        | nil => simp
        | cons id' ids =>
            have hfirst := hone id (by simp)
            have hsecond := hone id' (by simp)
            simp [hfirst, hsecond] at hnodup

section Polls

open LiveUpdates

-- what a poll of one job does is computed
attribute [local simp] plainReads plainMail Job.new AList.singleton LiveUpdates.new pollOnce
  changes since pollOverlap recentJobChanges changedSince changeColumns runningJobs left leftRunning
  checked stopped stoppedRunning jobStates jobChange tracked freshChanges keepFresh changedQueues
  keepChanged Except.toOption

/-- A job that goes back to the queue without a timestamp. -/
def requeued (n : Nat) : Reads :=
  let job := if n = 0 then { plainMail with status := .running } else plainMail
  plainReads job job none

theorem requeued_bounded : Bounded 1 requeued :=
  bounded_plain _ _ _

theorem requeued_pushed (n : Nat) : (pushed 1 requeued n).isSome := by
  rcases poll_cases requeued_bounded.connected n with ⟨p, hp, -⟩ | ⟨hnone, -⟩
  · rw [hp]
    rfl
  · unfold pushed pollOnce at hnone
    simp [requeued, plainReads, Except.toOption] at hnone

theorem requeued_running (n : Nat) : (before 1 requeued (n + 2)).running = [] := by
  obtain ⟨p, hp⟩ := Option.isSome_iff_exists.1 (requeued_pushed (n + 1))
  rw [(succeeds_of_pushed requeued_bounded.connected hp).running]
  have hstopped : ∀ jobs ∈ (requeued (n + 1)).tables, ∀ id, ¬ HasStatus jobs id (· = .running) := by
    intro jobs hjobs id hrunning
    obtain ⟨job, hjob, hrunning⟩ := hrunning
    simp only [Reads.tables, requeued, plainReads, List.mem_cons, List.not_mem_nil,
      or_false] at hjobs
    rcases hjobs with rfl | rfl | rfl <;>
    · rw [(lookup_one hjob).2] at hrunning
      cases hrunning
  refine List.eq_nil_iff_forall_not_mem.2 fun id hid => ?_
  rcases mem_tracked.1 hid with ⟨u, hmem, rfl, hrunning⟩ | ⟨-, hrunning⟩ | hdrop
  · rcases ran_of_update hmem hrunning with hran | hran
    · exact hstopped _ (by simp [Reads.tables]) _ hran
    · exact hstopped _ (by simp [Reads.tables]) _ hran
  · exact hstopped _ (by simp [Reads.tables]) _ hrunning
  · rw [drop_left requeued_bounded] at hdrop
    cases hdrop

theorem live_updates_lossless_requeued : Lossless 1 requeued := by
  refine live_updates_lossless requeued_bounded fun n => ⟨?_, ?_, ?_, ?_, ?_⟩
  · intro hfails
    rw [requeued_pushed n] at hfails
    cases hfails
  · intro hfails
    cases hfails
  · intro _ hfails
    rw [requeued_pushed n] at hfails
    cases hfails
  · intro _ id _ job hjob _
    have hold : latestChange job ≤ 5000000000 := by
      rw [(lookup_one hjob).2]
      split <;> decide
    exact hold
  · intro _ u _ hid
    match n with
    | 0 => cases hid
    | 1 =>
        have hnone : (before 1 requeued 1).sent = ∅ := by
          simp [before, requeued]
          rfl
        rw [hnone]
        exact nofun
    | n + 2 =>
        rw [requeued_running n] at hid
        cases hid

/-- A job that goes back to the queue, found by a poll of which the last query
fails. -/
def lost (n : Nat) : Reads :=
  let job := if n = 0 then { plainMail with status := .running } else plainMail
  plainReads job job (if n = 1 then some .queueStats else none)

/-- A job that completes between the first and the last query of a poll. -/
def repeated (n : Nat) : Reads :=
  let running := { plainMail with status := .running }
  let completed := { plainMail with status := .completed, completedAt := some 9000000000 }
  plainReads (if n < 2 then running else completed) (if n = 0 then running else completed) none

/-- A job found stopped by a poll that then fails is not pushed, and one that
completes during a poll is pushed again by the next. -/
theorem updates_lost_and_repeated :
    (¬ ∀ maxJobs reads, Bounded maxJobs reads → PushesStopped maxJobs reads) ∧
      ¬ ∀ maxJobs reads, Bounded maxJobs reads → PushesOnce maxJobs reads := by
  constructor
  · intro h
    have hfound : jobChange 1 plainMail 10000000000 ∈ (before 1 lost 1).found (lost 1) := by
      simp [found, before, lost]
    have hseen : SeenRunning 1 lost 1 1 :=
      ⟨0, Nat.zero_lt_one, by simp [SeesRunning, before, lost],
        fun j hkj hjm => absurd hjm (by omega)⟩
    have hfails : FailsUntil 1 lost 1 2 := by
      intro j hle hlt
      obtain rfl : j = 1 := by omega
      simp [pushed, lost]
    have hthere : ∀ jobs ∈ (lost 2).tables, HasStatus jobs 1 (· ≠ .running) := by
      intro jobs hjobs
      simp only [Reads.tables, List.mem_cons, List.not_mem_nil, or_false] at hjobs
      rcases hjobs with rfl | rfl | rfl <;> exact ⟨plainMail, rfl, by decide⟩
    obtain ⟨p, hp, hnone⟩ : ∃ p, pushed 1 lost 2 = some p ∧ p.jobs = [] := by
      simp [pushed, before, lost]
    obtain ⟨u, hu, -⟩ :=
      (h 1 lost (bounded_plain _ _ _) 1 _ hfound hseen).2 2 p (by omega) hfails hp hthere
    rw [hnone] at hu
    cases hu
  · intro h
    let completed := { plainMail with status := .completed, completedAt := some 9000000000 }
    obtain ⟨p, hp, hjobs⟩ : ∃ p, pushed 1 repeated 1 = some p ∧
        jobChange 1 completed 10000000000 ∈ p.jobs := by
      simp [pushed, before, repeated, completed, JobUpdate.state, Table.lookup_retain]
    obtain ⟨p', hp', hjobs'⟩ : ∃ p, pushed 1 repeated 2 = some p ∧
        jobChange 1 completed (latestChange completed) ∈ p.jobs := by
      simp [pushed, before, repeated, completed, JobUpdate.state, Table.lookup_retain,
        latestChange]
    have hread : ReadAt 1 repeated 1 (jobChange 1 completed 10000000000) 5 := by
      refine .inr ⟨rfl, ?_⟩
      simp [before, repeated, completed]
    have hread' : ReadAt 1 repeated 2 (jobChange 1 completed (latestChange completed)) 6 := by
      refine .inl ⟨rfl, ?_⟩
      simp [before, repeated, completed]
    refine h 1 repeated (bounded_plain _ _ _) 1 2 p p' (by omega) (fun j hle hlt => by omega) hp hp'
      _ hjobs _ hjobs' rfl 5 6 hread hread' ?_
    intro x hle hlt
    obtain rfl | rfl : x = 5 ∨ x = 6 := by omega
    · rfl
    · rfl

end Polls

end Live

end Hammerwork
