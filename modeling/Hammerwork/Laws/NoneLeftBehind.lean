/-
Concurrent transactions on PostgreSQL leave no dependent behind.

Transactions that enqueue, claim, transition and archive jobs run with
their statements interleaved in any order. A job that waits is released
by the transaction that completes its last dependency, or failed by the
one that fails a dependency: the transaction that inserted it had its
dependencies locked, so each of them ended before, and was read, or ends
after the commit, and finds the job.

That rests on the rows of the dependencies being there to lock. A
dependency that its own transaction has not yet committed is not found,
by the lock nor in the archive, and the job is inserted to wait for it.
It may end before the job is committed (`dependent_left_behind`). The
theorem is about the runs in which every dependency is known when it is
looked up (`Phase.Informed`).
-/
import Hammerwork.Proofs.Updates
import Hammerwork.Machine

namespace Hammerwork

namespace Postgres

open ReadCommitted

/-- Every waiting job waits for a job that did not complete, and no
pending job depends on one that failed by its own transition or with a
dependency of its own, outside manual workflows. -/
structure NoneLeftBehind (env : Env) (db : JobId → Slot) : Prop where
  waits : ∀ k row, (db k).stored = some row → row.status = .pending →
    row.dependencyStatus = .waiting → ∃ d ∈ row.dependsOn, (db d).completed = false
  spared : ∀ k row, (db k).stored = some row → row.status = .pending →
    ∀ d ∈ row.dependsOn, ¬ (db d).Fails env

-- == runs

/-- No workflows, no batches, no recurring jobs. -/
def bareEnv : Env where
  policyOf _ := none
  modeOf _ := none
  nextRun _ _ := none

/-- The table in which only the parent job is stored, as `row`. -/
def onlyParent (row : Job) (ended : Option EndedBy) (k : JobId) : Slot :=
  if k = 1 then ⟨some row, none, ended⟩ else .empty

/-- The table with the dependent job next to the parent. -/
def withDependent (db : JobId → Slot) (k : JobId) : Slot :=
  if k = 2 then ⟨some dependentJob, none, none⟩ else db k

/-- The parent job as completed by hand. -/
def completedParent : Job := transitioned .none .completed 0 parentJob

variable {fine : (JobId → Slot) → Phase → Prop} {s : Tx} {db : JobId → Slot}

theorem externalDependencies_parent : externalDependencies [parentJob] = [] := by
  simp [externalDependencies, parentJob, Job.new]

theorem externalDependencies_dependent : externalDependencies [dependentJob] = [1] := by
  simp [externalDependencies, dependentJob, Job.new, Job.addDependsOn]

theorem dependentJob_arrives : dependentJob.Arrives := ⟨rfl, fun _ => nofun, fun _ => rfl⟩

theorem parentJob_arrives : parentJob.Arrives := ⟨rfl, nofun, fun h => absurd rfl h⟩

/-- The request of a transaction that enqueues the dependent job. -/
theorem request_enqueueDependent : Phase.request bareEnv (.enqueue [dependentJob] 0)
    = .scan (.whereRow .forShare fun id slot => [1].contains id && slot.stored.isSome)
        fun locked => .archivedParents [dependentJob] 0 locked := by
  simp [Phase.request, externalDependencies_dependent]

/-- The dependent job stays as it is when its parent did not finish. -/
theorem settle_dependent {parents : JobId → Option ParentState}
    (h : (parents 1).getD .unfinished = .unfinished) :
    settleNewDependents [dependentJob] parents 0 = ([dependentJob], []) := by
  have hstate : settledStateOf [dependentJob] parents 1 = .unfinished := h
  have hsettle : settleJob [dependentJob] parents 0 dependentJob = (dependentJob, false) := by
    have hdeps : dependentJob.dependsOn = [1] := rfl
    simp [settleJob, hdeps, hstate]
  simp [settleNewDependents, settleLoop, settlePass, hsettle]

/-- A transaction inserts a single job under a free id. -/
theorem insert_moves {job : Job} (hreq : s.phase.request bareEnv
      = .write ([job].map (·.id)) (insertRow [job] []) .finished)
    (hown : s.own = fun _ => none) (hscan : s.scan = none) (hfree : db job.id = .empty)
    (hfine : fine db s.phase) :
    ∃ b, Session.Moves (Phase.request bareEnv) fine db s b ∧ b.phase = .finished ∧
      b.scan = none ∧
      b.view db = fun k => if k = job.id then ⟨some job, none, none⟩ else db k := by
  have hview : s.view db = db := Untouched.view fun k => by rw [hown]
  have hnew : insertRow [job] [] job.id .empty = some ⟨some job, none, none⟩ := by
    simp [insertRow, Slot.empty]
  refine ⟨_, .single ⟨⟨_, _, .write hreq fun k hk => ?_⟩, by rwa [hview]⟩, rfl, hscan, ?_⟩
  · rw [List.mem_singleton.1 hk, hview]
    show (insertRow [job] [] job.id (db job.id)).isSome = true
    rw [hfree, hnew]
    rfl
  · funext k
    unfold Session.view
    by_cases hk : k = job.id
    · subst hk
      simp [hown, hfree, hnew]
    · simp [hown, hk]

/-- A transaction looks up the parent of the dependent job. -/
theorem read_moves {locked : List (JobId × Slot)}
    (hphase : s.phase = .archivedParents [dependentJob] 0 locked) (hown : s.own = fun _ => none)
    (hfine : fine db s.phase)
    (hstate : (parentStates bareEnv [1] locked db 1).getD .unfinished = .unfinished) :
    Session.Moves (Phase.request bareEnv) fine db s
      { s with phase := .insert [dependentJob] [] } := by
  have hview : s.view db = db := Untouched.view fun k => by rw [hown]
  have hread : Move (Phase.request bareEnv) db s [] .share _ := .read (by rw [hphase]; rfl)
  rw [hview, externalDependencies_dependent] at hread
  dsimp only at hread
  rw [settle_dependent hstate] at hread
  exact .single ⟨⟨_, _, hread⟩, by rwa [hview]⟩

/-- A transaction that completed the parent job finds nothing to release.
-/
theorem dependents_moves (hphase : s.phase = .dependents parentJob) (hscan : s.scan = none)
    (hview : s.view db = onlyParent completedParent (some .itself)) :
    Session.Moves (Phase.request bareEnv) Phase.InScope db s
      { s with phase := .finished, scan := none } := by
  have hreq : s.phase.request bareEnv
      = .scan (.whereRow .forUpdate fun _ slot => slot.stored.any (waitsFor 1))
        fun hits => if hits.isEmpty then .finished else .release (hits.map (·.1)) := by
    rw [hphase]
    rfl
  refine .findsNone hreq hscan (by rw [hphase]; exact trivial) fun k => ?_
  rw [hview]
  by_cases hk : k = 1
  · subst hk
    rfl
  · show ((onlyParent completedParent (some .itself) k).stored.any (waitsFor 1)) = false
    simp [onlyParent, hk, Slot.empty]

/-- A transaction completes the parent job by hand. -/
theorem complete_moves :
    ∃ b, Session.Moves (Phase.request bareEnv) Phase.InScope (onlyParent parentJob none)
        (.opened (.lockJob 1 (.manual .complete) .completed 0 0)) b ∧
      b.phase = .finished ∧ b.scan = none ∧
      b.view (onlyParent parentJob none) = onlyParent completedParent (some .itself) := by
  have hfinds : ∀ k, (decide (k = 1) && (onlyParent parentJob none k).stored.isSome)
      = decide (k = 1) := by
    intro k
    by_cases hk : k = 1
    · subst hk
      rfl
    · simp [hk]
  have hreq : Phase.request bareEnv (.lockJob 1 (.manual .complete) .completed 0 0)
      = .scan (.whereRow .forUpdate fun id slot => decide (id = 1) && slot.stored.isSome)
        (Phase.afterLock (.manual .complete) .completed 0 0) := rfl
  have hlock : Session.Moves (Phase.request bareEnv) Phase.InScope (onlyParent parentJob none)
      (.opened (.lockJob 1 (.manual .complete) .completed 0 0)) _ :=
    .findsOne 1 hreq rfl trivial (not_update_forUpdate _) hfinds rfl
  have hwrite := hlock.tail ⟨⟨[1], .exclusive, .write rfl fun k _ => rfl⟩, nofun⟩
  refine ⟨_, hwrite.trans (dependents_moves rfl rfl ?_), rfl, rfl, ?_⟩
  all_goals
    funext k
    by_cases hk : k = 1
    · subst hk
      rfl
    · simp [Session.view, onlyParent, Session.lock, Session.opened, hk]

/-- A transaction looks at the dependent job before its parent is there.
-/
theorem early_moves : Session.Moves (Phase.request bareEnv) Phase.InScope (fun _ => .empty)
    (.opened (.enqueue [dependentJob] 0)) (.opened (.insert [dependentJob] [])) := by
  have harrive : Phase.InScope (fun _ => .empty) (.enqueue [dependentJob] 0) := by
    intro job hjob
    rw [List.mem_singleton.1 hjob]
    exact ⟨dependentJob_arrives, rfl⟩
  have hlock : Session.Moves (Phase.request bareEnv) Phase.InScope (fun _ => .empty)
      (.opened (.enqueue [dependentJob] 0)) (.opened (.archivedParents [dependentJob] 0 [])) :=
    .findsNone (s := .opened (Phase.enqueue [dependentJob] 0)) request_enqueueDependent rfl
      harrive fun _ => Bool.and_false _
  exact hlock.trans (read_moves rfl rfl trivial rfl)

/-- No transaction but that of the dependent job is open, and it holds no
lock. -/
def waitingToInsert (db : JobId → Slot) : Database where
  committed := db
  sessions := Function.update (fun _ => none) 1 (some (.opened (.insert [dependentJob] [])))

theorem waitingToInsert_sessions {t : Nat} {other : Tx}
    (h : (waitingToInsert db).sessions t = some other) :
    t = 1 ∧ other = .opened (.insert [dependentJob] []) := by
  have h : Function.update (fun _ => none) 1 (some (.opened (.insert [dependentJob] []))) t
      = some other := h
  rcases update_sessions h with ⟨ht, h⟩ | ⟨-, h⟩
  · exact ⟨ht, (Option.some.inj h).symm⟩
  · cases h

theorem waitingToInsert_free (t : Nat) : (waitingToInsert db).Free t := by
  intro t' other _ h k
  rw [(waitingToInsert_sessions h).2]
  rfl

/-- The dependent job is looked at before its parent is enqueued, and
inserted after the parent completed. -/
theorem early_run : Runs (Phase.request bareEnv) Phase.Opens Phase.InScope Database.new
    (.idle (withDependent (onlyParent completedParent (some .itself)))) := by
  have hbegin : Runs (Phase.request bareEnv) Phase.Opens Phase.InScope Database.new
      (waitingToInsert fun _ => .empty) := by
    have hopens : Phase.Opens (.enqueue [dependentJob] 0) := trivial
    have hfree : Database.new.Free 1 := fun _ _ _ h => by cases h
    exact .opened rfl hopens hfree early_moves
  have hparent : Runs (Phase.request bareEnv) Phase.Opens Phase.InScope
      (waitingToInsert fun _ => .empty) (waitingToInsert (onlyParent parentJob none)) := by
    have hreq : Phase.request bareEnv (.enqueue [parentJob] 0)
        = .write ([parentJob].map (·.id)) (insertRow [parentJob] []) .finished := by
      simp [Phase.request, externalDependencies_parent]
    have harrive : Phase.InScope (fun _ => .empty) (.enqueue [parentJob] 0) := by
      intro job hjob
      rw [List.mem_singleton.1 hjob]
      exact ⟨parentJob_arrives, rfl⟩
    obtain ⟨b, hmoves, hphase, hscan, hview⟩ :=
      insert_moves (s := .opened (.enqueue [parentJob] 0)) hreq rfl rfl rfl harrive
    have hopens : Phase.Opens (.enqueue [parentJob] 0) := trivial
    refine .transaction (t := 0) rfl hopens (waitingToInsert_free 0) hmoves
      ⟨by rw [hphase]; rfl, hscan⟩ (by rw [hphase]; exact trivial) hview
  have hcomplete : Runs (Phase.request bareEnv) Phase.Opens Phase.InScope
      (waitingToInsert (onlyParent parentJob none))
      (waitingToInsert (onlyParent completedParent (some .itself))) := by
    obtain ⟨b, hmoves, hphase, hscan, hview⟩ := complete_moves
    have hopens : Phase.Opens (.lockJob 1 (.manual .complete) .completed 0 0) := trivial
    exact .transaction (t := 2) rfl hopens (waitingToInsert_free 2) hmoves
      ⟨by rw [hphase]; rfl, hscan⟩ (by rw [hphase]; exact trivial) hview
  have hinsert : Runs (Phase.request bareEnv) Phase.Opens Phase.InScope
      (waitingToInsert (onlyParent completedParent (some .itself)))
      (.idle (withDependent (onlyParent completedParent (some .itself)))) := by
    have hfree : Phase.InScope (onlyParent completedParent (some .itself))
        (.insert [dependentJob] []) := by
      intro job hjob
      rw [List.mem_singleton.1 hjob]
      rfl
    obtain ⟨b, hmoves, hphase, hscan, hview⟩ :=
      insert_moves (s := .opened (.insert [dependentJob] [])) rfl rfl rfl rfl hfree
    have hcommit : Runs (Phase.request bareEnv) Phase.Opens Phase.InScope
        (waitingToInsert (onlyParent completedParent (some .itself)))
        ⟨withDependent (onlyParent completedParent (some .itself)), _⟩ :=
      .committed (t := 1) rfl (waitingToInsert_free 1) hmoves ⟨by rw [hphase]; rfl, hscan⟩
        (by rw [hphase]; exact trivial) hview
    have hback : Function.update (waitingToInsert
        (onlyParent completedParent (some .itself))).sessions 1 none = fun _ => none := by
      unfold waitingToInsert
      dsimp only
      rw [Function.update_idem, Function.update_eq_self_iff]
    rwa [hback] at hcommit
  exact ((hbegin.trans hparent).trans hcomplete).trans hinsert

/-- The parent is enqueued in a new database. -/
theorem parent_run : Runs (Phase.request bareEnv) Phase.Opens Phase.Fine Database.new
    (.idle (onlyParent parentJob none)) := by
  have hreq : Phase.request bareEnv (.enqueue [parentJob] 0)
      = .write ([parentJob].map (·.id)) (insertRow [parentJob] []) .finished := by
    simp [Phase.request, externalDependencies_parent]
  have hfine : Phase.Fine (fun _ => .empty) (.enqueue [parentJob] 0) := by
    refine ⟨fun job hjob => ?_, trivial⟩
    rw [List.mem_singleton.1 hjob]
    exact ⟨parentJob_arrives, rfl⟩
  obtain ⟨b, hmoves, hphase, hscan, hview⟩ :=
    insert_moves (s := .opened (Phase.enqueue [parentJob] 0)) hreq rfl rfl rfl hfine
  have hopens : Phase.Opens (.enqueue [parentJob] 0) := trivial
  have hfree : Database.new.Free 0 := fun _ _ _ h => by cases h
  exact .transaction (t := 0) rfl hopens hfree hmoves ⟨by rw [hphase]; rfl, hscan⟩
    (by rw [hphase]; exact ⟨trivial, trivial⟩) hview

/-- Then the dependent job is, with the parent locked. -/
theorem dependent_run : Runs (Phase.request bareEnv) Phase.Opens Phase.Fine
    (.idle (onlyParent parentJob none) : Database)
    (.idle (withDependent (onlyParent parentJob none))) := by
  have hfinds : ∀ k, ([1].contains k && (onlyParent parentJob none k).stored.isSome)
      = decide (k = 1) := by
    intro k
    by_cases hk : k = 1
    · subst hk
      rfl
    · simp [hk]
  have hfine : Phase.Fine (onlyParent parentJob none) (.enqueue [dependentJob] 0) := by
    refine ⟨fun job hjob => ?_, trivial⟩
    rw [List.mem_singleton.1 hjob]
    exact ⟨dependentJob_arrives, rfl⟩
  have hlock : Session.Moves (Phase.request bareEnv) Phase.Fine (onlyParent parentJob none)
      (Session.opened (Phase.enqueue [dependentJob] 0)) _ :=
    .findsOne 1 request_enqueueDependent rfl hfine (not_update_forShare _) hfinds rfl
  -- the parent was locked, so it is known
  have hinformed : Phase.Fine (onlyParent parentJob none)
      (.archivedParents [dependentJob] 0 [(1, onlyParent parentJob none 1)]) := by
    refine ⟨trivial, fun d hd => .inl ?_⟩
    rwa [externalDependencies_dependent] at hd
  have hread := hlock.trans (read_moves rfl rfl hinformed rfl)
  have hfree : Phase.Fine (onlyParent parentJob none) (.insert [dependentJob] []) := by
    refine ⟨fun job hjob => ?_, trivial⟩
    rw [List.mem_singleton.1 hjob]
    rfl
  obtain ⟨b, hmoves, hphase, hscan, hview⟩ := insert_moves (s := { (Session.opened
    (Phase.enqueue [dependentJob] 0)).lock [1] .share with
      phase := .insert [dependentJob] [] }) rfl rfl rfl rfl hfree
  have hopens : Phase.Opens (.enqueue [dependentJob] 0) := trivial
  have hnobody : System.Free (.idle (onlyParent parentJob none) : Database) 1 :=
    fun _ _ _ h => by cases h
  exact .transaction (t := 1) rfl hopens hnobody (hread.trans hmoves)
    ⟨by rw [hphase]; rfl, hscan⟩ (by rw [hphase]; exact ⟨trivial, trivial⟩) hview

-- == the claim

/-- However the transactions are interleaved, what is committed leaves
no dependent behind, if every dependency was known when it was looked
up. -/
theorem no_dependent_left_behind (env : Env) (s : Database)
    (h : Runs (Phase.request env) Phase.Opens Phase.Fine Database.new s) :
    NoneLeftBehind env s.committed := by
  have hs := (outline env).runs h (System.Isolated.idle (Consistent.new env))
  refine ⟨fun k row hrow hpending hwaiting => ?_, hs.inv.spared⟩
  exact hs.inv.waits k row hrow ⟨hpending, hwaiting⟩

theorem no_dependent_left_behind_dependentJob :
    NoneLeftBehind bareEnv (withDependent (onlyParent parentJob none)) :=
  no_dependent_left_behind bareEnv (.idle (withDependent (onlyParent parentJob none)))
    (parent_run.trans dependent_run)

/-- The dependency has to be known when it is looked up: here the
dependent job is looked at before its parent is enqueued, and inserted
after the parent completed. -/
theorem dependent_left_behind :
    ¬ ∀ (env : Env) (s : Database),
      Runs (Phase.request env) Phase.Opens Phase.InScope Database.new s →
      (∀ t, s.sessions t = none) → NoneLeftBehind env s.committed := by
  intro h
  have hleft := h bareEnv _ early_run fun _ => rfl
  obtain ⟨d, hd, hopen⟩ := hleft.waits 2 dependentJob rfl rfl rfl
  rw [List.mem_singleton.1 hd] at hopen
  cases hopen

end Postgres

end Hammerwork
