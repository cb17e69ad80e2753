/-
Transactions at READ COMMITTED, with row locks.

A table gives every key the version of its row that was committed last.
A transaction sees the committed versions with its own writes over them
(`Session.view`); its writes reach the others when it commits.

# Statements

A statement finds rows in a snapshot, taken when it starts, and goes
through them one by one, in any order. Each row is locked first, which
waits while another transaction holds a conflicting lock; then the
statement judges the version the row has by now, and passes the row over
if it is no longer wanted. Locks are held to the end of the transaction.
A plain read takes no locks, and a write by key waits for the locks of
its rows. A transaction can be rolled back at any time, so a deadlock is
one of the rollbacks.

# Reasoning

Locks exclude one another (`Move.apart`), so what a transaction read
under a lock stays as it was until the transaction ends (`view_of_held`).
`Outline` is the rule that follows: an invariant of the committed table
and an assertion about each open transaction hold along every run, if
each transaction's own steps keep its assertion, its commit keeps the
invariant, and its assertion survives the commit of any other
transaction whose assertion holds as well.
-/
import Mathlib.Logic.Function.Basic
import Mathlib.Logic.Relation

namespace ReadCommitted

variable {τ κ ρ φ : Type _}

-- == locks

/-- The two modes of a row lock. -/
inductive LockMode where
  | share
  | exclusive
  deriving DecidableEq

/-- Whether a lock of the mode can be granted beside what another
transaction holds on the row. -/
def compatible : Option LockMode → LockMode → Bool
  | none, _ => true
  | some .share, .share => true
  | _, _ => false

/-- What is held on a row after a lock of the mode was granted. -/
def strengthen : Option LockMode → LockMode → LockMode
  | some .exclusive, _ => .exclusive
  | _, mode => mode

-- == statements

/-- What a statement does with the rows it goes through. -/
inductive Access (ρ : Type _) where
  | forShare
  | forUpdate
  | update (set : ρ → ρ)

/-- The lock the access takes. -/
def Access.mode : Access ρ → LockMode
  | forShare => .share
  | forUpdate | update _ => .exclusive

/-- A statement that locks rows: the rows it finds in its snapshot, and
the newer versions of them it still wants. -/
structure Statement (κ ρ : Type _) where
  access : Access ρ
  finds : (κ → ρ) → κ → Bool
  keeps : κ → ρ → Bool
  skipLocked : Bool
  limit : Option Nat

/-- A statement whose condition is about the row alone. -/
def Statement.whereRow (access : Access ρ) (p : κ → ρ → Bool) : Statement κ ρ where
  access := access
  finds view k := p k (view k)
  keeps := p
  skipLocked := false
  limit := none

/-- Whether the statement has all the rows it was limited to. -/
def Statement.isFull (stmt : Statement κ ρ) (hits : List (κ × ρ)) : Bool :=
  stmt.limit.any (· ≤ hits.length)

/-- What a transaction asks of the database next. `write` gives rows a
new version by key, all or none of them; `error` is a transaction that
can only be rolled back. -/
inductive Request (κ ρ φ : Type _) where
  | scan (stmt : Statement κ ρ) (next : List (κ × ρ) → φ)
  | read (next : (κ → ρ) → φ)
  | write (rows : List κ) (set : κ → ρ → Option ρ) (next : φ)
  | done
  | error

-- == sessions

/-- A statement under way: the rows still to visit, and those taken so
far with the version that was taken. -/
structure Scan (κ ρ : Type _) where
  todo : κ → Bool
  hits : List (κ × ρ)

/-- An open transaction. -/
structure Session (κ ρ φ : Type _) where
  own : κ → Option ρ
  held : κ → Option LockMode
  phase : φ
  scan : Option (Scan κ ρ)

/-- A transaction that has done nothing yet. -/
def Session.opened (phase : φ) : Session κ ρ φ where
  own _ := none
  held _ := none
  phase := phase
  scan := none

/-- The table as the transaction sees it. -/
def Session.view (s : Session κ ρ φ) (db : κ → ρ) (k : κ) : ρ := (s.own k).getD (db k)

/-- A transaction at its end, about to commit. -/
def Session.Committing (request : φ → Request κ ρ φ) (s : Session κ ρ φ) : Prop :=
  request s.phase = .done ∧ s.scan = none

section Move

variable [DecidableEq κ]

/-- The transaction with locks granted on `rows`. -/
def Session.lock (s : Session κ ρ φ) (rows : List κ) (mode : LockMode) : Session κ ρ φ :=
  { s with held := fun k => if k ∈ rows then some (strengthen (s.held k) mode) else s.held k }

/-- The scan without the row `k`. -/
def Scan.drop (scan : Scan κ ρ) (k : κ) : Scan κ ρ :=
  { scan with todo := fun k' => if k' = k then false else scan.todo k' }

/-- The scan with the row `k` taken. -/
def Scan.take (scan : Scan κ ρ) (k : κ) (version : ρ) : Scan κ ρ where
  todo := (scan.drop k).todo
  hits := scan.hits ++ [(k, version)]

@[simp] theorem Scan.todo_drop {scan : Scan κ ρ} {k x : κ} :
    (scan.drop k).todo x = true ↔ x ≠ k ∧ scan.todo x = true := by
  simp [Scan.drop]

@[simp] theorem Scan.todo_take {scan : Scan κ ρ} {k x : κ} {version : ρ} :
    (scan.take k version).todo x = true ↔ x ≠ k ∧ scan.todo x = true :=
  Scan.todo_drop

@[simp] theorem Scan.hits_take (scan : Scan κ ρ) (k : κ) (version : ρ) :
    (scan.take k version).hits = scan.hits ++ [(k, version)] := rfl

theorem Scan.mem_hits_take {scan : Scan κ ρ} {k x : κ} {version : ρ} :
    x ∈ (scan.take k version).hits.map (·.1) ↔ x ∈ scan.hits.map (·.1) ∨ x = k := by
  rw [Scan.hits_take, List.map_append, List.mem_append, List.map_singleton, List.mem_singleton]

/-- The transaction's writes after a statement went over the row `k`. -/
def Access.written (access : Access ρ) (s : Session κ ρ φ) (k : κ) (version : ρ) :
    κ → Option ρ :=
  match access with
  | forShare | forUpdate => s.own
  | update set => fun k' => if k' = k then some (set version) else s.own k'

/-- One step of a transaction by itself, over the committed table `db`,
and the locks it has to be granted for it. -/
inductive Move (request : φ → Request κ ρ φ) (db : κ → ρ) (s : Session κ ρ φ) :
    List κ → LockMode → Session κ ρ φ → Prop
  | start {stmt : Statement κ ρ} {next : List (κ × ρ) → φ} :
      request s.phase = .scan stmt next → s.scan = none →
      Move request db s [] .share { s with scan := some ⟨stmt.finds (s.view db), []⟩ }
  | hit {stmt : Statement κ ρ} {next : List (κ × ρ) → φ} {scan : Scan κ ρ} {k : κ} :
      request s.phase = .scan stmt next → s.scan = some scan → scan.todo k = true →
      stmt.keeps k (s.view db k) = true →
      Move request db s [k] stmt.access.mode
        { s.lock [k] stmt.access.mode with
          own := stmt.access.written s k (s.view db k)
          scan := some (scan.take k (s.view db k)) }
  | miss {stmt : Statement κ ρ} {next : List (κ × ρ) → φ} {scan : Scan κ ρ} {k : κ} :
      request s.phase = .scan stmt next → s.scan = some scan → scan.todo k = true →
      stmt.keeps k (s.view db k) = false →
      Move request db s [] .share { s with scan := some (scan.drop k) }
  | skip {stmt : Statement κ ρ} {next : List (κ × ρ) → φ} {scan : Scan κ ρ} {k : κ} :
      request s.phase = .scan stmt next → s.scan = some scan → scan.todo k = true →
      stmt.skipLocked = true →
      Move request db s [] .share { s with scan := some (scan.drop k) }
  | finish {stmt : Statement κ ρ} {next : List (κ × ρ) → φ} {scan : Scan κ ρ} :
      request s.phase = .scan stmt next → s.scan = some scan →
      (∀ k, scan.todo k = false) ∨ stmt.isFull scan.hits = true →
      Move request db s [] .share { s with phase := next scan.hits, scan := none }
  | read {next : (κ → ρ) → φ} :
      request s.phase = .read next →
      Move request db s [] .share { s with phase := next (s.view db) }
  | write {rows : List κ} {set : κ → ρ → Option ρ} {next : φ} :
      request s.phase = .write rows set next →
      (∀ k ∈ rows, (set k (s.view db k)).isSome = true) →
      Move request db s rows .exclusive
        { s.lock rows .exclusive with
          own := fun k => if k ∈ rows then set k (s.view db k) else s.own k
          phase := next }

end Move

-- == systems

/-- The committed table and the open transactions. -/
structure System (τ κ ρ φ : Type _) where
  committed : κ → ρ
  sessions : τ → Option (Session κ ρ φ)

/-- A database nobody is connected to. -/
def System.idle (db : κ → ρ) : System τ κ ρ φ where
  committed := db
  sessions _ := none

/-- No other transaction holds a conflicting lock on one of the rows. -/
def System.Grants (s : System τ κ ρ φ) (t : τ) (rows : List κ) (mode : LockMode) : Prop :=
  ∀ t' session, t' ≠ t → s.sessions t' = some session →
    ∀ k ∈ rows, compatible (session.held k) mode = true

section Step

variable [DecidableEq τ] [DecidableEq κ]

/-- One step of the transaction `t`. -/
inductive Step (request : φ → Request κ ρ φ) (opens : φ → Prop) (s : System τ κ ρ φ) (t : τ) :
    System τ κ ρ φ → Prop
  | begin {phase : φ} : s.sessions t = none → opens phase →
      Step request opens s t
        { s with sessions := Function.update s.sessions t (some (.opened phase)) }
  | move {session session' : Session κ ρ φ} {rows : List κ} {mode : LockMode} :
      s.sessions t = some session → Move request s.committed session rows mode session' →
      s.Grants t rows mode →
      Step request opens s t
        { s with sessions := Function.update s.sessions t (some session') }
  | commit {session : Session κ ρ φ} :
      s.sessions t = some session → session.Committing request →
      Step request opens s t
        { committed := session.view s.committed
          sessions := Function.update s.sessions t none }
  | rollback {session : Session κ ρ φ} : s.sessions t = some session →
      Step request opens s t { s with sessions := Function.update s.sessions t none }

/-- The run's condition on a step of `t`: what it demands of the
transaction's view and phase before the step. -/
def System.Meets (fine : (κ → ρ) → φ → Prop) (s : System τ κ ρ φ) (t : τ) : Prop :=
  ∀ session, s.sessions t = some session → fine (session.view s.committed) session.phase

/-- Runs, by steps of any of the transactions, each meeting the
condition. -/
def Runs (request : φ → Request κ ρ φ) (opens : φ → Prop) (fine : (κ → ρ) → φ → Prop) :
    System τ κ ρ φ → System τ κ ρ φ → Prop :=
  Relation.ReflTransGen fun s s' => ∃ t, Step request opens s t s' ∧ s.Meets fine t

/-- Steps of a transaction by itself, each meeting the condition. -/
def Session.Moves (request : φ → Request κ ρ φ) (fine : (κ → ρ) → φ → Prop) (db : κ → ρ) :
    Session κ ρ φ → Session κ ρ φ → Prop :=
  Relation.ReflTransGen fun s s' =>
    (∃ rows mode, Move request db s rows mode s') ∧ fine (s.view db) s.phase

/-- A statement that finds no rows. -/
theorem Session.Moves.findsNone {request : φ → Request κ ρ φ} {fine : (κ → ρ) → φ → Prop}
    {db : κ → ρ} {s : Session κ ρ φ} {stmt : Statement κ ρ} {next : List (κ × ρ) → φ}
    (hreq : request s.phase = .scan stmt next) (hscan : s.scan = none)
    (hfine : fine (s.view db) s.phase) (hnone : ∀ k, stmt.finds (s.view db) k = false) :
    Session.Moves request fine db s { s with phase := next [], scan := none } := by
  have hstart : Session.Moves request fine db s
      { s with scan := some ⟨stmt.finds (s.view db), []⟩ } :=
    .single ⟨⟨_, _, .start hreq hscan⟩, hfine⟩
  have hfinish : Move request db { s with scan := some ⟨stmt.finds (s.view db), []⟩ } [] .share
      { s with phase := next [], scan := none } :=
    .finish (s := { s with scan := some ⟨stmt.finds (s.view db), []⟩ }) hreq rfl (.inl hnone)
  exact hstart.tail ⟨⟨_, _, hfinish⟩, hfine⟩

/-- A `SELECT` that finds and locks one row. -/
theorem Session.Moves.findsOne {request : φ → Request κ ρ φ} {fine : (κ → ρ) → φ → Prop}
    {db : κ → ρ} {s : Session κ ρ φ} {stmt : Statement κ ρ} {next : List (κ × ρ) → φ} (k : κ)
    (hreq : request s.phase = .scan stmt next) (hscan : s.scan = none)
    (hfine : fine (s.view db) s.phase) (hselect : ∀ set, stmt.access ≠ .update set)
    (hfinds : ∀ k', stmt.finds (s.view db) k' = decide (k' = k))
    (hkeeps : stmt.keeps k (s.view db k) = true) :
    Session.Moves request fine db s { s.lock [k] stmt.access.mode with
      phase := next [(k, s.view db k)], scan := none } := by
  have hown : stmt.access.written { s with scan := some ⟨stmt.finds (s.view db), []⟩ } k
      (s.view db k) = s.own := by
    cases haccess : stmt.access with
    | forShare | forUpdate => rfl
    | update set => exact absurd haccess (hselect set)
  have hstart : Session.Moves request fine db s
      { s with scan := some ⟨stmt.finds (s.view db), []⟩ } :=
    .single ⟨⟨_, _, .start hreq hscan⟩, hfine⟩
  have hhit : Move request db { s with scan := some ⟨stmt.finds (s.view db), []⟩ } [k]
      stmt.access.mode { s.lock [k] stmt.access.mode with
        own := stmt.access.written { s with scan := some ⟨stmt.finds (s.view db), []⟩ } k
          (s.view db k)
        scan := some (Scan.take ⟨stmt.finds (s.view db), []⟩ k (s.view db k)) } :=
    .hit (s := { s with scan := some ⟨stmt.finds (s.view db), []⟩ }) hreq rfl
      (by simp [hfinds]) hkeeps
  rw [hown] at hhit
  have hfinish : Move request db { s.lock [k] stmt.access.mode with
      scan := some (Scan.take ⟨stmt.finds (s.view db), []⟩ k (s.view db k)) } [] .share
      { s.lock [k] stmt.access.mode with phase := next [(k, s.view db k)], scan := none } := by
    refine .finish (s := { s.lock [k] stmt.access.mode with
      scan := some (Scan.take ⟨stmt.finds (s.view db), []⟩ k (s.view db k)) }) hreq rfl
      (.inl fun k' => ?_)
    show (if k' = k then false else stmt.finds (s.view db) k') = false
    rw [hfinds]
    split
    · rfl
    · simpa
  exact (hstart.tail ⟨⟨_, _, hhit⟩, hfine⟩).tail ⟨⟨_, _, hfinish⟩, hfine⟩

/-- No transaction but `t` holds a lock. -/
def System.Free (s : System τ κ ρ φ) (t : τ) : Prop :=
  ∀ t' other, t' ≠ t → s.sessions t' = some other → ∀ k, other.held k = none

/-- A transaction takes several steps while no other one holds a lock.
-/
theorem Runs.alone {request : φ → Request κ ρ φ} {opens : φ → Prop} {fine : (κ → ρ) → φ → Prop}
    {s : System τ κ ρ φ} {t : τ} {a b : Session κ ρ φ} (hs : s.sessions t = some a)
    (hfree : s.Free t) (h : Session.Moves request fine s.committed a b) :
    Runs request opens fine s { s with sessions := Function.update s.sessions t (some b) } := by
  induction h with
  | refl =>
      have hsame : Function.update s.sessions t (some a) = s.sessions := by
        rw [← hs, Function.update_eq_self]
      rw [hsame]
      exact .refl
  | tail _ hmove ih =>
      rename_i mid after _
      obtain ⟨⟨rows, mode, hmove⟩, hfine⟩ := hmove
      have hmid : Function.update s.sessions t (some mid) t = some mid :=
        Function.update_self t (some mid) s.sessions
      refine ih.tail ⟨t, ?_, fun session hsession => ?_⟩
      · have hgrants : System.Grants ⟨s.committed, Function.update s.sessions t (some mid)⟩
            t rows mode := by
          intro t' other ht' hother k _
          have hother : Function.update s.sessions t (some mid) t' = some other := hother
          rw [Function.update_of_ne ht'] at hother
          rw [hfree t' other ht' hother k]
          rfl
        have hstep : Step request opens ⟨s.committed, Function.update s.sessions t (some mid)⟩ t
            ⟨s.committed, Function.update (Function.update s.sessions t (some mid)) t
              (some after)⟩ := .move hmid hmove hgrants
        rwa [Function.update_idem] at hstep
      · cases hmid.symm.trans hsession
        exact hfine

/-- A transaction begins. -/
theorem Runs.begun {request : φ → Request κ ρ φ} {opens : φ → Prop} {fine : (κ → ρ) → φ → Prop}
    {s : System τ κ ρ φ} {t : τ} {phase : φ} (hs : s.sessions t = none) (hopens : opens phase)
    (hfree : s.Free t) :
    Runs request opens fine s
        ⟨s.committed, Function.update s.sessions t (some (.opened phase))⟩ ∧
      Function.update s.sessions t (some (.opened phase)) t = some (.opened phase) ∧
      System.Free ⟨s.committed, Function.update s.sessions t (some (.opened phase))⟩ t := by
  refine ⟨.single ⟨t, .begin hs hopens, fun session hsession => ?_⟩,
    Function.update_self t _ s.sessions, fun t' other ht' hother => ?_⟩
  · cases hs.symm.trans hsession
  · have hother : Function.update s.sessions t _ t' = some other := hother
    rw [Function.update_of_ne ht'] at hother
    exact hfree t' other ht' hother

/-- A transaction begins and takes its first steps. -/
theorem Runs.opened {request : φ → Request κ ρ φ} {opens : φ → Prop} {fine : (κ → ρ) → φ → Prop}
    {s : System τ κ ρ φ} {t : τ} {phase : φ} {b : Session κ ρ φ} (hs : s.sessions t = none)
    (hopens : opens phase) (hfree : s.Free t)
    (h : Session.Moves request fine s.committed (.opened phase) b) :
    Runs request opens fine s { s with sessions := Function.update s.sessions t (some b) } := by
  obtain ⟨hbegin, hself, hfree'⟩ : Runs request opens fine s _ ∧ _ ∧ _ :=
    Runs.begun hs hopens hfree
  have halone : Runs request opens fine _ _ := .alone hself hfree' h
  dsimp only at halone
  rw [Function.update_idem] at halone
  exact hbegin.trans halone

/-- A transaction takes its last steps and commits, while no other one
holds a lock. -/
theorem Runs.committed {request : φ → Request κ ρ φ} {opens : φ → Prop}
    {fine : (κ → ρ) → φ → Prop} {s : System τ κ ρ φ} {t : τ} {a b : Session κ ρ φ} {db : κ → ρ}
    (hs : s.sessions t = some a) (hfree : s.Free t)
    (h : Session.Moves request fine s.committed a b) (hdone : b.Committing request)
    (hfine : fine (b.view s.committed) b.phase) (hdb : b.view s.committed = db) :
    Runs request opens fine s ⟨db, Function.update s.sessions t none⟩ := by
  have hself : Function.update s.sessions t (some b) t = some b :=
    Function.update_self t _ s.sessions
  have hcommit : Step request opens ⟨s.committed, Function.update s.sessions t (some b)⟩ t
      ⟨b.view s.committed, Function.update (Function.update s.sessions t (some b)) t none⟩ :=
    .commit hself hdone
  rw [Function.update_idem, hdb] at hcommit
  refine (Runs.alone hs hfree h).tail ⟨t, hcommit, fun session hsession => ?_⟩
  cases hself.symm.trans hsession
  exact hfine

/-- A whole transaction runs while no other one holds a lock. -/
theorem Runs.transaction {request : φ → Request κ ρ φ} {opens : φ → Prop}
    {fine : (κ → ρ) → φ → Prop} {s : System τ κ ρ φ} {t : τ} {phase : φ} {b : Session κ ρ φ}
    {db : κ → ρ} (hs : s.sessions t = none) (hopens : opens phase) (hfree : s.Free t)
    (h : Session.Moves request fine s.committed (.opened phase) b)
    (hdone : b.Committing request) (hfine : fine (b.view s.committed) b.phase)
    (hdb : b.view s.committed = db) : Runs request opens fine s { s with committed := db } := by
  obtain ⟨hbegin, hself, hfree'⟩ : Runs request opens fine s _ ∧ _ ∧ _ :=
    Runs.begun hs hopens hfree
  have hcommit : Runs request opens fine _ _ := .committed hself hfree' h hdone hfine hdb
  have hback : Function.update s.sessions t none = s.sessions := by
    rw [← hs, Function.update_eq_self]
  dsimp only at hcommit
  rw [Function.update_idem, hback] at hcommit
  exact hbegin.trans hcommit

end Step

-- == locks exclude

/-- Rows the transaction wrote are locked by it. -/
def Session.Guarded (s : Session κ ρ φ) : Prop :=
  ∀ k, s.own k ≠ none → s.held k = some .exclusive

/-- Where one of the transactions has an exclusive lock, the other has
none. -/
def Apart (a b : Session κ ρ φ) : Prop :=
  ∀ k, (a.held k = some .exclusive → b.held k = none) ∧
    (b.held k = some .exclusive → a.held k = none)

theorem Apart.symm {a b : Session κ ρ φ} (h : Apart a b) : Apart b a :=
  fun k => ⟨(h k).2, (h k).1⟩

/-- A row that a transaction holds a lock on is not written by another. -/
theorem Apart.own_of_held {a b : Session κ ρ φ} (h : Apart a b) (hb : b.Guarded) {k : κ}
    (hk : a.held k ≠ none) : b.own k = none := by
  by_contra hown
  exact hk ((h k).2 (hb k hown))

/-- The commit of another transaction leaves it as it is. -/
theorem view_of_held {a b : Session κ ρ φ} (h : Apart a b) (hb : b.Guarded) (db : κ → ρ)
    {k : κ} (hk : a.held k ≠ none) : b.view db k = db k := by
  unfold Session.view
  rw [h.own_of_held hb hk]
  rfl

theorem view_of_own {s : Session κ ρ φ} {db : κ → ρ} {k : κ} {v : ρ} (h : s.own k = some v) :
    s.view db k = v := by
  unfold Session.view
  rw [h]
  rfl

theorem view_of_not_own {s : Session κ ρ φ} {db : κ → ρ} {k : κ} (h : s.own k = none) :
    s.view db k = db k := by
  unfold Session.view
  rw [h]
  rfl

theorem view_congr {s s' : Session κ ρ φ} (h : s'.own = s.own) (db : κ → ρ) :
    s'.view db = s.view db := by
  unfold Session.view
  rw [h]

/-- A transaction goes on seeing the rows it holds as it saw them. -/
theorem view_stable {a b : Session κ ρ φ} (h : Apart a b) (hb : b.Guarded) (db : κ → ρ)
    {k : κ} (hk : a.held k ≠ none) : a.view (b.view db) k = a.view db k := by
  unfold Session.view
  rw [h.own_of_held hb hk]
  rfl

theorem strengthen_exclusive (held : Option LockMode) :
    strengthen held .exclusive = .exclusive := by
  cases held with
  | none => rfl
  | some mode => cases mode <;> rfl

/-- A lock that became exclusive was so before or was asked for so. -/
theorem strengthen_eq_exclusive {held : Option LockMode} {mode : LockMode}
    (h : strengthen held mode = .exclusive) : held = some .exclusive ∨ mode = .exclusive := by
  cases held with
  | none => exact .inr h
  | some m =>
      cases m with
      | share => exact .inr h
      | exclusive => exact .inl rfl

section Isolation

variable [DecidableEq κ] {request : φ → Request κ ρ φ} {db : κ → ρ}
  {s s' : Session κ ρ φ} {rows : List κ} {mode : LockMode}

theorem Session.lock_held (s : Session κ ρ φ) (rows : List κ) (mode : LockMode) (k : κ) :
    (s.lock rows mode).held k
      = if k ∈ rows then some (strengthen (s.held k) mode) else s.held k := rfl

/-- A step keeps what is held, and adds the locks it was granted. -/
theorem Move.held_eq (h : Move request db s rows mode s') :
    s'.held = (s.lock rows mode).held := by
  cases h <;> rfl

theorem Move.held_mono (h : Move request db s rows mode s') {k : κ} (hk : s.held k ≠ none) :
    s'.held k ≠ none := by
  rw [h.held_eq, Session.lock_held]
  split
  · simp
  · exact hk

theorem Move.exclusive_mono (h : Move request db s rows mode s') {k : κ}
    (hk : s.held k = some .exclusive) : s'.held k = some .exclusive := by
  rw [h.held_eq, Session.lock_held, hk]
  split <;> rfl

theorem Move.guarded (h : Move request db s rows mode s') (hs : s.Guarded) : s'.Guarded := by
  intro k hown
  cases h with
  | start | miss | skip | finish | read => exact hs k hown
  | hit hreq hscan htodo hkeeps =>
      rename_i stmt next scan k₀
      show (s.lock [k₀] _).held k = _
      rw [Session.lock_held]
      have hown : stmt.access.written s k₀ (s.view db k₀) k ≠ none := hown
      cases haccess : stmt.access with
      | forShare =>
          rw [haccess] at hown
          rw [hs k hown]
          split <;> rfl
      | forUpdate =>
          rw [haccess] at hown
          rw [hs k hown]
          split <;> rfl
      | update set =>
          rw [haccess] at hown
          by_cases hk : k ∈ [k₀]
          · rw [if_pos hk]
            exact congrArg some (strengthen_exclusive _)
          · rw [if_neg hk]
            refine hs k ?_
            have hk : k ≠ k₀ := fun h => hk (List.mem_singleton.2 h)
            simpa [Access.written, hk] using hown
  | write hreq hset =>
      show (s.lock rows _).held k = _
      rw [Session.lock_held]
      by_cases hk : k ∈ rows
      · rw [if_pos hk, strengthen_exclusive]
      · rw [if_neg hk]
        refine hs k ?_
        simpa [hk] using hown

/-- Two transactions stay apart when one of them is granted locks. -/
theorem Move.apart {other : Session κ ρ φ} (h : Move request db s rows mode s')
    (hgrants : ∀ k ∈ rows, compatible (other.held k) mode = true) (hs : Apart s other) :
    Apart s' other := by
  intro k
  rw [h.held_eq, Session.lock_held]
  by_cases hk : k ∈ rows
  · rw [if_pos hk]
    have hgranted := hgrants k hk
    constructor
    · intro hex
      rcases strengthen_eq_exclusive (Option.some.inj hex) with hheld | hmode
      · exact (hs k).1 hheld
      · rw [hmode] at hgranted
        cases hother : other.held k with
        | none => rfl
        | some m =>
            rw [hother] at hgranted
            cases m <;> cases hgranted
    · intro hother
      rw [hother] at hgranted
      cases mode <;> cases hgranted
  · rw [if_neg hk]
    exact hs k

end Isolation

-- == moves by request

section Requests

variable [DecidableEq κ] {request : φ → Request κ ρ φ} {db : κ → ρ}
  {s s' other : Session κ ρ φ} {rows : List κ} {mode : LockMode}

/-- The steps of a transaction whose next statement goes over rows. -/
theorem Move.of_scan (h : Move request db s rows mode s') {stmt : Statement κ ρ}
    {next : List (κ × ρ) → φ} (hreq : request s.phase = .scan stmt next) :
    (s.scan = none ∧ s' = { s with scan := some ⟨stmt.finds (s.view db), []⟩ }) ∨
      (∃ scan k, s.scan = some scan ∧ scan.todo k = true ∧ stmt.keeps k (s.view db k) = true ∧
        s' = { s.lock [k] stmt.access.mode with
          own := stmt.access.written s k (s.view db k)
          scan := some (scan.take k (s.view db k)) }) ∨
      (∃ scan k, s.scan = some scan ∧ scan.todo k = true ∧
        (stmt.keeps k (s.view db k) = false ∨ stmt.skipLocked = true) ∧
        s' = { s with scan := some (scan.drop k) }) ∨
      (∃ scan, s.scan = some scan ∧
        ((∀ k, scan.todo k = false) ∨ stmt.isFull scan.hits = true) ∧
        s' = { s with phase := next scan.hits, scan := none }) := by
  cases h with
  | start h hnone =>
      cases hreq.symm.trans h
      exact .inl ⟨hnone, rfl⟩
  | hit h hscan htodo hkeeps =>
      cases hreq.symm.trans h
      exact .inr (.inl ⟨_, _, hscan, htodo, hkeeps, rfl⟩)
  | miss h hscan htodo hkeeps =>
      cases hreq.symm.trans h
      exact .inr (.inr (.inl ⟨_, _, hscan, htodo, .inl hkeeps, rfl⟩))
  | skip h hscan htodo hskip =>
      cases hreq.symm.trans h
      exact .inr (.inr (.inl ⟨_, _, hscan, htodo, .inr hskip, rfl⟩))
  | finish h hscan hdone =>
      cases hreq.symm.trans h
      exact .inr (.inr (.inr ⟨_, hscan, hdone, rfl⟩))
  | read h => cases hreq.symm.trans h
  | write h _ => cases hreq.symm.trans h

/-- The step of a transaction that reads. -/
theorem Move.of_read (h : Move request db s rows mode s') {next : (κ → ρ) → φ}
    (hreq : request s.phase = .read next) : s' = { s with phase := next (s.view db) } := by
  cases h with
  | read h =>
      cases hreq.symm.trans h
      rfl
  | start h | hit h | miss h | skip h | finish h | write h => cases hreq.symm.trans h

/-- The step of a transaction that writes by key. -/
theorem Move.of_write (h : Move request db s rows mode s') {keys : List κ}
    {set : κ → ρ → Option ρ} {next : φ} (hreq : request s.phase = .write keys set next) :
    (∀ k ∈ keys, (set k (s.view db k)).isSome = true) ∧
      (∀ k, s'.own k = if k ∈ keys then set k (s.view db k) else s.own k) ∧
      (∀ k ∈ keys, s'.held k = some .exclusive) ∧ s'.phase = next ∧ s'.scan = s.scan := by
  cases h with
  | write h hset =>
      cases hreq.symm.trans h
      refine ⟨hset, fun _ => rfl, fun k hk => ?_, rfl, rfl⟩
      show (s.lock rows .exclusive).held k = _
      rw [Session.lock_held, if_pos hk, strengthen_exclusive]
  | start h | hit h | miss h | skip h | finish h | read h => cases hreq.symm.trans h

/-- A transaction that committed or failed takes no more steps. -/
theorem Move.not_of_end (h : Move request db s rows mode s')
    (hreq : request s.phase = .done ∨ request s.phase = .error) : False := by
  cases h with
  | start h | hit h | miss h | skip h | finish h | read h | write h =>
      rcases hreq with hreq | hreq <;> cases hreq.symm.trans h

/-- A lock of the mode, or a stronger one. -/
def Session.Holds (s : Session κ ρ φ) (k : κ) : LockMode → Prop
  | .share => s.held k ≠ none
  | .exclusive => s.held k = some .exclusive

omit [DecidableEq κ] in
theorem Session.Holds.held {s : Session κ ρ φ} {k : κ} {mode : LockMode} (h : s.Holds k mode) :
    s.held k ≠ none := by
  cases mode with
  | share => exact h
  | exclusive =>
      intro hnone
      have h : s.held k = some .exclusive := h
      rw [hnone] at h
      cases h

theorem Move.holds_mono (h : Move request db s rows mode s') {k : κ} {m : LockMode}
    (hk : s.Holds k m) : s'.Holds k m := by
  cases m with
  | share => exact h.held_mono hk
  | exclusive => exact h.exclusive_mono hk

/-- The rows a statement took: locked, wanted, and in the version that
is there. -/
def Session.Took (s : Session κ ρ φ) (db : κ → ρ) (stmt : Statement κ ρ)
    (hits : List (κ × ρ)) : Prop :=
  ∀ e ∈ hits, s.Holds e.1 stmt.access.mode ∧ e.2 = s.view db e.1 ∧ stmt.keeps e.1 e.2 = true

/-- The rows taken so far by the statement under way. -/
def Session.Taking (s : Session κ ρ φ) (db : κ → ρ) (stmt : Statement κ ρ) : Prop :=
  ∀ scan, s.scan = some scan → s.Took db stmt scan.hits

/-- A `SELECT` that locks rows writes nothing, and the rows it takes
stay as they were. -/
theorem Move.select (h : Move request db s rows mode s') {stmt : Statement κ ρ}
    {next : List (κ × ρ) → φ} (hreq : request s.phase = .scan stmt next)
    (hselect : ∀ set, stmt.access ≠ .update set) (htaking : s.Taking db stmt) :
    s'.own = s.own ∧
      ((s'.phase = s.phase ∧ s'.Taking db stmt) ∨
        ∃ hits, s'.phase = next hits ∧ s'.scan = none ∧ s'.Took db stmt hits) := by
  have hheld : ∀ {k m}, s.Holds k m → s'.Holds k m := fun hk => h.holds_mono hk
  rcases h.of_scan hreq with ⟨-, rfl⟩ | ⟨scan, k, hscan, -, hkeeps, rfl⟩ |
    ⟨scan, k, hscan, -, -, rfl⟩ | ⟨scan, hscan, -, rfl⟩
  · refine ⟨rfl, .inl ⟨rfl, ?_⟩⟩
    intro _ hstarted e he
    cases hstarted
    cases he
  · have hown : stmt.access.written s k (s.view db k) = s.own := by
      cases haccess : stmt.access with
      | forShare | forUpdate => rfl
      | update set => exact absurd haccess (hselect set)
    refine ⟨hown, .inl ⟨rfl, ?_⟩⟩
    intro _ htaken e he
    cases htaken
    have hview : Session.view { s.lock [k] stmt.access.mode with
        own := stmt.access.written s k (s.view db k)
        scan := some (scan.take k (s.view db k)) } db = s.view db := view_congr hown db
    rcases List.mem_append.1 he with he | he
    · obtain ⟨hholds, hversion, hwanted⟩ := htaking scan hscan e he
      exact ⟨hheld hholds, by rw [hview, hversion], hwanted⟩
    · cases List.mem_singleton.1 he
      refine ⟨?_, (congrFun hview k).symm, hkeeps⟩
      cases hmode : stmt.access.mode with
      | share =>
          show (if k ∈ [k] then some _ else _) ≠ none
          rw [if_pos (List.mem_singleton.2 rfl)]
          exact nofun
      | exclusive =>
          show (if k ∈ [k] then some _ else _) = some _
          rw [if_pos (List.mem_singleton.2 rfl), strengthen_exclusive]
  · exact ⟨rfl, .inl ⟨rfl, fun _ hdropped e he => by
      cases hdropped
      exact htaking scan hscan e he⟩⟩
  · exact ⟨rfl, .inr ⟨scan.hits, rfl, rfl, htaking scan hscan⟩⟩

/-- The steps of an `UPDATE`: it rewrites one row it wants in the version
that is there, or writes nothing. -/
theorem Move.updates (h : Move request db s rows mode s') {stmt : Statement κ ρ}
    {next : List (κ × ρ) → φ} {set : ρ → ρ} (hreq : request s.phase = .scan stmt next)
    (haccess : stmt.access = .update set) :
    (s'.view db = s.view db ∧
        (s'.phase = s.phase ∨ ∃ hits, s'.phase = next hits ∧ s'.scan = none)) ∨
      ∃ k, stmt.keeps k (s.view db k) = true ∧ s'.phase = s.phase ∧
        s'.view db = Function.update (s.view db) k (set (s.view db k)) := by
  rcases h.of_scan hreq with ⟨-, rfl⟩ | ⟨scan, k, -, -, hkeeps, rfl⟩ |
    ⟨scan, k, -, -, -, rfl⟩ | ⟨scan, -, -, rfl⟩
  · exact .inl ⟨rfl, .inl rfl⟩
  · refine .inr ⟨k, hkeeps, rfl, funext fun k' => ?_⟩
    show (stmt.access.written s k (s.view db k) k').getD (db k') = _
    rw [haccess, Function.update_apply]
    show (if k' = k then some (set (s.view db k)) else s.own k').getD (db k') = _
    split
    · rfl
    · rfl
  · exact .inl ⟨rfl, .inl rfl⟩
  · exact .inl ⟨rfl, .inr ⟨_, rfl, rfl⟩⟩

/-- The step of a transaction that writes by key, as it sees the rows
then. -/
theorem Move.view_of_write (h : Move request db s rows mode s') {keys : List κ}
    {set : κ → ρ → Option ρ} {next : φ} (hreq : request s.phase = .write keys set next) (k : κ) :
    (k ∈ keys ∧ set k (s.view db k) = some (s'.view db k)) ∨
      (k ∉ keys ∧ s'.view db k = s.view db k) := by
  obtain ⟨hset, hown, -, -, -⟩ := h.of_write hreq
  by_cases hk : k ∈ keys
  · refine .inl ⟨hk, ?_⟩
    obtain ⟨version, hversion⟩ := Option.isSome_iff_exists.1 (hset k hk)
    have hown : s'.own k = some version := by rw [hown, if_pos hk, hversion]
    rw [hversion, view_of_own hown]
  · refine .inr ⟨hk, ?_⟩
    unfold Session.view
    rw [hown, if_neg hk]

omit [DecidableEq κ] in
/-- What a transaction sees of a row after another one committed: what it
saw, or what the other one saw. -/
theorem view_after_commit (hapart : Apart s other) (hs : s.Guarded) (hother : other.Guarded)
    (k : κ) : s.view (other.view db) k = s.view db k ∨
      s.view (other.view db) k = other.view db k := by
  by_cases hk : s.held k = none
  · refine .inr (view_of_not_own ?_)
    by_contra hown
    cases (hs k hown).symm.trans hk
  · exact .inl (view_stable hapart hother db hk)

omit [DecidableEq κ] in
/-- The rows taken stay as they were when another transaction commits.
-/
theorem Session.Took.stable {stmt : Statement κ ρ} {hits : List (κ × ρ)}
    (h : s.Took db stmt hits) (hapart : Apart s other) (hother : other.Guarded) :
    s.Took (other.view db) stmt hits := by
  intro e he
  obtain ⟨hholds, hversion, hwanted⟩ := h e he
  refine ⟨hholds, ?_, hwanted⟩
  rw [hversion, view_stable hapart hother db hholds.held]

end Requests

-- == the rule for runs

section Outline

variable [DecidableEq κ]

/-- An invariant of the committed table and an assertion about open
transactions that support each other. -/
structure Outline (request : φ → Request κ ρ φ) (opens : φ → Prop)
    (fine : (κ → ρ) → φ → Prop) (inv : (κ → ρ) → Prop)
    (asserts : (κ → ρ) → Session κ ρ φ → Prop) : Prop where
  opened : ∀ {db phase}, inv db → opens phase → asserts db (.opened phase)
  moves : ∀ {db s s' rows mode}, inv db → s.Guarded → asserts db s →
    fine (s.view db) s.phase → Move request db s rows mode s' → asserts db s'
  commits : ∀ {db s}, inv db → s.Guarded → asserts db s → s.Committing request →
    inv (s.view db)
  stable : ∀ {db s other}, inv db → s.Guarded → other.Guarded → Apart s other →
    asserts db s → asserts db other → other.Committing request →
    asserts (other.view db) s

/-- What holds of a system whose transactions follow an outline. -/
structure System.Isolated (inv : (κ → ρ) → Prop) (asserts : (κ → ρ) → Session κ ρ φ → Prop)
    (s : System τ κ ρ φ) : Prop where
  inv : inv s.committed
  asserts : ∀ t session, s.sessions t = some session → asserts s.committed session
  guarded : ∀ t session, s.sessions t = some session → session.Guarded
  apart : ∀ t t' a b, t ≠ t' → s.sessions t = some a → s.sessions t' = some b → Apart a b

variable [DecidableEq τ] {request : φ → Request κ ρ φ} {opens : φ → Prop}
  {fine : (κ → ρ) → φ → Prop} {inv : (κ → ρ) → Prop}
  {asserts : (κ → ρ) → Session κ ρ φ → Prop} {s s' : System τ κ ρ φ} {t : τ}

omit [DecidableEq κ] [DecidableEq τ] in
theorem System.Isolated.idle {db : κ → ρ} (hdb : inv db) :
    (System.idle db : System τ κ ρ φ).Isolated inv asserts where
  inv := hdb
  asserts _ _ h := by cases h
  guarded _ _ h := by cases h
  apart _ _ _ _ _ h := by cases h

omit [DecidableEq κ] in
/-- The sessions of a system in which only that of `t` was replaced. -/
theorem update_sessions {sessions : τ → Option (Session κ ρ φ)}
    {new : Option (Session κ ρ φ)} {t' : τ} {session : Session κ ρ φ}
    (h : Function.update sessions t new t' = some session) :
    (t' = t ∧ new = some session) ∨ (t' ≠ t ∧ sessions t' = some session) := by
  by_cases ht : t' = t
  · rw [ht, Function.update_self] at h
    exact .inl ⟨ht, h⟩
  · rw [Function.update_of_ne ht] at h
    exact .inr ⟨ht, h⟩

omit [DecidableEq κ] in
/-- Replacing the session of `t` by one apart from the others. -/
private theorem apart_update {sessions : τ → Option (Session κ ρ φ)} {new : Session κ ρ φ}
    (hold : ∀ t t' a b, t ≠ t' → sessions t = some a → sessions t' = some b → Apart a b)
    (hnew : ∀ t' b, t' ≠ t → sessions t' = some b → Apart new b) :
    ∀ t₁ t₂ a b, t₁ ≠ t₂ → Function.update sessions t (some new) t₁ = some a →
      Function.update sessions t (some new) t₂ = some b → Apart a b := by
  intro t₁ t₂ a b hne h₁ h₂
  rcases update_sessions h₁ with ⟨rfl, ha⟩ | ⟨ht₁, ha⟩
  · rcases update_sessions h₂ with ⟨rfl, hb⟩ | ⟨ht₂, hb⟩
    · exact absurd rfl hne
    · cases ha
      exact hnew t₂ b ht₂ hb
  · rcases update_sessions h₂ with ⟨rfl, hb⟩ | ⟨ht₂, hb⟩
    · cases hb
      exact (hnew t₁ a ht₁ ha).symm
    · exact hold t₁ t₂ a b hne ha hb

/-- One step keeps the invariant, the assertions and the locks. -/
theorem Outline.step (o : Outline request opens fine inv asserts)
    (hs : s.Isolated inv asserts) (hstep : Step request opens s t s') (hfine : s.Meets fine t) :
    s'.Isolated inv asserts := by
  cases hstep with
  | begin hnone hopens =>
      refine ⟨hs.inv, ?_, ?_, ?_⟩
      · intro t' session h
        rcases update_sessions h with ⟨-, h⟩ | ⟨-, h⟩
        · cases h
          exact o.opened hs.inv hopens
        · exact hs.asserts t' session h
      · intro t' session h
        rcases update_sessions h with ⟨-, h⟩ | ⟨-, h⟩
        · cases h
          exact fun k hk => absurd rfl hk
        · exact hs.guarded t' session h
      · exact apart_update hs.apart fun _ _ _ _ _ => ⟨nofun, fun _ => rfl⟩
  | move hsession hmove hgrants =>
      refine ⟨hs.inv, ?_, ?_, ?_⟩
      · intro t' session h
        rcases update_sessions h with ⟨-, h⟩ | ⟨-, h⟩
        · cases h
          exact o.moves hs.inv (hs.guarded _ _ hsession) (hs.asserts _ _ hsession)
            (hfine _ hsession) hmove
        · exact hs.asserts t' session h
      · intro t' session h
        rcases update_sessions h with ⟨-, h⟩ | ⟨-, h⟩
        · cases h
          exact hmove.guarded (hs.guarded _ _ hsession)
        · exact hs.guarded t' session h
      · refine apart_update hs.apart fun t' b ht' hb => ?_
        exact hmove.apart (fun k hk => hgrants t' b ht' hb k hk)
          (hs.apart t t' _ _ (Ne.symm ht') hsession hb)
  | commit hsession hdone =>
      rename_i session
      have hothers : ∀ t' other, Function.update s.sessions t none t' = some other →
          t' ≠ t ∧ s.sessions t' = some other := by
        intro t' other h
        rcases update_sessions h with ⟨-, h⟩ | h
        · cases h
        · exact h
      refine ⟨?_, ?_, ?_, ?_⟩
      · exact o.commits hs.inv (hs.guarded _ _ hsession) (hs.asserts _ _ hsession) hdone
      · intro t' other h
        obtain ⟨ht', h⟩ := hothers t' other h
        exact o.stable hs.inv (hs.guarded _ _ h) (hs.guarded _ _ hsession)
          (hs.apart _ _ _ _ ht' h hsession) (hs.asserts _ _ h) (hs.asserts _ _ hsession) hdone
      · intro t' other h
        exact hs.guarded t' other (hothers t' other h).2
      · intro t₁ t₂ a b hne h₁ h₂
        exact hs.apart t₁ t₂ a b hne (hothers t₁ a h₁).2 (hothers t₂ b h₂).2
  | rollback hsession =>
      have hothers : ∀ t' other, Function.update s.sessions t none t' = some other →
          s.sessions t' = some other := by
        intro t' other h
        rcases update_sessions h with ⟨-, h⟩ | h
        · cases h
        · exact h.2
      exact ⟨hs.inv, fun t' other h => hs.asserts t' other (hothers t' other h),
        fun t' other h => hs.guarded t' other (hothers t' other h),
        fun t₁ t₂ a b hne h₁ h₂ => hs.apart t₁ t₂ a b hne (hothers t₁ a h₁) (hothers t₂ b h₂)⟩

/-- Every run of transactions that follow an outline keeps it. -/
theorem Outline.runs (o : Outline request opens fine inv asserts)
    (h : Runs request opens fine s s') (hs : s.Isolated inv asserts) :
    s'.Isolated inv asserts := by
  induction h with
  | refl => exact hs
  | tail _ hstep ih =>
      obtain ⟨t, hstep, hfine⟩ := hstep
      exact o.step ih hstep hfine

end Outline

end ReadCommitted
