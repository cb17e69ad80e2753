/-
Migration runs over one PostgreSQL database.

A call of `run_migrations` takes the session lock of the database, applies
the registered migrations that are not recorded yet in the order of their
versions, each in a transaction of its own, records each after it was
applied, and gives the lock back. Any number of calls are under way, on any
number of runners; every step of a call may fail, its connection may be
lost, and its process may crash, at any point.

# Connections

Every call takes one connection from the pool to hold the lock; it has the
number of the call. Once the lock is granted the connection is stored in the
runner, and every statement of the call goes through the connection stored
there, whoever stored it, or through any pooled connection if there is none.
The session lock is exclusive, and is released when its connection closes. A
transaction is atomic: it does not commit on a connection that is lost, and
a commit whose answer is lost is a commit followed by the loss of the
connection.

The runner's mutex is held while a statement runs. Only a transaction takes
more than one step, so the guard is written down for transactions. A
connection that another one replaces in the runner is dropped, which changes
nothing: the lock is granted only after it was lost.

What a migration does to the schema is left out: the database keeps the log
of the migrations committed. The SQL texts, the times of the records and
what is logged are left out too.
-/
import Mathlib.Logic.Function.Basic

namespace Hammerwork

namespace Migrations

/-- A registered migration. -/
structure Migration where
  id : String
  version : Nat
  deriving DecidableEq, Repr

/-- The migrations that are not recorded, in the order of their versions. -/
def pendingMigrations (registered : List Migration) (executed : List String) : List Migration :=
  (registered.filter fun migration => migration.id ∉ executed).mergeSort
    fun a b => a.version ≤ b.version

-- == state

/-- Where a call of `run_migrations` is. -/
inductive Pc where
  /-- It has not been made yet. -/
  | idle
  /-- It waits for the lock. -/
  | waiting
  /-- The lock was granted to its connection. -/
  | granted
  | checking
  | creating
  | reading
  | pending (rest : List Migration)
  /-- A transaction is open on a connection: the call's whose number it
  has, or one from the pool. -/
  | applying (migration : Migration) (rest : List Migration) (conn : Option Nat)
  | recording (migration : Migration) (rest : List Migration)
  | releasing (ok : Bool)
  /-- It took a connection from the runner, and unlocks on it. -/
  | unlocking (ok : Bool) (conn : Nat)
  | ended (ok : Bool)
  /-- Its process crashed. -/
  | gone
  deriving DecidableEq, Repr

/-- The call has stored its connection in the runner and not taken it back. -/
def Pc.inside : Pc → Bool
  | checking | creating | reading | pending _ | applying .. | recording .. | releasing _ => true
  | _ => false

/-- The call executes a statement next, outside a transaction. -/
def Pc.fails : Pc → Bool
  | checking | creating | reading | pending (_ :: _) | recording .. => true
  | _ => false

/-- The database, the runners and the calls. -/
structure State where
  table : Bool
  /-- The migrations committed. -/
  applied : List Migration
  recorded : List String
  /-- The call whose connection holds the session lock. -/
  lock : Option Nat
  /-- The calls whose connection is open. -/
  alive : Nat → Bool
  /-- The connection stored in a runner. -/
  locked : Nat → Option Nat
  /-- A transaction holds the runner's mutex. -/
  guard : Nat → Bool
  pc : Nat → Pc

/-- A database nothing was applied to. -/
def State.new : State where
  table := false
  applied := []
  recorded := []
  lock := none
  alive := fun _ => false
  locked := fun _ => none
  guard := fun _ => false
  pc := fun _ => .idle

namespace State

variable (s : State)

/-- The call is somewhere else. -/
def goto (i : Nat) (pc : Pc) : State := { s with pc := Function.update s.pc i pc }

/-- The connection of a call closes, which releases its lock. -/
def close (i : Nat) : State :=
  { s with
    alive := Function.update s.alive i false
    lock := if s.lock = some i then none else s.lock }

/-- A statement can be executed on the connection. -/
def Usable (conn : Option Nat) : Prop := ∀ i ∈ conn, s.alive i = true

instance (conn : Option Nat) : Decidable (s.Usable conn) :=
  inferInstanceAs (Decidable (∀ i ∈ conn, s.alive i = true))

/-- The migration is recorded, unless it is already. -/
def record (id : String) : State :=
  { s with recorded := if id ∈ s.recorded then s.recorded else s.recorded ++ [id] }

/-- A transaction on this connection is over. -/
def unguard (r : Nat) (conn : Option Nat) : State :=
  { s with guard := if conn.isSome then Function.update s.guard r false else s.guard }

/-- A process crashes: its calls are gone and their connections close. -/
def crash (runner : Nat → Nat) (r : Nat) : State :=
  { s with
    pc := fun i => if runner i = r then .gone else s.pc i
    alive := fun i => s.alive i && runner i ≠ r
    lock := s.lock.filter fun i => runner i ≠ r
    locked := Function.update s.locked r none
    guard := Function.update s.guard r false }

end State

-- == steps

/-- What happens. -/
inductive Event where
  /-- The next step of a call is done. -/
  | go (i : Nat)
  /-- The next step of a call fails. -/
  | fail (i : Nat)
  /-- The connection of a call is lost. -/
  | lost (i : Nat)
  /-- The process of a runner crashes. -/
  | crash (r : Nat)
  deriving DecidableEq, Repr

variable (registered : List Migration) (runner : Nat → Nat)

/-- One step of one call, or of the world around it. `runner` says which
runner a call is made on. -/
inductive Step : State → Event → State → Prop where
  | connect {s : State} {i : Nat} : s.pc i = .idle →
      Step s (.go i) ({ s with alive := Function.update s.alive i true }.goto i .waiting)
  | grant {s : State} {i : Nat} : s.pc i = .waiting → s.alive i = true → s.lock = none →
      Step s (.go i) ({ s with lock := some i }.goto i .granted)
  | store {s : State} {i : Nat} : s.pc i = .granted → s.guard (runner i) = false →
      Step s (.go i)
        ({ s with locked := Function.update s.locked (runner i) (some i) }.goto i .checking)
  | check {s : State} {i : Nat} : s.pc i = .checking → s.guard (runner i) = false →
      s.Usable (s.locked (runner i)) →
      Step s (.go i) (s.goto i (if s.table then .reading else .creating))
  | create {s : State} {i : Nat} : s.pc i = .creating → s.guard (runner i) = false →
      s.Usable (s.locked (runner i)) →
      Step s (.go i) ({ s with table := true }.goto i .reading)
  | read {s : State} {i : Nat} : s.pc i = .reading → s.guard (runner i) = false →
      s.Usable (s.locked (runner i)) →
      Step s (.go i) (s.goto i (.pending (pendingMigrations registered s.recorded)))
  | begin {s : State} {i : Nat} {migration : Migration} {rest : List Migration} :
      s.pc i = .pending (migration :: rest) → s.guard (runner i) = false →
      s.Usable (s.locked (runner i)) →
      Step s (.go i)
        ({ s with guard := Function.update s.guard (runner i) (s.locked (runner i)).isSome }.goto i
          (.applying migration rest (s.locked (runner i))))
  | commit {s : State} {i : Nat} {migration : Migration} {rest : List Migration}
      {conn : Option Nat} : s.pc i = .applying migration rest conn → s.Usable conn →
      Step s (.go i)
        (({ s with applied := s.applied ++ [migration] }.unguard (runner i) conn).goto i
          (.recording migration rest))
  | record {s : State} {i : Nat} {migration : Migration} {rest : List Migration} :
      s.pc i = .recording migration rest → s.guard (runner i) = false →
      s.Usable (s.locked (runner i)) →
      Step s (.go i) ((s.record migration.id).goto i (.pending rest))
  | finish {s : State} {i : Nat} : s.pc i = .pending [] →
      Step s (.go i) (s.goto i (.releasing true))
  | take {s : State} {i conn : Nat} {ok : Bool} : s.pc i = .releasing ok →
      s.guard (runner i) = false → s.locked (runner i) = some conn →
      Step s (.go i)
        ({ s with locked := Function.update s.locked (runner i) none }.goto i (.unlocking ok conn))
  | untaken {s : State} {i : Nat} {ok : Bool} : s.pc i = .releasing ok →
      s.guard (runner i) = false → s.locked (runner i) = none →
      Step s (.go i) (s.goto i (.ended ok))
  | unlock {s : State} {i conn : Nat} {ok : Bool} : s.pc i = .unlocking ok conn →
      s.alive conn = true → Step s (.go i) ((s.close conn).goto i (.ended ok))
  | failBefore {s : State} {i : Nat} :
      s.pc i = .idle ∨ s.pc i = .waiting ∨ s.pc i = .granted →
      Step s (.fail i) ((s.close i).goto i (.ended false))
  | failInside {s : State} {i : Nat} : (s.pc i).fails = true →
      Step s (.fail i) (s.goto i (.releasing false))
  | abort {s : State} {i : Nat} {migration : Migration} {rest : List Migration}
      {conn : Option Nat} : s.pc i = .applying migration rest conn →
      Step s (.fail i) ((s.unguard (runner i) conn).goto i (.releasing false))
  | failAfter {s : State} {i conn : Nat} {ok : Bool} : s.pc i = .unlocking ok conn →
      Step s (.fail i) ((s.close conn).goto i (.ended false))
  | lost {s : State} (i : Nat) : Step s (.lost i) (s.close i)
  | crash {s : State} (r : Nat) : Step s (.crash r) (s.crash runner r)

end Migrations

end Hammerwork
