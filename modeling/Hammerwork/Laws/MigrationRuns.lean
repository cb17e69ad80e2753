/-
Migrations run once and in order.

A call whose connection is open, from the grant of the lock to its release,
holds the session lock (`Locked`), so only one call at a time reads, applies
and records, and what it has read stays true (`Knows`). All of this rests on
one thing: the statements of a call go through the connection of that call.
The runner keeps one connection, so it fails when a call stores its own
while another call on the same runner, whose connection was lost, is still
under way (`Overtakes`).
-/
import Hammerwork.Migrations
import Hammerwork.Lib.Run
import Mathlib.Data.List.Pairwise
import Mathlib.Data.List.Sort

namespace Hammerwork

namespace Migrations

variable {registered : List Migration} {runner : Nat → Nat} {s s' : State} {e : Event} {i j : Nat}

-- == vocabulary

/-- The step commits a migration in the call. -/
def Commits (s : State) (e : Event) (i : Nat) (migration : Migration) : Prop :=
  e = .go i ∧ ∃ rest conn, s.pc i = .applying migration rest conn

/-- The step records a migration. -/
def Records (s : State) (e : Event) (migration : Migration) : Prop :=
  ∃ i rest, e = .go i ∧ s.pc i = .recording migration rest

/-- The migration of the call fails, its transaction open or not. -/
def Fails (s : State) (e : Event) (i : Nat) : Prop :=
  e = .fail i ∧ ∃ migration rest, s.pc i = .pending (migration :: rest) ∨
    ∃ conn, s.pc i = .applying migration rest conn

/-- The call has an open transaction. -/
def Applies (s : State) (i : Nat) : Prop :=
  ∃ migration rest conn, s.pc i = .applying migration rest conn ∧ s.Usable conn

/-- A step of the call fails, its connection is lost, or its process
crashes. -/
def Breaks (runner : Nat → Nat) (i : Nat) (e : Event) : Prop :=
  e = .fail i ∨ e = .lost i ∨ e = .crash (runner i)

/-- The call applies and records nothing more, and does not return Ok. -/
def Pc.failed : Pc → Bool
  | releasing false | unlocking false _ | ended false | gone => true
  | _ => false

/-- The call stores its connection in a runner that another call, not over
yet, has stored its own in. -/
def Overtakes (runner : Nat → Nat) (s : State) (e : Event) : Prop :=
  ∃ i j, e = .go i ∧ s.pc i = .granted ∧ j ≠ i ∧ runner j = runner i ∧ (s.pc j).inside = true

-- == migrations

/-- A list holds the migrations that are not recorded, in order. -/
structure Outstanding (registered : List Migration) (recorded : List String)
    (rest : List Migration) : Prop where
  sorted : rest.Pairwise fun a b => a.version < b.version
  mem : ∀ m, m ∈ rest ↔ m ∈ registered ∧ m.id ∉ recorded

/-- The pending migrations are outstanding. -/
theorem outstanding_pending (hversions : (registered.map (·.version)).Nodup)
    (recorded : List String) :
    Outstanding registered recorded (pendingMigrations registered recorded) := by
  have hperm : (pendingMigrations registered recorded).Perm
      (registered.filter fun m => m.id ∉ recorded) := List.mergeSort_perm ..
  refine ⟨?_, fun m => ?_⟩
  · have hsorted : (pendingMigrations registered recorded).Pairwise
        fun a b => a.version ≤ b.version := by
      have h := @List.pairwise_mergeSort Migration (fun a b => a.version ≤ b.version)
        (by intro a b c; simp only [decide_eq_true_eq]; omega)
        (by intro a b; simp only [Bool.or_eq_true, decide_eq_true_eq]; omega)
        (registered.filter fun m => m.id ∉ recorded)
      exact h.imp of_decide_eq_true
    have hdistinct : (pendingMigrations registered recorded).Pairwise
        fun a b => a.version ≠ b.version := by
      refine List.pairwise_map.1 (List.Nodup.perm ?_ (hperm.symm.map _))
      exact hversions.sublist (List.filter_sublist.map _)
    exact (hsorted.and hdistinct).imp fun ⟨hle, hne⟩ => by omega
  · rw [hperm.mem_iff]
    simp

theorem Outstanding.record {recorded : List String} {m : Migration} {rest : List Migration}
    (h : Outstanding registered recorded (m :: rest)) (hids : (registered.map (·.id)).Nodup) :
    Outstanding registered (recorded ++ [m.id]) rest := by
  obtain ⟨hfirst, hrest⟩ := List.pairwise_cons.1 h.sorted
  have hm := (h.mem m).1 List.mem_cons_self
  refine ⟨hrest, fun m' => ⟨fun hmem => ?_, fun ⟨hmem, hmissing⟩ => ?_⟩⟩
  · obtain ⟨hmem', hmissing⟩ := (h.mem m').1 (List.mem_cons_of_mem _ hmem)
    refine ⟨hmem', ?_⟩
    have hne : m'.id ≠ m.id := fun heq => by
      have hsame := List.inj_on_of_nodup_map hids hmem' hm.1 heq
      have hlt := hfirst m' hmem
      rw [hsame] at hlt
      omega
    simp [hmissing, hne]
  · obtain ⟨hmissing, hne⟩ : m'.id ∉ recorded ∧ m'.id ≠ m.id := by simpa using hmissing
    rcases List.mem_cons.1 ((h.mem m').2 ⟨hmem, hmissing⟩) with rfl | hmem'
    · exact absurd rfl hne
    · exact hmem'

/-- Nothing of a lower version than the first is outstanding. -/
theorem Outstanding.lower {recorded : List String} {m m' : Migration} {rest : List Migration}
    (h : Outstanding registered recorded (m :: rest)) (hm' : m' ∈ registered)
    (hlower : m'.version < m.version) : m'.id ∈ recorded := by
  refine Classical.byContradiction fun hmissing => ?_
  have hmem := (h.mem m').2 ⟨hm', hmissing⟩
  rcases List.mem_cons.1 hmem with rfl | hrest
  · omega
  · have hafter := (List.pairwise_cons.1 h.sorted).1 m' hrest
    omega

/-- Where nothing is outstanding everything is recorded. -/
theorem Outstanding.all_recorded {recorded : List String} (h : Outstanding registered recorded []) :
    ∀ m ∈ registered, m.id ∈ recorded := by
  intro m hm
  refine Classical.byContradiction fun hmissing => ?_
  exact nomatch (h.mem m).2 ⟨hm, hmissing⟩

-- == the lock

/-- The call was granted the lock and has not released it. -/
def Pc.holds : Pc → Bool
  | granted | unlocking .. => true
  | pc => pc.inside

/-- A call has its connection stored while it is inside, and the lock while
that connection is open. -/
structure LockedAt (runner : Nat → Nat) (s : State) (i : Nat) : Prop where
  stored : (s.pc i).inside = true ↔ s.locked (runner i) = some i
  held : s.lock = some i ↔ (s.pc i).holds = true ∧ s.alive i = true
  own : ∀ ok conn, s.pc i = .unlocking ok conn → conn = i
  applying : ∀ m rest conn, s.pc i = .applying m rest conn → conn = some i

/-- Every call does. -/
def Locked (runner : Nat → Nat) (s : State) : Prop := ∀ i, LockedAt runner s i

theorem locked_new : Locked runner .new := fun _ =>
  ⟨by simp [State.new, Pc.inside], by simp [State.new], nofun, nofun⟩

/-- What is inside holds the lock. -/
theorem Pc.holds_of_inside {pc : Pc} (h : pc.inside = true) : pc.holds = true := by
  cases pc <;> first | rfl | cases h

@[simp] theorem pc_goto (s : State) (i j : Nat) (pc : Pc) :
    (s.goto i pc).pc j = if j = i then pc else s.pc j := Function.update_apply ..

/-- The other calls are left alone. -/
theorem Locked.change (hs : Locked runner s) (hi : LockedAt runner s' i)
    (hpc : ∀ j ≠ i, s'.pc j = s.pc j) (halive : ∀ j ≠ i, s'.alive j = s.alive j)
    (hlock : ∀ j ≠ i, s'.lock = some j ↔ s.lock = some j)
    (hlocked : ∀ j ≠ i, s'.locked (runner j) = some j ↔ s.locked (runner j) = some j) :
    Locked runner s' := by
  intro j
  by_cases hj : j = i
  · rw [hj]
    exact hi
  · obtain ⟨hstored, hheld, hown, happlying⟩ := hs j
    refine ⟨?_, ?_, ?_, ?_⟩
    · rw [hpc j hj, hlocked j hj]
      exact hstored
    · rw [hpc j hj, halive j hj, hlock j hj]
      exact hheld
    · rw [hpc j hj]
      exact hown
    · rw [hpc j hj]
      exact happlying

/-- A call goes on inside. -/
theorem Locked.move (hs : Locked runner s) {pc : Pc} (hlock : s'.lock = s.lock)
    (halive : s'.alive = s.alive) (hlocked : s'.locked = s.locked)
    (hpc : ∀ j, s'.pc j = if j = i then pc else s.pc j) (hinside : (s.pc i).inside = true)
    (hinside' : pc.inside = true)
    (happlying : ∀ m rest conn, pc = .applying m rest conn → conn = some i) :
    Locked runner s' := by
  have hi : s'.pc i = pc := (hpc i).trans (if_pos rfl)
  refine hs.change ⟨?_, ?_, ?_, ?_⟩ (fun j hj => (hpc j).trans (if_neg hj))
    (fun j _ => by rw [halive]) (fun j _ => by rw [hlock]) (fun j _ => by rw [hlocked])
  · rw [hi, hlocked, hinside', ← (hs i).stored, hinside]
  · rw [hi, hlock, halive, (hs i).held, Pc.holds_of_inside hinside, Pc.holds_of_inside hinside']
  · intro ok conn h
    rw [hi] at h
    rw [h] at hinside'
    cases hinside'
  · rw [hi]
    exact happlying

theorem LockedAt.goto {pc : Pc} (hstored : pc.inside = true ↔ s.locked (runner i) = some i)
    (hheld : s.lock = some i ↔ pc.holds = true ∧ s.alive i = true)
    (hunlocking : ∀ ok conn, pc ≠ .unlocking ok conn)
    (happlying : ∀ m rest conn, pc ≠ .applying m rest conn) :
    LockedAt runner (s.goto i pc) i := by
  refine ⟨?_, ?_, fun ok conn => ?_, fun m rest conn => ?_⟩ <;> rw [pc_goto, if_pos rfl]
  · exact hstored
  · exact hheld
  · exact fun h => absurd h (hunlocking ok conn)
  · exact fun h => absurd h (happlying m rest conn)

/-- A call without a connection stored is over, and its connection closes. -/
theorem Locked.close (hs : Locked runner s) {ok : Bool} (hinside : (s.pc i).inside = false) :
    Locked runner ((s.close i).goto i (.ended ok)) := by
  refine hs.change (.goto ?_ ?_ nofun nofun) (fun j hj => (pc_goto ..).trans (if_neg hj))
    (fun j hj => Function.update_of_ne hj ..) (fun j hj => ?_) (fun j _ => Iff.rfl)
  · show false = true ↔ s.locked (runner i) = some i
    rw [← (hs i).stored, hinside]
  · show (if s.lock = some i then none else s.lock) = some i ↔ false = true ∧ _
    split <;> simp_all
  · show (if s.lock = some i then none else s.lock) = some j ↔ _
    split
    case isTrue h => simp [h, Ne.symm hj]
    case isFalse => rfl

/-- Unless a call overtakes another, every call keeps its connection. -/
theorem Locked.step (h : Step registered runner s e s') (hs : Locked runner s)
    (hno : ¬ Overtakes runner s e) : Locked runner s' := by
  cases h with
  | @connect i hpc =>
      refine hs.change (.goto ?_ ?_ nofun nofun) (fun j hj => (pc_goto ..).trans (if_neg hj))
        (fun j hj => Function.update_of_ne hj ..) (fun j _ => Iff.rfl) (fun j _ => Iff.rfl)
      · show false = true ↔ s.locked (runner i) = some i
        rw [← (hs i).stored, hpc]
        rfl
      · show s.lock = some i ↔ false = true ∧ _
        rw [(hs i).held, hpc]
        simp [Pc.holds, Pc.inside]
  | @grant i hpc halive hfree =>
      refine hs.change (.goto ?_ ?_ nofun nofun) (fun j hj => (pc_goto ..).trans (if_neg hj))
        (fun j hj => rfl) (fun j hj => ?_) (fun j _ => Iff.rfl)
      · show false = true ↔ s.locked (runner i) = some i
        rw [← (hs i).stored, hpc]
        rfl
      · show some i = some i ↔ true = true ∧ s.alive i = true
        simp [halive]
      · show some i = some j ↔ s.lock = some j
        simp [hfree, Ne.symm hj]
  | @store i hpc hguard =>
      refine hs.change (.goto ?_ ?_ nofun nofun) (fun j hj => (pc_goto ..).trans (if_neg hj))
        (fun j hj => rfl) (fun j hj => Iff.rfl) (fun j hj => ?_)
      · show true = true ↔ Function.update s.locked (runner i) (some i) (runner i) = some i
        simp
      · show s.lock = some i ↔ true = true ∧ s.alive i = true
        rw [(hs i).held, hpc]
        rfl
      · show Function.update s.locked (runner i) (some i) (runner j) = some j ↔ _
        by_cases hrunner : runner j = runner i
        · -- no other call on the runner has its connection stored
          have houtside : ¬ (s.pc j).inside = true := fun hinside =>
            hno ⟨i, j, rfl, hpc, hj, hrunner, hinside⟩
          rw [hrunner, Function.update_self, ← hrunner, ← (hs j).stored]
          simp [Ne.symm hj, houtside]
        · rw [Function.update_of_ne hrunner]
  | check hpc hguard husable =>
      refine hs.move rfl rfl rfl (pc_goto s _ · _) (by rw [hpc]; rfl) ?_ ?_
      · split <;> rfl
      · split <;> nofun
  | create hpc hguard husable =>
      exact hs.move rfl rfl rfl (pc_goto _ _ · _) (by rw [hpc]; rfl) rfl (by nofun)
  | read hpc hguard husable =>
      exact hs.move rfl rfl rfl (pc_goto _ _ · _) (by rw [hpc]; rfl) rfl (by nofun)
  | @begin i m rest hpc hguard husable =>
      have hstored := (hs i).stored.1 (by rw [hpc]; rfl)
      refine hs.move rfl rfl rfl (pc_goto _ _ · _) (by rw [hpc]; rfl) rfl ?_
      intro m' rest' conn h
      cases h
      exact hstored
  | commit hpc husable =>
      exact hs.move rfl rfl rfl (pc_goto _ _ · _) (by rw [hpc]; rfl) rfl (by nofun)
  | record hpc hguard husable =>
      exact hs.move rfl rfl rfl (pc_goto _ _ · _) (by rw [hpc]; rfl) rfl (by nofun)
  | finish hpc =>
      exact hs.move rfl rfl rfl (pc_goto _ _ · _) (by rw [hpc]; rfl) rfl (by nofun)
  | @take i conn ok hpc hguard hlocked =>
      have hstored := (hs i).stored.1 (by rw [hpc]; rfl)
      refine @Locked.change _ _ _ i hs ⟨?_, ?_, ?_, ?_⟩
        (fun j hj => (pc_goto ..).trans (if_neg hj)) (fun j hj => rfl) (fun j hj => Iff.rfl)
        (fun j hj => ?_)
      · rw [pc_goto, if_pos rfl]
        show false = true ↔ Function.update s.locked (runner i) none (runner i) = some i
        simp
      · rw [pc_goto, if_pos rfl]
        show s.lock = some i ↔ true = true ∧ s.alive i = true
        rw [(hs i).held, hpc]
        rfl
      · rw [pc_goto, if_pos rfl]
        intro ok' conn' h
        cases h
        exact Option.some.inj (hlocked.symm.trans hstored)
      · rw [pc_goto, if_pos rfl]
        nofun
      · show Function.update s.locked (runner i) none (runner j) = some j ↔ _
        by_cases hrunner : runner j = runner i
        · rw [hrunner, Function.update_self, hstored]
          simp [Ne.symm hj]
        · rw [Function.update_of_ne hrunner]
  | @untaken i ok hpc hguard hlocked =>
      have hstored := (hs i).stored.1 (by rw [hpc]; rfl)
      rw [hlocked] at hstored
      cases hstored
  | unlock hpc halive =>
      cases (hs _).own _ _ hpc
      exact hs.close (by rw [hpc]; rfl)
  | failBefore hpc =>
      refine hs.close ?_
      rcases hpc with hpc | hpc | hpc <;> rw [hpc] <;> rfl
  | @failInside i hfails =>
      refine hs.move rfl rfl rfl (pc_goto _ _ · _) ?_ rfl (by nofun)
      cases hpc : s.pc i <;> rw [hpc] at hfails <;> first | rfl | cases hfails
  | abort hpc =>
      exact hs.move rfl rfl rfl (pc_goto _ _ · _) (by rw [hpc]; rfl) rfl (by nofun)
  | failAfter hpc =>
      cases (hs _).own _ _ hpc
      exact hs.close (by rw [hpc]; rfl)
  | lost i =>
      refine @Locked.change _ _ _ i hs ⟨(hs i).stored, ?_, (hs i).own, (hs i).applying⟩
        (fun j hj => rfl) (fun j hj => Function.update_of_ne hj ..) (fun j hj => ?_)
        (fun j _ => Iff.rfl)
      · show (if s.lock = some i then none else s.lock) = some i ↔
          _ ∧ Function.update s.alive i false i = true
        split <;> simp_all
      · show (if s.lock = some i then none else s.lock) = some j ↔ _
        split
        case isTrue h => simp [h, Ne.symm hj]
        case isFalse => rfl
  | crash r =>
      intro i
      obtain ⟨hstored, hheld, hown, happlying⟩ := hs i
      by_cases hrunner : runner i = r
      · have hgone : (s.crash runner r).pc i = .gone := if_pos hrunner
        have hlost : (s.crash runner r).alive i = false := by simp [State.crash, hrunner]
        refine ⟨?_, ?_, ?_, ?_⟩ <;> rw [hgone]
        · show false = true ↔ Function.update s.locked r none (runner i) = some i
          simp [hrunner]
        · rw [hlost]
          simp [State.crash, hrunner]
        · nofun
        · nofun
      · have hpc : (s.crash runner r).pc i = s.pc i := if_neg hrunner
        have halive : (s.crash runner r).alive i = s.alive i := by simp [State.crash, hrunner]
        refine ⟨?_, ?_, ?_, ?_⟩ <;> rw [hpc]
        · rw [hstored]
          simp [State.crash, Function.update_of_ne hrunner]
        · rw [halive, ← hheld]
          simp [State.crash, Option.filter_eq_some_iff, hrunner]
        · exact hown
        · exact happlying

-- == records

/-- What a call has left to apply or record. -/
def Pc.left : Pc → Option (List Migration)
  | pending rest => some rest
  | applying m rest _ | recording m rest => some (m :: rest)
  | _ => none

/-- The call has nothing left to do, or has returned Ok. -/
def Pc.complete : Pc → Bool
  | pending [] | releasing true | unlocking true _ | ended true => true
  | _ => false

/-- What the calls know of the database: the list of a call that holds the
lock is what is left to record. -/
structure Knows (registered : List Migration) (s : State) : Prop where
  left : ∀ i rest, (s.pc i).left = some rest → s.alive i = true →
    Outstanding registered s.recorded rest
  applied : ∀ i m rest, s.pc i = .recording m rest → s.alive i = true → m ∈ s.applied
  complete : ∀ i, (s.pc i).complete = true → ∀ m ∈ registered, m.id ∈ s.recorded
  recorded : ∀ m ∈ registered, m.id ∈ s.recorded → m ∈ s.applied

theorem knows_new : Knows registered .new :=
  ⟨nofun, nofun, nofun, fun _ _ h => by cases h⟩

/-- Only one call at a time has something left and its connection open. -/
theorem Locked.one_left (hs : Locked runner s) {rest rest' : List Migration}
    (hi : (s.pc i).left = some rest) (hj : (s.pc j).left = some rest')
    (halive : s.alive i = true) (halive' : s.alive j = true) : i = j := by
  have hinside : ∀ {pc : Pc} {rest : List Migration}, pc.left = some rest → pc.inside = true := by
    intro pc rest h
    cases pc <;> first | rfl | cases h
  have hi' := (hs i).held.2 ⟨Pc.holds_of_inside (hinside hi), halive⟩
  have hj' := (hs j).held.2 ⟨Pc.holds_of_inside (hinside hj), halive'⟩
  exact Option.some.inj (hi'.symm.trans hj')

/-- A step that commits and records nothing. -/
theorem Knows.quiet (hs : Knows registered s) {pc : Pc} (happlied : s'.applied = s.applied)
    (hrecorded : s'.recorded = s.recorded)
    (halive : ∀ j ≠ i, s'.alive j = true → s.alive j = true)
    (hpc : ∀ j, s'.pc j = if j = i then pc else s.pc j)
    (hleft : ∀ rest, pc.left = some rest → s'.alive i = true →
      Outstanding registered s.recorded rest)
    (hrecording : ∀ m rest, pc ≠ .recording m rest)
    (hcomplete : pc.complete = true → ∀ m ∈ registered, m.id ∈ s.recorded) :
    Knows registered s' := by
  refine ⟨fun j rest => ?_, fun j m rest => ?_, fun j => ?_, ?_⟩
  · rw [hpc, hrecorded]
    split
    case isTrue hj =>
      rw [hj]
      exact hleft rest
    case isFalse hj => exact fun hrest hopen => hs.left j rest hrest (halive j hj hopen)
  · rw [hpc, happlied]
    split
    case isTrue hj => exact fun h => absurd h (hrecording m rest)
    case isFalse hj => exact fun hrest hopen => hs.applied j m rest hrest (halive j hj hopen)
  · rw [hpc, hrecorded]
    split
    case isTrue hj => exact hcomplete
    case isFalse hj => exact hs.complete j
  · rw [happlied, hrecorded]
    exact hs.recorded

/-- A closed connection keeps nothing open. -/
theorem alive_close {k : Nat} (h : (s.close k).alive j = true) : s.alive j = true := by
  by_cases hj : j = k
  · rw [hj] at h
    simp [State.close] at h
  · simpa [State.close, Function.update_of_ne hj] using h

/-- A connection is lost, or calls are gone. -/
theorem Knows.fade (hs : Knows registered s) (happlied : s'.applied = s.applied)
    (hrecorded : s'.recorded = s.recorded) (halive : ∀ j, s'.alive j = true → s.alive j = true)
    (hpc : ∀ j, s'.pc j = s.pc j ∨ s'.pc j = .gone) : Knows registered s' := by
  refine ⟨fun j rest => ?_, fun j m rest => ?_, fun j => ?_, ?_⟩
  · rw [hrecorded]
    rcases hpc j with h | h <;> rw [h]
    · exact fun hrest hopen => hs.left j rest hrest (halive j hopen)
    · nofun
  · rw [happlied]
    rcases hpc j with h | h <;> rw [h]
    · exact fun hrest hopen => hs.applied j m rest hrest (halive j hopen)
    · nofun
  · rw [hrecorded]
    rcases hpc j with h | h <;> rw [h]
    · exact hs.complete j
    · nofun
  · rw [happlied, hrecorded]
    exact hs.recorded

/-- A call that has nothing pending knows that everything is recorded. -/
theorem Outstanding.complete {recorded : List String} {rest : List Migration}
    (h : Outstanding registered recorded rest) (hpc : (Pc.pending rest).complete = true) :
    ∀ m ∈ registered, m.id ∈ recorded := by
  cases rest with
  | nil => exact h.all_recorded
  | cons m rest => cases hpc

theorem Knows.step (h : Step registered runner s e s') (hs : Knows registered s)
    (hlocked : Locked runner s) (hversions : (registered.map (·.version)).Nodup)
    (hids : (registered.map (·.id)).Nodup) : Knows registered s' := by
  cases h with
  | @connect i hpc =>
      exact hs.quiet (i := i) rfl rfl
        (fun j hj h => by rw [← Function.update_of_ne hj true s.alive]; exact h) (pc_goto _ i · _)
        nofun nofun nofun
  | grant hpc halive hfree =>
      exact hs.quiet rfl rfl (fun j _ h => h) (pc_goto _ _ · _) nofun nofun nofun
  | store hpc hguard =>
      exact hs.quiet rfl rfl (fun j _ h => h) (pc_goto _ _ · _) nofun nofun nofun
  | check hpc hguard husable =>
      exact hs.quiet rfl rfl (fun j _ h => h) (pc_goto _ _ · _) (by split <;> nofun)
        (by split <;> nofun) (by split <;> nofun)
  | create hpc hguard husable =>
      exact hs.quiet rfl rfl (fun j _ h => h) (pc_goto _ _ · _) nofun nofun nofun
  | @read i hpc hguard husable =>
      have hpending := outstanding_pending hversions s.recorded
      refine hs.quiet rfl rfl (fun j _ h => h) (pc_goto _ _ · _) ?_ nofun hpending.complete
      intro rest hrest _
      cases hrest
      exact hpending
  | @begin i m rest hpc hguard husable =>
      refine hs.quiet rfl rfl (fun j _ h => h) (pc_goto _ _ · _) ?_ nofun nofun
      intro rest' hrest halive
      cases hrest
      exact hs.left i _ (by rw [hpc]; rfl) halive
  | @commit i m rest conn hpc husable =>
      refine ⟨fun j rest' => ?_, fun j m' rest' => ?_, fun j => ?_, ?_⟩
      · rw [pc_goto]
        split
        case isTrue hj =>
          intro hrest halive
          cases hrest
          rw [hj] at halive
          exact hs.left i _ (by rw [hpc]; rfl) halive
        case isFalse => exact hs.left j rest'
      · rw [pc_goto]
        split
        case isTrue =>
          intro h _
          cases h
          exact List.mem_append_right _ (List.mem_singleton_self _)
        case isFalse =>
          exact fun h halive => List.mem_append_left _ (hs.applied j m' rest' h halive)
      · rw [pc_goto]
        split
        case isTrue => nofun
        case isFalse => exact hs.complete j
      · exact fun m' hm' hrecorded => List.mem_append_left _ (hs.recorded m' hm' hrecorded)
  | @record i m rest hpc hguard husable =>
      have halive : s.alive i = true :=
        husable i ((hlocked i).stored.1 (by rw [hpc]; rfl))
      have hleft := hs.left i _ (by rw [hpc]; rfl) halive
      have hnew : m.id ∉ s.recorded := ((hleft.mem m).1 List.mem_cons_self).2
      have hrecorded : (s.record m.id).recorded = s.recorded ++ [m.id] := if_neg hnew
      have hrest := hleft.record hids
      refine ⟨fun j rest' => ?_, fun j m' rest' => ?_, fun j => ?_, ?_⟩
      · rw [pc_goto]
        show _ → s.alive j = true → Outstanding registered (s.record m.id).recorded rest'
        rw [hrecorded]
        split
        case isTrue =>
          intro h _
          cases h
          exact hrest
        case isFalse hj =>
          intro h halive'
          exact absurd (hlocked.one_left h (by rw [hpc]; rfl) halive' halive) hj
      · rw [pc_goto]
        split
        case isTrue => nofun
        case isFalse => exact hs.applied j m' rest'
      · rw [pc_goto]
        show _ → ∀ m' ∈ registered, m'.id ∈ (s.record m.id).recorded
        rw [hrecorded]
        split
        case isTrue => exact hrest.complete
        case isFalse => exact fun h m' hm' => List.mem_append_left _ (hs.complete j h m' hm')
      · intro m' hm'
        show m'.id ∈ (s.record m.id).recorded → _
        rw [hrecorded]
        intro hmem
        rcases List.mem_append.1 hmem with hmem | hmem
        · exact hs.recorded m' hm' hmem
        · have hsame := List.inj_on_of_nodup_map hids hm'
            ((hleft.mem m).1 List.mem_cons_self).1 (List.mem_singleton.1 hmem)
          rw [hsame]
          exact hs.applied i m rest hpc halive
  | @finish i hpc =>
      refine hs.quiet rfl rfl (fun j _ h => h) (pc_goto _ _ · _) nofun nofun fun _ => ?_
      exact hs.complete i (by rw [hpc]; rfl)
  | @take i conn ok hpc hguard hlocked =>
      refine hs.quiet rfl rfl (fun j _ h => h) (pc_goto _ _ · _) nofun nofun fun h => ?_
      exact hs.complete i (by rw [hpc]; cases ok <;> first | rfl | cases h)
  | @untaken i ok hpc hguard hlocked =>
      refine hs.quiet rfl rfl (fun j _ h => h) (pc_goto _ _ · _) nofun nofun fun h => ?_
      exact hs.complete i (by rw [hpc]; cases ok <;> first | rfl | cases h)
  | @unlock i conn ok hpc halive =>
      refine hs.quiet rfl rfl (fun j _ h => alive_close h) (pc_goto _ _ · _) nofun nofun fun h => ?_
      exact hs.complete i (by rw [hpc]; cases ok <;> first | rfl | cases h)
  | failBefore hpc =>
      exact hs.quiet rfl rfl (fun j _ h => alive_close h) (pc_goto _ _ · _) nofun nofun nofun
  | @failInside i hfails =>
      exact hs.quiet rfl rfl (fun j _ h => h) (pc_goto _ _ · _) nofun nofun nofun
  | abort hpc =>
      exact hs.quiet rfl rfl (fun j _ h => h) (pc_goto _ _ · _) nofun nofun nofun
  | failAfter hpc =>
      exact hs.quiet rfl rfl (fun j _ h => alive_close h) (pc_goto _ _ · _) nofun nofun nofun
  | lost i => exact hs.fade rfl rfl (fun j h => alive_close h) (fun j => .inl rfl)
  | crash r =>
      refine hs.fade rfl rfl (fun j h => ?_) (fun j => ?_)
      · exact (Bool.and_eq_true_iff.1 h).1
      · show (if runner j = r then _ else _) = _ ∨ (if runner j = r then _ else _) = _
        split
        · exact .inr rfl
        · exact .inl rfl

-- == runs

/-- A call is left alone by the steps of the others. -/
theorem Step.frame (h : Step registered runner s e s') (hlocked : Locked runner s)
    (hgo : e ≠ .go i) (hbreaks : ¬ Breaks runner i e) :
    s'.pc i = s.pc i ∧ s'.alive i = s.alive i := by
  have hother : ∀ j, e = .go j ∨ e = .fail j ∨ e = .lost j → i ≠ j := by
    intro j he hij
    rw [← hij] at he
    rcases he with he | he | he
    · exact hgo he
    · exact hbreaks (.inl he)
    · exact hbreaks (.inr (.inl he))
  have hclose : ∀ j, i ≠ j → (s.close j).alive i = s.alive i := fun j hj =>
    Function.update_of_ne hj ..
  cases h with
  | @connect j hpc =>
      have hj := hother j (.inl rfl)
      exact ⟨(pc_goto ..).trans (if_neg hj), Function.update_of_ne hj ..⟩
  | @unlock j conn ok hpc halive =>
      have hj := hother j (.inl rfl)
      cases (hlocked j).own _ _ hpc
      exact ⟨(pc_goto ..).trans (if_neg hj), hclose j hj⟩
  | @failBefore j hpc =>
      have hj := hother j (.inr (.inl rfl))
      exact ⟨(pc_goto ..).trans (if_neg hj), hclose j hj⟩
  | @failAfter j conn ok hpc =>
      have hj := hother j (.inr (.inl rfl))
      cases (hlocked j).own _ _ hpc
      exact ⟨(pc_goto ..).trans (if_neg hj), hclose j hj⟩
  | lost j => exact ⟨rfl, hclose j (hother j (.inr (.inr rfl)))⟩
  | crash r =>
      have hrunner : runner i ≠ r := fun h => hbreaks (.inr (.inr (by rw [h])))
      exact ⟨if_neg hrunner, by simp [State.crash, hrunner]⟩
  | failInside | abort =>
      exact ⟨(pc_goto ..).trans (if_neg (hother _ (.inr (.inl rfl)))), rfl⟩
  | _ => exact ⟨(pc_goto ..).trans (if_neg (hother _ (.inl rfl))), rfl⟩

/-- What is recorded stays. -/
theorem Step.recorded_mono (h : Step registered runner s e s') {id : String}
    (hid : id ∈ s.recorded) : id ∈ s'.recorded := by
  cases h with
  | @record i m rest =>
      show id ∈ (if m.id ∈ s.recorded then s.recorded else s.recorded ++ [m.id])
      split
      · exact hid
      · exact List.mem_append_left _ hid
  | _ => exact hid

/-- A call that committed a migration records it, unless it breaks. -/
theorem Step.recording (h : Step registered runner s e s') (hlocked : Locked runner s)
    {m : Migration} {rest : List Migration} (hpc : s.pc i = .recording m rest)
    (halive : s.alive i = true) (hbreaks : ¬ Breaks runner i e) :
    (s'.pc i = .recording m rest ∧ s'.alive i = true) ∨ m.id ∈ s'.recorded := by
  by_cases hgo : e = .go i
  · right
    subst hgo
    cases h with
    | record hrecording =>
        rw [hpc] at hrecording
        cases hrecording
        show m.id ∈ (if m.id ∈ s.recorded then s.recorded else s.recorded ++ [m.id])
        split
        case isTrue hmem => exact hmem
        case isFalse => simp
    | _ => simp_all
  · obtain ⟨hsame, hopen⟩ := h.frame hlocked hgo hbreaks
    exact .inl ⟨hsame.trans hpc, hopen.trans halive⟩

/-- A failed call stays failed. -/
theorem Step.failed (h : Step registered runner s e s') (hfailed : (s.pc i).failed = true) :
    (s'.pc i).failed = true := by
  have hmove : ∀ {t : State} {j : Nat} {pc : Pc}, t.pc = s.pc →
      ((s.pc j).failed = true → pc.failed = true) → ((t.goto j pc).pc i).failed = true := by
    intro t j pc hpc hpc'
    rw [pc_goto]
    split
    case isTrue hij =>
      rw [hij] at hfailed
      exact hpc' hfailed
    case isFalse =>
      rw [hpc]
      exact hfailed
  cases h with
  | @take j conn ok hpc =>
      refine hmove rfl fun h => ?_
      rw [hpc] at h
      cases ok <;> first | rfl | cases h
  | @untaken j ok hpc =>
      refine hmove rfl fun h => ?_
      rw [hpc] at h
      cases ok <;> first | rfl | cases h
  | @unlock j conn ok hpc =>
      refine hmove rfl fun h => ?_
      rw [hpc] at h
      cases ok <;> first | rfl | cases h
  | failBefore | failInside | abort | failAfter => exact hmove rfl fun _ => rfl
  | lost j => exact hfailed
  | crash r =>
      show (if runner i = r then Pc.gone else s.pc i).failed = true
      split
      · rfl
      · exact hfailed
  | connect hpc | grant hpc | store hpc | check hpc | create hpc | read hpc | begin hpc
  | commit hpc | record hpc | finish hpc =>
      refine hmove rfl fun h => ?_
      rw [hpc] at h
      cases h

/-- The invariants of a run in which no call overtakes another. -/
theorem run_locked {len : Nat} (r : Run (Step registered runner) len)
    (hversions : (registered.map (·.version)).Nodup) (hids : (registered.map (·.id)).Nodup)
    (hstart : r.state 0 = .new) (hno : ∀ k < len, ¬ Overtakes runner (r.state k) (r.event k)) :
    ∀ k ≤ len, Locked runner (r.state k) ∧ Knows registered (r.state k) := by
  intro k hk
  refine r.stable (P := fun s => Locked runner s ∧ Knows registered s) (m := 0) ?_ ?_ k
    (Nat.zero_le k) hk
  · rw [hstart]
    exact ⟨locked_new, knows_new⟩
  · intro k _ hk hstep ⟨hlocked, hknows⟩
    exact ⟨hlocked.step hstep (hno k hk), hknows.step hstep hlocked hversions hids⟩

/-- The migrations of a run are applied once and in order. -/
structure RunOnce {len : Nat} (r : Run (Step registered runner) len) : Prop where
  /-- After all registered migrations of a lower version. -/
  ordered : ∀ k < len, ∀ i m, Commits (r.state k) (r.event k) i m →
    m ∈ registered ∧ ∀ m' ∈ registered, m'.version < m.version → m' ∈ (r.state k).applied
  /-- By one call at a time. -/
  exclusive : ∀ k ≤ len, ∀ i j, Applies (r.state k) i → Applies (r.state k) j → i = j
  /-- What is recorded was applied, and was not recorded before. -/
  recorded : ∀ k < len, ∀ m, Records (r.state k) (r.event k) m →
    m ∈ (r.state k).applied ∧ m.id ∉ (r.state k).recorded
  /-- A failure changes nothing and stops the call. -/
  failed : ∀ k < len, ∀ i, Fails (r.state k) (r.event k) i →
    (r.state (k + 1)).applied = (r.state k).applied ∧
      (r.state (k + 1)).recorded = (r.state k).recorded ∧
      ∀ l, k < l → l ≤ len → ((r.state l).pc i).failed = true
  /-- A second time only after a failure or crash between the commit and
  the record. -/
  again : ∀ j k, j < k → k < len → ∀ i i' m, Commits (r.state j) (r.event j) i m →
    Commits (r.state k) (r.event k) i' m → ∃ l rest, j < l ∧ l < k ∧
      (r.state l).pc i = .recording m rest ∧ Breaks runner i (r.event l)
  /-- All of them, when a call returned Ok. -/
  complete : ∀ k ≤ len, ∀ i, (r.state k).pc i = .ended true → ∀ m ∈ registered,
    m ∈ (r.state k).applied ∧ m.id ∈ (r.state k).recorded

/-- A call with an open transaction knows what is outstanding. -/
theorem Locked.outstanding (hlocked : Locked runner s) (hknows : Knows registered s)
    {m : Migration} {rest : List Migration} {conn : Option Nat}
    (hpc : s.pc i = .applying m rest conn) (husable : s.Usable conn) :
    s.alive i = true ∧ Outstanding registered s.recorded (m :: rest) := by
  have halive := husable i ((hlocked i).applying _ _ _ hpc)
  exact ⟨halive, hknows.left i _ (by rw [hpc]; rfl) halive⟩

/-- A commit is on a connection that is open. -/
theorem Commits.usable {m : Migration} (h : Step registered runner s e s')
    (hcommits : Commits s e i m) :
    ∃ rest conn, s.pc i = .applying m rest conn ∧ s.Usable conn := by
  obtain ⟨rfl, rest, conn, hpc⟩ := hcommits
  refine ⟨rest, conn, hpc, ?_⟩
  cases h with
  | commit hpc' husable =>
      rw [hpc] at hpc'
      cases hpc'
      exact husable
  | _ => simp_all

/-- A record is on a connection that is open. -/
theorem recording_alive (h : Step registered runner s e s') (hlocked : Locked runner s)
    {m : Migration} {rest : List Migration} (he : e = .go i) (hpc : s.pc i = .recording m rest) :
    s.alive i = true := by
  subst he
  cases h with
  | record hpc' hguard husable => exact husable i ((hlocked i).stored.1 (by rw [hpc]; rfl))
  | _ => simp_all

/-- A failed migration changes nothing, and its call has failed. -/
theorem Fails.step (hfails : Fails s e i) (h : Step registered runner s e s') :
    s'.applied = s.applied ∧ s'.recorded = s.recorded ∧ (s'.pc i).failed = true := by
  obtain ⟨rfl, m, rest, hpc⟩ := hfails
  have hover : ∀ {t : State} {pc : Pc}, pc.failed = true → ((t.goto i pc).pc i).failed = true :=
    fun h => by rw [pc_goto, if_pos rfl]; exact h
  cases h with
  | failBefore | failInside | abort | failAfter => exact ⟨rfl, rfl, hover rfl⟩

/-- A second commit of a migration comes after a break of the first. -/
theorem run_again {len : Nat} (r : Run (Step registered runner) len)
    (hinv : ∀ k ≤ len, Locked runner (r.state k) ∧ Knows registered (r.state k))
    {j k i i' : Nat} {m : Migration} (hjk : j < k) (hk : k < len)
    (hfirst : Commits (r.state j) (r.event j) i m)
    (hsecond : Commits (r.state k) (r.event k) i' m) :
    ∃ l rest, j < l ∧ l < k ∧ (r.state l).pc i = .recording m rest ∧
      Breaks runner i (r.event l) := by
  refine Classical.byContradiction fun hnone => ?_
  obtain ⟨rest, conn, hpc, husable⟩ := hfirst.usable (r.next j (by omega))
  obtain ⟨halive, -⟩ := (hinv j (by omega)).1.outstanding (hinv j (by omega)).2 hpc husable
  have hbegun : (r.state (j + 1)).pc i = .recording m rest ∧ (r.state (j + 1)).alive i = true := by
    have hstep := r.next j (by omega)
    rw [hfirst.1] at hstep
    generalize r.state (j + 1) = t at hstep
    cases hstep with
    | commit hpc' =>
        rw [hpc] at hpc'
        cases hpc'
        exact ⟨(pc_goto ..).trans (if_pos rfl), halive⟩
    | _ => simp_all
  have hkept : ∀ l, j + 1 ≤ l → l ≤ k →
      ((r.state l).pc i = .recording m rest ∧ (r.state l).alive i = true) ∨
        m.id ∈ (r.state l).recorded := by
    intro l hl
    induction l, hl using Nat.le_induction with
    | base => exact fun _ => .inl hbegun
    | succ l hl ih =>
        intro hlk
        rcases ih (by omega) with ⟨hrecording, hopen⟩ | hmem
        · refine (r.next l (by omega)).recording (hinv l (by omega)).1 hrecording hopen fun h => ?_
          exact hnone ⟨l, rest, by omega, by omega, hrecording, h⟩
        · exact .inr ((r.next l (by omega)).recorded_mono hmem)
  obtain ⟨rest', conn', hpc', husable'⟩ := hsecond.usable (r.next k hk)
  obtain ⟨halive', hleft⟩ := (hinv k (by omega)).1.outstanding (hinv k (by omega)).2 hpc' husable'
  have hmissing := ((hleft.mem m).1 List.mem_cons_self).2
  rcases hkept k (by omega) (Nat.le_refl k) with ⟨hrecording, hopen⟩ | hmem
  · have hsame := (hinv k (by omega)).1.one_left (i := i) (j := i') (by rw [hrecording]; rfl)
      (by rw [hpc']; rfl) hopen halive'
    rw [hsame, hpc'] at hrecording
    cases hrecording
  · exact hmissing hmem

/-- The migrations run once and in order as long as no call stores its
connection over that of a call on the same runner that is still under way. -/
theorem migrations_run_once {len : Nat} (r : Run (Step registered runner) len)
    (hversions : (registered.map (·.version)).Nodup) (hids : (registered.map (·.id)).Nodup)
    (hstart : r.state 0 = .new) (hno : ∀ k < len, ¬ Overtakes runner (r.state k) (r.event k)) :
    RunOnce r := by
  have hinv := run_locked r hversions hids hstart hno
  refine ⟨?_, ?_, ?_, ?_, fun j k hjk hk i i' m => run_again r hinv hjk hk, ?_⟩
  · intro k hk i m hcommits
    obtain ⟨hlocked, hknows⟩ := hinv k (by omega)
    obtain ⟨rest, conn, hpc, husable⟩ := hcommits.usable (r.next k hk)
    obtain ⟨-, hleft⟩ := hlocked.outstanding hknows hpc husable
    exact ⟨((hleft.mem m).1 List.mem_cons_self).1, fun m' hm' hlower =>
      hknows.recorded m' hm' (hleft.lower hm' hlower)⟩
  · intro k hk i j happlying happlying'
    obtain ⟨m, rest, conn, hpc, husable⟩ := happlying
    obtain ⟨m', rest', conn', hpc', husable'⟩ := happlying'
    obtain ⟨hlocked, hknows⟩ := hinv k hk
    exact hlocked.one_left (by rw [hpc]; rfl) (by rw [hpc']; rfl)
      (hlocked.outstanding hknows hpc husable).1 (hlocked.outstanding hknows hpc' husable').1
  · intro k hk m hrecording
    obtain ⟨i, rest, he, hpc⟩ := hrecording
    obtain ⟨hlocked, hknows⟩ := hinv k (by omega)
    have halive := recording_alive (r.next k hk) hlocked he hpc
    have hleft := hknows.left i _ (by rw [hpc]; rfl) halive
    exact ⟨hknows.applied i m rest hpc halive, ((hleft.mem m).1 List.mem_cons_self).2⟩
  · intro k hk i hfails
    obtain ⟨happlied, hrecorded, hfailed⟩ := hfails.step (r.next k hk)
    refine ⟨happlied, hrecorded, fun l hl hlen => ?_⟩
    exact r.stable (P := fun s => (s.pc i).failed = true) hfailed
      (fun _ _ _ hstep => hstep.failed) l hl hlen
  · intro k hk i hpc m hm
    obtain ⟨-, hknows⟩ := hinv k hk
    have hmem := hknows.complete i (by rw [hpc]; rfl) m hm
    exact ⟨hknows.recorded m hm hmem, hmem⟩

/-- Calls that share no runner do not overtake each other. -/
theorem not_overtakes_of_injective (hrunner : Function.Injective runner) :
    ¬ Overtakes runner s e :=
  fun ⟨_, _, _, _, hne, hsame, _⟩ => hne (hrunner hsame)

-- == examples

def firstMigration : Migration := ⟨"001_initial_schema", 1⟩

theorem pending_first : pendingMigrations [firstMigration] [] = [firstMigration] := by
  simp [pendingMigrations]

/-- One call applies and records the one migration, and returns Ok. -/
def oneCall : Run (Step [firstMigration] id) 12 :=
  (Run.stay .new (.go 0) : Run (Step [firstMigration] id) 0).snoc (@Step.connect _ _ _ 0 rfl)
    |>.snoc (@Step.grant _ _ _ 0 rfl rfl rfl) |>.snoc (@Step.store _ _ _ 0 rfl rfl)
    |>.snoc (@Step.check _ _ _ 0 rfl rfl (by decide))
    |>.snoc (@Step.create _ _ _ 0 rfl rfl (by decide))
    |>.snoc (@Step.read _ _ _ 0 rfl rfl (by decide))
    |>.snoc (@Step.begin _ _ _ 0 _ _ (congrArg Pc.pending pending_first) rfl (by decide))
    |>.snoc (@Step.commit _ _ _ 0 _ _ _ rfl (by decide))
    |>.snoc (@Step.record _ _ _ 0 _ _ rfl rfl (by decide))
    |>.snoc (@Step.finish _ _ _ 0 rfl) |>.snoc (@Step.take _ _ _ 0 _ _ rfl rfl rfl)
    |>.snoc (@Step.unlock _ _ _ 0 _ _ rfl rfl)

theorem migrations_run_once_one : RunOnce oneCall ∧ (oneCall.state 12).pc 0 = .ended true :=
  ⟨migrations_run_once oneCall (by decide) (by decide) rfl fun _ _ =>
    not_overtakes_of_injective fun _ _ h => h, rfl⟩

/-- Two calls on one runner. The connection of the first is lost after it
has read what to apply; the second gets the lock and stores its own
connection, and both apply the migration through it. -/
def twoCalls : Run (Step [firstMigration] fun _ => 0) 17 :=
  (Run.stay .new (.go 0) : Run (Step [firstMigration] fun _ => 0) 0)
    |>.snoc (@Step.connect _ _ _ 0 rfl)
    |>.snoc (@Step.connect _ _ _ 1 rfl) |>.snoc (@Step.grant _ _ _ 0 rfl rfl rfl)
    |>.snoc (@Step.store _ _ _ 0 rfl rfl) |>.snoc (@Step.check _ _ _ 0 rfl rfl (by decide))
    |>.snoc (@Step.create _ _ _ 0 rfl rfl (by decide))
    |>.snoc (@Step.read _ _ _ 0 rfl rfl (by decide)) |>.snoc (Step.lost 0)
    |>.snoc (@Step.grant _ _ _ 1 rfl rfl rfl) |>.snoc (@Step.store _ _ _ 1 rfl rfl)
    |>.snoc (@Step.check _ _ _ 1 rfl rfl (by decide))
    |>.snoc (@Step.read _ _ _ 1 rfl rfl (by decide))
    |>.snoc (@Step.begin _ _ _ 0 _ _ (congrArg Pc.pending pending_first) rfl (by decide))
    |>.snoc (@Step.commit _ _ _ 0 _ _ _ rfl (by decide))
    |>.snoc (@Step.record _ _ _ 0 _ _ rfl rfl (by decide))
    |>.snoc (@Step.begin _ _ _ 1 _ _ (congrArg Pc.pending pending_first) rfl (by decide))
    |>.snoc (@Step.commit _ _ _ 1 _ _ _ rfl (by decide))

/-- The migration is applied a second time although nothing failed between
its commit and its record. -/
theorem migration_run_twice :
    ¬ ∀ (registered : List Migration) (runner : Nat → Nat) (len : Nat)
        (r : Run (Step registered runner) len), (registered.map (·.version)).Nodup →
      (registered.map (·.id)).Nodup → r.state 0 = .new → RunOnce r := by
  intro h
  have honce := h [firstMigration] (fun _ => 0) 17 twoCalls (by decide) (by decide) rfl
  obtain ⟨l, rest, hafter, hbefore, -, hbreaks⟩ := honce.again 13 16 (by decide) (by decide) 0 1
    firstMigration ⟨rfl, _, _, rfl⟩ ⟨rfl, _, _, rfl⟩
  have hl : l = 14 ∨ l = 15 := by omega
  rcases hl with rfl | rfl <;> rcases hbreaks with h | h | h <;> cases h

end Migrations

end Hammerwork
