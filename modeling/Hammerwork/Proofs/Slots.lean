/-
What holds of the stored jobs while transactions run, and what one
transaction's writes keep of it.

`Consistent` is the invariant of the committed rows. The two parts that
matter are `waits` and `spared`: a waiting job has a dependency that did
not complete, and no pending job has one that failed for good
(`Slot.Fails`). The rest carries them: a job released or running has
only completed dependencies, and every dependency is known.

`Writes` is the part of an open transaction's assertion that is the same
in every phase. Its rows satisfy the invariant in the transaction's own
view, and what they rest on in other rows is either final or locked, so
that no other transaction's commit can take it away. What a transaction
still has to do before it can commit is its debts, `OwesRelease` and
`OwesFailure`: the jobs left to release, or to fail, by a job it ended.
Without debts a transaction can commit (`Consistent.commit`).
-/
import Hammerwork.Sessions
import Hammerwork.Proofs.Settle

namespace Hammerwork

namespace Postgres

open ReadCommitted

/-- An open transaction. -/
abbrev Tx := Session JobId Slot Phase

-- == slots

namespace Slot

/-- A row stored under the id, in the jobs table or the archive. -/
def Has (slot : Slot) (row : Job) : Prop := slot.stored = some row ∨ slot.archived = some row

/-- The id is known. -/
def Known (slot : Slot) : Prop := ∃ row, slot.Has row

/-- The job ended in failure by its own transition or with a dependency,
and not in a workflow that leaves its dependents waiting. -/
def Fails (env : Env) (slot : Slot) : Prop :=
  ∃ row, slot.Has row ∧ row.status.EndedInFailure ∧
    (slot.ended = some .itself ∨ slot.ended = some .dependency) ∧
    env.policy row ≠ some .manual

end Slot

/-- A pending job that waits for its dependencies. -/
def Waits (row : Job) : Prop := row.status = .pending ∧ row.dependencyStatus = .waiting

/-- What holds of the rows of one job by themselves. -/
structure Slot.Sound (slot : Slot) (id : JobId) : Prop where
  id_eq : ∀ row, slot.Has row → row.id = id
  once : ∀ row, slot.stored = some row → slot.archived = none
  finished : ∀ row, slot.archived = some row → row.status = .completed ∨ row.status.EndedInFailure
  judged : ∀ row, slot.stored = some row → row.status = .pending → row.dependsOn ≠ [] →
    row.dependencyStatus = .waiting ∨ row.dependencyStatus = .satisfied
  running : ∀ row, slot.stored = some row → row.status = .running → row.dependsOn ≠ [] →
    row.dependencyStatus = .satisfied
  waiting : ∀ row, slot.Has row → row.dependencyStatus = .waiting → row.dependsOn ≠ []

variable {env : Env} {db : JobId → Slot} {slot slot' : Slot} {k d : JobId} {row row' : Job}
  {s s' other : Tx}

theorem Slot.completed_iff :
    slot.completed = true ↔ ∃ row, slot.Has row ∧ row.status = .completed := by
  unfold Slot.completed Slot.Has
  simp only [Bool.or_eq_true, Option.any_eq_true, decide_eq_true_eq]
  constructor
  · intro h
    rcases h with ⟨row, hrow, hc⟩ | ⟨row, hrow, hc⟩
    · exact ⟨row, .inl hrow, hc⟩
    · exact ⟨row, .inr hrow, hc⟩
  · intro ⟨row, hrow, hc⟩
    rcases hrow with hrow | hrow
    · exact .inl ⟨row, hrow, hc⟩
    · exact .inr ⟨row, hrow, hc⟩

theorem Slot.Sound.empty (id : JobId) : Slot.empty.Sound id where
  id_eq _ h := by rcases h with h | h <;> cases h
  once _ h := by cases h
  finished _ h := by cases h
  judged _ h := by cases h
  running _ h := by cases h
  waiting _ h := by rcases h with h | h <;> cases h

namespace Slot.Sound

variable (hs : slot.Sound k)
include hs

/-- A job has one row. -/
theorem has_unique (h : slot.Has row) (h' : slot.Has row') : row = row' := by
  have hne : ∀ {a b}, slot.stored = some a → slot.archived = some b → False := by
    intro a b ha hb
    rw [hs.once a ha] at hb
    cases hb
  rcases h with h | h <;> rcases h' with h' | h'
  · exact Option.some.inj (h.symm.trans h')
  · exact (hne h h').elim
  · exact (hne h' h).elim
  · exact Option.some.inj (h.symm.trans h')

/-- A job has completed if the status of its row says so. -/
theorem completed_eq (h : slot.Has row) : slot.completed = decide (row.status = .completed) := by
  rw [Bool.eq_iff_iff, Slot.completed_iff, decide_eq_true_eq]
  constructor
  · intro ⟨row', h', hc⟩
    rw [hs.has_unique h h']
    exact hc
  · intro hc
    exact ⟨row, h, hc⟩

theorem fails_iff (h : slot.Has row) :
    slot.Fails env ↔ row.status.EndedInFailure ∧
      (slot.ended = some .itself ∨ slot.ended = some .dependency) ∧
      env.policy row ≠ some .manual := by
  constructor
  · intro ⟨row', h', hf⟩
    rw [hs.has_unique h h']
    exact hf
  · intro hf
    exact ⟨row, h, hf⟩

/-- A completed job did not fail. -/
theorem not_fails_of_completed (h : slot.completed = true) : ¬ slot.Fails env := by
  intro ⟨row, hrow, hf, _⟩
  rw [hs.completed_eq hrow, decide_eq_true_eq] at h
  rw [h] at hf
  rcases hf with hf | hf | hf <;> cases hf

end Slot.Sound

theorem Slot.known_of_stored (h : slot.stored = some row) : slot.Known := ⟨row, .inl h⟩

theorem Slot.known_of_completed (h : slot.completed = true) : slot.Known := by
  obtain ⟨row, hrow, -⟩ := Slot.completed_iff.1 h
  exact ⟨row, hrow⟩

-- == invariant

/-- The invariant of the committed rows. -/
structure Consistent (env : Env) (db : JobId → Slot) : Prop where
  sound : ∀ k, (db k).Sound k
  known : ∀ k row, (db k).Has row → ∀ d ∈ row.dependsOn, (db d).Known
  satisfied : ∀ k row, (db k).Has row → row.dependencyStatus = .satisfied →
    ∀ d ∈ row.dependsOn, (db d).completed = true
  waits : ∀ k row, (db k).stored = some row → Waits row →
    ∃ d ∈ row.dependsOn, (db d).completed = false
  spared : ∀ k row, (db k).stored = some row → row.status = .pending →
    ∀ d ∈ row.dependsOn, ¬ (db d).Fails env

theorem Consistent.new (env : Env) : Consistent env fun _ => .empty where
  sound k := .empty k
  known _ _ h := by rcases h with h | h <;> cases h
  satisfied _ _ h := by rcases h with h | h <;> cases h
  waits _ _ h := by cases h
  spared _ _ h := by cases h

/-- What a transaction wrote, in its own view. -/
structure Writes (env : Env) (db : JobId → Slot) (s : Tx) : Prop where
  sound : ∀ k slot, s.own k = some slot → slot.Sound k
  completed : ∀ k slot, s.own k = some slot → (db k).completed = true → slot.completed = true
  stays : ∀ k slot, s.own k = some slot → (db k).Known → slot.Known
  known : ∀ k slot, s.own k = some slot → ∀ row, slot.Has row → ∀ d ∈ row.dependsOn,
    (s.view db d).Known
  satisfied : ∀ k slot, s.own k = some slot → ∀ row, slot.Has row →
    row.dependencyStatus = .satisfied → ∀ d ∈ row.dependsOn, (s.view db d).completed = true
  waits : ∀ k slot, s.own k = some slot → ∀ row, slot.stored = some row → Waits row →
    ∃ d ∈ row.dependsOn, s.held d ≠ none ∧ (s.view db d).completed = false
  spared : ∀ k slot, s.own k = some slot → ∀ row, slot.stored = some row →
    row.status = .pending → ∀ d ∈ row.dependsOn,
      (s.view db d).completed = true ∨ (s.held d ≠ none ∧ ¬ (s.view db d).Fails env)

/-- Jobs the transaction completed, and has still to release the waiting
dependents of. `owes` tells which dependents are left; another one is
locked and waits for a dependency that did not complete. -/
def OwesRelease (db : JobId → Slot) (s : Tx) (owes : JobId → Prop) : Prop :=
  ∀ d slot, s.own d = some slot → slot.completed = true → (db d).completed = false →
    ∀ k row, s.own k = none → (db k).stored = some row → Waits row → d ∈ row.dependsOn →
      owes k ∨ (s.held k = some .exclusive ∧
        ∃ d' ∈ row.dependsOn, (s.view db d').completed = false)

/-- Jobs the transaction failed, and has still to fail the pending
dependents of. -/
def OwesFailure (env : Env) (db : JobId → Slot) (s : Tx) (owes : JobId → JobId → Prop) : Prop :=
  ∀ d slot, s.own d = some slot → slot.Fails env → ¬ (db d).Fails env →
    ∀ k row, s.own k = none → (db k).stored = some row → row.status = .pending →
      d ∈ row.dependsOn → owes d k

-- == commits

/-- What is final stays so in the transaction's view. -/
theorem Writes.view_completed (h : Writes env db s) (hk : (db k).completed = true) :
    (s.view db k).completed = true := by
  cases hown : s.own k with
  | none => rwa [view_of_not_own hown]
  | some slot =>
      rw [view_of_own hown]
      exact h.completed k slot hown hk

theorem Writes.view_known (h : Writes env db s) (hk : (db k).Known) : (s.view db k).Known := by
  cases hown : s.own k with
  | none => rwa [view_of_not_own hown]
  | some slot =>
      rw [view_of_own hown]
      exact h.stays k slot hown hk

theorem Writes.view_sound (h : Writes env db s) (hdb : Consistent env db) (k : JobId) :
    (s.view db k).Sound k := by
  cases hown : s.own k with
  | none =>
      rw [view_of_not_own hown]
      exact hdb.sound k
  | some slot =>
      rw [view_of_own hown]
      exact h.sound k slot hown

/-- A transaction without debts commits into a consistent table. -/
theorem Consistent.commit (hdb : Consistent env db) (hw : Writes env db s)
    (hrelease : OwesRelease db s fun _ => False) (hfail : OwesFailure env db s fun _ _ => False) :
    Consistent env (s.view db) where
  sound := hw.view_sound hdb
  known k row hrow d hd := by
    cases hown : s.own k with
    | none =>
        rw [view_of_not_own hown] at hrow
        exact hw.view_known (hdb.known k row hrow d hd)
    | some slot =>
        rw [view_of_own hown] at hrow
        exact hw.known k slot hown row hrow d hd
  satisfied k row hrow hsat d hd := by
    cases hown : s.own k with
    | none =>
        rw [view_of_not_own hown] at hrow
        exact hw.view_completed (hdb.satisfied k row hrow hsat d hd)
    | some slot =>
        rw [view_of_own hown] at hrow
        exact hw.satisfied k slot hown row hrow hsat d hd
  waits k row hrow hwaits := by
    cases hown : s.own k with
    | none =>
        rw [view_of_not_own hown] at hrow
        obtain ⟨d, hd, hopen⟩ := hdb.waits k row hrow hwaits
        cases hd_own : s.own d with
        | none => exact ⟨d, hd, by rw [view_of_not_own hd_own, hopen]⟩
        | some slot =>
            cases hc : slot.completed with
            | false => exact ⟨d, hd, by rw [view_of_own hd_own, hc]⟩
            | true =>
                rcases hrelease d slot hd_own hc hopen k row hown hrow hwaits hd with hf | ⟨-, h⟩
                · exact hf.elim
                · exact h
    | some slot =>
        rw [view_of_own hown] at hrow
        obtain ⟨d, hd, -, hopen⟩ := hw.waits k slot hown row hrow hwaits
        exact ⟨d, hd, hopen⟩
  spared k row hrow hpending d hd := by
    cases hown : s.own k with
    | none =>
        rw [view_of_not_own hown] at hrow
        have hspared := hdb.spared k row hrow hpending d hd
        cases hd_own : s.own d with
        | none => rwa [view_of_not_own hd_own]
        | some slot =>
            rw [view_of_own hd_own]
            intro hf
            exact hfail d slot hd_own hf hspared k row hown hrow hpending hd
    | some slot =>
        rw [view_of_own hown] at hrow
        rcases hw.spared k slot hown row hrow hpending d hd with hc | ⟨-, h⟩
        · exact (hw.view_sound hdb d).not_fails_of_completed hc
        · exact h

-- == other commits

/-- What the commit of another transaction changes for `s`: nothing that
`s` holds, and nothing that is final. -/
structure Later (s : Tx) (db db' : JobId → Slot) : Prop where
  held : ∀ k, s.held k ≠ none → db' k = db k
  completed : ∀ k, (db k).completed = true → (db' k).completed = true
  known : ∀ k, (db k).Known → (db' k).Known

theorem Writes.later (hother : Writes env db other) (hapart : Apart s other)
    (hguarded : other.Guarded) : Later s db (other.view db) where
  held _ hk := view_of_held hapart hguarded db hk
  completed _ hk := hother.view_completed hk
  known _ hk := hother.view_known hk

namespace Later

variable {db' : JobId → Slot} (h : Later s db db')
include h

theorem view_held {k : JobId} (hk : s.held k ≠ none) : s.view db' k = s.view db k := by
  unfold Session.view
  rw [h.held k hk]

theorem view_completed {k : JobId} (hk : (s.view db k).completed = true) :
    (s.view db' k).completed = true := by
  cases hown : s.own k with
  | none =>
      rw [view_of_not_own hown] at hk ⊢
      exact h.completed k hk
  | some slot => rwa [view_of_own hown] at hk ⊢

theorem view_known {k : JobId} (hk : (s.view db k).Known) : (s.view db' k).Known := by
  cases hown : s.own k with
  | none =>
      rw [view_of_not_own hown] at hk ⊢
      exact h.known k hk
  | some slot => rwa [view_of_own hown] at hk ⊢

/-- Rows the transaction wrote are committed as before. -/
theorem own (hs : s.Guarded) {k : JobId} {slot : Slot} (hk : s.own k = some slot) :
    db' k = db k := by
  refine h.held k ?_
  rw [hs k (by rw [hk]; exact nofun)]
  exact nofun

end Later

/-- The writes survive another transaction's commit. -/
theorem Writes.stable {db' : JobId → Slot} (hw : Writes env db s) (hs : s.Guarded)
    (h : Later s db db') : Writes env db' s where
  sound := hw.sound
  completed k slot hown hk := hw.completed k slot hown (by rwa [h.own hs hown] at hk)
  stays k slot hown hk := hw.stays k slot hown (by rwa [h.own hs hown] at hk)
  known k slot hown row hrow d hd := h.view_known (hw.known k slot hown row hrow d hd)
  satisfied k slot hown row hrow hsat d hd :=
    h.view_completed (hw.satisfied k slot hown row hrow hsat d hd)
  waits k slot hown row hrow hwaits := by
    obtain ⟨d, hd, hheld, hopen⟩ := hw.waits k slot hown row hrow hwaits
    exact ⟨d, hd, hheld, by rw [h.view_held hheld, hopen]⟩
  spared k slot hown row hrow hpending d hd := by
    rcases hw.spared k slot hown row hrow hpending d hd with hc | ⟨hheld, hspared⟩
    · exact .inl (h.view_completed hc)
    · exact .inr ⟨hheld, by rwa [h.view_held hheld]⟩

/-- A job that another transaction leaves pending, with a dependency
that this one has written, was pending before, unless the dependency
completed. -/
theorem stored_of_view (hother : Writes env db other) (hs : s.Guarded) (hguarded : other.Guarded)
    (hapart : Apart s other) (hd : s.own d ≠ none) (hopen : (db d).completed = false)
    (hrow : (other.view db k).stored = some row) (hpending : row.status = .pending)
    (hdep : d ∈ row.dependsOn) : other.own k = none ∧ (db k).stored = some row := by
  cases hown : other.own k with
  | none => exact ⟨rfl, by rwa [view_of_not_own hown] at hrow⟩
  | some slot =>
      rw [view_of_own hown] at hrow
      have hex := hs d hd
      have hfree : other.held d = none := (hapart d).1 hex
      have hheld : s.held d ≠ none := by
        rw [hex]
        exact nofun
      rcases hother.spared k slot hown row hrow hpending d hdep with hc | ⟨hheld', -⟩
      · rw [view_of_held hapart hguarded db hheld, hopen] at hc
        cases hc
      · exact absurd hfree hheld'

/-- What a transaction has still to release survives another's commit.
-/
theorem OwesRelease.stable {owes : JobId → Prop} (h : OwesRelease db s owes)
    (hs : s.Guarded) (hguarded : other.Guarded) (hapart : Apart s other)
    (hother : Writes env db other) (hdone : OwesRelease db other fun _ => False) :
    OwesRelease (other.view db) s owes := by
  intro d slot hown hc hopen k row hk hrow hwaits hdep
  have hlater := hother.later hapart hguarded
  rw [hlater.own hs hown] at hopen
  obtain ⟨hk', hrow⟩ := stored_of_view hother hs hguarded hapart (by rw [hown]; exact nofun)
    hopen hrow hwaits.1 hdep
  rcases h d slot hown hc hopen k row hk hrow hwaits hdep with howes | ⟨hheld, d', hd', hopen'⟩
  · exact .inl howes
  · refine .inr ⟨hheld, d', hd', ?_⟩
    cases hown' : s.own d' with
    | some slot' =>
        rw [view_of_own hown'] at hopen' ⊢
        exact hopen'
    | none =>
        rw [view_of_not_own hown'] at hopen' ⊢
        cases hotherd : other.own d' with
        | none => rwa [view_of_not_own hotherd]
        | some slot' =>
            rw [view_of_own hotherd]
            by_contra hc'
            -- the other transaction completed `d'`, so it holds the waiting job itself
            rcases hdone d' slot' hotherd (by simpa using hc') hopen' k row hk' hrow hwaits hd'
              with hf | ⟨hheld', -⟩
            · exact hf
            · rw [(hapart k).1 hheld] at hheld'
              cases hheld'

/-- What a transaction has still to fail survives another's commit. -/
theorem OwesFailure.stable {owes : JobId → JobId → Prop} (h : OwesFailure env db s owes)
    (hw : Writes env db s) (hs : s.Guarded) (hguarded : other.Guarded) (hapart : Apart s other)
    (hother : Writes env db other) : OwesFailure env (other.view db) s owes := by
  intro d slot hown hf hnot k row hk hrow hpending hdep
  have hlater := hother.later hapart hguarded
  rw [hlater.own hs hown] at hnot
  have hopen : (db d).completed = false := by
    by_contra hc
    exact (hw.sound d slot hown).not_fails_of_completed
      (hw.completed d slot hown (by simpa using hc)) hf
  obtain ⟨-, hrow⟩ := stored_of_view hother hs hguarded hapart (by rw [hown]; exact nofun)
    hopen hrow hpending hdep
  exact h d slot hown hf hnot k row hk hrow hpending hdep

-- == own writes

/-- A transaction that wrote nothing yet. -/
def Untouched (s : Tx) : Prop := ∀ k, s.own k = none

theorem Untouched.writes (h : Untouched s) : Writes env db s where
  sound k slot hk := by rw [h k] at hk; cases hk
  completed k slot hk := by rw [h k] at hk; cases hk
  stays k slot hk := by rw [h k] at hk; cases hk
  known k slot hk := by rw [h k] at hk; cases hk
  satisfied k slot hk := by rw [h k] at hk; cases hk
  waits k slot hk := by rw [h k] at hk; cases hk
  spared k slot hk := by rw [h k] at hk; cases hk

theorem Untouched.view (h : Untouched s) : s.view db = db :=
  funext fun k => view_of_not_own (h k)

theorem Untouched.owesRelease (h : Untouched s) (owes : JobId → Prop) :
    OwesRelease db s owes := by
  intro d slot hd
  rw [h d] at hd
  cases hd

theorem Untouched.owesFailure (h : Untouched s) (owes : JobId → JobId → Prop) :
    OwesFailure env db s owes := by
  intro d slot hd
  rw [h d] at hd
  cases hd

/-- Locks that are kept. -/
structure KeepsLocks (s s' : Tx) : Prop where
  held : ∀ k, s.held k ≠ none → s'.held k ≠ none
  exclusive : ∀ k, s.held k = some .exclusive → s'.held k = some .exclusive

theorem KeepsLocks.of_move {request : Phase → Request JobId Slot Phase} {rows : List JobId}
    {mode : LockMode} (h : Move request db s rows mode s') : KeepsLocks s s' where
  held _ hk := h.held_mono hk
  exclusive _ hk := h.exclusive_mono hk

/-- Steps that write nothing keep what was written. -/
theorem Writes.of_own (hw : Writes env db s) (hown : s'.own = s.own) (hlocks : KeepsLocks s s') :
    Writes env db s' := by
  have hview := view_congr hown db
  refine ⟨?_, ?_, ?_, ?_, ?_, ?_, ?_⟩ <;> rw [hown] <;> try rw [hview]
  · exact hw.sound
  · exact hw.completed
  · exact hw.stays
  · exact hw.known
  · exact hw.satisfied
  · intro k slot hk row hrow hwaits
    obtain ⟨d, hd, hheld, hopen⟩ := hw.waits k slot hk row hrow hwaits
    exact ⟨d, hd, hlocks.held d hheld, hopen⟩
  · intro k slot hk row hrow hpending d hd
    exact (hw.spared k slot hk row hrow hpending d hd).imp_right
      fun h => ⟨hlocks.held d h.1, h.2⟩

/-- Steps that write nothing may hand over what is left to release. -/
theorem OwesRelease.of_own {owes owes' : JobId → Prop} (h : OwesRelease db s owes)
    (hown : s'.own = s.own) (hlocks : KeepsLocks s s')
    (howes : ∀ d slot k row, s.own d = some slot → slot.completed = true → s.own k = none →
      (db k).stored = some row → Waits row → d ∈ row.dependsOn → owes k →
      owes' k ∨ (s'.held k = some .exclusive ∧
        ∃ d' ∈ row.dependsOn, (s.view db d').completed = false)) :
    OwesRelease db s' owes' := by
  intro d slot hd hc hopen k row hk hrow hwaits hdep
  rw [hown] at hd hk
  rw [view_congr hown]
  rcases h d slot hd hc hopen k row hk hrow hwaits hdep with hleft | ⟨hheld, hwait⟩
  · exact howes d slot k row hd hc hk hrow hwaits hdep hleft
  · exact .inr ⟨hlocks.exclusive k hheld, hwait⟩

/-- Steps that write nothing may hand over what is left to fail. -/
theorem OwesFailure.of_own {owes owes' : JobId → JobId → Prop} (h : OwesFailure env db s owes)
    (hown : s'.own = s.own)
    (howes : ∀ d slot k row, s.own d = some slot → slot.Fails env → s.own k = none →
      (db k).stored = some row → row.status = .pending → d ∈ row.dependsOn → owes d k →
      owes' d k) :
    OwesFailure env db s' owes' := by
  intro d slot hd hf hnot k row hk hrow hpending hdep
  rw [hown] at hd hk
  exact howes d slot k row hd hf hk hrow hpending hdep
    (h d slot hd hf hnot k row hk hrow hpending hdep)

/-- A transaction that completed nothing has nothing to release. -/
theorem OwesRelease.of_open (h : ∀ d slot, s.own d = some slot → slot.completed = false)
    (owes : JobId → Prop) : OwesRelease db s owes := by
  intro d slot hd hc
  rw [h d slot hd] at hc
  cases hc

/-- A transaction that failed nothing has nothing to fail. -/
theorem OwesFailure.of_spared (h : ∀ d slot, s.own d = some slot → ¬ slot.Fails env)
    (owes : JobId → JobId → Prop) : OwesFailure env db s owes := by
  intro d slot hd hf
  exact absurd hf (h d slot hd)

/-- A statement rewrote the row of `k`, which the transaction had not
written yet and which had not completed. -/
structure Put (db : JobId → Slot) (s s' : Tx) (k : JobId) (row row' : Job) (new : Slot) :
    Prop where
  fresh : s.own k = none
  old : (db k).stored = some row
  unfinished : row.status ≠ .completed
  own : s'.own = fun x => if x = k then some new else s.own x
  locks : KeepsLocks s s'
  stored : new.stored = some row'
  archived : new.archived = (db k).archived
  id_eq : row'.id = row.id
  deps : row'.dependsOn = row.dependsOn
  open_ : row'.status ≠ .completed

namespace Put

variable {new : Slot} (h : Put db s s' k row row' new)
include h

theorem own_self : s'.own k = some new := by
  rw [h.own]
  exact if_pos rfl

theorem own_ne {x : JobId} (hx : x ≠ k) : s'.own x = s.own x := by
  rw [h.own]
  exact if_neg hx

theorem view_self : s'.view db k = new := view_of_own h.own_self

theorem view_ne {x : JobId} (hx : x ≠ k) : s'.view db x = s.view db x := by
  unfold Session.view
  rw [h.own_ne hx]

/-- A row written before, or the new one. -/
theorem own_cases {x : JobId} {slot : Slot} (hx : s'.own x = some slot) :
    (x = k ∧ slot = new) ∨ (x ≠ k ∧ s.own x = some slot) := by
  by_cases hk : x = k
  · rw [hk, h.own_self] at hx
    exact .inl ⟨hk, (Option.some.inj hx).symm⟩
  · exact .inr ⟨hk, by rwa [h.own_ne hk] at hx⟩

theorem own_none {x : JobId} (hx : s'.own x = none) : x ≠ k ∧ s.own x = none := by
  have hne : x ≠ k := by
    intro hk
    rw [hk, h.own_self] at hx
    cases hx
  exact ⟨hne, by rwa [h.own_ne hne] at hx⟩

variable (hdb : Consistent env db)
include hdb

theorem archived_none : new.archived = none := by
  rw [h.archived, (hdb.sound k).once row h.old]

/-- The new row is the job's only one. -/
theorem has_iff {r : Job} : new.Has r ↔ r = row' := by
  unfold Slot.Has
  rw [h.stored, h.archived_none hdb]
  simp [eq_comm]

theorem new_open : new.completed = false := by
  unfold Slot.completed
  rw [h.stored, h.archived_none hdb]
  simpa using h.open_

theorem old_open : (s.view db k).completed = false := by
  rw [view_of_not_own h.fresh, (hdb.sound k).completed_eq (.inl h.old)]
  simpa using h.unfinished

/-- What had completed for the transaction has still. -/
theorem view_completed {x : JobId} : (s'.view db x).completed = (s.view db x).completed := by
  by_cases hx : x = k
  · rw [hx, h.view_self, h.new_open hdb, h.old_open hdb]
  · rw [h.view_ne hx]

omit hdb in
theorem view_known {x : JobId} (hx : (s.view db x).Known) : (s'.view db x).Known := by
  by_cases hk : x = k
  · rw [hk, h.view_self]
    exact Slot.known_of_stored h.stored
  · rwa [h.view_ne hk]

/-- The writes with the new row, which does not wait, is released only
if its dependencies completed, and fails no row written as pending. -/
theorem writes (hw : Writes env db s)
    (hrunning : row'.status = .running → row'.dependsOn ≠ [] →
      row'.dependencyStatus = .satisfied)
    (hwaiting : row'.dependencyStatus = .waiting → row.dependencyStatus = .waiting)
    (hsatisfied : row'.dependencyStatus = .satisfied →
      ∀ d ∈ row.dependsOn, (s.view db d).completed = true)
    (hpending : row'.status = .pending → row'.dependencyStatus = .satisfied)
    (hspares : ¬ new.Fails env ∨
      ∀ x slot, s.own x = some slot → ∀ r, slot.stored = some r → r.status ≠ .pending) :
    Writes env db s' where
  sound x slot hx := by
    rcases h.own_cases hx with ⟨rfl, rfl⟩ | ⟨-, hx⟩
    · refine ⟨?_, ?_, ?_, ?_, ?_, ?_⟩
      · intro r hr
        rw [(h.has_iff hdb).1 hr, h.id_eq]
        exact (hdb.sound x).id_eq row (.inl h.old)
      · exact fun _ _ => h.archived_none hdb
      · intro r hr
        rw [h.archived_none hdb] at hr
        cases hr
      · intro r hr hp _
        cases h.stored.symm.trans hr
        exact .inr (hpending hp)
      · intro r hr
        cases h.stored.symm.trans hr
        exact hrunning
      · intro r hr hwait
        cases (h.has_iff hdb).1 hr
        rw [h.deps]
        exact (hdb.sound x).waiting row (.inl h.old) (hwaiting hwait)
    · exact hw.sound x slot hx
  completed x slot hx hc := by
    rcases h.own_cases hx with ⟨rfl, rfl⟩ | ⟨-, hx⟩
    · have hopen := h.old_open hdb
      rw [view_of_not_own h.fresh, hc] at hopen
      cases hopen
    · exact hw.completed x slot hx hc
  stays x slot hx hk := by
    rcases h.own_cases hx with ⟨rfl, rfl⟩ | ⟨-, hx⟩
    · exact Slot.known_of_stored h.stored
    · exact hw.stays x slot hx hk
  known x slot hx r hr d hd := by
    refine h.view_known ?_
    rcases h.own_cases hx with ⟨rfl, rfl⟩ | ⟨-, hx⟩
    · rw [(h.has_iff hdb).1 hr, h.deps] at hd
      exact hw.view_known (hdb.known x row (.inl h.old) d hd)
    · exact hw.known x slot hx r hr d hd
  satisfied x slot hx r hr hsat d hd := by
    rw [h.view_completed hdb]
    rcases h.own_cases hx with ⟨rfl, rfl⟩ | ⟨-, hx⟩
    · cases (h.has_iff hdb).1 hr
      rw [h.deps] at hd
      exact hsatisfied hsat d hd
    · exact hw.satisfied x slot hx r hr hsat d hd
  waits x slot hx r hr hwait := by
    rcases h.own_cases hx with ⟨rfl, rfl⟩ | ⟨-, hx⟩
    · cases h.stored.symm.trans hr
      have hsat := hpending hwait.1
      rw [hwait.2] at hsat
      cases hsat
    · obtain ⟨d, hd, hheld, hopen⟩ := hw.waits x slot hx r hr hwait
      exact ⟨d, hd, h.locks.held d hheld, by rw [h.view_completed hdb, hopen]⟩
  spared x slot hx r hr hp d hd := by
    rw [h.view_completed hdb]
    rcases h.own_cases hx with ⟨rfl, rfl⟩ | ⟨-, hx⟩
    · cases h.stored.symm.trans hr
      rw [h.deps] at hd
      exact .inl (hsatisfied (hpending hp) d hd)
    · rcases hspares with hspares | hnone
      · refine (hw.spared x slot hx r hr hp d hd).imp_right fun hspared => ?_
        refine ⟨h.locks.held d hspared.1, ?_⟩
        by_cases hdk : d = k
        · rwa [hdk, h.view_self]
        · rw [h.view_ne hdk]
          exact hspared.2
      · exact absurd hp (hnone x slot hx r hr)

/-- The new row completes nothing; the rest is left to release. -/
theorem owesRelease {owes owes' : JobId → Prop} (ho : OwesRelease db s owes)
    (howes : ∀ x, x ≠ k → owes x → owes' x) : OwesRelease db s' owes' := by
  intro d slot hd hc hopen x r hx hr hwaits hdep
  obtain ⟨hne, hx⟩ := h.own_none hx
  rcases h.own_cases hd with ⟨rfl, rfl⟩ | ⟨-, hd⟩
  · rw [h.new_open hdb] at hc
    cases hc
  · rcases ho d slot hd hc hopen x r hx hr hwaits hdep with hleft | ⟨hheld, d', hd', hopen'⟩
    · exact .inl (howes x hne hleft)
    · exact .inr ⟨h.locks.exclusive x hheld, d', hd', by rw [h.view_completed hdb, hopen']⟩

omit hdb in
/-- The new row may fail its dependents, which are then left to fail. -/
theorem owesFailure {owes owes' : JobId → JobId → Prop} (ho : OwesFailure env db s owes)
    (howes : ∀ d x, x ≠ k → owes d x → owes' d x)
    (hnew : new.Fails env → ∀ x, owes' k x) : OwesFailure env db s' owes' := by
  intro d slot hd hf hnot x r hx hr hp hdep
  obtain ⟨hne, hx⟩ := h.own_none hx
  rcases h.own_cases hd with ⟨rfl, rfl⟩ | ⟨-, hd⟩
  · exact hnew hf x
  · exact howes d x hne (ho d slot hd hf hnot x r hx hr hp hdep)

end Put

end Postgres

end Hammerwork
