/-
The statements after the first write, and every statement together.

These go over rows: `dependents` takes the rows to release, and the
updates rewrite rows nobody has written yet (`put_of_hit`), so that what
is left to do is what the statement has still to visit. A row that was
taken is locked, so that no other transaction gets in between.
-/
import Hammerwork.Proofs.Statements

namespace Hammerwork

namespace Postgres

open ReadCommitted

variable {env : Env} {db : JobId → Slot} {slot new : Slot} {k d : JobId} {job row : Job}
  {s s' : Tx} {jobs : List Job} {target : Target} {now wall : DateTime}
  {status : DependencyStatus} {locked : List (JobId × Slot)} {rows : List JobId}
  {mode : LockMode} {stmt : Statement JobId Slot} {next : List (JobId × Slot) → Phase}

-- == release

theorem waitsFor_iff : waitsFor d row = true ↔ d ∈ row.dependsOn ∧ Waits row := by
  unfold waitsFor Waits
  simp only [Bool.and_eq_true, List.contains_iff_mem, decide_eq_true_eq]
  tauto

theorem Slot.Sound.open_of_pending {id : JobId} (hs : slot.Sound id)
    (hrow : slot.stored = some row) (hp : row.status = .pending) : slot.completed = false := by
  rw [hs.completed_eq (.inl hrow), hp]
  rfl

/-- The dependents taken are locked and wait: the rows written are those
of completed jobs. -/
theorem waiting_of_took (hw : Writes env db s)
    (hcompleted : ∀ k slot, s.own k = some slot → slot.completed = true)
    {hits : List (JobId × Slot)}
    (htook : s.Took db (.whereRow .forUpdate fun _ slot => slot.stored.any (waitsFor d)) hits) :
    ∀ k ∈ hits.map (·.1), s.held k = some .exclusive ∧ s.own k = none ∧
      ∃ row, (db k).stored = some row ∧ Waits row := by
  intro k hk
  obtain ⟨e, he, rfl⟩ := List.mem_map.1 hk
  obtain ⟨hheld, hversion, hkeeps⟩ := htook e he
  have hkeeps : e.2.stored.any (waitsFor d) = true := hkeeps
  rw [hversion] at hkeeps
  obtain ⟨row, hrow, hwants⟩ := (Option.any_eq_true _ _).1 hkeeps
  have hwaits := (waitsFor_iff.1 hwants).2
  have hnone : s.own e.1 = none := by
    cases hk : s.own e.1 with
    | none => rfl
    | some slot =>
        rw [view_of_own hk] at hrow
        have hc := hcompleted e.1 slot hk
        rw [(hw.sound e.1 slot hk).open_of_pending hrow hwaits.1] at hc
        cases hc
  rw [view_of_not_own hnone] at hrow
  exact ⟨hheld, hnone, row, hrow, hwaits⟩

/-- The statement that takes the dependents of a completed job. -/
theorem moves_dependents (h : Asserts env db s) (hphase : s.phase = .dependents job)
    (hmove : Move (Phase.request env) db s rows mode s') : Asserts env db s' := by
  have hreq : s.phase.request env = .scan
      (.whereRow .forUpdate fun _ slot => slot.stored.any (waitsFor job.id))
      fun hits => if hits.isEmpty then .finished else .release (hits.map (·.1)) := by
    rw [hphase]
    rfl
  have hfacts : ∀ k slot, s.own k = some slot → k = job.id ∧ slot.completed = true :=
    h.facts_of hphase
  have htaking := h.taking _ _ hreq (not_update_forUpdate _)
  have hlocks := KeepsLocks.of_move hmove
  obtain ⟨hown, hafter⟩ := hmove.select hreq (not_update_forUpdate _) htaking
  have hwrites := h.writes.of_own hown hlocks
  have hrelease := h.release
  rw [hphase] at hrelease
  have hspared : ∀ k slot, s'.own k = some slot → ¬ slot.Fails env := by
    intro k slot hk
    rw [hown] at hk
    exact (h.writes.sound k slot hk).not_fails_of_completed (hfacts k slot hk).2
  -- a dependent that waits is one the statement wants
  have hwanted : ∀ d slot k row, s.own d = some slot → s.own k = none →
      (db k).stored = some row → Waits row → d ∈ row.dependsOn →
      (s.view db k).stored.any (waitsFor job.id) = true := by
    intro d slot k row hd hk hrow hwaits hdep
    rw [view_of_not_own hk, hrow]
    rw [(hfacts d slot hd).1] at hdep
    exact waitsFor_iff.2 ⟨hdep, hwaits⟩
  have hstays : s'.phase = s.phase → s'.Taking db
      (.whereRow .forUpdate fun _ slot => slot.stored.any (waitsFor job.id)) →
      OwesRelease db s' (LeftToRelease (.dependents job) s'.scan) → Asserts env db s' := by
    intro hp htaking' hr
    refine ⟨fun hidle => absurd hreq (hp ▸ hidle _ _), fun stmt' next' hreq' _ => ?_, hwrites, ?_,
      .of_spared hspared _, ?_⟩
    · rw [hp, hreq] at hreq'
      cases hreq'
      exact htaking'
    · rwa [hp, hphase]
    · rw [hp, hphase]
      intro k slot hk
      rw [hown] at hk
      exact hfacts k slot hk
  rcases hmove.of_scan hreq with ⟨-, heq⟩ | ⟨scan, k, hscan, htodo, hkeeps, heq⟩ |
    ⟨scan, k, hscan, htodo, hmiss, heq⟩ | ⟨scan, hscan, hdone, heq⟩
  · rcases hafter with ⟨hp, htaking'⟩ | ⟨hits, -, hnone, -⟩
    · refine hstays hp htaking' (hrelease.of_own hown hlocks ?_)
      intro d slot k row hd _ hk hrow hwaits hdep _
      rw [heq]
      exact .inl (.inl (hwanted d slot k row hd hk hrow hwaits hdep))
    · rw [heq] at hnone
      cases hnone
  · rcases hafter with ⟨hp, htaking'⟩ | ⟨hits, -, hnone, -⟩
    · refine hstays hp htaking' (hrelease.of_own hown hlocks ?_)
      intro d slot x row hd _ hx hrow hwaits hdep hleft
      rw [hscan] at hleft
      rw [heq]
      left
      show (scan.take k (s.view db k)).todo x = true ∨
        x ∈ (scan.take k (s.view db k)).hits.map (·.1)
      rw [Scan.todo_take, Scan.mem_hits_take]
      by_cases hxk : x = k
      · exact .inr (.inr hxk)
      · rcases hleft with htodo | hhit
        · exact .inl ⟨hxk, htodo⟩
        · exact .inr (.inl hhit)
    · rw [heq] at hnone
      cases hnone
  · rcases hafter with ⟨hp, htaking'⟩ | ⟨hits, -, hnone, -⟩
    · refine hstays hp htaking' (hrelease.of_own hown hlocks ?_)
      intro d slot x row hd _ hx hrow hwaits hdep hleft
      rw [hscan] at hleft
      rw [heq]
      left
      show (scan.drop k).todo x = true ∨ x ∈ scan.hits.map (·.1)
      rw [Scan.todo_drop]
      by_cases hxk : x = k
      · have hwant := hwanted d slot x row hd hx hrow hwaits hdep
        rw [hxk] at hwant
        rcases hmiss with hmiss | hskip
        · cases hwant.symm.trans hmiss
        · cases hskip
      · exact hleft.imp_left fun htodo => ⟨hxk, htodo⟩
    · rw [heq] at hnone
      cases hnone
  · have htook := htaking scan hscan
    have hdone : ∀ k, scan.todo k = false := by
      rcases hdone with hdone | hfull
      · exact hdone
      · cases hfull
    have hscan' : s'.scan = none := by rw [heq]
    have hphase' : s'.phase
        = if scan.hits.isEmpty then .finished else .release (scan.hits.map (·.1)) := by rw [heq]
    -- what is left are the rows taken
    have hleft : OwesRelease db s' fun k => k ∈ scan.hits.map (·.1) := by
      refine hrelease.of_own hown hlocks ?_
      intro d slot x row _ _ _ _ _ _ hleft
      rw [hscan] at hleft
      rcases hleft with htodo | hhit
      · rw [hdone x] at htodo
        cases htodo
      · exact .inl hhit
    refine ⟨fun _ => hscan', fun _ _ _ _ scan h => ?_, hwrites, ?_, .of_spared hspared _, ?_⟩
    · rw [hscan'] at h
      cases h
    · rw [hphase', hscan']
      split
      case isTrue hempty =>
        rw [List.isEmpty_iff.1 hempty] at hleft
        exact hleft.of_own rfl ⟨fun _ h => h, fun _ h => h⟩
          fun _ _ _ _ _ _ _ _ _ _ hk => by cases hk
      case isFalse => exact hleft
    · rw [hphase']
      split
      case isTrue => exact trivial
      case isFalse =>
        have hids := waiting_of_took h.writes (fun k slot hk => (hfacts k slot hk).2) htook
        refine ⟨hspared, fun k hk => ⟨hlocks.exclusive k (hids k hk).1, (hids k hk).2.2⟩,
          fun _ k hk => by rw [hown, (hids k hk).2.1], fun scan h => ?_⟩
        rw [hscan'] at h
        cases h

-- == updates

/-- An `UPDATE` that keeps what the transactions read of a job, its
status and dependency status apart. -/
structure Rewrites (set : Slot → Slot) (f : Job → Job) : Prop where
  stored : ∀ slot, (set slot).stored = slot.stored.map f
  archived : ∀ slot, (set slot).archived = slot.archived
  id_eq : ∀ row, (f row).id = row.id
  deps : ∀ row, (f row).dependsOn = row.dependsOn
  open_ : ∀ row, row.status ≠ .completed → (f row).status ≠ .completed

/-- A row that an `UPDATE` takes, and that nobody wrote yet, is rewritten.
-/
theorem put_of_hit (stmt : Statement JobId Slot) {set : Slot → Slot} {f : Job → Job}
    (hf : Rewrites set f) (haccess : stmt.access = .update set) (hfresh : s.own k = none)
    (hrow : (db k).stored = some row) (hopen : row.status ≠ .completed)
    (hlocks : KeepsLocks s s')
    (hown : s'.own = stmt.access.written s k (s.view db k)) :
    Put db s s' k row (f row) (set (db k)) where
  fresh := hfresh
  old := hrow
  unfinished := hopen
  own := by
    rw [hown, haccess, view_of_not_own hfresh]
    rfl
  locks := hlocks
  stored := by
    rw [hf.stored, hrow]
    rfl
  archived := hf.archived _
  id_eq := hf.id_eq row
  deps := hf.deps row
  open_ := hf.open_ row hopen

/-- Between the rows of an `UPDATE`, or after it, a transaction holds
what it wrote. -/
theorem Asserts.of_update (hw : Writes env db s)
    (hscan : s.scan = none ∨ ∃ stmt next set, s.phase.request env = .scan stmt next ∧
      stmt.access = .update set)
    (hrelease : OwesRelease db s (LeftToRelease s.phase s.scan))
    (hfail : OwesFailure env db s (LeftToFail s.phase s.scan))
    (hfacts : Facts env db s s.phase) : Asserts env db s where
  idle hidle := by
    rcases hscan with hscan | ⟨stmt, next, _, hreq, -⟩
    · exact hscan
    · exact absurd hreq (hidle stmt next)
  taking stmt next hreq hselect scan hs := by
    rcases hscan with hscan | ⟨stmt', next', set, hreq', hset⟩
    · rw [hscan] at hs
      cases hs
    · cases hreq.symm.trans hreq'
      exact absurd hset (hselect set)
  writes := hw
  release := hrelease
  fail := hfail
  facts := hfacts

theorem rewrites_released : Rewrites (Slot.update released) released :=
  ⟨fun _ => rfl, fun _ => rfl, fun _ => rfl, fun _ => rfl, fun _ h => h⟩

/-- The statement that releases the dependents taken. -/
theorem moves_release (hdb : Consistent env db) (h : Asserts env db s) {ids : List JobId}
    (hphase : s.phase = .release ids) (hmove : Move (Phase.request env) db s rows mode s') :
    Asserts env db s' := by
  have hreq : s.phase.request env = .scan (releaseStatement ids) fun _ => .finished := by
    rw [hphase]
    rfl
  obtain ⟨hspared, hids, hnone, hscanning⟩ : Facts env db s (.release ids) := h.facts_of hphase
  have hlocks := KeepsLocks.of_move hmove
  have hlocked : ∀ k ∈ ids, s'.held k = some .exclusive ∧
      ∃ row, (db k).stored = some row ∧ Waits row :=
    fun k hk => ⟨hlocks.exclusive k (hids k hk).1, (hids k hk).2⟩
  have hrelease := h.release
  rw [hphase] at hrelease
  rcases hmove.of_scan hreq with ⟨hnoscan, heq⟩ | ⟨scan, k, hscan, htodo, -, heq⟩ |
    ⟨scan, k, hscan, htodo, hmiss, -⟩ | ⟨scan, hscan, hdone, heq⟩
  · have hown : s'.own = s.own := by rw [heq]
    have hphase' : s'.phase = .release ids := by rw [heq, ← hphase]
    have hscan' : s'.scan = some ⟨(releaseStatement ids).finds (s.view db), []⟩ := by rw [heq]
    refine .of_update (h.writes.of_own hown hlocks)
      (.inr ⟨_, _, _, by rw [hphase', ← hphase, hreq], rfl⟩) ?_
      (.of_spared (by rwa [hown]) _) ?_
    · rw [hphase', hscan']
      refine hrelease.of_own hown hlocks ?_
      intro d slot k row _ _ hk hrow hwaits _ hleft
      rw [hnoscan] at hleft
      have hleft : k ∈ ids := hleft
      by_cases hall : ∀ d' ∈ row.dependsOn, (s.view db d').completed = true
      · left
        show (ids.contains k && (s.view db k).stored.any fun row =>
          row.dependsOn.all fun d' => (s.view db d').completed) = true
        rw [view_of_not_own hk, hrow]
        simpa [hleft] using hall
      · push Not at hall
        obtain ⟨d', hd', hopen⟩ := hall
        exact .inr ⟨(hlocked k hleft).1, d', hd', by simpa using hopen⟩
    · rw [hphase']
      refine ⟨by rwa [hown], hlocked, ?_, fun scan hs k hk => ?_⟩
      · rw [hscan']
        exact nofun
      · rw [hscan'] at hs
        cases hs
        have hk : (ids.contains k && (s.view db k).stored.any fun row =>
          row.dependsOn.all fun d' => (s.view db d').completed) = true := hk
        simp only [Bool.and_eq_true, List.contains_iff_mem, Option.any_eq_true,
          List.all_eq_true] at hk
        obtain ⟨hmem, row, hrow, hall⟩ := hk
        have hfresh := hnone hnoscan k hmem
        rw [view_of_not_own hfresh] at hrow
        refine ⟨by rw [hown, hfresh], hmem, fun row' hrow' d hd => ?_⟩
        cases hrow.symm.trans hrow'
        rw [view_congr hown]
        exact hall d hd
  · obtain ⟨hfresh, hmem, hall⟩ := hscanning scan hscan k htodo
    obtain ⟨-, row, hrow, hwaits⟩ := hids k hmem
    have hput := put_of_hit (releaseStatement ids) rewrites_released rfl hfresh hrow
      (by rw [hwaits.1]; exact nofun) hlocks (by rw [heq])
    have hnot : ¬ ((db k).update released).Fails env := by
      intro ⟨r, hr, hf, _⟩
      rw [(hput.has_iff hdb).1 hr] at hf
      have hf : row.status.EndedInFailure := hf
      rw [hwaits.1] at hf
      rcases hf with hf | hf | hf <;> cases hf
    have hspared' : ∀ x slot, s'.own x = some slot → ¬ slot.Fails env := by
      intro x slot hx
      rcases hput.own_cases hx with ⟨-, rfl⟩ | ⟨-, hx⟩
      · exact hnot
      · exact hspared x slot hx
    have hphase' : s'.phase = .release ids := by rw [heq]; exact hphase
    have hscan' : s'.scan = some (scan.take k (s.view db k)) := by rw [heq]
    have hrunning : (released row).status ≠ .running := by
      show row.status ≠ .running
      rw [hwaits.1]
      exact nofun
    have hwrites := hput.writes hdb h.writes (fun hrun => absurd hrun hrunning) nofun
      (fun _ => hall row hrow) (fun _ => rfl) (.inl hnot)
    refine .of_update hwrites (.inr ⟨_, _, _, by rw [hphase', ← hphase, hreq], rfl⟩) ?_
      (.of_spared hspared' _) ?_
    · rw [hphase', hscan']
      refine hput.owesRelease hdb hrelease fun x hx hleft => ?_
      rw [hscan] at hleft
      exact Scan.todo_take.2 ⟨hx, hleft⟩
    · rw [hphase']
      refine ⟨hspared', hlocked, ?_, ?_⟩
      · rw [hscan']
        exact nofun
      · intro scan' hs x hx
        rw [hscan'] at hs
        cases hs
        obtain ⟨hne, hx⟩ := Scan.todo_take.1 hx
        obtain ⟨hown, hmem, hdeps⟩ := hscanning scan hscan x hx
        refine ⟨by rw [hput.own_ne hne, hown], hmem, fun r hr d hd => ?_⟩
        rw [hput.view_completed hdb]
        exact hdeps r hr d hd
  · -- the rows to release are locked, so none has changed
    obtain ⟨hfresh, hmem, -⟩ := hscanning scan hscan k htodo
    obtain ⟨-, row, hrow, -⟩ := hids k hmem
    rcases hmiss with hmiss | hskip
    · have hmiss : (ids.contains k && (s.view db k).stored.isSome) = false := hmiss
      rw [view_of_not_own hfresh, hrow] at hmiss
      simp [hmem] at hmiss
    · cases hskip
  · have hdone : ∀ k, scan.todo k = false := hdone.resolve_right nofun
    have hown : s'.own = s.own := by rw [heq]
    have hphase' : s'.phase = .finished := by rw [heq]
    refine .of_update (h.writes.of_own hown hlocks) (.inl (by rw [heq])) ?_
      (.of_spared (by rwa [hown]) _) ?_
    · rw [hphase']
      refine hrelease.of_own hown hlocks ?_
      intro d slot k row _ _ _ _ _ _ hleft
      rw [hscan] at hleft
      have hleft : scan.todo k = true := hleft
      rw [hdone k] at hleft
      cases hleft
    · rw [hphase']
      exact trivial

-- == failures

/-- An `UPDATE` that fails rows. -/
structure Failing (by_ : EndedBy) (f : Job → Job) : Prop where
  rewrites : Rewrites (Slot.finish by_ f) f
  status : ∀ row, (f row).status = .failed
  waiting : ∀ row, (f row).dependencyStatus = .waiting → row.dependencyStatus = .waiting
  satisfied : ∀ row, (f row).dependencyStatus = .satisfied → row.dependencyStatus = .satisfied

theorem failing_workflow (failed : JobId) (now : DateTime) :
    Failing .policy (workflowFailed failed now) where
  rewrites := ⟨fun _ => rfl, fun _ => rfl, fun _ => rfl, fun _ => rfl, fun _ _ => nofun⟩
  status _ := rfl
  waiting row h := by
    have h : (if row.dependencyStatus = .waiting then _ else row.dependencyStatus) = _ := h
    split at h
    · cases h
    · exact h
  satisfied row h := by
    have h : (if row.dependencyStatus = .waiting then _ else row.dependencyStatus) = _ := h
    split at h
    · cases h
    · exact h

theorem failing_dependents (current : JobId) (now : DateTime) :
    Failing .dependency (dependencyFailed current now) where
  rewrites := ⟨fun _ => rfl, fun _ => rfl, fun _ => rfl, fun _ => rfl, fun _ _ => nofun⟩
  status _ := rfl
  waiting _ := nofun
  satisfied _ := nofun

theorem failing_batch (failed : JobId) (now : DateTime) :
    Failing .policy (batchFailed failed now) where
  rewrites := ⟨fun _ => rfl, fun _ => rfl, fun _ => rfl, fun _ => rfl, fun _ _ => nofun⟩
  status _ := rfl
  waiting _ h := h
  satisfied _ h := h

theorem unstarted_iff : TestStorage.unstarted row = true ↔
    row.status = .pending ∨ row.status = .retrying := by
  unfold TestStorage.unstarted
  simp

theorem Ended.of_own (h : Ended s) (hown : s'.own = s.own) : Ended s' := by
  intro k slot hk
  rw [hown] at hk
  exact h k slot hk

/-- The step of a statement that fails rows that have not started. -/
theorem moves_failing (hdb : Consistent env db) (h : Asserts env db s) (hended : Ended s)
    {by_ : EndedBy} {f : Job → Job} {p : JobId → Slot → Bool} (hf : Failing by_ f)
    (hp : ∀ k slot, p k slot = true → ∃ row, slot.stored = some row ∧
      (row.status = .pending ∨ row.status = .retrying))
    (hreq : s.phase.request env = .scan (.whereRow (.update (Slot.finish by_ f)) p) next)
    (hmove : Move (Phase.request env) db s rows mode s') :
    Writes env db s' ∧ Ended s' ∧
      ((s.scan = none ∧ s'.own = s.own ∧ s'.phase = s.phase ∧
          s'.scan = some ⟨fun k => p k (s.view db k), []⟩) ∨
        (∃ scan k row, s.scan = some scan ∧
          Put db s s' k row (f row) (Slot.finish by_ f (db k)) ∧ s'.phase = s.phase ∧
          s'.scan = some (scan.take k (s.view db k))) ∨
        (∃ scan k, s.scan = some scan ∧ p k (s.view db k) = false ∧ s'.own = s.own ∧
          s'.phase = s.phase ∧ s'.scan = some (scan.drop k)) ∨
        (∃ scan, s.scan = some scan ∧ (∀ k, scan.todo k = false) ∧ s'.own = s.own ∧
          s'.phase = next scan.hits ∧ s'.scan = none)) := by
  have hlocks := KeepsLocks.of_move hmove
  rcases hmove.of_scan hreq with ⟨hnone, heq⟩ | ⟨scan, k, hscan, -, hkeeps, heq⟩ |
    ⟨scan, k, hscan, -, hmiss, heq⟩ | ⟨scan, hscan, hdone, heq⟩
  · have hown : s'.own = s.own := by rw [heq]
    exact ⟨h.writes.of_own hown hlocks, hended.of_own hown, .inl ⟨hnone, hown, by rw [heq],
      by rw [heq]; rfl⟩⟩
  · obtain ⟨row, hrow, hst⟩ := hp k _ hkeeps
    -- what the transaction wrote has ended, so this row is as it is stored
    have hfresh : s.own k = none := by
      cases hk : s.own k with
      | none => rfl
      | some slot =>
          rw [view_of_own hk] at hrow
          obtain ⟨r, hr, hend⟩ := hended k slot hk
          cases hrow.symm.trans hr
          rcases hst with hst | hst <;> rw [hst] at hend <;>
            rcases hend with hend | hend | hend <;> cases hend
    rw [view_of_not_own hfresh] at hrow
    have hput := put_of_hit (.whereRow (.update (Slot.finish by_ f)) p) hf.rewrites rfl
      hfresh hrow (by rcases hst with hst | hst <;> rw [hst] <;> exact nofun) hlocks
      (by rw [heq])
    refine ⟨?_, ?_, .inr (.inl ⟨scan, k, row, hscan, hput, by rw [heq]; rfl, by rw [heq]⟩)⟩
    · refine hput.writes hdb h.writes ?_ (hf.waiting row) ?_ ?_ (.inr ?_)
      · intro hrun
        rw [hf.status] at hrun
        cases hrun
      · intro hsat d hd
        exact h.writes.view_completed
          (hdb.satisfied k row (.inl hrow) (hf.satisfied row hsat) d hd)
      · intro hpending
        rw [hf.status] at hpending
        cases hpending
      · intro x slot hx r hr hpending
        obtain ⟨r', hr', hend⟩ := hended x slot hx
        cases hr.symm.trans hr'
        rw [hpending] at hend
        rcases hend with hend | hend | hend <;> cases hend
    · intro x slot hx
      rcases hput.own_cases hx with ⟨-, rfl⟩ | ⟨-, hx⟩
      · exact ⟨f row, hput.stored, .inl (hf.status row)⟩
      · exact hended x slot hx
  · have hown : s'.own = s.own := by rw [heq]
    exact ⟨h.writes.of_own hown hlocks, hended.of_own hown, .inr (.inr (.inl ⟨scan, k, hscan,
      hmiss.resolve_right nofun, hown, by rw [heq], by rw [heq]⟩))⟩
  · have hown : s'.own = s.own := by rw [heq]
    exact ⟨h.writes.of_own hown hlocks, hended.of_own hown, .inr (.inr (.inr ⟨scan, hscan,
      hdone.resolve_right nofun, hown, by rw [heq], by rw [heq]⟩))⟩

/-- Rows that ended in failure completed nothing. -/
theorem Ended.owesRelease (h : Ended s) (hw : Writes env db s) (owes : JobId → Prop) :
    OwesRelease db s owes := by
  refine .of_open (fun d slot hd => ?_) owes
  obtain ⟨row, hrow, hend⟩ := h d slot hd
  rw [(hw.sound d slot hd).completed_eq (.inl hrow)]
  rcases hend with hend | hend | hend <;> simp [hend]

/-- A row failed by a policy does not fail its dependents. -/
theorem not_fails_of_policy (slot : Slot) (f : Job → Job) :
    ¬ (slot.finish .policy f).Fails env := by
  intro ⟨_, _, _, hended, _⟩
  rcases hended with hended | hended <;> cases hended

/-- The jobs of a fail-fast workflow are failed. -/
theorem moves_workflowPending (hdb : Consistent env db) (h : Asserts env db s)
    {workflowId : WorkflowId} (hphase : s.phase = .workflowPending job workflowId now)
    (hmove : Move (Phase.request env) db s rows mode s') : Asserts env db s' := by
  obtain ⟨hended, honly⟩ : Facts env db s (.workflowPending job workflowId now) :=
    h.facts_of hphase
  have hreq : s.phase.request env = .scan
      (.whereRow (.update (Slot.finish .policy (workflowFailed job.id now))) fun id slot =>
        slot.stored.any fun row =>
          row.workflowId = some workflowId && id ≠ job.id && TestStorage.unstarted row)
      fun _ => .failing job now job.id [] [] := by
    rw [hphase]
    rfl
  have hunstarted : ∀ (k : JobId) (slot : Slot), (slot.stored.any fun row =>
      row.workflowId = some workflowId && k ≠ job.id && TestStorage.unstarted row) = true →
      ∃ row, slot.stored = some row ∧ (row.status = .pending ∨ row.status = .retrying) := by
    intro k slot hp
    obtain ⟨row, hrow, hp⟩ := (Option.any_eq_true _ _).1 hp
    simp only [Bool.and_eq_true] at hp
    exact ⟨row, hrow, unstarted_iff.1 hp.2⟩
  obtain ⟨hw, hended', hcases⟩ := moves_failing hdb h hended (failing_workflow job.id now)
    hunstarted hreq hmove
  have hfail := h.fail
  rw [hphase] at hfail
  -- until the statement is over, everything is left to fail
  have hduring : ∀ {scan}, s'.phase = s.phase → s'.scan = some scan →
      (∀ k slot, s'.own k = some slot → slot.Fails env → k = job.id) → Asserts env db s' := by
    intro scan hp hscan honly'
    refine .of_update hw (.inr ⟨_, _, _, by rw [hp, hreq], rfl⟩) (hended'.owesRelease hw _) ?_ ?_
    · rw [hp, hphase]
      intro _ _ _ _ _ _ _ _ _ _ _
      exact trivial
    · rw [hp, hphase]
      exact ⟨hended', honly'⟩
  rcases hcases with ⟨-, hown, hp, hscan⟩ | ⟨scan, k, row, -, hput, hp, hscan⟩ |
    ⟨scan, k, -, -, hown, hp, hscan⟩ | ⟨scan, -, -, hown, hp, hscan⟩
  · exact hduring hp hscan (by rwa [hown])
  · refine hduring hp hscan fun x slot hx hf => ?_
    rcases hput.own_cases hx with ⟨-, rfl⟩ | ⟨-, hx⟩
    · exact absurd hf (not_fails_of_policy _ _)
    · exact honly x slot hx hf
  · exact hduring hp hscan (by rwa [hown])
  · refine .of_update hw (.inl hscan) (hended'.owesRelease hw _) ?_ ?_
    · rw [hp, hscan]
      refine hfail.of_own hown fun d slot k row hd hf _ _ _ _ _ => ?_
      exact .inl (honly d slot hd hf)
    · rw [hp]
      refine ⟨hended', nofun, fun scan hs => ?_⟩
      rw [hscan] at hs
      cases hs

/-- The next phase of a failure has no more to fail than what is still
to be checked. -/
theorem facts_failNext (hended : Ended s) (hscan : s.scan = none) {toCheck failed : List JobId}
    (hfailed : ∀ k ∈ failed, s.own k ≠ none)
    (howes : OwesFailure env db s fun d _ => d ∈ toCheck) {phase : Phase}
    (hphase : phase = Phase.failNext env job now toCheck failed) :
    OwesFailure env db s (LeftToFail phase s.scan) ∧ Facts env db s phase := by
  rw [hscan]
  cases toCheck with
  | nil =>
      refine ⟨howes.of_own rfl fun _ _ _ _ _ _ _ _ _ _ hd => (List.not_mem_nil hd).elim, ?_⟩
      have hphase : phase = Phase.batchOutcome env job now := hphase
      unfold Phase.batchOutcome at hphase
      split at hphase
      · split at hphase
        · rw [hphase]
          exact hended
        · rw [hphase]
          exact trivial
      · rw [hphase]
        exact trivial
  | cons current toCheck =>
      have hphase : phase = .failing job now current toCheck failed := hphase
      rw [hphase]
      refine ⟨howes.of_own rfl fun _ _ _ _ _ _ _ _ _ _ hd => List.mem_cons.1 hd, hended, hfailed,
        fun scan hs => ?_⟩
      rw [hscan] at hs
      cases hs

/-- The dependents of a failed job are failed. -/
theorem moves_dependentsFail (hdb : Consistent env db) (h : Asserts env db s) {current : JobId}
    {toCheck failed : List JobId} (hphase : s.phase = .failing job now current toCheck failed)
    (hmove : Move (Phase.request env) db s rows mode s') : Asserts env db s' := by
  obtain ⟨hended, hfailed, hhits⟩ : Facts env db s (.failing job now current toCheck failed) :=
    h.facts_of hphase
  have hreq : s.phase.request env = .scan
      (.whereRow (.update (Slot.finish .dependency (dependencyFailed current now))) fun _ slot =>
        slot.stored.any fun row => row.dependsOn.contains current && awaits row)
      fun hits => Phase.failNext env job now
        (((hits.map (·.1)).filter fun id => !decide (id ∈ failed)).reverse ++ toCheck)
        (failed ++ (hits.map (·.1)).filter fun id => !decide (id ∈ failed)) := by
    rw [hphase]
    rfl
  have hawaits : ∀ (slot : Slot), (slot.stored.any fun row =>
      row.dependsOn.contains current && awaits row) = true →
      ∃ row, slot.stored = some row ∧ current ∈ row.dependsOn ∧ row.status = .pending := by
    intro slot hp
    obtain ⟨row, hrow, hp⟩ := (Option.any_eq_true _ _).1 hp
    simp only [awaits, Bool.and_eq_true, List.contains_iff_mem, decide_eq_true_eq] at hp
    exact ⟨row, hrow, hp.1, hp.2.2⟩
  obtain ⟨hw, hended', hcases⟩ := moves_failing hdb h hended (failing_dependents current now)
    (fun k slot hp => by
      obtain ⟨row, hrow, -, hst⟩ := hawaits slot hp
      exact ⟨row, hrow, .inl hst⟩) hreq hmove
  have hfail := h.fail
  rw [hphase] at hfail
  -- a pending dependent is one the statement wants
  have hwanted : ∀ k row, s.own k = none → (db k).stored = some row → row.status = .pending →
      current ∈ row.dependsOn → ((s.view db k).stored.any fun row =>
        row.dependsOn.contains current && awaits row) = true := by
    intro k row hk hrow hst hdep
    rw [view_of_not_own hk, hrow]
    have hjudged := (hdb.sound k).judged row hrow hst (List.ne_nil_of_mem hdep)
    simpa [awaits, hst, hdep] using hjudged
  have hduring : s'.phase = s.phase →
      OwesFailure env db s' (LeftToFail (.failing job now current toCheck failed) s'.scan) →
      (∀ k ∈ failed, s'.own k ≠ none) →
      (∀ scan, s'.scan = some scan → ∀ e ∈ scan.hits, s'.own e.1 ≠ none ∧ e.1 ∉ failed) →
      Asserts env db s' := by
    intro hp hf hfailed' hhits'
    refine .of_update hw (.inr ⟨_, _, _, by rw [hp, hreq], rfl⟩) (hended'.owesRelease hw _) ?_ ?_
    · rwa [hp, hphase]
    · rw [hp, hphase]
      exact ⟨hended', hfailed', hhits'⟩
  rcases hcases with ⟨hnone, hown, hp, hscan'⟩ | ⟨scan, k, row, hscan, hput, hp, hscan'⟩ |
    ⟨scan, k, hscan, hmiss, hown, hp, hscan'⟩ | ⟨scan, hscan, hdone, hown, hp, hscan'⟩
  · refine hduring hp ?_ (by rwa [hown]) fun scan hs e he => ?_
    · rw [hscan']
      refine hfail.of_own hown fun d slot k row hd hf hk hrow hst hdep hleft => ?_
      rw [hnone] at hleft
      rcases hleft with rfl | hcheck
      · exact .inl ⟨rfl, hwanted k row hk hrow hst hdep⟩
      · exact .inr (.inl hcheck)
    · rw [hscan'] at hs
      cases hs
      cases he
  · have hkeeps : ∀ x, s.own x ≠ none → s'.own x ≠ none := by
      intro x hx
      by_cases hxk : x = k
      · rw [hxk, hput.own_self]
        exact nofun
      · rwa [hput.own_ne hxk]
    refine hduring hp ?_ (fun x hx => hkeeps x (hfailed x hx)) fun scan' hs e he => ?_
    · rw [hscan']
      refine hput.owesFailure hfail ?_ ?_
      · intro d x hx hleft
        rw [hscan] at hleft
        rcases hleft with ⟨hd, htodo⟩ | hcheck | hhit
        · exact .inl ⟨hd, Scan.todo_take.2 ⟨hx, htodo⟩⟩
        · exact .inr (.inl hcheck)
        · exact .inr (.inr (Scan.mem_hits_take.2 (.inl hhit)))
      · intro _ x
        exact .inr (.inr (Scan.mem_hits_take.2 (.inr rfl)))
    · rw [hscan'] at hs
      cases hs
      rcases List.mem_append.1 he with he | he
      · exact ⟨hkeeps _ (hhits scan hscan e he).1, (hhits scan hscan e he).2⟩
      · cases List.mem_singleton.1 he
        exact ⟨by rw [hput.own_self]; exact nofun, fun hin => hfailed k hin hput.fresh⟩
  · refine hduring hp ?_ (by rwa [hown]) fun scan' hs e he => ?_
    · rw [hscan']
      refine hfail.of_own hown fun d slot x row hd hf hx hrow hst hdep hleft => ?_
      rw [hscan] at hleft
      rcases hleft with ⟨rfl, htodo⟩ | hcheck | hhit
      · refine .inl ⟨rfl, Scan.todo_drop.2 ⟨?_, htodo⟩⟩
        intro hxk
        have hwant := hwanted x row hx hrow hst hdep
        rw [hxk] at hwant
        cases hwant.symm.trans hmiss
      · exact .inr (.inl hcheck)
      · exact .inr (.inr hhit)
    · rw [hscan'] at hs
      cases hs
      rw [hown]
      exact hhits scan hscan e he
  · have hids : (scan.hits.map (·.1)).filter (fun id => !decide (id ∈ failed))
        = scan.hits.map (·.1) := by
      refine List.filter_eq_self.2 fun id hid => ?_
      obtain ⟨e, he, rfl⟩ := List.mem_map.1 hid
      simpa using (hhits scan hscan e he).2
    rw [hids] at hp
    have howes : OwesFailure env db s' fun d _ => d ∈ (scan.hits.map (·.1)).reverse ++ toCheck := by
      refine hfail.of_own hown fun d slot x row _ _ _ _ _ _ hleft => ?_
      rw [hscan] at hleft
      rw [List.mem_append, List.mem_reverse]
      rcases hleft with ⟨-, htodo⟩ | hcheck | hhit
      · rw [hdone x] at htodo
        cases htodo
      · exact .inr hcheck
      · exact .inl hhit
    have hfailed' : ∀ k ∈ failed ++ scan.hits.map (·.1), s'.own k ≠ none := by
      intro k hk
      rw [hown]
      rcases List.mem_append.1 hk with hk | hk
      · exact hfailed k hk
      · obtain ⟨e, he, rfl⟩ := List.mem_map.1 hk
        exact (hhits scan hscan e he).1
    obtain ⟨hfail', hfacts⟩ := facts_failNext hended' hscan' hfailed' howes hp
    exact .of_update hw (.inl hscan') (hended'.owesRelease hw _) hfail' hfacts

/-- The jobs of a fail-fast batch are failed. -/
theorem moves_batchPending (hdb : Consistent env db) (h : Asserts env db s) {batchId : BatchId}
    (hphase : s.phase = .batchPending job batchId now)
    (hmove : Move (Phase.request env) db s rows mode s') : Asserts env db s' := by
  have hended : Ended s := h.facts_of hphase
  have hreq : s.phase.request env = .scan
      (.whereRow (.update (Slot.finish .policy (batchFailed job.id now))) fun _ slot =>
        slot.stored.any fun row => row.batchId = some batchId && TestStorage.unstarted row)
      fun _ => .finished := by
    rw [hphase]
    rfl
  have hunstarted : ∀ (k : JobId) (slot : Slot), (slot.stored.any fun row =>
      row.batchId = some batchId && TestStorage.unstarted row) = true →
      ∃ row, slot.stored = some row ∧ (row.status = .pending ∨ row.status = .retrying) := by
    intro k slot hp
    obtain ⟨row, hrow, hp⟩ := (Option.any_eq_true _ _).1 hp
    simp only [Bool.and_eq_true] at hp
    exact ⟨row, hrow, unstarted_iff.1 hp.2⟩
  obtain ⟨hw, hended', hcases⟩ := moves_failing hdb h hended (failing_batch job.id now)
    hunstarted hreq hmove
  have hfail := h.fail
  rw [hphase] at hfail
  have hduring : ∀ {scan}, s'.phase = s.phase → s'.scan = some scan →
      OwesFailure env db s' (fun _ _ => False) → Asserts env db s' := by
    intro scan hp hscan hf
    refine .of_update hw (.inr ⟨_, _, _, by rw [hp, hreq], rfl⟩) (hended'.owesRelease hw _) ?_ ?_
    · rw [hp, hphase]
      exact hf
    · rw [hp, hphase]
      exact hended'
  rcases hcases with ⟨-, hown, hp, hscan⟩ | ⟨scan, k, row, -, hput, hp, hscan⟩ |
    ⟨scan, k, -, -, hown, hp, hscan⟩ | ⟨scan, -, -, hown, hp, hscan⟩
  · exact hduring hp hscan (hfail.of_own hown fun _ _ _ _ _ _ _ _ _ _ h => h)
  · refine hduring hp hscan (hput.owesFailure hfail (fun _ _ _ h => h) fun hf => ?_)
    exact absurd hf (not_fails_of_policy _ _)
  · exact hduring hp hscan (hfail.of_own hown fun _ _ _ _ _ _ _ _ _ _ h => h)
  · refine .of_update hw (.inl hscan) (hended'.owesRelease hw _) ?_ ?_
    · rw [hp]
      exact hfail.of_own hown fun _ _ _ _ _ _ _ _ _ _ h => h
    · rw [hp]
      exact trivial

-- == archive and claim

/-- Only finished jobs are archived. -/
theorem over_of_archivable {thresholds : Thresholds} {queueName : Option String}
    (h : archivable thresholds queueName row = true) :
    row.status = .completed ∨ row.status.EndedInFailure := by
  unfold archivable at h
  simp only [Bool.and_eq_true] at h
  cases hst : row.status <;> rw [hst] at h <;> simp [JobStatus.EndedInFailure] at h ⊢

theorem moveToArchive_eq_some (h : moveToArchive k slot = some new) :
    ∃ row, slot.stored = some row ∧ slot.archived = none ∧ new.stored = none ∧
      new.archived = some row ∧ new.ended = slot.ended := by
  unfold moveToArchive at h
  split at h
  case h_2 => cases h
  case h_1 row hstored harchived =>
    cases h
    exact ⟨row, hstored, harchived, rfl, rfl, rfl⟩

/-- Finished jobs are moved to the archive. -/
theorem moves_move (hdb : Consistent env db) (hscan : s.scan = none) {ids : List JobId}
    (hphase : s.phase = .move ids) (hfacts : Facts env db s (.move ids))
    (hmove : Move (Phase.request env) db s rows mode s') : Asserts env db s' := by
  obtain ⟨hs, hids⟩ := hfacts
  obtain ⟨-, hown, -, hnext, hscan'⟩ := hmove.of_write (by rw [hphase]; rfl)
  -- a row written is the job's row, in the archive
  have hrow : ∀ {k slot}, s'.own k = some slot → ∃ row, (db k).Has row ∧
      (row.status = .completed ∨ row.status.EndedInFailure) ∧ slot.stored = none ∧
      slot.archived = some row ∧ slot.ended = (db k).ended := by
    intro k slot hk
    rw [hown, hs.view, hs k] at hk
    split at hk
    case isFalse => cases hk
    case isTrue hin =>
      obtain ⟨row, hstored, -, hnone, harchived, hended⟩ := moveToArchive_eq_some hk
      obtain ⟨-, row', hrow', hover⟩ := hids k hin
      cases hstored.symm.trans hrow'
      exact ⟨row, .inl hstored, hover, hnone, harchived, hended⟩
  have hhas : ∀ {k slot row}, s'.own k = some slot → slot.archived = some row →
      ∀ r, slot.Has r → r = row := by
    intro k slot row hk harchived r hr
    obtain ⟨-, -, -, hnone, -⟩ := hrow hk
    rcases hr with hr | hr
    · rw [hnone] at hr
      cases hr
    · exact (Option.some.inj (harchived.symm.trans hr)).symm
  have hcompleted : ∀ {k slot}, s'.own k = some slot → slot.completed = (db k).completed := by
    intro k slot hk
    obtain ⟨row, hold, -, hnone, harchived, -⟩ := hrow hk
    rw [(hdb.sound k).completed_eq hold]
    unfold Slot.completed
    rw [hnone, harchived]
    rfl
  have hview_completed : ∀ d, (s'.view db d).completed = (db d).completed := by
    intro d
    cases hk : s'.own d with
    | none => rw [view_of_not_own hk]
    | some slot => rw [view_of_own hk, hcompleted hk]
  have hview_known : ∀ {d}, (db d).Known → (s'.view db d).Known := by
    intro d hd
    cases hk : s'.own d with
    | none => rwa [view_of_not_own hk]
    | some slot =>
        obtain ⟨row, -, -, -, harchived, -⟩ := hrow hk
        rw [view_of_own hk]
        exact ⟨row, .inr harchived⟩
  refine .of_update ?_ (.inl (hscan'.trans hscan)) ?_ ?_ ?_
  · refine ⟨?_, ?_, ?_, ?_, ?_, ?_, ?_⟩
    · intro k slot hk
      obtain ⟨row, hold, hover, hnone, harchived, -⟩ := hrow hk
      refine ⟨fun r hr => ?_, fun r hr => ?_, fun r hr => ?_, fun r hr => ?_, fun r hr => ?_,
        fun r hr => ?_⟩
      · rw [hhas hk harchived r hr]
        exact (hdb.sound k).id_eq row hold
      · rw [hnone] at hr
        cases hr
      · rwa [hhas hk harchived r (.inr hr)]
      · rw [hnone] at hr
        cases hr
      · rw [hnone] at hr
        cases hr
      · rw [hhas hk harchived r hr]
        exact (hdb.sound k).waiting row hold
    · intro k slot hk hc
      rwa [hcompleted hk]
    · intro k slot hk _
      obtain ⟨row, -, -, -, harchived, -⟩ := hrow hk
      exact ⟨row, .inr harchived⟩
    · intro k slot hk r hr d hd
      obtain ⟨row, hold, -, -, harchived, -⟩ := hrow hk
      rw [hhas hk harchived r hr] at hd
      exact hview_known (hdb.known k row hold d hd)
    · intro k slot hk r hr hsat d hd
      obtain ⟨row, hold, -, -, harchived, -⟩ := hrow hk
      rw [hhas hk harchived r hr] at hsat hd
      rw [hview_completed]
      exact hdb.satisfied k row hold hsat d hd
    · intro k slot hk r hr
      obtain ⟨-, -, -, hnone, -⟩ := hrow hk
      rw [hnone] at hr
      cases hr
    · intro k slot hk r hr
      obtain ⟨-, -, -, hnone, -⟩ := hrow hk
      rw [hnone] at hr
      cases hr
  · intro d slot hd hc hopen
    rw [hcompleted hd, hopen] at hc
    cases hc
  · intro d slot hd hf hnot
    obtain ⟨row, hold, -, -, harchived, hended⟩ := hrow hd
    obtain ⟨r, hr, hfails⟩ := hf
    rw [hhas hd harchived r hr, hended] at hfails
    exact absurd ⟨row, hold, hfails⟩ hnot
  · rw [hnext]
    exact trivial

theorem rewrites_claimed (now : DateTime) : Rewrites (Slot.update (claimed now)) (claimed now) :=
  ⟨fun _ => rfl, fun _ => rfl, fun _ => rfl, fun _ => rfl, fun _ _ => nofun⟩

/-- Runnable jobs are claimed. -/
theorem moves_claim (hdb : Consistent env db) (h : Asserts env db s) {queueName : String}
    {limit : Nat} (hphase : s.phase = .claim queueName now limit)
    (hmove : Move (Phase.request env) db s rows mode s') : Asserts env db s' := by
  have hreq : s.phase.request env = .scan (claimStatement queueName now limit)
      fun _ => .finished := by
    rw [hphase]
    rfl
  have hrunning : ∀ k slot, s.own k = some slot → ∃ row, slot.stored = some row ∧
      row.status = .running := h.facts_of hphase
  have hlocks := KeepsLocks.of_move hmove
  -- running rows have neither completed nor failed
  have hassemble : Writes env db s' →
      (∀ k slot, s'.own k = some slot → ∃ row, slot.stored = some row ∧ row.status = .running) →
      (s'.phase = .claim queueName now limit ∨ (s'.phase = .finished ∧ s'.scan = none)) →
      Asserts env db s' := by
    intro hw hrun hphase'
    refine .of_update hw ?_ (.of_open ?_ _) (.of_spared ?_ _) ?_
    · rcases hphase' with hphase' | ⟨-, hnone⟩
      · exact .inr ⟨_, _, _, by rw [hphase', ← hphase, hreq], rfl⟩
      · exact .inl hnone
    · intro k slot hk
      obtain ⟨row, hrow, hst⟩ := hrun k slot hk
      rw [(hw.sound k slot hk).completed_eq (.inl hrow), hst]
      rfl
    · intro k slot hk hf
      obtain ⟨row, hrow, hst⟩ := hrun k slot hk
      have hf := (((hw.sound k slot hk).fails_iff (.inl hrow)).1 hf).1
      rw [hst] at hf
      rcases hf with hf | hf | hf <;> cases hf
    · rcases hphase' with hphase' | ⟨hphase', -⟩
      · rw [hphase']
        exact hrun
      · rw [hphase']
        exact trivial
  rcases hmove.of_scan hreq with ⟨-, heq⟩ | ⟨scan, k, -, -, hkeeps, heq⟩ |
    ⟨scan, k, -, -, -, heq⟩ | ⟨scan, -, -, heq⟩
  · have hown : s'.own = s.own := by rw [heq]
    exact hassemble (h.writes.of_own hown hlocks) (by rwa [hown]) (.inl (by rw [heq, ← hphase]))
  · have hkeeps : (s.view db k).stored.any (runnable queueName now) = true := hkeeps
    obtain ⟨row, hrow, hrunnable⟩ := (Option.any_eq_true _ _).1 hkeeps
    have hready : row.status = .pending ∧
        (row.dependencyStatus = .none ∨ row.dependencyStatus = .satisfied) := by
      simp only [runnable, TestStorage.dequeuable, Bool.and_eq_true, Bool.or_eq_true,
        decide_eq_true_eq] at hrunnable
      exact ⟨hrunnable.1.2, hrunnable.2.1.2⟩
    have hfresh : s.own k = none := by
      cases hk : s.own k with
      | none => rfl
      | some slot =>
          obtain ⟨r, hr, hst⟩ := hrunning k slot hk
          rw [view_of_own hk, hr] at hrow
          cases hrow
          rw [hst] at hready
          cases hready.1
    rw [view_of_not_own hfresh] at hrow
    have hput := put_of_hit (claimStatement queueName now limit) (rewrites_claimed now) rfl
      hfresh hrow (by rw [hready.1]; exact nofun) hlocks (by rw [heq])
    refine hassemble (hput.writes hdb h.writes ?_ (fun h => h) ?_ nofun (.inl ?_)) ?_ (.inl ?_)
    · intro _ hne
      -- a pending job with dependencies waits, or was released
      rcases (hdb.sound k).judged row hrow hready.1 hne with hw | hs
      · rcases hready.2 with hn | hs
        · rw [hn] at hw
          cases hw
        · exact hs
      · exact hs
    · intro hsat d hd
      exact h.writes.view_completed (hdb.satisfied k row (.inl hrow) hsat d hd)
    · intro ⟨r, hr, hf, _⟩
      rw [(hput.has_iff hdb).1 hr] at hf
      rcases hf with hf | hf | hf <;> cases hf
    · intro x slot hx
      rcases hput.own_cases hx with ⟨-, rfl⟩ | ⟨-, hx⟩
      · exact ⟨claimed now row, hput.stored, rfl⟩
      · exact hrunning x slot hx
    · rw [heq]
      exact hphase
  · have hown : s'.own = s.own := by rw [heq]
    exact hassemble (h.writes.of_own hown hlocks) (by rwa [hown]) (.inl (by rw [heq, ← hphase]))
  · have hown : s'.own = s.own := by rw [heq]
    exact hassemble (h.writes.of_own hown hlocks) (by rwa [hown])
      (.inr ⟨by rw [heq], by rw [heq]⟩)

-- == assembly

/-- Every step of a transaction keeps the assertion about it. -/
theorem asserts_moves (hdb : Consistent env db) (h : Asserts env db s)
    (hfine : s.phase.Fine (s.view db)) (hmove : Move (Phase.request env) db s rows mode s') :
    Asserts env db s' := by
  have hlocks := KeepsLocks.of_move hmove
  cases hphase : s.phase with
  | enqueue jobs now =>
      have hs : Untouched s := h.facts_of hphase
      rw [hphase, hs.view] at hfine
      have hfine : ∀ job ∈ jobs, job.Arrives ∧ (db job.id).archived = none := hfine.1
      have hif : s.phase.request env = if (externalDependencies jobs).isEmpty then
          .write (jobs.map (·.id)) (insertRow jobs []) .finished
        else .scan (.whereRow .forShare fun id slot =>
            (externalDependencies jobs).contains id && slot.stored.isSome)
          fun locked => .archivedParents jobs now locked := by
        rw [hphase]
        rfl
      by_cases hempty : (externalDependencies jobs).isEmpty = true
      · rw [if_pos hempty] at hif
        refine moves_insert hdb (h.idle fun stmt next hreq => ?_) hs
          (settled_of_internal (fun job hjob => (hfine job hjob).1) (List.isEmpty_iff.1 hempty))
          (fun job hjob => (hfine job hjob).2) hif hmove
        cases hif.symm.trans hreq
      · rw [if_neg hempty] at hif
        refine moves_select h hs hif (not_update_forShare _) hmove (fun hs' _ => ?_)
          fun hits hs' _ htook => ?_
        · rw [hphase]
          exact hs'
        · refine ⟨hs', fun job hjob => (hfine job hjob).1, locked_of_took hs' htook ?_⟩
          intro k slot hp
          simp only [Bool.and_eq_true] at hp
          exact hp.2
  | archivedParents jobs now locked =>
      obtain ⟨hs, harrive, hlocked⟩ : Facts env db s (.archivedParents jobs now locked) :=
        h.facts_of hphase
      rw [hphase, hs.view] at hfine
      have hstep := hmove.of_read (by rw [hphase]; rfl)
      rw [hs.view] at hstep
      have hidle := h.idle fun _ _ hreq => by rw [hphase] at hreq; cases hreq
      have hs' : Untouched s' := by
        intro k
        rw [hstep]
        exact hs k
      refine .of_untouched hs' (by rw [hstep]; exact hidle) (show s'.phase = .insert _ _ by
        rw [hstep]) ⟨hs', ?_⟩
      exact settled_of_settle hdb (hlocked.keeps hlocks) harrive hfine.2
  | insert jobs failed =>
      obtain ⟨hs, hsettled⟩ : Facts env db s (.insert jobs failed) := h.facts_of hphase
      rw [hphase, hs.view] at hfine
      have hidle := h.idle fun _ _ hreq => by rw [hphase] at hreq; cases hreq
      exact moves_insert hdb hidle hs hsettled hfine.1 (by rw [hphase]; rfl) hmove
  | lockJob jobId guard target now wall =>
      have hs : Untouched s := h.facts_of hphase
      refine moves_select h hs (by rw [hphase]; rfl) (not_update_forUpdate _) hmove
        (fun hs' _ => ?_) fun hits hs' _ htook => facts_afterLock hdb hs' htook
      rw [hphase]
      exact hs'
  | dependencies job target now =>
      obtain ⟨hs, hjob, hretry⟩ : Facts env db s (.dependencies job target now) :=
        h.facts_of hphase
      refine moves_select h hs (by rw [hphase]; rfl) (not_update_forShare _) hmove
        (fun hs' hl => ?_) fun hits hs' hl htook => ?_
      · rw [hphase]
        exact ⟨hs', hjob.keeps hl, hretry⟩
      · refine ⟨hs', hjob.keeps hl, hretry, locked_of_took hs' htook ?_⟩
        intro k slot hp
        simp only [Bool.and_eq_true] at hp
        exact hp.2
  | archivedDependencies job target now locked =>
      obtain ⟨hs, hjob, hretry, hlocked⟩ :
        Facts env db s (.archivedDependencies job target now locked) := h.facts_of hphase
      have hstep := hmove.of_read (by rw [hphase]; rfl)
      rw [hs.view] at hstep
      have hidle := h.idle fun _ _ hreq => by rw [hphase] at hreq; cases hreq
      have hs' : Untouched s' := by
        intro k
        rw [hstep]
        exact hs k
      refine .of_untouched hs' (by rw [hstep]; exact hidle) (by rw [hstep]) ?_
      cases hok : reevaluateDependencies job (dependencyStates job.dependsOn locked db)
          "retried" with
      | error e => exact trivial
      | ok status =>
          refine ⟨hs', hjob.keeps hlocks, fun _ => ?_, fun hne => absurd hretry hne⟩
          exact judged_of_reevaluated hdb (hlocked.keeps hlocks) hjob.stored hok
  | write job status target now reschedule =>
      have hidle := h.idle fun _ _ hreq => by rw [hphase] at hreq; cases hreq
      rw [hphase] at hfine
      exact moves_write hdb hidle hphase (h.facts_of hphase) hfine.1 hmove
  | reschedule job nextRunAt runStatus =>
      have hfalse : Facts env db s (.reschedule job nextRunAt runStatus) := h.facts_of hphase
      exact hfalse.elim
  | dependents job => exact moves_dependents h hphase hmove
  | release ids => exact moves_release hdb h hphase hmove
  | workflowPending job workflowId now => exact moves_workflowPending hdb h hphase hmove
  | failing job now current toCheck failed => exact moves_dependentsFail hdb h hphase hmove
  | batchPending job batchId now => exact moves_batchPending hdb h hphase hmove
  | archive thresholds queueName batchSize =>
      have hs : Untouched s := h.facts_of hphase
      have hreq : s.phase.request env = .scan (archiveStatement thresholds queueName batchSize)
          fun hits => .move (hits.map (·.1)) := by
        rw [hphase]
        rfl
      refine moves_select h hs hreq (fun _ => nofun) hmove (fun hs' _ => ?_)
        fun hits hs' _ htook => ?_
      · rw [hphase]
        exact hs'
      · refine ⟨hs', fun k hk => ?_⟩
        obtain ⟨e, he, rfl⟩ := List.mem_map.1 hk
        obtain ⟨hheld, hversion, hkeeps⟩ := htook e he
        rw [hs'.view] at hversion
        have hkeeps : e.2.stored.any (archivable thresholds queueName) = true := hkeeps
        rw [hversion] at hkeeps
        obtain ⟨row, hrow, harchivable⟩ := (Option.any_eq_true _ _).1 hkeeps
        exact ⟨hheld, row, hrow, over_of_archivable harchivable⟩
  | move ids =>
      have hidle := h.idle fun _ _ hreq => by rw [hphase] at hreq; cases hreq
      exact moves_move hdb hidle hphase (h.facts_of hphase) hmove
  | claim queueName now limit => exact moves_claim hdb h hphase hmove
  | finished => exact (hmove.not_of_end (.inl (by rw [hphase]; rfl))).elim
  | erred => exact (hmove.not_of_end (.inr (by rw [hphase]; rfl))).elim

/-- The invariant and the assertions support each other. -/
theorem outline (env : Env) :
    Outline (Phase.request env) Phase.Opens Phase.Fine (Consistent env) (Asserts env) where
  opened := by
    intro db phase _ hopens
    have hs : Untouched (.opened phase) := fun _ => rfl
    refine .of_untouched hs rfl rfl ?_
    cases phase with
    | enqueue | lockJob | archive => exact hs
    | claim => exact fun _ _ h => nomatch h
    | _ => exact (show False from hopens).elim
  moves hdb _ h hfine hmove := asserts_moves hdb h hfine hmove
  commits hdb _ h hdone := hdb.commit h.writes (h.finished hdone).1 (h.finished hdone).2
  stable _ hs hother hapart h h' hdone := asserts_stable hs hother hapart h h' hdone

end Postgres

end Hammerwork
