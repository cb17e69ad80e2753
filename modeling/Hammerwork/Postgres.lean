/-
Statements of the PostgreSQL backend on the jobs table.

A row holds what a job record holds and is found by its id, the primary
key. An `UPDATE … WHERE … RETURNING id` judges every row by its own
columns, rewrites those that match, all at once, and returns their ids;
the order it returns them in is not specified, and here it is the
table's.

# Failing dependents

The failure of a job is propagated along `depends_on` by one statement
for each failed job, until no row matches any more. The loop is a search
of the graph of dependent rows (`failDependents_eq_run`), so what it
returns are the rows on a chain of waiting rows from the failed job
(`mem_failDependents`).
-/
import Hammerwork.Storage

namespace Hammerwork

namespace Postgres

/-- The rows of the jobs table. -/
abbrev Jobs := Table JobId Job

-- == statements

/-- A pending row that waits for its dependencies or was released by
them: `dependency_status IN ('waiting', 'satisfied') AND status =
'Pending'`. -/
def awaits (row : Job) : Bool :=
  (row.dependencyStatus = .waiting || row.dependencyStatus = .satisfied) && row.status = .pending

/-- A row as failed because its dependency `current` failed. -/
def dependencyFailed (current : JobId) (now : DateTime) (row : Job) : Job :=
  { row with
    dependencyStatus := .failed
    status := .failed
    failedAt := some now
    errorMessage := some (dependencyFailedMessage current) }

/-- The statement that fails the rows depending directly on `current`.
-/
def failDirectDependents (rows : Jobs) (current : JobId) (now : DateTime) : Jobs × List JobId :=
  rows.updateWhere (fun _ row => decide (current ∈ row.dependsOn) && awaits row)
    (dependencyFailed current now)

/-- At most `fuel` passes of the loop, given the jobs failed so far and
those whose dependents are still to be failed. -/
def failLoop (now : DateTime) : Nat → Jobs → List JobId → List JobId → Jobs × List JobId
  | 0, rows, failed, _ => (rows, failed)
  | _ + 1, rows, failed, [] => (rows, failed)
  | fuel + 1, rows, failed, current :: toCheck =>
      let (rows, ids) := failDirectDependents rows current now
      let ids := ids.filter fun id => !decide (id ∈ failed)
      failLoop now fuel rows (failed ++ ids) (ids.reverse ++ toCheck)

/-- Fail every pending job that (transitively) depends on
`failedJobId`. Every pass but the first is for a row that was failed. -/
def failDependents (rows : Jobs) (failedJobId : JobId) (now : DateTime) : Jobs × List JobId :=
  failLoop now (rows.keys.length + 1) rows [] [failedJobId]

-- == the loop's graph

/-- The rows that depend directly on `current`. -/
def dependentRows (rows : Jobs) (current : JobId) : List JobId :=
  (rows.entries.filter fun e => decide (current ∈ e.2.dependsOn)).map Sigma.fst

/-- The loop as a search over the rows. -/
def dependentsSearch (now : DateTime) : Worklist Jobs JobId where
  next rows current := dependentRows rows current
  fresh rows id := (rows.lookup id).any awaits
  act rows current id := rows.modify id (dependencyFailed current now)

/-- The rows on a chain of dependents from `root`, each of them pending
and waiting or released. -/
def OnChain (rows : Jobs) (root : JobId) : JobId → Prop :=
  Worklist.Reached (dependentRows rows) (fun id => (rows.lookup id).any awaits = true) root

variable {rows : Jobs} {current id root : JobId} {now : DateTime}

theorem mem_dependentRows :
    id ∈ dependentRows rows current ↔
      ∃ row, rows.lookup id = some row ∧ current ∈ row.dependsOn := by
  unfold dependentRows
  simp only [List.mem_map, List.mem_filter, decide_eq_true_eq]
  constructor
  · rintro ⟨e, ⟨hmem, hdep⟩, rfl⟩
    exact ⟨e.2, Table.lookup_of_mem_entries hmem, hdep⟩
  · intro ⟨row, hlookup, hdep⟩
    exact ⟨⟨id, row⟩, ⟨AList.mem_lookup_iff.1 hlookup, hdep⟩, rfl⟩

theorem nodup_dependentRows (rows : Jobs) (current : JobId) :
    (dependentRows rows current).Nodup :=
  List.Nodup.sublist (List.filter_sublist.map Sigma.fst) rows.nodupKeys

/-- A failed row is neither waiting nor released. -/
theorem awaits_dependencyFailed (row : Job) : awaits (dependencyFailed current now row) = false :=
  rfl

theorem dependentsSearch_lawful (now : DateTime) : (dependentsSearch now).Lawful where
  next_act rows c x y := by
    show dependentRows (rows.modify x _) y = dependentRows rows y
    show ((rows.entries.map _).filter _).map _ = _
    unfold dependentRows
    rw [List.filter_map, List.map_map]
    refine congrArg (List.map Sigma.fst) (List.filter_congr fun e _ => ?_)
    show decide (y ∈ (if e.1 = x then dependencyFailed c now e.2 else e.2).dependsOn) = _
    split <;> rfl
  fresh_act rows c x y := by
    show ((rows.modify x _).lookup y).any awaits = ((rows.lookup y).any awaits && _)
    rw [Table.lookup_modify]
    by_cases hy : y = x
    · subst hy
      cases rows.lookup y <;> simp [awaits_dependencyFailed]
    · simp [hy]

/-- The statement does what taking the fresh dependents of `current` one
after another does. -/
theorem failDirectDependents_eq (rows : Jobs) (current : JobId) (now : DateTime) :
    failDirectDependents rows current now
      = (((dependentRows rows current).filter ((dependentsSearch now).fresh rows)).foldl
          (fun rows id => (dependentsSearch now).act rows current id) rows,
        (dependentRows rows current).filter ((dependentsSearch now).fresh rows)) := by
  have hids : (failDirectDependents rows current now).2
      = (dependentRows rows current).filter ((dependentsSearch now).fresh rows) := by
    show (rows.entries.filter _).map Sigma.fst = _
    unfold dependentRows
    rw [List.filter_map, List.filter_filter]
    refine congrArg (List.map Sigma.fst) (List.filter_congr fun e he => ?_)
    show _ = ((rows.lookup e.1).any awaits && _)
    rw [Table.lookup_of_mem_entries he, Bool.and_comm]
    rfl
  refine Prod.ext ?_ hids
  have hnd := (nodup_dependentRows rows current).filter ((dependentsSearch now).fresh rows)
  show _ = List.foldl (fun rows id => Table.modify rows id (dependencyFailed current now)) rows _
  rw [Table.foldl_modify _ _ hnd, ← hids]
  refine AList.ext (List.map_congr_left fun e he => ?_)
  dsimp only
  -- a row is rewritten iff its id is returned
  have hmem : (decide (current ∈ e.2.dependsOn) && awaits e.2) = true
      ↔ e.1 ∈ (failDirectDependents rows current now).2 := by
    refine Iff.trans ?_ Table.mem_updateWhere.symm
    rw [Table.lookup_of_mem_entries he]
    simp
  by_cases h : (decide (current ∈ e.2.dependsOn) && awaits e.2) = true
  · rw [if_pos h, if_pos (hmem.1 h)]
  · rw [if_neg h, if_neg (fun h' => h (hmem.2 h'))]

/-- The loop is the search, as long as no failed row is waiting or
released. -/
theorem failLoop_eq_search (now : DateTime) (fuel : Nat) : ∀ (rows : Jobs)
    (failed toCheck : List JobId), (∀ x ∈ failed, (dependentsSearch now).fresh rows x = false) →
      failLoop now fuel rows failed toCheck
        = (((dependentsSearch now).search fuel ⟨rows, failed, toCheck⟩).state,
          ((dependentsSearch now).search fuel ⟨rows, failed, toCheck⟩).marked) := by
  induction fuel with
  | zero => intro rows failed toCheck _; rfl
  | succ fuel ih =>
      intro rows failed toCheck hfailed
      cases toCheck with
      | nil =>
          have hstay : (dependentsSearch now).search fuel ⟨rows, failed, []⟩
              = ⟨rows, failed, []⟩ := by
            clear ih
            induction fuel with
            | zero => rfl
            | succ fuel ih => exact ih
          show (rows, failed) = (((dependentsSearch now).search fuel ⟨rows, failed, []⟩).state,
            ((dependentsSearch now).search fuel ⟨rows, failed, []⟩).marked)
          rw [hstay]
      | cons current toCheck =>
          have htaken : (dependentRows rows current).filter
                (fun x => (dependentsSearch now).fresh rows x && !decide (x ∈ failed))
              = (dependentRows rows current).filter ((dependentsSearch now).fresh rows) := by
            refine List.filter_congr fun x _ => ?_
            by_cases hx : x ∈ failed
            · simp [hfailed x hx]
            · simp [hx]
          have hexpand : (dependentsSearch now).expand ⟨rows, failed, current :: toCheck⟩
              = ⟨(failDirectDependents rows current now).1,
                failed ++ (failDirectDependents rows current now).2,
                (failDirectDependents rows current now).2.reverse ++ toCheck⟩ := by
            show (dependentRows rows current).foldl _ _ = _
            rw [Worklist.foldl_visit (dependentsSearch_lawful now) _ _
              (nodup_dependentRows rows current), failDirectDependents_eq]
            dsimp only
            rw [htaken]
          have hnew : (failDirectDependents rows current now).2.filter
                (fun id => !decide (id ∈ failed))
              = (failDirectDependents rows current now).2 := by
            rw [failDirectDependents_eq]
            dsimp only
            rw [List.filter_filter, ← htaken]
            refine List.filter_congr fun x _ => ?_
            rw [Bool.and_comm]
          rw [Worklist.search, hexpand, failLoop]
          dsimp only
          rw [hnew]
          refine ih _ _ _ fun x hx => ?_
          show ((failDirectDependents rows current now).1.lookup x).any awaits = false
          rw [failDirectDependents, Table.lookup_updateWhere]
          rcases List.mem_append.1 hx with hx | hx
          · have hstale : (rows.lookup x).any awaits = false := hfailed x hx
            cases hrow : rows.lookup x with
            | none => rfl
            | some row =>
                rw [hrow] at hstale
                have hrow : awaits row = false := hstale
                simp [hrow]
          · obtain ⟨row, hrow, hp⟩ := Table.mem_updateWhere.1 hx
            rw [hrow]
            simp only [Option.map_some, hp, if_true, Option.any_some, awaits_dependencyFailed]

theorem failDependents_eq_run (rows : Jobs) (root : JobId) (now : DateTime) :
    failDependents rows root now
      = (((dependentsSearch now).run (rows.keys.length + 1) rows root).state,
        ((dependentsSearch now).run (rows.keys.length + 1) rows root).marked) :=
  failLoop_eq_search now _ rows [] [root] fun x hx => by cases hx

/-- The rows failed are those on a chain of dependents. -/
theorem mem_failDependents :
    id ∈ (failDependents rows root now).2 ↔ OnChain rows root id := by
  rw [failDependents_eq_run]
  refine Worklist.mem_marked_run (dependentsSearch now) (dependentsSearch_lawful now)
    (fun x hx => ?_) (Nat.lt_succ_self rows.keys.length)
  have hx : (rows.lookup x).any awaits = true := hx
  cases hrow : rows.lookup x with
  | none => rw [hrow] at hx; cases hx
  | some row => exact Table.mem_keys_of_lookup hrow

end Postgres

end Hammerwork
