/-
Finite tables: the shape of a hash map whose iteration order is
somebody else's choice.

A `Table κ ν` is Mathlib's association list with distinct keys, used at
a constant value family. The list order stands for ONE iteration order
of the map it models; a client that must not depend on that order
quantifies over tables with the same entries up to permutation
(`SameEntries`), which is what `SameEntries.lookup_congr` is for.

Mathlib has the keyed operations (`insert`, `erase`, `lookup`). What is
added here is what a mutable map offers on top of them: updating a
value in place (`modify`, `mapVals`: the keys and their order stay) and
iterating over the values. Every lookup lemma is stated in `if` form,
so that a lookup through any stack of updates is decided by comparing
keys.
-/
import Mathlib.Data.List.AList

/-- A finite map with distinct keys, in one iteration order. -/
abbrev Table (κ ν : Type _) := AList fun _ : κ => ν

namespace Table

variable {κ ν : Type _}

-- == iteration

/-- The values, in iteration order. -/
def values (t : Table κ ν) : List ν := t.entries.map Sigma.snd

/-- Rewrite every value in place; keys and order stay. -/
def mapVals (t : Table κ ν) (f : κ → ν → ν) : Table κ ν where
  entries := t.entries.map fun e => ⟨e.1, f e.1 e.2⟩
  nodupKeys := by
    have hkeys : (t.entries.map fun e => (⟨e.1, f e.1 e.2⟩ : Sigma fun _ : κ => ν)).keys
        = t.entries.keys := by
      simp [List.keys, Function.comp_def]
    rw [List.NodupKeys, hkeys]
    exact t.nodupKeys

@[simp] theorem keys_mapVals (t : Table κ ν) (f : κ → ν → ν) :
    (t.mapVals f).keys = t.keys := by
  simp [AList.keys, mapVals, List.keys, Function.comp_def]

/-- Rewrite, all at once, the values that satisfy `p`, and return their
keys. -/
def updateWhere (t : Table κ ν) (p : κ → ν → Bool) (f : ν → ν) : Table κ ν × List κ :=
  (t.mapVals fun k v => if p k v then f v else v,
    (t.entries.filter fun e => p e.1 e.2).map Sigma.fst)

/-- Only the values that satisfy `p`. -/
def retain (t : Table κ ν) (p : κ → ν → Bool) : Table κ ν where
  entries := t.entries.filter fun e => p e.1 e.2
  nodupKeys := by
    have hsub : (t.entries.filter fun e => p e.1 e.2).keys.Sublist t.entries.keys :=
      List.filter_sublist.map Sigma.fst
    exact hsub.nodup t.nodupKeys

/-- The same entries, whatever their order. -/
def SameEntries (t u : Table κ ν) : Prop := t.entries.Perm u.entries

theorem SameEntries.refl (t : Table κ ν) : t.SameEntries t :=
  List.Perm.refl _

variable [DecidableEq κ]

/-- Rewrite the value at `k` in place, if there is one. -/
def modify (t : Table κ ν) (k : κ) (f : ν → ν) : Table κ ν :=
  t.mapVals fun k' v => if k' = k then f v else v

/-- Rewrite the value at `k`, putting `f d` there if there is none. -/
def upsert (t : Table κ ν) (k : κ) (d : ν) (f : ν → ν) : Table κ ν :=
  t.insert k (f ((t.lookup k).getD d))

/-- The values are what the keys look up. -/
theorem mem_values {t : Table κ ν} {v : ν} :
    v ∈ t.values ↔ ∃ k, t.lookup k = some v := by
  constructor
  · intro hv
    obtain ⟨⟨k, v'⟩, hmem, rfl⟩ := List.mem_map.1 hv
    exact ⟨k, AList.mem_lookup_iff.2 hmem⟩
  · rintro ⟨k, hk⟩
    exact List.mem_map.2 ⟨⟨k, v⟩, AList.mem_lookup_iff.1 hk, rfl⟩

/-- How many values are of a kind: as many as there are keys of such
values. -/
theorem length_filter_values (t : Table κ ν) (p : ν → Bool) {keys : List κ} (hnd : keys.Nodup)
    (hkeys : ∀ k, (∃ v, t.lookup k = some v ∧ p v = true) ↔ k ∈ keys) :
    (t.values.filter p).length = keys.length := by
  have hfound : ((t.entries.filter fun e => p e.2).map Sigma.fst).Perm keys := by
    refine (List.perm_ext_iff_of_nodup ?_ hnd).2 fun k => ?_
    · exact (List.filter_sublist.map Sigma.fst).nodup t.nodupKeys
    · rw [← hkeys, List.mem_map]
      constructor
      · rintro ⟨⟨k, v⟩, hmem, rfl⟩
        obtain ⟨hmem, hp⟩ := List.mem_filter.1 hmem
        exact ⟨v, AList.mem_lookup_iff.2 hmem, hp⟩
      · intro ⟨v, hlookup, hp⟩
        exact ⟨⟨k, v⟩, List.mem_filter.2 ⟨AList.mem_lookup_iff.1 hlookup, hp⟩, rfl⟩
  rw [← hfound.length_eq, List.length_map]
  unfold values
  rw [List.filter_map, List.length_map]
  rfl

/-- A stored key is one of the keys. -/
theorem mem_keys_of_lookup {t : Table κ ν} {k : κ} {v : ν} (h : t.lookup k = some v) :
    k ∈ t.keys :=
  AList.mem_keys.1 (AList.lookup_isSome.1 (by rw [h]; rfl))

/-- Reordering the entries changes no lookup. -/
theorem SameEntries.lookup_congr {t u : Table κ ν} (h : t.SameEntries u) (k : κ) :
    t.lookup k = u.lookup k :=
  AList.perm_lookup h

-- == lookups

theorem lookup_insert_if (t : Table κ ν) (k k' : κ) (v : ν) :
    (t.insert k v).lookup k' = if k' = k then some v else t.lookup k' := by
  by_cases h : k' = k
  · subst h
    rw [if_pos rfl, AList.lookup_insert]
  · rw [if_neg h, AList.lookup_insert_ne h]

theorem lookup_erase_if (t : Table κ ν) (k k' : κ) :
    (t.erase k).lookup k' = if k' = k then none else t.lookup k' := by
  by_cases h : k' = k
  · subst h
    rw [if_pos rfl, AList.lookup_erase]
  · rw [if_neg h, AList.lookup_erase_ne h]

/-- Looking up an association list through a value rewrite. -/
private theorem dlookup_map (l : List (Sigma fun _ : κ => ν)) (f : κ → ν → ν) (k : κ) :
    List.dlookup k (l.map fun e => (⟨e.1, f e.1 e.2⟩ : Sigma fun _ : κ => ν))
      = (List.dlookup k l).map (f k) := by
  induction l with
  | nil => rfl
  | cons e l ih =>
      obtain ⟨k', v⟩ := e
      by_cases h : k' = k
      · subst h
        simp
      · have hne : k ≠ k' := fun heq => h heq.symm
        rw [List.map_cons, List.dlookup_cons_ne _ _ hne, List.dlookup_cons_ne _ _ hne, ih]

@[simp] theorem lookup_mapVals (t : Table κ ν) (f : κ → ν → ν) (k : κ) :
    (t.mapVals f).lookup k = (t.lookup k).map (f k) :=
  dlookup_map t.entries f k

theorem lookup_modify (t : Table κ ν) (k k' : κ) (f : ν → ν) :
    (t.modify k f).lookup k' = if k' = k then (t.lookup k).map f else t.lookup k' := by
  rw [modify, lookup_mapVals]
  by_cases h : k' = k
  · subst h
    simp
  · simp [h]

theorem lookup_upsert (t : Table κ ν) (k k' : κ) (d : ν) (f : ν → ν) :
    (t.upsert k d f).lookup k' = if k' = k then some (f ((t.lookup k).getD d)) else t.lookup k' :=
  lookup_insert_if t k k' _

/-- An entry is what its key looks up. -/
theorem lookup_of_mem_entries {t : Table κ ν} {e : Sigma fun _ : κ => ν} (h : e ∈ t.entries) :
    t.lookup e.1 = some e.2 :=
  AList.mem_lookup_iff.2 h

theorem lookup_retain (t : Table κ ν) (p : κ → ν → Bool) (k : κ) :
    (t.retain p).lookup k = (t.lookup k).filter (p k) := by
  refine Option.ext fun v => ?_
  have hmem : ∀ (u : Table κ ν),
      u.lookup k = some v ↔ (⟨k, v⟩ : Sigma fun _ : κ => ν) ∈ u.entries :=
    fun u => AList.mem_lookup_iff
  rw [hmem, Option.filter_eq_some_iff, hmem]
  exact List.mem_filter

theorem lookup_updateWhere (t : Table κ ν) (p : κ → ν → Bool) (f : ν → ν) (k : κ) :
    (t.updateWhere p f).1.lookup k = (t.lookup k).map fun v => if p k v then f v else v :=
  lookup_mapVals t _ k

/-- The keys returned are those of the values rewritten. -/
theorem mem_updateWhere {t : Table κ ν} {p : κ → ν → Bool} {f : ν → ν} {k : κ} :
    k ∈ (t.updateWhere p f).2 ↔ ∃ v, t.lookup k = some v ∧ p k v = true := by
  unfold updateWhere
  simp only [List.mem_map, List.mem_filter]
  constructor
  · rintro ⟨e, ⟨hmem, hp⟩, rfl⟩
    exact ⟨e.2, lookup_of_mem_entries hmem, hp⟩
  · rintro ⟨v, hlookup, hp⟩
    exact ⟨⟨k, v⟩, ⟨AList.mem_lookup_iff.1 hlookup, hp⟩, rfl⟩

/-- Rewriting the values at distinct keys one after another rewrites
them all at once. -/
theorem foldl_modify (f : ν → ν) (ks : List κ) (hks : ks.Nodup) (t : Table κ ν) :
    ks.foldl (fun t k => t.modify k f) t
      = t.mapVals fun k v => if k ∈ ks then f v else v := by
  induction ks generalizing t with
  | nil =>
      refine AList.ext ?_
      simp [mapVals]
  | cons k ks ih =>
      obtain ⟨hk, hks⟩ := List.nodup_cons.1 hks
      rw [List.foldl_cons, ih hks]
      refine AList.ext ?_
      show ((t.entries.map _).map _) = t.entries.map _
      rw [List.map_map]
      refine List.map_congr_left fun e _ => ?_
      show (⟨e.1, _⟩ : Sigma fun _ : κ => ν) = ⟨e.1, _⟩
      dsimp only
      by_cases he : e.1 = k
      · rw [if_pos he, if_neg (he ▸ hk), if_pos (he ▸ List.mem_cons_self ..)]
      · rw [if_neg he]
        simp only [List.mem_cons, he, false_or]

/-- The value just rewritten. -/
@[simp] theorem lookup_modify_self (t : Table κ ν) (k : κ) (f : ν → ν) :
    (t.modify k f).lookup k = (t.lookup k).map f := by
  rw [lookup_modify, if_pos rfl]

/-- The values not rewritten. -/
theorem lookup_modify_ne (t : Table κ ν) {k k' : κ} (f : ν → ν) (h : k' ≠ k) :
    (t.modify k f).lookup k' = t.lookup k' := by
  rw [lookup_modify, if_neg h]

-- == orders

/-- Lookup and keys determine what a function of the values lists. -/
theorem map_values_congr {β : Type _} {t u : Table κ ν} (f : ν → β) (hkeys : t.keys = u.keys)
    (hlookup : ∀ k, (t.lookup k).map f = (u.lookup k).map f) :
    t.values.map f = u.values.map f := by
  have hlist : ∀ t : Table κ ν,
      t.values.map f = t.keys.filterMap fun k => (t.lookup k).map f := by
    intro t
    show (t.entries.map Sigma.snd).map f = (t.entries.map Sigma.fst).filterMap _
    rw [List.map_map, List.filterMap_map, ← List.filterMap_eq_map]
    refine List.filterMap_congr fun e he => ?_
    show some (f e.2) = (t.lookup e.1).map f
    rw [lookup_of_mem_entries he]
    rfl
  rw [hlist, hlist, hkeys]
  exact List.filterMap_congr fun k _ => hlookup k

/-- The same entries, the one at `k` first. -/
def toFront (t : Table κ ν) (k : κ) : Table κ ν where
  entries := t.entries.filter (fun e => e.1 = k) ++ t.entries.filter fun e => !decide (e.1 = k)
  nodupKeys := (List.perm_nodupKeys (List.filter_append_perm (fun e => decide (e.1 = k))
    t.entries)).2 t.nodupKeys

/-- The same entries, the one at `k` last. -/
def toBack (t : Table κ ν) (k : κ) : Table κ ν where
  entries := t.entries.filter (fun e => !decide (e.1 = k)) ++ t.entries.filter fun e => e.1 = k
  nodupKeys := (List.perm_nodupKeys (List.perm_append_comm.trans
    (List.filter_append_perm (fun e => decide (e.1 = k)) t.entries))).2 t.nodupKeys

theorem sameEntries_toFront (t : Table κ ν) (k : κ) : t.SameEntries (t.toFront k) :=
  (List.filter_append_perm (fun e : Sigma fun _ : κ => ν => decide (e.1 = k)) t.entries).symm

theorem sameEntries_toBack (t : Table κ ν) (k : κ) : t.SameEntries (t.toBack k) :=
  (List.perm_append_comm.trans
    (List.filter_append_perm (fun e : Sigma fun _ : κ => ν => decide (e.1 = k)) t.entries)).symm

/-- The values other than the one at `k`. -/
def others (t : Table κ ν) (k : κ) : List ν :=
  (t.entries.filter fun e => !decide (e.1 = k)).map Sigma.snd

/-- One key, one entry. -/
private theorem filter_key {t : Table κ ν} {k : κ} {v : ν} (h : t.lookup k = some v) :
    t.entries.filter (fun e => e.1 = k) = [⟨k, v⟩] := by
  have hmem : (⟨k, v⟩ : Sigma fun _ : κ => ν) ∈ t.entries := AList.mem_lookup_iff.1 h
  have hkeys : t.entries.keys.Nodup := t.nodupKeys
  revert hmem hkeys
  generalize t.entries = l
  intro hmem hkeys
  induction l with
  | nil => cases hmem
  | cons e l ih =>
      rw [List.keys_cons, List.nodup_cons] at hkeys
      rw [List.filter_cons]
      rcases List.mem_cons.1 hmem with rfl | hmem
      · -- the key is in no other entry
        have hnone : l.filter (fun e => e.1 = k) = [] := by
          refine List.filter_eq_nil_iff.2 fun e' he' hk => hkeys.1 ?_
          have hin : e'.1 ∈ l.keys := List.mem_map_of_mem he'
          exact of_decide_eq_true hk ▸ hin
        rw [if_pos (by simp), hnone]
      · have hne : ¬ e.1 = k := fun hk => hkeys.1 (hk ▸ List.mem_keys_of_mem hmem)
        rw [if_neg (by simpa using hne), ih hmem hkeys.2]

theorem values_toFront {t : Table κ ν} {k : κ} {v : ν} (h : t.lookup k = some v) :
    (t.toFront k).values = v :: t.others k := by
  show (t.entries.filter (fun e => decide (e.1 = k)) ++ _).map Sigma.snd = _
  rw [List.map_append, filter_key h]
  rfl

theorem values_toBack {t : Table κ ν} {k : κ} {v : ν} (h : t.lookup k = some v) :
    (t.toBack k).values = t.others k ++ [v] := by
  show (_ ++ t.entries.filter (fun e => decide (e.1 = k))).map Sigma.snd = _
  rw [List.map_append, filter_key h]
  rfl

/-- Two entries brought to the front, one after the other. -/
theorem values_toFront_toFront {t : Table κ ν} {k k' : κ} {v v' : ν} (h : t.lookup k = some v)
    (h' : t.lookup k' = some v') (hne : k' ≠ k) :
    ∃ rest, ((t.toFront k').toFront k).values = v :: v' :: rest := by
  have hlookup : (t.toFront k').lookup k = some v :=
    ((sameEntries_toFront t k').lookup_congr k).symm.trans h
  refine ⟨((t.entries.filter fun e => !decide (e.1 = k')).filter
    fun e => !decide (e.1 = k)).map Sigma.snd, ?_⟩
  rw [values_toFront hlookup]
  show v :: ((t.entries.filter (fun e => decide (e.1 = k')) ++
    t.entries.filter fun e => !decide (e.1 = k')).filter _).map Sigma.snd = _
  rw [filter_key h', List.filter_append, List.filter_cons, if_pos (by simpa using hne)]
  rfl

end Table
