/-
The results kept in memory are a bounded map.

The entries and the eviction order are kept in step by every call
(`Bounded`), so what is popped off the order is what leaves the map. An
entry leaves it when a call finds it expired, when it is deleted, when a
result of the same job replaces it, or when it is evicted; it is evicted
only to make room for another job's result, when no entry has expired and
the store is full, and then it is the one with the least expiry, and of
those the one stored first (`Evicts`).

Three limits are the code's own. A store of capacity 0 keeps nothing. An
entry without a time to live is ordered as if it expired at the last
instant there is, so at that instant nothing is pruned. The numbers that
order entries of one expiry have 64 bits.

# Contents

- the eviction order is a strict order;
- what removing, pruning, making room and storing do to the entries;
- what one call does (`apply_spec`), and from it the law for runs.
-/
import Hammerwork.Lib.OrderedIndex
import Hammerwork.Proofs.Results

namespace Hammerwork

open OrderedIndex

namespace MemoryResultStore

variable {m m' : MemoryResultStore} {now : DateTime} {jobId k : JobId} {value : Json}
  {expiresAt : Option DateTime} {entry : Entry} {order : List (EvictionKey × JobId)}
  {entries : Table JobId Entry} {inserted : Nat}

-- == the eviction order

/-- The order the entries are evicted in. -/
def Before (a b : EvictionKey) : Prop := a.before b = true

theorem before_iff {a b : EvictionKey} : Before a b ↔ a.1 < b.1 ∨ (a.1 = b.1 ∧ a.2 < b.2) := by
  simp [Before, EvictionKey.before]

theorem before_irrefl (a : EvictionKey) : ¬ Before a a := by
  rw [before_iff]
  rintro (h | ⟨-, h⟩)
  · exact absurd h (Int.lt_irrefl _)
  · exact absurd h (Nat.lt_irrefl _)

theorem Before.trans {a b c : EvictionKey} (h : Before a b) (h' : Before b c) : Before a c := by
  have hlex : ∀ {e₁ e₂ e₃ : Int} {n₁ n₂ n₃ : Nat}, e₁ < e₂ ∨ (e₁ = e₂ ∧ n₁ < n₂) →
      e₂ < e₃ ∨ (e₂ = e₃ ∧ n₂ < n₃) → e₁ < e₃ ∨ (e₁ = e₃ ∧ n₁ < n₃) := by omega
  exact before_iff.2 (hlex (before_iff.1 h) (before_iff.1 h'))

/-- Different keys are ordered one way or the other. -/
theorem before_total {a b : EvictionKey} (hne : a ≠ b) : Before a b ∨ Before b a := by
  have hlex : ∀ {e₁ e₂ : Int} {n₁ n₂ : Nat}, ¬ (e₁ = e₂ ∧ n₁ = n₂) →
      (e₁ < e₂ ∨ (e₁ = e₂ ∧ n₁ < n₂)) ∨ (e₂ < e₁ ∨ (e₂ = e₁ ∧ n₂ < n₁)) := by omega
  rw [before_iff, before_iff]
  exact hlex fun heq => hne (Prod.ext heq.1 heq.2)

/-- A new key goes to its place. -/
theorem insertOrder_spec (key : EvictionKey) (jobId : JobId) :
    ∀ order : List (EvictionKey × JobId), (order.Pairwise fun a b => Before a.1 b.1) →
    (∀ e ∈ order, e.1 ≠ key) →
    ((insertOrder key jobId order).Pairwise fun a b => Before a.1 b.1) ∧
      (insertOrder key jobId order).Perm ((key, jobId) :: order) := by
  intro order
  induction order with
  | nil => exact fun _ _ => ⟨List.pairwise_singleton _ _, List.Perm.refl _⟩
  | cons e order ih =>
      intro hsorted hfresh
      obtain ⟨hfirst, hrest⟩ := List.pairwise_cons.1 hsorted
      have hne : key ≠ e.1 := (hfresh e (List.mem_cons_self ..)).symm
      rw [insertOrder, if_neg hne]
      split
      case isTrue hbefore =>
        refine ⟨List.pairwise_cons.2 ⟨fun e' he' => ?_, hsorted⟩, List.Perm.refl _⟩
        rcases List.mem_cons.1 he' with rfl | he'
        · exact hbefore
        · exact Before.trans hbefore (hfirst e' he')
      case isFalse hnot =>
        obtain ⟨hsorted', hperm⟩ := ih hrest fun e' he' =>
          hfresh e' (List.mem_cons_of_mem _ he')
        refine ⟨List.pairwise_cons.2 ⟨fun e' he' => ?_, hsorted'⟩,
          (hperm.cons e).trans (List.Perm.swap _ _ _)⟩
        rcases List.mem_cons.1 (hperm.subset he') with rfl | he'
        · exact (before_total hne).resolve_left hnot
        · exact hfirst e' he'

-- == what is kept

/-- Whether the entry has expired. -/
def Entry.expired (entry : Entry) (now : DateTime) : Bool := entry.expiresAt.any (· ≤ now)

/-- The entries and their order are in step, each entry is ordered by its
expiry, and there are no more than the capacity. -/
structure Bounded (m : MemoryResultStore) : Prop where
  aligned : Aligned Before Entry.key m.order m.entries
  expiry : ∀ k entry, m.entries.lookup k = some entry →
    entry.key.1 = entry.expiresAt.getD maxUtc
  size : m.entries.entries.length ≤ m.capacity

/-- Before the last instant, an entry has expired when its key has. -/
theorem expired_iff_key (hnow : now < maxUtc) (hkey : entry.key.1 = entry.expiresAt.getD maxUtc) :
    entry.expired now = true ↔ entry.key.1 ≤ now := by
  rw [hkey]
  unfold Entry.expired
  cases entry.expiresAt with
  | none =>
      refine ⟨fun h => (by cases h), fun h => ?_⟩
      exact absurd h (Int.not_le.2 hnow)
  | some expiry => simp

/-- The entry of a job is taken out of both. -/
theorem remove_aligned (h : Aligned Before Entry.key m.order m.entries) (jobId : JobId) :
    Aligned Before Entry.key (m.remove jobId).1.order (m.remove jobId).1.entries := by
  unfold remove
  split
  · exact h
  · next entry hlookup => exact h.erase before_irrefl hlookup

/-- A table that has an entry wherever another has one is no shorter. -/
theorem length_le_of_lookup {t u : Table JobId Entry}
    (h : ∀ k entry, t.lookup k = some entry → u.lookup k ≠ none) :
    t.entries.length ≤ u.entries.length := by
  have hsub : t.keys ⊆ u.keys := by
    intro k hk
    obtain ⟨entry, hentry⟩ := Option.isSome_iff_exists.1 (AList.lookup_isSome.2 hk)
    obtain ⟨other, hother⟩ := Option.ne_none_iff_exists'.1 (h k entry hentry)
    exact Table.mem_keys_of_lookup hother
  have hle := (List.subperm_of_subset t.nodupKeys hsub).length_le
  simpa [AList.keys, List.keys] using hle

/-- Taking entries out leaves the store bounded. -/
theorem Bounded.of_kept (h : Bounded m) (hcapacity : m'.capacity = m.capacity)
    (haligned : Aligned Before Entry.key m'.order m'.entries)
    (hkept : ∀ k, m'.entries.lookup k = m.entries.lookup k ∨ m'.entries.lookup k = none) :
    Bounded m' where
  aligned := haligned
  expiry k entry hk := by
    rcases hkept k with heq | hnone
    · exact h.expiry k entry (heq ▸ hk)
    · rw [hnone] at hk
      cases hk
  size := by
    rw [hcapacity]
    refine le_trans (length_le_of_lookup fun k entry hk => ?_) h.size
    rcases hkept k with heq | hnone
    · rw [← heq, hk]
      simp
    · rw [hnone] at hk
      cases hk

theorem remove_bounded (h : Bounded m) (jobId : JobId) : Bounded (m.remove jobId).1 :=
  h.of_kept (remove_capacity m jobId) (remove_aligned h.aligned jobId) (remove_kept m jobId)

/-- Kept entries are as many as all of them only if they are all of
them. -/
theorem kept_all {t u : Table JobId Entry}
    (hkept : ∀ k, u.lookup k = t.lookup k ∨ u.lookup k = none)
    (hlength : t.entries.length ≤ u.entries.length) (k : JobId) : u.lookup k = t.lookup k := by
  have hsub : u.keys ⊆ t.keys := by
    intro k hk
    obtain ⟨entry, hentry⟩ := Option.isSome_iff_exists.1 (AList.lookup_isSome.2 hk)
    rcases hkept k with heq | hnone
    · exact Table.mem_keys_of_lookup (heq ▸ hentry)
    · rw [hnone] at hentry
      cases hentry
  have hperm := (List.subperm_of_subset u.nodupKeys hsub).perm_of_length_le
    (by simpa [AList.keys, List.keys] using hlength)
  rcases hkept k with heq | hnone
  · exact heq
  · cases hlookup : t.lookup k with
    | none => exact hnone
    | some entry =>
        have hmem : k ∈ u := hperm.symm.subset (Table.mem_keys_of_lookup hlookup)
        rw [← AList.lookup_isSome, hnone] at hmem
        cases hmem

-- == pruning

theorem popWhile_aligned (p : EvictionKey → Table JobId Entry → Bool) :
    ∀ (order : List (EvictionKey × JobId)) (entries : Table JobId Entry),
    Aligned Before Entry.key order entries →
    Aligned Before Entry.key (popWhile p order entries).1 (popWhile p order entries).2.1 := by
  intro order
  induction order with
  | nil => exact fun entries h => h
  | cons e order ih =>
      intro entries h
      rw [popWhile]
      split
      · exact ih _ (h.pop before_irrefl)
      · exact h

/-- Popping by the keys alone drops the first of them. -/
theorem popWhile_order (q : EvictionKey → Bool) :
    ∀ (order : List (EvictionKey × JobId)) (entries : Table JobId Entry),
    (popWhile (fun key _ => q key) order entries).1 = order.dropWhile fun e => q e.1 := by
  intro order
  induction order with
  | nil => exact fun _ => rfl
  | cons e order ih =>
      intro entries
      rw [popWhile, List.dropWhile_cons]
      split
      · exact ih _
      · rfl

/-- Of a sorted order, what is left has no key that an earlier key would
have to go with. -/
theorem dropWhile_sorted {q : EvictionKey → Bool}
    (hdown : ∀ a b, Before a b → q b = true → q a = true) :
    ∀ order : List (EvictionKey × JobId), (order.Pairwise fun a b => Before a.1 b.1) →
    ∀ e ∈ order, (e ∈ order.dropWhile fun e => q e.1) ↔ q e.1 = false := by
  intro order
  induction order with
  | nil => exact fun _ e he => by cases he
  | cons first order ih =>
      intro hsorted e he
      obtain ⟨hfirst, hrest⟩ := List.pairwise_cons.1 hsorted
      rw [List.dropWhile_cons]
      cases hq : q first.1 with
      | true =>
          rw [if_pos rfl]
          rcases List.mem_cons.1 he with rfl | he
          · rw [hq]
            refine ⟨fun hmem => ?_, fun h => by cases h⟩
            have hself := hfirst e ((List.dropWhile_sublist _).subset hmem)
            exact absurd hself (before_irrefl _)
          · exact ih hrest e he
      | false =>
          rw [if_neg (by simp)]
          refine ⟨fun _ => ?_, fun _ => he⟩
          rcases List.mem_cons.1 he with rfl | he
          · exact hq
          · cases hlast : q e.1 with
            | false => rfl
            | true =>
                rw [hdown _ _ (hfirst e he) hlast] at hq
                cases hq

theorem pruneExpired_bounded (h : Bounded m) (now : DateTime) : Bounded (m.pruneExpired now).1 :=
  h.of_kept rfl (popWhile_aligned _ _ _ h.aligned) (pruneExpired_kept m now)

/-- Before the last instant, pruning takes out the entries that have
expired. -/
theorem pruneExpired_lookup (h : Bounded m) (hnow : now < maxUtc) (k : JobId) :
    (m.pruneExpired now).1.entries.lookup k
      = (m.entries.lookup k).filter fun entry => !entry.expired now := by
  have hpruned := (pruneExpired_bounded h now).aligned
  have horder : (m.pruneExpired now).1.order = m.order.dropWhile fun e =>
      !(decide (e.1.1 = maxUtc) || decide (e.1.1 > now)) := popWhile_order _ _ _
  have hdown : ∀ a b : EvictionKey, Before a b →
      (!(decide (b.1 = maxUtc) || decide (b.1 > now))) = true →
      (!(decide (a.1 = maxUtc) || decide (a.1 > now))) = true := by
    intro a b hbefore hb
    have hle : a.1 ≤ b.1 := by
      rcases before_iff.1 hbefore with hlt | ⟨heq, -⟩
      · exact Int.le_of_lt hlt
      · exact le_of_eq heq
    have harith : ∀ {e₁ e₂ t top : Int}, e₁ ≤ e₂ → t < top → ¬ (e₂ = top ∨ t < e₂) →
        ¬ (e₁ = top ∨ t < e₁) := by omega
    simp only [Bool.not_eq_true', Bool.or_eq_false_iff, decide_eq_false_iff_not] at hb ⊢
    exact not_or.1 (harith hle hnow (not_or.2 hb))
  rcases pruneExpired_kept m now k with heq | hnone
  · rw [heq]
    cases hlookup : m.entries.lookup k with
    | none => rfl
    | some entry =>
        have hmem : (entry.key, k) ∈ (m.pruneExpired now).1.order :=
          (hpruned.mem _ _).2 ⟨entry, heq.trans hlookup, rfl⟩
        have hin : (entry.key, k) ∈ m.order := (h.aligned.mem _ _).2 ⟨entry, hlookup, rfl⟩
        rw [horder, dropWhile_sorted hdown _ h.aligned.sorted _ hin] at hmem
        have hlive : entry.expired now = false := by
          rw [← Bool.not_eq_true, expired_iff_key hnow (h.expiry k entry hlookup)]
          simp only [Bool.not_eq_false', Bool.or_eq_true, decide_eq_true_eq] at hmem
          rcases hmem with hlast | hlater
          · rw [hlast]
            exact Int.not_le.2 hnow
          · exact Int.not_le.2 hlater
        simp [Option.filter, hlive]
  · rw [hnone]
    cases hlookup : m.entries.lookup k with
    | none => rfl
    | some entry =>
        have hin : (entry.key, k) ∈ m.order := (h.aligned.mem _ _).2 ⟨entry, hlookup, rfl⟩
        have hexpired : entry.expired now = true := by
          rw [expired_iff_key hnow (h.expiry k entry hlookup)]
          by_contra hlater
          -- an entry that has not expired would still be ordered
          have hmem : (entry.key, k) ∈ (m.pruneExpired now).1.order := by
            rw [horder, dropWhile_sorted hdown _ h.aligned.sorted _ hin]
            simp only [Bool.not_eq_false', Bool.or_eq_true, decide_eq_true_eq]
            exact .inr (Int.not_le.1 hlater)
          obtain ⟨other, hother, -⟩ := (hpruned.mem _ _).1 hmem
          rw [hnone] at hother
          cases hother
        simp [Option.filter, hexpired]

-- == making room

/-- With a place left nothing is evicted, and in a full store the first
entry of the order is. -/
theorem makeRoom_spec (h : Bounded m) (hcapacity : m.capacity ≠ 0) :
    (m.entries.entries.length < m.capacity ∧ m.makeRoom = m) ∨
    (m.entries.entries.length = m.capacity ∧ ∃ e order, m.order = e :: order ∧
      m.makeRoom = { m with entries := m.entries.erase e.2, order := order }) := by
  have hlength := h.aligned.length_eq before_irrefl
  rcases Nat.lt_or_ge m.entries.entries.length m.capacity with hroom | hfull
  · refine .inl ⟨hroom, ?_⟩
    unfold makeRoom
    cases horder : m.order with
    | nil =>
        obtain ⟨capacity, entries, order, nextSeq⟩ := m
        cases horder
        rfl
    | cons e order =>
        rw [popWhile, if_neg (by simpa using hroom), ← horder]
  · have heq := le_antisymm h.size hfull
    refine .inr ⟨heq, ?_⟩
    cases horder : m.order with
    | nil =>
        rw [horder] at hlength
        exact absurd (heq.symm.trans hlength.symm) hcapacity
    | cons e order =>
        refine ⟨e, order, rfl, ?_⟩
        have hpopped : Aligned Before Entry.key order (m.entries.erase e.2) :=
          (horder ▸ h.aligned).pop before_irrefl
        have hless := hpopped.length_eq before_irrefl
        rw [horder, List.length_cons] at hlength
        unfold makeRoom
        rw [horder, popWhile, if_pos (by simpa using hfull)]
        cases order with
        | nil => rfl
        | cons e' order =>
            rw [popWhile, if_neg (by rw [← hless, decide_eq_true_iff]; omega)]

-- == one call

/-- The clock reading of a call. -/
def Op.reading : Op → Option DateTime
  | store now .. => some now
  | get now _ => some now
  | remove _ => none
  | cleanupExpired now => some now

/-- The call stores a result of job `k`. -/
def Op.Stores (op : Op) (k : JobId) : Prop :=
  ∃ now value expiresAt, op = .store now k value expiresAt

/-- Whether the call puts a result into the store. -/
def Op.inserts (m : MemoryResultStore) : Op → Bool
  | store now _ _ expiresAt => decide (m.capacity ≠ 0) && !expiresAt.any (· ≤ now)
  | _ => false

/-- The call finds the entry of `k` expired and takes it out: every call
that reads the clock does, but a read looks only at its own entry, and a
result that has expired already is not stored. -/
def Expires (m : MemoryResultStore) (op : Op) (k : JobId) : Prop :=
  ∃ entry, m.entries.lookup k = some entry ∧
    match op with
    | .store now _ _ expiresAt => expiresAt.any (· ≤ now) = false ∧ entry.expired now = true
    | .get now jobId => jobId = k ∧ entry.expired now = true
    | .remove _ => False
    | .cleanupExpired now => entry.expired now = true

/-- The call evicts the entry of `k`: it stores a result of a job that has
none, the store is full, no entry has expired, and the entry of `k` is
the first of all. -/
structure Evicts (m : MemoryResultStore) (op : Op) (k : JobId) : Prop where
  stores : ∃ now jobId value expiresAt, op = .store now jobId value expiresAt ∧
    m.entries.lookup jobId = none ∧ expiresAt.any (· ≤ now) = false ∧
    ∀ id entry, m.entries.lookup id = some entry → entry.expired now = false
  full : m.entries.entries.length = m.capacity
  first : ∃ entry, m.entries.lookup k = some entry ∧
    ∀ id other, m.entries.lookup id = some other → id = k ∨ Before entry.key other.key

/-- The call takes the entry of `k` out and puts nothing in its place. -/
def TakesOut (m : MemoryResultStore) (op : Op) (k : JobId) : Prop :=
  Expires m op k ∨ op = .remove k ∨ Evicts m op k

/-- Each entry's number is smaller than how many were put in before. -/
structure Numbered (m : MemoryResultStore) (inserted : Nat) : Prop where
  next : m.nextSeq = inserted % 2 ^ 64
  below : ∀ k entry, m.entries.lookup k = some entry → entry.key.2 < inserted

theorem remove_nextSeq (m : MemoryResultStore) (jobId : JobId) :
    (m.remove jobId).1.nextSeq = m.nextSeq := by
  unfold remove
  split <;> rfl

/-- Taking entries out keeps the numbers. -/
theorem Numbered.of_kept (h : Numbered m inserted) (hnext : m'.nextSeq = m.nextSeq)
    (hkept : ∀ k, m'.entries.lookup k = m.entries.lookup k ∨ m'.entries.lookup k = none) :
    Numbered m' inserted where
  next := hnext.trans h.next
  below k entry hk := by
    rcases hkept k with heq | hnone
    · exact h.below k entry (heq ▸ hk)
    · rw [hnone] at hk
      cases hk

theorem getAt_state (m : MemoryResultStore) (now : DateTime) (jobId : JobId) :
    (m.getAt now jobId).1 = m ∨
      ∃ entry, m.entries.lookup jobId = some entry ∧ entry.expired now = true ∧
        (m.getAt now jobId).1 = (m.remove jobId).1 := by
  unfold getAt
  cases hlookup : m.entries.lookup jobId with
  | none => exact .inl rfl
  | some entry =>
      dsimp only
      split
      case isTrue hexpired => exact .inr ⟨entry, rfl, hexpired, rfl⟩
      case isFalse => exact .inl rfl

/-- The store just before a result is put in. -/
def cleared (m : MemoryResultStore) (now : DateTime) (jobId : JobId) : MemoryResultStore :=
  ((m.remove jobId).1.pruneExpired now).1

theorem cleared_bounded (h : Bounded m) (now : DateTime) (jobId : JobId) :
    Bounded (m.cleared now jobId) :=
  pruneExpired_bounded (remove_bounded h jobId) now

theorem cleared_lookup (h : Bounded m) (hnow : now < maxUtc) (jobId k : JobId) :
    (m.cleared now jobId).entries.lookup k
      = if k = jobId then none
        else (m.entries.lookup k).filter fun entry => !entry.expired now := by
  unfold cleared
  rw [pruneExpired_lookup (remove_bounded h jobId) hnow, remove_lookup]
  split <;> rfl

theorem cleared_kept (m : MemoryResultStore) (now : DateTime) (jobId k : JobId) :
    (m.cleared now jobId).entries.lookup k = m.entries.lookup k ∨
      (m.cleared now jobId).entries.lookup k = none :=
  kept_trans (remove_kept m jobId k) (pruneExpired_kept _ now k)

theorem cleared_self (m : MemoryResultStore) (now : DateTime) (jobId : JobId) :
    (m.cleared now jobId).entries.lookup jobId = none := by
  have hremoved : (m.remove jobId).1.entries.lookup jobId = none := by
    rw [remove_lookup, if_pos rfl]
  rcases pruneExpired_kept (m.remove jobId).1 now jobId with heq | hnone
  · exact heq.trans hremoved
  · exact hnone

theorem cleared_rest (m : MemoryResultStore) (now : DateTime) (jobId : JobId) :
    (m.cleared now jobId).capacity = m.capacity ∧ (m.cleared now jobId).nextSeq = m.nextSeq :=
  ⟨remove_capacity m jobId, remove_nextSeq m jobId⟩

/-- Making room keeps the store bounded, and leaves a place. -/
theorem makeRoom_bounded (h : Bounded m) (hcapacity : m.capacity ≠ 0) :
    Bounded m.makeRoom ∧ m.makeRoom.entries.entries.length < m.capacity := by
  have hbounded : Bounded m.makeRoom :=
    h.of_kept rfl (popWhile_aligned _ _ _ h.aligned) (makeRoom_kept m)
  refine ⟨hbounded, ?_⟩
  rcases makeRoom_spec h hcapacity with ⟨hroom, heq⟩ | ⟨hfull, e, order, horder, heq⟩
  · rwa [heq]
  · have hlength := h.aligned.length_eq before_irrefl
    have hless := hbounded.aligned.length_eq before_irrefl
    rw [heq] at hless ⊢
    dsimp only at hless ⊢
    rw [horder, List.length_cons] at hlength
    omega

/-- The store with a result put in. -/
def put (m : MemoryResultStore) (jobId : JobId) (value : Json) (expiresAt : Option DateTime) :
    MemoryResultStore :=
  { m with
    entries := m.entries.insert jobId ⟨value, expiresAt, (expiresAt.getD maxUtc, m.nextSeq)⟩
    order := insertOrder (expiresAt.getD maxUtc, m.nextSeq) jobId m.order
    nextSeq := (m.nextSeq + 1) % 2 ^ 64 }

/-- A result put in where there is a place keeps the store bounded. -/
theorem put_bounded (h : Bounded m) (hnumbered : Numbered m inserted)
    (hroom : inserted < 2 ^ 64) (hnone : m.entries.lookup jobId = none)
    (hplace : m.entries.entries.length < m.capacity) (value : Json)
    (expiresAt : Option DateTime) :
    Bounded (m.put jobId value expiresAt) ∧ Numbered (m.put jobId value expiresAt)
      (inserted + 1) := by
  have hseq : m.nextSeq = inserted := by
    rw [hnumbered.next]
    exact Nat.mod_eq_of_lt hroom
  have hfresh : ∀ e ∈ m.order, e.1 ≠ (expiresAt.getD maxUtc, m.nextSeq) := by
    intro e he heq
    obtain ⟨entry, hentry, hkey⟩ := (h.aligned.mem e.1 e.2).1 he
    have hbelow := hnumbered.below e.2 entry hentry
    rw [hkey, heq] at hbelow
    dsimp only at hbelow
    omega
  obtain ⟨hsorted, hperm⟩ := insertOrder_spec _ jobId m.order h.aligned.sorted hfresh
  refine ⟨⟨h.aligned.insert hnone hsorted hperm, fun k entry hk => ?_, ?_⟩, ?_,
    fun k entry hk => ?_⟩
  · rw [put, Table.lookup_insert_if] at hk
    split at hk
    · rw [← Option.some.inj hk]
    · exact h.expiry k entry hk
  · have hout : jobId ∉ m.entries := by
      rw [← AList.lookup_eq_none]
      exact hnone
    rw [put, AList.insert_of_notMem hout]
    exact hplace
  · rw [put, hseq]
  · rw [put, Table.lookup_insert_if] at hk
    split at hk
    · rw [← Option.some.inj hk, hseq]
      exact Nat.lt_succ_self inserted
    · exact Nat.lt_succ_of_lt (hnumbered.below k entry hk)

/-- Storing a result that has not expired. -/
theorem storeAt_live (hcapacity : m.capacity ≠ 0) (hlive : expiresAt.any (· ≤ now) = false) :
    m.storeAt now jobId value expiresAt
      = (m.cleared now jobId).makeRoom.put jobId value expiresAt := by
  unfold storeAt
  rw [if_neg hcapacity]
  dsimp only
  rw [if_neg (by rw [hlive]; simp)]
  rfl

theorem storeAt_dead (hcapacity : m.capacity ≠ 0) (hdead : expiresAt.any (· ≤ now) = true) :
    m.storeAt now jobId value expiresAt = (m.remove jobId).1 := by
  unfold storeAt
  rw [if_neg hcapacity]
  dsimp only
  rw [if_pos hdead]

/-- A call keeps the store bounded and the entries numbered. -/
theorem apply_bounded (h : Bounded m) (hnumbered : Numbered m inserted) (op : Op)
    (hroom : op.inserts m = true → inserted < 2 ^ 64) :
    Bounded (op.apply m) ∧
      Numbered (op.apply m) (inserted + if op.inserts m then 1 else 0) := by
  have htaken : ∀ {m'}, op.inserts m = false → m'.nextSeq = m.nextSeq → Bounded m' →
      (∀ k, m'.entries.lookup k = m.entries.lookup k ∨ m'.entries.lookup k = none) →
      Bounded m' ∧ Numbered m' (inserted + if op.inserts m then 1 else 0) := by
    intro m' hnot hnext hbounded hkept
    rw [hnot]
    exact ⟨hbounded, hnumbered.of_kept hnext hkept⟩
  cases op with
  | get now jobId =>
      show Bounded (m.getAt now jobId).1 ∧ Numbered (m.getAt now jobId).1 _
      rcases getAt_state m now jobId with heq | ⟨-, -, -, heq⟩
      · rw [heq]
        exact htaken rfl rfl h fun _ => .inl rfl
      · rw [heq]
        exact htaken rfl (remove_nextSeq m jobId) (remove_bounded h jobId) (remove_kept m jobId)
  | remove jobId =>
      exact htaken rfl (remove_nextSeq m jobId) (remove_bounded h jobId) (remove_kept m jobId)
  | cleanupExpired now =>
      exact htaken rfl rfl (pruneExpired_bounded h now) (pruneExpired_kept m now)
  | store now jobId value expiresAt =>
      show Bounded (m.storeAt now jobId value expiresAt) ∧
        Numbered (m.storeAt now jobId value expiresAt) _
      by_cases hcapacity : m.capacity = 0
      · have hsame : m.storeAt now jobId value expiresAt = m := by
          unfold storeAt
          rw [if_pos hcapacity]
        rw [hsame]
        exact htaken (by simp [Op.inserts, hcapacity]) rfl h fun _ => .inl rfl
      · cases hexpired : expiresAt.any (· ≤ now) with
        | true =>
            rw [storeAt_dead hcapacity hexpired]
            exact htaken (by simp [Op.inserts, hexpired]) (remove_nextSeq m jobId)
              (remove_bounded h jobId) (remove_kept m jobId)
        | false =>
            have hinserts : (Op.store now jobId value expiresAt).inserts m = true := by
              simp [Op.inserts, hexpired, hcapacity]
            have hcleared := cleared_bounded h now jobId
            obtain ⟨hmade, hplace⟩ := makeRoom_bounded hcleared
              ((cleared_rest m now jobId).1 ▸ hcapacity)
            have hkept : ∀ k, (m.cleared now jobId).makeRoom.entries.lookup k
                = m.entries.lookup k ∨
                (m.cleared now jobId).makeRoom.entries.lookup k = none := fun k =>
              kept_trans (cleared_kept m now jobId k) (makeRoom_kept _ k)
            have hnone : (m.cleared now jobId).makeRoom.entries.lookup jobId = none := by
              rcases makeRoom_kept (m.cleared now jobId) jobId with heq | hnone
              · exact heq.trans (cleared_self m now jobId)
              · exact hnone
            rw [storeAt_live hcapacity hexpired, hinserts]
            exact put_bounded hmade (hnumbered.of_kept (cleared_rest m now jobId).2 hkept)
              (hroom hinserts) hnone hplace value expiresAt

/-- In a call that stores another job's result, the entry of `k` stays
unless it has expired or is evicted. -/
theorem storeAt_lookup (h : Bounded m) (hcapacity : m.capacity ≠ 0) (hnow : now < maxUtc)
    (value : Json)
    (hlive : expiresAt.any (· ≤ now) = false) (hk : k ≠ jobId)
    (hlookup : m.entries.lookup k = some entry) :
    ((m.storeAt now jobId value expiresAt).entries.lookup k = some entry ∧
      entry.expired now = false ∧ ¬ Evicts m (.store now jobId value expiresAt) k) ∨
    ((m.storeAt now jobId value expiresAt).entries.lookup k = none ∧
      (entry.expired now = true ∨ Evicts m (.store now jobId value expiresAt) k)) := by
  have hcleared := cleared_bounded h now jobId
  have hcapacity' : (m.cleared now jobId).capacity = m.capacity := (cleared_rest m now jobId).1
  have hput : (m.storeAt now jobId value expiresAt).entries.lookup k
      = (m.cleared now jobId).makeRoom.entries.lookup k := by
    rw [storeAt_live hcapacity hlive, put, Table.lookup_insert_if, if_neg hk]
  have hat : (m.cleared now jobId).entries.lookup k
      = if entry.expired now then none else some entry := by
    rw [cleared_lookup h hnow, if_neg hk, hlookup]
    cases hexpired : entry.expired now <;> simp [Option.filter, hexpired]
  rw [hput]
  cases hexpired : entry.expired now with
  | true =>
      rw [hexpired, if_pos rfl] at hat
      refine .inr ⟨?_, .inl rfl⟩
      rcases makeRoom_kept (m.cleared now jobId) k with heq | hnone
      · exact heq.trans hat
      · exact hnone
  | false =>
      rw [hexpired, if_neg (by simp)] at hat
      rcases makeRoom_spec hcleared (hcapacity' ▸ hcapacity) with
        ⟨hroom, heq⟩ | ⟨hfull, e, order, horder, heq⟩
      · refine .inl ⟨by rw [heq, hat], rfl, fun hevicts => ?_⟩
        -- an eviction would need the store to be full already
        obtain ⟨_, _, _, _, hop, hnew, -, hunexpired⟩ := hevicts.stores
        cases hop
        have hsame : ∀ id, m.entries.lookup id = (m.cleared now jobId).entries.lookup id := by
          intro id
          rw [cleared_lookup h hnow]
          split
          case isTrue hid => rw [hid, hnew]
          case isFalse =>
            cases hid : m.entries.lookup id with
            | none => rfl
            | some other => simp [Option.filter, hunexpired id other hid]
        have hle := length_le_of_lookup (t := m.entries) (u := (m.cleared now jobId).entries)
          fun id other hother => by rw [← hsame, hother]; simp
        rw [hcapacity', ← hevicts.full] at hroom
        omega
      · -- nothing was cleared, so the first entry of all is evicted
        have hall := kept_all (cleared_kept m now jobId) (by
          rw [hfull, hcapacity']
          exact h.size)
        have hnew : m.entries.lookup jobId = none := (hall jobId).symm.trans
          (cleared_self m now jobId)
        have hunexpired : ∀ id other, m.entries.lookup id = some other →
            other.expired now = false := by
          intro id other hid
          have hkept := hall id
          rw [cleared_lookup h hnow] at hkept
          split at hkept
          · rw [hid] at hkept
            cases hkept
          · rw [hid] at hkept
            cases hother : other.expired now with
            | false => rfl
            | true => simp [Option.filter, hother] at hkept
        have hlength : m.entries.entries.length = m.capacity := by
          refine le_antisymm h.size ?_
          rw [← hcapacity', ← hfull]
          exact length_le_of_lookup fun id other hother => by rw [← hall id, hother]; simp
        obtain ⟨first, hfirst, hkey⟩ := (hcleared.aligned.mem e.1 e.2).1
          (horder ▸ List.mem_cons_self ..)
        have hlater : ∀ e' ∈ order, Before e.1 e'.1 :=
          (List.pairwise_cons.1 (horder ▸ hcleared.aligned.sorted)).1
        have hplace : ∀ id other, m.entries.lookup id = some other →
            id = e.2 ∨ Before e.1 other.key := by
          intro id other hid
          have hmem : (other.key, id) ∈ (m.cleared now jobId).order :=
            (hcleared.aligned.mem _ _).2 ⟨other, (hall id).trans hid, rfl⟩
          rw [horder] at hmem
          rcases List.mem_cons.1 hmem with rfl | hmem
          · exact .inl rfl
          · exact .inr (hlater _ hmem)
        rw [heq, Table.lookup_erase_if]
        by_cases hke : k = e.2
        · have hentry : first = entry :=
            Option.some.inj (hfirst.symm.trans (hke ▸ hat))
          refine .inr ⟨if_pos hke, .inr ⟨⟨now, jobId, value, expiresAt, rfl, hnew, hlive,
            hunexpired⟩, hlength, entry, hlookup, fun id other hid => ?_⟩⟩
          rw [hke, ← hentry, hkey]
          exact hplace id other hid
        · refine .inl ⟨by rw [if_neg hke, hat], rfl, fun hevicts => ?_⟩
          -- the entry evicted stands before all others, this one included
          obtain ⟨entry', hentry', hleast⟩ := hevicts.first
          obtain rfl : entry = entry' := Option.some.inj (hlookup.symm.trans hentry')
          have hbefore := (hplace k entry hlookup).resolve_left hke
          rcases hleast e.2 first ((hall e.2).symm.trans hfirst) with hid | hafter
          · exact hke hid.symm
          · rw [hkey] at hafter
            exact before_irrefl _ (Before.trans hafter hbefore)

/-- What a call does to an entry that it does not replace: it keeps it,
or takes it out for one of the three reasons. -/
theorem apply_lookup (h : Bounded m) (hcapacity : m.capacity ≠ 0) (op : Op)
    (hreading : ∀ now, op.reading = some now → now < maxUtc) (hstores : ¬ op.Stores k)
    (hlookup : m.entries.lookup k = some entry) :
    ((op.apply m).entries.lookup k = some entry ∧ ¬ TakesOut m op k) ∨
    ((op.apply m).entries.lookup k = none ∧ TakesOut m op k) := by
  have hevicts : (∀ now jobId value expiresAt, op ≠ .store now jobId value expiresAt) →
      ¬ Evicts m op k := by
    intro hop hevicts
    obtain ⟨now, jobId, value, expiresAt, heq, -⟩ := hevicts.stores
    exact hop _ _ _ _ heq
  cases op with
  | store now jobId value expiresAt =>
      have hk : k ≠ jobId := fun heq => hstores ⟨now, value, expiresAt, by rw [heq]⟩
      show ((m.storeAt now jobId value expiresAt).entries.lookup k = some entry ∧ _) ∨
        ((m.storeAt now jobId value expiresAt).entries.lookup k = none ∧ _)
      cases hexpired : expiresAt.any (· ≤ now) with
      | true =>
          rw [storeAt_dead hcapacity hexpired, remove_lookup, if_neg hk]
          refine .inl ⟨hlookup, ?_⟩
          rintro (⟨_, -, hlive, -⟩ | heq | hevicts)
          · rw [hexpired] at hlive
            cases hlive
          · cases heq
          · obtain ⟨_, _, _, _, heq, -, hlive, -⟩ := hevicts.stores
            cases heq
            rw [hexpired] at hlive
            cases hlive
      | false =>
          rcases storeAt_lookup h hcapacity (hreading now rfl) value hexpired hk hlookup
            with ⟨hkept, hlive, hnot⟩ | ⟨hgone, hwhy⟩
          · refine .inl ⟨hkept, ?_⟩
            rintro (⟨entry', hentry', -, hdead⟩ | heq | hevicts)
            · rw [hlookup] at hentry'
              rw [← Option.some.inj hentry', hlive] at hdead
              cases hdead
            · cases heq
            · exact hnot hevicts
          · refine .inr ⟨hgone, ?_⟩
            rcases hwhy with hdead | hevicts
            · exact .inl ⟨entry, hlookup, hexpired, hdead⟩
            · exact .inr (.inr hevicts)
  | get now jobId =>
      show ((m.getAt now jobId).1.entries.lookup k = some entry ∧ _) ∨
        ((m.getAt now jobId).1.entries.lookup k = none ∧ _)
      have hno := hevicts fun _ _ _ _ heq => by cases heq
      rcases getAt_state m now jobId with heq | ⟨found, hfound, hdead, heq⟩
      · rw [heq]
        refine .inl ⟨hlookup, ?_⟩
        rintro (⟨entry', hentry', rfl, hdead⟩ | heq' | hevicts)
        · -- had it expired, it would have been removed
          unfold getAt at heq
          rw [hentry'] at heq
          dsimp only at heq
          unfold Entry.expired at hdead
          rw [if_pos hdead] at heq
          have hgone := remove_lookup m jobId jobId
          rw [heq, if_pos rfl, hlookup] at hgone
          cases hgone
        · cases heq'
        · exact hno hevicts
      · rw [heq, remove_lookup]
        by_cases hk : k = jobId
        · rw [if_pos hk]
          exact .inr ⟨rfl, .inl ⟨found, hk ▸ hfound, hk.symm, hdead⟩⟩
        · rw [if_neg hk]
          refine .inl ⟨hlookup, ?_⟩
          rintro (⟨_, -, heq', -⟩ | heq' | hevicts)
          · exact hk heq'.symm
          · cases heq'
          · exact hno hevicts
  | remove jobId =>
      show ((m.remove jobId).1.entries.lookup k = some entry ∧ _) ∨
        ((m.remove jobId).1.entries.lookup k = none ∧ _)
      have hno := hevicts fun _ _ _ _ heq => by cases heq
      rw [remove_lookup]
      by_cases hk : k = jobId
      · rw [if_pos hk]
        exact .inr ⟨rfl, .inr (.inl (by rw [hk]))⟩
      · rw [if_neg hk]
        refine .inl ⟨hlookup, ?_⟩
        rintro (⟨_, -, hfalse⟩ | heq | hevicts)
        · exact hfalse
        · injection heq with heq
          exact hk heq.symm
        · exact hno hevicts
  | cleanupExpired now =>
      show ((m.pruneExpired now).1.entries.lookup k = some entry ∧ _) ∨
        ((m.pruneExpired now).1.entries.lookup k = none ∧ _)
      have hno := hevicts fun _ _ _ _ heq => by cases heq
      rw [pruneExpired_lookup h (hreading now rfl), hlookup]
      cases hexpired : entry.expired now with
      | true =>
          refine .inr ⟨by simp [Option.filter, hexpired], .inl ⟨entry, hlookup, hexpired⟩⟩
      | false =>
          refine .inl ⟨by simp [Option.filter, hexpired], ?_⟩
          rintro (⟨entry', hentry', hdead⟩ | heq | hevicts)
          · rw [hlookup] at hentry'
            have hdead : entry'.expired now = true := hdead
            rw [← Option.some.inj hentry', hexpired] at hdead
            cases hdead
          · cases heq
          · exact hno hevicts

/-- A call that stores a result leaves that result, unless it has expired
already. -/
theorem apply_store (hcapacity : m.capacity ≠ 0) (now : DateTime) (k : JobId) (value : Json)
    (expiresAt : Option DateTime) :
    ((Op.store now k value expiresAt).apply m).entries.lookup k
      = if expiresAt.any (· ≤ now) then none
        else some ⟨value, expiresAt, (expiresAt.getD maxUtc, m.nextSeq)⟩ := by
  show (m.storeAt now k value expiresAt).entries.lookup k = _
  cases hexpired : expiresAt.any (· ≤ now) with
  | true => rw [storeAt_dead hcapacity hexpired, remove_lookup, if_pos rfl, if_pos rfl]
  | false =>
      rw [storeAt_live hcapacity hexpired, put, AList.lookup_insert, if_neg (by simp),
        ← (cleared_rest m now k).2]
      rfl

/-- A call that does not store a result of `k` puts no entry there. -/
theorem apply_none (op : Op) (hstores : ¬ op.Stores k) (hnone : m.entries.lookup k = none) :
    (op.apply m).entries.lookup k = none := by
  rcases Op.apply_kept m op fun now value expiresAt heq =>
    hstores ⟨now, value, expiresAt, heq⟩ with heq | hgone
  · exact heq.trans hnone
  · exact hgone

-- == the runs

/-- One call. -/
def Step (m : MemoryResultStore) (op : Op) (m' : MemoryResultStore) : Prop := m' = op.apply m

variable {n : Nat} {r : Run Step n} {capacity i : Nat}

/-- How many results the first calls put in. -/
def insertedBefore (r : Run Step n) (i : Nat) : Nat := r.count (fun m op => op.inserts m) 0 i

/-- No call after `j` and before `i` stores a result of `k` or takes its
entry out. -/
def KeptSince (r : Run Step n) (k : JobId) (j i : Nat) : Prop :=
  ∀ l, j < l → l < i → ¬ (r.event l).Stores k ∧ ¬ TakesOut (r.state l) (r.event l) k

/-- The calls are those a bounded map is asked for: it has a capacity,
the clock has not reached its last instant, and the numbers suffice. -/
structure Regular (r : Run Step n) (capacity : Nat) : Prop where
  start : r.state 0 = withCapacity capacity
  room : capacity ≠ 0
  clock : ∀ i < n, ∀ now, (r.event i).reading = some now → now < maxUtc
  numbers : insertedBefore r n ≤ 2 ^ 64

theorem insertedBefore_mono (r : Run Step n) {i j : Nat} (hij : i ≤ j) :
    insertedBefore r i ≤ insertedBefore r j := by
  induction j, hij using Nat.le_induction with
  | base => exact le_refl _
  | succ j _ ih =>
      refine ih.trans ?_
      unfold insertedBefore
      rw [Run.count_succ r _ (Nat.zero_le j)]
      exact Nat.le_add_right ..

/-- The store is bounded and its entries numbered in every state. -/
theorem Regular.bounded (h : Regular r capacity) : ∀ i ≤ n,
    Bounded (r.state i) ∧ Numbered (r.state i) (insertedBefore r i) ∧
      (r.state i).capacity = capacity := by
  intro i
  induction i with
  | zero =>
      intro _
      rw [h.start]
      exact ⟨⟨aligned_nil, fun _ _ hk => (by cases hk), Nat.zero_le _⟩,
        ⟨rfl, fun _ _ hk => by cases hk⟩, rfl⟩
  | succ i ih =>
      intro hi
      obtain ⟨hbounded, hnumbered, hcapacity⟩ := ih (by omega)
      have hstep : r.state (i + 1) = (r.event i).apply (r.state i) := r.next i (by omega)
      have hcount : insertedBefore r (i + 1) = insertedBefore r i
          + if (r.event i).inserts (r.state i) then 1 else 0 :=
        Run.count_succ r _ (Nat.zero_le i)
      have htotal := (insertedBefore_mono r hi).trans h.numbers
      have hnext := apply_bounded hbounded hnumbered (r.event i) fun hinserts => by
        rw [hcount, if_pos hinserts] at htotal
        omega
      rw [hstep, hcount, Op.apply_capacity]
      exact ⟨hnext.1, hnext.2, hcapacity⟩

/-- The next number is how many results were put in. -/
theorem Regular.nextSeq_eq (h : Regular r capacity) (hi : i < n)
    (hinserts : (r.event i).inserts (r.state i) = true) :
    (r.state i).nextSeq = insertedBefore r i := by
  have htotal := (insertedBefore_mono r hi).trans h.numbers
  unfold insertedBefore at htotal
  rw [Run.count_succ r _ (Nat.zero_le i), if_pos hinserts] at htotal
  rw [(h.bounded i (Nat.le_of_lt hi)).2.1.next]
  exact Nat.mod_eq_of_lt htotal

/-- The entry of a job is the one its last store put in, with its number,
until a call takes it out. -/
theorem Regular.lookup_iff (h : Regular r capacity) (k : JobId) (entry : Entry) : ∀ i ≤ n,
    (r.state i).entries.lookup k = some entry ↔
      ∃ j < i, ∃ stored, r.event j = .store stored k entry.value entry.expiresAt ∧
        entry.expired stored = false ∧ KeptSince r k j i ∧
        entry.key = (entry.expiresAt.getD maxUtc, insertedBefore r j) := by
  intro i
  induction i with
  | zero =>
      intro _
      rw [h.start]
      exact ⟨fun hk => (by cases hk), fun ⟨j, hj, _⟩ => absurd hj (Nat.not_lt_zero j)⟩
  | succ i ih =>
      intro hi
      obtain ⟨hbounded, hnumbered, hcapacity⟩ := h.bounded i (by omega)
      have hroom : (r.state i).capacity ≠ 0 := hcapacity ▸ h.room
      rw [show r.state (i + 1) = (r.event i).apply (r.state i) from r.next i (by omega)]
      by_cases hstores : (r.event i).Stores k
      · obtain ⟨now, value, expiresAt, hevent⟩ := hstores
        rw [hevent, apply_store hroom]
        constructor
        · intro hk
          split at hk
          case isTrue => cases hk
          case isFalse hlive =>
            obtain rfl := Option.some.inj hk
            have hinserts : (r.event i).inserts (r.state i) = true := by
              rw [hevent]
              simp [Op.inserts, hroom, hlive]
            refine ⟨i, Nat.lt_succ_self i, now, hevent, Bool.eq_false_of_not_eq_true hlive,
              fun l hl hl' => by omega, ?_⟩
            rw [h.nextSeq_eq hi hinserts]
        · rintro ⟨j, hj, stored, hevent', hlive, hkept, hkey⟩
          -- the last store of `k` is this one
          have hji : j = i := by
            by_contra hne
            exact (hkept i (by omega) (Nat.lt_succ_self i)).1 ⟨now, value, expiresAt, hevent⟩
          subst hji
          rw [hevent] at hevent'
          injection hevent' with hnow _ hvalue hexpiry
          have hinserts : (r.event j).inserts (r.state j) = true := by
            rw [hevent]
            unfold Entry.expired at hlive
            rw [← hexpiry, ← hnow] at hlive
            simp [Op.inserts, hroom, hlive]
          unfold Entry.expired at hlive
          rw [hnow, hexpiry, hlive, if_neg (by simp), hvalue, h.nextSeq_eq hi hinserts, ← hkey]
      · have hkept : ((r.event i).apply (r.state i)).entries.lookup k = some entry ↔
            (r.state i).entries.lookup k = some entry ∧
              ¬ TakesOut (r.state i) (r.event i) k := by
          cases hlookup : (r.state i).entries.lookup k with
          | none =>
              rw [apply_none _ hstores hlookup]
              exact ⟨fun hk => (by cases hk), fun hk => by cases hk.1⟩
          | some found =>
              rcases apply_lookup hbounded hroom _ (h.clock i hi) hstores hlookup with
                ⟨heq, hnot⟩ | ⟨hnone, htakes⟩
              · rw [heq]
                exact ⟨fun hk => ⟨hk, hnot⟩, fun hk => hk.1⟩
              · rw [hnone]
                exact ⟨fun hk => (by cases hk), fun hk => absurd htakes hk.2⟩
        rw [hkept, ih (by omega)]
        constructor
        · rintro ⟨⟨j, hj, stored, hevent, hlive, hsince, hkey⟩, hnot⟩
          refine ⟨j, by omega, stored, hevent, hlive, fun l hl hl' => ?_, hkey⟩
          by_cases hli : l = i
          · rw [hli]
            exact ⟨hstores, hnot⟩
          · exact hsince l hl (by omega)
        · rintro ⟨j, hj, stored, hevent, hlive, hsince, hkey⟩
          have hji : j ≠ i := fun heq => hstores ⟨stored, _, _, heq ▸ hevent⟩
          exact ⟨⟨j, by omega, stored, hevent, hlive, fun l hl hl' => hsince l hl (by omega), hkey⟩,
            (hsince i (by omega) (Nat.lt_succ_self i)).2⟩

-- == the law

/-- What is promised of the calls of a run: the entries and the eviction
order hold the same keys, there are no more entries than the capacity, a
read returns the value its job's last store put in unless that entry has
expired or was taken out since, entries are numbered in the order they
were put in, an entry leaves only when it is replaced or taken out, and
replacing one leaves the others, those apart that have expired. -/
structure IsBoundedMap (r : Run Step n) : Prop where
  aligned : ∀ i ≤ n, Aligned Before Entry.key (r.state i).order (r.state i).entries
  size : ∀ i ≤ n, (r.state i).entries.entries.length ≤ (r.state i).capacity
  get : ∀ i ≤ n, ∀ now k value, ((r.state i).getAt now k).2 = some value ↔
    ∃ j < i, ∃ stored expiresAt, r.event j = .store stored k value expiresAt ∧
      expiresAt.any (· ≤ stored) = false ∧ KeptSince r k j i ∧
      expiresAt.any (· ≤ now) = false
  numbered : ∀ i ≤ n, ∀ k entry, (r.state i).entries.lookup k = some entry →
    ∃ j < i, (r.event j).Stores k ∧ (∀ l, j < l → l < i → ¬ (r.event l).Stores k) ∧
      entry.key = (entry.expiresAt.getD maxUtc, insertedBefore r j)
  leaves : ∀ i < n, ∀ k entry, (r.state i).entries.lookup k = some entry →
    (r.state (i + 1)).entries.lookup k = some entry ∨ (r.event i).Stores k ∨
      TakesOut (r.state i) (r.event i) k
  replaces : ∀ i < n, ∀ now k value expiresAt, r.event i = .store now k value expiresAt →
    (r.state i).entries.lookup k ≠ none → ∀ other ≠ k, ∀ entry,
    (r.state i).entries.lookup other = some entry →
      (r.state (i + 1)).entries.lookup other = some entry ∨ entry.expired now = true

/-- What a read returns is the entry's value, unless it has expired. -/
theorem getAt_eq_some {value : Json} :
    (m.getAt now k).2 = some value ↔
      ∃ entry, m.entries.lookup k = some entry ∧ entry.value = value ∧
        entry.expired now = false := by
  unfold getAt
  cases hlookup : m.entries.lookup k with
  | none => exact ⟨fun h => (by cases h), fun ⟨_, h, _⟩ => by cases h⟩
  | some entry =>
      dsimp only
      unfold Entry.expired
      split
      case isTrue hexpired =>
        refine ⟨fun h => (by cases h), fun ⟨entry', hentry, _, hlive⟩ => ?_⟩
        rw [← Option.some.inj hentry, hexpired] at hlive
        cases hlive
      case isFalse hlive =>
        refine ⟨fun h => ⟨entry, rfl, Option.some.inj h, Bool.eq_false_of_not_eq_true hlive⟩, ?_⟩
        rintro ⟨entry', hentry, hvalue, -⟩
        rw [← hvalue, ← Option.some.inj hentry]

/-- In every run of calls of a store that has a capacity, before the last
instant of the clock and for as many results as there are numbers, the
store is a bounded map. -/
theorem memory_results_bounded_map (h : Regular r capacity) : IsBoundedMap r where
  aligned i hi := (h.bounded i hi).1.aligned
  size i hi := (h.bounded i hi).1.size
  get i hi now k value := by
    rw [getAt_eq_some]
    constructor
    · rintro ⟨entry, hlookup, rfl, hlive⟩
      obtain ⟨j, hj, stored, hevent, hstored, hsince, -⟩ := (h.lookup_iff k entry i hi).1 hlookup
      exact ⟨j, hj, stored, entry.expiresAt, hevent, hstored, hsince, hlive⟩
    · rintro ⟨j, hj, stored, expiresAt, hevent, hstored, hsince, hlive⟩
      exact ⟨⟨value, expiresAt, (expiresAt.getD maxUtc, insertedBefore r j)⟩,
        (h.lookup_iff k _ i hi).2 ⟨j, hj, stored, hevent, hstored, hsince, rfl⟩, rfl, hlive⟩
  numbered i hi k entry hlookup := by
    obtain ⟨j, hj, stored, hevent, -, hsince, hkey⟩ := (h.lookup_iff k entry i hi).1 hlookup
    exact ⟨j, hj, ⟨stored, _, _, hevent⟩, fun l hl hl' => (hsince l hl hl').1, hkey⟩
  leaves i hi k entry hlookup := by
    obtain ⟨hbounded, -, hcapacity⟩ := h.bounded i (Nat.le_of_lt hi)
    rw [show r.state (i + 1) = (r.event i).apply (r.state i) from r.next i hi]
    by_cases hstores : (r.event i).Stores k
    · exact .inr (.inl hstores)
    · rcases apply_lookup hbounded (hcapacity ▸ h.room) _ (h.clock i hi) hstores hlookup with
        ⟨heq, -⟩ | ⟨-, htakes⟩
      · exact .inl heq
      · exact .inr (.inr htakes)
  replaces i hi now k value expiresAt hevent hpresent other hother entry hlookup := by
    obtain ⟨hbounded, -, hcapacity⟩ := h.bounded i (Nat.le_of_lt hi)
    rw [show r.state (i + 1) = (r.event i).apply (r.state i) from r.next i hi]
    have hstores : ¬ (r.event i).Stores other := by
      rintro ⟨now', value', expiresAt', heq⟩
      rw [hevent] at heq
      injection heq with _ hid
      exact hother hid.symm
    rcases apply_lookup hbounded (hcapacity ▸ h.room) _ (h.clock i hi) hstores hlookup with
      ⟨heq, -⟩ | ⟨-, hexpires | heq | hevicts⟩
    · exact .inl heq
    · obtain ⟨entry', hentry', hwhy⟩ := hexpires
      rw [hevent] at hwhy
      rw [Option.some.inj (hlookup.symm.trans hentry')]
      exact .inr hwhy.2
    · rw [hevent] at heq
      cases heq
    · -- an eviction makes room for a job that has no entry
      obtain ⟨now', jobId, value', expiresAt', heq, hnew, -⟩ := hevicts.stores
      rw [hevent] at heq
      injection heq with _ hid
      exact absurd (hid ▸ hnew) hpresent

/-- The calls of a list, from an empty store. -/
def calls (capacity : Nat) (ops : Nat → Op) (n : Nat) : Run Step n :=
  Run.ofFn (fun m op => op.apply m) (withCapacity capacity) ops fun _ _ => rfl

/-- Results of two jobs, of which the first expires. -/
def twoResults : Nat → Op
  | 0 => .store 0 0 .null (some 5)
  | _ => .store 1 1 .null none

/-- A store with one place is a bounded map. -/
theorem memory_results_bounded_map_twoResults : IsBoundedMap (calls 1 twoResults 2) := by
  have hregular : Regular (calls 1 twoResults 2) 1 := by
    refine ⟨rfl, by decide, fun i hi now hnow => ?_, ?_⟩
    · match i, hi with
      | 0, _ =>
          injection hnow with hnow
          rw [← hnow]
          decide
      | 1, _ =>
          injection hnow with hnow
          rw [← hnow]
          decide
    · show insertedBefore (calls 1 twoResults 2) 2 ≤ 2 ^ 64
      have hle : insertedBefore (calls 1 twoResults 2) 2 ≤ 2 := by
        have hcount := List.countP_le_length (l := List.range' 0 (2 - 0))
          (p := fun i => ((calls 1 twoResults 2).event i).inserts ((calls 1 twoResults 2).state i))
        simpa [insertedBefore, Run.count] using hcount
      exact hle.trans (by decide)
  exact memory_results_bounded_map hregular

-- == the limits

/-- A result is stored where there is no place for any. -/
def noRoom : Nat → Op := fun _ => .store 0 0 .null none

/-- It is not there afterwards. -/
theorem not_isBoundedMap_noRoom : ¬ IsBoundedMap (calls 0 noRoom 1) := by
  intro h
  have hget : ((calls 0 noRoom 1).state 1).getAt 0 0 = (withCapacity 0, none) := rfl
  have hstored := (h.get 1 (le_refl 1) 0 0 .null).2
    ⟨0, Nat.zero_lt_one, 0, none, rfl, rfl, fun l hl hl' => by omega, rfl⟩
  rw [hget] at hstored
  cases hstored

/-- At the last instant, a result is stored next to one that has expired
then. -/
def lastInstant : Nat → Op
  | 0 => .store 0 0 .null none
  | 1 => .store 0 1 .null (some maxUtc)
  | _ => .store maxUtc 2 .null none

/-- The expired entry stays, and one that never expires is evicted. -/
theorem not_isBoundedMap_lastInstant : ¬ IsBoundedMap (calls 2 lastInstant 3) := by
  intro h
  have hbefore : ((calls 2 lastInstant 3).state 2).entries.lookup 0
      = some ⟨.null, none, (maxUtc, 0)⟩ := rfl
  have hexpired : ((calls 2 lastInstant 3).state 2).entries.lookup 1
      = some ⟨.null, some maxUtc, (maxUtc, 1)⟩ := rfl
  have hafter : ((calls 2 lastInstant 3).state 3).entries.lookup 0 = none := rfl
  rcases h.leaves 2 (by decide) 0 _ hbefore with heq | ⟨_, _, _, heq⟩ | hexpires | heq | hevicts
  · rw [hafter] at heq
    cases heq
  · cases heq
  · obtain ⟨entry, hentry, -, hdead⟩ := hexpires
    rw [← Option.some.inj (hbefore.symm.trans hentry)] at hdead
    cases hdead
  · cases heq
  · obtain ⟨now, _, _, _, heq, -, -, hlive⟩ := hevicts.stores
    cases heq
    have hnot := hlive 1 _ hexpired
    cases hnot

/-- Two results without a time to live, the second of them stored as the
number `t`. -/
def twoKept (t : Nat) : MemoryResultStore where
  capacity := 3
  entries := ((∅ : Table JobId Entry).insert 0 ⟨.null, none, (maxUtc, 0)⟩).insert 1
    ⟨.null, none, (maxUtc, t)⟩
  order := [((maxUtc, 0), 0), ((maxUtc, t), 1)]
  nextSeq := (t + 1) % 2 ^ 64

/-- The second is stored again, under the next number. -/
theorem twoKept_again {t : Nat} (ht : 0 < t) (hlast : t + 1 < 2 ^ 64) :
    (Op.store 0 1 .null none).apply (twoKept t) = twoKept (t + 1) := by
  have horder : (twoKept t).order.filter (·.1 ≠ (maxUtc, t)) = [((maxUtc, 0), 0)] := by
    have hne : (0 : Nat) ≠ t := Nat.ne_of_lt ht
    simp [twoKept, hne]
  have hremoved : ((twoKept t).remove 1).1 = ⟨3, (∅ : Table JobId Entry).insert 0
      ⟨.null, none, (maxUtc, 0)⟩, [((maxUtc, 0), 0)], t + 1⟩ := by
    show (⟨3, _, (twoKept t).order.filter (·.1 ≠ (maxUtc, t)), _⟩ : MemoryResultStore) = _
    rw [horder]
    show (⟨_, _, _, (t + 1) % 2 ^ 64⟩ : MemoryResultStore) = _
    rw [Nat.mod_eq_of_lt hlast]
    rfl
  show (twoKept t).storeAt 0 1 .null none = _
  unfold storeAt
  rw [if_neg (show ¬ (twoKept t).capacity = 0 from fun h => by cases h), hremoved]
  rfl

/-- One result is stored, another one over and over until the numbers
start again, and then a third. -/
def allNumbers (i : Nat) : Op :=
  if i = 0 then .store 0 0 .null none
  else if i < 2 ^ 64 then .store 0 1 .null none
  else .store 0 2 .null none

theorem allNumbers_state : ∀ t, 1 ≤ t → t < 2 ^ 64 →
    (calls 3 allNumbers (2 ^ 64 + 1)).state (t + 1) = twoKept t := by
  intro t ht
  induction t, ht using Nat.le_induction with
  | base => exact fun _ => rfl
  | succ t ht ih =>
      intro hlast
      have hevent : allNumbers (t + 1) = .store 0 1 .null none := by
        unfold allNumbers
        rw [if_neg (Nat.succ_ne_zero t), if_pos hlast]
      show (allNumbers (t + 1)).apply ((calls 3 allNumbers (2 ^ 64 + 1)).state (t + 1)) = _
      rw [hevent, ih (by omega), twoKept_again ht hlast]

/-- The first and the third then have the same key. -/
theorem not_isBoundedMap_allNumbers : ¬ IsBoundedMap (calls 3 allNumbers (2 ^ 64 + 1)) := by
  intro h
  have hevent : allNumbers (2 ^ 64) = .store 0 2 .null none := by
    unfold allNumbers
    rw [if_neg (by decide), if_neg (by decide)]
  have hlast : (calls 3 allNumbers (2 ^ 64 + 1)).state (2 ^ 64 + 1)
      = (Op.store 0 2 .null none).apply (twoKept (2 ^ 64 - 1)) := by
    have hnext : (calls 3 allNumbers (2 ^ 64 + 1)).state (2 ^ 64 + 1)
        = (allNumbers (2 ^ 64)).apply ((calls 3 allNumbers (2 ^ 64 + 1)).state (2 ^ 64)) :=
      (calls 3 allNumbers (2 ^ 64 + 1)).next (2 ^ 64) (Nat.lt_succ_self _)
    have hstate := allNumbers_state (2 ^ 64 - 1) (by decide) (by decide)
    rw [Nat.sub_add_cancel (by decide)] at hstate
    rw [hnext, hevent, hstate]
  have haligned := h.aligned (2 ^ 64 + 1) (le_refl _)
  rw [hlast] at haligned
  have hfirst : ((maxUtc, 0), 0) ∈ ((Op.store 0 2 .null none).apply
      (twoKept (2 ^ 64 - 1))).order := (haligned.mem _ _).2 ⟨⟨.null, none, (maxUtc, 0)⟩, rfl, rfl⟩
  have hthird : ((maxUtc, 0), 2) ∈ ((Op.store 0 2 .null none).apply
      (twoKept (2 ^ 64 - 1))).order := (haligned.mem _ _).2 ⟨⟨.null, none, (maxUtc, 0)⟩, rfl, rfl⟩
  cases haligned.unique before_irrefl hfirst hthird

/-- Each of the limits is one: with no room, at the last instant, and
once the numbers start again, the store is no bounded map. -/
theorem memory_results_limits :
    ¬ IsBoundedMap (calls 0 noRoom 1) ∧ ¬ IsBoundedMap (calls 2 lastInstant 3) ∧
      ¬ IsBoundedMap (calls 3 allNumbers (2 ^ 64 + 1)) :=
  ⟨not_isBoundedMap_noRoom, not_isBoundedMap_lastInstant, not_isBoundedMap_allNumbers⟩

end MemoryResultStore

end Hammerwork
