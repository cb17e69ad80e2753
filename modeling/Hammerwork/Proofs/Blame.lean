/-
What a failure writes on the jobs it takes.

`Proofs.Failure` says which jobs the failure of `root` takes with it.
Here is what is left in their places: a job's record and its lease are
its `entry`, and a job that is taken loses its lease and records one
message, naming the job to blame (`Blames`). A sibling or a batch mate
blames `root`; a dependent blames the job through which the search found
it, so its message depends on the trail of that search
(`policyTrail`).

Who blames whom is decided by the jobs' places in workflows, batches and
dependencies, which no failure changes (`SamePlaces`), and by which jobs
can still be taken. Two states that agree on this around `root` write
the same messages (`blames_congr`).
-/
import Hammerwork.Lib.Trail
import Hammerwork.Proofs.Failure
import Hammerwork.Proofs.Sections
import Std.Data.String.ToNat

namespace Hammerwork

-- == messages

/-- A message tells the job it is about. -/
private theorem message_inj {before after : String} {c c' : JobId}
    (h : before ++ toString c ++ after = before ++ toString c' ++ after) : c = c' := by
  have hlist := congrArg String.toList h
  simp only [String.toList_append, List.append_cancel_right_eq, List.append_cancel_left_eq,
    String.toList_inj] at hlist
  exact Nat.repr_injective hlist

theorem dependencyFailedMessage_inj {c c' : JobId}
    (h : dependencyFailedMessage c = dependencyFailedMessage c') : c = c' :=
  message_inj h

theorem workflowFailedMessage_inj {c c' : JobId}
    (h : workflowFailedMessage c = workflowFailedMessage c') : c = c' :=
  message_inj h

theorem batchFailedMessage_inj {c c' : JobId}
    (h : batchFailedMessage c = batchFailedMessage c') : c = c' :=
  message_inj h

/-- The first letter of a message tells the mechanism. -/
private theorem head_message (before x after : String) {l : Char}
    (h : before.toList.head? = some l) : (before ++ x ++ after).toList.head? = some l := by
  simp [String.toList_append, List.head?_append, h]

theorem dependency_ne_workflow (c c' : JobId) :
    dependencyFailedMessage c ≠ workflowFailedMessage c' := by
  intro h
  have hhead : (dependencyFailedMessage c).toList.head? = some 'D' :=
    head_message "Dependency failed: job " _ _ (by simp)
  have hhead' : (workflowFailedMessage c').toList.head? = some 'W' :=
    head_message "Workflow failed: job " _ _ (by simp)
  rw [h, hhead'] at hhead
  cases hhead

theorem dependency_ne_batch (c c' : JobId) :
    dependencyFailedMessage c ≠ batchFailedMessage c' := by
  intro h
  have hhead : (dependencyFailedMessage c).toList.head? = some 'D' :=
    head_message "Dependency failed: job " _ _ (by simp)
  have hhead' : (batchFailedMessage c').toList.head? = some 'B' :=
    head_message "Batch failed: job " _ _ (by simp)
  rw [h, hhead'] at hhead
  cases hhead

theorem workflow_ne_batch (c c' : JobId) :
    workflowFailedMessage c ≠ batchFailedMessage c' := by
  intro h
  have hhead : (workflowFailedMessage c).toList.head? = some 'W' :=
    head_message "Workflow failed: job " _ _ (by simp)
  have hhead' : (batchFailedMessage c').toList.head? = some 'B' :=
    head_message "Batch failed: job " _ _ (by simp)
  rw [h, hhead'] at hhead
  cases hhead

namespace TestStorage

open TestQueue

variable {s s' s'' t : TestStorage} {now : DateTime} {id root k : JobId} {job : Job}

-- == entries

/-- A job's record and its lease. -/
def entry (s : TestStorage) (k : JobId) : Option Job × Option (DateTime × DateTime) :=
  (s.jobs.lookup k, s.leases.lookup k)

theorem lookup_of_entry (h : s'.entry k = s.entry k) : s'.jobs.lookup k = s.jobs.lookup k :=
  congrArg Prod.fst h

/-- A job failed as a side effect has lost its lease. -/
theorem failAsSideEffect_entry (h : s.jobs.lookup id = some job) (message : String)
    (now : DateTime) (k : JobId) :
    (s.failAsSideEffect id message now).entry k
      = if k = id then (some (sideFailed job message now), none) else s.entry k := by
  have hleases : (s.failAsSideEffect id message now).leases = s.leases.erase id := by
    unfold failAsSideEffect
    rw [updateJobStatus_eq h]
    rfl
  unfold entry
  rw [failAsSideEffect_lookup, hleases, Table.lookup_erase_if, h]
  split <;> rfl

/-- `s'` is `s` after each job of `blame` was failed, with its
message. -/
structure Blamed (s s' : TestStorage) (now : DateTime) (blame : JobId → String → Prop) :
    Prop where
  taken : ∀ k message, blame k message → ∃ job, s.jobs.lookup k = some job ∧
    s'.entry k = (some (sideFailed job message now), none)
  others : ∀ k, (∀ message, ¬ blame k message) → s'.entry k = s.entry k

theorem Blamed.refl (s : TestStorage) (now : DateTime) : Blamed s s now fun _ _ => False where
  taken _ _ h := h.elim
  others _ _ := rfl

theorem Blamed.congr {blame blame' : JobId → String → Prop} (h : Blamed s s' now blame)
    (heq : ∀ k message, blame k message ↔ blame' k message) : Blamed s s' now blame' := by
  have : blame = blame' := funext fun k => funext fun message => propext (heq k message)
  exact this ▸ h

/-- Failing more jobs, none of them a second time. -/
theorem Blamed.trans {blame blame' : JobId → String → Prop} (h₁ : Blamed s s' now blame)
    (h₂ : Blamed s' s'' now blame')
    (hnew : ∀ k message message', blame k message → ¬ blame' k message') :
    Blamed s s'' now fun k message => blame k message ∨ blame' k message where
  taken k message hk := by
    rcases hk with hk | hk
    · obtain ⟨job, hlookup, hentry⟩ := h₁.taken k message hk
      exact ⟨job, hlookup, (h₂.others k fun message' => hnew k message message' hk).trans hentry⟩
    · obtain ⟨job, hlookup, hentry⟩ := h₂.taken k message hk
      have hkept := lookup_of_entry (h₁.others k fun message' hk' => hnew k _ _ hk' hk)
      exact ⟨job, hkept ▸ hlookup, hentry⟩
  others k hk := by
    rw [h₂.others k fun message h => hk message (.inr h),
      h₁.others k fun message h => hk message (.inl h)]

/-- The jobs of a list are failed with the message given. -/
theorem failEach_blamed {p : JobId → Job → Bool}
    (hp : ∀ id job, p id job = true → TestQueue.unfinished job = true) (message : String)
    (now : DateTime) (ids : List JobId) : ∀ s : TestStorage,
    Blamed s (failEach p message now ids s).1 now fun k m => Listed s p ids k ∧ m = message := by
  induction ids with
  | nil =>
      intro s
      rw [failEach]
      exact (Blamed.refl s now).congr (by simp [Listed])
  | cons id ids ih =>
      intro s
      rw [failEach]
      split
      case isTrue hid =>
        obtain ⟨job, hlookup, hjob⟩ := isJob_iff.1 hid
        have hside : SideFailures s (s.failAsSideEffect id message now) now (· = id) :=
          .one hlookup (hp id job hjob) message
        have hone : Blamed s (s.failAsSideEffect id message now) now
            fun k m => k = id ∧ m = message := by
          refine ⟨fun k m hk => ⟨job, hk.1 ▸ hlookup, ?_⟩, fun k hk => ?_⟩
          · rw [failAsSideEffect_entry hlookup, if_pos hk.1, hk.2]
          · rw [failAsSideEffect_entry hlookup, if_neg fun heq => hk message ⟨heq, rfl⟩]
        have hlisted : ∀ k, Listed (s.failAsSideEffect id message now) p ids k ↔
            k ≠ id ∧ Listed s p ids k := by
          intro k
          unfold Listed
          rw [hside.isJob (hp k)]
          tauto
        refine (hone.trans (ih _) fun k m m' hk hk' => ?_).congr fun k m => ?_
        · exact ((hlisted k).1 hk'.1).1 hk.1
        · rw [hlisted]
          unfold Listed
          rw [List.mem_cons]
          by_cases hk : k = id
          · subst hk
            simp [hid]
          · simp [hk]
      case isFalse hid =>
        refine (ih s).congr fun k m => and_congr_left fun _ => ?_
        unfold Listed
        rw [List.mem_cons]
        constructor
        · exact fun h => ⟨.inr h.1, h.2⟩
        · intro h
          rcases h.1 with rfl | hmem
          · exact absurd h.2 hid
          · exact ⟨hmem, h.2⟩

-- == places

/-- The workflow of `root` leaves failures to its operator. -/
def InManual (s : TestStorage) (root : JobId) : Prop :=
  ∃ workflow, s.workflowOf root = some workflow ∧ workflow.failurePolicy = .manual

/-- What decides whom a job's failure concerns. -/
def place (job : Job) : JobId × List JobId × Option WorkflowId × Option BatchId :=
  (job.id, job.dependsOn, job.workflowId, job.batchId)

/-- The same jobs in the same places and in the same iteration order;
statuses, times and messages may differ. -/
structure SamePlaces (s t : TestStorage) : Prop where
  keys : t.jobs.keys = s.jobs.keys
  place : ∀ k, (t.jobs.lookup k).map place = (s.jobs.lookup k).map place
  rest : SameRegisters s t

theorem SamePlaces.refl (s : TestStorage) : SamePlaces s s where
  keys := rfl
  place _ := rfl
  rest := .refl s

theorem SamePlaces.trans (h₁ : SamePlaces s s') (h₂ : SamePlaces s' s'') : SamePlaces s s'' where
  keys := h₂.keys.trans h₁.keys
  place k := (h₂.place k).trans (h₁.place k)
  rest := h₁.rest.trans h₂.rest

/-- Failures leave jobs in their places. -/
theorem SideFailures.samePlaces {fails : JobId → Prop} (h : SideFailures s s' now fails) :
    SamePlaces s s' where
  keys := h.keys
  place k := by
    by_cases hk : fails k
    · obtain ⟨job, message, hjob, -, hres⟩ := h.failed k hk
      rw [hjob, hres]
      rfl
    · rw [h.kept k hk]
  rest := h.rest

/-- So does rewriting one job in its place. -/
theorem Rewrite.samePlaces {job' : Job} (h : Rewrite s id job' s')
    (hlookup : s.jobs.lookup id = some job) (hplace : place job' = place job) :
    SamePlaces s s' where
  keys := h.keys
  place k := by
    rw [h.jobs]
    split
    · next hk =>
      rw [hk, hlookup]
      exact congrArg some hplace
    · rfl
  rest := h.rest

/-- What a stored job's place says, in both. -/
theorem SamePlaces.read {β : Type} (h : SamePlaces s t) (k : JobId) (f : Job → β)
    (hf : ∀ job job', TestStorage.place job = TestStorage.place job' → f job = f job') :
    (t.jobs.lookup k).map f = (s.jobs.lookup k).map f := by
  have hplace := h.place k
  cases hs : s.jobs.lookup k with
  | none =>
      rw [hs] at hplace
      rw [Option.map_eq_none_iff.1 hplace]
  | some job =>
      rw [hs] at hplace
      obtain ⟨job', hjob', heq⟩ := Option.map_eq_some_iff.1 hplace
      rw [hjob']
      exact congrArg some (hf job' job heq)

theorem SamePlaces.directDependents (h : SamePlaces s t) (c : JobId) :
    t.directDependents c = s.directDependents c := by
  refine directDependents_congr h.rest.dependents ?_ c
  refine Table.map_values_congr _ h.keys fun k => h.read k _ fun job job' heq => ?_
  injection heq with hid heq
  injection heq with hdeps heq
  rw [hid, hdeps]

private theorem bind_eq_join_map {α β : Type} (o : Option α) (f : α → Option β) :
    o.bind f = (o.map f).join := by
  cases o <;> rfl

theorem SamePlaces.bind {β : Type} (h : SamePlaces s t) (k : JobId) (f : Job → Option β)
    (hf : ∀ job job', TestStorage.place job = TestStorage.place job' → f job = f job') :
    (t.jobs.lookup k).bind f = (s.jobs.lookup k).bind f := by
  rw [bind_eq_join_map, bind_eq_join_map, h.read k f hf]

theorem SamePlaces.workflowOf (h : SamePlaces s t) (k : JobId) :
    t.workflowOf k = s.workflowOf k := by
  refine workflowOf_congr h.rest.workflows (h.bind k _ fun job job' heq => ?_)
  injection heq with hid heq
  injection heq with hdeps heq
  injection heq

theorem SamePlaces.batchId (h : SamePlaces s t) (k : JobId) :
    (t.jobs.lookup k).bind (·.batchId) = (s.jobs.lookup k).bind (·.batchId) := by
  refine h.bind k _ fun job job' heq => ?_
  injection heq with hid heq
  injection heq with hdeps heq
  injection heq

theorem SamePlaces.inManual (h : SamePlaces s t) : InManual t root ↔ InManual s root := by
  unfold InManual
  rw [h.workflowOf]

theorem SamePlaces.keyed (h : SamePlaces s t) (hk : s.Keyed) : t.Keyed := by
  intro k job hlookup
  have hplace := h.place k
  rw [hlookup] at hplace
  obtain ⟨job', hjob', heq⟩ := Option.map_eq_some_iff.1 hplace.symm
  injection heq with hid heq
  rw [← hid]
  exact hk k job' hjob'

-- == dependents

/-- Who finds whom when dependents of `root` are failed. -/
def searchTrail (s : TestStorage) (root : JobId) : List (JobId × JobId) :=
  Worklist.trail s.directDependents (fun x => s.isJob x canFailAsDependent)
    (s.jobs.keys.length + 1) root

/-- The jobs failed are those found on the trail. -/
theorem failDependents_trail (s : TestStorage) (root : JobId) (now : DateTime) :
    (s.failDependents root now).2 = (searchTrail s root).map Prod.snd ∧
      (s.failDependents root now).1 = (searchTrail s root).foldl (fun s e =>
        s.failAsSideEffect e.2 (dependencyFailedMessage e.1) now) s :=
  Worklist.run_trail (dependentsSearch_lawful now) (s.jobs.keys.length + 1) s root

theorem mem_searchTrail :
    k ∈ (searchTrail s root).map Prod.snd ↔ Downstream s root k := by
  rw [← mem_failDependents s root 0, (failDependents_trail s root 0).1]

/-- Failing jobs one after another, each with the message of the job
that found it. -/
private theorem foldl_blamed (now : DateTime) (l : List (JobId × JobId))
    (hnd : (l.map Prod.snd).Nodup) : ∀ s : TestStorage,
    (∀ e ∈ l, (s.jobs.lookup e.2).isSome) →
      Blamed s (l.foldl (fun s e =>
          s.failAsSideEffect e.2 (dependencyFailedMessage e.1) now) s) now
        fun k m => ∃ c, (c, k) ∈ l ∧ m = dependencyFailedMessage c := by
  induction l with
  | nil => exact fun s _ => (Blamed.refl s now).congr (by simp)
  | cons e l ih =>
      intro s hstored
      rw [List.map_cons, List.nodup_cons] at hnd
      obtain ⟨c, x⟩ := e
      obtain ⟨job, hlookup⟩ := Option.isSome_iff_exists.1 (hstored (c, x) (by simp))
      have hone : Blamed s (s.failAsSideEffect x (dependencyFailedMessage c) now) now
          fun k m => k = x ∧ m = dependencyFailedMessage c := by
        refine ⟨fun k m hk => ⟨job, hk.1 ▸ hlookup, ?_⟩, fun k hk => ?_⟩
        · rw [failAsSideEffect_entry hlookup, if_pos hk.1, hk.2]
        · rw [failAsSideEffect_entry hlookup, if_neg fun heq => hk _ ⟨heq, rfl⟩]
      have hrest := ih hnd.2 (s.failAsSideEffect x (dependencyFailedMessage c) now) fun e he => by
        rw [failAsSideEffect_lookup]
        split
        · rw [hlookup]
          rfl
        · exact hstored e (List.mem_cons_of_mem _ he)
      refine (hone.trans hrest fun k m m' hk hk' => ?_).congr fun k m => ?_
      · obtain ⟨c', hmem, -⟩ := hk'
        have hin : k ∈ l.map Prod.snd := List.mem_map_of_mem (f := Prod.snd) hmem
        exact hnd.1 (hk.1 ▸ hin)
      · constructor
        · intro h
          rcases h with ⟨rfl, rfl⟩ | ⟨c', hmem, rfl⟩
          · exact ⟨c, List.mem_cons_self .., rfl⟩
          · exact ⟨c', List.mem_cons_of_mem _ hmem, rfl⟩
        · intro ⟨c', hmem, hm⟩
          rcases List.mem_cons.1 hmem with heq | hmem
          · obtain ⟨rfl, rfl⟩ := Prod.mk.inj heq
            exact .inl ⟨rfl, hm⟩
          · exact .inr ⟨c', hmem, hm⟩

/-- A dependent blames the job that found it. -/
theorem failDependents_blamed (s : TestStorage) (root : JobId) (now : DateTime) :
    Blamed s (s.failDependents root now).1 now
      fun k m => ∃ c, (c, k) ∈ searchTrail s root ∧ m = dependencyFailedMessage c := by
  rw [(failDependents_trail s root now).2]
  refine foldl_blamed now _ (Worklist.nodup_trail ..) s fun e he => ?_
  have hdown : Downstream s root e.2 := mem_searchTrail.1 (List.mem_map_of_mem he)
  obtain ⟨job, hlookup, -⟩ := isJob_iff.1 hdown.isFresh
  rw [hlookup]
  rfl

-- == policies

/-- A job that a fail-fast workflow fails because of `root`. -/
def isSibling (s : TestStorage) (root k : JobId) : Bool :=
  (s.workflowOf root).any fun workflow => workflow.failurePolicy = .failFast &&
    workflow.jobs.any (·.id = k) && decide (k ≠ root) && s.isJob k unstarted

theorem isSibling_iff : s.isSibling root k = true ↔ SiblingFails s root k := by
  unfold isSibling SiblingFails
  cases s.workflowOf root with
  | none => simp
  | some workflow => simp [and_assoc]

/-- Who finds whom when the failure policy for `root` is applied: the
siblings are out of the way by then. -/
def policyTrail (s : TestStorage) (root : JobId) : List (JobId × JobId) :=
  Worklist.trail s.directDependents
    (fun x => s.isJob x canFailAsDependent && !s.isSibling root x)
    (s.jobs.keys.length + 1) root

/-- The storage after the siblings of `root` failed. -/
def failSiblings (s : TestStorage) (root : JobId) (now : DateTime) : TestStorage :=
  match s.workflowOf root with
  | some workflow =>
      if workflow.failurePolicy = .failFast then
        (failEach (fun id job => id ≠ root && unstarted job) (workflowFailedMessage root) now
          (workflow.jobs.map (·.id)) s).1
      else s
  | none => s

/-- A failure policy that is not `Manual` fails the siblings and then the
dependents. -/
theorem applyWorkflowFailure_eq (s : TestStorage) (root : JobId) (now : DateTime) :
    (InManual s root ∧ (s.applyWorkflowFailure root now).1 = s) ∨
      (¬ InManual s root ∧ (s.applyWorkflowFailure root now).1
        = ((s.failSiblings root now).failDependents root now).1) := by
  unfold applyWorkflowFailure failSiblings InManual
  cases hw : s.workflowOf root with
  | none => exact .inr ⟨by simp, rfl⟩
  | some workflow =>
      dsimp only
      cases hpolicy : workflow.failurePolicy with
      | manual => exact .inl ⟨⟨workflow, rfl, hpolicy⟩, rfl⟩
      | failFast =>
          refine .inr ⟨fun ⟨w, hw', hman⟩ => ?_, rfl⟩
          injection hw' with hw'
          rw [← hw', hpolicy] at hman
          cases hman
      | continueOnFailure =>
          refine .inr ⟨fun ⟨w, hw', hman⟩ => ?_, rfl⟩
          injection hw' with hw'
          rw [← hw', hpolicy] at hman
          cases hman

/-- The siblings of `root`, failed. -/
theorem failSiblings_spec (s : TestStorage) (root : JobId) (now : DateTime) :
    SideFailures s (s.failSiblings root now) now (SiblingFails s root) ∧
      Blamed s (s.failSiblings root now) now
        fun k m => SiblingFails s root k ∧ m = workflowFailedMessage root := by
  have hnone : (∀ k, ¬ SiblingFails s root k) →
      SideFailures s s now (SiblingFails s root) ∧
        Blamed s s now fun k m => SiblingFails s root k ∧ m = workflowFailedMessage root :=
    fun h => ⟨(SideFailures.refl s now).congr fun k => ⟨False.elim, h k⟩,
      (Blamed.refl s now).congr fun k _ => ⟨False.elim, fun hk => h k hk.1⟩⟩
  unfold failSiblings
  split
  case h_2 hw =>
    refine hnone fun k ⟨w, hw', _⟩ => ?_
    rw [hw] at hw'
    cases hw'
  case h_1 workflow hw =>
    split
    case isFalse hpolicy =>
      refine hnone fun k ⟨w, hw', hff, _⟩ => hpolicy ?_
      rw [hw] at hw'
      injection hw' with hw'
      rw [hw', hff]
    case isTrue hpolicy =>
      have hsib : ∀ k, Listed s (fun id job => id ≠ root && unstarted job)
          (workflow.jobs.map (·.id)) k ↔ SiblingFails s root k := by
        intro k
        unfold Listed SiblingFails
        rw [hw]
        simp only [isJob_iff, Bool.and_eq_true, decide_eq_true_eq, ne_eq]
        constructor
        · intro ⟨hmem, job, hlookup, hne, hun⟩
          exact ⟨workflow, rfl, hpolicy, hmem, hne, job, hlookup, hun⟩
        · intro ⟨w, hw', _, hmem, hne, job, hlookup, hun⟩
          injection hw' with hw'
          exact ⟨hw' ▸ hmem, job, hlookup, hne, hun⟩
      have hunfinished : ∀ (id : JobId) (job : Job),
          (decide (id ≠ root) && unstarted job) = true → TestQueue.unfinished job = true := by
        intro id job h
        exact unfinished_of_unstarted (Bool.and_eq_true _ _ ▸ h).2
      refine ⟨(failEach_spec hunfinished _ now _ s).1.congr hsib,
        (failEach_blamed hunfinished _ now _ s).congr fun k m => ?_⟩
      rw [hsib]

/-- The dependents are sought in the state that the siblings left. -/
theorem searchTrail_failSiblings (s : TestStorage) (root : JobId) (now : DateTime) :
    searchTrail (s.failSiblings root now) root = policyTrail s root := by
  obtain ⟨hside, -⟩ := failSiblings_spec s root now
  unfold searchTrail policyTrail
  rw [hside.keys]
  refine Worklist.trail_congr (fun c => hside.samePlaces.directDependents c) fun _ _ x _ => ?_
  rw [Bool.eq_iff_iff, hside.isJob (fun _ => unfinished_of_canFailAsDependent),
    Bool.and_eq_true, ← isSibling_iff, Bool.not_eq_true', Bool.not_eq_true]

/-- Who is found on the trail of a policy that is not `Manual`. -/
theorem mem_policyTrail (hman : ¬ InManual s root) :
    k ∈ (policyTrail s root).map Prod.snd ↔ DependentFails s root k := by
  obtain ⟨hside, -⟩ := failSiblings_spec s root 0
  rw [← searchTrail_failSiblings s root 0, mem_searchTrail]
  unfold Downstream DependentFails
  rw [Worklist.reached_congr (fun c y => hside.mem_directDependents) fun y =>
    hside.isJob (fun _ => unfinished_of_canFailAsDependent) y]
  exact (and_iff_right fun workflow hw hpolicy => hman ⟨workflow, hw, hpolicy⟩).symm

/-- Whom a job taken by the failure of `root` blames. -/
inductive Blames (s : TestStorage) (root k : JobId) : String → Prop
  | sibling : SiblingFails s root k → Blames s root k (workflowFailedMessage root)
  | dependent {c : JobId} : ¬ InManual s root → (c, k) ∈ policyTrail s root →
      Blames s root k (dependencyFailedMessage c)
  | batch : BatchFails s root k → ¬ PolicyFails s root k →
      Blames s root k (batchFailedMessage root)

/-- A policy writes the messages of siblings and dependents. -/
theorem applyWorkflowFailure_blamed (s : TestStorage) (root : JobId) (now : DateTime) :
    Blamed s (s.applyWorkflowFailure root now).1 now fun k m =>
      (SiblingFails s root k ∧ m = workflowFailedMessage root) ∨
        (¬ InManual s root ∧ ∃ c, (c, k) ∈ policyTrail s root ∧
          m = dependencyFailedMessage c) := by
  rcases applyWorkflowFailure_eq s root now with ⟨hman, heq⟩ | ⟨hman, heq⟩
  · rw [heq]
    refine (Blamed.refl s now).congr fun k m => ⟨False.elim, ?_⟩
    intro h
    rcases h with ⟨⟨w, hw, hff, -⟩, -⟩ | ⟨hno, -⟩
    · obtain ⟨w', hw', hpolicy⟩ := hman
      rw [hw] at hw'
      injection hw' with hw'
      rw [hw', hpolicy] at hff
      cases hff
    · exact hno hman
  · rw [heq]
    obtain ⟨-, hsiblings⟩ := failSiblings_spec s root now
    have hdependents := failDependents_blamed (s.failSiblings root now) root now
    rw [searchTrail_failSiblings] at hdependents
    refine (hsiblings.trans hdependents fun k m m' hk hk' => ?_).congr fun k m =>
      or_congr_right (and_iff_right hman).symm
    -- no sibling is found on the trail
    obtain ⟨c, hmem, -⟩ := hk'
    have hfound : k ∈ (policyTrail s root).map Prod.snd := List.mem_map_of_mem (f := Prod.snd) hmem
    exact ((mem_policyTrail hman).1 hfound).2.isFresh.2 hk.1

/-- A fail-fast batch writes one message. -/
theorem applyBatchFailure_blamed (s : TestStorage) (root : JobId) (now : DateTime) :
    Blamed s (s.applyBatchFailure root now).1 now fun k m =>
      BatchFails s root k ∧ m = batchFailedMessage root := by
  have hnone : (∀ k, ¬ BatchFails s root k) →
      Blamed s s now fun k m => BatchFails s root k ∧ m = batchFailedMessage root :=
    fun h => (Blamed.refl s now).congr fun k _ => ⟨False.elim, fun hk => h k hk.1⟩
  unfold applyBatchFailure
  split
  case h_1 hb =>
    refine hnone fun k ⟨batchId, hb', _⟩ => ?_
    rw [hb] at hb'
    cases hb'
  case h_2 batchId hb =>
    split
    case isFalse hff =>
      refine hnone fun k ⟨batchId', hb', hff', _⟩ => hff ?_
      rw [hb] at hb'
      injection hb' with hb'
      exact hb' ▸ hff'
    case isTrue hff =>
      refine (failEach_blamed (fun _ _ h => unfinished_of_unstarted h)
        (batchFailedMessage root) now _ s).congr fun k m => and_congr_left fun _ => ?_
      unfold Listed BatchFails
      constructor
      · exact fun h => ⟨batchId, hb, hff, h⟩
      · intro ⟨batchId', hb', _, h⟩
        rw [hb] at hb'
        injection hb' with hb'
        exact hb' ▸ h

/-- The batch is looked at after the policy was applied. -/
theorem batchFails_after_policy (s : TestStorage) (root k : JobId) (now : DateTime) :
    BatchFails (s.applyWorkflowFailure root now).1 root k ↔
      BatchFails s root k ∧ ¬ PolicyFails s root k := by
  have hpolicy := applyWorkflowFailure_spec s root now
  unfold BatchFails
  rw [hpolicy.samePlaces.batchId, hpolicy.rest.batches, hpolicy.rest.batchJobs]
  constructor
  · intro ⟨batchId, hb, hff, hmem, hk⟩
    obtain ⟨hk, hnot⟩ := (hpolicy.isJob (fun _ => unfinished_of_unstarted) k).1 hk
    exact ⟨⟨batchId, hb, hff, hmem, hk⟩, hnot⟩
  · intro ⟨⟨batchId, hb, hff, hmem, hk⟩, hnot⟩
    exact ⟨batchId, hb, hff, hmem, (hpolicy.isJob (fun _ => unfinished_of_unstarted) k).2
      ⟨hk, hnot⟩⟩

theorem policyFails_iff :
    PolicyFails s root k ↔ ∃ m, (SiblingFails s root k ∧ m = workflowFailedMessage root) ∨
      (¬ InManual s root ∧ ∃ c, (c, k) ∈ policyTrail s root ∧
        m = dependencyFailedMessage c) := by
  unfold PolicyFails
  constructor
  · intro h
    rcases h with hsib | hdep
    · exact ⟨_, .inl ⟨hsib, rfl⟩⟩
    · have hman : ¬ InManual s root := fun ⟨w, hw, hpolicy⟩ => hdep.1 w hw hpolicy
      obtain ⟨e, he, rfl⟩ := List.mem_map.1 ((mem_policyTrail hman).2 hdep)
      exact ⟨_, .inr ⟨hman, e.1, he, rfl⟩⟩
  · intro ⟨m, hm⟩
    rcases hm with ⟨hsib, -⟩ | ⟨hman, c, hmem, -⟩
    · exact .inl hsib
    · exact .inr ((mem_policyTrail hman).1 (List.mem_map_of_mem (f := Prod.snd) hmem))

/-- A failure takes the jobs that blame somebody for it. -/
theorem failureTakes_iff_blames : FailureTakes s root k ↔ ∃ m, Blames s root k m := by
  constructor
  · intro h
    by_cases hpolicy : PolicyFails s root k
    · obtain ⟨m, ⟨hsib, rfl⟩ | ⟨hman, c, hmem, rfl⟩⟩ := policyFails_iff.1 hpolicy
      · exact ⟨_, .sibling hsib⟩
      · exact ⟨_, .dependent hman hmem⟩
    · exact ⟨_, .batch (h.resolve_left hpolicy) hpolicy⟩
  · intro ⟨m, hm⟩
    cases hm with
    | sibling hsib => exact .inl (policyFails_iff.2 ⟨_, .inl ⟨hsib, rfl⟩⟩)
    | dependent hman hmem => exact .inl (policyFails_iff.2 ⟨_, .inr ⟨hman, _, hmem, rfl⟩⟩)
    | batch hbatch _ => exact .inr hbatch

/-- What a terminal failure of `root` leaves in the jobs' places. -/
theorem applyPolicies_blamed (s : TestStorage) (root : JobId) :
    Blamed s (applyPolicies s root) s.clock (Blames s root) := by
  refine ((applyWorkflowFailure_blamed s root s.clock).trans
    (applyBatchFailure_blamed (s.applyWorkflowFailure root s.clock).1 root s.clock)
    fun k m m' hk hk' => ?_).congr fun k m => ?_
  · exact ((batchFails_after_policy s root k s.clock).1 hk'.1).2 (policyFails_iff.2 ⟨m, hk⟩)
  · rw [batchFails_after_policy]
    constructor
    · intro h
      rcases h with (⟨hsib, rfl⟩ | ⟨hman, c, hmem, rfl⟩) | ⟨⟨hbatch, hnot⟩, rfl⟩
      · exact .sibling hsib
      · exact .dependent hman hmem
      · exact .batch hbatch hnot
    · intro h
      cases h with
      | sibling hsib => exact .inl (.inl ⟨hsib, rfl⟩)
      | dependent hman hmem => exact .inl (.inr ⟨hman, _, hmem, rfl⟩)
      | batch hbatch hnot => exact .inr ⟨⟨hbatch, hnot⟩, rfl⟩

/-- What the policy itself takes, the batch leaves alone. -/
theorem applyPolicies_entry (h : PolicyFails s root k) :
    (applyPolicies s root).entry k
      = ((s.applyWorkflowFailure root s.clock).1.jobs.lookup k, none) := by
  obtain ⟨m, hm⟩ := policyFails_iff.1 h
  obtain ⟨job, -, hentry⟩ := (applyWorkflowFailure_blamed s root s.clock).taken k m hm
  have hbatch := (applyBatchFailure_blamed (s.applyWorkflowFailure root s.clock).1 root
    s.clock).others k fun m' hk' =>
      ((batchFails_after_policy s root k s.clock).1 hk'.1).2 h
  refine (show (applyPolicies s root).entry k = _ from hbatch).trans ?_
  have hlookup : (s.applyWorkflowFailure root s.clock).1.jobs.lookup k
      = some (sideFailed job m s.clock) := congrArg Prod.fst hentry
  rw [hentry, hlookup]

theorem applyPolicies_kept (h : ¬ FailureTakes s root k) :
    (applyPolicies s root).entry k = s.entry k :=
  (applyPolicies_blamed s root).others k fun m hm => h (failureTakes_iff_blames.2 ⟨m, hm⟩)

theorem applyPolicies_sideFailures (s : TestStorage) (root : JobId) :
    SideFailures s (applyPolicies s root) s.clock (FailureTakes s root) :=
  failureTakes_spec s root s.clock

-- == agreeing states

/-- Two states that agree on what the failure of `root` takes. -/
structure SameTakes (s t : TestStorage) (root : JobId) : Prop where
  places : SamePlaces s t
  siblings : ∀ k, SiblingFails t root k ↔ SiblingFails s root k
  dependents : ∀ k, DependentFails t root k ↔ DependentFails s root k
  mates : ∀ k, BatchFails t root k ↔ BatchFails s root k
  same : ∀ k, FailureTakes s root k → t.entry k = s.entry k

theorem SameTakes.policyFails (h : SameTakes s t root) (k : JobId) :
    PolicyFails t root k ↔ PolicyFails s root k :=
  or_congr (h.siblings k) (h.dependents k)

theorem SameTakes.takes (h : SameTakes s t root) (k : JobId) :
    FailureTakes t root k ↔ FailureTakes s root k :=
  or_congr (h.policyFails k) (h.mates k)

/-- They find the dependents on one trail. -/
theorem SameTakes.policyTrail (h : SameTakes s t root) (hman : ¬ InManual s root) :
    policyTrail t root = policyTrail s root := by
  have hmanual : ∀ workflow, s.workflowOf root = some workflow →
      workflow.failurePolicy ≠ .manual := fun w hw hpolicy => hman ⟨w, hw, hpolicy⟩
  have hsame : ∀ x, FailureTakes s root x →
      ((s.isJob x canFailAsDependent && !s.isSibling root x) = true ↔
        (t.isJob x canFailAsDependent && !t.isSibling root x) = true) := by
    intro x hx
    have hjob : t.isJob x canFailAsDependent = s.isJob x canFailAsDependent := by
      unfold isJob
      rw [lookup_of_entry (h.same x hx)]
    have hsib : t.isSibling root x = s.isSibling root x := by
      rw [Bool.eq_iff_iff, isSibling_iff, isSibling_iff, h.siblings]
    rw [hjob, hsib]
  unfold TestStorage.policyTrail
  rw [h.places.keys]
  refine (Worklist.trail_congr (fun c => (h.places.directDependents c).symm)
    fun c hc x hx => ?_).symm
  -- a neighbour that is fresh in either state is taken in both
  have hreached : ∀ u : TestStorage, ∀ y,
      Worklist.Reached u.directDependents
          (fun x => (u.isJob x canFailAsDependent && !u.isSibling root x) = true) root y ↔
        Worklist.Reached u.directDependents
          (fun x => u.isJob x canFailAsDependent = true ∧ ¬ SiblingFails u root x) root y := by
    intro u y
    refine Worklist.reached_congr (fun _ _ => Iff.rfl) fun z => ?_
    rw [Bool.and_eq_true, ← isSibling_iff, Bool.not_eq_true', Bool.not_eq_true]
  have hin : ∀ u : TestStorage,
      (c = root ∨ Worklist.Reached u.directDependents
        (fun x => (u.isJob x canFailAsDependent && !u.isSibling root x) = true) root c) →
      x ∈ u.directDependents c →
      (u.isJob x canFailAsDependent && !u.isSibling root x) = true →
      (∀ workflow, u.workflowOf root = some workflow → workflow.failurePolicy ≠ .manual) →
      DependentFails u root x := by
    intro u hc hx hf hm
    refine ⟨hm, (hreached u x).1 ?_⟩
    rcases hc with rfl | hc
    · exact .direct hx hf
    · exact .step hc hx hf
  have hc' : c = root ∨ Worklist.Reached t.directDependents
      (fun x => (t.isJob x canFailAsDependent && !t.isSibling root x) = true) root c := by
    refine hc.imp_right fun hr => ?_
    have hdep : DependentFails t root c := (h.dependents c).2 ⟨hmanual, (hreached s c).1 hr⟩
    exact (hreached t c).2 hdep.2
  rw [Bool.eq_iff_iff]
  constructor
  · intro hf
    exact (hsame x (.inl (.inr (hin s hc hx hf hmanual)))).1 hf
  · intro hf
    have hdep := hin t hc' (h.places.directDependents c ▸ hx) hf
      (h.places.workflowOf root ▸ hmanual)
    exact (hsame x (.inl (.inr ((h.dependents x).1 hdep)))).2 hf

/-- They write the same messages. -/
theorem SameTakes.blames (h : SameTakes s t root) (k : JobId) (m : String) :
    Blames t root k m ↔ Blames s root k m := by
  constructor
  · intro hm
    cases hm with
    | sibling hsib => exact .sibling ((h.siblings k).1 hsib)
    | dependent hman hmem =>
        have hman' := fun hno => hman (h.places.inManual.2 hno)
        exact .dependent hman' (h.policyTrail hman' ▸ hmem)
    | batch hbatch hnot =>
        exact .batch ((h.mates k).1 hbatch) fun hp => hnot ((h.policyFails k).2 hp)
  · intro hm
    cases hm with
    | sibling hsib => exact .sibling ((h.siblings k).2 hsib)
    | dependent hman hmem =>
        exact .dependent (fun hno => hman (h.places.inManual.1 hno))
          ((h.policyTrail hman).symm ▸ hmem)
    | batch hbatch hnot =>
        exact .batch ((h.mates k).2 hbatch) fun hp => hnot ((h.policyFails k).1 hp)

/-- So the jobs taken end up alike. -/
theorem SameTakes.entry (h : SameTakes s t root) (hk : FailureTakes s root k) :
    (applyPolicies t root).entry k = (applyPolicies s root).entry k := by
  obtain ⟨m, hm⟩ := failureTakes_iff_blames.1 hk
  obtain ⟨job, hlookup, hentry⟩ := (applyPolicies_blamed s root).taken k m hm
  obtain ⟨job', hlookup', hentry'⟩ := (applyPolicies_blamed t root).taken k m ((h.blames k m).2 hm)
  rw [lookup_of_entry (h.same k hk), hlookup] at hlookup'
  injection hlookup' with hjob
  rw [hentry', hentry, hjob, h.places.rest.clock]

/-- Two states, perhaps in different iteration orders, that agree on the
jobs' places and on which of them can be taken: their failures take the
same jobs. -/
theorem failureTakes_congr (hs : s.Keyed) (ht : t.Keyed) (hrest : SameRegisters s t)
    (hplace : ∀ k, (t.jobs.lookup k).map place = (s.jobs.lookup k).map place)
    (hun : ∀ k, t.isJob k unstarted = s.isJob k unstarted)
    (hcan : ∀ k, t.isJob k canFailAsDependent = s.isJob k canFailAsDependent)
    (root k : JobId) :
    (PolicyFails t root k ↔ PolicyFails s root k) ∧
      (BatchFails t root k ↔ BatchFails s root k) := by
  have hread : ∀ {β : Type} (f : JobId × List JobId × Option WorkflowId × Option BatchId → β) k,
      (t.jobs.lookup k).map (f ∘ place) = (s.jobs.lookup k).map (f ∘ place) := by
    intro β f k
    rw [← Option.map_map, ← Option.map_map, hplace]
  have hof : t.workflowOf root = s.workflowOf root := by
    refine workflowOf_congr hrest.workflows ?_
    rw [bind_eq_join_map, bind_eq_join_map]
    exact congrArg Option.join (hread (fun p => p.2.2.1) root)
  have hbatch : (t.jobs.lookup root).bind (·.batchId)
      = (s.jobs.lookup root).bind (·.batchId) := by
    rw [bind_eq_join_map, bind_eq_join_map]
    exact congrArg Option.join (hread (fun p => p.2.2.2) root)
  have hsibling : ∀ k, SiblingFails t root k ↔ SiblingFails s root k := by
    intro k
    unfold SiblingFails
    rw [hof, hun]
  have hdeps : ∀ c y, (∃ job, t.jobs.lookup y = some job ∧ c ∈ job.dependsOn) ↔
      ∃ job, s.jobs.lookup y = some job ∧ c ∈ job.dependsOn := by
    intro c y
    have h := hread (fun p => p.2.1) y
    have hlist : ∀ o : Option Job, (∃ job, o = some job ∧ c ∈ job.dependsOn) ↔
        ∃ deps, o.map (fun job => job.dependsOn) = some deps ∧ c ∈ deps := by
      intro o
      cases o <;> simp
    rw [hlist, hlist]
    exact iff_of_eq (congrArg (fun o => ∃ deps, o = some deps ∧ c ∈ deps) h)
  refine ⟨or_congr (hsibling k) ?_, ?_⟩
  · unfold DependentFails
    rw [hof]
    refine and_congr_right fun _ => Worklist.reached_congr (fun c y => ?_) fun y => ?_
    · rw [ht.mem_directDependents, hs.mem_directDependents, hrest.dependents]
      exact or_congr_right (hdeps c y)
    · rw [hcan, hsibling]
  · unfold BatchFails
    rw [hbatch, hrest.batches, hrest.batchJobs, hun]

/-- Two failures that write the same messages wherever they meet meet
nowhere: among the jobs taken by both, the first one found by `root`
would blame a job that neither takes. -/
theorem no_common_blame {root' : JobId} (hne : root ≠ root') (hroot : ¬ FailureTakes t root' root)
    (hroot' : ¬ FailureTakes s root root')
    (hsame : ∀ k m m', Blames s root k m → Blames t root' k m' → m = m') (k : JobId) :
    ¬ (FailureTakes s root k ∧ FailureTakes t root' k) := by
  -- both can only agree on a job that found it
  have hfound : ∀ k, FailureTakes s root k → FailureTakes t root' k →
      ∃ c, ¬ InManual s root ∧ (c, k) ∈ policyTrail s root := by
    intro k hk hk'
    obtain ⟨m, hm⟩ := failureTakes_iff_blames.1 hk
    obtain ⟨m', hm'⟩ := failureTakes_iff_blames.1 hk'
    have heq := hsame k m m' hm hm'
    cases hm with
    | dependent hman hmem => exact ⟨_, hman, hmem⟩
    | sibling _ =>
        cases hm' with
        | sibling _ => exact absurd (workflowFailedMessage_inj heq) hne
        | dependent _ _ => exact absurd heq.symm (dependency_ne_workflow _ _)
        | batch _ _ => exact absurd heq (workflow_ne_batch _ _)
    | batch _ _ =>
        cases hm' with
        | sibling _ => exact absurd heq.symm (workflow_ne_batch _ _)
        | dependent _ _ => exact absurd heq.symm (dependency_ne_batch _ _)
        | batch _ _ => exact absurd (batchFailedMessage_inj heq) hne
  have hshared : ∀ c k, FailureTakes t root' k → ¬ InManual s root →
      (c, k) ∈ policyTrail s root → ¬ InManual t root' ∧ (c, k) ∈ policyTrail t root' := by
    intro c k hk' hman hmem
    obtain ⟨m', hm'⟩ := failureTakes_iff_blames.1 hk'
    have heq := hsame k _ m' (.dependent hman hmem) hm'
    cases hm' with
    | sibling _ => exact absurd heq (dependency_ne_workflow _ _)
    | dependent hman' hmem' => exact ⟨hman', dependencyFailedMessage_inj heq ▸ hmem'⟩
    | batch _ _ => exact absurd heq (dependency_ne_batch _ _)
  -- and the job that found it is the root or was taken before
  have hfinder : ∀ {u : TestStorage} {r c k : JobId}, ¬ InManual u r → (c, k) ∈ policyTrail u r →
      c = r ∨ FailureTakes u r c := by
    intro u r c k hman hmem
    exact (Worklist.trail_finder hmem).imp_right fun hc => .inl (.inr ((mem_policyTrail hman).1 hc))
  intro ⟨hk, hk'⟩
  obtain ⟨c, hman, hmem⟩ := hfound k hk hk'
  refine Worklist.trail_induct (Q := fun x => ¬ (FailureTakes s root x ∧ FailureTakes t root' x))
    (fun c x hx hc hboth => ?_) k (List.mem_map_of_mem (f := Prod.snd) hmem) ⟨hk, hk'⟩
  obtain ⟨hman', hx'⟩ := hshared c x hboth.2 hman hx
  have hnotroot : c ≠ root := by
    intro hroot_c
    subst hroot_c
    exact (hfinder hman' hx').elim hne hroot
  have hc₁ := (hfinder hman hx).resolve_left hnotroot
  have hc₂ := (hfinder hman' hx').resolve_left fun h => hroot' (h ▸ hc₁)
  exact hc.resolve_left hnotroot ⟨hc₁, hc₂⟩

end TestStorage

end Hammerwork
