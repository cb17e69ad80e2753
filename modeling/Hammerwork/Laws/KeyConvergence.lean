/-
Engines over one table of wrapped keys converge.

In every run of any number of calls the versions of a scope are 1, 2, …
and exactly one is active, all engines hold the same key for a version,
and an engine's active version only grows. A payload is decrypted by one
call of any engine, but for one interleaving: the call's first attempt
misses the payload's key, and by the time its reload notes the versions
held, other calls on the same engine have added all there are to load.
The reload then adds nothing, and the call gives up although its engine
has the key by now (`Overtaken`).

The proof follows a decryption from step to step (`Progress`).
-/
import Hammerwork.Proofs.Engine

namespace Hammerwork

namespace Kms

variable {kms : KmsKeyWrapper} {prims : Primitives} {n : Nat}

-- == the invariant of runs

variable {sys sys' : System} {move : Move}

/-- The fleet is sound and so is every call; what is stored was made by a
call. -/
structure System.Sound (kms : KmsKeyWrapper) (prims : Primitives) (sys : System) : Prop where
  fleet : sys.fleet.Sound kms
  made : ∀ k ∈ sys.fleet.store, k.id < sys.tasks.length
  tasks : ∀ (t : Nat) (task : Task), sys.tasks[t]? = some task →
    sys.fleet.Serves task.call ∧ task.phase.Sound kms prims sys.fleet t task.call

theorem new_sound (kms : KmsKeyWrapper) (prims : Primitives) :
    System.new.Sound kms prims where
  fleet := by
    refine ⟨⟨fun _ _ _ => rfl, ?_⟩, ?_, ?_, ?_, ?_⟩
    · exact fun _ _ _ k hk => absurd (mem_scope.1 hk).1 List.not_mem_nil
    · exact fun k hk => absurd hk List.not_mem_nil
    all_goals
      intro e engine he
      simp [System.new] at he
  made := fun k hk => absurd hk List.not_mem_nil
  tasks := by
    intro t task ht
    simp [System.new] at ht

/-- Some call's section, or none, separates two states. -/
theorem Step.later (hkms : kms.Undoes) (h : Step kms prims sys move sys')
    (hs : sys.Sound kms prims) : ∃ t, sys.fleet.Later t sys'.fleet := by
  cases h with
  | call => exact ⟨0, .refl 0 _⟩
  | own dice ht =>
      exact ⟨_, (next_sound hkms hs.fleet dice (hs.tasks _ _ ht).2).later⟩

theorem Step.sound (hkms : kms.Undoes) (h : Step kms prims sys move sys')
    (hs : sys.Sound kms prims) : sys'.Sound kms prims := by
  cases h with
  | call call hserves =>
      refine ⟨hs.fleet, fun k hk => ?_, fun t task ht => ?_⟩
      · have hlt := hs.made k hk
        simp only [List.length_append, List.length_singleton]
        omega
      · rcases Tally.getElem?_added.1 ht with hold | ⟨rfl, rfl⟩
        · exact hs.tasks t task hold
        · exact ⟨hserves, fun k hk => (hs.made k hk).ne⟩
  | @own t task dice ht =>
      obtain ⟨hserves, hphase⟩ := hs.tasks t task ht
      have hafter := next_sound hkms hs.fleet dice hphase
      refine ⟨hafter.fleet, fun k hk => ?_, fun u found hu => ?_⟩
      · rw [List.length_set]
        rcases hafter.later.back k hk with hid | ⟨k₀, hk₀, hsame⟩
        · rw [hid]
          exact (List.getElem?_eq_some_iff.1 ht).1
        · rw [← hsame]
          exact hs.made k₀ hk₀
      · rcases (Tally.getElem?_replaced ht).1 hu with ⟨rfl, rfl⟩ | ⟨hne, hold⟩
        · exact ⟨hafter.later.serves hserves, hafter.phase⟩
        · obtain ⟨hserves', hphase'⟩ := hs.tasks u found hold
          exact ⟨hafter.later.serves hserves', hphase'.later hserves' hs.fleet.ordered
            hafter.fleet.ordered hafter.later (Ne.symm hne)⟩

section Runs

variable (hkms : kms.Undoes) (r : Run (Step kms prims) n) (h0 : r.state 0 = .new)
include hkms h0

theorem run_sound : ∀ i ≤ n, (r.state i).Sound kms prims :=
  r.invariant (h0 ▸ new_sound kms prims) fun _ _ _ hstep hs => hstep.sound hkms hs

/-- What is stored stays stored. -/
theorem run_stored {i j : Nat} (hij : i ≤ j) (hj : j ≤ n) {keyName : String} {version : Nat}
    {key : Bytes} (h : Stored kms keyName keySize (r.state i).fleet.store version key) :
    Stored kms keyName keySize (r.state j).fleet.store version key := by
  refine r.stable (P := fun sys => Stored kms keyName keySize sys.fleet.store version key) h
    (fun l _ hl hstep hstored => ?_) j hij hj
  obtain ⟨t, hlater⟩ := hstep.later hkms (run_sound hkms r h0 l hl.le)
  exact stored_later hlater hstored

/-- Engines go on, and hold what they held. -/
theorem run_engine {i j : Nat} (hij : i ≤ j) (hj : j ≤ n) {e : Nat} {engine : Engine}
    (h : (r.state i).fleet.engines[e]? = some engine) :
    ∃ engine', (r.state j).fleet.engines[e]? = some engine' ∧ engine.Later engine' := by
  refine r.stable (P := fun sys => ∃ engine', sys.fleet.engines[e]? = some engine' ∧
    engine.Later engine') ⟨engine, h, .refl engine⟩ (fun l _ hl hstep => ?_) j hij hj
  rintro ⟨engine', hengine', hlater⟩
  obtain ⟨t, hfleet⟩ := hstep.later hkms (run_sound hkms r h0 l hl.le)
  obtain ⟨engine'', hengine'', hlater'⟩ := hfleet.engines e engine' hengine'
  exact ⟨engine'', hengine'', hlater.trans hlater'⟩

/-- A version has one key, whoever holds it and whenever. -/
theorem run_one_key {i j : Nat} (hi : i ≤ n) (hj : j ≤ n) {e e' version : Nat}
    {engine engine' : Engine} {id : String} {key key' : Bytes}
    (he : (r.state i).fleet.engines[e]? = some engine)
    (he' : (r.state j).fleet.engines[e']? = some engine')
    (hheld : engine.Holds id version key) (hheld' : engine'.Holds id version key') :
    key = key' := by
  have hstored := run_stored hkms r h0 hi le_rfl
    ((run_sound hkms r h0 i hi).fleet.stored e engine he id version key hheld)
  have hstored' := run_stored hkms r h0 hj le_rfl
    ((run_sound hkms r h0 j hj).fleet.stored e' engine' he' id version key' hheld')
  exact hstored.unique (run_sound hkms r h0 n le_rfl).fleet.ordered hstored'

end Runs

-- == decryptions

/-- The engine holds the key. -/
def Fleet.HoldsKey (fleet : Fleet) (e : Nat) (id : String) (key : Bytes) : Prop :=
  ∃ engine, fleet.engines[e]? = some engine ∧ engine.HoldsKey id key

/-- The engine holds a version of the key. -/
def Fleet.HoldsVersion (fleet : Fleet) (e : Nat) (id : String) (version : Nat) : Prop :=
  ∃ engine, fleet.engines[e]? = some engine ∧ version ∈ engine.versions id

/-- The move is a step of call number `d`. -/
def Move.isOf (d : Nat) : Move → Bool
  | .own t _ => t == d
  | .call _ => false

/-- How many steps call number `d` has taken by time `i`. -/
def steps (r : Run (Step kms prims) n) (d i : Nat) : Nat :=
  r.count (fun _ move => move.isOf d) 0 i

/-- The step taken at time `i` is step number `k` of call number `d`,
counted from 0. -/
def Turn (r : Run (Step kms prims) n) (d k i : Nat) : Prop :=
  i < n ∧ (r.event i).isOf d = true ∧ steps r d i = k

/-- Call number `d`, decrypting with engine `e`, is overtaken: when it
first looks, the engine lacks the payload's key; when its reload notes the
versions held, the engine holds every version that is stored by the time
the reload reads them. -/
def Overtaken (r : Run (Step kms prims) n) (d e : Nat) (id : String) (key : Bytes) : Prop :=
  ∃ i j l, Turn r d 0 i ∧ Turn r d 1 j ∧ Turn r d 2 l ∧
    ¬ (r.state i).fleet.HoldsKey e id key ∧
    ∀ record ∈ (r.state l).fleet.store.scope (kmsKeyName id) kms.provider kms.kmsKeyId,
      (r.state j).fleet.HoldsVersion e id record.version

variable {r : Run (Step kms prims) n} {d e m i j k : Nat} {id : String} {key : Bytes}
  {payload : Json} {phase : Phase}

theorem steps_succ (r : Run (Step kms prims) n) (d i : Nat) :
    steps r d (i + 1) = steps r d i + if (r.event i).isOf d then 1 else 0 :=
  r.count_succ _ (Nat.zero_le i)

theorem steps_mono (r : Run (Step kms prims) n) (d : Nat) (hij : i ≤ j) :
    steps r d i ≤ steps r d j := by
  induction j, hij using Nat.le_induction with
  | base => exact le_rfl
  | succ j _ ih =>
      rw [steps_succ]
      omega

/-- A call takes its step number `k` once. -/
theorem Turn.unique (hi : Turn r d k i) (hj : Turn r d k j) : i = j := by
  have hlater : ∀ {i j : Nat}, Turn r d k i → Turn r d k j → ¬ i < j := by
    intro i j hi hj hlt
    have hle := steps_mono r d (Nat.succ_le_of_lt hlt)
    rw [Nat.succ_eq_add_one, steps_succ, if_pos hi.2.1, hi.2.2, hj.2.2] at hle
    omega
  have := hlater hi hj
  have := hlater hj hi
  omega

/-- What can be said of a decryption by time `m`: each phase tells of the
steps that led to it. -/
inductive Progress (r : Run (Step kms prims) n) (d e : Nat) (id : String) (key : Bytes)
    (payload : Json) (version m : Nat) : Phase → Prop
  | begun : steps r d m = 0 → Progress r d e id key payload version m .begun
  | found {i : Nat} {value : Json} : Turn r d 0 i → (r.state i).fleet.HoldsKey e id key →
      Reads prims payload value →
      Progress r d e id key payload version m (.done (.decrypted value))
  | missed {i : Nat} (failure : EncryptionError) : Turn r d 0 i →
      ¬ (r.state i).fleet.HoldsKey e id key → steps r d m = 1 →
      Progress r d e id key payload version m (.reloading failure)
  | noted {i j : Nat} {engine : Engine} (failure : EncryptionError) : Turn r d 0 i →
      ¬ (r.state i).fleet.HoldsKey e id key → Turn r d 1 j → j ≤ m →
      (r.state j).fleet.engines[e]? = some engine → steps r d m = 2 →
      Progress r d e id key payload version m (.loading (some failure) (engine.versions id))
  | loaded {j l : Nat} {record : KmsWrappedKey} {loaded : List EnvelopeKey}
      (failure : EncryptionError) : Turn r d 1 j → j ≤ m → Turn r d 2 l →
      record ∈ (r.state l).fleet.store.scope (kmsKeyName id) kms.provider kms.kmsKeyId →
      ¬ (r.state j).fleet.HoldsVersion e id record.version →
      ((r.state j).fleet.HoldsVersion e id version ∨ ∃ k ∈ loaded, k.version = version) →
      steps r d m = 3 →
      Progress r d e id key payload version m (.merging (some failure) loaded)
  | merged {j l : Nat} {record : KmsWrappedKey} : Turn r d 1 j → Turn r d 2 l →
      record ∈ (r.state l).fleet.store.scope (kmsKeyName id) kms.provider kms.kmsKeyId →
      ¬ (r.state j).fleet.HoldsVersion e id record.version →
      (r.state m).fleet.HoldsKey e id key → steps r d m = 4 →
      Progress r d e id key payload version m .retrying
  | retried {j l : Nat} {record : KmsWrappedKey} {value : Json} : Turn r d 1 j → Turn r d 2 l →
      record ∈ (r.state l).fleet.store.scope (kmsKeyName id) kms.provider kms.kmsKeyId →
      ¬ (r.state j).fleet.HoldsVersion e id record.version → Reads prims payload value →
      Progress r d e id key payload version m (.done (.decrypted value))
  | refused (failure : EncryptionError) : Overtaken r d e id key →
      Progress r d e id key payload version m (.done (.failed failure))

/-- Another call's step, or none of this one. -/
theorem Step.own_or_other {sys sys' : System} {move : Move} {task : Task}
    (h : Step kms prims sys move sys') (ht : sys.tasks[d]? = some task) :
    (move.isOf d = false ∧ sys'.tasks[d]? = some task) ∨
    ∃ dice, move.isOf d = true ∧ task.phase.Unfinished ∧
      sys'.fleet = (sys.fleet.next kms prims d dice task).2 ∧
      sys'.tasks[d]? = some
        { task with phase := (sys.fleet.next kms prims d dice task).1 } := by
  cases h with
  | call call =>
      exact .inl ⟨rfl, Tally.getElem?_added.2 (.inl ht)⟩
  | @own t task' dice ht' hunfinished =>
      by_cases heq : d = t
      · subst heq
        obtain rfl := Option.some.inj (ht.symm.trans ht')
        exact .inr ⟨dice, by simp [Move.isOf], hunfinished, rfl,
          (Tally.getElem?_replaced ht').2 (.inl ⟨rfl, rfl⟩)⟩
      · exact .inl ⟨by simp [Move.isOf, Ne.symm heq],
          (Tally.getElem?_replaced ht').2 (.inr ⟨heq, ht⟩)⟩

/-- Steps of other calls change nothing that is said of this one. -/
theorem Progress.idle {version : Nat} (h : Progress r d e id key payload version m phase)
    (hidle : (r.event m).isOf d = false)
    (hkept : (r.state m).fleet.HoldsKey e id key → (r.state (m + 1)).fleet.HoldsKey e id key) :
    Progress r d e id key payload version (m + 1) phase := by
  have hsteps : steps r d (m + 1) = steps r d m := by simp [steps_succ, hidle]
  cases h with
  | begun hzero => exact .begun (hsteps.trans hzero)
  | found hi hholds hreads => exact .found hi hholds hreads
  | missed failure hi hlacks hone => exact .missed failure hi hlacks (hsteps.trans hone)
  | noted failure hi hlacks hj hle he htwo =>
      exact .noted failure hi hlacks hj (hle.trans m.le_succ) he (hsteps.trans htwo)
  | loaded failure hj hle hl hrecord hnew hown hthree =>
      exact .loaded failure hj (hle.trans m.le_succ) hl hrecord hnew hown (hsteps.trans hthree)
  | merged hj hl hrecord hnew hholds hfour =>
      exact .merged hj hl hrecord hnew (hkept hholds) (hsteps.trans hfour)
  | retried hj hl hrecord hnew hreads => exact .retried hj hl hrecord hnew hreads
  | refused failure hovertaken => exact .refused failure hovertaken

section Decryptions

variable {config : EncryptionConfig} {nonce aad : Bytes} {encrypted : EncryptedPayload}
  {version : Nat}

/-- One step of a run carries what is said of a decryption on. -/
theorem Progress.step (hkms : kms.Undoes) (hprims : prims.Lawful) (h0 : r.state 0 = .new)
    (hm : m < n) (hnonce : nonce.length = nonceSize)
    (henc : encryptValue prims config key nonce payload aad = .ok encrypted)
    (hstored : Stored kms (kmsKeyName encrypted.metadata.keyId) keySize (r.state m).fleet.store
      version key)
    (ht : (r.state m).tasks[d]? = some ⟨.decrypt e encrypted aad, phase⟩)
    (hp : Progress r d e encrypted.metadata.keyId key payload version m phase) :
    ∃ phase', (r.state (m + 1)).tasks[d]? = some ⟨.decrypt e encrypted aad, phase'⟩ ∧
      Progress r d e encrypted.metadata.keyId key payload version (m + 1) phase' := by
  have hsound := run_sound hkms r h0
  have hs := hsound m hm.le
  have hs' := hsound (m + 1) hm
  have hkept : ∀ k : Bytes, (r.state m).fleet.HoldsKey e encrypted.metadata.keyId k →
      (r.state (m + 1)).fleet.HoldsKey e encrypted.metadata.keyId k := by
    rintro k ⟨engine, he, hholds⟩
    obtain ⟨engine', he', hlater⟩ := run_engine hkms r h0 m.le_succ hm he
    exact ⟨engine', he', hlater.holdsKey hholds⟩
  rcases (r.next m hm).own_or_other ht with
    ⟨hidle, ht'⟩ | ⟨dice, hown, hunfinished, hfleet, ht'⟩
  · exact ⟨phase, ht', hp.idle hidle (hkept key)⟩
  obtain ⟨engine, he⟩ : ∃ engine, (r.state m).fleet.engines[e]? = some engine :=
    ⟨_, List.getElem?_eq_getElem ((hs.tasks d _ ht).1 e rfl)⟩
  have hnext : (r.state m).fleet.next kms prims d dice ⟨.decrypt e encrypted aad, phase⟩
      = (r.state m).fleet.nextDecrypt kms prims e engine encrypted aad phase := by
    simp only [Fleet.next, he]
  rw [hnext] at ht' hfleet
  have hsteps : steps r d (m + 1) = steps r d m + 1 := by simp [steps_succ, hown]
  have hturn : ∀ k, steps r d m = k → Turn r d k m := fun k hk => ⟨hm, hown, hk⟩
  have hholdsKey : (r.state m).fleet.HoldsKey e encrypted.metadata.keyId key ↔
      engine.HoldsKey encrypted.metadata.keyId key := by
    constructor
    · rintro ⟨engine', he', hholds⟩
      obtain rfl := Option.some.inj (he.symm.trans he')
      exact hholds
    · exact fun hholds => ⟨engine, he, hholds⟩
  obtain ⟨hfinds, hmisses⟩ :=
    attempt_spec hprims hs.fleet he hnonce henc encrypted.metadata.keyId
  refine ⟨_, ht', ?_⟩
  cases hp with
  | begun hzero =>
      unfold Fleet.nextDecrypt
      by_cases hholds : engine.HoldsKey encrypted.metadata.keyId key
      · obtain ⟨value, hreads, hvalue⟩ := hfinds hholds
        simp only [hvalue]
        exact .found (hturn 0 hzero) (hholdsKey.2 hholds) hreads
      · obtain ⟨failure, hfailure⟩ := hmisses hholds
        simp only [hfailure]
        exact .missed failure (hturn 0 hzero) (mt hholdsKey.1 hholds) (by omega)
  | missed failure hi hlacks hone =>
      exact .noted failure hi hlacks (hturn 1 hone) m.le_succ he (by omega)
  | @noted i j engineⱼ failure hi hlacks hj hle heⱼ htwo =>
      have hversions : ∀ v, v ∈ engineⱼ.versions encrypted.metadata.keyId ↔
          (r.state j).fleet.HoldsVersion e encrypted.metadata.keyId v := by
        intro v
        constructor
        · exact fun hv => ⟨engineⱼ, heⱼ, hv⟩
        · rintro ⟨engine', he', hv⟩
          obtain rfl := Option.some.inj (heⱼ.symm.trans he')
          exact hv
      rcases nextReload_loading hs.fleet e engine encrypted.metadata.keyId failure
        (engineⱼ.versions encrypted.metadata.keyId) with
        ⟨hall, hreload⟩ | ⟨loaded, ⟨record, hrecord, hnew⟩, hall, hreload⟩
      · have hafter : (r.state m).fleet.nextDecrypt kms prims e engine encrypted aad
            (.loading (some failure) (engineⱼ.versions encrypted.metadata.keyId))
            = (.done (.failed failure), (r.state m).fleet) := hreload
        rw [hafter]
        exact .refused failure ⟨i, j, m, hi, hj, hturn 2 htwo, hlacks,
          fun record hrecord => (hversions _).1 (hall record hrecord)⟩
      · have hafter : (r.state m).fleet.nextDecrypt kms prims e engine encrypted aad
            (.loading (some failure) (engineⱼ.versions encrypted.metadata.keyId))
            = (.merging (some failure) loaded, (r.state m).fleet) := hreload
        rw [hafter]
        refine .loaded failure hj (hle.trans m.le_succ) (hturn 2 htwo) hrecord
          (mt (hversions _).2 hnew) ?_ (by omega)
        by_cases hknown : version ∈ engineⱼ.versions encrypted.metadata.keyId
        · exact .inl ((hversions _).1 hknown)
        · obtain ⟨own, hown', hversion, hwraps⟩ := hstored
          rw [← hversion] at hknown ⊢
          exact .inr (hall own (mem_scope.2
            ⟨hown', hwraps.keyName, hwraps.kmsProvider, hwraps.kmsKeyId⟩) hknown)
  | @loaded j l record loaded failure hj hle hl hrecord hnew hloaded hthree =>
      have hafter : (r.state m).fleet.nextDecrypt kms prims e engine encrypted aad
          (.merging (some failure) loaded)
          = (.retrying, (r.state m).fleet.setEngine e
              (engine.merge encrypted.metadata.keyId loaded)) := rfl
      rw [hafter] at hfleet ⊢
      refine .merged hj hl hrecord hnew ?_ (by omega)
      have hstored' := run_stored hkms r h0 m.le_succ hm hstored
      rcases hloaded with ⟨engineⱼ, heⱼ, hversion⟩ | ⟨k, hk, hversion⟩
      · obtain ⟨key', hholds⟩ := Engine.mem_versions.1 hversion
        obtain ⟨engine', he', hlater⟩ :=
          run_engine hkms r h0 (hle.trans m.le_succ) hm heⱼ
        have hstoredⱼ := hs'.fleet.stored e engine' he' _ _ _ (hlater.holds hholds)
        obtain rfl := hstoredⱼ.unique hs'.fleet.ordered hstored'
        exact ⟨engine', he', version, hlater.holds hholds⟩
      · obtain ⟨key', hholds⟩ := merged_holds hs.fleet he encrypted.metadata.keyId hk
        have he' : (r.state (m + 1)).fleet.engines[e]?
            = some (engine.merge encrypted.metadata.keyId loaded) := by
          rw [hfleet]
          simp [Fleet.setEngine, (List.getElem?_eq_some_iff.1 he).1]
        rw [hversion] at hholds
        obtain rfl := (hs'.fleet.stored e _ he' _ _ _ hholds).unique hs'.fleet.ordered hstored'
        exact ⟨_, he', version, hholds⟩
  | merged hj hl hrecord hnew hholds hfour =>
      obtain ⟨value, hreads, hvalue⟩ := hfinds (hholdsKey.1 hholds)
      unfold Fleet.nextDecrypt
      simp only [hvalue]
      exact .retried hj hl hrecord hnew hreads
  | found | retried | refused => exact absurd rfl (hunfinished _)

/-- A call that was made: its number is new, and it has taken no step. -/
theorem steps_called (r : Run (Step kms prims) n) {call : Call} {b : Nat} (hb : b < n)
    (hcall : r.event b = .call call) :
    (r.state (b + 1)).tasks[(r.state b).tasks.length]? = some ⟨call, .begun⟩ ∧
      steps r (r.state b).tasks.length (b + 1) = 0 := by
  have hmade : ∀ {sys sys' : System} {move : Move}, Step kms prims sys move sys' →
      move = .call call → sys'.tasks = sys.tasks ++ [⟨call, .begun⟩] := by
    intro sys sys' move h hmove
    cases h with
    | call call' => rw [Move.call.inj hmove]
    | own => cases hmove
  have hlength : ∀ {sys sys' : System} {move : Move}, Step kms prims sys move sys' →
      sys.tasks.length ≤ sys'.tasks.length := by
    intro sys sys' move h
    cases h with
    | call => simp
    | own => simp
  have hlt : ∀ {sys sys' : System} {move : Move} {d : Nat}, Step kms prims sys move sys' →
      move.isOf d = true → d < sys.tasks.length := by
    intro sys sys' move d h hmove
    cases h with
    | call => cases hmove
    | own dice ht =>
        have heq := beq_iff_eq.1 hmove
        subst heq
        exact (List.getElem?_eq_some_iff.1 ht).1
  refine ⟨?_, ?_⟩
  · rw [hmade (r.next b hb) hcall]
    exact Tally.getElem?_added.2 (.inr ⟨rfl, rfl⟩)
  · -- before it was made there was no such number
    have hnone : ∀ i ≤ b, steps r (r.state b).tasks.length i = 0 := by
      intro i
      induction i with
      | zero => exact fun _ => r.count_self _ 0
      | succ i ih =>
          intro hi
          rw [steps_succ, ih (by omega), if_neg]
          intro hown
          have hbelow := hlt (r.next i (by omega)) hown
          have hgrown := r.stable (P := fun sys => (r.state i).tasks.length ≤ sys.tasks.length)
            le_rfl (fun j _ _ hstep hle => hle.trans (hlength hstep)) b (by omega) hb.le
          omega
    rw [steps_succ, hnone b le_rfl, hcall]
    rfl

/-- What can be said of a decryption holds at the end of a run. -/
theorem run_progress (hkms : kms.Undoes) (hprims : prims.Lawful) (h0 : r.state 0 = .new)
    (hnonce : nonce.length = nonceSize)
    (henc : encryptValue prims config key nonce payload aad = .ok encrypted) {b : Nat} (hb : b < n)
    (hstored : Stored kms (kmsKeyName encrypted.metadata.keyId) keySize (r.state b).fleet.store
      version key)
    (hcall : r.event b = .call (.decrypt e encrypted aad)) :
    ∃ phase, (r.state n).tasks[(r.state b).tasks.length]?
        = some ⟨.decrypt e encrypted aad, phase⟩ ∧
      Progress r (r.state b).tasks.length e encrypted.metadata.keyId key payload version n
        phase := by
  obtain ⟨hbegun, hzero⟩ := steps_called r hb hcall
  have hrun : ∀ m, b + 1 ≤ m → m ≤ n → ∃ phase,
      (r.state m).tasks[(r.state b).tasks.length]? = some ⟨.decrypt e encrypted aad, phase⟩ ∧
      Progress r (r.state b).tasks.length e encrypted.metadata.keyId key payload version m
        phase := by
    intro m hbm
    induction m, hbm using Nat.le_induction with
    | base => exact fun _ => ⟨.begun, hbegun, .begun hzero⟩
    | succ m hbm ih =>
        intro hm
        obtain ⟨phase, ht, hp⟩ := ih (by omega)
        exact hp.step hkms hprims h0 (by omega) hnonce henc
          (run_stored hkms r h0 (by omega) (by omega) hstored) ht
  exact hrun n hb le_rfl

end Decryptions

-- == the theorem

/-- The versions of every scope are 1, 2, … without gaps and one of them
is active; no engine holds a version twice, and its earlier versions are
sorted, newest first. -/
structure Converged (sys : System) : Prop where
  versions : ∀ keyName kmsProvider kmsKeyId : String, ∃ count,
    (sys.fleet.store.scope keyName kmsProvider kmsKeyId).map (·.version) = List.range' 1 count
  oneActive : ∀ keyName kmsProvider kmsKeyId : String,
    sys.fleet.store.scope keyName kmsProvider kmsKeyId ≠ [] →
    (sys.fleet.store.scope keyName kmsProvider kmsKeyId).countP (·.active) = 1
  tidy : ∀ (e : Nat) (engine : Engine), sys.fleet.engines[e]? = some engine →
    ∀ (id : String) (held : KeyVersions), engine.keys id = some held →
      held.versions.Nodup ∧ held.previous.Pairwise fun a b => b.1 < a.1

theorem System.Sound.converged {sys : System} (hs : sys.Sound kms prims) : Converged sys where
  versions keyName kmsProvider kmsKeyId :=
    ⟨_, hs.fleet.ordered.versions keyName kmsProvider kmsKeyId⟩
  oneActive keyName kmsProvider kmsKeyId hne := by
    have hversions := hs.fleet.ordered.versions keyName kmsProvider kmsKeyId
    have hlast : (sys.fleet.store.scope keyName kmsProvider kmsKeyId).countP (·.active)
        = ((sys.fleet.store.scope keyName kmsProvider kmsKeyId).map (·.version)).count
            (sys.fleet.store.scope keyName kmsProvider kmsKeyId).length := by
      rw [List.count, List.countP_map]
      refine List.countP_congr fun k hk => ?_
      rw [hs.fleet.ordered.active keyName kmsProvider kmsKeyId k hk]
      simp
    rw [hlast, hversions]
    refine List.count_eq_one_of_mem List.nodup_range' ?_
    have hpos := List.length_pos_iff.2 hne
    rw [List.mem_range'_1]
    omega
  tidy e engine he id held hheld :=
    ⟨(hs.fleet.tidy e engine he id held hheld).nodup,
      (hs.fleet.tidy e engine he id held hheld).sorted⟩

/-- The payload was encrypted under the key, by that engine. -/
def EncryptedUnder (prims : Primitives) (fleet : Fleet) (e : Nat) (payload : Json) (aad : Bytes)
    (encrypted : EncryptedPayload) (key : Bytes) : Prop :=
  ∃ engine nonce, fleet.engines[e]? = some engine ∧ nonce.length = nonceSize ∧
    encryptValue prims engine.config key nonce payload aad = .ok encrypted

/-- A decryption that has returned gave the payload, unless the call was
overtaken; it returns at its fifth step at the latest. -/
theorem Progress.decrypts {version : Nat}
    (h : Progress r d e id key payload version n phase) :
    (5 ≤ steps r d n → ¬ phase.Unfinished) ∧
    ∀ outcome, phase = .done outcome →
      ((∃ value, Reads prims payload value ∧ outcome = .decrypted value) ↔
        ¬ Overtaken r d e id key) := by
  cases h with
  | begun hsteps | missed _ _ _ hsteps | noted _ _ _ _ _ _ hsteps
  | loaded _ _ _ _ _ _ _ hsteps | merged _ _ _ _ _ hsteps =>
      exact ⟨fun hfive => by omega, nofun⟩
  | @found i value hi hholds hreads =>
      refine ⟨fun _ hunfinished => hunfinished _ rfl, fun outcome heq => ?_⟩
      obtain rfl := Phase.done.inj heq
      refine ⟨fun _ => ?_, fun _ => ⟨value, hreads, rfl⟩⟩
      rintro ⟨i', j, l, hi', -, -, hlacks, -⟩
      exact hlacks (hi.unique hi' ▸ hholds)
  | @retried j l record value hj hl hrecord hnew hreads =>
      refine ⟨fun _ hunfinished => hunfinished _ rfl, fun outcome heq => ?_⟩
      obtain rfl := Phase.done.inj heq
      refine ⟨fun _ => ?_, fun _ => ⟨value, hreads, rfl⟩⟩
      rintro ⟨i, j', l', -, hj', hl', -, hall⟩
      rw [← hj.unique hj', ← hl.unique hl'] at hall
      exact hnew (hall record hrecord)
  | refused failure hovertaken =>
      refine ⟨fun _ hunfinished => hunfinished _ rfl, fun outcome heq => ?_⟩
      obtain rfl := Phase.done.inj heq
      exact ⟨fun ⟨_, _, hfail⟩ => (nomatch hfail), fun hnot => absurd hovertaken hnot⟩

/-- A KMS whose data keys repeat one byte and are wrapped in reverse. -/
def plainKms : KmsKeyWrapper where
  provider := "aws"
  kmsKeyId := "alias/hammerwork"
  generateDataKey seed size _ := .ok
    ⟨List.replicate size (UInt8.ofNat seed), (List.replicate size (UInt8.ofNat seed)).reverse⟩
  decrypt ciphertext _ := .ok ciphertext.reverse

theorem plainKms_undoes : plainKms.Undoes := by
  intro seed size context dataKey h
  cases h
  exact congrArg Except.ok (List.reverse_reverse _)

/-- The text of `null`. -/
def nullText : Bytes := [110, 117, 108, 108]

/-- A cipher that writes the key, the nonce and the associated data before
the data and a tag after it. -/
def plainPrims : Primitives where
  toVec
    | .null => .ok nullText
    | _ => .error "not null"
  fromSlice bytes := if bytes = nullText then .ok .null else .error "not null"
  compress := .ok
  decompress := .ok
  encode bytes := String.ofList (bytes.map fun byte => Char.ofNat byte.toNat)
  decode text := .ok (text.toList.map fun char => UInt8.ofNat char.toNat)
  encrypt _ key nonce data aad := .ok (key ++ nonce ++ aad ++ (data ++ List.replicate 16 0))
  decrypt _ key nonce sealed aad :=
    if (key ++ nonce ++ aad).isPrefixOf sealed then
      let body := sealed.drop (key ++ nonce ++ aad).length
      .ok (body.take (body.length - 16))
    else
      .error "aead::Error"
  hmac _ _ := .ok ""
  sha256 _ := ""

theorem plainPrims_decodes (bytes : Bytes) :
    plainPrims.decode (plainPrims.encode bytes) = .ok bytes := by
  have hbyte : ∀ byte : UInt8, UInt8.ofNat (Char.ofNat byte.toNat).toNat = byte := by
    intro byte
    have hlt := byte.toNat_lt
    have hvalid : byte.toNat.isValidChar := .inl (by omega)
    have hchar : (Char.ofNat byte.toNat).toNat = byte.toNat := by
      rw [Char.ofNat, dif_pos hvalid]
      rfl
    rw [hchar, UInt8.ofNat_toNat]
  simp [plainPrims, Function.comp_def, hbyte]

theorem plainPrims_lawful : plainPrims.Lawful where
  parses payload bytes h := by
    cases payload with
    | null =>
        cases h
        exact ⟨.null, by simp [plainPrims]⟩
    | bool | number | string | array | object => cases h
  inflates bytes data h := by
    cases h
    rfl
  decodes := plainPrims_decodes
  tagged algorithm key nonce data aad sealed h := by
    cases h
    simp [tagSize]
    omega
  opens algorithm key nonce data aad sealed _ _ h := by
    cases h
    have htake : ∀ text : Bytes, (text ++ List.replicate 16 0).take
        ((text ++ List.replicate 16 0).length - 16) = text := by
      intro text
      simp
    simp only [plainPrims]
    rw [if_pos (List.isPrefixOf_iff_prefix.2 (List.prefix_append _ _)), List.drop_left, htake]
  authentic algorithm key other nonce data aad sealed hkey hother _ hne h := by
    cases h
    refine ⟨"aead::Error", if_neg fun hprefix => hne ?_⟩
    obtain ⟨rest, hrest⟩ := List.isPrefixOf_iff_prefix.1 hprefix
    simp only [List.append_assoc] at hrest
    exact (List.append_inj hrest (hother.trans hkey.symm)).1

/-- One step of the system, as a function. -/
def System.after (kms : KmsKeyWrapper) (prims : Primitives) (sys : System) : Move → System
  | .call call => { sys with tasks := sys.tasks ++ [⟨call, .begun⟩] }
  | .own t dice =>
      match sys.tasks[t]? with
      | none => sys
      | some task =>
          { fleet := (sys.fleet.next kms prims t dice task).2
            tasks := sys.tasks.set t
              { task with phase := (sys.fleet.next kms prims t dice task).1 } }

/-- The call has returned. -/
def Phase.isDone : Phase → Bool
  | .done _ => true
  | _ => false

/-- The move can be made. -/
def Move.valid (sys : System) : Move → Bool
  | .call made => made.engine.all (· < sys.fleet.engines.length)
  | .own t _ => (sys.tasks[t]?).any fun task => !task.phase.isDone

theorem System.step_after {sys : System} {move : Move} (h : move.valid sys = true) :
    Step kms prims sys move (sys.after kms prims move) := by
  cases move with
  | call call =>
      refine .call sys call fun e he => ?_
      simpa [Move.valid, he] using h
  | own t dice =>
      obtain ⟨task, ht, hphase⟩ := (Option.any_eq_true _ _).1 h
      have hafter : sys.after kms prims (.own t dice)
          = { fleet := (sys.fleet.next kms prims t dice task).2
              tasks := sys.tasks.set t
                { task with phase := (sys.fleet.next kms prims t dice task).1 } } := by
        simp only [System.after, ht]
      rw [hafter]
      refine .own dice ht fun outcome heq => ?_
      rw [heq] at hphase
      cases hphase

/-- The system after each of a list of moves. -/
def statesOf (moves : List Move) : Nat → System :=
  Run.states (System.after plainKms plainPrims) .new
    fun i => moves[i]?.getD (.call (.withKmsStore ⟨.aes256Gcm, false, none⟩))

/-- The run that makes a list of moves. -/
def runOf (moves : List Move)
    (h : ∀ i < moves.length, (moves[i]?.getD
      (.call (.withKmsStore ⟨.aes256Gcm, false, none⟩))).valid (statesOf moves i) = true) :
    Run (Step plainKms plainPrims) moves.length :=
  Run.ofFn _ _ _ fun i hi => System.step_after (h i hi)

/-- The random choices of a section, given one number. -/
def rolled (seed : Nat) : Dice := ⟨seed, List.replicate 12 (UInt8.ofNat seed), rfl⟩

def plainConfig : EncryptionConfig := ⟨.aes256Gcm, false, none⟩

/-- A payload encrypted under the second version of the key. -/
def secondPayload : EncryptedPayload where
  ciphertext := plainPrims.encode
    (List.replicate 32 2 ++ List.replicate 12 3 ++ [] ++ nullText)
  nonce := plainPrims.encode (List.replicate 12 3)
  tag := plainPrims.encode (List.replicate 16 0)
  metadata := ⟨.aes256Gcm, "default", false, keyedHashPrefix⟩

/-- Two engines start, the second rotates the key and encrypts. -/
def rotation : List Move :=
  [.call (.withKmsStore plainConfig), .own 0 (rolled 1), .own 0 (rolled 1), .own 0 (rolled 1),
    .call (.withKmsStore plainConfig), .own 1 (rolled 1),
    .call (.rotateKmsKeyIn 1), .own 2 (rolled 2), .own 2 (rolled 2), .own 2 (rolled 2),
    .call (.encrypt 1 .null []), .own 3 (rolled 3)]

/-- The first engine decrypts, with nothing in between. -/
def decryptsAlone : List Move :=
  rotation ++ [.call (.decrypt 0 secondPayload []), .own 4 (rolled 0), .own 4 (rolled 0),
    .own 4 (rolled 0), .own 4 (rolled 0), .own 4 (rolled 0)]

/-- While the first engine decrypts, another of its calls reloads the
keys. -/
def decryptsOvertaken : List Move :=
  rotation ++ [.call (.decrypt 0 secondPayload []), .own 4 (rolled 0),
    .call (.reloadKmsKeys 0), .own 5 (rolled 0), .own 5 (rolled 0), .own 5 (rolled 0),
    .own 4 (rolled 0), .own 4 (rolled 0)]

end Kms

end Hammerwork
