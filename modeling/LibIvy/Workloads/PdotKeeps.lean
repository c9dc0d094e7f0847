import LibIvy.Workloads.PdotMain

/-!
Contract: every node of pdot keeps to what it may do.

Owns: for the manager and each worker, that they keep to the guarantee whatever the
others do, the sum that a worker has stored when it returns, and the line that the
manager has printed.

Does not own: the runs of all nodes.
-/

namespace LibIvy.Workloads.Pdot

open LibIvy.Lib Program Guarantee

section Nodes

variable {nodesWorker : UInt64} {input : Psort.Input}

theorem open_stable (thread : Party) :
    Stable (mainMay nodesWorker input) thread (Open nodesWorker input) :=
  fun _ _ _ _ opened kept => open_kept opened kept

theorem inv_stable (thread : Party) :
    Stable (mainMay nodesWorker input) thread (Inv nodesWorker input) :=
  fun _ _ _ _ inv kept => inv_kept inv kept

/-! ### `mult_worker` -/

/-- The busy waiting ends when the memory is published. -/
theorem awaitReady_keeps (id : Nat) :
    Triple (mainMay nodesWorker input) (.worker id) (Inv nodesWorker input) (ofShm awaitReady)
      fun _ => Open nodesWorker input := by
  have shape : ofShm awaitReady =
      whileDo (return (← read (.shm .ready)) != 1) (return ()) := by
    rw [ofShm, awaitReady, relabel_whileDo]
    rfl
  have waiting := @inv_stable nodesWorker input (.worker id)
  have opened := @open_stable nodesWorker input (.worker id)
  have observe : Triple (mainMay nodesWorker input) (.worker id) (Inv nodesWorker input)
      (read (.shm .ready)) fun value config =>
        if value = 1 then Open nodesWorker input config else Inv nodesWorker input config := by
    refine Triple.read waiting (fun _ _ => trivial) (fun value => ?_) fun config inv => ?_
    · split
      · exact opened
      · exact waiting
    · split
      · rename_i set
        exact open_kept (inv.resolve_left (not_not.mpr set)) trivial
      · exact inv_kept inv trivial
  rw [shape]
  refine Triple.whileDo waiting opened (observe.bind fun value => ?_)
    (Triple.pure waiting fun _ holds => holds)
  by_cases set : value = 1
  · subst set
    exact Triple.pure opened fun _ holds => holds
  · have goesOn : (value != 1) = true := bne_iff_ne.mpr set
    rw [goesOn]
    simp only [if_neg set]
    exact Triple.pure waiting fun _ holds => holds

/-- Nobody changes the vectors while a worker adds up its part. -/
theorem addPart_undisturbed {id : Nat} {events : List (Effect Loc UInt64 Empty)}
    (loads : ∀ event ∈ events, ∃ loc value, Input loc ∧ event = .load loc value) :
    Undisturbed (mainMay nodesWorker input) (.worker id)
      (fun field => ∃ loc, Input loc ∧ field = .shm loc) (fun _ => Open nodesWorker input)
      (published nodesWorker input) (events.map (Effect.relabel .shm Empty.elim)) := by
  constructor
  case within =>
    intro event member
    obtain ⟨inner, listed, rfl⟩ := List.mem_map.mp member
    obtain ⟨loc, value, isInput, rfl⟩ := loads inner listed
    exact ⟨loc, isInput, rfl⟩
  case stable =>
    rintro _ memory config other event - ⟨opened, agree⟩ kept
    refine ⟨open_kept opened kept, ?_⟩
    rintro _ ⟨loc, isInput, rfl⟩
    rw [(open_kept opened kept).loaded loc isInput, ← opened.loaded loc isInput]
    exact agree _ ⟨loc, isInput, rfl⟩
  case own =>
    intro before event later config split opened _ _
    obtain ⟨inner, listed, rfl⟩ : ∃ inner ∈ events, Effect.relabel .shm Empty.elim inner = event := by
      apply List.mem_map.mp
      rw [split]
      simp
    obtain ⟨loc, value, -, rfl⟩ := loads inner listed
    exact ⟨trivial, open_kept opened trivial⟩

/-- Whatever a published memory has to say about the vectors, an open one does. -/
theorem Open.agree {config : Cfg} (opened : Open nodesWorker input config) :
    Agree (fun field => ∃ loc, Input loc ∧ field = .shm loc) config.mem
      (published nodesWorker input) := by
  rintro _ ⟨loc, isInput, rfl⟩
  exact opened.loaded loc isInput

/-- The sum is computed as it is alone. -/
theorem addPart_keeps (id : Nat) :
    Triple (mainMay nodesWorker input) (.worker id) (Open nodesWorker input)
      (ofShm (addPart nodesWorker id)) fun sum config =>
        sum = workerSum nodesWorker input id ∧ Open nodesWorker input config := by
  obtain ⟨events, sum, after, evaluated, loads, -, sameSum⟩ :=
    @addPart_ensures nodesWorker (publishedShm nodesWorker input)
      (fun event => ∃ loc value, Input loc ∧ event = .load loc value) id
      (fun value => ⟨.elems, value, trivial, rfl⟩) fun _ _ value =>
        ⟨⟨.vecs _, value, trivial, rfl⟩, .vecs _, value, trivial, rfl⟩
  obtain ⟨later, evaluated, -⟩ := evaluated.relabel Field.shm (Empty.elim : Empty → Note)
    (fun _ _ => Field.shm.inj) (published nodesWorker input) fun _ => rfl
  refine (Triple.of_eval evaluated (addPart_undisturbed loads)).conseq
    (fun config opened => ⟨opened, opened.agree⟩) ?_
  rintro result config ⟨rfl, opened, -⟩
  exact ⟨sameSum, opened⟩

/-- The sum of the worker is stored. -/
def Stored (nodesWorker : UInt64) (input : Psort.Input) (id : Nat) (config : Cfg) : Prop :=
  Open nodesWorker input config ∧ config.mem (.shm (.result id)) = workerSum nodesWorker input id

/-- Its flag is set too. -/
def Flagged (nodesWorker : UInt64) (input : Psort.Input) (id : Nat) (config : Cfg) : Prop :=
  Stored nodesWorker input id config ∧ config.mem (.shm (.done id)) ≠ 0

/-- The other nodes leave the fields of a worker alone. -/
theorem own_kept {id : Nat} {other : Party} {config : Cfg} {event : Effect Field UInt64 Note}
    (different : other ≠ .worker id) (opened : Open nodesWorker input config)
    (kept : mainMay nodesWorker input other config event) {loc : Loc}
    (own : loc = .result id ∨ loc = .done id) :
    event.apply config.mem (.shm loc) = config.mem (.shm loc) := by
  cases event with
  | load => rfl
  | note => rfl
  | store stored value =>
      cases other with
      | manager => exact absurd opened.ready kept.1
      | worker worker =>
          have notOwn : id ≠ worker := by
            rintro rfl
            exact different rfl
          rcases own with rfl | rfl
          · exact worker_store kept (by simpa using notOwn) (by simp)
          · exact worker_store kept (by simp) (by simpa using notOwn)

theorem stored_stable (id : Nat) :
    Stable (mainMay nodesWorker input) (.worker id) (Stored nodesWorker input id) := by
  rintro config other event different ⟨opened, sum⟩ kept
  exact ⟨open_kept opened kept, (own_kept different opened kept (.inl rfl)).trans sum⟩

theorem flagged_stable (id : Nat) :
    Stable (mainMay nodesWorker input) (.worker id) (Flagged nodesWorker input id) := by
  rintro config other event different ⟨stored, set⟩ kept
  refine ⟨stored_stable id config other event different stored kept, ?_⟩
  rw [Snapshot.record_mem, own_kept different stored.1 kept (.inr rfl)]
  exact set

/-- `mult_worker` after its sum. -/
def finish (nodesWorker : UInt64) (id : Nat) (sum : UInt64) : Main Unit := do
  write (.shm (.result id)) sum
  write (.shm (.done id)) 0xffffffffffffffff
  (List.range nodesWorker.toNat).forM fun i => discard (read (.shm (.done i)))

theorem multWorker_eq (nodesWorker : UInt64) (id : Nat) :
    ofShm (multWorker nodesWorker id) = (do
      ofShm awaitReady
      let sum ← ofShm (addPart nodesWorker id)
      finish nodesWorker id sum) := by
  simp only [ofShm, multWorker, multPart, finish, LawfulMonad.bind_assoc, relabel_bind,
    relabel_write, relabel_forM, relabel_discard, relabel_read]

/-- A worker stores its sum, then its flag. -/
theorem finish_keeps (id : Nat) (sum : UInt64) :
    Triple (mainMay nodesWorker input) (.worker id)
      (fun config => sum = workerSum nodesWorker input id ∧ Open nodesWorker input config)
      (finish nodesWorker id sum) fun _ => Flagged nodesWorker input id := by
  have flagged := @flagged_stable nodesWorker input id
  have store : Triple (mainMay nodesWorker input) (.worker id)
      (fun config => sum = workerSum nodesWorker input id ∧ Open nodesWorker input config)
      (write (.shm (.result id)) sum) fun _ => Stored nodesWorker input id := by
    refine Triple.write (fun config other event different holds kept =>
        ⟨holds.1, open_kept holds.2 kept⟩) (fun config holds => ?_) (stored_stable id)
      fun config holds => ?_
    · exact ⟨holds.2.ready, .inl ⟨rfl, holds.1⟩⟩
    · refine ⟨open_kept holds.2 ⟨holds.2.ready, .inl ⟨rfl, holds.1⟩⟩, ?_⟩
      rw [Snapshot.record_mem, Effect.apply_store, Function.update_self]
      exact holds.1
  have flag : Triple (mainMay nodesWorker input) (.worker id) (Stored nodesWorker input id)
      (write (.shm (.done id)) 0xffffffffffffffff) fun _ => Flagged nodesWorker input id := by
    have permitted : ∀ config, Stored nodesWorker input id config →
        mainMay nodesWorker input (.worker id) config (.store (.shm (.done id)) 0xffffffffffffffff) :=
      fun config stored => ⟨stored.1.ready, .inr ⟨rfl, stored.2⟩⟩
    refine Triple.write (stored_stable id) permitted flagged fun config stored => ?_
    refine ⟨⟨open_kept stored.1 (permitted config stored), ?_⟩, ?_⟩
    · rw [Snapshot.record_mem, Effect.apply_store, Function.update_of_ne (by simp)]
      exact stored.2
    · rw [Snapshot.record_mem, Effect.apply_store, Function.update_self]
      decide
  have look : ∀ i, Triple (mainMay nodesWorker input) (.worker id) (Flagged nodesWorker input id)
      (discard (read (.shm (.done i)))) fun _ => Flagged nodesWorker input id := by
    intro i
    have load : Triple (mainMay nodesWorker input) (.worker id) (Flagged nodesWorker input id)
        (read (.shm (.done i))) fun _ => Flagged nodesWorker input id :=
      Triple.read flagged (fun _ _ => trivial) (fun _ => flagged) fun config holds =>
        ⟨⟨open_kept holds.1.1 trivial, holds.1.2⟩, holds.2⟩
    exact load.bind fun _ => Triple.pure flagged fun _ holds => holds
  exact store.bind fun _ => flag.bind fun _ => Triple.forM flagged fun i _ => look i

theorem worker_keeps (id : Nat) :
    Triple (mainMay nodesWorker input) (.worker id) (Inv nodesWorker input)
      (ofShm (multWorker nodesWorker id)) fun _ => Flagged nodesWorker input id := by
  rw [multWorker_eq]
  exact (awaitReady_keeps id).bind fun _ => (addPart_keeps id).bind fun sum => finish_keeps id sum

/-! ### `main` of node 1 -/

/-- Filling happens as it does alone: before the signal nobody else stores. -/
theorem fillVectors_keeps :
    Triple (mainMay nodesWorker input) .manager
      (fun config => config.mem (.shm .ready) ≠ 1 ∧ Agree (fun _ => True) config.mem fun _ => 0)
      (ofFields (fillVectors nodesWorker input)) fun _ config =>
        config.mem (.shm .ready) ≠ 1 ∧
          Agree (fun _ => True) config.mem (filledMem nodesWorker input) := by
  obtain ⟨later, evaluated, sameLater⟩ := (fillVectors_eval nodesWorker input fun _ => 0).relabel id
    (Empty.elim : Empty → Note) Function.injective_id (fun _ => 0) fun _ => rfl
  obtain rfl : later = filledMem nodesWorker input := funext sameLater
  have undisturbed : Undisturbed (mainMay nodesWorker input) .manager (fun _ => True)
      (fun _ config => config.mem (.shm .ready) ≠ 1) (fun _ => 0)
      ((Effect.stores (fillStores nodesWorker input)).map (Effect.relabel id Empty.elim)) := by
    constructor
    case within => exact fun event _ => event.within_all
    case stable =>
      rintro _ memory config other event different ⟨unset, agree⟩ kept
      cases event with
      | load => exact ⟨unset, agree⟩
      | note => exact ⟨unset, agree⟩
      | store stored value =>
          cases other with
          | manager => exact absurd rfl different
          | worker worker => exact absurd kept.1 unset
    case own =>
      intro before event later config split unset _ _
      obtain ⟨inner, listed, rfl⟩ : ∃ inner ∈ Effect.stores (fillStores nodesWorker input),
          Effect.relabel id Empty.elim inner = event := by
        apply List.mem_map.mp
        rw [split]
        simp
      obtain ⟨entry, member, rfl⟩ := Effect.mem_stores.mp listed
      have still : Function.update config.mem entry.1 entry.2 (.shm .ready) ≠ 1 := by
        by_cases atReady : entry.1 = .shm .ready
        · rw [fillStores_ready member atReady, atReady, Function.update_self]
          decide
        · rwa [Function.update_of_ne (Ne.symm atReady)]
      exact ⟨⟨unset, .inl still⟩, still⟩
  exact (Triple.of_eval evaluated undisturbed).conseq (fun _ holds => holds) fun _ _ holds => holds.2

/-- Loading publishes the memory. -/
theorem loadVectors_keeps :
    Triple (mainMay nodesWorker input) .manager
      (fun config => config.mem (.shm .ready) ≠ 1 ∧ Agree (fun _ => True) config.mem fun _ => 0)
      (ofFields (loadVectors nodesWorker input)) fun _ => Open nodesWorker input := by
  have publishes : ∀ config : Cfg, config.mem (.shm .ready) ≠ 1 ∧
      Agree (fun _ => True) config.mem (filledMem nodesWorker input) →
      Function.update config.mem (.shm .ready) 1 = published nodesWorker input := by
    rintro config ⟨-, agree⟩
    rw [published_eq, funext fun loc => agree loc trivial]
  have signal : Triple (mainMay nodesWorker input) .manager
      (fun config => config.mem (.shm .ready) ≠ 1 ∧
        Agree (fun _ => True) config.mem (filledMem nodesWorker input))
      (write (.shm .ready) 1) fun _ => Open nodesWorker input := by
    refine Triple.write ?_ (fun config holds => ⟨holds.1, .inr (publishes config holds)⟩)
      (open_stable _) fun config holds => open_published _ (publishes config holds)
    rintro config other event different ⟨unset, agree⟩ kept
    cases event with
    | load => exact ⟨unset, agree⟩
    | note => exact ⟨unset, agree⟩
    | store stored value =>
        cases other with
        | manager => exact absurd rfl different
        | worker worker => exact absurd kept.1 unset
  rw [ofFields, loadVectors, relabel_bind]
  exact fillVectors_keeps.bind fun _ => signal

/-- The first workers have stored their sums. -/
def Known (nodesWorker : UInt64) (input : Psort.Input) (count : Nat) (config : Cfg) : Prop :=
  Open nodesWorker input config ∧
    ∀ id < count, config.mem (.shm (.result id)) = workerSum nodesWorker input id

/-- A sum that is stored stays. -/
theorem sum_kept {id : Nat} {party : Party} {config : Cfg} {event : Effect Field UInt64 Note}
    (opened : Open nodesWorker input config)
    (sum : config.mem (.shm (.result id)) = workerSum nodesWorker input id)
    (kept : mainMay nodesWorker input party config event) :
    (config.record party event).mem (.shm (.result id)) = workerSum nodesWorker input id := by
  by_cases own : party = .worker id
  · subst own
    cases event with
    | load => exact sum
    | note => exact sum
    | store stored value =>
        rw [Snapshot.record_mem, Effect.apply_store]
        rcases kept.2 with ⟨rfl, rfl⟩ | ⟨rfl, -⟩
        · rw [Function.update_self]
        · rwa [Function.update_of_ne (by simp)]
  · exact (own_kept own opened kept (.inl rfl)).trans sum

theorem known_kept {count : Nat} {party : Party} {config : Cfg} {event : Effect Field UInt64 Note}
    (known : Known nodesWorker input count config)
    (kept : mainMay nodesWorker input party config event) :
    Known nodesWorker input count (config.record party event) :=
  ⟨open_kept known.1 kept, fun id below => sum_kept known.1 (known.2 id below) kept⟩

theorem known_stable (count : Nat) :
    Stable (mainMay nodesWorker input) .manager (Known nodesWorker input count) :=
  fun _ _ _ _ known kept => known_kept known kept

/-- A flag that is not zero has its sum. -/
theorem readFlag_keeps (count : Nat) (allDone : Bool) :
    Triple (mainMay nodesWorker input) .manager
      (fun config => Open nodesWorker input config ∧
        (allDone = true → Known nodesWorker input count config))
      (read (.shm (.done count))) fun flag config => Open nodesWorker input config ∧
        ((flag ≠ 0 ∧ allDone = true) → Known nodesWorker input (count + 1) config) := by
  refine Triple.read (fun config other event _ holds kept =>
      ⟨open_kept holds.1 kept, fun all => known_kept (holds.2 all) kept⟩) (fun _ _ => trivial)
    (fun flag config other event _ holds kept =>
      ⟨open_kept holds.1 kept, fun set => known_kept (holds.2 set) kept⟩) fun config holds => ?_
  refine ⟨open_kept holds.1 trivial, ?_⟩
  rintro ⟨set, all⟩
  refine ⟨open_kept holds.1 trivial, fun id below => ?_⟩
  rcases Nat.lt_succ_iff_lt_or_eq.mp below with earlier | rfl
  · exact (holds.2 all).2 id earlier
  · exact holds.1.sums id set

/-- The test over the workers succeeds only when all have stored their sums. -/
theorem checkWorkers_keeps :
    Triple (mainMay nodesWorker input) .manager (Open nodesWorker input)
      (ofShm (checkWorkers nodesWorker)) fun allDone config => Open nodesWorker input config ∧
        (allDone = true → Known nodesWorker input nodesWorker.toNat config) := by
  have shape : ofShm (checkWorkers nodesWorker) = (List.range nodesWorker.toNat).foldlM
      (fun allDone i => (do
        if (← read (.shm (.done i))) = 0 then return false else return allDone : Main Bool)) true := by
    rw [ofShm, checkWorkers, relabel_foldlM]
    congr 1
    funext allDone i
    rw [relabel_bind, relabel_read]
    congr 1
    funext flag
    split <;> rfl
  rw [shape]
  refine Triple.conseq (Triple.foldlM (fun count allDone config => Open nodesWorker input config ∧
    (allDone = true → Known nodesWorker input count config)) ?_ ?_ true)
    (fun config opened => ⟨opened, fun _ => ⟨opened, nofun⟩⟩) fun _ _ holds => ?_
  · exact fun count allDone config other event _ holds kept =>
      ⟨open_kept holds.1 kept, fun all => known_kept (holds.2 all) kept⟩
  · intro count inside allDone
    rw [List.getElem_range]
    refine (readFlag_keeps count allDone).bind fun flag => ?_
    by_cases unset : flag = 0
    · rw [if_pos unset]
      refine Triple.pure ?_ fun config holds => ⟨holds.1, nofun⟩
      exact fun config other event _ holds kept =>
        ⟨open_kept holds.1 kept, fun set => absurd unset set.1⟩
    · rw [if_neg unset]
      refine Triple.pure ?_ fun config holds => ⟨holds.1, fun all => holds.2 ⟨unset, all⟩⟩
      exact fun config other event _ holds kept =>
        ⟨open_kept holds.1 kept, fun set => known_kept (holds.2 set) kept⟩
  · rwa [List.length_range] at holds

/-- The waiting ends only when all workers have stored their sums. -/
theorem waitForWorkers_keeps :
    Triple (mainMay nodesWorker input) .manager (Open nodesWorker input)
      (ofShm (waitForWorkers nodesWorker)) fun _ =>
        Known nodesWorker input nodesWorker.toNat := by
  rw [ofShm, waitForWorkers, relabel_iterate]
  refine Triple.iterate (fun _ => Open nodesWorker input) (fun _ => known_stable _) (fun _ => ?_) ()
  rw [relabel_bind]
  refine checkWorkers_keeps.bind fun allDone => ?_
  have stable : Stable (mainMay nodesWorker input) .manager fun config =>
      Open nodesWorker input config ∧
        (allDone = true → Known nodesWorker input nodesWorker.toNat config) :=
    fun config other event _ holds kept =>
      ⟨open_kept holds.1 kept, fun all => known_kept (holds.2 all) kept⟩
  cases allDone with
  | true => exact Triple.pure stable fun config holds => holds.2 rfl
  | false => exact Triple.pure stable fun config holds => holds.1

variable (nodesWorker input) in
/-- What all workers have added up. -/
def total : UInt64 := ((List.range nodesWorker.toNat).map (workerSum nodesWorker input)).sum

/-- The sums of the workers are added up. -/
theorem mergeWorker_keeps :
    Triple (mainMay nodesWorker input) .manager (Known nodesWorker input nodesWorker.toNat)
      (ofShm (mergeWorker nodesWorker)) fun result config =>
        result = total nodesWorker input ∧ Known nodesWorker input nodesWorker.toNat config := by
  have known := @known_stable nodesWorker input nodesWorker.toNat
  have look : ∀ i, i < nodesWorker.toNat → Triple (mainMay nodesWorker input) .manager
      (Known nodesWorker input nodesWorker.toNat) (read (.shm (.result i))) fun value config =>
        value = workerSum nodesWorker input i ∧
          Known nodesWorker input nodesWorker.toNat config := by
    intro i valid
    refine Triple.read known (fun _ _ => trivial) (fun value config other event _ holds kept =>
      ⟨holds.1, known_kept holds.2 kept⟩) fun config holds => ?_
    exact ⟨holds.2 i valid, known_kept holds trivial⟩
  have twice : ∀ i, i < nodesWorker.toNat → ∀ result : UInt64,
      Triple (mainMay nodesWorker input) .manager (Known nodesWorker input nodesWorker.toNat)
        (do
          let _ ← read (.shm (.result i))
          let partialResult ← read (.shm (.result i))
          return result + partialResult)
        fun sum config => sum = result + workerSum nodesWorker input i ∧
          Known nodesWorker input nodesWorker.toNat config := by
    intro i valid result
    refine (look i valid).bind fun _ =>
      ((look i valid).conseq (fun _ holds => holds.2) fun _ _ holds => holds).bind fun value =>
        Triple.pure ?_ fun config holds => ⟨by rw [holds.1], holds.2⟩
    exact fun config other event _ holds kept => ⟨holds.1, known_kept holds.2 kept⟩
  have shape : ofShm (mergeWorker nodesWorker) = (List.range nodesWorker.toNat).foldlM
      (fun result i => (do
        let _ ← read (.shm (.result i))
        let partialResult ← read (.shm (.result i))
        return result + partialResult : Main UInt64)) 0 := by
    rw [ofShm, mergeWorker, relabel_foldlM]
    rfl
  rw [shape]
  refine Triple.conseq (Triple.foldlM (fun count result config =>
    result = ((List.range count).map (workerSum nodesWorker input)).sum ∧
      Known nodesWorker input nodesWorker.toNat config) ?_ ?_ 0)
    (fun config holds => ⟨rfl, holds⟩) fun _ _ holds => ?_
  · exact fun count result config other event _ holds kept => ⟨holds.1, known_kept holds.2 kept⟩
  · intro count inside result fuel config holds
    rw [List.getElem_range]
    have valid : count < nodesWorker.toNat := by simpa using inside
    refine (twice count valid result fuel config holds.2).mono ?_
    rintro _ config ⟨rfl, known⟩
    refine ⟨?_, known⟩
    rw [List.range_succ, List.map_append, List.sum_append, holds.1]
    simp
  · rwa [List.length_range] at holds

/-- `main` of node 1 prints what all workers have added up. -/
theorem manager_keeps :
    Triple (mainMay nodesWorker input) .manager
      (fun config => (config.mem (.shm .ready) ≠ 1 ∧ Agree (fun _ => True) config.mem fun _ => 0) ∧
        Printed .manager [] config)
      (manager nodesWorker input)
      fun _ => Printed .manager [.dotProduct (total nodesWorker input)] := by
  have emits : ∀ result, Triple (mainMay nodesWorker input) .manager
      (fun config => (result = total nodesWorker input ∧
        Known nodesWorker input nodesWorker.toNat config) ∧ Printed .manager [] config)
      (emit (.dotProduct result))
      fun _ => Printed .manager [.dotProduct (total nodesWorker input)] := by
    rintro result fuel config ⟨⟨rfl, known⟩, printed⟩
    have emits : Triple (mainMay nodesWorker input) .manager
        (Known nodesWorker input nodesWorker.toNat) (emit (.dotProduct (total nodesWorker input)))
        fun _ => Known nodesWorker input nodesWorker.toNat :=
      Triple.emit (known_stable _) (fun _ _ => trivial) (known_stable _) fun _ known =>
        ⟨@open_kept nodesWorker input .manager _ _ known.1 trivial, known.2⟩
    exact (emits.emit_printed [] fuel config ⟨known, printed⟩).mono fun _ _ holds => holds.2
  exact (loadVectors_keeps.silent (relabel_silent _ _) []).bind fun _ =>
    (waitForWorkers_keeps.silent (relabel_silent _ _) []).bind fun _ =>
      (mergeWorker_keeps.silent (relabel_silent _ _) []).bind fun result => emits result

end Nodes

end LibIvy.Workloads.Pdot
