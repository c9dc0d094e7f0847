import LibIvy.Workloads.Handshake
import LibIvy.Workloads.MergeWorker
import LibIvy.Workloads.PopulateShm

/-!
Contract: the manager of psort among its workers.

Owns: the invariant of the shared memory and the log that all nodes keep, the
memory at the call of `merge_worker`, and that the manager keeps to its
guarantee.

Does not own: consequences for the order of events.
-/

namespace LibIvy.Workloads.Psort

open LibIvy.Lib Program Guarantee

/-- The manager has called `merge_worker`. -/
def Called (config : Cfg) : Prop := (.manager, .note .callMergeWorker) ∈ config.log

/-- What holds of the memory and the log in every configuration. -/
structure Inv (nodes : Nat) (published : Mem) (stores : List (Effect Loc UInt64 Note))
    (config : Cfg) : Prop where
  framed : Framed nodes published config
  stored : config.mem .ready ≠ 0 → ∀ event ∈ stores, (.manager, event) ∈ config.log
  signalled : ∀ id < nodes, Completed id config → Signalled nodes published id config
  pending : ∀ id < nodes, ¬ Completed id config → config.mem .ready ≠ 0 → config.mem (.done id) = 0
  called : Called config → ∀ id < nodes, Completed id config

section Invariant

variable {nodes : Nat} {published : Mem} {stores : List (Effect Loc UInt64 Note)}
variable {party : Party} {config : Cfg} {event : Effect Loc UInt64 Note}

theorem Completed.record {id : Nat} (completed : Completed id config) :
    Completed id (config.record party event) :=
  List.mem_append_left _ completed

theorem stored_kept (inv : Inv nodes published stores config)
    (kept : mayDo nodes published stores party config event)
    (ready : (config.record party event).mem .ready ≠ 0) :
    ∀ event' ∈ stores, (.manager, event') ∈ (config.record party event).log := by
  intro other member
  refine List.mem_append_left _ ?_
  by_cases before : config.mem .ready = 0
  · cases event with
    | load => exact absurd before ready
    | note => exact absurd before ready
    | store stored value =>
        cases party with
        | manager => exact (kept.2.resolve_left ready).2 other member
        | worker => exact absurd before kept.2.1
  · exact inv.stored before other member

theorem signalled_kept (inv : Inv nodes published stores config)
    (kept : mayDo nodes published stores party config event) {id : Nat} (valid : id < nodes)
    (completed : Completed id (config.record party event)) :
    Signalled nodes published id (config.record party event) := by
  by_cases own : party = .worker id
  · subst own
    cases event with
    | load =>
        exact ⟨completed, (inv.signalled id valid ((completed_record (by simp)).mp completed)).2⟩
    | note =>
        exact ⟨completed, (inv.signalled id valid ((completed_record (by simp)).mp completed)).2⟩
    | store stored value =>
        obtain ⟨-, ready, incomplete, target⟩ := kept
        rcases target with ⟨offset, -, rfl⟩ | ⟨rfl, rfl, agree⟩
        · exact absurd ((completed_record (by simp)).mp completed) incomplete
        · refine ⟨completed, by simpa using ready, by simp, ?_⟩
          rintro loc ⟨offset, below, rfl⟩
          simpa using agree _ ⟨offset, below, rfl⟩
  · have before : Completed id config :=
      (completed_record fun same => own (Prod.mk.inj same).1).mp completed
    exact signalled_stable id config party event own (inv.signalled id valid before) kept

theorem pending_kept (unset : ∀ id, published (.done id) = 0)
    (inv : Inv nodes published stores config)
    (kept : mayDo nodes published stores party config event) {id : Nat} (valid : id < nodes)
    (incomplete : ¬ Completed id (config.record party event))
    (ready : (config.record party event).mem .ready ≠ 0) :
    (config.record party event).mem (.done id) = 0 := by
  have before : ¬ Completed id config := fun completed => incomplete completed.record
  by_cases own : party = .worker id
  · subst own
    cases event with
    | load => exact inv.pending id valid before ready
    | note => exact inv.pending id valid before ready
    | store stored value =>
        obtain ⟨-, readyBefore, -, target⟩ := kept
        rcases target with ⟨offset, -, rfl⟩ | ⟨rfl, rfl, -⟩
        · simpa using inv.pending id valid before readyBefore
        · exact absurd (List.mem_append_right _ (List.mem_singleton_self _)) incomplete
  · by_cases readyBefore : config.mem .ready = 0
    · cases event with
      | load => exact absurd readyBefore ready
      | note => exact absurd readyBefore ready
      | store stored value =>
          cases party with
          | manager => exact (congrFun (kept.2.resolve_left ready).1 _).trans (unset id)
          | worker => exact absurd readyBefore kept.2.1
    · rw [Snapshot.record_mem, mem_kept own readyBefore kept (show Touched published id (.done id) from rfl)]
      exact inv.pending id valid before readyBefore

theorem called_kept (inv : Inv nodes published stores config)
    (kept : mayDo nodes published stores party config event)
    (called : Called (config.record party event)) :
    ∀ id < nodes, Completed id (config.record party event) := by
  intro id valid
  rcases List.mem_append.mp called with before | now
  · exact (inv.called before id valid).record
  · obtain ⟨rfl, rfl⟩ := Prod.mk.inj (List.mem_singleton.mp now)
    exact Completed.record (kept.2 id valid)

/-- Every node keeps the invariant. -/
theorem inv_kept (unset : ∀ id, published (.done id) = 0) (inv : Inv nodes published stores config)
    (kept : mayDo nodes published stores party config event) :
    Inv nodes published stores (config.record party event) where
  framed := framed_kept party config event inv.framed kept
  stored := stored_kept inv kept
  signalled _ valid completed := signalled_kept inv kept valid completed
  pending _ valid incomplete ready := pending_kept unset inv kept valid incomplete ready
  called := called_kept inv kept

end Invariant

/-! ### The memory that `merge_worker` finds -/

/-- The parts are sorted and every flag is set. -/
def mergeMem (nodes : Nat) (published : Mem) : Mem
  | .done id => if id < nodes then 1 else published (.done id)
  | loc => settled nodes published loc

/-- Every element before the end of the last part is in a part. -/
theorem exists_inPart {nodes index : Nat} {published : Mem}
    (below : index < nodes * share published) :
    ∃ id < nodes, InPart published id (.data index) := by
  have positive : 0 < share published := by
    refine Nat.pos_of_ne_zero fun zero => ?_
    rw [zero, Nat.mul_zero] at below
    omega
  refine ⟨index / share published, (Nat.div_lt_iff_lt_mul positive).mpr below,
    index % share published, Nat.mod_lt _ positive, ?_⟩
  rw [Nat.div_add_mod]

/-- Once all workers have signalled, the memory is determined. -/
theorem Inv.mem_eq {nodes : Nat} {published : Mem} {stores : List (Effect Loc UInt64 Note)}
    {config : Cfg} (inv : Inv nodes published stores config) (ready : config.mem .ready ≠ 0)
    (all : ∀ id < nodes, Completed id config) : config.mem = mergeMem nodes published := by
  have framed := inv.framed.resolve_left ready
  have signalled := fun id valid => inv.signalled id valid (all id valid)
  funext loc
  cases loc with
  | data index =>
      by_cases inPart : ∃ id < nodes, InPart published id (.data index)
      · obtain ⟨id, valid, inside⟩ := inPart
        exact (signalled id valid).2.2.2 _ inside
      · have beyond : ¬ index < nodes * share published := fun below => inPart (exists_inPart below)
        have same : mergeMem nodes published (.data index) = published (.data index) :=
          if_neg beyond
        rw [same]
        exact framed _ fun id valid => ⟨fun inside => inPart ⟨id, valid, inside⟩, by simp⟩
  | done id =>
      by_cases valid : id < nodes
      · rw [mergeMem, if_pos valid]
        exact (signalled id valid).2.2.1
      · rw [mergeMem, if_neg valid]
        refine framed _ fun other below =>
          ⟨fun ⟨_, _, same⟩ => Loc.noConfusion same, fun same => ?_⟩
        exact valid (Loc.done.inj same ▸ below)
  | canary => exact framed _ (fixed_header (by simp) (by simp))
  | elems => exact framed _ (fixed_header (by simp) (by simp))
  | ready => exact framed _ (fixed_header (by simp) (by simp))
  | nodes => exact framed _ (fixed_header (by simp) (by simp))

/-! ### The manager's program -/

section Manager

variable (nodesWorker : UInt64) (input : Input)

/-- The guarantee of psort on its input. -/
def psortMay : Guarantee Party Loc UInt64 Note :=
  mayDo nodesWorker.toNat (publishedMem nodesWorker input) (fillStores nodesWorker input)

/-- The invariant of psort on its input. -/
def PsortInv : Cfg → Prop :=
  Inv nodesWorker.toNat (publishedMem nodesWorker input) (fillStores nodesWorker input)

/-- The memory is published. -/
def Open (config : Cfg) : Prop := PsortInv nodesWorker input config ∧ config.mem .ready ≠ 0

/-- These workers have signalled. -/
def OpenWith (known : List Nat) (config : Cfg) : Prop :=
  Open nodesWorker input config ∧ ∀ id ∈ known, Completed id config

variable {nodesWorker input}

theorem psortInv_kept {party : Party} {config : Cfg} {event : Effect Loc UInt64 Note}
    (inv : PsortInv nodesWorker input config)
    (kept : psortMay nodesWorker input party config event) :
    PsortInv nodesWorker input (config.record party event) :=
  inv_kept (fun _ => rfl) inv kept

theorem openWith_kept {known : List Nat} {party : Party} {config : Cfg}
    {event : Effect Loc UInt64 Note}
    (opened : OpenWith nodesWorker input known config)
    (kept : psortMay nodesWorker input party config event) :
    OpenWith nodesWorker input known (config.record party event) :=
  ⟨⟨psortInv_kept opened.1.1 kept, ready_kept kept opened.1.2⟩,
    fun id member => (opened.2 id member).record⟩

theorem openWith_stable (known : List Nat) :
    Stable (psortMay nodesWorker input) .manager (OpenWith nodesWorker input known) :=
  fun _ _ _ _ opened kept => openWith_kept opened kept

/-- The manager may load anything at any time. -/
theorem read_keeps (known : List Nat) (loc : Loc) :
    Triple (psortMay nodesWorker input) .manager (OpenWith nodesWorker input known) (read loc)
      fun _ => OpenWith nodesWorker input known :=
  Triple.read (openWith_stable known) (fun _ _ => rfl) (fun _ => openWith_stable known)
    fun config opened =>
      openWith_kept opened (show psortMay nodesWorker input .manager config _ from rfl)

theorem discard_keeps (known : List Nat) (loc : Loc) :
    Triple (psortMay nodesWorker input) .manager (OpenWith nodesWorker input known)
      (discard (read loc)) fun _ => OpenWith nodesWorker input known :=
  (read_keeps known loc).bind fun _ => Triple.pure (openWith_stable known) fun _ opened => opened

/-- A flag that reads 1 has been set by its worker. -/
theorem readFlag_keeps (known : List Nat) {id : Nat} (valid : id < nodesWorker.toNat) :
    Triple (psortMay nodesWorker input) .manager (OpenWith nodesWorker input known)
      (read (.done id))
      fun flag config =>
        OpenWith nodesWorker input known config ∧ (flag = 1 → Completed id config) := by
  refine Triple.read (openWith_stable known) (fun _ _ => rfl) (fun flag => ?_)
    fun config opened => ?_
  · exact (openWith_stable known).and fun _ _ _ _ set _ isSet => (set isSet).record
  · refine ⟨openWith_kept opened (show psortMay nodesWorker input .manager config _ from rfl),
      fun isSet => Completed.record ?_⟩
    by_contra incomplete
    have unset := opened.1.1.pending id valid incomplete opened.1.2
    rw [unset] at isSet
    exact absurd isSet (by decide)

/-- The test over the workers succeeds only when all of them have signalled. -/
theorem checkWorkers_keeps (known : List Nat) {parts : List Nat}
    (valid : ∀ id ∈ parts, id < nodesWorker.toNat) :
    Triple (psortMay nodesWorker input) .manager (OpenWith nodesWorker input known)
      (checkWorkers parts) fun finished =>
        if finished then OpenWith nodesWorker input (known ++ parts)
        else OpenWith nodesWorker input known := by
  induction parts generalizing known with
  | nil =>
      rw [List.append_nil]
      exact Triple.pure (openWith_stable known) fun _ opened => opened
  | cons id parts inductionHypothesis =>
      unfold checkWorkers
      refine (read_keeps known _).bind fun _ => ?_
      refine (readFlag_keeps known (valid id (by simp))).bind fun flag => ?_
      by_cases set : flag = 1
      · rw [if_neg (not_not.mpr set)]
        refine (inductionHypothesis (known ++ [id]) fun other member =>
          valid other (List.mem_cons_of_mem _ member)).conseq ?_ ?_
        · rintro config ⟨opened, completed⟩
          refine ⟨opened.1, fun other member => ?_⟩
          rcases List.mem_append.mp member with before | here
          · exact opened.2 other before
          · rw [List.mem_singleton.mp here]
            exact completed set
        · intro finished config opened
          cases finished with
          | true => simpa using opened
          | false =>
              exact ⟨opened.1, fun other member => opened.2 other (List.mem_append_left _ member)⟩
      · rw [if_pos set]
        exact Triple.pure
          ((openWith_stable known).and fun _ _ _ _ holds _ isSet => absurd isSet set)
          fun config opened => opened.1

/-- The waiting ends only when all workers have signalled. -/
theorem waitForWorkers_keeps :
    Triple (psortMay nodesWorker input) .manager (OpenWith nodesWorker input [])
      (waitForWorkers nodesWorker)
      fun _ => OpenWith nodesWorker input (List.range nodesWorker.toNat) := by
  refine Triple.iterate (fun _ => OpenWith nodesWorker input []) (fun _ => openWith_stable _)
    (fun _ => ?_) ()
  have check : Triple (psortMay nodesWorker input) .manager (OpenWith nodesWorker input [])
      assertValid fun _ => OpenWith nodesWorker input [] :=
    Triple.forM (openWith_stable []) fun index _ => discard_keeps [] (.canary index)
  refine check.bind fun _ => ?_
  refine (checkWorkers_keeps [] fun id => List.mem_range.mp).bind fun finished => ?_
  cases finished with
  | true => exact Triple.pure (openWith_stable _) fun _ opened => opened
  | false => exact Triple.pure (openWith_stable _) fun _ opened => opened

/-- Before the signal: nothing is published and these stores are logged. -/
def Filling (nodesWorker : UInt64) (input : Input) (performed : List (Effect Loc UInt64 Note))
    (config : Cfg) : Prop :=
  (PsortInv nodesWorker input config ∧ config.mem .ready = 0) ∧
    ∀ event ∈ performed, (.manager, event) ∈ config.log

/-- Before the signal no worker stores anything. -/
theorem mem_unpublished {config : Cfg} {party : Party} {event : Effect Loc UInt64 Note}
    (different : party ≠ .manager) (unset : config.mem .ready = 0)
    (kept : psortMay nodesWorker input party config event) :
    event.apply config.mem = config.mem := by
  cases event with
  | load => rfl
  | note => rfl
  | store stored value =>
      cases party with
      | manager => exact absurd rfl different
      | worker => exact absurd unset kept.2.1

theorem filling_stable (performed : List (Effect Loc UInt64 Note)) (memory : Mem) :
    Stable (psortMay nodesWorker input) .manager fun config =>
      Filling nodesWorker input performed config ∧ Agree (fun _ => True) config.mem memory := by
  rintro config other event different ⟨⟨⟨inv, unset⟩, logged⟩, agree⟩ kept
  have same := mem_unpublished different unset kept
  refine ⟨⟨⟨psortInv_kept inv kept, ?_⟩, fun done member => List.mem_append_left _ (logged done member)⟩, ?_⟩
  · rw [Snapshot.record_mem, same]
    exact unset
  · rw [Snapshot.record_mem, same]
    exact agree

/-- Filling the shared memory happens as it does alone. -/
theorem fillShm_keeps :
    Triple (psortMay nodesWorker input) .manager
      (fun config => Filling nodesWorker input [] config ∧ Agree (fun _ => True) config.mem fun _ => 0)
      (fillShm nodesWorker input) fun _ config =>
        Filling nodesWorker input (fillStores nodesWorker input) config ∧
          Agree (fun _ => True) config.mem (filledMem nodesWorker input) := by
  have undisturbed : Undisturbed (psortMay nodesWorker input) .manager (fun _ => True)
      (Filling nodesWorker input) (fun _ => 0) (fillStores nodesWorker input) := by
    refine ⟨fun event _ => event.within_all, filling_stable, ?_⟩
    rintro before event later config split ⟨⟨inv, unset⟩, logged⟩ - -
    have member : event ∈ fillStores nodesWorker input := by
      rw [split]
      simp
    obtain ⟨⟨loc, value⟩, -, rfl⟩ := Effect.mem_stores.mp member
    have unsetAfter := fillStores_unset member unset
    have permitted : psortMay nodesWorker input .manager config (.store loc value) :=
      ⟨unset, .inl unsetAfter⟩
    refine ⟨permitted, ⟨psortInv_kept inv permitted, unsetAfter⟩, fun performed inBefore => ?_⟩
    rcases List.mem_append.mp inBefore with earlier | now
    · exact List.mem_append_left _ (logged performed earlier)
    · rw [List.mem_singleton.mp now]
      exact List.mem_append_right _ (List.mem_singleton_self _)
  exact (Triple.of_eval (fillShm_eval nodesWorker input) undisturbed).conseq
    (fun _ holds => holds) fun _ _ holds => holds.2

/-- The signal publishes the memory. -/
theorem signal_keeps :
    Triple (psortMay nodesWorker input) .manager
      (fun config => Filling nodesWorker input (fillStores nodesWorker input) config ∧
        Agree (fun _ => True) config.mem (filledMem nodesWorker input))
      (write .ready 1) fun _ => OpenWith nodesWorker input [] := by
  have permitted : ∀ config, Filling nodesWorker input (fillStores nodesWorker input) config ∧
      Agree (fun _ => True) config.mem (filledMem nodesWorker input) →
      psortMay nodesWorker input .manager config (.store .ready 1) := by
    rintro config ⟨⟨⟨-, unset⟩, logged⟩, agree⟩
    have same : config.mem = filledMem nodesWorker input := funext fun loc => agree loc trivial
    refine ⟨unset, .inr ⟨?_, logged⟩⟩
    rw [same]
    exact filledMem_signal
  refine Triple.write (filling_stable _ _) permitted (openWith_stable []) fun config holds => ?_
  exact ⟨⟨psortInv_kept holds.1.1.1 (permitted config holds), by simp⟩, by simp⟩

/-- The call of `merge_worker`, after which no worker stores anything. -/
def Merging (nodesWorker : UInt64) (input : Input) (config : Cfg) : Prop :=
  Open nodesWorker input config ∧ Called config

theorem Merging.mem_eq {config : Cfg} (merging : Merging nodesWorker input config) :
    config.mem = mergeMem nodesWorker.toNat (publishedMem nodesWorker input) :=
  merging.1.1.mem_eq merging.1.2 (merging.1.1.called merging.2)

theorem merging_kept {party : Party} {config : Cfg} {event : Effect Loc UInt64 Note}
    (merging : Merging nodesWorker input config)
    (kept : psortMay nodesWorker input party config event) :
    Merging nodesWorker input (config.record party event) :=
  ⟨⟨psortInv_kept merging.1.1 kept, ready_kept kept merging.1.2⟩, List.mem_append_left _ merging.2⟩

theorem merging_stable (memory : Mem) :
    Stable (psortMay nodesWorker input) .manager fun config =>
      Merging nodesWorker input config ∧ Agree (fun _ => True) config.mem memory := by
  rintro config other event different ⟨merging, agree⟩ kept
  refine ⟨merging_kept merging kept, ?_⟩
  rw [(merging_kept merging kept).mem_eq, ← merging.mem_eq]
  exact agree

theorem mergeWorker_keeps :
    Triple (psortMay nodesWorker input) .manager (Merging nodesWorker input)
      (mergeWorker nodesWorker) fun _ _ => True := by
  obtain ⟨events, printed, evaluated, allowed, -, -, -⟩ := mergeWorker_eval nodesWorker
    (mergeMem nodesWorker.toNat (publishedMem nodesWorker input))
  have undisturbed : Undisturbed (psortMay nodesWorker input) .manager (fun _ => True)
      (fun _ => Merging nodesWorker input)
        (mergeMem nodesWorker.toNat (publishedMem nodesWorker input))
      events := by
    refine ⟨fun event _ => event.within_all, fun _ => merging_stable, ?_⟩
    intro before event later config split merging _ truthful
    have permitted : psortMay nodesWorker input .manager config event := by
      have event_ok := allowed event (by rw [split]; simp)
      cases event with
      | load loc value => exact truthful loc value rfl
      | store => exact event_ok.elim
      | note => exact ⟨merging.1.2, merging.1.1.called merging.2⟩
    exact ⟨permitted, merging_kept merging permitted⟩
  exact (Triple.of_eval evaluated undisturbed).conseq
    (fun config merging => ⟨merging, fun loc _ => congrFun merging.mem_eq loc⟩) fun _ _ _ => trivial

/-- The shared memory is filled, published and dumped. -/
theorem populateShm_keeps :
    Triple (psortMay nodesWorker input) .manager
      (fun config => Filling nodesWorker input [] config ∧ Agree (fun _ => True) config.mem fun _ => 0)
      (populateShm nodesWorker input) fun _ => OpenWith nodesWorker input [] := by
  have dump : Triple (psortMay nodesWorker input) .manager (OpenWith nodesWorker input [])
      (dumpShmPage nodesWorker) fun _ => OpenWith nodesWorker input [] :=
    Triple.forM (openWith_stable []) fun loc _ => discard_keeps [] loc
  exact fillShm_keeps.bind fun _ => signal_keeps.bind fun _ => dump

/-- `merge_worker` is called when all workers have signalled. -/
theorem callMergeWorker_keeps :
    Triple (psortMay nodesWorker input) .manager
      (OpenWith nodesWorker input (List.range nodesWorker.toNat)) (emit .callMergeWorker)
      fun _ => Merging nodesWorker input := by
  have permitted : ∀ config, OpenWith nodesWorker input (List.range nodesWorker.toNat) config →
      psortMay nodesWorker input .manager config (.note .callMergeWorker) :=
    fun config opened => ⟨opened.1.2, fun id valid => opened.2 id (List.mem_range.mpr valid)⟩
  refine Triple.emit (openWith_stable _) permitted
    (fun _ _ _ _ merging kept => merging_kept merging kept) fun config opened => ?_
  exact ⟨⟨psortInv_kept opened.1.1 (permitted config opened), opened.1.2⟩,
    List.mem_append_right _ (List.mem_singleton_self _)⟩

/-- The manager keeps to its guarantee from a zero-filled memory. -/
theorem manager_keeps :
    Triple (psortMay nodesWorker input) .manager
      (fun config => Filling nodesWorker input [] config ∧ Agree (fun _ => True) config.mem fun _ => 0)
      (manager nodesWorker input) fun _ _ => True :=
  populateShm_keeps.bind fun _ => waitForWorkers_keeps.bind fun _ =>
    callMergeWorker_keeps.bind fun _ => mergeWorker_keeps

end Manager

end LibIvy.Workloads.Psort
