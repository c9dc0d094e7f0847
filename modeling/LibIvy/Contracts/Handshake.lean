import LibIvy.Workloads.PsortManager

/-!
Contract: the handshake of psort orders its accesses in every interleaving.

Owns: that workers read only final values, that no flag of a worker is erased,
that the merge starts after the last store of every worker, that it finds the
same memory in every interleaving, and that no node takes an undefined step.

Does not own: what the merge prints, or that the nodes make progress.
-/

namespace LibIvy.Contracts.Handshake

open LibIvy.Lib TransitionSystem Guarantee LibIvy.Workloads LibIvy.Workloads.Psort

/-- The events of a run of psort. -/
abbrev Trace := List (Party × Effect Loc UInt64 Note)

/-- The manager stores to a location at no point of a trace. -/
def NoManagerStore (loc : Loc) (trace : Trace) : Prop :=
  ∀ value, (Party.manager, .store loc value) ∉ trace

/-- How the handshake orders the events of a run. `found` is the memory that
`merge_worker` reads. -/
structure Ordered (nodesWorker : UInt64) (input : Input) (found : Mem) (trace : Trace) : Prop where
  /-- A worker reads the element count after the manager's last store to it. -/
  elems : ∀ before id value after, trace = before ++ (.worker id, .load .elems value) :: after →
    (.manager, .store .elems input.elems) ∈ before ∧ value = input.elems ∧
    NoManagerStore .elems after
  /-- A worker reads the number of workers after the manager's last store to it. -/
  nodes : ∀ before id value after, trace = before ++ (.worker id, .load .nodes value) :: after →
    (.manager, .store .nodes nodesWorker) ∈ before ∧ value = nodesWorker ∧
    NoManagerStore .nodes after
  /-- A worker reads an element after the manager's last store to it: after the
  `memset`, and after the number of the input file is stored there. -/
  data : ∀ before id index value after,
    trace = before ++ (.worker id, .load (.data index) value) :: after →
    (.data index ∈ regionLocs nodesWorker (regionSz input.elems).toNat →
      (.manager, .store (.data index) 0) ∈ before) ∧
    (∀ number, input.numbers[index]? = some number →
      (.manager, .store (.data index) number.toInt64.toUInt64) ∈ before) ∧
    NoManagerStore (.data index) after
  /-- The manager never stores to a flag that a worker has set. -/
  flags : ∀ before id worker value after,
    trace = before ++ (.worker id, .store (.done worker) value) :: after →
    NoManagerStore (.done worker) after
  /-- `merge_worker` is called after the last store of every worker. -/
  merge : ∀ before after, trace = before ++ (.manager, .note .callMergeWorker) :: after →
    ∀ id < nodesWorker.toNat, (.worker id, .store (.done id) 1) ∈ before ∧
      ∀ loc value, (.worker id, .store loc value) ∉ after
  /-- `merge_worker` reads the same memory in every interleaving. -/
  reads : ∀ before after loc value,
    trace = before ++ (.manager, .note .callMergeWorker) :: after →
    (.manager, .load loc value) ∈ after → value = found loc

section

variable {nodesWorker : UInt64} {input : Input}

/-- Before the first step. -/
def start : Cfg := ⟨fun _ => 0, []⟩

theorem start_inv : PsortInv nodesWorker input start where
  framed := .inl rfl
  stored ready := absurd rfl ready
  signalled _ _ completed := absurd completed (by simp [Completed, start])
  pending _ _ _ _ := rfl
  called called := absurd called (by simp [Called, start])

/-- Every node keeps to its guarantee from the start. -/
theorem programs_keep (party : Party) (fuel : Nat) :
    Keeps (psortMay nodesWorker input) party (fun _ _ => True) fuel
      (programs nodesWorker input party)
      start := by
  cases party with
  | manager =>
      exact manager_keeps fuel start ⟨⟨⟨start_inv, rfl⟩, by simp⟩, fun _ _ => rfl⟩
  | worker id =>
      by_cases valid : id < nodesWorker.toNat
      · have nonzero : publishedMem nodesWorker input .nodes ≠ 0 := by
          intro zero
          have none : nodesWorker = 0 := zero
          subst none
          exact absurd valid (Nat.not_lt_zero id)
        rw [programs, if_pos valid]
        refine (sortWorker_keeps valid nonzero fuel start ?_).mono fun _ _ _ => trivial
        exact ⟨by simp [Completed, start], .inl rfl⟩
      · rw [programs, if_neg valid]
        exact Keeps.pure fun _ _ => trivial

/-- At every event of a run the invariant holds and the event is guaranteed, as
are those after it. -/
theorem run_split {trace before after : Trace} {state : Threads Party Loc UInt64 Note}
    {party : Party}
    {event : Effect Loc UInt64 Note} (run : Run (psort nodesWorker input) anyStep trace state)
    (split : trace = before ++ (party, event) :: after) :
    ∃ config : Cfg, config.log = before ∧ PsortInv nodesWorker input config ∧
      psortMay nodesWorker input party config event ∧
      Guaranteed (psortMay nodesWorker input) (config.record party event) after := by
  have guaranteed := (run_keeps programs_keep run).1
  rw [split, guaranteed_append] at guaranteed
  refine ⟨start.recordAll before, by simp [start], ?_, guaranteed.2⟩
  exact guaranteed.1.invariant start_inv fun _ _ _ => psortInv_kept

/-- Once published, the manager stores nothing. -/
theorem no_manager_store {config : Cfg} {after : Trace}
    (guaranteed : Guaranteed (psortMay nodesWorker input) config after)
    (ready : config.mem .ready ≠ 0)
    (loc : Loc) : NoManagerStore loc after := by
  intro value member
  obtain ⟨now, set, kept⟩ :=
    guaranteed.of_mem ready (fun _ _ _ set kept => ready_kept kept set) member
  exact set kept.1

/-- A worker stores nothing after its flag. -/
theorem no_worker_store {config : Cfg} {after : Trace} {id : Nat}
    (guaranteed : Guaranteed (psortMay nodesWorker input) config after)
    (completed : Completed id config) (loc : Loc) (value : UInt64) :
    (.worker id, .store loc value) ∉ after := by
  intro member
  obtain ⟨now, set, kept⟩ := guaranteed.of_mem completed (fun _ _ _ set _ => set.record) member
  exact kept.2.2.1 set

/-- After the call of `merge_worker` the manager loads from one memory. -/
theorem merge_load {config : Cfg} {after : Trace}
    (guaranteed : Guaranteed (psortMay nodesWorker input) config after)
    (merging : Merging nodesWorker input config) {loc : Loc} {value : UInt64}
    (member : (.manager, .load loc value) ∈ after) :
    value = mergeMem nodesWorker.toNat (publishedMem nodesWorker input) loc := by
  obtain ⟨now, merging, kept⟩ :=
    guaranteed.of_mem merging (fun _ _ _ now kept => merging_kept now kept) member
  rw [← merging.mem_eq]
  exact kept

/-- A worker that loads anything but `ready` finds the memory published. -/
theorem worker_load {config : Cfg} {id : Nat} {loc : Loc} {value : UInt64}
    (kept : psortMay nodesWorker input (.worker id) config (.load loc value))
    (notReady : loc ≠ .ready) :
    value = config.mem loc ∧ config.mem .ready ≠ 0 :=
  ⟨kept.1, kept.2.resolve_left notReady⟩

/-- Once published, the manager's stores are in the log. -/
theorem published_stores {config : Cfg} (inv : PsortInv nodesWorker input config)
    (ready : config.mem .ready ≠ 0) {loc : Loc} {value : UInt64}
    (member : (loc, value) ∈ zeroStores nodesWorker input ++
      (numberStores input ++ headerStores nodesWorker input)) :
    (.manager, .store loc value) ∈ config.log :=
  inv.stored ready _ (Effect.mem_stores.mpr ⟨(loc, value), member, rfl⟩)

/-- A worker reads a field of the header that is no flag after the last store to it. -/
theorem header_load {trace before after : Trace} {state : Threads Party Loc UInt64 Note} {id : Nat}
    {loc : Loc} {value : UInt64} (run : Run (psort nodesWorker input) anyStep trace state)
    (stored : (loc, publishedMem nodesWorker input loc) ∈ headerStores nodesWorker input)
    (notReady : loc ≠ .ready) (notData : ∀ index, loc ≠ .data index)
    (notFlag : ∀ id, loc ≠ .done id)
    (split : trace = before ++ (.worker id, .load loc value) :: after) :
    (.manager, .store loc (publishedMem nodesWorker input loc)) ∈ before ∧
      value = publishedMem nodesWorker input loc ∧ NoManagerStore loc after := by
  obtain ⟨config, rfl, inv, kept, later⟩ := run_split run split
  obtain ⟨loaded, ready⟩ := worker_load kept notReady
  have final : config.mem loc = publishedMem nodesWorker input loc :=
    inv.framed.resolve_left ready loc (fixed_header notData notFlag)
  refine ⟨published_stores inv ready ?_, loaded.trans final, ?_⟩
  · exact List.mem_append_right _ (List.mem_append_right _ stored)
  · exact no_manager_store later (ready_kept kept ready) loc

end

/-- In every interleaving the nodes of psort stay defined, so that no worker
divides by zero, and the handshake orders their accesses. -/
theorem psort_handshake (nodesWorker : UInt64) (input : Input) :
    ∃ found : Mem, ∀ trace state, Run (psort nodesWorker input) anyStep trace state →
      (∀ party, state.programs party ≠ .undefined) ∧ Ordered nodesWorker input found trace := by
  refine ⟨mergeMem nodesWorker.toNat (publishedMem nodesWorker input), fun trace state run =>
    ⟨run_defined programs_keep run, ?_⟩⟩
  constructor
  case elems =>
    intro before id value after split
    exact header_load run (mem_headerStores.mpr (.inl rfl)) (by simp) (by simp) (by simp) split
  case nodes =>
    intro before id value after split
    have stored : (Loc.nodes, nodesWorker) ∈ headerStores nodesWorker input :=
      mem_headerStores.mpr (.inr (.inr (.inr (.inl rfl))))
    exact header_load run stored (by simp) (by simp) (by simp) split
  case data =>
    intro before id index value after split
    obtain ⟨config, rfl, inv, kept, later⟩ := run_split run split
    obtain ⟨-, ready⟩ := worker_load kept (by simp)
    refine ⟨fun inRegion => published_stores inv ready ?_, fun number found =>
      published_stores inv ready ?_, no_manager_store later (ready_kept kept ready) _⟩
    · exact List.mem_append_left _ (List.mem_map_of_mem inRegion)
    · exact List.mem_append_right _ (List.mem_append_left _ (mem_numberStores found))
  case flags =>
    intro before id worker value after split
    obtain ⟨config, -, -, kept, later⟩ := run_split run split
    exact no_manager_store later (ready_kept kept kept.2.1) _
  case merge =>
    intro before after split id valid
    obtain ⟨config, rfl, -, kept, later⟩ := run_split run split
    exact ⟨kept.2 id valid, no_worker_store later (kept.2 id valid).record⟩
  case reads =>
    intro before after loc value split member
    obtain ⟨config, -, inv, kept, later⟩ := run_split run split
    refine merge_load later ⟨⟨psortInv_kept inv kept, ready_kept kept kept.1⟩, ?_⟩ member
    exact List.mem_append_right _ (List.mem_singleton_self _)

end LibIvy.Contracts.Handshake
