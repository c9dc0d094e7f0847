import LibIvy.Contracts.Handshake
import LibIvy.Contracts.PsortOutput
import LibIvy.Workloads.InputFile
import LibIvy.Workloads.PsortPrints

/-!
Contract: psort from its input file to its output, among all its nodes.

Owns: what the manager has printed when it returns, in every interleaving with
the workers, that some interleaving ends, and both for the numbers of a file.

Does not own: the shared memory; here it is one atomic memory.
-/

namespace LibIvy.Contracts.PsortRun

open LibIvy.Lib TransitionSystem Program Guarantee LibIvy.Workloads LibIvy.Workloads.Psort
open LibIvy.Contracts.Handshake LibIvy.Contracts.PsortOutput

/-- The elements of the lines that the manager has printed. -/
def printedBy (trace : Trace) : List UInt64 := printedElems (Threads.eventsOf .manager trace)

/-- The elements in the parts of the workers. -/
def partElems (nodesWorker : UInt64) (input : Input) : List UInt64 :=
  (List.range (nodesWorker.toNat * (input.elems.toNat / nodesWorker.toNat))).map
    input.element

section

variable {nodesWorker : UInt64} {input : Input} {events : List (Effect Loc UInt64 Note)}
variable {trace : Trace} {state : Threads Party Loc UInt64 Note}

/-- What a node has established when it returns. -/
def Returned (nodesWorker : UInt64) (events : List (Effect Loc UInt64 Note)) :
    Party → Unit → Cfg → Prop
  | .manager, _, config => Output (.callMergeWorker :: Effect.notes events) config
  | .worker id, _, config => id < nodesWorker.toNat → Completed id config

/-- Every node keeps to its guarantee from the start and establishes what it has to. -/
theorem programs_establish
    (prints : Triple (psortMay nodesWorker input) .manager
      (fun config => (Filling nodesWorker input [] config ∧
        Agree (fun _ => True) config.mem fun _ => 0) ∧ Output [] config)
      (manager nodesWorker input) fun _ => Output (.callMergeWorker :: Effect.notes events))
    (party : Party) (fuel : Nat) :
    Keeps (psortMay nodesWorker input) party (Returned nodesWorker events party) fuel
      (programs nodesWorker input party) start := by
  cases party with
  | manager => exact prints fuel start ⟨⟨⟨⟨start_inv, rfl⟩, by simp⟩, fun _ _ => rfl⟩, rfl⟩
  | worker id =>
      by_cases valid : id < nodesWorker.toNat
      · have nonzero : publishedMem nodesWorker input .nodes ≠ 0 := by
          intro zero
          obtain rfl : nodesWorker = 0 := zero
          exact absurd valid (Nat.not_lt_zero id)
        rw [programs, if_pos valid]
        refine (sortWorker_keeps valid nonzero fuel start ?_).mono fun _ _ signalled _ => signalled.1
        exact ⟨by simp [Completed, start], .inl rfl⟩
      · rw [programs, if_neg valid]
        exact Keeps.pure fun _ _ below => absurd below valid

theorem sortedBy_mergeMem (nodesWorker : UInt64) (input : Input) :
    SortedBy nodesWorker (publishedMem nodesWorker input)
      (mergeMem nodesWorker.toNat (publishedMem nodesWorker input)) where
  elems := rfl
  parts id _ := by
    rintro _ ⟨offset, -, rfl⟩
    rfl

theorem partElems_eq (nodesWorker : UInt64) (input : Input) :
    partElems nodesWorker input =
      (List.range (nodesWorker.toNat * share (publishedMem nodesWorker input))).map fun index =>
        publishedMem nodesWorker input (.data index) := by
  have length : share (publishedMem nodesWorker input) =
      input.elems.toNat / nodesWorker.toNat := UInt64.toNat_div ..
  rw [partElems, length]
  rfl

/-- When the manager has returned it has printed the elements of the parts in
order. -/
theorem printed_of_returned (run : Run (psort nodesWorker input) anyStep trace state)
    (returned : state.programs .manager = .ret ()) :
    (printedBy trace).Pairwise (· ≤ ·) ∧ (printedBy trace).Perm (partElems nodesWorker input) := by
  obtain ⟨events, evaluated, prints⟩ := @manager_output nodesWorker input
  have output : Output (.callMergeWorker :: Effect.notes events) ⟨state.mem, trace⟩ :=
    run_returned (programs_establish prints) run returned
  obtain ⟨others, merged, sorted, parts⟩ :=
    @merge_prints nodesWorker _ rfl _ (sortedBy_mergeMem nodesWorker input)
  obtain ⟨rfl, -⟩ := merged.unique evaluated
  have same : printedBy trace = printedElems others := by
    rw [printedBy, printedElems, printedElems, output]
    rfl
  rw [same, partElems_eq]
  exact ⟨sorted, parts⟩

/-! ### An interleaving that ends -/

/-- The test over the workers when all of them have set their flags. -/
theorem checkWorkers_ensures {mem : Mem} {parts : List Nat} (set : ∀ id ∈ parts, mem (.done id) = 1) :
    Ensures (fun _ => True) (checkWorkers parts) mem
      fun finished after => finished = true ∧ after = mem := by
  induction parts with
  | nil => exact .pure ⟨rfl, rfl⟩
  | cons id parts inductionHypothesis =>
      unfold checkWorkers
      refine Ensures.read_bind trivial (Ensures.read_bind trivial ?_)
      rw [if_neg (not_not.mpr (set id (List.mem_cons_self ..)))]
      exact inductionHypothesis fun other member => set other (List.mem_cons_of_mem _ member)

theorem waitForWorkers_eval {mem : Mem} (set : ∀ id < nodesWorker.toNat, mem (.done id) = 1) :
    ∃ events, (waitForWorkers nodesWorker).Eval mem events () mem := by
  obtain ⟨checks, _, after, checked, -, same⟩ := assertValid_ensures mem
  subst same
  obtain ⟨tests, _, after, tested, -, rfl, rfl⟩ :=
    checkWorkers_ensures fun id member => set id (List.mem_range.mp member)
  exact ⟨_, .iterate_exit (checked.bind (tested.bind (.pure _ _)))⟩

/-- What is left of the manager once the memory is published. -/
def managerRest (nodesWorker : UInt64) : Prog Unit := do
  waitForWorkers nodesWorker
  emit .callMergeWorker
  mergeWorker nodesWorker

theorem manager_eq (nodesWorker : UInt64) (input : Input) :
    manager nodesWorker input = (populateShm nodesWorker input).bind fun _ =>
      managerRest nodesWorker := rfl

/-- Once the workers have returned, the rest of the manager does. -/
theorem managerRest_eval (nodesWorker : UInt64) (published : Mem) :
    ∃ events, (managerRest nodesWorker).Eval (mergeMem nodesWorker.toNat published) events ()
      (mergeMem nodesWorker.toNat published) := by
  obtain ⟨tests, waited⟩ := @waitForWorkers_eval nodesWorker
    (mergeMem nodesWorker.toNat published) fun id valid => if_pos valid
  obtain ⟨events, -, merged, -⟩ :=
    mergeWorker_eval nodesWorker (mergeMem nodesWorker.toNat published)
  exact ⟨_, waited.bind ((Eval.emit _ _).bind merged)⟩

/-- The manager publishes, the workers return one after the other, and the manager
goes on. -/
theorem psort_finishes (nodesWorker : UInt64) (input : Input) :
    ∃ trace state, Run (psort nodesWorker input) anyStep trace state ∧ state.Finished := by
  obtain ⟨fills, populated⟩ := populateShm_eval nodesWorker input fun _ => 0
  have signal : Function.update (Effect.applyAll (fun _ => 0) (fillStores nodesWorker input))
      .ready 1 = publishedMem nodesWorker input := filledMem_signal
  rw [signal] at populated
  refine exists_finished (fun id outside => if_neg outside) (manager_eq nodesWorker input) populated
    (fun memory => memory .ready ≠ 0 ∧ memory .nodes = nodesWorker)
    ⟨by simp [publishedMem], rfl⟩ ?_ ?_
  · rintro id valid memory ⟨ready, nodes⟩
    have nonzero : memory .nodes ≠ 0 := by
      rw [nodes]
      rintro rfl
      exact absurd valid (Nat.not_lt_zero id)
    obtain ⟨events, _, left, evaluated, -, -, keptReady, keptNodes⟩ :=
      sortWorker_ensures ready nonzero id
    rw [programs, if_pos valid]
    exact ⟨events, left, evaluated, keptReady ▸ ready, keptNodes.trans nodes⟩
  · intro trace state run holds returned
    -- the workers have signalled, so the memory is known
    obtain ⟨_, -, prints⟩ := @manager_output nodesWorker input
    obtain ⟨guaranteed, reached, -⟩ := run_keeps (programs_establish prints) run
    have inv := guaranteed.invariant start_inv fun _ _ _ => psortInv_kept
    rw [reached] at inv
    have same : state.mem = mergeMem nodesWorker.toNat (publishedMem nodesWorker input) := by
      apply Inv.mem_eq inv holds.1
      exact fun id valid => run_returned (programs_establish prints) run (returned id valid) valid
    obtain ⟨events, rest⟩ := managerRest_eval nodesWorker (publishedMem nodesWorker input)
    rw [same]
    exact ⟨events, _, rest⟩

end

/-! ### The numbers of a file -/

theorem partElems_readInput {nodesWorker unset : UInt64} {numbers : List UInt64} {lastBreak : Bool}
    (ints : IntsOnly numbers) (divides : nodesWorker.toNat ∣ numbers.length) :
    partElems nodesWorker (readInput unset (inputFile numbers lastBreak)) = numbers := by
  have whole : nodesWorker.toNat *
      ((UInt64.ofNat numbers.length).toNat / nodesWorker.toNat) = numbers.length := by
    rw [UInt64.toNat_ofNat_of_lt' ints.1, Nat.mul_div_cancel' divides]
  rw [partElems, readInput_of_ints ints, whole]
  apply List.ext_getElem (by simp)
  intro index _ inside
  have fits := ints.2 _ (List.getElem_mem inside)
  simp [Input.element, List.getElem?_eq_getElem inside, stored_fits fits]

/-- psort sorts its input file: in every interleaving of its nodes the manager has
printed the numbers of the file in order when it returns, and some interleaving
ends. -/
theorem psort_sorts_file (nodesWorker unset : UInt64) (numbers : List UInt64) (lastBreak : Bool)
    (ints : IntsOnly numbers) (divides : nodesWorker.toNat ∣ numbers.length) :
    (∃ trace state, Run (psort nodesWorker (readInput unset (inputFile numbers lastBreak))) anyStep
      trace state ∧ state.Finished) ∧
    ∀ trace state, Run (psort nodesWorker (readInput unset (inputFile numbers lastBreak))) anyStep
      trace state → state.programs .manager = .ret () →
      (printedBy trace).Pairwise (· ≤ ·) ∧ (printedBy trace).Perm numbers := by
  refine ⟨psort_finishes .., fun trace state run returned => ?_⟩
  have printed := printed_of_returned run returned
  rwa [partElems_readInput ints divides] at printed

/-- Two workers sort a file of four numbers. -/
theorem psort_sorts_file_four :
    ∃ trace state, Run (psort 2 (readInput 0 (inputFile [3, 1, 2, 1] true))) anyStep trace state ∧
      state.Finished ∧ printedBy trace = [1, 1, 2, 3] := by
  obtain ⟨⟨trace, state, run, finished⟩, prints⟩ :=
    psort_sorts_file 2 0 [3, 1, 2, 1] true (by decide) (by decide)
  obtain ⟨sorted, all⟩ := prints trace state run (finished .manager)
  refine ⟨trace, state, run, finished, ?_⟩
  have expected : [3, 1, 2, 1].Perm ([1, 1, 2, 3] : List UInt64) := by decide
  exact List.Perm.eq_of_pairwise (fun _ _ _ _ => le_antisymm) sorted (by decide) (all.trans expected)

end LibIvy.Contracts.PsortRun
