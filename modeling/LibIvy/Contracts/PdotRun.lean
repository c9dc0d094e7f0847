import LibIvy.Contracts.PdotResult
import LibIvy.Workloads.PdotKeeps

/-!
Contract: pdot from its input file to the line it prints, among all its nodes.

Owns: what node 1 has printed when it returns, in every interleaving with the
workers, that some interleaving ends, and both for the numbers of a file.

Does not own: the shared memory; here it is one atomic memory.
-/

namespace LibIvy.Contracts.PdotRun

open LibIvy.Lib TransitionSystem Program Guarantee LibIvy.Workloads LibIvy.Workloads.Pdot

abbrev Trace := List (Party × Effect Field UInt64 Note)

/-- What node 1 has printed. -/
def printedBy (trace : Trace) : List Note := Effect.notes (Threads.eventsOf .manager trace)

/-- Before the first step. -/
def start : Cfg := ⟨fun _ => 0, []⟩

section

variable {nodesWorker : UInt64} {input : Psort.Input} {trace : Trace}
variable {state : Threads Party Field UInt64 Note}

/-- What a node has established when it returns. -/
def Returned (nodesWorker : UInt64) (input : Psort.Input) : Party → Unit → Cfg → Prop
  | .manager, _, config => Printed .manager [.dotProduct (total nodesWorker input)] config
  | .worker id, _, config => id < nodesWorker.toNat → Flagged nodesWorker input id config

/-- Every node keeps to its guarantee from the start and establishes what it has to. -/
theorem programs_establish (party : Party) (fuel : Nat) :
    Keeps (mainMay nodesWorker input) party (Returned nodesWorker input party) fuel
      (programs nodesWorker input party) start := by
  have unset : start.mem (.shm .ready) ≠ 1 := by decide
  cases party with
  | manager => exact manager_keeps fuel start ⟨⟨unset, fun _ _ => rfl⟩, rfl⟩
  | worker id =>
      by_cases valid : id < nodesWorker.toNat
      · rw [programs, if_pos valid]
        exact (worker_keeps id fuel start (.inl unset)).mono fun _ _ flagged _ => flagged
      · rw [programs, if_neg valid]
        exact Keeps.pure fun _ _ below => absurd below valid

/-- When node 1 has returned it has printed what the workers have added up. -/
theorem printed_of_returned (run : Run (pdot nodesWorker input) anyStep trace state)
    (returned : state.programs .manager = .ret ()) :
    printedBy trace = [.dotProduct (total nodesWorker input)] :=
  run_returned programs_establish run returned

/-! ### An interleaving that ends -/

/-- What is left of node 1 once the memory is published. -/
def managerRest (nodesWorker : UInt64) : Main Unit := do
  ofShm (waitForWorkers nodesWorker)
  let result ← ofShm (mergeWorker nodesWorker)
  emit (.dotProduct result)

theorem manager_eq (nodesWorker : UInt64) (input : Psort.Input) :
    manager nodesWorker input =
      (ofFields (loadVectors nodesWorker input)).bind fun _ => managerRest nodesWorker := rfl

/-- The waiting ends at once when all flags are set. -/
theorem waitForWorkers_ensures {mem : Mem} (set : ∀ id < nodesWorker.toNat, mem (.done id) ≠ 0) :
    Ensures (fun _ => True) (waitForWorkers nodesWorker) mem fun _ after => after = mem := by
  have checks : Ensures (fun _ => True) (checkWorkers nodesWorker) mem fun allDone after =>
      allDone = true ∧ after = mem := by
    refine Ensures.foldlM (fun _ allDone after => allDone = true ∧ after = mem) ⟨rfl, rfl⟩ ?_
    rintro count inside allDone memory ⟨rfl, rfl⟩
    have valid : count < nodesWorker.toNat := by simpa using inside
    refine Ensures.read_bind trivial ?_
    rw [List.getElem_range, if_neg (set count valid)]
    exact .pure ⟨rfl, rfl⟩
  obtain ⟨events, allDone, after, evaluated, -, rfl, rfl⟩ := checks
  exact ⟨_, (), _, .iterate_exit (evaluated.bind (.pure _ _)), by simp, rfl⟩

/-- Once all flags are set, the rest of node 1 returns. -/
theorem managerRest_eval {wide : Field → UInt64}
    (set : ∀ id < nodesWorker.toNat, wide (.shm (.done id)) ≠ 0) :
    ∃ events after, (managerRest nodesWorker).Eval wide events () after := by
  have injective : Function.Injective Field.shm := fun _ _ => Field.shm.inj
  obtain ⟨_, _, _, waits, -, -⟩ := @waitForWorkers_ensures nodesWorker (fun loc => wide (.shm loc)) set
  obtain ⟨waited, waits, -⟩ := waits.relabel Field.shm (Empty.elim : Empty → Note) injective
    wide fun _ => rfl
  obtain ⟨_, result, _, merges, -, -, -⟩ :=
    mergeWorker_ensures nodesWorker fun loc => waited (.shm loc)
  obtain ⟨merged, merges, -⟩ := merges.relabel Field.shm (Empty.elim : Empty → Note) injective
    waited fun _ => rfl
  exact ⟨_, _, waits.bind (merges.bind (.emit (Note.dotProduct result) merged))⟩

/-- A worker returns from a published memory, and leaves it published. -/
theorem worker_returns (id : Nat) {mem : Field → UInt64}
    (loaded : ∀ loc, Input loc → mem (.shm loc) = publishedShm nodesWorker input loc) :
    ∃ events left, (ofShm (multWorker nodesWorker id)).Eval mem events () left ∧
      ∀ loc, Input loc → left (.shm loc) = publishedShm nodesWorker input loc := by
  obtain ⟨events, _, after, evaluated, -, kept⟩ :=
    @multWorker_ensures nodesWorker (fun loc => mem (.shm loc))
      ((loaded .ready trivial).trans publishedShm_ready) id
  obtain ⟨left, evaluated, same⟩ := evaluated.relabel Field.shm
    (Empty.elim : Empty → Note) (fun _ _ => Field.shm.inj) mem fun _ => rfl
  refine ⟨_, left, evaluated, fun loc isInput => ?_⟩
  rw [same, kept loc isInput]
  exact loaded loc isInput

/-- Node 1 publishes, the workers return one after the other, and node 1 goes on. -/
theorem pdot_finishes (nodesWorker : UInt64) (input : Psort.Input) :
    ∃ trace state, Run (pdot nodesWorker input) anyStep trace state ∧ state.Finished := by
  obtain ⟨filled, loads, same⟩ := (loadVectors_eval nodesWorker input fun _ => 0).relabel
    id (Empty.elim : Empty → Note) Function.injective_id (fun _ => 0) fun _ => rfl
  obtain rfl : filled = published nodesWorker input := funext same
  refine exists_finished (fun id outside => if_neg outside) (manager_eq nodesWorker input) loads
    (fun memory => ∀ loc, Input loc → memory (.shm loc) = publishedShm nodesWorker input loc)
    (fun _ _ => rfl) ?_ ?_
  · intro id valid memory loaded
    rw [programs, if_pos valid]
    exact worker_returns id loaded
  · intro trace state run _ returned
    apply managerRest_eval
    exact fun id valid => (run_returned programs_establish run (returned id valid) valid).2

/-! ### What is printed -/

/-- The sum of the products that equal parts of the halves cover. -/
def coveredProduct (nodesWorker : UInt64) (input : Psort.Input) : UInt64 :=
  let length := input.elems.toNat / 2
  ((List.range (length / nodesWorker.toNat * nodesWorker.toNat)).map fun index =>
    input.element index * input.element (length + index)).sum

/-- The vectors hold the numbers read, and zero after them. -/
theorem publishedShm_vecs (index : Nat) :
    publishedShm nodesWorker input (.vecs index) = input.element index := by
  rw [publishedShm, published, Psort.Input.element]
  cases found : input.numbers[index]? with
  | none => exact unloaded_vecs found
  | some number => exact loaded_vecs found

/-- What the workers add up. -/
theorem total_eq : total nodesWorker input = coveredProduct nodesWorker input := by
  have length : vectorLength (publishedShm nodesWorker input) = input.elems.toNat / 2 := by
    have count : publishedShm nodesWorker input .elems = input.elems := loaded_elems _
    rw [vectorLength, count]
  unfold total workerSum partSum
  rw [sum_parts, share, length, sumFrom, coveredProduct]
  congr 1
  apply List.map_congr_left
  intro index _
  rw [Nat.zero_add, product, length, publishedShm_vecs, publishedShm_vecs]

/-! ### The numbers of a file -/

/-- The sum of the first products of the two halves of the numbers. -/
def halvesProduct (numbers : List UInt64) (count : Nat) : UInt64 :=
  ((List.range count).map fun i =>
    numbers.getD i 0 * numbers.getD (numbers.length / 2 + i) 0).sum

/-- The elements of a file whose numbers an `int` holds. -/
theorem element_readInput {unset : UInt64} {numbers : List UInt64} {lastBreak : Bool} {index : Nat}
    (ints : IntsOnly numbers) :
    (readInput unset (inputFile numbers lastBreak)).element index = numbers.getD index 0 := by
  rw [readInput_of_ints ints, Psort.Input.element, List.getElem?_map, List.getD_eq_getElem?_getD]
  cases found : numbers[index]? with
  | none => rfl
  | some number => exact stored_fits (ints.2 number (List.mem_of_getElem? found))

theorem coveredProduct_readInput {unset : UInt64} {numbers : List UInt64} {lastBreak : Bool}
    (ints : IntsOnly numbers) :
    coveredProduct nodesWorker (readInput unset (inputFile numbers lastBreak)) =
      halvesProduct numbers (numbers.length / 2 / nodesWorker.toNat * nodesWorker.toNat) := by
  simp only [coveredProduct, halvesProduct, element_readInput ints, readInput_elems ints]

end

/-- pdot multiplies the two halves of its input: in every interleaving of its nodes
node 1 has printed one line when it returns, the sum of the products that equal
parts cover, and some interleaving ends. -/
theorem pdot_prints_product (nodesWorker : UInt64) (input : Psort.Input) :
    (∃ trace state, Run (pdot nodesWorker input) anyStep trace state ∧ state.Finished) ∧
    ∀ trace state, Run (pdot nodesWorker input) anyStep trace state →
      state.programs .manager = .ret () →
      printedBy trace = [.dotProduct (coveredProduct nodesWorker input)] := by
  refine ⟨pdot_finishes nodesWorker input, fun trace state run returned => ?_⟩
  rw [printed_of_returned run returned, total_eq]

/-- Two workers multiply two vectors of two numbers. -/
theorem pdot_prints_product_two :
    ∃ trace state, Run (pdot 2 (readInput 0 (inputFile [1, 2, 3, 4] true))) anyStep trace state ∧
      state.Finished ∧ printedBy trace = [.dotProduct 11] := by
  obtain ⟨⟨trace, state, run, finished⟩, prints⟩ :=
    pdot_prints_product 2 (readInput 0 (inputFile [1, 2, 3, 4] true))
  refine ⟨trace, state, run, finished, ?_⟩
  rw [prints trace state run (finished .manager), coveredProduct_readInput (by decide)]
  rfl

end LibIvy.Contracts.PdotRun
