import LibIvy.Lib.RelyGuarantee
import LibIvy.Workloads.Parts
import Mathlib.Data.UInt

/-!
Contract: the pdot workload as programs over its shared memory.

Every field of `shm_layout` that the workers use is one location; `vecs` holds
both vectors, one location for each element. `NODES_WORKER` is a parameter.

Owns: `mult_worker` and `merge_worker`, their outcomes when they run alone, and
that concurrent workers leave each other's results alone.

Does not own: reading the vectors from the input file, waiting for the workers,
timing and diagnostic output.
-/

namespace LibIvy.Workloads.Pdot

open LibIvy.Lib Program Guarantee

/-- The fields of `shm_layout`. -/
inductive Loc where
  | elems
  | ready
  | result (worker : Nat)
  | done (worker : Nat)
  | vecs (index : Nat)
deriving DecidableEq, Repr

abbrev Prog := Program Loc UInt64 Empty

abbrev Mem := Loc → UInt64

section Model

variable (nodesWorker : UInt64)

/-- Busy waiting on `ready`. -/
def awaitReady : Prog Unit :=
  whileDo (return (← read .ready) != 1) (return ())

/-- What a worker adds up once it has seen `ready`. -/
def addPart (id : Nat) : Prog UInt64 := do
  let elems := (← read .elems) / 2
  let elemsPerNode := (elems / nodesWorker).toNat
  let startA := elemsPerNode * id
  let startB := elems.toNat + elemsPerNode * id
  (List.range elemsPerNode).foldlM (fun sum i => do
    let left ← read (.vecs (startA + i))
    let right ← read (.vecs (startB + i))
    return sum + left * right) 0

/-- `mult_worker` up to the store of its sum. -/
def multPart (id : Nat) : Prog UInt64 := do
  awaitReady
  addPart nodesWorker id

def multWorker (id : Nat) : Prog Unit := do
  let sum ← multPart nodesWorker id
  write (.result id) sum
  write (.done id) 0xffffffffffffffff
  (List.range nodesWorker.toNat).forM fun i => discard (read (.done i))

/-- Each result is loaded once to be printed and once to be added. -/
def mergeWorker : Prog UInt64 :=
  (List.range nodesWorker.toNat).foldlM (fun result i => do
    let _ ← read (.result i)
    let partialResult ← read (.result i)
    return result + partialResult) 0

/-- The workers with the ids below `NODES_WORKER`. -/
def multWorkers (id : Nat) : Prog Unit :=
  if id < nodesWorker.toNat then multWorker nodesWorker id else return ()

end Model

/-! ### The sums -/

/-- The length of each vector. -/
def vectorLength (mem : Mem) : Nat := (mem .elems).toNat / 2

/-- The product of the `index`-th elements. -/
def product (mem : Mem) (index : Nat) : UInt64 :=
  mem (.vecs index) * mem (.vecs (vectorLength mem + index))

/-- The sum of the products at `start, start + 1, ...`. -/
def sumFrom (mem : Mem) (start count : Nat) : UInt64 :=
  ((List.range count).map fun offset => product mem (start + offset)).sum

theorem sumFrom_succ (mem : Mem) (start count : Nat) :
    sumFrom mem start (count + 1) = sumFrom mem start count + product mem (start + count) := by
  simp [sumFrom, List.range_succ]

theorem sumFrom_add (mem : Mem) (start first second : Nat) :
    sumFrom mem start (first + second) =
      sumFrom mem start first + sumFrom mem (start + first) second := by
  induction second with
  | zero => simp [sumFrom]
  | succ second inductionHypothesis =>
      rw [← Nat.add_assoc, sumFrom_succ, inductionHypothesis, sumFrom_succ, add_assoc, Nat.add_assoc]

/-- The sums of the parts add up to the sum up to the last part's end. -/
theorem sum_parts (mem : Mem) (nodes length : Nat) :
    ((List.range nodes).map fun id => sumFrom mem (length * id) length).sum =
      sumFrom mem 0 (length * nodes) := by
  induction nodes with
  | zero => simp [sumFrom]
  | succ nodes inductionHypothesis =>
      rw [List.range_succ, List.map_append, List.sum_append, inductionHypothesis, Nat.mul_succ,
        sumFrom_add]
      simp

/-! ### Outcomes -/

/-- The length of each worker's part. -/
def share (nodesWorker : UInt64) (mem : Mem) : Nat := vectorLength mem / nodesWorker.toNat

/-- What a worker adds up. -/
def partSum (nodesWorker : UInt64) (mem : Mem) (id : Nat) : UInt64 :=
  sumFrom mem (share nodesWorker mem * id) (share nodesWorker mem)

/-- The locations that nobody changes. -/
def Input : Loc → Prop
  | .elems => True
  | .ready => True
  | .vecs _ => True
  | _ => False

section Outcomes

variable {nodesWorker : UInt64} {mem : Mem}

/-- A worker that has seen `ready` loads the count and its part, and adds that up. -/
theorem addPart_ensures {allowed : Effect Loc UInt64 Empty → Prop} (id : Nat)
    (count : ∀ value, allowed (.load .elems value))
    (part : ∀ i < share nodesWorker mem, ∀ value,
      allowed (.load (.vecs (share nodesWorker mem * id + i)) value) ∧
        allowed (.load (.vecs (vectorLength mem + share nodesWorker mem * id + i)) value)) :
    Ensures allowed (addPart nodesWorker id) mem
      fun sum after => after = mem ∧ sum = partSum nodesWorker mem id := by
  refine Ensures.read_bind (count _) ?_
  have half : (mem .elems / 2).toNat = vectorLength mem := UInt64.toNat_div ..
  have length : (mem .elems / 2 / nodesWorker).toNat = share nodesWorker mem := by
    rw [UInt64.toNat_div, half, share]
  simp only [half, length]
  have loop : Ensures allowed
      ((List.range (share nodesWorker mem)).foldlM (fun sum i => do
        let left ← read (.vecs (share nodesWorker mem * id + i))
        let right ← read (.vecs (vectorLength mem + share nodesWorker mem * id + i))
        return sum + left * right) 0 : Prog UInt64) mem fun sum after => after = mem ∧
      sum = sumFrom mem (share nodesWorker mem * id)
        (List.range (share nodesWorker mem)).length := by
    refine Ensures.foldlM (fun count sum after => after = mem ∧
      sum = sumFrom mem (share nodesWorker mem * id) count) ⟨rfl, rfl⟩ ?_
    rintro count inside sum memory ⟨sameMem, sameSum⟩
    rw [List.length_range] at inside
    rw [List.getElem_range, sameMem, sameSum]
    refine Ensures.read_bind (part count inside _).1
      (Ensures.read_bind (part count inside _).2 (.pure ⟨rfl, ?_⟩))
    rw [sumFrom_succ, product, Nat.add_assoc]
  rwa [List.length_range] at loop

/-- The busy waiting ends at once when `ready` is set, and the worker adds up its
part. -/
theorem multPart_ensures (ready : mem .ready = 1) (id : Nat) :
    Ensures (fun event => ∃ loc value, Input loc ∧ event = .load loc value)
      (multPart nodesWorker id) mem
      fun sum after => after = mem ∧ sum = partSum nodesWorker mem id := by
  have wait : Ensures (fun event => ∃ loc value, Input loc ∧ event = .load loc value)
      awaitReady mem fun _ after => after = mem := by
    have test : Eval (do return (← read .ready) != 1 : Prog Bool) mem
        ([.load .ready (mem .ready)] ++ []) (mem .ready != 1) mem :=
      (Eval.read _ mem).bind (.pure _ mem)
    rw [ready] at test
    exact ⟨_, _, _, .whileDo_exit test, by simp [Input], rfl⟩
  refine wait.bind fun _ after same => ?_
  rw [same]
  exact addPart_ensures id (fun value => ⟨.elems, value, trivial, rfl⟩) fun _ _ value =>
    ⟨⟨.vecs _, value, trivial, rfl⟩, .vecs _, value, trivial, rfl⟩

/-- A worker alone returns and leaves the input as it was. -/
theorem multWorker_ensures (ready : mem .ready = 1) (id : Nat) :
    Ensures (fun _ => True) (multWorker nodesWorker id) mem
      fun _ after => Agree Input after mem := by
  refine ((multPart_ensures ready id).mono (fun _ _ => trivial) fun _ _ holds => holds).bind ?_
  rintro sum memory ⟨rfl, -⟩
  refine Ensures.write_bind trivial (Ensures.write_bind trivial ?_)
  refine Ensures.forM (fun _ after => Agree Input after memory) ?_ ?_
  · intro loc input
    have notFlag : loc ≠ .done id := fun same => by rw [same] at input; exact input
    have notResult : loc ≠ .result id := fun same => by rw [same] at input; exact input
    rw [Function.update_of_ne notFlag, Function.update_of_ne notResult]
  · intro count inside later agree
    exact Ensures.read_bind trivial (.pure agree)

/-- The results are added up. -/
theorem mergeWorker_ensures (nodesWorker : UInt64) (mem : Mem) :
    Ensures (fun _ => True) (mergeWorker nodesWorker) mem fun result after => after = mem ∧
      result = ((List.range nodesWorker.toNat).map fun id => mem (.result id)).sum := by
  have loop : Ensures (fun _ => True) (mergeWorker nodesWorker) mem fun result after =>
      after = mem ∧ result =
        ((List.range (List.range nodesWorker.toNat).length).map fun id => mem (.result id)).sum := by
    refine Ensures.foldlM (fun count result after => after = mem ∧
      result = ((List.range count).map fun id => mem (.result id)).sum) ⟨rfl, rfl⟩ ?_
    rintro count inside result memory ⟨sameMem, sameResult⟩
    rw [List.getElem_range, sameMem, sameResult]
    refine Ensures.read_bind trivial (Ensures.read_bind trivial (.pure ⟨rfl, ?_⟩))
    simp [List.range_succ]
  rwa [List.length_range] at loop

end Outcomes

/-! ### Concurrent workers -/

section Concurrent

variable (nodesWorker : UInt64) (mem : Mem)

/-- A worker stores its flag and its sum, and nothing else. -/
def mayDo : Guarantee Nat Loc UInt64 Empty
  | id, _, .store loc value =>
      loc = .done id ∨ loc = .result id ∧ value = partSum nodesWorker mem id
  | _, _, _ => True

/-- The input is as it was. -/
def Unchanged (config : Snapshot Nat Loc UInt64 Empty) : Prop := Agree Input config.mem mem

/-- The worker's sum is stored. -/
def Summed (id : Nat) (config : Snapshot Nat Loc UInt64 Empty) : Prop :=
  Unchanged mem config ∧ config.mem (.result id) = partSum nodesWorker mem id

variable {nodesWorker mem}

theorem unchanged_kept {id : Nat} {config : Snapshot Nat Loc UInt64 Empty}
    {event : Effect Loc UInt64 Empty} (unchanged : Unchanged mem config)
    (kept : mayDo nodesWorker mem id config event) : Unchanged mem (config.record id event) := by
  intro loc input
  cases event with
  | load => exact unchanged loc input
  | note => exact unchanged loc input
  | store stored value =>
      have other : loc ≠ stored := by
        intro same
        subst same
        rcases kept with rfl | ⟨rfl, -⟩
        · exact input
        · exact input
      rw [Snapshot.record_mem, Effect.apply_store, Function.update_of_ne other]
      exact unchanged loc input

theorem unchanged_stable (id : Nat) : Stable (mayDo nodesWorker mem) id (Unchanged mem) :=
  fun _ _ _ _ unchanged kept => unchanged_kept unchanged kept

theorem summed_stable (id : Nat) :
    Stable (mayDo nodesWorker mem) id (Summed nodesWorker mem id) := by
  rintro config other event different ⟨unchanged, sum⟩ kept
  refine ⟨unchanged_kept unchanged kept, ?_⟩
  cases event with
  | load => exact sum
  | note => exact sum
  | store stored value =>
      have elsewhere : Loc.result id ≠ stored := by
        intro same
        subst same
        rcases kept with same | ⟨same, -⟩
        · contradiction
        · exact different (Loc.result.inj same).symm
      rw [Snapshot.record_mem, Effect.apply_store, Function.update_of_ne elsewhere]
      exact sum

/-- A worker stores its sum whatever the others do meanwhile. -/
theorem multWorker_keeps (ready : mem .ready = 1) (id : Nat) :
    Triple (mayDo nodesWorker mem) id (Unchanged mem) (multWorker nodesWorker id)
      fun _ => Summed nodesWorker mem id := by
  have summed := @summed_stable nodesWorker mem id
  have part : Triple (mayDo nodesWorker mem) id (Unchanged mem) (multPart nodesWorker id)
      fun sum config => sum = partSum nodesWorker mem id ∧ Unchanged mem config := by
    obtain ⟨events, sum, after, evaluated, allowed, sameMem, sameSum⟩ :=
      @multPart_ensures nodesWorker mem ready id
    have undisturbed : Undisturbed (mayDo nodesWorker mem) id Input (fun _ => Unchanged mem) mem
        events := by
      constructor
      case within =>
        intro event member
        obtain ⟨loc, value, input, rfl⟩ := allowed event member
        exact input
      case stable =>
        intro _ memory config other event different ⟨unchanged, agree⟩ kept
        refine ⟨unchanged_kept unchanged kept, fun loc input => ?_⟩
        rw [unchanged_kept unchanged kept loc input, ← unchanged loc input]
        exact agree loc input
      case own =>
        intro before event later config split unchanged _ _
        obtain ⟨loc, value, -, rfl⟩ := allowed event (by rw [split]; simp)
        exact ⟨trivial, unchanged⟩
    refine (Triple.of_eval evaluated undisturbed).conseq
      (fun config unchanged => ⟨unchanged, unchanged⟩) ?_
    intro result config ⟨same, unchanged, _⟩
    exact ⟨same.trans sameSum, unchanged⟩
  refine part.bind fun sum => ?_
  have flag : Triple (mayDo nodesWorker mem) id (Summed nodesWorker mem id)
      (write (.done id) 0xffffffffffffffff) fun _ => Summed nodesWorker mem id :=
    Triple.write summed (fun _ _ => .inl rfl) summed fun config holds =>
      have permitted : mayDo nodesWorker mem id config (.store (.done id) 0xffffffffffffffff) :=
        .inl rfl
      ⟨unchanged_kept holds.1 permitted, by simpa using holds.2⟩
  have look : ∀ worker ∈ List.range nodesWorker.toNat, Triple (mayDo nodesWorker mem) id
      (Summed nodesWorker mem id) (discard (read (.done worker))) fun _ =>
        Summed nodesWorker mem id := by
    intro worker _
    have load : Triple (mayDo nodesWorker mem) id (Summed nodesWorker mem id) (read (.done worker))
        fun _ => Summed nodesWorker mem id :=
      Triple.read summed (fun _ _ => trivial) (fun _ => summed) fun _ holds => holds
    exact load.bind fun _ => Triple.pure summed fun _ holds => holds
  have store : Triple (mayDo nodesWorker mem) id
      (fun config => sum = partSum nodesWorker mem id ∧ Unchanged mem config)
        (write (.result id) sum)
      fun _ => Summed nodesWorker mem id := by
    refine Triple.write ?_ (fun config holds => .inr ⟨rfl, holds.1⟩) summed fun config holds =>
      ⟨unchanged_kept holds.2 (.inr ⟨rfl, holds.1⟩), by simpa using holds.1⟩
    exact fun config other event different holds kept =>
      ⟨holds.1, unchanged_stable id config other event different holds.2 kept⟩
  exact store.bind fun _ => flag.bind fun _ => Triple.forM summed look

end Concurrent

end LibIvy.Workloads.Pdot
