import LibIvy.Workloads.Parties

/-!
Contract: the psort workload as programs over its shared memory.

Every field of `shm_layout` is one location; `data` is one location for each
element. The programs perform the loads and stores of the source in its order,
those whose value is only printed included. The printed line of `merge_worker`
is a note; so is the call of `merge_worker`, which the source does not print.
`NODES_WORKER` is a parameter.

Owns: the layout of the shared memory, `sort_worker`, `merge_worker`,
`populate_shm`, `wait_for_workers` and the programs of `main`.

Does not own: the extraction of the numbers from the input file, sleeping,
timing and diagnostic output.
-/

namespace LibIvy.Workloads.Psort

open LibIvy.Lib Program

/-- The fields of `shm_layout`. -/
inductive Loc where
  | canary (index : Nat)
  | elems
  | ready
  | done (worker : Nat)
  | nodes
  | data (index : Nat)
deriving DecidableEq, Repr

inductive Note where
  /-- `main` calls `merge_worker`. -/
  | callMergeWorker
  /-- `min_elem << " for " << min_idx`. -/
  | merged (minElem : UInt64) (minIdx : Nat)
deriving DecidableEq, Repr

abbrev Prog := Program Loc UInt64 Note

abbrev Mem := Loc → UInt64

/-- `CANARY_VAL`, with its terminating zero. -/
def canaryVal : List UInt64 :=
  [0x44, 0x45, 0x41, 0x44, 0x42, 0x45, 0x45, 0x46, 0x42, 0x41, 0x41, 0x44, 0x42, 0x45, 0x45, 0x46, 0]

/-- `ASSERT_VALID`: the bytes are compared and the outcome is dropped. -/
def assertValid : Prog Unit :=
  (List.range canaryVal.length).forM fun index => discard (read (.canary index))

/-- `ASSERT_VALID` only loads the canary. -/
theorem assertValid_ensures (mem : Mem) :
    Ensures (fun event => ∃ index value, event = .load (.canary index) value) assertValid mem
      fun _ after => after = mem :=
  Ensures.forM_discard fun _ => ⟨_, _, rfl⟩

/-! ### `sort_worker` -/

/-- Integer division traps on a zero divisor. -/
def divide (dividend divisor : UInt64) : Prog UInt64 :=
  if divisor = 0 then .undefined else return dividend / divisor

/-- The body of the inner loop, for the locations of `workset[j - 1]` and
`workset[j]`. -/
def compareSwap (lower upper : Loc) : Prog Unit := do
  let left ← read lower
  let right ← read upper
  if right < left then
    let temp ← read lower
    let moved ← read upper
    write lower moved
    write upper temp

/-- The two nested loops over `workset`. -/
def sortWorkset (start elemsPerNode : Nat) : Prog Unit :=
  (List.range elemsPerNode).forM fun _ =>
    (List.range' 1 (elemsPerNode - 1)).forM fun j =>
      compareSwap (.data (start + (j - 1))) (.data (start + j))

/-- Busy waiting on `ready`. -/
def awaitReady : Prog Unit :=
  whileDo (return (← read .ready) == 0) (return ())

/-- `sort_worker` between the busy waiting and the store that signals completion. -/
def sortPart (id : Nat) : Prog Unit := do
  assertValid
  let _ ← read .ready
  let elems ← read .elems
  assertValid
  let nodes ← read .nodes
  let elemsPerNode ← divide elems nodes
  sortWorkset (elemsPerNode.toNat * id) elemsPerNode.toNat
  assertValid

def sortWorker (id : Nat) : Prog Unit := do
  awaitReady
  sortPart id
  write (.done id) 1
  assertValid

/-! ### `merge_worker` -/

section Merge

variable (nodesWorker : UInt64)

/-- The lambda `done`, from the `i`-th test on. -/
def mergeDone (iter : Nat → Nat) : List Nat → Prog Bool
  | [] => return true
  | i :: rest => do
      let elems ← read .elems
      if iter i ≠ (elems / nodesWorker).toNat then
        return false
      else
        mergeDone iter rest

/-- The body of the `for` loop. `min_idx` is `none` until it is assigned. -/
def mergeScan (iter : Nat → Nat) (least : UInt64 × Option Nat) (i : Nat) :
    Prog (UInt64 × Option Nat) := do
  let elems ← read .elems
  if iter i ≠ (elems / nodesWorker).toNat then
    let elems ← read .elems
    let elemsPerNode := (elems / nodesWorker).toNat
    let elem ← read (.data (i * elemsPerNode + iter i))
    if elem ≤ least.1 then
      return (elem, some i)
    else
      return least
  else
    return least

/-- The lambda `next_iter`. -/
def nextIter (iter : Nat → Nat) (node : Nat) : Prog (Nat → Nat) := do
  let elems ← read .elems
  if iter node < elems.toNat then
    return Function.update iter node (iter node + 1)
  else
    return iter

/-- `UINT64_MAX`. -/
def uint64Max : UInt64 := 0xffffffffffffffff

/-- One round of the `while` loop. -/
def mergeRound (iter : Nat → Nat) : Prog (Nat → Nat) := do
  let (minElem, minIdx) ← (List.range nodesWorker.toNat).foldlM (mergeScan nodesWorker iter)
    (uint64Max, none)
  match minIdx with
  | none => .undefined
  | some minIdx =>
      emit (.merged minElem minIdx)
      nextIter iter minIdx

/-- The `while` loop: its test and one round. -/
def mergeBody (iter : Nat → Nat) : Prog ((Nat → Nat) ⊕ Unit) := do
  if ← mergeDone nodesWorker iter (List.range nodesWorker.toNat) then
    return .inr ()
  else
    return .inl (← mergeRound nodesWorker iter)

def mergeWorker : Prog Unit := do
  assertValid
  iterate (fun _ => 0) (mergeBody nodesWorker)

end Merge

/-! ### `populate_shm` -/

/-- What the extractions from the input file yield: the first number as a
`size_t`, and the numbers read as `int` before the stream fails. -/
structure Input where
  elems : UInt64
  numbers : List Int32

/-- The element that they put at an index of a memory that starts zero-filled. -/
def Input.element (input : Input) (index : Nat) : UInt64 :=
  (input.numbers[index]?).elim 0 fun number => number.toInt64.toUInt64

section Manager

variable (nodesWorker : UInt64)

/-- The offset of a field in `shm_layout`. -/
def Loc.offset : Loc → Nat
  | .canary index => index
  | .elems => 24
  | .ready => 32
  | .done worker => 33 + worker
  | .nodes => (33 + nodesWorker.toNat + 7) / 8 * 8
  | .data index => 4096 + 8 * index

def Loc.size : Loc → Nat
  | .canary _ => 1
  | .elems => 8
  | .ready => 1
  | .done _ => 1
  | .nodes => 8
  | .data _ => 8

/-- The fields of `shm_hdr` without the padding. -/
def headerLocs : List Loc :=
  (List.range canaryVal.length).map Loc.canary ++ [.elems, .ready] ++
    (List.range nodesWorker.toNat).map Loc.done ++ [.nodes]

/-- `region_sz`, computed as a `size_t`. -/
def regionSz (elems : UInt64) : UInt64 := 8 * elems + 4096

/-- The locations in the first `size` bytes of the shared memory. -/
def regionLocs (size : Nat) : List Loc :=
  (headerLocs nodesWorker ++ (List.range (size / 8)).map Loc.data).filter fun loc =>
    loc.offset nodesWorker + loc.size ≤ size

/-- `dump_shm_page(0)` reads the header page. -/
def dumpShmPage : Prog Unit :=
  (headerLocs nodesWorker).forM fun loc => discard (read loc)

/-- `populate_shm` up to the store that signals `ready`. -/
def fillShm (input : Input) : Prog Unit := do
  (regionLocs nodesWorker (regionSz input.elems).toNat).forM fun loc => write loc 0
  input.numbers.zipIdx.forM fun entry => write (.data entry.2) entry.1.toInt64.toUInt64
  write .elems input.elems
  write .ready 0
  (List.range nodesWorker.toNat).forM fun i => write (.done i) 0
  write .nodes nodesWorker
  canaryVal.zipIdx.forM fun entry => write (.canary entry.2) entry.1

def populateShm (input : Input) : Prog Unit := do
  fillShm nodesWorker input
  write .ready 1
  dumpShmPage nodesWorker

/-! ### `wait_for_workers` and `main` -/

/-- The `for` loop over the workers, from the `i`-th test on; the flag is loaded
once to be printed and once to be tested. -/
def checkWorkers : List Nat → Prog Bool
  | [] => return true
  | i :: rest => do
      let _ ← read (.done i)
      let flag ← read (.done i)
      if flag ≠ 1 then
        return false
      else
        checkWorkers rest

def waitForWorkers : Prog Unit :=
  iterate () fun _ => do
    assertValid
    if ← checkWorkers (List.range nodesWorker.toNat) then
      return .inr ()
    else
      return .inl ()

/-- `main` of the manager node. -/
def manager (input : Input) : Prog Unit := do
  populateShm nodesWorker input
  waitForWorkers nodesWorker
  emit .callMergeWorker
  mergeWorker nodesWorker

/-- The manager and the workers with the ids below `NODES_WORKER`. -/
def programs (input : Input) : Party → Prog Unit
  | .manager => manager nodesWorker input
  | .worker id => if id < nodesWorker.toNat then sortWorker id else return ()

/-- The workload on a shared memory that starts zero-filled. -/
def psort (input : Input) :
    TransitionSystem (Threads Party Loc UInt64 Note) Party (Party × Effect Loc UInt64 Note) :=
  Threads.interleaving (fun _ => 0) (programs nodesWorker input)

end Manager

end LibIvy.Workloads.Psort
