import LibIvy.Lib.Relabel
import LibIvy.Workloads.InputFile

/-!
Contract: pdot among all its nodes.

Node 1, which the source calls the manager, loads the vectors, waits for the
workers and prints the sum of their results. Node 0 is the manager of libivy and
accesses nothing. The line that node 1 prints at its end is the only note.

Owns: `main` of every node, what each node may do, and that it does no more.

Does not own: the interleavings, sleeping and diagnostic output.
-/

namespace LibIvy.Workloads.Pdot

open LibIvy.Lib Program Guarantee

/-- The lines that `main` prints at its end. -/
inductive Note where
  /-- `"Dot product: " << merge_worker()`. -/
  | dotProduct (value : UInt64)
deriving DecidableEq, Repr

abbrev Main := Program Field UInt64 Note

/-- What `main` calls accesses fields of `shm_layout` and prints no note. -/
def ofShm {Result : Type} (program : Prog Result) : Main Result := program.relabel .shm Empty.elim

def ofFields {Result : Type} (program : Program Field UInt64 Empty Result) : Main Result :=
  program.relabel id Empty.elim

section Model

variable (nodesWorker : UInt64)

/-- The `for` loop over the flags. It does not end at one that is not set. -/
def checkWorkers : Prog Bool :=
  (List.range nodesWorker.toNat).foldlM (fun allDone i => do
    if (← read (.done i)) = 0 then return false else return allDone) true

def waitForWorkers : Prog Unit :=
  iterate () fun _ => do
    if ← checkWorkers nodesWorker then
      return .inr ()
    else
      return .inl ()

/-- `main` of node 1. -/
def manager (input : Psort.Input) : Main Unit := do
  ofFields (loadVectors nodesWorker input)
  ofShm (waitForWorkers nodesWorker)
  let result ← ofShm (mergeWorker nodesWorker)
  emit (.dotProduct result)

/-- Node 1, and the nodes after it with the ids that `main` passes to `mult_worker`. -/
def programs (input : Psort.Input) : Party → Main Unit
  | .manager => manager nodesWorker input
  | .worker id => if id < nodesWorker.toNat then ofShm (multWorker nodesWorker id) else return ()

/-- The workload on a shared memory that starts zero-filled. -/
def pdot (input : Psort.Input) :
    TransitionSystem (Threads Party Field UInt64 Note) Party (Party × Effect Field UInt64 Note) :=
  Threads.interleaving (fun _ => 0) (programs nodesWorker input)

end Model

/-! ### The memory that is published -/

section Published

variable (nodesWorker : UInt64) (input : Psort.Input)

/-- The memory that the signal publishes. -/
def published : Field → UInt64 := Effect.applyAll (fun _ => 0) (loadStores nodesWorker input)

def publishedShm : Mem := fun loc => published nodesWorker input (.shm loc)

/-- The memory just before the signal. -/
def filledMem : Field → UInt64 :=
  Effect.applyAll (fun _ => 0) (Effect.stores (fillStores nodesWorker input) :
    List (Effect Field UInt64 Empty))

variable {nodesWorker input}

/-- Only the signal sets `ready`. -/
theorem fillStores_ready {entry : Field × UInt64} (member : entry ∈ fillStores nodesWorker input)
    (atReady : entry.1 = .shm .ready) : entry.2 = 0 := by
  rcases List.mem_append.mp member with inNumbers | inHeader
  · obtain ⟨_, -, rfl⟩ := List.mem_map.mp inNumbers
    simp at atReady
  · rcases mem_headerStores.mp inHeader with ⟨_, _, -, rfl⟩ | rfl | rfl | ⟨_, -, rfl⟩ <;>
      first | rfl | simp at atReady

/-- The signal publishes what has been filled. -/
theorem published_eq : published nodesWorker input =
    Function.update (filledMem nodesWorker input) (.shm .ready) 1 :=
  applyAll_loadStores nodesWorker input _

@[simp] theorem publishedShm_ready : publishedShm nodesWorker input .ready = 1 := by
  rw [publishedShm, published_eq, Function.update_self]

/-- No flag is set when the memory is published. -/
@[simp] theorem publishedShm_done (id : Nat) : publishedShm nodesWorker input (.done id) = 0 := by
  rw [publishedShm, published_eq, Function.update_of_ne (by simp)]
  refine Effect.applyAll_stores (fun entry member here => ?_) (.inl rfl)
  rcases List.mem_append.mp member with inNumbers | inHeader
  · obtain ⟨_, -, rfl⟩ := List.mem_map.mp inNumbers
    simp at here
  · rcases mem_headerStores.mp inHeader with ⟨_, _, -, rfl⟩ | rfl | rfl | ⟨_, -, rfl⟩ <;>
      first | rfl | simp at here

end Published

/-! ### What each node may do -/

abbrev Cfg := Snapshot Party Field UInt64 Note

section Guarantee

variable (nodesWorker : UInt64) (input : Psort.Input)

/-- The sum of a worker. -/
def workerSum (id : Nat) : UInt64 := partSum nodesWorker (publishedShm nodesWorker input) id

/-- The manager stores until it signals `ready`; the workers store after that, the
flag after the sum. -/
def mainMay : Guarantee Party Field UInt64 Note
  | .manager, config, .store loc value =>
      config.mem (.shm .ready) ≠ 1 ∧ (Function.update config.mem loc value (.shm .ready) ≠ 1 ∨
        Function.update config.mem loc value = published nodesWorker input)
  | .worker id, config, .store loc value =>
      config.mem (.shm .ready) = 1 ∧
        (loc = .shm (.result id) ∧ value = workerSum nodesWorker input id ∨
          loc = .shm (.done id) ∧
            config.mem (.shm (.result id)) = workerSum nodesWorker input id)
  | _, _, _ => True

/-- The memory is published, and a flag that is set has its sum. -/
structure Open (config : Cfg) : Prop where
  loaded : ∀ loc, Input loc → config.mem (.shm loc) = publishedShm nodesWorker input loc
  sums : ∀ id, config.mem (.shm (.done id)) ≠ 0 →
    config.mem (.shm (.result id)) = workerSum nodesWorker input id

/-- Not yet published, or open. -/
def Inv (config : Cfg) : Prop := config.mem (.shm .ready) ≠ 1 ∨ Open nodesWorker input config

variable {nodesWorker input} {party : Party} {config : Cfg} {event : Effect Field UInt64 Note}

theorem Open.ready (opened : Open nodesWorker input config) : config.mem (.shm .ready) = 1 :=
  (opened.loaded .ready trivial).trans publishedShm_ready

/-- What the signal publishes is open. -/
theorem open_published (config : Cfg) (same : config.mem = published nodesWorker input) :
    Open nodesWorker input config where
  loaded loc _ := congrFun same (.shm loc)
  sums id set := by
    have unset : config.mem (.shm (.done id)) = 0 := (congrFun same _).trans (publishedShm_done id)
    exact absurd unset set

/-- A store of a worker leaves the input and the other workers' fields alone. -/
theorem worker_store {id : Nat} {stored : Field} {value : UInt64}
    (kept : mainMay nodesWorker input (.worker id) config (.store stored value)) {loc : Loc}
    (notResult : loc ≠ .result id) (notDone : loc ≠ .done id) :
    Function.update config.mem stored value (.shm loc) = config.mem (.shm loc) := by
  apply Function.update_of_ne
  rintro rfl
  rcases kept.2 with ⟨same, -⟩ | ⟨same, -⟩
  · exact notResult (Field.shm.inj same)
  · exact notDone (Field.shm.inj same)

/-- Every node keeps an open memory open. -/
theorem open_kept (opened : Open nodesWorker input config)
    (kept : mainMay nodesWorker input party config event) :
    Open nodesWorker input (config.record party event) := by
  cases event with
  | load => exact ⟨opened.loaded, opened.sums⟩
  | note => exact ⟨opened.loaded, opened.sums⟩
  | store stored value =>
      cases party with
      | manager => exact absurd opened.ready kept.1
      | worker worker =>
          constructor
          · intro loc isInput
            have notResult : loc ≠ .result worker := by
              rintro rfl
              exact isInput
            have notDone : loc ≠ .done worker := by
              rintro rfl
              exact isInput
            exact (worker_store kept notResult notDone).trans (opened.loaded loc isInput)
          · intro id set
            rw [Snapshot.record_mem, Effect.apply_store] at set ⊢
            by_cases own : id = worker
            · subst own
              rcases kept.2 with ⟨rfl, rfl⟩ | ⟨rfl, sum⟩
              · rw [Function.update_self]
              · rw [Function.update_of_ne (by simp)]
                exact sum
            · have notOwn : ∀ {loc : Loc}, loc = .result id ∨ loc = .done id →
                  Function.update config.mem stored value (.shm loc) = config.mem (.shm loc) := by
                rintro loc (rfl | rfl)
                · exact worker_store kept (by simpa using own) (by simp)
                · exact worker_store kept (by simp) (by simpa using own)
              rw [notOwn (.inr rfl)] at set
              rw [notOwn (.inl rfl)]
              exact opened.sums id set

theorem inv_kept (inv : Inv nodesWorker input config)
    (kept : mainMay nodesWorker input party config event) :
    Inv nodesWorker input (config.record party event) := by
  rcases inv with unset | opened
  · cases event with
    | load => exact .inl unset
    | note => exact .inl unset
    | store stored value =>
        cases party with
        | worker worker => exact absurd kept.1 unset
        | manager =>
            rcases kept.2 with still | publishes
            · exact .inl still
            · exact .inr (open_published _ publishes)
  · exact .inr (open_kept opened kept)

end Guarantee

end LibIvy.Workloads.Pdot
