import LibIvy.Lib.TransitionSystem
import LibIvy.Lib.Turns
import Mathlib.Logic.Function.Basic
import Mathlib.Logic.Relation

/-!
Contract: the pingpong workload as a transition system.

The manager stores `1` to the counter. Every worker waits for its turn and
increments the counter by a load and a store of its own. The workers have the ids
`1, …, worker_nodes`, and the counter starts at zero.

Owns: the position of every worker in `main`, its accesses to `arr_ul[0]`, and
their interleavings on one atomic memory.

Does not own: timing and printed output; a load whose value is only printed is an
access like any other.
-/

namespace LibIvy.Workloads.Pingpong

open LibIvy.Lib TransitionSystem Turns

/-- `ITERATIONS`. -/
def iterations : UInt64 := 50

/-- Positions of a worker, by the access that it makes next. -/
inductive Pc where
  /-- `while (arr_ul[0] < ITERATIONS)`. -/
  | check
  /-- `while (arr_ul[0] % worker_nodes != id - 1)`. -/
  | wait (count : UInt64)
  /-- The diagnostic line in the busy waiting. -/
  | report (count : UInt64)
  /-- The load of `arr_ul[0]++`. -/
  | load
  /-- The store of `arr_ul[0]++`. -/
  | store (loaded : UInt64)
  /-- The line that prints the counter. -/
  | print
  | returned
deriving DecidableEq, Repr

inductive Party where
  | manager
  | worker (id : UInt64)
deriving DecidableEq, Repr

/-- An access to the counter. A store comes with the value that it overwrites. -/
inductive Access where
  | load (party : Party) (value : UInt64)
  | store (party : Party) (held value : UInt64)
deriving DecidableEq, Repr

structure State where
  counter : UInt64
  /-- The manager has made its store. -/
  stored : Bool
  pc : UInt64 → Pc

section Model

variable (workerNodes : UInt64)

/-- Where a worker that loads goes on; `none` for a position that does not load. -/
def Pc.afterLoad (id value : UInt64) : Pc → Option Pc
  | .check => some (if value < iterations then .wait 0 else .returned)
  | .wait count =>
      some (
        if value % workerNodes ≠ id - 1 then
          if count % 1000000000 = 0 then .report (count + 1) else .wait (count + 1)
        else .load)
  | .report count => some (.wait count)
  | .load => some (.store value)
  | .store _ => none
  | .print => some .check
  | .returned => none

/-- The ids of the workers. -/
def IsWorker (id : UInt64) : Prop := 1 ≤ id ∧ id ≤ workerNodes

instance isWorkerDecidable (id : UInt64) : Decidable (IsWorker workerNodes id) :=
  inferInstanceAs (Decidable (_ ∧ _))

/-- One access of a node. -/
def access (state : State) : Party → Option (State × List Access)
  | .manager =>
      if state.stored then none
      else some (⟨1, true, state.pc⟩, [.store .manager state.counter 1])
  | .worker id =>
      if IsWorker workerNodes id then
        match state.pc id with
        | .store loaded =>
            some (⟨loaded + 1, state.stored, Function.update state.pc id .print⟩,
              [.store (.worker id) state.counter (loaded + 1)])
        | pc =>
            (pc.afterLoad workerNodes id state.counter).map fun next =>
              (⟨state.counter, state.stored, Function.update state.pc id next⟩,
                [.load (.worker id) state.counter])
      else none

/-- The workload on a memory that starts zero-filled. -/
def pingpong : TransitionSystem State Party Access where
  init := ⟨0, false, fun _ => .check⟩
  step := access workerNodes

end Model

/-! ### Steps -/

section Steps

variable {workerNodes : UInt64} {state after : State} {accesses : List Access}

/-- All a step can do: the store of the manager, or a load or the store of a
worker. -/
theorem party_cases {party : Party} (taken : access workerNodes state party = some (after, accesses)) :
    (party = .manager ∧ state.stored = false ∧ after = ⟨1, true, state.pc⟩ ∧
      accesses = [.store .manager state.counter 1]) ∨
    ∃ id, party = .worker id ∧ IsWorker workerNodes id ∧
      ((∃ next, (state.pc id).afterLoad workerNodes id state.counter = some next ∧
          after = ⟨state.counter, state.stored, Function.update state.pc id next⟩ ∧
          accesses = [.load (.worker id) state.counter]) ∨
        ∃ loaded, state.pc id = .store loaded ∧
          after = ⟨loaded + 1, state.stored, Function.update state.pc id .print⟩ ∧
          accesses = [.store (.worker id) state.counter (loaded + 1)]) := by
  cases party with
  | manager =>
      simp only [access] at taken
      split at taken
      · contradiction
      · rename_i unset
        cases taken
        exact .inl ⟨rfl, by simpa using unset, rfl, rfl⟩
  | worker id =>
      simp only [access] at taken
      split at taken
      case isFalse => contradiction
      case isTrue valid =>
        refine .inr ⟨id, rfl, valid, ?_⟩
        split at taken
        · rename_i loaded position
          cases taken
          exact .inr ⟨loaded, position, rfl, rfl⟩
        · obtain ⟨next, goesOn, same⟩ := Option.map_eq_some_iff.mp taken
          cases same
          exact .inl ⟨next, goesOn, rfl, rfl⟩

/-- A worker at a position that loads does load. -/
theorem step_load {id : UInt64} {next : Pc} (valid : IsWorker workerNodes id)
    (goesOn : (state.pc id).afterLoad workerNodes id state.counter = some next) :
    (pingpong workerNodes).step state (.worker id) =
      some (⟨state.counter, state.stored, Function.update state.pc id next⟩,
        [.load (.worker id) state.counter]) := by
  simp only [pingpong, access, if_pos valid]
  split
  · rename_i loaded position
    rw [position] at goesOn
    contradiction
  · rw [goesOn]
    rfl

/-- A worker that is about to store does store. -/
theorem step_store {id loaded : UInt64} (valid : IsWorker workerNodes id)
    (position : state.pc id = .store loaded) :
    (pingpong workerNodes).step state (.worker id) =
      some (⟨loaded + 1, state.stored, Function.update state.pc id .print⟩,
        [.store (.worker id) state.counter (loaded + 1)]) := by
  simp only [pingpong, access, if_pos valid, position]

end Steps

/-! ### Turns -/

section Turns

variable {workerNodes id other counter : UInt64} {pc next : Pc}

/-- The last value at which a worker that has seen the counter below `ITERATIONS`
gets its turn. -/
def lastTurn (workerNodes : UInt64) : Nat := workerNodes.toNat + 48

/-- The busy waiting of a worker ends at its turn. -/
theorem isTurn_iff (valid : IsWorker workerNodes id) :
    counter % workerNodes = id - 1 ↔ IsTurn workerNodes.toNat id.toNat counter.toNat := by
  have positive : 1 ≤ id.toNat := UInt64.le_iff_toNat_le.mp valid.1
  rw [← UInt64.toNat_inj, UInt64.toNat_mod, UInt64.toNat_sub_of_le _ _ valid.1, IsTurn]
  change counter.toNat % workerNodes.toNat = id.toNat - 1 ↔ _
  omega

/-- A worker inside the loop has its turn ahead; one that increments has it now,
and has loaded what the counter holds; one that has left has seen its end. -/
def Pc.Ok (workerNodes id counter : UInt64) : Pc → Prop
  | .check => True
  | .wait _ => Ahead workerNodes.toNat id.toNat (lastTurn workerNodes) counter.toNat
  | .report _ => Ahead workerNodes.toNat id.toNat (lastTurn workerNodes) counter.toNat
  | .load =>
      IsTurn workerNodes.toNat id.toNat counter.toNat ∧ counter.toNat ≤ lastTurn workerNodes
  | .store loaded =>
      loaded = counter ∧ IsTurn workerNodes.toNat id.toNat counter.toNat ∧
        counter.toNat ≤ lastTurn workerNodes
  | .print => True
  | .returned => iterations ≤ counter

/-- A worker that passes its test has a turn ahead. -/
theorem ahead_of_check (valid : IsWorker workerNodes id) (below : counter < iterations) :
    Ahead workerNodes.toNat id.toNat (lastTurn workerNodes) counter.toNat := by
  have inLoop : counter.toNat < 50 := UInt64.lt_iff_toNat_lt.mp below
  have positive : 0 < id.toNat := UInt64.le_iff_toNat_le.mp valid.1
  have bound : id.toNat ≤ workerNodes.toNat := UInt64.le_iff_toNat_le.mp valid.2
  exact (exists_turn positive bound counter.toNat).mono (by rw [lastTurn]; omega)

/-- Loads of the worker itself. -/
theorem Pc.Ok.afterLoad (valid : IsWorker workerNodes id) (ok : pc.Ok workerNodes id counter)
    (goesOn : pc.afterLoad workerNodes id counter = some next) : next.Ok workerNodes id counter := by
  cases pc with
  | check =>
      simp only [Pc.afterLoad, Option.some.injEq] at goesOn
      split at goesOn
      · rename_i below
        subst goesOn
        exact ahead_of_check valid below
      · rename_i ended
        subst goesOn
        exact UInt64.not_lt.mp ended
  | wait count =>
      simp only [Pc.afterLoad, Option.some.injEq] at goesOn
      split at goesOn
      · split at goesOn
        · subst goesOn
          exact ok
        · subst goesOn
          exact ok
      · rename_i turn
        subst goesOn
        exact ⟨(isTurn_iff valid).mp (not_not.mp turn), ok.counter_le⟩
  | report count =>
      cases goesOn
      exact ok
  | load =>
      cases goesOn
      exact ⟨rfl, ok⟩
  | store loaded => contradiction
  | print =>
      cases goesOn
      trivial
  | returned => contradiction

/-- The increment by another worker. -/
theorem Pc.Ok.of_increment (ok : pc.Ok workerNodes id counter) (different : id ≠ other)
    (turn : IsTurn workerNodes.toNat other.toNat counter.toNat)
    (fits : (counter + 1).toNat = counter.toNat + 1) : pc.Ok workerNodes id (counter + 1) := by
  have notNow : ¬IsTurn workerNodes.toNat id.toNat counter.toNat := fun now =>
    different (UInt64.toNat_inj.mp (now.unique turn))
  cases pc with
  | wait count =>
      rw [Pc.Ok, fits]
      exact Ahead.succ ok notNow
  | report count =>
      rw [Pc.Ok, fits]
      exact Ahead.succ ok notNow
  | load => exact absurd ok.1 notNow
  | store loaded => exact absurd ok.2.1 notNow
  | returned =>
      have ended := UInt64.le_iff_toNat_le.mp ok
      rw [Pc.Ok, UInt64.le_iff_toNat_le]
      omega
  | check => trivial
  | print => trivial

/-- A worker gets from one position to another by loads that find this value. -/
def Loads (workerNodes id counter : UInt64) : Pc → Pc → Prop :=
  Relation.ReflTransGen fun pc next => pc.afterLoad workerNodes id counter = some next

/-- At its turn a worker that has neither loaded for its increment nor left gets to
the store. -/
theorem loads_of_turn (turn : counter % workerNodes = id - 1) (below : counter < iterations)
    (waits : ∀ loaded, pc ≠ .store loaded) (runs : pc ≠ .returned) :
    Loads workerNodes id counter pc (.store counter) := by
  have fromLoad : Loads workerNodes id counter .load (.store counter) := .single rfl
  have fromWait : ∀ count, Loads workerNodes id counter (.wait count) (.store counter) :=
    fun count => .head (by simp [Pc.afterLoad, turn]) fromLoad
  have fromCheck : Loads workerNodes id counter .check (.store counter) :=
    .head (by simp [Pc.afterLoad, below]) (fromWait 0)
  cases pc with
  | check => exact fromCheck
  | wait count => exact fromWait count
  | report count => exact .head rfl (fromWait count)
  | load => exact fromLoad
  | store loaded => exact absurd rfl (waits loaded)
  | print => exact .head rfl fromCheck
  | returned => exact absurd rfl runs

/-- The store of the manager does not hit this worker between the end of its busy
waiting and its store, unless `1` still is its turn and it has not loaded. -/
def Pc.Undisturbed (workerNodes id : UInt64) : Pc → Prop
  | .load => 1 % workerNodes = id - 1
  | .store _ => False
  | _ => True

/-- What the store of the manager may hit. -/
theorem Pc.disturbed_cases (disturbed : ¬pc.Undisturbed workerNodes id) :
    (∃ loaded, pc = .store loaded) ∨ pc = .load ∧ 1 % workerNodes ≠ id - 1 := by
  cases pc with
  | store loaded => exact .inl ⟨loaded, rfl⟩
  | load => exact .inr ⟨rfl, disturbed⟩
  | _ => exact absurd trivial disturbed

/-- The store of the manager. -/
theorem Pc.Ok.of_manager (valid : IsWorker workerNodes id) (ok : pc.Ok workerNodes id 0)
    (undisturbed : pc.Undisturbed workerNodes id) : pc.Ok workerNodes id 1 := by
  have ahead : Ahead workerNodes.toNat id.toNat (lastTurn workerNodes) (1 : UInt64).toNat :=
    ahead_of_check valid (by decide)
  cases pc with
  | wait count => exact ahead
  | report count => exact ahead
  | load => exact ⟨(isTurn_iff valid).mp undisturbed, ahead.counter_le⟩
  | store loaded => contradiction
  | returned =>
      have ended : iterations ≤ 0 := ok
      exact absurd ended (by decide)
  | check => trivial
  | print => trivial

end Turns

end LibIvy.Workloads.Pingpong
