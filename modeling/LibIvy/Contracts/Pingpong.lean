import LibIvy.Workloads.Pingpong
import Mathlib.Data.List.Nodup

/-!
Contract: pingpong loses no increment while the manager stores in time.

Owns: what every access does to the counter in all interleavings of the manager
with any number of workers, and the runs in which the manager stores too late.

Does not own: how the workers are started.

Nothing orders the store of the manager against the workers: zero already is the
turn of worker `1`, so workers count without waiting for the manager.
-/

namespace LibIvy.Contracts.Pingpong

open LibIvy.Lib TransitionSystem Turns LibIvy.Workloads.Pingpong

/-- The value that an access stores. -/
def produced? : Access → Option UInt64
  | .load _ _ => none
  | .store _ _ value => some value

/-- The values stored to the counter, in order. -/
def produced (trace : List Access) : List UInt64 := trace.filterMap produced?

theorem produced_append (first second : List Access) :
    produced (first ++ second) = produced first ++ produced second :=
  List.filterMap_append

/-- Every worker that stores adds one to what the counter holds, no store lowers
the counter, and no value is stored twice. -/
structure NoLostIncrement (trace : List Access) : Prop where
  increments : ∀ id held value, .store (.worker id) held value ∈ trace →
    value.toNat = held.toNat + 1
  ascending : ∀ party held value, .store party held value ∈ trace → held ≤ value
  once : (produced trace).Nodup

/-- The manager stores while the counter is zero, and no worker is past its busy
waiting then; with one worker, that worker has not loaded. -/
def InTime (workerNodes : UInt64) (state : State) (party : Party) : Prop :=
  party = .manager → state.counter = 0 ∧
    ∀ id, IsWorker workerNodes id → (state.pc id).Undisturbed workerNodes id

/-- The counter has counted from zero, one at a time. -/
structure Counting (workerNodes : UInt64) (trace : List Access) (state : State) : Prop where
  turns : ∀ id, IsWorker workerNodes id → (state.pc id).Ok workerNodes id state.counter
  stores : ∀ party held value, .store party held value ∈ trace → value.toNat = held.toNat + 1
  counted : (produced trace).map UInt64.toNat = List.range' 1 state.counter.toNat

section Runs

variable {workerNodes : UInt64} {trace accesses : List Access} {state before after : State}

theorem Counting.noLostIncrement (counting : Counting workerNodes trace state) :
    NoLostIncrement trace where
  increments _ _ _ member := counting.stores _ _ _ member
  ascending party held value member := by
    have next := counting.stores party held value member
    rw [UInt64.le_iff_toNat_le]
    omega
  once := by
    have distinct : ((produced trace).map UInt64.toNat).Nodup := by
      rw [counting.counted]
      exact List.nodup_range'
    exact List.Nodup.of_map UInt64.toNat distinct

/-- A load changes only the position of the worker that loads. -/
theorem Counting.load {id : UInt64} {next : Pc} (counting : Counting workerNodes trace before)
    (valid : IsWorker workerNodes id)
    (goesOn : (before.pc id).afterLoad workerNodes id before.counter = some next) (stored : Bool) :
    Counting workerNodes (trace ++ [.load (.worker id) before.counter])
      ⟨before.counter, stored, Function.update before.pc id next⟩ where
  turns other otherValid := by
    by_cases same : other = id
    · subst same
      simpa using (counting.turns other valid).afterLoad valid goesOn
    · simpa [Function.update_of_ne same] using counting.turns other otherValid
  stores party held value member := counting.stores party held value (by simpa using member)
  counted := by
    have none : produced [.load (.worker id) before.counter] = [] := rfl
    rw [produced_append, none, List.append_nil]
    exact counting.counted

/-- A store of one more than the counter holds. -/
theorem Counting.store {party : Party} {value : UInt64} {pc : UInt64 → Pc}
    (counting : Counting workerNodes trace before)
    (next : value.toNat = before.counter.toNat + 1)
    (turns : ∀ id, IsWorker workerNodes id → (pc id).Ok workerNodes id value) (stored : Bool) :
    Counting workerNodes (trace ++ [.store party before.counter value]) ⟨value, stored, pc⟩ where
  turns := turns
  stores writer held written member := by
    rcases List.mem_append.mp member with earlier | last
    · exact counting.stores writer held written earlier
    · cases List.mem_singleton.mp last
      exact next
  counted := by
    have last : produced [.store party before.counter value] = [value] := rfl
    rw [produced_append, last, List.map_append, counting.counted, next, List.range'_concat]
    simp [next, Nat.add_comm]

theorem lastTurn_fits (fits : workerNodes.toNat + 49 < 2 ^ 64) {counter : UInt64}
    (bound : counter.toNat ≤ lastTurn workerNodes) : (counter + 1).toNat = counter.toNat + 1 := by
  rw [lastTurn] at bound
  rw [UInt64.toNat_add]
  change (counter.toNat + 1) % 2 ^ 64 = _
  exact Nat.mod_eq_of_lt (by omega)

/-- What one step preserves. -/
theorem Counting.step {party : Party} (fits : workerNodes.toNat + 49 < 2 ^ 64)
    (counting : Counting workerNodes trace before) (inTime : InTime workerNodes before party)
    (taken : access workerNodes before party = some (after, accesses)) :
    Counting workerNodes (trace ++ accesses) after := by
  rcases party_cases taken with ⟨isManager, -, rfl, rfl⟩ | ⟨id, rfl, valid, worker⟩
  · obtain ⟨zero, undisturbed⟩ := inTime isManager
    refine counting.store (by rw [zero]; rfl) (fun id valid => ?_) true
    have ok := counting.turns id valid
    rw [zero] at ok
    exact ok.of_manager valid (undisturbed id valid)
  · rcases worker with ⟨next, goesOn, rfl, rfl⟩ | ⟨loaded, position, rfl, rfl⟩
    · exact counting.load valid goesOn before.stored
    · have own := counting.turns id valid
      rw [position] at own
      obtain ⟨rfl, turn, bound⟩ := own
      have next := lastTurn_fits fits bound
      refine counting.store next (fun other otherValid => ?_) before.stored
      by_cases same : other = id
      · subst same
        rw [Function.update_self]
        trivial
      · rw [Function.update_of_ne same]
        exact (counting.turns other otherValid).of_increment same turn next

end Runs

/-- What a whole run keeps. -/
theorem Counting.of_run {workerNodes : UInt64} {trace : List Access} {state : State}
    (fits : workerNodes.toNat + 49 < 2 ^ 64)
    (run : Run (pingpong workerNodes) (InTime workerNodes) trace state) :
    Counting workerNodes trace state := by
  refine run.invariant (Counting workerNodes) ?_ fun _ counting inTime taken =>
    counting.step fits inTime taken
  exact ⟨fun _ _ => trivial, fun _ _ _ member => absurd member List.not_mem_nil, rfl⟩

/-! ### A store of the manager that comes too late -/

section Late

variable {workerNodes : UInt64} {trace : List Access} {state : State}

/-- The run can go on so that an increment is lost. -/
def CanLose (workerNodes : UInt64) (trace : List Access) : Prop :=
  ∃ later final, Run (pingpong workerNodes) anyStep (trace ++ later) final ∧
    ¬NoLostIncrement (trace ++ later)

theorem CanLose.of_append {accesses : List Access}
    (loses : CanLose workerNodes (trace ++ accesses)) : CanLose workerNodes trace := by
  obtain ⟨later, final, run, lost⟩ := loses
  rw [List.append_assoc] at run lost
  exact ⟨accesses ++ later, final, run, lost⟩

theorem CanLose.now (run : Run (pingpong workerNodes) anyStep trace state)
    (lost : ¬NoLostIncrement trace) : CanLose workerNodes trace :=
  ⟨[], state, by simpa using run, by simpa using lost⟩

/-- A worker may be scheduled while it only loads. -/
theorem run_loads {id : UInt64} {target : Pc} (run : Run (pingpong workerNodes) anyStep trace state)
    (valid : IsWorker workerNodes id)
    (loads : Loads workerNodes id state.counter (state.pc id) target) :
    ∃ later, Run (pingpong workerNodes) anyStep (trace ++ later)
      ⟨state.counter, state.stored, Function.update state.pc id target⟩ := by
  induction loads with
  | refl => exact ⟨[], by simpa using run⟩
  | @tail middle next _ goesOn inductionHypothesis =>
      obtain ⟨later, reached⟩ := inductionHypothesis
      have here : (Function.update state.pc id middle id).afterLoad workerNodes id state.counter =
          some next := by rwa [Function.update_self]
      have stepped := reached.step trivial (step_load valid here)
      rw [List.append_assoc, Function.update_idem] at stepped
      exact ⟨_, stepped⟩

/-- A worker that is about to store what the counter holds already. -/
theorem CanLose.of_stale {id loaded : UInt64}
    (run : Run (pingpong workerNodes) anyStep trace state) (valid : IsWorker workerNodes id)
    (position : state.pc id = .store loaded) (stale : state.counter = loaded + 1) :
    CanLose workerNodes trace := by
  refine (CanLose.now (run.step trivial (step_store valid position)) ?_).of_append
  intro noLoss
  have next := noLoss.increments id state.counter (loaded + 1) (by simp)
  rw [stale] at next
  omega

/-- Two workers that are both about to increment the value that the counter holds. -/
theorem CanLose.of_two {first second : UInt64}
    (run : Run (pingpong workerNodes) anyStep trace state) (firstValid : IsWorker workerNodes first)
    (secondValid : IsWorker workerNodes second) (different : first ≠ second)
    (firstLoads : Loads workerNodes first state.counter (state.pc first) (.store state.counter))
    (secondLoads : Loads workerNodes second state.counter (state.pc second) (.store state.counter)) :
    CanLose workerNodes trace := by
  obtain ⟨early, firstReady⟩ := run_loads run firstValid firstLoads
  have untouched : Function.update state.pc first (.store state.counter) second = state.pc second :=
    Function.update_of_ne different.symm _ _
  obtain ⟨later, bothReady⟩ := run_loads firstReady secondValid (untouched ▸ secondLoads)
  have stored := bothReady.step trivial (step_store secondValid (Function.update_self ..))
  have stale : Function.update (Function.update (Function.update state.pc first (.store state.counter))
      second (.store state.counter)) second .print first = .store state.counter := by
    simp [Function.update_of_ne different]
  exact (CanLose.of_stale stored firstValid stale rfl).of_append.of_append.of_append

theorem second_turn (valid : IsWorker workerNodes 2) : (1 : UInt64) % workerNodes = 2 - 1 := by
  have count : 2 ≤ workerNodes.toNat := UInt64.le_iff_toNat_le.mp valid.2
  refine (isTurn_iff valid).mpr ?_
  change 1 % workerNodes.toNat + 1 = 2
  rw [Nat.mod_eq_of_lt count]

/-- If `1` is not the turn of the first worker, it is not the only one. -/
theorem second_of_elsewhere (valid : IsWorker workerNodes 1)
    (elsewhere : (1 : UInt64) % workerNodes ≠ 1 - 1) : IsWorker workerNodes 2 := by
  have count : 1 ≤ workerNodes.toNat := UInt64.le_iff_toNat_le.mp valid.2
  refine ⟨by decide, UInt64.le_iff_toNat_le.mpr ?_⟩
  by_contra alone
  change ¬2 ≤ workerNodes.toNat at alone
  obtain rfl : workerNodes = 1 := UInt64.toNat_inj.mp (show workerNodes.toNat = 1 by omega)
  exact elsewhere rfl

/-- Zero is the turn of the first worker only. -/
theorem first_of_turn {id : UInt64} (turn : IsTurn workerNodes.toNat id.toNat (0 : UInt64).toNat) :
    id = 1 := by
  have place : 0 % workerNodes.toNat + 1 = id.toNat := turn
  rw [Nat.zero_mod] at place
  exact UInt64.toNat_inj.mp place.symm

/-- The second worker has not gone past its busy waiting while the counter is zero. -/
theorem secondWaits (counting : Counting workerNodes trace state) (zero : state.counter = 0)
    (valid : IsWorker workerNodes 2) :
    (∀ loaded, state.pc 2 ≠ .store loaded) ∧ state.pc 2 ≠ .returned := by
  have ok := counting.turns 2 valid
  rw [zero] at ok
  constructor
  · intro loaded position
    rw [position] at ok
    exact absurd (first_of_turn ok.2.1) (by decide)
  · intro position
    rw [position] at ok
    have ended : iterations ≤ 0 := ok
    exact absurd ended (by decide)

/-- The first worker is about to load, and the manager's store has made it the turn
of the second one. -/
theorem canLose_of_load (counting : Counting workerNodes trace state) (zero : state.counter = 0)
    (stored : Run (pingpong workerNodes) anyStep (trace ++ [.store .manager state.counter 1])
      ⟨1, true, state.pc⟩)
    (valid : IsWorker workerNodes 1) (position : state.pc 1 = .load)
    (elsewhere : (1 : UInt64) % workerNodes ≠ 1 - 1) :
    CanLose workerNodes (trace ++ [.store .manager state.counter 1]) := by
  have secondValid : IsWorker workerNodes 2 := second_of_elsewhere valid elsewhere
  obtain ⟨waits, runs⟩ := secondWaits counting zero secondValid
  have turn : (1 : UInt64) % workerNodes = 2 - 1 := second_turn secondValid
  have below : (1 : UInt64) < iterations := by decide
  refine CanLose.of_two stored valid secondValid (by decide) ?_ ?_
  · rw [position]
    exact .single rfl
  · exact loads_of_turn turn below waits runs

/-- Once the counter has left zero, a worker has stored `1`. -/
theorem Counting.one_produced (counting : Counting workerNodes trace state)
    (counted : state.counter ≠ 0) : 1 ∈ produced trace := by
  have positive : state.counter.toNat ≠ 0 := fun none => counted (UInt64.toNat_inj.mp none)
  have member : 1 ∈ (produced trace).map UInt64.toNat := by
    rw [counting.counted, List.mem_range'_1]
    omega
  obtain ⟨value, inTrace, isOne⟩ := List.mem_map.mp member
  obtain rfl : value = 1 := UInt64.toNat_inj.mp isOne
  exact inTrace

/-- After a store of the manager that is not in time, an increment can be lost. -/
theorem canLose_of_late (fits : workerNodes.toNat + 49 < 2 ^ 64)
    (run : Run (pingpong workerNodes) (InTime workerNodes) trace state)
    (pending : state.stored = false) (late : ¬InTime workerNodes state .manager) :
    CanLose workerNodes (trace ++ [.store .manager state.counter 1]) := by
  have counting := Counting.of_run fits run
  have taken : (pingpong workerNodes).step state .manager =
      some (⟨1, true, state.pc⟩, [.store .manager state.counter 1]) := by
    simp [pingpong, access, pending]
  have stored := (run.mono (fun _ _ _ => trivial) : Run _ anyStep _ _).step trivial taken
  by_cases zero : state.counter = 0
  · have hit : ∃ id, IsWorker workerNodes id ∧ ¬(state.pc id).Undisturbed workerNodes id := by
      by_contra none
      refine late fun _ => ⟨zero, fun id valid => ?_⟩
      by_contra disturbed
      exact none ⟨id, valid, disturbed⟩
    obtain ⟨id, valid, disturbed⟩ := hit
    have ok := counting.turns id valid
    rw [zero] at ok
    rcases Pc.disturbed_cases disturbed with ⟨loaded, position⟩ | ⟨position, elsewhere⟩
    · rw [position] at ok
      exact CanLose.of_stale stored valid position (by rw [ok.1]; rfl)
    · rw [position] at ok
      obtain rfl := first_of_turn ok.1
      exact canLose_of_load counting zero stored valid position elsewhere
  · -- the value `1` is stored for the second time
    refine CanLose.now stored fun noLoss => ?_
    have distinct := noLoss.once
    have last : produced [.store .manager state.counter 1] = [1] := rfl
    rw [produced_append, last, List.nodup_append] at distinct
    exact distinct.2.2 1 (counting.one_produced zero) 1 (by simp) rfl

end Late

/-- While the manager stores in time no increment is lost, for every number of
workers for which the counter does not wrap and in all interleavings; and when it
does not, the run can go on so that one is lost. -/
theorem pingpong_noLostIncrement_inTime {workerNodes : UInt64}
    (fits : workerNodes.toNat + 49 < 2 ^ 64) {trace : List Access} {state : State}
    (run : Run (pingpong workerNodes) (InTime workerNodes) trace state) :
    NoLostIncrement trace ∧
      (state.stored = false → ¬InTime workerNodes state .manager →
        CanLose workerNodes (trace ++ [.store .manager state.counter 1])) :=
  ⟨(Counting.of_run fits run).noLostIncrement, canLose_of_late fits run⟩

/-- A test for two workers: the manager stores before either has begun. -/
def storesFirst (state : State) (party : Party) : Bool :=
  party != .manager || (state.counter == 0 && state.pc 1 == .check && state.pc 2 == .check)

theorem inTime_of_storesFirst (state : State) (party : Party)
    (tested : storesFirst state party = true) : InTime 2 state party := by
  intro isManager
  subst isManager
  simp only [storesFirst, bne_self_eq_false, Bool.false_or, Bool.and_eq_true, beq_iff_eq] at tested
  obtain ⟨⟨zero, first⟩, second⟩ := tested
  refine ⟨zero, fun id valid => ?_⟩
  have lower : 1 ≤ id.toNat := UInt64.le_iff_toNat_le.mp valid.1
  have upper : id.toNat ≤ 2 := UInt64.le_iff_toNat_le.mp valid.2
  have isOne : id.toNat = 1 ∨ id.toNat = 2 := by omega
  rcases isOne with isOne | isTwo
  · obtain rfl : id = 1 := UInt64.toNat_inj.mp isOne
    rw [first]
    trivial
  · obtain rfl : id = 2 := UInt64.toNat_inj.mp isTwo
    rw [second]
    trivial

/-- The manager stores first, then worker `2` increments. -/
theorem pingpong_noLostIncrement_storesFirst :
    ∃ trace state, Run (pingpong 2) (InTime 2) trace state ∧
      .store (.worker 2) 1 2 ∈ trace ∧ NoLostIncrement trace := by
  obtain ⟨trace, state, run, checked⟩ := exists_run (pingpong 2) storesFirst
    (fun _ trace => trace.contains (.store (.worker 2) 1 2))
    [.manager, .worker 2, .worker 2, .worker 2, .worker 2] inTime_of_storesFirst (by decide +kernel)
  exact ⟨trace, state, run, List.contains_iff_mem.mp checked,
    (pingpong_noLostIncrement_inTime (by decide) run).1⟩

/-- Worker `1` loads zero, the manager stores, worker `1` stores; and the two
workers count to two before the manager stores. -/
theorem pingpong_losesIncrement :
    (∃ trace state, Run (pingpong 2) anyStep trace state ∧
        .store (.worker 1) 1 1 ∈ trace ∧ ¬NoLostIncrement trace) ∧
      ∃ trace state, Run (pingpong 2) anyStep trace state ∧
        .store .manager 2 1 ∈ trace ∧ ¬NoLostIncrement trace := by
  constructor
  · obtain ⟨trace, state, run, checked⟩ := exists_run (pingpong 2) (fun _ _ => true)
      (fun _ trace => trace.contains (.store (.worker 1) 1 1))
      [.worker 1, .worker 1, .worker 1, .manager, .worker 1] (fun _ _ _ => trivial)
      (by decide +kernel)
    have stale := List.contains_iff_mem.mp checked
    exact ⟨trace, state, run, stale, fun noLoss =>
      absurd (noLoss.increments 1 1 1 stale) (by decide)⟩
  · obtain ⟨trace, state, run, checked⟩ := exists_run (pingpong 2) (fun _ _ => true)
      (fun _ trace => trace.contains (.store .manager 2 1))
      [.worker 1, .worker 1, .worker 1, .worker 1, .worker 2, .worker 2, .worker 2, .worker 2,
        .manager] (fun _ _ _ => trivial) (by decide +kernel)
    have lowered := List.contains_iff_mem.mp checked
    exact ⟨trace, state, run, lowered, fun noLoss =>
      absurd (noLoss.ascending .manager 2 1 lowered) (by decide)⟩

end LibIvy.Contracts.Pingpong
