import LibIvy.Lib.ByteLayout
import LibIvy.Lib.Interleaving
import LibIvy.Runtime.Machine

/-!
Contract: programs that run on the shared memory of a cluster.

Every program has an application thread. What it loads and stores are bytes of
the memory of its node. An access that the protection of the node forbids enters
the fault handler and leaves the program where it is; once the handler has
returned the same access is tried again. While a thread is inside its fault
handler its program stands still.

Owns: the placement of programs, the access that an event of a program is for
its node, the cluster and its programs as one transition system, and the
inversion of its steps.

Does not own: the programs, the layout of their memory.
-/

namespace LibIvy

open Lib AtomicMemory TransitionSystem

/-- The thread of each program, and where its locations are. -/
structure Host (Party Loc Value : Type) where
  place : Party → AppId
  distinct : Function.Injective place
  layout : Layout Loc Value UInt8

/-- The cluster and what is left of each program. -/
structure Hosted (Party Loc Value Note : Type) where
  sys : Sys
  programs : Party → Program Loc Value Note Unit

/-- Scheduling choices: a step of the runtime or of a program. -/
inductive HostedAction (Party : Type) where
  | runtime (action : Action)
  | program (party : Party)
deriving DecidableEq

/-- The step is one of a handler, or the failure of a call of one. -/
def Action.ofRuntime : Action → Bool
  | .load _ _ _ => false
  | .store _ _ _ => false
  | .fault _ _ _ => false
  | _ => true

/-- The step enters a fault handler. -/
def Action.isFault : Action → Bool
  | .fault _ _ _ => true
  | _ => false

namespace Sys

variable {cfg : Config} {s : Sys} {thread : AppId} {addr : Addr}

theorem step_load_of {count : Nat} (outside : s.app thread = .run) (runs : cfg.runs thread = true)
    (within : withinPage addr count = true)
    (readable : ((s.node thread.node).prot (pgAlign addr)).readable = true) :
    s.step cfg (.load thread addr count) =
      some (s, [.load thread addr (readSpan (s.node thread.node).mem addr count)]) := by
  simp only [step, outside, runs, within, readable, Bool.and_self, if_true]

theorem step_store_of {values : List UInt8} (outside : s.app thread = .run)
    (runs : cfg.runs thread = true) (within : withinPage addr values.length = true)
    (writable : ((s.node thread.node).prot (pgAlign addr)).writable = true) :
    s.step cfg (.store thread addr values) =
      some (s.setNode thread.node
        { s.node thread.node with mem := writeSpan (s.node thread.node).mem addr values },
        [.store thread addr values]) := by
  simp only [step, outside, runs, within, writable, Bool.and_self, if_true]

theorem step_fault_of {rq : Rq} (outside : s.app thread = .run) (runs : cfg.runs thread = true)
    (within : withinPage addr 1 = true)
    (faults : rq.faults ((s.node thread.node).prot (pgAlign addr)) = true) :
    s.step cfg (.fault thread rq addr) = some (s.setApp thread (.fault rq addr .entry), []) := by
  simp only [step, outside, runs, within, faults, Bool.and_self, if_true]

end Sys

section

variable {Party Loc Value Note : Type} [DecidableEq Party]

namespace Host

variable (host : Host Party Loc Value)

/-- What the node of the program holds at each location. -/
def view (s : Sys) (party : Party) : Loc → Value :=
  host.layout.fetch (s.node (host.place party).node).mem

/-- What an event of the program is for its node: an access, or a fault while the
protection forbids it. -/
def action? (s : Sys) (party : Party) : Effect Loc Value Note → Option Action
  | .load loc _ =>
      let start := host.layout.start loc
      if ((s.node (host.place party).node).prot (pgAlign start)).readable then
        some (.load (host.place party) start (host.layout.size loc))
      else some (.fault (host.place party) .rd start)
  | .store loc value =>
      let start := host.layout.start loc
      if ((s.node (host.place party).node).prot (pgAlign start)).writable then
        some (.store (host.place party) start (host.layout.encode loc value))
      else some (.fault (host.place party) .wr start)
  | .note _ => none

/-- The program steps on the view that its node has of the memory. -/
def stepProgram (cfg : Config) (state : Hosted Party Loc Value Note) (party : Party) :
    Option (Hosted Party Loc Value Note × List (Party × Effect Loc Value Note)) :=
  match (state.programs party).step (host.view state.sys party) with
  | none => none
  | some (next, emitted) =>
      let programs := Function.update state.programs party next
      match emitted.bind (host.action? state.sys party) with
      | none =>
          if (state.sys.app (host.place party)).isRunning then
            some (⟨state.sys, programs⟩, Threads.tagged party emitted.toList)
          else none
      | some action =>
          match state.sys.step cfg action with
          | none => none
          | some (after, _) =>
              if action.isFault then some (⟨after, state.programs⟩, [])
              else some (⟨after, programs⟩, Threads.tagged party emitted.toList)

/-- The cluster runs the programs. -/
def hosted (cfg : Config) (programs : Party → Program Loc Value Note Unit) :
    TransitionSystem (Hosted Party Loc Value Note) (HostedAction Party)
      (Party × Effect Loc Value Note) where
  init := ⟨Sys.initial, programs⟩
  step state
    | .runtime action =>
        if action.ofRuntime then
          (state.sys.step cfg action).map fun outcome => (⟨outcome.1, state.programs⟩, [])
        else none
    | .program party => host.stepProgram cfg state party

/-- The step of the cluster behind a scheduling choice. -/
def clusterAction? (state : Hosted Party Loc Value Note) : HostedAction Party → Option Action
  | .runtime action => some action
  | .program party =>
      ((state.programs party).step (host.view state.sys party)).bind fun outcome =>
        outcome.2.bind (host.action? state.sys party)

/-- The step of the cluster meets the condition. -/
def Permits (allowed : Sys → Action → Prop) (state : Hosted Party Loc Value Note)
    (choice : HostedAction Party) : Prop :=
  ∀ action, host.clusterAction? state choice = some action → allowed state.sys action

end Host

/-! ### What a step can do -/

variable {host : Host Party Loc Value} {cfg : Config} {state after : Hosted Party Loc Value Note}

/-- A program that steps has stepped on the view of its node. -/
theorem Host.stepProgram_cases {party : Party} {events : List (Party × Effect Loc Value Note)}
    (taken : host.stepProgram cfg state party = some (after, events)) :
    ∃ next emitted, (state.programs party).step (host.view state.sys party) = some (next, emitted) ∧
      ((emitted.bind (host.action? state.sys party) = none ∧ after.sys = state.sys ∧
          after.programs = Function.update state.programs party next ∧
          events = Threads.tagged party emitted.toList) ∨
        ∃ action accesses, emitted.bind (host.action? state.sys party) = some action ∧
          state.sys.step cfg action = some (after.sys, accesses) ∧
          ((action.isFault = true ∧ after.programs = state.programs ∧ events = []) ∨
            (action.isFault = false ∧
              after.programs = Function.update state.programs party next ∧
              events = Threads.tagged party emitted.toList))) := by
  unfold stepProgram at taken
  split at taken
  · contradiction
  · rename_i next emitted stepped
    refine ⟨next, emitted, stepped, ?_⟩
    dsimp only at taken
    split at taken
    · rename_i silent
      split at taken
      · obtain ⟨rfl, rfl⟩ := taken
        exact .inl ⟨silent, rfl, rfl, rfl⟩
      · contradiction
    · rename_i action performed
      split at taken
      · contradiction
      · rename_i later accesses moved
        split at taken
        · rename_i faults
          obtain ⟨rfl, rfl⟩ := taken
          exact .inr ⟨action, accesses, performed, moved, .inl ⟨faults, rfl, rfl⟩⟩
        · rename_i accessed
          obtain ⟨rfl, rfl⟩ := taken
          exact .inr ⟨action, accesses, performed, moved,
            .inr ⟨Bool.eq_false_iff.mpr accessed, rfl, rfl⟩⟩

/-- The step that an access of a program is. -/
theorem Host.hosted_access {programs : Party → Program Loc Value Note Unit} {party : Party}
    {next : Program Loc Value Note Unit} {event : Effect Loc Value Note} {action : Action}
    {later : Sys} {accesses : List Event}
    (stepped : (state.programs party).step (host.view state.sys party) = some (next, some event))
    (performs : host.action? state.sys party event = some action) (accessed : action.isFault = false)
    (taken : state.sys.step cfg action = some (later, accesses)) :
    (host.hosted cfg programs).step state (.program party) =
      some (⟨later, Function.update state.programs party next⟩, [(party, event)]) := by
  simp [hosted, stepProgram, stepped, performs, accessed, taken, Threads.tagged]

/-- The step that a fault of a program is. -/
theorem Host.hosted_fault {programs : Party → Program Loc Value Note Unit} {party : Party}
    {next : Program Loc Value Note Unit} {event : Effect Loc Value Note} {action : Action}
    {later : Sys} {accesses : List Event}
    (stepped : (state.programs party).step (host.view state.sys party) = some (next, some event))
    (performs : host.action? state.sys party event = some action) (faults : action.isFault = true)
    (taken : state.sys.step cfg action = some (later, accesses)) :
    (host.hosted cfg programs).step state (.program party) = some (⟨later, state.programs⟩, []) := by
  simp [hosted, stepProgram, stepped, performs, faults, taken]

/-- The step that everything else of a program is. -/
theorem Host.hosted_silent {programs : Party → Program Loc Value Note Unit} {party : Party}
    {next : Program Loc Value Note Unit} {emitted : Option (Effect Loc Value Note)}
    (stepped : (state.programs party).step (host.view state.sys party) = some (next, emitted))
    (silent : emitted.bind (host.action? state.sys party) = none)
    (running : state.sys.app (host.place party) = .run) :
    (host.hosted cfg programs).step state (.program party) =
      some (⟨state.sys, Function.update state.programs party next⟩,
        Threads.tagged party emitted.toList) := by
  simp [hosted, stepProgram, stepped, silent, running, App.isRunning]

omit [DecidableEq Party] in
/-- What a program does is permitted when its access is allowed. -/
theorem Host.permits_program {allowed : Sys → Action → Prop} {party : Party}
    {next : Program Loc Value Note Unit} {emitted : Option (Effect Loc Value Note)}
    (stepped : (state.programs party).step (host.view state.sys party) = some (next, emitted))
    (allows : ∀ action, emitted.bind (host.action? state.sys party) = some action →
      allowed state.sys action) : host.Permits allowed state (.program party) := by
  intro action performs
  exact allows action (by simpa [clusterAction?, stepped] using performs)

/-- A step of the runtime leaves the programs where they are. -/
theorem Host.hosted_runtime {programs : Party → Program Loc Value Note Unit} {action : Action}
    {events : List (Party × Effect Loc Value Note)}
    (taken : (host.hosted cfg programs).step state (.runtime action) = some (after, events)) :
    action.ofRuntime = true ∧ after.programs = state.programs ∧ events = [] ∧
      ∃ emitted, state.sys.step cfg action = some (after.sys, emitted) := by
  change (if action.ofRuntime then _ else _) = _ at taken
  split at taken
  case isFalse => contradiction
  case isTrue ofRuntime =>
    obtain ⟨⟨later, emitted⟩, moved, same⟩ := Option.map_eq_some_iff.mp taken
    obtain ⟨rfl, rfl⟩ := Prod.mk.inj same
    exact ⟨ofRuntime, rfl, rfl, emitted, moved⟩

omit [DecidableEq Party] in
/-- The action behind an event is one of the thread that performs it. -/
theorem Host.action?_cases {s : Sys} {party : Party} {event : Effect Loc Value Note}
    {action : Action} (performed : host.action? s party event = some action) :
    (∃ rq addr, action = .fault (host.place party) rq addr) ∨
    (∃ loc value, event = .load loc value ∧
      action = .load (host.place party) (host.layout.start loc) (host.layout.size loc)) ∨
    ∃ loc value, event = .store loc value ∧
      action = .store (host.place party) (host.layout.start loc) (host.layout.encode loc value) := by
  cases event with
  | load loc value =>
      simp only [action?] at performed
      split at performed <;> obtain rfl := Option.some.inj performed
      · exact .inr (.inl ⟨loc, value, rfl, rfl⟩)
      · exact .inl ⟨_, _, rfl⟩
  | store loc value =>
      simp only [action?] at performed
      split at performed <;> obtain rfl := Option.some.inj performed
      · exact .inr (.inr ⟨loc, value, rfl, rfl⟩)
      · exact .inl ⟨_, _, rfl⟩
  | note text => contradiction

end

end LibIvy
