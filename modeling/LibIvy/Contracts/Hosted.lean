import LibIvy.Contracts.AllNodes
import LibIvy.Contracts.Coherence
import LibIvy.Runtime.Hosted

/-!
Contract: programs on a reliable cluster run as on one atomic memory.

Owns: the simulation of a hosted run by an interleaving of its programs, for any
programs, layout and number of nodes, under any condition that keeps the loads of
the cluster coherent.

Does not own: the coherence of the loads, the programs.
-/

namespace LibIvy

open Lib AtomicMemory TransitionSystem

/-- Every load of such runs is answered with what the last stores left. -/
def CoherentLoads (cfg : Config) (allowed : Sys → Action → Prop) : Prop :=
  ∀ {trace s thread addr count later events}, Run (machine cfg) allowed trace s →
    allowed s (.load thread addr count) → s.step cfg (.load thread addr count) = some (later, events) →
    readSpan (s.node thread.node).mem addr count =
      readSpan (after (fun _ => 0) (history trace)) addr count

theorem coherentLoads_giving {cfg : Config} (zero : cfg.managerId = 0)
    (single : cfg.appThreads = 1) : CoherentLoads cfg (ReliableGiving cfg) := by
  intro trace s thread addr count later events run _ taken
  exact load_currentAll zero single run taken

section Simulation

variable {Party Loc Value Note : Type} [DecidableEq Party] [DecidableEq Loc]

/-- The cluster has come from `accesses` and its bytes hold `mem`, which an
interleaving of the programs with the same events leaves. -/
structure Host.Simulates (host : Host Party Loc Value) (cfg : Config)
    (allowed : Sys → Action → Prop) (initial : Loc → Value)
    (programs : Party → Program Loc Value Note Unit)
    (trace : List (Party × Effect Loc Value Note)) (state : Hosted Party Loc Value Note)
    (accesses : List Event) (mem : Loc → Value) : Prop where
  cluster : Run (machine cfg) allowed accesses state.sys
  holds : host.layout.Holds (after (fun _ => 0) (history accesses)) mem
  atomic : Run (Threads.interleaving initial programs) anyStep trace ⟨mem, state.programs⟩
  permitted : ∀ party, Program.Only host.layout.Permits (state.programs party)

namespace Host.Simulates

variable {host : Host Party Loc Value} {cfg : Config} {allowed : Sys → Action → Prop}
variable {initial : Loc → Value} {programs : Party → Program Loc Value Note Unit}
variable {trace : List (Party × Effect Loc Value Note)} {state : Hosted Party Loc Value Note}
variable {accesses : List Event} {mem : Loc → Value}

/-- A step of the cluster that is no access. -/
theorem quiet (simulates : host.Simulates cfg allowed initial programs trace state accesses mem)
    {action : Action} {later : Sys} {events : List Event} (allows : allowed state.sys action)
    (taken : state.sys.step cfg action = some (later, events)) (silent : history events = []) :
    host.Simulates cfg allowed initial programs trace ⟨later, state.programs⟩
      (accesses ++ events) mem where
  cluster := simulates.cluster.step allows taken
  holds := by
    rw [history_append, silent, List.append_nil]
    exact simulates.holds
  atomic := simulates.atomic
  permitted := simulates.permitted

/-- A step of a program, and what the cluster makes of it. -/
theorem advance (simulates : host.Simulates cfg allowed initial programs trace state accesses mem)
    {party : Party} {next : Program Loc Value Note Unit}
    {emitted : Option (Effect Loc Value Note)} {later : Sys} {events : List Event}
    (stepped : (state.programs party).step mem = some (next, emitted))
    (cluster : Run (machine cfg) allowed (accesses ++ events) later)
    (holds : host.layout.Holds (after (fun _ => 0) (history (accesses ++ events)))
      (Effect.applyAll mem emitted.toList)) :
    host.Simulates cfg allowed initial programs (trace ++ Threads.tagged party emitted.toList)
      ⟨later, Function.update state.programs party next⟩ (accesses ++ events)
      (Effect.applyAll mem emitted.toList) where
  cluster := cluster
  holds := holds
  atomic := Threads.run_step simulates.atomic stepped
  permitted other := by
    change Program.Only _ (Function.update state.programs party next other)
    by_cases same : other = party
    · subst same
      rw [Function.update_self]
      exact ((simulates.permitted other).step stepped).1
    · rw [Function.update_of_ne same]
      exact simulates.permitted other

/-- What the program is about to load is the same on its node and in the atomic
memory. -/
theorem view_eq (simulates : host.Simulates cfg allowed initial programs trace state accesses mem)
    (coherent : CoherentLoads cfg allowed) {party : Party} {loc : Loc} {later : Sys}
    {events : List Event} (valid : host.layout.Valid loc)
    (allows : allowed state.sys
      (.load (host.place party) (host.layout.start loc) (host.layout.size loc)))
    (taken : state.sys.step cfg (.load (host.place party) (host.layout.start loc)
      (host.layout.size loc)) = some (later, events)) :
    host.view state.sys party loc = mem loc := by
  rw [← simulates.holds loc valid]
  exact Layout.fetch_congr (coherent simulates.cluster allows taken)

/-- A step of a program that is no fault. -/
theorem performed (simulates : host.Simulates cfg allowed initial programs trace state accesses mem)
    (coherent : CoherentLoads cfg allowed) {party : Party} {next : Program Loc Value Note Unit}
    {event : Effect Loc Value Note} {action : Action} {later : Sys} {events : List Event}
    (stepped : (state.programs party).step (host.view state.sys party) = some (next, some event))
    (performs : host.action? state.sys party event = some action) (accessed : action.isFault = false)
    (allows : allowed state.sys action)
    (taken : state.sys.step cfg action = some (later, events)) :
    ∃ accesses mem, host.Simulates cfg allowed initial programs
      (trace ++ Threads.tagged party [event]) ⟨later, Function.update state.programs party next⟩
      accesses mem := by
  have fits := ((simulates.permitted party).step stepped).2 event rfl
  rcases host.action?_cases performs with ⟨rq, addr, rfl⟩ | ⟨loc, value, rfl, rfl⟩ |
    ⟨loc, value, rfl, rfl⟩
  · contradiction
  · -- the value that the node holds is the one that the atomic memory holds
    have same := simulates.view_eq coherent fits allows taken
    have onMem := Program.step_congr stepped (by rintro _ _ ⟨⟩; exact same)
    refine ⟨_, _, simulates.advance onMem (simulates.cluster.step allows taken) ?_⟩
    obtain ⟨-, -, -, -, rfl, rfl⟩ := Sys.step_load taken
    rw [history_append, after_append]
    exact simulates.holds
  · have onMem : (state.programs party).step mem = some (next, some (.store loc value)) :=
      Program.step_congr stepped (by rintro _ _ ⟨⟩)
    refine ⟨_, _, simulates.advance onMem (simulates.cluster.step allows taken) ?_⟩
    obtain ⟨-, -, -, -, rfl, rfl⟩ := Sys.step_store taken
    rw [history_append, after_append]
    exact simulates.holds.store fits.1 fits.2

/-- What a step of the hosted system does is a step of the interleaving, or none. -/
theorem step (simulates : host.Simulates cfg allowed initial programs trace state accesses mem)
    (coherent : CoherentLoads cfg allowed) {choice : HostedAction Party}
    {later : Hosted Party Loc Value Note} {events : List (Party × Effect Loc Value Note)}
    (allows : host.Permits allowed state choice)
    (taken : (host.hosted cfg programs).step state choice = some (later, events)) :
    ∃ accesses mem,
      host.Simulates cfg allowed initial programs (trace ++ events) later accesses mem := by
  cases choice with
  | runtime action =>
      obtain ⟨ofRuntime, same, rfl, emitted, moved⟩ := host.hosted_runtime taken
      have silent : history emitted = [] := by
        rcases access_cases moved with ⟨_, _, _, rfl⟩ | ⟨_, _, _, rfl⟩ | ⟨silent, -⟩
        · contradiction
        · contradiction
        · exact silent
      have quiet := simulates.quiet (allows action rfl) moved silent
      rw [← same] at quiet
      exact ⟨_, _, by simpa using quiet⟩
  | program party =>
      obtain ⟨next, emitted, stepped, ⟨silent, sameSys, sameProgram, rfl⟩ |
        ⟨action, accessed, performs, moved, moves⟩⟩ := host.stepProgram_cases taken
      · -- a note or a step without an event
        have onMem : (state.programs party).step mem = some (next, emitted) := by
          apply Program.step_congr stepped
          rintro loc value rfl
          simp only [Option.bind_some, Host.action?] at silent
          split at silent <;> contradiction
        have kept : Effect.applyAll mem emitted.toList = mem := by
          cases emitted with
          | none => rfl
          | some event =>
              cases event with
              | note text => rfl
              | _ =>
                  simp only [Option.bind_some, Host.action?] at silent
                  split at silent <;> contradiction
        have cluster : Run (machine cfg) allowed (accesses ++ []) state.sys := by
          simpa using simulates.cluster
        have advanced := simulates.advance onMem cluster (by simpa [kept] using simulates.holds)
        rw [← sameProgram, ← sameSys] at advanced
        exact ⟨_, _, advanced⟩
      · have allowsAction : allowed state.sys action :=
          allows action (by simp [Host.clusterAction?, stepped, performs])
        cases emitted with
        | none => contradiction
        | some event =>
            rcases moves with ⟨faults, sameProgram, rfl⟩ | ⟨accesses, sameProgram, rfl⟩
            · have silent : history accessed = [] := by
                cases action with
                | fault thread rq addr =>
                    obtain ⟨-, -, -, -, -, rfl⟩ := Sys.step_fault moved
                    rfl
                | _ => contradiction
              have quiet := simulates.quiet allowsAction moved silent
              rw [← sameProgram] at quiet
              exact ⟨_, _, by simpa using quiet⟩
            · have performed := simulates.performed coherent stepped performs accesses
                allowsAction moved
              rw [← sameProgram] at performed
              exact performed

end Host.Simulates

variable {host : Host Party Loc Value} {cfg : Config} {allowed : Sys → Action → Prop}
variable {initial : Loc → Value} {programs : Party → Program Loc Value Note Unit}
variable {trace : List (Party × Effect Loc Value Note)} {state : Hosted Party Loc Value Note}

/-- A hosted run is one of the cluster, and one of the programs on an atomic memory. -/
theorem hosted_simulates (coherent : CoherentLoads cfg allowed)
    (start : host.layout.Holds (fun _ => 0) initial)
    (only : ∀ party, Program.Only host.layout.Permits (programs party))
    (run : Run (host.hosted cfg programs) (host.Permits allowed) trace state) :
    ∃ accesses mem, host.Simulates cfg allowed initial programs trace state accesses mem := by
  induction run with
  | init => exact ⟨[], initial, .init, start, .init, only⟩
  | step _ permitted taken inductionHypothesis =>
      obtain ⟨accesses, mem, simulates⟩ := inductionHypothesis
      exact simulates.step coherent permitted taken

end Simulation

end LibIvy
