import Mathlib.Data.List.Basic

/-!
Contract: guarded, executable transition systems with observable events.

A system is one step function; `none` means the action is disabled in that
state. The same definition serves replay of a concrete schedule by evaluation
and induction over every run, so the guards used by both cannot drift apart.

Owns: runs restricted to the steps that meet a condition, their event traces,
the invariant rules, logs of the steps of a run, and the replay of schedules.

Does not own: fairness, liveness, or any particular system.
-/

namespace LibIvy.Lib

universe u v w

/-- A transition system whose enabled steps emit a list of events. -/
structure TransitionSystem (State : Type u) (Action : Type v) (Event : Type w) where
  init : State
  step : State → Action → Option (State × List Event)

namespace TransitionSystem

variable {State : Type u} {Action : Type v} {Event : Type w}

/-- `Run system allowed trace state`: some run whose steps all meet `allowed`
leads from the initial state to `state` and emits `trace`. -/
inductive Run (system : TransitionSystem State Action Event)
    (allowed : State → Action → Prop) : List Event → State → Prop where
  | init : Run system allowed [] system.init
  | step {trace events : List Event} {before after : State} {action : Action}
      (run : Run system allowed trace before)
      (permitted : allowed before action)
      (taken : system.step before action = some (after, events)) :
      Run system allowed (trace ++ events) after

/-- States reached by runs whose steps all meet `allowed`. -/
def Reachable (system : TransitionSystem State Action Event)
    (allowed : State → Action → Prop) (state : State) : Prop :=
  ∃ trace, Run system allowed trace state

/-- No condition on the steps of a run. -/
def anyStep : State → Action → Prop := fun _ _ => True

section Invariants

variable {system : TransitionSystem State Action Event}
variable {allowed weaker : State → Action → Prop}

theorem Run.reachable {trace : List Event} {state : State}
    (run : Run system allowed trace state) : Reachable system allowed state :=
  ⟨trace, run⟩

/-- The steps of a run meet any condition that permitted steps from the states of
such runs meet. -/
theorem Run.refine {trace : List Event} {state : State} (run : Run system allowed trace state)
    (meets : ∀ {trace events state after action}, Run system allowed trace state →
      allowed state action → system.step state action = some (after, events) →
      weaker state action) : Run system weaker trace state := by
  induction run with
  | init => exact .init
  | step run permitted taken inductionHypothesis =>
      exact inductionHypothesis.step (meets run permitted taken) taken

/-- A run under a condition is a run under any weaker one. -/
theorem Run.mono {trace : List Event} {state : State} (run : Run system allowed trace state)
    (weaken : ∀ state action, allowed state action → weaker state action) :
    Run system weaker trace state :=
  run.refine fun _ permitted _ => weaken _ _ permitted

theorem Reachable.init : Reachable system allowed system.init :=
  ⟨[], .init⟩

theorem Reachable.next {before after : State} {action : Action} {events : List Event}
    (reached : Reachable system allowed before) (permitted : allowed before action)
    (taken : system.step before action = some (after, events)) :
    Reachable system allowed after := by
  obtain ⟨trace, run⟩ := reached
  exact (Run.step run permitted taken).reachable

/-- Trace invariants: a relation between the events emitted so far and the
current state that every permitted step preserves. -/
theorem Run.invariant (property : List Event → State → Prop)
    (initial : property [] system.init)
    (preserved : ∀ {trace events before after action},
      Run system allowed trace before → property trace before →
      allowed before action → system.step before action = some (after, events) →
      property (trace ++ events) after)
    {trace : List Event} {state : State} (run : Run system allowed trace state) :
    property trace state := by
  induction run with
  | init => exact initial
  | step run permitted taken inductionHypothesis =>
      exact preserved run inductionHypothesis permitted taken

/-- The invariant rule. Earlier invariants enter through reachability of the
state before the step. -/
theorem Reachable.invariant (property : State → Prop)
    (initial : property system.init)
    (preserved : ∀ {before after action events},
      Reachable system allowed before → property before →
      allowed before action → system.step before action = some (after, events) →
      property after)
    {state : State} (reached : Reachable system allowed state) : property state := by
  obtain ⟨trace, run⟩ := reached
  exact run.invariant (fun _ current => property current) initial
    (fun run holds permitted taken => preserved run.reachable holds permitted taken)

end Invariants

section Log

variable {system : TransitionSystem State Action Event} {allowed : State → Action → Prop}

/-- The same system where every step records the state it starts from and the
action. -/
def logged (system : TransitionSystem State Action Event) :
    TransitionSystem State Action (State × Action) where
  init := system.init
  step before action :=
    (system.step before action).map fun outcome => (outcome.1, [(before, action)])

theorem logged_step {before after : State} {action : Action} {entries : List (State × Action)}
    (taken : system.logged.step before action = some (after, entries)) :
    entries = [(before, action)] ∧ ∃ events, system.step before action = some (after, events) := by
  obtain ⟨⟨next, events⟩, stepped, same⟩ := Option.map_eq_some_iff.mp taken
  obtain ⟨rfl, rfl⟩ := Prod.mk.inj same
  exact ⟨rfl, events, stepped⟩

/-- A logged run reaches what the system reaches. -/
theorem Run.of_logged {log : List (State × Action)} {state : State}
    (run : Run system.logged allowed log state) : Reachable system allowed state := by
  induction run with
  | init => exact .init
  | step _ permitted taken inductionHypothesis =>
      obtain ⟨-, events, stepped⟩ := logged_step taken
      exact inductionHypothesis.next permitted stepped

/-- A logged run whose entries all meet a further condition is a run under it. -/
theorem Run.of_logged_within {condition : State → Action → Prop} {log : List (State × Action)}
    {state : State} (run : Run system.logged allowed log state)
    (each : ∀ entry ∈ log, condition entry.1 entry.2) :
    Reachable system (fun state action => allowed state action ∧ condition state action) state := by
  induction run with
  | init => exact .init
  | step _ permitted taken inductionHypothesis =>
      obtain ⟨rfl, events, stepped⟩ := logged_step taken
      have earlier := inductionHypothesis fun entry member => each entry (List.mem_append_left _ member)
      exact earlier.next ⟨permitted, each _ (List.mem_append_right _ (List.mem_singleton_self _))⟩
        stepped

end Log

section Replay

variable (system : TransitionSystem State Action Event)

/-- Replay a schedule and test every step before it is taken; `none` when a step
fails the test or is disabled. -/
def replayWithin (allowed : State → Action → Bool) :
    State → List Action → Option (State × List Event)
  | state, [] => some (state, [])
  | state, action :: rest =>
      if allowed state action then
        match system.step state action with
        | none => none
        | some (next, events) =>
            match replayWithin allowed next rest with
            | none => none
            | some (final, later) => some (final, events ++ later)
      else none

variable {system}

theorem replayWithin_cons {test : State → Action → Bool} {action : Action} {rest : List Action}
    {before after : State} {events : List Event}
    (replayed : system.replayWithin test before (action :: rest) = some (after, events)) :
    ∃ next stepEvents later, test before action = true ∧
      system.step before action = some (next, stepEvents) ∧
      system.replayWithin test next rest = some (after, later) ∧ events = stepEvents ++ later := by
  simp only [replayWithin] at replayed
  split at replayed
  case isFalse => contradiction
  case isTrue tested =>
    split at replayed
    · contradiction
    · rename_i next stepEvents taken
      split at replayed
      · contradiction
      · rename_i final later restReplayed
        simp only [Option.some.injEq, Prod.mk.injEq] at replayed
        obtain ⟨rfl, rfl⟩ := replayed
        exact ⟨next, stepEvents, later, tested, taken, restReplayed, rfl⟩

theorem Run.replayWithin {allowed : State → Action → Prop}
    {test : State → Action → Bool}
    (sound : ∀ state action, test state action = true → allowed state action)
    {schedule : List Action} {trace events : List Event} {before after : State}
    (run : Run system allowed trace before)
    (replayed : system.replayWithin test before schedule = some (after, events)) :
    Run system allowed (trace ++ events) after := by
  induction schedule generalizing trace events before with
  | nil =>
      simp only [TransitionSystem.replayWithin, Option.some.injEq, Prod.mk.injEq] at replayed
      obtain ⟨rfl, rfl⟩ := replayed
      simpa using run
  | cons action rest inductionHypothesis =>
      obtain ⟨next, stepEvents, later, tested, taken, restReplayed, rfl⟩ :=
        replayWithin_cons replayed
      rw [← List.append_assoc]
      exact inductionHypothesis (run.step (sound _ _ tested) taken) restReplayed

/-- What every tested step preserves holds after the replay. -/
theorem replayWithin_invariant {test : State → Action → Bool} (property : State → Prop)
    (preserved : ∀ {before after action events}, property before → test before action = true →
      system.step before action = some (after, events) → property after)
    {schedule : List Action} {before after : State} {events : List Event}
    (replayed : system.replayWithin test before schedule = some (after, events))
    (holds : property before) : property after := by
  induction schedule generalizing before events with
  | nil =>
      simp only [TransitionSystem.replayWithin, Option.some.injEq, Prod.mk.injEq] at replayed
      obtain ⟨rfl, rfl⟩ := replayed
      exact holds
  | cons action rest inductionHypothesis =>
      obtain ⟨next, stepEvents, later, tested, taken, restReplayed, -⟩ := replayWithin_cons replayed
      exact inductionHypothesis restReplayed (preserved holds tested taken)

variable (system) in
/-- A successful checked replay is a run; `check` is a test of its outcome. -/
theorem exists_run {allowed : State → Action → Prop} (test : State → Action → Bool)
    (check : State → List Event → Bool) (schedule : List Action)
    (sound : ∀ state action, test state action = true → allowed state action)
    (replayed : (system.replayWithin test system.init schedule).any
      (fun outcome => check outcome.1 outcome.2) = true) :
    ∃ trace state, Run system allowed trace state ∧ check state trace = true := by
  cases finished : system.replayWithin test system.init schedule with
  | none => simp [finished] at replayed
  | some outcome =>
      rw [finished] at replayed
      exact ⟨outcome.2, outcome.1, by simpa using Run.replayWithin sound Run.init finished, replayed⟩

end Replay

end TransitionSystem

end LibIvy.Lib
