import LibIvy.Lib.Program
import LibIvy.Lib.TransitionSystem

/-!
Contract: programs that run at once on one atomic memory.

Every thread runs its own program; a schedule picks the thread that takes the
next step. Loads and stores act on the one memory in the order of the schedule,
so the memory is sequentially consistent.

Owns: the interleaving of a family of programs as a transition system, the
inversion of its steps, the memory that a trace leaves, the events of one thread,
runs that go on, runs of one thread alone, and runs of one thread after the
other.

Does not own: what the threads may do to each other.
-/

namespace LibIvy.Lib

/-- The shared memory and what is left of each thread's program. -/
structure Threads (Thread Loc Value Note : Type) where
  mem : Loc → Value
  programs : Thread → Program Loc Value Note Unit

namespace Threads

open TransitionSystem

variable {Thread Loc Value Note : Type} [DecidableEq Thread] [DecidableEq Loc]

/-- The thread takes one step of its program. -/
def step (state : Threads Thread Loc Value Note) (thread : Thread) :
    Option (Threads Thread Loc Value Note × List (Thread × Effect Loc Value Note)) :=
  match (state.programs thread).step state.mem with
  | none => none
  | some (program, none) => some (⟨state.mem, Function.update state.programs thread program⟩, [])
  | some (program, some event) =>
      some (⟨event.apply state.mem, Function.update state.programs thread program⟩,
        [(thread, event)])

/-- All interleavings of the programs from one memory. -/
def interleaving (mem : Loc → Value) (programs : Thread → Program Loc Value Note Unit) :
    TransitionSystem (Threads Thread Loc Value Note) Thread (Thread × Effect Loc Value Note) where
  init := ⟨mem, programs⟩
  step := step

/-- Every thread has returned. -/
def Finished (state : Threads Thread Loc Value Note) : Prop :=
  ∀ thread, state.programs thread = .ret ()

variable {state after : Threads Thread Loc Value Note} {thread : Thread}

/-- All a step can do: a silent step of the thread, or one event of it. -/
theorem step_cases {events : List (Thread × Effect Loc Value Note)}
    (taken : state.step thread = some (after, events)) :
    ∃ program emitted, (state.programs thread).step state.mem = some (program, emitted) ∧
      after.programs = Function.update state.programs thread program ∧
      ((emitted = none ∧ events = [] ∧ after.mem = state.mem) ∨
        ∃ event, emitted = some event ∧ events = [(thread, event)] ∧
          after.mem = event.apply state.mem) := by
  unfold step at taken
  split at taken
  · contradiction
  · rename_i program stepped
    simp only [Option.some.injEq, Prod.mk.injEq] at taken
    obtain ⟨rfl, rfl⟩ := taken
    exact ⟨program, none, stepped, rfl, .inl ⟨rfl, rfl, rfl⟩⟩
  · rename_i program event stepped
    simp only [Option.some.injEq, Prod.mk.injEq] at taken
    obtain ⟨rfl, rfl⟩ := taken
    exact ⟨program, some event, stepped, rfl, .inr ⟨event, rfl, rfl, rfl⟩⟩

section Runs

variable {mem : Loc → Value} {programs : Thread → Program Loc Value Note Unit}
variable {trace : List (Thread × Effect Loc Value Note)}

/-- The events of one thread, tagged with it. -/
def tagged (thread : Thread) (events : List (Effect Loc Value Note)) :
    List (Thread × Effect Loc Value Note) :=
  events.map fun event => (thread, event)

omit [DecidableEq Thread] [DecidableEq Loc] in
theorem mem_tagged {other : Thread} {events : List (Effect Loc Value Note)}
    {event : Effect Loc Value Note} (member : (other, event) ∈ tagged thread events) :
    other = thread ∧ event ∈ events := by
  obtain ⟨found, listed, same⟩ := List.mem_map.mp member
  obtain ⟨rfl, rfl⟩ := Prod.mk.inj same
  exact ⟨rfl, listed⟩

/-- The events of one thread. -/
def eventsOf (thread : Thread) (trace : List (Thread × Effect Loc Value Note)) :
    List (Effect Loc Value Note) :=
  (trace.filter fun entry => entry.1 = thread).map Prod.snd

omit [DecidableEq Loc] in
theorem eventsOf_append (first second : List (Thread × Effect Loc Value Note)) :
    eventsOf thread (first ++ second) = eventsOf thread first ++ eventsOf thread second := by
  simp [eventsOf]

omit [DecidableEq Loc] in
@[simp] theorem eventsOf_own (event : Effect Loc Value Note) :
    eventsOf thread [(thread, event)] = [event] := by
  simp [eventsOf]

omit [DecidableEq Loc] in
theorem eventsOf_other {other : Thread} (different : other ≠ thread)
    (event : Effect Loc Value Note) : eventsOf thread [(other, event)] = [] := by
  simp [eventsOf, different]

/-- Every thread performs what its program may perform. -/
theorem run_only (allowed : Thread → Effect Loc Value Note → Prop)
    (only : ∀ thread, Program.Only (allowed thread) (programs thread))
    (run : Run (interleaving mem programs) anyStep trace state) :
    (∀ thread, Program.Only (allowed thread) (state.programs thread)) ∧
      ∀ entry ∈ trace, allowed entry.1 entry.2 := by
  induction run with
  | init => exact ⟨only, by simp⟩
  | @step _ _ before _ moved _ _ taken inductionHypothesis =>
      obtain ⟨left, performed⟩ := inductionHypothesis
      obtain ⟨next, emitted, stepped, samePrograms, cases⟩ := step_cases taken
      obtain ⟨rest, permitted⟩ := (left moved).step stepped
      constructor
      · intro thread
        rw [samePrograms]
        by_cases same : thread = moved
        · subst same
          rwa [Function.update_self]
        · rw [Function.update_of_ne same]
          exact left thread
      · intro entry member
        rcases List.mem_append.mp member with earlier | now
        · exact performed entry earlier
        · rcases cases with ⟨-, rfl, -⟩ | ⟨event, emits, rfl, -⟩
          · contradiction
          · obtain rfl := List.mem_singleton.mp now
            exact permitted event emits

/-- A run that goes on from where another one has led. -/
theorem run_append {later : List (Thread × Effect Loc Value Note)}
    (run : Run (interleaving mem programs) anyStep trace state)
    (goesOn : Run (interleaving state.mem state.programs) anyStep later after) :
    Run (interleaving mem programs) anyStep (trace ++ later) after := by
  induction goesOn with
  | init => simpa [interleaving] using run
  | step _ permitted taken inductionHypothesis =>
      rw [← List.append_assoc]
      exact inductionHypothesis.step permitted taken

/-- The memory is what the events leave. -/
theorem run_mem (run : Run (interleaving mem programs) anyStep trace state) :
    state.mem = Effect.applyAll mem (trace.map Prod.snd) := by
  induction run with
  | init => rfl
  | step _ _ taken inductionHypothesis =>
      rw [List.map_append, Effect.applyAll_append, ← inductionHypothesis]
      obtain ⟨program, emitted, -, -, ⟨-, rfl, sameMem⟩ | ⟨event, -, rfl, sameMem⟩⟩ := step_cases taken
      · exact sameMem
      · exact sameMem

/-- The state after one step of a thread. -/
theorem run_step {program : Program Loc Value Note Unit} {emitted : Option (Effect Loc Value Note)}
    (run : Run (interleaving mem programs) anyStep trace state)
    (stepped : (state.programs thread).step state.mem = some (program, emitted)) :
    Run (interleaving mem programs) anyStep (trace ++ tagged thread emitted.toList)
      ⟨Effect.applyAll state.mem emitted.toList, Function.update state.programs thread program⟩ := by
  have taken : state.step thread = some
      (⟨Effect.applyAll state.mem emitted.toList, Function.update state.programs thread program⟩,
        tagged thread emitted.toList) := by
    unfold step
    rw [stepped]
    cases emitted with
    | none => rfl
    | some event => rfl
  exact run.step trivial taken

/-- A thread that is scheduled alone until the first part of its program returns. -/
theorem run_part {Result : Type} {program : Program Loc Value Note Result}
    (rest : Result → Program Loc Value Note Unit) {memory left : Loc → Value}
    {events : List (Effect Loc Value Note)} {result : Result}
    (evaluated : program.Eval memory events result left)
    (run : Run (interleaving mem programs) anyStep trace state) (atMem : state.mem = memory)
    (atProgram : state.programs thread = program.bind rest) :
    Run (interleaving mem programs) anyStep (trace ++ tagged thread events)
      ⟨left, Function.update state.programs thread (rest result)⟩ := by
  induction evaluated generalizing trace state with
  | @ret memory result =>
      subst atMem
      have same : Function.update state.programs thread (rest result) = state.programs :=
        Function.update_eq_self_iff.mpr atProgram.symm
      simpa [tagged, same] using run
  | load _ inductionHypothesis =>
      subst atMem
      have next := run_step run (by rw [atProgram]; rfl)
      simpa [tagged] using inductionHypothesis next rfl (Function.update_self ..)
  | store _ inductionHypothesis =>
      subst atMem
      have next := run_step run (by rw [atProgram]; rfl)
      simpa [tagged] using inductionHypothesis next rfl (Function.update_self ..)
  | note _ inductionHypothesis =>
      subst atMem
      have next := run_step run (by rw [atProgram]; rfl)
      simpa [tagged] using inductionHypothesis next rfl (Function.update_self ..)
  | @loop _ _ loopState body following _ _ _ _ _ inductionHypothesis =>
      subst atMem
      have entered : ((Program.loop loopState body following).bind rest).step state.mem =
          some (((body loopState).bind (Program.again body following)).bind rest, none) := by
        rw [Program.bind_assoc]
        simp only [Program.again_bind]
        rfl
      have next := run_step run (by rw [atProgram]; exact entered)
      simpa [tagged] using inductionHypothesis next rfl (Function.update_self ..)

/-- A thread that is scheduled alone until it returns. -/
theorem run_eval {program : Program Loc Value Note Unit} {memory left : Loc → Value}
    {events : List (Effect Loc Value Note)} {result : Unit}
    (evaluated : program.Eval memory events result left)
    (run : Run (interleaving mem programs) anyStep trace state) (atMem : state.mem = memory)
    (atProgram : state.programs thread = program) :
    Run (interleaving mem programs) anyStep (trace ++ tagged thread events)
      ⟨left, Function.update state.programs thread (.ret ())⟩ := by
  apply run_part Program.ret evaluated run atMem
  rw [atProgram, Program.bind_ret]

variable (mem programs) in
/-- Threads scheduled one after the other, each until it returns; `inv` holds between
them. -/
theorem exists_run_inOrder {order : List Thread} (once : order.Nodup)
    (inv : (Loc → Value) → Prop) (initial : inv mem)
    (next : ∀ thread ∈ order, ∀ memory, inv memory →
      ∃ events left, (programs thread).Eval memory events () left ∧ inv left) :
    ∃ trace state, Run (interleaving mem programs) anyStep trace state ∧ inv state.mem ∧
      ∀ thread, state.programs thread = if thread ∈ order then .ret () else programs thread := by
  suffices upTo : ∀ rest before, order = before ++ rest →
      ∀ trace state, Run (interleaving mem programs) anyStep trace state → inv state.mem →
      (∀ thread, state.programs thread = if thread ∈ before then .ret () else programs thread) →
      ∃ trace state, Run (interleaving mem programs) anyStep trace state ∧ inv state.mem ∧
        ∀ thread, state.programs thread = if thread ∈ order then .ret () else programs thread by
    exact upTo order [] rfl [] _ .init initial (fun thread => by simp [interleaving])
  intro rest
  induction rest with
  | nil =>
      intro before split trace state run holds left
      obtain rfl : order = before := by simpa using split
      exact ⟨trace, state, run, holds, left⟩
  | cons thread rest inductionHypothesis =>
      intro before split trace state run holds left
      have fresh : thread ∉ before := by
        intro member
        rw [split, List.nodup_append] at once
        exact once.2.2 _ member _ (List.mem_cons_self ..) rfl
      obtain ⟨events, after, evaluated, kept⟩ := next thread (by simp [split]) state.mem holds
      have atProgram : state.programs thread = programs thread := by
        rw [left thread, if_neg fresh]
      refine inductionHypothesis (before ++ [thread]) (by simp [split]) _ _
        (run_eval evaluated run rfl atProgram) kept fun other => ?_
      by_cases same : other = thread
      · subst same
        simp
      · simp [left other, same]

variable (mem programs) in
/-- The same for threads that are numbered. -/
theorem exists_run_numbered {worker : Nat → Thread} (distinct : Function.Injective worker)
    (count : Nat) (inv : (Loc → Value) → Prop) (initial : inv mem)
    (next : ∀ id < count, ∀ memory, inv memory →
      ∃ events left, (programs (worker id)).Eval memory events () left ∧ inv left) :
    ∃ trace state, Run (interleaving mem programs) anyStep trace state ∧ inv state.mem ∧
      (∀ id < count, state.programs (worker id) = .ret ()) ∧
      ∀ thread, (∀ id < count, thread ≠ worker id) → state.programs thread = programs thread := by
  have once : ((List.range count).map worker).Nodup := by
    apply List.pairwise_map.mpr
    exact List.nodup_range.imp fun different same => different (distinct same)
  obtain ⟨trace, state, run, holds, left⟩ :=
    exists_run_inOrder mem programs once inv initial fun thread member => by
      obtain ⟨id, valid, rfl⟩ := List.mem_map.mp member
      exact next id (List.mem_range.mp valid)
  refine ⟨trace, state, run, holds, ?_, ?_⟩
  · intro id valid
    rw [left, if_pos (List.mem_map_of_mem (List.mem_range.mpr valid))]
  · intro thread other
    rw [left, if_neg]
    intro member
    obtain ⟨id, valid, same⟩ := List.mem_map.mp member
    exact other id (List.mem_range.mp valid) same.symm

/-- Threads that have returned from the start perform nothing. -/
theorem run_idle {idle : Thread → Prop} (returned : ∀ thread, idle thread → programs thread = .ret ())
    (run : Run (interleaving mem programs) anyStep trace state) :
    ∀ entry ∈ trace, ¬idle entry.1 := by
  refine (run_only (fun thread _ => ¬idle thread) (fun thread => ?_) run).2
  by_cases rests : idle thread
  · rw [returned thread rests]
    exact .ret
  · exact .of_all (fun _ => rests) _

end Runs

end Threads

end LibIvy.Lib
