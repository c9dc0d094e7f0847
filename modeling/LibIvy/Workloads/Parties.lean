import LibIvy.Lib.Interleaving

/-!
Contract: the nodes of a workload.

One node, which the source calls the manager, sets up the shared memory and reports.
The workers take the ids below `NODES_WORKER`; the other nodes return at once.

Owns: the parties, that only those with a program perform anything, and the run in
which the workers return one after the other between two parts of the manager.

Does not own: the programs.
-/

namespace LibIvy.Workloads

open LibIvy.Lib TransitionSystem

/-- The nodes of a run. -/
inductive Party where
  | manager
  | worker (id : Nat)
deriving DecidableEq, Repr

/-- The node runs a program when there are `count` workers. -/
def Party.Takes (count : Nat) : Party → Prop
  | .manager => True
  | .worker id => id < count

section

variable {Loc Value Note Result : Type} [DecidableEq Loc] {count : Nat} {mem : Loc → Value}
variable {programs : Party → Program Loc Value Note Unit}

theorem takes_of_run {trace : List (Party × Effect Loc Value Note)}
    {state : Threads Party Loc Value Note}
    (beyond : ∀ id, ¬id < count → programs (.worker id) = .ret ())
    (run : Run (Threads.interleaving mem programs) anyStep trace state) :
    ∀ entry ∈ trace, entry.1.Takes count := by
  have returned : ∀ party : Party, ¬party.Takes count → programs party = .ret () := by
    intro party idle
    cases party with
    | manager => exact absurd trivial idle
    | worker id => exact beyond id idle
  intro entry member
  exact not_not.mp (Threads.run_idle returned run entry member)

/-- The manager runs its first part, then every worker in turn, and then the manager
to its end. -/
theorem exists_finished {first : Program Loc Value Note Result}
    {rest : Result → Program Loc Value Note Unit} {events : List (Effect Loc Value Note)}
    {result : Result} {published : Loc → Value}
    (beyond : ∀ id, ¬id < count → programs (.worker id) = .ret ())
    (parts : programs .manager = first.bind rest) (publishes : first.Eval mem events result published)
    (inv : (Loc → Value) → Prop) (initial : inv published)
    (workers : ∀ id < count, ∀ memory, inv memory →
      ∃ events left, (programs (.worker id)).Eval memory events () left ∧ inv left)
    (goesOn : ∀ trace state, Run (Threads.interleaving mem programs) anyStep trace state →
      inv state.mem → (∀ id < count, state.programs (.worker id) = .ret ()) →
      ∃ events left, (rest result).Eval state.mem events () left) :
    ∃ trace state, Run (Threads.interleaving mem programs) anyStep trace state ∧
      state.Finished := by
  have opened : Run (Threads.interleaving mem programs) anyStep _
      ⟨published, Function.update programs .manager (rest result)⟩ :=
    Threads.run_part rest publishes .init rfl parts
  have distinct : Function.Injective Party.worker := fun _ _ => Party.worker.inj
  obtain ⟨trace, state, run, holds, returned, others⟩ := Threads.exists_run_numbered published
    (Function.update programs .manager (rest result)) distinct count inv initial
    fun id valid memory holds => by
      rw [Function.update_of_ne (by simp)]
      exact workers id valid memory holds
  have together := Threads.run_append opened run
  have atManager : state.programs .manager = rest result := by
    rw [others .manager (by simp), Function.update_self]
  obtain ⟨_, _, ends⟩ := goesOn _ _ together holds returned
  refine ⟨_, _, Threads.run_eval ends together rfl atManager, fun party => ?_⟩
  cases party with
  | manager => exact Function.update_self Party.manager _ state.programs
  | worker id =>
      change Function.update state.programs .manager (.ret ()) (.worker id) = .ret ()
      rw [Function.update_of_ne (by simp)]
      by_cases valid : id < count
      · exact returned id valid
      · rw [others (.worker id) (fun other below same => valid (Party.worker.inj same ▸ below)),
          Function.update_of_ne (by simp), beyond id valid]

end

end LibIvy.Workloads
