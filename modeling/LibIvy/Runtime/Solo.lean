import LibIvy.Runtime.Handlers
import Mathlib.Logic.Relation

/-!
Contract: one served function alone on its node.

Owns: the execution of a function statement by statement on the state of its own
node, where the outcomes of its calls are given from outside, and the fact that the
execution is determined by them.

Does not own: the other threads; the locks the function waits for are free or it
does not go on.
-/

namespace LibIvy

/-- Outcomes of calls: what a function of the same node returns when it is called
directly, and what comes back over RPC by callee and function. Only a call over RPC
fails; `none` is that. -/
structure Outcomes where
  direct : RpcName → Reply
  rpc : NodeId → RpcName → Option Reply

/-- A function in execution: the call it waits for and the answers it has got. -/
structure Solo (σ : Type) where
  pc : σ
  node : Node
  asked : Option (NodeId × RpcName)
  answers : List (NodeId × RpcName × Reply)

namespace Solo

variable {σ : Type}

def start (pc : σ) (node : Node) : Solo σ := ⟨pc, node, none, []⟩

/-- One statement of the function whose statements are `rows`, on node `self`. -/
def step (rows : σ → Stmt σ) (self : NodeId) (outcomes : Outcomes) (solo : Solo σ) :
    Option (Solo σ) :=
  match rows solo.pc with
  | .call dst fn _ next => some { solo with pc := next 0, asked := some (dst, fn) }
  | .await rpc _ next failed =>
      match solo.asked with
      | none => none
      | some (dst, fn) =>
          match if rpc then outcomes.rpc dst fn else some (outcomes.direct fn) with
          | some reply =>
              some { solo with
                pc := next reply, asked := none, answers := solo.answers ++ [(dst, fn, reply)] }
          | none => some { solo with pc := failed, asked := none }
  | stmt =>
      match stmt.runLocal self (.handler 0) solo.node with
      | some (next, nd, _) => some { solo with pc := next, node := nd }
      | none => none

/-- The function gets from one state to another. -/
def Steps (rows : σ → Stmt σ) (self : NodeId) (outcomes : Outcomes) : Solo σ → Solo σ → Prop :=
  Relation.ReflTransGen fun before after => before.step rows self outcomes = some after

section Steps

variable {rows : σ → Stmt σ} {self : NodeId} {outcomes : Outcomes} {first second third : Solo σ}

theorem Steps.refl (solo : Solo σ) : Steps rows self outcomes solo solo :=
  Relation.ReflTransGen.refl

theorem Steps.head (second : Solo σ) (taken : first.step rows self outcomes = some second)
    (rest : Steps rows self outcomes second third) : Steps rows self outcomes first third :=
  Relation.ReflTransGen.head taken rest

theorem Steps.trans (front : Steps rows self outcomes first second)
    (rest : Steps rows self outcomes second third) : Steps rows self outcomes first third :=
  Relation.ReflTransGen.trans front rest

/-- What every statement preserves holds to the end. -/
theorem Steps.invariant (property : Solo σ → Prop)
    (preserved : ∀ {before after : Solo σ}, property before →
      before.step rows self outcomes = some after → property after)
    (steps : Steps rows self outcomes first second) (holds : property first) :
    property second := by
  induction steps with
  | refl => exact holds
  | tail _ taken inductionHypothesis => exact preserved inductionHypothesis taken

/-- Of two states of an execution one leads to the other. -/
theorem Steps.linear (one : Steps rows self outcomes first second)
    (other : Steps rows self outcomes first third) :
    Steps rows self outcomes second third ∨ Steps rows self outcomes third second := by
  have deterministic : Relator.RightUnique
      fun (before after : Solo σ) => before.step rows self outcomes = some after :=
    fun _ _ _ taken takenToo => Option.some.inj (taken.symm.trans takenToo)
  exact Relation.ReflTransGen.total_of_right_unique deterministic one other

/-- A function that has stopped stays where it is. -/
theorem Steps.eq_of_stopped (stops : first.step rows self outcomes = none)
    (steps : Steps rows self outcomes first second) : first = second := by
  rcases Relation.ReflTransGen.cases_head steps with same | ⟨_, taken, -⟩
  · exact same
  · simp [stops] at taken

/-- A function that has stopped has stopped in the only possible state. -/
theorem Steps.unique (one : Steps rows self outcomes first second)
    (other : Steps rows self outcomes first third)
    (oneStops : second.step rows self outcomes = none)
    (otherStops : third.step rows self outcomes = none) : second = third := by
  rcases one.linear other with ahead | behind
  · exact ahead.eq_of_stopped oneStops
  · exact (behind.eq_of_stopped otherStops).symm

/-- No answer is forgotten. -/
theorem Steps.answers_kept (steps : Steps rows self outcomes first second)
    {answer : NodeId × RpcName × Reply} (got : answer ∈ first.answers) :
    answer ∈ second.answers := by
  refine steps.invariant (fun solo => answer ∈ solo.answers) ?_ got
  intro before after got taken
  unfold Solo.step at taken
  split at taken
  · cases taken
    exact got
  · split at taken
    · contradiction
    · split at taken
      · cases taken
        exact List.mem_append_left _ got
      · cases taken
        exact got
  · split at taken
    · cases taken
      exact got
    · contradiction

end Steps

end Solo

end LibIvy
