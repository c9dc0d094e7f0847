import Mathlib.Data.Set.Basic

/-!
Contract: threads that wait for one another.

Owns: deadlocked sets of a wait-for relation in which a thread waits for at most
one other, the ranks that exclude them, and the cycles that are such sets.

Does not own: why a thread waits.
-/

namespace LibIvy.Lib

universe u

variable {Thread : Type u} {waits : Thread → Option Thread}

/-- Every thread of the set waits for a thread of the set. -/
def Deadlocked (waits : Thread → Option Thread) (set : Set Thread) : Prop :=
  set.Nonempty ∧ ∀ thread ∈ set, ∃ other ∈ set, waits thread = some other

/-- When waiting leads to threads of lower rank, some thread of every set can go
on. -/
theorem not_deadlocked_of_rank (rank : Thread → Nat)
    (decreases : ∀ thread other, waits thread = some other → rank other < rank thread)
    (set : Set Thread) : ¬Deadlocked waits set := by
  rintro ⟨⟨first, member⟩, closed⟩
  induction bound : rank first using Nat.strong_induction_on generalizing first with
  | _ limit inductionHypothesis =>
      subst bound
      obtain ⟨other, otherMember, waiting⟩ := closed first member
      exact inductionHypothesis (rank other) (decreases first other waiting) other otherMember rfl

/-- A set that waiting does not leave has a thread that waits for nobody. -/
theorem exists_unblocked_of_rank (rank : Thread → Nat)
    (decreases : ∀ thread other, waits thread = some other → rank other < rank thread)
    {set : Set Thread} (nonempty : set.Nonempty)
    (closed : ∀ thread ∈ set, ∀ other, waits thread = some other → other ∈ set) :
    ∃ thread ∈ set, waits thread = none := by
  by_contra blocked
  refine not_deadlocked_of_rank rank decreases set ⟨nonempty, fun thread member => ?_⟩
  cases waiting : waits thread with
  | none => exact absurd ⟨thread, member, waiting⟩ blocked
  | some other => exact ⟨other, closed thread member other waiting, rfl⟩

/-- Threads of a list that wait for one another are deadlocked. -/
theorem deadlocked_of_list [DecidableEq Thread] {threads : List Thread} (nonempty : threads ≠ [])
    (closed : (threads.all fun thread => (waits thread).any fun other => other ∈ threads) = true) :
    Deadlocked waits {thread | thread ∈ threads} := by
  refine ⟨List.exists_mem_of_ne_nil threads nonempty, fun thread member => ?_⟩
  have waiting := List.all_eq_true.mp closed thread member
  cases found : waits thread with
  | none => simp [found] at waiting
  | some other => exact ⟨other, by simpa [found] using waiting, rfl⟩

end LibIvy.Lib
