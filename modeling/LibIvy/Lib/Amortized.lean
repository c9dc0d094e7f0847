import LibIvy.Lib.TransitionSystem
import Mathlib.Algebra.BigOperators.Finprod
import Mathlib.Algebra.BigOperators.Group.Finset.Piecewise

/-!
Contract: amortised costs of the runs of a transition system.

Owns: what threads owe together when only finitely many owe anything, the rule
that bounds the cost of a run by what its steps pay in, and costs that are bounded
for every key separately.

Does not own: who pays for what.
-/

namespace LibIvy.Lib

universe u v w

section Totals

variable {Thread : Type u} [DecidableEq Thread] {owed : Thread → Nat}

/-- What all threads owe together. -/
noncomputable def owedTotal (owed : Thread → Nat) : Nat := finsum owed

omit [DecidableEq Thread] in
theorem owedTotal_zero : owedTotal (fun _ : Thread => 0) = 0 := finsum_zero

/-- One thread owes something else. -/
theorem owedTotal_update (finite : (Function.support owed).Finite) (thread : Thread) (value : Nat) :
    owedTotal (Function.update owed thread value) + owed thread = owedTotal owed + value := by
  let threads := insert thread finite.toFinset
  have member : thread ∈ threads := Finset.mem_insert_self ..
  have before : Function.support owed ⊆ threads := by
    intro other owes
    exact Finset.mem_insert_of_mem (finite.mem_toFinset.mpr owes)
  have after : Function.support (Function.update owed thread value) ⊆ threads := by
    intro other owes
    by_cases same : other = thread
    · exact same ▸ member
    · apply before
      simpa [same] using owes
  rw [owedTotal, owedTotal, finsum_eq_sum_of_support_subset _ before,
    finsum_eq_sum_of_support_subset _ after, Finset.sum_update_of_mem member,
    ← Finset.add_sum_erase threads owed member, Finset.sdiff_singleton_eq_erase]
  omega

end Totals

section Keys

variable {Entry : Type u} {Key : Type v} [DecidableEq Key] {key : Entry → Key}

/-- The entries with the key. -/
def withKey (key : Entry → Key) (one : Key) (entries : List Entry) : List Entry :=
  entries.filter fun entry => key entry = one

theorem sum_withKey (amount : Entry → Nat) (one : Key) (entries : List Entry) :
    ((withKey key one entries).map amount).sum =
      (entries.map fun entry => if key entry = one then amount entry else 0).sum := by
  rw [List.sum_map_ite]
  simp [withKey]

theorem sum_eq_sum_keys (amount : Entry → Nat) {entries : List Entry} {keys : Finset Key}
    (listed : ∀ entry ∈ entries, key entry ∈ keys) :
    (entries.map amount).sum = keys.sum fun one => ((withKey key one entries).map amount).sum := by
  simp only [sum_withKey]
  induction entries with
  | nil => simp
  | cons entry rest inductionHypothesis =>
      have member := listed entry List.mem_cons_self
      have others := inductionHypothesis fun other inside =>
        listed other (List.mem_cons_of_mem entry inside)
      simp only [List.map_cons, List.sum_cons, Finset.sum_add_distrib, others]
      rw [Finset.sum_ite_eq, if_pos member]

variable (key) in
/-- What is paid for every key is paid together. -/
theorem sum_le_of_keys {cost credit : Entry → Nat} {entries : List Entry}
    (paid : ∀ entry ∈ entries, ((withKey key (key entry) entries).map cost).sum ≤
      ((withKey key (key entry) entries).map credit).sum) :
    (entries.map cost).sum ≤ (entries.map credit).sum := by
  have listed : ∀ entry ∈ entries, key entry ∈ (entries.map key).toFinset := by
    intro entry inside
    exact List.mem_toFinset.mpr (List.mem_map_of_mem inside)
  rw [sum_eq_sum_keys cost listed, sum_eq_sum_keys credit listed]
  apply Finset.sum_le_sum
  intro one member
  obtain ⟨entry, inside, rfl⟩ := List.mem_map.mp (List.mem_toFinset.mp member)
  exact paid entry inside

end Keys

namespace TransitionSystem

variable {State : Type u} {Action : Type v} {Event : Type w}
variable {system : TransitionSystem State Action Event} {allowed : State → Action → Prop}

/-- What a run costs, and what is still owed at its end, its steps have paid. -/
theorem Run.amortized (owed : State → Nat) (cost credit : State × Action → Nat)
    (initial : owed system.init = 0)
    (paid : ∀ {log before after action events}, Run system.logged allowed log before →
      allowed before action → system.step before action = some (after, events) →
      owed after + cost (before, action) ≤ owed before + credit (before, action))
    {log : List (State × Action)} {state : State} (run : Run system.logged allowed log state) :
    (log.map cost).sum + owed state ≤ (log.map credit).sum := by
  induction run with
  | init =>
      change 0 + owed system.init ≤ 0
      omega
  | step run permitted taken inductionHypothesis =>
      obtain ⟨rfl, events, stepped⟩ := logged_step taken
      have step := paid run permitted stepped
      simp only [List.map_append, List.sum_append, List.map_cons, List.map_nil, List.sum_cons,
        List.sum_nil]
      omega

end TransitionSystem

end LibIvy.Lib
