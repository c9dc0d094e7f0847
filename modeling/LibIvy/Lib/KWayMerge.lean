import Mathlib.Algebra.BigOperators.Group.Finset.Basic
import Mathlib.Algebra.Order.BigOperators.Group.Finset
import Mathlib.Order.Lattice

/-!
Contract: merging several sorted parts by a cursor into each.

All parts have one length. Every round takes the element under one cursor that
no other cursor's element is below, and moves this cursor on; the merge ends
when all parts are exhausted.

Owns: merges as a relation between the cursors and the output, that the output
rearranges what was left, that it is sorted when the parts are, and its length.

Does not own: how the least element is found.
-/

namespace LibIvy.Lib.KWayMerge

universe u

variable {Value : Type u}

/-- The elements of a part from a position on. -/
def rest (part : Nat → Nat → Value) (length index position : Nat) : Multiset Value :=
  ((List.range' position (length - position)).map (part index) : List Value)

/-- The elements that no cursor has passed. -/
def remaining (part : Nat → Nat → Value) (count length : Nat) (cursor : Nat → Nat) :
    Multiset Value :=
  ∑ index ∈ Finset.range count, rest part length index (cursor index)

/-- How many elements no cursor has passed. -/
def left (count length : Nat) (cursor : Nat → Nat) : Nat :=
  ∑ index ∈ Finset.range count, (length - cursor index)

/-- Move one cursor on. -/
def advance (cursor : Nat → Nat) (index : Nat) : Nat → Nat :=
  Function.update cursor index (cursor index + 1)

theorem advance_self (cursor : Nat → Nat) (index : Nat) :
    advance cursor index index = cursor index + 1 :=
  Function.update_self ..

theorem advance_other (cursor : Nat → Nat) {index other : Nat} (different : other ≠ index) :
    advance cursor index other = cursor other :=
  Function.update_of_ne different ..

theorem le_advance (cursor : Nat → Nat) (index other : Nat) :
    cursor other ≤ advance cursor index other := by
  by_cases same : other = index
  · rw [same, advance_self]
    omega
  · rw [advance_other cursor same]

/-- The cursors stay within the parts. -/
theorem advance_le {cursor : Nat → Nat} {count length index : Nat}
    (within : ∀ other < count, cursor other ≤ length) (live : cursor index < length) :
    ∀ other < count, advance cursor index other ≤ length := by
  intro other valid
  by_cases same : other = index
  · rw [same, advance_self]
    omega
  · rw [advance_other cursor same]
    exact within other valid

/-- A sum over all parts changes only at the part that moves on. -/
theorem sum_advance {Total : Type*} [AddCommMonoid Total] (term : Nat → Nat → Total)
    {cursor : Nat → Nat} {count index : Nat} (valid : index < count) (gain : Total)
    (step : term index (cursor index) = gain + term index (cursor index + 1)) :
    ∑ other ∈ Finset.range count, term other (cursor other) =
      gain + ∑ other ∈ Finset.range count, term other (advance cursor index other) := by
  have member : index ∈ Finset.range count := Finset.mem_range.mpr valid
  rw [← Finset.add_sum_erase _ _ member, ← Finset.add_sum_erase _ _ member, step, advance_self,
    add_assoc]
  congr 2
  refine Finset.sum_congr rfl fun other inside => ?_
  rw [advance_other cursor (Finset.ne_of_mem_erase inside)]

theorem rest_eq_cons (part : Nat → Nat → Value) {length index position : Nat}
    (live : position < length) :
    rest part length index position =
      {part index position} + rest part length index (position + 1) := by
  obtain ⟨more, rfl⟩ : ∃ more, length = position + (more + 1) := ⟨length - position - 1, by omega⟩
  have here : position + (more + 1) - position = more + 1 := by omega
  have after : position + (more + 1) - (position + 1) = more := by omega
  rw [rest, rest, here, after, List.range'_succ, List.map_cons, Multiset.singleton_add,
    Multiset.cons_coe]

theorem remaining_advance (part : Nat → Nat → Value) {cursor : Nat → Nat} {count length index : Nat}
    (valid : index < count) (live : cursor index < length) :
    remaining part count length cursor =
      {part index (cursor index)} + remaining part count length (advance cursor index) :=
  sum_advance (rest part length) valid _ (rest_eq_cons part live)

theorem left_advance {cursor : Nat → Nat} {count length index : Nat}
    (valid : index < count) (live : cursor index < length) :
    left count length cursor = 1 + left count length (advance cursor index) :=
  sum_advance (fun _ position => length - position) valid 1 (by omega)

theorem left_start (count length : Nat) : left count length (fun _ => 0) = count * length := by
  simp [left]

section Exhausted

variable {cursor : Nat → Nat} {count length : Nat}

theorem left_exhausted (all : ∀ index < count, cursor index = length) :
    left count length cursor = 0 :=
  Finset.sum_eq_zero fun index member => by rw [all index (Finset.mem_range.mp member)]; omega

theorem remaining_exhausted (part : Nat → Nat → Value)
    (all : ∀ index < count, cursor index = length) :
    remaining part count length cursor = 0 :=
  Finset.sum_eq_zero fun index member => by
    rw [all index (Finset.mem_range.mp member), rest, Nat.sub_self]
    rfl

end Exhausted

theorem mem_remaining {part : Nat → Nat → Value} {count length : Nat} {cursor : Nat → Nat}
    {value : Value} (member : value ∈ remaining part count length cursor) :
    ∃ index position, index < count ∧ cursor index ≤ position ∧ position < length ∧
      value = part index position := by
  rw [remaining, Multiset.mem_sum] at member
  obtain ⟨index, valid, inside⟩ := member
  rw [rest, Multiset.mem_coe, List.mem_map] at inside
  obtain ⟨position, inRange, rfl⟩ := inside
  rw [List.mem_range'_1] at inRange
  exact ⟨index, position, Finset.mem_range.mp valid, inRange.1, by omega, rfl⟩

variable [LinearOrder Value]

/-- `Merged part count length cursor output`: from these cursors the merge emits
`output`, each element with the part it is from. -/
inductive Merged (part : Nat → Nat → Value) (count length : Nat) :
    (Nat → Nat) → List (Value × Nat) → Prop where
  | exhausted {cursor : Nat → Nat} (all : ∀ index < count, cursor index = length) :
      Merged part count length cursor []
  | round {cursor : Nat → Nat} {index : Nat} {output : List (Value × Nat)} (valid : index < count)
      (live : cursor index < length)
      (least : ∀ other < count, cursor other < length →
        part index (cursor index) ≤ part other (cursor other))
      (later : Merged part count length (advance cursor index) output) :
      Merged part count length cursor ((part index (cursor index), index) :: output)

namespace Merged

variable {part : Nat → Nat → Value} {count length : Nat} {cursor : Nat → Nat}
variable {output : List (Value × Nat)}

/-- One round for every element. -/
theorem length_eq (merged : Merged part count length cursor output) :
    output.length = left count length cursor := by
  induction merged with
  | exhausted all => rw [left_exhausted all, List.length_nil]
  | round valid live _ _ inductionHypothesis =>
      rw [left_advance valid live, List.length_cons, inductionHypothesis, Nat.add_comm]

/-- The output rearranges what was left. -/
theorem perm (merged : Merged part count length cursor output) :
    ((output.map Prod.fst : List Value) : Multiset Value) = remaining part count length cursor := by
  induction merged with
  | exhausted all => rw [remaining_exhausted part all]; rfl
  | round valid live _ _ inductionHypothesis =>
      rw [remaining_advance part valid live, List.map_cons, ← inductionHypothesis,
        Multiset.singleton_add, Multiset.cons_coe]

/-- Merging sorted parts emits a sorted sequence. -/
theorem sorted (merged : Merged part count length cursor output)
    (parts : ∀ index < count, ∀ lower upper, lower ≤ upper → upper < length →
      part index lower ≤ part index upper) :
    (output.map Prod.fst).Pairwise (· ≤ ·) := by
  induction merged with
  | exhausted => exact .nil
  | @round cursor index output valid live least later inductionHypothesis =>
      rw [List.map_cons, List.pairwise_cons]
      refine ⟨fun value member => ?_, inductionHypothesis⟩
      rw [← Multiset.mem_coe, later.perm] at member
      obtain ⟨other, position, validOther, reached, inside, rfl⟩ := mem_remaining member
      have passed := (le_advance cursor index other).trans reached
      exact (least other validOther (by omega)).trans
        (parts other validOther _ _ passed inside)

end Merged

end LibIvy.Lib.KWayMerge
