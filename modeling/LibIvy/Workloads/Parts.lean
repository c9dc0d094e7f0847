import LibIvy.Lib.KWayMerge
import Mathlib.Algebra.Order.Group.Nat

/-!
Contract: equal parts of a sequence, and the order of 64-bit words.

Both workloads cut a sequence of `elems` elements into parts of `elems / nodes`
elements, one after the other.

Owns: the linear order of `UInt64`, positions inside the parts, and that the
parts together are the first `nodes * (elems / nodes)` elements.

Does not own: what is done with the parts.
-/

namespace LibIvy.Workloads

open LibIvy.Lib

instance uint64LinearOrder : LinearOrder UInt64 where
  le_refl := UInt64.le_refl
  le_trans _ _ _ := UInt64.le_trans
  le_antisymm _ _ := UInt64.le_antisymm
  le_total := UInt64.le_total
  lt_iff_le_not_ge _ _ := by
    simp only [UInt64.lt_iff_toNat_lt, UInt64.le_iff_toNat_le]
    omega
  toDecidableLE := inferInstance
  toDecidableEq := inferInstance
  toDecidableLT := inferInstance

section Positions

variable {nodes length : Nat}

/-- A position in a part is a position in the sequence. -/
theorem position_lt {index offset : Nat} (valid : index < nodes) (inside : offset < length) :
    index * length + offset < nodes * length := by
  have next : (index + 1) * length ≤ nodes * length := Nat.mul_le_mul_right _ valid
  rw [Nat.add_mul, Nat.one_mul] at next
  omega

/-- Positions of different parts differ. -/
theorem position_inj {index other offset position : Nat} (inside : offset < length)
    (within : position < length) (same : index * length + offset = other * length + position) :
    index = other ∧ offset = position := by
  have first : (index * length + offset) / length = index := by
    rw [Nat.mul_comm, Nat.mul_add_div (by omega), Nat.div_eq_of_lt inside, Nat.add_zero]
  have second : (other * length + position) / length = other := by
    rw [Nat.mul_comm, Nat.mul_add_div (by omega), Nat.div_eq_of_lt within, Nat.add_zero]
  have sameIndex : index = other := by rw [← first, ← second, same]
  subst sameIndex
  exact ⟨rfl, by omega⟩

end Positions

/-- A sorted sequence ascends between any two of its positions. -/
theorem le_of_pairwise {Value : Type} [Preorder Value] {values : Nat → Value}
    {count lower upper : Nat}
    (sorted : ((List.range count).map values).Pairwise (· ≤ ·)) (ordered : lower ≤ upper)
    (below : upper < count) : values lower ≤ values upper := by
  rcases Nat.eq_or_lt_of_le ordered with rfl | less
  · exact le_refl _
  · have entries := List.pairwise_iff_getElem.mp sorted lower upper (by simp; omega) (by simpa) less
    simpa using entries

/-- The parts of a sequence. -/
def partOf {Value : Type} (values : Nat → Value) (length index offset : Nat) : Value :=
  values (index * length + offset)

/-- A part from its start is the whole part. -/
theorem rest_zero {Value : Type} (parts : Nat → Nat → Value) (length index : Nat) :
    KWayMerge.rest parts length index 0 = ((List.range length).map (parts index) : List Value) := by
  rw [KWayMerge.rest, Nat.sub_zero, ← List.range_eq_range']

/-- All parts together are the sequence up to the last part's end. -/
theorem remaining_start {Value : Type} (values : Nat → Value) (nodes length : Nat) :
    KWayMerge.remaining (partOf values length) nodes length (fun _ => 0) =
      ((List.range (nodes * length)).map values : List Value) := by
  induction nodes with
  | zero => simp [KWayMerge.remaining]
  | succ nodes inductionHypothesis =>
      have last : KWayMerge.rest (partOf values length) length nodes 0 =
          (((List.range length).map (nodes * length + ·)).map values : List Value) := by
        rw [rest_zero, List.map_map]
        rfl
      rw [KWayMerge.remaining, Finset.sum_range_succ, ← KWayMerge.remaining, inductionHypothesis,
        last, Multiset.coe_add, ← List.map_append, ← List.range_add, Nat.succ_mul]

end LibIvy.Workloads
