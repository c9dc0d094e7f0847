import Mathlib.Data.List.Nodup
import Mathlib.Data.List.Range
import Mathlib.Data.List.Perm.Basic
import Mathlib.Order.Lattice
import Mathlib.Logic.Equiv.Basic

/-!
Contract: sorting by exchanging neighbours that are out of order.

A sequence is a function on positions, of which the first `count` matter. One
pass exchanges every pair of neighbours, from the left, when it is out of order.

Owns: exchanges and passes, the settled suffix that each pass extends by one
position, and that exchanges permute the values.

Does not own: where the sequence is stored, or how often the passes run.
-/

namespace LibIvy.Lib.ExchangeSort

universe u

variable {Value : Type u} [LinearOrder Value]

/-- Exchange the values at `lower` and `lower + 1` when they are out of order. -/
def exchange (values : Nat → Value) (lower : Nat) : Nat → Value :=
  if values (lower + 1) < values lower then
    Function.update (Function.update values lower (values (lower + 1))) (lower + 1) (values lower)
  else values

/-- The last `settled` of the first `count` positions hold the largest values in
order: nothing to the left of such a position is larger. -/
def Settled (values : Nat → Value) (count settled : Nat) : Prop :=
  ∀ left right, left ≤ right → right < count → count ≤ right + settled →
    values left ≤ values right

theorem settled_zero (values : Nat → Value) (count : Nat) : Settled values count 0 := by
  intro left right _ below above
  omega

/-- When all positions are settled the sequence is sorted. -/
theorem Settled.pairwise {values : Nat → Value} {count : Nat}
    (settled : Settled values count count) :
    ((List.range count).map values).Pairwise (· ≤ ·) := by
  rw [List.pairwise_map]
  refine List.Pairwise.imp_of_mem ?_ (List.pairwise_lt_range)
  intro left right _ memberRight less
  exact settled left right less.le (List.mem_range.mp memberRight) (by omega)

/-! ### One exchange -/

theorem exchange_other {values : Nat → Value} {lower position : Nat} (notLower : position ≠ lower)
    (notUpper : position ≠ lower + 1) : exchange values lower position = values position := by
  unfold exchange
  split
  · rw [Function.update_of_ne notUpper, Function.update_of_ne notLower]
  · rfl

theorem exchange_lower (values : Nat → Value) (lower : Nat) :
    exchange values lower lower = min (values lower) (values (lower + 1)) := by
  unfold exchange
  split
  · rename_i less
    rw [Function.update_of_ne (by omega), Function.update_self, min_eq_right less.le]
  · rename_i ordered
    rw [min_eq_left (not_lt.mp ordered)]

theorem exchange_upper (values : Nat → Value) (lower : Nat) :
    exchange values lower (lower + 1) = max (values lower) (values (lower + 1)) := by
  unfold exchange
  split
  · rename_i less
    rw [Function.update_self, max_eq_left less.le]
  · rename_i ordered
    rw [max_eq_right (not_lt.mp ordered)]

/-- An exchange is a permutation of the positions. -/
theorem exchange_eq_swap (values : Nat → Value) (lower : Nat) :
    exchange values lower = values ∨
      exchange values lower = values ∘ Equiv.swap lower (lower + 1) := by
  unfold exchange
  split
  · right
    funext position
    by_cases atUpper : position = lower + 1
    · subst atUpper
      simp
    · by_cases atLower : position = lower
      · subst atLower
        simp
      · simp [atUpper, atLower, Equiv.swap_apply_of_ne_of_ne]
  · exact .inl rfl

theorem exchange_perm (values : Nat → Value) {lower count : Nat} (inside : lower + 1 < count) :
    ((List.range count).map (exchange values lower)).Perm ((List.range count).map values) := by
  rcases exchange_eq_swap values lower with same | swapped
  · rw [same]
  · rw [swapped, ← List.map_map]
    refine List.Perm.map values ?_
    rw [List.perm_ext_iff_of_nodup
      ((List.nodup_map_iff (Equiv.injective _)).mpr List.nodup_range) List.nodup_range]
    intro position
    simp only [List.mem_map, List.mem_range]
    constructor
    · rintro ⟨original, below, rfl⟩
      rw [Equiv.swap_apply_def]
      split
      · omega
      · split
        · omega
        · exact below
    · intro below
      refine ⟨Equiv.swap lower (lower + 1) position, ?_, Equiv.swap_apply_self _ _ _⟩
      rw [Equiv.swap_apply_def]
      split
      · omega
      · split
        · omega
        · exact below

/-- An exchange keeps a settled suffix: inside it the neighbours are in order. -/
theorem Settled.exchange {values : Nat → Value} {count settled : Nat}
    (holds : Settled values count settled) {lower : Nat} (inside : lower + 1 < count) :
    Settled (exchange values lower) count settled := by
  intro left right ordered below above
  have keepsLeft : ∀ bound, lower + 1 ≤ bound → bound = right →
      ExchangeSort.exchange values lower left ≤ values right := by
    intro bound reaches same
    subst same
    by_cases atLower : left = lower
    · subst atLower
      rw [exchange_lower]
      exact (min_le_left _ _).trans (holds _ _ (by omega) below above)
    · by_cases atUpper : left = lower + 1
      · subst atUpper
        rw [exchange_upper]
        exact max_le (holds _ _ (by omega) below above) (holds _ _ (by omega) below above)
      · rw [exchange_other atLower atUpper]
        exact holds left _ ordered below above
  by_cases atUpper : right = lower + 1
  · exact (keepsLeft right (by omega) rfl).trans
      (by rw [atUpper, exchange_upper]; exact le_max_right _ _)
  · by_cases atLower : right = lower
    · subst atLower
      have inOrder : values right ≤ values (right + 1) := holds _ _ (by omega) inside (by omega)
      have unchanged : ExchangeSort.exchange values right = values := by
        unfold ExchangeSort.exchange
        rw [if_neg (not_lt.mpr inOrder)]
      rw [unchanged]
      exact holds left right ordered below above
    · rw [exchange_other atLower atUpper]
      by_cases beyond : lower + 1 ≤ right
      · exact keepsLeft right beyond rfl
      · rw [exchange_other (by omega) (by omega)]
        exact holds left right ordered below above

/-! ### One pass -/

/-- A position that is largest among its left neighbours joins the suffix. -/
theorem Settled.extend {values : Nat → Value} {count settled position : Nat}
    (holds : Settled values count settled)
    (borders : ∀ right, count = right + settled + 1 → right = position)
    (largest : ∀ other, other ≤ position → values other ≤ values position) :
    Settled values count (settled + 1) := by
  intro left right ordered below above
  by_cases old : count ≤ right + settled
  · exact holds left right ordered below old
  · obtain rfl := borders right (by omega)
    exact largest left ordered

/-- What holds of a pass after its first `performed` exchanges: the settled
suffix is kept, the largest value so far stands at position `performed`, and
once that position borders on the suffix it belongs to it. -/
structure PassState (original values : Nat → Value) (count settled performed : Nat) : Prop where
  suffix : Settled values count settled
  largest : ∀ position, position ≤ performed → values position ≤ values performed
  extended : count ≤ performed + settled + 1 → Settled values count (settled + 1)
  perm : ((List.range count).map values).Perm ((List.range count).map original)

theorem PassState.start {values : Nat → Value} {count settled : Nat}
    (holds : Settled values count settled) : PassState values values count settled 0 := by
  have largest : ∀ position, position ≤ 0 → values position ≤ values 0 :=
    fun position below => by rw [Nat.le_zero.mp below]
  exact ⟨holds, largest, fun borders => holds.extend (by omega) largest, .refl _⟩

theorem PassState.next {original values : Nat → Value} {count settled performed : Nat}
    (holds : PassState original values count settled performed) (inside : performed + 1 < count) :
    PassState original (exchange values performed) count settled (performed + 1) := by
  have largest : ∀ position, position ≤ performed + 1 →
      exchange values performed position ≤ exchange values performed (performed + 1) := by
    intro position below
    rw [exchange_upper]
    by_cases atUpper : position = performed + 1
    · rw [atUpper, exchange_upper]
    · by_cases atLower : position = performed
      · rw [atLower, exchange_lower]
        exact (min_le_left _ _).trans (le_max_left _ _)
      · rw [exchange_other atLower atUpper]
        exact (holds.largest position (by omega)).trans (le_max_left _ _)
  have suffix := holds.suffix.exchange inside
  refine ⟨suffix, largest, fun borders => ?_, (exchange_perm values inside).trans holds.perm⟩
  by_cases already : count ≤ performed + settled + 1
  · exact (holds.extended already).exchange inside
  · exact suffix.extend (by omega) largest

/-- A whole pass settles one more position. -/
theorem PassState.finish {original values : Nat → Value} {count settled : Nat}
    (holds : PassState original values count settled (count - 1)) :
    Settled values count (settled + 1) :=
  holds.extended (by omega)

end LibIvy.Lib.ExchangeSort
