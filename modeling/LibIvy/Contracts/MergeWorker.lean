import LibIvy.Workloads.MergeWorker

/-!
Contract: `merge_worker` merges sorted parts.

Owns: that it terminates, the number of its rounds, the parts it takes from, the
elements it reads, and what it prints, for every number of workers, every
element count and all values.

Does not own: that the parts are sorted.
-/

namespace LibIvy.Contracts.MergeWorker

open LibIvy.Lib Program LibIvy.Workloads LibIvy.Workloads.Psort

/-- The parts that the merge starts from are non-decreasing. -/
def PartsSorted (nodesWorker : UInt64) (mem : Mem) : Prop :=
  ∀ index < nodesWorker.toNat,
    ((List.range (partLength nodesWorker mem)).map (part nodesWorker mem index)).Pairwise (· ≤ ·)

/-- `merge_worker` returns after `nodes * (elems / nodes)` rounds. In each of
them `min_idx` is set and names a part that is not exhausted, all elements read
are below `elems`, and the lines print the elements of the parts in order, each
once. -/
theorem mergeWorker_merges (nodesWorker : UInt64) (mem : Mem)
    (ordered : PartsSorted nodesWorker mem) :
    ∃ events printed, (mergeWorker nodesWorker).Eval mem events () mem ∧
      Rounds nodesWorker mem (fun _ => 0) printed ∧
      printed.length = nodesWorker.toNat * ((mem .elems).toNat / nodesWorker.toNat) ∧
      (∀ index value, .load (.data index) value ∈ events → index < (mem .elems).toNat) ∧
      Effect.notes events = printed.map (fun line => .merged line.1 line.2) ∧
      (printed.map Prod.fst).Pairwise (· ≤ ·) ∧
      (printed.map Prod.fst).Perm
        ((List.range (nodesWorker.toNat * ((mem .elems).toNat / nodesWorker.toNat))).map
          fun index => mem (.data index)) := by
  obtain ⟨events, printed, evaluated, allowed, notes, rounds, merged⟩ :=
    mergeWorker_eval nodesWorker mem
  refine ⟨events, printed, evaluated, rounds, ?_, fun index value member => allowed _ member,
    notes, ?_, ?_⟩
  · rw [merged.length_eq, KWayMerge.left_start, partLength_eq]
  · exact merged.sorted fun index valid lower upper increasing below =>
      le_of_pairwise (ordered index valid) increasing below
  · rw [← Multiset.coe_eq_coe, merged.perm, ← partLength_eq]
    exact remaining_start _ _ _

/-- Two parts with an element in common and the largest value. -/
def twoParts : Mem
  | .elems => 5
  | .data 0 => 1
  | .data 1 => 4
  | .data 2 => 4
  | .data 3 => uint64Max
  | _ => 0

theorem mergeWorker_merges_twoParts :
    ∃ events printed, (mergeWorker 2).Eval twoParts events () twoParts ∧
      Rounds 2 twoParts (fun _ => 0) printed ∧
      printed.length = (2 : UInt64).toNat * ((twoParts .elems).toNat / (2 : UInt64).toNat) ∧
      (∀ index value, .load (.data index) value ∈ events → index < (twoParts .elems).toNat) ∧
      Effect.notes events = printed.map (fun line => .merged line.1 line.2) ∧
      (printed.map Prod.fst).Pairwise (· ≤ ·) ∧
      (printed.map Prod.fst).Perm
        ((List.range ((2 : UInt64).toNat * ((twoParts .elems).toNat / (2 : UInt64).toNat))).map
          fun index => twoParts (.data index)) :=
  mergeWorker_merges 2 twoParts (by unfold PartsSorted; decide)

end LibIvy.Contracts.MergeWorker
