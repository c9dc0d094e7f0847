import LibIvy.Workloads.Pdot

/-!
Contract: what pdot computes, for every length of the vectors.

Owns: that all workers can run to completion, what `merge_worker` returns after
them in whatever way they interleave, and exactly when this is the dot product.

Does not own: reading the vectors from the input file.
-/

namespace LibIvy.Contracts.PdotResult

open LibIvy.Lib TransitionSystem Program LibIvy.Workloads LibIvy.Workloads.Pdot

/-- The dot product of the two vectors, modulo `2 ^ 64`. -/
def dotProduct (mem : Mem) : UInt64 :=
  ((List.range ((mem .elems).toNat / 2)).map fun i =>
    mem (.vecs i) * mem (.vecs ((mem .elems).toNat / 2 + i))).sum

/-- The workers can all return, and whenever they have, `merge_worker` returns
the dot product. -/
def ComputesDot (nodesWorker : UInt64) (mem : Mem) : Prop :=
  (∃ trace state, Run (Threads.interleaving mem (multWorkers nodesWorker)) anyStep trace state ∧
    state.Finished) ∧
  ∀ trace state, Run (Threads.interleaving mem (multWorkers nodesWorker)) anyStep trace state →
    state.Finished → ∃ events after,
      (mergeWorker nodesWorker).Eval state.mem events (dotProduct mem) after

section

variable {nodesWorker : UInt64} {mem : Mem}

theorem dotProduct_eq (mem : Mem) : dotProduct mem = sumFrom mem 0 (vectorLength mem) := by
  simp only [dotProduct, sumFrom, product, vectorLength, Nat.zero_add]

/-- The elements that the parts do not cover. -/
def tailSum (nodesWorker : UInt64) (mem : Mem) : UInt64 :=
  sumFrom mem (share nodesWorker mem * nodesWorker.toNat) (vectorLength mem % nodesWorker.toNat)

/-- The dot product is the sum of the parts and of the tail. -/
theorem dotProduct_split (nodesWorker : UInt64) (mem : Mem) :
    dotProduct mem = sumFrom mem 0 (share nodesWorker mem * nodesWorker.toNat) +
      tailSum nodesWorker mem := by
  have whole : vectorLength mem =
      share nodesWorker mem * nodesWorker.toNat + vectorLength mem % nodesWorker.toNat := by
    rw [share, Nat.div_add_mod']
  rw [dotProduct_eq, whole, sumFrom_add, Nat.zero_add, tailSum]

/-- Scheduled one after the other, the workers all return. -/
theorem workers_finish (ready : mem .ready = 1) :
    ∃ trace state, Run (Threads.interleaving mem (multWorkers nodesWorker)) anyStep trace state ∧
      state.Finished := by
  have next : ∀ id < nodesWorker.toNat, ∀ memory, Agree Input memory mem → ∃ events left,
      (multWorkers nodesWorker id).Eval memory events () left ∧ Agree Input left mem := by
    intro id valid memory agree
    obtain ⟨events, _, left, evaluated, -, same⟩ :=
      @multWorker_ensures nodesWorker memory ((agree .ready trivial).trans ready) id
    refine ⟨events, left, ?_, fun loc input => (same loc input).trans (agree loc input)⟩
    rw [multWorkers, if_pos valid]
    exact evaluated
  obtain ⟨trace, state, run, -, returned, others⟩ := Threads.exists_run_numbered mem
    (multWorkers nodesWorker) Function.injective_id nodesWorker.toNat
    (fun memory => Agree Input memory mem) (fun _ _ => rfl) next
  refine ⟨trace, state, run, fun id => ?_⟩
  by_cases valid : id < nodesWorker.toNat
  · exact returned id valid
  · rw [others id fun other below same => valid (same ▸ below), multWorkers, if_neg valid]
    rfl

/-- After the workers, `merge_worker` returns the sum of the parts. -/
theorem merge_returns (ready : mem .ready = 1) {trace : List (Nat × Effect Loc UInt64 Empty)}
    {state : Threads Nat Loc UInt64 Empty}
    (run : Run (Threads.interleaving mem (multWorkers nodesWorker)) anyStep trace state)
    (finished : state.Finished) :
    ∃ events, (mergeWorker nodesWorker).Eval state.mem events
      (sumFrom mem 0 (share nodesWorker mem * nodesWorker.toNat)) state.mem := by
  have starts : ∀ id fuel, Guarantee.Keeps (mayDo nodesWorker mem) id
      (fun _ config => id < nodesWorker.toNat → Summed nodesWorker mem id config) fuel
      (multWorkers nodesWorker id) ⟨mem, []⟩ := by
    intro id fuel
    by_cases valid : id < nodesWorker.toNat
    · rw [multWorkers, if_pos valid]
      exact (multWorker_keeps ready id fuel ⟨mem, []⟩ fun _ _ => rfl).mono
        fun _ _ summed _ => summed
    · rw [multWorkers, if_neg valid]
      exact Guarantee.Keeps.pure fun _ _ below => absurd below valid
  obtain ⟨events, result, after, evaluated, -, same, sums⟩ :=
    mergeWorker_ensures nodesWorker state.mem
  have parts : result = sumFrom mem 0 (share nodesWorker mem * nodesWorker.toNat) := by
    rw [sums, ← sum_parts]
    congr 1
    refine List.map_congr_left fun id member => ?_
    exact (Guarantee.run_returned starts run (finished id) (List.mem_range.mp member)).2
  rw [same, parts] at evaluated
  exact ⟨events, evaluated⟩

theorem ComputesDot.sum_eq (computes : ComputesDot nodesWorker mem) (ready : mem .ready = 1) :
    dotProduct mem = sumFrom mem 0 (share nodesWorker mem * nodesWorker.toNat) := by
  obtain ⟨⟨trace, state, run, finished⟩, returns⟩ := computes
  obtain ⟨events, after, evaluated⟩ := returns trace state run finished
  obtain ⟨others, same⟩ := merge_returns ready run finished
  exact (evaluated.unique same).2.1

/-- pdot returns the dot product exactly when the products that the equal parts
leave over add up to zero, as they do when there are none. -/
theorem computesDot_iff (ready : mem .ready = 1) :
    ComputesDot nodesWorker mem ↔ tailSum nodesWorker mem = 0 := by
  constructor
  · intro computes
    have split := dotProduct_split nodesWorker mem
    rw [computes.sum_eq ready] at split
    exact left_eq_add.mp split
  · intro none
    refine ⟨workers_finish ready, fun trace state run finished => ?_⟩
    obtain ⟨events, evaluated⟩ := merge_returns ready run finished
    rw [dotProduct_split nodesWorker, none, add_zero]
    exact ⟨events, state.mem, evaluated⟩

/-- Two vectors of three ones. -/
def threeOnes : Mem
  | .elems => 6
  | .ready => 1
  | .vecs _ => 1
  | _ => 0

theorem computesDot_iff_threeOnes : ComputesDot 2 threeOnes ↔ tailSum 2 threeOnes = 0 :=
  computesDot_iff rfl

/-- The third product is lost. -/
theorem threeOnes_not_computed : ¬ ComputesDot 2 threeOnes := by
  intro computes
  exact absurd (computes.sum_eq rfl) (by decide)

end

end LibIvy.Contracts.PdotResult
