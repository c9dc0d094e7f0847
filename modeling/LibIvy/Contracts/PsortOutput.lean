import LibIvy.Workloads.Handshake
import LibIvy.Workloads.MergeWorker

/-!
Contract: what psort prints, for every number of elements.

Owns: that all workers can run to completion, what `merge_worker` prints after
them in whatever way they interleave, and exactly when this is the whole input
in order.

Does not own: the manager's initialisation.
-/

namespace LibIvy.Contracts.PsortOutput

open LibIvy.Lib TransitionSystem Program LibIvy.Workloads LibIvy.Workloads.Psort

/-- Every worker runs on a shared memory that is ready. -/
def sortWorkers (nodesWorker : UInt64) : Party → Prog Unit
  | .manager => return ()
  | .worker id => if id < nodesWorker.toNat then sortWorker id else return ()

/-- The elements of the lines that `merge_worker` prints. -/
def printedElems (events : List (Effect Loc UInt64 Note)) : List UInt64 :=
  (Effect.notes events).filterMap fun
    | .merged elem _ => some elem
    | .callMergeWorker => none

/-- The elements of the shared memory. -/
def inputElems (mem : Mem) : List UInt64 :=
  (List.range (mem .elems).toNat).map fun index => mem (.data index)

/-- The workers can all return, and whenever they have, `merge_worker` prints
all elements in order. -/
def SortsInput (nodesWorker : UInt64) (mem : Mem) : Prop :=
  (∃ trace state, Run (Threads.interleaving mem (sortWorkers nodesWorker)) anyStep trace state ∧
    state.Finished) ∧
  ∀ trace state, Run (Threads.interleaving mem (sortWorkers nodesWorker)) anyStep trace state →
    state.Finished → ∃ events after, (mergeWorker nodesWorker).Eval state.mem events () after ∧
      (printedElems events).Pairwise (· ≤ ·) ∧ (printedElems events).Perm (inputElems mem)

section

variable {nodesWorker : UInt64} {mem : Mem}

theorem printedElems_eq {events : List (Effect Loc UInt64 Note)} {printed : List (UInt64 × Nat)}
    (notes : Effect.notes events = printed.map fun line => .merged line.1 line.2) :
    printedElems events = printed.map Prod.fst := by
  rw [printedElems, notes, List.filterMap_map, ← List.filterMap_eq_map]
  rfl

/-- Scheduled one after the other, the workers all return. -/
theorem workers_finish (positive : nodesWorker ≠ 0) (nodes : mem .nodes = nodesWorker)
    (ready : mem .ready ≠ 0) :
    ∃ trace state, Run (Threads.interleaving mem (sortWorkers nodesWorker)) anyStep trace state ∧
      state.Finished := by
  have beyond : ∀ id, ¬id < nodesWorker.toNat → sortWorkers nodesWorker (.worker id) = .ret () :=
    fun id outside => if_neg outside
  have parts : sortWorkers nodesWorker .manager = Program.bind (.ret ()) .ret := rfl
  refine exists_finished beyond parts .ret
    (fun memory => memory .ready = mem .ready ∧ memory .nodes = mem .nodes) ⟨rfl, rfl⟩ ?_
    fun _ _ _ _ _ => ⟨_, _, .ret⟩
  rintro id valid memory ⟨sameReady, sameNodes⟩
  obtain ⟨events, _, left, evaluated, -, -, keptReady, keptNodes⟩ :=
    sortWorker_ensures (sameReady ▸ ready) (by rw [sameNodes, nodes]; exact positive) id
  refine ⟨events, left, ?_, keptReady.trans sameReady, keptNodes.trans sameNodes⟩
  rw [sortWorkers, if_pos valid]
  exact evaluated

/-- What a finished run of the workers leaves. -/
structure SortedBy (nodesWorker : UInt64) (mem after : Mem) : Prop where
  elems : after .elems = mem .elems
  parts : ∀ id < nodesWorker.toNat, Agree (InPart mem id) after (settled nodesWorker.toNat mem)

theorem sortedBy_of_finished (positive : nodesWorker ≠ 0) (nodes : mem .nodes = nodesWorker)
    {trace : List (Party × Effect Loc UInt64 Note)} {state : Threads Party Loc UInt64 Note}
    (run : Run (Threads.interleaving mem (sortWorkers nodesWorker)) anyStep trace state)
    (finished : state.Finished) : SortedBy nodesWorker mem state.mem := by
  have nonzero : mem .nodes ≠ 0 := by rwa [nodes]
  have starts : ∀ party fuel, Guarantee.Keeps (mayDo nodesWorker.toNat mem []) party
      (fun _ config => ∀ id < nodesWorker.toNat, party = .worker id →
        Signalled nodesWorker.toNat mem id config)
      fuel (sortWorkers nodesWorker party) ⟨mem, []⟩ := by
    intro party fuel
    cases party with
    | manager => exact Guarantee.Keeps.pure fun _ _ _ _ impossible => by contradiction
    | worker id =>
        by_cases valid : id < nodesWorker.toNat
        · rw [sortWorkers, if_pos valid]
          have start : Waiting mem id ⟨mem, []⟩ := ⟨by simp [Completed], .inr fun _ _ => rfl⟩
          refine (sortWorker_keeps valid nonzero fuel ⟨mem, []⟩ start).mono ?_
          intro _ config signalled other _ same
          obtain rfl := Party.worker.inj same
          exact signalled
        · rw [sortWorkers, if_neg valid]
          refine Guarantee.Keeps.pure ?_
          intro _ _ other below same
          obtain rfl := Party.worker.inj same
          exact absurd below valid
  have signalled := fun id valid =>
    Guarantee.run_returned starts run (finished (.worker id)) id valid rfl
  obtain ⟨guaranteed, reached, -⟩ := Guarantee.run_keeps starts run
  have framed := guaranteed.invariant (.inr fun _ _ => rfl) framed_kept
  rw [reached] at framed
  refine ⟨?_, fun id valid => (signalled id valid).2.2.2⟩
  have some : 0 < nodesWorker.toNat := Nat.pos_of_ne_zero fun zero =>
    positive (UInt64.toNat_inj.mp zero)
  exact framed.resolve_left (signalled 0 some).2.1 _ (fixed_header (by simp) (by simp))

/-- After the workers, the merge prints the elements of the parts in order. -/
theorem merge_prints (nodes : mem .nodes = nodesWorker) {after : Mem}
    (sorted : SortedBy nodesWorker mem after) :
    ∃ events, (mergeWorker nodesWorker).Eval after events () after ∧
      (printedElems events).Pairwise (· ≤ ·) ∧
      (printedElems events).Perm ((List.range (nodesWorker.toNat * share mem)).map
        fun index => mem (.data index)) := by
  have length : partLength nodesWorker after = share mem := by
    rw [partLength, share, sorted.elems, nodes]
  have parts : ∀ id < nodesWorker.toNat,
      (List.range (share mem)).map (part nodesWorker after id) = sortedPart mem id := by
    intro id valid
    rw [← settled_part mem valid]
    refine List.map_congr_left fun offset below => ?_
    rw [part, length, partOf, Nat.mul_comm]
    exact sorted.parts id valid _ ⟨offset, List.mem_range.mp below, rfl⟩
  obtain ⟨events, printed, evaluated, -, notes, -, merged⟩ := mergeWorker_eval nodesWorker after
  refine ⟨events, evaluated, ?_, ?_⟩
  · rw [printedElems_eq notes]
    refine merged.sorted fun id valid lower upper ordered below => ?_
    rw [length] at below
    have ascending := sortedPart_pairwise mem id
    rw [← parts id valid] at ascending
    exact le_of_pairwise ascending ordered below
  · rw [printedElems_eq notes, ← Multiset.coe_eq_coe, merged.perm, ← remaining_start, length]
    refine Finset.sum_congr rfl fun id member => ?_
    rw [rest_zero, rest_zero, parts id (Finset.mem_range.mp member), Multiset.coe_eq_coe]
    refine (sortedPart_perm mem id).trans (.of_eq (List.map_congr_left fun offset _ => ?_))
    rw [elementsFrom, partOf, Nat.mul_comm]

theorem mul_share (nodes : mem .nodes = nodesWorker) :
    nodesWorker.toNat * share mem = (mem .elems).toNat / nodesWorker.toNat * nodesWorker.toNat := by
  rw [share, nodes, UInt64.toNat_div, Nat.mul_comm]

/-- As many elements are printed as the parts hold together. -/
theorem SortsInput.length_eq (sorts : SortsInput nodesWorker mem) (positive : nodesWorker ≠ 0)
    (nodes : mem .nodes = nodesWorker) :
    nodesWorker.toNat * share mem = (mem .elems).toNat := by
  obtain ⟨⟨trace, state, run, finished⟩, prints⟩ := sorts
  obtain ⟨events, after, evaluated, -, all⟩ := prints trace state run finished
  obtain ⟨others, same, -, parts⟩ :=
    merge_prints nodes (sortedBy_of_finished positive nodes run finished)
  obtain ⟨rfl, -⟩ := evaluated.unique same
  have counts := parts.symm.trans all
  simpa [inputElems] using counts.length_eq

/-- psort prints its whole input in order exactly when the number of workers
divides the number of elements; the elements after the last part are neither
sorted nor printed. -/
theorem sortsInput_iff (positive : nodesWorker ≠ 0) (nodes : mem .nodes = nodesWorker)
    (ready : mem .ready ≠ 0) :
    SortsInput nodesWorker mem ↔ (mem .elems).toNat % nodesWorker.toNat = 0 := by
  constructor
  · intro sorts
    have whole := sorts.length_eq positive nodes
    rw [← whole, Nat.mul_mod_right]
  · intro divides
    have whole : nodesWorker.toNat * share mem = (mem .elems).toNat := by
      rw [mul_share nodes, Nat.div_mul_cancel (Nat.dvd_of_mod_eq_zero divides)]
    refine ⟨workers_finish positive nodes ready, fun trace state run finished => ?_⟩
    obtain ⟨events, evaluated, sorted, parts⟩ :=
      merge_prints nodes (sortedBy_of_finished positive nodes run finished)
    rw [whole] at parts
    exact ⟨events, state.mem, evaluated, sorted, parts⟩

/-- Two workers and three elements. -/
def threeElems : Mem
  | .elems => 3
  | .nodes => 2
  | .ready => 1
  | .data 0 => 3
  | .data 1 => 1
  | .data 2 => 2
  | _ => 0

theorem sortsInput_iff_threeElems :
    SortsInput 2 threeElems ↔ (threeElems .elems).toNat % (2 : UInt64).toNat = 0 :=
  sortsInput_iff (by decide) rfl (by decide)

/-- The third element is lost. -/
theorem threeElems_not_sorted : ¬ SortsInput 2 threeElems := by
  intro sorts
  exact absurd (sorts.length_eq (by decide) rfl) (by decide)

end

end LibIvy.Contracts.PsortOutput
