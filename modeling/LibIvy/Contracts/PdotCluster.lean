import LibIvy.Contracts.PdotRun
import LibIvy.Contracts.Placed
import LibIvy.Workloads.PdotLayout

/-!
Contract: pdot on a cluster multiplies the vectors of its input file.

Owns: the threads of pdot on a cluster, what node 1 has printed when it returns, in
every run of a cluster with reliable calls, and that some run ends.

Does not own: the protocol, the interleavings of the programs on one memory.

No program runs on the manager of libivy, so nothing is asked of its grants.
-/

namespace LibIvy.Contracts.PdotCluster

open LibIvy.Lib NumberText TransitionSystem Program Guarantee LibIvy.Workloads LibIvy.Workloads.Pdot
open LibIvy.Contracts.PdotRun

/-- The nodes of pdot, with its shared memory at `base`. Node 1 loads, and `main` passes
the id less two to `mult_worker`. -/
def pdotHost {nodesWorker : UInt64} (fits : HeaderFits nodesWorker) (base : Nat) :
    Host Party Field UInt64 := placed 1 (shmLayout fits base)

section

variable {cfg : Config} {nodesWorker : UInt64} {fits : HeaderFits nodesWorker} {base : Nat}
variable {input : Psort.Input}

/-- Every node stays inside the elements of the file. -/
theorem programs_stay (bounded : input.numbers.length ≤ input.elems.toNat) (party : Party)
    (fuel : Nat) :
    Keeps ((mainMay nodesWorker input).restrict (Fitting nodesWorker input.elems.toNat)) party
      (fun _ _ => True) fuel (programs nodesWorker input party) start := by
  have unset : start.mem (.shm .ready) ≠ 1 := by decide
  cases party with
  | manager =>
      refine (manager_keeps.restrict (manager_fitting bounded) fuel start ?_).mono
        fun _ _ _ => trivial
      exact ⟨⟨unset, fun _ _ => rfl⟩, rfl⟩
  | worker id =>
      by_cases valid : id < nodesWorker.toNat
      · have stays := ((awaitReady_keeps id).restrict awaitReady_fitting).bind fun _ =>
          (@addPart_stays nodesWorker input id valid).bind fun sum =>
            (finish_keeps id sum).restrict (finish_fitting valid sum)
        rw [programs, if_pos valid, multWorker_eq]
        exact (stays fuel start (.inl unset)).mono fun _ _ _ => trivial
      · rw [programs, if_neg valid]
        exact Keeps.pure fun _ _ => trivial

/-- No field of the region crosses the end of a page. -/
theorem withinPage_field (aligned : 4096 ∣ base) {field : Field}
    (room : base + field.offset nodesWorker < 2 ^ 64) :
    withinPage (base + field.offset nodesWorker) field.size = true := by
  obtain ⟨page, rfl⟩ := aligned
  apply withinPage_of_dvd room <;> rcases field with _ | (_ | _ | _ | _ | _) <;>
    simp only [Field.offset, Field.size] <;> omega

/-- A cluster with enough nodes can perform every access of pdot. -/
theorem possible_of_run {trace : Trace} {state : Threads Party Field UInt64 Note}
    (single : cfg.appThreads = 1) (aligned : 4096 ∣ base)
    (room : base + 4096 + 8 * input.elems.toNat < 2 ^ 64)
    (enough : nodesWorker.toNat + 1 < cfg.nodes.length)
    (bounded : input.numbers.length ≤ input.elems.toNat)
    (run : Run (pdot nodesWorker input) anyStep trace state) :
    ∀ entry ∈ trace, (pdotHost fits base).Possible cfg entry := by
  have inside : ∀ entry ∈ trace, entry.2.Within (Reached nodesWorker input.elems.toNat) := by
    rintro ⟨party, event⟩ member
    obtain ⟨_, -, fitting⟩ := (run_keeps (programs_stay bounded) run).1.permitted member
    exact fitting.within
  apply placed_possible single enough (fun id outside => if_neg outside) run inside
  rintro field ⟨found, below⟩
  apply withinPage_field aligned
  have header : 40 + 8 * nodesWorker.toNat + 8 * nodesWorker.toNat ≤ 4096 := fits
  have canary : canaryVal.length = 17 := rfl
  rcases field with _ | (_ | _ | _ | _ | index)
  case shm.vecs =>
    have inside := below index rfl
    simp only [Field.offset]
    omega
  all_goals
    simp only [Field.Exists, Field.offset] at found ⊢
    omega

end

end LibIvy.Contracts.PdotCluster
