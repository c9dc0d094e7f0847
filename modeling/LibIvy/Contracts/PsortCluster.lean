import LibIvy.Contracts.Placed
import LibIvy.Contracts.PsortRegion

/-!
Contract: psort on a cluster sorts its input file.

Owns: the threads and the bytes of psort on a cluster, what the manager has printed
when it returns, in every run of a cluster whose manager gives away the pages that
it has, and that some run ends.

Does not own: the protocol, the interleavings of the programs on one memory.
-/

namespace LibIvy.Contracts.PsortCluster

open LibIvy.Lib NumberText TransitionSystem Program LibIvy.Workloads LibIvy.Workloads.Psort
open LibIvy.Contracts.Handshake LibIvy.Contracts.PsortRun LibIvy.Contracts.PsortRegion

/-- The nodes of psort, with its shared memory at `base`. The manager is node 0, and
`main` passes its id less one to `sort_worker`. -/
def psortHost {nodesWorker : UInt64} (fits : HeaderFits nodesWorker) (base : Nat) :
    Host Party Loc UInt64 := placed 0 (shmLayout fits base)

section

variable {cfg : Config} {nodesWorker : UInt64} {fits : HeaderFits nodesWorker} {base : Nat}
variable {input : Input}

/-- No field of the region crosses the end of a page. -/
theorem withinPage_field (aligned : 4096 ∣ base) {loc : Loc}
    (room : base + loc.offset nodesWorker < 2 ^ 64) :
    withinPage (base + loc.offset nodesWorker) loc.size = true := by
  obtain ⟨page, rfl⟩ := aligned
  have canary : canaryVal.length = 17 := rfl
  apply withinPage_of_dvd room <;> cases loc <;> simp only [Loc.offset, Loc.size] <;> omega

/-- A cluster with enough nodes can perform every access of psort. -/
theorem possible_of_run {trace : Trace} {state : Threads Party Loc UInt64 Note}
    (single : cfg.appThreads = 1) (aligned : 4096 ∣ base)
    (room : base + 4096 + 8 * input.elems.toNat < 2 ^ 64)
    (enough : nodesWorker.toNat < cfg.nodes.length)
    (bounded : input.numbers.length ≤ input.elems.toNat)
    (run : Run (psort nodesWorker input) anyStep trace state) :
    ∀ entry ∈ trace, (psortHost fits base).Possible cfg entry := by
  have whole : 8 * input.elems.toNat + 4096 < 2 ^ 64 := by omega
  apply placed_possible single enough (fun id outside => if_neg outside) run
    fun entry member => (accesses_fitting fits whole bounded run entry member).within
  rintro loc ⟨-, ends⟩
  rw [regionSz_toNat whole] at ends
  have below : base + loc.offset nodesWorker < 2 ^ 64 := by omega
  exact withinPage_field aligned below

end

end LibIvy.Contracts.PsortCluster
