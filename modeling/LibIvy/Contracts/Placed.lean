import LibIvy.Contracts.Realised
import LibIvy.Workloads.Parties

/-!
Contract: workloads on the nodes of a cluster.

Owns: the thread of each party of a workload, what a cluster with enough nodes can
perform for them, and that it ends when some interleaving does.

Does not own: the programs, the layout of their memory.
-/

namespace LibIvy

open Lib NumberText TransitionSystem Workloads

/-- A field at a multiple of its size does not cross the end of a page, when pages are
multiples of its size too. -/
theorem withinPage_of_dvd {addr size : Nat} (fits : addr < wordCount) (pages : size ∣ 4096)
    (aligned : size ∣ addr) : withinPage addr size = true := by
  refine withinPage_iff.mpr ⟨fits, ?_⟩
  obtain ⟨rest, offset⟩ : size ∣ addr % 4096 := (Nat.dvd_mod_iff pages).mpr aligned
  obtain ⟨count, whole⟩ := pages
  have inside : size * rest < size * count := by
    rw [← offset, ← whole]
    exact Nat.mod_lt _ (by decide)
  have room : rest + 1 ≤ count := Nat.lt_of_mul_lt_mul_left inside
  calc addr % 4096 + size = size * (rest + 1) := by rw [offset, Nat.mul_succ]
    _ ≤ size * count := Nat.mul_le_mul_left size room
    _ = 4096 := whole.symm

namespace Workloads

/-- The workers are on the nodes after the one of the manager. -/
def Party.place (first : NodeId) : Party → AppId
  | .manager => ⟨first, 0⟩
  | .worker id => ⟨id + (first + 1), 0⟩

theorem Party.place_injective (first : NodeId) : Function.Injective (Party.place first) := by
  intro one other same
  cases one <;> cases other <;> simp only [Party.place, AppId.mk.injEq] at same
  case manager.manager => rfl
  case worker.worker => rw [Nat.add_right_cancel same.1]
  all_goals
    have sameNode : _ = (_ : Nat) := same.1
    omega

/-- The parties of a workload, whose shared memory has the layout. -/
def placed {Loc Value : Type} (first : NodeId) (layout : Layout Loc Value UInt8) :
    Host Party Loc Value where
  place := Party.place first
  distinct := Party.place_injective first
  layout := layout

section

variable {Loc Value Note : Type} [DecidableEq Loc] {cfg : Config} {count : Nat} {first : NodeId}
variable {layout : Layout Loc Value UInt8} {initial : Loc → Value}
variable {programs : Party → Program Loc Value Note Unit}

theorem runs_place (single : cfg.appThreads = 1) (enough : count + first < cfg.nodes.length)
    {party : Party} (takes : party.Takes count) : cfg.runs (party.place first) = true := by
  have node : (party.place first).node < cfg.nodes.length := by
    cases party with
    | manager => exact Nat.lt_of_le_of_lt (Nat.le_add_left first count) enough
    | worker id =>
        have below : id + (first + 1) ≤ count + first := by
          have valid : id < count := takes
          omega
        exact Nat.lt_of_le_of_lt below enough
  have thread : (party.place first).idx < cfg.appThreads := by
    rw [single]
    cases party <;> exact Nat.one_pos
  simp only [Config.runs, node, thread, decide_true, Bool.and_self]

/-- A cluster with enough nodes can perform every access inside a page. -/
theorem placed_possible (single : cfg.appThreads = 1) (enough : count + first < cfg.nodes.length)
    (beyond : ∀ id, ¬id < count → programs (.worker id) = .ret ())
    {trace : List (Party × Effect Loc Value Note)} {state : Threads Party Loc Value Note}
    (run : Run (Threads.interleaving initial programs) anyStep trace state) {region : Loc → Prop}
    (inside : ∀ entry ∈ trace, entry.2.Within region)
    (inPage : ∀ loc, region loc → withinPage (layout.start loc) (layout.size loc) = true) :
    ∀ entry ∈ trace, (placed first layout).Possible cfg entry := by
  rintro ⟨party, event⟩ member
  have runs := runs_place single enough (takes_of_run beyond run _ member)
  have within : event.Within region := inside _ member
  cases event with
  | load loc value => exact ⟨runs, inPage loc within⟩
  | store loc value => exact ⟨runs, inPage loc within⟩
  | note text => trivial

end

end Workloads

end LibIvy
