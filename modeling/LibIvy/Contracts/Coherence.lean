import LibIvy.Page.Runs
import LibIvy.Protocol.Coherence

/-!
Contract: a reliable cluster in which only workers access the shared memory is
one atomic memory.

Owns: the refinement for every run, over any number of nodes and pages.

Does not own: runs with failures, faults of the manager.
-/

namespace LibIvy

open Lib NumberText AtomicMemory TransitionSystem Protocol

/-- Reliable RPC and no accesses on the manager. -/
def ReliableWorkers (cfg : Config) (s : Sys) (action : Action) : Prop :=
  Reliable s action ∧ WorkersOnly cfg s action

/-- The protocol without failures, with faults of workers only. -/
def workerRegime : Regime Page where
  lossy := False
  faults := fun node => node ≠ 0
  revokes := fun _ _ _ => True

section Runs

variable {cfg : Config} {base : Nat} {trace : List Event} {s : Sys}

/-- What the protocol guarantees on every page of such a run. -/
theorem protocol_current (zero : cfg.managerId = 0) (single : cfg.appThreads = 1)
    (aligned : 4096 ∣ base) (fits : base < wordCount)
    (run : Run (machine cfg) (ReliableWorkers cfg) trace s) :
    Current (protocolOf base trace s) := by
  have all : Exclusive (· ≠ 0) (protocolOf base trace s) ∧ Accurate (protocolOf base trace s) ∧
      Current (protocolOf base trace s) := by
    refine protocol_invariant workerRegime
      (fun a => Exclusive (· ≠ 0) a ∧ Accurate a ∧ Current a) zero single aligned fits
      ⟨.initial _, .initial _, .initial _⟩ ?_ ?_ run
    · rintro a b ⟨excl, accurate, current⟩ step
      exact ⟨excl.step id (fun tracked => absurd rfl tracked) step, accurate.step id excl step,
        current.step id (fun _ => id) excl accurate step⟩
    · intro trace s action pageAction run permitted _ onPage
      refine reliable_permits aligned (fun _ _ permitted => permitted.1) ?_ (fun _ _ _ _ => trivial)
        (fun _ _ => trivial) (fun _ => trivial) run permitted onPage
      intro s thread rq addr permitted
      have worker := permitted.2
      simp only [WorkersOnly, Action.byWorker, Bool.not_eq_true', Config.isManager_eq_false, zero]
        at worker
      exact worker
  exact all.2.2

/-- A load of a worker outside its fault handler returns what the last stores
left. -/
theorem load_current (zero : cfg.managerId = 0) (single : cfg.appThreads = 1)
    (run : Run (machine cfg) (ReliableWorkers cfg) trace s) {thread : AppId} {addr count : Nat}
    {later : Sys} {events : List Event}
    (permitted : ReliableWorkers cfg s (.load thread addr count))
    (taken : s.step cfg (.load thread addr count) = some (later, events)) :
    readSpan (s.node thread.node).mem addr count =
      readSpan (after (fun _ => 0) (history trace)) addr count := by
  obtain ⟨outside, runs, within, readable, -, -⟩ := Sys.step_load taken
  obtain ⟨addrFits, onePage⟩ := withinPage_iff.mp within
  have worker : thread.node ≠ 0 := by simpa [WorkersOnly, Action.byWorker, zero] using permitted.2
  have current := protocol_current zero single (pgAlign_dvd addr) (pgAlign_lt addrFits) run
  have phase : (protocolOf (pgAlign addr) trace s).app thread.node = .out := by
    have inView : (s.view (pgAlign addr)).app (PageState.thread thread.node) = none := by
      rw [← thread_eq single runs, Sys.view_app, outside, App.view_run]
    simp [protocolOf, PageState.protocolState, PageState.phase, inView]
  have same : (s.node thread.node).pageAt (pgAlign addr) = contentsOf (pgAlign addr) trace :=
    current.copy thread.node worker (.inl (AccessType.readable_eq_true.mp readable))
      (by simp [phase])
  refine readSpan_congr fun offset below => ?_
  have position : addr % 4096 + offset < pageSize := by
    simp only [pageSize]
    omega
  have start : pgAlign addr + (addr % 4096 + offset) = addr + offset := by
    unfold pgAlign
    omega
  have bytes := congrFun same ⟨addr % 4096 + offset, position⟩
  simpa only [Node.pageAt, contentsOf, start] using bytes

end Runs

/-- Every load of a reliable run in which only workers access the memory returns
at each location the value of the last store to it, or zero: the cluster is one
atomic memory. -/
theorem loads_return_last_store {cfg : Config} (zero : cfg.managerId = 0)
    (single : cfg.appThreads = 1) {trace : List Event} {s : Sys}
    (run : Run (machine cfg) (ReliableWorkers cfg) trace s) :
    Legal (fun _ => 0) (history trace) ∧
      ∀ before start values later, history trace = before ++ .load start values :: later →
        values = (List.range values.length).map fun offset =>
          lastStored 0 (start + offset) before := by
  have legal : Legal (fun _ => 0) (history trace) := by
    refine run.invariant (fun trace _ => Legal (fun _ => 0) (history trace)) trivial ?_
    intro trace events before later action run legal permitted taken
    rw [history_append, legal_append]
    refine ⟨legal, ?_⟩
    rcases access_cases taken with ⟨thread, addr, count, rfl⟩ | ⟨thread, addr, values, rfl⟩ |
      ⟨silent, -⟩
    · obtain ⟨-, -, -, -, -, rfl⟩ := Sys.step_load taken
      refine ⟨?_, trivial⟩
      rw [readSpan_length]
      exact load_current zero single run permitted taken
    · obtain ⟨-, -, -, -, -, rfl⟩ := Sys.step_store taken
      trivial
    · rw [silent]
      trivial
  refine ⟨legal, ?_⟩
  intro before start values later shape
  rw [shape] at legal
  exact load_returns_lastStored legal

/-- Worker `1` stores, worker `2` loads what it stored. -/
theorem loads_return_last_store_across_workers :
    ∃ trace s, Run (machine threeNodes) (ReliableWorkers threeNodes) trace s ∧
      trace.getLast? = some (.load ⟨2, 0⟩ firstPage [7, 0]) ∧
      Legal (fun _ => 0) (history trace) := by
  obtain ⟨trace, s, run, loaded⟩ := exists_run (machine threeNodes)
    (fun _ action => action.reliable && action.byWorker threeNodes)
    (fun _ trace => trace.getLast? == some (.load ⟨2, 0⟩ firstPage [7, 0]))
    (writeFromManager ⟨1, 0⟩ firstPage 0 ++ [.store ⟨1, 0⟩ firstPage [7]] ++
      readFromOwner ⟨2, 0⟩ firstPage 2 ++ [.load ⟨2, 0⟩ firstPage 2])
    (fun s action permitted => (Bool.and_eq_true_iff.mp permitted :
      ReliableWorkers threeNodes s action))
    (by decide +kernel)
  exact ⟨trace, s, run, beq_iff_eq.mp loaded, (loads_return_last_store rfl rfl run).1⟩

end LibIvy
