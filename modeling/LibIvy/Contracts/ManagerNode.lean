import LibIvy.Page.OwnerRead

/-!
Contract: the configured manager is the node that serves.

Owns: the property and the configurations for which it holds.

Does not own: what a request does with the owner it found.

The fault handlers of a worker call node `0`, and the served functions compare
the owner with `0`. Who may serve is decided by the configured manager id.
-/

namespace LibIvy

open Lib NumberText TransitionSystem

/-- The request has found that the owner is node `0` and runs `fetch_pg` on its
own node, without a call over RPC. -/
def Job.onLocalPath : Job → Bool
  | .servRd _ (.gotOwner ownerNode) => ownerNode == 0
  | .servRd _ (.fetching ownerNode _) => ownerNode == 0
  | .servWr _ (.erased ownerNode _) => ownerNode == 0
  | .servWr _ (.fetching ownerNode _ _) => ownerNode == 0
  | _ => false

/-- Requests are executed on the manager, and what they take from their own node
is recorded as owned by the manager. -/
structure Sys.ManagerServes (cfg : Config) (s : Sys) : Prop where
  requests : ∀ {id handler}, s.handler id = some handler → handler.job.kind.serves = true →
    cfg.isManager handler.node = true
  localPath : ∀ {id handler}, s.handler id = some handler → handler.job.onLocalPath = true →
    ((s.node handler.node).info (pgAlign handler.addr)).owner = cfg.managerId

theorem Job.owner?_of_onLocalPath {job : Job} (takes : job.onLocalPath = true) :
    job.owner? = some 0 := by
  cases job with
  | servRd reqNode pc => cases pc <;> simp_all [Job.onLocalPath, Job.owner?]
  | servWr reqNode pc => cases pc <;> simp_all [Job.onLocalPath, Job.owner?]
  | fetch accessType pc => contradiction
  | invalidate pc => contradiction

/-! ### Every run -/

theorem manager_serves_of_zero {cfg : Config} {s : Sys} (zero : cfg.managerId = 0)
    (reached : Reachable (machine cfg) anyStep s) : s.ManagerServes cfg := by
  obtain ⟨trace, run⟩ := reached
  have addressed := Addressed.of_reachable run.reachable
  constructor
  · intro id handler present serves
    obtain ⟨aligned, fits⟩ := addressed.handler present
    obtain ⟨-, linked⟩ := page_ordered zero aligned fits run
    have atZero : handler.node = 0 := linked.atManager (s.view_handler present rfl) serves
    simp [atZero, zero]
  · intro id handler present takes
    obtain ⟨aligned, fits⟩ := addressed.handler present
    have ownerRead := page_ownerRead zero aligned fits run
    rw [pgAlign_of_dvd aligned, zero]
    exact ownerRead id _ 0 (s.view_handler present rfl) (Job.owner?_of_onLocalPath takes)

/-- Without application threads nothing happens. -/
theorem initial_of_idle {cfg : Config} {s : Sys} (idle : cfg.appThreads = 0)
    (reached : Reachable (machine cfg) anyStep s) : s = Sys.initial := by
  refine reached.invariant (fun s => s = Sys.initial) rfl ?_
  rintro _ after action events - rfl - taken
  have taken : Sys.step cfg Sys.initial action = some (after, events) := taken
  have nobody : ∀ thread, cfg.runs thread ≠ true := by simp [Config.runs, idle]
  cases action with
  | load thread addr count => exact absurd (Sys.step_load taken).2.1 (nobody thread)
  | store thread addr values => exact absurd (Sys.step_store taken).2.1 (nobody thread)
  | fault thread rq addr => exact absurd (Sys.step_fault taken).2.1 (nobody thread)
  | app thread fresh =>
      obtain ⟨_, _, _, _, _, inside, -⟩ := Sys.step_app taken
      contradiction
  | handler id fresh =>
      obtain ⟨_, _, _, present, -⟩ := Sys.step_handler taken
      contradiction
  | failApp thread =>
      obtain ⟨_, _, _, _, inside, -⟩ := Sys.step_failApp taken
      contradiction
  | failHandler id =>
      obtain ⟨_, _, present, -⟩ := Sys.step_failHandler taken
      contradiction

/-- A read fault of node `0` reaches node `0`, whoever the manager is. -/
theorem request_at_zero {cfg : Config} (other : cfg.managerId ≠ 0) (runs : cfg.appThreads ≠ 0) :
    ∃ s, Reachable (machine cfg) anyStep s ∧
      s.handler 0 = some ⟨0, firstPage, .servRd 0 .entry⟩ := by
  have worker : cfg.isManager 0 = false := by simpa using Ne.symm other
  have thread : cfg.runs ⟨0, 0⟩ = true := by
    have listed := cfg.managerListed
    simp only [Config.runs, Bool.and_eq_true, decide_eq_true_eq]
    exact ⟨lt_of_le_of_lt (Nat.zero_le _) listed, Nat.pos_of_ne_zero runs⟩
  have aligned : pgAlign firstPage = firstPage := pgAlign_of_dvd (by decide)
  have within : withinPage firstPage 1 = true := by decide
  have accepted : RpcName.getRdPageFromManager.accept (pageRequest firstPage 0) =
      some (firstPage, .servRd 0 .entry) := by
    rw [RpcName.accept, parsePageRequest_pageRequest (by decide) (by decide), aligned]
    rfl
  let faulting := Sys.initial.setApp ⟨0, 0⟩ (.fault .rd firstPage .entry)
  let locking := (faulting.setNode 0
    (Node.initial.setLock .pageLocks firstPage (some (.app ⟨0, 0⟩)))).setApp ⟨0, 0⟩
      (.fault .rd firstPage .locked)
  let asking := (locking.setHandler 0 ⟨0, firstPage, .servRd 0 .entry⟩).setApp ⟨0, 0⟩
    (.fault .rd firstPage (.asking 0))
  have fault : (machine cfg).step Sys.initial (.fault ⟨0, 0⟩ .rd firstPage) =
      some (faulting, []) := by
    simp [machine, Sys.step, Sys.initial, thread, within, Node.initial, Rq.faults,
      AccessType.readable, faulting]
  have lock : (machine cfg).step faulting (.app ⟨0, 0⟩ 0) =
      some (locking, [.lockKey 0 .pageLocks firstPage]) := by
    simp [machine, Sys.step, Sys.setApp, faulting, faultHdlr, rdFaultHdlr, worker, Stmt.exec,
      Stmt.runLocal, Sys.initial, Node.initial, Node.lock, App.resume, aligned, locking, Sys.setNode]
  have ask : (machine cfg).step locking (.app ⟨0, 0⟩ 0) =
      some (asking, [.call 0 .getRdPageFromManager (pageRequest firstPage 0)]) := by
    simp [machine, Sys.step, Sys.setApp, locking, faulting, faultHdlr, rdFaultHdlr, worker,
      Stmt.exec, Sys.initial, Sys.setNode, App.resume, aligned, accepted, asking, Sys.setHandler]
  have reached : Reachable (machine cfg) anyStep asking :=
    ((Reachable.init.next trivial fault).next trivial lock).next trivial ask
  exact ⟨asking, reached, by simp [asking, Sys.setApp, Sys.setHandler]⟩

/-- Requests are executed on the manager, and the local path is taken for pages
of the manager only, exactly when the manager is node `0` (or nothing runs). -/
theorem manager_serves_iff (cfg : Config) :
    (∀ s, Reachable (machine cfg) anyStep s → s.ManagerServes cfg) ↔
      cfg.managerId = 0 ∨ cfg.appThreads = 0 := by
  constructor
  · intro always
    by_contra neither
    obtain ⟨other, runs⟩ := not_or.mp neither
    obtain ⟨s, reached, present⟩ := request_at_zero other runs
    have manager := (always s reached).requests present rfl
    exact other (Config.isManager_eq_true.mp manager).symm
  · rintro (zero | idle) s reached
    · exact manager_serves_of_zero zero reached
    · rw [initial_of_idle idle reached]
      constructor <;> intro id handler present <;> contradiction

/-- Three nodes managed by node `1`. -/
def managedByOne : Config :=
  { threeNodes with managerId := 1, managerListed := by decide }

/-- The request of a read fault of worker `2` is executed on worker `0`, which takes its
page lock and fails the assertion. -/
theorem manager_serves_fails : ¬∀ (cfg : Config) (s : Sys), cfg.appThreads = 1 →
    Reachable (machine cfg) Reliable s → s.ManagerServes cfg := by
  intro always
  obtain ⟨trace, s, run, checked⟩ := exists_run (machine managedByOne)
    (fun _ action => action.reliable)
    (fun s _ => (s.handler 0).any fun handler =>
      handler.job.kind.serves && !managedByOne.isManager handler.node)
    ([.fault ⟨2, 0⟩ .rd firstPage] ++ moves 2 (.app ⟨2, 0⟩ 0) ++ moves 2 (.handler 0 0))
    (fun s action permitted => (permitted : Reliable s action))
    (by decide +kernel)
  cases present : s.handler 0 with
  | none => simp [present] at checked
  | some handler =>
      simp only [present, Option.any_some, Bool.and_eq_true, Bool.not_eq_true'] at checked
      have manager := (always managedByOne s rfl run.reachable).requests present checked.1
      simp [manager] at checked

end LibIvy
