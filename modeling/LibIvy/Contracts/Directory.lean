import LibIvy.Page.Runs
import LibIvy.Protocol.Directory

/-!
Contract: while the manager's page lock is free, the directory entry of the page
is accurate about every worker.

Owns: what it means that a node is inside its fault handler for a page and that
it has a grant it has not installed, and directory accuracy in every run without
failures, whoever faults.

Does not own: the manager's own copy; see `LibIvy.Contracts.SingleWriter`.
-/

namespace LibIvy

open Lib NumberText TransitionSystem Protocol

/-! ### Faulting nodes -/

/-- A reply with the grant exists and the handler has not installed it: the
access that the grant gives has not been set, or the copy is not complete. -/
def FaultPc.granted (reply? : HandlerId → Option Reply) (rq : Rq) : FaultPc → Bool
  | .asking call => (reply? call).isSome
  | .got _ => true
  | .opened _ => true
  | .copied => rq = .rd
  | _ => false

theorem FaultPc.granted_of_phase {reply? : HandlerId → Option Reply} {rq rq' : Rq} {pc : FaultPc}
    {page : Option Page} (phase : pc.phase reply? rq = .granted rq' page) :
    rq = rq' ∧ pc.granted reply? rq = true := by
  cases pc with
  | asking call =>
      simp only [FaultPc.phase] at phase
      cases replied : reply? call <;> simp_all [FaultPc.granted]
  | got memStr =>
      simp only [FaultPc.phase, Phase.granted.injEq] at phase
      exact ⟨phase.1, rfl⟩
  | copied => cases rq <;> contradiction
  | _ => contradiction

namespace Sys

/-- An application thread of the node is in its fault handler for the page. -/
def Inside (s : Sys) (node : NodeId) (base : Addr) : Prop :=
  ∃ idx rq addr pc, s.app ⟨node, idx⟩ = .fault rq addr pc ∧ pgAlign addr = base

/-- A grant of the page has been issued to the node and is not yet installed. -/
def HasGrant (s : Sys) (rq : Rq) (node : NodeId) (base : Addr) : Prop :=
  ∃ idx addr pc, s.app ⟨node, idx⟩ = .fault rq addr pc ∧ pgAlign addr = base ∧
    pc.granted s.reply? rq = true

end Sys

/-- Failures cannot happen, every node may fault. -/
def reliableRegime : Regime Page where
  lossy := False
  faults := fun _ => True
  revokes := fun _ _ _ => True

section Phases

variable {cfg : Config} {base : Nat} {trace : List Event} {s : Sys} {node : NodeId}

/-- The phase of a node that is inside its fault handler. -/
theorem phase_of_fault {allowed : Sys → Action → Prop} (single : cfg.appThreads = 1)
    (run : Run (machine cfg) allowed trace s) {idx : Nat} {rq : Rq} {addr : Nat} {pc : FaultPc}
    (inside : s.app ⟨node, idx⟩ = .fault rq addr pc) :
    (protocolOf (pgAlign addr) trace s).app node = pc.phase s.reply? rq := by
  have addressed := Addressed.of_reachable run.reachable
  have only := thread_eq single (addressed.fault inside).2
  have inView : (s.view (pgAlign addr)).app (PageState.thread node) = some (rq, pc) := by
    rw [← only, Sys.view_app, inside, App.view_fault]
  simp only [protocolOf, PageState.protocolState, PageState.phase, inView]
  cases pc
  case asking call =>
    have same := s.view_reply? (addressed.appAwaits inside rfl)
    simp only [FaultPc.phase, same]
  all_goals rfl

/-- The phase of a node that is not. -/
theorem phase_outside (outside : ¬s.Inside node base) : (protocolOf base trace s).app node = .out := by
  have inView : (s.view base).app (PageState.thread node) = none := by
    rw [Sys.view_app]
    cases app : s.app (PageState.thread node) with
    | run => rfl
    | fault rq addr pc =>
        have different : base ≠ pgAlign addr := fun same => outside ⟨0, rq, addr, pc, app, same.symm⟩
        exact App.view_fault_other rq pc different
  simp [protocolOf, PageState.protocolState, PageState.phase, inView]

/-- A node whose only thread runs its program is not in a fault handler. -/
theorem not_inside_of_running {allowed : Sys → Action → Prop} (single : cfg.appThreads = 1)
    (run : Run (machine cfg) allowed trace s) (running : (s.app ⟨node, 0⟩).isRunning = true) :
    ¬s.Inside node base := by
  rintro ⟨idx, rq, addr, pc, inside, -⟩
  have runs := ((Addressed.of_reachable run.reachable).fault inside).2
  rw [← PageState.thread, ← thread_eq single runs, inside] at running
  contradiction

/-- A grant that is not installed leaves its node with access or about to get it. -/
theorem not_clean_of_grant {allowed : Sys → Action → Prop} (single : cfg.appThreads = 1)
    (run : Run (machine cfg) allowed trace s) (accurate : Accurate (protocolOf base trace s))
    (worker : node ≠ 0) {rq : Rq} (grant : s.HasGrant rq node base) :
    ¬(protocolOf base trace s).Clean node := by
  obtain ⟨idx, addr, pc, inside, rfl, granted⟩ := grant
  have phase := phase_of_fault single run inside
  have written := accurate.written node worker
  simp only [State.Clean, phase] at written ⊢
  cases pc <;> (try contradiction) <;> cases rq <;>
    simp_all [FaultPc.granted, FaultPc.phase, Phase.clean, Phase.installing]
  all_goals
    obtain ⟨reply, replied⟩ := Option.isSome_iff_exists.mp granted
    simp [replied]

/-- A node with a write grant may write. -/
theorem writes_of_grant {allowed : Sys → Action → Prop} (single : cfg.appThreads = 1)
    (run : Run (machine cfg) allowed trace s) (accurate : Accurate (protocolOf base trace s))
    (worker : node ≠ 0) (grant : s.HasGrant .wr node base) :
    (protocolOf base trace s).Writes node := by
  obtain ⟨idx, addr, pc, inside, rfl, granted⟩ := grant
  have phase := phase_of_fault single run inside
  have written := accurate.written node worker
  refine .inl ?_
  rw [phase] at written ⊢
  cases pc <;> (try contradiction) <;>
    simp_all [FaultPc.granted, FaultPc.phase, Phase.entitled, AccessType.writable]
  obtain ⟨reply, replied⟩ := Option.isSome_iff_exists.mp granted
  simp [replied]

/-- A write grant of the protocol is one of the runtime. -/
theorem grant_of_phase {allowed : Sys → Action → Prop} (single : cfg.appThreads = 1)
    (run : Run (machine cfg) allowed trace s) {page : Option Page}
    (phase : (protocolOf base trace s).app node = .granted .wr page) :
    s.HasGrant .wr node base := by
  by_cases faulting : s.Inside node base
  · obtain ⟨idx, rq, addr, pc, inside, rfl⟩ := faulting
    rw [phase_of_fault single run inside] at phase
    obtain ⟨rfl, granted⟩ := FaultPc.granted_of_phase phase
    exact ⟨idx, addr, pc, inside, rfl, granted⟩
  · rw [phase_outside faulting] at phase
    contradiction

end Phases

/-! ### Every run -/

/-- What the protocol guarantees on every page. -/
theorem protocol_accurate {cfg : Config} {base : Nat} {trace : List Event} {s : Sys}
    (zero : cfg.managerId = 0) (single : cfg.appThreads = 1) (aligned : 4096 ∣ base)
    (fits : base < wordCount) (run : Run (machine cfg) Reliable trace s) :
    Exclusive (· ≠ 0) (protocolOf base trace s) ∧ Accurate (protocolOf base trace s) := by
  refine protocol_invariant reliableRegime (fun a => Exclusive (· ≠ 0) a ∧ Accurate a) zero single
    aligned fits ⟨.initial _, .initial _⟩ ?_ ?_ run
  · rintro a b ⟨excl, accurate⟩ step
    exact ⟨excl.step id (fun tracked => absurd rfl tracked) step, accurate.step id excl step⟩
  · intro trace s action pageAction run permitted _ onPage
    exact reliable_permits aligned (fun _ _ => id) (fun _ => trivial) (fun _ _ _ _ => trivial)
      (fun _ _ => trivial) (fun _ => trivial) run permitted onPage

/-- Whenever the manager's page lock is free: a worker with access or with a grant
that is not installed is the recorded owner or a recorded reader; a worker that
may write is the recorded owner and there are no recorded readers; a worker that
is the recorded owner is no recorded reader and has access or a write grant. -/
theorem directory_accurate {cfg : Config} {base : Nat} {s : Sys} (zero : cfg.managerId = 0)
    (single : cfg.appThreads = 1) (aligned : 4096 ∣ base) (fits : base < wordCount)
    (reached : Reachable (machine cfg) Reliable s)
    (free : (s.node cfg.managerId).pageLocks base = none) :
    let entry := (s.node cfg.managerId).info base
    (∀ node, node ≠ cfg.managerId →
      ((s.node node).prot base ≠ .none ∨ ∃ rq, s.HasGrant rq node base) →
      node = entry.owner ∨ node ∈ entry.copyset) ∧
    (∀ node, node ≠ cfg.managerId →
      (((s.node node).prot base).writable = true ∧ ¬s.Inside node base ∨
        s.HasGrant .wr node base) →
      node = entry.owner ∧ entry.copyset = ∅) ∧
    (entry.owner ≠ cfg.managerId → entry.owner ∉ entry.copyset ∧
      ((s.node entry.owner).prot base ≠ .none ∨ s.HasGrant .wr entry.owner base)) := by
  obtain ⟨trace, run⟩ := reached
  obtain ⟨excl, accurate⟩ := protocol_accurate zero single aligned fits run
  rw [zero] at free ⊢
  have idle : (protocolOf base trace s).srv = none := PageState.serving_none free
  refine ⟨fun node worker access => ?_, fun node worker writes => ?_, fun worker => ⟨?_, ?_⟩⟩
  · have notClean : ¬(protocolOf base trace s).Clean node := by
      rcases access with access | ⟨rq, grant⟩
      · intro clean
        simp only [State.Clean, Phase.clean, Bool.and_eq_true, Bool.not_eq_true',
          AccessType.readable_eq_false] at clean
        exact access clean.1
      · exact not_clean_of_grant single run accurate worker grant
    rcases excl.holder node worker notClean with owner | listed | ⟨serving, present, -⟩
    · exact .inl owner
    · exact .inr listed
    · simp [idle] at present
  · have mayWrite : (protocolOf base trace s).Writes node := by
      rcases writes with ⟨writable, outside⟩ | grant
      · refine .inl ?_
        rw [phase_outside outside]
        exact writable
      · exact writes_of_grant single run accurate worker grant
    obtain ⟨owner, readers⟩ := excl.writer node worker mayWrite
    refine ⟨owner.symm, NodeSet.eq_empty fun reader listed => ?_⟩
    obtain ⟨serving, present, -⟩ := readers reader listed
    simp [idle] at present
  · exact accurate.unlisted worker
  · rcases accurate.held worker with (access | ⟨page, phase⟩) | ⟨serving, present, -⟩ |
      ⟨serving, present, -⟩
    · exact .inl access
    · exact .inr (grant_of_phase single run phase)
    · simp [idle] at present
    · simp [idle] at present

/-- Worker `1` owns the page and worker `2` has read it: the directory lists it. -/
theorem directory_accurate_after_sharing :
    ∃ s, Reachable (machine threeNodes) Reliable s ∧
      ((s.node 0).info firstPage).owner = 1 ∧ (s.node 2).prot firstPage = .rd ∧
      2 ∈ ((s.node 0).info firstPage).copyset ∧ 1 ∉ ((s.node 0).info firstPage).copyset := by
  obtain ⟨trace, s, run, checked⟩ := exists_run (machine threeNodes)
    (fun _ action => action.reliable)
    (fun s _ => decide ((s.node 0).pageLocks firstPage = none ∧
      ((s.node 0).info firstPage).owner = 1 ∧ (s.node 2).prot firstPage = .rd))
    (writeFromManager ⟨1, 0⟩ firstPage 0 ++ readFromOwner ⟨2, 0⟩ firstPage 2)
    (fun s action permitted => (permitted : Reliable s action))
    (by decide +kernel)
  obtain ⟨free, owner, shared⟩ := of_decide_eq_true checked
  have accurate := directory_accurate rfl rfl (by decide) (by decide) run.reachable free
  have reader := accurate.1 2 (by decide) (.inl (by simp [shared]))
  have unlisted := (accurate.2.2 (by rw [show threeNodes.managerId = 0 from rfl, owner]; decide)).1
  rw [show threeNodes.managerId = 0 from rfl, owner] at reader unlisted
  exact ⟨s, run.reachable, owner, shared, reader.resolve_left (by decide), unlisted⟩

end LibIvy
