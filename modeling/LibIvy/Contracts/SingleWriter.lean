import LibIvy.Contracts.Directory

/-!
Contract: single writer or multiple readers, for all nodes.

Owns: the property, a run in which the manager's own fault breaks it, and the
property for every run that leaves the manager's pending grants alone.

Does not own: runs with failures.

Workers hold the lock of their page from before they ask until the grant is
installed. The fault handlers of the manager take no lock, and the manager's
fetches and invalidations of its own page take none either.
-/

namespace LibIvy

open Lib NumberText TransitionSystem Protocol

/-- While a node outside its fault handler may write the page, every other node
has no access or is inside its own fault handler for it. -/
def Sys.SingleWriter (s : Sys) (base : Addr) : Prop :=
  ∀ node other, other ≠ node → ¬s.Inside node base → ((s.node node).prot base).writable = true →
    (s.node other).prot base = .none ∨ s.Inside other base

/-- The grant has been issued and the fault handler has a `set_access` to come
that raises or restores access. -/
def FaultPc.installing (reply? : HandlerId → Option Reply) (rq : Rq) : FaultPc → Bool
  | .asking call => (reply? call).isSome
  | .got _ => true
  | .opened _ => rq = .rd
  | .copied => rq = .rd
  | _ => false

theorem FaultPc.installing_phase (reply? : HandlerId → Option Reply) (rq : Rq) (pc : FaultPc) :
    (pc.phase reply? rq).installing = pc.installing reply? rq := by
  cases pc with
  | asking call =>
      simp only [FaultPc.phase, FaultPc.installing]
      cases reply? call <;> rfl
  | _ => cases rq <;> rfl

/-- The step is the last `set_access` of a fetch or invalidation on the manager,
and the manager's own fault handler for the page is still to install a write
grant, or any grant when the step leaves no access. -/
def disturbsManager (cfg : Config) (s : Sys) : Action → Bool
  | .handler id _ =>
      match s.handler id, s.app ⟨cfg.managerId, 0⟩ with
      | some handler, .fault rq addr pc =>
          match handler.job.revokes? with
          | some access =>
              cfg.isManager handler.node && pgAlign addr == handler.addr &&
                pc.installing s.reply? rq && (rq == .wr || access == .none)
          | none => false
      | _, _ => false
  | _ => false

/-- Reliable RPC, and pending grants of the manager are left alone. -/
def ReliableUndisturbed (cfg : Config) (s : Sys) (action : Action) : Prop :=
  Reliable s action ∧ disturbsManager cfg s action = false

/-- The protocol in which the manager's pending grants are left alone. -/
def undisturbedRegime : Regime Page where
  lossy := False
  faults := fun _ => True
  revokes := fun a node access => node = 0 → Exclusive.Revocable a 0 access

section Runs

variable {cfg : Config} {base : Nat} {trace : List Event} {s : Sys}

/-- A step that leaves the manager's grants alone takes away what the protocol
lets it. -/
theorem revocable_of_undisturbed {allowed : Sys → Action → Prop} (zero : cfg.managerId = 0)
    (single : cfg.appThreads = 1) (run : Run (machine cfg) allowed trace s) {id fresh : HandlerId}
    {job : Job} {access : AccessType}
    (undisturbed : disturbsManager cfg s (.handler id fresh) = false)
    (present : (s.view base).handler id = some ⟨0, job⟩) (kept : job.revokes? = some access) :
    Exclusive.Revocable (protocolOf base trace s) 0 access := by
  by_cases faulting : s.Inside 0 base
  case neg => simp [Exclusive.Revocable, phase_outside faulting, Phase.installing]
  obtain ⟨idx, rq, addr, pc, inside, rfl⟩ := faulting
  have phase := phase_of_fault single run inside
  have only : idx = 0 :=
    congrArg AppId.idx (thread_eq single ((Addressed.of_reachable run.reachable).fault inside).2)
  subst only
  have spared : pc.installing s.reply? rq = true → rq = .rd ∧ access ≠ .none := by
    intro installing
    simp only [disturbsManager, s.handler_of_view present, zero, inside, kept] at undisturbed
    cases rq <;> simp_all
  have installing := FaultPc.installing_phase s.reply? rq pc
  simp only [Exclusive.Revocable, phase]
  refine ⟨fun page granted => ?_, fun dropped => ?_⟩
  · rw [granted] at installing
    obtain ⟨rfl, -⟩ := FaultPc.granted_of_phase granted
    cases (spared installing.symm).1
  · rw [installing]
    cases pending : pc.installing s.reply? rq with
    | false => rfl
    | true => exact absurd dropped (spared pending).2

/-- What the protocol guarantees on every page. -/
theorem protocol_exclusive (zero : cfg.managerId = 0) (single : cfg.appThreads = 1)
    (aligned : 4096 ∣ base) (fits : base < wordCount)
    (run : Run (machine cfg) (ReliableUndisturbed cfg) trace s) :
    Exclusive (fun _ => True) (protocolOf base trace s) := by
  have steady : Exclusive.Steady undisturbedRegime fun _ => True := fun _ permitted => permitted rfl
  refine protocol_invariant undisturbedRegime (Exclusive fun _ => True) zero single aligned fits
    (.initial _) (fun excl step => excl.step id steady step) ?_ run
  intro trace s action pageAction run permitted _ onPage
  refine reliable_permits aligned (fun _ _ permitted => permitted.1) (fun _ => trivial) ?_
    (fun _ _ => trivial) (fun _ => trivial) run permitted onPage
  rintro trace s id fresh ⟨node, job⟩ access run permitted present kept rfl
  exact revocable_of_undisturbed zero single run permitted.2 present kept

end Runs

/-- In runs that leave the pending grants of the manager alone there is a single
writer or there are only readers, on all nodes. -/
theorem single_writer_of_undisturbed {cfg : Config} {base : Nat} {s : Sys}
    (zero : cfg.managerId = 0) (single : cfg.appThreads = 1) (aligned : 4096 ∣ base)
    (fits : base < wordCount) (reached : Reachable (machine cfg) (ReliableUndisturbed cfg) s) :
    s.SingleWriter base := by
  obtain ⟨trace, run⟩ := reached
  have excl := protocol_exclusive zero single aligned fits run
  intro node other different outside writable
  have writes : (protocolOf base trace s).Writes node := by
    refine .inl ?_
    rw [phase_outside outside]
    exact writable
  have clean := excl.exclusive node other trivial trivial writes different
  simp only [State.Clean, Phase.clean, Bool.and_eq_true, Bool.not_eq_true',
    AccessType.readable_eq_false] at clean
  exact .inl clean.1

/-- The manager reads the page and has installed its copy before worker `1` takes
the page to write. -/
theorem single_writer_of_undisturbed_handover :
    ∃ s, Reachable (machine threeNodes) (ReliableUndisturbed threeNodes) s ∧
      (s.node 1).prot firstPage = .rw ∧ s.SingleWriter firstPage := by
  obtain ⟨trace, s, run, checked⟩ := exists_run (machine threeNodes)
    (fun s action => action.reliable && !disturbsManager threeNodes s action)
    (fun s _ => decide ((s.node 1).prot firstPage = .rw))
    (readFromOwner ⟨0, 0⟩ firstPage 0 ++ writeFromManagerCopy ⟨1, 0⟩ firstPage 2)
    (fun s action permitted => by simpa [ReliableUndisturbed, Reliable] using permitted)
    (by decide +kernel)
  exact ⟨s, run.reachable, of_decide_eq_true checked,
    single_writer_of_undisturbed rfl rfl (by decide) (by decide) run.reachable⟩

/-- The manager has been granted a read copy; before it installs the copy, worker
`1` takes the page to write. Both end with access. -/
theorem single_writer_fails : ¬∀ (cfg : Config) (s : Sys) (base : Addr), cfg.managerId = 0 →
    cfg.appThreads = 1 → 4096 ∣ base → base < wordCount →
    Reachable (machine cfg) Reliable s → s.SingleWriter base := by
  intro always
  obtain ⟨trace, s, run, checked⟩ := exists_run (machine threeNodes)
    (fun _ action => action.reliable)
    (fun s _ => (s.node 1).prot firstPage == .rw && (s.app ⟨1, 0⟩).isRunning &&
      (s.node 0).prot firstPage == .rd && (s.app ⟨0, 0⟩).isRunning)
    ([.fault ⟨0, 0⟩ .rd firstPage] ++ moves 2 (.app ⟨0, 0⟩ 0) ++ moves 5 (.handler 0 1) ++
      moves 5 (.handler 1 0) ++ moves 3 (.handler 0 0) ++
      writeFromManagerCopy ⟨1, 0⟩ firstPage 2 ++ moves 6 (.app ⟨0, 0⟩ 0))
    (fun s action permitted => (permitted : Reliable s action))
    (by decide +kernel)
  simp only [Bool.and_eq_true, beq_iff_eq] at checked
  obtain ⟨⟨⟨writes, workerRuns⟩, reads⟩, managerRuns⟩ := checked
  have exclusive := always threeNodes s firstPage rfl rfl (by decide) (by decide) run.reachable 1 0
    (by decide) (not_inside_of_running rfl run workerRuns) (by simp [writes, AccessType.writable])
  rcases exclusive with denied | faulting
  · simp [reads] at denied
  · exact not_inside_of_running rfl run managerRuns faulting

end LibIvy
