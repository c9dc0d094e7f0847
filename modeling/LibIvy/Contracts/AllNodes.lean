import LibIvy.Contracts.SingleWriter
import LibIvy.Protocol.AllNodes

/-!
Contract: a reliable cluster is one atomic memory for all nodes, the manager
included, if the manager gives pages away as it has them.

Owns: the condition on the manager, the refinement for every run that meets it,
over any number of nodes and pages, and a run that leaves the manager's pending
grants alone and still loses a store.

Does not own: runs with failures.

A fetch on the manager makes the page read-only, copies it and takes the access
away in three steps without a lock. A grant that the manager's own fault handler
installs between the first two and the last is what the condition excludes, and
so is a store of the manager that comes after the copy.
-/

namespace LibIvy

open Lib NumberText AtomicMemory TransitionSystem Protocol

/-! ### The manager gives its pages away -/

/-- The grant has been issued and is not completely installed. -/
def FaultPc.uninstalled (reply? : HandlerId → Option Reply) (rq : Rq) : FaultPc → Bool
  | .asking call => (reply? call).isSome
  | .got _ => true
  | .opened _ => true
  | .copied => rq = .rd
  | _ => false

theorem FaultPc.uninstalled_phase (reply? : HandlerId → Option Reply) (rq : Rq) (pc : FaultPc) :
    (pc.phase reply? rq).uninstalled = pc.uninstalled reply? rq := by
  cases pc with
  | asking call =>
      simp only [FaultPc.phase, FaultPc.uninstalled]
      cases reply? call <;> rfl
  | _ => cases rq <;> rfl

/-- What the next statement of a fetch leaves behind has been read before. -/
def Job.memStr? : Job → Option Reply
  | .fetch _ (.copied memStr) => some memStr
  | _ => none

/-- The manager's own fault handler has installed what it was granted for the page
at `base`. -/
def Sys.managerInstalled (cfg : Config) (s : Sys) (base : Addr) : Bool :=
  match s.app ⟨cfg.managerId, 0⟩ with
  | .fault rq addr pc => pgAlign addr != base || !pc.uninstalled s.reply? rq
  | .run => true

/-- If the step is the last `set_access` of a fetch or invalidation on the manager,
the manager has installed what it was granted, and what the fetch has read is
what the manager still has. -/
def GivesOwn (cfg : Config) (s : Sys) : Action → Prop
  | .handler id _ => ∀ handler, s.handler id = some handler → cfg.isManager handler.node = true →
      handler.job.revokes?.isSome = true → s.managerInstalled cfg handler.addr = true ∧
      ∀ memStr, handler.job.memStr? = some memStr →
        memStr.page? = some ((s.node handler.node).pageAt handler.addr)
  | _ => True

/-- Reliable RPC, and the manager gives away the pages that it has. -/
def ReliableGiving (cfg : Config) (s : Sys) (action : Action) : Prop :=
  Reliable s action ∧ GivesOwn cfg s action

/-- The protocol in which the manager gives away the pages that it has. -/
def givingRegime : Regime Page where
  lossy := False
  faults := fun _ => True
  revokes := fun a node _ => node = 0 → a.GivesOwn

theorem revocable_of_givesOwn {a : State Page} {access : AccessType} (gives : a.GivesOwn) :
    Exclusive.Revocable a 0 access := by
  have installed := gives.1
  constructor
  · intro page granted
    simp [granted] at installed
  · intro _
    revert installed
    cases a.app 0 <;> (try cases ‹Rq›) <;> simp [Phase.installing]

section Runs

variable {cfg : Config} {base : Nat} {trace : List Event} {s : Sys}

/-- The manager's fault handler for the page is past its grant. -/
theorem installed_of_managerInstalled {allowed : Sys → Action → Prop} (zero : cfg.managerId = 0)
    (single : cfg.appThreads = 1) (run : Run (machine cfg) allowed trace s)
    (installed : s.managerInstalled cfg base = true) :
    ((protocolOf base trace s).app 0).uninstalled = false := by
  by_cases faulting : s.Inside 0 base
  case neg => simp [phase_outside faulting]
  obtain ⟨idx, rq, addr, pc, inside, rfl⟩ := faulting
  have only : idx = 0 :=
    congrArg AppId.idx (thread_eq single ((Addressed.of_reachable run.reachable).fault inside).2)
  subst only
  rw [phase_of_fault single run inside, FaultPc.uninstalled_phase]
  simpa [Sys.managerInstalled, zero, inside] using installed

/-- A permitted step of the manager gives away what the protocol lets it. -/
theorem givesOwn_of_permitted (zero : cfg.managerId = 0) (single : cfg.appThreads = 1)
    (aligned : 4096 ∣ base) (fits : base < wordCount)
    (run : Run (machine cfg) (ReliableGiving cfg) trace s) {id fresh : HandlerId} {job : Job}
    {access : AccessType} (permitted : ReliableGiving cfg s (.handler id fresh))
    (present : (s.view base).handler id = some ⟨0, job⟩) (kept : job.revokes? = some access) :
    (protocolOf base trace s).GivesOwn := by
  obtain ⟨locksHeld, linked⟩ := page_ordered zero aligned fits run
  have attended : Attended (s.view base) :=
    page_attended aligned (fun _ _ permitted => permitted.1) run
  obtain ⟨installed, own⟩ := permitted.2 _ (s.handler_of_view present) (by simp [zero])
    (by simp [kept])
  refine ⟨installed_of_managerInstalled zero single run installed, ?_⟩
  intro serving nodes page served stage
  have running : job.reply? = none ∧ job.kind.serves = false := by
    cases job with
    | fetch access pc => cases pc <;> first | exact ⟨rfl, rfl⟩ | contradiction
    | invalidate pc => cases pc <;> first | exact ⟨rfl, rfl⟩ | contradiction
    | _ => contradiction
  have calls := calls_of_attended zero locksHeld linked attended present running.1 running.2
  cases job with
  | fetch access pc =>
      cases pc <;> try contradiction
      case copied memStr =>
        -- the fetch in service is the one that moves
        obtain ⟨rq, reqNode, live, others, -, calling⟩ :=
          fetch_called zero locksHeld linked calls present
        have before := calling (s.view base).progress
        simp only [PageState.progress, present] at before
        obtain rfl := Option.some.inj (before.symm.trans served)
        obtain ⟨-, -, same⟩ := Stage.fetching.inj stage
        obtain rfl := FetchStage.copied.inj same
        exact own memStr rfl
  | invalidate pc =>
      obtain ⟨reqNode, live, carried, others, calling⟩ :=
        invalidate_called zero locksHeld linked calls present
      obtain rfl := Option.some.inj ((calling (s.view base).progress).symm.trans served)
      contradiction
  | _ => contradiction

/-- What the protocol guarantees on every page of such a run. -/
theorem protocol_currentAll (zero : cfg.managerId = 0) (single : cfg.appThreads = 1)
    (aligned : 4096 ∣ base) (fits : base < wordCount)
    (run : Run (machine cfg) (ReliableGiving cfg) trace s) :
    CurrentAll (protocolOf base trace s) := by
  have gives : ∀ {a : State Page} {access}, givingRegime.revokes a 0 access → a.GivesOwn := by
    intro a access permitted
    exact permitted rfl
  have steady : Exclusive.Steady givingRegime fun _ => True :=
    fun _ permitted => revocable_of_givesOwn (gives permitted)
  have all : (Exclusive (fun _ => True) (protocolOf base trace s) ∧
      Exclusive (· ≠ 0) (protocolOf base trace s)) ∧ Accurate (protocolOf base trace s) ∧
      CurrentAll (protocolOf base trace s) := by
    refine protocol_invariant givingRegime
      (fun a => (Exclusive (fun _ => True) a ∧ Exclusive (· ≠ 0) a) ∧ Accurate a ∧ CurrentAll a)
      zero single aligned fits ⟨⟨.initial _, .initial _⟩, .initial _, .initial _⟩ ?_ ?_ run
    · rintro a b ⟨⟨all, excl⟩, accurate, current⟩ step
      refine ⟨⟨all.step id steady step, ?_⟩, accurate.step id excl step, ?_⟩
      · exact excl.step id (fun tracked => absurd rfl tracked) step
      · exact current.step id gives all excl accurate step
    · intro trace s action pageAction run permitted _ onPage
      refine reliable_permits aligned (fun _ _ permitted => permitted.1) (fun _ => trivial) ?_
        (fun _ _ => trivial) (fun _ => trivial) run permitted onPage
      rintro trace s id fresh ⟨node, job⟩ access run permitted present kept rfl
      exact givesOwn_of_permitted zero single aligned fits run permitted present kept
  exact all.2.2

/-- A page that a node may read outside the fault handler is what the last stores
left, on every node. -/
theorem page_currentAll (zero : cfg.managerId = 0) (single : cfg.appThreads = 1)
    (aligned : 4096 ∣ base) (fits : base < wordCount)
    (run : Run (machine cfg) (ReliableGiving cfg) trace s) {thread : AppId}
    (outside : s.app thread = .run) (runs : cfg.runs thread = true)
    (readable : ((s.node thread.node).prot base).readable = true) :
    (s.node thread.node).pageAt base = contentsOf base trace := by
  have current := protocol_currentAll zero single aligned fits run
  have phase : (protocolOf base trace s).app thread.node = .out := by
    have inView : (s.view base).app (PageState.thread thread.node) = none := by
      rw [← thread_eq single runs, Sys.view_app, outside, App.view_run]
    simp [protocolOf, PageState.protocolState, PageState.phase, inView]
  exact current.copy thread.node (.inl (AccessType.readable_eq_true.mp readable))
    (by simp [phase]) (by simp [phase])

/-- A load outside the fault handler returns what the last stores left, on every
node. -/
theorem load_currentAll (zero : cfg.managerId = 0) (single : cfg.appThreads = 1)
    (run : Run (machine cfg) (ReliableGiving cfg) trace s) {thread : AppId} {addr count : Nat}
    {later : Sys} {events : List Event}
    (taken : s.step cfg (.load thread addr count) = some (later, events)) :
    readSpan (s.node thread.node).mem addr count =
      readSpan (after (fun _ => 0) (history trace)) addr count := by
  obtain ⟨outside, runs, within, readable, -, -⟩ := Sys.step_load taken
  obtain ⟨addrFits, onePage⟩ := withinPage_iff.mp within
  exact readSpan_of_page onePage
    (page_currentAll zero single (pgAlign_dvd addr) (pgAlign_lt addrFits) run outside runs readable)

end Runs

/-- Every load of such a run, on any node, returns at each location the value of the
last store to it, or zero. -/
theorem all_loads_return_last_store {cfg : Config} (zero : cfg.managerId = 0)
    (single : cfg.appThreads = 1) {trace : List Event} {s : Sys}
    (run : Run (machine cfg) (ReliableGiving cfg) trace s) :
    Legal (fun _ => 0) (history trace) ∧
      ∀ before start values later, history trace = before ++ .load start values :: later →
        values = (List.range values.length).map fun offset =>
          lastStored 0 (start + offset) before := by
  have legal : Legal (fun _ => 0) (history trace) := by
    apply run.invariant (fun trace _ => Legal (fun _ => 0) (history trace)) trivial
    intro trace events before later action run legal permitted taken
    rw [history_append, legal_append]
    refine ⟨legal, ?_⟩
    rcases access_cases taken with ⟨thread, addr, count, rfl⟩ | ⟨thread, addr, values, rfl⟩ |
      ⟨silent, -⟩
    · obtain ⟨-, -, -, -, -, rfl⟩ := Sys.step_load taken
      refine ⟨?_, trivial⟩
      rw [readSpan_length]
      exact load_currentAll zero single run taken
    · obtain ⟨-, -, -, -, -, rfl⟩ := Sys.step_store taken
      trivial
    · rw [silent]
      trivial
  refine ⟨legal, ?_⟩
  intro before start values later shape
  rw [shape] at legal
  exact load_returns_lastStored legal

/-! ### Runs -/

/-- The contents agree, byte by byte. -/
def agrees (memStr : Option Page) (page : Page) : Bool :=
  match memStr with
  | some bytes => (List.finRange pageSize).all fun offset => bytes offset == page offset
  | none => false

theorem eq_of_agrees {memStr : Option Page} {page : Page} (same : agrees memStr page = true) :
    memStr = some page := by
  cases memStr with
  | none => contradiction
  | some bytes =>
      refine congrArg some (funext fun offset => ?_)
      have bytewise := List.all_eq_true.mp same offset (List.mem_finRange offset)
      exact beq_iff_eq.mp bytewise

/-- The condition on the manager, to be evaluated. -/
def givesOwn (cfg : Config) (s : Sys) : Action → Bool
  | .handler id _ =>
      match s.handler id with
      | some handler =>
          !(cfg.isManager handler.node && handler.job.revokes?.isSome) ||
            s.managerInstalled cfg handler.addr &&
              match handler.job.memStr? with
              | some memStr => agrees memStr.page? ((s.node handler.node).pageAt handler.addr)
              | none => true
      | none => true
  | _ => true

theorem givesOwn_sound {cfg : Config} {s : Sys} {action : Action}
    (gives : givesOwn cfg s action = true) : GivesOwn cfg s action := by
  cases action <;> try trivial
  case handler id fresh =>
    intro handler present manager revokes
    simp only [givesOwn, present, manager, revokes, Bool.and_self, Bool.not_true,
      Bool.false_or, Bool.and_eq_true] at gives
    refine ⟨gives.1, fun memStr read => ?_⟩
    apply eq_of_agrees
    simpa [read] using gives.2

/-- The manager stores, worker `2` loads what the manager stored. -/
theorem all_loads_return_last_store_of_manager :
    ∃ trace s, Run (machine threeNodes) (ReliableGiving threeNodes) trace s ∧
      .store ⟨0, 0⟩ firstPage [7] ∈ trace ∧
      trace.getLast? = some (.load ⟨2, 0⟩ firstPage [7, 0]) ∧
      Legal (fun _ => 0) (history trace) := by
  obtain ⟨trace, s, run, checked⟩ := exists_run (machine threeNodes)
    (fun s action => action.reliable && givesOwn threeNodes s action)
    (fun _ trace => trace.contains (.store ⟨0, 0⟩ firstPage [7]) &&
      trace.getLast? == some (.load ⟨2, 0⟩ firstPage [7, 0]))
    (writeFromManager ⟨0, 0⟩ firstPage 0 ++ [.store ⟨0, 0⟩ firstPage [7]] ++
      readFromOwner ⟨2, 0⟩ firstPage 2 ++ [.load ⟨2, 0⟩ firstPage 2])
    (fun s action permitted => (Bool.and_eq_true_iff.mp permitted).imp_right givesOwn_sound)
    (by decide +kernel)
  obtain ⟨stored, loaded⟩ := Bool.and_eq_true_iff.mp checked
  exact ⟨trace, s, run, List.contains_iff_mem.mp stored, beq_iff_eq.mp loaded,
    (all_loads_return_last_store rfl rfl run).1⟩

/-- The manager has been granted its page to write and installs the grant after
worker `1` has fetched the page, but before the fetch takes the manager's access
away. What the manager stores then is lost. -/
theorem stale_load_of_undisturbed : ¬∀ (cfg : Config) (trace : List Event) (s : Sys),
    cfg.managerId = 0 → cfg.appThreads = 1 →
    Run (machine cfg) (ReliableUndisturbed cfg) trace s → Legal (fun _ => 0) (history trace) := by
  intro always
  obtain ⟨trace, s, run, checked⟩ := exists_run (machine threeNodes)
    (fun s action => action.reliable && !disturbsManager threeNodes s action)
    (fun _ trace => decide (¬Legal (fun _ => 0) (history trace)))
    ([.fault ⟨0, 0⟩ .wr firstPage] ++ moves 2 (.app ⟨0, 0⟩ 0) ++ moves 5 (.handler 0 1) ++
      moves 5 (.handler 1 0) ++ moves 6 (.handler 0 0) ++
      [.fault ⟨1, 0⟩ .rd firstPage] ++ moves 2 (.app ⟨1, 0⟩ 2) ++ moves 5 (.handler 2 3) ++
      moves 3 (.handler 3 0) ++ moves 5 (.app ⟨0, 0⟩ 0) ++ [.store ⟨0, 0⟩ firstPage [7]] ++
      moves 2 (.handler 3 0) ++ moves 3 (.handler 2 0) ++ moves 6 (.app ⟨1, 0⟩ 2) ++
      [.load ⟨1, 0⟩ firstPage 1])
    (fun s action permitted => by simpa [ReliableUndisturbed, Reliable] using permitted)
    (by decide +kernel)
  exact of_decide_eq_true checked (always threeNodes trace s rfl rfl run)

end LibIvy
