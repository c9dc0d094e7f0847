import LibIvy.Contracts.AllNodes
import LibIvy.Runtime.Service

/-!
Contract: a fault that is served alone.

Owns: from every reliable state in which no thread is inside a fault handler and no
lock is taken, that the fault of any node can be served to its end without another
thread moving, with the access that was asked for.

Does not own: faults that are served at the same time.
-/

namespace LibIvy

open Lib NumberText TransitionSystem Protocol

/-- Reliable steps of the runtime are allowed when the manager gives away what it
has. -/
def Lenient (cfg : Config) (allowed : Sys → Action → Prop) : Prop :=
  ∀ s action, action.ofRuntime = true → action.reliable = true → GivesOwn cfg s action →
    allowed s action

/-- Only finitely many names of instances are in use. -/
def Sys.Bounded (s : Sys) : Prop := ∃ bound : Nat, ∀ id : Nat, bound ≤ id → s.handler id = none

/-- Nothing that other threads wait for has changed. -/
structure Sys.Spares (s after : Sys) : Prop where
  app : after.app = s.app
  locks : ∀ node, (s.node node).SameLocks (after.node node)
  bounded : after.Bounded

/-- No thread is inside its fault handler and no lock is taken. -/
structure Sys.Quiet (s : Sys) : Prop where
  outside : ∀ thread, s.app thread = .run
  pageFree : ∀ node key, (s.node node).pageLocks key = none
  infoFree : ∀ node key, (s.node node).infoLocks key = none
  bounded : s.Bounded

theorem Sys.Bounded.setHandler {s : Sys} (bounded : s.Bounded) (id : HandlerId) (handler : Handler) :
    (s.setHandler id handler).Bounded := by
  obtain ⟨bound, unused⟩ := bounded
  refine ⟨max bound (id + 1), fun other above => ?_⟩
  have different : other ≠ id := Nat.ne_of_gt (Nat.lt_of_lt_of_le (by omega) above)
  change Function.update s.handler id (some handler) other = none
  rw [Function.update_of_ne different]
  exact unused other (by omega)

theorem Sys.Bounded.exec {σ : Type} {self : NodeId} {tid : Tid} {fresh : HandlerId} {stmt : Stmt σ}
    {s after : Sys} {next : σ} {events : List Event} (bounded : s.Bounded)
    (ran : stmt.exec self tid fresh s = some (next, after, events)) : after.Bounded := by
  rcases Stmt.exec_cases ran with ⟨nd, _, rfl⟩ | ⟨_, _, _, _, _, _, _, _, _, _, rfl, _⟩ |
    ⟨_, _, _, _, _, _, _, _, rfl, _⟩
  · exact bounded
  · exact bounded.setHandler _ _
  · exact bounded

/-- Every run has used finitely many names. -/
theorem Sys.bounded_of_reachable {cfg : Config} {allowed : Sys → Action → Prop} {s : Sys}
    (reached : Reachable (machine cfg) allowed s) : s.Bounded := by
  apply reached.invariant
  · exact ⟨0, fun _ _ => rfl⟩
  · intro s after action events _ bounded _ taken
    cases action with
    | load thread addr count =>
        obtain ⟨-, -, -, -, rfl, -⟩ := Sys.step_load taken
        exact bounded
    | store thread addr values =>
        obtain ⟨-, -, -, -, rfl, -⟩ := Sys.step_store taken
        exact bounded
    | fault thread rq addr =>
        obtain ⟨-, -, -, -, rfl, -⟩ := Sys.step_fault taken
        exact bounded
    | app thread fresh =>
        obtain ⟨_, _, _, _, between, -, ran, rfl⟩ := Sys.step_app taken
        have kept : between.Bounded := bounded.exec ran
        exact kept
    | handler id fresh =>
        obtain ⟨_, _, between, -, ran, rfl⟩ := Sys.step_handler taken
        exact (bounded.exec ran).setHandler _ _
    | failApp thread =>
        obtain ⟨_, _, _, _, -, -, rfl, -⟩ := Sys.step_failApp taken
        exact bounded
    | failHandler id =>
        obtain ⟨_, _, -, -, rfl, -⟩ := Sys.step_failHandler taken
        exact bounded.setHandler _ _

/-- An instance whose next statement is another one takes no access away. -/
theorem Job.keeps_of_stmt {cfg : Config} {self : NodeId} {addr : Addr} {job : Job}
    {stmt : Stmt Job} (row : job.stmt cfg self addr = stmt)
    (other : ∀ key access next, stmt ≠ .setAccess key access next) : job.revokes? = none := by
  subst row
  cases job with
  | fetch access pc => cases pc <;> first | rfl | exact absurd rfl (other _ _ _)
  | invalidate pc => cases pc <;> first | rfl | exact absurd rfl (other _ _ _)
  | _ => rfl

section Calls

variable {cfg : Config} {allowed : Sys → Action → Prop} {s : Sys}

/-- A step of an instance that takes no access away. -/
theorem givesOwn_of_keeps {id fresh : HandlerId} {handler : Handler}
    (present : s.handler id = some handler) (keeps : handler.job.revokes? = none) :
    GivesOwn cfg s (.handler id fresh) := by
  intro other found _ revokes
  obtain rfl : handler = other := by simpa [present] using found
  rw [keeps] at revokes
  contradiction

/-- A step that gives away what has been read, with no grant for the manager pending. -/
theorem givesOwn_of_calm {id fresh : HandlerId} {node : NodeId} {addr : Addr} {job : Job}
    (present : s.handler id = some ⟨node, addr, job⟩) (calm : job.Calm addr (s.node node))
    (installed : s.managerInstalled cfg addr = true) : GivesOwn cfg s (.handler id fresh) := by
  intro handler found manager revokes
  obtain rfl : ⟨node, addr, job⟩ = handler := by simpa [present] using found
  refine ⟨installed, fun memStr read => ?_⟩
  cases job with
  | fetch access pc =>
      cases pc <;> try contradiction
      case copied contents =>
        obtain rfl : contents = memStr := Option.some.inj read
        have read : contents = .page ((s.node node).pageAt addr) := calm
        subst read
        rfl
  | _ => contradiction

/-- A call of the manager that is served alone is answered. -/
theorem call_served (lenient : Lenient cfg allowed) (bounded : s.Bounded) {caller : HandlerId}
    {self dst : NodeId} {addr : Addr} {job callee : Job} {fn : RpcName} {body : Text}
    {target : HandlerId → Job} {rpc : Bool} {next : Reply → Job} {failed : Job}
    (answers : Reply → Prop) (present : s.handler caller = some ⟨self, addr, job⟩)
    (calls : job.stmt cfg self addr = .call dst fn body target)
    (accepted : fn.accept body = some (addr, callee))
    (waits : ∀ call, (target call).stmt cfg self addr = .await rpc call next failed)
    (returns : ∀ call, ∃ last reply final, CallRun cfg dst addr call callee (s.node dst) last final ∧
      last.reply? = some reply ∧ answers reply ∧ (s.node dst).SameLocks final)
    (installed : ∀ between : Sys, between.app = s.app → between.reply? caller = none →
      between.managerInstalled cfg addr = true) :
    ∃ after reply, Serves cfg allowed s after ∧ answers reply ∧
      after.handler caller = some ⟨self, addr, next reply⟩ ∧ s.Spares after := by
  obtain ⟨fresh, unused⟩ : ∃ fresh, s.handler fresh = none := by
    obtain ⟨bound, unused⟩ := bounded
    exact ⟨bound, unused bound le_rfl⟩
  have different : fresh ≠ caller := by
    intro same
    simp [← same, unused] at present
  obtain ⟨last, reply, final, run, replied, answered, sameLocks⟩ := returns fresh
  -- the call
  let called := (s.setHandler fresh ⟨dst, addr, callee⟩).setHandler caller ⟨self, addr, target fresh⟩
  have calling : s.step cfg (.handler caller fresh) = some (called, [.call dst fn body]) := by
    apply Sys.step_handler_of present
    rw [calls]
    simp only [Stmt.exec, unused, accepted]
  have first : Serves cfg allowed s called :=
    Serves.one rfl (lenient _ _ rfl rfl
      (givesOwn_of_keeps present (Job.keeps_of_stmt calls (by simp)))) calling
  -- the called function
  have calleePresent : called.handler fresh = some ⟨dst, addr, callee⟩ := by
    simp [called, Sys.setHandler, different]
  have callerPresent : called.handler caller = some ⟨self, addr, target fresh⟩ := by
    simp [called, Sys.setHandler]
  have silent : (target fresh).reply? = none := by
    cases returned : (target fresh).reply? with
    | none => rfl
    | some reply =>
        have halts : (target fresh).stmt cfg self addr = .halt := job_stmt_halt returned
        rw [waits] at halts
        contradiction
  have second := run.serves_handler (s := called) calleePresent rfl
    fun between job sameApp others found calm => by
      apply lenient _ _ rfl rfl
      apply givesOwn_of_calm found calm
      apply installed between sameApp
      simp [Sys.reply?, others caller different.symm, callerPresent, silent]
  -- the answer
  let returned := (called.setNode dst final).setHandler fresh ⟨dst, addr, last⟩
  have waiting : returned.handler caller = some ⟨self, addr, target fresh⟩ := by
    simp [returned, Sys.setHandler, Sys.setNode, different.symm, callerPresent]
  have answering : returned.step cfg (.handler caller 0) =
      some (returned.setHandler caller ⟨self, addr, next reply⟩, []) := by
    apply Sys.step_handler_of waiting
    rw [waits]
    have found : returned.reply? fresh = some reply := by
      simp [returned, Sys.reply?, Sys.setHandler, replied]
    simp only [Stmt.exec, found]
  have third : Serves cfg allowed returned (returned.setHandler caller ⟨self, addr, next reply⟩) := by
    apply Serves.one rfl (lenient _ _ rfl rfl (givesOwn_of_keeps waiting ?_)) answering
    exact Job.keeps_of_stmt (waits fresh) (by simp)
  refine ⟨_, reply, (first.trans second).trans third, answered, Function.update_self .., rfl, ?_, ?_⟩
  · intro node
    by_cases same : node = dst
    · subst same
      simpa [returned, called, Sys.setNode, Sys.setHandler] using sameLocks
    · simp [returned, called, Sys.setNode, Sys.setHandler, same, Node.SameLocks]
  · exact (((bounded.setHandler _ _).setHandler _ _).setHandler _ _).setHandler _ _

/-! ### Requests -/

/-- Statements of a request in a row. -/
theorem request_runs (lenient : Lenient cfg allowed) {id : HandlerId} {node : NodeId} {addr : Addr}
    {job last : Job} {final : Node}
    (run : RequestRun cfg node addr id job (s.node node) last final)
    (present : s.handler id = some ⟨node, addr, job⟩) :
    Serves cfg allowed s ((s.setNode node final).setHandler id ⟨node, addr, last⟩) := by
  refine run.serves_handler present rfl fun between job _ _ found request => ?_
  apply lenient _ _ rfl rfl (givesOwn_of_keeps found _)
  cases job with
  | servRd reqNode pc => rfl
  | servWr reqNode pc => rfl
  | _ => contradiction

/-- What a request that is served alone leaves. -/
structure Served (s after : Sys) (id : HandlerId) (answers : Reply → Prop) : Prop where
  reply : ∃ reply, after.reply? id = some reply ∧ answers reply
  spares : s.Spares after

section Requests

variable {id : HandlerId} {addr : Addr} {reqNode : NodeId}

/-- The locks that a request takes are those that it leaves. -/
theorem spares_of_hands {between after : Sys} {taken left : Node} {handler other : Handler}
    {holder : Option Tid} (pageFree : (s.node 0).pageLocks addr = none)
    (infoFree : (s.node 0).infoLocks addr = none) (takes : (s.node 0).Hands taken addr holder)
    (spares : ((s.setNode 0 taken).setHandler id handler).Spares between)
    (leaves : (between.node 0).Hands left addr none)
    (same : after = (between.setNode 0 left).setHandler id other) : s.Spares after := by
  subst same
  refine ⟨spares.app, fun node => ?_, spares.bounded.setHandler id other⟩
  obtain ⟨samePage, sameInfo⟩ := spares.locks node
  by_cases here : node = 0
  · subst here
    have atManager : ((between.setNode 0 left).setHandler id other).node 0 = left := by
      simp [Sys.setNode, Sys.setHandler]
    have before : ((s.setNode 0 taken).setHandler id handler).node 0 = taken := by
      simp [Sys.setNode, Sys.setHandler]
    rw [before] at samePage sameInfo
    rw [atManager]
    refine ⟨?_, ?_⟩
    · rw [leaves.1, samePage, takes.1]
      exact restore_lock pageFree
    · rw [leaves.2, sameInfo, takes.2]
      exact restore_lock infoFree
  · have elsewhere : ((between.setNode 0 left).setHandler id other).node node = between.node node :=
      Function.update_of_ne here ..
    have before : ((s.setNode 0 taken).setHandler id handler).node node = s.node node :=
      Function.update_of_ne here ..
    rw [before] at samePage sameInfo
    rw [elsewhere]
    exact ⟨samePage, sameInfo⟩

/-- A read request is answered with the page. -/
theorem read_served (zero : cfg.managerId = 0) (lenient : Lenient cfg allowed) (bounded : s.Bounded)
    (aligned : pgAlign addr = addr) (fits : addr < wordCount)
    (present : s.handler id = some ⟨0, addr, .servRd reqNode .entry⟩)
    (pageFree : (s.node 0).pageLocks addr = none) (infoFree : (s.node 0).infoLocks addr = none)
    (ownerFree : ((s.node 0).info addr).owner ≠ 0 →
      (s.node ((s.node 0).info addr).owner).pageLocks addr = none)
    (installed : ∀ between : Sys, between.app = s.app → between.reply? id = none →
      between.managerInstalled cfg addr = true) :
    ∃ after, Serves cfg allowed s after ∧ Served s after id fun reply => ∃ bytes, reply = .page bytes := by
  have manager : cfg.isManager 0 = true := by simp [zero]
  let owner := ((s.node 0).info addr).owner
  obtain ⟨taken, before, takes⟩ := @servRd_before cfg 0 addr id (s.node 0) reqNode aligned manager
    pageFree infoFree
  let looking := (s.setNode 0 taken).setHandler id ⟨0, addr, .servRd reqNode (.gotOwner owner)⟩
  have found : looking.handler id = some ⟨0, addr, .servRd reqNode (.gotOwner owner)⟩ :=
    Function.update_self ..
  have calls : Job.stmt cfg 0 addr (.servRd reqNode (.gotOwner owner)) =
      .call owner .fetchPg (fetchRdRequest addr) fun call => .servRd reqNode (.fetching owner call) := by
    by_cases home : owner = 0 <;> simp [Job.stmt, servRdRq, Stmt.map, aligned, home]
  have waits : ∀ call, Job.stmt cfg 0 addr (.servRd reqNode (.fetching owner call)) =
      .await (owner ≠ 0) call (fun reply => .servRd reqNode (.fetched reply))
        (.servRd reqNode .callFailed) := fun _ => rfl
  have accepted : RpcName.fetchPg.accept (fetchRdRequest addr) = some (addr, .fetch .rd .entry) := by
    simp [RpcName.accept, parseFetchRequest_rd fits]
  have ownerUnlocked : cfg.isManager owner = false → (looking.node owner).pageLocks addr = none := by
    intro worker
    have elsewhere : owner ≠ 0 := by
      simpa [Config.isManager_eq_false, zero] using worker
    have same : looking.node owner = s.node owner := Function.update_of_ne elsewhere ..
    rw [same]
    exact ownerFree elsewhere
  have names : looking.Bounded := Sys.Bounded.setHandler bounded id _
  obtain ⟨between, reply, called, ⟨bytes, rfl⟩, answered, spares⟩ := call_served
    lenient names (fun reply => ∃ bytes, reply = .page bytes) found calls
    accepted waits
    (fun call => by
      obtain ⟨bytes, final, run, same⟩ := @fetch_alone cfg owner addr call (looking.node owner) .rd
        aligned ownerUnlocked
      exact ⟨_, _, final, run, rfl, ⟨bytes, rfl⟩, same⟩)
    installed
  obtain ⟨left, rest, leaves⟩ := @servRd_after cfg 0 addr id (between.node 0) reqNode (.page bytes)
    aligned (by simp [Reply.length, pageSize])
  refine ⟨_, ((request_runs lenient before present).trans called).trans
    (request_runs lenient rest answered), ⟨.page bytes, ?_, bytes, rfl⟩, ?_⟩
  · simp [Sys.reply?, Sys.setHandler, Job.reply?]
  · exact spares_of_hands pageFree infoFree takes spares leaves rfl

theorem Sys.Spares.trans {between after : Sys} (first : s.Spares between)
    (second : between.Spares after) : s.Spares after where
  app := second.app.trans first.app
  locks node := ⟨(second.locks node).1.trans (first.locks node).1,
    (second.locks node).2.trans (first.locks node).2⟩
  bounded := second.bounded

/-- The loop of `send_invalidations`. -/
theorem invalidations_served (lenient : Lenient cfg allowed) (zero : cfg.managerId = 0)
    (aligned : pgAlign addr = addr) (fits : addr < wordCount) {owner : NodeId} {contents : Reply}
    {nodes : List NodeId} (bounded : s.Bounded)
    (present : s.handler id = some ⟨0, addr, .servWr reqNode (.invalidating owner contents nodes)⟩)
    (free : ∀ node ∈ nodes, node ≠ 0 → (s.node node).pageLocks addr = none)
    (installed : ∀ between : Sys, between.app = s.app → between.reply? id = none →
      between.managerInstalled cfg addr = true) :
    ∃ after, Serves cfg allowed s after ∧
      after.handler id = some ⟨0, addr, .servWr reqNode (.sent owner contents)⟩ ∧
      s.Spares after := by
  induction nodes generalizing s with
  | nil =>
      have run : RequestRun cfg 0 addr id (.servWr reqNode (.invalidating owner contents []))
          (s.node 0) (.servWr reqNode (.sent owner contents)) (s.node 0) := .skip rfl rfl .refl
      refine ⟨_, request_runs lenient run present, Function.update_self .., rfl, fun node => ?_,
        bounded.setHandler id _⟩
      simp [Sys.setNode, Sys.setHandler, Node.SameLocks]
  | cons node nodes inductionHypothesis =>
      have calls : Job.stmt cfg 0 addr (.servWr reqNode (.invalidating owner contents (node :: nodes))) =
          .call node .invalidatePg (invalidateRequest addr)
            fun call => .servWr reqNode (.invalidateSent owner contents nodes call) := rfl
      have waits : ∀ call, Job.stmt cfg 0 addr
          (.servWr reqNode (.invalidateSent owner contents nodes call)) =
          .await true call (fun resp => .servWr reqNode
            (if resp.isOk then .invalidating owner contents nodes else .sent owner contents))
            (.servWr reqNode (.sent owner contents)) := fun _ => rfl
      have accepted : RpcName.invalidatePg.accept (invalidateRequest addr) =
          some (addr, .invalidate .entry) := by
        simp [RpcName.accept, parseInvalidateRequest_invalidateRequest fits, aligned]
      have unlocked : cfg.isManager node = false → (s.node node).pageLocks addr = none := by
        intro worker
        rw [Config.isManager_eq_false, zero] at worker
        exact free node (List.mem_cons_self ..) worker
      obtain ⟨between, reply, called, rfl, answered, spares⟩ := call_served
        lenient bounded (fun reply => reply = .ok) present calls accepted waits
        (fun call => by
          obtain ⟨final, run, same⟩ := @invalidate_alone cfg node addr call (s.node node) unlocked
          exact ⟨_, _, final, run, rfl, rfl, same⟩)
        installed
      have going : between.handler id =
          some ⟨0, addr, .servWr reqNode (.invalidating owner contents nodes)⟩ := answered
      obtain ⟨after, rest, sent, restSpares⟩ := inductionHypothesis spares.bounded going
        (fun other member worker => by
          rw [(spares.locks other).1]
          exact free other (List.mem_cons_of_mem _ member) worker)
        (fun later sameApp => installed later (sameApp.trans spares.app))
      exact ⟨after, called.trans rest, sent, spares.trans restSpares⟩

/-- The fetch of a write request, or none for a requester that owns the page. -/
theorem write_fetched (lenient : Lenient cfg allowed) (zero : cfg.managerId = 0)
    (aligned : pgAlign addr = addr) (fits : addr < wordCount) {owner : NodeId}
    {nodes : List NodeId} (bounded : s.Bounded)
    (present : s.handler id = some ⟨0, addr, .servWr reqNode (.erased owner nodes)⟩)
    (free : owner ≠ 0 → owner ≠ reqNode → (s.node owner).pageLocks addr = none)
    (installed : ∀ between : Sys, between.app = s.app → between.reply? id = none →
      between.managerInstalled cfg addr = true) :
    ∃ after contents, Serves cfg allowed s after ∧
      ((∃ bytes, contents = .page bytes) ∨ owner = reqNode ∧ contents = .empty) ∧
      after.handler id = some ⟨0, addr, .servWr reqNode (.invalidating owner contents nodes)⟩ ∧
      s.Spares after := by
  by_cases upgrade : owner ≠ 0 ∧ owner = reqNode
  · have row : Job.stmt cfg 0 addr (.servWr reqNode (.erased owner nodes)) =
        .skip (.servWr reqNode (.invalidating owner .empty nodes)) := by
      simp only [Job.stmt, servWrRq, if_neg upgrade.1, if_pos upgrade.2, Stmt.map]
    have run : RequestRun cfg 0 addr id (.servWr reqNode (.erased owner nodes)) (s.node 0)
        (.servWr reqNode (.invalidating owner .empty nodes)) (s.node 0) := .skip row rfl .refl
    refine ⟨_, .empty, request_runs lenient run present, .inr ⟨upgrade.2, rfl⟩,
      Function.update_self .., rfl, fun node => ?_, bounded.setHandler id _⟩
    simp [Sys.setNode, Sys.setHandler, Node.SameLocks]
  · have calls : Job.stmt cfg 0 addr (.servWr reqNode (.erased owner nodes)) =
        .call owner .fetchPg (fetchNoneRequest addr)
          fun call => .servWr reqNode (.fetching owner nodes call) := by
      by_cases home : owner = 0
      · simp [Job.stmt, servWrRq, Stmt.map, aligned, home]
      · have other : owner ≠ reqNode := fun same => upgrade ⟨home, same⟩
        simp [Job.stmt, servWrRq, Stmt.map, aligned, home, other]
    have waits : ∀ call, Job.stmt cfg 0 addr (.servWr reqNode (.fetching owner nodes call)) =
        .await (owner ≠ 0) call (fun reply => .servWr reqNode (.invalidating owner reply nodes))
          (.servWr reqNode .callFailed) := fun _ => rfl
    have accepted : RpcName.fetchPg.accept (fetchNoneRequest addr) =
        some (addr, .fetch .none .entry) := by
      simp [RpcName.accept, parseFetchRequest_none fits]
    have unlocked : cfg.isManager owner = false → (s.node owner).pageLocks addr = none := by
      intro worker
      rw [Config.isManager_eq_false, zero] at worker
      exact free worker fun same => upgrade ⟨worker, same⟩
    obtain ⟨after, reply, called, isPage, answered, spares⟩ := call_served
      lenient bounded (fun reply => ∃ bytes, reply = .page bytes) present calls accepted waits
      (fun call => by
        obtain ⟨bytes, final, run, same⟩ := @fetch_alone cfg owner addr call (s.node owner) .none
          aligned unlocked
        exact ⟨_, _, final, run, rfl, ⟨bytes, rfl⟩, same⟩)
      installed
    exact ⟨after, reply, called, .inl isPage, answered, spares⟩

/-- A write request is answered with the page, or with nothing when its requester
owns the page. -/
theorem write_served (zero : cfg.managerId = 0) (lenient : Lenient cfg allowed) (bounded : s.Bounded)
    (aligned : pgAlign addr = addr) (fits : addr < wordCount)
    (present : s.handler id = some ⟨0, addr, .servWr reqNode .entry⟩)
    (pageFree : (s.node 0).pageLocks addr = none) (infoFree : (s.node 0).infoLocks addr = none)
    (free : ∀ node, node ≠ 0 → node ≠ reqNode → (s.node node).pageLocks addr = none)
    (installed : ∀ between : Sys, between.app = s.app → between.reply? id = none →
      between.managerInstalled cfg addr = true) :
    ∃ after, Serves cfg allowed s after ∧
      Served s after id fun reply => (∃ bytes, reply = .page bytes) ∨ reply = .empty := by
  have manager : cfg.isManager 0 = true := by simp [zero]
  let owner := ((s.node 0).info addr).owner
  let nodes := (((s.node 0).info addr).copyset.erase reqNode).elems
  obtain ⟨taken, before, takes⟩ := @servWr_before cfg 0 addr id (s.node 0) reqNode aligned manager
    pageFree infoFree
  let erased := (s.setNode 0 taken).setHandler id ⟨0, addr, .servWr reqNode (.erased owner nodes)⟩
  have elsewhere : ∀ node, node ≠ 0 → node ≠ reqNode → (erased.node node).pageLocks addr = none := by
    intro node worker other
    have same : erased.node node = s.node node := Function.update_of_ne worker ..
    rw [same]
    exact free node worker other
  obtain ⟨fetched, contents, fetches, isGrant, atLoop, spares⟩ := write_fetched (s := erased) lenient
    zero aligned fits (bounded.setHandler id _) (Function.update_self ..) (elsewhere owner) installed
  have readers : ∀ node ∈ nodes, node ≠ 0 → (fetched.node node).pageLocks addr = none := by
    intro node member worker
    rw [(spares.locks node).1]
    exact elsewhere node worker (NodeSet.mem_erase.mp (NodeSet.mem_def.mpr member)).1
  obtain ⟨sent, invalidates, atSent, sentSpares⟩ := invalidations_served lenient zero aligned fits
    spares.bounded atLoop readers fun later sameApp => installed later (sameApp.trans spares.app)
  have full : owner = reqNode ∨ contents.length ≠ 0 := by
    rcases isGrant with ⟨bytes, rfl⟩ | ⟨same, -⟩
    · right
      simp [Reply.length, pageSize]
    · exact .inl same
  obtain ⟨left, rest, leaves⟩ := @servWr_after cfg 0 addr id (sent.node 0) reqNode owner contents
    aligned full
  refine ⟨_, ((request_runs lenient before present).trans (fetches.trans invalidates)).trans
    (request_runs lenient rest atSent), ⟨contents, ?_, isGrant.imp_right And.right⟩, ?_⟩
  · simp [Sys.reply?, Sys.setHandler, Job.reply?]
  · exact spares_of_hands pageFree infoFree takes (spares.trans sentSpares) leaves rfl

end Requests

end Calls

/-! ### Faults -/

section Faults

variable {cfg : Config} {allowed : Sys → Action → Prop} {s : Sys}

/-- The call of a fault handler is accepted as a request of its node. -/
theorem request_accepted {rq : Rq} {addr : Addr} {id : NodeId} (fits : addr < wordCount)
    (idFits : id < wordCount) :
    ∃ fn body, faultHdlr cfg rq id addr .locked =
        .call (if cfg.isManager id then id else 0) fn body .asking ∧
      fn.accept body = some (pgAlign addr, rq.job id) := by
  have parsed : parsePageRequest (pageRequest (pgAlign addr) id) = some (pgAlign addr, id) := by
    rw [parsePageRequest_pageRequest (pgAlign_lt fits) idFits, pgAlign_pgAlign]
  cases rq with
  | rd => exact ⟨_, _, rfl, by simp [RpcName.accept, parsed, Rq.job]⟩
  | wr => exact ⟨_, _, rfl, by simp [RpcName.accept, parsed, Rq.job]⟩

/-- A page request is answered with what its fault handler can install. -/
theorem request_served (zero : cfg.managerId = 0) (lenient : Lenient cfg allowed)
    (bounded : s.Bounded) {id : HandlerId} {base : Addr} {rq : Rq} {reqNode : NodeId}
    (aligned : pgAlign base = base) (fits : base < wordCount)
    (present : s.handler id = some ⟨0, base, rq.job reqNode⟩)
    (pageFree : (s.node 0).pageLocks base = none) (infoFree : (s.node 0).infoLocks base = none)
    (free : ∀ node, node ≠ 0 → node ≠ reqNode → (s.node node).pageLocks base = none)
    (other : rq = .rd → ((s.node 0).info base).owner ≠ 0 → ((s.node 0).info base).owner ≠ reqNode)
    (installed : ∀ between : Sys, between.app = s.app → between.reply? id = none →
      between.managerInstalled cfg base = true) :
    ∃ after, Serves cfg allowed s after ∧ Served s after id fun reply =>
      (∃ bytes, reply = .page bytes) ∨ rq = .wr ∧ reply = .empty := by
  cases rq with
  | rd =>
      obtain ⟨after, serves, ⟨reply, replied, isPage⟩, spares⟩ := read_served zero lenient bounded
        aligned fits present pageFree infoFree (fun worker => free _ worker (other rfl worker)) installed
      exact ⟨after, serves, ⟨reply, replied, .inl isPage⟩, spares⟩
  | wr =>
      obtain ⟨after, serves, ⟨reply, replied, answers⟩, spares⟩ := write_served zero lenient bounded
        aligned fits present pageFree infoFree free installed
      exact ⟨after, serves, ⟨reply, replied, answers.imp_right fun empty => ⟨rfl, empty⟩⟩, spares⟩

/-- A state in which only one thread is inside its fault handler, with the lock of its
page, and waits for an instance. -/
structure Sys.Asks (cfg : Config) (s asks : Sys) (thread : AppId) (rq : Rq) (addr : Addr)
    (call : HandlerId) : Prop where
  app : asks.app = Function.update s.app thread (.fault rq addr (.asking call))
  own : (s.node thread.node).HandsPage cfg thread.node (asks.node thread.node) (pgAlign addr)
    (some (.app thread))
  others : ∀ node, node ≠ thread.node → asks.node node = s.node node
  info : (asks.node thread.node).info = (s.node thread.node).info
  handler : asks.handler call = some ⟨0, pgAlign addr, rq.job thread.node⟩
  bounded : asks.Bounded

/-- A fault handler up to its waiting. -/
theorem fault_asks (zero : cfg.managerId = 0) (lenient : Lenient cfg allowed) (quiet : s.Quiet)
    {thread : AppId} (rq : Rq) {addr : Addr} (runs : cfg.runs thread = true)
    (fits : addr < wordCount) :
    ∃ asks call, Serves cfg allowed (s.setApp thread (.fault rq addr .entry)) asks ∧
      s.Asks cfg asks thread rq addr call := by
  let faulting := s.setApp thread (.fault rq addr .entry)
  have moves : ∀ between fresh, allowed between (.app thread fresh) :=
    fun between fresh => lenient _ _ rfl rfl trivial
  obtain ⟨taken, before, takes, sameInfo⟩ := @fault_before cfg addr (s.node thread.node) thread rq
    fun _ => quiet.pageFree _ _
  let ready := (faulting.setNode thread.node taken).setApp thread (.fault rq addr .locked)
  have first : Serves cfg allowed faulting ready :=
    LocalRun.serves_app before (Function.update_self ..) rfl fun between => moves between 0
  obtain ⟨fresh, unused⟩ : ∃ fresh, s.handler fresh = none := by
    obtain ⟨bound, unused⟩ := quiet.bounded
    exact ⟨bound, unused bound le_rfl⟩
  obtain ⟨fn, body, row, accepted⟩ :=
    @request_accepted cfg rq addr thread.node fits (cfg.node_fits runs)
  have atManager : (if cfg.isManager thread.node then thread.node else 0) = 0 := by
    split
    · rename_i manager
      rw [Config.isManager_eq_true] at manager
      exact manager.trans zero
    · rfl
  rw [atManager] at row
  let requested := ready.setHandler fresh ⟨0, pgAlign addr, rq.job thread.node⟩
  let asks := requested.setApp thread (.fault rq addr (.asking fresh))
  have ran : (faultHdlr cfg rq thread.node addr .locked).exec thread.node (.app thread) fresh ready =
      some (.asking fresh, requested, [.call 0 fn body]) := by
    have free : ready.handler fresh = none := unused
    rw [row]
    simp only [Stmt.exec, free, accepted, requested]
  have calling : ready.step cfg (.app thread fresh) = some (asks, [.call 0 fn body]) :=
    Sys.step_app_of (Function.update_self ..) ran
  refine ⟨asks, fresh, first.trans (Serves.one rfl (moves _ _) calling), ?_⟩
  constructor
  case app => simp [asks, requested, ready, faulting, Sys.setApp, Sys.setHandler, Sys.setNode]
  case own =>
    simpa [asks, requested, ready, faulting, Sys.setApp, Sys.setHandler, Sys.setNode] using takes
  case others =>
    intro node different
    simp [asks, requested, ready, faulting, Sys.setApp, Sys.setHandler, Sys.setNode, different]
  case info =>
    simpa [asks, requested, ready, faulting, Sys.setApp, Sys.setHandler, Sys.setNode] using sameInfo
  case handler => simp [asks, requested, Sys.setApp, Sys.setHandler]
  case bounded => exact quiet.bounded.setHandler fresh _

/-- A fault handler with its answer returns to a quiet state. -/
theorem fault_returns (lenient : Lenient cfg allowed) (quiet : s.Quiet) {thread : AppId} {rq : Rq}
    {addr : Addr} {call : HandlerId} {asks served : Sys} (waiting : s.Asks cfg asks thread rq addr call)
    (answered : Served asks served call fun reply =>
      (∃ bytes, reply = .page bytes) ∨ rq = .wr ∧ reply = .empty) :
    ∃ after, Serves cfg allowed served after ∧ after.Quiet ∧
      rq.faults ((after.node thread.node).prot (pgAlign addr)) = false := by
  obtain ⟨⟨reply, replied, answers⟩, spares⟩ := answered
  have inside : served.app thread = .fault rq addr (.asking call) := by
    rw [spares.app, waiting.app, Function.update_self]
  let granted := served.setApp thread (.fault rq addr (.got reply))
  have ran : (faultHdlr cfg rq thread.node addr (.asking call)).exec thread.node (.app thread) 0
      served = some (.got reply, served, []) := by
    have row : faultHdlr cfg rq thread.node addr (.asking call) =
        .await (!cfg.isManager thread.node) call .got .failed := by
      cases rq <;> rfl
    rw [row]
    simp only [Stmt.exec, replied]
  have answering : served.step cfg (.app thread 0) = some (granted, []) :=
    Sys.step_app_of inside ran
  obtain ⟨final, run, ⟨samePage, sameInfo⟩, access⟩ :=
    @fault_after cfg addr (served.node thread.node) thread rq reply answers
  have moves : ∀ between, allowed between (.app thread 0) :=
    fun between => lenient _ _ rfl rfl trivial
  have rest : Serves cfg allowed granted ((granted.setNode thread.node final).setApp thread .run) :=
    LocalRun.serves_app run (Function.update_self ..) rfl moves
  refine ⟨_, (Serves.one rfl (moves _) answering).trans rest, ?_, ?_⟩
  · -- what the thread has taken is free again, the others are as they were
    have ownPage : final.pageLocks = (s.node thread.node).pageLocks := by
      rw [samePage, (spares.locks thread.node).1, waiting.own.1]
      split
      · rfl
      · exact restore_lock (quiet.pageFree thread.node _)
    have ownInfo : final.infoLocks = (s.node thread.node).infoLocks := by
      rw [sameInfo, (spares.locks thread.node).2, waiting.own.2]
    have tables : ∀ node, (s.node node).SameLocks
        (((granted.setNode thread.node final).setApp thread .run).node node) := by
      intro node
      by_cases same : node = thread.node
      · subst same
        simpa [Sys.setApp, Sys.setNode] using ⟨ownPage, ownInfo⟩
      · have before := spares.locks node
        rw [waiting.others node same] at before
        simpa [granted, Sys.setApp, Sys.setNode, same] using before
    constructor
    case outside =>
      intro other
      by_cases same : other = thread
      · subst same
        exact Function.update_self ..
      · have before : served.app other = .run := by
          rw [spares.app, waiting.app, Function.update_of_ne same]
          exact quiet.outside other
        simpa [granted, Sys.setApp, Sys.setNode, same] using before
    case pageFree =>
      intro node key
      rw [(tables node).1]
      exact quiet.pageFree node key
    case infoFree =>
      intro node key
      rw [(tables node).2]
      exact quiet.infoFree node key
    case bounded => exact spares.bounded
  · simpa [Sys.setApp, Sys.setNode] using access

/-- A fault from a quiet state can be served to its end. The node that reads must not
be the owner: it would wait for its own request. -/
theorem fault_served (zero : cfg.managerId = 0) (lenient : Lenient cfg allowed) (quiet : s.Quiet)
    {thread : AppId} {rq : Rq} {addr : Addr} (runs : cfg.runs thread = true)
    (fits : addr < wordCount)
    (other : rq = .rd → ((s.node 0).info (pgAlign addr)).owner ≠ 0 →
      ((s.node 0).info (pgAlign addr)).owner ≠ thread.node) :
    ∃ after, Serves cfg allowed (s.setApp thread (.fault rq addr .entry)) after ∧ after.Quiet ∧
      rq.faults ((after.node thread.node).prot (pgAlign addr)) = false := by
  obtain ⟨asks, call, first, waiting⟩ :=
    fault_asks zero lenient quiet rq runs fits
  have sameInfo : (asks.node 0).info = (s.node 0).info := by
    by_cases home : (0 : NodeId) = thread.node
    · rw [home]
      exact waiting.info
    · rw [waiting.others 0 home]
  have atManager : ∀ key, (asks.node 0).pageLocks key = none ∧ (asks.node 0).infoLocks key = none := by
    intro key
    by_cases home : (0 : NodeId) = thread.node
    · obtain ⟨samePage, sameInfo⟩ := waiting.own
      rw [if_pos (by rw [Config.isManager_eq_true, zero, home])] at samePage
      rw [home, samePage, sameInfo]
      exact ⟨quiet.pageFree _ key, quiet.infoFree _ key⟩
    · rw [waiting.others 0 home]
      exact ⟨quiet.pageFree _ key, quiet.infoFree _ key⟩
  have free : ∀ node, node ≠ 0 → node ≠ thread.node →
      (asks.node node).pageLocks (pgAlign addr) = none := by
    intro node _ different
    rw [waiting.others node different]
    exact quiet.pageFree node _
  have installed : ∀ between : Sys, between.app = asks.app → between.reply? call = none →
      between.managerInstalled cfg (pgAlign addr) = true := by
    intro between sameApp unanswered
    rw [Sys.managerInstalled, sameApp, waiting.app]
    by_cases own : (⟨cfg.managerId, 0⟩ : AppId) = thread
    · simp [own, FaultPc.uninstalled, unanswered]
    · simp [own, quiet.outside]
  obtain ⟨served, second, answered⟩ := request_served zero lenient waiting.bounded
    (pgAlign_pgAlign addr) (pgAlign_lt fits) waiting.handler (atManager _).1 (atManager _).2 free
    (by rwa [sameInfo]) installed
  obtain ⟨after, third, calm, access⟩ := fault_returns lenient quiet waiting answered
  exact ⟨after, (first.trans second).trans third, calm, access⟩

end Faults

/-- In a quiet state a worker without access is not the owner. -/
theorem owner_has_access {cfg : Config} {s : Sys} {base : Nat} (zero : cfg.managerId = 0)
    (single : cfg.appThreads = 1) (aligned : 4096 ∣ base) (fits : base < wordCount)
    (reached : Reachable (machine cfg) Reliable s) (quiet : s.Quiet) {node : NodeId}
    (denied : (s.node node).prot base = .none) (owned : ((s.node 0).info base).owner ≠ 0) :
    ((s.node 0).info base).owner ≠ node := by
  rintro rfl
  obtain ⟨trace, run⟩ := reached
  have accurate := (protocol_accurate zero single aligned fits run).2
  have idle : (protocolOf base trace s).srv = none := by
    have free : ((s.view base).node 0).pageLock = none := quiet.pageFree 0 base
    simp [protocolOf, PageState.protocolState, PageState.serving, PageState.server, free]
  have outside : (protocolOf base trace s).app ((s.node 0).info base).owner = .out := by
    apply phase_outside
    rintro ⟨idx, rq, addr, pc, inside, -⟩
    rw [quiet.outside] at inside
    contradiction
  rcases accurate.held owned with held | ⟨serving, serves, -⟩ | ⟨serving, serves, -⟩
  · rcases held with access | ⟨page, granted⟩
    · exact access denied
    · change (protocolOf base trace s).app ((s.node 0).info base).owner = _ at granted
      rw [outside] at granted
      contradiction
  · rw [idle] at serves
    contradiction
  · rw [idle] at serves
    contradiction

/-- What was asked for is enough to read. -/
theorem readable_of_granted {rq : Rq} {access : AccessType} (granted : rq.faults access = false) :
    access.readable = true := by
  cases rq <;> cases access <;> first | rfl | contradiction

/-- The runtime adds no accesses to the history. -/
theorem Serves.extends {cfg : Config} {allowed : Sys → Action → Prop} {trace : List Event}
    {s after : Sys} (run : Run (machine cfg) allowed trace s) (serves : Serves cfg allowed s after) :
    ∃ events, Run (machine cfg) allowed (trace ++ events) after ∧ history events = [] := by
  induction serves with
  | refl => exact ⟨[], by simpa using run, rfl⟩
  | tail _ taken inductionHypothesis =>
      obtain ⟨earlier, run, silent⟩ := inductionHypothesis
      obtain ⟨action, events, ofRuntime, allows, moved⟩ := taken
      refine ⟨earlier ++ events, by simpa using run.step allows moved, ?_⟩
      rw [history_append, silent, List.nil_append]
      rcases access_cases moved with ⟨_, _, _, rfl⟩ | ⟨_, _, _, rfl⟩ | ⟨silent, -⟩
      · contradiction
      · contradiction
      · exact silent

/-- From every state that such a run reaches with no fault and no request in service,
the fault of any node on any page leads, by statements of fault handlers and served
functions alone, to its end: no thread of an application loads, stores or faults
meanwhile. The access that faulted is possible then, and what the page holds on the
node is what the last stores have left. -/
theorem fault_can_be_served {cfg : Config} (zero : cfg.managerId = 0) (single : cfg.appThreads = 1)
    {trace : List Event} {s : Sys} (run : Run (machine cfg) (ReliableGiving cfg) trace s)
    (outside : ∀ thread, s.app thread = .run)
    (unlocked : ∀ node key, (s.node node).pageLocks key = none ∧ (s.node node).infoLocks key = none)
    {thread : AppId} {rq : Rq} {addr : Addr} (runs : cfg.runs thread = true)
    (fits : addr < wordCount)
    (denied : rq.faults ((s.node thread.node).prot (pgAlign addr)) = true) :
    ∃ entered after, s.step cfg (.fault thread rq addr) = some (entered, []) ∧
      Serves cfg (ReliableGiving cfg) entered after ∧ (∀ thread, after.app thread = .run) ∧
      (∀ node key, (after.node node).pageLocks key = none ∧ (after.node node).infoLocks key = none) ∧
      rq.faults ((after.node thread.node).prot (pgAlign addr)) = false ∧
      (after.node thread.node).pageAt (pgAlign addr) = contentsOf (pgAlign addr) trace := by
  have quiet : s.Quiet := by
    refine ⟨outside, fun node key => (unlocked node key).1, fun node key => (unlocked node key).2, ?_⟩
    exact Sys.bounded_of_reachable run.reachable
  have reader : rq = .rd → ((s.node 0).info (pgAlign addr)).owner ≠ 0 →
      ((s.node 0).info (pgAlign addr)).owner ≠ thread.node := by
    rintro rfl owned
    apply owner_has_access zero single (pgAlign_dvd addr) (pgAlign_lt fits)
      (run.mono fun _ _ permitted => permitted.1).reachable quiet _ owned
    simpa [Rq.faults] using denied
  have lenient : Lenient cfg (ReliableGiving cfg) := fun _ _ _ reliable gives => ⟨reliable, gives⟩
  have within : withinPage addr 1 = true := withinPage_iff.mpr ⟨fits, by omega⟩
  have faulted := Sys.step_fault_of (outside thread) runs within denied
  obtain ⟨after, serves, calm, granted⟩ := fault_served zero lenient quiet runs fits reader
  refine ⟨_, after, faulted, serves, calm.outside,
    fun node key => ⟨calm.pageFree node key, calm.infoFree node key⟩, granted, ?_⟩
  have permitted : ReliableGiving cfg s (.fault thread rq addr) := ⟨rfl, trivial⟩
  have entered := run.step permitted faulted
  rw [List.append_nil] at entered
  obtain ⟨events, extended, silent⟩ := serves.extends entered
  have readable : ((after.node thread.node).prot (pgAlign addr)).readable = true :=
    readable_of_granted granted
  rw [page_currentAll zero single (pgAlign_dvd addr) (pgAlign_lt fits) extended (calm.outside _) runs
    readable, contentsOf_silent _ _ silent]

/-- The first store of a worker is served from the initial state. -/
theorem fault_can_be_served_first : ∃ entered after,
    Sys.initial.step threeNodes (.fault ⟨1, 0⟩ .wr firstPage) = some (entered, []) ∧
      Serves threeNodes (ReliableGiving threeNodes) entered after ∧
      ((after.node 1).prot firstPage).writable = true := by
  obtain ⟨entered, after, faulted, serves, -, -, granted, -⟩ :=
    @fault_can_be_served threeNodes rfl rfl [] Sys.initial .init (fun _ => rfl) (fun _ _ => ⟨rfl, rfl⟩)
      ⟨1, 0⟩ .wr firstPage (by decide) (by decide) (by decide)
  refine ⟨entered, after, faulted, serves, ?_⟩
  have aligned : pgAlign firstPage = firstPage := by decide
  rw [aligned] at granted
  simpa [Rq.faults] using granted

end LibIvy
