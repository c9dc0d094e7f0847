import LibIvy.Page.Waits
import LibIvy.Page.Runs
import LibIvy.Contracts.Callbacks

/-!
Contract: deadlocks.

Owns: the steps that let the manager wait for a worker that waits for the
manager, freedom from deadlock in every run without such steps, and a run of two
workers that write to a page they both read.

Does not own: progress; a thread that does not wait can always go on.

A worker holds its page lock while its request is served; the manager holds its
own page lock while it calls workers, and the called function takes the page lock
of the worker.
-/

namespace LibIvy

open Lib NumberText TransitionSystem

/-! ### Crossing calls -/

/-- The node is inside a fault on the page, holds its page lock and waits for its
request. -/
def Sys.unserved (s : Sys) (node : NodeId) (page : Addr) : Bool :=
  match s.app ⟨node, 0⟩ with
  | .run => false
  | .fault _ addr pc => pgAlign addr == page && pc.unserved s.reply?

/-- The request in service for the page has called the node, and the call has not
taken the page lock of the node yet. -/
def Sys.callsNode (s : Sys) (node : NodeId) (page : Addr) : Bool :=
  match (s.node 0).pageLocks page with
  | some (.handler id) =>
      match (s.handler id).bind fun handler => handler.job.awaits? with
      | some call =>
          (s.handler call).any fun callee => callee.node == node && callee.job.atPageLock
      | none => false
  | _ => false

/-- A call crosses a fault: the step calls a worker that waits for its own
request, or makes a worker that is being called wait for its own request. -/
def crossesFault (cfg : Config) (s : Sys) : Action → Bool
  | .handler id _ =>
      match s.handler id with
      | some handler =>
          match (handler.job.stmt cfg handler.node handler.addr).callee? with
          | some dst => !cfg.isManager dst && s.unserved dst handler.addr
          | none => false
      | none => false
  | .app thread _ =>
      match s.app thread with
      | .fault _ addr .entry =>
          !cfg.isManager thread.node && s.callsNode thread.node (pgAlign addr)
      | _ => false
  | _ => false

/-- Reliable RPC, and no call crosses a fault of the node it is for. -/
def ReliableUncrossed (cfg : Config) (s : Sys) (action : Action) : Prop :=
  Reliable s action ∧ crossesFault cfg s action = false

/-! ### Calls pass -/

section Steps

variable {cfg : Config} {base : Nat} {st after : PageState}

/-- A reply stays what it is. -/
theorem PageState.reply?_step {action : PageAction} {call : HandlerId} {reply : Reply}
    (taken : st.step cfg base action = some after) (replied : st.reply? call = some reply) :
    after.reply? call = some reply := by
  obtain ⟨handler, present, returned⟩ := Option.bind_eq_some_iff.mp replied
  suffices kept : after.handler call = some handler by
    simp [reply?, kept, returned]
  have stopped : handler.job.stmt cfg handler.node base = .halt := job_stmt_halt returned
  cases action with
  | store thread offset values =>
      obtain ⟨-, -, -, rfl⟩ := step_store taken
      exact present
  | fault thread rq =>
      obtain ⟨-, -, -, rfl⟩ := step_fault taken
      exact present
  | app thread fresh =>
      obtain ⟨rq, pc, next, between, -, ran, rfl⟩ := step_app taken
      have kept := Stmt.execOnPage_keeps ran present
      exact kept
  | handler id fresh =>
      obtain ⟨mover, next, between, found, ran, rfl⟩ := step_handler taken
      have different : call ≠ id := by
        intro same
        subst same
        obtain rfl : handler = mover := by simpa [present] using found
        rw [stopped] at ran
        contradiction
      rw [setHandler_other _ _ different]
      exact Stmt.execOnPage_keeps ran present
  | failApp thread =>
      obtain ⟨rq, pc, next, -, -, rfl⟩ := step_failApp taken
      exact present
  | failHandler id =>
      obtain ⟨mover, next, found, failed, rfl⟩ := step_failHandler taken
      have different : call ≠ id := by
        intro same
        subst same
        obtain rfl : handler = mover := by simpa [present] using found
        rw [stopped] at failed
        contradiction
      rw [setHandler_other _ _ different]
      exact present

/-- A request that is granted stays granted. -/
theorem FaultPc.unserved_step {action : PageAction} {pc : FaultPc}
    (taken : st.step cfg base action = some after) (served : pc.unserved st.reply? = false) :
    pc.unserved after.reply? = false := by
  cases pc with
  | asking call =>
      simp only [unserved, Option.isNone_eq_false_iff, Option.isSome_iff_exists] at served ⊢
      obtain ⟨reply, replied⟩ := served
      exact ⟨reply, PageState.reply?_step taken replied⟩
  | locked => contradiction
  | _ => rfl

/-- Only the first two statements of a fault handler lead to a request that is
not granted. -/
theorem faultHdlr_ensures_served (rq : Rq) (id : NodeId) {pc : FaultPc} (started : pc ≠ .entry)
    (asked : pc ≠ .locked) :
    (faultHdlr cfg rq id base pc).Ensures (fun next => ∀ reply?, next.unserved reply? = false)
      (fun _ _ => False) fun _ => True := by
  cases rq <;> cases pc <;>
    simp only [faultHdlr, rdFaultHdlr, wrFaultHdlr, Stmt.ensures_ite] <;>
    simp_all [Stmt.Ensures, FaultPc.unserved]

/-- Fault handlers call requests only. -/
theorem faultHdlr_calls_request {rq : Rq} {id dst : NodeId} {pc : FaultPc} {fn : RpcName}
    {body : Text} {target : HandlerId → FaultPc} {addr : Addr} {job : Job}
    (row : faultHdlr cfg rq id base pc = .call dst fn body target)
    (accepted : fn.accept body = some (addr, job)) : job.atPageLock = false := by
  have request : fn = .getRdPageFromManager ∨ fn = .getWrPageFromManager := by
    cases rq <;> cases pc <;> simp only [faultHdlr, rdFaultHdlr, wrFaultHdlr] at row <;>
      first | (split at row <;> contradiction) | contradiction | (cases row; simp)
  rcases request with rfl | rfl <;>
    simp only [RpcName.accept, Option.map_eq_some_iff, Prod.mk.injEq] at accepted <;>
    obtain ⟨_, _, _, rfl⟩ := accepted <;> rfl

/-- No statement leads back to the entry of a call. -/
theorem job_ensures_passed (self : NodeId) (job : Job) :
    (job.stmt cfg self base).Ensures (fun next => next.atPageLock = false)
      (fun _ next => next.atPageLock = false) fun _ => True := by
  cases job with
  | servRd reqNode pc =>
      rw [Job.stmt, Stmt.ensures_map]
      cases pc <;> simp only [servRdRq, Stmt.ensures_ite] <;> simp [Stmt.Ensures, Job.atPageLock]
  | servWr reqNode pc =>
      rw [Job.stmt, Stmt.ensures_map]
      cases pc
      case invalidating ownerNode pageContents nodes =>
        cases nodes <;> simp [servWrRq, Stmt.Ensures, Job.atPageLock]
      all_goals
        simp only [servWrRq, Stmt.ensures_ite]
        simp [Stmt.Ensures, Job.atPageLock]
  | fetch accessType pc =>
      rw [Job.stmt, Stmt.ensures_map]
      cases pc <;> simp only [fetchPg, Stmt.ensures_ite] <;> simp [Stmt.Ensures, Job.atPageLock]
  | invalidate pc =>
      rw [Job.stmt, Stmt.ensures_map]
      cases pc <;> simp only [invalidateAdapter, Stmt.ensures_ite] <;>
        simp [Stmt.Ensures, Job.atPageLock]

namespace CallsPass

theorem initial : CallsPass cfg PageState.initial := by
  intro id handler present
  simp [PageState.initial] at present

/-- The fault handler of a worker moves. -/
theorem app_step {thread : AppId} {fresh : HandlerId} (pass : CallsPass cfg st)
    (asks : ∀ {rq}, st.app thread = some (rq, .entry) → cfg.isManager thread.node = false →
      ∀ id handler, st.handler id = some handler → handler.job.atPageLock = true →
        handler.node ≠ thread.node)
    (taken : st.step cfg base (.app thread fresh) = some after) : CallsPass cfg after := by
  have granted : ∀ {pc : FaultPc}, pc.unserved st.reply? = false →
      pc.unserved after.reply? = false := FaultPc.unserved_step taken
  obtain ⟨rq, pc, next, between, inside, ran, rfl⟩ := PageState.step_app taken
  intro id handler present atLock worker rq' pc' insideAfter
  have old : st.handler id = some handler := by
    rcases Stmt.execOnPage_handler ran present with old | ⟨_, _, _, _, row, _, _, accepted⟩
    · exact old
    · simp [faultHdlr_calls_request row accepted] at atLock
  by_cases same : PageState.thread handler.node = thread
  · subst same
    have moved : resumeOnPage rq next = some (rq', pc') := by
      simpa [PageState.setApp] using insideAfter
    obtain ⟨-, rfl, -⟩ := resumeOnPage_eq_some moved
    have served := pass id handler old atLock worker rq pc inside
    have started : pc ≠ .entry := by
      intro same
      subst same
      exact asks inside worker id handler old atLock rfl
    have asked : pc ≠ .locked := by
      intro same
      subst same
      contradiction
    rcases Stmt.execOnPage_ensures (faultHdlr_ensures_served rq handler.node started asked)
      (fun _ _ _ _ => trivial) ran with moved | ⟨_, _, _, _, _, _, _, _, never, _⟩
    · exact moved _
    · exact never.elim
  · have before : st.app (PageState.thread handler.node) = some (rq', pc') := by
      have kept : between.app (PageState.thread handler.node) = some (rq', pc') := by
        simpa [PageState.setApp, same] using insideAfter
      rwa [Stmt.execOnPage_app ran] at kept
    exact granted (pass id handler old atLock worker rq' pc' before)

/-- An instance moves. -/
theorem handler_step {id fresh : HandlerId} (pass : CallsPass cfg st)
    (calls : ∀ {handler dst}, st.handler id = some handler →
      (handler.job.stmt cfg handler.node base).callee? = some dst → cfg.isManager dst = false →
      ∀ rq pc, st.app (PageState.thread dst) = some (rq, pc) → pc.unserved st.reply? = false)
    (taken : st.step cfg base (.handler id fresh) = some after) : CallsPass cfg after := by
  have granted : ∀ {pc : FaultPc}, pc.unserved st.reply? = false →
      pc.unserved after.reply? = false := FaultPc.unserved_step taken
  obtain ⟨mover, next, between, found, ran, rfl⟩ := PageState.step_handler taken
  intro other handler present atLock worker rq pc inside
  have inside : st.app (PageState.thread handler.node) = some (rq, pc) := by
    rw [← Stmt.execOnPage_app ran]
    exact inside
  by_cases same : other = id
  · subst same
    obtain rfl : { mover with job := next } = handler := by simpa using present
    have passed : next.atPageLock = false := by
      rcases Stmt.execOnPage_ensures (job_ensures_passed mover.node mover.job)
        (fun _ _ _ _ => trivial) ran with passed | ⟨_, _, _, _, _, _, _, _, passed, _⟩ <;>
        exact passed
    simp [passed] at atLock
  · rw [PageState.setHandler_other _ _ same] at present
    rcases Stmt.execOnPage_handler ran present with old | ⟨_, _, _, _, row, _⟩
    · exact granted (pass other handler old atLock worker rq pc inside)
    · exact granted (calls found (by rw [row]; rfl) worker rq pc inside)

/-- Reliable steps keep it, when no call crosses a fault. -/
theorem step {action : PageAction} (pass : CallsPass cfg st) (reliable : action.reliable = true)
    (asks : ∀ {thread fresh rq}, action = .app thread fresh → st.app thread = some (rq, .entry) →
      cfg.isManager thread.node = false →
      ∀ id handler, st.handler id = some handler → handler.job.atPageLock = true →
        handler.node ≠ thread.node)
    (calls : ∀ {id fresh handler dst}, action = .handler id fresh →
      st.handler id = some handler →
      (handler.job.stmt cfg handler.node base).callee? = some dst → cfg.isManager dst = false →
      ∀ rq pc, st.app (PageState.thread dst) = some (rq, pc) → pc.unserved st.reply? = false)
    (taken : st.step cfg base action = some after) : CallsPass cfg after := by
  cases action with
  | store thread offset values =>
      obtain ⟨-, -, -, rfl⟩ := PageState.step_store taken
      exact pass
  | fault thread rq =>
      obtain ⟨-, -, -, rfl⟩ := PageState.step_fault taken
      intro id handler present atLock worker rq' pc inside
      by_cases same : PageState.thread handler.node = thread
      · subst same
        obtain ⟨-, rfl⟩ : rq = rq' ∧ FaultPc.entry = pc := by simpa [PageState.setApp] using inside
        rfl
      · exact pass id handler present atLock worker rq' pc
          (by simpa [PageState.setApp, same] using inside)
  | app thread fresh => exact pass.app_step (asks rfl) taken
  | handler id fresh => exact pass.handler_step (calls rfl) taken
  | failApp thread => contradiction
  | failHandler id => contradiction

end CallsPass

end Steps

/-! ### Every run -/

section Runs

variable {cfg : Config} {base : Nat} {trace : List Event} {s : Sys}

/-- A call that waits for a page lock is the call of the request in service. -/
theorem callsNode_of_atPageLock (zero : cfg.managerId = 0) (locksHeld : LocksHeld cfg (s.view base))
    (linked : Linked cfg (s.view base)) (attended : Attended (s.view base)) {id : HandlerId}
    {node : NodeId} {job : Job} (present : (s.view base).handler id = some ⟨node, job⟩)
    (atLock : job.atPageLock = true) : s.callsNode node base = true := by
  have calls : job.kind.serves = false ∧ job.reply? = none := by
    cases job with
    | servRd reqNode pc => contradiction
    | servWr reqNode pc => contradiction
    | fetch accessType pc => cases pc <;> first | exact ⟨rfl, rfl⟩ | contradiction
    | invalidate pc => cases pc <;> first | exact ⟨rfl, rfl⟩ | contradiction
  rcases attended present calls.2 with ⟨thread, rq, pc, inside, waits⟩ |
    ⟨caller, ⟨callerNode, callerJob⟩, found, waits⟩
  · obtain ⟨callee, calleePresent, -, kind⟩ := linked.appCall inside waits
    obtain rfl : ⟨node, job⟩ = callee := by simpa [present] using calleePresent
    cases rq <;> simp_all [Rq.kind, JobKind.serves]
  · have serves : callerJob.kind.serves = true ∧ callerJob.held true .pageLocks = true := by
      cases callerJob with
      | servRd reqNode pc => cases pc <;> first | exact ⟨rfl, rfl⟩ | contradiction
      | servWr reqNode pc => cases pc <;> first | exact ⟨rfl, rfl⟩ | contradiction
      | fetch accessType pc => contradiction
      | invalidate pc => contradiction
    obtain rfl : callerNode = 0 := linked.atManager found serves.1
    have manager : cfg.isManager 0 = true := by simp [zero]
    have holds : (s.view base).Holds cfg 0 .pageLocks (.handler caller) :=
      ⟨_, found, rfl, by rw [manager]; exact serves.2⟩
    have locked : (s.node 0).pageLocks base = some (.handler caller) :=
      (locksHeld 0 .pageLocks (.handler caller)).mpr holds
    simp only [Sys.callsNode, locked, s.handler_of_view found, Option.bind_some]
    have waits : callerJob.awaits? = some id := waits
    simp [waits, s.handler_of_view present, atLock]

theorem app_of_onPage {action : Action} {thread : AppId} {fresh : HandlerId}
    (onPage : action.onPage = some (.app thread fresh)) : action = .app thread fresh := by
  cases action <;> simp_all [Action.onPage]

/-- Calls pass on every page. -/
theorem page_callsPass (zero : cfg.managerId = 0) (aligned : 4096 ∣ base)
    (fits : base < wordCount)
    (run : Run (machine cfg) (ReliableUncrossed cfg) trace s) : CallsPass cfg (s.view base) := by
  refine page_invariant (fun st _ => CallsPass cfg st) aligned CallsPass.initial ?_ run
  intro trace s action pageAction st run permitted _ onPage pass taken
  obtain ⟨reliable, uncrossed⟩ := permitted
  obtain ⟨locksHeld, linked⟩ := page_ordered zero aligned fits run
  have attended : Attended (s.view base) :=
    page_attended aligned (fun _ _ permitted => permitted.1) run
  refine pass.step ((reliable_onPage onPage).trans reliable) ?_ ?_ taken
  · rintro thread fresh rq rfl inside worker id ⟨node, job⟩ present atLock rfl
    obtain rfl := app_of_onPage onPage
    obtain ⟨addr, inside, samePage⟩ := App.view_eq_some inside
    have called := callsNode_of_atPageLock zero locksHeld linked attended present atLock
    simp [crossesFault, inside, worker, samePage, called] at uncrossed
  · rintro id fresh ⟨node, job⟩ dst rfl present callee worker rq pc inside
    obtain rfl := handler_of_onPage onPage
    obtain ⟨addr, insideSys, samePage⟩ := App.view_eq_some inside
    simp only [crossesFault, s.handler_of_view present, callee, worker] at uncrossed
    have served : pc.unserved s.reply? = false := by
      have insideSys : s.app ⟨dst, 0⟩ = .fault rq addr pc := insideSys
      simpa [Sys.unserved, insideSys, samePage] using uncrossed
    cases pc with
    | asking call =>
        have serves := (Addressed.of_reachable run.reachable).appAwaits insideSys rfl
        rw [samePage] at serves
        rw [FaultPc.unserved, s.view_reply? serves]
        exact served
    | locked => contradiction
    | _ => rfl

end Runs

/-- In runs in which no call crosses a fault of the node it is for, no set of
threads is deadlocked. -/
theorem no_deadlock_of_uncrossed {cfg : Config} {s : Sys} (zero : cfg.managerId = 0)
    (single : cfg.appThreads = 1) (reached : Reachable (machine cfg) (ReliableUncrossed cfg) s)
    (threads : Set Tid) : ¬Deadlocked (s.blocker cfg) threads := by
  obtain ⟨trace, run⟩ := reached
  refine not_deadlocked_of_rank s.waitRank (fun tid other waiting => ?_) threads
  refine (Addressed.of_reachable run.reachable).waitRank_decreases zero single ?_ waiting
  intro base aligned fits
  obtain ⟨locksHeld, linked⟩ := page_ordered zero aligned fits run
  exact ⟨locksHeld, linked, page_callsPass zero aligned fits run⟩

/-- Worker `1` writes to the page and has left its fault handler when worker `2`
reads the page from it. -/
theorem no_deadlock_of_uncrossed_handover :
    ∃ s, Reachable (machine threeNodes) (ReliableUncrossed threeNodes) s ∧
      (s.node 2).prot firstPage = .rd ∧
      ∀ threads, ¬Deadlocked (s.blocker threeNodes) threads := by
  obtain ⟨trace, s, run, checked⟩ := exists_run (machine threeNodes)
    (fun s action => action.reliable && !crossesFault threeNodes s action)
    (fun s _ => decide ((s.node 2).prot firstPage = .rd))
    (writeFromManager ⟨1, 0⟩ firstPage 0 ++ readFromOwner ⟨2, 0⟩ firstPage 2)
    (fun s action permitted => by simpa [ReliableUncrossed, Reliable] using permitted)
    (by decide +kernel)
  exact ⟨s, run.reachable, of_decide_eq_true checked,
    no_deadlock_of_uncrossed rfl rfl run.reachable⟩

/-- Workers `1` and `2` read the page and both write to it: the manager waits for
worker `1`, which waits for its own request, which waits for the manager. -/
theorem no_deadlock_fails : ¬∀ (cfg : Config) (s : Sys) (threads : Set Tid), cfg.managerId = 0 →
    cfg.appThreads = 1 →
    Reachable (machine cfg) (fun s action => Reliable s action ∧ WorkersOnly cfg s action) s →
    ¬Deadlocked (s.blocker cfg) threads := by
  intro always
  let waiting : List Tid := [.app ⟨1, 0⟩, .handler 2, .handler 3, .handler 5]
  obtain ⟨trace, s, run, checked⟩ := exists_run (machine threeNodes)
    (fun _ action => action.reliable && action.byWorker threeNodes)
    (fun s _ => waiting.all fun tid => (s.blocker threeNodes tid).any fun other => other ∈ waiting)
    ([.fault ⟨1, 0⟩ .rd firstPage] ++ moves 2 (.app ⟨1, 0⟩ 0) ++ moves 5 (.handler 0 1) ++
      moves 5 (.handler 1 9) ++ moves 3 (.handler 0 9) ++ moves 6 (.app ⟨1, 0⟩ 9) ++
      [.fault ⟨1, 0⟩ .wr firstPage] ++ moves 2 (.app ⟨1, 0⟩ 2) ++
      [.fault ⟨2, 0⟩ .wr firstPage] ++ moves 2 (.app ⟨2, 0⟩ 3) ++ moves 5 (.handler 3 4) ++
      moves 5 (.handler 4 9) ++ moves 2 (.handler 3 5))
    (fun s action permitted => (Bool.and_eq_true_iff.mp permitted :
      Reliable s action ∧ WorkersOnly threeNodes s action))
    (by decide +kernel)
  exact always threeNodes s _ rfl rfl run.reachable (deadlocked_of_list (by simp [waiting]) checked)

end LibIvy
