import LibIvy.Page.CallbackSteps
import LibIvy.Page.Waits

/-!
Contract: a call that has crossed a fault.

Owns: the pages on which the request in service waits for a call, the call waits for
the page lock of a worker, and the fault handler that holds it waits for a request of
its own; the steps that lead there, and that no step without a failure leads away.

Does not own: runs; see `LibIvy.Contracts.Progress`.
-/

namespace LibIvy

open Lib NumberText

/-! ### Positions -/

namespace PageState

/-- The request of the fault handler is not served before `serving` has returned. -/
def Behind (st : PageState) (serving : HandlerId) : FaultPc → Prop
  | .locked => True
  | .asking own => own = serving ∨
      ∃ (rq : Rq) (reqNode : NodeId), st.handler own = some ⟨0, rq.job reqNode⟩
  | _ => False

/-- The request `serving` waits for `call`, which waits for the page lock of `node`,
whose fault handler waits for a request behind `serving`. -/
structure Crossing (st : PageState) (node : NodeId) (serving call : HandlerId) : Prop where
  waits : ∃ job, st.handler serving = some ⟨0, job⟩ ∧ job.awaits? = some call
  atLock : ∃ job, st.handler call = some ⟨node, job⟩ ∧ job.atPageLock = true
  inside : ∃ rq pc, st.app (thread node) = some (rq, pc) ∧ st.Behind serving pc

end PageState

section Statements

variable {σ : Type} {self : NodeId} {tid : Tid} {fresh : HandlerId} {stmt : Stmt σ} {next : σ}
variable {st after : PageState}

/-- A thread that waits does not move. -/
theorem Stmt.execOnPage_unblocked (ran : stmt.execOnPage self tid fresh st = some (next, after)) :
    stmt.blocker (fun table _ => (st.node self).lock table) st.reply? = none := by
  rcases execOnPage_cases ran with ⟨nd, onNode, -⟩ | ⟨_, _, _, _, _, _, rfl, -, -, -, -⟩ |
    ⟨_, id, _, _, reply, rfl, replied, -, -⟩
  · cases stmt with
    | waitLock table key target =>
        simp only [runOnPage] at onNode
        split at onNode
        · assumption
        · contradiction
    | await => contradiction
    | _ => rfl
  · rfl
  · simp [blocker, replied]

theorem Stmt.blocker_of_awaits {lock : LockTable → Addr → Option Tid}
    {reply? : HandlerId → Option Reply} {id : HandlerId} (waits : stmt.awaits? = some id)
    (running : reply? id = none) : stmt.blocker lock reply? = some (.handler id) := by
  cases stmt with
  | await rpc call target failed =>
      obtain rfl : call = id := Option.some.inj waits
      simp [blocker, running]
  | _ => contradiction

end Statements

section Rows

variable {cfg : Config} {base : Addr} {lock : LockTable → Addr → Option Tid}
variable {reply? : HandlerId → Option Reply}

theorem Job.running_of_atPageLock {job : Job} (atLock : job.atPageLock = true) :
    job.reply? = none := by
  cases job with
  | servRd reqNode pc => contradiction
  | servWr reqNode pc => contradiction
  | fetch accessType pc => cases pc <;> first | rfl | contradiction
  | invalidate pc => cases pc <;> first | rfl | contradiction

theorem Job.running_of_awaits {job : Job} {call : HandlerId} (waits : job.awaits? = some call) :
    job.reply? = none := by
  cases job with
  | servRd reqNode pc => cases pc <;> first | rfl | contradiction
  | servWr reqNode pc => cases pc <;> first | rfl | contradiction
  | fetch accessType pc => contradiction
  | invalidate pc => contradiction

/-- A call at its entry waits for the page lock of a worker. -/
theorem job_blocker_atPageLock {node : NodeId} {job : Job} (worker : cfg.isManager node = false)
    (atLock : job.atPageLock = true) :
    (job.stmt cfg node base).blocker lock reply? = lock .pageLocks base := by
  cases job with
  | servRd reqNode pc => contradiction
  | servWr reqNode pc => contradiction
  | fetch accessType pc =>
      cases pc <;> first | contradiction | simp [Job.stmt, fetchPg, worker, Stmt.map, Stmt.blocker]
  | invalidate pc =>
      cases pc <;> first | contradiction |
        simp [Job.stmt, invalidateAdapter, worker, Stmt.map, Stmt.blocker]

/-- A request at its entry waits for the page lock of the manager. -/
theorem job_blocker_entry {self reqNode : NodeId} (rq : Rq) :
    ((rq.job reqNode).stmt cfg self base).blocker lock reply? = lock .pageLocks (pgAlign base) := by
  cases rq <;> rfl

/-- Requests that hold no lock and have not returned have not started. -/
theorem Job.eq_entry {job : Job} {rq : Rq} {reqNode : NodeId} (kind : job.kind = rq.kind reqNode)
    (running : job.reply? = none) (free : job.held true .pageLocks = false) :
    job = rq.job reqNode := by
  cases rq <;> cases job <;> simp only [Job.kind, Rq.kind, JobKind.servRd.injEq,
    JobKind.servWr.injEq, reduceCtorEq] at kind
  all_goals
    rename_i pc
    subst kind
    cases pc <;> first | rfl | contradiction

/-- A called function starts in front of the page lock of its node. -/
theorem RpcName.accept_atPageLock {fn : RpcName} {body : Text} {addr : Addr} {job : Job}
    (accepted : fn.accept body = some (addr, job)) (callback : job.waitRank ≤ 2) :
    job.atPageLock = true := by
  cases fn <;> simp only [accept, Option.map_eq_some_iff, Prod.mk.injEq] at accepted <;>
    obtain ⟨_, _, _, rfl⟩ := accepted <;> first | rfl | simp [Job.waitRank] at callback

variable (base) in
/-- A worker that holds its page lock sends its request to the manager. -/
theorem faultHdlr_sends {node : NodeId} (rq : Rq) (worker : cfg.isManager node = false) :
    ∃ fn body, faultHdlr cfg rq node base .locked = .call 0 fn body .asking ∧
      ∀ {addr job}, RpcName.accept fn body = some (addr, job) → ∃ reqNode, job = rq.job reqNode := by
  cases rq with
  | rd =>
      refine ⟨.getRdPageFromManager, pageRequest (pgAlign base) node,
        by simp [faultHdlr, rdFaultHdlr, worker], ?_⟩
      intro addr job accepted
      obtain ⟨request, -, same⟩ := Option.map_eq_some_iff.mp accepted
      exact ⟨request.2, (Prod.mk.inj same).2.symm⟩
  | wr =>
      refine ⟨.getWrPageFromManager, pageRequest (pgAlign base) node,
        by simp [faultHdlr, wrFaultHdlr, worker], ?_⟩
      intro addr job accepted
      obtain ⟨request, -, same⟩ := Option.map_eq_some_iff.mp accepted
      exact ⟨request.2, (Prod.mk.inj same).2.symm⟩

end Rows

/-! ### Every step -/

section Steps

variable {cfg : Config} {base : Addr} {st after : PageState} {node : NodeId}
variable {serving call : HandlerId}

namespace PageState

theorem app_unblocked {mover : AppId} {fresh : HandlerId}
    (taken : st.step cfg base (.app mover fresh) = some after) :
    st.blocker cfg base (.app mover) = none := by
  obtain ⟨rq, pc, next, between, inside, ran, -⟩ := step_app taken
  simp only [blocker, inside]
  exact Stmt.execOnPage_unblocked ran

theorem handler_unblocked {id fresh : HandlerId}
    (taken : st.step cfg base (.handler id fresh) = some after) :
    st.blocker cfg base (.handler id) = none := by
  obtain ⟨handler, next, between, present, ran, -⟩ := step_handler taken
  simp only [blocker, present]
  exact Stmt.execOnPage_unblocked ran

namespace Crossing

/-- The manager's page lock is held by the request in service. -/
theorem manager_locked (zero : cfg.managerId = 0) (locksHeld : LocksHeld cfg st)
    (crossing : st.Crossing node serving call) :
    (st.node 0).pageLock = some (.handler serving) := by
  obtain ⟨job, present, waits⟩ := crossing.waits
  have manager : cfg.isManager 0 = true := by simp [zero]
  refine (locksHeld 0 .pageLocks (.handler serving)).mpr ⟨_, present, rfl, ?_⟩
  rw [manager]
  exact (Job.held_of_awaits waits).1

/-- The page lock of the worker is held by its fault handler. -/
theorem worker_locked (worker : cfg.isManager node = false) (locksHeld : LocksHeld cfg st)
    (crossing : st.Crossing node serving call) :
    (st.node node).pageLock = some (.app (thread node)) := by
  obtain ⟨rq, pc, inside, behind⟩ := crossing.inside
  refine (locksHeld node .pageLocks (.app (thread node))).mpr ⟨rfl, rq, pc, inside, ?_⟩
  rw [worker]
  cases pc <;> first | rfl | contradiction

variable (base) in
/-- The request in service and its call wait. -/
theorem blocked (worker : cfg.isManager node = false) (locksHeld : LocksHeld cfg st)
    (crossing : st.Crossing node serving call) :
    st.blocker cfg base (.handler serving) = some (.handler call) ∧
      st.blocker cfg base (.handler call) = some (.app (thread node)) := by
  have lock := crossing.worker_locked worker locksHeld
  obtain ⟨job, present, waits⟩ := crossing.waits
  obtain ⟨callJob, found, atLock⟩ := crossing.atLock
  constructor
  · simp only [blocker, present]
    apply Stmt.blocker_of_awaits ((job_awaits? ..).trans waits)
    simp [reply?, found, Job.running_of_atPageLock atLock]
  · simp only [blocker, found]
    exact (job_blocker_atPageLock worker atLock).trans lock

variable (base) in
/-- So does the request of the worker. -/
theorem own_blocked (zero : cfg.managerId = 0) (locksHeld : LocksHeld cfg st)
    (crossing : st.Crossing node serving call) {own reqNode : NodeId} {rq : Rq}
    (present : st.handler own = some ⟨0, rq.job reqNode⟩) :
    st.blocker cfg base (.handler own) = some (.handler serving) := by
  simp only [blocker, present]
  exact (job_blocker_entry rq).trans (crossing.manager_locked zero locksHeld)

variable (base) in
/-- Where the instances stay, the crossing does. -/
theorem kept (crossing : st.Crossing node serving call)
    (app : after.app (thread node) = st.app (thread node))
    (handlers : ∀ {id handler}, st.handler id = some handler →
      st.blocker cfg base (.handler id) ≠ none → after.handler id = some handler)
    (zero : cfg.managerId = 0) (worker : cfg.isManager node = false)
    (locksHeld : LocksHeld cfg st) : after.Crossing node serving call := by
  obtain ⟨servingBlocked, callBlocked⟩ := crossing.blocked base worker locksHeld
  have own : ∀ {own reqNode : NodeId} {rq : Rq}, st.handler own = some ⟨0, rq.job reqNode⟩ →
      st.blocker cfg base (.handler own) = some (.handler serving) :=
    crossing.own_blocked base zero locksHeld
  obtain ⟨⟨job, present, waits⟩, ⟨callJob, found, atLock⟩, rq, pc, inside, behind⟩ := crossing
  refine ⟨⟨job, handlers present (by simp [servingBlocked]), waits⟩,
    ⟨callJob, handlers found (by simp [callBlocked]), atLock⟩, rq, pc, app ▸ inside, ?_⟩
  cases pc with
  | asking request =>
      rcases behind with same | ⟨rq, reqNode, waiting⟩
      · exact .inl same
      · exact .inr ⟨rq, reqNode, handlers waiting (by simp [own waiting])⟩
  | locked => trivial
  | _ => exact behind

/-- The worker moves up to the point where it waits for its request. -/
theorem app_step (crossing : st.Crossing node serving call) {fresh : HandlerId}
    (worker : cfg.isManager node = false)
    (taken : st.step cfg base (.app (thread node) fresh) = some after) :
    after.Crossing node serving call := by
  have unblocked := app_unblocked taken
  obtain ⟨⟨job, present, waits⟩, ⟨callJob, found, atLock⟩, rq, pc, inside, behind⟩ := crossing
  obtain ⟨_, _, next, between, insideToo, ran, rfl⟩ := step_app taken
  obtain ⟨rfl, rfl⟩ : rq = _ ∧ pc = _ := by simpa [inside] using insideToo
  cases pc with
  | locked =>
      obtain ⟨fn, body, row, entry⟩ := faultHdlr_sends base rq worker
      change (faultHdlr cfg rq node base .locked).execOnPage _ _ _ _ = _ at ran
      have kept : ∀ {id handler}, st.handler id = some handler →
          between.handler id = some handler := Stmt.execOnPage_keeps ran
      rw [row] at ran
      rcases Stmt.execOnPage_cases ran with ⟨nd, onNode, -⟩ |
        ⟨_, _, _, _, addr, own, same, -, accepted, rfl, rfl⟩ | ⟨_, _, _, _, _, same, -⟩
      · contradiction
      · obtain ⟨rfl, rfl, rfl, rfl⟩ := same
        obtain ⟨reqNode, rfl⟩ := entry accepted
        refine ⟨⟨job, kept present, waits⟩, ⟨callJob, kept found, atLock⟩, rq, .asking fresh, ?_,
          .inr ⟨rq, reqNode, by simp [setApp]⟩⟩
        simp [setApp, resumeOnPage]
      · contradiction
  | asking own =>
      have running : st.reply? own = none := by
        rcases behind with rfl | ⟨rq, reqNode, waiting⟩
        · simp [reply?, present, Job.running_of_awaits waits]
        · cases rq <;> simp [reply?, waiting, Rq.job, Job.reply?]
      simp [blocker, inside, faultHdlr_blocker, running] at unblocked
  | _ => exact behind.elim

/-- No step without a failure ends it. -/
theorem step (crossing : st.Crossing node serving call) {action : PageAction}
    (zero : cfg.managerId = 0) (worker : cfg.isManager node = false)
    (locksHeld : LocksHeld cfg st) (reliable : action.reliable = true)
    (taken : st.step cfg base action = some after) : after.Crossing node serving call := by
  obtain ⟨rq, pc, inside, -⟩ := crossing.inside
  cases action with
  | store mover offset values =>
      obtain ⟨-, -, -, rfl⟩ := step_store taken
      exact crossing.kept base rfl (fun present _ => present) zero worker locksHeld
  | fault mover rq =>
      obtain ⟨-, outside, -, rfl⟩ := step_fault taken
      have different : thread node ≠ mover := by
        intro same
        simp [← same, inside] at outside
      refine crossing.kept base ?_ (fun present _ => present) zero worker locksHeld
      simp [setApp, different]
  | app mover fresh =>
      by_cases same : mover = thread node
      · subst same
        exact crossing.app_step worker taken
      · obtain ⟨_, _, next, between, -, ran, rfl⟩ := step_app taken
        have kept : ∀ {id handler}, st.handler id = some handler →
            between.handler id = some handler := Stmt.execOnPage_keeps ran
        refine crossing.kept base ?_ (fun present _ => kept present) zero worker locksHeld
        simp [setApp, Ne.symm same, Stmt.execOnPage_app ran]
  | handler id fresh =>
      have unblocked := handler_unblocked taken
      obtain ⟨_, next, between, -, ran, rfl⟩ := step_handler taken
      refine crossing.kept base ?_ ?_ zero worker locksHeld
      · exact congrFun (Stmt.execOnPage_app ran) _
      · intro other handler present blocked
        have different : other ≠ id := fun same => blocked (same ▸ unblocked)
        rw [setHandler_other _ _ different]
        exact Stmt.execOnPage_keeps ran present
  | failApp mover => contradiction
  | failHandler id => contradiction

/-- The request in service calls a worker whose request is not granted. -/
theorem of_call {id fresh dst : HandlerId} {handler : PageHandler} {rq : Rq} {pc : FaultPc}
    (zero : cfg.managerId = 0) (linked : Linked cfg st) (locksAfter : LocksHeld cfg after)
    (linkedAfter : Linked cfg after) (present : st.handler id = some handler)
    (calls : ∃ fn body target, handler.job.stmt cfg handler.node base = .call dst fn body target)
    (inside : st.app (thread dst) = some (rq, pc)) (unserved : pc.unserved st.reply? = true)
    (taken : st.step cfg base (.handler id fresh) = some after) :
    after.Crossing dst id fresh := by
  obtain ⟨fn, body, target, row⟩ := calls
  obtain ⟨mover, next, between, found, ran, rfl⟩ := step_handler taken
  obtain rfl : handler = mover := by simpa [present] using found
  have own := job_awaitsOwnCall cfg handler.node base handler.job
  rw [row] at ran own
  rcases Stmt.execOnPage_cases ran with ⟨nd, onNode, -⟩ |
    ⟨_, _, _, _, addr, job, same, unused, accepted, rfl, rfl⟩ | ⟨_, _, _, _, _, same, -⟩
  · contradiction
  · obtain ⟨rfl, rfl, rfl, rfl⟩ := same
    have waits : (target fresh).awaits? = some fresh := own fresh
    have other : fresh ≠ id := by
      intro same
      simp [same, present] at unused
    let moved : PageState := (st.setHandler fresh ⟨dst, job⟩).setHandler id
      { handler with job := target fresh }
    have caller : moved.handler id = some ⟨handler.node, target fresh⟩ := setHandler_self ..
    have callee : moved.handler fresh = some ⟨dst, job⟩ := by
      rw [setHandler_other _ _ other]
      exact setHandler_self ..
    obtain ⟨held, serves⟩ := Job.held_of_awaits waits
    have atManager : (⟨handler.node, target fresh⟩ : PageHandler).node = 0 :=
      linkedAfter.atManager caller serves
    obtain ⟨_, calleeToo, called⟩ := linkedAfter.handlerCall caller waits
    obtain rfl := Option.some.inj (callee.symm.trans calleeToo)
    refine ⟨⟨_, atManager ▸ caller, waits⟩, ⟨job, callee, RpcName.accept_atPageLock accepted
      (Job.waitRank_of_callee called)⟩, rq, pc, inside, ?_⟩
    cases pc with
    | locked => trivial
    | asking request =>
        by_cases same : request = id
        · exact .inl same
        · obtain ⟨⟨requestNode, requestJob⟩, waiting, atZero, kind⟩ := linked.appCall inside rfl
          obtain rfl : requestNode = 0 := atZero
          have different : request ≠ fresh := by
            intro same
            simp [same, unused] at waiting
          have stays : moved.handler request = some ⟨0, requestJob⟩ := by
            rw [setHandler_other _ _ same, setHandler_other _ _ different]
            exact waiting
          have running : requestJob.reply? = none := by
            simpa [FaultPc.unserved, reply?, waiting] using unserved
          -- the manager's page lock belongs to the request in service
          have free : requestJob.held true .pageLocks = false := by
            have manager : cfg.isManager 0 = true := by simp [zero]
            by_contra holds
            rw [Bool.not_eq_false] at holds
            have ours : moved.Holds cfg 0 .pageLocks (.handler id) :=
              ⟨_, caller, atManager, by rw [manager]; exact held⟩
            have theirs : moved.Holds cfg 0 .pageLocks (.handler request) :=
              ⟨_, stays, rfl, by rwa [manager]⟩
            exact same (Tid.handler.inj (locksAfter.unique theirs ours))
          obtain rfl := Job.eq_entry kind running free
          exact .inr ⟨rq, dst, stays⟩
    | _ => contradiction
  · contradiction

/-- A worker that is being called takes its page lock. -/
theorem of_lock {fresh : HandlerId} {rq : Rq} (worker : cfg.isManager node = false)
    (waits : ∃ job, st.handler serving = some ⟨0, job⟩ ∧ job.awaits? = some call)
    (atLock : ∃ job, st.handler call = some ⟨node, job⟩ ∧ job.atPageLock = true)
    (inside : st.app (thread node) = some (rq, .entry))
    (taken : st.step cfg base (.app (thread node) fresh) = some after) :
    after.Crossing node serving call := by
  obtain ⟨_, _, next, between, insideToo, ran, rfl⟩ := step_app taken
  obtain ⟨rfl, rfl⟩ : rq = _ ∧ FaultPc.entry = _ := by simpa [inside] using insideToo
  have row : faultHdlr cfg rq (thread node).node base .entry =
      .waitLock .pageLocks (pgAlign base) .locked := by
    cases rq <;> simp [faultHdlr, rdFaultHdlr, wrFaultHdlr, worker, thread]
  rw [row] at ran
  obtain ⟨-, rfl, rfl⟩ := Stmt.execOnPage_waitLock ran
  exact ⟨waits, atLock, rq, .locked, by simp [setApp, resumeOnPage], trivial⟩

end Crossing

end PageState

end Steps

end LibIvy
