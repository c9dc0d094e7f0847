import LibIvy.Page.OwnerStranded

/-!
Contract: the manager does not call the node it serves.

Owns: the property, that the effects of failed calls it depends on are those that leave
a recorded owner unsettled, and a run with a failed fetch in which a read request calls
its own requester.

Does not own: who waits for whom; see `LibIvy.Contracts.Deadlock`.

`serv_wr_rq` keeps a requester that owns the page out of the fetch and takes it
out of the list of nodes to invalidate. `serv_rd_rq` does neither: it fetches
from whatever owner the directory records, and relies on an owner having the page.
-/

namespace LibIvy

open Lib NumberText TransitionSystem

/-- The node a request is served for. -/
def Job.reqNode? : Job → Option NodeId
  | .servRd reqNode _ => some reqNode
  | .servWr reqNode _ => some reqNode
  | _ => none

/-- The node that a statement calls. -/
def Stmt.callee? {σ : Type} : Stmt σ → Option NodeId
  | .call dst _ _ _ => some dst
  | _ => none

@[simp] theorem Stmt.callee?_ite {σ : Type} (condition : Prop) [Decidable condition]
    (first second : Stmt σ) :
    (if condition then first else second).callee? =
      if condition then first.callee? else second.callee? := by
  split <;> rfl

@[simp] theorem Stmt.callee?_map {σ τ : Type} (wrap : σ → τ) (stmt : Stmt σ) :
    (stmt.map wrap).callee? = stmt.callee? := by
  cases stmt <;> rfl

/-- The next statement of the instance is a call to the worker it serves. -/
def Handler.callsRequester (cfg : Config) (handler : Handler) : Bool :=
  match handler.job.reqNode?, (handler.job.stmt cfg handler.node handler.addr).callee? with
  | some reqNode, some dst => dst == reqNode && !cfg.isManager reqNode
  | _, _ => false

/-- No instance is about to call the worker it serves. -/
def Sys.NoCallback (cfg : Config) (s : Sys) : Prop :=
  ∀ id handler, s.handler id = some handler → handler.callsRequester cfg = false

/-- What keeps a position from calling its requester. -/
def Job.Spares (cfg : Config) (self : NodeId) : Job → Prop
  | .servRd _ .infoLocked => cfg.isManager self = true
  | .servRd _ .inserted => cfg.isManager self = true
  | .servRd reqNode (.gotOwner ownerNode) =>
      cfg.isManager self = true ∧ (ownerNode = reqNode → cfg.isManager reqNode = true)
  | .servWr _ (.gotOwner _) => cfg.isManager self = true
  | .servWr _ (.infoLocked _) => cfg.isManager self = true
  | .servWr reqNode (.erased _ ivldSet) => cfg.isManager self = true ∧ reqNode ∉ ivldSet
  | .servWr reqNode (.fetching _ ivldSet _) => reqNode ∉ ivldSet
  | .servWr reqNode (.invalidating _ _ nodes) => reqNode ∉ nodes
  | .servWr reqNode (.invalidateSent _ _ nodes _) => reqNode ∉ nodes
  | _ => True

section Positions

variable {cfg : Config} {self : NodeId} {base : Addr} {job : Job}

/-- The nodes that a position calls are the manager itself and nodes that it is
not serving. -/
theorem Job.Spares.callee (spares : job.Spares cfg self) {reqNode dst : NodeId}
    (serves : job.reqNode? = some reqNode) (calls : (job.stmt cfg self base).callee? = some dst) :
    dst = reqNode → cfg.isManager reqNode = true := by
  cases job with
  | servRd reqNode pc =>
      obtain rfl := Option.some.inj serves
      cases pc <;> simp only [Job.stmt, Stmt.callee?_map, servRdRq, Stmt.callee?_ite] at calls <;>
        simp [Stmt.callee?] at calls
      case gotOwner ownerNode =>
        obtain ⟨manager, other⟩ := spares
        split at calls
        · obtain rfl := Option.some.inj calls
          intro same
          subst same
          exact manager
        · obtain rfl := Option.some.inj calls
          exact other
  | servWr reqNode pc =>
      obtain rfl := Option.some.inj serves
      cases pc
      case erased ownerNode ivldSet =>
        obtain ⟨manager, -⟩ := spares
        simp only [Job.stmt, Stmt.callee?_map, servWrRq, Stmt.callee?_ite] at calls
        split at calls
        · obtain rfl := Option.some.inj calls
          intro same
          subst same
          exact manager
        · split at calls
          · contradiction
          · rename_i different
            obtain rfl := Option.some.inj calls
            exact fun same => absurd same different
      case invalidating ownerNode pageContents nodes =>
        cases nodes with
        | nil => contradiction
        | cons node nodes =>
            obtain rfl := Option.some.inj calls
            intro same
            subst same
            exact absurd List.mem_cons_self spares
      all_goals
        simp only [Job.stmt, Stmt.callee?_map, servWrRq, Stmt.callee?_ite] at calls
        simp [Stmt.callee?] at calls
  | fetch accessType pc => contradiction
  | invalidate pc => contradiction

/-- Every statement but the look-up of a read request keeps it so. -/
theorem Job.Spares.ensures (spares : job.Spares cfg self)
    (notLookUp : ∀ reqNode, job ≠ .servRd reqNode .inserted) :
    (job.stmt cfg self base).Ensures (fun next => next.Spares cfg self)
      (fun _ next => next.Spares cfg self) (fun _ => True) := by
  cases job with
  | servRd reqNode pc =>
      rw [Job.stmt, Stmt.ensures_map]
      cases pc <;> simp only [servRdRq, Stmt.ensures_ite] <;>
        simp_all [Stmt.Ensures, Job.Spares]
  | servWr reqNode pc =>
      rw [Job.stmt, Stmt.ensures_map]
      cases pc
      case invalidating ownerNode pageContents nodes =>
        cases nodes <;> simp_all [servWrRq, Stmt.Ensures, Job.Spares]
      case invalidateSent ownerNode pageContents nodes call =>
        refine ⟨fun reply _ => ?_, trivial⟩
        dsimp only
        split
        · exact spares
        · trivial
      all_goals
        simp only [servWrRq, Stmt.ensures_ite]
        simp_all [Stmt.Ensures, Job.Spares, NodeSet.erase]
  | fetch accessType pc =>
      rw [Job.stmt, Stmt.ensures_map]
      cases pc <;> simp only [fetchPg, Stmt.ensures_ite] <;> simp [Stmt.Ensures, Job.Spares]
  | invalidate pc =>
      rw [Job.stmt, Stmt.ensures_map]
      cases pc <;> simp only [invalidateAdapter, Stmt.ensures_ite] <;>
        simp [Stmt.Ensures, Job.Spares]

end Positions

theorem RpcName.accept_spares {cfg : Config} {self : NodeId} {fn : RpcName} {body : Text}
    {addr : Addr} {job : Job} (accepted : fn.accept body = some (addr, job)) :
    job.Spares cfg self := by
  cases fn <;> simp only [RpcName.accept, Option.map_eq_some_iff, Prod.mk.injEq] at accepted <;>
    obtain ⟨_, _, _, rfl⟩ := accepted <;> trivial

/-- Every instance of the page keeps from calling its requester. -/
def PageState.Spares (cfg : Config) (st : PageState) : Prop :=
  ∀ id handler, st.handler id = some handler → handler.job.Spares cfg handler.node

section Steps

variable {cfg : Config} {base : Nat} {st after : PageState}

/-- A statement of any thread starts instances that spare their requester. -/
theorem PageState.Spares.exec {σ : Type} {self : NodeId} {tid : Tid} {fresh : HandlerId}
    {stmt : Stmt σ} {next : σ} (spares : st.Spares cfg)
    (ran : stmt.execOnPage self tid fresh st = some (next, after)) : after.Spares cfg := by
  intro id handler present
  rcases Stmt.execOnPage_handler ran present with old | ⟨_, _, _, _, _, _, _, accepted⟩
  · exact spares id handler old
  · exact RpcName.accept_spares accepted

theorem PageState.Spares.setHandler (spares : st.Spares cfg) {id : HandlerId}
    {handler : PageHandler} (moved : handler.job.Spares cfg handler.node) :
    (st.setHandler id handler).Spares cfg := by
  intro other found present
  by_cases same : other = id
  · subst same
    obtain rfl : handler = found := by simpa using present
    exact moved
  · exact spares other found (by rwa [PageState.setHandler_other _ _ same] at present)

/-- Every step keeps it so, when no look-up of a read request finds its
requester. -/
theorem PageState.Spares.step {action : PageAction} (spares : st.Spares cfg)
    (lookUps : ∀ {id fresh self reqNode}, action = .handler id fresh →
      st.handler id = some ⟨self, .servRd reqNode .inserted⟩ →
      (st.node self).info.owner = reqNode → cfg.isManager reqNode = true)
    (taken : st.step cfg base action = some after) : after.Spares cfg := by
  cases action with
  | store thread offset values =>
      obtain ⟨-, -, -, rfl⟩ := PageState.step_store taken
      exact spares
  | fault thread rq =>
      obtain ⟨-, -, -, rfl⟩ := PageState.step_fault taken
      exact spares
  | app thread fresh =>
      obtain ⟨rq, pc, next, between, -, ran, rfl⟩ := PageState.step_app taken
      have kept := spares.exec ran
      exact kept
  | handler id fresh =>
      obtain ⟨⟨self, job⟩, next, between, present, ran, rfl⟩ := PageState.step_handler taken
      refine (spares.exec ran).setHandler ?_
      have now : job.Spares cfg self := spares id _ present
      by_cases lookUp : ∃ reqNode, job = .servRd reqNode .inserted
      · obtain ⟨reqNode, rfl⟩ := lookUp
        obtain ⟨rfl, rfl⟩ := ran
        exact ⟨now, lookUps rfl present⟩
      · have ensures : (job.stmt cfg self base).Ensures (fun next => next.Spares cfg self)
            (fun _ next => next.Spares cfg self) fun _ => True :=
          now.ensures fun reqNode same => lookUp ⟨reqNode, same⟩
        rcases Stmt.execOnPage_ensures ensures (fun _ _ _ _ => trivial) ran with spared |
          ⟨_, _, _, _, _, _, _, _, spared, _⟩ <;> exact spared
  | failApp thread =>
      obtain ⟨rq, pc, next, -, -, rfl⟩ := PageState.step_failApp taken
      exact spares
  | failHandler id =>
      obtain ⟨⟨self, job⟩, next, present, failed, rfl⟩ := PageState.step_failHandler taken
      refine spares.setHandler ?_
      have now : job.Spares cfg self := spares id _ present
      refine Stmt.fail_ensures (Job.Spares.ensures now ?_) failed
      intro reqNode same
      subst same
      contradiction

end Steps

/-! ### Every run -/

/-- Failures, faults and interleavings are free, except that no effect of a failed
call strands the recorded owner of its page. -/
def StrandsNoOwner (s : Sys) (action : Action) : Prop :=
  ∀ pageAction, action.onPage = some pageAction → ¬(s.view (s.pageOf action)).Strands pageAction

/-- Without failures nothing is stranded. -/
theorem unstranded_of_reliable {cfg : Config} {trace : List Event} {s : Sys}
    (run : Run (machine cfg) Reliable trace s) : Run (machine cfg) StrandsNoOwner trace s := by
  refine run.refine ?_
  intro trace events s after action run reliable taken pageAction onPage
  have aligned := ((Addressed.of_reachable run.reachable).pageOf_aligned taken).1
  have attended : Attended (s.view (s.pageOf action)) :=
    page_attended aligned (fun _ _ permitted => permitted) run
  exact PageState.not_strands_of_attended attended ((reliable_onPage onPage).trans reliable)

/-- As long as nothing was stranded, a step strands nothing exactly when it leaves the
recorded owner of its page settled. -/
theorem strandsNoOwner_iff {cfg : Config} {trace events : List Event} {s after : Sys}
    {action : Action} (zero : cfg.managerId = 0) (single : cfg.appThreads = 1)
    (run : Run (machine cfg) StrandsNoOwner trace s)
    (taken : s.step cfg action = some (after, events)) :
    StrandsNoOwner s action ↔ (after.view (s.pageOf action)).OwnerSettled := by
  have addressed := Addressed.of_reachable run.reachable
  obtain ⟨aligned, fits⟩ := addressed.pageOf_aligned taken
  have settled := page_ownerSettled zero single aligned fits
    (fun permitted onPage => permitted _ onPage) run
  cases onPage : action.onPage with
  | none =>
      obtain ⟨thread, addr, count, rfl⟩ := Action.eq_load onPage
      obtain ⟨-, -, -, -, rfl, -⟩ := Sys.step_load taken
      exact iff_of_true (fun _ same => by simp [onPage] at same) settled
  | some pageAction =>
      obtain ⟨locksHeld, linked⟩ := page_ordered zero aligned fits run
      have exactly := PageState.ownerSettled_step_iff zero locksHeld linked single fits
        (page_ownerRead zero aligned fits run) (page_mapped zero aligned fits run) settled
        (addressed.view_step onPage taken)
      simp only [StrandsNoOwner, onPage, Option.some.injEq, forall_eq', exactly]

/-- A read request of a worker that looks up the owner finds another node. -/
theorem page_lookUp {cfg : Config} {base : Nat} {trace : List Event} {s : Sys} {id : HandlerId}
    {self reqNode : NodeId} (single : cfg.appThreads = 1) (aligned : 4096 ∣ base)
    (fits : base < wordCount) (run : Run (machine cfg) StrandsNoOwner trace s)
    (present : (s.view base).handler id = some ⟨self, .servRd reqNode .inserted⟩)
    (manager : cfg.isManager self = true)
    (owned : ((s.view base).node self).info.owner = reqNode) : cfg.isManager reqNode = true := by
  by_contra worker
  have worker : cfg.isManager reqNode = false := Bool.eq_false_iff.mpr worker
  obtain rfl : self = 0 := page_servedAtZero aligned fits run id self reqNode _ present worker
  have zero : cfg.managerId = 0 := (Config.isManager_eq_true.mp manager).symm
  obtain ⟨locksHeld, linked⟩ := page_ordered zero aligned fits run
  have settled := page_ownerSettled zero single aligned fits
    (fun permitted onPage => permitted _ onPage) run
  obtain rfl := settled.lookUp zero locksHeld linked present owned
  simp [zero] at worker

theorem page_spares {cfg : Config} {base : Nat} {trace : List Event} {s : Sys}
    (single : cfg.appThreads = 1) (aligned : 4096 ∣ base) (fits : base < wordCount)
    (run : Run (machine cfg) StrandsNoOwner trace s) : (s.view base).Spares cfg := by
  refine page_invariant (fun st _ => st.Spares cfg) aligned ?_ ?_ run
  · intro id handler present
    simp [PageState.initial] at present
  · intro trace s action pageAction st run _ _ _ spares taken
    refine spares.step ?_ taken
    intro id fresh self reqNode rfl present owned
    exact page_lookUp single aligned fits run present (spares id _ present) owned

/-- Whatever calls fail, before or after their effect, and whatever the order of
steps: no instance is about to call the worker it serves, in any state of a run in
which no failed call strands the recorded owner of a page. -/
theorem no_callback_of_unstranded {cfg : Config} {s : Sys} (single : cfg.appThreads = 1)
    (reached : Reachable (machine cfg) StrandsNoOwner s) : s.NoCallback cfg := by
  intro id handler present
  obtain ⟨trace, run⟩ := reached
  obtain ⟨aligned, fits⟩ := (Addressed.of_reachable run.reachable).handler present
  have spares := page_spares single aligned fits run id _ (s.view_handler present rfl)
  cases callee : (handler.job.stmt cfg handler.node handler.addr).callee? with
  | none => simp [Handler.callsRequester, callee]
  | some dst =>
      cases serves : handler.job.reqNode? with
      | none => simp [Handler.callsRequester, serves]
      | some reqNode =>
          have spared := Job.Spares.callee spares serves callee
          simp only [Handler.callsRequester, serves, callee]
          cases manager : cfg.isManager reqNode <;> simp_all

/-- Worker `1` owns the page and worker `2` reads it: the manager is about to call
worker `1`. -/
theorem no_callback_while_reading :
    ∃ s, Reachable (machine threeNodes) StrandsNoOwner s ∧
      (s.handler 2).any (fun handler =>
        (handler.job.stmt threeNodes handler.node handler.addr).callee? == some 1) = true ∧
      s.NoCallback threeNodes := by
  obtain ⟨trace, s, run, checked⟩ := exists_run (machine threeNodes)
    (fun _ action => action.reliable)
    (fun s _ => (s.handler 2).any fun handler =>
      (handler.job.stmt threeNodes handler.node handler.addr).callee? == some 1)
    (writeFromManager ⟨1, 0⟩ firstPage 0 ++ [.fault ⟨2, 0⟩ .rd firstPage] ++
      moves 2 (.app ⟨2, 0⟩ 2) ++ moves 4 (.handler 2 3))
    (fun s action permitted => (permitted : Reliable s action))
    (by decide +kernel)
  have unstranded := (unstranded_of_reliable run).reachable
  exact ⟨s, unstranded, checked, no_callback_of_unstranded rfl unstranded⟩

/-- Worker `1` owns the page. The fetch for a write of worker `2` takes the page
away from it, but the call fails and the manager backs off. When worker `1` then
reads, the manager is about to fetch the page from worker `1`. -/
theorem no_callback_fails : ¬∀ (cfg : Config) (s : Sys), cfg.appThreads = 1 →
    Reachable (machine cfg) (WorkersOnly cfg) s → s.NoCallback cfg := by
  intro always
  obtain ⟨trace, s, run, checked⟩ := exists_run (machine threeNodes)
    (fun _ action => action.byWorker threeNodes)
    (fun s _ => (s.handler 4).any (Handler.callsRequester threeNodes))
    (writeFromManager ⟨1, 0⟩ firstPage 0 ++
      [.fault ⟨2, 0⟩ .wr firstPage] ++ moves 2 (.app ⟨2, 0⟩ 2) ++ moves 5 (.handler 2 3) ++
      moves 5 (.handler 3 0) ++ [.failHandler 2] ++ moves 2 (.handler 2 0) ++
      [.fault ⟨1, 0⟩ .rd firstPage] ++ moves 2 (.app ⟨1, 0⟩ 4) ++ moves 4 (.handler 4 0))
    (fun s action permitted => (permitted : WorkersOnly threeNodes s action))
    (by decide +kernel)
  cases present : s.handler 4 with
  | none => simp [present] at checked
  | some handler =>
      have spared := always threeNodes s rfl run.reachable 4 handler present
      simp [present, spared] at checked

end LibIvy
