import LibIvy.Page.Rows

/-!
Contract: what one page sees of the system, and what one statement does to that
view.

Owns: the view of a page, the statements that stay on a page, and the effect of
a statement on the view of its own page and of the others.

Does not own: which threads work on which page; see `LibIvy.Page.Projection`.
-/

namespace LibIvy

open Lib NumberText AtomicMemory

/-! ### The view of a page -/

/-- The part of a node that belongs to the page at `base`. -/
def Node.view (nd : Node) (base : Addr) : NodePage where
  pageLock := nd.pageLocks base
  infoLock := nd.infoLocks base
  info := nd.info base
  prot := nd.prot base
  bytes := nd.pageAt base

/-- The part of an application thread that belongs to the page at `base`. -/
def App.view (app : App) (base : Addr) : Option (Rq × FaultPc) :=
  match app with
  | .run => none
  | .fault rq addr pc => if pgAlign addr = base then some (rq, pc) else none

/-- A handler instance, when it was given the address `base`. -/
def Handler.view (handler : Handler) (base : Addr) : Option PageHandler :=
  if handler.addr = base then some ⟨handler.node, handler.job⟩ else none

/-- The page at `base` in a system state. -/
def Sys.view (s : Sys) (base : Addr) : PageState where
  node := fun id => (s.node id).view base
  app := fun thread => (s.app thread).view base
  handler := fun id => (s.handler id).bind fun handler => handler.view base

/-- The page a step works on. -/
def Sys.pageOf (s : Sys) : Action → Addr
  | .load _ addr _ => pgAlign addr
  | .store _ addr _ => pgAlign addr
  | .fault _ _ addr => pgAlign addr
  | .app thread _ => match s.app thread with
    | .run => 0
    | .fault _ addr _ => pgAlign addr
  | .handler id _ => match s.handler id with
    | none => 0
    | some handler => handler.addr
  | .failApp thread => match s.app thread with
    | .run => 0
    | .fault _ addr _ => pgAlign addr
  | .failHandler id => match s.handler id with
    | none => 0
    | some handler => handler.addr

/-- The same step on its page; loads do not change anything. -/
def Action.onPage : Action → Option PageAction
  | .load _ _ _ => none
  | .store thread addr values => some (.store thread (addr % 4096) values)
  | .fault thread rq _ => some (.fault thread rq)
  | .app thread fresh => some (.app thread fresh)
  | .handler id fresh => some (.handler id fresh)
  | .failApp thread => some (.failApp thread)
  | .failHandler id => some (.failHandler id)

theorem Action.eq_load {action : Action} (offPage : action.onPage = none) :
    ∃ thread addr count, action = .load thread addr count := by
  cases action <;> first | exact ⟨_, _, _, rfl⟩ | contradiction

/-- The instance `id` exists and works on the page at `base`. -/
def Sys.ServesPage (s : Sys) (id : HandlerId) (base : Addr) : Prop :=
  ∃ handler, s.handler id = some handler ∧ handler.addr = base

/-! ### Statements -/

/-- Every address of the statement belongs to the page at `base`. -/
def Stmt.OnPage {σ : Type} (base : Addr) : Stmt σ → Prop
  | .waitLock _ key _ => key = base
  | .unlock _ key _ => key = base
  | .readOwner key _ => key = base
  | .setOwner key _ _ => key = base
  | .copysetInsert key _ _ => key = base
  | .copysetErase key _ _ => key = base
  | .copysetClear key _ => key = base
  | .setInfoAccess key _ _ => key = base
  | .setAccess addr _ _ => pgAlign addr = base
  | .readPage addr _ => pgAlign addr = base
  | .memcpy addr _ _ => addr = base
  | .call _ fn body _ => ∃ job, fn.accept body = some (base, job)
  | .skip _ => True
  | .await _ _ _ _ => True
  | .halt => True

@[simp] theorem Stmt.onPage_map {σ τ : Type} (wrap : σ → τ) (base : Addr) (stmt : Stmt σ) :
    (stmt.map wrap).OnPage base ↔ stmt.OnPage base := by
  cases stmt <;> simp [Stmt.map, Stmt.OnPage]

@[simp] theorem Stmt.onPage_ite {σ : Type} (condition : Prop) [Decidable condition] (base : Addr)
    (first second : Stmt σ) :
    (if condition then first else second).OnPage base ↔
      if condition then first.OnPage base else second.OnPage base := by
  split <;> rfl

section Rows

variable {cfg : Config} {base : Nat} (aligned : 4096 ∣ base) (fits : base < wordCount)

include aligned fits

/-- The statements of a fault handler stay on the page of the fault. -/
theorem faultHdlr_onPage {rq : Rq} {id : Nat} (idFits : id < wordCount) (pc : FaultPc) :
    (faultHdlr cfg rq id base pc).OnPage base := by
  have request := parsePageRequest_pageRequest fits idFits
  cases rq <;> cases pc <;>
    simp only [faultHdlr, rdFaultHdlr, wrFaultHdlr, Stmt.onPage_ite] <;>
    simp [Stmt.OnPage, pgAlign_of_dvd aligned, RpcName.accept, request]

/-- The statements of a handler instance stay on the page it was given. -/
theorem job_onPage {self : NodeId} (job : Job) : (job.stmt cfg self base).OnPage base := by
  cases job with
  | servRd reqNode pc =>
      rw [Job.stmt, Stmt.onPage_map]
      cases pc <;> simp only [servRdRq, Stmt.onPage_ite] <;>
        simp [Stmt.OnPage, RpcName.accept, parseFetchRequest_rd fits, pgAlign_of_dvd aligned]
  | servWr reqNode pc =>
      rw [Job.stmt, Stmt.onPage_map]
      cases pc
      case invalidating ownerNode pageContents nodes =>
        cases nodes <;>
          simp [servWrRq, Stmt.OnPage, RpcName.accept,
            parseInvalidateRequest_invalidateRequest fits, pgAlign_of_dvd aligned]
      all_goals
        simp only [servWrRq, Stmt.onPage_ite]
        simp [Stmt.OnPage, RpcName.accept, parseFetchRequest_none fits, pgAlign_of_dvd aligned]
  | fetch accessType pc =>
      rw [Job.stmt, Stmt.onPage_map]
      cases pc <;> simp only [fetchPg, Stmt.onPage_ite] <;>
        simp [Stmt.OnPage, pgAlign_of_dvd aligned]
  | invalidate pc =>
      rw [Job.stmt, Stmt.onPage_map]
      cases pc <;> simp only [invalidateAdapter, Stmt.onPage_ite] <;>
        simp [Stmt.OnPage, pgAlign_of_dvd aligned]

end Rows

/-- A fault handler computes every address from the page of the fault. -/
theorem faultHdlr_pgAlign (cfg : Config) (rq : Rq) (id : NodeId) (addr : Addr) :
    faultHdlr cfg rq id (pgAlign addr) = faultHdlr cfg rq id addr := by
  funext pc
  cases rq <;> cases pc <;> simp [faultHdlr, rdFaultHdlr, wrFaultHdlr]

/-! ### One statement -/

@[simp] theorem Node.view_info (nd : Node) (base : Addr) : (nd.view base).info = nd.info base := rfl

@[simp] theorem Node.view_prot (nd : Node) (base : Addr) : (nd.view base).prot = nd.prot base := rfl

@[simp] theorem Node.view_bytes (nd : Node) (base : Addr) :
    (nd.view base).bytes = nd.pageAt base := rfl

theorem Node.view_setLock (nd : Node) (table : LockTable) (key base : Addr)
    (holder : Option Tid) :
    (nd.setLock table key holder).view base =
      if base = key then (nd.view base).setLock table holder else nd.view base := by
  cases table <;> by_cases same : base = key <;>
    simp [Node.view, Node.setLock, NodePage.setLock, same] <;> rfl

theorem Node.view_setInfo (nd : Node) (key base : Addr) (info : Info) :
    (nd.setInfo key info).view base =
      if base = key then { nd.view base with info := info } else nd.view base := by
  by_cases same : base = key <;>
    simp [Node.view, Node.setInfo, same] <;> rfl

theorem Node.view_setAccess (nd : Node) (addr base : Addr) (access : AccessType) :
    (nd.setAccess addr access).view base =
      if base = pgAlign addr then { nd.view base with prot := access } else nd.view base := by
  by_cases same : base = pgAlign addr <;>
    simp [Node.view, Node.setAccess, same] <;> rfl

theorem Node.view_lock (nd : Node) (table : LockTable) (base : Addr) :
    (nd.view base).lock table = nd.lock table base := by
  cases table <;> rfl

theorem Node.view_copyPage_same (nd : Node) (base : Nat) (bytes : Page) :
    (nd.copyPage base bytes).view base = { nd.view base with bytes := bytes } := by
  have contents : (nd.copyPage base bytes).pageAt base = bytes := by
    funext offset
    simp [Node.pageAt, Node.copyPage]
  simp only [Node.view, contents]
  rfl

/-- Different page starts are at least a page apart. -/
theorem pages_apart {base other : Nat} (aligned : 4096 ∣ base) (otherAligned : 4096 ∣ other)
    (different : other ≠ base) : other + pageSize ≤ base ∨ base + pageSize ≤ other := by
  obtain ⟨page, rfl⟩ := aligned
  obtain ⟨otherPage, rfl⟩ := otherAligned
  simp only [pageSize]
  omega

private theorem outside_page {base other offset : Nat}
    (apart : other + pageSize ≤ base ∨ base + pageSize ≤ other) (below : offset < pageSize) :
    ¬(base ≤ other + offset ∧ other + offset - base < pageSize) := by
  omega

theorem Node.view_copyPage_other (nd : Node) {base other : Nat} (bytes : Page)
    (aligned : 4096 ∣ base) (otherAligned : 4096 ∣ other) (different : other ≠ base) :
    (nd.copyPage base bytes).view other = nd.view other := by
  have contents : (nd.copyPage base bytes).pageAt other = nd.pageAt other := by
    funext offset
    exact dif_neg (outside_page (pages_apart aligned otherAligned different) offset.isLt)
  simp only [Node.view, contents]
  rfl

section Statements

variable {σ : Type} {self : NodeId} {tid : Tid} {base : Nat}

/-- A local statement on the page acts on its view. -/
theorem Stmt.runLocal_view {stmt : Stmt σ} {next : σ} {nd after : Node} {events : List Event}
    (aligned : 4096 ∣ base) (onPage : stmt.OnPage base)
    (ran : stmt.runLocal self tid nd = some (next, after, events)) :
    stmt.runOnPage tid (nd.view base) = some (next, after.view base) := by
  have pageOfBase := pgAlign_of_dvd aligned
  cases stmt with
  | waitLock table key target =>
      obtain rfl : key = base := onPage
      simp only [Stmt.runLocal] at ran
      split at ran
      · rename_i free
        obtain ⟨rfl, rfl, rfl⟩ := ran
        simp [Stmt.runOnPage, Node.view_lock, free, Node.view_setLock]
      · contradiction
  | setAccess addr access target =>
      obtain rfl : pgAlign addr = base := onPage
      obtain ⟨rfl, rfl, rfl⟩ := ran
      simp [Stmt.runOnPage, Node.view_setAccess]
  | readPage addr target =>
      obtain rfl : pgAlign addr = base := onPage
      simp only [Stmt.runLocal] at ran
      split at ran
      · rename_i permitted
        obtain ⟨rfl, rfl, rfl⟩ := ran
        simp_all [Stmt.runOnPage, Node.view]
      · contradiction
  | memcpy addr contents target =>
      obtain rfl : addr = base := onPage
      simp only [Stmt.runLocal, pageOfBase] at ran
      split at ran
      · rename_i bytes full
        split at ran
        · rename_i permitted
          obtain ⟨rfl, rfl, rfl⟩ := ran
          simp [Stmt.runOnPage, full, permitted, Node.view_copyPage_same]
        · contradiction
      · contradiction
  | call => contradiction
  | await => contradiction
  | halt => contradiction
  | skip target =>
      obtain ⟨rfl, rfl, rfl⟩ := ran
      rfl
  | unlock table key target =>
      obtain rfl : key = base := onPage
      obtain ⟨rfl, rfl, rfl⟩ := ran
      simp [Stmt.runOnPage, Node.view_setLock]
  | readOwner key target =>
      obtain rfl : key = base := onPage
      obtain ⟨rfl, rfl, rfl⟩ := ran
      rfl
  | _ =>
      obtain rfl : _ = base := onPage
      obtain ⟨rfl, rfl, rfl⟩ := ran
      simp [Stmt.runOnPage, Node.view_setInfo]

/-- A local statement on the page leaves the views of all other pages. -/
theorem Stmt.runLocal_other {stmt : Stmt σ} {next : σ} {nd after : Node} {events : List Event}
    {other : Nat} (aligned : 4096 ∣ base) (otherAligned : 4096 ∣ other) (different : other ≠ base)
    (onPage : stmt.OnPage base)
    (ran : stmt.runLocal self tid nd = some (next, after, events)) :
    after.view other = nd.view other := by
  cases stmt with
  | waitLock table key target =>
      obtain rfl : key = base := onPage
      simp only [Stmt.runLocal] at ran
      split at ran
      · obtain ⟨rfl, rfl, rfl⟩ := ran
        simp [Node.view_setLock, different]
      · contradiction
  | setAccess addr access target =>
      obtain rfl : pgAlign addr = base := onPage
      obtain ⟨rfl, rfl, rfl⟩ := ran
      simp [Node.view_setAccess, different]
  | readPage addr target =>
      simp only [Stmt.runLocal] at ran
      split at ran
      · obtain ⟨rfl, rfl, rfl⟩ := ran
        rfl
      · contradiction
  | memcpy addr contents target =>
      obtain rfl : addr = base := onPage
      simp only [Stmt.runLocal] at ran
      split at ran
      · split at ran
        · obtain ⟨rfl, rfl, rfl⟩ := ran
          exact Node.view_copyPage_other nd _ aligned otherAligned different
        · contradiction
      · contradiction
  | call => contradiction
  | await => contradiction
  | halt => contradiction
  | skip target =>
      obtain ⟨rfl, rfl, rfl⟩ := ran
      rfl
  | unlock table key target =>
      obtain rfl : key = base := onPage
      obtain ⟨rfl, rfl, rfl⟩ := ran
      simp [Node.view_setLock, different]
  | readOwner key target =>
      obtain ⟨rfl, rfl, rfl⟩ := ran
      rfl
  | _ =>
      obtain rfl : _ = base := onPage
      obtain ⟨rfl, rfl, rfl⟩ := ran
      simp [Node.view_setInfo, different]

end Statements

/-! ### Views of an updated system -/

namespace Sys

theorem view_setNode (s : Sys) (id : NodeId) (nd : Node) (base : Addr) :
    (s.setNode id nd).view base = (s.view base).setNode id (nd.view base) := by
  have nodes : (fun other => (Function.update s.node id nd other).view base) =
      Function.update (fun other => (s.node other).view base) id (nd.view base) := by
    funext other
    by_cases same : other = id <;> simp [same]
  simp only [view, setNode, PageState.setNode, nodes]

theorem view_setNode_other (s : Sys) {id : NodeId} {nd : Node} {base : Addr}
    (unchanged : nd.view base = (s.node id).view base) :
    (s.setNode id nd).view base = s.view base := by
  rw [view_setNode, unchanged]
  simp [PageState.setNode, view]

theorem view_setApp (s : Sys) (thread : AppId) (app : App) (base : Addr) :
    (s.setApp thread app).view base = (s.view base).setApp thread (app.view base) := by
  have apps : (fun other => (Function.update s.app thread app other).view base) =
      Function.update (fun other => (s.app other).view base) thread (app.view base) := by
    funext other
    by_cases same : other = thread <;> simp [same]
  simp only [view, setApp, PageState.setApp, apps]

theorem view_setApp_other (s : Sys) {thread : AppId} {app : App} {base : Addr}
    (unchanged : app.view base = (s.app thread).view base) :
    (s.setApp thread app).view base = s.view base := by
  rw [view_setApp, unchanged]
  simp [PageState.setApp, view]

theorem view_setHandler_same (s : Sys) (id : HandlerId) {handler : Handler} {base : Addr}
    (same : handler.addr = base) :
    (s.setHandler id handler).view base =
      (s.view base).setHandler id ⟨handler.node, handler.job⟩ := by
  have handlers :
      (fun other => (Function.update s.handler id (some handler) other).bind
        fun current => current.view base) =
      Function.update (fun other => (s.handler other).bind fun current => current.view base) id
        (some ⟨handler.node, handler.job⟩) := by
    funext other
    by_cases sameId : other = id <;> simp [sameId, Handler.view, same]
  simp only [view, setHandler, PageState.setHandler, handlers]

theorem view_setHandler_other (s : Sys) {id : HandlerId} {handler : Handler} {base : Addr}
    (different : handler.addr ≠ base)
    (before : (s.handler id).bind (fun current => current.view base) = none) :
    (s.setHandler id handler).view base = s.view base := by
  have handlers :
      (fun other => (Function.update s.handler id (some handler) other).bind
        fun current => current.view base) =
      fun other => (s.handler other).bind fun current => current.view base := by
    funext other
    by_cases sameId : other = id
    · rw [sameId, before]
      simp [Handler.view, different]
    · simp [sameId]
  simp only [view, setHandler, handlers]

theorem view_app (s : Sys) (base : Addr) (thread : AppId) :
    (s.view base).app thread = (s.app thread).view base := rfl

theorem view_handler (s : Sys) {base : Addr} {id : HandlerId} {handler : Handler}
    (present : s.handler id = some handler) (same : handler.addr = base) :
    (s.view base).handler id = some ⟨handler.node, handler.job⟩ := by
  simp [view, present, Handler.view, same]

theorem handler_of_view (s : Sys) {base : Addr} {id : HandlerId} {node : NodeId} {job : Job}
    (present : (s.view base).handler id = some ⟨node, job⟩) :
    s.handler id = some ⟨node, base, job⟩ := by
  simp only [view, Option.bind_eq_some_iff] at present
  obtain ⟨⟨_, addr, _⟩, found, inView⟩ := present
  simp only [Handler.view] at inView
  split at inView
  · rename_i same
    obtain ⟨rfl, rfl⟩ := PageHandler.mk.inj (Option.some.inj inView)
    exact same ▸ found
  · contradiction

/-- An instance of the page has the same reply in the view of the page. -/
theorem view_reply? (s : Sys) {base : Addr} {id : HandlerId} (serves : s.ServesPage id base) :
    (s.view base).reply? id = s.reply? id := by
  obtain ⟨handler, present, same⟩ := serves
  simp [PageState.reply?, Sys.reply?, s.view_handler present same, present]

end Sys

section Execution

variable {σ : Type} {self : NodeId} {tid : Tid} {base : Nat} {fresh : HandlerId}
variable {stmt : Stmt σ} {s after : Sys} {next : σ} {events : List Event}

/-- A statement on the page acts on the view of the page. -/
theorem Stmt.exec_view (aligned : 4096 ∣ base) (onPage : stmt.OnPage base)
    (awaits : ∀ id, stmt.awaits? = some id → s.ServesPage id base)
    (ran : stmt.exec self tid fresh s = some (next, after, events)) :
    stmt.execOnPage self tid fresh (s.view base) = some (next, after.view base) := by
  rcases exec_cases ran with ⟨nd, local_, rfl⟩ |
    ⟨dst, fn, body, target, addr, job, rfl, unused, accepted, rfl, rfl, rfl⟩ |
    ⟨rpc, id, target, failed, reply, rfl, replied, rfl, rfl, rfl⟩
  · have onView := runLocal_view aligned onPage local_
    rw [Sys.view_setNode]
    cases stmt <;> first | contradiction | simp [execOnPage, Sys.view, onView]
  · obtain ⟨_, same⟩ := onPage
    obtain ⟨rfl, rfl⟩ : addr = base ∧ job = _ := by simpa [accepted] using same
    rw [Sys.view_setHandler_same _ _ rfl]
    simp [execOnPage, Sys.view, unused, accepted]
  · simp [execOnPage, Sys.view_reply? _ (awaits id rfl), replied]

/-- A statement on the page leaves the views of the other pages. -/
theorem Stmt.exec_other {other : Nat} (aligned : 4096 ∣ base) (otherAligned : 4096 ∣ other)
    (different : other ≠ base) (onPage : stmt.OnPage base)
    (ran : stmt.exec self tid fresh s = some (next, after, events)) :
    after.view other = s.view other := by
  rcases exec_cases ran with ⟨nd, local_, rfl⟩ |
    ⟨dst, fn, body, target, addr, job, rfl, unused, accepted, rfl, rfl, rfl⟩ |
    ⟨rpc, id, target, failed, reply, rfl, replied, rfl, rfl, rfl⟩
  · exact s.view_setNode_other (runLocal_other aligned otherAligned different onPage local_)
  · obtain ⟨_, same⟩ := onPage
    obtain ⟨rfl, rfl⟩ : addr = base ∧ job = _ := by simpa [accepted] using same
    exact s.view_setHandler_other (Ne.symm different) (by simp [unused])
  · rfl

end Execution

end LibIvy
