import LibIvy.Page.Rows

/-!
Contract: which thread waits for which handler instance, and what the replies
contain, when node `0` is the manager.

Owns: the kind of an instance, the contents that positions carry, the invariant
that links every waiting thread to the instance it called, and, for reliable
runs, that every unfinished instance has such a caller.

Does not own: locks, protections, the directory.
-/

namespace LibIvy

open Lib NumberText

/-! ### Contents -/

/-- The page a reply carries. -/
def Reply.page? : Reply → Option Page
  | .text _ => none
  | .page bytes => some bytes

/-- The reply is a page. -/
def Reply.IsPage (reply : Reply) : Prop := ∃ bytes, reply = .page bytes

theorem Reply.IsPage.length {reply : Reply} (isPage : reply.IsPage) :
    reply.length = 2 * pageSize := by
  obtain ⟨bytes, rfl⟩ := isPage
  rfl

/-- The reply of a write request: a page, or nothing for a node that keeps its
copy. -/
def Reply.IsGrant (reply : Reply) : Prop := reply.IsPage ∨ reply = .empty

/-- What a served function does and for whom. -/
inductive JobKind where
  | servRd (reqNode : NodeId)
  | servWr (reqNode : NodeId)
  | fetch (accessType : AccessType)
  | invalidate
deriving DecidableEq

def Job.kind : Job → JobKind
  | .servRd reqNode _ => .servRd reqNode
  | .servWr reqNode _ => .servWr reqNode
  | .fetch accessType _ => .fetch accessType
  | .invalidate _ => .invalidate

/-- The request of a faulting node. -/
def Rq.kind (rq : Rq) (reqNode : NodeId) : JobKind :=
  match rq with
  | .rd => .servRd reqNode
  | .wr => .servWr reqNode

/-- What a kind of instance may reply. -/
def JobKind.Replies : JobKind → Reply → Prop
  | .servRd _, reply => reply.IsPage
  | .servWr _, reply => reply.IsGrant
  | .fetch _, reply => reply.IsPage
  | .invalidate, reply => reply = .ok

/-- Contents that a write request carries on after the fetch: a page, or nothing
when the requester owns the page. -/
def WrContents (reqNode ownerNode : NodeId) (pageContents : Reply) : Prop :=
  pageContents.IsPage ∨ pageContents = .empty ∧ ownerNode = reqNode

def FetchPc.Ok : FetchPc → Prop
  | .copied memStr => memStr.IsPage
  | .restricted memStr => memStr.IsPage
  | .done memStr => memStr.IsPage
  | _ => True

/-- The position carries what it should, and no assertion has failed. -/
def Job.Ok : Job → Prop
  | .servRd _ (.fetched pageContents) => pageContents.IsPage
  | .servRd _ (.infoUnlocked pageContents) => pageContents.IsPage
  | .servRd _ (.done pageContents) => pageContents.IsPage
  | .servRd _ .aborted => False
  | .servWr reqNode (.invalidating ownerNode pageContents _) =>
      WrContents reqNode ownerNode pageContents
  | .servWr reqNode (.invalidateSent ownerNode pageContents _ _) =>
      WrContents reqNode ownerNode pageContents
  | .servWr reqNode (.sent ownerNode pageContents) => WrContents reqNode ownerNode pageContents
  | .servWr reqNode (.cleared ownerNode pageContents) => WrContents reqNode ownerNode pageContents
  | .servWr reqNode (.committed ownerNode pageContents) =>
      WrContents reqNode ownerNode pageContents
  | .servWr reqNode (.infoUnlocked ownerNode pageContents) =>
      WrContents reqNode ownerNode pageContents
  | .servWr _ (.done pageContents) => pageContents.IsGrant
  | .servWr _ .aborted => False
  | .fetch accessType pc => (accessType = .rd ∨ accessType = .none) ∧ pc.Ok
  | _ => True

def FaultPc.Ok (rq : Rq) : FaultPc → Prop
  | .got memStr => (rq.kind 0).Replies memStr
  | .opened memStr => (rq.kind 0).Replies memStr
  | .returned => False
  | _ => True

theorem Job.Ok.replies {job : Job} {reply : Reply} (ok : job.Ok)
    (replied : job.reply? = some reply) : job.kind.Replies reply := by
  cases job with
  | servRd reqNode pc => cases pc <;> simp_all [Job.reply?, Job.Ok, Job.kind, JobKind.Replies]
  | servWr reqNode pc => cases pc <;> simp_all [Job.reply?, Job.Ok, Job.kind, JobKind.Replies]
  | fetch accessType pc =>
      cases pc <;> simp_all [Job.reply?, Job.Ok, FetchPc.Ok, Job.kind, JobKind.Replies]
  | invalidate pc => cases pc <;> simp_all [Job.reply?, Job.kind, JobKind.Replies]

/-! ### Who calls whom -/

/-- The instances that a served function may wait for. -/
def Job.Callee : Job → NodeId → JobKind → Prop
  | .servRd _ (.fetching ownerNode _), node, kind => node = ownerNode ∧ kind = .fetch .rd
  | .servWr _ (.fetching ownerNode _ _), node, kind => node = ownerNode ∧ kind = .fetch .none
  | .servWr _ (.invalidateSent _ _ _ _), _, kind => kind = .invalidate
  | _, _, _ => False

def JobKind.serves : JobKind → Bool
  | .servRd _ => true
  | .servWr _ => true
  | _ => false

/-- Threads carry what they should and wait for the instances they called. -/
structure Linked (cfg : Config) (st : PageState) : Prop where
  runs : ∀ {thread rq pc}, st.app thread = some (rq, pc) → cfg.runs thread = true
  appOk : ∀ {thread rq pc}, st.app thread = some (rq, pc) → pc.Ok rq
  jobOk : ∀ {id handler}, st.handler id = some handler → handler.job.Ok
  atManager : ∀ {id handler}, st.handler id = some handler →
    handler.job.kind.serves = true → handler.node = 0
  appCall : ∀ {thread rq pc call}, st.app thread = some (rq, pc) → pc.awaits? = some call →
    ∃ handler, st.handler call = some handler ∧ handler.node = 0 ∧
      handler.job.kind = rq.kind thread.node
  handlerCall : ∀ {id handler call}, st.handler id = some handler →
    handler.job.awaits? = some call →
    ∃ callee, st.handler call = some callee ∧ handler.job.Callee callee.node callee.job.kind

/-- Every unfinished instance has a caller that waits for it. -/
def Attended (st : PageState) : Prop :=
  ∀ {id handler}, st.handler id = some handler → handler.job.reply? = none →
    (∃ thread rq pc, st.app thread = some (rq, pc) ∧ pc.awaits? = some id) ∨
      ∃ caller callerHandler, st.handler caller = some callerHandler ∧
        callerHandler.job.awaits? = some id

/-! ### The rows of the handlers -/

section Rows

variable {cfg : Config} {base : Addr}

theorem faultHdlr_ensures_ok (rq : Rq) (id : NodeId) {pc : FaultPc} (ok : pc.Ok rq) :
    (faultHdlr cfg rq id base pc).Ensures (fun next => next = .returned ∨ next.Ok rq)
      (fun _ next => next = .returned ∨ next.Ok rq) (rq.kind 0).Replies := by
  cases rq <;> cases pc <;>
    simp only [faultHdlr, rdFaultHdlr, wrFaultHdlr, Stmt.ensures_ite] <;>
    simp_all [Stmt.Ensures, FaultPc.Ok]

/-- A served function stays what it is and carries what it should, when its
calls do. -/
theorem job_ensures_ok {self : NodeId} {job : Job} (ok : job.Ok)
    (atManager : job.kind.serves = true → cfg.isManager self = true) :
    (job.stmt cfg self base).Ensures (fun next => next.kind = job.kind ∧ next.Ok)
      (fun _ next => next.kind = job.kind ∧ next.Ok)
      (fun reply => ∃ node kind, job.Callee node kind ∧ kind.Replies reply) := by
  cases job with
  | servRd reqNode pc =>
      have manager := atManager rfl
      rw [Job.stmt, Stmt.ensures_map]
      cases pc
      case infoUnlocked pageContents =>
        have full : pageContents.length ≠ 0 := by
          rw [Reply.IsPage.length ok]
          decide
        simp [servRdRq, full, Stmt.Ensures, Job.kind, Job.Ok]
        exact ok
      all_goals
        simp only [servRdRq, Stmt.ensures_ite]
        simp_all [Stmt.Ensures, Job.kind, Job.Ok, Job.Callee, JobKind.Replies]
  | servWr reqNode pc =>
      have manager := atManager rfl
      rw [Job.stmt, Stmt.ensures_map]
      cases pc
      case invalidating ownerNode pageContents nodes =>
        cases nodes <;> simp_all [servWrRq, Stmt.Ensures, Job.kind, Job.Ok]
      case invalidateSent ownerNode pageContents nodes call =>
        refine ⟨fun reply _ => ?_, rfl, ok⟩
        dsimp only
        split <;> exact ⟨rfl, ok⟩
      case infoUnlocked ownerNode pageContents =>
        have kept : ¬(ownerNode ≠ reqNode ∧ pageContents.length = 0) := by
          rintro ⟨different, short⟩
          rcases ok with full | ⟨_, same⟩
          · simp [full.length, pageSize] at short
          · exact different same
        simp only [servWrRq, if_neg kept]
        exact ⟨rfl, ok.imp_right And.left⟩
      case erased ownerNode ivldSet =>
        simp only [servWrRq, Stmt.ensures_ite]
        split
        · simp [Stmt.Ensures, Job.kind, Job.Ok]
        · split
          · rename_i same
            exact ⟨rfl, .inr ⟨rfl, same⟩⟩
          · simp [Stmt.Ensures, Job.kind, Job.Ok]
      case fetching ownerNode ivldSet call =>
        simp_all [servWrRq, Stmt.Ensures, Job.kind, Job.Ok, Job.Callee, JobKind.Replies, WrContents]
      all_goals
        simp only [servWrRq, Stmt.ensures_ite]
        simp_all [Stmt.Ensures, Job.kind, Job.Ok]
  | fetch accessType pc =>
      rw [Job.stmt, Stmt.ensures_map]
      cases pc <;> simp only [fetchPg, Stmt.ensures_ite] <;>
        simp_all [Stmt.Ensures, Job.kind, Job.Ok, FetchPc.Ok, Reply.IsPage]
  | invalidate pc =>
      rw [Job.stmt, Stmt.ensures_map]
      cases pc <;> simp only [invalidateAdapter, Stmt.ensures_ite] <;>
        simp [Stmt.Ensures, Job.kind, Job.Ok]

theorem RpcName.accept_ok {fn : RpcName} {body : Text} {addr : Addr} {job : Job}
    (accepted : fn.accept body = some (addr, job)) : job.Ok := by
  cases fn <;> simp only [RpcName.accept, Option.map_eq_some_iff, Prod.mk.injEq] at accepted <;>
    obtain ⟨request, parsed, _, rfl⟩ := accepted
  case fetchPg =>
    exact ⟨parseFetchRequest_access parsed, trivial⟩
  all_goals trivial

/-- A fault handler calls the request that fits it: the manager on itself, every
other node on node `0`. -/
theorem faultHdlr_request {rq : Rq} {id : NodeId} {pc : FaultPc} {dst : NodeId} {fn : RpcName}
    {body : Text} {next : HandlerId → FaultPc} {addr : Addr} {job : Job}
    (baseFits : base < wordCount) (idFits : id < wordCount)
    (row : faultHdlr cfg rq id base pc = .call dst fn body next)
    (accepted : fn.accept body = some (addr, job)) :
    dst = (if cfg.isManager id then id else 0) ∧ job.kind = rq.kind id := by
  have parsed := parsePageRequest_pageRequest (pgAlign_lt baseFits) idFits
  cases pc with
  | locked =>
      cases rq <;>
        obtain ⟨rfl, rfl, rfl, rfl⟩ := row <;>
        simp only [RpcName.accept, parsed, Option.map_some, Option.some.injEq, Prod.mk.injEq]
          at accepted <;>
        obtain ⟨_, rfl⟩ := accepted <;>
        exact ⟨rfl, rfl⟩
  | _ =>
      cases rq <;> simp only [faultHdlr, rdFaultHdlr, wrFaultHdlr] at row <;>
        (try split at row) <;> contradiction

/-- When node `0` is the manager it serves every request. -/
theorem faultHdlr_call {rq : Rq} {id : NodeId} {pc : FaultPc} {dst : NodeId} {fn : RpcName}
    {body : Text} {next : HandlerId → FaultPc} {addr : Addr} {job : Job}
    (zero : cfg.managerId = 0) (baseFits : base < wordCount) (idFits : id < wordCount)
    (row : faultHdlr cfg rq id base pc = .call dst fn body next)
    (accepted : fn.accept body = some (addr, job)) :
    dst = 0 ∧ job.kind = rq.kind id := by
  obtain ⟨rfl, kind⟩ := faultHdlr_request baseFits idFits row accepted
  refine ⟨?_, kind⟩
  split
  · rename_i manager
    exact (Config.isManager_eq_true.mp manager).trans zero
  · rfl

/-- What a served function calls serves no request. -/
theorem job_starts {self : NodeId} {job : Job} {dst : NodeId} {fn : RpcName} {body : Text}
    {next : HandlerId → Job} {addr : Addr} {callee : Job}
    (row : job.stmt cfg self base = .call dst fn body next)
    (accepted : fn.accept body = some (addr, callee)) : callee.kind.serves = false := by
  have callback : fn = .fetchPg ∨ fn = .invalidatePg := by
    cases job with
    | servRd reqNode pc =>
        cases pc <;> simp only [Job.stmt, servRdRq] at row <;> (try split at row) <;>
          simp only [Stmt.map, reduceCtorEq, Stmt.call.injEq] at row <;>
          exact .inl row.2.1.symm
    | servWr reqNode pc =>
        cases pc
        case erased ownerNode ivldSet =>
          simp only [Job.stmt, servWrRq] at row
          repeat' split at row
          all_goals simp only [Stmt.map, reduceCtorEq, Stmt.call.injEq] at row
          all_goals exact .inl row.2.1.symm
        case invalidating ownerNode pageContents nodes =>
          cases nodes with
          | nil => contradiction
          | cons node nodes =>
              simp only [Job.stmt, servWrRq, Stmt.map, Stmt.call.injEq] at row
              exact .inr row.2.1.symm
        all_goals
          simp only [Job.stmt, servWrRq] at row
          (try split at row) <;> contradiction
    | fetch accessType pc =>
        cases pc <;> simp only [Job.stmt, fetchPg] at row <;> (try split at row) <;> contradiction
    | invalidate pc =>
        cases pc <;> simp only [Job.stmt, invalidateAdapter] at row <;> (try split at row) <;>
          contradiction
  rcases callback with rfl | rfl <;>
    simp only [RpcName.accept, Option.map_eq_some_iff, Prod.mk.injEq] at accepted <;>
    obtain ⟨_, _, _, rfl⟩ := accepted <;> rfl

/-- A served function calls the instance it then waits for, and that instance
serves no request. -/
theorem job_call {self : NodeId} {job : Job} {dst : NodeId} {fn : RpcName} {body : Text}
    {next : HandlerId → Job} {addr : Addr} {callee : Job} (baseFits : base < wordCount)
    (atManager : job.kind.serves = true → self = 0)
    (row : job.stmt cfg self base = .call dst fn body next)
    (accepted : fn.accept body = some (addr, callee)) :
    callee.kind.serves = false ∧ ∀ id, (next id).Callee dst callee.kind := by
  have parsedRd := parseFetchRequest_rd (pgAlign_lt baseFits)
  have parsedNone := parseFetchRequest_none (pgAlign_lt baseFits)
  have parsedInvalidate := parseInvalidateRequest_invalidateRequest baseFits
  cases job with
  | servRd reqNode pc =>
      obtain rfl : self = 0 := atManager rfl
      cases pc <;> simp only [Job.stmt, servRdRq] at row <;> (try split at row) <;>
        simp only [Stmt.map, reduceCtorEq, Stmt.call.injEq] at row
      all_goals
        rename_i same
        obtain ⟨rfl, rfl, rfl, rfl⟩ := row
        simp only [RpcName.accept, parsedRd, Option.map_some, Option.some.injEq, Prod.mk.injEq]
          at accepted
        obtain ⟨_, rfl⟩ := accepted
        simp [Job.kind, JobKind.serves, Job.Callee, same]
  | servWr reqNode pc =>
      obtain rfl : self = 0 := atManager rfl
      cases pc
      case erased ownerNode ivldSet =>
        simp only [Job.stmt, servWrRq] at row
        split at row
        case isTrue same =>
          simp only [Stmt.map, Stmt.call.injEq] at row
          obtain ⟨rfl, rfl, rfl, rfl⟩ := row
          simp only [RpcName.accept, parsedNone, Option.map_some, Option.some.injEq,
            Prod.mk.injEq] at accepted
          obtain ⟨_, rfl⟩ := accepted
          simp [Job.kind, JobKind.serves, Job.Callee, same]
        case isFalse =>
          split at row
          · contradiction
          · simp only [Stmt.map, Stmt.call.injEq] at row
            obtain ⟨rfl, rfl, rfl, rfl⟩ := row
            simp only [RpcName.accept, parsedNone, Option.map_some, Option.some.injEq,
              Prod.mk.injEq] at accepted
            obtain ⟨_, rfl⟩ := accepted
            simp [Job.kind, JobKind.serves, Job.Callee]
      case invalidating ownerNode pageContents nodes =>
        cases nodes with
        | nil => contradiction
        | cons node nodes =>
            simp only [Job.stmt, servWrRq, Stmt.map, Stmt.call.injEq] at row
            obtain ⟨rfl, rfl, rfl, rfl⟩ := row
            simp only [RpcName.accept, parsedInvalidate, Option.map_some, Option.some.injEq,
              Prod.mk.injEq] at accepted
            obtain ⟨_, rfl⟩ := accepted
            simp [Job.kind, JobKind.serves, Job.Callee]
      all_goals
        simp only [Job.stmt, servWrRq] at row
        (try split at row) <;> contradiction
  | fetch accessType pc =>
      cases pc <;> simp only [Job.stmt, fetchPg] at row <;> (try split at row) <;> contradiction
  | invalidate pc =>
      cases pc <;> simp only [Job.stmt, invalidateAdapter] at row <;> (try split at row) <;>
        contradiction

end Rows

/-! ### Every step keeps the links -/

namespace Linked

variable {cfg : Config} {base : Addr} {st : PageState}

theorem initial : Linked cfg PageState.initial where
  runs := by simp [PageState.initial]
  appOk := by simp [PageState.initial]
  jobOk := by simp [PageState.initial]
  atManager := by simp [PageState.initial]
  appCall := by simp [PageState.initial]
  handlerCall := by simp [PageState.initial]

theorem reply_app (linked : Linked cfg st) {thread : AppId} {rq : Rq} {pc : FaultPc}
    {call : HandlerId} {reply : Reply} (inside : st.app thread = some (rq, pc))
    (waits : pc.awaits? = some call) (replied : st.reply? call = some reply) :
    (rq.kind 0).Replies reply := by
  obtain ⟨handler, present, -, kind⟩ := linked.appCall inside waits
  have ok := (linked.jobOk present).replies
    (by simpa [PageState.reply?, present] using replied : handler.job.reply? = some reply)
  rw [kind] at ok
  cases rq <;> exact ok

theorem reply_handler (linked : Linked cfg st) {id call : HandlerId} {handler : PageHandler}
    {reply : Reply} (present : st.handler id = some handler)
    (waits : handler.job.awaits? = some call) (replied : st.reply? call = some reply) :
    ∃ node kind, handler.job.Callee node kind ∧ kind.Replies reply := by
  obtain ⟨callee, found, called⟩ := linked.handlerCall present waits
  exact ⟨_, _, called, (linked.jobOk found).replies
    (by simpa [PageState.reply?, found] using replied : callee.job.reply? = some reply)⟩

/-- An instance that started keeps its node and its kind. -/
theorem kept {σ : Type} {self : NodeId} {tid : Tid} {fresh : HandlerId} {stmt : Stmt σ}
    {next : σ} {after : PageState} (linked : Linked cfg st)
    (calls : ∀ {dst fn body target addr job}, stmt = .call dst fn body target →
      fn.accept body = some (addr, job) → job.kind.serves = true → dst = 0)
    (ran : stmt.execOnPage self tid fresh st = some (next, after)) : Linked cfg after where
  runs := by
    rw [Stmt.execOnPage_app ran]
    exact linked.runs
  appOk := by
    rw [Stmt.execOnPage_app ran]
    exact linked.appOk
  appCall := by
    rw [Stmt.execOnPage_app ran]
    intro thread rq pc call inside waits
    obtain ⟨handler, present, facts⟩ := linked.appCall inside waits
    exact ⟨handler, Stmt.execOnPage_keeps ran present, facts⟩
  jobOk := by
    intro id handler present
    rcases Stmt.execOnPage_handler ran present with old | ⟨_, _, _, _, _, _, _, accepted⟩
    · exact linked.jobOk old
    · exact RpcName.accept_ok accepted
  atManager := by
    intro id handler present serves
    rcases Stmt.execOnPage_handler ran present with old | ⟨_, _, _, _, row, _, _, accepted⟩
    · exact linked.atManager old serves
    · exact calls row accepted serves
  handlerCall := by
    intro id handler call present waits
    rcases Stmt.execOnPage_handler ran present with old | ⟨_, _, _, _, _, _, _, accepted⟩
    · obtain ⟨callee, found, facts⟩ := linked.handlerCall old waits
      exact ⟨callee, Stmt.execOnPage_keeps ran found, facts⟩
    · simp [(RpcName.accept_entry accepted).2] at waits

/-- Moving one application thread. -/
theorem setApp (linked : Linked cfg st) {thread : AppId} {app : Option (Rq × FaultPc)}
    (facts : ∀ {rq pc}, app = some (rq, pc) → cfg.runs thread = true ∧ pc.Ok rq ∧
      ∀ {call}, pc.awaits? = some call → ∃ handler, st.handler call = some handler ∧
        handler.node = 0 ∧ handler.job.kind = rq.kind thread.node) :
    Linked cfg (st.setApp thread app) where
  jobOk := linked.jobOk
  atManager := linked.atManager
  handlerCall := linked.handlerCall
  runs := by
    intro other rq pc inside
    by_cases same : other = thread
    · subst same
      exact (facts (by simpa [PageState.setApp] using inside)).1
    · exact linked.runs (by simpa [PageState.setApp, same] using inside)
  appOk := by
    intro other rq pc inside
    by_cases same : other = thread
    · subst same
      exact (facts (by simpa [PageState.setApp] using inside)).2.1
    · exact linked.appOk (by simpa [PageState.setApp, same] using inside)
  appCall := by
    intro other rq pc call inside waits
    by_cases same : other = thread
    · subst same
      exact (facts (by simpa [PageState.setApp] using inside)).2.2 waits
    · exact linked.appCall (by simpa [PageState.setApp, same] using inside) waits

theorem setHandler_found {id call : HandlerId} {handler callee : PageHandler} {job : Job}
    (present : st.handler id = some handler) (sameKind : job.kind = handler.job.kind)
    (found : st.handler call = some callee) :
    ∃ later, (st.setHandler id { handler with job := job }).handler call = some later ∧
      later.node = callee.node ∧ later.job.kind = callee.job.kind := by
  by_cases same : call = id
  · subst same
    obtain rfl : handler = callee := by simpa [present] using found
    exact ⟨_, PageState.setHandler_self .., rfl, sameKind⟩
  · exact ⟨callee, by rwa [PageState.setHandler_other _ _ same], rfl, rfl⟩

/-- Moving one instance. -/
theorem setHandler (linked : Linked cfg st) {id : HandlerId} {handler : PageHandler} {job : Job}
    (present : st.handler id = some handler) (sameKind : job.kind = handler.job.kind)
    (ok : job.Ok) (calls : ∀ {call}, job.awaits? = some call →
      ∃ callee, st.handler call = some callee ∧ job.Callee callee.node callee.job.kind) :
    Linked cfg (st.setHandler id { handler with job := job }) where
  runs := linked.runs
  appOk := linked.appOk
  appCall := by
    intro thread rq pc call inside waits
    obtain ⟨callee, found, atZero, kind⟩ := linked.appCall inside waits
    obtain ⟨later, foundLater, node, laterKind⟩ := setHandler_found present sameKind found
    exact ⟨later, foundLater, node.trans atZero, laterKind.trans kind⟩
  jobOk := by
    intro other found foundPresent
    by_cases same : other = id
    · subst same
      obtain rfl : { handler with job := job } = found := by simpa using foundPresent
      exact ok
    · exact linked.jobOk (by rwa [PageState.setHandler_other _ _ same] at foundPresent)
  atManager := by
    intro other found foundPresent serves
    by_cases same : other = id
    · subst same
      obtain rfl : { handler with job := job } = found := by simpa using foundPresent
      have atZero := linked.atManager present (sameKind ▸ serves)
      exact atZero
    · exact linked.atManager (by rwa [PageState.setHandler_other _ _ same] at foundPresent) serves
  handlerCall := by
    intro other caller call foundPresent waits
    have called : ∃ callee, st.handler call = some callee ∧
        caller.job.Callee callee.node callee.job.kind := by
      by_cases same : other = id
      · subst same
        obtain rfl : { handler with job := job } = caller := by simpa using foundPresent
        exact calls waits
      · exact linked.handlerCall (by rwa [PageState.setHandler_other _ _ same] at foundPresent)
          waits
    obtain ⟨callee, found, facts⟩ := called
    obtain ⟨later, foundLater, node, laterKind⟩ := setHandler_found present sameKind found
    exact ⟨later, foundLater, by rwa [node, laterKind]⟩

theorem job_calls {self : NodeId} {job : Job} (baseFits : base < wordCount)
    (atManager : job.kind.serves = true → self = 0) {dst : NodeId} {fn : RpcName} {body : Text}
    {target : HandlerId → Job} {addr : Addr} {callee : Job}
    (row : job.stmt cfg self base = .call dst fn body target)
    (accepted : fn.accept body = some (addr, callee)) (serves : callee.kind.serves = true) :
    dst = 0 := by
  simp [(job_call baseFits atManager row accepted).1] at serves

/-- Every step keeps the links between callers and instances. -/
theorem step (zero : cfg.managerId = 0) (fits : base < wordCount) {after : PageState}
    {action : PageAction} (linked : Linked cfg st)
    (taken : st.step cfg base action = some after) : Linked cfg after := by
  cases action with
  | store thread offset values =>
      obtain ⟨-, -, -, rfl⟩ := PageState.step_store taken
      exact ⟨linked.runs, linked.appOk, linked.jobOk, linked.atManager, linked.appCall,
        linked.handlerCall⟩
  | fault thread rq =>
      obtain ⟨runs, -, -, rfl⟩ := PageState.step_fault taken
      refine linked.setApp ?_
      intro _ _ same
      cases same
      exact ⟨runs, trivial, by simp [FaultPc.awaits?]⟩
  | app thread fresh =>
      obtain ⟨rq, pc, next, between, inside, ran, rfl⟩ := PageState.step_app taken
      have runs := linked.runs inside
      have nodeFits := Config.node_fits runs
      refine (linked.kept
        (fun row accepted _ => (faultHdlr_call zero fits nodeFits row accepted).1) ran).setApp ?_
      intro rq' pc' resumed
      obtain ⟨rfl, rfl, notReturned⟩ := resumeOnPage_eq_some resumed
      refine ⟨runs, ?_, fun waits => ?_⟩
      · have ok := Stmt.execOnPage_ensures (faultHdlr_ensures_ok rq' _ (linked.appOk inside))
          (fun _ _ waits replied =>
            linked.reply_app inside (faultHdlr_awaits? .. ▸ waits) replied) ran
        rcases ok with (returned | ok) | ⟨_, _, _, _, _, _, _, _, returned | ok, _⟩
        · exact absurd returned notReturned
        · exact ok
        · exact absurd returned notReturned
        · exact ok
      · obtain ⟨dst, fn, body, target, addr, job, row, _, accepted, present⟩ :=
          Stmt.execOnPage_awaits (faultHdlr_awaitsOwnCall ..) ran waits
        obtain ⟨rfl, kind⟩ := faultHdlr_call zero fits nodeFits row accepted
        exact ⟨_, present, rfl, kind⟩
  | handler id fresh =>
      obtain ⟨handler, next, between, present, ran, rfl⟩ := PageState.step_handler taken
      have atZero := linked.atManager present
      have manager : handler.job.kind.serves = true → cfg.isManager handler.node = true :=
        fun serves => by simp [atZero serves, zero]
      have moved := Stmt.execOnPage_ensures (job_ensures_ok (linked.jobOk present) manager)
        (fun _ _ waits replied =>
          linked.reply_handler present (job_awaits? .. ▸ waits) replied) ran
      have facts : next.kind = handler.job.kind ∧ next.Ok := by
        rcases moved with facts | ⟨_, _, _, _, _, _, _, _, facts, _⟩ <;> exact facts
      refine (linked.kept (job_calls fits atZero) ran).setHandler
        (Stmt.execOnPage_keeps ran present) facts.1 facts.2 fun waits => ?_
      obtain ⟨dst, fn, body, target, addr, job, row, rfl, accepted, started⟩ :=
        Stmt.execOnPage_awaits (job_awaitsOwnCall ..) ran waits
      exact ⟨_, started, (job_call fits atZero row accepted).2 _⟩
  | failApp thread =>
      obtain ⟨rq, pc, next, inside, failed, rfl⟩ := PageState.step_failApp taken
      refine linked.setApp ?_
      intro rq' pc' resumed
      obtain ⟨rfl, rfl, notReturned⟩ := resumeOnPage_eq_some resumed
      have idle := Stmt.fail_ensures (faultHdlr_awaitsOwnCall ..) failed
      refine ⟨linked.runs inside, ?_, by simp [idle]⟩
      exact (Stmt.fail_ensures (faultHdlr_ensures_ok rq' _ (linked.appOk inside)) failed
        ).resolve_left notReturned
  | failHandler id =>
      obtain ⟨handler, next, present, failed, rfl⟩ := PageState.step_failHandler taken
      have manager : handler.job.kind.serves = true → cfg.isManager handler.node = true :=
        fun serves => by simp [linked.atManager present serves, zero]
      have facts := Stmt.fail_ensures (job_ensures_ok (linked.jobOk present) manager) failed
      have idle := Stmt.fail_ensures (job_awaitsOwnCall ..) failed
      exact linked.setHandler present facts.1 facts.2 (by simp [idle])

end Linked

/-! ### Reliable steps keep every instance attended -/

/-- The step is not the failure of a call. -/
def PageAction.reliable : PageAction → Bool
  | .failApp _ => false
  | .failHandler _ => false
  | _ => true

/-- A position that has a reply is a return. -/
theorem job_stmt_halt {cfg : Config} {self : NodeId} {addr : Addr} {job : Job} {reply : Reply}
    (replied : job.reply? = some reply) : job.stmt cfg self addr = .halt := by
  cases job with
  | servRd reqNode pc => cases pc <;> first | rfl | contradiction
  | servWr reqNode pc => cases pc <;> first | rfl | contradiction
  | fetch accessType pc => cases pc <;> first | rfl | contradiction
  | invalidate pc => cases pc <;> first | rfl | contradiction

/-- A thread that leaves a position where it waits has taken the reply. -/
theorem Stmt.execOnPage_replied {σ : Type} {self : NodeId} {tid : Tid} {fresh id : HandlerId}
    {stmt : Stmt σ} {st after : PageState} {next : σ} (waits : stmt.awaits? = some id)
    (ran : stmt.execOnPage self tid fresh st = some (next, after)) :
    ∃ reply, st.reply? id = some reply := by
  rcases execOnPage_cases ran with ⟨nd, onNode, rfl⟩ |
    ⟨_, _, _, _, _, _, rfl, _, _, _, rfl⟩ | ⟨_, _, _, _, reply, rfl, replied, _, _⟩
  · cases stmt <;> contradiction
  · contradiction
  · obtain rfl : _ = id := Option.some.inj waits
    exact ⟨reply, replied⟩

namespace Attended

variable {cfg : Config} {base : Addr} {st : PageState}

theorem initial : Attended PageState.initial := by
  intro id handler present
  simp [PageState.initial] at present

private theorem not_replied {id : HandlerId} {handler : PageHandler}
    (present : st.handler id = some handler) (running : handler.job.reply? = none)
    (replied : ∃ reply, st.reply? id = some reply) : False := by
  simp [PageState.reply?, present, running] at replied

theorem step {after : PageState} {action : PageAction} (attended : Attended st)
    (reliable : action.reliable = true) (taken : st.step cfg base action = some after) :
    Attended after := by
  cases action with
  | failApp => contradiction
  | failHandler => contradiction
  | store thread offset values =>
      obtain ⟨-, -, -, rfl⟩ := PageState.step_store taken
      exact attended
  | fault thread rq =>
      obtain ⟨-, outside, -, rfl⟩ := PageState.step_fault taken
      intro id handler present running
      rcases attended present running with ⟨other, rq', pc, inside, waits⟩ | byHandler
      · have different : other ≠ thread := by
          intro same
          subst same
          simp [outside] at inside
        exact .inl ⟨other, rq', pc, by simpa [PageState.setApp, different] using inside, waits⟩
      · exact .inr byHandler
  | app thread fresh =>
      obtain ⟨rq, pc, next, between, inside, ran, rfl⟩ := PageState.step_app taken
      intro id handler present running
      rcases Stmt.execOnPage_handler ran present with old | ⟨_, _, _, _, row, rfl, rfl, _⟩
      · rcases attended old running with ⟨other, rq', pc', otherInside, waits⟩ |
          ⟨caller, callerHandler, callerPresent, waits⟩
        · have different : other ≠ thread := by
            intro same
            subst same
            obtain ⟨rfl, rfl⟩ : rq = rq' ∧ pc = pc' := by simpa [inside] using otherInside
            exact not_replied old running
              (Stmt.execOnPage_replied ((faultHdlr_awaits? ..).trans waits) ran)
          refine .inl ⟨other, rq', pc', ?_, waits⟩
          simpa [PageState.setApp, different, Stmt.execOnPage_app ran] using otherInside
        · have kept := Stmt.execOnPage_keeps ran callerPresent
          exact .inr ⟨caller, callerHandler, kept, waits⟩
      · rename_i target _ _
        have own := faultHdlr_awaitsOwnCall cfg rq thread.node base pc
        rw [row] at own
        have asking : target id = .asking id := FaultPc.awaits?_eq_some (own id)
        exact .inl ⟨thread, rq, .asking id, by simp [asking, PageState.setApp, resumeOnPage], rfl⟩
  | handler moving fresh =>
      obtain ⟨mover, next, between, moverPresent, ran, rfl⟩ := PageState.step_handler taken
      have moverRunning : mover.job.reply? = none := by
        cases replied : mover.job.reply? with
        | none => rfl
        | some reply => simp [job_stmt_halt replied, Stmt.execOnPage, Stmt.runOnPage] at ran
      -- whoever attends an old instance still does
      have still : ∀ {id handler}, st.handler id = some handler → handler.job.reply? = none →
          (∃ thread rq pc, st.app thread = some (rq, pc) ∧ pc.awaits? = some id) ∨
            ∃ caller callerHandler, (between.setHandler moving { mover with job := next }).handler
              caller = some callerHandler ∧ callerHandler.job.awaits? = some id := by
        intro id handler old running
        refine (attended old running).imp_right ?_
        rintro ⟨caller, callerHandler, callerPresent, waits⟩
        have different : caller ≠ moving := by
          intro same
          subst same
          obtain rfl : mover = callerHandler := by simpa [moverPresent] using callerPresent
          exact not_replied old running
            (Stmt.execOnPage_replied ((job_awaits? ..).trans waits) ran)
        exact ⟨caller, callerHandler, by
          rw [PageState.setHandler_other _ _ different, Stmt.execOnPage_keeps ran callerPresent],
          waits⟩
      intro id handler present running
      have sameApps := Stmt.execOnPage_app ran
      have apps : (between.setHandler moving { mover with job := next }).app = st.app := sameApps
      rw [apps]
      by_cases same : id = moving
      · subst same
        exact still moverPresent moverRunning
      · rw [PageState.setHandler_other _ _ same] at present
        rcases Stmt.execOnPage_handler ran present with old | ⟨_, _, _, _, row, rfl, rfl, _⟩
        · exact still old running
        · have own := job_awaitsOwnCall cfg mover.node base mover.job
          rw [row] at own
          exact .inr ⟨moving, _, PageState.setHandler_self .., own id⟩

end Attended

end LibIvy
