import LibIvy.Runtime.Machine

/-!
Contract: the system as seen from a single page.

Owns: the part of the system state that belongs to one page, the effect of a
statement on it, and the steps of one page. Positions, jobs and statements are
those of the runtime; addresses no longer matter.

Does not own: that the runtime behaves like this on each of its pages; see
`LibIvy.Page.Projection`.
-/

namespace LibIvy

open Lib AtomicMemory

/-- What one node keeps about one page. -/
structure NodePage where
  pageLock : Option Tid
  infoLock : Option Tid
  info : Info
  prot : AccessType
  bytes : Page

/-- A handler instance of this page. -/
structure PageHandler where
  node : NodeId
  job : Job

/-- The system restricted to one page. Application threads that are not inside
a fault handler for this page are `none`. -/
structure PageState where
  node : NodeId → NodePage
  app : AppId → Option (Rq × FaultPc)
  handler : HandlerId → Option PageHandler

def NodePage.initial : NodePage where
  pageLock := none
  infoLock := none
  info := Info.default
  prot := .none
  bytes := fun _ => 0

namespace NodePage

def lock (nd : NodePage) : LockTable → Option Tid
  | .pageLocks => nd.pageLock
  | .infoLocks => nd.infoLock

def setLock (nd : NodePage) (table : LockTable) (holder : Option Tid) : NodePage :=
  match table with
  | .pageLocks => { nd with pageLock := holder }
  | .infoLocks => { nd with infoLock := holder }

end NodePage

namespace PageState

def initial : PageState where
  node := fun _ => NodePage.initial
  app := fun _ => none
  handler := fun _ => none

def setNode (st : PageState) (id : NodeId) (nd : NodePage) : PageState :=
  { st with node := Function.update st.node id nd }

def setApp (st : PageState) (thread : AppId) (app : Option (Rq × FaultPc)) : PageState :=
  { st with app := Function.update st.app thread app }

def setHandler (st : PageState) (id : HandlerId) (handler : PageHandler) : PageState :=
  { st with handler := Function.update st.handler id (some handler) }

@[simp] theorem setNode_self (st : PageState) (id : NodeId) :
    st.setNode id (st.node id) = st := by
  simp [setNode]

@[simp] theorem setHandler_self (st : PageState) (id : HandlerId) (handler : PageHandler) :
    (st.setHandler id handler).handler id = some handler := by
  simp [setHandler]

theorem setHandler_other (st : PageState) {id other : HandlerId} (handler : PageHandler)
    (different : other ≠ id) : (st.setHandler id handler).handler other = st.handler other := by
  simp [setHandler, different]

/-- The reply of a handler instance that has returned. -/
def reply? (st : PageState) (id : HandlerId) : Option Reply := do
  let handler ← st.handler id
  handler.job.reply?

end PageState

/-- Effect of a local statement on the page, whatever address it names. -/
def Stmt.runOnPage {σ : Type} (tid : Tid) : Stmt σ → NodePage → Option (σ × NodePage)
  | .skip next, nd => some (next, nd)
  | .waitLock table _ next, nd =>
      match nd.lock table with
      | none => some (next, nd.setLock table (some tid))
      | some _ => none
  | .unlock table _ next, nd => some (next, nd.setLock table none)
  | .readOwner _ next, nd => some (next nd.info.owner, nd)
  | .setOwner _ owner next, nd => some (next, { nd with info := { nd.info with owner := owner } })
  | .copysetInsert _ node next, nd =>
      some (next, { nd with info := { nd.info with copyset := nd.info.copyset.insert node } })
  | .copysetErase _ node next, nd =>
      some (next (nd.info.copyset.erase node).elems,
        { nd with info := { nd.info with copyset := nd.info.copyset.erase node } })
  | .copysetClear _ next, nd => some (next, { nd with info := { nd.info with copyset := ∅ } })
  | .setInfoAccess _ access next, nd =>
      some (next, { nd with info := { nd.info with access := access } })
  | .setAccess _ access next, nd => some (next, { nd with prot := access })
  | .readPage _ next, nd =>
      if nd.prot.readable then some (next (.page nd.bytes), nd) else none
  | .memcpy _ contents next, nd =>
      match contents.contents? with
      | some bytes => if nd.prot.writable then some (next, { nd with bytes := bytes }) else none
      | none => none
  | .call _ _ _ _, _ => none
  | .await _ _ _ _, _ => none
  | .halt, _ => none

/-- One statement of a thread that works on this page. -/
def Stmt.execOnPage {σ : Type} (self : NodeId) (tid : Tid) (fresh : HandlerId) (stmt : Stmt σ)
    (st : PageState) : Option (σ × PageState) :=
  match stmt with
  | .call dst fn body next =>
      match st.handler fresh, fn.accept body with
      | none, some (_, job) => some (next fresh, st.setHandler fresh ⟨dst, job⟩)
      | _, _ => none
  | .await _ id next _ =>
      match st.reply? id with
      | some reply => some (next reply, st)
      | none => none
  | stmt =>
      match stmt.runOnPage tid (st.node self) with
      | some (next, nd) => some (next, st.setNode self nd)
      | none => none

section Exec

variable {σ : Type} {self : NodeId} {tid : Tid} {fresh : HandlerId} {st after : PageState}
variable {next target : σ}

/-- A thread that gets past a lock has found it free. -/
theorem Stmt.execOnPage_waitLock {table : LockTable} {key : Addr}
    (ran : (Stmt.waitLock table key next).execOnPage self tid fresh st = some (target, after)) :
    (st.node self).lock table = none ∧ target = next ∧
      after = st.setNode self ((st.node self).setLock table (some tid)) := by
  simp only [execOnPage, runOnPage] at ran
  split at ran
  case h_2 => contradiction
  case h_1 locked =>
    split at locked
    case h_2 => contradiction
    case h_1 free =>
      obtain ⟨rfl, rfl⟩ := locked
      obtain ⟨rfl, rfl⟩ := ran
      exact ⟨free, rfl, rfl⟩

/-- A thread that gets past a copy has the contents, and access. -/
theorem Stmt.execOnPage_memcpy {addr : Addr} {contents : Reply}
    (ran : (Stmt.memcpy addr contents next).execOnPage self tid fresh st = some (target, after)) :
    ∃ bytes, contents.contents? = some bytes ∧ (st.node self).prot.writable = true ∧
      target = next ∧ after = st.setNode self { st.node self with bytes := bytes } := by
  simp only [execOnPage, runOnPage] at ran
  split at ran
  case h_2 => contradiction
  case h_1 copied =>
    split at copied
    case h_2 => contradiction
    case h_1 bytes full =>
      split at copied
      case isFalse => contradiction
      case isTrue writable =>
        obtain ⟨rfl, rfl⟩ := copied
        obtain ⟨rfl, rfl⟩ := ran
        exact ⟨bytes, full, writable, rfl, rfl⟩

/-- A thread that gets past a load of the page has access. -/
theorem Stmt.execOnPage_readPage {addr : Addr} {use : Reply → σ}
    (ran : (Stmt.readPage addr use).execOnPage self tid fresh st = some (target, after)) :
    (st.node self).prot.readable = true ∧ target = use (.page (st.node self).bytes) ∧
      after = st.setNode self (st.node self) := by
  simp only [execOnPage, runOnPage] at ran
  split at ran
  case h_2 => contradiction
  case h_1 copied =>
    split at copied
    case isFalse => contradiction
    case isTrue readable =>
      obtain ⟨rfl, rfl⟩ := copied
      obtain ⟨rfl, rfl⟩ := ran
      exact ⟨readable, rfl, rfl⟩

end Exec

/-- An application thread after its fault handler moved to `pc`. -/
def resumeOnPage (rq : Rq) : FaultPc → Option (Rq × FaultPc)
  | .returned => none
  | pc => some (rq, pc)

theorem resumeOnPage_eq_some {rq rq' : Rq} {pc pc' : FaultPc}
    (resumed : resumeOnPage rq pc = some (rq', pc')) :
    rq' = rq ∧ pc' = pc ∧ pc ≠ .returned := by
  cases pc with
  | returned => contradiction
  | _ =>
      obtain ⟨rfl, rfl⟩ := Prod.mk.inj (Option.some.inj resumed)
      exact ⟨rfl, rfl, nofun⟩

theorem resumeOnPage_running {rq : Rq} {pc : FaultPc} (running : pc ≠ .returned) :
    resumeOnPage rq pc = some (rq, pc) := by
  cases pc <;> first | rfl | contradiction

/-- Steps that concern the page. -/
inductive PageAction where
  | store (thread : AppId) (offset : Nat) (values : List UInt8)
  | fault (thread : AppId) (rq : Rq)
  | app (thread : AppId) (fresh : HandlerId)
  | handler (id fresh : HandlerId)
  | failApp (thread : AppId)
  | failHandler (id : HandlerId)

/-- The page after a store of some of its bytes. -/
def writePage (bytes : Page) (offset : Nat) (values : List UInt8) : Page :=
  fun position =>
    if offset ≤ position.val then (values[position.val - offset]?).getD (bytes position)
    else bytes position

/-- One step of the page at `base`. -/
def PageState.step (cfg : Config) (base : Addr) (st : PageState) :
    PageAction → Option PageState
  | .store thread offset values =>
      if cfg.runs thread ∧ st.app thread = none ∧ (st.node thread.node).prot.writable then
        some (st.setNode thread.node
          { st.node thread.node with
            bytes := writePage (st.node thread.node).bytes offset values })
      else none
  | .fault thread rq =>
      if cfg.runs thread ∧ st.app thread = none ∧ rq.faults (st.node thread.node).prot then
        some (st.setApp thread (some (rq, .entry)))
      else none
  | .app thread fresh =>
      match st.app thread with
      | none => none
      | some (rq, pc) =>
          match (faultHdlr cfg rq thread.node base pc).execOnPage thread.node (.app thread)
              fresh st with
          | some (next, after) => some (after.setApp thread (resumeOnPage rq next))
          | none => none
  | .handler id fresh =>
      match st.handler id with
      | none => none
      | some handler =>
          match (handler.job.stmt cfg handler.node base).execOnPage handler.node (.handler id)
              fresh st with
          | some (next, after) => some (after.setHandler id { handler with job := next })
          | none => none
  | .failApp thread =>
      match st.app thread with
      | none => none
      | some (rq, pc) =>
          match (faultHdlr cfg rq thread.node base pc).fail? with
          | some next => some (st.setApp thread (resumeOnPage rq next))
          | none => none
  | .failHandler id =>
      match st.handler id with
      | none => none
      | some handler =>
          match (handler.job.stmt cfg handler.node base).fail? with
          | some next => some (st.setHandler id { handler with job := next })
          | none => none

/-! ### What a step can do -/

section Inversion

variable {cfg : Config} {base : Addr} {st after : PageState}

/-- What one statement of a thread does to its page. -/
theorem Stmt.execOnPage_cases {σ : Type} {self : NodeId} {tid : Tid} {fresh : HandlerId}
    {stmt : Stmt σ} {next : σ}
    (ran : stmt.execOnPage self tid fresh st = some (next, after)) :
    (∃ nd, stmt.runOnPage tid (st.node self) = some (next, nd) ∧ after = st.setNode self nd) ∨
    (∃ dst fn body target addr job, stmt = .call dst fn body target ∧ st.handler fresh = none ∧
      fn.accept body = some (addr, job) ∧ next = target fresh ∧
      after = st.setHandler fresh ⟨dst, job⟩) ∨
    (∃ rpc id target failed reply, stmt = .await rpc id target failed ∧
      st.reply? id = some reply ∧ next = target reply ∧ after = st) := by
  cases stmt with
  | call dst fn body target =>
      simp only [Stmt.execOnPage] at ran
      split at ran
      · rename_i addr job unused accepted
        obtain ⟨rfl, rfl⟩ := ran
        exact .inr (.inl ⟨dst, fn, body, target, addr, job, rfl, unused, accepted, rfl, rfl⟩)
      · contradiction
  | await rpc id target failed =>
      simp only [Stmt.execOnPage] at ran
      split at ran
      · rename_i reply replied
        obtain ⟨rfl, rfl⟩ := ran
        exact .inr (.inr ⟨rpc, id, target, failed, reply, rfl, replied, rfl, rfl⟩)
      · contradiction
  | _ =>
      simp only [Stmt.execOnPage] at ran
      split at ran
      · rename_i nd onNode
        obtain ⟨rfl, rfl⟩ := ran
        exact .inl ⟨nd, onNode, rfl⟩
      · contradiction

namespace PageState

theorem step_store {thread : AppId} {offset : Nat} {values : List UInt8}
    (taken : st.step cfg base (.store thread offset values) = some after) :
    cfg.runs thread = true ∧ st.app thread = none ∧
      (st.node thread.node).prot.writable = true ∧
      after = st.setNode thread.node
        { st.node thread.node with
          bytes := writePage (st.node thread.node).bytes offset values } := by
  simp only [step] at taken
  split at taken
  case isFalse => contradiction
  case isTrue permitted =>
    exact ⟨permitted.1, permitted.2.1, permitted.2.2, (Option.some.inj taken).symm⟩

theorem step_fault {thread : AppId} {rq : Rq}
    (taken : st.step cfg base (.fault thread rq) = some after) :
    cfg.runs thread = true ∧ st.app thread = none ∧
      rq.faults (st.node thread.node).prot = true ∧
      after = st.setApp thread (some (rq, .entry)) := by
  simp only [step] at taken
  split at taken
  case isFalse => contradiction
  case isTrue permitted =>
    exact ⟨permitted.1, permitted.2.1, permitted.2.2, (Option.some.inj taken).symm⟩

theorem step_app {thread : AppId} {fresh : HandlerId}
    (taken : st.step cfg base (.app thread fresh) = some after) :
    ∃ rq pc next between, st.app thread = some (rq, pc) ∧
      (faultHdlr cfg rq thread.node base pc).execOnPage thread.node (.app thread) fresh st =
        some (next, between) ∧
      after = between.setApp thread (resumeOnPage rq next) := by
  simp only [step] at taken
  split at taken
  case h_1 => contradiction
  case h_2 rq pc inside =>
    split at taken
    case h_2 => contradiction
    case h_1 next between ran =>
      exact ⟨rq, pc, next, between, inside, ran, (Option.some.inj taken).symm⟩

theorem step_handler {id fresh : HandlerId}
    (taken : st.step cfg base (.handler id fresh) = some after) :
    ∃ handler next between, st.handler id = some handler ∧
      (handler.job.stmt cfg handler.node base).execOnPage handler.node (.handler id) fresh st =
        some (next, between) ∧
      after = between.setHandler id { handler with job := next } := by
  simp only [step] at taken
  split at taken
  case h_1 => contradiction
  case h_2 handler present =>
    split at taken
    case h_2 => contradiction
    case h_1 next between ran =>
      exact ⟨handler, next, between, present, ran, (Option.some.inj taken).symm⟩

theorem step_failApp {thread : AppId}
    (taken : st.step cfg base (.failApp thread) = some after) :
    ∃ rq pc next, st.app thread = some (rq, pc) ∧
      (faultHdlr cfg rq thread.node base pc).fail? = some next ∧
      after = st.setApp thread (resumeOnPage rq next) := by
  simp only [step] at taken
  split at taken
  case h_1 => contradiction
  case h_2 rq pc inside =>
    split at taken
    case h_2 => contradiction
    case h_1 next failed =>
      exact ⟨rq, pc, next, inside, failed, (Option.some.inj taken).symm⟩

theorem step_failHandler {id : HandlerId}
    (taken : st.step cfg base (.failHandler id) = some after) :
    ∃ handler next, st.handler id = some handler ∧
      (handler.job.stmt cfg handler.node base).fail? = some next ∧
      after = st.setHandler id { handler with job := next } := by
  simp only [step] at taken
  split at taken
  case h_1 => contradiction
  case h_2 handler present =>
    split at taken
    case h_2 => contradiction
    case h_1 next failed =>
      exact ⟨handler, next, present, failed, (Option.some.inj taken).symm⟩

end PageState

end Inversion

end LibIvy
