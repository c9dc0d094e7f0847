import LibIvy.Page.Locks
import LibIvy.Page.Calls
import LibIvy.Protocol.Model

/-!
Contract: the protocol state that a page of the runtime stands for, when node
`0` is the manager and every node runs one application thread.

Owns: the phase of a faulting node, the stage of the request that holds the
manager's page lock, and what each kind of update does to them.

Does not own: the steps; see `LibIvy.Page.Refinement`.
-/

namespace LibIvy

open Lib Protocol

/-! ### Positions as phases and stages -/

/-- The phase that a position of a fault handler stands for. A grant is under way
as soon as the instance has returned. -/
def FaultPc.phase (reply? : HandlerId → Option Reply) (rq : Rq) : FaultPc → Phase Page
  | .entry => .waiting rq
  | .locked => .ready rq
  | .failed => .ready rq
  | .asking call =>
      match reply? call with
      | none => .asking rq
      | some reply => .granted rq reply.page?
  | .got memStr => .granted rq memStr.page?
  | .opened memStr => .opened rq memStr.page?
  | .copied =>
      match rq with
      | .rd => .copied
      | .wr => .closing .wr
  | .closed => .closing rq
  | .noted => .closing rq
  | .returned => .out

def FetchPc.stage : FetchPc → FetchStage Page
  | .entry => .pending
  | .locked => .pending
  | .readOnly => .opened
  | .copied memStr => .copied memStr.page?
  | .restricted memStr => .closed memStr.page?
  | .done memStr => .closed memStr.page?

def InvalidatePc.hasDropped : InvalidatePc → Bool
  | .entry => false
  | .locked => false
  | .dropped => true
  | .done => true

/-- How far a called instance is. -/
structure Progress where
  node : NodeId
  fetch : FetchStage Page
  dropped : Bool

def PageHandler.progress (handler : PageHandler) : Progress :=
  match handler.job with
  | .fetch _ pc => ⟨handler.node, pc.stage, false⟩
  | .invalidate pc => ⟨handler.node, .pending, pc.hasDropped⟩
  | .servRd _ _ => ⟨handler.node, .pending, false⟩
  | .servWr _ _ => ⟨handler.node, .pending, false⟩

/-- A new instance has done nothing. -/
theorem progress_accept {fn : RpcName} {body : Text} {addr : Addr} {node : NodeId} {job : Job}
    (accepted : fn.accept body = some (addr, job)) :
    PageHandler.progress ⟨node, job⟩ = ⟨node, .pending, false⟩ := by
  cases fn <;> simp only [RpcName.accept, Option.map_eq_some_iff, Prod.mk.injEq] at accepted <;>
    obtain ⟨_, _, _, rfl⟩ := accepted <;> rfl

/-- The stage of a read request; `look` is the progress of its calls. -/
def RdPc.stage (look : HandlerId → Progress) : RdPc → Stage Page
  | .entry => .started
  | .pageLocked => .started
  | .infoLocked => .started
  | .inserted => .listed
  | .gotOwner ownerNode => .fetching ownerNode [] .pending
  | .fetching ownerNode call => .fetching ownerNode [] (look call).fetch
  | .fetched pageContents => .fetched pageContents.page?
  | .infoUnlocked pageContents => .fetched pageContents.page?
  | .done pageContents => .fetched pageContents.page?
  | .callFailed => .backing
  | .backOff => .backing
  | .aborted => .backing

/-- The stage of a write request for `reqNode`. -/
def WrPc.stage (look : HandlerId → Progress) (reqNode : NodeId) : WrPc → Stage Page
  | .entry => .started
  | .pageLocked => .started
  | .gotOwner ownerNode => .erasing ownerNode
  | .infoLocked ownerNode => .erasing ownerNode
  | .erased ownerNode ivldSet =>
      if ownerNode = 0 ∨ ownerNode ≠ reqNode then .fetching ownerNode ivldSet .pending
      else .invalidating none ivldSet
  | .fetching ownerNode ivldSet call => .fetching ownerNode ivldSet (look call).fetch
  | .invalidating _ pageContents nodes => .invalidating pageContents.page? nodes
  | .invalidateSent _ pageContents nodes call =>
      .calling pageContents.page? nodes (look call).node (look call).dropped
  | .sent _ pageContents => .sent pageContents.page?
  | .cleared _ pageContents => .cleared pageContents.page?
  | .committed _ pageContents => .committed pageContents.page?
  | .infoUnlocked _ pageContents => .committed pageContents.page?
  | .done pageContents => .committed pageContents.page?
  | .callFailed => .backing
  | .backOff => .backing
  | .aborted => .backing

/-- The request that the instance `id` serves; `asking` tells who waits for it. -/
def Job.serving (asking : NodeId → HandlerId → Bool) (look : HandlerId → Progress)
    (id : HandlerId) : Job → Option (Serving Page)
  | .servRd reqNode pc => some ⟨.rd, reqNode, asking reqNode id, pc.stage look⟩
  | .servWr reqNode pc => some ⟨.wr, reqNode, asking reqNode id, pc.stage look reqNode⟩
  | .fetch _ _ => none
  | .invalidate _ => none

theorem Job.serving_congr {asking asking' : NodeId → HandlerId → Bool}
    {look look' : HandlerId → Progress} {id : HandlerId} {job : Job}
    (sameAsking : ∀ reqNode, asking' reqNode id = asking reqNode id)
    (sameLook : ∀ call, job.awaits? = some call → look' call = look call) :
    job.serving asking' look' id = job.serving asking look id := by
  cases job with
  | servRd reqNode pc =>
      cases pc <;> simp_all [Job.serving, RdPc.stage, Job.awaits?]
  | servWr reqNode pc =>
      cases pc <;> simp_all [Job.serving, WrPc.stage, Job.awaits?]
  | fetch accessType pc => rfl
  | invalidate pc => rfl

/-- The position replaces the owner next. -/
def Job.commits : Job → Bool
  | .servWr _ (.cleared _ _) => true
  | _ => false

theorem Job.eq_cleared {job : Job} (commits : job.commits = true) :
    ∃ reqNode ownerNode pageContents, job = .servWr reqNode (.cleared ownerNode pageContents) := by
  cases job with
  | servWr reqNode pc => cases pc <;> first | exact ⟨_, _, _, rfl⟩ | contradiction
  | _ => contradiction

/-! ### The protocol state of a page -/

namespace PageState

/-- The only application thread of a node. -/
def thread (node : NodeId) : AppId := ⟨node, 0⟩

variable (st : PageState)

def phase (node : NodeId) : Phase Page :=
  match st.app (thread node) with
  | none => .out
  | some (rq, pc) => pc.phase st.reply? rq

def progress (id : HandlerId) : Progress :=
  ((st.handler id).map PageHandler.progress).getD ⟨0, .pending, false⟩

/-- The node waits for the instance `id`. -/
def isAsking (node : NodeId) (id : HandlerId) : Bool :=
  match st.app (thread node) with
  | none => false
  | some (_, pc) => pc.awaits? == some id

/-- The instance that holds the manager's page lock. -/
def server : Option (HandlerId × Job) :=
  match (st.node 0).pageLock with
  | some (.handler id) => (st.handler id).map fun handler => (id, handler.job)
  | _ => none

def serving : Option (Serving Page) :=
  st.server.bind fun served => served.2.serving st.isAsking st.progress served.1

/-- The protocol state of the page; `current` is what the last store left. -/
def protocolState (current : Page) : State Page where
  prot := fun node => (st.node node).prot
  bytes := fun node => (st.node node).bytes
  copyset := (st.node 0).info.copyset
  owner := (st.node 0).info.owner
  current := current
  app := st.phase
  srv := st.serving

theorem protocolState_initial :
    initial.protocolState (fun _ => 0) = State.initial (fun _ => 0) := by
  refine State.ext rfl rfl rfl rfl rfl (funext fun node => ?_) rfl
  simp [protocolState, phase, initial, State.initial]

end PageState

/-! ### Who is served -/

section Server

variable {cfg : Config} {st : PageState} {id : HandlerId} {job : Job}

theorem Job.serves_of_held (held : job.held true .pageLocks = true) :
    job.kind.serves = true ∧ job.reply? = none := by
  cases job with
  | servRd reqNode pc => cases pc <;> simp_all [Job.held, Job.kind, JobKind.serves, Job.reply?]
  | servWr reqNode pc => cases pc <;> simp_all [Job.held, Job.kind, JobKind.serves, Job.reply?]
  | fetch accessType pc => cases pc <;> simp_all [Job.held]
  | invalidate pc => cases pc <;> simp_all [Job.held]

/-- A request in service holds the manager's page lock. -/
theorem LocksHeld.server_iff (locksHeld : LocksHeld cfg st) (zero : cfg.managerId = 0) :
    st.server = some (id, job) ↔
      st.handler id = some ⟨0, job⟩ ∧ job.held true .pageLocks = true := by
  have manager : cfg.isManager 0 = true := by simp [zero]
  have lock := locksHeld 0 .pageLocks (.handler id)
  simp only [NodePage.lock, PageState.Holds, manager] at lock
  constructor
  · intro serves
    have holder : (st.node 0).pageLock = some (.handler id) ∧
        ∃ handler, st.handler id = some handler ∧ handler.job = job := by
      simp only [PageState.server] at serves
      split at serves
      · rename_i other held
        simp only [Option.map_eq_some_iff, Prod.mk.injEq] at serves
        obtain ⟨handler, present, rfl, rfl⟩ := serves
        exact ⟨held, handler, present, rfl⟩
      · contradiction
    obtain ⟨holds, handler, present, rfl⟩ := holder
    obtain ⟨found, foundPresent, atZero, held⟩ := lock.mp holds
    obtain rfl : handler = found := by simpa [present] using foundPresent
    obtain ⟨node, job⟩ := handler
    obtain rfl : node = 0 := atZero
    exact ⟨present, held⟩
  · rintro ⟨present, held⟩
    simp [PageState.server, lock.mpr ⟨_, present, rfl, held⟩, present]

theorem PageState.server_none (free : (st.node 0).pageLock = none) : st.server = none := by
  simp [server, free]

theorem PageState.serving_none (free : (st.node 0).pageLock = none) : st.serving = none := by
  simp [serving, server_none free]

theorem LocksHeld.serving_eq (locksHeld : LocksHeld cfg st) (zero : cfg.managerId = 0)
    (present : st.handler id = some ⟨0, job⟩) (held : job.held true .pageLocks = true) :
    st.serving = job.serving st.isAsking st.progress id := by
  simp [PageState.serving, (locksHeld.server_iff zero).mpr ⟨present, held⟩]

/-- A worker in a phase that holds the page lock holds it in the runtime. -/
theorem PageState.holds_of_holdsLock {node : NodeId} (worker : cfg.isManager node = false)
    (held : (st.phase node).holdsLock = true) :
    st.Holds cfg node .pageLocks (.app (thread node)) := by
  simp only [PageState.phase] at held
  cases inside : st.app (thread node) with
  | none => simp [inside, Phase.holdsLock] at held
  | some app =>
      obtain ⟨rq, pc⟩ := app
      refine ⟨rfl, rq, pc, inside, ?_⟩
      rw [inside] at held
      cases pc <;> first | contradiction | simp [FaultPc.held, worker]

end Server

/-! ### Updates -/

namespace PageState

variable {st after : PageState} {current : Page}

theorem server_congr (sameLock : (after.node 0).pageLock = (st.node 0).pageLock)
    (sameHandler : ∀ id job, st.server = some (id, job) →
      after.handler id = st.handler id)
    (present : ∀ id, (st.node 0).pageLock = some (.handler id) → ∃ handler,
      st.handler id = some handler) : after.server = st.server := by
  simp only [server, sameLock]
  split
  · rename_i id held
    obtain ⟨handler, found⟩ := present id held
    rw [sameHandler id handler.job (by simp [server, held, found])]
  · rfl

/-- The request in service stays what it is when its lock, its instance, its
requester and the instance it waits for do. -/
theorem serving_congr (sameServer : after.server = st.server)
    (sameAsking : ∀ id job, st.server = some (id, job) →
      ∀ reqNode, after.isAsking reqNode id = st.isAsking reqNode id)
    (sameProgress : ∀ id job, st.server = some (id, job) →
      ∀ call, job.awaits? = some call → after.progress call = st.progress call) :
    after.serving = st.serving := by
  simp only [serving, sameServer]
  cases found : st.server with
  | none => rfl
  | some served =>
      exact Job.serving_congr (sameAsking _ _ found) (sameProgress _ _ found)

theorem phase_congr {node : NodeId} (sameApp : after.app (thread node) = st.app (thread node))
    (sameReply : ∀ rq call, st.app (thread node) = some (rq, .asking call) →
      after.reply? call = st.reply? call) : after.phase node = st.phase node := by
  simp only [phase, sameApp]
  cases inside : st.app (thread node) with
  | none => rfl
  | some app =>
      obtain ⟨rq, pc⟩ := app
      cases pc
      case asking call => simp [FaultPc.phase, sameReply rq call inside]
      all_goals rfl

@[simp] theorem setNode_reply? (node : NodeId) (nd : NodePage) :
    (st.setNode node nd).reply? = st.reply? := rfl

@[simp] theorem setApp_reply? (appId : AppId) (app : Option (Rq × FaultPc)) :
    (st.setApp appId app).reply? = st.reply? := rfl

@[simp] theorem setNode_progress (node : NodeId) (nd : NodePage) :
    (st.setNode node nd).progress = st.progress := rfl

@[simp] theorem setApp_progress (appId : AppId) (app : Option (Rq × FaultPc)) :
    (st.setApp appId app).progress = st.progress := rfl

theorem reply?_setHandler (id call : HandlerId) (handler : PageHandler) :
    (st.setHandler id handler).reply? call =
      if call = id then handler.job.reply? else st.reply? call := by
  by_cases same : call = id
  · simp [reply?, same]
  · simp [reply?, setHandler_other _ _ same, same]

theorem progress_setHandler (id call : HandlerId) (handler : PageHandler) :
    (st.setHandler id handler).progress call =
      if call = id then handler.progress else st.progress call := by
  by_cases same : call = id
  · simp [progress, same]
  · simp [progress, setHandler_other _ _ same, same]

theorem phase_resume (node : NodeId) (rq : Rq) (pc : FaultPc) :
    (st.setApp (thread node) (resumeOnPage rq pc)).phase =
      Function.update st.phase node (pc.phase st.reply? rq) := by
  funext other
  simp only [phase, setApp_reply?]
  by_cases same : other = node
  · subst same
    cases pc <;> simp [setApp, resumeOnPage, FaultPc.phase]
  · have different : thread other ≠ thread node := fun sameThread =>
      same (congrArg AppId.node sameThread)
    simp [phase, setApp, same, different]

theorem isAsking_resume (node other : NodeId) (rq : Rq) (pc : FaultPc) (id : HandlerId) :
    (st.setApp (thread node) (resumeOnPage rq pc)).isAsking other id =
      if other = node then pc.awaits? == some id else st.isAsking other id := by
  by_cases same : other = node
  · subst same
    cases pc <;> simp [isAsking, setApp, resumeOnPage, FaultPc.awaits?]
  · have different : thread other ≠ thread node := fun sameThread =>
      same (congrArg AppId.node sameThread)
    simp [isAsking, setApp, same, different]

/-- Moving a fault handler that the request in service is not for. -/
theorem protocolState_resume {node : NodeId} {rq : Rq} {next : FaultPc}
    (sameAsking : ∀ id job, st.server = some (id, job) →
      (next.awaits? == some id) = st.isAsking node id) :
    (st.setApp (thread node) (resumeOnPage rq next)).protocolState current =
      (st.protocolState current).setPhase node (next.phase st.reply? rq) := by
  refine State.ext rfl rfl rfl rfl rfl (phase_resume node rq next) ?_
  refine serving_congr rfl (fun id job served reqNode => ?_) fun _ _ _ _ _ => rfl
  rw [isAsking_resume]
  split
  · rename_i same
    rw [same, sameAsking id job served]
  · rfl

theorem setNode_field {α : Type} (field : NodePage → α) {node : NodeId} {nd : NodePage}
    (same : field nd = field (st.node node)) (other : NodeId) :
    field ((st.setNode node nd).node other) = field (st.node other) := by
  by_cases sameNode : other = node
  · subst sameNode
    simpa [setNode] using same
  · simp [setNode, sameNode]

/-- Updating protection and contents of a node. -/
theorem protocolState_setNode {node : NodeId} (nd : NodePage)
    (sameInfo : nd.info.copyset = (st.node node).info.copyset ∧
      nd.info.owner = (st.node node).info.owner)
    (sameLock : node = 0 → nd.pageLock = (st.node node).pageLock) :
    (st.setNode node nd).protocolState current =
      ((st.protocolState current).setProt node nd.prot).setBytes node nd.bytes := by
  have lock : ((st.setNode node nd).node 0).pageLock = (st.node 0).pageLock := by
    by_cases manager : node = 0
    · exact setNode_field (·.pageLock) (sameLock manager) 0
    · simp [setNode, Ne.symm manager]
  refine State.ext (funext fun other => ?_) (funext fun other => ?_)
    (setNode_field (·.info.copyset) sameInfo.1 0) (setNode_field (·.info.owner) sameInfo.2 0)
    rfl rfl ?_
  · by_cases same : other = node
    · subst same
      simp [protocolState, setNode, State.setProt, State.setBytes]
    · simp [protocolState, setNode, State.setProt, State.setBytes, same]
  · by_cases same : other = node
    · subst same
      simp [protocolState, setNode, State.setProt, State.setBytes]
    · simp [protocolState, setNode, State.setProt, State.setBytes, same]
  · have sameServer : (st.setNode node nd).server = st.server := by
      simp only [server, lock]
      rfl
    exact serving_congr sameServer (fun _ _ _ _ => rfl) fun _ _ _ _ _ => rfl

variable (st after) in
/-- An update that leaves protections, contents, threads and replies. -/
theorem protocolState_frame (sameApp : after.app = st.app)
    (sameProt : ∀ node, (after.node node).prot = (st.node node).prot)
    (sameBytes : ∀ node, (after.node node).bytes = (st.node node).bytes)
    (sameReply : ∀ node rq call, st.app (thread node) = some (rq, .asking call) →
      after.reply? call = st.reply? call) :
    after.protocolState current =
      { st.protocolState current with
        copyset := (after.node 0).info.copyset
        owner := (after.node 0).info.owner
        srv := after.serving } :=
  State.ext (funext sameProt) (funext sameBytes) rfl rfl rfl
    (funext fun node => phase_congr (by rw [sameApp]) (sameReply node)) rfl

end PageState

end LibIvy
