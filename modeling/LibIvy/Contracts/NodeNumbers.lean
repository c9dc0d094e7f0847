import LibIvy.Runtime.Exposed

/-!
Contract: node numbers stay below the number of nodes.

Owns: the property for arbitrary deliveries, the deliveries for which it holds,
and a delivery for which it fails.

Does not own: the addresses of the requests.

The adapters pass on every number that `std::stoul` reads.
-/

namespace LibIvy

open Lib NumberText TransitionSystem

/-! ### Requests of existing nodes -/

/-- The body is a decimal address, `':'` and the decimal id of a node. -/
def PageRequestOf (cfg : Config) (body : Text) : Prop :=
  ∃ addrStr reqNodeStr, body = addrStr ++ ':' :: reqNodeStr ∧
    (addrStr ≠ [] ∧ ∀ c ∈ addrStr, c.isDigit = true) ∧
    (reqNodeStr ≠ [] ∧ ∀ c ∈ reqNodeStr, c.isDigit = true) ∧
    digitsValue 10 reqNodeStr < cfg.nodes.length

/-- A body that the adapters do not reject is a request of an existing node. -/
def Vetted (cfg : Config) (_ : Sys) : ExposedAction → Prop
  | .system _ => True
  | .deliver _ body _ => parsePageRequest body ≠ none → PageRequestOf cfg body

/-- The number that is passed on is the one in the body. -/
theorem PageRequestOf.listed {cfg : Config} {body : Text} {addr : Addr} {reqNode : NodeId}
    (request : PageRequestOf cfg body) (parsed : parsePageRequest body = some (addr, reqNode)) :
    reqNode < cfg.nodes.length := by
  obtain ⟨addrStr, reqNodeStr, rfl, ⟨-, addrDigits⟩, ⟨given, digits⟩, listed⟩ := request
  have plain : ':' ∉ addrStr := fun member => absurd (addrDigits _ member) (by decide)
  have fits : ¬wordCount ≤ digitsValue 10 reqNodeStr :=
    Nat.not_le.mpr (lt_trans listed cfg.vectorSize)
  simp only [parsePageRequest, splitAtFirst_append plain, stoul_decimal given digits, if_neg fits,
    Option.bind_eq_bind, Option.bind_some, Option.bind_eq_some_iff, Option.pure_def,
    Option.some.injEq, Prod.mk.injEq] at parsed
  obtain ⟨addrUl, -, -, rfl⟩ := parsed
  exact listed

/-! ### Positions and statements -/

/-- The node numbers that a position of `serv_rd_rq` keeps. -/
def RdPc.Below (bound : Nat) : RdPc → Prop
  | .gotOwner ownerNode => ownerNode < bound
  | .fetching ownerNode _ => ownerNode < bound
  | _ => True

/-- The node numbers that a position of `serv_wr_rq` keeps and will use. -/
def WrPc.Below (bound : Nat) : WrPc → Prop
  | .gotOwner ownerNode => ownerNode < bound
  | .infoLocked ownerNode => ownerNode < bound
  | .erased ownerNode ivldSet => ownerNode < bound ∧ ∀ node ∈ ivldSet, node < bound
  | .fetching _ ivldSet _ => ∀ node ∈ ivldSet, node < bound
  | .invalidating _ _ nodes => ∀ node ∈ nodes, node < bound
  | .invalidateSent _ _ nodes _ => ∀ node ∈ nodes, node < bound
  | _ => True

/-- The node numbers of a job. -/
def Job.Below (bound : Nat) : Job → Prop
  | .servRd reqNode pc => reqNode < bound ∧ pc.Below bound
  | .servWr reqNode pc => reqNode < bound ∧ pc.Below bound
  | .fetch _ _ => True
  | .invalidate _ => True

/-- The node numbers of a directory entry. -/
def Info.Below (bound : Nat) (entry : Info) : Prop :=
  entry.owner < bound ∧ ∀ node ∈ entry.copyset, node < bound

/-- With entries in range the statement stores and calls numbers in range, starts
jobs with numbers in range and leads to a good position. -/
def Stmt.Below {σ : Type} (bound : Nat) (good : σ → Prop) : Stmt σ → Prop
  | .skip next => good next
  | .waitLock _ _ next => good next
  | .unlock _ _ next => good next
  | .readOwner _ next => ∀ owner < bound, good (next owner)
  | .setOwner _ owner next => owner < bound ∧ good next
  | .copysetInsert _ node next => node < bound ∧ good next
  | .copysetErase _ _ next =>
      ∀ nodes : List NodeId, (∀ node ∈ nodes, node < bound) → good (next nodes)
  | .copysetClear _ next => good next
  | .setInfoAccess _ _ next => good next
  | .setAccess _ _ next => good next
  | .readPage _ next => ∀ contents, good (next contents)
  | .memcpy _ _ next => good next
  | .call dst fn body next =>
      dst < bound ∧ (∀ addr job, fn.accept body = some (addr, job) → job.Below bound) ∧
        ∀ id, good (next id)
  | .await _ _ next failed => (∀ reply, good (next reply)) ∧ good failed
  | .halt => True

@[simp] theorem Stmt.below_ite {σ : Type} {bound : Nat} {good : σ → Prop} (condition : Prop)
    [Decidable condition] (first second : Stmt σ) :
    (if condition then first else second).Below bound good ↔
      if condition then first.Below bound good else second.Below bound good := by
  split <;> rfl

theorem Stmt.below_map {σ τ : Type} {bound : Nat} {good : τ → Prop} (wrap : σ → τ)
    (stmt : Stmt σ) :
    (stmt.map wrap).Below bound good ↔ stmt.Below bound fun next => good (wrap next) := by
  cases stmt <;> rfl

section Rows

variable {cfg : Config} {self : NodeId} {addr : Addr}

/-- A fetch or an invalidation carries no node number. -/
theorem accept_fetchPg_below {bound : Nat} {body : Text} (addr : Addr) (job : Job)
    (accepted : RpcName.accept .fetchPg body = some (addr, job)) : job.Below bound := by
  obtain ⟨_, -, same⟩ := Option.map_eq_some_iff.mp accepted
  obtain ⟨-, rfl⟩ := Prod.mk.inj same
  trivial

theorem accept_invalidatePg_below {bound : Nat} {body : Text} (addr : Addr) (job : Job)
    (accepted : RpcName.accept .invalidatePg body = some (addr, job)) : job.Below bound := by
  obtain ⟨_, -, same⟩ := Option.map_eq_some_iff.mp accepted
  obtain ⟨-, rfl⟩ := Prod.mk.inj same
  trivial

theorem servRdRq_below {bound reqNode : Nat} {pc : RdPc} (selfBelow : self < bound)
    (reqBelow : reqNode < bound) (below : pc.Below bound) :
    (servRdRq cfg self addr reqNode pc).Below bound (RdPc.Below bound) := by
  cases pc <;> simp only [servRdRq, Stmt.below_ite]
  case gotOwner ownerNode =>
    split
    · exact ⟨selfBelow, accept_fetchPg_below, fun _ => below⟩
    · exact ⟨below, accept_fetchPg_below, fun _ => below⟩
  all_goals simp_all [Stmt.Below, RdPc.Below]

theorem servWrRq_below {bound reqNode : Nat} {pc : WrPc} (selfBelow : self < bound)
    (reqBelow : reqNode < bound) (below : pc.Below bound) :
    (servWrRq cfg self addr reqNode pc).Below bound (WrPc.Below bound) := by
  cases pc
  case erased ownerNode ivldSet =>
    simp only [servWrRq, Stmt.below_ite]
    split
    · exact ⟨selfBelow, accept_fetchPg_below, fun _ => below.2⟩
    · split
      · exact below.2
      · exact ⟨below.1, accept_fetchPg_below, fun _ => below.2⟩
  case invalidating ownerNode pageContents nodes =>
    cases nodes with
    | nil => trivial
    | cons node nodes =>
        obtain ⟨here, rest⟩ := List.forall_mem_cons.mp below
        exact ⟨here, accept_invalidatePg_below, fun _ => rest⟩
  case invalidateSent ownerNode pageContents nodes call =>
    refine ⟨fun reply => ?_, trivial⟩
    dsimp only
    split
    · exact below
    · trivial
  all_goals
    simp only [servWrRq, Stmt.below_ite]
    simp_all [Stmt.Below, WrPc.Below]

theorem job_below {bound : Nat} {job : Job} (selfBelow : self < bound) (below : job.Below bound) :
    (job.stmt cfg self addr).Below bound (Job.Below bound) := by
  cases job with
  | servRd reqNode pc =>
      obtain ⟨reqBelow, below⟩ := below
      rw [Job.stmt, Stmt.below_map]
      simpa [Job.Below, reqBelow] using servRdRq_below selfBelow reqBelow below
  | servWr reqNode pc =>
      obtain ⟨reqBelow, below⟩ := below
      rw [Job.stmt, Stmt.below_map]
      simpa [Job.Below, reqBelow] using servWrRq_below selfBelow reqBelow below
  | fetch accessType pc =>
      rw [Job.stmt, Stmt.below_map]
      cases pc <;> simp only [fetchPg, Stmt.below_ite] <;> simp [Stmt.Below, Job.Below]
  | invalidate pc =>
      rw [Job.stmt, Stmt.below_map]
      cases pc <;> simp only [invalidateAdapter, Stmt.below_ite] <;> simp [Stmt.Below, Job.Below]

/-- A job of an accepted page request carries the number in the body. -/
theorem PageRequestOf.job_below {body : Text} (rq : Rq) {addr : Addr} {job : Job}
    (request : PageRequestOf cfg body) (accepted : rq.handlerName.accept body = some (addr, job)) :
    job.Below cfg.nodes.length := by
  rw [Rq.accept_eq] at accepted
  obtain ⟨⟨_, reqNode⟩, parsed, same⟩ := Option.map_eq_some_iff.mp accepted
  obtain ⟨-, rfl⟩ := Prod.mk.inj same
  cases rq <;> exact ⟨request.listed parsed, trivial⟩

/-- A fault handler asks for an existing node. -/
theorem pageRequestOf_pageRequest {id : NodeId} (addr : Addr) (listed : id < cfg.nodes.length) :
    PageRequestOf cfg (pageRequest addr id) :=
  ⟨toText addr, toText id, rfl, ⟨toText_ne_nil addr, fun _ => isDigit_of_mem_toText⟩,
    ⟨toText_ne_nil id, fun _ => isDigit_of_mem_toText⟩, by rwa [digitsValue_toText]⟩

theorem faultHdlr_below {rq : Rq} {pc : FaultPc} (listed : self < cfg.nodes.length) :
    (faultHdlr cfg rq self addr pc).Below cfg.nodes.length fun _ => True := by
  have request := pageRequestOf_pageRequest (pgAlign addr) listed
  have dstListed : (if cfg.isManager self then self else 0) < cfg.nodes.length := by
    split
    · exact listed
    · exact lt_of_le_of_lt (Nat.zero_le _) listed
  cases rq with
  | rd =>
      cases pc <;> simp only [faultHdlr, rdFaultHdlr, Stmt.below_ite]
      case locked => exact ⟨dstListed, fun _ _ => request.job_below .rd, fun _ => trivial⟩
      all_goals simp [Stmt.Below]
  | wr =>
      cases pc <;> simp only [faultHdlr, wrFaultHdlr, Stmt.below_ite]
      case locked => exact ⟨dstListed, fun _ _ => request.job_below .wr, fun _ => trivial⟩
      all_goals simp [Stmt.Below]

end Rows

/-! ### Steps -/

/-- The step calls nodes below the bound only. -/
def CallsBelow (bound : Nat) (events : List Event) : Prop :=
  ∀ dst fn body, Event.call dst fn body ∈ events → dst < bound

/-- All node numbers of the system. -/
structure Sys.Below (bound : Nat) (s : Sys) : Prop where
  entries : ∀ node key, ((s.node node).info key).Below bound
  handlers : ∀ {id handler}, s.handler id = some handler →
    handler.node < bound ∧ handler.job.Below bound
  faults : ∀ {thread rq addr pc}, s.app thread = .fault rq addr pc → thread.node < bound

section Steps

variable {bound : Nat} {σ : Type} {good : σ → Prop} {self : NodeId} {tid : Tid} {stmt : Stmt σ}
  {next : σ} {events : List Event}

private theorem setInfo_below {nd : Node} (entries : ∀ key, (nd.info key).Below bound)
    {key : Addr} {entry : Info} (below : entry.Below bound) (other : Addr) :
    ((nd.setInfo key entry).info other).Below bound := by
  by_cases same : other = key
  · simpa [Node.setInfo, same] using below
  · simpa [Node.setInfo, same] using entries other

theorem Stmt.Below.runLocal {nd after : Node} (below : stmt.Below bound good)
    (entries : ∀ key, (nd.info key).Below bound)
    (ran : stmt.runLocal self tid nd = some (next, after, events)) :
    good next ∧ (∀ key, (after.info key).Below bound) ∧ CallsBelow bound events := by
  cases stmt with
  | skip target =>
      obtain ⟨rfl, rfl, rfl⟩ := ran
      exact ⟨below, entries, nofun⟩
  | waitLock table key target =>
      simp only [Stmt.runLocal] at ran
      split at ran
      · obtain ⟨rfl, rfl, rfl⟩ := ran
        exact ⟨below, by simpa using entries, by simp [CallsBelow]⟩
      · contradiction
  | unlock table key target =>
      obtain ⟨rfl, rfl, rfl⟩ := ran
      exact ⟨below, by simpa using entries, by simp [CallsBelow]⟩
  | readOwner key target =>
      obtain ⟨rfl, rfl, rfl⟩ := ran
      exact ⟨below _ (entries key).1, entries, by simp [CallsBelow]⟩
  | setOwner key owner target =>
      obtain ⟨rfl, rfl, rfl⟩ := ran
      exact ⟨below.2, setInfo_below entries ⟨below.1, (entries key).2⟩, by simp [CallsBelow]⟩
  | copysetInsert key node target =>
      obtain ⟨rfl, rfl, rfl⟩ := ran
      refine ⟨below.2, setInfo_below entries ⟨(entries key).1, fun other listed => ?_⟩,
        by simp [CallsBelow]⟩
      rcases NodeSet.mem_insert.mp listed with rfl | recorded
      · exact below.1
      · exact (entries key).2 other recorded
  | copysetErase key node target =>
      obtain ⟨rfl, rfl, rfl⟩ := ran
      have kept : ∀ other ∈ (nd.info key).copyset.erase node, other < bound :=
        fun other listed => (entries key).2 other (NodeSet.mem_erase.mp listed).2
      exact ⟨below _ kept, setInfo_below entries ⟨(entries key).1, kept⟩, by simp [CallsBelow]⟩
  | copysetClear key target =>
      obtain ⟨rfl, rfl, rfl⟩ := ran
      exact ⟨below, setInfo_below entries ⟨(entries key).1, by simp⟩, by simp [CallsBelow]⟩
  | setInfoAccess key access target =>
      obtain ⟨rfl, rfl, rfl⟩ := ran
      exact ⟨below, setInfo_below entries (entries key), by simp [CallsBelow]⟩
  | setAccess addr access target =>
      obtain ⟨rfl, rfl, rfl⟩ := ran
      exact ⟨below, entries, nofun⟩
  | readPage addr target =>
      simp only [Stmt.runLocal] at ran
      split at ran
      · obtain ⟨rfl, rfl, rfl⟩ := ran
        exact ⟨below _, entries, nofun⟩
      · contradiction
  | memcpy addr contents target =>
      simp only [Stmt.runLocal] at ran
      split at ran
      · split at ran
        · obtain ⟨rfl, rfl, rfl⟩ := ran
          exact ⟨below, entries, nofun⟩
        · contradiction
      · contradiction
  | call dst fn body target => contradiction
  | await rpc id target failed => contradiction
  | halt => contradiction

theorem Sys.Below.setHandler {s : Sys} (below : s.Below bound) {id : HandlerId}
    {handler : Handler} (node : handler.node < bound) (job : handler.job.Below bound) :
    (s.setHandler id handler).Below bound where
  entries := below.entries
  faults := below.faults
  handlers := by
    intro other found present
    by_cases same : other = id
    · obtain rfl : handler = found := by simpa [Sys.setHandler, same] using present
      exact ⟨node, job⟩
    · exact below.handlers (by simpa [Sys.setHandler, same] using present)

theorem Sys.Below.setApp {s : Sys} (below : s.Below bound) {thread : AppId}
    (listed : thread.node < bound) (app : App) : (s.setApp thread app).Below bound where
  entries := below.entries
  handlers := below.handlers
  faults := by
    intro other rq addr pc inside
    by_cases same : other = thread
    · exact same ▸ listed
    · exact below.faults (by simpa [Sys.setApp, same] using inside)

theorem Sys.Below.setNode {s : Sys} (below : s.Below bound) {id : NodeId} {nd : Node}
    (entries : ∀ key, (nd.info key).Below bound) : (s.setNode id nd).Below bound where
  handlers := below.handlers
  faults := below.faults
  entries := by
    intro node key
    by_cases same : node = id
    · simpa [Sys.setNode, same] using entries key
    · simpa [Sys.setNode, same] using below.entries node key

theorem Stmt.Below.exec {fresh : HandlerId} {s after : Sys} (safe : stmt.Below bound good)
    (below : s.Below bound) (ran : stmt.exec self tid fresh s = some (next, after, events)) :
    good next ∧ after.Below bound ∧ CallsBelow bound events := by
  rcases Stmt.exec_cases ran with ⟨nd, onNode, rfl⟩ |
    ⟨dst, fn, body, target, addr, job, rfl, -, accepted, rfl, rfl, rfl⟩ |
    ⟨rpc, id, target, failed, reply, rfl, -, rfl, rfl, rfl⟩
  · obtain ⟨reached, entries, calls⟩ := safe.runLocal (below.entries self) onNode
    exact ⟨reached, below.setNode entries, calls⟩
  · obtain ⟨listed, started, onward⟩ := safe
    refine ⟨onward fresh, below.setHandler listed (started addr job accepted), ?_⟩
    intro callee name sent called
    obtain ⟨rfl, -, -⟩ : callee = dst ∧ name = fn ∧ sent = body := by simpa using called
    exact listed
  · exact ⟨safe.1 reply, below, nofun⟩

/-- The target of a failed call is one of the statement's. -/
theorem Stmt.Below.fail (safe : stmt.Below bound good) (failed : stmt.fail? = some next) :
    good next := by
  cases stmt with
  | await rpc id target onFailure =>
      cases rpc with
      | true =>
          obtain rfl : onFailure = next := by simpa [Stmt.fail?] using failed
          exact safe.2
      | false => simp [Stmt.fail?] at failed
  | _ => contradiction

end Steps

section Runs

variable {cfg : Config} {s after : Sys} {trace events : List Event}

theorem Sys.Below.step {action : Action} (below : s.Below cfg.nodes.length)
    (taken : s.step cfg action = some (after, events)) :
    after.Below cfg.nodes.length ∧ CallsBelow cfg.nodes.length events := by
  cases action with
  | load thread addr count =>
      obtain ⟨-, -, -, -, rfl, rfl⟩ := Sys.step_load taken
      exact ⟨below, by simp [CallsBelow]⟩
  | store thread addr values =>
      obtain ⟨-, -, -, -, rfl, rfl⟩ := Sys.step_store taken
      exact ⟨below.setNode (below.entries thread.node), by simp [CallsBelow]⟩
  | fault thread rq addr =>
      obtain ⟨-, runs, -, -, rfl, rfl⟩ := Sys.step_fault taken
      exact ⟨below.setApp (Config.runs_node runs).1 _, nofun⟩
  | app thread fresh =>
      obtain ⟨rq, addr, pc, next, between, inside, ran, rfl⟩ := Sys.step_app taken
      have listed := below.faults inside
      obtain ⟨-, between, calls⟩ := (faultHdlr_below listed).exec below ran
      exact ⟨between.setApp listed _, calls⟩
  | handler id fresh =>
      obtain ⟨handler, next, between, present, ran, rfl⟩ := Sys.step_handler taken
      obtain ⟨listed, job⟩ := below.handlers present
      obtain ⟨reached, between, calls⟩ := (job_below listed job).exec below ran
      exact ⟨between.setHandler listed reached, calls⟩
  | failApp thread =>
      obtain ⟨rq, addr, pc, next, inside, -, rfl, rfl⟩ := Sys.step_failApp taken
      exact ⟨below.setApp (below.faults inside) _, nofun⟩
  | failHandler id =>
      obtain ⟨handler, next, present, failed, rfl, rfl⟩ := Sys.step_failHandler taken
      obtain ⟨listed, job⟩ := below.handlers present
      exact ⟨below.setHandler listed ((job_below listed job).fail failed), nofun⟩

theorem Sys.Below.deliver {rq : Rq} {body : Text} {fresh : HandlerId}
    (below : s.Below cfg.nodes.length) (vetted : Vetted cfg s (.deliver rq body fresh))
    (taken : s.deliver cfg rq body fresh = some (after, events)) :
    after.Below cfg.nodes.length ∧ CallsBelow cfg.nodes.length events := by
  obtain ⟨rfl, ⟨-, rfl⟩ | ⟨addr, job, accepted, -, rfl⟩⟩ := Sys.deliver_cases taken
  · exact ⟨below, nofun⟩
  · have request := vetted (Rq.parses_of_accept accepted)
    exact ⟨below.setHandler cfg.managerListed (request.job_below _ accepted), nofun⟩

theorem Sys.below_initial (cfg : Config) : Sys.initial.Below cfg.nodes.length where
  entries := fun _ _ => ⟨lt_of_le_of_lt (Nat.zero_le _) cfg.managerListed, by simp [Sys.initial,
    Node.initial, Info.default]⟩
  handlers := nofun
  faults := nofun

theorem below_of_run (run : Run (exposed cfg) (Vetted cfg) trace s) :
    s.Below cfg.nodes.length ∧ CallsBelow cfg.nodes.length trace := by
  refine run.invariant (fun trace s => s.Below cfg.nodes.length ∧ CallsBelow cfg.nodes.length trace)
    ⟨Sys.below_initial cfg, nofun⟩ ?_
  rintro trace events before after action - ⟨below, calls⟩ vetted taken
  have preserved : after.Below cfg.nodes.length ∧ CallsBelow cfg.nodes.length events := by
    cases action with
    | system action => exact below.step taken
    | deliver rq body fresh => exact below.deliver vetted taken
  refine ⟨preserved.1, fun dst fn body called => ?_⟩
  rcases List.mem_append.mp called with earlier | now
  · exact calls dst fn body earlier
  · exact preserved.2 dst fn body now

/-- The owner and the readers of every page are nodes, every call went to a node,
and a delivery that is no request of an existing node changes nothing. -/
def NodeNumbersBelow (cfg : Config) (allowed : Sys → ExposedAction → Prop) (trace : List Event)
    (s : Sys) : Prop :=
  (∀ key, ((s.node cfg.managerId).info key).owner < cfg.nodes.length ∧
    ∀ node ∈ ((s.node cfg.managerId).info key).copyset, node < cfg.nodes.length) ∧
  (∀ dst fn body, Event.call dst fn body ∈ trace → dst < cfg.nodes.length) ∧
  ∀ rq body fresh after events, ¬PageRequestOf cfg body → allowed s (.deliver rq body fresh) →
    (exposed cfg).step s (.deliver rq body fresh) = some (after, events) → after = s

/-- Node numbers are in range when every delivered body that the adapters do not
reject is a request of an existing node. -/
theorem node_numbers_below (run : Run (exposed cfg) (Vetted cfg) trace s) :
    NodeNumbersBelow cfg (Vetted cfg) trace s := by
  obtain ⟨below, calls⟩ := below_of_run run
  refine ⟨below.entries cfg.managerId, calls, ?_⟩
  intro rq body fresh after events other vetted taken
  obtain ⟨-, ⟨-, unchanged⟩ | ⟨addr, job, accepted, -, -⟩⟩ := Sys.deliver_cases taken
  · exact unchanged
  · exact absurd (vetted (Rq.parses_of_accept accepted)) other

end Runs

/-! ### Two bodies -/

/-- The number of the first page, `1099511627776`. -/
def firstPageText : Text := ['1', '0', '9', '9', '5', '1', '1', '6', '2', '7', '7', '7', '6']

/-- Node `1` asks for the first page. -/
theorem node_numbers_below_after_request :
    ∃ (trace : List Event) (s : Sys), ((s.node 0).info firstPage).copyset = NodeSet.insert 1 ∅ ∧
      NodeNumbersBelow threeNodes (Vetted threeNodes) trace s := by
  have sound : ∀ (s : Sys) (action : ExposedAction), (match action with
      | .system _ => true
      | .deliver _ body _ => body == firstPageText ++ [':', '1']) = true →
      Vetted threeNodes s action := by
    rintro s (action | ⟨rq, body, fresh⟩) tested
    · trivial
    · obtain rfl := eq_of_beq tested
      exact fun _ => ⟨firstPageText, ['1'], rfl, ⟨by decide, List.all_eq_true.mp rfl⟩,
        ⟨by decide, List.all_eq_true.mp rfl⟩, by decide⟩
  obtain ⟨trace, s, run, checked⟩ := exists_run (exposed threeNodes) _
    (fun s _ => decide (((s.node 0).info firstPage).copyset = NodeSet.insert 1 ∅))
    (.deliver .rd (firstPageText ++ [':', '1']) 0 :: (moves 4 (.handler 0 1)).map .system) sound
    (by decide +kernel)
  exact ⟨trace, s, of_decide_eq_true checked, node_numbers_below run⟩

/-- The directory records node `5` of three. -/
theorem node_numbers_below_fails :
    ¬∀ (cfg : Config) (trace : List Event) (s : Sys), Run (exposed cfg) anyStep trace s →
      NodeNumbersBelow cfg anyStep trace s := by
  intro always
  obtain ⟨trace, s, run, checked⟩ := exists_run (exposed threeNodes) (fun _ _ => true)
    (fun s _ => decide (5 ∈ ((s.node 0).info firstPage).copyset))
    (.deliver .rd (firstPageText ++ [':', '5']) 0 :: (moves 4 (.handler 0 1)).map .system)
    (fun _ _ _ => trivial) (by decide +kernel)
  have listed := ((always threeNodes trace s run).1 firstPage).2 5 (of_decide_eq_true checked)
  exact absurd listed (by decide)

end LibIvy
