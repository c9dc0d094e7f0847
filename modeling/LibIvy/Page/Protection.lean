import LibIvy.Page.Runs

/-!
Contract: who changes the protection of a page, and with what right.

Owns: the statements that set a protection, the request behind every reply that
a fault handler has got, and the exclusion between a fault handler that makes a
worker's page writable and a callback that has just taken access away.

Does not own: the order of these steps in a run.

Nothing here depends on which node is the manager, on the number of threads or on
reliable RPC.
-/

namespace LibIvy

open Lib NumberText TransitionSystem

/-! ### Statements that set the protection -/

/-- The protection that a statement sets. -/
def Stmt.prot? {σ : Type} : Stmt σ → Option AccessType
  | .setAccess _ access _ => some access
  | _ => none

@[simp] theorem Stmt.prot?_ite {σ : Type} (condition : Prop) [Decidable condition]
    (first second : Stmt σ) :
    (if condition then first else second).prot? =
      if condition then first.prot? else second.prot? := by
  split <;> rfl

@[simp] theorem Stmt.prot?_map {σ τ : Type} (wrap : σ → τ) (stmt : Stmt σ) :
    (stmt.map wrap).prot? = stmt.prot? := by
  cases stmt <;> rfl

theorem Stmt.runOnPage_prot {σ : Type} {tid : Tid} {stmt : Stmt σ} {next : σ} {nd after : NodePage}
    (ran : stmt.runOnPage tid nd = some (next, after)) : after.prot = stmt.prot?.getD nd.prot := by
  cases stmt with
  | call => contradiction
  | await => contradiction
  | halt => contradiction
  | waitLock table key target =>
      simp only [runOnPage] at ran
      split at ran
      · obtain ⟨rfl, rfl⟩ := ran
        cases table <;> rfl
      · contradiction
  | unlock table key target =>
      obtain ⟨rfl, rfl⟩ := ran
      cases table <;> rfl
  | readPage addr target =>
      simp only [runOnPage] at ran
      split at ran
      · obtain ⟨rfl, rfl⟩ := ran
        rfl
      · contradiction
  | memcpy addr contents target =>
      simp only [runOnPage] at ran
      split at ran
      · split at ran
        · obtain ⟨rfl, rfl⟩ := ran
          rfl
        · contradiction
      · contradiction
  | _ =>
      obtain ⟨rfl, rfl⟩ := ran
      rfl

/-- A statement changes the protection of its own node only. -/
theorem Stmt.execOnPage_prot {σ : Type} {self : NodeId} {tid : Tid} {fresh : HandlerId}
    {stmt : Stmt σ} {next : σ} {st after : PageState} (node : NodeId)
    (ran : stmt.execOnPage self tid fresh st = some (next, after)) :
    (after.node node).prot =
      if node = self then stmt.prot?.getD (st.node node).prot else (st.node node).prot := by
  rcases execOnPage_cases ran with ⟨nd, onNode, rfl⟩ | ⟨_, _, _, _, _, _, rfl, _, _, _, rfl⟩ |
    ⟨_, _, _, _, _, rfl, _, _, rfl⟩
  · by_cases same : node = self
    · subst same
      simp [PageState.setNode, runOnPage_prot onNode]
    · simp [PageState.setNode, same]
  · simp [Stmt.prot?, PageState.setHandler]
  · simp [Stmt.prot?]

/-- The protection that a fault handler sets next. -/
def FaultPc.prot? (rq : Rq) : FaultPc → Option AccessType
  | .got _ => some .rw
  | .copied => if rq = .rd then some .rd else none
  | _ => none

/-- The protection that a served function sets next. -/
def Job.prot? : Job → Option AccessType
  | .fetch _ .locked => some .rd
  | .fetch accessType (.copied _) => some accessType
  | .invalidate .locked => some .none
  | _ => none

theorem faultHdlr_prot? (cfg : Config) (rq : Rq) (id : NodeId) (addr : Addr) (pc : FaultPc) :
    (faultHdlr cfg rq id addr pc).prot? = none ∨
      (faultHdlr cfg rq id addr pc).prot? = pc.prot? rq := by
  cases rq <;> cases pc <;> simp only [faultHdlr, rdFaultHdlr, wrFaultHdlr, Stmt.prot?_ite] <;>
    simp [Stmt.prot?, FaultPc.prot?]
  exact (em _).symm

theorem job_prot? {cfg : Config} {self : NodeId} {addr : Addr} {job : Job} :
    (job.stmt cfg self addr).prot? = job.prot? := by
  cases job with
  | servRd reqNode pc =>
      rw [Job.stmt, Stmt.prot?_map]
      cases pc <;> simp only [servRdRq, Stmt.prot?_ite] <;> simp [Stmt.prot?, Job.prot?]
  | servWr reqNode pc =>
      rw [Job.stmt, Stmt.prot?_map]
      cases pc
      case invalidating ownerNode pageContents nodes => cases nodes <;> rfl
      all_goals
        simp only [servWrRq, Stmt.prot?_ite]
        simp [Stmt.prot?, Job.prot?]
  | fetch accessType pc =>
      rw [Job.stmt, Stmt.prot?_map]
      cases pc <;> simp only [fetchPg, Stmt.prot?_ite] <;> simp [Stmt.prot?, Job.prot?]
  | invalidate pc =>
      rw [Job.stmt, Stmt.prot?_map]
      cases pc <;> simp only [invalidateAdapter, Stmt.prot?_ite] <;> simp [Stmt.prot?, Job.prot?]

/-! ### The request behind a reply -/

/-- Positions of a request past the check that its node is the manager. -/
def Job.checked : Job → Bool
  | .servRd _ .entry => false
  | .servRd _ .pageLocked => false
  | .servRd _ .aborted => false
  | .servRd _ _ => true
  | .servWr _ .entry => false
  | .servWr _ .pageLocked => false
  | .servWr _ .aborted => false
  | .servWr _ _ => true
  | _ => false

/-- A job stays what it is, and passes the check on the manager only. -/
theorem job_ensures_kind (cfg : Config) (self : NodeId) (addr : Addr) (job : Job) :
    (job.stmt cfg self addr).Ensures
      (fun next => next.kind = job.kind ∧
        (next.checked = true → job.checked = true ∨ cfg.isManager self = true))
      (fun _ next => next.kind = job.kind ∧
        (next.checked = true → job.checked = true ∨ cfg.isManager self = true))
      (fun _ => True) := by
  cases job with
  | servRd reqNode pc =>
      rw [Job.stmt, Stmt.ensures_map]
      cases pc <;> simp only [servRdRq, Stmt.ensures_ite] <;>
        simp_all [Stmt.Ensures, Job.kind, Job.checked]
  | servWr reqNode pc =>
      rw [Job.stmt, Stmt.ensures_map]
      cases pc
      case invalidating ownerNode pageContents nodes =>
        cases nodes <;> simp [servWrRq, Stmt.Ensures, Job.kind, Job.checked]
      case invalidateSent ownerNode pageContents nodes call =>
        refine ⟨fun reply _ => ?_, rfl, fun _ => .inl rfl⟩
        dsimp only
        split <;> exact ⟨rfl, fun _ => .inl rfl⟩
      all_goals
        simp only [servWrRq, Stmt.ensures_ite]
        simp_all [Stmt.Ensures, Job.kind, Job.checked]
  | fetch accessType pc =>
      rw [Job.stmt, Stmt.ensures_map]
      cases pc <;> simp only [fetchPg, Stmt.ensures_ite] <;>
        simp [Stmt.Ensures, Job.kind, Job.checked]
  | invalidate pc =>
      rw [Job.stmt, Stmt.ensures_map]
      cases pc <;> simp only [invalidateAdapter, Stmt.ensures_ite] <;>
        simp [Stmt.Ensures, Job.kind, Job.checked]

/-- A new instance has not passed the check, and a fetch leaves no write access. -/
theorem RpcName.accept_granting {fn : RpcName} {body : Text} {addr : Addr} {job : Job}
    (accepted : fn.accept body = some (addr, job)) :
    job.checked = false ∧ ∀ access, job.kind = .fetch access → access.writable = false := by
  have ok := accept_ok accepted
  cases fn <;> simp only [RpcName.accept, Option.map_eq_some_iff, Prod.mk.injEq] at accepted <;>
    obtain ⟨request, parsed, -, rfl⟩ := accepted
  case fetchPg =>
    refine ⟨rfl, ?_⟩
    intro access same
    cases same
    rcases ok.1 with same | same <;> rw [same] <;> rfl
  all_goals
    refine ⟨rfl, ?_⟩
    intro access fetches
    contradiction

/-- A fault handler asks for its own node. -/
theorem faultHdlr_asks {cfg : Config} {rq : Rq} {id : NodeId} {base : Addr} {pc : FaultPc}
    {dst : NodeId} {fn : RpcName} {body : Text} {next : HandlerId → FaultPc} {addr : Addr}
    {job : Job} (idFits : id < wordCount)
    (row : faultHdlr cfg rq id base pc = .call dst fn body next)
    (accepted : fn.accept body = some (addr, job)) : job.kind = rq.kind id := by
  cases pc with
  | locked =>
      cases rq <;>
        obtain ⟨-, rfl, rfl, -⟩ := row <;>
        obtain ⟨⟨_, reqNode⟩, parsed, same⟩ := Option.map_eq_some_iff.mp accepted <;>
        obtain ⟨-, rfl⟩ := Prod.mk.inj same <;>
        obtain rfl := reqNode_of_pageRequest idFits parsed <;>
        rfl
  | _ =>
      cases rq <;> simp only [faultHdlr, rdFaultHdlr, wrFaultHdlr] at row <;>
        (try split at row) <;> contradiction

/-- A fault handler gets the reply it has waited for. -/
theorem faultHdlr_gets {cfg : Config} {rq : Rq} {id : NodeId} {base : Addr} {pc : FaultPc}
    (received : Reply → Prop) :
    (faultHdlr cfg rq id base pc).Ensures
      (fun next => ∀ memStr, next = .got memStr → pc.awaits? ≠ none ∧ received memStr)
      (fun _ next => ∀ memStr, next ≠ .got memStr) received := by
  cases rq <;> cases pc <;>
    simp only [faultHdlr, rdFaultHdlr, wrFaultHdlr, Stmt.ensures_ite] <;>
    simp [Stmt.Ensures, FaultPc.awaits?]

namespace PageState

variable {cfg : Config} {base : Addr} {st after : PageState}

/-- Instances stay what they are and where they are; one that has returned stays
where it has returned. -/
def Keeps (st after : PageState) : Prop :=
  ∀ id handler, st.handler id = some handler →
    ∃ job, after.handler id = some ⟨handler.node, job⟩ ∧ job.kind = handler.job.kind ∧
      ∀ reply, handler.job.reply? = some reply → job = handler.job

theorem Keeps.refl (st : PageState) : st.Keeps st :=
  fun _ handler present => ⟨handler.job, present, rfl, fun _ _ => rfl⟩

/-- A job that moves keeps the others, and its kind. -/
theorem Keeps.setHandler {between : PageState} {id : HandlerId} {handler : PageHandler} {job : Job}
    (keeps : ∀ other found, st.handler other = some found → between.handler other = some found)
    (present : st.handler id = some handler) (kind : job.kind = handler.job.kind)
    (running : handler.job.reply? = none) :
    st.Keeps (between.setHandler id { handler with job := job }) := by
  intro other found foundPresent
  by_cases same : other = id
  · subst same
    obtain rfl : handler = found := by simpa [present] using foundPresent
    exact ⟨job, setHandler_self .., kind, by simp [running]⟩
  · exact ⟨found.job, by rw [setHandler_other _ _ same, keeps _ _ foundPresent], rfl, fun _ _ => rfl⟩

theorem step_keeps {action : PageAction} (taken : st.step cfg base action = some after) :
    st.Keeps after := by
  cases action with
  | store thread offset values =>
      obtain ⟨-, -, -, rfl⟩ := step_store taken
      exact .refl st
  | fault thread rq =>
      obtain ⟨-, -, -, rfl⟩ := step_fault taken
      exact .refl st
  | app thread fresh =>
      obtain ⟨rq, pc, next, between, -, ran, rfl⟩ := step_app taken
      intro id handler present
      have kept : between.handler id = some handler := Stmt.execOnPage_keeps ran present
      exact ⟨handler.job, kept, rfl, fun _ _ => rfl⟩
  | handler id fresh =>
      obtain ⟨handler, next, between, present, ran, rfl⟩ := step_handler taken
      refine .setHandler (fun _ _ => Stmt.execOnPage_keeps ran) present ?_ ?_
      · rcases Stmt.execOnPage_ensures (job_ensures_kind ..) (fun _ _ _ _ => trivial) ran with
          kind | ⟨_, _, _, _, _, _, _, _, kind, _⟩ <;> exact kind.1
      · cases replied : handler.job.reply? with
        | none => rfl
        | some reply => simp [job_stmt_halt replied, Stmt.execOnPage, Stmt.runOnPage] at ran
  | failApp thread =>
      obtain ⟨rq, pc, next, -, -, rfl⟩ := step_failApp taken
      exact .refl st
  | failHandler moving =>
      obtain ⟨handler, next, present, failed, rfl⟩ := step_failHandler taken
      refine .setHandler (fun _ _ => id) present (Stmt.fail_ensures (job_ensures_kind ..) failed).1 ?_
      cases replied : handler.job.reply? with
      | none => rfl
      | some reply => simp [job_stmt_halt replied, Stmt.fail?] at failed

/-- The node has got a reply from a request of the kind that it made. -/
def Granted (cfg : Config) (st : PageState) (rq : Rq) (node : NodeId) (memStr : Reply) : Prop :=
  ∃ id handler, st.handler id = some handler ∧ cfg.isManager handler.node = true ∧
    handler.job.kind = rq.kind node ∧ handler.job.reply? = some memStr

theorem Granted.keep {rq : Rq} {node : NodeId} {memStr : Reply}
    (granted : st.Granted cfg rq node memStr) (keeps : st.Keeps after) :
    after.Granted cfg rq node memStr := by
  obtain ⟨id, handler, present, manager, kind, replied⟩ := granted
  obtain ⟨job, kept, -, same⟩ := keeps _ _ present
  obtain rfl := same memStr replied
  exact ⟨id, handler, kept, manager, kind, replied⟩

end PageState

/-- A reply has returned from the position past the check. -/
theorem Job.checked_of_reply {job : Job} {reply : Reply} (replied : job.reply? = some reply)
    (serves : job.kind.serves = true) : job.checked = true := by
  cases job with
  | servRd reqNode pc => cases pc <;> simp_all [Job.reply?, Job.checked]
  | servWr reqNode pc => cases pc <;> simp_all [Job.reply?, Job.checked]
  | fetch accessType pc => contradiction
  | invalidate pc => contradiction

/-- Every fault handler waits for a request of its own kind and node, and what it
has got is what the manager has returned for one. -/
structure Granting (cfg : Config) (st : PageState) : Prop where
  runs : ∀ {thread rq pc}, st.app thread = some (rq, pc) → cfg.runs thread = true
  asked : ∀ {thread rq pc call}, st.app thread = some (rq, pc) → pc.awaits? = some call →
    ∃ handler, st.handler call = some handler ∧ handler.job.kind = rq.kind thread.node
  got : ∀ {thread rq memStr}, st.app thread = some (rq, .got memStr) →
    st.Granted cfg rq thread.node memStr
  checked : ∀ {id handler}, st.handler id = some handler → handler.job.checked = true →
    cfg.isManager handler.node = true
  fetches : ∀ {id handler access}, st.handler id = some handler →
    handler.job.kind = .fetch access → access.writable = false

namespace Granting

variable {cfg : Config} {base : Addr} {st after : PageState}

theorem initial : Granting cfg PageState.initial where
  runs := by simp [PageState.initial]
  asked := by simp [PageState.initial]
  got := by simp [PageState.initial]
  checked := by simp [PageState.initial]
  fetches := by simp [PageState.initial]

/-- Instances that a statement may start. -/
theorem started {σ : Type} {self : NodeId} {tid : Tid} {fresh : HandlerId} {stmt : Stmt σ}
    {next : σ} {between : PageState} (granting : Granting cfg st)
    (ran : stmt.execOnPage self tid fresh st = some (next, between)) :
    (∀ {id handler}, between.handler id = some handler → handler.job.checked = true →
      cfg.isManager handler.node = true) ∧
    ∀ {id handler access}, between.handler id = some handler →
      handler.job.kind = .fetch access → access.writable = false := by
  constructor
  · intro id handler present checked
    rcases Stmt.execOnPage_handler ran present with old | ⟨_, _, _, _, _, _, _, accepted⟩
    · exact granting.checked old checked
    · simp [(RpcName.accept_granting accepted).1] at checked
  · intro id handler access present kind
    rcases Stmt.execOnPage_handler ran present with old | ⟨_, _, _, _, _, _, _, accepted⟩
    · exact granting.fetches old kind
    · exact (RpcName.accept_granting accepted).2 access kind

/-- One thread moves, the others keep what they wait for and what they have got. -/
theorem setApp {between : PageState} {thread : AppId} {app : Option (Rq × FaultPc)}
    (granting : Granting cfg st) (keeps : st.Keeps between) (sameApps : between.app = st.app)
    (checked : ∀ {id handler}, between.handler id = some handler → handler.job.checked = true →
      cfg.isManager handler.node = true)
    (fetches : ∀ {id handler access}, between.handler id = some handler →
      handler.job.kind = .fetch access → access.writable = false)
    (moved : ∀ {rq pc}, app = some (rq, pc) → cfg.runs thread = true ∧
      (∀ call, pc.awaits? = some call →
        ∃ handler, between.handler call = some handler ∧
          handler.job.kind = rq.kind thread.node) ∧
      ∀ memStr, pc = .got memStr → between.Granted cfg rq thread.node memStr) :
    Granting cfg (between.setApp thread app) where
  checked := checked
  fetches := fetches
  runs := by
    intro other rq pc inside
    by_cases same : other = thread
    · subst same
      exact (moved (by simpa [PageState.setApp] using inside)).1
    · exact granting.runs (by simpa [PageState.setApp, same, sameApps] using inside)
  asked := by
    intro other rq pc call inside waits
    by_cases same : other = thread
    · subst same
      exact (moved (by simpa [PageState.setApp] using inside)).2.1 call waits
    · obtain ⟨handler, present, kind⟩ :=
        granting.asked (by simpa [PageState.setApp, same, sameApps] using inside) waits
      obtain ⟨job, kept, sameKind, -⟩ := keeps _ _ present
      exact ⟨_, kept, sameKind.trans kind⟩
  got := by
    intro other rq memStr inside
    by_cases same : other = thread
    · subst same
      exact (moved (by simpa [PageState.setApp] using inside)).2.2 memStr rfl
    · exact (granting.got (by simpa [PageState.setApp, same, sameApps] using inside)).keep keeps

/-- A fault handler after one statement. -/
theorem moved {thread : AppId} {fresh : HandlerId} {rq : Rq} {pc next : FaultPc}
    {between : PageState} (granting : Granting cfg st) (inside : st.app thread = some (rq, pc))
    (ran : (faultHdlr cfg rq thread.node base pc).execOnPage thread.node (.app thread) fresh st =
      some (next, between)) :
    (∀ call, next.awaits? = some call → ∃ handler, between.handler call = some handler ∧
      handler.job.kind = rq.kind thread.node) ∧
    ∀ memStr, next = .got memStr → between.Granted cfg rq thread.node memStr := by
  constructor
  · intro call waits
    obtain ⟨dst, fn, body, target, addr, job, row, -, accepted, present⟩ :=
      Stmt.execOnPage_awaits (faultHdlr_awaitsOwnCall ..) ran waits
    exact ⟨_, present, faultHdlr_asks (Config.node_fits (granting.runs inside)) row accepted⟩
  · intro memStr same
    subst same
    have received := Stmt.execOnPage_ensures
      (faultHdlr_gets fun reply => ∀ call, pc.awaits? = some call → st.reply? call = some reply)
      (fun id reply waits replied call same => by
        obtain rfl : id = call := by simpa [faultHdlr_awaits?, same, eq_comm] using waits
        exact replied) ran
    rcases received with received | ⟨_, _, _, _, _, _, _, _, notGot, _⟩
    · obtain ⟨waits, received⟩ := received memStr rfl
      obtain ⟨call, waits⟩ := Option.ne_none_iff_exists'.mp waits
      obtain ⟨handler, present, kind⟩ := granting.asked inside waits
      have replied : handler.job.reply? = some memStr := by
        simpa [PageState.reply?, present] using received call waits
      have serves : handler.job.kind.serves = true := by
        rw [kind]
        cases rq <;> rfl
      exact ⟨call, handler, Stmt.execOnPage_keeps ran present,
        granting.checked present (Job.checked_of_reply replied serves), kind, replied⟩
    · exact absurd rfl (notGot memStr)

/-- A served function after one statement or a failure. -/
theorem setHandler {between : PageState} {id : HandlerId} {handler : PageHandler} {job : Job}
    (granting : Granting cfg st)
    (keeps : st.Keeps (between.setHandler id { handler with job := job }))
    (present : st.handler id = some handler)
    (sameApps : between.app = st.app)
    (started : (∀ {id handler}, between.handler id = some handler → handler.job.checked = true →
        cfg.isManager handler.node = true) ∧
      ∀ {id handler access}, between.handler id = some handler →
        handler.job.kind = .fetch access → access.writable = false)
    (kind : job.kind = handler.job.kind ∧
      (job.checked = true → handler.job.checked = true ∨ cfg.isManager handler.node = true)) :
    Granting cfg (between.setHandler id { handler with job := job }) where
  runs inside := granting.runs (sameApps ▸ inside)
  asked := by
    intro thread rq pc call inside waits
    obtain ⟨found, foundPresent, foundKind⟩ := granting.asked (sameApps ▸ inside) waits
    obtain ⟨_, kept, sameKind, -⟩ := keeps _ _ foundPresent
    exact ⟨_, kept, sameKind.trans foundKind⟩
  got inside := (granting.got (sameApps ▸ inside)).keep keeps
  checked := by
    intro other found foundPresent checked
    by_cases same : other = id
    · subst same
      obtain rfl : { handler with job := job } = found := by simpa using foundPresent
      exact (kind.2 checked).elim (granting.checked present) fun manager => manager
    · exact started.1 (by rwa [PageState.setHandler_other _ _ same] at foundPresent) checked
  fetches := by
    intro other found access foundPresent foundKind
    by_cases same : other = id
    · subst same
      obtain rfl : { handler with job := job } = found := by simpa using foundPresent
      exact granting.fetches present (kind.1.symm.trans foundKind)
    · exact started.2 (by rwa [PageState.setHandler_other _ _ same] at foundPresent) foundKind

theorem step {action : PageAction} (granting : Granting cfg st)
    (taken : st.step cfg base action = some after) : Granting cfg after := by
  have keeps := PageState.step_keeps taken
  cases action with
  | store thread offset values =>
      obtain ⟨-, -, -, rfl⟩ := PageState.step_store taken
      exact ⟨granting.runs, granting.asked, granting.got, granting.checked, granting.fetches⟩
  | fault thread rq =>
      obtain ⟨runs, -, -, rfl⟩ := PageState.step_fault taken
      refine granting.setApp (.refl st) rfl granting.checked granting.fetches ?_
      intro _ _ same
      cases same
      exact ⟨runs, nofun, nofun⟩
  | app thread fresh =>
      obtain ⟨rq, pc, next, between, inside, ran, rfl⟩ := PageState.step_app taken
      obtain ⟨checked, fetches⟩ := granting.started ran
      refine granting.setApp keeps (Stmt.execOnPage_app ran) checked fetches ?_
      intro rq' pc' resumed
      obtain ⟨rfl, rfl, -⟩ := resumeOnPage_eq_some resumed
      exact ⟨granting.runs inside, granting.moved inside ran⟩
  | handler id fresh =>
      obtain ⟨handler, next, between, present, ran, rfl⟩ := PageState.step_handler taken
      refine granting.setHandler keeps present (Stmt.execOnPage_app ran) (granting.started ran) ?_
      rcases Stmt.execOnPage_ensures (job_ensures_kind ..) (fun _ _ _ _ => trivial) ran with
        kind | ⟨_, _, _, _, _, _, _, _, kind, _⟩ <;> exact kind
  | failApp thread =>
      obtain ⟨rq, pc, next, inside, failed, rfl⟩ := PageState.step_failApp taken
      refine granting.setApp (.refl st) rfl granting.checked granting.fetches ?_
      intro rq' pc' resumed
      obtain ⟨rfl, rfl, -⟩ := resumeOnPage_eq_some resumed
      have idle := Stmt.fail_ensures (faultHdlr_awaitsOwnCall ..) failed
      refine ⟨granting.runs inside, by simp [idle], ?_⟩
      intro memStr same
      subst same
      exact absurd (Stmt.fail_ensures (faultHdlr_gets fun _ => False) failed memStr rfl).2 id
  | failHandler id =>
      obtain ⟨handler, next, present, failed, rfl⟩ := PageState.step_failHandler taken
      have kind := Stmt.fail_ensures (job_ensures_kind ..) failed
      exact granting.setHandler keeps present rfl ⟨granting.checked, granting.fetches⟩ kind

end Granting

/-! ### Write access and callbacks exclude each other -/

/-- The fault handler is between its two `set_access` calls of a read. -/
def FaultPc.copying : FaultPc → Bool
  | .opened _ => true
  | .copied => true
  | _ => false

/-- The callback has set a protection and has not returned. -/
def Job.hasRevoked : Job → Bool
  | .fetch _ .readOnly => true
  | .fetch _ (.copied _) => true
  | .fetch _ (.restricted _) => true
  | .invalidate .dropped => true
  | _ => false

/-- The next statement of the callback is its return. -/
def Job.returns : Job → Bool
  | .fetch _ (.restricted _) => true
  | .invalidate .dropped => true
  | _ => false

namespace PageState

variable {cfg : Config} {base : Addr} {st after : PageState} {worker : NodeId}

/-- A thread of the node copies a page that the node only reads. -/
def Copying (st : PageState) (worker : NodeId) : Prop :=
  ∃ idx pc, st.app ⟨worker, idx⟩ = some (.rd, pc) ∧ pc.copying = true

/-- A callback on the node that has set a protection has left no write access. -/
def Revoked (st : PageState) (worker : NodeId) : Prop :=
  ∀ id handler, st.handler id = some handler → handler.node = worker →
    handler.job.hasRevoked = true → (st.node worker).prot.writable = false

end PageState

theorem Job.held_of_hasRevoked {job : Job} (revoked : job.hasRevoked = true) :
    job.held false .pageLocks = true := by
  cases job with
  | fetch accessType pc => cases pc <;> simp_all [Job.hasRevoked, Job.held]
  | invalidate pc => cases pc <;> simp_all [Job.hasRevoked, Job.held]
  | _ => contradiction

theorem Job.hasRevoked_of_returns {job : Job} (returns : job.returns = true) :
    job.hasRevoked = true := by
  cases job with
  | fetch accessType pc => cases pc <;> first | rfl | contradiction
  | invalidate pc => cases pc <;> first | rfl | contradiction
  | _ => contradiction

/-- A callback sets a protection or has set one before. -/
theorem job_ensures_hasRevoked (cfg : Config) (self : NodeId) (addr : Addr) (job : Job) :
    (job.stmt cfg self addr).Ensures
      (fun next => next.hasRevoked = true → job.hasRevoked = true ∨ job.prot? ≠ none)
      (fun _ next => next.hasRevoked = false) (fun _ => True) := by
  cases job with
  | servRd reqNode pc =>
      rw [Job.stmt, Stmt.ensures_map]
      cases pc <;> simp only [servRdRq, Stmt.ensures_ite] <;> simp [Stmt.Ensures, Job.hasRevoked]
  | servWr reqNode pc =>
      rw [Job.stmt, Stmt.ensures_map]
      cases pc
      case invalidating ownerNode pageContents nodes =>
        cases nodes <;> simp [servWrRq, Stmt.Ensures, Job.hasRevoked]
      case invalidateSent ownerNode pageContents nodes call =>
        refine ⟨fun reply _ => ?_, by simp [Job.hasRevoked]⟩
        dsimp only
        split <;> simp [Job.hasRevoked]
      all_goals
        simp only [servWrRq, Stmt.ensures_ite]
        simp [Stmt.Ensures, Job.hasRevoked]
  | fetch accessType pc =>
      rw [Job.stmt, Stmt.ensures_map]
      cases pc <;> simp only [fetchPg, Stmt.ensures_ite] <;>
        simp [Stmt.Ensures, Job.hasRevoked, Job.prot?]
  | invalidate pc =>
      rw [Job.stmt, Stmt.ensures_map]
      cases pc <;> simp only [invalidateAdapter, Stmt.ensures_ite] <;>
        simp [Stmt.Ensures, Job.hasRevoked, Job.prot?]

/-- A protection that a callback sets allows no writes. -/
theorem Granting.prot {cfg : Config} {st : PageState} (granting : Granting cfg st)
    {id : HandlerId} {handler : PageHandler} {access : AccessType}
    (present : st.handler id = some handler) (sets : handler.job.prot? = some access) :
    access.writable = false := by
  obtain ⟨node, job⟩ := handler
  cases job with
  | fetch accessType pc =>
      have kept := granting.fetches present rfl
      cases pc <;> simp only [Job.prot?, reduceCtorEq, Option.some.injEq] at sets
      case locked => rw [← sets]; rfl
      case copied => rwa [← sets]
  | invalidate pc =>
      cases pc <;> simp only [Job.prot?, reduceCtorEq, Option.some.injEq] at sets
      case locked => rw [← sets]; rfl
  | _ => contradiction

/-- A new instance has set no protection. -/
theorem RpcName.accept_hasRevoked {fn : RpcName} {body : Text} {addr : Addr} {job : Job}
    (accepted : fn.accept body = some (addr, job)) : job.hasRevoked = false := by
  cases fn <;> simp only [RpcName.accept, Option.map_eq_some_iff, Prod.mk.injEq] at accepted <;>
    obtain ⟨_, _, _, rfl⟩ := accepted <;> rfl

namespace PageState

variable {cfg : Config} {base : Addr} {st after : PageState} {worker : NodeId}

/-- A thread that copies goes on copying until it sets the final protection. -/
theorem Copying.app {thread : AppId} {fresh : HandlerId} {rq : Rq} {pc next : FaultPc}
    {between : PageState} (copying : st.Copying worker) (inside : st.app thread = some (rq, pc))
    (ran : (faultHdlr cfg rq thread.node base pc).execOnPage thread.node (.app thread) fresh st =
      some (next, between)) :
    (between.setApp thread (resumeOnPage rq next)).Copying worker ∨
      thread.node = worker ∧ (faultHdlr cfg rq thread.node base pc).prot? = some .rd := by
  obtain ⟨idx, other, otherInside, copies⟩ := copying
  have sameApps := Stmt.execOnPage_app ran
  by_cases same : (⟨worker, idx⟩ : AppId) = thread
  · subst same
    obtain ⟨rfl, rfl⟩ : rq = .rd ∧ pc = other := by simpa [inside] using otherInside
    cases pc <;> try contradiction
    case opened memStr =>
      refine .inl ⟨idx, .copied, ?_, rfl⟩
      obtain ⟨_, -, -, moved, -⟩ := Stmt.execOnPage_memcpy ran
      simp [moved, setApp, resumeOnPage]
    case copied => exact .inr ⟨rfl, rfl⟩
  · exact .inl ⟨idx, other, by simpa [setApp, same, sameApps] using otherInside, copies⟩

/-- How a node can write after a step: a fault handler has just set the access, or
it could write before and no callback on it has set a protection or returned. -/
theorem step_writable {action : PageAction} (granting : Granting cfg st)
    (revoked : st.Revoked worker) (taken : st.step cfg base action = some after)
    (writable : (after.node worker).prot.writable = true) :
    (∃ thread fresh rq memStr, action = .app thread fresh ∧ thread.node = worker ∧
      st.app thread = some (rq, .got memStr) ∧ (rq = .rd → after.Copying worker)) ∨
    ((st.node worker).prot.writable = true ∧ (st.Copying worker → after.Copying worker) ∧
      ∀ id fresh handler, action = .handler id fresh → st.handler id = some handler →
        handler.node = worker → handler.job.returns = false ∧ handler.job.prot? = none) := by
  cases action with
  | store thread offset values =>
      obtain ⟨-, -, -, rfl⟩ := step_store taken
      refine .inr ⟨?_, fun copying => copying, by simp⟩
      by_cases same : worker = thread.node
      · subst same
        simpa [setNode] using writable
      · simpa [setNode, same] using writable
  | fault thread rq =>
      obtain ⟨-, outside, -, rfl⟩ := step_fault taken
      refine .inr ⟨writable, ?_, by simp⟩
      rintro ⟨idx, pc, inside, copies⟩
      have different : (⟨worker, idx⟩ : AppId) ≠ thread := by
        intro same
        subst same
        simp [outside] at inside
      exact ⟨idx, pc, by simpa [setApp, different] using inside, copies⟩
  | app thread fresh =>
      obtain ⟨rq, pc, next, between, inside, ran, rfl⟩ := step_app taken
      have prot := Stmt.execOnPage_prot worker ran
      have writable : (between.node worker).prot.writable = true := writable
      by_cases same : worker = thread.node
      case neg =>
        rw [if_neg same] at prot
        refine .inr ⟨prot ▸ writable, fun copying => ?_, by simp⟩
        exact (copying.app inside ran).resolve_right fun copies => same copies.1.symm
      case pos =>
        rw [if_pos same] at prot
        cases sets : (faultHdlr cfg rq thread.node base pc).prot? with
        | none =>
            rw [sets, Option.getD_none] at prot
            refine .inr ⟨prot ▸ writable, fun copying => ?_, by simp⟩
            exact (copying.app inside ran).resolve_right fun copies => by simp [sets] at copies
        | some access =>
            have fromPc : pc.prot? rq = some access := by
              rcases faultHdlr_prot? cfg rq thread.node base pc with none | same
              · simp [none] at sets
              · rw [← same, sets]
            cases pc <;> simp only [FaultPc.prot?, reduceCtorEq] at fromPc
            case got memStr =>
              refine .inl ⟨thread, fresh, rq, memStr, rfl, same.symm, inside, ?_⟩
              intro same
              subst same
              have moved : next = .opened memStr := by
                simp only [faultHdlr, rdFaultHdlr] at ran
                split at ran
                · obtain ⟨rfl, -⟩ := ran
                  rfl
                · contradiction
              exact ⟨thread.idx, .opened memStr, by simp [same, moved, setApp, resumeOnPage], rfl⟩
            case copied =>
              split at fromPc
              · obtain rfl := Option.some.inj fromPc
                simp [prot, sets, AccessType.writable] at writable
              · contradiction
  | handler id fresh =>
      obtain ⟨handler, next, between, present, ran, rfl⟩ := step_handler taken
      have prot := Stmt.execOnPage_prot worker ran
      have writable : (between.node worker).prot.writable = true := writable
      rw [job_prot?] at prot
      have sameApps := Stmt.execOnPage_app ran
      have copies : st.Copying worker →
          (between.setHandler id { handler with job := next }).Copying worker := by
        rintro ⟨idx, pc, inside, copies⟩
        exact ⟨idx, pc, by simpa [setHandler, sameApps] using inside, copies⟩
      by_cases same : worker = handler.node
      case neg =>
        rw [if_neg same] at prot
        refine .inr ⟨prot ▸ writable, copies, ?_⟩
        rintro _ _ found ⟨rfl, rfl⟩ foundPresent here
        obtain rfl : handler = found := by simpa [present] using foundPresent
        exact absurd here.symm same
      case pos =>
        rw [if_pos same] at prot
        cases sets : handler.job.prot? with
        | some access =>
            rw [prot, sets, Option.getD_some, granting.prot present sets] at writable
            contradiction
        | none =>
            rw [sets, Option.getD_none] at prot
            have before : (st.node worker).prot.writable = true := prot ▸ writable
            refine .inr ⟨before, copies, ?_⟩
            rintro _ _ found ⟨rfl, rfl⟩ foundPresent here
            obtain rfl : handler = found := by simpa [present] using foundPresent
            refine ⟨Bool.eq_false_iff.mpr fun returns => ?_, sets⟩
            have denied := revoked id handler present here (Job.hasRevoked_of_returns returns)
            simp [denied] at before
  | failApp thread =>
      obtain ⟨rq, pc, next, inside, failed, rfl⟩ := step_failApp taken
      refine .inr ⟨writable, ?_, by simp⟩
      rintro ⟨idx, other, otherInside, copies⟩
      refine ⟨idx, other, ?_, copies⟩
      have different : (⟨worker, idx⟩ : AppId) ≠ thread := by
        intro same
        subst same
        obtain ⟨rfl, rfl⟩ : rq = .rd ∧ pc = other := by simpa [inside] using otherInside
        cases pc <;> contradiction
      simpa [setApp, different] using otherInside
  | failHandler id =>
      obtain ⟨handler, next, present, failed, rfl⟩ := step_failHandler taken
      exact .inr ⟨writable, fun copying => copying, by simp⟩

/-- Where a callback that has set a protection was before the step. -/
theorem hasRevoked_origin {action : PageAction} {id : HandlerId} {handler : PageHandler}
    (taken : st.step cfg base action = some after) (present : after.handler id = some handler)
    (has : handler.job.hasRevoked = true) :
    st.handler id = some handler ∨ ∃ fresh found, action = .handler id fresh ∧
      st.handler id = some found ∧ handler.node = found.node ∧
      (found.job.hasRevoked = true ∨ found.job.prot? ≠ none) := by
  cases action with
  | store thread offset values =>
      obtain ⟨-, -, -, rfl⟩ := step_store taken
      exact .inl present
  | fault thread rq =>
      obtain ⟨-, -, -, rfl⟩ := step_fault taken
      exact .inl present
  | app thread fresh =>
      obtain ⟨rq, pc, next, between, -, ran, rfl⟩ := step_app taken
      rcases Stmt.execOnPage_handler ran present with old | ⟨_, _, _, _, _, _, _, accepted⟩
      · exact .inl old
      · simp [RpcName.accept_hasRevoked accepted] at has
  | handler moving fresh =>
      obtain ⟨found, next, between, foundPresent, ran, rfl⟩ := step_handler taken
      by_cases same : id = moving
      · subst same
        obtain rfl : { found with job := next } = handler := by simpa using present
        refine .inr ⟨fresh, found, rfl, foundPresent, rfl, ?_⟩
        rcases Stmt.execOnPage_ensures (job_ensures_hasRevoked ..) (fun _ _ _ _ => trivial) ran
          with before | ⟨_, _, _, _, _, _, _, _, fresh, _⟩
        · exact before has
        · exact absurd has (by simp [fresh])
      · rw [setHandler_other _ _ same] at present
        rcases Stmt.execOnPage_handler ran present with old | ⟨_, _, _, _, _, _, _, accepted⟩
        · exact .inl old
        · simp [RpcName.accept_hasRevoked accepted] at has
  | failApp thread =>
      obtain ⟨rq, pc, next, -, -, rfl⟩ := step_failApp taken
      exact .inl present
  | failHandler moving =>
      obtain ⟨found, next, foundPresent, failed, rfl⟩ := step_failHandler taken
      by_cases same : id = moving
      · subst same
        obtain rfl : { found with job := next } = handler := by simpa using present
        cases row : found.job.stmt cfg found.node base with
        | await rpc call target onFailure =>
            have ensures := Stmt.fail_ensures (job_ensures_hasRevoked ..) failed has
            cases job : found.job with
            | fetch accessType pc =>
                rw [job] at row
                cases pc <;> simp only [Job.stmt, fetchPg] at row <;> (try split at row) <;>
                  contradiction
            | invalidate pc =>
                rw [job] at row
                cases pc <;> simp only [Job.stmt, invalidateAdapter] at row <;>
                  (try split at row) <;> contradiction
            | _ =>
                rw [job] at ensures
                simp [Job.hasRevoked, Job.prot?] at ensures
        | _ =>
            rw [row] at failed
            contradiction
      · exact .inl (by rwa [setHandler_other _ _ same] at present)

/-- The lock of the page on its node keeps callbacks and fault handlers apart. -/
theorem Revoked.step {action : PageAction} (isWorker : cfg.isManager worker = false)
    (locksHeld : LocksHeld cfg st) (granting : Granting cfg st) (revoked : st.Revoked worker)
    (taken : st.step cfg base action = some after) : after.Revoked worker := by
  intro id handler present here has
  refine Bool.eq_false_iff.mpr fun writable => ?_
  rcases step_writable granting revoked taken writable with
    ⟨thread, fresh, rq, memStr, rfl, onWorker, inside, -⟩ | ⟨before, -, calm⟩
  · rcases hasRevoked_origin taken present has with old | ⟨_, _, moved, -⟩
    · -- both hold the lock of the page on the worker
      have held : st.Holds cfg worker .pageLocks (.app thread) :=
        (LocksHeld.holds_app inside _ _).mpr ⟨onWorker.symm, by simp [onWorker, isWorker, FaultPc.held]⟩
      have heldToo : st.Holds cfg worker .pageLocks (.handler id) :=
        (LocksHeld.holds_handler old _ _).mpr
          ⟨here.symm, by rw [here, isWorker]; exact Job.held_of_hasRevoked has⟩
      cases locksHeld.unique held heldToo
    · contradiction
  · rcases hasRevoked_origin taken present has with old |
      ⟨fresh, found, rfl, old, sameNode, hasBefore | sets⟩
    · simp [revoked id handler old here has] at before
    · simp [revoked id found old (sameNode ▸ here) hasBefore] at before
    · exact sets (calm id fresh found rfl old (sameNode ▸ here)).2

end PageState

end LibIvy
