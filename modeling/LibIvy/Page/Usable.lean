import LibIvy.Page.CallbackSteps
import LibIvy.Page.Protection

/-!
Contract: a thread that has set a protection can use the page.

Owns: that at most one thread at a time changes or uses the protection of a page on
one node, in runs without failures in which the manager does not fault, and that the
page is readable to a fetch that copies it and writable to a fault handler that fills
it.

Does not own: runs in which the manager faults. Its fault handler takes no lock, and
a fetch may make the page read-only before the handler fills it.
-/

namespace LibIvy

open Lib

/-! ### One thread at a time -/

/-- The thread is past the point where it has the page on the node to itself. -/
def PageState.Occupies (st : PageState) (node : NodeId) : Tid → Prop
  | .app thread => thread.node = node ∧
      ∃ rq pc, st.app thread = some (rq, pc) ∧ pc.held false .pageLocks = true
  | .handler id => ∃ job, st.handler id = some ⟨node, job⟩ ∧ job.kind.serves = false ∧
      job.held false .pageLocks = true

/-- No thread of the manager is inside a fault handler. -/
def ManagerOutside (cfg : Config) (st : PageState) : Prop :=
  ∀ thread rq pc, st.app thread = some (rq, pc) → cfg.isManager thread.node = false

/-- What the threads of a page may use. -/
structure Usable (st : PageState) : Prop where
  readable : ∀ {id node access}, st.handler id = some ⟨node, .fetch access .readOnly⟩ →
    (st.node node).prot.readable = true
  writable : ∀ {thread rq memStr}, st.app thread = some (rq, .opened memStr) →
    (st.node thread.node).prot.writable = true
  closes : ∀ {thread rq}, st.app thread = some (rq, .closed) → rq = .rd

theorem Job.running_of_held {job : Job} {manager : Bool} {table : LockTable}
    (held : job.held manager table = true) : job.reply? = none := by
  cases job with
  | servRd reqNode pc => cases pc <;> simp_all [Job.held, Job.reply?]
  | servWr reqNode pc => cases pc <;> simp_all [Job.held, Job.reply?]
  | fetch accessType pc => cases pc <;> cases table <;> simp_all [Job.held, Job.reply?]
  | invalidate pc => cases pc <;> cases table <;> simp_all [Job.held, Job.reply?]

section Occupied

variable {cfg : Config} {base : Addr} {st after : PageState}

/-- A thread that occupies the page on a worker holds its lock there. -/
theorem occupies_holds {node : NodeId} {tid : Tid} (worker : cfg.isManager node = false)
    (occupies : st.Occupies node tid) : st.Holds cfg node .pageLocks tid := by
  cases tid with
  | app thread =>
      obtain ⟨rfl, rq, pc, inside, held⟩ := occupies
      exact ⟨rfl, rq, pc, inside, by rwa [worker]⟩
  | handler id =>
      obtain ⟨job, present, -, held⟩ := occupies
      exact ⟨_, present, rfl, by rwa [worker]⟩

/-- Locks keep the threads of a worker apart; on the manager only the call of the
request in service is running. -/
theorem occupies_unique (zero : cfg.managerId = 0) (locksHeld : LocksHeld cfg st)
    (linked : Linked cfg st) (attended : Attended st) (outside : ManagerOutside cfg st)
    {node : NodeId} {one other : Tid} (first : st.Occupies node one)
    (second : st.Occupies node other) : one = other := by
  cases manager : cfg.isManager node with
  | false =>
      exact locksHeld.unique (occupies_holds manager first) (occupies_holds manager second)
  | true =>
      have calls : ∀ {tid}, st.Occupies node tid → ∃ id, tid = .handler id ∧ st.Calls id := by
        intro tid occupies
        cases tid with
        | app thread =>
            obtain ⟨rfl, rq, pc, inside, -⟩ := occupies
            simp [outside thread rq pc inside] at manager
        | handler id =>
            obtain ⟨job, present, callback, held⟩ := occupies
            exact ⟨id, rfl, calls_of_attended zero locksHeld linked attended present
              (Job.running_of_held held) callback⟩
      obtain ⟨id, rfl, caller, job, serves, waits⟩ := calls first
      obtain ⟨id', rfl, caller', job', serves', waits'⟩ := calls second
      obtain ⟨rfl, rfl⟩ : caller = caller' ∧ job = job' := by simpa [serves] using serves'
      exact congrArg Tid.handler (Option.some.inj (waits.symm.trans waits'))

/-- A fault handler that sets a protection occupies the page. -/
theorem occupies_of_app {thread : AppId} {rq : Rq} {pc : FaultPc} {access : AccessType}
    (inside : st.app thread = some (rq, pc))
    (sets : (faultHdlr cfg rq thread.node base pc).prot? = some access) :
    st.Occupies thread.node (.app thread) := by
  refine ⟨rfl, rq, pc, inside, ?_⟩
  rcases faultHdlr_prot? cfg rq thread.node base pc with none | same
  · simp [none] at sets
  · rw [same] at sets
    cases pc <;> first | rfl | contradiction

/-- A served function that sets a protection occupies the page. -/
theorem occupies_of_handler {id : HandlerId} {handler : PageHandler} {access : AccessType}
    (present : st.handler id = some handler) (sets : handler.job.prot? = some access) :
    st.Occupies handler.node (.handler id) := by
  obtain ⟨node, job⟩ := handler
  refine ⟨job, present, ?_⟩
  cases job with
  | servRd reqNode pc => contradiction
  | servWr reqNode pc => contradiction
  | fetch accessType pc => cases pc <;> first | exact ⟨rfl, rfl⟩ | contradiction
  | invalidate pc => cases pc <;> first | exact ⟨rfl, rfl⟩ | contradiction

/-- A fault handler fills a page that it has just opened. -/
theorem faultHdlr_ensures_opened (rq : Rq) (id : NodeId) (pc : FaultPc) :
    (faultHdlr cfg rq id base pc).Ensures
      (fun next => (∀ memStr, next = .opened memStr →
        (faultHdlr cfg rq id base pc).prot? = some .rw) ∧ (next = .closed → rq = .rd))
      (fun _ next => (∀ memStr, next ≠ .opened memStr) ∧ next ≠ .closed) fun _ => True := by
  cases rq <;> cases pc <;>
    simp only [faultHdlr, rdFaultHdlr, wrFaultHdlr, Stmt.ensures_ite, Stmt.prot?_ite] <;>
    simp [Stmt.Ensures, Stmt.prot?]

/-- A fetch copies a page that it has just made readable. -/
theorem job_ensures_readOnly (self : NodeId) (job : Job) :
    (job.stmt cfg self base).Ensures
      (fun next => ∀ access, next = .fetch access .readOnly → job.prot? = some .rd)
      (fun _ next => ∀ access, next ≠ .fetch access .readOnly) fun _ => True := by
  cases job with
  | servRd reqNode pc =>
      rw [Job.stmt, Stmt.ensures_map]
      cases pc <;> simp only [servRdRq, Stmt.ensures_ite] <;> simp [Stmt.Ensures]
  | servWr reqNode pc =>
      rw [Job.stmt, Stmt.ensures_map]
      cases pc
      case invalidating ownerNode pageContents nodes =>
        cases nodes <;> simp [servWrRq, Stmt.Ensures]
      all_goals
        simp only [servWrRq, Stmt.ensures_ite]
        simp [Stmt.Ensures]
  | fetch accessType pc =>
      rw [Job.stmt, Stmt.ensures_map]
      cases pc <;> simp only [fetchPg, Stmt.ensures_ite] <;> simp [Stmt.Ensures, Job.prot?]
  | invalidate pc =>
      rw [Job.stmt, Stmt.ensures_map]
      cases pc <;> simp only [invalidateAdapter, Stmt.ensures_ite] <;> simp [Stmt.Ensures]

end Occupied

/-! ### Every step -/

section Steps

variable {cfg : Config} {base : Addr} {st after : PageState}

theorem ManagerOutside.step {action : PageAction} (outside : ManagerOutside cfg st)
    (workers : ∀ {thread rq}, action = .fault thread rq → cfg.isManager thread.node = false)
    (taken : st.step cfg base action = some after) : ManagerOutside cfg after := by
  have moved : ∀ {between : PageState} {thread : AppId} {app : Option (Rq × FaultPc)},
      between.app = st.app → cfg.isManager thread.node = false →
      ManagerOutside cfg (between.setApp thread app) := by
    intro between thread app same worker other rq pc inside
    by_cases sameThread : other = thread
    · exact sameThread ▸ worker
    · refine outside other rq pc ?_
      rw [← same]
      simpa [PageState.setApp, sameThread] using inside
  cases action with
  | store thread offset values =>
      obtain ⟨-, -, -, rfl⟩ := PageState.step_store taken
      exact outside
  | fault thread rq =>
      obtain ⟨-, -, -, rfl⟩ := PageState.step_fault taken
      exact moved rfl (workers rfl)
  | app thread fresh =>
      obtain ⟨rq, pc, next, between, inside, ran, rfl⟩ := PageState.step_app taken
      exact moved (Stmt.execOnPage_app ran) (outside thread rq pc inside)
  | handler id fresh =>
      obtain ⟨handler, next, between, present, ran, rfl⟩ := PageState.step_handler taken
      have same := Stmt.execOnPage_app ran
      intro thread rq pc inside
      exact outside thread rq pc (same ▸ inside)
  | failApp thread =>
      obtain ⟨rq, pc, next, inside, failed, rfl⟩ := PageState.step_failApp taken
      exact moved rfl (outside thread rq pc inside)
  | failHandler id =>
      obtain ⟨handler, next, present, failed, rfl⟩ := PageState.step_failHandler taken
      exact outside

/-- The protection of a page that another thread occupies stays as it is. -/
theorem occupied_prot {σ : Type} {self node : NodeId} {mover tid : Tid} {fresh : HandlerId}
    {stmt : Stmt σ} {next : σ} {between : PageState}
    (alone : ∀ {one other}, st.Occupies node one → st.Occupies node other → one = other)
    (occupies : ∀ {access}, stmt.prot? = some access → st.Occupies self mover)
    (ran : stmt.execOnPage self mover fresh st = some (next, between))
    (occupied : st.Occupies node tid) (different : tid ≠ mover) :
    (between.node node).prot = (st.node node).prot := by
  rw [Stmt.execOnPage_prot node ran]
  split
  · rename_i same
    subst same
    cases sets : stmt.prot? with
    | none => rfl
    | some access => exact absurd (alone occupied (occupies sets)) different
  · rfl

theorem occupies_opened {thread : AppId} {rq : Rq} {memStr : Reply}
    (inside : st.app thread = some (rq, .opened memStr)) :
    st.Occupies thread.node (.app thread) :=
  ⟨rfl, rq, _, inside, rfl⟩

theorem occupies_readOnly {id : HandlerId} {node : NodeId} {access : AccessType}
    (present : st.handler id = some ⟨node, .fetch access .readOnly⟩) :
    st.Occupies node (.handler id) :=
  ⟨_, present, rfl, rfl⟩

namespace Usable

theorem initial : Usable PageState.initial where
  readable := by simp [PageState.initial]
  writable := by simp [PageState.initial]
  closes := by simp [PageState.initial]

/-- A fault handler moves. -/
theorem app_step (usable : Usable st) {thread : AppId} {fresh : HandlerId}
    (alone : ∀ {node one other}, st.Occupies node one → st.Occupies node other → one = other)
    (taken : st.step cfg base (.app thread fresh) = some after) : Usable after := by
  obtain ⟨rq, pc, next, between, inside, ran, rfl⟩ := PageState.step_app taken
  have sameApps := Stmt.execOnPage_app ran
  have outcome : (∀ memStr, next = .opened memStr →
      (faultHdlr cfg rq thread.node base pc).prot? = some .rw) ∧ (next = .closed → rq = .rd) := by
    rcases Stmt.execOnPage_ensures (faultHdlr_ensures_opened rq thread.node pc)
      (fun _ _ _ _ => trivial) ran with opens | ⟨_, _, _, _, _, _, _, _, called, _⟩
    · exact opens
    · exact ⟨fun memStr same => absurd same (called.1 memStr), fun same => absurd same called.2⟩
  have kept : ∀ {node : NodeId} {tid : Tid}, st.Occupies node tid → tid ≠ .app thread →
      (between.node node).prot = (st.node node).prot :=
    occupied_prot alone (occupies_of_app inside) ran
  refine ⟨?_, ?_, ?_⟩
  · intro id node access present
    change (between.node node).prot.readable = true
    rcases Stmt.execOnPage_handler ran present with old | ⟨_, _, _, _, _, _, _, accepted⟩
    · rw [kept (occupies_readOnly old) nofun]
      exact usable.readable old
    · have started := RpcName.accept_hasRevoked accepted
      contradiction
  · intro other rq' memStr insideAfter
    change (between.node other.node).prot.writable = true
    by_cases same : other = thread
    · subst same
      have resumed : resumeOnPage rq next = some (rq', .opened memStr) := by
        simpa [PageState.setApp] using insideAfter
      obtain ⟨rfl, moved, -⟩ := resumeOnPage_eq_some resumed
      rw [Stmt.execOnPage_prot other.node ran, if_pos rfl, outcome.1 memStr moved.symm]
      rfl
    · have before : st.app other = some (rq', .opened memStr) := by
        rw [← sameApps]
        simpa [PageState.setApp, same] using insideAfter
      rw [kept (occupies_opened before) fun sameTid => same (Tid.app.inj sameTid)]
      exact usable.writable before
  · intro other rq' insideAfter
    by_cases same : other = thread
    · subst same
      have resumed : resumeOnPage rq next = some (rq', .closed) := by
        simpa [PageState.setApp] using insideAfter
      obtain ⟨rfl, moved, -⟩ := resumeOnPage_eq_some resumed
      exact outcome.2 moved.symm
    · have before : st.app other = some (rq', .closed) := by
        rw [← sameApps]
        simpa [PageState.setApp, same] using insideAfter
      exact usable.closes before

/-- A served function moves. -/
theorem handler_step (usable : Usable st) {id fresh : HandlerId}
    (alone : ∀ {node one other}, st.Occupies node one → st.Occupies node other → one = other)
    (taken : st.step cfg base (.handler id fresh) = some after) : Usable after := by
  obtain ⟨handler, next, between, found, ran, rfl⟩ := PageState.step_handler taken
  have sameApps := Stmt.execOnPage_app ran
  have kept : ∀ {node : NodeId} {tid : Tid}, st.Occupies node tid → tid ≠ .handler id →
      (between.node node).prot = (st.node node).prot :=
    occupied_prot alone (fun sets => occupies_of_handler found (job_prot? ▸ sets)) ran
  refine ⟨?_, ?_, ?_⟩
  · intro other node access present
    change (between.node node).prot.readable = true
    by_cases same : other = id
    · subst same
      obtain ⟨rfl, moved⟩ := PageHandler.mk.inj (Option.some.inj
        ((PageState.setHandler_self ..).symm.trans present))
      rcases Stmt.execOnPage_ensures (job_ensures_readOnly ..) (fun _ _ _ _ => trivial) ran with
        opens | ⟨_, _, _, _, _, _, _, _, called, _⟩
      · rw [Stmt.execOnPage_prot handler.node ran, if_pos rfl, job_prot?, opens access moved]
        rfl
      · exact absurd moved (called access)
    · rw [PageState.setHandler_other _ _ same] at present
      rcases Stmt.execOnPage_handler ran present with old | ⟨_, _, _, _, _, _, _, accepted⟩
      · rw [kept (occupies_readOnly old) fun sameTid => same (Tid.handler.inj sameTid)]
        exact usable.readable old
      · have started := RpcName.accept_hasRevoked accepted
        contradiction
  · intro thread rq memStr inside
    change (between.node thread.node).prot.writable = true
    have before : st.app thread = some (rq, .opened memStr) := sameApps ▸ inside
    rw [kept (occupies_opened before) nofun]
    exact usable.writable before
  · intro thread rq inside
    exact usable.closes (sameApps ▸ inside)

theorem step {action : PageAction} (usable : Usable st) (reliable : action.reliable = true)
    (alone : ∀ {node one other}, st.Occupies node one → st.Occupies node other → one = other)
    (taken : st.step cfg base action = some after) : Usable after := by
  cases action with
  | store thread offset values =>
      obtain ⟨-, -, -, rfl⟩ := PageState.step_store taken
      have prot : ∀ node, ((st.setNode thread.node { st.node thread.node with
          bytes := writePage (st.node thread.node).bytes offset values }).node node).prot =
          (st.node node).prot := by
        intro node
        by_cases same : node = thread.node <;> simp [PageState.setNode, same]
      refine ⟨?_, ?_, usable.closes⟩
      · intro id node access present
        rw [prot]
        exact usable.readable present
      · intro other rq memStr inside
        rw [prot]
        exact usable.writable inside
  | fault thread rq =>
      obtain ⟨-, -, -, rfl⟩ := PageState.step_fault taken
      refine ⟨usable.readable, ?_, ?_⟩
      · intro other rq' memStr inside
        by_cases same : other = thread
        · simp [PageState.setApp, same] at inside
        · have before : st.app other = some (rq', .opened memStr) := by
            simpa [PageState.setApp, same] using inside
          exact usable.writable before
      · intro other rq' inside
        by_cases same : other = thread
        · simp [PageState.setApp, same] at inside
        · have before : st.app other = some (rq', .closed) := by
            simpa [PageState.setApp, same] using inside
          exact usable.closes before
  | app thread fresh => exact usable.app_step alone taken
  | handler id fresh => exact usable.handler_step alone taken
  | failApp thread => contradiction
  | failHandler id => contradiction

end Usable

end Steps

/-! ### What a statement needs -/

/-- What a statement needs besides locks, replies and its instance. -/
def Stmt.Allowed {σ : Type} (prot : AccessType) : Stmt σ → Prop
  | .readPage _ _ => prot.readable = true
  | .memcpy _ contents _ => (∃ bytes, contents.contents? = some bytes) ∧ prot.writable = true
  | .halt => False
  | _ => True

@[simp] theorem Stmt.allowed_ite {σ : Type} (condition : Prop) [Decidable condition]
    (prot : AccessType) (first second : Stmt σ) :
    (if condition then first else second).Allowed prot ↔
      if condition then first.Allowed prot else second.Allowed prot := by
  split <;> rfl

@[simp] theorem Stmt.allowed_map {σ τ : Type} (wrap : σ → τ) (prot : AccessType) (stmt : Stmt σ) :
    (stmt.map wrap).Allowed prot ↔ stmt.Allowed prot := by
  cases stmt <;> rfl

theorem Reply.IsPage.contents {reply : Reply} (isPage : reply.IsPage) :
    ∃ bytes, reply.contents? = some bytes := by
  obtain ⟨bytes, rfl⟩ := isPage
  exact ⟨bytes, rfl⟩

section Allowed

variable {cfg : Config} {base : Addr} {st : PageState}

/-- No assertion fails in a fault handler, and it can fill its page. -/
theorem Usable.app_allowed (usable : Usable st) (linked : Linked cfg st) {thread : AppId} {rq : Rq}
    {pc : FaultPc} (inside : st.app thread = some (rq, pc)) :
    (faultHdlr cfg rq thread.node base pc).Allowed (st.node thread.node).prot := by
  have ok := linked.appOk inside
  cases rq with
  | rd =>
      cases pc <;> simp only [faultHdlr, rdFaultHdlr, Stmt.allowed_ite]
      case got memStr =>
        rw [if_pos (Reply.IsPage.length ok)]
        trivial
      case opened memStr => exact ⟨Reply.IsPage.contents ok, usable.writable inside⟩
      case returned => exact ok
      all_goals simp [Stmt.Allowed]
  | wr =>
      cases pc <;> simp only [faultHdlr, wrFaultHdlr, Stmt.allowed_ite]
      case opened memStr =>
        split
        · rename_i full
          rcases ok with isPage | rfl
          · exact ⟨isPage.contents, usable.writable inside⟩
          · simp [Reply.length, pageSize] at full
        · trivial
      case closed => exact absurd (usable.closes inside) (by simp)
      case returned => exact ok
      all_goals simp [Stmt.Allowed]

/-- No assertion fails in a served function, and it can read its page. -/
theorem Usable.handler_allowed (usable : Usable st) (linked : Linked cfg st) {id : HandlerId}
    {handler : PageHandler} (present : st.handler id = some handler)
    (running : handler.job.reply? = none) :
    (handler.job.stmt cfg handler.node base).Allowed (st.node handler.node).prot := by
  obtain ⟨node, job⟩ := handler
  have ok := linked.jobOk present
  cases job with
  | servRd reqNode pc =>
      rw [Job.stmt, Stmt.allowed_map]
      cases pc <;> simp only [servRdRq, Stmt.allowed_ite] <;>
        simp_all [Stmt.Allowed, Job.Ok, Job.reply?]
  | servWr reqNode pc =>
      rw [Job.stmt, Stmt.allowed_map]
      cases pc
      case invalidating ownerNode pageContents nodes => cases nodes <;> trivial
      all_goals
        simp only [servWrRq, Stmt.allowed_ite]
        simp_all [Stmt.Allowed, Job.Ok, Job.reply?]
  | fetch accessType pc =>
      rw [Job.stmt, Stmt.allowed_map]
      cases pc <;> simp only [fetchPg, Stmt.allowed_ite]
      case readOnly => exact usable.readable present
      all_goals simp_all [Stmt.Allowed, Job.reply?]
  | invalidate pc =>
      rw [Job.stmt, Stmt.allowed_map]
      cases pc <;> simp only [invalidateAdapter, Stmt.allowed_ite] <;>
        simp_all [Stmt.Allowed, Job.reply?]

end Allowed

end LibIvy
