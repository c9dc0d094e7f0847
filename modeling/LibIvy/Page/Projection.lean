import LibIvy.Page.View

/-!
Contract: every step of the system is a step of one page and leaves every other
page alone.

Owns: the invariant that every thread works on its own aligned page only, and
the two laws `Addressed.view_step` and `Addressed.view_step_other`.

Does not own: properties of one page.
-/

namespace LibIvy

open Lib NumberText AtomicMemory TransitionSystem

/-- Handler instances were given page starts, fault handlers run on listed nodes
for 64-bit addresses, and every thread waits for instances of its own page. -/
structure Addressed (cfg : Config) (s : Sys) : Prop where
  handler : ∀ {id handler}, s.handler id = some handler →
    4096 ∣ handler.addr ∧ handler.addr < wordCount
  fault : ∀ {thread rq addr pc}, s.app thread = .fault rq addr pc →
    addr < wordCount ∧ cfg.runs thread = true
  appAwaits : ∀ {thread rq addr pc id}, s.app thread = .fault rq addr pc →
    pc.awaits? = some id → s.ServesPage id (pgAlign addr)
  handlerAwaits : ∀ {caller handler id}, s.handler caller = some handler →
    handler.job.awaits? = some id → s.ServesPage id handler.addr

/-! ### One step -/

@[simp] theorem App.view_run (base : Addr) : App.run.view base = none := rfl

@[simp] theorem App.view_fault (rq : Rq) (addr : Addr) (pc : FaultPc) :
    (App.fault rq addr pc).view (pgAlign addr) = some (rq, pc) := if_pos rfl

theorem App.view_fault_other (rq : Rq) {addr base : Addr} (pc : FaultPc)
    (different : base ≠ pgAlign addr) : (App.fault rq addr pc).view base = none :=
  if_neg (Ne.symm different)

theorem App.view_eq_some {app : App} {base : Addr} {rq : Rq} {pc : FaultPc}
    (inView : app.view base = some (rq, pc)) :
    ∃ addr, app = .fault rq addr pc ∧ pgAlign addr = base := by
  cases app with
  | run => contradiction
  | fault rq' addr pc' =>
      simp only [App.view] at inView
      split at inView
      · rename_i samePage
        cases inView
        exact ⟨addr, rfl, samePage⟩
      · contradiction

@[simp] theorem App.view_resume (rq : Rq) (addr : Addr) (pc : FaultPc) :
    (App.resume rq addr pc).view (pgAlign addr) = resumeOnPage rq pc := by
  cases pc <;> simp [App.resume, App.view, resumeOnPage]

theorem App.view_resume_other (rq : Rq) {addr base : Addr} (pc : FaultPc)
    (different : pgAlign addr ≠ base) : (App.resume rq addr pc).view base = none := by
  cases pc <;> simp [App.resume, App.view, different]

/-- A store inside a page changes those bytes of the page. -/
theorem pageAt_store (nd : Node) (addr : Nat) (values : List UInt8) :
    ({ nd with mem := writeSpan nd.mem addr values } : Node).pageAt (pgAlign addr) =
      writePage (nd.pageAt (pgAlign addr)) (addr % 4096) values := by
  funext offset
  have start : pgAlign addr + addr % 4096 = addr := by
    unfold pgAlign
    omega
  simp only [Node.pageAt, writeSpan, writePage]
  have position : pgAlign addr + offset.val - addr = offset.val - addr % 4096 := by omega
  by_cases reached : addr % 4096 ≤ offset.val
  · rw [if_pos (by omega), if_pos reached, position]
  · rw [if_neg (by omega), if_neg reached]

theorem pageAt_store_other (nd : Node) {addr other : Nat} {values : List UInt8}
    (within : addr % 4096 + values.length ≤ 4096) (otherAligned : 4096 ∣ other)
    (different : other ≠ pgAlign addr) :
    ({ nd with mem := writeSpan nd.mem addr values } : Node).pageAt other = nd.pageAt other := by
  funext offset
  have apart := pages_apart (pgAlign_dvd addr) otherAligned different
  have below := offset.isLt
  have start : pgAlign addr + addr % 4096 = addr := by
    unfold pgAlign
    omega
  exact writeSpan_outside (by simp only [pageSize] at *; omega)

namespace Addressed

variable {cfg : Config} {s : Sys} (addressed : Addressed cfg s)

include addressed

theorem app_onPage {thread : AppId} {rq : Rq} {addr : Nat} {pc : FaultPc}
    (inside : s.app thread = .fault rq addr pc) :
    (faultHdlr cfg rq thread.node addr pc).OnPage (pgAlign addr) := by
  obtain ⟨addrFits, runs⟩ := addressed.fault inside
  rw [← faultHdlr_pgAlign]
  exact faultHdlr_onPage (pgAlign_dvd addr) (pgAlign_lt addrFits) (Config.node_fits runs) pc

theorem handler_onPage {id : HandlerId} {handler : Handler}
    (present : s.handler id = some handler) :
    (handler.job.stmt cfg handler.node handler.addr).OnPage handler.addr :=
  job_onPage (addressed.handler present).1 (addressed.handler present).2 handler.job

/-- Every step that concerns a page is a step of that page. -/
theorem view_step {action : Action} {pageAction : PageAction} {after : Sys} {events : List Event}
    (onPage : action.onPage = some pageAction)
    (taken : s.step cfg action = some (after, events)) :
    (s.view (s.pageOf action)).step cfg (s.pageOf action) pageAction =
      some (after.view (s.pageOf action)) := by
  cases action with
  | load => contradiction
  | store thread addr values =>
      obtain ⟨outside, runs, within, permitted, rfl, rfl⟩ := Sys.step_store taken
      obtain rfl := Option.some.inj onPage
      have stored := pageAt_store (s.node thread.node) addr values
      rw [Sys.view_setNode]
      simp only [PageState.step, Sys.pageOf, Sys.view_app, outside, App.view_run]
      rw [if_pos ⟨runs, trivial, permitted⟩]
      simp [Sys.view, Node.view, stored]
  | fault thread rq addr =>
      obtain ⟨outside, runs, within, permitted, rfl, rfl⟩ := Sys.step_fault taken
      obtain rfl := Option.some.inj onPage
      rw [Sys.view_setApp]
      simp only [PageState.step, Sys.pageOf, Sys.view_app, outside, App.view_run]
      rw [if_pos ⟨runs, trivial, permitted⟩, App.view_fault]
  | app thread fresh =>
      obtain ⟨rq, addr, pc, next, between, inside, ran, rfl⟩ := Sys.step_app taken
      obtain rfl := Option.some.inj onPage
      have onView := Stmt.exec_view (pgAlign_dvd addr) (addressed.app_onPage inside)
        (fun _ waits => addressed.appAwaits inside (faultHdlr_awaits? .. ▸ waits)) ran
      rw [← faultHdlr_pgAlign] at onView
      simp [PageState.step, Sys.pageOf, Sys.view_app, inside, onView, Sys.view_setApp]
  | handler id fresh =>
      obtain ⟨handler, next, between, present, ran, rfl⟩ := Sys.step_handler taken
      obtain rfl := Option.some.inj onPage
      have onView := Stmt.exec_view (addressed.handler present).1
        (addressed.handler_onPage present)
        (fun _ waits => addressed.handlerAwaits present (job_awaits? .. ▸ waits)) ran
      simp [PageState.step, Sys.pageOf, present, s.view_handler present rfl, onView,
        Sys.view_setHandler_same]
  | failApp thread =>
      obtain ⟨rq, addr, pc, next, inside, failed, rfl, rfl⟩ := Sys.step_failApp taken
      obtain rfl := Option.some.inj onPage
      rw [← faultHdlr_pgAlign] at failed
      simp [PageState.step, Sys.pageOf, Sys.view_app, inside, failed, Sys.view_setApp]
  | failHandler id =>
      obtain ⟨handler, next, present, failed, rfl, rfl⟩ := Sys.step_failHandler taken
      obtain rfl := Option.some.inj onPage
      simp [PageState.step, Sys.pageOf, present, s.view_handler present rfl, failed,
        Sys.view_setHandler_same]

/-- No step changes a page other than its own. -/
theorem view_step_other {action : Action} {after : Sys} {events : List Event} {base : Nat}
    (aligned : 4096 ∣ base) (different : base ≠ s.pageOf action)
    (taken : s.step cfg action = some (after, events)) :
    after.view base = s.view base := by
  cases action with
  | load thread addr count =>
      obtain ⟨-, -, -, -, rfl, -⟩ := Sys.step_load taken
      rfl
  | store thread addr values =>
      obtain ⟨outside, runs, within, permitted, rfl, rfl⟩ := Sys.step_store taken
      have contents := pageAt_store_other (s.node thread.node) (withinPage_iff.mp within).2
        aligned different
      exact s.view_setNode_other (by simp [Node.view, contents])
  | fault thread rq addr =>
      obtain ⟨outside, runs, within, permitted, rfl, rfl⟩ := Sys.step_fault taken
      exact s.view_setApp_other (by rw [outside, App.view_fault_other _ _ different]; rfl)
  | app thread fresh =>
      obtain ⟨rq, addr, pc, next, between, inside, ran, rfl⟩ := Sys.step_app taken
      simp only [Sys.pageOf, inside] at different
      have unchanged := Stmt.exec_other (pgAlign_dvd addr) aligned different
        (addressed.app_onPage inside) ran
      rw [Sys.view_setApp_other, unchanged]
      rw [App.view_resume_other _ _ (Ne.symm different), ← Sys.view_app, unchanged, Sys.view_app,
        inside, App.view_fault_other _ _ different]
  | handler id fresh =>
      obtain ⟨handler, next, between, present, ran, rfl⟩ := Sys.step_handler taken
      simp only [Sys.pageOf, present] at different
      have unchanged := Stmt.exec_other (addressed.handler present).1 aligned different
        (addressed.handler_onPage present) ran
      have before : (s.view base).handler id = none := by
        simp [Sys.view, present, Handler.view, Ne.symm different]
      rw [← unchanged] at before
      have kept : (between.setHandler id { handler with job := next }).view base =
          between.view base :=
        between.view_setHandler_other (Ne.symm different) before
      exact kept.trans unchanged
  | failApp thread =>
      obtain ⟨rq, addr, pc, next, inside, failed, rfl, rfl⟩ := Sys.step_failApp taken
      simp only [Sys.pageOf, inside] at different
      refine s.view_setApp_other ?_
      rw [App.view_resume_other _ _ (Ne.symm different), inside, App.view_fault_other _ _ different]
  | failHandler id =>
      obtain ⟨handler, next, present, failed, rfl, rfl⟩ := Sys.step_failHandler taken
      simp only [Sys.pageOf, present] at different
      exact s.view_setHandler_other (Ne.symm different)
        (by simp [present, Handler.view, Ne.symm different])

end Addressed

/-! ### Addresses of all threads -/

theorem Stmt.exec_serves {σ : Type} {self : NodeId} {tid : Tid} {fresh id : HandlerId}
    {stmt : Stmt σ} {s after : Sys} {next : σ} {events : List Event} {base : Addr}
    (ran : stmt.exec self tid fresh s = some (next, after, events))
    (serves : s.ServesPage id base) : after.ServesPage id base := by
  obtain ⟨handler, present, same⟩ := serves
  exact ⟨handler, exec_keeps ran present, same⟩

theorem Sys.setHandler_serves {s : Sys} {id other : HandlerId} {handler : Handler} {job : Job}
    {base : Addr} (present : s.handler id = some handler) (serves : s.ServesPage other base) :
    (s.setHandler id { handler with job := job }).ServesPage other base := by
  obtain ⟨found, foundPresent, same⟩ := serves
  by_cases sameId : other = id
  · subst sameId
    obtain rfl : handler = found := by simpa [present] using foundPresent
    exact ⟨{ handler with job := job }, by simp [Sys.setHandler], same⟩
  · exact ⟨found, by simpa [Sys.setHandler, sameId] using foundPresent, same⟩

/-- A thread that waits after a statement waits for an instance of its page. -/
theorem Stmt.exec_awaits {σ : Type} {self : NodeId} {tid : Tid} {fresh call : HandlerId}
    {stmt : Stmt σ} {s after : Sys} {next : σ} {events : List Event} {base : Nat}
    {waits : σ → Option HandlerId} (aligned : 4096 ∣ base) (onPage : stmt.OnPage base)
    (awaits : ∀ id, stmt.awaits? = some id → s.ServesPage id base)
    (own : stmt.AwaitsOwnCall waits)
    (ran : stmt.exec self tid fresh s = some (next, after, events))
    (waiting : waits next = some call) : after.ServesPage call base := by
  obtain ⟨_, _, _, _, _, _, _, _, _, present⟩ :=
    execOnPage_awaits own (exec_view aligned onPage awaits ran) waiting
  simp only [Sys.view, Option.bind_eq_some_iff] at present
  obtain ⟨handler, found, inView⟩ := present
  refine ⟨handler, found, ?_⟩
  by_contra different
  simp [Handler.view, different] at inView

/-- The instances after a statement on the page: those before, and one that waits
for nothing on the same page. -/
theorem Stmt.exec_handler {σ : Type} {self : NodeId} {tid : Tid} {fresh id : HandlerId}
    {stmt : Stmt σ} {s after : Sys} {next : σ} {events : List Event} {base : Addr}
    {handler : Handler} (onPage : stmt.OnPage base)
    (ran : stmt.exec self tid fresh s = some (next, after, events))
    (present : after.handler id = some handler) :
    s.handler id = some handler ∨ handler.addr = base ∧ handler.job.awaits? = none := by
  rcases exec_cases ran with ⟨nd, _, rfl⟩ |
    ⟨dst, fn, body, target, addr, job, rfl, unused, accepted, _, rfl, _⟩ |
    ⟨_, _, _, _, _, _, _, _, rfl, _⟩
  · exact .inl present
  · by_cases same : id = fresh
    · obtain ⟨_, started⟩ := onPage
      obtain ⟨rfl, rfl⟩ : addr = base ∧ job = _ := by simpa [accepted] using started
      obtain rfl : (⟨dst, addr, job⟩ : Handler) = handler := by
        simpa [Sys.setHandler, same] using present
      exact .inr ⟨rfl, (RpcName.accept_entry accepted).2⟩
    · exact .inl (by simpa [Sys.setHandler, same] using present)
  · exact .inl present

theorem App.resume_eq_fault {rq rq' : Rq} {addr addr' : Addr} {pc pc' : FaultPc}
    (resumed : App.resume rq addr pc = .fault rq' addr' pc') :
    rq' = rq ∧ addr' = addr ∧ pc' = pc := by
  cases pc <;> simp_all [App.resume]

namespace Addressed

variable {cfg : Config}

theorem initial : Addressed cfg Sys.initial where
  handler := by simp [Sys.initial]
  fault := by simp [Sys.initial]
  appAwaits := by simp [Sys.initial]
  handlerAwaits := by simp [Sys.initial]

/-- A step that sets one application thread keeps the addresses in order. -/
theorem setApp {s : Sys} (addressed : Addressed cfg s) {thread : AppId} {app : App}
    (fault : ∀ {rq addr pc}, app = .fault rq addr pc →
      (addr < wordCount ∧ cfg.runs thread = true) ∧
        ∀ {id}, pc.awaits? = some id → s.ServesPage id (pgAlign addr)) :
    Addressed cfg (s.setApp thread app) where
  handler := addressed.handler
  handlerAwaits := addressed.handlerAwaits
  fault := by
    intro other rq addr pc inside
    by_cases same : other = thread
    · subst same
      exact (fault (by simpa [Sys.setApp] using inside)).1
    · exact addressed.fault (by simpa [Sys.setApp, same] using inside)
  appAwaits := by
    intro other rq addr pc id inside waits
    by_cases same : other = thread
    · subst same
      exact (fault (by simpa [Sys.setApp] using inside)).2 waits
    · exact addressed.appAwaits (by simpa [Sys.setApp, same] using inside) waits

/-- A step that moves one handler instance keeps the addresses in order. -/
theorem setHandler {s : Sys} (addressed : Addressed cfg s) {id : HandlerId} {handler : Handler}
    {job : Job} (present : s.handler id = some handler)
    (waits : ∀ {call}, job.awaits? = some call → s.ServesPage call handler.addr) :
    Addressed cfg (s.setHandler id { handler with job := job }) where
  fault := addressed.fault
  appAwaits := fun inside waiting =>
    Sys.setHandler_serves present (addressed.appAwaits inside waiting)
  handler := by
    intro other found foundPresent
    by_cases same : other = id
    · obtain rfl : { handler with job := job } = found := by
        simpa [Sys.setHandler, same] using foundPresent
      have bounds := addressed.handler present
      exact bounds
    · exact addressed.handler (by simpa [Sys.setHandler, same] using foundPresent)
  handlerAwaits := by
    intro other found call foundPresent waiting
    by_cases same : other = id
    · obtain rfl : { handler with job := job } = found := by
        simpa [Sys.setHandler, same] using foundPresent
      exact Sys.setHandler_serves present (waits waiting)
    · exact Sys.setHandler_serves present
        (addressed.handlerAwaits (by simpa [Sys.setHandler, same] using foundPresent) waiting)

/-- A statement on an aligned page keeps the addresses in order. -/
theorem exec {σ : Type} {self : NodeId} {tid : Tid} {fresh : HandlerId} {stmt : Stmt σ}
    {s after : Sys} {next : σ} {events : List Event} {base : Addr}
    (addressed : Addressed cfg s) (aligned : 4096 ∣ base) (fits : base < wordCount)
    (onPage : stmt.OnPage base)
    (ran : stmt.exec self tid fresh s = some (next, after, events)) : Addressed cfg after where
  fault := by
    rw [Stmt.exec_app ran]
    exact addressed.fault
  appAwaits := by
    rw [Stmt.exec_app ran]
    exact fun inside waits => Stmt.exec_serves ran (addressed.appAwaits inside waits)
  handler := by
    intro id handler present
    rcases Stmt.exec_handler onPage ran present with old | ⟨rfl, _⟩
    · exact addressed.handler old
    · exact ⟨aligned, fits⟩
  handlerAwaits := by
    intro id handler call present waits
    rcases Stmt.exec_handler onPage ran present with old | ⟨rfl, idle⟩
    · exact Stmt.exec_serves ran (addressed.handlerAwaits old waits)
    · simp [idle] at waits

theorem step {s after : Sys} {action : Action} {events : List Event}
    (addressed : Addressed cfg s) (taken : s.step cfg action = some (after, events)) :
    Addressed cfg after := by
  cases action with
  | load thread addr count =>
      obtain ⟨-, -, -, -, rfl, -⟩ := Sys.step_load taken
      exact addressed
  | store thread addr values =>
      obtain ⟨-, -, -, -, rfl, -⟩ := Sys.step_store taken
      exact ⟨addressed.handler, addressed.fault, addressed.appAwaits, addressed.handlerAwaits⟩
  | fault thread rq addr =>
      obtain ⟨-, runs, within, -, rfl, -⟩ := Sys.step_fault taken
      refine addressed.setApp ?_
      intro _ _ _ same
      cases same
      exact ⟨⟨(withinPage_iff.mp within).1, runs⟩, by simp [FaultPc.awaits?]⟩
  | app thread fresh =>
      obtain ⟨rq, addr, pc, next, between, inside, ran, rfl⟩ := Sys.step_app taken
      have bounds := addressed.fault inside
      have onPage := addressed.app_onPage inside
      refine (addressed.exec (pgAlign_dvd addr) (pgAlign_lt bounds.1) onPage ran).setApp ?_
      intro rq' addr' pc' resumed
      obtain ⟨rfl, rfl, rfl⟩ := App.resume_eq_fault resumed
      exact ⟨bounds, fun waits => Stmt.exec_awaits (pgAlign_dvd _) onPage
        (fun _ waited => addressed.appAwaits inside (faultHdlr_awaits? .. ▸ waited))
        (faultHdlr_awaitsOwnCall ..) ran waits⟩
  | handler id fresh =>
      obtain ⟨handler, next, between, present, ran, rfl⟩ := Sys.step_handler taken
      have bounds := addressed.handler present
      have onPage := addressed.handler_onPage present
      exact (addressed.exec bounds.1 bounds.2 onPage ran).setHandler (Stmt.exec_keeps ran present)
        fun waits => Stmt.exec_awaits bounds.1 onPage
          (fun _ waited => addressed.handlerAwaits present (job_awaits? .. ▸ waited))
          (job_awaitsOwnCall ..) ran waits
  | failApp thread =>
      obtain ⟨rq, addr, pc, next, inside, failed, rfl, rfl⟩ := Sys.step_failApp taken
      refine addressed.setApp ?_
      intro rq' addr' pc' resumed
      obtain ⟨rfl, rfl, rfl⟩ := App.resume_eq_fault resumed
      have idle := Stmt.fail_ensures (faultHdlr_awaitsOwnCall ..) failed
      exact ⟨addressed.fault inside, by simp [idle]⟩
  | failHandler id =>
      obtain ⟨handler, next, present, failed, rfl, rfl⟩ := Sys.step_failHandler taken
      have idle := Stmt.fail_ensures (job_awaitsOwnCall ..) failed
      exact addressed.setHandler present (by simp [idle])

/-- In every run, every thread works on its own page only. -/
theorem of_reachable {allowed : Sys → Action → Prop} {s : Sys}
    (reached : Reachable (machine cfg) allowed s) : Addressed cfg s :=
  reached.invariant (Addressed cfg) initial fun _ addressed _ taken => addressed.step taken

/-- A step that is taken concerns a page. -/
theorem pageOf_aligned {s after : Sys} {action : Action} {events : List Event}
    (addressed : Addressed cfg s) (taken : s.step cfg action = some (after, events)) :
    4096 ∣ s.pageOf action ∧ s.pageOf action < wordCount := by
  cases action with
  | load thread addr count =>
      obtain ⟨-, -, within, -, -, -⟩ := Sys.step_load taken
      exact ⟨pgAlign_dvd addr, pgAlign_lt (withinPage_iff.mp within).1⟩
  | store thread addr values =>
      obtain ⟨-, -, within, -, -, -⟩ := Sys.step_store taken
      exact ⟨pgAlign_dvd addr, pgAlign_lt (withinPage_iff.mp within).1⟩
  | fault thread rq addr =>
      obtain ⟨-, -, within, -, -, -⟩ := Sys.step_fault taken
      exact ⟨pgAlign_dvd addr, pgAlign_lt (withinPage_iff.mp within).1⟩
  | app thread fresh =>
      obtain ⟨rq, addr, pc, next, between, inside, -, -⟩ := Sys.step_app taken
      simp only [Sys.pageOf, inside]
      exact ⟨pgAlign_dvd addr, pgAlign_lt (addressed.fault inside).1⟩
  | handler id fresh =>
      obtain ⟨handler, next, between, present, -, -⟩ := Sys.step_handler taken
      simp only [Sys.pageOf, present]
      exact addressed.handler present
  | failApp thread =>
      obtain ⟨rq, addr, pc, next, inside, -, -, -⟩ := Sys.step_failApp taken
      simp only [Sys.pageOf, inside]
      exact ⟨pgAlign_dvd addr, pgAlign_lt (addressed.fault inside).1⟩
  | failHandler id =>
      obtain ⟨handler, next, present, -, -, -⟩ := Sys.step_failHandler taken
      simp only [Sys.pageOf, present]
      exact addressed.handler present

end Addressed

end LibIvy
