import LibIvy.Contracts.Directory
import LibIvy.Protocol.Ownership

/-!
Contract: a write fault that is retried installs the current contents.

Owns: the property for runs in which calls fail at any time, a run in which a
lost reply makes it fail, and the condition under which it holds.

Does not own: copies of readers, which a failed invalidation leaves stale.

A write request makes its requester the owner before its reply is known to
arrive, and the owner's next write request is answered without the page.
-/

namespace LibIvy

open Lib NumberText TransitionSystem Protocol

/-! ### Pages that get lost -/

/-- The page that a write request carries when it has made its requester the
owner. -/
def Job.handsOver? : Job → Option Page
  | .servWr _ (.committed _ pageContents) => pageContents.page?
  | .servWr _ (.infoUnlocked _ pageContents) => pageContents.page?
  | .servWr _ (.done pageContents) => pageContents.page?
  | _ => none

/-- The page of a grant that is under way or not yet copied. -/
def FaultPc.inHand? (reply? : HandlerId → Option Reply) : FaultPc → Option Page
  | .asking call => (reply? call).bind Reply.page?
  | .got memStr => memStr.page?
  | .opened memStr => memStr.page?
  | _ => none

theorem FaultPc.inHand?_of_grants {reply? : HandlerId → Option Reply} {rq rq' : Rq} {pc : FaultPc}
    {page : Page} (grants : (pc.phase reply? rq).Grants rq' (some page)) :
    rq' = rq ∧ pc.inHand? reply? = some page := by
  cases pc with
  | asking call =>
      simp only [FaultPc.phase, FaultPc.inHand?] at grants ⊢
      cases replied : reply? call <;> simp_all [Phase.Grants]
  | got memStr => simp_all [FaultPc.phase, FaultPc.inHand?, Phase.Grants]
  | opened memStr => simp_all [FaultPc.phase, FaultPc.inHand?, Phase.Grants]
  | copied => cases rq <;> simp [FaultPc.phase, Phase.Grants] at grants
  | _ => simp [FaultPc.phase, Phase.Grants] at grants

namespace Sys

/-- A thread of the node waits for the instance `id`. -/
def Awaits (s : Sys) (node : NodeId) (id : HandlerId) : Prop :=
  ∃ idx rq addr, s.app ⟨node, idx⟩ = .fault rq addr (.asking id)

/-- A read grant of the node carries the page and has not been copied. -/
def HasRead (s : Sys) (node : NodeId) (base : Addr) (page : Page) : Prop :=
  ∃ idx addr pc, s.app ⟨node, idx⟩ = .fault .rd addr pc ∧ pgAlign addr = base ∧
    pc.inHand? s.reply? = some page

/-- The step leaves a node the owner of a page without the contents that its write
request carries: a write fault gives up a request that has made its node the
owner, or a request whose requester has given up makes it the owner, and the
requester's own copy differs from the page that the request carries, or a read
grant that it has not copied does. -/
def DropsPage (s : Sys) : Action → Prop
  | .failApp thread => ∃ addr call handler page,
      s.app thread = .fault .wr addr (.asking call) ∧ s.handler call = some handler ∧
      handler.job.handsOver? = some page ∧ page ≠ (s.node thread.node).pageAt (pgAlign addr)
  | .handler id _ => ∃ self addr reqNode ownerNode contents page,
      s.handler id = some ⟨self, addr, .servWr reqNode (.cleared ownerNode contents)⟩ ∧
      contents.page? = some page ∧ ¬s.Awaits reqNode id ∧
      (page ≠ (s.node reqNode).pageAt addr ∨ ∃ held, s.HasRead reqNode addr held ∧ held ≠ page)
  | _ => False

end Sys

/-- Calls fail at any time and only workers access the memory; no page is
dropped. -/
def DropsNoPage (cfg : Config) (s : Sys) (action : Action) : Prop :=
  WorkersOnly cfg s action ∧ ¬s.DropsPage action

section Runs

variable {cfg : Config} {base : Nat} {trace : List Event} {s : Sys}

/-- The request in service that has made its requester the owner. -/
theorem Job.handsOver?_of_serving {asking : NodeId → HandlerId → Bool}
    {look : HandlerId → Progress} {id : HandlerId} {job : Job} {node : NodeId} {live : Bool}
    {page : Page}
    (serving : job.serving asking look id = some ⟨.wr, node, live, .committed (some page)⟩) :
    job.kind = .servWr node ∧ job.handsOver? = some page ∧ asking node id = live := by
  cases job with
  | servWr reqNode pc =>
      simp only [Job.serving, Option.some.injEq, Serving.mk.injEq, true_and] at serving
      obtain ⟨rfl, waits, stage⟩ := serving
      cases pc
      case erased ownerNode ivldSet =>
        simp only [WrPc.stage] at stage
        split at stage <;> contradiction
      all_goals simp_all [WrPc.stage, Job.handsOver?, Job.kind]
  | servRd reqNode pc => simp [Job.serving] at serving
  | fetch accessType pc => contradiction
  | invalidate pc => contradiction

/-- A step that drops no page lets the protocol's node give up its request. -/
theorem mayLose_of_keeps {allowed : Sys → Action → Prop} (zero : cfg.managerId = 0)
    (single : cfg.appThreads = 1) (aligned : 4096 ∣ base) (fits : base < wordCount)
    (run : Run (machine cfg) allowed trace s) {thread : AppId} {rq : Rq} {call : HandlerId}
    (kept : ¬s.DropsPage (.failApp thread))
    (inView : (s.view base).app thread = some (rq, .asking call)) :
    (protocolOf base trace s).MayLose thread.node := by
  obtain ⟨locksHeld, linked⟩ := page_ordered zero aligned fits run
  obtain ⟨addr, inside, rfl⟩ := App.view_eq_some ((s.view_app base thread).symm.trans inView)
  obtain ⟨node, rfl⟩ : ∃ node, thread = PageState.thread node :=
    ⟨_, thread_eq single (linked.runs inView)⟩
  obtain ⟨⟨self, job⟩, present, -, kind⟩ := linked.appCall inView rfl
  intro page pending
  have handsOver : rq = .wr ∧ job.handsOver? = some page := by
    rcases pending with granted | committed
    · have phase : (s.view (pgAlign addr)).phase node = .granted .wr (some page) := granted
      simp only [PageState.phase, inView, FaultPc.phase] at phase
      split at phase
      · contradiction
      · rename_i reply replied
        obtain ⟨rfl, carries⟩ := Phase.granted.inj phase
        refine ⟨rfl, ?_⟩
        simp only [PageState.reply?, present, Option.bind_eq_bind, Option.bind_some] at replied
        cases job with
        | servWr reqNode pc => cases pc <;> simp_all [Job.reply?, Job.handsOver?]
        | _ => contradiction
    · have served : (s.view (pgAlign addr)).serving =
          some ⟨.wr, node, true, .committed (some page)⟩ := committed
      simp only [PageState.serving, Option.bind_eq_some_iff] at served
      obtain ⟨⟨id, serverJob⟩, server, serving⟩ := served
      obtain ⟨serverKind, carries, waits⟩ := Job.handsOver?_of_serving serving
      have found := ((locksHeld.server_iff zero).mp server).1
      obtain rfl : call = id := by simpa [PageState.isAsking, inView, FaultPc.awaits?] using waits
      obtain ⟨rfl, rfl⟩ : self = 0 ∧ job = serverJob := by simpa [present] using found
      refine ⟨?_, carries⟩
      rw [serverKind] at kind
      cases rq with
      | rd => contradiction
      | wr => rfl
  obtain ⟨rfl, carries⟩ := handsOver
  by_contra differs
  exact kept ⟨addr, call, _, page, inside, s.handler_of_view present, carries, differs⟩

/-- A step that drops no page lets the protocol's request replace the owner. -/
theorem mayCommit_of_keeps {allowed : Sys → Action → Prop} (zero : cfg.managerId = 0)
    (single : cfg.appThreads = 1) (aligned : 4096 ∣ base) (fits : base < wordCount)
    (run : Run (machine cfg) allowed trace s) {id fresh : HandlerId} {handler : PageHandler}
    (kept : ¬s.DropsPage (.handler id fresh))
    (present : (s.view base).handler id = some handler) (commits : handler.job.commits = true) :
    (protocolOf base trace s).MayCommit := by
  obtain ⟨locksHeld, linked⟩ := page_ordered zero aligned fits run
  obtain ⟨node, job⟩ := handler
  obtain ⟨reqNode, ownerNode, contents, rfl⟩ := Job.eq_cleared commits
  obtain rfl : node = 0 := linked.atManager present rfl
  intro node page cleared
  have serving := locksHeld.serving_eq zero present rfl
  rw [show (s.view base).serving = _ from cleared] at serving
  simp only [Job.serving, WrPc.stage, Option.some.injEq, Serving.mk.injEq, Stage.cleared.injEq,
    true_and] at serving
  obtain ⟨rfl, lost, carries⟩ := serving
  have notAwaited : ¬s.Awaits node id := by
    rintro ⟨idx, rq, addr, inside⟩
    have addressed := Addressed.of_reachable run.reachable
    obtain ⟨called, calledPresent, samePage⟩ := addressed.appAwaits inside rfl
    have found := s.handler_of_view present
    obtain rfl := Option.some.inj (found.symm.trans calledPresent)
    obtain rfl : base = pgAlign addr := samePage
    have only := thread_eq single (addressed.fault inside).2
    have inView : (s.view (pgAlign addr)).app (PageState.thread node) = some (rq, .asking id) := by
      rw [Sys.view_app, ← only, inside, App.view_fault]
    simp [PageState.isAsking, inView, FaultPc.awaits?] at lost
  have same : ¬(page ≠ (s.node node).pageAt base ∨ ∃ held, s.HasRead node base held ∧ held ≠ page) :=
    fun differs => kept ⟨0, base, node, ownerNode, contents, page, s.handler_of_view present,
      carries.symm, notAwaited, differs⟩
  obtain ⟨own, reads⟩ := not_or.mp same
  refine ⟨not_not.mp own, fun held grants => ?_⟩
  by_contra differs
  refine reads ⟨held, ?_, differs⟩
  by_cases faulting : s.Inside node base
  · obtain ⟨idx, rq, addr, pc, inside, rfl⟩ := faulting
    rw [phase_of_fault single run inside] at grants
    obtain ⟨rfl, inHand⟩ := FaultPc.inHand?_of_grants grants
    exact ⟨idx, addr, pc, inside, rfl, inHand⟩
  · rw [phase_outside faulting] at grants
    rcases grants with granted | opened <;> contradiction

/-- What the protocol guarantees on every page of a run that drops no page. -/
theorem protocol_owned (zero : cfg.managerId = 0) (single : cfg.appThreads = 1)
    (aligned : 4096 ∣ base) (fits : base < wordCount)
    (run : Run (machine cfg) (DropsNoPage cfg) trace s) : Owned (protocolOf base trace s) := by
  refine protocol_invariant lossyRegime Owned zero single aligned fits (.initial _)
    (fun owned step => owned.step step) ?_ run
  intro trace s action pageAction run permitted _ onPage
  constructor
  case faults =>
    intro thread rq same
    subst same
    obtain ⟨addr, rfl⟩ := fault_of_onPage onPage
    have worker := permitted.1
    simp only [WorkersOnly, Action.byWorker, Bool.not_eq_true', Config.isManager_eq_false, zero]
      at worker
    exact worker
  case lossy => exact fun _ => trivial
  case attended => exact .inr trivial
  case revokes => exact fun _ _ _ => trivial
  case loses =>
    intro thread rq call rfl inView
    obtain rfl : action = .failApp thread := by
      cases action <;> simp_all [Action.onPage]
    exact mayLose_of_keeps zero single aligned fits run permitted.2 inView
  case commits =>
    intro id fresh handler rfl present commits
    obtain rfl := handler_of_onPage onPage
    exact mayCommit_of_keeps zero single aligned fits run permitted.2 present commits

end Runs

/-- `wr_fault_hdlr` returns after it has noted the access, and its last statement
leaves the page alone. -/
theorem wrFaultHdlr_returns {cfg : Config} {base : Addr} {st between : PageState} {node : NodeId}
    {tid : Tid} {fresh : HandlerId} {pc next : FaultPc}
    (ran : (faultHdlr cfg .wr node base pc).execOnPage node tid fresh st = some (next, between))
    (final : next = .returned) :
    pc = .noted ∧ (between.node node).prot = (st.node node).prot ∧
      (between.node node).bytes = (st.node node).bytes := by
  subst final
  have returns : (faultHdlr cfg .wr node base pc).Ensures (fun next => next = .returned → pc = .noted)
      (fun _ next => next = .returned → pc = .noted) (fun _ => True) := by
    cases pc <;> simp only [faultHdlr, wrFaultHdlr, Stmt.ensures_ite] <;> simp [Stmt.Ensures]
  obtain rfl : pc = .noted := by
    rcases Stmt.execOnPage_ensures returns (fun _ _ _ _ => trivial) ran with noted |
      ⟨_, _, _, _, _, _, _, _, noted, _⟩ <;> exact noted rfl
  refine ⟨rfl, ?_⟩
  simp only [faultHdlr, wrFaultHdlr] at ran
  split at ran
  · obtain ⟨-, rfl⟩ := ran
    simp [PageState.setNode]
  · obtain ⟨-, rfl⟩ := ran
    simp [PageState.setNode, NodePage.setLock]

/-! ### Every run -/

/-- Whatever calls fail and however often the fault is retried: when
`wr_fault_hdlr` returns on a worker, the page is mapped read-write there and
holds what the last stores left, provided that no page has been dropped. -/
theorem write_fault_returns_current {cfg : Config} {trace : List Event} {s later : Sys}
    {thread : AppId} {addr : Nat} {pc : FaultPc} {fresh : HandlerId} {events : List Event}
    (zero : cfg.managerId = 0) (single : cfg.appThreads = 1)
    (run : Run (machine cfg) (DropsNoPage cfg) trace s)
    (inside : s.app thread = .fault .wr addr pc)
    (taken : s.step cfg (.app thread fresh) = some (later, events))
    (returned : later.app thread = .run) :
    (later.node thread.node).prot (pgAlign addr) = .rw ∧
      (later.node thread.node).pageAt (pgAlign addr) = contentsOf (pgAlign addr) trace := by
  have addressed := Addressed.of_reachable run.reachable
  obtain ⟨addrFits, runs⟩ := addressed.fault inside
  have owned := protocol_owned zero single (pgAlign_dvd addr) (pgAlign_lt addrFits) run
  have phase := phase_of_fault single run inside
  have pageStep : (s.view (pgAlign addr)).step cfg (pgAlign addr) (.app thread fresh) =
      some (later.view (pgAlign addr)) := by
    have onPage : (Action.app thread fresh).onPage = some (.app thread fresh) := rfl
    have moved := addressed.view_step onPage taken
    rwa [show s.pageOf (.app thread fresh) = pgAlign addr by simp [Sys.pageOf, inside]] at moved
  obtain ⟨rq, pc', next, between, inView, ran, moved⟩ := PageState.step_app pageStep
  obtain ⟨rfl, rfl⟩ : rq = .wr ∧ pc' = pc := by
    rw [Sys.view_app, inside, App.view_fault] at inView
    obtain ⟨rfl, rfl⟩ := Prod.mk.inj (Option.some.inj inView)
    exact ⟨rfl, rfl⟩
  have final : next = .returned := by
    have outside : (later.view (pgAlign addr)).app thread = none := by
      rw [Sys.view_app, returned, App.view_run]
    rw [moved] at outside
    cases next <;> simp_all [PageState.setApp, resumeOnPage]
  obtain ⟨rfl, kept⟩ := wrFaultHdlr_returns ran final
  have written : ((protocolOf (pgAlign addr) trace s).app thread.node).Written := .inr phase
  have owner := owned.owner _ (owned.entitled_of_written written)
  have now : (later.view (pgAlign addr)).node thread.node = between.node thread.node := by
    rw [moved]
    rfl
  have prot : (later.node thread.node).prot (pgAlign addr) =
      (s.node thread.node).prot (pgAlign addr) :=
    (congrArg NodePage.prot now).trans kept.1
  have bytes : (later.node thread.node).pageAt (pgAlign addr) =
      (s.node thread.node).pageAt (pgAlign addr) :=
    (congrArg NodePage.bytes now).trans kept.2
  rw [prot, bytes]
  refine ⟨owned.written _ written, owned.owner_bytes owner ?_ ?_⟩
  · rw [phase]
    simp [FaultPc.phase]
  · rw [phase]
    rintro page (granted | opened) <;> contradiction

/-- A test that looks at positions only: the step is no failure of a fault whose
request has made its node the owner, and a request that is about to replace the
owner is still waited for. -/
def Sys.keepsPage (s : Sys) : Action → Bool
  | .failApp thread => match s.app thread with
    | .fault _ _ (.asking call) => ((s.handler call).bind fun handler => handler.job.handsOver?).isNone
    | _ => true
  | .handler id _ => match s.handler id with
    | some ⟨_, _, .servWr reqNode (.cleared _ _)⟩ => match s.app ⟨reqNode, 0⟩ with
      | .fault _ _ (.asking call) => call == id
      | _ => false
    | _ => true
  | _ => true

theorem Sys.not_dropsPage {s : Sys} {action : Action} (keeps : s.keepsPage action = true) :
    ¬s.DropsPage action := by
  cases action with
  | failApp thread =>
      rintro ⟨addr, call, handler, page, inside, present, carries, -⟩
      simp [keepsPage, inside, present, carries] at keeps
  | handler id fresh =>
      rintro ⟨self, addr, reqNode, ownerNode, contents, page, present, -, notAwaited, -⟩
      simp only [keepsPage, present] at keeps
      split at keeps
      · rename_i rq faultAddr call inside
        obtain rfl : call = id := by simpa using keeps
        exact notAwaited ⟨0, rq, faultAddr, inside⟩
      · contradiction
  | _ => exact id

/-- The last statement of `wr_fault_hdlr` on a worker. -/
theorem Sys.step_noted {cfg : Config} {s : Sys} {thread : AppId} {addr : Addr}
    (worker : cfg.isManager thread.node = false) (inside : s.app thread = .fault .wr addr .noted)
    (fresh : HandlerId) :
    s.step cfg (.app thread fresh) =
      some ((s.setNode thread.node
        ((s.node thread.node).setLock .pageLocks (pgAlign addr) none)).setApp thread .run,
        [.lockKey thread.node .pageLocks (pgAlign addr)]) := by
  simp [Sys.step, inside, faultHdlr, wrFaultHdlr, worker, Stmt.exec, Stmt.runLocal, App.resume]

/-- The write fault on the first page is about to return. -/
def App.hasNoted : App → Bool
  | .fault .wr 0x10000000000 .noted => true
  | _ => false

theorem App.eq_of_hasNoted {app : App} (noted : app.hasNoted = true) :
    app = .fault .wr firstPage .noted := by
  unfold App.hasNoted at noted
  split at noted
  · rfl
  · contradiction

/-- The first attempt of worker `1` fails before its request is served; the second
one installs the page. -/
theorem write_fault_returns_current_after_retry :
    ∃ trace s later events, Run (machine threeNodes) (DropsNoPage threeNodes) trace s ∧
      s.step threeNodes (.app ⟨1, 0⟩ 0) = some (later, events) ∧ later.app ⟨1, 0⟩ = .run ∧
      (later.node 1).prot firstPage = .rw ∧
      (later.node 1).pageAt firstPage = contentsOf firstPage trace := by
  obtain ⟨trace, s, run, checked⟩ := exists_run (machine threeNodes)
    (fun s action => action.byWorker threeNodes && s.keepsPage action)
    (fun s _ => (s.app ⟨1, 0⟩).hasNoted)
    ([.fault ⟨1, 0⟩ .wr firstPage] ++ moves 2 (.app ⟨1, 0⟩ 0) ++ [.failApp ⟨1, 0⟩] ++
      moves 3 (.app ⟨1, 0⟩ 1) ++ moves 5 (.handler 1 2) ++ moves 5 (.handler 2 0) ++
      moves 6 (.handler 1 0) ++ moves 4 (.app ⟨1, 0⟩ 0))
    (fun s action permitted => And.imp_right Sys.not_dropsPage (Bool.and_eq_true_iff.mp permitted))
    (by decide +kernel)
  have inside := App.eq_of_hasNoted checked
  have worker : threeNodes.isManager (⟨1, 0⟩ : AppId).node = false := by decide
  have taken := Sys.step_noted worker inside 0
  exact ⟨trace, s, _, _, run, taken, by simp [Sys.setApp],
    write_fault_returns_current rfl rfl run inside taken (by simp [Sys.setApp])⟩

/-- Worker `1` stores. The request of worker `2` is served, but the reply is lost.
The second request finds worker `2` as the owner and is answered without the
page. -/
theorem write_fault_returns_current_fails :
    ¬∀ (cfg : Config) (trace : List Event) (s later : Sys) (thread : AppId) (addr : Nat)
      (pc : FaultPc) (fresh : HandlerId) (events : List Event), cfg.managerId = 0 →
      cfg.appThreads = 1 → Run (machine cfg) (WorkersOnly cfg) trace s →
      s.app thread = .fault .wr addr pc →
      s.step cfg (.app thread fresh) = some (later, events) → later.app thread = .run →
      (later.node thread.node).prot (pgAlign addr) = .rw ∧
        (later.node thread.node).pageAt (pgAlign addr) = contentsOf (pgAlign addr) trace := by
  intro always
  obtain ⟨trace, s, run, checked⟩ := exists_run (machine threeNodes)
    (fun _ action => action.byWorker threeNodes)
    (fun s trace => (s.app ⟨2, 0⟩).hasNoted &&
      (s.node 2).mem firstPage == 0 &&
      AtomicMemory.after (fun _ => 0) (history trace) firstPage == 7)
    (writeFromManager ⟨1, 0⟩ firstPage 0 ++ [.store ⟨1, 0⟩ firstPage [7]] ++
      [.fault ⟨2, 0⟩ .wr firstPage] ++ moves 2 (.app ⟨2, 0⟩ 2) ++ moves 5 (.handler 2 3) ++
      moves 5 (.handler 3 0) ++ moves 6 (.handler 2 0) ++ [.failApp ⟨2, 0⟩] ++
      moves 3 (.app ⟨2, 0⟩ 4) ++ moves 10 (.handler 4 0) ++ moves 4 (.app ⟨2, 0⟩ 0))
    (fun s action permitted => (permitted : WorkersOnly threeNodes s action))
    (by decide +kernel)
  simp only [Bool.and_eq_true, beq_iff_eq] at checked
  obtain ⟨⟨atEnd, stale⟩, stored⟩ := checked
  have inside := App.eq_of_hasNoted atEnd
  have worker : threeNodes.isManager (⟨2, 0⟩ : AppId).node = false := by decide
  have taken := Sys.step_noted worker inside 0
  have returned := always threeNodes trace s _ ⟨2, 0⟩ firstPage .noted 0 _ rfl rfl run inside taken
    (by simp [Sys.setApp])
  have start := congrFun returned.2 ⟨0, by decide⟩
  have base : pgAlign firstPage = firstPage := by decide
  simp only [Node.pageAt, contentsOf, base, Nat.add_zero, stored] at start
  simp [Sys.setApp, Sys.setNode, Node.setLock, stale] at start

end LibIvy
