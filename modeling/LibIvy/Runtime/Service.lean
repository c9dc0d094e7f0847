import LibIvy.Runtime.Hosted
import Mathlib.Logic.Relation

/-!
Contract: threads that move one at a time.

Owns: the statements of one thread on its own node in a row, what each served
function and each fault handler does between its calls when the locks it waits for
are free, and the steps of the system that such a row is.

Does not own: which calls are made; see `LibIvy.Contracts.Service`.
-/

namespace LibIvy

open Lib NumberText

/-! ### Statements in a row -/

/-- A thread runs statements that concern its own node only; `calm` holds where each
of them is run. -/
inductive LocalRun {σ : Type} (rows : σ → Stmt σ) (self : NodeId) (tid : Tid)
    (calm : σ → Node → Prop) : σ → Node → σ → Node → Prop where
  | refl {pc : σ} {nd : Node} : LocalRun rows self tid calm pc nd pc nd
  | step {pc next last : σ} {nd after final : Node}
      (ran : ∃ events, (rows pc).runLocal self tid nd = some (next, after, events))
      (quiet : calm pc nd) (rest : LocalRun rows self tid calm next after last final) :
      LocalRun rows self tid calm pc nd last final

/-- The lock tables of the node are the same. -/
def Node.SameLocks (nd after : Node) : Prop :=
  after.pageLocks = nd.pageLocks ∧ after.infoLocks = nd.infoLocks

/-- Both locks of a page change hands, and nothing else in the tables. -/
def Node.Hands (nd after : Node) (key : Addr) (holder : Option Tid) : Prop :=
  after.pageLocks = Function.update nd.pageLocks key holder ∧
    after.infoLocks = Function.update nd.infoLocks key holder

namespace LocalRun

variable {σ : Type} {rows : σ → Stmt σ} {self : NodeId} {tid : Tid} {calm : σ → Node → Prop}
variable {pc next last : σ} {nd final : Node}

theorem trans {middle : σ} {between : Node} (first : LocalRun rows self tid calm pc nd middle between)
    (second : LocalRun rows self tid calm middle between last final) :
    LocalRun rows self tid calm pc nd last final := by
  induction first with
  | refl => exact second
  | step ran quiet _ inductionHypothesis => exact .step ran quiet (inductionHypothesis second)

theorem skip (row : rows pc = .skip next) (quiet : calm pc nd)
    (rest : LocalRun rows self tid calm next nd last final) :
    LocalRun rows self tid calm pc nd last final := by
  refine .step ⟨[], ?_⟩ quiet rest
  rw [row]
  rfl

theorem waitLock {table : LockTable} {key : Addr} (row : rows pc = .waitLock table key next)
    (free : nd.lock table key = none) (quiet : calm pc nd)
    (rest : LocalRun rows self tid calm next (nd.setLock table key (some tid)) last final) :
    LocalRun rows self tid calm pc nd last final := by
  refine .step ⟨[.lockKey self table key], ?_⟩ quiet rest
  rw [row, Stmt.runLocal, free]

theorem unlock {table : LockTable} {key : Addr} (row : rows pc = .unlock table key next)
    (quiet : calm pc nd)
    (rest : LocalRun rows self tid calm next (nd.setLock table key none) last final) :
    LocalRun rows self tid calm pc nd last final := by
  refine .step ⟨[.lockKey self table key], ?_⟩ quiet rest
  rw [row]
  rfl

theorem setAccess {addr : Addr} {access : AccessType} (row : rows pc = .setAccess addr access next)
    (quiet : calm pc nd)
    (rest : LocalRun rows self tid calm next (nd.setAccess addr access) last final) :
    LocalRun rows self tid calm pc nd last final := by
  refine .step ⟨[], ?_⟩ quiet rest
  rw [row]
  rfl

theorem readPage {addr : Addr} {use : Reply → σ} (row : rows pc = .readPage addr use)
    (readable : (nd.prot (pgAlign addr)).readable = true) (quiet : calm pc nd)
    (rest : LocalRun rows self tid calm (use (.page (nd.pageAt (pgAlign addr)))) nd last final) :
    LocalRun rows self tid calm pc nd last final := by
  refine .step ⟨[], ?_⟩ quiet rest
  rw [row, Stmt.runLocal, if_pos readable]

theorem memcpy {addr : Addr} {contents : Reply} {bytes : Page}
    (row : rows pc = .memcpy addr contents next) (isPage : contents = .page bytes)
    (writable : (nd.prot (pgAlign addr)).writable = true) (quiet : calm pc nd)
    (rest : LocalRun rows self tid calm next (nd.copyPage addr bytes) last final) :
    LocalRun rows self tid calm pc nd last final := by
  subst isPage
  refine .step ⟨[], ?_⟩ quiet rest
  rw [row]
  simp [Stmt.runLocal, Reply.contents?, writable]

end LocalRun

/-- A copy that a fetch has read is what its node still has. -/
def Job.Calm (addr : Addr) (job : Job) (nd : Node) : Prop :=
  match job with
  | .fetch _ (.copied memStr) => memStr = .page (nd.pageAt addr)
  | _ => True

/-- The job serves a page request. -/
def Job.isRequest : Job → Bool
  | .servRd _ _ => true
  | .servWr _ _ => true
  | _ => false

section Rows

variable {cfg : Config} {self : NodeId} {addr : Addr} {id : HandlerId} {nd : Node}

/-- Statements of a fetch or invalidation in a row. -/
abbrev CallRun (cfg : Config) (self : NodeId) (addr : Addr) (id : HandlerId) :
    Job → Node → Job → Node → Prop :=
  LocalRun (Job.stmt cfg self addr) self (.handler id) (Job.Calm addr)

/-- Statements of a page request in a row. -/
abbrev RequestRun (cfg : Config) (self : NodeId) (addr : Addr) (id : HandlerId) :
    Job → Node → Job → Node → Prop :=
  LocalRun (Job.stmt cfg self addr) self (.handler id) fun job _ => job.isRequest = true

/-- A lock that was free is free again. -/
theorem restore_lock {locks : Addr → Option Tid} {key : Addr} {holder : Option Tid}
    (free : locks key = none) :
    Function.update (Function.update locks key holder) key none = locks := by
  rw [Function.update_idem]
  exact Function.update_eq_self_iff.mpr free.symm

/-- `fetch_pg` returns the page. -/
theorem fetch_alone (access : AccessType) (aligned : pgAlign addr = addr)
    (free : cfg.isManager self = false → nd.pageLocks addr = none) :
    ∃ bytes after, CallRun cfg self addr id (.fetch access .entry) nd
      (.fetch access (.done (.page bytes))) after ∧ nd.SameLocks after := by
  have reads : ∀ locked : Node, ∃ bytes after, CallRun cfg self addr id (.fetch access .locked) locked
      (.fetch access (.restricted (.page bytes))) after ∧ locked.SameLocks after := by
    intro locked
    refine ⟨_, _, .setAccess rfl trivial (.readPage rfl ?_ trivial
      (.setAccess rfl ?_ .refl)), rfl, rfl⟩
    · simp [Node.setAccess, AccessType.readable]
    · simp only [Job.Calm, aligned]
  by_cases manager : cfg.isManager self = true
  · have enter : Job.stmt cfg self addr (.fetch access .entry) = .skip (.fetch access .locked) := by
      simp [Job.stmt, fetchPg, Stmt.map, manager]
    have leave : ∀ memStr, Job.stmt cfg self addr (.fetch access (.restricted memStr)) =
        .skip (.fetch access (.done memStr)) := by
      simp [Job.stmt, fetchPg, Stmt.map, manager]
    obtain ⟨bytes, after, read, same⟩ := reads nd
    exact ⟨bytes, after, .skip enter trivial (read.trans (.skip (leave _) trivial .refl)), same⟩
  · rw [Bool.not_eq_true] at manager
    have enter : Job.stmt cfg self addr (.fetch access .entry) =
        .waitLock .pageLocks addr (.fetch access .locked) := by
      simp [Job.stmt, fetchPg, Stmt.map, manager]
    have leave : ∀ memStr, Job.stmt cfg self addr (.fetch access (.restricted memStr)) =
        .unlock .pageLocks addr (.fetch access (.done memStr)) := by
      simp [Job.stmt, fetchPg, Stmt.map, manager]
    obtain ⟨bytes, after, read, samePage, sameInfo⟩ :=
      reads (nd.setLock .pageLocks addr (some (.handler id)))
    refine ⟨bytes, _, .waitLock enter (free manager) trivial
      (read.trans (.unlock (leave _) trivial .refl)), ?_, sameInfo⟩
    change Function.update after.pageLocks addr none = nd.pageLocks
    rw [samePage]
    exact restore_lock (free manager)

/-- `invalidate_adapter` returns. -/
theorem invalidate_alone (free : cfg.isManager self = false → nd.pageLocks addr = none) :
    ∃ after, CallRun cfg self addr id (.invalidate .entry) nd (.invalidate .done) after ∧
      nd.SameLocks after := by
  have drop : Job.stmt cfg self addr (.invalidate .locked) =
      .setAccess addr .none (.invalidate .dropped) := rfl
  by_cases manager : cfg.isManager self = true
  · have enter : Job.stmt cfg self addr (.invalidate .entry) = .skip (.invalidate .locked) := by
      simp [Job.stmt, invalidateAdapter, Stmt.map, manager]
    have leave : Job.stmt cfg self addr (.invalidate .dropped) = .skip (.invalidate .done) := by
      simp [Job.stmt, invalidateAdapter, Stmt.map, manager]
    exact ⟨_, .skip enter trivial (.setAccess drop trivial (.skip leave trivial .refl)), rfl, rfl⟩
  · rw [Bool.not_eq_true] at manager
    have enter : Job.stmt cfg self addr (.invalidate .entry) =
        .waitLock .pageLocks addr (.invalidate .locked) := by
      simp [Job.stmt, invalidateAdapter, Stmt.map, manager]
    have leave : Job.stmt cfg self addr (.invalidate .dropped) =
        .unlock .pageLocks addr (.invalidate .done) := by
      simp [Job.stmt, invalidateAdapter, Stmt.map, manager]
    exact ⟨_, .waitLock enter (free manager) trivial (.setAccess drop trivial
      (.unlock leave trivial .refl)), restore_lock (free manager), rfl⟩

/-! ### Requests -/

/-- `serv_rd_rq` up to the call of the owner. -/
theorem servRd_before {reqNode : NodeId} (aligned : pgAlign addr = addr)
    (manager : cfg.isManager self = true) (pageFree : nd.pageLocks addr = none)
    (infoFree : nd.infoLocks addr = none) :
    ∃ after, RequestRun cfg self addr id (.servRd reqNode .entry) nd
      (.servRd reqNode (.gotOwner (nd.info addr).owner)) after ∧
      nd.Hands after addr (some (.handler id)) := by
  have enter : Job.stmt cfg self addr (.servRd reqNode .entry) =
      .waitLock .pageLocks addr (.servRd reqNode .pageLocked) := by
    simp [Job.stmt, servRdRq, Stmt.map, aligned]
  have second : Job.stmt cfg self addr (.servRd reqNode .pageLocked) =
      .waitLock .infoLocks addr (.servRd reqNode .infoLocked) := by
    simp [Job.stmt, servRdRq, Stmt.map, manager, aligned]
  let locked := (nd.setLock .pageLocks addr (some (.handler id))).setLock .infoLocks addr
    (some (.handler id))
  let listed := locked.setInfo addr
    { locked.info addr with copyset := (locked.info addr).copyset.insert reqNode }
  have inserts : (Job.stmt cfg self addr (.servRd reqNode .infoLocked)).runLocal self (.handler id)
      locked = some (.servRd reqNode .inserted, listed, [.infoKey self addr]) := by
    simp [Job.stmt, servRdRq, Stmt.map, Stmt.runLocal, aligned, listed]
  have looks : (Job.stmt cfg self addr (.servRd reqNode .inserted)).runLocal self (.handler id)
      listed = some (.servRd reqNode (.gotOwner (nd.info addr).owner), listed,
        [.infoKey self addr]) := by
    simp [Job.stmt, servRdRq, Stmt.map, Stmt.runLocal, aligned, listed, locked, Node.setInfo,
      Node.setLock]
  exact ⟨listed, .waitLock enter pageFree rfl (.waitLock second infoFree rfl
    (.step ⟨_, inserts⟩ rfl (.step ⟨_, looks⟩ rfl .refl))), rfl, rfl⟩

/-- `serv_rd_rq` once the owner has answered. -/
theorem servRd_after {reqNode : NodeId} {pageContents : Reply} (aligned : pgAlign addr = addr)
    (full : pageContents.length ≠ 0) :
    ∃ after, RequestRun cfg self addr id (.servRd reqNode (.fetched pageContents)) nd
      (.servRd reqNode (.done pageContents)) after ∧ nd.Hands after addr none := by
  have unlockInfo : Job.stmt cfg self addr (.servRd reqNode (.fetched pageContents)) =
      .unlock .infoLocks addr (.servRd reqNode (.infoUnlocked pageContents)) := by
    simp [Job.stmt, servRdRq, Stmt.map, aligned]
  have unlockPage : Job.stmt cfg self addr (.servRd reqNode (.infoUnlocked pageContents)) =
      .unlock .pageLocks addr (.servRd reqNode (.done pageContents)) := by
    simp [Job.stmt, servRdRq, Stmt.map, aligned, full]
  exact ⟨_, .unlock unlockInfo rfl (.unlock unlockPage rfl .refl), rfl, rfl⟩

/-- `serv_wr_rq` up to the call of the owner. -/
theorem servWr_before {reqNode : NodeId} (aligned : pgAlign addr = addr)
    (manager : cfg.isManager self = true) (pageFree : nd.pageLocks addr = none)
    (infoFree : nd.infoLocks addr = none) :
    ∃ after, RequestRun cfg self addr id (.servWr reqNode .entry) nd
      (.servWr reqNode (.erased (nd.info addr).owner
        ((nd.info addr).copyset.erase reqNode).elems)) after ∧
      nd.Hands after addr (some (.handler id)) := by
  have enter : Job.stmt cfg self addr (.servWr reqNode .entry) =
      .waitLock .pageLocks addr (.servWr reqNode .pageLocked) := by
    simp [Job.stmt, servWrRq, Stmt.map, aligned]
  let pageLocked := nd.setLock .pageLocks addr (some (.handler id))
  have looks : (Job.stmt cfg self addr (.servWr reqNode .pageLocked)).runLocal self (.handler id)
      pageLocked = some (.servWr reqNode (.gotOwner (nd.info addr).owner), pageLocked,
        [.infoKey self addr]) := by
    simp [Job.stmt, servWrRq, Stmt.map, Stmt.runLocal, manager, aligned, pageLocked, Node.setLock]
  have second : ∀ ownerNode, Job.stmt cfg self addr (.servWr reqNode (.gotOwner ownerNode)) =
      .waitLock .infoLocks addr (.servWr reqNode (.infoLocked ownerNode)) := by
    simp [Job.stmt, servWrRq, Stmt.map, aligned]
  let locked := pageLocked.setLock .infoLocks addr (some (.handler id))
  let erased := locked.setInfo addr
    { locked.info addr with copyset := (locked.info addr).copyset.erase reqNode }
  have erases : ∀ ownerNode,
      (Job.stmt cfg self addr (.servWr reqNode (.infoLocked ownerNode))).runLocal self (.handler id)
        locked = some (.servWr reqNode (.erased ownerNode
          ((nd.info addr).copyset.erase reqNode).elems), erased, [.infoKey self addr]) := by
    simp [Job.stmt, servWrRq, Stmt.map, Stmt.runLocal, aligned, erased, locked, pageLocked,
      Node.setLock]
  exact ⟨erased, .waitLock enter pageFree rfl (.step ⟨_, looks⟩ rfl
    (.waitLock (second _) infoFree rfl (.step ⟨_, erases _⟩ rfl .refl))), rfl, rfl⟩

/-- `serv_wr_rq` after its calls. -/
theorem servWr_after {reqNode ownerNode : NodeId} {pageContents : Reply}
    (aligned : pgAlign addr = addr) (full : ownerNode = reqNode ∨ pageContents.length ≠ 0) :
    ∃ after, RequestRun cfg self addr id (.servWr reqNode (.sent ownerNode pageContents)) nd
      (.servWr reqNode (.done pageContents)) after ∧ nd.Hands after addr none := by
  let cleared := nd.setInfo addr { nd.info addr with copyset := ∅ }
  have clears : (Job.stmt cfg self addr (.servWr reqNode (.sent ownerNode pageContents))).runLocal
      self (.handler id) nd = some (.servWr reqNode (.cleared ownerNode pageContents), cleared,
        [.infoKey self addr]) := by
    simp [Job.stmt, servWrRq, Stmt.map, Stmt.runLocal, aligned, cleared]
  let committed := cleared.setInfo addr { cleared.info addr with owner := reqNode }
  have commits :
      (Job.stmt cfg self addr (.servWr reqNode (.cleared ownerNode pageContents))).runLocal
        self (.handler id) cleared = some (.servWr reqNode (.committed ownerNode pageContents),
          committed, [.infoKey self addr]) := by
    simp [Job.stmt, servWrRq, Stmt.map, Stmt.runLocal, aligned, committed]
  have unlockInfo : Job.stmt cfg self addr (.servWr reqNode (.committed ownerNode pageContents)) =
      .unlock .infoLocks addr (.servWr reqNode (.infoUnlocked ownerNode pageContents)) := by
    simp [Job.stmt, servWrRq, Stmt.map, aligned]
  have unlockPage :
      Job.stmt cfg self addr (.servWr reqNode (.infoUnlocked ownerNode pageContents)) =
        .unlock .pageLocks addr (.servWr reqNode (.done pageContents)) := by
    have answered : ¬(ownerNode ≠ reqNode ∧ pageContents.length = 0) := by
      rintro ⟨other, none⟩
      exact full.elim other (· none)
    simp only [Job.stmt, servWrRq, if_neg answered, Stmt.map, aligned]
  exact ⟨_, .step ⟨_, clears⟩ rfl (.step ⟨_, commits⟩ rfl (.unlock unlockInfo rfl
    (.unlock unlockPage rfl .refl))), rfl, rfl⟩

/-! ### Faults -/

/-- Statements of a fault handler in a row. -/
abbrev FaultRun (cfg : Config) (rq : Rq) (thread : AppId) (addr : Addr) :
    FaultPc → Node → FaultPc → Node → Prop :=
  LocalRun (faultHdlr cfg rq thread.node addr) thread.node (.app thread) fun _ _ => True

/-- The lock of its page that a fault handler takes or leaves. -/
def Node.HandsPage (cfg : Config) (self : NodeId) (nd after : Node) (key : Addr)
    (holder : Option Tid) : Prop :=
  (after.pageLocks = if cfg.isManager self then nd.pageLocks
    else Function.update nd.pageLocks key holder) ∧ after.infoLocks = nd.infoLocks

/-- A fault handler up to the call of the manager. -/
theorem fault_before {thread : AppId} {rq : Rq}
    (free : cfg.isManager thread.node = false → nd.pageLocks (pgAlign addr) = none) :
    ∃ after, FaultRun cfg rq thread addr .entry nd .locked after ∧
      nd.HandsPage cfg thread.node after (pgAlign addr) (some (.app thread)) ∧
      after.info = nd.info := by
  by_cases manager : cfg.isManager thread.node = true
  · have enter : faultHdlr cfg rq thread.node addr .entry = .skip .locked := by
      cases rq <;> simp [faultHdlr, rdFaultHdlr, wrFaultHdlr, manager]
    exact ⟨nd, .skip enter trivial .refl, ⟨(if_pos manager).symm, rfl⟩, rfl⟩
  · have enter : faultHdlr cfg rq thread.node addr .entry =
        .waitLock .pageLocks (pgAlign addr) .locked := by
      cases rq <;> simp [faultHdlr, rdFaultHdlr, wrFaultHdlr, manager]
    exact ⟨_, .waitLock enter (free (Bool.eq_false_iff.mpr manager)) trivial .refl,
      ⟨(if_neg manager).symm, rfl⟩, rfl⟩

/-- The last statement of a fault handler. -/
theorem fault_leaves {thread : AppId} {rq : Rq} :
    ∃ after, FaultRun cfg rq thread addr .noted nd .returned after ∧
      nd.HandsPage cfg thread.node after (pgAlign addr) none ∧ after.prot = nd.prot := by
  by_cases manager : cfg.isManager thread.node = true
  · have leave : faultHdlr cfg rq thread.node addr .noted = .skip .returned := by
      cases rq <;> simp [faultHdlr, rdFaultHdlr, wrFaultHdlr, manager]
    exact ⟨nd, .skip leave trivial .refl, ⟨(if_pos manager).symm, rfl⟩, rfl⟩
  · have leave : faultHdlr cfg rq thread.node addr .noted =
        .unlock .pageLocks (pgAlign addr) .returned := by
      cases rq <;> simp [faultHdlr, rdFaultHdlr, wrFaultHdlr, manager]
    exact ⟨_, .unlock leave trivial .refl, ⟨(if_neg manager).symm, rfl⟩, rfl⟩

/-- A fault handler with its answer leaves the access that was asked for. -/
theorem fault_after {thread : AppId} {rq : Rq} {memStr : Reply}
    (answered : (∃ bytes, memStr = .page bytes) ∨ rq = .wr ∧ memStr = .empty) :
    ∃ after, FaultRun cfg rq thread addr (.got memStr) nd .returned after ∧
      nd.HandsPage cfg thread.node after (pgAlign addr) none ∧
      rq.faults (after.prot (pgAlign addr)) = false := by
  let base := pgAlign addr
  let opened := nd.setAccess base .rw
  have accessOpened : opened.prot base = .rw := by
    simp [opened, base, Node.setAccess]
  have writable : (opened.prot (pgAlign base)).writable = true := by
    rw [show pgAlign base = base from pgAlign_pgAlign addr, accessOpened]
    rfl
  cases rq with
  | rd =>
      obtain ⟨bytes, rfl⟩ : ∃ bytes, memStr = .page bytes := by
        rcases answered with isPage | ⟨other, -⟩
        · exact isPage
        · contradiction
      have opens : faultHdlr cfg .rd thread.node addr (.got (.page bytes)) =
          .setAccess base .rw (.opened (.page bytes)) := by
        simp [faultHdlr, rdFaultHdlr, Reply.length, base]
      let closed := (opened.copyPage base bytes).setAccess base .rd
      let noted := closed.setInfo base { closed.info base with access := .rd }
      have notes : (faultHdlr cfg .rd thread.node addr .closed).runLocal thread.node (.app thread)
          closed = some (.noted, noted, [.infoKey thread.node base]) := rfl
      obtain ⟨after, leaves, hands, sameProt⟩ :=
        @fault_leaves cfg addr noted thread .rd
      refine ⟨after, .setAccess opens trivial (.memcpy rfl rfl writable trivial (.setAccess rfl trivial
        (.step ⟨_, notes⟩ trivial leaves))), hands, ?_⟩
      rw [sameProt]
      simp [noted, closed, base, Node.setInfo, Node.setAccess, Rq.faults, AccessType.readable]
  | wr =>
      have opens : faultHdlr cfg .wr thread.node addr (.got memStr) =
          .setAccess base .rw (.opened memStr) := rfl
      -- the copy, if there is one, leaves the protection as it is
      obtain ⟨copied, copies, sameLocks, access⟩ : ∃ copied,
          FaultRun cfg .wr thread addr (.opened memStr) opened .copied copied ∧
            opened.SameLocks copied ∧ copied.prot base = .rw := by
        rcases answered with ⟨bytes, rfl⟩ | ⟨-, rfl⟩
        · have row : faultHdlr cfg .wr thread.node addr (.opened (.page bytes)) =
              .memcpy base (.page bytes) .copied := by
            simp [faultHdlr, wrFaultHdlr, Reply.length, base]
          exact ⟨_, .memcpy row rfl writable trivial .refl, ⟨rfl, rfl⟩, accessOpened⟩
        · have row : faultHdlr cfg .wr thread.node addr (.opened .empty) = .skip .copied := by
            simp [faultHdlr, wrFaultHdlr, Reply.length, pageSize]
          exact ⟨_, .skip row trivial .refl, ⟨rfl, rfl⟩, accessOpened⟩
      let noted := copied.setInfo base { copied.info base with access := .wr }
      have notes : (faultHdlr cfg .wr thread.node addr .copied).runLocal thread.node (.app thread)
          copied = some (.noted, noted, [.infoKey thread.node base]) := rfl
      obtain ⟨after, leaves, ⟨samePage, sameInfo⟩, sameProt⟩ :=
        @fault_leaves cfg addr noted thread .wr
      refine ⟨after, .setAccess opens trivial (copies.trans (.step ⟨_, notes⟩ trivial leaves)),
        ⟨?_, sameInfo.trans sameLocks.2⟩, ?_⟩
      · rw [samePage]
        change (if _ then copied.pageLocks else Function.update copied.pageLocks _ _) = _
        rw [sameLocks.1]
        rfl
      · rw [sameProt]
        change Rq.faults .wr (copied.prot base) = false
        rw [access]
        rfl

end Rows

/-! ### Steps of the system -/

/-- Some allowed steps of the runtime lead from one state to the other. -/
def Serves (cfg : Config) (allowed : Sys → Action → Prop) : Sys → Sys → Prop :=
  Relation.ReflTransGen fun before after => ∃ action events, action.ofRuntime = true ∧
    allowed before action ∧ before.step cfg action = some (after, events)

section Steps

variable {cfg : Config} {allowed : Sys → Action → Prop} {s after : Sys}

theorem Serves.one {action : Action} {events : List Event} (ofRuntime : action.ofRuntime = true)
    (allows : allowed s action) (taken : s.step cfg action = some (after, events)) :
    Serves cfg allowed s after :=
  .single ⟨action, events, ofRuntime, allows, taken⟩

/-- A statement that concerns its own node only. -/
theorem Stmt.exec_local {σ : Type} {self : NodeId} {tid : Tid} {stmt : Stmt σ} {next : σ}
    {nd : Node} {events : List Event} (fresh : HandlerId)
    (ran : stmt.runLocal self tid (s.node self) = some (next, nd, events)) :
    stmt.exec self tid fresh s = some (next, s.setNode self nd, events) := by
  cases stmt with
  | call dst fn body target => contradiction
  | await rpc call target failed => contradiction
  | _ => simp only [exec, ran]

theorem Sys.step_handler_of {id fresh : HandlerId} {handler : Handler} {next : Job}
    {events : List Event} (present : s.handler id = some handler)
    (ran : (handler.job.stmt cfg handler.node handler.addr).exec handler.node (.handler id) fresh s =
      some (next, after, events)) :
    s.step cfg (.handler id fresh) = some (after.setHandler id { handler with job := next }, events) := by
  simp only [step, present, ran]

theorem Sys.step_app_of {thread : AppId} {fresh : HandlerId} {rq : Rq} {addr : Addr}
    {pc next : FaultPc} {events : List Event} (inside : s.app thread = .fault rq addr pc)
    (ran : (faultHdlr cfg rq thread.node addr pc).exec thread.node (.app thread) fresh s =
      some (next, after, events)) :
    s.step cfg (.app thread fresh) =
      some (after.setApp thread (App.resume rq addr next), events) := by
  simp only [step, inside, ran]

theorem Sys.set_handler_same {node : NodeId} {id : HandlerId} {handler : Handler}
    (present : s.handler id = some handler) :
    (s.setNode node (s.node node)).setHandler id handler = s := by
  have nodes : Function.update s.node node (s.node node) = s.node := Function.update_eq_self ..
  have handlers : Function.update s.handler id (some handler) = s.handler :=
    Function.update_eq_self_iff.mpr present.symm
  simp only [setNode, setHandler, nodes, handlers]

theorem Sys.set_app_same {thread : AppId} {app : App} (inside : s.app thread = app) :
    (s.setNode thread.node (s.node thread.node)).setApp thread app = s := by
  have nodes : Function.update s.node thread.node (s.node thread.node) = s.node :=
    Function.update_eq_self ..
  have apps : Function.update s.app thread app = s.app :=
    Function.update_eq_self_iff.mpr inside.symm
  simp only [setNode, setApp, nodes, apps]

/-- Statements of an instance in a row are steps in a row. -/
theorem LocalRun.serves_handler {calm : Job → Node → Prop} {node : NodeId} {addr : Addr}
    {id : HandlerId} {job last : Job} {nd final : Node}
    (run : LocalRun (Job.stmt cfg node addr) node (.handler id) calm job nd last final)
    (present : s.handler id = some ⟨node, addr, job⟩) (atNode : s.node node = nd)
    (allows : ∀ between job, between.app = s.app →
      (∀ other, other ≠ id → between.handler other = s.handler other) →
      between.handler id = some ⟨node, addr, job⟩ → calm job (between.node node) →
      allowed between (.handler id 0)) :
    Serves cfg allowed s ((s.setNode node final).setHandler id ⟨node, addr, last⟩) := by
  induction run generalizing s with
  | refl =>
      subst atNode
      rw [Sys.set_handler_same present]
      exact .refl
  | @step job next last nd between final ran quiet _ inductionHypothesis =>
      subst atNode
      obtain ⟨events, ran⟩ := ran
      let moved := (s.setNode node between).setHandler id ⟨node, addr, next⟩
      have taken : s.step cfg (.handler id 0) = some (moved, events) :=
        Sys.step_handler_of present (Stmt.exec_local 0 ran)
      have rest := @inductionHypothesis moved (Function.update_self ..) (Function.update_self ..)
        fun later job sameApp others => allows later job sameApp fun other different =>
          (others other different).trans (Function.update_of_ne different ..)
      have same : (moved.setNode node final).setHandler id ⟨node, addr, last⟩ =
          (s.setNode node final).setHandler id ⟨node, addr, last⟩ := by
        simp only [moved, Sys.setNode, Sys.setHandler, Function.update_idem]
      rw [← same]
      exact (Serves.one rfl (allows s job rfl (fun _ _ => rfl) present quiet) taken).trans rest

/-- The same for a fault handler. -/
theorem LocalRun.serves_app {thread : AppId} {rq : Rq} {addr : Addr} {pc last : FaultPc}
    {nd final : Node} (run : FaultRun cfg rq thread addr pc nd last final)
    (inside : s.app thread = App.resume rq addr pc) (atNode : s.node thread.node = nd)
    (allows : ∀ between, allowed between (.app thread 0)) :
    Serves cfg allowed s ((s.setNode thread.node final).setApp thread (App.resume rq addr last)) := by
  induction run generalizing s with
  | refl =>
      subst atNode
      rw [Sys.set_app_same inside]
      exact .refl
  | @step pc next last nd between final ran _ _ inductionHypothesis =>
      subst atNode
      obtain ⟨events, ran⟩ := ran
      let moved := (s.setNode thread.node between).setApp thread (App.resume rq addr next)
      have entered : s.app thread = .fault rq addr pc := by
        rw [inside]
        cases pc <;> first | rfl | (cases rq <;> contradiction)
      have taken : s.step cfg (.app thread 0) = some (moved, events) :=
        Sys.step_app_of entered (Stmt.exec_local 0 ran)
      have rest := @inductionHypothesis moved (Function.update_self ..) (Function.update_self ..)
      have same : (moved.setNode thread.node final).setApp thread (App.resume rq addr last) =
          (s.setNode thread.node final).setApp thread (App.resume rq addr last) := by
        simp only [moved, Sys.setNode, Sys.setApp, Function.update_idem]
      rw [← same]
      exact (Serves.one rfl (allows s) taken).trans rest

end Steps

end LibIvy
