import LibIvy.Lib.WaitGraph
import LibIvy.Page.Projection
import LibIvy.Page.Locks
import LibIvy.Page.Calls
import LibIvy.Page.Refinement

/-!
Contract: which thread a thread waits for.

Owns: the thread that a statement waits for, in the system and on one page, and a
rank of the positions that falls along every wait on a page where no call waits
for a worker that waits for its own request.

Does not own: how such a page is kept; see `LibIvy.Contracts.Deadlock`.
-/

namespace LibIvy

open Lib NumberText

/-! ### Waiting -/

/-- The thread that a statement waits for: the holder of the lock, or the
instance that has not returned. -/
def Stmt.blocker {σ : Type} (lock : LockTable → Addr → Option Tid)
    (reply? : HandlerId → Option Reply) : Stmt σ → Option Tid
  | .waitLock table key _ => lock table key
  | .await _ id _ _ => if (reply? id).isNone then some (.handler id) else none
  | _ => none

section Statements

variable {σ τ : Type} {lock : LockTable → Addr → Option Tid}
variable {reply? : HandlerId → Option Reply}

@[simp] theorem Stmt.blocker_ite (condition : Prop) [Decidable condition] (first second : Stmt σ) :
    (if condition then first else second).blocker lock reply? =
      if condition then first.blocker lock reply? else second.blocker lock reply? := by
  split <;> rfl

@[simp] theorem Stmt.blocker_map (wrap : σ → τ) (stmt : Stmt σ) :
    (stmt.map wrap).blocker lock reply? = stmt.blocker lock reply? := by
  cases stmt <;> rfl

theorem Stmt.blocker_cases {stmt : Stmt σ} {other : Tid}
    (waiting : stmt.blocker lock reply? = some other) :
    (∃ table key, lock table key = some other) ∨
      ∃ id, stmt.awaits? = some id ∧ other = .handler id := by
  cases stmt with
  | waitLock table key next => exact .inl ⟨table, key, waiting⟩
  | await rpc id next failed =>
      simp only [blocker] at waiting
      split at waiting
      · exact .inr ⟨id, rfl, (Option.some.inj waiting).symm⟩
      · contradiction
  | _ => contradiction

end Statements

/-- The thread that a thread of the system waits for. -/
def Sys.blocker (cfg : Config) (s : Sys) : Tid → Option Tid
  | .app thread =>
      match s.app thread with
      | .run => none
      | .fault rq addr pc =>
          (faultHdlr cfg rq thread.node addr pc).blocker (s.node thread.node).lock s.reply?
  | .handler id =>
      match s.handler id with
      | none => none
      | some handler =>
          (handler.job.stmt cfg handler.node handler.addr).blocker (s.node handler.node).lock
            s.reply?

/-- The thread that a thread of the page waits for. -/
def PageState.blocker (cfg : Config) (base : Addr) (st : PageState) : Tid → Option Tid
  | .app thread =>
      match st.app thread with
      | none => none
      | some (rq, pc) =>
          (faultHdlr cfg rq thread.node base pc).blocker
            (fun table _ => (st.node thread.node).lock table) st.reply?
  | .handler id =>
      match st.handler id with
      | none => none
      | some handler =>
          (handler.job.stmt cfg handler.node base).blocker
            (fun table _ => (st.node handler.node).lock table) st.reply?

/-! ### Ranks -/

/-- Waiting for the reply of an unfinished request ranks highest, then waiting
for the page lock. -/
def FaultPc.waitRank (reply? : HandlerId → Option Reply) : FaultPc → Nat
  | .entry => 2
  | .asking call => if (reply? call).isNone then 5 else 0
  | _ => 0

def Job.waitRank : Job → Nat
  | .servRd _ .entry => 4
  | .servRd _ _ => 3
  | .servWr _ .entry => 4
  | .servWr _ _ => 3
  | .fetch _ .entry => 2
  | .fetch _ _ => 1
  | .invalidate .entry => 2
  | .invalidate _ => 1

def Sys.waitRank (s : Sys) : Tid → Nat
  | .app thread =>
      match s.app thread with
      | .run => 0
      | .fault _ _ pc => pc.waitRank s.reply?
  | .handler id =>
      match s.handler id with
      | none => 0
      | some handler => handler.job.waitRank

def PageState.waitRank (st : PageState) : Tid → Nat
  | .app thread =>
      match st.app thread with
      | none => 0
      | some (_, pc) => pc.waitRank st.reply?
  | .handler id =>
      match st.handler id with
      | none => 0
      | some handler => handler.job.waitRank

/-! ### One page -/

/-- The fault handler holds the page lock of a worker and its request is not
granted yet. -/
def FaultPc.unserved (reply? : HandlerId → Option Reply) : FaultPc → Bool
  | .locked => true
  | .asking call => (reply? call).isNone
  | _ => false

/-- A call that waits for the page lock of its node. -/
def Job.atPageLock : Job → Bool
  | .fetch _ .entry => true
  | .invalidate .entry => true
  | _ => false

/-- No call waits for a worker that waits for its own request. -/
def CallsPass (cfg : Config) (st : PageState) : Prop :=
  ∀ id handler, st.handler id = some handler → handler.job.atPageLock = true →
    cfg.isManager handler.node = false →
    ∀ rq pc, st.app (PageState.thread handler.node) = some (rq, pc) → pc.unserved st.reply? = false

theorem faultHdlr_blocker (cfg : Config) (rq : Rq) (id : NodeId) (base : Addr) (pc : FaultPc)
    (lock : LockTable → Addr → Option Tid) (reply? : HandlerId → Option Reply) :
    (faultHdlr cfg rq id base pc).blocker lock reply? =
      match pc with
      | .entry => if cfg.isManager id then none else lock .pageLocks (pgAlign base)
      | .asking call => if (reply? call).isNone then some (.handler call) else none
      | _ => none := by
  cases rq <;> cases pc <;>
    simp only [faultHdlr, rdFaultHdlr, wrFaultHdlr, Stmt.blocker_ite] <;>
    simp [Stmt.blocker]

section Rank

variable {cfg : Config} {base : Addr} {st : PageState}

theorem Job.waitRank_of_serves {job : Job} (serves : job.kind.serves = true) (manager : Bool)
    {table : LockTable} (held : job.held manager table = true) :
    job.waitRank = 3 ∧ job.held manager .pageLocks = true := by
  cases job with
  | servRd reqNode pc => cases pc <;> cases table <;> simp_all [Job.waitRank, Job.held]
  | servWr reqNode pc => cases pc <;> cases table <;> simp_all [Job.waitRank, Job.held]
  | fetch accessType pc => contradiction
  | invalidate pc => contradiction

theorem Job.waitRank_of_callee {job callee : Job} {node : NodeId}
    (called : job.Callee node callee.kind) : callee.waitRank ≤ 2 := by
  have calls : callee.kind.serves = false := by
    cases job with
    | servRd reqNode pc => cases pc <;> first | contradiction | simp [called.2, JobKind.serves]
    | servWr reqNode pc =>
        cases pc <;> first | contradiction | simp [called.2, JobKind.serves] | skip
        case invalidateSent =>
          have kind : callee.kind = .invalidate := called
          simp [kind, JobKind.serves]
    | fetch accessType pc => contradiction
    | invalidate pc => contradiction
  cases callee with
  | servRd reqNode pc => contradiction
  | servWr reqNode pc => contradiction
  | fetch accessType pc => cases pc <;> simp [Job.waitRank]
  | invalidate pc => cases pc <;> decide

/-- On the manager only requests hold locks; they hold the page lock whenever
they hold any. -/
theorem LocksHeld.holder_at_manager (locksHeld : LocksHeld cfg st) (zero : cfg.managerId = 0)
    {table : LockTable} {holder : Tid} (held : (st.node 0).lock table = some holder) :
    ∃ id job, holder = .handler id ∧ st.handler id = some ⟨0, job⟩ ∧
      job.held true table = true ∧ job.held true .pageLocks = true ∧ job.waitRank = 3 := by
  have manager : cfg.isManager 0 = true := by simp [zero]
  have holds := (locksHeld 0 table holder).mp held
  cases holder with
  | app thread =>
      obtain ⟨-, rq, pc, -, holdsLock⟩ := holds
      rw [manager] at holdsLock
      cases table <;> cases pc <;> contradiction
  | handler id =>
      obtain ⟨⟨node, job⟩, present, rfl, holdsLock⟩ := holds
      rw [manager] at holdsLock
      have serves : job.kind.serves = true := by
        cases job with
        | servRd reqNode pc => rfl
        | servWr reqNode pc => rfl
        | fetch accessType pc => cases table <;> cases pc <;> contradiction
        | invalidate pc => cases table <;> cases pc <;> contradiction
      obtain ⟨rank, holdsPage⟩ := Job.waitRank_of_serves serves true holdsLock
      exact ⟨id, job, rfl, present, holdsLock, holdsPage, rank⟩

/-- On a worker only fault handlers and calls hold the page lock. -/
theorem LocksHeld.holder_at_worker (locksHeld : LocksHeld cfg st) (linked : Linked cfg st)
    (zero : cfg.managerId = 0) (single : cfg.appThreads = 1) {node : NodeId} (worker : node ≠ 0)
    {holder : Tid} (held : (st.node node).pageLock = some holder) :
    (holder = .app (PageState.thread node) ∧ ∃ rq pc, st.app (PageState.thread node) = some (rq, pc) ∧
      pc.held false .pageLocks = true) ∨
    ∃ id job, holder = .handler id ∧ st.handler id = some ⟨node, job⟩ ∧ job.waitRank = 1 := by
  have notManager : cfg.isManager node = false := by simpa [zero] using worker
  have holds := (locksHeld node .pageLocks holder).mp held
  cases holder with
  | app thread =>
      obtain ⟨rfl, rq, pc, inside, holdsLock⟩ := holds
      rw [notManager] at holdsLock
      have only := thread_eq single (linked.runs inside)
      exact .inl ⟨congrArg Tid.app only, rq, pc, only ▸ inside, holdsLock⟩
  | handler id =>
      obtain ⟨⟨node, job⟩, present, rfl, holdsLock⟩ := holds
      refine .inr ⟨id, job, rfl, present, ?_⟩
      have calls : job.kind.serves ≠ true := fun serves => worker (linked.atManager present serves)
      cases job with
      | servRd reqNode pc => exact absurd rfl calls
      | servWr reqNode pc => exact absurd rfl calls
      | fetch accessType pc => cases pc <;> first | rfl | contradiction
      | invalidate pc => cases pc <;> first | rfl | contradiction

/-- A fault handler waits for the calls that hold its lock, or for the request it
sent. -/
theorem app_waitRank (zero : cfg.managerId = 0) (single : cfg.appThreads = 1)
    (locksHeld : LocksHeld cfg st) (linked : Linked cfg st) {thread : AppId} {other : Tid}
    (waiting : st.blocker cfg base (.app thread) = some other) :
    st.waitRank other < st.waitRank (.app thread) := by
  simp only [PageState.blocker] at waiting
  cases inside : st.app thread with
  | none => simp [inside] at waiting
  | some app =>
      obtain ⟨rq, pc⟩ := app
      have only := thread_eq single (linked.runs inside)
      simp only [inside, faultHdlr_blocker] at waiting
      cases pc <;> dsimp only at waiting <;> try contradiction
      case entry =>
        split at waiting
        · contradiction
        · rename_i worker
          have worker : thread.node ≠ 0 := by
            intro manager
            simp [manager, zero] at worker
          rcases locksHeld.holder_at_worker linked zero single worker waiting with
            ⟨-, rq', pc', insideToo, holds⟩ | ⟨id, job, rfl, present, rank⟩
          · rw [← only, inside] at insideToo
            cases insideToo
            contradiction
          · simp [PageState.waitRank, inside, present, rank, FaultPc.waitRank]
      case asking call =>
        split at waiting
        · rename_i unfinished
          obtain rfl := Option.some.inj waiting
          obtain ⟨callee, present, -, kind⟩ := linked.appCall inside rfl
          have rank : callee.job.waitRank ≤ 4 := by
            cases callee.job with
            | servRd reqNode pc => cases pc <;> simp [Job.waitRank]
            | servWr reqNode pc => cases pc <;> simp [Job.waitRank]
            | fetch accessType pc => cases pc <;> simp [Job.waitRank]
            | invalidate pc => cases pc <;> simp [Job.waitRank]
          simp only [PageState.waitRank, inside, present, FaultPc.waitRank, if_pos unfinished]
          omega
        · contradiction

/-- A request waits for the request in service, or for the call it made. -/
theorem serve_waitRank (zero : cfg.managerId = 0) (locksHeld : LocksHeld cfg st)
    (linked : Linked cfg st) {id : HandlerId} {handler : PageHandler} {other : Tid}
    (present : st.handler id = some handler) (serves : handler.job.kind.serves = true)
    (waiting : st.blocker cfg base (.handler id) = some other) :
    st.waitRank other < st.waitRank (.handler id) := by
  obtain ⟨node, job⟩ := handler
  obtain rfl : node = 0 := linked.atManager present serves
  have own : st.waitRank (.handler id) = job.waitRank := by simp [PageState.waitRank, present]
  have call : ∀ call, job.awaits? = some call → other = .handler call →
      st.waitRank other < job.waitRank := by
    intro call waits same
    subst same
    obtain ⟨callee, found, called⟩ := linked.handlerCall present waits
    have lower : callee.job.waitRank ≤ 2 := Job.waitRank_of_callee called
    have higher : job.waitRank = 3 := by
      cases job with
      | servRd reqNode pc => cases pc <;> first | rfl | contradiction
      | servWr reqNode pc => cases pc <;> first | rfl | contradiction
      | fetch accessType pc => contradiction
      | invalidate pc => contradiction
    simp only [PageState.waitRank, found]
    omega
  have pageLock : (st.node 0).lock .pageLocks = some other → job.waitRank = 4 →
      st.waitRank other < job.waitRank := by
    intro held rank
    obtain ⟨holder, holderJob, rfl, found, -, -, holderRank⟩ := locksHeld.holder_at_manager zero held
    simp [PageState.waitRank, found, holderRank, rank]
  -- the info lock is taken under the page lock, so nobody else holds it
  have infoLock : (st.node 0).lock .infoLocks = some other → job.held true .pageLocks = true →
      job.held true .infoLocks = false → False := by
    intro held holdsPage free
    obtain ⟨holder, holderJob, rfl, found, holdsInfo, holderPage, -⟩ :=
      locksHeld.holder_at_manager zero held
    have manager : cfg.isManager 0 = true := by simp [zero]
    have theirs : st.Holds cfg 0 .pageLocks (.handler holder) :=
      ⟨_, found, rfl, by rwa [manager]⟩
    have ours : st.Holds cfg 0 .pageLocks (.handler id) := ⟨_, present, rfl, by rwa [manager]⟩
    cases locksHeld.unique theirs ours
    obtain rfl : holderJob = job := by simpa [present] using found.symm
    simp [free] at holdsInfo
  rw [own]
  simp only [PageState.blocker, present] at waiting
  cases job with
  | servRd reqNode pc =>
      cases pc <;> simp only [Job.stmt, Stmt.blocker_map, servRdRq, Stmt.blocker_ite] at waiting <;>
        simp [Stmt.blocker] at waiting
      case entry => exact pageLock waiting rfl
      case pageLocked => exact (infoLock waiting.2 rfl rfl).elim
      case fetching ownerNode callId => exact call callId rfl waiting.2.symm
  | servWr reqNode pc =>
      cases pc
      case invalidating ownerNode pageContents nodes => cases nodes <;> contradiction
      all_goals
        simp only [Job.stmt, Stmt.blocker_map, servWrRq, Stmt.blocker_ite] at waiting
        simp [Stmt.blocker] at waiting
      case entry => exact pageLock waiting rfl
      case gotOwner ownerNode => exact (infoLock waiting rfl rfl).elim
      case fetching ownerNode ivldSet callId => exact call callId rfl waiting.2.symm
      case invalidateSent ownerNode pageContents nodes callId =>
        exact call callId rfl waiting.2.symm
  | fetch accessType pc => contradiction
  | invalidate pc => contradiction

/-- A call waits for another call, or for a fault handler that waits for nobody. -/
theorem call_waitRank (zero : cfg.managerId = 0) (single : cfg.appThreads = 1)
    (locksHeld : LocksHeld cfg st) (linked : Linked cfg st) (pass : CallsPass cfg st)
    {id : HandlerId} {handler : PageHandler} {other : Tid}
    (present : st.handler id = some handler) (calls : handler.job.kind.serves = false)
    (waiting : st.blocker cfg base (.handler id) = some other) :
    st.waitRank other < st.waitRank (.handler id) := by
  obtain ⟨node, job⟩ := handler
  obtain ⟨worker, held, atLock⟩ : cfg.isManager node = false ∧
      (st.node node).pageLock = some other ∧ job.atPageLock = true := by
    simp only [PageState.blocker, present] at waiting
    cases job with
    | servRd reqNode pc => contradiction
    | servWr reqNode pc => contradiction
    | fetch accessType pc =>
        cases pc <;> simp only [Job.stmt, Stmt.blocker_map, fetchPg, Stmt.blocker_ite] at waiting <;>
          simp [Stmt.blocker] at waiting
        exact ⟨by simpa using waiting.1, waiting.2, rfl⟩
    | invalidate pc =>
        cases pc <;>
          simp only [Job.stmt, Stmt.blocker_map, invalidateAdapter, Stmt.blocker_ite] at waiting <;>
          simp [Stmt.blocker] at waiting
        exact ⟨by simpa using waiting.1, waiting.2, rfl⟩
  have own : st.waitRank (.handler id) = 2 := by
    simp only [PageState.waitRank, present]
    cases job with
    | servRd reqNode pc => contradiction
    | servWr reqNode pc => contradiction
    | fetch accessType pc => cases pc <;> first | rfl | contradiction
    | invalidate pc => cases pc <;> first | rfl | contradiction
  rw [own]
  rcases locksHeld.holder_at_worker linked zero single (by simpa [zero] using worker) held with
    ⟨rfl, rq, pc, inside, holds⟩ | ⟨holder, holderJob, rfl, found, rank⟩
  · have served := pass id ⟨node, job⟩ present atLock worker rq pc inside
    have idle : pc.waitRank st.reply? = 0 := by
      cases pc
      case entry => contradiction
      case asking call =>
        simp only [FaultPc.unserved] at served
        simp [FaultPc.waitRank, served]
      all_goals rfl
    simp [PageState.waitRank, inside, idle]
  · simp [PageState.waitRank, found, rank]

/-- Waiting leads to a lower rank. -/
theorem PageState.waitRank_decreases (zero : cfg.managerId = 0) (single : cfg.appThreads = 1)
    (locksHeld : LocksHeld cfg st) (linked : Linked cfg st) (pass : CallsPass cfg st)
    {tid other : Tid} (waiting : st.blocker cfg base tid = some other) :
    st.waitRank other < st.waitRank tid := by
  cases tid with
  | app thread => exact app_waitRank zero single locksHeld linked waiting
  | handler id =>
      cases present : st.handler id with
      | none => simp [PageState.blocker, present] at waiting
      | some handler =>
          cases serves : handler.job.kind.serves with
          | true => exact serve_waitRank zero locksHeld linked present serves waiting
          | false => exact call_waitRank zero single locksHeld linked pass present serves waiting

end Rank

/-! ### Waits of the system are waits of a page -/

/-- The thread works on the page. -/
def PageState.Present (st : PageState) : Tid → Prop
  | .app thread => ∃ rq pc, st.app thread = some (rq, pc)
  | .handler id => ∃ handler, st.handler id = some handler

theorem PageState.present_of_blocker {cfg : Config} {base : Addr} {st : PageState}
    (locksHeld : LocksHeld cfg st) (linked : Linked cfg st) {tid other : Tid}
    (waiting : st.blocker cfg base tid = some other) : st.Present other := by
  have holder : ∀ node table, (st.node node).lock table = some other → st.Present other := by
    intro node table held
    have holds := (locksHeld node table other).mp held
    cases other with
    | app thread =>
        obtain ⟨-, rq, pc, inside, -⟩ := holds
        exact ⟨rq, pc, inside⟩
    | handler id =>
        obtain ⟨handler, present, -⟩ := holds
        exact ⟨handler, present⟩
  cases tid with
  | app thread =>
      simp only [blocker] at waiting
      split at waiting
      · contradiction
      · rename_i rq pc inside
        rcases Stmt.blocker_cases waiting with ⟨table, key, held⟩ | ⟨id, waits, rfl⟩
        · exact holder _ _ held
        · rw [faultHdlr_awaits?] at waits
          obtain ⟨callee, found, -⟩ := linked.appCall inside waits
          exact ⟨callee, found⟩
  | handler id =>
      simp only [blocker] at waiting
      split at waiting
      · contradiction
      · rename_i handler present
        rcases Stmt.blocker_cases waiting with ⟨table, key, held⟩ | ⟨id, waits, rfl⟩
        · exact holder _ _ held
        · rw [job_awaits?] at waits
          obtain ⟨callee, found, -⟩ := linked.handlerCall present waits
          exact ⟨callee, found⟩

section View

variable {cfg : Config} {s : Sys} {base : Nat}

/-- Threads of a page have the same rank in the system. -/
theorem Addressed.waitRank_view (addressed : Addressed cfg s) {tid : Tid}
    (present : (s.view base).Present tid) : (s.view base).waitRank tid = s.waitRank tid := by
  cases tid with
  | app thread =>
      obtain ⟨rq, pc, inView⟩ := present
      obtain ⟨addr, inside, rfl⟩ := App.view_eq_some inView
      simp only [PageState.waitRank, Sys.waitRank, inView, inside]
      cases pc with
      | asking call =>
          rw [FaultPc.waitRank, s.view_reply? (addressed.appAwaits inside rfl), FaultPc.waitRank]
      | _ => rfl
  | handler id =>
      obtain ⟨⟨node, job⟩, inView⟩ := present
      simp [PageState.waitRank, Sys.waitRank, inView, s.handler_of_view inView]

/-- A statement on the page waits for the same thread there. -/
theorem Stmt.blocker_view {σ : Type} {stmt : Stmt σ} (node : NodeId) (onPage : stmt.OnPage base)
    (awaits : ∀ id, stmt.awaits? = some id → s.ServesPage id base) :
    stmt.blocker (fun table _ => ((s.view base).node node).lock table) (s.view base).reply? =
      stmt.blocker (s.node node).lock s.reply? := by
  cases stmt with
  | waitLock table key next =>
      obtain rfl : key = base := onPage
      exact Node.view_lock (s.node node) table key
  | await rpc id next failed =>
      rw [blocker, s.view_reply? (awaits id rfl), blocker]
  | _ => rfl

/-- Every wait of the system is a wait on some page. -/
theorem Addressed.blocker_view (addressed : Addressed cfg s) {tid other : Tid}
    (waiting : s.blocker cfg tid = some other) :
    ∃ base, 4096 ∣ base ∧ base < wordCount ∧ (s.view base).Present tid ∧
      (s.view base).blocker cfg base tid = some other := by
  cases tid with
  | app thread =>
      simp only [Sys.blocker] at waiting
      split at waiting
      · contradiction
      · rename_i rq addr pc inside
        have inView : (s.view (pgAlign addr)).app thread = some (rq, pc) := by
          rw [Sys.view_app, inside, App.view_fault]
        refine ⟨pgAlign addr, pgAlign_dvd addr, pgAlign_lt (addressed.fault inside).1,
          ⟨rq, pc, inView⟩, ?_⟩
        simp only [PageState.blocker, inView, faultHdlr_pgAlign]
        rw [Stmt.blocker_view _ (addressed.app_onPage inside)]
        · exact waiting
        · intro id waits
          exact addressed.appAwaits inside (faultHdlr_awaits? .. ▸ waits)
  | handler id =>
      simp only [Sys.blocker] at waiting
      split at waiting
      · contradiction
      · rename_i handler present
        obtain ⟨aligned, fits⟩ := addressed.handler present
        have inView := s.view_handler present rfl
        refine ⟨handler.addr, aligned, fits, ⟨_, inView⟩, ?_⟩
        simp only [PageState.blocker, inView]
        rw [Stmt.blocker_view _ (addressed.handler_onPage present)]
        · exact waiting
        · intro call waits
          exact addressed.handlerAwaits present (job_awaits? .. ▸ waits)

/-- Waiting leads to a lower rank, when it does so on every page. -/
theorem Addressed.waitRank_decreases (addressed : Addressed cfg s) (zero : cfg.managerId = 0)
    (single : cfg.appThreads = 1)
    (ordered : ∀ base, 4096 ∣ base → base < wordCount →
      LocksHeld cfg (s.view base) ∧ Linked cfg (s.view base) ∧ CallsPass cfg (s.view base))
    {tid other : Tid} (waiting : s.blocker cfg tid = some other) :
    s.waitRank other < s.waitRank tid := by
  obtain ⟨base, aligned, fits, present, onPage⟩ := addressed.blocker_view waiting
  obtain ⟨locksHeld, linked, pass⟩ := ordered base aligned fits
  have otherPresent := PageState.present_of_blocker locksHeld linked onPage
  rw [← addressed.waitRank_view present, ← addressed.waitRank_view otherPresent]
  exact PageState.waitRank_decreases zero single locksHeld linked pass onPage

end View

end LibIvy
