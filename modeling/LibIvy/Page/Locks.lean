import LibIvy.Page.PageState

/-!
Contract: who holds which lock of a page.

Owns: the locks that each position of a fault handler or a served function
holds, the discipline every statement keeps, and the invariant that a lock table
records exactly the thread whose position holds the lock.

Does not own: who waits for whom.
-/

namespace LibIvy

open Lib

/-! ### Locks held at a position -/

/-- Locks that a fault handler holds; the manager takes none. -/
def FaultPc.held (manager : Bool) : FaultPc → LockTable → Bool
  | _, .infoLocks => false
  | .entry, .pageLocks => false
  | .returned, .pageLocks => false
  | _, .pageLocks => !manager

/-- Locks that a served function holds. `fetch_pg` and `invalidate_adapter` take
none on the manager. -/
def Job.held (manager : Bool) : Job → LockTable → Bool
  | .servRd _ .entry, _ => false
  | .servRd _ (.done _), _ => false
  | .servRd _ _, .pageLocks => true
  | .servRd _ .pageLocked, .infoLocks => false
  | .servRd _ (.infoUnlocked _), .infoLocks => false
  | .servRd _ .backOff, .infoLocks => false
  | .servRd _ .aborted, .infoLocks => false
  | .servRd _ _, .infoLocks => true
  | .servWr _ .entry, _ => false
  | .servWr _ (.done _), _ => false
  | .servWr _ _, .pageLocks => true
  | .servWr _ .pageLocked, .infoLocks => false
  | .servWr _ (.gotOwner _), .infoLocks => false
  | .servWr _ (.infoUnlocked _ _), .infoLocks => false
  | .servWr _ .backOff, .infoLocks => false
  | .servWr _ .aborted, .infoLocks => false
  | .servWr _ _, .infoLocks => true
  | .fetch _ _, .infoLocks => false
  | .fetch _ .entry, .pageLocks => false
  | .fetch _ (.done _), .pageLocks => false
  | .fetch _ _, .pageLocks => !manager
  | .invalidate _, .infoLocks => false
  | .invalidate .entry, .pageLocks => false
  | .invalidate .done, .pageLocks => false
  | .invalidate _, .pageLocks => !manager

/-- The statement takes and releases locks as the positions `held` say: it
waits for a lock that the thread does not hold, unlocks one that it holds, and
changes no other. -/
def Stmt.Disciplined {σ : Type} (held : σ → LockTable → Bool) (now : LockTable → Bool) :
    Stmt σ → Prop
  | .waitLock table _ next => now table = false ∧ held next = Function.update now table true
  | .unlock table _ next => now table = true ∧ held next = Function.update now table false
  | .skip next => held next = now
  | .readOwner _ next => ∀ owner, held (next owner) = now
  | .setOwner _ _ next => held next = now
  | .copysetInsert _ _ next => held next = now
  | .copysetErase _ _ next => ∀ nodes, held (next nodes) = now
  | .copysetClear _ next => held next = now
  | .setInfoAccess _ _ next => held next = now
  | .setAccess _ _ next => held next = now
  | .readPage _ next => ∀ contents, held (next contents) = now
  | .memcpy _ _ next => held next = now
  | .call _ _ _ next => ∀ id, held (next id) = now
  | .await _ _ next failed => (∀ reply, held (next reply) = now) ∧ held failed = now
  | .halt => True

@[simp] theorem Stmt.disciplined_ite {σ : Type} (held : σ → LockTable → Bool)
    (now : LockTable → Bool) (condition : Prop) [Decidable condition] (first second : Stmt σ) :
    (if condition then first else second).Disciplined held now ↔
      if condition then first.Disciplined held now else second.Disciplined held now := by
  split <;> rfl

@[simp] theorem Stmt.disciplined_map {σ τ : Type} (wrap : σ → τ) (held : τ → LockTable → Bool)
    (now : LockTable → Bool) (stmt : Stmt σ) :
    (stmt.map wrap).Disciplined held now ↔ stmt.Disciplined (fun pc => held (wrap pc)) now := by
  cases stmt <;> rfl

theorem LockTable.forall_iff {property : LockTable → Prop} :
    (∀ table, property table) ↔ property .pageLocks ∧ property .infoLocks :=
  ⟨fun all => ⟨all _, all _⟩, fun both table => by cases table <;> simp [both]⟩

theorem faultHdlr_disciplined (cfg : Config) (rq : Rq) (id : NodeId) (addr : Addr)
    (pc : FaultPc) : (faultHdlr cfg rq id addr pc).Disciplined
      (FaultPc.held (cfg.isManager id)) (pc.held (cfg.isManager id)) := by
  cases rq <;> cases pc <;> cases manager : cfg.isManager id <;>
    simp only [faultHdlr, rdFaultHdlr, wrFaultHdlr, Stmt.disciplined_ite, manager] <;>
    simp [Stmt.Disciplined, funext_iff, LockTable.forall_iff, FaultPc.held]

theorem job_disciplined (cfg : Config) (self : NodeId) (addr : Addr) (job : Job) :
    (job.stmt cfg self addr).Disciplined
      (Job.held (cfg.isManager self)) (job.held (cfg.isManager self)) := by
  cases job with
  | servRd reqNode pc =>
      rw [Job.stmt, Stmt.disciplined_map]
      cases pc <;> simp only [servRdRq, Stmt.disciplined_ite] <;>
        simp [Stmt.Disciplined, funext_iff, LockTable.forall_iff, Job.held]
  | servWr reqNode pc =>
      rw [Job.stmt, Stmt.disciplined_map]
      cases pc
      case invalidating ownerNode pageContents nodes =>
        cases nodes <;>
          simp [servWrRq, Stmt.Disciplined, funext_iff, LockTable.forall_iff, Job.held]
      case invalidateSent ownerNode pageContents nodes call =>
        refine ⟨fun reply => ?_, ?_⟩
        · dsimp only
          split <;> simp [funext_iff, LockTable.forall_iff, Job.held]
        · simp [funext_iff, LockTable.forall_iff, Job.held]
      all_goals
        simp only [servWrRq, Stmt.disciplined_ite]
        simp [Stmt.Disciplined, funext_iff, LockTable.forall_iff, Job.held]
  | fetch accessType pc =>
      rw [Job.stmt, Stmt.disciplined_map]
      cases pc <;> cases manager : cfg.isManager self <;>
        simp only [fetchPg, Stmt.disciplined_ite, manager] <;>
        simp [Stmt.Disciplined, funext_iff, LockTable.forall_iff, Job.held]
  | invalidate pc =>
      rw [Job.stmt, Stmt.disciplined_map]
      cases pc <;> cases manager : cfg.isManager self <;>
        simp only [invalidateAdapter, Stmt.disciplined_ite, manager] <;>
        simp [Stmt.Disciplined, funext_iff, LockTable.forall_iff, Job.held]

/-! ### Lock tables and positions agree -/

/-- The position of thread `tid` holds the lock `table` of node `node`. -/
def PageState.Holds (cfg : Config) (st : PageState) (node : NodeId) (table : LockTable) :
    Tid → Prop
  | .app thread => thread.node = node ∧
      ∃ rq pc, st.app thread = some (rq, pc) ∧ pc.held (cfg.isManager node) table = true
  | .handler id => ∃ handler, st.handler id = some handler ∧ handler.node = node ∧
      handler.job.held (cfg.isManager node) table = true

/-- Every lock is recorded as held by exactly the thread whose position holds
it. -/
def LocksHeld (cfg : Config) (st : PageState) : Prop :=
  ∀ node table tid, (st.node node).lock table = some tid ↔ st.Holds cfg node table tid

section Update

variable {cfg : Config} {st after : PageState} {self : NodeId} {tid : Tid}

@[simp] theorem NodePage.lock_setLock_same (nd : NodePage) (table : LockTable)
    (holder : Option Tid) : (nd.setLock table holder).lock table = holder := by
  cases table <;> rfl

theorem NodePage.lock_setLock_other (nd : NodePage) {table other : LockTable}
    (holder : Option Tid) (different : other ≠ table) :
    (nd.setLock table holder).lock other = nd.lock other := by
  cases table <;> cases other <;> first | rfl | contradiction

/-- The effect of a disciplined local statement on the locks of its node. -/
theorem Stmt.runOnPage_lock {σ : Type} {stmt : Stmt σ} {next : σ} {nd ndAfter : NodePage}
    {held : σ → LockTable → Bool} {now : LockTable → Bool} (disciplined : stmt.Disciplined held now)
    (ran : stmt.runOnPage tid nd = some (next, ndAfter)) (table : LockTable) :
    (ndAfter.lock table =
      if held next table = now table then nd.lock table
      else if held next table then some tid else none) ∧
    (held next table = true → now table = false → nd.lock table = none) := by
  have idle : (held next = now → ndAfter.lock table = nd.lock table →
      (ndAfter.lock table =
        if held next table = now table then nd.lock table
        else if held next table then some tid else none) ∧
      (held next table = true → now table = false → nd.lock table = none)) := by
    intro same unchanged
    simp +contextual [same, unchanged]
  cases stmt with
  | call => contradiction
  | await => contradiction
  | halt => contradiction
  | waitLock taken key target =>
      simp only [runOnPage] at ran
      split at ran
      · rename_i unlocked
        obtain ⟨rfl, rfl⟩ := ran
        obtain ⟨notHeld, same⟩ := disciplined
        by_cases sameTable : table = taken
        · subst sameTable
          simp [same, notHeld, unlocked]
        · simp +contextual [same, sameTable, NodePage.lock_setLock_other]
      · contradiction
  | unlock released key target =>
      obtain ⟨rfl, rfl⟩ := ran
      obtain ⟨wasHeld, same⟩ := disciplined
      by_cases sameTable : table = released
      · subst sameTable
        simp [same, wasHeld]
      · simp +contextual [same, sameTable, NodePage.lock_setLock_other]
  | readPage addr target =>
      simp only [runOnPage] at ran
      split at ran
      · obtain ⟨rfl, rfl⟩ := ran
        exact idle (disciplined _) rfl
      · contradiction
  | memcpy addr contents target =>
      simp only [runOnPage] at ran
      split at ran
      · split at ran
        · obtain ⟨rfl, rfl⟩ := ran
          exact idle disciplined (by cases table <;> rfl)
        · contradiction
      · contradiction
  | readOwner key target =>
      obtain ⟨rfl, rfl⟩ := ran
      exact idle (disciplined _) rfl
  | copysetErase key node target =>
      obtain ⟨rfl, rfl⟩ := ran
      exact idle (disciplined _) (by cases table <;> rfl)
  | _ =>
      obtain ⟨rfl, rfl⟩ := ran
      exact idle disciplined (by cases table <;> rfl)

/-- When the locks that one thread holds change with the lock tables and nothing
else changes, the tables stay right. -/
theorem LocksHeld.update {now next : LockTable → Bool} (locksHeld : LocksHeld cfg st)
    (before : ∀ node table, st.Holds cfg node table tid ↔ node = self ∧ now table = true)
    (moved : ∀ node table, after.Holds cfg node table tid ↔ node = self ∧ next table = true)
    (others : ∀ node table other, other ≠ tid →
      (after.Holds cfg node table other ↔ st.Holds cfg node table other))
    (elsewhere : ∀ node table, node ≠ self →
      (after.node node).lock table = (st.node node).lock table)
    (here : ∀ table, (after.node self).lock table =
      if next table = now table then (st.node self).lock table
      else if next table then some tid else none)
    (free : ∀ table, next table = true → now table = false →
      (st.node self).lock table = none) : LocksHeld cfg after := by
  intro node table other
  by_cases sameNode : node = self
  case neg =>
    rw [elsewhere node table sameNode, locksHeld]
    by_cases sameTid : other = tid
    · subst sameTid
      simp [before, moved, sameNode]
    · exact (others node table other sameTid).symm
  case pos =>
    subst sameNode
    rw [here table]
    by_cases sameTid : other = tid
    · subst sameTid
      rw [moved]
      by_cases same : next table = now table
      · rw [if_pos same, locksHeld, before, same]
      · rw [if_neg same]
        cases released : next table <;> simp
    · rw [others node table other sameTid]
      by_cases same : next table = now table
      · rw [if_pos same, locksHeld]
      · rw [if_neg same, ← locksHeld]
        cases released : next table
        · -- the lock was held by `tid`, so by nobody else
          have wasHeld : (st.node node).lock table = some tid :=
            (locksHeld node table tid).mpr ((before node table).mpr
              ⟨rfl, by cases held : now table <;> simp_all⟩)
          simp [wasHeld, Ne.symm sameTid]
        · have unlocked := free table released (by cases held : now table <;> simp_all)
          simp [unlocked, Ne.symm sameTid]

/-- A disciplined statement of a thread keeps the lock tables right. `between` is
the page after the statement, `after` the page where the thread has moved on. -/
theorem LocksHeld.exec {σ : Type} {fresh : HandlerId} {stmt : Stmt σ} {next : σ}
    {between : PageState} {held : σ → LockTable → Bool} {now : LockTable → Bool}
    (locksHeld : LocksHeld cfg st) (disciplined : stmt.Disciplined held now)
    (ran : stmt.execOnPage self tid fresh st = some (next, between))
    (before : ∀ node table, st.Holds cfg node table tid ↔ node = self ∧ now table = true)
    (sameNodes : after.node = between.node)
    (moved : ∀ node table,
      after.Holds cfg node table tid ↔ node = self ∧ held next table = true)
    (others : ∀ node table other, other ≠ tid →
      (after.Holds cfg node table other ↔ between.Holds cfg node table other)) :
    LocksHeld cfg after := by
  rcases Stmt.execOnPage_cases ran with ⟨nd, onNode, rfl⟩ |
    ⟨dst, fn, body, target, addr, job, rfl, unused, accepted, rfl, rfl⟩ |
    ⟨rpc, id, target, failed, reply, rfl, replied, rfl, rfl⟩
  · have locks := Stmt.runOnPage_lock disciplined onNode
    refine locksHeld.update before moved others ?_ ?_ fun table => (locks table).2
    · intro node table different
      simp [sameNodes, PageState.setNode, different]
    · intro table
      simpa [sameNodes, PageState.setNode] using (locks table).1
  · refine locksHeld.update before moved ?_ (by simp [sameNodes, PageState.setHandler])
      (by simp [sameNodes, PageState.setHandler, disciplined fresh])
      (by simp +contextual [disciplined fresh])
    intro node table other different
    rw [others node table other different]
    cases other with
    | app thread => rfl
    | handler id =>
        by_cases sameId : id = fresh
        · -- the new instance is at its entry and holds nothing
          subst sameId
          have entry : ∀ manager, job.held manager table = false := by
            intro manager
            cases fn <;>
              simp only [RpcName.accept, Option.map_eq_some_iff, Prod.mk.injEq] at accepted <;>
              obtain ⟨_, _, _, rfl⟩ := accepted <;> cases table <;> rfl
          simp [PageState.Holds, PageState.setHandler, unused, entry]
        · simp [PageState.Holds, PageState.setHandler, sameId]
  · refine locksHeld.update before moved others (by simp [sameNodes]) ?_ ?_
    · intro table
      simp [sameNodes, disciplined.1 reply]
    · simp +contextual [disciplined.1 reply]

end Update

namespace LocksHeld

variable {cfg : Config} {base : Addr}

theorem initial : LocksHeld cfg PageState.initial := by
  intro node table tid
  cases table <;> cases tid <;>
    simp [PageState.initial, NodePage.initial, NodePage.lock, PageState.Holds]

theorem holds_app {st : PageState} {thread : AppId} {rq : Rq} {pc : FaultPc}
    (inside : st.app thread = some (rq, pc)) (node : NodeId) (table : LockTable) :
    st.Holds cfg node table (.app thread) ↔
      node = thread.node ∧ pc.held (cfg.isManager thread.node) table = true := by
  simp only [PageState.Holds, inside, Option.some.injEq, Prod.mk.injEq]
  constructor
  · rintro ⟨rfl, _, _, ⟨rfl, rfl⟩, held⟩
    exact ⟨rfl, held⟩
  · rintro ⟨rfl, held⟩
    exact ⟨rfl, _, _, ⟨rfl, rfl⟩, held⟩

theorem holds_handler {st : PageState} {id : HandlerId} {handler : PageHandler}
    (present : st.handler id = some handler) (node : NodeId) (table : LockTable) :
    st.Holds cfg node table (.handler id) ↔
      node = handler.node ∧ handler.job.held (cfg.isManager handler.node) table = true := by
  simp only [PageState.Holds, present, Option.some.injEq]
  constructor
  · rintro ⟨_, rfl, rfl, held⟩
    exact ⟨rfl, held⟩
  · rintro ⟨rfl, held⟩
    exact ⟨_, rfl, rfl, held⟩

theorem holds_resume {st : PageState} (thread : AppId) (rq : Rq) (pc : FaultPc) (node : NodeId)
    (table : LockTable) :
    (st.setApp thread (resumeOnPage rq pc)).Holds cfg node table (.app thread) ↔
      node = thread.node ∧ pc.held (cfg.isManager thread.node) table = true := by
  cases pc
  case returned =>
    cases table <;>
      simp [PageState.Holds, PageState.setApp, resumeOnPage, FaultPc.held]
  all_goals
    refine holds_app (?_ : _ = some (rq, _)) node table
    simp [PageState.setApp, resumeOnPage]

theorem holds_setApp_other {st : PageState} {thread : AppId} {app : Option (Rq × FaultPc)}
    {other : Tid} (different : other ≠ .app thread) (node : NodeId) (table : LockTable) :
    (st.setApp thread app).Holds cfg node table other ↔ st.Holds cfg node table other := by
  cases other with
  | app thread' =>
      have differentThread : thread' ≠ thread := by
        intro same
        subst same
        exact different rfl
      simp [PageState.Holds, PageState.setApp, differentThread]
  | handler id => rfl

theorem holds_setHandler_other {st : PageState} {id : HandlerId} {handler : PageHandler}
    {other : Tid} (different : other ≠ .handler id) (node : NodeId) (table : LockTable) :
    (st.setHandler id handler).Holds cfg node table other ↔ st.Holds cfg node table other := by
  cases other with
  | app thread => rfl
  | handler id' =>
      have differentId : id' ≠ id := by
        intro same
        subst same
        exact different rfl
      simp [PageState.Holds, PageState.setHandler, differentId]

/-- Moving one thread between positions that hold the same locks. -/
theorem move {st after : PageState} {self : NodeId} {tid : Tid} {now : LockTable → Bool}
    (locksHeld : LocksHeld cfg st) (sameNodes : after.node = st.node)
    (before : ∀ node table, st.Holds cfg node table tid ↔ node = self ∧ now table = true)
    (moved : ∀ node table, after.Holds cfg node table tid ↔ node = self ∧ now table = true)
    (others : ∀ node table other, other ≠ tid →
      (after.Holds cfg node table other ↔ st.Holds cfg node table other)) :
    LocksHeld cfg after :=
  locksHeld.update before moved others (by simp [sameNodes]) (by simp [sameNodes])
    (by simp +contextual)

theorem fail_held {σ : Type} {stmt : Stmt σ} {next : σ} {held : σ → LockTable → Bool}
    {now : LockTable → Bool} (disciplined : stmt.Disciplined held now)
    (failed : stmt.fail? = some next) : held next = now := by
  cases stmt with
  | await rpc id target failedTarget =>
      cases rpc
      · contradiction
      · obtain rfl := Option.some.inj failed
        exact disciplined.2
  | _ => contradiction

/-- Every step keeps the lock tables right. -/
theorem step {st after : PageState} {action : PageAction} (locksHeld : LocksHeld cfg st)
    (taken : st.step cfg base action = some after) : LocksHeld cfg after := by
  cases action with
  | store thread offset values =>
      obtain ⟨-, -, -, rfl⟩ := PageState.step_store taken
      intro node table tid
      have sameLock : ((st.setNode thread.node { st.node thread.node with
          bytes := writePage (st.node thread.node).bytes offset values }).node node).lock table =
          (st.node node).lock table := by
        by_cases same : node = thread.node
        · subst same
          cases table <;> simp [PageState.setNode, NodePage.lock]
        · simp [PageState.setNode, same]
      rw [sameLock, locksHeld]
      cases tid <;> rfl
  | fault thread rq =>
      obtain ⟨-, outside, -, rfl⟩ := PageState.step_fault taken
      have before : ∀ node table, st.Holds cfg node table (.app thread) ↔
          node = thread.node ∧ false = true := by
        simp [PageState.Holds, outside]
      refine locksHeld.move rfl before ?_ fun _ _ _ different => holds_setApp_other different _ _
      intro node table
      cases table <;> simp [PageState.Holds, PageState.setApp, FaultPc.held]
  | app thread fresh =>
      obtain ⟨rq, pc, next, between, inside, ran, rfl⟩ := PageState.step_app taken
      exact locksHeld.exec (faultHdlr_disciplined cfg rq thread.node base pc) ran
        (holds_app inside) rfl (holds_resume thread rq next)
        fun node table other different => holds_setApp_other different node table
  | handler id fresh =>
      obtain ⟨handler, next, between, present, ran, rfl⟩ := PageState.step_handler taken
      exact locksHeld.exec (job_disciplined cfg handler.node base handler.job) ran
        (holds_handler present) rfl (holds_handler (PageState.setHandler_self ..))
        fun node table other different => holds_setHandler_other different node table
  | failApp thread =>
      obtain ⟨rq, pc, next, inside, failed, rfl⟩ := PageState.step_failApp taken
      have same := fail_held (faultHdlr_disciplined cfg rq thread.node base pc) failed
      refine locksHeld.move rfl (holds_app inside) ?_ fun _ _ _ different =>
        holds_setApp_other different _ _
      rw [← same]
      exact holds_resume thread rq next
  | failHandler id =>
      obtain ⟨handler, next, present, failed, rfl⟩ := PageState.step_failHandler taken
      have same := fail_held (job_disciplined cfg handler.node base handler.job) failed
      refine locksHeld.move rfl (holds_handler present) ?_ fun _ _ _ different =>
        holds_setHandler_other different _ _
      rw [← same]
      exact holds_handler (PageState.setHandler_self ..)

/-- Two threads that hold the same lock are the same thread. -/
theorem unique {st : PageState} {node : NodeId} {table : LockTable} {first second : Tid}
    (locksHeld : LocksHeld cfg st) (firstHolds : st.Holds cfg node table first)
    (secondHolds : st.Holds cfg node table second) : first = second :=
  Option.some.inj (((locksHeld node table first).mpr firstHolds).symm.trans
    ((locksHeld node table second).mpr secondHolds))

end LocksHeld

end LibIvy
