import LibIvy.Page.PageState

/-!
Contract: where the statements of the handlers lead.

Owns: the reply a position waits for, a rule that carries a property of positions
over one statement, and the fact that a thread waits only for the call it has
just made.

Does not own: what the statements do to the page.
-/

namespace LibIvy

open Lib

/-! ### Replies that a thread waits for -/

/-- The handler instance whose reply a statement waits for. -/
def Stmt.awaits? {σ : Type} : Stmt σ → Option HandlerId
  | .await _ id _ _ => some id
  | _ => none

@[simp] theorem Stmt.awaits?_ite {σ : Type} (condition : Prop) [Decidable condition]
    (first second : Stmt σ) :
    (if condition then first else second).awaits? =
      if condition then first.awaits? else second.awaits? := by
  split <;> rfl

@[simp] theorem Stmt.awaits?_map {σ τ : Type} (wrap : σ → τ) (stmt : Stmt σ) :
    (stmt.map wrap).awaits? = stmt.awaits? := by
  cases stmt <;> rfl

theorem faultHdlr_awaits? (cfg : Config) (rq : Rq) (id : NodeId) (addr : Addr) (pc : FaultPc) :
    (faultHdlr cfg rq id addr pc).awaits? = pc.awaits? := by
  cases rq <;> cases pc <;>
    simp only [faultHdlr, rdFaultHdlr, wrFaultHdlr, Stmt.awaits?_ite] <;>
    simp [Stmt.awaits?, FaultPc.awaits?]

theorem job_awaits? (cfg : Config) (self : NodeId) (addr : Addr) (job : Job) :
    (job.stmt cfg self addr).awaits? = job.awaits? := by
  cases job with
  | servRd reqNode pc =>
      cases pc <;> simp only [Job.stmt, Stmt.awaits?_map, servRdRq, Stmt.awaits?_ite] <;>
        simp [Stmt.awaits?, Job.awaits?]
  | servWr reqNode pc =>
      cases pc
      case invalidating ownerNode pageContents nodes =>
        cases nodes <;> rfl
      all_goals
        simp only [Job.stmt, Stmt.awaits?_map, servWrRq, Stmt.awaits?_ite]
        simp [Stmt.awaits?, Job.awaits?]
  | fetch accessType pc =>
      cases pc <;> simp only [Job.stmt, Stmt.awaits?_map, fetchPg, Stmt.awaits?_ite] <;>
        simp [Stmt.awaits?, Job.awaits?]
  | invalidate pc =>
      cases pc <;> simp only [Job.stmt, Stmt.awaits?_map, invalidateAdapter, Stmt.awaits?_ite] <;>
        simp [Stmt.awaits?, Job.awaits?]

/-- Only a statement that waits for a reply fails. -/
theorem Stmt.fail_awaits {σ : Type} {stmt : Stmt σ} {next : σ} (failed : stmt.fail? = some next) :
    ∃ rpc id target, stmt = .await rpc id target next ∧ stmt.awaits? = some id := by
  cases stmt with
  | await rpc id target failedTarget =>
      cases rpc
      · contradiction
      · obtain rfl := Option.some.inj failed
        exact ⟨_, _, _, rfl, rfl⟩
  | _ => contradiction

theorem FaultPc.awaits?_eq_some {pc : FaultPc} {id : HandlerId} (waits : pc.awaits? = some id) :
    pc = .asking id := by
  cases pc <;> simp_all [FaultPc.awaits?]

/-! ### Positions after a statement -/

/-- Every position after the statement satisfies `property`, the position after
a call `called`, provided that the reply it may take satisfies `replied`. -/
def Stmt.Ensures {σ : Type} (property : σ → Prop) (called : HandlerId → σ → Prop)
    (replied : Reply → Prop) : Stmt σ → Prop
  | .skip next => property next
  | .waitLock _ _ next => property next
  | .unlock _ _ next => property next
  | .readOwner _ next => ∀ owner, property (next owner)
  | .setOwner _ _ next => property next
  | .copysetInsert _ _ next => property next
  | .copysetErase _ node next => ∀ copyset : NodeSet, property (next (copyset.erase node).elems)
  | .copysetClear _ next => property next
  | .setInfoAccess _ _ next => property next
  | .setAccess _ _ next => property next
  | .readPage _ next => ∀ bytes, property (next (.page bytes))
  | .memcpy _ _ next => property next
  | .call _ _ _ next => ∀ id, called id (next id)
  | .await _ _ next failed => (∀ reply, replied reply → property (next reply)) ∧ property failed
  | .halt => True

section Ensures

variable {σ : Type} {property : σ → Prop} {called : HandlerId → σ → Prop}
variable {replied : Reply → Prop} {stmt : Stmt σ} {next : σ}

@[simp] theorem Stmt.ensures_ite (condition : Prop) [Decidable condition] (first second : Stmt σ) :
    (if condition then first else second).Ensures property called replied ↔
      if condition then first.Ensures property called replied
      else second.Ensures property called replied := by
  split <;> rfl

@[simp] theorem Stmt.ensures_map {τ : Type} (wrap : τ → σ) (stmt : Stmt τ) :
    (stmt.map wrap).Ensures property called replied ↔
      stmt.Ensures (fun pc => property (wrap pc)) (fun id pc => called id (wrap pc)) replied := by
  cases stmt <;> rfl

theorem Stmt.runOnPage_ensures {tid : Tid} {nd after : NodePage}
    (ensures : stmt.Ensures property called replied)
    (ran : stmt.runOnPage tid nd = some (next, after)) : property next := by
  cases stmt with
  | call => contradiction
  | await => contradiction
  | halt => contradiction
  | waitLock table key target =>
      simp only [runOnPage] at ran
      split at ran
      · obtain ⟨rfl, rfl⟩ := ran
        exact ensures
      · contradiction
  | readPage addr target =>
      simp only [runOnPage] at ran
      split at ran
      · obtain ⟨rfl, rfl⟩ := ran
        exact ensures _
      · contradiction
  | memcpy addr contents target =>
      simp only [runOnPage] at ran
      split at ran
      · split at ran
        · obtain ⟨rfl, rfl⟩ := ran
          exact ensures
        · contradiction
      · contradiction
  | readOwner key target =>
      obtain ⟨rfl, rfl⟩ := ran
      exact ensures _
  | copysetErase key node target =>
      obtain ⟨rfl, rfl⟩ := ran
      exact ensures _
  | _ =>
      obtain ⟨rfl, rfl⟩ := ran
      exact ensures

/-- Where a thread is after one statement. -/
theorem Stmt.execOnPage_ensures {self : NodeId} {tid : Tid} {fresh : HandlerId}
    {st after : PageState} (ensures : stmt.Ensures property called replied)
    (replies : ∀ id reply, stmt.awaits? = some id → st.reply? id = some reply → replied reply)
    (ran : stmt.execOnPage self tid fresh st = some (next, after)) :
    property next ∨ ∃ dst fn body target addr job, stmt = .call dst fn body target ∧
      next = target fresh ∧ called fresh next ∧ fn.accept body = some (addr, job) ∧
      after.handler fresh = some ⟨dst, job⟩ := by
  rcases execOnPage_cases ran with ⟨nd, onNode, rfl⟩ |
    ⟨dst, fn, body, target, addr, job, rfl, unused, accepted, rfl, rfl⟩ |
    ⟨rpc, id, target, failed, reply, rfl, replied, rfl, rfl⟩
  · exact .inl (runOnPage_ensures ensures onNode)
  · exact .inr ⟨dst, fn, body, target, addr, job, rfl, rfl, ensures fresh, accepted, by simp⟩
  · exact .inl (ensures.1 reply (replies id reply rfl replied))

theorem Stmt.fail_ensures (ensures : stmt.Ensures property called replied)
    (failed : stmt.fail? = some next) : property next := by
  cases stmt with
  | await rpc id target failedTarget =>
      cases rpc
      · contradiction
      · obtain rfl := Option.some.inj failed
        exact ensures.2
  | _ => contradiction

end Ensures

/-! ### Calls -/

/-- After a call a thread waits for its reply, after any other statement it waits
for no reply. `waits` is what a position waits for. -/
def Stmt.AwaitsOwnCall {σ : Type} (waits : σ → Option HandlerId) (stmt : Stmt σ) : Prop :=
  stmt.Ensures (fun pc => waits pc = none) (fun id pc => waits pc = some id) fun _ => True

theorem faultHdlr_awaitsOwnCall (cfg : Config) (rq : Rq) (id : NodeId) (addr : Addr)
    (pc : FaultPc) : (faultHdlr cfg rq id addr pc).AwaitsOwnCall FaultPc.awaits? := by
  cases rq <;> cases pc <;>
    simp only [faultHdlr, rdFaultHdlr, wrFaultHdlr, Stmt.AwaitsOwnCall, Stmt.ensures_ite] <;>
    simp [Stmt.Ensures, FaultPc.awaits?]

theorem job_awaitsOwnCall (cfg : Config) (self : NodeId) (addr : Addr) (job : Job) :
    (job.stmt cfg self addr).AwaitsOwnCall Job.awaits? := by
  unfold Stmt.AwaitsOwnCall
  cases job with
  | servRd reqNode pc =>
      rw [Job.stmt, Stmt.ensures_map]
      cases pc <;> simp only [servRdRq, Stmt.ensures_ite] <;> simp [Stmt.Ensures, Job.awaits?]
  | servWr reqNode pc =>
      rw [Job.stmt, Stmt.ensures_map]
      cases pc
      case invalidating ownerNode pageContents nodes =>
        cases nodes <;> simp [servWrRq, Stmt.Ensures, Job.awaits?]
      case invalidateSent ownerNode pageContents nodes call =>
        refine ⟨fun reply _ => ?_, rfl⟩
        dsimp only
        split <;> rfl
      all_goals
        simp only [servWrRq, Stmt.ensures_ite]
        simp [Stmt.Ensures, Job.awaits?]
  | fetch accessType pc =>
      rw [Job.stmt, Stmt.ensures_map]
      cases pc <;> simp only [fetchPg, Stmt.ensures_ite] <;> simp [Stmt.Ensures, Job.awaits?]
  | invalidate pc =>
      rw [Job.stmt, Stmt.ensures_map]
      cases pc <;> simp only [invalidateAdapter, Stmt.ensures_ite] <;>
        simp [Stmt.Ensures, Job.awaits?]

/-- A thread that waits after a statement waits for the instance it started. -/
theorem Stmt.execOnPage_awaits {σ : Type} {self : NodeId} {tid : Tid} {fresh call : HandlerId}
    {stmt : Stmt σ} {st after : PageState} {next : σ} {waits : σ → Option HandlerId}
    (own : stmt.AwaitsOwnCall waits)
    (ran : stmt.execOnPage self tid fresh st = some (next, after))
    (waiting : waits next = some call) :
    ∃ dst fn body target addr job, stmt = .call dst fn body target ∧ next = target call ∧
      fn.accept body = some (addr, job) ∧ after.handler call = some ⟨dst, job⟩ := by
  rcases execOnPage_ensures own (fun _ _ _ _ => trivial) ran with idle |
    ⟨dst, fn, body, target, addr, job, row, moved, called, accepted, present⟩
  · simp [idle] at waiting
  · obtain rfl : fresh = call := by simpa [called] using waiting
    exact ⟨dst, fn, body, target, addr, job, row, moved, accepted, present⟩

/-- A new instance is at its entry: it has not returned and waits for nothing. -/
theorem RpcName.accept_entry {fn : RpcName} {body : Text} {addr : Addr} {job : Job}
    (accepted : fn.accept body = some (addr, job)) :
    job.reply? = none ∧ job.awaits? = none := by
  cases fn <;> simp only [RpcName.accept, Option.map_eq_some_iff, Prod.mk.injEq] at accepted <;>
    obtain ⟨_, _, _, rfl⟩ := accepted <;> exact ⟨rfl, rfl⟩

/-! ### Statements and the instances -/

section Statements

variable {σ : Type} {self : NodeId} {tid : Tid} {fresh : HandlerId} {stmt : Stmt σ}
variable {st after : PageState} {next : σ}

theorem Stmt.execOnPage_app (ran : stmt.execOnPage self tid fresh st = some (next, after)) :
    after.app = st.app := by
  rcases execOnPage_cases ran with ⟨nd, _, rfl⟩ | ⟨_, _, _, _, _, _, _, _, _, _, rfl⟩ |
    ⟨_, _, _, _, _, _, _, _, rfl⟩ <;> rfl

/-- A statement keeps the instances that exist. -/
theorem Stmt.execOnPage_keeps {id : HandlerId} {handler : PageHandler}
    (ran : stmt.execOnPage self tid fresh st = some (next, after))
    (present : st.handler id = some handler) : after.handler id = some handler := by
  rcases execOnPage_cases ran with ⟨nd, _, rfl⟩ | ⟨_, _, _, _, _, _, _, unused, _, _, rfl⟩ |
    ⟨_, _, _, _, _, _, _, _, rfl⟩
  · exact present
  · rw [PageState.setHandler_other, present]
    intro same
    subst same
    simp [unused] at present
  · exact present

/-- An instance after a statement was there before or is the one it started. -/
theorem Stmt.execOnPage_handler {id : HandlerId} {handler : PageHandler}
    (ran : stmt.execOnPage self tid fresh st = some (next, after))
    (present : after.handler id = some handler) :
    st.handler id = some handler ∨
      ∃ fn body target addr, stmt = .call handler.node fn body target ∧ id = fresh ∧
        next = target id ∧ fn.accept body = some (addr, handler.job) := by
  rcases execOnPage_cases ran with ⟨nd, _, rfl⟩ |
    ⟨dst, fn, body, target, addr, job, rfl, unused, accepted, rfl, rfl⟩ |
    ⟨_, _, _, _, _, _, _, _, rfl⟩
  · exact .inl present
  · by_cases same : id = fresh
    · subst same
      obtain rfl : (⟨dst, job⟩ : PageHandler) = handler := by simpa using present
      exact .inr ⟨fn, body, target, addr, rfl, rfl, rfl, accepted⟩
    · exact .inl (by rwa [PageState.setHandler_other _ _ same] at present)
  · exact .inl present

end Statements

end LibIvy
