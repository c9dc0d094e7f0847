import LibIvy.Lib.Amortized
import LibIvy.Page.Calls
import LibIvy.Page.Locks
import LibIvy.Page.Waits

/-!
Contract: what the threads of a page still have to do.

Owns: the price of every position of a fault handler and of a served function up to
its return, calls included, and that a step of the page pays its price out of what
is owed there.

Does not own: runs of the whole system.

An invalidation is paid for by the read request that puts its node into the copyset.
A write request takes over what the copyset owes when it copies it, and is done with
it when it clears it.
-/

namespace LibIvy

open Lib

/-! ### Prices -/

/-- The price of a statement, and what a call costs on top of its statement. -/
structure Prices where
  statement : Nat
  call : Nat

/-- A call of `send_invalidations`, what it starts, and its reply. -/
def Prices.invalidation (prices : Prices) : Nat := 5 * prices.statement + prices.call

/-- A read fault, with the invalidation that it leads to. -/
def Prices.readFault (prices : Prices) : Nat := 26 * prices.statement + 3 * prices.call

/-- A write fault, without the invalidations of earlier readers. -/
def Prices.writeFault (prices : Prices) : Nat := 23 * prices.statement + 2 * prices.call

def Rq.price (prices : Prices) : Rq → Nat
  | .rd => prices.readFault
  | .wr => prices.writeFault

def Stmt.price {σ : Type} (prices : Prices) : Stmt σ → Nat
  | .call _ _ _ _ => prices.statement + prices.call
  | _ => prices.statement

/-! ### What is due at a position -/

section Dues

variable (prices : Prices)

def FetchPc.due : FetchPc → Nat
  | .entry => 5 * prices.statement
  | .locked => 4 * prices.statement
  | .readOnly => 3 * prices.statement
  | .copied _ => 2 * prices.statement
  | .restricted _ => prices.statement
  | .done _ => 0

def InvalidatePc.due : InvalidatePc → Nat
  | .entry => 3 * prices.statement
  | .locked => 2 * prices.statement
  | .dropped => prices.statement
  | .done => 0

def RdPc.due : RdPc → Nat
  | .entry => 18 * prices.statement + 2 * prices.call
  | .pageLocked => 17 * prices.statement + 2 * prices.call
  | .infoLocked => 16 * prices.statement + 2 * prices.call
  | .inserted => 10 * prices.statement + prices.call
  | .gotOwner _ => 9 * prices.statement + prices.call
  | .fetching _ _ => 3 * prices.statement
  | .fetched _ => 2 * prices.statement
  | .infoUnlocked _ => prices.statement
  | .done _ => 0
  | .callFailed => 20 * prices.statement + 2 * prices.call
  | .backOff => 19 * prices.statement + 2 * prices.call
  | .aborted => 0

/-- The nodes still to call owe their invalidations. -/
def WrPc.due : WrPc → Nat
  | .entry => 16 * prices.statement + prices.call
  | .pageLocked => 15 * prices.statement + prices.call
  | .gotOwner _ => 14 * prices.statement + prices.call
  | .infoLocked _ => 13 * prices.statement + prices.call
  | .erased _ nodes => 12 * prices.statement + prices.call + nodes.length * prices.invalidation
  | .fetching _ nodes _ => 6 * prices.statement + nodes.length * prices.invalidation
  | .invalidating _ _ nodes => 5 * prices.statement + nodes.length * prices.invalidation
  | .invalidateSent _ _ nodes _ => 6 * prices.statement + nodes.length * prices.invalidation
  | .sent _ _ => 4 * prices.statement
  | .cleared _ _ => 3 * prices.statement
  | .committed _ _ => 2 * prices.statement
  | .infoUnlocked _ _ => prices.statement
  | .done _ => 0
  | .callFailed => 18 * prices.statement + prices.call
  | .backOff => 17 * prices.statement + prices.call
  | .aborted => 0

def Job.due : Job → Nat
  | .servRd _ pc => pc.due prices
  | .servWr _ pc => pc.due prices
  | .fetch _ pc => pc.due prices
  | .invalidate pc => pc.due prices

/-- What a call starts. -/
def RpcName.due : RpcName → Nat
  | .getRdPageFromManager => RdPc.due prices .entry
  | .getWrPageFromManager => WrPc.due prices .entry
  | .fetchPg => FetchPc.due prices .entry
  | .invalidatePg => InvalidatePc.due prices .entry

def FaultPc.due (rq : Rq) : FaultPc → Nat
  | .entry => rq.price prices
  | .locked => rq.price prices - prices.statement
  | .asking _ => if rq = .rd then 6 * prices.statement else 5 * prices.statement
  | .got _ => if rq = .rd then 5 * prices.statement else 4 * prices.statement
  | .opened _ => if rq = .rd then 4 * prices.statement else 3 * prices.statement
  | .copied => if rq = .rd then 3 * prices.statement else 2 * prices.statement
  | .closed => 2 * prices.statement
  | .noted => prices.statement
  | .failed => rq.price prices + prices.statement
  | .returned => 0

end Dues

/-- A write request that has copied the copyset and not yet cleared it. -/
def Job.invalidates : Job → Bool
  | .servWr _ (.erased _ _) => true
  | .servWr _ (.fetching _ _ _) => true
  | .servWr _ (.invalidating _ _ _) => true
  | .servWr _ (.invalidateSent _ _ _ _) => true
  | .servWr _ (.sent _ _) => true
  | _ => false

theorem RpcName.accept_due {fn : RpcName} {body : Text} {addr : Addr} {job : Job}
    (accepted : fn.accept body = some (addr, job)) (prices : Prices) :
    job.due prices = fn.due prices ∧ job.invalidates = false := by
  cases fn <;> simp only [RpcName.accept, Option.map_eq_some_iff, Prod.mk.injEq] at accepted <;>
    obtain ⟨_, _, _, rfl⟩ := accepted <;> exact ⟨rfl, rfl⟩

/-! ### Statements pay -/

/-- Wherever the statement leads, `now` covers its price, what it starts and what is
due there. A node that is put into the copyset is paid for; the nodes that are copied
out of it pay. `copies` is the part of a write request that works on such a copy. -/
def Stmt.Pays {σ : Type} (prices : Prices) (due : σ → Nat) (copies : σ → Bool) (now : Nat)
    (copied : Bool) : Stmt σ → Prop
  | .skip next => due next + prices.statement ≤ now ∧ copies next = copied
  | .waitLock _ _ next => due next + prices.statement ≤ now ∧ copies next = copied
  | .unlock _ _ next => due next + prices.statement ≤ now ∧ copies next = copied
  | .readOwner _ next =>
      ∀ owner, due (next owner) + prices.statement ≤ now ∧ copies (next owner) = copied
  | .setOwner _ _ next => due next + prices.statement ≤ now ∧ copies next = copied
  | .copysetInsert _ _ next =>
      due next + prices.statement + prices.invalidation ≤ now ∧ copies next = copied
  | .copysetErase _ _ next => copied = false ∧ ∀ nodes,
      due (next nodes) + prices.statement ≤ now + nodes.length * prices.invalidation ∧
        copies (next nodes) = true
  | .copysetClear _ next =>
      due next + prices.statement ≤ now ∧ copied = true ∧ copies next = false
  | .setInfoAccess _ _ next => due next + prices.statement ≤ now ∧ copies next = copied
  | .setAccess _ _ next => due next + prices.statement ≤ now ∧ copies next = copied
  | .readPage _ next =>
      ∀ contents, due (next contents) + prices.statement ≤ now ∧ copies (next contents) = copied
  | .memcpy _ _ next => due next + prices.statement ≤ now ∧ copies next = copied
  | .call _ fn _ next => ∀ id,
      due (next id) + fn.due prices + prices.statement + prices.call ≤ now ∧
        copies (next id) = copied
  | .await _ _ next _ =>
      ∀ reply, due (next reply) + prices.statement ≤ now ∧ copies (next reply) = copied
  | .halt => True

section Rows

variable {prices : Prices}

@[simp] theorem Stmt.pays_ite {σ : Type} {due : σ → Nat} {copies : σ → Bool} {now : Nat}
    {copied : Bool} (condition : Prop) [Decidable condition] (first second : Stmt σ) :
    (if condition then first else second).Pays prices due copies now copied ↔
      if condition then first.Pays prices due copies now copied
      else second.Pays prices due copies now copied := by
  split <;> rfl

@[simp] theorem Stmt.pays_map {σ τ : Type} {due : τ → Nat} {copies : τ → Bool} {now : Nat}
    {copied : Bool} (wrap : σ → τ) (stmt : Stmt σ) :
    (stmt.map wrap).Pays prices due copies now copied ↔
      stmt.Pays prices (fun pc => due (wrap pc)) (fun pc => copies (wrap pc)) now copied := by
  cases stmt <;> rfl

theorem faultHdlr_pays (cfg : Config) (rq : Rq) (id : NodeId) (addr : Addr) (pc : FaultPc) :
    (faultHdlr cfg rq id addr pc).Pays prices (FaultPc.due prices rq) (fun _ => false)
      (pc.due prices rq) false := by
  cases rq <;> cases pc <;>
    simp only [faultHdlr, rdFaultHdlr, wrFaultHdlr, Stmt.pays_ite] <;>
    simp [Stmt.Pays, FaultPc.due, Rq.price, Prices.readFault, Prices.writeFault, RpcName.due,
      RdPc.due, WrPc.due] <;>
    omega

theorem servRdRq_pays (cfg : Config) (self : NodeId) (addr : Addr) (reqNode : NodeId) (pc : RdPc) :
    (servRdRq cfg self addr reqNode pc).Pays prices (RdPc.due prices) (fun _ => false)
      (pc.due prices) false := by
  cases pc <;> simp only [servRdRq, Stmt.pays_ite] <;>
    simp only [Stmt.Pays, RdPc.due, RpcName.due, FetchPc.due, Prices.invalidation, and_true,
      forall_const, ite_self] <;>
    (try split) <;> omega

theorem servWrRq_pays (cfg : Config) (self : NodeId) (addr : Addr) (reqNode : NodeId) (pc : WrPc) :
    (servWrRq cfg self addr reqNode pc).Pays prices (WrPc.due prices)
      (fun next => (Job.servWr reqNode next).invalidates) (pc.due prices)
      (Job.servWr reqNode pc).invalidates := by
  cases pc
  case invalidating ownerNode pageContents nodes =>
    cases nodes with
    | nil => simp [servWrRq, Stmt.Pays, WrPc.due, Job.invalidates]; omega
    | cons node nodes =>
        simp only [servWrRq, Stmt.Pays, WrPc.due, RpcName.due, InvalidatePc.due, List.length_cons,
          Nat.succ_mul, Job.invalidates, and_true]
        unfold Prices.invalidation
        omega
  case invalidateSent ownerNode pageContents nodes call =>
    intro reply
    dsimp only
    split <;> simp [WrPc.due, Job.invalidates] <;> omega
  case erased ownerNode ivldSet =>
    simp only [servWrRq, Stmt.pays_ite]
    split
    · simp only [Stmt.Pays, WrPc.due, RpcName.due, FetchPc.due, Job.invalidates, and_true,
        forall_const]
      omega
    · split <;>
        simp only [Stmt.Pays, WrPc.due, RpcName.due, FetchPc.due, Job.invalidates, and_true,
          forall_const] <;>
        omega
  all_goals
    simp only [servWrRq, Stmt.pays_ite]
    simp only [Stmt.Pays, WrPc.due, Job.invalidates, and_true, forall_const, true_and]
    try first | omega | (split <;> omega)

theorem job_pays (cfg : Config) (self : NodeId) (addr : Addr) (job : Job) :
    (job.stmt cfg self addr).Pays prices (Job.due prices) Job.invalidates (job.due prices)
      job.invalidates := by
  cases job with
  | servRd reqNode pc =>
      rw [Job.stmt, Stmt.pays_map]
      exact servRdRq_pays cfg self addr reqNode pc
  | servWr reqNode pc =>
      rw [Job.stmt, Stmt.pays_map]
      exact servWrRq_pays cfg self addr reqNode pc
  | fetch accessType pc =>
      rw [Job.stmt, Stmt.pays_map]
      cases pc <;> simp only [fetchPg, Stmt.pays_ite] <;>
        simp [Stmt.Pays, Job.due, FetchPc.due, Job.invalidates] <;> omega
  | invalidate pc =>
      rw [Job.stmt, Stmt.pays_map]
      cases pc <;> simp only [invalidateAdapter, Stmt.pays_ite] <;>
        simp [Stmt.Pays, Job.due, InvalidatePc.due, Job.invalidates] <;> omega

end Rows

/-! ### What is owed on a page -/

namespace PageState

variable (prices : Prices) (st : PageState)

/-- What a thread owes up to its return. -/
def owes : Tid → Nat
  | .app thread => (st.app thread).elim 0 fun inside => inside.2.due prices inside.1
  | .handler id => (st.handler id).elim 0 fun handler => handler.job.due prices

/-- Some write request works on a copy of the copyset. -/
def Copied : Prop := ∃ id handler, st.handler id = some handler ∧ handler.job.invalidates = true

open Classical in
/-- The nodes in the copyset that no write request has copied. -/
noncomputable def readers : Nat := if st.Copied then 0 else (st.node 0).info.copyset.elems.length

/-- What the threads of the page owe, with the invalidations of its readers. -/
noncomputable def owed : Nat := owedTotal (st.owes prices) + st.readers * prices.invalidation

/-- Finitely many threads work on the page. -/
def Few : Prop := (Function.support (st.owes prices)).Finite

variable {prices st}

theorem owes_setApp (thread : AppId) (app : Option (Rq × FaultPc)) :
    (st.setApp thread app).owes prices = Function.update (st.owes prices) (.app thread)
      (app.elim 0 fun inside => inside.2.due prices inside.1) := by
  funext tid
  cases tid with
  | app other => by_cases same : other = thread <;> simp [owes, setApp, same]
  | handler id => simp [owes, setApp]

theorem owes_setHandler (id : HandlerId) (handler : PageHandler) :
    (st.setHandler id handler).owes prices =
      Function.update (st.owes prices) (.handler id) (handler.job.due prices) := by
  funext tid
  cases tid with
  | app other => simp [owes, setHandler]
  | handler other => by_cases same : other = id <;> simp [owes, setHandler, same]

theorem owes_handler {id : HandlerId} {handler : PageHandler}
    (present : st.handler id = some handler) :
    st.owes prices (.handler id) = handler.job.due prices := by
  simp [owes, present]

theorem resume_due (rq : Rq) (next : FaultPc) :
    ((resumeOnPage rq next).elim 0 fun inside => inside.2.due prices inside.1) =
      next.due prices rq := by
  cases next <;> rfl

theorem readers_le {after : PageState} {more : Nat} (same : after.Copied ↔ st.Copied)
    (grows : (after.node 0).info.copyset.elems.length ≤
      (st.node 0).info.copyset.elems.length + more) : after.readers ≤ st.readers + more := by
  by_cases copied : st.Copied
  · rw [readers, if_pos (same.mpr copied)]
    exact Nat.zero_le _
  · rw [readers, readers, if_neg (mt same.mp copied), if_neg copied]
    exact grows

end PageState

/-! ### One statement -/

section Statements

variable {prices : Prices} {σ : Type} {self : NodeId} {tid : Tid} {fresh : HandlerId}
variable {stmt : Stmt σ} {st between : PageState} {next : σ} {due : σ → Nat} {copies : σ → Bool}
variable {now : Nat} {copied : Bool}

theorem NodeSet.insert_length (node : NodeId) (set : NodeSet) :
    (set.insert node).elems.length ≤ set.elems.length + 1 := by
  obtain ⟨elems, ascending⟩ := set
  change (insertSorted node elems).length ≤ elems.length + 1
  clear ascending
  induction elems with
  | nil => exact le_rfl
  | cons head tail inductionHypothesis =>
      unfold insertSorted
      split
      · simp
      · split
        · simp
        · simpa using inductionHypothesis

/-- How the copyset of the node changes when a statement pays its price. -/
inductive CopysetPaid (prices : Prices) (copies : σ → Bool) (copied : Bool) (next : σ)
    (before after : NodeSet) (paid available : Nat) : Prop where
  | kept (more : Nat) (same : copies next = copied)
      (grows : after.elems.length ≤ before.elems.length + more)
      (enough : paid + more * prices.invalidation ≤ available)
  | taken (started : copied = false) (takes : copies next = true)
      (enough : paid ≤ available + before.elems.length * prices.invalidation)
  | cleared (ended : copied = true) (stops : copies next = false) (empty : after = ∅)
      (enough : paid ≤ available)

theorem Stmt.runOnPage_pays {nd after : NodePage} (pays : stmt.Pays prices due copies now copied)
    (ran : stmt.runOnPage tid nd = some (next, after)) :
    stmt.price prices = prices.statement ∧
      CopysetPaid prices copies copied next nd.info.copyset after.info.copyset
        (due next + prices.statement) now := by
  cases stmt with
  | call => contradiction
  | await => contradiction
  | halt => contradiction
  | waitLock table key target =>
      simp only [runOnPage] at ran
      split at ran
      · obtain ⟨rfl, rfl⟩ := ran
        refine ⟨rfl, .kept 0 pays.2 ?_ (by simpa using pays.1)⟩
        cases table <;> exact le_rfl
      · contradiction
  | unlock table key target =>
      obtain ⟨rfl, rfl⟩ := ran
      refine ⟨rfl, .kept 0 pays.2 ?_ (by simpa using pays.1)⟩
      cases table <;> exact le_rfl
  | readPage addr target =>
      simp only [runOnPage] at ran
      split at ran
      · obtain ⟨rfl, rfl⟩ := ran
        exact ⟨rfl, .kept 0 (pays _).2 le_rfl (by simpa using (pays _).1)⟩
      · contradiction
  | memcpy addr contents target =>
      simp only [runOnPage] at ran
      split at ran
      · split at ran
        · obtain ⟨rfl, rfl⟩ := ran
          exact ⟨rfl, .kept 0 pays.2 le_rfl (by simpa using pays.1)⟩
        · contradiction
      · contradiction
  | readOwner key target =>
      obtain ⟨rfl, rfl⟩ := ran
      exact ⟨rfl, .kept 0 (pays _).2 le_rfl (by simpa using (pays _).1)⟩
  | copysetInsert key node target =>
      obtain ⟨rfl, rfl⟩ := ran
      exact ⟨rfl, .kept 1 pays.2 (NodeSet.insert_length ..) (by simpa using pays.1)⟩
  | copysetErase key node target =>
      obtain ⟨rfl, rfl⟩ := ran
      obtain ⟨enough, takes⟩ := pays.2 (nd.info.copyset.erase node).elems
      refine ⟨rfl, .taken pays.1 takes (le_trans enough ?_)⟩
      exact Nat.add_le_add_left (Nat.mul_le_mul_right _ (List.length_filter_le ..)) now
  | copysetClear key target =>
      obtain ⟨rfl, rfl⟩ := ran
      exact ⟨rfl, .cleared pays.2.1 pays.2.2 rfl pays.1⟩
  | _ =>
      obtain ⟨rfl, rfl⟩ := ran
      exact ⟨rfl, .kept 0 pays.2 le_rfl (by simpa using pays.1)⟩

/-- A statement pays its price and what it starts out of what its thread owes. -/
theorem Stmt.execOnPage_pays (few : st.Few prices)
    (pays : stmt.Pays prices due copies now copied)
    (ran : stmt.execOnPage self tid fresh st = some (next, between)) :
    between.Few prices ∧ (∀ node, node ≠ self → between.node node = st.node node) ∧
      CopysetPaid prices copies copied next (st.node self).info.copyset
        (between.node self).info.copyset
        (owedTotal (between.owes prices) + due next + stmt.price prices)
        (owedTotal (st.owes prices) + now) := by
  rcases execOnPage_cases ran with ⟨nd, onNode, rfl⟩ |
    ⟨dst, fn, body, target, addr, job, rfl, unused, accepted, rfl, rfl⟩ |
    ⟨rpc, id, target, failed, reply, rfl, replied, rfl, rfl⟩
  · obtain ⟨price, paid⟩ := runOnPage_pays pays onNode
    have same : (st.setNode self nd).owes prices = st.owes prices := rfl
    have here : (st.setNode self nd).node self = nd := by simp [PageState.setNode]
    refine ⟨few, fun node different => by simp [PageState.setNode, different], ?_⟩
    rw [same, here, price]
    rcases paid with ⟨more, same, grows, enough⟩ | ⟨started, takes, enough⟩ |
      ⟨ended, stops, empty, enough⟩
    · exact .kept more same grows (by omega)
    · exact .taken started takes (by omega)
    · exact .cleared ended stops empty (by omega)
  · obtain ⟨enough, same⟩ := pays fresh
    have starts : (st.setHandler fresh ⟨dst, job⟩).owes prices =
        Function.update (st.owes prices) (.handler fresh) (job.due prices) :=
      PageState.owes_setHandler ..
    have idle : st.owes prices (.handler fresh) = 0 := by simp [PageState.owes, unused]
    have called := owedTotal_update few (.handler fresh) (job.due prices)
    rw [idle, (RpcName.accept_due accepted prices).1] at called
    refine ⟨?_, fun _ _ => rfl, .kept 0 same le_rfl ?_⟩
    · rw [PageState.Few, starts]
      refine (few.insert (.handler fresh)).subset fun other owes => ?_
      by_cases same : other = .handler fresh
      · exact .inl same
      · exact .inr (by simpa [same] using owes)
    · rw [starts, (RpcName.accept_due accepted prices).1]
      simp only [Stmt.price]
      omega
  · obtain ⟨enough, same⟩ := pays reply
    refine ⟨few, fun _ _ => rfl, .kept 0 same le_rfl ?_⟩
    simp only [Stmt.price]
    omega

end Statements

/-! ### One step -/

/-- The price of the statement that a step of the page runs. -/
def PageState.cost (cfg : Config) (base : Addr) (prices : Prices) (st : PageState) :
    PageAction → Nat
  | .app thread _ => (st.app thread).elim 0 fun inside =>
      (faultHdlr cfg inside.1 thread.node base inside.2).price prices
  | .handler id _ => (st.handler id).elim 0 fun handler =>
      (handler.job.stmt cfg handler.node base).price prices
  | _ => 0

/-- What a step of the page pays in. -/
def PageAction.credit (prices : Prices) : PageAction → Nat
  | .fault _ rq => rq.price prices
  | _ => 0

section Steps

variable {cfg : Config} {base : Addr} {prices : Prices} {st after : PageState}

/-- A write request holds the info lock while it works on its copy of the copyset. -/
theorem Job.held_of_invalidates {job : Job} (invalidates : job.invalidates = true) :
    job.kind.serves = true ∧ job.held true .infoLocks = true := by
  cases job with
  | servWr reqNode pc => cases pc <;> first | contradiction | exact ⟨rfl, rfl⟩
  | _ => contradiction

/-- A fault handler pays. -/
theorem PageState.app_owed (few : st.Few prices) {thread : AppId} {fresh : HandlerId}
    (taken : st.step cfg base (.app thread fresh) = some after) :
    after.owed prices + st.cost cfg base prices (.app thread fresh) ≤ st.owed prices := by
  obtain ⟨rq, pc, next, between, inside, ran, rfl⟩ := step_app taken
  obtain ⟨fewBetween, others, paid⟩ := Stmt.execOnPage_pays few (faultHdlr_pays ..) ran
  have sameOwes : between.owes prices (.app thread) = pc.due prices rq := by
    simp [owes, Stmt.execOnPage_app ran, inside]
  have moved := owedTotal_update fewBetween (.app thread) (next.due prices rq)
  rw [← resume_due, ← owes_setApp, sameOwes, resume_due] at moved
  have price : st.cost cfg base prices (.app thread fresh) =
      (faultHdlr cfg rq thread.node base pc).price prices := by
    simp [cost, inside]
  have copied : (between.setApp thread (resumeOnPage rq next)).Copied ↔ st.Copied := by
    constructor
    · rintro ⟨id, handler, present, invalidates⟩
      rcases Stmt.execOnPage_handler ran present with old | ⟨_, _, _, _, _, _, _, accepted⟩
      · exact ⟨id, handler, old, invalidates⟩
      · simp [(RpcName.accept_due accepted prices).2] at invalidates
    · rintro ⟨id, handler, present, invalidates⟩
      have kept := Stmt.execOnPage_keeps ran present
      exact ⟨id, handler, kept, invalidates⟩
  rcases paid with ⟨more, -, grows, enough⟩ | ⟨-, takes, -⟩ | ⟨ended, -, -, -⟩
  · have readers : (between.setApp thread (resumeOnPage rq next)).readers ≤ st.readers + more := by
      refine readers_le copied ?_
      by_cases same : 0 = thread.node
      · exact same ▸ grows
      · change (between.node 0).info.copyset.elems.length ≤ _
        rw [others 0 same]
        exact Nat.le_add_right ..
    have share := Nat.mul_le_mul_right prices.invalidation readers
    rw [Nat.add_mul] at share
    rw [owed, owed, price]
    omega
  · contradiction
  · contradiction

/-- Another instance than `id` works on a copy of the copyset. -/
def PageState.CopiedBeside (st : PageState) (id : HandlerId) : Prop :=
  ∃ other handler, other ≠ id ∧ st.handler other = some handler ∧ handler.job.invalidates = true

theorem PageState.copied_iff {id : HandlerId} {handler : PageHandler}
    (present : st.handler id = some handler) :
    st.Copied ↔ handler.job.invalidates = true ∨ st.CopiedBeside id := by
  constructor
  · rintro ⟨other, found, foundPresent, invalidates⟩
    by_cases same : other = id
    · subst same
      obtain rfl : handler = found := by simpa [present] using foundPresent
      exact .inl invalidates
    · exact .inr ⟨other, found, same, foundPresent, invalidates⟩
  · rintro (invalidates | ⟨other, found, -, foundPresent, invalidates⟩)
    · exact ⟨id, handler, present, invalidates⟩
    · exact ⟨other, found, foundPresent, invalidates⟩

/-- Only a write request that holds the info lock copies the copyset. -/
theorem job_ensures_invalidates (cfg : Config) (self : NodeId) (addr : Addr) (job : Job) :
    (job.stmt cfg self addr).Ensures
      (fun next => next.invalidates = true → job.invalidates = true ∨
        job.kind.serves = true ∧ job.held true .infoLocks = true)
      (fun _ next => next.invalidates = true → job.invalidates = true) fun _ => True := by
  cases job with
  | servRd reqNode pc =>
      rw [Job.stmt, Stmt.ensures_map]
      cases pc <;> simp only [servRdRq, Stmt.ensures_ite] <;> simp [Stmt.Ensures, Job.invalidates]
  | servWr reqNode pc =>
      rw [Job.stmt, Stmt.ensures_map]
      cases pc
      case invalidating ownerNode pageContents nodes =>
        cases nodes <;> simp [servWrRq, Stmt.Ensures, Job.invalidates]
      all_goals
        simp only [servWrRq, Stmt.ensures_ite]
        simp [Stmt.Ensures, Job.invalidates, Job.kind, JobKind.serves, Job.held]
  | fetch accessType pc =>
      rw [Job.stmt, Stmt.ensures_map]
      cases pc <;> simp only [fetchPg, Stmt.ensures_ite] <;> simp [Stmt.Ensures, Job.invalidates]
  | invalidate pc =>
      rw [Job.stmt, Stmt.ensures_map]
      cases pc <;> simp only [invalidateAdapter, Stmt.ensures_ite] <;>
        simp [Stmt.Ensures, Job.invalidates]

/-- While a request that copies nothing holds the info lock of the manager, nobody
works on a copy. -/
theorem LocksHeld.not_copiedBeside (locksHeld : LocksHeld cfg st) (linked : Linked cfg st)
    (zero : cfg.managerId = 0) {id : HandlerId} {handler : PageHandler}
    (present : st.handler id = some handler) (serves : handler.job.kind.serves = true)
    (held : handler.job.held true .infoLocks = true) : ¬st.CopiedBeside id := by
  rintro ⟨other, found, different, foundPresent, invalidates⟩
  obtain ⟨foundServes, foundHeld⟩ := Job.held_of_invalidates invalidates
  have manager : cfg.isManager 0 = true := by simp [zero]
  have ours : st.Holds cfg 0 .infoLocks (.handler id) :=
    ⟨_, present, linked.atManager present serves, by rwa [manager]⟩
  have theirs : st.Holds cfg 0 .infoLocks (.handler other) :=
    ⟨_, foundPresent, linked.atManager foundPresent foundServes, by rwa [manager]⟩
  exact different (Tid.handler.inj (locksHeld.unique theirs ours))

/-- An instance pays. -/
theorem PageState.handler_owed (zero : cfg.managerId = 0) (locksHeld : LocksHeld cfg st)
    (linked : Linked cfg st) (few : st.Few prices) {id fresh : HandlerId}
    (taken : st.step cfg base (.handler id fresh) = some after) :
    after.owed prices + st.cost cfg base prices (.handler id fresh) ≤ st.owed prices := by
  obtain ⟨handler, next, between, present, ran, rfl⟩ := step_handler taken
  obtain ⟨fewBetween, others, paid⟩ := Stmt.execOnPage_pays few (job_pays ..) ran
  -- the thread that moves now owes what is due after the statement
  have moved : owedTotal ((between.setHandler id { handler with job := next }).owes prices) +
      handler.job.due prices = owedTotal (between.owes prices) + next.due prices := by
    rw [owes_setHandler, ← owes_handler (Stmt.execOnPage_keeps ran present)]
    exact owedTotal_update fewBetween ..
  have price : st.cost cfg base prices (.handler id fresh) =
      (handler.job.stmt cfg handler.node base).price prices := by
    simp [cost, present]
  have beside : (between.setHandler id { handler with job := next }).CopiedBeside id ↔
      st.CopiedBeside id := by
    constructor
    · rintro ⟨other, found, different, foundPresent, invalidates⟩
      rw [setHandler_other _ _ different] at foundPresent
      rcases Stmt.execOnPage_handler ran foundPresent with old | ⟨_, _, _, _, _, _, _, accepted⟩
      · exact ⟨other, found, different, old, invalidates⟩
      · simp [(RpcName.accept_due accepted prices).2] at invalidates
    · rintro ⟨other, found, different, foundPresent, invalidates⟩
      refine ⟨other, found, different, ?_, invalidates⟩
      rw [setHandler_other _ _ different]
      exact Stmt.execOnPage_keeps ran foundPresent
  have before := copied_iff present
  have later := @copied_iff (between.setHandler id { handler with job := next }) _ _
    (setHandler_self ..)
  rw [beside] at later
  rw [owed, owed, price]
  rcases paid with ⟨more, same, grows, enough⟩ | ⟨started, takes, enough⟩ |
    ⟨ended, stops, empty, enough⟩
  · have readers : (between.setHandler id { handler with job := next }).readers ≤
        st.readers + more := by
      refine readers_le (by rw [before, later, same]) ?_
      by_cases same : 0 = handler.node
      · exact same ▸ grows
      · change (between.node 0).info.copyset.elems.length ≤ _
        rw [others 0 same]
        exact Nat.le_add_right ..
    have share := Nat.mul_le_mul_right prices.invalidation readers
    rw [Nat.add_mul] at share
    omega
  · have request : handler.job.kind.serves = true ∧ handler.job.held true .infoLocks = true := by
      rcases Stmt.execOnPage_ensures (job_ensures_invalidates ..) (fun _ _ _ _ => trivial) ran with
        copies | ⟨_, _, _, _, _, _, _, _, copies, _⟩
      · exact (copies takes).resolve_left (by simp [started])
      · simp [started] at copies
        simp [copies] at takes
    have alone := locksHeld.not_copiedBeside linked zero present request.1 request.2
    obtain atManager := linked.atManager present request.1
    have readers : st.readers = (st.node handler.node).info.copyset.elems.length := by
      rw [PageState.readers, if_neg, atManager]
      rw [before]
      simp [started, alone]
    have none : (between.setHandler id { handler with job := next }).readers = 0 :=
      if_pos (later.mpr (.inl takes))
    rw [none, readers]
    omega
  · have none : (between.setHandler id { handler with job := next }).readers = 0 := by
      by_cases copied : (between.setHandler id { handler with job := next }).Copied
      · exact if_pos copied
      · have atManager := linked.atManager present (Job.held_of_invalidates ended).1
        rw [PageState.readers, if_neg copied]
        change (between.node 0).info.copyset.elems.length = 0
        rw [atManager] at empty
        rw [empty]
        rfl
    rw [none]
    omega

/-- A step of the page pays its price. -/
theorem PageState.step_owed (zero : cfg.managerId = 0) (locksHeld : LocksHeld cfg st)
    (linked : Linked cfg st) (few : st.Few prices) {action : PageAction}
    (reliable : action.reliable = true) (taken : st.step cfg base action = some after) :
    after.owed prices + st.cost cfg base prices action ≤
      st.owed prices + action.credit prices := by
  cases action with
  | store thread offset values =>
      obtain ⟨-, -, -, rfl⟩ := step_store taken
      have readers : (st.setNode thread.node { st.node thread.node with
          bytes := writePage (st.node thread.node).bytes offset values }).readers ≤
          st.readers + 0 := by
        refine readers_le Iff.rfl ?_
        by_cases same : 0 = thread.node <;> simp [setNode, same]
      have share := Nat.mul_le_mul_right prices.invalidation readers
      exact Nat.add_le_add_left share (owedTotal (st.owes prices))
  | fault thread rq =>
      obtain ⟨-, outside, -, rfl⟩ := step_fault taken
      have moved := owedTotal_update few (.app thread) (rq.price prices)
      have idle : st.owes prices (.app thread) = 0 := by simp [owes, outside]
      have readers : (st.setApp thread (some (rq, .entry))).readers = st.readers := rfl
      rw [owed, owed, owes_setApp, readers]
      change owedTotal (Function.update _ _ (rq.price prices)) + _ + 0 ≤ _ + rq.price prices
      omega
  | app thread fresh => exact app_owed few taken
  | handler id fresh => exact handler_owed zero locksHeld linked few taken
  | failApp thread => contradiction
  | failHandler id => contradiction

end Steps

end LibIvy
