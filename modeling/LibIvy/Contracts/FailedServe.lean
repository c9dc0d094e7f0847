import LibIvy.Runtime.Machine

/-!
Contract: what a serve leaves behind when its fetch has failed.

Owns: the steps of one serving instance and of the instances it starts, from any
state of the system, what it has done to the directory whenever it is back at its
entry with an error, and when that is nothing.

Does not own: what others do between two attempts.

The copyset is edited before the call that can fail, and not restored.
-/

namespace LibIvy

open Lib NumberText TransitionSystem

/-! ### One instance and its calls -/

/-- The step is one of the instance or of an instance that was started since. -/
def Action.ofServe (id : HandlerId) (start : Sys) : Action → Prop
  | .handler other _ => other = id ∨ start.handler other = none
  | .failHandler other => other = id ∨ start.handler other = none
  | _ => False

/-- The system from a given state on. -/
def machineFrom (cfg : Config) (start : Sys) : TransitionSystem Sys Action Event where
  init := start
  step := Sys.step cfg

/-- What a request does to the copyset before its fetch. -/
def Rq.edit (rq : Rq) (reqNode : NodeId) (copyset : NodeSet) : NodeSet :=
  match rq with
  | .rd => copyset.insert reqNode
  | .wr => copyset.erase reqNode

/-- The request finds the copyset as it would leave it. -/
def Rq.Edited (rq : Rq) (reqNode : NodeId) (copyset : NodeSet) : Prop :=
  match rq with
  | .rd => reqNode ∈ copyset
  | .wr => reqNode ∉ copyset

theorem Rq.edit_eq_self {rq : Rq} {reqNode : NodeId} {copyset : NodeSet} :
    rq.edit reqNode copyset = copyset ↔ rq.Edited reqNode copyset := by
  cases rq with
  | rd =>
      constructor
      · intro same
        have inserted : reqNode ∈ copyset.insert reqNode := NodeSet.mem_insert.mpr (.inl rfl)
        rwa [show copyset.insert reqNode = copyset from same] at inserted
      · intro listed
        refine NodeSet.ext fun node => NodeSet.mem_insert.trans (or_iff_right_of_imp ?_)
        intro same
        subst same
        exact listed
  | wr =>
      constructor
      · intro same listed
        rw [← show copyset.erase reqNode = copyset from same] at listed
        exact (NodeSet.mem_erase.mp listed).1 rfl
      · intro unlisted
        refine NodeSet.ext fun node => NodeSet.mem_erase.trans (and_iff_right_of_imp ?_)
        intro listed same
        subst same
        exact unlisted listed

theorem Rq.edited_edit (rq : Rq) (reqNode : NodeId) (copyset : NodeSet) :
    rq.Edited reqNode (rq.edit reqNode copyset) := by
  cases rq with
  | rd => exact NodeSet.mem_insert.mpr (.inl rfl)
  | wr => exact fun listed => (NodeSet.mem_erase.mp listed).1 rfl

/-- Another attempt edits no further. -/
theorem Rq.edit_edit (rq : Rq) (reqNode : NodeId) (copyset : NodeSet) :
    rq.edit reqNode (rq.edit reqNode copyset) = rq.edit reqNode copyset :=
  Rq.edit_eq_self.mpr (rq.edited_edit reqNode copyset)

/-- The directory entry is the one of the start, only the fetched owner may have
another protection, both locks are free. -/
def LeftUntouched (start final : Sys) (node : NodeId) (key : Addr) : Prop :=
  let entry := (start.node node).info key
  ((final.node node).info key).copyset = entry.copyset ∧
    ((final.node node).info key).owner = entry.owner ∧
    (∀ other, other ≠ entry.owner → (final.node other).prot = (start.node other).prot) ∧
    (final.node node).pageLocks key = none ∧ (final.node node).infoLocks key = none

/-! ### While the call may still fail -/

/-- Positions of `serv_rd_rq` from which it does not return an error. -/
def RdPc.past : RdPc → Bool
  | .fetching ownerNode _ => ownerNode == 0
  | .fetched _ => true
  | .infoUnlocked _ => true
  | .done _ => true
  | .aborted => true
  | _ => false

/-- Positions of `serv_wr_rq` from which it does not return an error. -/
def WrPc.past : WrPc → Bool
  | .fetching ownerNode _ _ => ownerNode == 0
  | .invalidating _ _ _ => true
  | .invalidateSent _ _ _ _ => true
  | .sent _ _ => true
  | .cleared _ _ => true
  | .committed _ _ => true
  | .infoUnlocked _ _ => true
  | .done _ => true
  | .aborted => true
  | _ => false

def Job.past : Job → Bool
  | .servRd _ pc => pc.past
  | .servWr _ pc => pc.past
  | _ => false

section Attempt

variable (entry : Info) (key : Addr) (nd : Node)

/-- The copyset of the start, edited for the requester. -/
def HasEdited (rq : Rq) (reqNode : NodeId) : Prop :=
  (nd.info key).copyset = rq.edit reqNode entry.copyset

/-- What a position of `serv_rd_rq` says about the directory while the call may
still fail, at the entry once it has failed. -/
def RdPc.Attempt (reqNode : NodeId) : RdPc → Prop
  | .entry => HasEdited entry key nd .rd reqNode ∧ nd.pageLocks key = none ∧ nd.infoLocks key = none
  | .pageLocked => (nd.info key).copyset = entry.copyset ∨ HasEdited entry key nd .rd reqNode
  | .infoLocked => (nd.info key).copyset = entry.copyset ∨ HasEdited entry key nd .rd reqNode
  | .gotOwner ownerNode => HasEdited entry key nd .rd reqNode ∧ ownerNode = entry.owner
  | .backOff => HasEdited entry key nd .rd reqNode ∧ nd.infoLocks key = none
  | _ => HasEdited entry key nd .rd reqNode

/-- The same for `serv_wr_rq`. -/
def WrPc.Attempt (reqNode : NodeId) : WrPc → Prop
  | .entry => HasEdited entry key nd .wr reqNode ∧ nd.pageLocks key = none ∧ nd.infoLocks key = none
  | .pageLocked => (nd.info key).copyset = entry.copyset ∨ HasEdited entry key nd .wr reqNode
  | .gotOwner ownerNode =>
      ((nd.info key).copyset = entry.copyset ∨ HasEdited entry key nd .wr reqNode) ∧
        ownerNode = entry.owner
  | .infoLocked ownerNode =>
      ((nd.info key).copyset = entry.copyset ∨ HasEdited entry key nd .wr reqNode) ∧
        ownerNode = entry.owner
  | .erased ownerNode _ => HasEdited entry key nd .wr reqNode ∧ ownerNode = entry.owner
  | .backOff => HasEdited entry key nd .wr reqNode ∧ nd.infoLocks key = none
  | _ => HasEdited entry key nd .wr reqNode

def Job.Attempt : Job → Prop
  | .servRd reqNode pc => pc.Attempt entry key nd reqNode
  | .servWr reqNode pc => pc.Attempt entry key nd reqNode
  | _ => False

/-- Only the entry and the locks of the page count. -/
theorem Job.Attempt.congr {entry : Info} {key : Addr} {nd other : Node} {job : Job}
    (attempt : job.Attempt entry key nd) (info : other.info = nd.info)
    (pageLocks : other.pageLocks = nd.pageLocks) (infoLocks : other.infoLocks = nd.infoLocks) :
    job.Attempt entry key other := by
  obtain ⟨otherPageLocks, otherInfoLocks, otherInfo, otherProt, otherMem⟩ := other
  obtain rfl : otherInfo = nd.info := info
  obtain rfl : otherPageLocks = nd.pageLocks := pageLocks
  obtain rfl : otherInfoLocks = nd.infoLocks := infoLocks
  cases job with
  | servRd reqNode pc => cases pc <;> exact attempt
  | servWr reqNode pc => cases pc <;> exact attempt
  | fetch accessType pc => exact attempt
  | invalidate pc => exact attempt

end Attempt

section Statements

variable {cfg : Config} {addr : Addr} {entry : Info} {tid : Tid} {nd after : Node}
  {events : List Event}

/-- A statement of `serv_rd_rq` on its own node. -/
theorem servRdRq_attempt {reqNode : NodeId} {pc next : RdPc} (mayFail : pc.past = false)
    (attempt : pc.Attempt entry (pgAlign addr) nd reqNode)
    (owner : (nd.info (pgAlign addr)).owner = entry.owner)
    (ran : (servRdRq cfg cfg.managerId addr reqNode pc).runLocal cfg.managerId tid nd =
      some (next, after, events)) :
    (next.past = true ∨ next.Attempt entry (pgAlign addr) after reqNode) ∧
      (after.info (pgAlign addr)).owner = entry.owner ∧ after.prot = nd.prot := by
  cases pc with
  | entry =>
      simp only [servRdRq, Stmt.runLocal] at ran
      split at ran
      · obtain ⟨rfl, rfl, rfl⟩ := ran
        exact ⟨.inr (.inr (by simpa [HasEdited] using attempt.1)), by simpa using owner, rfl⟩
      · contradiction
  | pageLocked =>
      simp only [servRdRq, Config.isManager_eq_true, if_true, Stmt.runLocal] at ran
      split at ran
      · obtain ⟨rfl, rfl, rfl⟩ := ran
        exact ⟨.inr (by simpa [RdPc.Attempt, HasEdited] using attempt), by simpa using owner, rfl⟩
      · contradiction
  | infoLocked =>
      obtain ⟨rfl, rfl, rfl⟩ := ran
      refine ⟨.inr ?_, by simpa [Node.setInfo] using owner, rfl⟩
      rcases attempt with untouched | edited
      · simp [RdPc.Attempt, HasEdited, Node.setInfo, untouched, Rq.edit]
      · have again := Rq.edit_edit .rd reqNode entry.copyset
        simp only [HasEdited, Rq.edit] at edited again
        simp [RdPc.Attempt, HasEdited, Node.setInfo, edited, Rq.edit, again]
  | inserted =>
      obtain ⟨rfl, rfl, rfl⟩ := ran
      exact ⟨.inr ⟨attempt, owner⟩, owner, rfl⟩
  | gotOwner ownerNode =>
      simp only [servRdRq] at ran
      split at ran <;> contradiction
  | fetching ownerNode call => contradiction
  | callFailed =>
      obtain ⟨rfl, rfl, rfl⟩ := ran
      have edited : HasEdited entry (pgAlign addr) nd .rd reqNode := attempt
      exact ⟨.inr ⟨by simpa [HasEdited] using edited, by simp [Node.setLock]⟩,
        by simpa using owner, rfl⟩
  | backOff =>
      obtain ⟨rfl, rfl, rfl⟩ := ran
      exact ⟨.inr ⟨by simpa [HasEdited] using attempt.1, by simp [Node.setLock], attempt.2⟩,
        by simpa using owner, rfl⟩
  | _ => contradiction

/-- A statement of `serv_wr_rq` on its own node. -/
theorem servWrRq_attempt {reqNode : NodeId} {pc next : WrPc} (mayFail : pc.past = false)
    (attempt : pc.Attempt entry (pgAlign addr) nd reqNode)
    (owner : (nd.info (pgAlign addr)).owner = entry.owner)
    (ran : (servWrRq cfg cfg.managerId addr reqNode pc).runLocal cfg.managerId tid nd =
      some (next, after, events)) :
    (next.past = true ∨ next.Attempt entry (pgAlign addr) after reqNode) ∧
      (after.info (pgAlign addr)).owner = entry.owner ∧ after.prot = nd.prot := by
  cases pc with
  | entry =>
      simp only [servWrRq, Stmt.runLocal] at ran
      split at ran
      · obtain ⟨rfl, rfl, rfl⟩ := ran
        exact ⟨.inr (.inr (by simpa [HasEdited] using attempt.1)), by simpa using owner, rfl⟩
      · contradiction
  | pageLocked =>
      simp only [servWrRq, Config.isManager_eq_true, if_true, Stmt.runLocal] at ran
      obtain ⟨rfl, rfl, rfl⟩ := ran
      exact ⟨.inr ⟨attempt, owner⟩, owner, rfl⟩
  | gotOwner ownerNode =>
      simp only [servWrRq, Stmt.runLocal] at ran
      split at ran
      · obtain ⟨rfl, rfl, rfl⟩ := ran
        exact ⟨.inr ⟨by simpa [HasEdited] using attempt.1, attempt.2⟩, by simpa using owner, rfl⟩
      · contradiction
  | infoLocked ownerNode =>
      obtain ⟨rfl, rfl, rfl⟩ := ran
      refine ⟨.inr ⟨?_, attempt.2⟩, by simpa [Node.setInfo] using owner, rfl⟩
      rcases attempt.1 with untouched | edited
      · simp [HasEdited, Node.setInfo, untouched, Rq.edit]
      · have again := Rq.edit_edit .wr reqNode entry.copyset
        simp only [HasEdited, Rq.edit] at edited again
        simp [HasEdited, Node.setInfo, edited, Rq.edit, again]
  | erased ownerNode ivldSet =>
      simp only [servWrRq] at ran
      split at ran
      · contradiction
      · split at ran
        · obtain ⟨rfl, rfl, rfl⟩ := ran
          exact ⟨.inl rfl, owner, rfl⟩
        · contradiction
  | fetching ownerNode ivldSet call => contradiction
  | callFailed =>
      obtain ⟨rfl, rfl, rfl⟩ := ran
      have edited : HasEdited entry (pgAlign addr) nd .wr reqNode := attempt
      exact ⟨.inr ⟨by simpa [HasEdited] using edited, by simp [Node.setLock]⟩,
        by simpa using owner, rfl⟩
  | backOff =>
      obtain ⟨rfl, rfl, rfl⟩ := ran
      exact ⟨.inr ⟨by simpa [HasEdited] using attempt.1, by simp [Node.setLock], attempt.2⟩,
        by simpa using owner, rfl⟩
  | _ => contradiction

/-- A call that may fail is a fetch from the recorded owner. -/
theorem job_call_attempt {job : Job} {dst : NodeId} {fn : RpcName} {body : Text}
    {target : HandlerId → Job} (mayFail : job.past = false)
    (attempt : job.Attempt entry (pgAlign addr) nd)
    (row : job.stmt cfg cfg.managerId addr = .call dst fn body target) (fresh : HandlerId) :
    (target fresh).past = true ∨
      (fn = .fetchPg ∧ dst = entry.owner ∧ (target fresh).Attempt entry (pgAlign addr) nd) := by
  cases job with
  | servRd reqNode pc =>
      cases pc with
      | gotOwner ownerNode =>
          simp only [Job.stmt, servRdRq] at row
          split at row
          · rename_i manager
            obtain ⟨-, -, -, rfl⟩ := row
            exact .inl (by simp [Job.past, RdPc.past, manager])
          · obtain ⟨rfl, rfl, -, rfl⟩ := row
            exact .inr ⟨rfl, attempt.2, attempt.1⟩
      | pageLocked => simp [Job.stmt, servRdRq, Stmt.map] at row
      | _ => contradiction
  | servWr reqNode pc =>
      cases pc with
      | erased ownerNode ivldSet =>
          simp only [Job.stmt, servWrRq] at row
          split at row
          · rename_i manager
            obtain ⟨-, -, -, rfl⟩ := row
            exact .inl (by simp [Job.past, WrPc.past, manager])
          · split at row
            · contradiction
            · obtain ⟨rfl, rfl, -, rfl⟩ := row
              exact .inr ⟨rfl, attempt.2, attempt.1⟩
      | pageLocked => simp [Job.stmt, servWrRq, Stmt.map] at row
      | _ => contradiction
  | fetch accessType pc => contradiction
  | invalidate pc => contradiction

/-- Waiting for an answer that may be an error: the answer ends that. -/
theorem job_await_attempt {job : Job} {rpc : Bool} {call : HandlerId} {target : Reply → Job}
    {failed : Job} (mayFail : job.past = false) (attempt : job.Attempt entry (pgAlign addr) nd)
    (row : job.stmt cfg cfg.managerId addr = .await rpc call target failed) :
    (∀ reply, (target reply).past = true) ∧ failed.Attempt entry (pgAlign addr) nd := by
  cases job with
  | servRd reqNode pc =>
      cases pc with
      | fetching ownerNode id =>
          obtain ⟨-, -, rfl, rfl⟩ := row
          exact ⟨fun reply => rfl, attempt⟩
      | pageLocked => simp [Job.stmt, servRdRq, Stmt.map] at row
      | gotOwner ownerNode =>
          simp only [Job.stmt, servRdRq] at row
          split at row <;> contradiction
      | _ => contradiction
  | servWr reqNode pc =>
      cases pc with
      | fetching ownerNode ivldSet id =>
          obtain ⟨-, -, rfl, rfl⟩ := row
          exact ⟨fun reply => rfl, attempt⟩
      | pageLocked => simp [Job.stmt, servWrRq, Stmt.map] at row
      | erased ownerNode ivldSet =>
          simp only [Job.stmt, servWrRq] at row
          split at row
          · contradiction
          · split at row <;> contradiction
      | _ => contradiction
  | fetch accessType pc => contradiction
  | invalidate pc => contradiction

theorem job_attempt {job next : Job} (mayFail : job.past = false)
    (attempt : job.Attempt entry (pgAlign addr) nd)
    (owner : (nd.info (pgAlign addr)).owner = entry.owner)
    (ran : (job.stmt cfg cfg.managerId addr).runLocal cfg.managerId tid nd =
      some (next, after, events)) :
    (next.past = true ∨ next.Attempt entry (pgAlign addr) after) ∧
      (after.info (pgAlign addr)).owner = entry.owner ∧ after.prot = nd.prot := by
  cases job with
  | servRd reqNode pc =>
      obtain ⟨target, inner, rfl⟩ := Stmt.runLocal_map (by simpa only [Job.stmt] using ran)
      exact servRdRq_attempt mayFail attempt owner inner
  | servWr reqNode pc =>
      obtain ⟨target, inner, rfl⟩ := Stmt.runLocal_map (by simpa only [Job.stmt] using ran)
      exact servWrRq_attempt mayFail attempt owner inner
  | fetch accessType pc => contradiction
  | invalidate pc => contradiction

/-- Past the fetch there is no way back. -/
theorem Job.past_exec {self : NodeId} {fresh : HandlerId} {s t : Sys} {job next : Job}
    (past : job.past = true)
    (ran : (job.stmt cfg self addr).exec self tid fresh s = some (next, t, events)) :
    next.past = true := by
  cases job with
  | servRd reqNode pc =>
      cases pc <;> try contradiction
      case fetching ownerNode call =>
        simp only [Job.stmt, servRdRq, Stmt.map, Stmt.exec] at ran
        split at ran
        · obtain ⟨rfl, -, -⟩ := ran
          rfl
        · contradiction
      case fetched pageContents =>
        obtain ⟨rfl, -, -⟩ := ran
        rfl
      case infoUnlocked pageContents =>
        simp only [Job.stmt, servRdRq] at ran
        split at ran <;> obtain ⟨rfl, -, -⟩ := ran <;> rfl
  | servWr reqNode pc =>
      cases pc <;> try contradiction
      case fetching ownerNode ivldSet call =>
        simp only [Job.stmt, servWrRq, Stmt.map, Stmt.exec] at ran
        split at ran
        · obtain ⟨rfl, -, -⟩ := ran
          rfl
        · contradiction
      case invalidating ownerNode pageContents nodes =>
        cases nodes with
        | nil =>
            obtain ⟨rfl, -, -⟩ := ran
            rfl
        | cons node nodes =>
            simp only [Job.stmt, servWrRq, Stmt.map, Stmt.exec] at ran
            split at ran
            · obtain ⟨rfl, -, -⟩ := ran
              rfl
            · contradiction
      case invalidateSent ownerNode pageContents nodes call =>
        simp only [Job.stmt, servWrRq, Stmt.map, Stmt.exec] at ran
        split at ran
        · obtain ⟨rfl, -, -⟩ := ran
          simp only [Job.past]
          split <;> rfl
        · contradiction
      case infoUnlocked ownerNode pageContents =>
        simp only [Job.stmt, servWrRq] at ran
        split at ran <;> obtain ⟨rfl, -, -⟩ := ran <;> rfl
      all_goals
        obtain ⟨rfl, -, -⟩ := ran
        rfl
  | fetch accessType pc => contradiction
  | invalidate pc => contradiction

theorem Job.past_fail {self : NodeId} {job next : Job} (past : job.past = true)
    (failed : (job.stmt cfg self addr).fail? = some next) : next.past = true := by
  cases job with
  | servRd reqNode pc =>
      cases pc <;> try contradiction
      case fetching ownerNode call =>
        obtain rfl : ownerNode = 0 := by simpa [Job.past, RdPc.past] using past
        contradiction
      case infoUnlocked pageContents =>
        simp only [Job.stmt, servRdRq] at failed
        split at failed <;> contradiction
  | servWr reqNode pc =>
      cases pc <;> try contradiction
      case fetching ownerNode ivldSet call =>
        obtain rfl : ownerNode = 0 := by simpa [Job.past, WrPc.past] using past
        contradiction
      case invalidating ownerNode pageContents nodes =>
        cases nodes <;> contradiction
      case invalidateSent ownerNode pageContents nodes call =>
        obtain rfl := Option.some.inj failed
        rfl
      case infoUnlocked ownerNode pageContents =>
        simp only [Job.stmt, servWrRq] at failed
        split at failed <;> contradiction
  | fetch accessType pc => contradiction
  | invalidate pc => contradiction

/-- `fetch_pg` changes protections and, on a worker, the page lock. -/
theorem fetchPg_exec {self : NodeId} {fresh : HandlerId} {s t : Sys} {accessType : AccessType}
    {pc : FetchPc} {next : Job}
    (ran : (Job.stmt cfg self addr (.fetch accessType pc)).exec self tid fresh s =
      some (next, t, events)) :
    (∃ target, next = .fetch accessType target) ∧
      ∃ nd, t = s.setNode self nd ∧ nd.info = (s.node self).info ∧
        (cfg.isManager self = true →
          nd.pageLocks = (s.node self).pageLocks ∧ nd.infoLocks = (s.node self).infoLocks) := by
  cases pc with
  | entry =>
      simp only [Job.stmt, fetchPg] at ran
      split at ran
      · obtain ⟨rfl, rfl, -⟩ := ran
        exact ⟨⟨_, rfl⟩, _, rfl, rfl, fun _ => ⟨rfl, rfl⟩⟩
      · rename_i worker
        simp only [Stmt.map, Stmt.exec, Stmt.runLocal] at ran
        split at ran
        · rename_i taken
          split at taken
          · obtain ⟨rfl, rfl, rfl⟩ := taken
            obtain ⟨rfl, rfl, -⟩ := ran
            exact ⟨⟨_, rfl⟩, _, rfl, rfl, fun manager => absurd manager worker⟩
          · contradiction
        · contradiction
  | readOnly =>
      simp only [Job.stmt, fetchPg, Stmt.map, Stmt.exec, Stmt.runLocal] at ran
      split at ran
      · rename_i read
        split at read
        · obtain ⟨rfl, rfl, rfl⟩ := read
          obtain ⟨rfl, rfl, -⟩ := ran
          exact ⟨⟨_, rfl⟩, _, rfl, rfl, fun _ => ⟨rfl, rfl⟩⟩
        · contradiction
      · contradiction
  | restricted memStr =>
      simp only [Job.stmt, fetchPg] at ran
      split at ran
      · obtain ⟨rfl, rfl, -⟩ := ran
        exact ⟨⟨_, rfl⟩, _, rfl, rfl, fun _ => ⟨rfl, rfl⟩⟩
      · rename_i worker
        obtain ⟨rfl, rfl, -⟩ := ran
        exact ⟨⟨_, rfl⟩, _, rfl, rfl, fun manager => absurd manager worker⟩
  | done memStr => contradiction
  | _ =>
      obtain ⟨rfl, rfl, -⟩ := ran
      exact ⟨⟨_, rfl⟩, _, rfl, rfl, fun _ => ⟨rfl, rfl⟩⟩

end Statements

/-! ### The whole call -/

section Serving

variable {cfg : Config} {id fresh : HandlerId} {addr : Addr} {start s after : Sys}
  {trace events : List Event}

/-- The call has not got its page yet: what it has changed since the start. -/
structure Attempting (cfg : Config) (id : HandlerId) (addr : Addr) (start s : Sys) (job : Job) :
    Prop where
  attempt : job.Attempt ((start.node cfg.managerId).info (pgAlign addr)) (pgAlign addr)
    (s.node cfg.managerId)
  owner : ((s.node cfg.managerId).info (pgAlign addr)).owner =
    ((start.node cfg.managerId).info (pgAlign addr)).owner
  prot : ∀ other, other ≠ ((start.node cfg.managerId).info (pgAlign addr)).owner →
    (s.node other).prot = (start.node other).prot
  callees : ∀ {other handler}, other ≠ id → start.handler other = none →
    s.handler other = some handler →
    handler.node = ((start.node cfg.managerId).info (pgAlign addr)).owner ∧
      ∃ accessType pc, handler.job = .fetch accessType pc

/-- The call has its page or may still fail. -/
def InServe (cfg : Config) (id : HandlerId) (addr : Addr) (start s : Sys) : Prop :=
  ∃ job, s.handler id = some ⟨cfg.managerId, addr, job⟩ ∧
    (job.past = true ∨ Attempting cfg id addr start s job)

private theorem node_setNode_setHandler (s : Sys) (id : HandlerId) (handler : Handler)
    (node : NodeId) (nd : Node) :
    (((s.setNode node nd).setHandler id handler).node) = Function.update s.node node nd := rfl

/-- A statement of the call on the manager. -/
theorem Attempting.onManager {job next : Job} {nd : Node}
    (attempting : Attempting cfg id addr start s job) (mayFail : job.past = false)
    (ran : (job.stmt cfg cfg.managerId addr).runLocal cfg.managerId (.handler id)
      (s.node cfg.managerId) = some (next, nd, events)) :
    next.past = true ∨ Attempting cfg id addr start
      ((s.setNode cfg.managerId nd).setHandler id ⟨cfg.managerId, addr, next⟩) next := by
  obtain ⟨position, owner, prot⟩ :=
    job_attempt mayFail attempting.attempt attempting.owner ran
  refine position.imp_right fun attempt => ⟨?_, ?_, ?_, ?_⟩
  · simpa [node_setNode_setHandler] using attempt
  · simpa [node_setNode_setHandler] using owner
  · intro other different
    rw [node_setNode_setHandler]
    by_cases same : other = cfg.managerId
    · rw [same, Function.update_self, prot, ← same]
      exact attempting.prot other different
    · rw [Function.update_of_ne same]
      exact attempting.prot other different
  · intro other handler different unused present
    exact attempting.callees different unused
      (by simpa [Sys.setHandler, Sys.setNode, different] using present)

/-- The call of the fetch. -/
theorem Attempting.calls {job next callee : Job} {dst : NodeId} {body : Text} {calleeAddr : Addr}
    (attempting : Attempting cfg id addr start s job)
    (owner : dst = ((start.node cfg.managerId).info (pgAlign addr)).owner)
    (accepted : RpcName.accept .fetchPg body = some (calleeAddr, callee))
    (attempt : next.Attempt ((start.node cfg.managerId).info (pgAlign addr)) (pgAlign addr)
      (s.node cfg.managerId)) :
    Attempting cfg id addr start
      ((s.setHandler fresh ⟨dst, calleeAddr, callee⟩).setHandler id ⟨cfg.managerId, addr, next⟩)
      next := by
  refine ⟨attempt, attempting.owner, attempting.prot, ?_⟩
  intro other handler different unused present
  by_cases started : other = fresh
  · subst started
    obtain rfl : (⟨dst, calleeAddr, callee⟩ : Handler) = handler := by
      simpa [Sys.setHandler, different] using present
    obtain ⟨_, -, same⟩ := Option.map_eq_some_iff.mp accepted
    obtain ⟨-, rfl⟩ := Prod.mk.inj same
    exact ⟨owner, _, _, rfl⟩
  · exact attempting.callees different unused
      (by simpa [Sys.setHandler, different, started] using present)

theorem InServe.own (inServe : InServe cfg id addr start s)
    (taken : s.step cfg (.handler id fresh) = some (after, events)) :
    InServe cfg id addr start after := by
  obtain ⟨job, present, state⟩ := inServe
  obtain ⟨handler, next, between, found, ran, rfl⟩ := Sys.step_handler taken
  obtain rfl : (⟨cfg.managerId, addr, job⟩ : Handler) = handler := by simpa [present] using found
  refine ⟨next, by simp [Sys.setHandler], ?_⟩
  cases past : job.past with
  | true => exact .inl (Job.past_exec past ran)
  | false =>
      have attempting := state.resolve_left (by simp [past])
      rcases Stmt.exec_cases ran with ⟨nd, onNode, rfl⟩ |
        ⟨dst, fn, body, target, calleeAddr, callee, row, -, accepted, rfl, rfl, -⟩ |
        ⟨rpc, call, target, failed, reply, row, -, rfl, rfl, -⟩
      · exact attempting.onManager past onNode
      · rcases job_call_attempt past attempting.attempt row fresh with onward |
          ⟨rfl, owner, attempt⟩
        · exact .inl onward
        · exact .inr (attempting.calls owner accepted attempt)
      · exact .inl ((job_await_attempt past attempting.attempt row).1 reply)

theorem InServe.fail (inServe : InServe cfg id addr start s)
    (taken : s.step cfg (.failHandler id) = some (after, events)) :
    InServe cfg id addr start after := by
  obtain ⟨job, present, state⟩ := inServe
  obtain ⟨handler, next, found, failed, rfl, -⟩ := Sys.step_failHandler taken
  obtain rfl : (⟨cfg.managerId, addr, job⟩ : Handler) = handler := by simpa [present] using found
  refine ⟨next, by simp [Sys.setHandler], ?_⟩
  cases past : job.past with
  | true => exact .inl (Job.past_fail past failed)
  | false =>
      have attempting := state.resolve_left (by simp [past])
      obtain ⟨rpc, call, target, row⟩ : ∃ rpc call target,
          job.stmt cfg cfg.managerId addr = .await rpc call target next := by
        dsimp only at failed
        cases row : job.stmt cfg cfg.managerId addr with
        | await rpc call target onFailure =>
            rw [row] at failed
            cases rpc with
            | true => exact ⟨true, call, target, by simpa [Stmt.fail?] using failed⟩
            | false => contradiction
        | _ =>
            rw [row] at failed
            contradiction
      refine .inr ⟨(job_await_attempt past attempting.attempt row).2, attempting.owner,
        attempting.prot, ?_⟩
      intro other handler different unused present
      exact attempting.callees different unused
        (by simpa [Sys.setHandler, different] using present)

/-- A step of the fetch changes the fetched owner, and no directory. -/
theorem Attempting.callee {job : Job} {other : HandlerId}
    (attempting : Attempting cfg id addr start s job) (different : other ≠ id)
    (unused : start.handler other = none)
    (taken : s.step cfg (.handler other fresh) = some (after, events)) :
    Attempting cfg id addr start after job := by
  obtain ⟨handler, next, between, present, ran, rfl⟩ := Sys.step_handler taken
  obtain ⟨onOwner, accessType, pc, isFetch⟩ := attempting.callees different unused present
  rw [isFetch] at ran
  obtain ⟨⟨target, rfl⟩, nd, rfl, info, locks⟩ := fetchPg_exec ran
  refine ⟨?_, ?_, ?_, ?_⟩
  · rw [node_setNode_setHandler]
    by_cases same : handler.node = cfg.managerId
    · obtain ⟨pageLocks, infoLocks⟩ := locks (Config.isManager_eq_true.mpr same)
      rw [same] at info pageLocks infoLocks ⊢
      rw [Function.update_self]
      exact attempting.attempt.congr info pageLocks infoLocks
    · rw [Function.update_of_ne (Ne.symm same)]
      exact attempting.attempt
  · rw [node_setNode_setHandler]
    by_cases same : handler.node = cfg.managerId
    · rw [same] at info ⊢
      rw [Function.update_self, info]
      exact attempting.owner
    · rw [Function.update_of_ne (Ne.symm same)]
      exact attempting.owner
  · intro node notOwner
    rw [node_setNode_setHandler, Function.update_of_ne (fun same => notOwner (same.trans onOwner))]
    exact attempting.prot node notOwner
  · intro later found laterDifferent laterUnused laterPresent
    by_cases same : later = other
    · subst same
      obtain rfl : { handler with job := Job.fetch accessType target } = found := by
        simpa [Sys.setHandler] using laterPresent
      exact ⟨onOwner, _, _, rfl⟩
    · exact attempting.callees laterDifferent laterUnused
        (by simpa [Sys.setHandler, Sys.setNode, same] using laterPresent)

theorem InServe.others {other : HandlerId} (inServe : InServe cfg id addr start s)
    (different : other ≠ id) (unused : start.handler other = none)
    (taken : s.step cfg (.handler other fresh) = some (after, events)) :
    InServe cfg id addr start after := by
  obtain ⟨job, present, state⟩ := inServe
  refine ⟨job, ?_, state.imp_right fun attempting => attempting.callee different unused taken⟩
  obtain ⟨handler, next, between, -, ran, rfl⟩ := Sys.step_handler taken
  simpa [Sys.setHandler, Ne.symm different] using Stmt.exec_keeps ran present

theorem InServe.failOthers {other : HandlerId} (inServe : InServe cfg id addr start s)
    (different : other ≠ id) (unused : start.handler other = none)
    (taken : s.step cfg (.failHandler other) = some (after, events)) :
    InServe cfg id addr start after := by
  obtain ⟨job, present, state⟩ := inServe
  obtain ⟨handler, next, found, failed, rfl, -⟩ := Sys.step_failHandler taken
  refine ⟨job, by simpa [Sys.setHandler, Ne.symm different] using present, ?_⟩
  refine state.imp_right fun attempting => ?_
  obtain ⟨onOwner, accessType, pc, isFetch⟩ := attempting.callees different unused found
  rw [isFetch] at failed
  have noCall : ((fetchPg cfg handler.node handler.addr accessType pc).map
      (Job.fetch accessType)).fail? = none := by
    cases pc <;> simp only [fetchPg] <;> first | rfl | (split <;> rfl)
  simp [Job.stmt, noCall] at failed

/-- The first statement takes the page lock. -/
theorem inServe_of_entry {rq : Rq} {reqNode : NodeId}
    (entered : start.handler id = some ⟨cfg.managerId, addr, rq.job reqNode⟩)
    (taken : start.step cfg (.handler id fresh) = some (after, events)) :
    InServe cfg id addr start after := by
  obtain ⟨handler, next, between, found, ran, rfl⟩ := Sys.step_handler taken
  obtain rfl : (⟨cfg.managerId, addr, rq.job reqNode⟩ : Handler) = handler := by
    simpa [entered] using found
  refine ⟨next, by simp [Sys.setHandler], .inr ?_⟩
  have locked : between = start.setNode cfg.managerId
        ((start.node cfg.managerId).setLock .pageLocks (pgAlign addr) (some (.handler id))) ∧
      ∀ entry key nd, (nd.info key).copyset = entry.copyset → next.Attempt entry key nd := by
    cases rq <;>
      simp only [Rq.job, Job.stmt, servRdRq, servWrRq, Stmt.map, Stmt.exec, Stmt.runLocal] at ran
    all_goals
      split at ran
      · rename_i taken
        split at taken
        · obtain ⟨rfl, rfl, rfl⟩ := taken
          obtain ⟨rfl, rfl, -⟩ := ran
          exact ⟨rfl, fun _ _ _ => .inl⟩
        · contradiction
      · contradiction
  obtain ⟨rfl, attempt⟩ := locked
  refine ⟨attempt _ _ _ (by simp [node_setNode_setHandler]), by simp [node_setNode_setHandler], ?_, ?_⟩
  · intro other _
    rw [node_setNode_setHandler]
    by_cases same : other = cfg.managerId
    · subst same
      simp [Node.setLock]
    · rw [Function.update_of_ne same]
  · intro other handler different unused present
    simp [Sys.setHandler, Sys.setNode, different, unused] at present

/-- Every state of the call after its first step. -/
theorem inServe_of_run {rq : Rq} {reqNode : NodeId}
    (entered : start.handler id = some ⟨cfg.managerId, addr, rq.job reqNode⟩)
    (run : Run (machineFrom cfg start) (fun _ action => action.ofServe id start) trace s) :
    (trace = [] ∧ s = start) ∨ InServe cfg id addr start s := by
  refine run.invariant (fun trace s => (trace = [] ∧ s = start) ∨ InServe cfg id addr start s)
    (.inl ⟨rfl, rfl⟩) ?_
  rintro trace events before after action - state ofServe (taken : before.step cfg action = _)
  cases action with
  | handler other fresh =>
      by_cases own : other = id
      · subst own
        rcases state with ⟨-, rfl⟩ | inServe
        · exact .inr (inServe_of_entry entered taken)
        · exact .inr (inServe.own taken)
      · have unused := ofServe.resolve_left own
        rcases state with ⟨-, rfl⟩ | inServe
        · obtain ⟨_, _, _, present, -⟩ := Sys.step_handler taken
          simp [unused] at present
        · exact .inr (inServe.others own unused taken)
  | failHandler other =>
      by_cases own : other = id
      · subst own
        rcases state with ⟨-, rfl⟩ | inServe
        · obtain ⟨handler, _, present, failed, -⟩ := Sys.step_failHandler taken
          obtain rfl : (⟨cfg.managerId, addr, rq.job reqNode⟩ : Handler) = handler := by
            simpa [entered] using present
          cases rq <;> contradiction
        · exact .inr (inServe.fail taken)
      · have unused := ofServe.resolve_left own
        rcases state with ⟨-, rfl⟩ | inServe
        · obtain ⟨_, _, present, -⟩ := Sys.step_failHandler taken
          simp [unused] at present
        · exact .inr (inServe.failOthers own unused taken)
  | _ => contradiction

/-- When a serve has called `fetch_pg` and is back at its entry with an error, once
or several times, then the directory entry is the one of the start, no other
protection than the fetched owner's has changed and both locks are free, exactly
when the copyset needed no editing: it had the requester of a read, or had not the
requester of a write. -/
theorem failed_serve_iff {rq : Rq} {reqNode : NodeId}
    (entered : start.handler id = some ⟨cfg.managerId, addr, rq.job reqNode⟩)
    (run : Run (machineFrom cfg start) (fun _ action => action.ofServe id start) trace s)
    (called : ∃ dst body, Event.call dst .fetchPg body ∈ trace)
    (returned : s.handler id = start.handler id) :
    LeftUntouched start s cfg.managerId (pgAlign addr) ↔
      rq.Edited reqNode ((start.node cfg.managerId).info (pgAlign addr)).copyset := by
  obtain ⟨job, present, state⟩ := (inServe_of_run entered run).resolve_left (by
    rintro ⟨rfl, -⟩
    simp at called)
  obtain rfl : job = rq.job reqNode := by simpa [present, entered] using returned
  have attempting := state.resolve_left (by cases rq <;> simp [Rq.job, Job.past, RdPc.past, WrPc.past])
  obtain ⟨edited, pageFree, infoFree⟩ : HasEdited _ _ _ rq reqNode ∧ _ ∧ _ := by
    have attempt := attempting.attempt
    cases rq <;> exact attempt
  rw [← Rq.edit_eq_self]
  constructor
  · rintro ⟨copyset, -⟩
    exact edited.symm.trans copyset
  · intro same
    exact ⟨edited.trans same, attempting.owner, attempting.prot, pageFree, infoFree⟩

end Serving

/-! ### A fetch from node `1` that fails -/

/-- Node `1` owns the first page, and node `2` asks the manager to read it. -/
def ownedByOne (copyset : NodeSet) : Sys where
  node id := if id = 0 then { Node.initial with info := fun _ => ⟨copyset, .rd, 1⟩ } else Node.initial
  app := fun _ => .run
  handler id := if id = 0 then some ⟨0, firstPage, .servRd 2 .entry⟩ else none

/-- The request gets to its call, which fails, and returns. -/
def failedRead : List Action :=
  moves 5 (.handler 0 1) ++ [.failHandler 0] ++ moves 2 (.handler 0 1)

/-- The steps of the first instance. -/
def byFirst : Action → Bool
  | .handler other _ => other == 0
  | .failHandler other => other == 0
  | _ => false

/-- The first instance has called `fetch_pg`, is back at its entry, and node `2` is
recorded. -/
def backWithError (s : Sys) (trace : List Event) : Bool :=
  (match s.handler 0 with
    | some ⟨0, addr, .servRd 2 .entry⟩ => addr == firstPage
    | _ => false) &&
  decide (.call 1 .fetchPg (fetchRdRequest firstPage) ∈ trace ∧
    2 ∈ ((s.node 0).info firstPage).copyset)

private theorem failedRead_run (copyset : NodeSet)
    (replayed : ((machineFrom threeNodes (ownedByOne copyset)).replayWithin
      (fun _ => byFirst) (ownedByOne copyset) failedRead).any
      (fun outcome => backWithError outcome.1 outcome.2) = true) :
    ∃ trace s, Run (machineFrom threeNodes (ownedByOne copyset))
        (fun _ action => action.ofServe 0 (ownedByOne copyset)) trace s ∧
      (∃ dst body, Event.call dst .fetchPg body ∈ trace) ∧
      s.handler 0 = (ownedByOne copyset).handler 0 ∧ 2 ∈ ((s.node 0).info firstPage).copyset := by
  have sound : ∀ (s : Sys) (action : Action), byFirst action = true →
      action.ofServe 0 (ownedByOne copyset) := by
    intro s action tested
    cases action with
    | handler other fresh => exact Or.inl (eq_of_beq tested)
    | failHandler other => exact Or.inl (eq_of_beq tested)
    | _ => contradiction
  obtain ⟨trace, s, run, checked⟩ := exists_run (machineFrom threeNodes (ownedByOne copyset))
    (fun _ => byFirst) backWithError failedRead sound replayed
  obtain ⟨back, called⟩ := (Bool.and_eq_true ..).mp checked
  obtain ⟨called, recorded⟩ := of_decide_eq_true called
  refine ⟨trace, s, run, ⟨1, _, called⟩, ?_, recorded⟩
  split at back
  · rename_i addr present
    rw [present, eq_of_beq back]
    rfl
  · contradiction

/-- Node `2` had been recorded before. -/
theorem failed_serve_iff_recorded :
    ∃ s, LeftUntouched (ownedByOne (NodeSet.insert 2 ∅)) s 0 firstPage := by
  obtain ⟨trace, s, run, called, returned, -⟩ :=
    failedRead_run (NodeSet.insert 2 ∅) (by decide +kernel)
  have recorded : Rq.rd.Edited 2 (NodeSet.insert 2 ∅) := NodeSet.mem_insert.mpr (.inl rfl)
  exact ⟨s, (@failed_serve_iff threeNodes 0 firstPage _ s trace .rd 2 rfl run called returned).mpr
    recorded⟩

/-- Node `2` stays recorded as a reader of a page that it did not get. -/
theorem failed_serve_fails : ¬∀ (cfg : Config) (id : HandlerId) (addr : Addr) (start s : Sys)
    (trace : List Event) (rq : Rq) (reqNode : NodeId),
    start.handler id = some ⟨cfg.managerId, addr, rq.job reqNode⟩ →
    Run (machineFrom cfg start) (fun _ action => action.ofServe id start) trace s →
    (∃ dst body, Event.call dst .fetchPg body ∈ trace) → s.handler id = start.handler id →
    LeftUntouched start s cfg.managerId (pgAlign addr) := by
  intro always
  obtain ⟨trace, s, run, called, returned, recorded⟩ := failedRead_run ∅ (by decide +kernel)
  obtain ⟨copyset, -⟩ := always threeNodes 0 firstPage _ s trace .rd 2 rfl run called returned
  have nobody : 2 ∉ ((s.node 0).info firstPage).copyset := by
    rw [show ((s.node 0).info firstPage).copyset = ∅ from copyset]
    exact NodeSet.not_mem_empty 2
  exact nobody recorded

end LibIvy
