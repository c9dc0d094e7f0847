import LibIvy.Runtime.Node

/-!
Contract: the fault handlers and the served RPC functions, statement by
statement.

Owns: the positions of `rd_fault_hdlr` and `wr_fault_hdlr` (with the inlined
`get_rd_page_from_mngr` and `get_wr_page_from_mngr`), `serv_rd_rq`, `serv_wr_rq`
(with the loop of `send_invalidations` and the retry loop of the adapters),
`fetch_pg` and `invalidate_adapter`, and the statement each position runs.

A position is named after what has just happened. The addresses in the
statements are computed as in the source: some functions align, some use the
address they were given.
-/

namespace LibIvy

open Lib

/-- Kind of a page fault and of the request it leads to. -/
inductive Rq where
  | rd
  | wr
deriving DecidableEq, Repr

/-- The access of an application that its page protection forbids. -/
def Rq.faults (rq : Rq) (access : AccessType) : Bool :=
  match rq with
  | .rd => !access.readable
  | .wr => !access.writable

/-! ### Positions -/

/-- Positions of `rd_fault_hdlr` and `wr_fault_hdlr`. -/
inductive FaultPc where
  | entry
  | locked
  | asking (call : HandlerId)
  | got (memStr : Reply)
  | opened (memStr : Reply)
  | copied
  | closed
  | noted
  | failed
  | returned

/-- Positions of `serv_rd_rq` inside the loop of its adapter. -/
inductive RdPc where
  | entry
  | pageLocked
  | infoLocked
  | inserted
  | gotOwner (ownerNode : NodeId)
  | fetching (ownerNode : NodeId) (call : HandlerId)
  | fetched (pageContents : Reply)
  | infoUnlocked (pageContents : Reply)
  | done (pageContents : Reply)
  | callFailed
  | backOff
  | aborted

/-- Positions of `serv_wr_rq` inside the loop of its adapter. `invalidating` is
the head of the loop of `send_invalidations` with the nodes still to call. -/
inductive WrPc where
  | entry
  | pageLocked
  | gotOwner (ownerNode : NodeId)
  | infoLocked (ownerNode : NodeId)
  | erased (ownerNode : NodeId) (ivldSet : List NodeId)
  | fetching (ownerNode : NodeId) (ivldSet : List NodeId) (call : HandlerId)
  | invalidating (ownerNode : NodeId) (pageContents : Reply) (nodes : List NodeId)
  | invalidateSent (ownerNode : NodeId) (pageContents : Reply) (nodes : List NodeId)
      (call : HandlerId)
  | sent (ownerNode : NodeId) (pageContents : Reply)
  | cleared (ownerNode : NodeId) (pageContents : Reply)
  | committed (ownerNode : NodeId) (pageContents : Reply)
  | infoUnlocked (ownerNode : NodeId) (pageContents : Reply)
  | done (pageContents : Reply)
  | callFailed
  | backOff
  | aborted

/-- Positions of `fetch_pg`. -/
inductive FetchPc where
  | entry
  | locked
  | readOnly
  | copied (memStr : Reply)
  | restricted (memStr : Reply)
  | done (memStr : Reply)

/-- Positions of `invalidate_adapter`. -/
inductive InvalidatePc where
  | entry
  | locked
  | dropped
  | done
deriving DecidableEq

/-! ### Fault handlers -/

/-- `rd_fault_hdlr(addr)` on node `id`. The manager calls `serv_rd_rq_adapter`
directly, every other node calls node `0`. -/
def rdFaultHdlr (cfg : Config) (id : NodeId) (addr : Addr) : FaultPc → Stmt FaultPc
  | .entry =>
      if cfg.isManager id then .skip .locked
      else .waitLock .pageLocks (pgAlign addr) .locked
  | .locked =>
      .call (if cfg.isManager id then id else 0) .getRdPageFromManager
        (pageRequest (pgAlign addr) id) .asking
  | .asking call => .await (!cfg.isManager id) call .got .failed
  | .got memStr =>
      -- the assertion on the length aborts the process
      if memStr.length = 2 * pageSize then .setAccess (pgAlign addr) .rw (.opened memStr)
      else .halt
  | .opened memStr => .memcpy (pgAlign addr) memStr .copied
  | .copied => .setAccess (pgAlign addr) .rd .closed
  | .closed => .setInfoAccess (pgAlign addr) .rd .noted
  | .noted =>
      if cfg.isManager id then .skip .returned
      else .unlock .pageLocks (pgAlign addr) .returned
  | .failed =>
      if cfg.isManager id then .skip .entry
      else .unlock .pageLocks (pgAlign addr) .entry
  | .returned => .halt

/-- `wr_fault_hdlr(addr)` on node `id`. A reply of any other length than a full
page means that the node keeps its own copy. -/
def wrFaultHdlr (cfg : Config) (id : NodeId) (addr : Addr) : FaultPc → Stmt FaultPc
  | .entry =>
      if cfg.isManager id then .skip .locked
      else .waitLock .pageLocks (pgAlign addr) .locked
  | .locked =>
      .call (if cfg.isManager id then id else 0) .getWrPageFromManager
        (pageRequest (pgAlign addr) id) .asking
  | .asking call => .await (!cfg.isManager id) call .got .failed
  | .got memStr => .setAccess (pgAlign addr) .rw (.opened memStr)
  | .opened memStr =>
      if memStr.length = 2 * pageSize then .memcpy (pgAlign addr) memStr .copied
      else .skip .copied
  | .copied => .setInfoAccess (pgAlign addr) .wr .noted
  | .noted =>
      if cfg.isManager id then .skip .returned
      else .unlock .pageLocks (pgAlign addr) .returned
  | .failed =>
      if cfg.isManager id then .skip .entry
      else .unlock .pageLocks (pgAlign addr) .entry
  | .closed => .halt
  | .returned => .halt

/-- The handler that a fault starts. -/
def faultHdlr (cfg : Config) (rq : Rq) (id : NodeId) (addr : Addr) : FaultPc → Stmt FaultPc :=
  match rq with
  | .rd => rdFaultHdlr cfg id addr
  | .wr => wrFaultHdlr cfg id addr

/-! ### Manager side -/

/-- `serv_rd_rq(pg_addr, req_node)` executed by node `self`, called again by
`serv_rd_rq_adapter` as long as it returns an error. -/
def servRdRq (cfg : Config) (self : NodeId) (pgAddr : Addr) (reqNode : NodeId) :
    RdPc → Stmt RdPc
  | .entry => .waitLock .pageLocks (pgAlign pgAddr) .pageLocked
  | .pageLocked =>
      if cfg.isManager self then .waitLock .infoLocks (pgAlign pgAddr) .infoLocked
      else .skip .aborted
  | .infoLocked => .copysetInsert (pgAlign pgAddr) reqNode .inserted
  | .inserted => .readOwner (pgAlign pgAddr) .gotOwner
  | .gotOwner ownerNode =>
      if ownerNode = 0 then
        .call self .fetchPg (fetchRdRequest (pgAlign pgAddr)) (.fetching ownerNode)
      else .call ownerNode .fetchPg (fetchRdRequest (pgAlign pgAddr)) (.fetching ownerNode)
  | .fetching ownerNode call => .await (ownerNode ≠ 0) call .fetched .callFailed
  | .fetched pageContents => .unlock .infoLocks (pgAlign pgAddr) (.infoUnlocked pageContents)
  | .infoUnlocked pageContents =>
      if pageContents.length = 0 then .skip .aborted
      else .unlock .pageLocks (pgAlign pgAddr) (.done pageContents)
  | .callFailed => .unlock .infoLocks (pgAlign pgAddr) .backOff
  | .backOff => .unlock .pageLocks (pgAlign pgAddr) .entry
  | .done _ => .halt
  | .aborted => .halt

/-- `serv_wr_rq(pg_addr, req_node)` executed by node `self`, called again by
`serv_wr_rq_adapter` as long as it returns an error. The loop of
`send_invalidations` ends at the first call that fails or is not answered `ok`;
its result is not used. -/
def servWrRq (cfg : Config) (self : NodeId) (pgAddr : Addr) (reqNode : NodeId) :
    WrPc → Stmt WrPc
  | .entry => .waitLock .pageLocks (pgAlign pgAddr) .pageLocked
  | .pageLocked =>
      if cfg.isManager self then .readOwner (pgAlign pgAddr) .gotOwner
      else .skip .aborted
  | .gotOwner ownerNode => .waitLock .infoLocks (pgAlign pgAddr) (.infoLocked ownerNode)
  | .infoLocked ownerNode => .copysetErase (pgAlign pgAddr) reqNode (.erased ownerNode)
  | .erased ownerNode ivldSet =>
      if ownerNode = 0 then
        .call self .fetchPg (fetchNoneRequest (pgAlign pgAddr)) (.fetching ownerNode ivldSet)
      else if ownerNode = reqNode then .skip (.invalidating ownerNode .empty ivldSet)
      else
        .call ownerNode .fetchPg (fetchNoneRequest (pgAlign pgAddr))
          (.fetching ownerNode ivldSet)
  | .fetching ownerNode ivldSet call =>
      .await (ownerNode ≠ 0) call (fun pageCnt => .invalidating ownerNode pageCnt ivldSet)
        .callFailed
  | .invalidating ownerNode pageContents [] => .skip (.sent ownerNode pageContents)
  | .invalidating ownerNode pageContents (node :: nodes) =>
      .call node .invalidatePg (invalidateRequest pgAddr)
        (.invalidateSent ownerNode pageContents nodes)
  | .invalidateSent ownerNode pageContents nodes call =>
      .await true call
        (fun resp =>
          if resp.isOk then .invalidating ownerNode pageContents nodes
          else .sent ownerNode pageContents)
        (.sent ownerNode pageContents)
  | .sent ownerNode pageContents =>
      .copysetClear (pgAlign pgAddr) (.cleared ownerNode pageContents)
  | .cleared ownerNode pageContents =>
      .setOwner (pgAlign pgAddr) reqNode (.committed ownerNode pageContents)
  | .committed ownerNode pageContents =>
      .unlock .infoLocks (pgAlign pgAddr) (.infoUnlocked ownerNode pageContents)
  | .infoUnlocked ownerNode pageContents =>
      if ownerNode ≠ reqNode ∧ pageContents.length = 0 then .skip .aborted
      else .unlock .pageLocks (pgAlign pgAddr) (.done pageContents)
  | .callFailed => .unlock .infoLocks (pgAlign pgAddr) .backOff
  | .backOff => .unlock .pageLocks (pgAlign pgAddr) .entry
  | .done _ => .halt
  | .aborted => .halt

/-! ### Served by every node -/

/-- `fetch_pg(addr, access_type)` executed by node `self`. The lock is keyed by
the address as it was received. -/
def fetchPg (cfg : Config) (self : NodeId) (addr : Addr) (accessType : AccessType) :
    FetchPc → Stmt FetchPc
  | .entry =>
      if cfg.isManager self then .skip .locked else .waitLock .pageLocks addr .locked
  | .locked => .setAccess (pgAlign addr) .rd .readOnly
  | .readOnly => .readPage (pgAlign addr) .copied
  | .copied memStr => .setAccess (pgAlign addr) accessType (.restricted memStr)
  | .restricted memStr =>
      if cfg.isManager self then .skip (.done memStr)
      else .unlock .pageLocks addr (.done memStr)
  | .done _ => .halt

/-- `invalidate_adapter` executed by node `self`, after its address was parsed. -/
def invalidateAdapter (cfg : Config) (self : NodeId) (addrUl : Addr) :
    InvalidatePc → Stmt InvalidatePc
  | .entry =>
      if cfg.isManager self then .skip .locked else .waitLock .pageLocks addrUl .locked
  | .locked => .setAccess addrUl .none .dropped
  | .dropped =>
      if cfg.isManager self then .skip .done else .unlock .pageLocks addrUl .done
  | .done => .halt

/-! ### Handler instances -/

/-- What a handler instance executes, and where it is. -/
inductive Job where
  | servRd (reqNode : NodeId) (pc : RdPc)
  | servWr (reqNode : NodeId) (pc : WrPc)
  | fetch (accessType : AccessType) (pc : FetchPc)
  | invalidate (pc : InvalidatePc)

/-- The job that the manager starts for a fault. -/
def Rq.job (rq : Rq) (reqNode : NodeId) : Job :=
  match rq with
  | .rd => .servRd reqNode .entry
  | .wr => .servWr reqNode .entry

/-- The next statement of a job on node `self` for the address it was given. -/
def Job.stmt (cfg : Config) (self : NodeId) (addr : Addr) : Job → Stmt Job
  | .servRd reqNode pc => (servRdRq cfg self addr reqNode pc).map (.servRd reqNode)
  | .servWr reqNode pc => (servWrRq cfg self addr reqNode pc).map (.servWr reqNode)
  | .fetch accessType pc => (fetchPg cfg self addr accessType pc).map (.fetch accessType)
  | .invalidate pc => (invalidateAdapter cfg self addr pc).map .invalidate

/-- The instance whose reply a fault handler waits for. -/
def FaultPc.awaits? : FaultPc → Option HandlerId
  | .asking call => some call
  | _ => none

/-- The instance whose reply a job waits for. -/
def Job.awaits? : Job → Option HandlerId
  | .servRd _ (.fetching _ call) => some call
  | .servWr _ (.fetching _ _ call) => some call
  | .servWr _ (.invalidateSent _ _ _ call) => some call
  | _ => none

/-- The reply of a job that has returned. -/
def Job.reply? : Job → Option Reply
  | .servRd _ (.done pageContents) => some pageContents
  | .servWr _ (.done pageContents) => some pageContents
  | .fetch _ (.done memStr) => some memStr
  | .invalidate .done => some .ok
  | _ => none

/-- The job that an adapter starts for a request body, with the address it
passes on; `none` when parsing throws. -/
def RpcName.accept (fn : RpcName) (body : Text) : Option (Addr × Job) :=
  match fn with
  | .getRdPageFromManager => (parsePageRequest body).map fun rq => (rq.1, .servRd rq.2 .entry)
  | .getWrPageFromManager => (parsePageRequest body).map fun rq => (rq.1, .servWr rq.2 .entry)
  | .fetchPg => (parseFetchRequest body).map fun rq => (rq.1, .fetch rq.2 .entry)
  | .invalidatePg => (parseInvalidateRequest body).map fun addr => (addr, .invalidate .entry)

end LibIvy
