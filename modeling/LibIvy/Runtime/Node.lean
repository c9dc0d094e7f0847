import LibIvy.Wire.PageText
import LibIvy.Wire.Requests

/-!
Contract: the state of one node and the statements that touch it.

Owns: the page table of a node (`page_locks`, `info_locks`, `info`), its page
protections and memory, the statements a handler is made of, and their effect on
the node that runs them. Lock tables, directory and memory are keyed by the
address that the source passes, aligned or not.

Does not own: which statements a handler runs, RPC delivery, scheduling.

A mutex records the thread that holds it; `try_lock` only tests that it is free.
Every address is treated as mapped: `mprotect` does not fail, and an access is
forbidden only by the protection. The runtime itself faults when it reads or
writes a page whose protection forbids it. In a served function the signal enters
`sigaction_hdlr` again; in a fault handler, which runs with all signals blocked, it
ends the process. Neither is modelled: the thread stops before that statement.
-/

namespace LibIvy

open Lib

/-- Name of a handler instance: one execution of a served RPC, or of an adapter
that the manager calls directly. -/
abbrev HandlerId := Nat

/-- An application thread. -/
structure AppId where
  node : NodeId
  idx : Nat
deriving DecidableEq, Repr

/-- A thread of control. -/
inductive Tid where
  | app (thread : AppId)
  | handler (id : HandlerId)
deriving DecidableEq, Repr

/-- The two lock tables of `IvyPageTable`. -/
inductive LockTable where
  | pageLocks
  | infoLocks
deriving DecidableEq, Repr

/-- `IvyPageTable::info_t`. -/
structure Info where
  copyset : NodeSet
  access : AccessType
  owner : NodeId
deriving DecidableEq

/-- The value-initialised entry that `operator[]` creates. -/
def Info.default : Info := ⟨∅, .rd, 0⟩

/-- One process: its page table, its page protections (by page start) and the
bytes of its private mapping. -/
structure Node where
  pageLocks : Addr → Option Tid
  infoLocks : Addr → Option Tid
  info : Addr → Info
  prot : Addr → AccessType
  mem : Addr → UInt8

/-- A node after `get_shm`: fresh zero pages, all of them inaccessible. -/
def Node.initial : Node where
  pageLocks := fun _ => none
  infoLocks := fun _ => none
  info := fun _ => Info.default
  prot := fun _ => .none
  mem := fun _ => 0

/-- What a step does apart from its new state: the lock or directory entry it uses,
by key, the request it sends, the bytes that the application reads or writes. -/
inductive Event where
  | lockKey (node : NodeId) (table : LockTable) (key : Addr)
  | infoKey (node : NodeId) (key : Addr)
  | call (dst : NodeId) (fn : RpcName) (body : Text)
  | load (thread : AppId) (addr : Addr) (values : List UInt8)
  | store (thread : AppId) (addr : Addr) (values : List UInt8)
deriving DecidableEq

/-- One statement of a handler, with where the handler goes next. `await`
distinguishes calls over RPC, which may fail, from direct calls. -/
inductive Stmt (σ : Type) where
  | skip (next : σ)
  | waitLock (table : LockTable) (key : Addr) (next : σ)
  | unlock (table : LockTable) (key : Addr) (next : σ)
  | readOwner (key : Addr) (next : NodeId → σ)
  | setOwner (key : Addr) (owner : NodeId) (next : σ)
  | copysetInsert (key : Addr) (node : NodeId) (next : σ)
  | copysetErase (key : Addr) (node : NodeId) (next : List NodeId → σ)
  | copysetClear (key : Addr) (next : σ)
  | setInfoAccess (key : Addr) (access : AccessType) (next : σ)
  | setAccess (addr : Addr) (access : AccessType) (next : σ)
  | readPage (addr : Addr) (next : Reply → σ)
  | memcpy (addr : Addr) (contents : Reply) (next : σ)
  | call (dst : NodeId) (fn : RpcName) (body : Text) (next : HandlerId → σ)
  | await (rpc : Bool) (id : HandlerId) (next : Reply → σ) (failed : σ)
  | halt

/-- The same statement inside a caller that wraps the callee's position. -/
def Stmt.map {σ τ : Type} (wrap : σ → τ) : Stmt σ → Stmt τ
  | .skip next => .skip (wrap next)
  | .waitLock table key next => .waitLock table key (wrap next)
  | .unlock table key next => .unlock table key (wrap next)
  | .readOwner key next => .readOwner key (fun owner => wrap (next owner))
  | .setOwner key owner next => .setOwner key owner (wrap next)
  | .copysetInsert key node next => .copysetInsert key node (wrap next)
  | .copysetErase key node next => .copysetErase key node (fun nodes => wrap (next nodes))
  | .copysetClear key next => .copysetClear key (wrap next)
  | .setInfoAccess key access next => .setInfoAccess key access (wrap next)
  | .setAccess addr access next => .setAccess addr access (wrap next)
  | .readPage addr next => .readPage addr (fun contents => wrap (next contents))
  | .memcpy addr contents next => .memcpy addr contents (wrap next)
  | .call dst fn body next => .call dst fn body (fun id => wrap (next id))
  | .await rpc id next failed => .await rpc id (fun reply => wrap (next reply)) (wrap failed)
  | .halt => .halt

namespace Node

def lock (nd : Node) : LockTable → Addr → Option Tid
  | .pageLocks => nd.pageLocks
  | .infoLocks => nd.infoLocks

def setLock (nd : Node) (table : LockTable) (key : Addr) (holder : Option Tid) : Node :=
  match table with
  | .pageLocks => { nd with pageLocks := Function.update nd.pageLocks key holder }
  | .infoLocks => { nd with infoLocks := Function.update nd.infoLocks key holder }

def setInfo (nd : Node) (key : Addr) (info : Info) : Node :=
  { nd with info := Function.update nd.info key info }

/-- `set_access(addr, 1, access)`: `mprotect` of the page that holds `addr`, which is
taken to be mapped, so that the call does not fail. -/
def setAccess (nd : Node) (addr : Addr) (access : AccessType) : Node :=
  { nd with prot := Function.update nd.prot (pgAlign addr) access }

/-- The bytes of the page that starts at `base`. -/
def pageAt (nd : Node) (base : Addr) : Page := fun offset => nd.mem (base + offset.val)

/-- `memcpy(dst, bytes, PAGE_SZ)`. -/
def copyPage (nd : Node) (dst : Addr) (bytes : Page) : Node :=
  { nd with
    mem := fun addr =>
      if within : dst ≤ addr ∧ addr - dst < pageSize then bytes ⟨addr - dst, within.2⟩
      else nd.mem addr }

@[simp] theorem setLock_info (nd : Node) (table : LockTable) (key : Addr) (holder : Option Tid) :
    (nd.setLock table key holder).info = nd.info := by
  cases table <;> rfl

end Node

/-- Effect of a statement on the node that runs it, for the statements that
concern that node only. `none`: the thread cannot go on now, because the lock is taken
or because its own `readPage` or `memcpy` faults, which no handler of the model
serves. -/
def Stmt.runLocal {σ : Type} (self : NodeId) (tid : Tid) :
    Stmt σ → Node → Option (σ × Node × List Event)
  | .skip next, nd => some (next, nd, [])
  | .waitLock table key next, nd =>
      match nd.lock table key with
      | none => some (next, nd.setLock table key (some tid), [.lockKey self table key])
      | some _ => none
  | .unlock table key next, nd =>
      some (next, nd.setLock table key none, [.lockKey self table key])
  | .readOwner key next, nd => some (next (nd.info key).owner, nd, [.infoKey self key])
  | .setOwner key owner next, nd =>
      some (next, nd.setInfo key { nd.info key with owner := owner }, [.infoKey self key])
  | .copysetInsert key node next, nd =>
      some (next, nd.setInfo key { nd.info key with copyset := (nd.info key).copyset.insert node },
        [.infoKey self key])
  | .copysetErase key node next, nd =>
      let copyset := (nd.info key).copyset.erase node
      some (next copyset.elems, nd.setInfo key { nd.info key with copyset := copyset },
        [.infoKey self key])
  | .copysetClear key next, nd =>
      some (next, nd.setInfo key { nd.info key with copyset := ∅ }, [.infoKey self key])
  | .setInfoAccess key access next, nd =>
      some (next, nd.setInfo key { nd.info key with access := access }, [.infoKey self key])
  | .setAccess addr access next, nd => some (next, nd.setAccess addr access, [])
  | .readPage addr next, nd =>
      if (nd.prot (pgAlign addr)).readable then
        some (next (.page (nd.pageAt (pgAlign addr))), nd, [])
      else none
  | .memcpy addr contents next, nd =>
      match contents.contents? with
      | some bytes =>
          if (nd.prot (pgAlign addr)).writable then some (next, nd.copyPage addr bytes, [])
          else none
      | none => none
  | .call _ _ _ _, _ => none
  | .await _ _ _ _, _ => none
  | .halt, _ => none

/-- A wrapped statement has the same effect. -/
theorem Stmt.runLocal_map {σ τ : Type} {wrap : σ → τ} {self : NodeId} {tid : Tid} {stmt : Stmt σ}
    {nd after : Node} {next : τ} {events : List Event}
    (ran : (stmt.map wrap).runLocal self tid nd = some (next, after, events)) :
    ∃ target, stmt.runLocal self tid nd = some (target, after, events) ∧ next = wrap target := by
  cases stmt with
  | waitLock table key target =>
      simp only [Stmt.map, Stmt.runLocal] at ran ⊢
      split at ran
      · obtain ⟨rfl, rfl, rfl⟩ := ran
        exact ⟨target, rfl, rfl⟩
      · contradiction
  | readPage addr target =>
      simp only [Stmt.map, Stmt.runLocal] at ran ⊢
      split at ran
      · rename_i readable
        obtain ⟨rfl, rfl, rfl⟩ := ran
        exact ⟨_, if_pos readable, rfl⟩
      · contradiction
  | memcpy addr contents target =>
      simp only [Stmt.map, Stmt.runLocal] at ran ⊢
      split at ran
      · split at ran
        · rename_i writable
          obtain ⟨rfl, rfl, rfl⟩ := ran
          exact ⟨target, if_pos writable, rfl⟩
        · contradiction
      · contradiction
  | call dst fn body target => contradiction
  | await rpc id target failed => contradiction
  | halt => contradiction
  | _ =>
      obtain ⟨rfl, rfl, rfl⟩ := ran
      exact ⟨_, rfl, rfl⟩

end LibIvy
