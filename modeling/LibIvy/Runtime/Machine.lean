import LibIvy.Lib.AtomicMemory
import LibIvy.Lib.TransitionSystem
import LibIvy.Runtime.Handlers

/-!
Contract: any number of libivy processes and the RPC calls between them.

Owns: the system state, one step of any application thread or handler instance,
loads and stores of the applications, the failure of an RPC call at any time
before its reply is taken (the served function goes on regardless), and the
conditions that single out reliable runs and runs without manager faults.

Does not own: HTTP, its thread pools, its timeouts. A call creates the handler
instance that serves it; an instance that never runs models a lost request.
-/

namespace LibIvy

open Lib NumberText AtomicMemory

/-- One execution of a served function: the node it runs on, the address it was
given, what it executes. -/
structure Handler where
  node : NodeId
  addr : Addr
  job : Job

/-- An application thread runs its program or is inside a fault handler. -/
inductive App where
  | run
  | fault (rq : Rq) (addr : Addr) (pc : FaultPc)

/-- The thread runs its program. -/
def App.isRunning : App → Bool
  | .run => true
  | .fault _ _ _ => false

/-- The whole system. -/
structure Sys where
  node : NodeId → Node
  app : AppId → App
  handler : HandlerId → Option Handler

namespace Sys

def initial : Sys where
  node := fun _ => Node.initial
  app := fun _ => .run
  handler := fun _ => none

def setNode (s : Sys) (id : NodeId) (nd : Node) : Sys :=
  { s with node := Function.update s.node id nd }

def setApp (s : Sys) (thread : AppId) (app : App) : Sys :=
  { s with app := Function.update s.app thread app }

def setHandler (s : Sys) (id : HandlerId) (handler : Handler) : Sys :=
  { s with handler := Function.update s.handler id (some handler) }

/-- The reply of a handler instance that has returned. -/
def reply? (s : Sys) (id : HandlerId) : Option Reply := do
  let handler ← s.handler id
  handler.job.reply?

end Sys

/-- One statement of the thread `tid` on node `self`. A call starts the handler
instance `fresh`, an unused name. -/
def Stmt.exec {σ : Type} (self : NodeId) (tid : Tid) (fresh : HandlerId) (stmt : Stmt σ)
    (s : Sys) : Option (σ × Sys × List Event) :=
  match stmt with
  | .call dst fn body next =>
      match s.handler fresh, fn.accept body with
      | none, some (addr, job) =>
          some (next fresh, s.setHandler fresh ⟨dst, addr, job⟩, [.call dst fn body])
      | _, _ => none
  | .await _ id next _ =>
      match s.reply? id with
      | some reply => some (next reply, s, [])
      | none => none
  | stmt =>
      match stmt.runLocal self tid (s.node self) with
      | some (next, nd, events) => some (next, s.setNode self nd, events)
      | none => none

/-- Where a thread that waits for an RPC reply goes when the call fails. -/
def Stmt.fail? {σ : Type} : Stmt σ → Option σ
  | .await true _ _ failed => some failed
  | _ => none

/-- An application thread after its fault handler moved to `pc`. -/
def App.resume (rq : Rq) (addr : Addr) : FaultPc → App
  | .returned => .run
  | pc => .fault rq addr pc

/-- An access of `count` bytes stays inside one page of the 64-bit space. -/
def withinPage (addr : Addr) (count : Nat) : Bool :=
  addr < 2 ^ 64 && addr % 4096 + count ≤ 4096

/-- The thread is one of those the configuration runs. -/
def Config.runs (cfg : Config) (thread : AppId) : Bool :=
  thread.node < cfg.nodes.length && thread.idx < cfg.appThreads

/-- Scheduling choices. -/
inductive Action where
  | load (thread : AppId) (addr : Addr) (count : Nat)
  | store (thread : AppId) (addr : Addr) (values : List UInt8)
  | fault (thread : AppId) (rq : Rq) (addr : Addr)
  | app (thread : AppId) (fresh : HandlerId)
  | handler (id fresh : HandlerId)
  | failApp (thread : AppId)
  | failHandler (id : HandlerId)
deriving DecidableEq

namespace Sys

/-- One step of the system. -/
def step (cfg : Config) (s : Sys) : Action → Option (Sys × List Event)
  | .load thread addr count =>
      match s.app thread with
      | .run =>
          if cfg.runs thread && withinPage addr count &&
              ((s.node thread.node).prot (pgAlign addr)).readable then
            some (s, [.load thread addr (readSpan (s.node thread.node).mem addr count)])
          else none
      | .fault _ _ _ => none
  | .store thread addr values =>
      match s.app thread with
      | .run =>
          if cfg.runs thread && withinPage addr values.length &&
              ((s.node thread.node).prot (pgAlign addr)).writable then
            some (s.setNode thread.node
              { s.node thread.node with mem := writeSpan (s.node thread.node).mem addr values },
              [.store thread addr values])
          else none
      | .fault _ _ _ => none
  | .fault thread rq addr =>
      match s.app thread with
      | .run =>
          if cfg.runs thread && withinPage addr 1 &&
              rq.faults ((s.node thread.node).prot (pgAlign addr)) then
            some (s.setApp thread (.fault rq addr .entry), [])
          else none
      | .fault _ _ _ => none
  | .app thread fresh =>
      match s.app thread with
      | .run => none
      | .fault rq addr pc =>
          match (faultHdlr cfg rq thread.node addr pc).exec thread.node (.app thread) fresh s with
          | some (next, after, events) =>
              some (after.setApp thread (App.resume rq addr next), events)
          | none => none
  | .handler id fresh =>
      match s.handler id with
      | none => none
      | some handler =>
          match (handler.job.stmt cfg handler.node handler.addr).exec handler.node (.handler id)
              fresh s with
          | some (next, after, events) =>
              some (after.setHandler id { handler with job := next }, events)
          | none => none
  | .failApp thread =>
      match s.app thread with
      | .run => none
      | .fault rq addr pc =>
          match (faultHdlr cfg rq thread.node addr pc).fail? with
          | some next => some (s.setApp thread (App.resume rq addr next), [])
          | none => none
  | .failHandler id =>
      match s.handler id with
      | none => none
      | some handler =>
          match (handler.job.stmt cfg handler.node handler.addr).fail? with
          | some next => some (s.setHandler id { handler with job := next }, [])
          | none => none

end Sys

/-! ### What a step can do -/

theorem withinPage_iff {addr count : Nat} :
    withinPage addr count = true ↔ addr < wordCount ∧ addr % 4096 + count ≤ 4096 := by
  simp [withinPage, wordCount]

theorem Config.runs_node {cfg : Config} {thread : AppId} (runs : cfg.runs thread = true) :
    thread.node < cfg.nodes.length ∧ thread.idx < cfg.appThreads := by
  simpa [Config.runs] using runs

private theorem listed_fits {node length : Nat} (listed : node < length)
    (fits : length < 2 ^ 64) : node < wordCount :=
  lt_trans listed fits

theorem Config.node_fits {cfg : Config} {thread : AppId} (runs : cfg.runs thread = true) :
    thread.node < wordCount :=
  listed_fits (Config.runs_node runs).1 cfg.vectorSize

/-- What one statement of a thread does to the system. -/
theorem Stmt.exec_cases {σ : Type} {self : NodeId} {tid : Tid} {fresh : HandlerId} {stmt : Stmt σ} {s after : Sys} {next : σ}
    {events : List Event} (ran : stmt.exec self tid fresh s = some (next, after, events)) :
    (∃ nd, stmt.runLocal self tid (s.node self) = some (next, nd, events) ∧
      after = s.setNode self nd) ∨
    (∃ dst fn body target addr job, stmt = .call dst fn body target ∧ s.handler fresh = none ∧
      fn.accept body = some (addr, job) ∧ next = target fresh ∧
      after = s.setHandler fresh ⟨dst, addr, job⟩ ∧ events = [.call dst fn body]) ∨
    (∃ rpc id target failed reply, stmt = .await rpc id target failed ∧
      s.reply? id = some reply ∧ next = target reply ∧ after = s ∧ events = []) := by
  cases stmt with
  | call dst fn body target =>
      simp only [Stmt.exec] at ran
      split at ran
      · rename_i addr job unused accepted
        obtain ⟨rfl, rfl, rfl⟩ := ran
        exact .inr (.inl ⟨dst, fn, body, target, addr, job, rfl, unused, accepted, rfl, rfl, rfl⟩)
      · contradiction
  | await rpc id target failed =>
      simp only [Stmt.exec] at ran
      split at ran
      · rename_i reply replied
        obtain ⟨rfl, rfl, rfl⟩ := ran
        exact .inr (.inr ⟨rpc, id, target, failed, reply, rfl, replied, rfl, rfl, rfl⟩)
      · contradiction
  | _ =>
      simp only [Stmt.exec] at ran
      split at ran
      · rename_i nd _ local_
        obtain ⟨rfl, rfl, rfl⟩ := ran
        exact .inl ⟨nd, local_, rfl⟩
      · contradiction

/-- A statement keeps the instances that exist. -/
theorem Stmt.exec_keeps {σ : Type} {self : NodeId} {tid : Tid} {fresh id : HandlerId}
    {stmt : Stmt σ} {s after : Sys} {next : σ} {events : List Event} {handler : Handler}
    (ran : stmt.exec self tid fresh s = some (next, after, events))
    (present : s.handler id = some handler) : after.handler id = some handler := by
  rcases exec_cases ran with ⟨nd, _, rfl⟩ |
    ⟨dst, fn, body, target, addr, job, _, unused, _, _, rfl, _⟩ | ⟨_, _, _, _, _, _, _, _, rfl, _⟩
  · exact present
  · have different : id ≠ fresh := by
      intro same
      subst same
      simp [unused] at present
    simpa [Sys.setHandler, different] using present
  · exact present

/-- A statement leaves the application threads where they are. -/
theorem Stmt.exec_app {σ : Type} {self : NodeId} {tid : Tid} {fresh : HandlerId} {stmt : Stmt σ}
    {s after : Sys} {next : σ} {events : List Event}
    (ran : stmt.exec self tid fresh s = some (next, after, events)) : after.app = s.app := by
  rcases exec_cases ran with ⟨nd, _, rfl⟩ | ⟨_, _, _, _, _, _, _, _, _, _, rfl, _⟩ |
    ⟨_, _, _, _, _, _, _, _, rfl, _⟩ <;> rfl

section Inversion

variable {cfg : Config} {s after : Sys} {events : List Event}

theorem Sys.step_load {thread : AppId} {addr count : Nat}
    (taken : s.step cfg (.load thread addr count) = some (after, events)) :
    s.app thread = .run ∧ cfg.runs thread = true ∧ withinPage addr count = true ∧
      ((s.node thread.node).prot (pgAlign addr)).readable = true ∧ after = s ∧
      events = [.load thread addr (readSpan (s.node thread.node).mem addr count)] := by
  simp only [Sys.step] at taken
  split at taken
  case h_2 => contradiction
  case h_1 outside =>
    split at taken
    case isFalse => contradiction
    case isTrue permitted =>
      simp only [Bool.and_eq_true] at permitted
      obtain ⟨rfl, rfl⟩ := taken
      exact ⟨outside, permitted.1.1, permitted.1.2, permitted.2, rfl, rfl⟩

theorem Sys.step_store {thread : AppId} {addr : Addr} {values : List UInt8}
    (taken : s.step cfg (.store thread addr values) = some (after, events)) :
    s.app thread = .run ∧ cfg.runs thread = true ∧ withinPage addr values.length = true ∧
      ((s.node thread.node).prot (pgAlign addr)).writable = true ∧
      after = s.setNode thread.node
        { s.node thread.node with mem := writeSpan (s.node thread.node).mem addr values } ∧
      events = [.store thread addr values] := by
  simp only [Sys.step] at taken
  split at taken
  case h_2 => contradiction
  case h_1 outside =>
    split at taken
    case isFalse => contradiction
    case isTrue permitted =>
      simp only [Bool.and_eq_true] at permitted
      obtain ⟨rfl, rfl⟩ := taken
      exact ⟨outside, permitted.1.1, permitted.1.2, permitted.2, rfl, rfl⟩

theorem Sys.step_fault {thread : AppId} {rq : Rq} {addr : Addr}
    (taken : s.step cfg (.fault thread rq addr) = some (after, events)) :
    s.app thread = .run ∧ cfg.runs thread = true ∧ withinPage addr 1 = true ∧
      rq.faults ((s.node thread.node).prot (pgAlign addr)) = true ∧
      after = s.setApp thread (.fault rq addr .entry) ∧ events = [] := by
  simp only [Sys.step] at taken
  split at taken
  case h_2 => contradiction
  case h_1 outside =>
    split at taken
    case isFalse => contradiction
    case isTrue permitted =>
      simp only [Bool.and_eq_true] at permitted
      obtain ⟨rfl, rfl⟩ := taken
      exact ⟨outside, permitted.1.1, permitted.1.2, permitted.2, rfl, rfl⟩

theorem Sys.step_app {thread : AppId} {fresh : HandlerId}
    (taken : s.step cfg (.app thread fresh) = some (after, events)) :
    ∃ rq addr pc next between, s.app thread = .fault rq addr pc ∧
      (faultHdlr cfg rq thread.node addr pc).exec thread.node (.app thread) fresh s =
        some (next, between, events) ∧
      after = between.setApp thread (App.resume rq addr next) := by
  simp only [Sys.step] at taken
  split at taken
  case h_1 => contradiction
  case h_2 rq addr pc inside =>
    split at taken
    case h_2 => contradiction
    case h_1 next between stepEvents ran =>
      obtain ⟨rfl, rfl⟩ := taken
      exact ⟨rq, addr, pc, next, between, inside, ran, rfl⟩

theorem Sys.step_handler {id fresh : HandlerId}
    (taken : s.step cfg (.handler id fresh) = some (after, events)) :
    ∃ handler next between, s.handler id = some handler ∧
      (handler.job.stmt cfg handler.node handler.addr).exec handler.node (.handler id) fresh s =
        some (next, between, events) ∧
      after = between.setHandler id { handler with job := next } := by
  simp only [Sys.step] at taken
  split at taken
  case h_1 => contradiction
  case h_2 handler present =>
    split at taken
    case h_2 => contradiction
    case h_1 next between stepEvents ran =>
      obtain ⟨rfl, rfl⟩ := taken
      exact ⟨handler, next, between, present, ran, rfl⟩

theorem Sys.step_failApp {thread : AppId}
    (taken : s.step cfg (.failApp thread) = some (after, events)) :
    ∃ rq addr pc next, s.app thread = .fault rq addr pc ∧
      (faultHdlr cfg rq thread.node addr pc).fail? = some next ∧
      after = s.setApp thread (App.resume rq addr next) ∧ events = [] := by
  simp only [Sys.step] at taken
  split at taken
  case h_1 => contradiction
  case h_2 rq addr pc inside =>
    split at taken
    case h_2 => contradiction
    case h_1 next failed =>
      obtain ⟨rfl, rfl⟩ := taken
      exact ⟨rq, addr, pc, next, inside, failed, rfl, rfl⟩

theorem Sys.step_failHandler {id : HandlerId}
    (taken : s.step cfg (.failHandler id) = some (after, events)) :
    ∃ handler next, s.handler id = some handler ∧
      (handler.job.stmt cfg handler.node handler.addr).fail? = some next ∧
      after = s.setHandler id { handler with job := next } ∧ events = [] := by
  simp only [Sys.step] at taken
  split at taken
  case h_1 => contradiction
  case h_2 handler present =>
    split at taken
    case h_2 => contradiction
    case h_1 next failed =>
      obtain ⟨rfl, rfl⟩ := taken
      exact ⟨handler, next, present, failed, rfl, rfl⟩

end Inversion

/-- The runs of the system. -/
def machine (cfg : Config) : TransitionSystem Sys Action Event where
  init := Sys.initial
  step := Sys.step cfg

namespace Action

/-- The step is not the failure of an RPC call. -/
def reliable : Action → Bool
  | .failApp _ => false
  | .failHandler _ => false
  | _ => true

/-- The step is not an access or a fault of an application on the manager. -/
def byWorker (cfg : Config) : Action → Bool
  | .load thread _ _ => !cfg.isManager thread.node
  | .store thread _ _ => !cfg.isManager thread.node
  | .fault thread _ _ => !cfg.isManager thread.node
  | _ => true

end Action

/-- Reliable RPC: no call returns an error. -/
def Reliable (_ : Sys) (action : Action) : Prop := action.reliable = true

/-- Only nodes other than the manager run application code that faults. -/
def WorkersOnly (cfg : Config) (_ : Sys) (action : Action) : Prop := action.byWorker cfg = true

/-- The shared-memory accesses in a trace. -/
def Event.access? : Event → Option (Access UInt8)
  | .load _ addr values => some (.load addr values)
  | .store _ addr values => some (.store addr values)
  | _ => none

/-- The shared-memory history of a trace. -/
def history (trace : List Event) : List (Access UInt8) := trace.filterMap Event.access?

/-! ### Pieces of schedules -/

/-- A cluster of three nodes managed by node `0`. -/
def threeNodes : Config where
  nodes := [['a'], ['b'], ['c']]
  managerId := 0
  appThreads := 1
  managerListed := by decide
  vectorSize := by decide

/-- The first page of the shared region. -/
def firstPage : Addr := 0x10000000000

/-- The same thread moves several times. -/
def moves (count : Nat) (action : Action) : List Action := List.replicate count action

/-- A worker write-faults while the manager owns the page and nobody reads it, up
to the end of its fault handler. The request is served by the instance `call`,
the fetch by the instance after it. -/
def writeFromManager (thread : AppId) (addr : Addr) (call : HandlerId) : List Action :=
  [.fault thread .wr addr] ++ moves 2 (.app thread call) ++ moves 5 (.handler call (call + 1)) ++
    moves 5 (.handler (call + 1) 0) ++ moves 6 (.handler call 0) ++ moves 5 (.app thread call)

/-- The same while the manager also has a copy: one more call invalidates it. -/
def writeFromManagerCopy (thread : AppId) (addr : Addr) (call : HandlerId) : List Action :=
  [.fault thread .wr addr] ++ moves 2 (.app thread call) ++ moves 5 (.handler call (call + 1)) ++
    moves 5 (.handler (call + 1) 0) ++ moves 2 (.handler call (call + 2)) ++
    moves 3 (.handler (call + 2) 0) ++ moves 6 (.handler call 0) ++ moves 5 (.app thread call)

/-- A node read-faults, up to the end of its fault handler. -/
def readFromOwner (thread : AppId) (addr : Addr) (call : HandlerId) : List Action :=
  [.fault thread .rd addr] ++ moves 2 (.app thread call) ++ moves 5 (.handler call (call + 1)) ++
    moves 5 (.handler (call + 1) 0) ++ moves 3 (.handler call 0) ++ moves 6 (.app thread call)

end LibIvy
