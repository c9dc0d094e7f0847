import LibIvy.Runtime.Handlers

/-!
Contract: what libivy does for one page, without locks, call ids and texts.

One directory entry is served by at most one request at a time. A request reads
the directory, fetches the page from the owner, a write request also takes the
page away from every recorded reader, and the request ends with a grant for the
node that asked. Nodes install grants on their own time.

Owns: the states and steps of the protocol, over any type of page contents.

Does not own: that the runtime behaves like this; see
`LibIvy.Page.Refinement`.

Calls may fail when `lossy` holds. Then a request can go on without its
requester, and a fetch or invalidation without the request that sent it.
-/

namespace LibIvy.Protocol

universe u

/-! ### States -/

/-- Where the application thread of a node is in its fault. A grant without
contents tells the node to keep its copy. -/
inductive Phase (Contents : Type u) where
  | out
  | waiting (rq : Rq)
  | ready (rq : Rq)
  | asking (rq : Rq)
  | granted (rq : Rq) (page : Option Contents)
  | opened (rq : Rq) (page : Option Contents)
  | copied
  | closing (rq : Rq)

/-- A worker holds the lock of its page in these phases. -/
def Phase.holdsLock {Contents : Type u} : Phase Contents → Bool
  | .out => false
  | .waiting _ => false
  | _ => true

/-- A grant is on its way to the node or not yet installed. -/
def Phase.installing {Contents : Type u} : Phase Contents → Bool
  | .granted _ _ => true
  | .opened .rd _ => true
  | .copied => true
  | _ => false

/-- Progress of a fetch on the owner. -/
inductive FetchStage (Contents : Type u) where
  | pending
  | opened
  | copied (page : Option Contents)
  | closed (page : Option Contents)

/-- Progress of the request that the manager serves. -/
inductive Stage (Contents : Type u) where
  | started
  | listed
  | erasing (owner : NodeId)
  | fetching (owner : NodeId) (nodes : List NodeId) (fetch : FetchStage Contents)
  | fetched (page : Option Contents)
  | invalidating (page : Option Contents) (nodes : List NodeId)
  | calling (page : Option Contents) (nodes : List NodeId) (node : NodeId) (dropped : Bool)
  | sent (page : Option Contents)
  | cleared (page : Option Contents)
  | committed (page : Option Contents)
  | backing

/-- A fetch that holds the page lock of the node. -/
@[simp] def Stage.locks {Contents : Type u} : Stage Contents → NodeId → Prop
  | .fetching owner _ .opened, node => owner = node
  | .fetching owner _ (.copied _), node => owner = node
  | _, _ => False

/-- The request being served. `live`: its requester still waits for it. -/
structure Serving (Contents : Type u) where
  rq : Rq
  reqNode : NodeId
  live : Bool
  stage : Stage Contents

/-- Everything that concerns one page. `current` is what the last store left. -/
@[ext]
structure State (Contents : Type u) where
  prot : NodeId → AccessType
  bytes : NodeId → Contents
  copyset : NodeSet
  owner : NodeId
  current : Contents
  app : NodeId → Phase Contents
  srv : Option (Serving Contents)

/-- The access that a fetch leaves to the owner. -/
def fetchAccess : Rq → AccessType
  | .rd => .rd
  | .wr => .none

namespace State

variable {Contents : Type u}

/-- Every node starts with the same contents and no access, owned by node `0`. -/
def initial (zero : Contents) : State Contents where
  prot := fun _ => .none
  bytes := fun _ => zero
  copyset := ∅
  owner := 0
  current := zero
  app := fun _ => .out
  srv := none

variable (a : State Contents)

def setPhase (node : NodeId) (phase : Phase Contents) : State Contents :=
  { a with app := Function.update a.app node phase }

def setProt (node : NodeId) (access : AccessType) : State Contents :=
  { a with prot := Function.update a.prot node access }

def setBytes (node : NodeId) (bytes : Contents) : State Contents :=
  { a with bytes := Function.update a.bytes node bytes }

def serve (serving : Option (Serving Contents)) : State Contents := { a with srv := serving }

@[simp] theorem setPhase_prot (node : NodeId) (phase : Phase Contents) :
    (a.setPhase node phase).prot = a.prot := rfl

@[simp] theorem setPhase_bytes (node : NodeId) (phase : Phase Contents) :
    (a.setPhase node phase).bytes = a.bytes := rfl

@[simp] theorem setPhase_copyset (node : NodeId) (phase : Phase Contents) :
    (a.setPhase node phase).copyset = a.copyset := rfl

@[simp] theorem setPhase_owner (node : NodeId) (phase : Phase Contents) :
    (a.setPhase node phase).owner = a.owner := rfl

@[simp] theorem setPhase_current (node : NodeId) (phase : Phase Contents) :
    (a.setPhase node phase).current = a.current := rfl

@[simp] theorem setPhase_srv (node : NodeId) (phase : Phase Contents) :
    (a.setPhase node phase).srv = a.srv := rfl

@[simp] theorem setProt_bytes (node : NodeId) (access : AccessType) :
    (a.setProt node access).bytes = a.bytes := rfl

@[simp] theorem setProt_copyset (node : NodeId) (access : AccessType) :
    (a.setProt node access).copyset = a.copyset := rfl

@[simp] theorem setProt_owner (node : NodeId) (access : AccessType) :
    (a.setProt node access).owner = a.owner := rfl

@[simp] theorem setProt_current (node : NodeId) (access : AccessType) :
    (a.setProt node access).current = a.current := rfl

@[simp] theorem setProt_app (node : NodeId) (access : AccessType) :
    (a.setProt node access).app = a.app := rfl

@[simp] theorem setProt_srv (node : NodeId) (access : AccessType) :
    (a.setProt node access).srv = a.srv := rfl

@[simp] theorem setBytes_prot (node : NodeId) (bytes : Contents) :
    (a.setBytes node bytes).prot = a.prot := rfl

@[simp] theorem setBytes_copyset (node : NodeId) (bytes : Contents) :
    (a.setBytes node bytes).copyset = a.copyset := rfl

@[simp] theorem setBytes_owner (node : NodeId) (bytes : Contents) :
    (a.setBytes node bytes).owner = a.owner := rfl

@[simp] theorem setBytes_current (node : NodeId) (bytes : Contents) :
    (a.setBytes node bytes).current = a.current := rfl

@[simp] theorem setBytes_app (node : NodeId) (bytes : Contents) :
    (a.setBytes node bytes).app = a.app := rfl

@[simp] theorem setBytes_srv (node : NodeId) (bytes : Contents) :
    (a.setBytes node bytes).srv = a.srv := rfl

@[simp] theorem serve_prot (serving : Option (Serving Contents)) :
    (a.serve serving).prot = a.prot := rfl

@[simp] theorem serve_bytes (serving : Option (Serving Contents)) :
    (a.serve serving).bytes = a.bytes := rfl

@[simp] theorem serve_copyset (serving : Option (Serving Contents)) :
    (a.serve serving).copyset = a.copyset := rfl

@[simp] theorem serve_owner (serving : Option (Serving Contents)) :
    (a.serve serving).owner = a.owner := rfl

@[simp] theorem serve_current (serving : Option (Serving Contents)) :
    (a.serve serving).current = a.current := rfl

@[simp] theorem serve_app (serving : Option (Serving Contents)) :
    (a.serve serving).app = a.app := rfl

@[simp] theorem serve_srv (serving : Option (Serving Contents)) : (a.serve serving).srv = serving := rfl

theorem setPhase_eq {node : NodeId} {phase : Phase Contents} (same : a.app node = phase) :
    a.setPhase node phase = a := by
  simp [setPhase, ← same]

theorem setProt_eq {node : NodeId} {access : AccessType} (same : a.prot node = access) :
    a.setProt node access = a := by
  simp [setProt, ← same]

theorem setBytes_eq {node : NodeId} {bytes : Contents} (same : a.bytes node = bytes) :
    a.setBytes node bytes = a := by
  simp [setBytes, ← same]

theorem serve_eq {serving : Option (Serving Contents)} (same : a.srv = serving) :
    a.serve serving = a := by
  simp [serve, ← same]

/-- The fetch being served holds the page lock of the node. -/
def FetchHolds (node : NodeId) : Prop :=
  ∃ serving, a.srv = some serving ∧ serving.stage.locks node

/-- The reply of a request reaches a requester that still waits for it. -/
def deliver (live : Bool) (node : NodeId) (phase : Phase Contents) : State Contents :=
  if live then a.setPhase node phase else a

end State

/-! ### Steps -/

/-- What a family of runs permits: failures of calls, the nodes that fault, when
a fetch or invalidation may take access away from a node, when a node may stop
waiting for its request, and when a request may make its requester the owner. -/
structure Regime (Contents : Type u) where
  lossy : Prop
  faults : NodeId → Prop
  revokes : State Contents → NodeId → AccessType → Prop
  loses : State Contents → NodeId → Prop := fun _ _ => True
  commits : State Contents → Prop := fun _ => True

open State

variable {Contents : Type u}

/-- One step of the protocol. -/
inductive Step (regime : Regime Contents) : State Contents → State Contents → Prop where
  | fault {a : State Contents} {node : NodeId} {rq : Rq} (permitted : regime.faults node)
      (outside : a.app node = .out) (denied : rq.faults (a.prot node) = true) :
      Step regime a (a.setPhase node (.waiting rq))
  | lock {a : State Contents} {node : NodeId} {rq : Rq} (waiting : a.app node = .waiting rq)
      (free : node ≠ 0 → ¬a.FetchHolds node) : Step regime a (a.setPhase node (.ready rq))
  | unlock {a : State Contents} {node : NodeId} {rq : Rq} (ready : a.app node = .ready rq) :
      Step regime a (a.setPhase node (.waiting rq))
  | ask {a : State Contents} {node : NodeId} {rq : Rq} (ready : a.app node = .ready rq) :
      Step regime a (a.setPhase node (.asking rq))
  | openPage {a : State Contents} {node : NodeId} {rq : Rq} {page : Option Contents}
      (granted : a.app node = .granted rq page) :
      Step regime a ((a.setProt node .rw).setPhase node (.opened rq page))
  | copyRd {a : State Contents} {node : NodeId} {bytes : Contents}
      (opened : a.app node = .opened .rd (some bytes)) :
      Step regime a ((a.setBytes node bytes).setPhase node .copied)
  | copyWr {a : State Contents} {node : NodeId} {page : Option Contents}
      (opened : a.app node = .opened .wr page) :
      Step regime a ((a.setBytes node (page.getD (a.bytes node))).setPhase node (.closing .wr))
  | close {a : State Contents} {node : NodeId} (copied : a.app node = .copied) :
      Step regime a ((a.setProt node .rd).setPhase node (.closing .rd))
  | leave {a : State Contents} {node : NodeId} {rq : Rq} (closing : a.app node = .closing rq) :
      Step regime a (a.setPhase node .out)
  | store {a : State Contents} {node : NodeId} (change : Contents → Contents)
      (outside : a.app node = .out) (permitted : (a.prot node).writable = true) :
      Step regime a { a.setBytes node (change (a.bytes node)) with current := change a.current }
  | start {a : State Contents} {rq : Rq} {reqNode : NodeId} {live : Bool} (idle : a.srv = none)
      (asked : if live then a.app reqNode = .asking rq else regime.lossy) :
      Step regime a (a.serve (some ⟨rq, reqNode, live, .started⟩))
  | list {a : State Contents} {reqNode : NodeId} {live : Bool}
      (serving : a.srv = some ⟨.rd, reqNode, live, .started⟩) :
      Step regime a ({ a with copyset := a.copyset.insert reqNode }.serve
        (some ⟨.rd, reqNode, live, .listed⟩))
  | lookRd {a : State Contents} {reqNode : NodeId} {live : Bool}
      (serving : a.srv = some ⟨.rd, reqNode, live, .listed⟩) :
      Step regime a (a.serve (some ⟨.rd, reqNode, live, .fetching a.owner [] .pending⟩))
  | lookWr {a : State Contents} {reqNode : NodeId} {live : Bool}
      (serving : a.srv = some ⟨.wr, reqNode, live, .started⟩) :
      Step regime a (a.serve (some ⟨.wr, reqNode, live, .erasing a.owner⟩))
  | eraseFetch {a : State Contents} {reqNode owner : NodeId} {live : Bool}
      (serving : a.srv = some ⟨.wr, reqNode, live, .erasing owner⟩)
      (other : owner = 0 ∨ owner ≠ reqNode) :
      Step regime a ({ a with copyset := a.copyset.erase reqNode }.serve
        (some ⟨.wr, reqNode, live, .fetching owner (a.copyset.erase reqNode).elems .pending⟩))
  | eraseKeep {a : State Contents} {reqNode owner : NodeId} {live : Bool}
      (serving : a.srv = some ⟨.wr, reqNode, live, .erasing owner⟩)
      (worker : owner ≠ 0) (same : owner = reqNode) :
      Step regime a ({ a with copyset := a.copyset.erase reqNode }.serve
        (some ⟨.wr, reqNode, live, .invalidating none (a.copyset.erase reqNode).elems⟩))
  | fetchOpen {a : State Contents} {rq : Rq} {reqNode owner : NodeId} {live : Bool}
      {nodes : List NodeId}
      (serving : a.srv = some ⟨rq, reqNode, live, .fetching owner nodes .pending⟩)
      (free : owner ≠ 0 → (a.app owner).holdsLock = false) :
      Step regime a ((a.setProt owner .rd).serve
        (some ⟨rq, reqNode, live, .fetching owner nodes .opened⟩))
  | fetchCopy {a : State Contents} {rq : Rq} {reqNode owner : NodeId} {live : Bool}
      {nodes : List NodeId}
      (serving : a.srv = some ⟨rq, reqNode, live, .fetching owner nodes .opened⟩) :
      Step regime a (a.serve
        (some ⟨rq, reqNode, live, .fetching owner nodes (.copied (some (a.bytes owner)))⟩))
  | fetchClose {a : State Contents} {rq : Rq} {reqNode owner : NodeId} {live : Bool}
      {nodes : List NodeId} {page : Option Contents}
      (serving : a.srv = some ⟨rq, reqNode, live, .fetching owner nodes (.copied page)⟩)
      (permitted : regime.revokes a owner (fetchAccess rq)) :
      Step regime a ((a.setProt owner (fetchAccess rq)).serve
        (some ⟨rq, reqNode, live, .fetching owner nodes (.closed page)⟩))
  | takeRd {a : State Contents} {reqNode owner : NodeId} {live : Bool} {nodes : List NodeId}
      {page : Option Contents}
      (serving : a.srv = some ⟨.rd, reqNode, live, .fetching owner nodes (.closed page)⟩) :
      Step regime a (a.serve (some ⟨.rd, reqNode, live, .fetched page⟩))
  | takeWr {a : State Contents} {reqNode owner : NodeId} {live : Bool} {nodes : List NodeId}
      {page : Option Contents}
      (serving : a.srv = some ⟨.wr, reqNode, live, .fetching owner nodes (.closed page)⟩) :
      Step regime a (a.serve (some ⟨.wr, reqNode, live, .invalidating page nodes⟩))
  | grantRd {a : State Contents} {reqNode : NodeId} {live : Bool} {page : Option Contents}
      (serving : a.srv = some ⟨.rd, reqNode, live, .fetched page⟩) :
      Step regime a ((a.serve none).deliver live reqNode (.granted .rd page))
  | callNode {a : State Contents} {reqNode node : NodeId} {live : Bool} {nodes : List NodeId}
      {page : Option Contents}
      (serving : a.srv = some ⟨.wr, reqNode, live, .invalidating page (node :: nodes)⟩) :
      Step regime a (a.serve (some ⟨.wr, reqNode, live, .calling page nodes node false⟩))
  | dropCopy {a : State Contents} {reqNode node : NodeId} {live : Bool} {nodes : List NodeId}
      {page : Option Contents}
      (serving : a.srv = some ⟨.wr, reqNode, live, .calling page nodes node false⟩)
      (free : node ≠ 0 → (a.app node).holdsLock = false)
      (permitted : regime.revokes a node .none) :
      Step regime a ((a.setProt node .none).serve
        (some ⟨.wr, reqNode, live, .calling page nodes node true⟩))
  | acknowledge {a : State Contents} {reqNode node : NodeId} {live : Bool} {nodes : List NodeId}
      {page : Option Contents}
      (serving : a.srv = some ⟨.wr, reqNode, live, .calling page nodes node true⟩) :
      Step regime a (a.serve (some ⟨.wr, reqNode, live, .invalidating page nodes⟩))
  | send {a : State Contents} {reqNode : NodeId} {live : Bool} {page : Option Contents}
      (serving : a.srv = some ⟨.wr, reqNode, live, .invalidating page []⟩) :
      Step regime a (a.serve (some ⟨.wr, reqNode, live, .sent page⟩))
  | clear {a : State Contents} {reqNode : NodeId} {live : Bool} {page : Option Contents}
      (serving : a.srv = some ⟨.wr, reqNode, live, .sent page⟩) :
      Step regime a ({ a with copyset := ∅ }.serve (some ⟨.wr, reqNode, live, .cleared page⟩))
  | commit {a : State Contents} {reqNode : NodeId} {live : Bool} {page : Option Contents}
      (serving : a.srv = some ⟨.wr, reqNode, live, .cleared page⟩) (permitted : regime.commits a) :
      Step regime a ({ a with owner := reqNode }.serve
        (some ⟨.wr, reqNode, live, .committed page⟩))
  | grantWr {a : State Contents} {reqNode : NodeId} {live : Bool} {page : Option Contents}
      (serving : a.srv = some ⟨.wr, reqNode, live, .committed page⟩) :
      Step regime a ((a.serve none).deliver live reqNode (.granted .wr page))
  | giveUp {a : State Contents} {rq : Rq} {reqNode owner : NodeId} {live : Bool}
      {nodes : List NodeId} {fetch : FetchStage Contents} (lossy : regime.lossy)
      (serving : a.srv = some ⟨rq, reqNode, live, .fetching owner nodes fetch⟩) :
      Step regime a (a.serve (some ⟨rq, reqNode, live, .backing⟩))
  | release {a : State Contents} {rq : Rq} {reqNode : NodeId} {live : Bool}
      (serving : a.srv = some ⟨rq, reqNode, live, .backing⟩) : Step regime a (a.serve none)
  | skipNodes {a : State Contents} {reqNode node : NodeId} {live dropped : Bool}
      {nodes : List NodeId} {page : Option Contents} (lossy : regime.lossy)
      (serving : a.srv = some ⟨.wr, reqNode, live, .calling page nodes node dropped⟩) :
      Step regime a (a.serve (some ⟨.wr, reqNode, live, .sent page⟩))
  | stray {a : State Contents} {node : NodeId} {access : AccessType} (lossy : regime.lossy)
      (reduced : access = .rd ∨ access = .none)
      (free : node ≠ 0 → (a.app node).holdsLock = false) : Step regime a (a.setProt node access)
  | lose {a : State Contents} {node : NodeId} {rq : Rq} (lossy : regime.lossy)
      (permitted : regime.loses a node)
      (pending : a.app node = .asking rq ∨ ∃ page, a.app node = .granted rq page) :
      Step regime a ({ a with
        srv := a.srv.map fun (serving : Serving Contents) =>
          if serving.reqNode = node then { serving with live := false } else serving }.setPhase
        node (.ready rq))

/-- One step or none. -/
def StepOrStay (regime : Regime Contents) (a b : State Contents) : Prop :=
  b = a ∨ Step regime a b

end LibIvy.Protocol
