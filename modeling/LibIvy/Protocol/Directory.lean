import LibIvy.Protocol.Exclusion

/-!
Contract: the directory is accurate about workers.

Owns: the invariant that a worker recorded as owner is not in the copyset and
has the page, that a worker that waits to read is not the owner, and that
requests call recorded readers other than their requester only, in runs without
failures.

Does not own: exclusion, page contents, the manager's own copy.
-/

namespace LibIvy.Protocol

universe u

variable {Contents : Type u}

/-! ### Readers and owners -/

/-- The node has faulted for reading and has not installed the page. -/
def Phase.reads : Phase Contents → Bool
  | .waiting .rd => true
  | .ready .rd => true
  | .asking .rd => true
  | .granted .rd _ => true
  | .opened .rd _ => true
  | .copied => true
  | _ => false

/-- The node has faulted for reading and has no grant. -/
def Phase.awaitsRead : Phase Contents → Bool
  | .waiting .rd => true
  | .ready .rd => true
  | .asking .rd => true
  | _ => false

theorem Phase.reads_of_awaitsRead {phase : Phase Contents} (awaits : phase.awaitsRead = true) :
    phase.reads = true := by
  cases phase <;> (try cases ‹Rq›) <;> simp_all [Phase.awaitsRead, Phase.reads]

/-- Nodes that the request has called or still has to call. -/
@[simp] def Stage.callees : Stage Contents → List NodeId
  | .fetching _ nodes _ => nodes
  | .invalidating _ nodes => nodes
  | .calling _ nodes node _ => node :: nodes
  | _ => []

namespace State

variable (a : State Contents)

/-- A write request for another node has taken the page away from the owner. -/
def Dropped (node : NodeId) : Prop :=
  ∃ serving, a.srv = some serving ∧ serving.rq = .wr ∧ serving.reqNode ≠ node ∧
    serving.stage.settled = true

/-- The node has access or a write grant. -/
def Held (node : NodeId) : Prop :=
  a.prot node ≠ .none ∨ ∃ page, a.app node = .granted .wr page

/-- The request being served has just made the node the owner. -/
def Commits (node : NodeId) : Prop := ∃ serving, a.srv = some serving ∧ serving.commits node

end State

/-! ### The invariant -/

/-- What the directory says about workers is true. -/
structure Accurate (a : State Contents) : Prop where
  written : ∀ node, node ≠ 0 → ∀ page, a.app node = .opened .wr page → a.prot node = .rw
  denied : ∀ node, node ≠ 0 → (a.app node).awaitsRead = true → a.prot node = .none
  reading : ∀ node, node ≠ 0 → (a.app node).reads = true → node ≠ a.owner ∨ a.Dropped node
  unlisted : a.owner ≠ 0 → a.owner ∉ a.copyset
  held : a.owner ≠ 0 → a.Held a.owner ∨ a.Dropped a.owner ∨ a.Commits a.owner
  fetches : ∀ serving, a.srv = some serving → serving.rq = .wr → ∀ owner nodes fetch,
    serving.stage = .fetching owner nodes fetch → owner = 0 ∨ owner ≠ serving.reqNode
  calls : ∀ serving, a.srv = some serving → ∀ node, node ∈ serving.stage.callees →
    node ∈ a.copyset ∧ node ≠ serving.reqNode

namespace Accurate

variable {a b : State Contents}

theorem initial (zero : Contents) : Accurate (State.initial zero) := by
  constructor <;> simp [State.initial, Phase.awaitsRead, Phase.reads]

/-- A change of one node. -/
theorem touch (inv : Accurate a) (node : NodeId) (sameSrv : b.srv = a.srv)
    (sameCopyset : b.copyset = a.copyset) (sameOwner : b.owner = a.owner)
    (sameProt : ∀ other, other ≠ node → b.prot other = a.prot other)
    (sameApp : ∀ other, other ≠ node → b.app other = a.app other)
    (written : node ≠ 0 → ∀ page, b.app node = .opened .wr page → b.prot node = .rw)
    (denied : node ≠ 0 → (b.app node).awaitsRead = true → b.prot node = .none)
    (reading : node ≠ 0 → (b.app node).reads = true → node ≠ a.owner ∨ a.Dropped node)
    (held : node ≠ 0 → a.Held node → b.Held node) : Accurate b := by
  have dropped : ∀ other, b.Dropped other ↔ a.Dropped other := by
    simp [State.Dropped, sameSrv]
  have commits : ∀ other, b.Commits other ↔ a.Commits other := by
    simp [State.Commits, sameSrv]
  constructor
  case written =>
    intro other worker page opened
    by_cases same : other = node
    · subst same
      exact written worker page opened
    · rw [sameProt other same]
      exact inv.written other worker page (sameApp other same ▸ opened)
  case denied =>
    intro other worker awaits
    by_cases same : other = node
    · subst same
      exact denied worker awaits
    · rw [sameProt other same]
      exact inv.denied other worker (sameApp other same ▸ awaits)
  case reading =>
    intro other worker reads
    rw [sameOwner, dropped]
    by_cases same : other = node
    · subst same
      exact reading worker reads
    · exact inv.reading other worker (sameApp other same ▸ reads)
  case unlisted =>
    rw [sameOwner, sameCopyset]
    exact inv.unlisted
  case held =>
    rw [sameOwner, dropped, commits]
    intro worker
    refine (inv.held worker).imp_left fun before => ?_
    by_cases same : a.owner = node
    · subst same
      exact held worker before
    · simpa [State.Held, sameProt _ same, sameApp _ same] using before
  case fetches =>
    rw [sameSrv]
    exact inv.fetches
  case calls =>
    rw [sameSrv, sameCopyset]
    exact inv.calls

/-- A request that moves on without touching any node or the directory. -/
theorem restage {serving : Serving Contents} {stage : Stage Contents} (inv : Accurate a)
    (present : a.srv = some serving)
    (settled : serving.rq = .wr → serving.stage.settled = true → stage.settled = true)
    (before : ∀ node, ¬serving.commits node)
    (fetches : serving.rq = .wr → ∀ owner nodes fetch, stage = .fetching owner nodes fetch →
      ∃ nodes fetch, serving.stage = .fetching owner nodes fetch)
    (calls : stage.callees ⊆ serving.stage.callees) :
    Accurate (a.serve (some { serving with stage := stage })) := by
  have dropped : ∀ node, a.Dropped node →
      (a.serve (some { serving with stage := stage })).Dropped node := by
    rintro node ⟨other, same, write, different, settles⟩
    obtain rfl : serving = other := Option.some.inj (present.symm.trans same)
    exact ⟨_, rfl, write, different, settled write settles⟩
  constructor
  case written => exact inv.written
  case denied => exact inv.denied
  case reading =>
    exact fun node worker reads => (inv.reading node worker reads).imp_right (dropped node)
  case unlisted => exact inv.unlisted
  case held =>
    intro worker
    rcases inv.held worker with held | drop | ⟨other, same, commits⟩
    · exact .inl held
    · exact .inr (.inl (dropped _ drop))
    · obtain rfl : serving = other := Option.some.inj (present.symm.trans same)
      exact absurd commits (before _)
  case fetches =>
    rintro _ ⟨⟩ write owner nodes fetch same
    obtain ⟨nodes, fetch, earlier⟩ := fetches write owner nodes fetch same
    exact inv.fetches _ present write owner nodes fetch earlier
  case calls =>
    rintro _ ⟨⟩ node member
    exact inv.calls _ present node (calls member)

variable {reqNode node owner : NodeId} {rq : Rq} {live : Bool} {nodes : List NodeId}
variable {page : Option Contents} {stage : Stage Contents} {serving : Serving Contents}

/-- Before the page has been taken from its owner, no node is cut off. -/
theorem not_dropped (present : a.srv = some serving) (unsettled : serving.stage.settled = false)
    (node : NodeId) : ¬a.Dropped node := by
  rintro ⟨other, same, -, -, settles⟩
  obtain rfl : serving = other := Option.some.inj (present.symm.trans same)
  rw [unsettled] at settles
  contradiction

theorem not_dropped_by_read (present : a.srv = some serving) (read : serving.rq = .rd)
    (node : NodeId) : ¬a.Dropped node := by
  rintro ⟨other, same, write, -, -⟩
  obtain rfl : serving = other := Option.some.inj (present.symm.trans same)
  simp [read] at write

/-- A node whose request is served is recorded as owner only if it is the
manager or asks for writing. -/
theorem requester_not_owner (inv : Accurate a) (excl : Exclusive (· ≠ 0) a)
    (present : a.srv = some ⟨.rd, reqNode, live, stage⟩) (worker : reqNode ≠ 0) :
    reqNode ≠ a.owner := by
  have asking : a.app reqNode = .asking .rd := (excl.serving _ present).asking
  exact (inv.reading reqNode worker (by rw [asking]; rfl)).resolve_right
    (not_dropped_by_read present rfl reqNode)

theorem start (inv : Accurate a) (idle : a.srv = none) :
    Accurate (a.serve (some ⟨rq, reqNode, live, .started⟩)) := by
  have notDropped : ∀ node, ¬a.Dropped node := by simp [State.Dropped, idle]
  have notCommits : ∀ node, ¬a.Commits node := by simp [State.Commits, idle]
  refine ⟨inv.written, inv.denied, ?_, inv.unlisted, ?_, ?_, ?_⟩
  · exact fun node worker reads =>
      .inl ((inv.reading node worker reads).resolve_right (notDropped node))
  · intro worker
    rcases inv.held worker with held | drop | commits
    · exact .inl held
    · exact absurd drop (notDropped _)
    · exact absurd commits (notCommits _)
  · intro _ same
    cases same
    simp
  · intro _ same
    cases same
    simp

theorem list (inv : Accurate a) (excl : Exclusive (· ≠ 0) a)
    (present : a.srv = some ⟨.rd, reqNode, live, .started⟩) :
    Accurate ({ a with copyset := a.copyset.insert reqNode }.serve
      (some ⟨.rd, reqNode, live, .listed⟩)) := by
  refine ⟨inv.written, inv.denied, ?_, ?_, ?_, ?_, ?_⟩
  · exact fun node worker reads => .inl ((inv.reading node worker reads).resolve_right
      (not_dropped_by_read present rfl node))
  · intro worker member
    rcases NodeSet.mem_insert.mp member with same | member
    · simp only [State.serve_owner] at same
      exact inv.requester_not_owner excl present (same ▸ worker) same.symm
    · exact inv.unlisted worker member
  · intro worker
    rcases inv.held worker with held | drop | ⟨_, same, commits⟩
    · exact .inl held
    · exact absurd drop (not_dropped_by_read present rfl _)
    · obtain rfl := Option.some.inj (present.symm.trans same)
      exact commits.elim
  · intro _ same
    cases same
    simp
  · intro _ same
    cases same
    simp

/-- Taking the requester out of the copyset. -/
theorem erase (inv : Accurate a) (present : a.srv = some ⟨.wr, reqNode, live, .erasing owner⟩)
    (keeps : ∀ first nodes fetch, stage = .fetching first nodes fetch → first = 0 ∨ first ≠ reqNode)
    (callees : stage.callees = (a.copyset.erase reqNode).elems) :
    Accurate ({ a with copyset := a.copyset.erase reqNode }.serve
      (some ⟨.wr, reqNode, live, stage⟩)) := by
  refine ⟨inv.written, inv.denied, ?_, ?_, ?_, ?_, ?_⟩
  · exact fun node worker reads => .inl ((inv.reading node worker reads).resolve_right
      (not_dropped present rfl node))
  · exact fun worker member => inv.unlisted worker (NodeSet.mem_erase.mp member).2
  · intro worker
    rcases inv.held worker with held | drop | ⟨_, same, commits⟩
    · exact .inl held
    · exact absurd drop (not_dropped present rfl _)
    · obtain rfl := Option.some.inj (present.symm.trans same)
      exact commits.elim
  · rintro _ ⟨⟩ _
    exact keeps
  · rintro _ ⟨⟩ node member
    simp only [callees] at member
    exact ⟨member, (NodeSet.mem_erase.mp (member : node ∈ a.copyset.erase reqNode)).1⟩

/-- A fetch changes the access of the owner. -/
theorem fetchAt {fetch later : FetchStage Contents} {access : AccessType} (inv : Accurate a)
    (excl : Exclusive (· ≠ 0) a)
    (present : a.srv = some ⟨rq, reqNode, live, .fetching owner nodes fetch⟩)
    (unsettled : (Stage.fetching owner nodes fetch).settled = false)
    (unlocked : owner ≠ 0 → (a.app owner).holdsLock = false)
    (left : access = .none → rq = .wr ∧ (Stage.fetching owner nodes later).settled = true) :
    Accurate ((a.setProt owner access).serve
      (some ⟨rq, reqNode, live, .fetching owner nodes later⟩)) := by
  have ownerRead : owner = a.owner := (excl.serving _ present).ownerRead owner rfl
  have notDropped := not_dropped present unsettled
  constructor
  case written =>
    intro node worker page opened
    have different : node ≠ owner := by
      intro same
      subst same
      have free := unlocked worker
      rw [show a.app node = .opened .wr page from opened] at free
      contradiction
    simpa [State.setProt, State.serve, different] using inv.written node worker page opened
  case denied =>
    intro node worker awaits
    have different : node ≠ owner := by
      intro same
      subst same
      have reads : (a.app node).reads = true := Phase.reads_of_awaitsRead awaits
      exact (inv.reading node worker reads).elim (fun other => other ownerRead) (notDropped node)
    simpa [State.setProt, State.serve, different] using inv.denied node worker awaits
  case reading =>
    exact fun node worker reads =>
      .inl ((inv.reading node worker reads).resolve_right (notDropped node))
  case unlisted => exact inv.unlisted
  case held =>
    intro worker
    by_cases none : access = .none
    · obtain ⟨rfl, settled⟩ := left none
      refine .inr (.inl ⟨_, rfl, rfl, ?_, settled⟩)
      have other := (inv.fetches _ present rfl owner nodes fetch rfl).resolve_left
        (ownerRead ▸ worker)
      exact fun same => other (ownerRead.trans same.symm)
    · exact .inl (.inl (by simpa [State.setProt, ← ownerRead] using none))
  case fetches =>
    rintro _ ⟨⟩ write _ _ _ ⟨⟩
    exact inv.fetches _ present write owner nodes fetch rfl
  case calls =>
    intro _ same
    cases same
    have before := inv.calls _ present
    exact before

theorem dropCopy (inv : Accurate a)
    (present : a.srv = some ⟨.wr, reqNode, live, .calling page nodes node false⟩)
    (free : node ≠ 0 → (a.app node).holdsLock = false) :
    Accurate ((a.setProt node .none).serve
      (some ⟨.wr, reqNode, live, .calling page nodes node true⟩)) := by
  have dropped : ∀ other, a.Dropped other → ((a.setProt node .none).serve
      (some ⟨.wr, reqNode, live, .calling page nodes node true⟩)).Dropped other := by
    rintro other ⟨_, same, write, different, _⟩
    obtain rfl := Option.some.inj (present.symm.trans same)
    exact ⟨_, rfl, rfl, different, rfl⟩
  constructor
  case written =>
    intro other worker page opened
    have different : other ≠ node := by
      intro same
      subst same
      have unlocked := free worker
      rw [show a.app other = .opened .wr page from opened] at unlocked
      contradiction
    simpa [State.setProt, State.serve, different] using inv.written other worker page opened
  case denied =>
    intro other worker awaits
    by_cases same : other = node
    · simp [State.setProt, State.serve, same]
    · simpa [State.setProt, State.serve, same] using inv.denied other worker awaits
  case reading =>
    exact fun other worker reads => (inv.reading other worker reads).imp_right (dropped other)
  case unlisted => exact inv.unlisted
  case held =>
    intro worker
    rcases inv.held worker with held | drop | ⟨_, same, commits⟩
    · -- only recorded readers are called
      have listed := (inv.calls _ present node (by simp [Stage.callees])).1
      have different : a.owner ≠ node := by
        intro same
        exact inv.unlisted worker (same ▸ listed)
      refine .inl ?_
      simpa [State.Held, State.setProt, State.serve, different] using held
    · exact .inr (.inl (dropped _ drop))
    · obtain rfl := Option.some.inj (present.symm.trans same)
      exact commits.elim
  case fetches =>
    intro _ same
    cases same
    simp
  case calls =>
    intro _ same
    cases same
    have before := inv.calls _ present
    exact before

theorem clear (inv : Accurate a) (present : a.srv = some ⟨.wr, reqNode, live, .sent page⟩) :
    Accurate ({ a with copyset := ∅ }.serve (some ⟨.wr, reqNode, live, .cleared page⟩)) := by
  have dropped : ∀ node, a.Dropped node → ({ a with copyset := ∅ }.serve
      (some ⟨.wr, reqNode, live, .cleared page⟩)).Dropped node := by
    rintro node ⟨_, same, _, different, _⟩
    obtain rfl := Option.some.inj (present.symm.trans same)
    exact ⟨_, rfl, rfl, different, rfl⟩
  refine ⟨inv.written, inv.denied, ?_, ?_, ?_, ?_, ?_⟩
  · exact fun node worker reads => (inv.reading node worker reads).imp_right (dropped node)
  · simp
  · intro worker
    rcases inv.held worker with held | drop | ⟨_, same, commits⟩
    · exact .inl held
    · exact .inr (.inl (dropped _ drop))
    · obtain rfl := Option.some.inj (present.symm.trans same)
      exact commits.elim
  · intro _ same
    cases same
    simp
  · intro _ same
    cases same
    simp

theorem commit (inv : Accurate a) (excl : Exclusive (· ≠ 0) a)
    (present : a.srv = some ⟨.wr, reqNode, live, .cleared page⟩) :
    Accurate ({ a with owner := reqNode }.serve
      (some ⟨.wr, reqNode, live, .committed page⟩)) := by
  have old := excl.serving _ present
  have emptied : a.copyset = ∅ := old.emptied rfl
  refine ⟨inv.written, inv.denied, ?_, ?_, ?_, ?_, ?_⟩
  · intro node worker reads
    have asking : a.app reqNode = .asking .wr := old.asking
    refine .inl ?_
    intro same
    subst same
    simp [asking, Phase.reads] at reads
  · simp [emptied]
  · exact fun _ => .inr (.inr ⟨_, rfl, rfl⟩)
  · intro _ same
    cases same
    simp
  · intro _ same
    cases same
    simp

theorem grantRd (inv : Accurate a) (excl : Exclusive (· ≠ 0) a)
    (present : a.srv = some ⟨.rd, reqNode, live, .fetched page⟩) :
    Accurate ((a.serve none).setPhase reqNode (.granted .rd page)) := by
  have notDropped := not_dropped_by_read present rfl
  constructor
  case written =>
    intro node worker other opened
    by_cases same : node = reqNode
    · simp [State.setPhase, same] at opened
    · exact inv.written node worker other (by simpa [State.setPhase, same] using opened)
  case denied =>
    intro node worker awaits
    by_cases same : node = reqNode
    · simp [State.setPhase, same, Phase.awaitsRead] at awaits
    · exact inv.denied node worker (by simpa [State.setPhase, same] using awaits)
  case reading =>
    intro node worker reads
    refine .inl ?_
    by_cases same : node = reqNode
    · subst same
      exact inv.requester_not_owner excl present worker
    · exact (inv.reading node worker (by simpa [State.setPhase, same] using reads)).resolve_right
        (notDropped node)
  case unlisted => exact inv.unlisted
  case held =>
    intro worker
    have different : a.owner ≠ reqNode := by
      intro same
      exact inv.requester_not_owner excl present (same ▸ worker) same.symm
    rcases inv.held worker with held | drop | ⟨_, same, commits⟩
    · refine .inl ?_
      simpa [State.Held, State.setPhase, different] using held
    · exact absurd drop (notDropped _)
    · obtain rfl := Option.some.inj (present.symm.trans same)
      exact commits.elim
  case fetches => simp
  case calls => simp

theorem grantWr (inv : Accurate a)
    (present : a.srv = some ⟨.wr, reqNode, live, .committed page⟩) :
    Accurate ((a.serve none).setPhase reqNode (.granted .wr page)) := by
  have notDropped := not_dropped present rfl
  constructor
  case written =>
    intro node worker other opened
    by_cases same : node = reqNode
    · simp [State.setPhase, same] at opened
    · exact inv.written node worker other (by simpa [State.setPhase, same] using opened)
  case denied =>
    intro node worker awaits
    by_cases same : node = reqNode
    · simp [State.setPhase, same, Phase.awaitsRead] at awaits
    · exact inv.denied node worker (by simpa [State.setPhase, same] using awaits)
  case reading =>
    intro node worker reads
    by_cases same : node = reqNode
    · simp [State.setPhase, same, Phase.reads] at reads
    · exact .inl ((inv.reading node worker (by
        simpa [State.setPhase, same] using reads)).resolve_right (notDropped node))
  case unlisted => exact inv.unlisted
  case held =>
    intro worker
    by_cases same : a.owner = reqNode
    · exact .inl (.inr ⟨page, by simp [State.setPhase, same]⟩)
    · rcases inv.held worker with held | drop | ⟨_, sameSrv, commits⟩
      · refine .inl ?_
        simpa [State.Held, State.setPhase, same] using held
      · exact absurd drop (notDropped _)
      · obtain rfl := Option.some.inj (present.symm.trans sameSrv)
        exact absurd commits.symm same
  case fetches => simp
  case calls => simp

/-- A step of an application thread that brings it from `a.app node` to `phase`
and its access to `access`. -/
theorem step_app (inv : Accurate a) {phase : Phase Contents} {access : AccessType}
    (node : NodeId) (sameSrv : b.srv = a.srv) (sameCopyset : b.copyset = a.copyset)
    (sameOwner : b.owner = a.owner) (prot : b.prot = Function.update a.prot node access)
    (app : b.app = Function.update a.app node phase)
    (written : ∀ page, phase = .opened .wr page → access = .rw)
    (denied : node ≠ 0 → phase.awaitsRead = true → access = .none)
    (reading : phase.reads = true → (a.app node).reads = true ∨
      (node ≠ 0 → node ≠ a.owner ∨ a.Dropped node))
    (held : a.Held node → access ≠ .none ∨ ∃ page, phase = .granted .wr page) : Accurate b := by
  refine inv.touch node sameSrv sameCopyset sameOwner ?_ ?_ ?_ ?_ ?_ ?_
  · simp +contextual [prot]
  · simp +contextual [app]
  · simpa [prot, app] using fun _ => written
  · simpa [prot, app] using denied
  · intro worker reads
    rcases reading (by simpa [app] using reads) with before | new
    · exact inv.reading node worker before
    · exact new worker
  · intro _ before
    simpa [State.Held, prot, app] using held before

/-- A step of an application thread that leaves its access. -/
theorem step_phase (inv : Accurate a) {phase : Phase Contents} (node : NodeId)
    (written : ∀ page, phase ≠ .opened .wr page)
    (denied : node ≠ 0 → phase.awaitsRead = true → a.prot node = .none)
    (reading : phase.reads = true → (a.app node).reads = true ∨
      (node ≠ 0 → node ≠ a.owner ∨ a.Dropped node))
    (notGranted : ∀ page, a.app node ≠ .granted .wr page) : Accurate (a.setPhase node phase) := by
  refine inv.step_app node rfl rfl rfl (Function.update_eq_self node a.prot).symm rfl
    (fun page same => absurd same (written page)) denied reading ?_
  rintro (access | ⟨page, granted⟩)
  · exact .inl access
  · exact absurd granted (notGranted page)

/-- Contents do not matter for the directory. -/
theorem setBytes (inv : Accurate a) (bytes : NodeId → Contents) (current : Contents) :
    Accurate { a with bytes := bytes, current := current } :=
  ⟨inv.written, inv.denied, inv.reading, inv.unlisted, inv.held, inv.fetches, inv.calls⟩

/-- A worker that faults for reading is not the owner. -/
theorem reader_not_owner (inv : Accurate a) (excl : Exclusive (· ≠ 0) a) (worker : node ≠ 0)
    (outside : a.app node = .out) (denied : a.prot node = .none) :
    node ≠ a.owner ∨ a.Dropped node := by
  by_contra owner
  obtain ⟨same, notDropped⟩ := not_or.mp owner
  obtain rfl := not_not.mp same
  rcases inv.held worker with held | drop | ⟨serving, present, commits⟩
  · simp [State.Held, denied, outside] at held
  · exact notDropped drop
  · obtain ⟨rq, reqNode, live, stage⟩ := serving
    have asking := (excl.serving _ present).asking
    have requester : reqNode = a.owner := by
      cases rq <;> cases stage <;> first | exact commits | exact commits.elim
    simp [requester, outside] at asking

/-- Every step of a run without failures keeps the directory accurate. -/
theorem step {regime : Regime Contents} (reliable : ¬regime.lossy) (excl : Exclusive (· ≠ 0) a)
    (inv : Accurate a) (taken : Step regime a b) : Accurate b := by
  have denied : ∀ {node phase}, a.app node = phase → node ≠ 0 → phase.awaitsRead = true →
      a.prot node = .none := by
    intro node _ rfl worker awaits
    exact inv.denied node worker awaits
  cases taken with
  | @fault node rq permitted outside faults =>
      have closed : rq = .rd → a.prot node = .none := by
        intro same
        subst same
        simpa [Rq.faults] using faults
      refine inv.step_phase node (by simp) ?_ ?_ (by simp [outside])
      · intro worker awaits
        cases rq with
        | rd => exact closed rfl
        | wr => contradiction
      · intro reads
        cases rq with
        | rd => exact .inr fun worker => inv.reader_not_owner excl worker outside (closed rfl)
        | wr => contradiction
  | @lock node rq waiting free =>
      refine inv.step_phase node (by simp) ?_ ?_ (by simp [waiting])
      · intro worker awaits
        exact denied waiting worker (by cases rq <;> exact awaits)
      · intro reads
        exact .inl (by rw [waiting]; cases rq <;> exact reads)
  | @unlock node rq ready =>
      refine inv.step_phase node (by simp) ?_ ?_ (by simp [ready])
      · intro worker awaits
        exact denied ready worker (by cases rq <;> exact awaits)
      · intro reads
        exact .inl (by rw [ready]; cases rq <;> exact reads)
  | @ask node rq ready =>
      refine inv.step_phase node (by simp) ?_ ?_ (by simp [ready])
      · intro worker awaits
        exact denied ready worker (by cases rq <;> exact awaits)
      · intro reads
        exact .inl (by rw [ready]; cases rq <;> exact reads)
  | @openPage node rq page granted =>
      refine inv.step_app node rfl rfl rfl rfl rfl (by simp) (by simp [Phase.awaitsRead]) ?_
        (by simp)
      intro reads
      exact .inl (by rw [granted]; cases rq <;> exact reads)
  | @copyRd node bytes opened =>
      exact (inv.setBytes _ a.current).step_phase node (by simp) (by simp [Phase.awaitsRead])
        (by simp [opened, Phase.reads]) (by simp [opened])
  | @copyWr node page opened =>
      exact (inv.setBytes _ a.current).step_phase node (by simp) (by simp [Phase.awaitsRead])
        (by simp [Phase.reads]) (by simp [opened])
  | @close node copied =>
      exact inv.step_app node rfl rfl rfl rfl rfl (by simp) (by simp [Phase.awaitsRead])
        (by simp [Phase.reads]) (by simp)
  | @leave node rq closing =>
      exact inv.step_phase node (by simp) (by simp [Phase.awaitsRead]) (by simp [Phase.reads])
        (by simp [closing])
  | store change outside permitted => exact inv.setBytes _ _
  | start idle asked => exact inv.start idle
  | list serving => exact inv.list excl serving
  | lookRd serving =>
      exact inv.restage serving (by simp) (fun _ => id) (by simp) (List.Subset.refl _)
  | lookWr serving =>
      exact inv.restage serving (by simp) (fun _ => id) (by simp) (List.Subset.refl _)
  | eraseFetch serving other =>
      refine inv.erase serving ?_ rfl
      intro _ _ _ same
      cases same
      exact other
  | eraseKeep serving worker same => exact inv.erase serving (by simp) rfl
  | fetchOpen serving free => exact inv.fetchAt excl serving rfl free (by simp)
  | @fetchCopy rq reqNode owner live nodes serving =>
      refine inv.restage serving (by simp) (by cases rq <;> exact fun _ => id) ?_
        (List.Subset.refl _)
      intro _ _ _ _ same
      cases same
      exact ⟨_, _, rfl⟩
  | @fetchClose rq reqNode owner live nodes page serving permitted =>
      have unlocked := fun worker => (excl.serving _ serving).locked owner worker rfl
      refine inv.fetchAt excl serving rfl unlocked ?_
      cases rq with
      | rd =>
          intros
          contradiction
      | wr => exact fun _ => ⟨rfl, rfl⟩
  | takeRd serving =>
      exact inv.restage serving (by simp) (fun _ => id) (by simp) (List.nil_subset _)
  | takeWr serving =>
      exact inv.restage serving (fun _ _ => rfl) (fun _ => id) (by simp) (List.Subset.refl _)
  | @grantRd reqNode live page serving =>
      obtain rfl : live = true := (excl.serving _ serving).live
      exact inv.grantRd excl serving
  | callNode serving =>
      exact inv.restage serving (fun _ _ => rfl) (fun _ => id) (by simp) (List.Subset.refl _)
  | dropCopy serving free permitted => exact inv.dropCopy serving free
  | acknowledge serving =>
      exact inv.restage serving (fun _ _ => rfl) (fun _ => id) (by simp) (List.subset_cons_self _ _)
  | send serving =>
      exact inv.restage serving (fun _ _ => rfl) (fun _ => id) (by simp) (List.Subset.refl _)
  | clear serving => exact inv.clear serving
  | commit serving _ => exact inv.commit excl serving
  | @grantWr reqNode live page serving =>
      obtain rfl : live = true := (excl.serving _ serving).live
      exact inv.grantWr serving
  | giveUp lossy serving => exact absurd lossy reliable
  | release serving => exact absurd rfl (excl.serving _ serving).forward
  | skipNodes lossy serving => exact absurd lossy reliable
  | stray lossy reduced free => exact absurd lossy reliable
  | lose lossy _ _ => exact absurd lossy reliable

end Accurate

end LibIvy.Protocol
