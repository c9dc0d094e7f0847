import LibIvy.Protocol.Model

/-!
Contract: at most one node writes, and while it does no other node has access.

Owns: who may write, who holds nothing, and the invariant that ties both to the
directory, for any set of tracked nodes, in runs without failures.

Does not own: page contents.
-/

namespace LibIvy.Protocol

universe u

variable {Contents : Type u}

/-! ### Who may write and who holds nothing -/

/-- In this phase and with this access the node may store to the page, or a
write grant for it is on its way. -/
def Phase.entitled : Phase Contents → AccessType → Bool
  | .granted .wr _, _ => true
  | .opened .rd _, _ => false
  | .copied, _ => false
  | _, access => access.writable

/-- The node has faulted and waits for a grant. -/
def Phase.requests : Phase Contents → Bool
  | .waiting _ => true
  | .ready _ => true
  | .asking _ => true
  | _ => false

/-- The node has no access and no grant. -/
def Phase.clean (phase : Phase Contents) (access : AccessType) : Bool :=
  !access.readable && !phase.installing

theorem Phase.not_clean_of_entitled {phase : Phase Contents} {access : AccessType}
    (entitled : phase.entitled access = true) : phase.clean access = false := by
  cases phase <;> cases access <;> (try cases ‹Rq›) <;>
    simp_all [Phase.entitled, clean, installing, AccessType.readable, AccessType.writable]

/-- Without write access only a write grant entitles to write. -/
theorem Phase.granted_of_entitled {phase : Phase Contents} {access : AccessType}
    (denied : access.writable = false) (entitled : phase.entitled access = true) :
    ∃ page, phase = .granted .wr page := by
  cases phase <;> (try cases ‹Rq›) <;> simp_all [Phase.entitled]

theorem Phase.entitled_of_readOnly {phase : Phase Contents} {access : AccessType}
    (entitled : phase.entitled .rd = true) : phase.entitled access = true := by
  obtain ⟨page, rfl⟩ := granted_of_entitled rfl entitled
  rfl

theorem Rq.not_writable_of_faults {rq : Rq} {access : AccessType}
    (faults : rq.faults access = true) : access.writable = false := by
  cases rq <;> cases access <;> simp_all [Rq.faults, AccessType.readable, AccessType.writable]

/-- The request has made its requester the owner and not yet replied. -/
def Serving.commits : Serving Contents → NodeId → Prop
  | ⟨_, reqNode, _, .committed _⟩, node => reqNode = node
  | _, _ => False

namespace State

def Writes (a : State Contents) (node : NodeId) : Prop :=
  (a.app node).entitled (a.prot node) = true ∨ ∃ serving, a.srv = some serving ∧
    serving.commits node

def Clean (a : State Contents) (node : NodeId) : Prop :=
  (a.app node).clean (a.prot node) = true

end State

/-! ### Stages of a request -/

/-- The owner that the request has read from the directory. -/
@[simp] def Stage.owner? : Stage Contents → Option NodeId
  | .erasing owner => some owner
  | .fetching owner _ _ => some owner
  | _ => none

/-- The fetch has not yet left the owner with its final access. -/
@[simp] def Stage.early : Stage Contents → Bool
  | .listed => true
  | .fetching _ _ (.closed _) => false
  | .fetching _ _ _ => true
  | _ => false

/-- The old owner cannot write any more and the new one not yet. -/
@[simp] def Stage.settled : Stage Contents → Bool
  | .fetching _ _ (.closed _) => true
  | .fetched _ => true
  | .invalidating _ _ => true
  | .calling _ _ _ _ => true
  | .sent _ => true
  | .cleared _ => true
  | _ => false

/-- Nodes that a write request has not yet taken the page from. -/
@[simp] def Stage.remaining? : Stage Contents → Option (List NodeId)
  | .fetching _ nodes (.closed _) => some nodes
  | .fetching owner nodes _ => some (owner :: nodes)
  | .invalidating _ nodes => some nodes
  | .calling _ nodes node dropped => some (if dropped then nodes else node :: nodes)
  | .sent _ => some []
  | .cleared _ => some []
  | .committed _ => some []
  | _ => none

/-- The copyset has been emptied. -/
@[simp] def Stage.emptied : Stage Contents → Bool
  | .cleared _ => true
  | .committed _ => true
  | _ => false

/-- A write request that has taken its requester out of the copyset. -/
def Serving.upgrades (serving : Serving Contents) (node : NodeId) : Prop :=
  serving.rq = .wr ∧ serving.reqNode = node ∧ serving.stage.remaining?.isSome = true

/-- A read request that has put its requester into the copyset, with the owner
still as it was. -/
def Serving.adds (serving : Serving Contents) (node : NodeId) : Prop :=
  serving.rq = .rd ∧ serving.reqNode = node ∧ serving.stage.early = true

/-! ### The invariant -/

/-- What holds while a request is served. -/
structure ServingOk (tracked : NodeId → Prop) (a : State Contents) (serving : Serving Contents) :
    Prop where
  live : serving.live = true
  asking : a.app serving.reqNode = .asking serving.rq
  forward : serving.stage ≠ .backing
  ownerRead : ∀ owner, serving.stage.owner? = some owner → owner = a.owner
  listed : serving.rq = .rd → serving.stage ≠ .started → serving.reqNode ∈ a.copyset
  emptied : serving.stage.emptied = true → a.copyset = ∅
  locked : ∀ node, node ≠ 0 → serving.stage.locks node → (a.app node).holdsLock = false
  remaining : ∀ nodes, serving.rq = .wr → serving.stage.remaining? = some nodes →
    ∀ node, tracked node → ¬a.Clean node → node = serving.reqNode ∨ node ∈ nodes
  settled : serving.stage.settled = true → ∀ node, tracked node → ¬a.Writes node

/-- Exclusive access of the tracked nodes. -/
structure Exclusive (tracked : NodeId → Prop) (a : State Contents) : Prop where
  denied : ∀ node, tracked node → (a.app node).requests = true → (a.prot node).writable = false
  serving : ∀ serving, a.srv = some serving → ServingOk tracked a serving
  holder : ∀ node, tracked node → ¬a.Clean node → node = a.owner ∨ node ∈ a.copyset ∨
    ∃ serving, a.srv = some serving ∧ serving.upgrades node
  writer : ∀ node, tracked node → a.Writes node → a.owner = node ∧ ∀ reader,
    reader ∈ a.copyset → ∃ serving, a.srv = some serving ∧ serving.adds reader
  exclusive : ∀ node other, tracked node → tracked other → a.Writes node → other ≠ node →
    a.Clean other

namespace Exclusive

variable {tracked : NodeId → Prop} {a b : State Contents}

/-- A change of one node that gives it nothing new keeps the invariant. -/
theorem touch (inv : Exclusive tracked a) (node : NodeId) (sameSrv : b.srv = a.srv)
    (sameCopyset : b.copyset = a.copyset) (sameOwner : b.owner = a.owner)
    (sameProt : ∀ other, other ≠ node → b.prot other = a.prot other)
    (sameApp : ∀ other, other ≠ node → b.app other = a.app other)
    (notAsking : ∀ rq, a.app node ≠ .asking rq)
    (denied : tracked node → (b.app node).requests = true → (b.prot node).writable = false)
    (clean : a.Clean node → b.Clean node)
    (entitled : (b.app node).entitled (b.prot node) = true →
      (a.app node).entitled (a.prot node) = true)
    (lock : node ≠ 0 → ∀ serving, a.srv = some serving → serving.stage.locks node →
      (b.app node).holdsLock = false) : Exclusive tracked b := by
  have cleanAll : ∀ other, a.Clean other → b.Clean other := by
    intro other
    by_cases same : other = node
    · subst same
      exact clean
    · simp only [State.Clean, sameProt other same, sameApp other same]
      exact id
  have writesAll : ∀ other, b.Writes other → a.Writes other := by
    intro other
    simp only [State.Writes, sameSrv]
    refine Or.imp_left ?_
    by_cases same : other = node
    · subst same
      exact entitled
    · rw [sameProt other same, sameApp other same]
      exact id
  constructor
  case denied =>
    intro other isTracked requests
    by_cases same : other = node
    · subst same
      exact denied isTracked requests
    · rw [sameProt other same]
      rw [sameApp other same] at requests
      exact inv.denied other isTracked requests
  case serving =>
    intro serving present
    rw [sameSrv] at present
    have old := inv.serving serving present
    have otherNode : serving.reqNode ≠ node := by
      intro same
      exact notAsking serving.rq (same ▸ old.asking)
    refine ⟨old.live, ?_, old.forward, ?_, ?_, ?_, ?_, ?_, ?_⟩
    · rw [sameApp _ otherNode]
      exact old.asking
    · rw [sameOwner]
      exact old.ownerRead
    · rw [sameCopyset]
      exact old.listed
    · rw [sameCopyset]
      exact old.emptied
    · intro other worker locks
      by_cases same : other = node
      · subst same
        exact lock worker serving present locks
      · rw [sameApp other same]
        exact old.locked other worker locks
    · intro nodes write rest other isTracked dirty
      exact old.remaining nodes write rest other isTracked (dirty ∘ cleanAll other)
    · intro settled other isTracked writes
      exact old.settled settled other isTracked (writesAll other writes)
  case holder =>
    intro other isTracked dirty
    rw [sameOwner, sameCopyset, sameSrv]
    exact inv.holder other isTracked (dirty ∘ cleanAll other)
  case writer =>
    intro other isTracked writes
    rw [sameOwner, sameCopyset, sameSrv]
    exact inv.writer other isTracked (writesAll other writes)
  case exclusive =>
    intro other third isTracked thirdTracked writes different
    exact cleanAll third (inv.exclusive other third isTracked thirdTracked
      (writesAll other writes) different)

/-- A request that moves on without touching any node or the directory. -/
theorem restage {serving : Serving Contents} {stage : Stage Contents} (inv : Exclusive tracked a)
    (present : a.srv = some serving) (forward : stage ≠ .backing)
    (ownerRead : ∀ owner, stage.owner? = some owner → owner = a.owner)
    (listed : serving.rq = .rd → stage ≠ .started → serving.stage ≠ .started)
    (emptied : stage.emptied = true → serving.stage.emptied = true)
    (locked : ∀ node, stage.locks node → serving.stage.locks node)
    (remaining : ∀ nodes, serving.rq = .wr → stage.remaining? = some nodes →
      ∃ before, serving.stage.remaining? = some before ∧ before ⊆ nodes)
    (still : serving.rq = .wr → serving.stage.remaining?.isSome = true →
      stage.remaining?.isSome = true)
    (settled : stage.settled = true → serving.stage.settled = true)
    (early : serving.stage.early = true → stage.early = true)
    (after : ∀ node, ¬({ serving with stage := stage }).commits node) :
    Exclusive tracked (a.serve (some { serving with stage := stage })) := by
  have old := inv.serving serving present
  have writes : ∀ node, (a.serve (some { serving with stage := stage })).Writes node →
      a.Writes node := by
    rintro node (entitled | ⟨_, same, commits⟩)
    · exact .inl entitled
    · obtain rfl := Option.some.inj same
      exact absurd commits (after node)
  constructor
  case denied => exact inv.denied
  case serving =>
    intro _ same
    cases same
    refine ⟨old.live, old.asking, forward, ownerRead, fun read moved => old.listed read
      (listed read moved), fun empty => old.emptied (emptied empty), fun node worker locks =>
      old.locked node worker (locked node locks), ?_, fun settles node isTracked nodeWrites =>
      old.settled (settled settles) node isTracked (writes node nodeWrites)⟩
    intro nodes write rest node isTracked dirty
    obtain ⟨nodesBefore, restBefore, subset⟩ := remaining nodes write rest
    exact (old.remaining nodesBefore write restBefore node isTracked dirty).imp_right
      fun member => subset member
  case holder =>
    intro node isTracked dirty
    rcases inv.holder node isTracked dirty with owner | copyset | ⟨other, same, upgrades⟩
    · exact .inl owner
    · exact .inr (.inl copyset)
    · obtain rfl : serving = other := Option.some.inj (present.symm.trans same)
      exact .inr (.inr ⟨_, rfl, upgrades.1, upgrades.2.1, still upgrades.1 upgrades.2.2⟩)
  case writer =>
    intro node isTracked nodeWrites
    obtain ⟨owner, adding⟩ := inv.writer node isTracked (writes node nodeWrites)
    refine ⟨owner, fun reader member => ?_⟩
    obtain ⟨other, same, adds⟩ := adding reader member
    obtain rfl : serving = other := Option.some.inj (present.symm.trans same)
    exact ⟨_, rfl, adds.1, adds.2.1, early adds.2.2⟩
  case exclusive =>
    intro node other isTracked otherTracked nodeWrites different
    exact inv.exclusive node other isTracked otherTracked (writes node nodeWrites) different

/-- Someone who is entitled to write is not clean. -/
theorem not_clean_of_entitled {node : NodeId}
    (entitled : (a.app node).entitled (a.prot node) = true) : ¬a.Clean node := by
  simp [State.Clean, Phase.not_clean_of_entitled entitled]

variable {reqNode node owner : NodeId} {rq : Rq} {live dropped : Bool} {nodes : List NodeId}
variable {page : Option Contents} {stage : Stage Contents}

theorem start (inv : Exclusive tracked a) (idle : a.srv = none)
    (asked : a.app reqNode = .asking rq) :
    Exclusive tracked (a.serve (some ⟨rq, reqNode, true, .started⟩)) := by
  have writes : ∀ node, (a.serve (some ⟨rq, reqNode, true, .started⟩)).Writes node →
      a.Writes node := by
    rintro node (entitled | ⟨_, ⟨⟩, commits⟩)
    · exact .inl entitled
    · cases rq <;> exact commits.elim
  constructor
  case denied => exact inv.denied
  case serving =>
    intro _ same
    cases same
    constructor <;> simp [Stage.owner?, Stage.emptied, Stage.locks, Stage.remaining?,
      Stage.settled, State.serve, asked]
  case holder =>
    intro node isTracked dirty
    have old := inv.holder node isTracked dirty
    simp only [idle, reduceCtorEq, false_and, exists_false, or_false] at old
    exact old.imp_right .inl
  case writer =>
    intro node isTracked nodeWrites
    obtain ⟨same, adding⟩ := inv.writer node isTracked (writes node nodeWrites)
    refine ⟨same, fun reader member => ?_⟩
    simpa [idle] using adding reader member
  case exclusive =>
    intro node other isTracked otherTracked nodeWrites different
    exact inv.exclusive node other isTracked otherTracked (writes node nodeWrites) different

theorem list (inv : Exclusive tracked a)
    (present : a.srv = some ⟨.rd, reqNode, live, .started⟩) :
    Exclusive tracked ({ a with copyset := a.copyset.insert reqNode }.serve
      (some ⟨.rd, reqNode, live, .listed⟩)) := by
  have old := inv.serving _ present
  have writes : ∀ node, ({ a with copyset := a.copyset.insert reqNode }.serve
      (some ⟨.rd, reqNode, live, .listed⟩)).Writes node → a.Writes node := by
    rintro node (entitled | ⟨_, ⟨⟩, commits⟩)
    · exact .inl entitled
    · exact commits.elim
  constructor
  case denied => exact inv.denied
  case serving =>
    intro _ same
    cases same
    refine ⟨old.live, old.asking, ?_, ?_, ?_, ?_, ?_, ?_, ?_⟩ <;>
      simp [Stage.owner?, Stage.emptied, Stage.locks, Stage.settled, State.serve]
  case holder =>
    intro node isTracked dirty
    rcases inv.holder node isTracked dirty with same | member | ⟨_, same, upgrades⟩
    · exact .inl same
    · exact .inr (.inl (NodeSet.mem_insert.mpr (.inr member)))
    · obtain rfl := Option.some.inj (present.symm.trans same)
      cases upgrades.1
  case writer =>
    intro node isTracked nodeWrites
    obtain ⟨same, adding⟩ := inv.writer node isTracked (writes node nodeWrites)
    refine ⟨same, fun reader member => ?_⟩
    rcases NodeSet.mem_insert.mp member with rfl | member
    · exact ⟨_, rfl, rfl, rfl, rfl⟩
    · obtain ⟨_, same, adds⟩ := adding reader member
      obtain rfl := Option.some.inj (present.symm.trans same)
      cases adds.2.2
  case exclusive =>
    intro node other isTracked otherTracked nodeWrites different
    exact inv.exclusive node other isTracked otherTracked (writes node nodeWrites) different

/-- After the requester has been erased from the copyset, whoever holds something
is the owner, the requester or still recorded. -/
theorem erased (inv : Exclusive tracked a)
    (present : a.srv = some ⟨.wr, reqNode, live, .erasing owner⟩) (isTracked : tracked node)
    (dirty : ¬a.Clean node) :
    node = a.owner ∨ node = reqNode ∨ node ∈ a.copyset.erase reqNode := by
  rcases inv.holder node isTracked dirty with same | member | ⟨_, same, upgrades⟩
  · exact .inl same
  · by_cases same : node = reqNode
    · exact .inr (.inl same)
    · exact .inr (.inr (NodeSet.mem_erase.mpr ⟨same, member⟩))
  · obtain rfl := Option.some.inj (present.symm.trans same)
    cases upgrades.2.2

/-- While a write request is served, nobody who may write has recorded readers. -/
theorem no_readers (inv : Exclusive tracked a)
    (present : a.srv = some ⟨.wr, reqNode, live, stage⟩) (isTracked : tracked node)
    (writes : a.Writes node) (reader : NodeId) : reader ∉ a.copyset := by
  intro member
  obtain ⟨_, same, adds⟩ := (inv.writer node isTracked writes).2 reader member
  obtain rfl := Option.some.inj (present.symm.trans same)
  cases adds.1

/-- While a write request is served, only the owner may be writing, and it is
not the requester. -/
theorem owner_of_entitled (inv : Exclusive tracked a)
    (present : a.srv = some ⟨.wr, reqNode, live, stage⟩) (isTracked : tracked node)
    (entitled : (a.app node).entitled (a.prot node) = true) :
    a.owner = node ∧ node ≠ reqNode := by
  refine ⟨(inv.writer node isTracked (.inl entitled)).1, ?_⟩
  intro same
  subst same
  have asking : a.app node = .asking .wr := (inv.serving _ present).asking
  have denied := inv.denied node isTracked (by simp [asking, Phase.requests])
  simp [asking, Phase.entitled, denied] at entitled

theorem eraseFetch (inv : Exclusive tracked a)
    (present : a.srv = some ⟨.wr, reqNode, live, .erasing owner⟩) :
    Exclusive tracked ({ a with copyset := a.copyset.erase reqNode }.serve
      (some ⟨.wr, reqNode, live, .fetching owner (a.copyset.erase reqNode).elems .pending⟩)) := by
  have old := inv.serving _ present
  have ownerRead : owner = a.owner := old.ownerRead owner rfl
  have writes : ∀ node, ({ a with copyset := a.copyset.erase reqNode }.serve
      (some ⟨.wr, reqNode, live, .fetching owner (a.copyset.erase reqNode).elems
        .pending⟩)).Writes node → a.Writes node := by
    rintro node (entitled | ⟨_, ⟨⟩, commits⟩)
    · exact .inl entitled
    · exact commits.elim
  constructor
  case denied => exact inv.denied
  case serving =>
    intro _ same
    cases same
    refine ⟨old.live, old.asking, by simp, ?_, by simp, by simp, by simp, ?_, by simp⟩
    · intro _ same
      cases same
      exact ownerRead
    · rintro _ _ ⟨⟩ node isTracked dirty
      rcases inv.erased present isTracked dirty with same | same | member
      · exact .inr (by simp [same, ownerRead])
      · exact .inl same
      · exact .inr (List.mem_cons_of_mem _ member)
  case holder =>
    intro node isTracked dirty
    rcases inv.erased present isTracked dirty with same | rfl | member
    · exact .inl same
    · exact .inr (.inr ⟨_, rfl, rfl, rfl, rfl⟩)
    · exact .inr (.inl member)
  case writer =>
    intro node isTracked nodeWrites
    have before := writes node nodeWrites
    exact ⟨(inv.writer node isTracked before).1, fun reader member =>
      absurd (NodeSet.mem_erase.mp member).2 (inv.no_readers present isTracked before reader)⟩
  case exclusive =>
    intro node other isTracked otherTracked nodeWrites different
    exact inv.exclusive node other isTracked otherTracked (writes node nodeWrites) different

theorem eraseKeep (inv : Exclusive tracked a)
    (present : a.srv = some ⟨.wr, reqNode, live, .erasing owner⟩) (same : owner = reqNode) :
    Exclusive tracked ({ a with copyset := a.copyset.erase reqNode }.serve
      (some ⟨.wr, reqNode, live, .invalidating none (a.copyset.erase reqNode).elems⟩)) := by
  have old := inv.serving _ present
  have ownerRead : owner = a.owner := old.ownerRead owner rfl
  -- the owner is asking, so nobody may write
  have noWriter : ∀ node, tracked node → ¬({ a with copyset := a.copyset.erase reqNode }.serve
      (some ⟨.wr, reqNode, live, .invalidating none (a.copyset.erase reqNode).elems⟩)).Writes
        node := by
    rintro node isTracked (entitled | ⟨_, ⟨⟩, commits⟩)
    · obtain ⟨ownerNode, different⟩ := inv.owner_of_entitled present isTracked entitled
      exact different (ownerNode.symm.trans (ownerRead.symm.trans same))
    · exact commits.elim
  constructor
  case denied => exact inv.denied
  case serving =>
    intro _ same
    cases same
    refine ⟨old.live, old.asking, by simp, by simp, by simp, by simp, by simp, ?_,
      fun _ => noWriter⟩
    rintro _ _ ⟨⟩ node isTracked dirty
    rcases inv.erased present isTracked dirty with sameOwner | sameReq | member
    · exact .inl (sameOwner.trans (ownerRead.symm.trans same))
    · exact .inl sameReq
    · exact .inr member
  case holder =>
    intro node isTracked dirty
    rcases inv.erased present isTracked dirty with sameOwner | rfl | member
    · exact .inl sameOwner
    · exact .inr (.inr ⟨_, rfl, rfl, rfl, rfl⟩)
    · exact .inr (.inl member)
  case writer => exact fun node isTracked nodeWrites => absurd nodeWrites (noWriter node isTracked)
  case exclusive =>
    exact fun node other isTracked _ nodeWrites => absurd nodeWrites (noWriter node isTracked)

/-- A node that holds no page lock has no grant. -/
theorem not_installing_of_unlocked {phase : Phase Contents} (unlocked : phase.holdsLock = false) :
    phase.installing = false ∧ ∀ page, phase ≠ .granted .wr page := by
  cases phase <;> simp_all [Phase.holdsLock, Phase.installing]

theorem fetchOpen (inv : Exclusive tracked a)
    (present : a.srv = some ⟨rq, reqNode, live, .fetching owner nodes .pending⟩)
    (free : owner ≠ 0 → (a.app owner).holdsLock = false) :
    Exclusive tracked ((a.setProt owner .rd).serve
      (some ⟨rq, reqNode, live, .fetching owner nodes .opened⟩)) := by
  have old := inv.serving _ present
  have ownerRead : owner = a.owner := old.ownerRead owner rfl
  have sameClean : ∀ node, node ≠ owner → (((a.setProt owner .rd).serve
      (some ⟨rq, reqNode, live, .fetching owner nodes .opened⟩)).Clean node ↔ a.Clean node) := by
    intro node different
    simp [State.Clean, State.setProt, State.serve, different]
  have writes : ∀ node, ((a.setProt owner .rd).serve
      (some ⟨rq, reqNode, live, .fetching owner nodes .opened⟩)).Writes node → a.Writes node := by
    rintro node (entitled | ⟨_, ⟨⟩, commits⟩)
    · refine .inl ?_
      by_cases same : node = owner
      · subst same
        simp only [State.serve, State.setProt, Function.update_self] at entitled
        exact Phase.entitled_of_readOnly entitled
      · simpa [State.serve, State.setProt, same] using entitled
    · cases rq <;> exact commits.elim
  constructor
  case denied =>
    intro node isTracked requests
    by_cases same : node = owner
    · simp [State.serve, State.setProt, same, AccessType.writable]
    · simpa [State.serve, State.setProt, same] using inv.denied node isTracked requests
  case serving =>
    intro _ same
    cases same
    refine ⟨old.live, old.asking, by simp, ?_, fun read _ => old.listed read (by simp), by simp, ?_,
      ?_, by simp⟩
    · intro _ same
      cases same
      exact ownerRead
    · intro _ worker same
      subst same
      exact free worker
    · rintro _ write ⟨⟩ node isTracked dirty
      by_cases same : node = owner
      · exact .inr (by simp [same])
      · exact old.remaining _ write rfl node isTracked (mt (sameClean node same).mpr dirty)
  case holder =>
    intro node isTracked dirty
    by_cases same : node = owner
    · exact .inl (same.trans ownerRead)
    · rcases inv.holder node isTracked (mt (sameClean node same).mpr dirty) with
        sameOwner | member | ⟨_, sameSrv, upgrades⟩
      · exact .inl sameOwner
      · exact .inr (.inl member)
      · obtain rfl := Option.some.inj (present.symm.trans sameSrv)
        exact .inr (.inr ⟨_, rfl, upgrades.1, upgrades.2.1, rfl⟩)
  case writer =>
    intro node isTracked nodeWrites
    obtain ⟨sameOwner, adding⟩ := inv.writer node isTracked (writes node nodeWrites)
    refine ⟨sameOwner, fun reader member => ?_⟩
    obtain ⟨_, same, adds⟩ := adding reader member
    obtain rfl := Option.some.inj (present.symm.trans same)
    exact ⟨_, rfl, adds.1, adds.2.1, rfl⟩
  case exclusive =>
    intro node other isTracked otherTracked nodeWrites different
    have before := writes node nodeWrites
    have sameOwner := (inv.writer node isTracked before).1
    refine (sameClean other ?_).mpr
      (inv.exclusive node other isTracked otherTracked before different)
    exact fun same => different (same.trans (ownerRead.trans sameOwner))

/-- What a fetch or an invalidation may find on a tracked node whose access it
reduces: no write grant, and no grant at all when it leaves no access. -/
def Revocable (a : State Contents) (node : NodeId) (access : AccessType) : Prop :=
  (∀ page, a.app node ≠ .granted .wr page) ∧
    (access = .none → (a.app node).installing = false)

theorem fetchClose (inv : Exclusive tracked a)
    (present : a.srv = some ⟨rq, reqNode, live, .fetching owner nodes (.copied page)⟩)
    (revocable : tracked owner → Revocable a owner (fetchAccess rq)) :
    Exclusive tracked ((a.setProt owner (fetchAccess rq)).serve
      (some ⟨rq, reqNode, live, .fetching owner nodes (.closed page)⟩)) := by
  have old := inv.serving _ present
  have ownerRead : owner = a.owner := old.ownerRead owner rfl
  have denied : (fetchAccess rq).writable = false := by cases rq <;> rfl
  have sameClean : ∀ node, node ≠ owner → (((a.setProt owner (fetchAccess rq)).serve
      (some ⟨rq, reqNode, live, .fetching owner nodes (.closed page)⟩)).Clean node ↔
        a.Clean node) := by
    intro node different
    simp [State.Clean, State.setProt, State.serve, different]
  have noWriter : ∀ node, tracked node → ¬((a.setProt owner (fetchAccess rq)).serve
      (some ⟨rq, reqNode, live, .fetching owner nodes (.closed page)⟩)).Writes node := by
    rintro node isTracked (entitled | ⟨_, ⟨⟩, commits⟩)
    · by_cases same : node = owner
      · subst same
        simp only [State.serve, State.setProt, Function.update_self] at entitled
        obtain ⟨grant, granted⟩ := Phase.granted_of_entitled denied entitled
        exact (revocable isTracked).1 grant granted
      · have before : a.Writes node := .inl (by
          simpa [State.serve, State.setProt, same] using entitled)
        exact same ((inv.writer node isTracked before).1.symm.trans ownerRead.symm)
    · cases rq <;> exact commits.elim
  constructor
  case denied =>
    intro node isTracked requests
    by_cases same : node = owner
    · simp [State.serve, State.setProt, same, denied]
    · simpa [State.serve, State.setProt, same] using inv.denied node isTracked requests
  case serving =>
    intro _ same
    cases same
    refine ⟨old.live, old.asking, by simp, ?_, fun read _ => old.listed read (by simp), by simp, by simp,
      ?_, fun _ => noWriter⟩
    · intro _ same
      cases same
      exact ownerRead
    · rintro _ write ⟨⟩ node isTracked dirty
      obtain rfl : rq = .wr := write
      by_cases same : node = owner
      · -- the old owner is left with nothing
        subst same
        refine absurd ?_ dirty
        simp [State.Clean, State.serve, State.setProt, Phase.clean, fetchAccess,
          AccessType.readable, (revocable isTracked).2 rfl]
      · rcases old.remaining _ rfl rfl node isTracked (mt (sameClean node same).mpr dirty) with
          sameReq | member
        · exact .inl sameReq
        · exact .inr ((List.mem_cons.mp member).resolve_left same)
  case holder =>
    intro node isTracked dirty
    by_cases same : node = owner
    · exact .inl (same.trans ownerRead)
    · rcases inv.holder node isTracked (mt (sameClean node same).mpr dirty) with
        sameOwner | member | ⟨_, sameSrv, upgrades⟩
      · exact .inl sameOwner
      · exact .inr (.inl member)
      · obtain rfl := Option.some.inj (present.symm.trans sameSrv)
        exact .inr (.inr ⟨_, rfl, upgrades.1, upgrades.2.1, rfl⟩)
  case writer => exact fun node isTracked nodeWrites => absurd nodeWrites (noWriter node isTracked)
  case exclusive =>
    exact fun node other isTracked _ nodeWrites => absurd nodeWrites (noWriter node isTracked)

theorem dropCopy (inv : Exclusive tracked a)
    (present : a.srv = some ⟨.wr, reqNode, live, .calling page nodes node false⟩)
    (revocable : tracked node → Revocable a node .none) :
    Exclusive tracked ((a.setProt node .none).serve
      (some ⟨.wr, reqNode, live, .calling page nodes node true⟩)) := by
  have old := inv.serving _ present
  have dropped : tracked node → ((a.setProt node .none).serve
      (some ⟨.wr, reqNode, live, .calling page nodes node true⟩)).Clean node := by
    intro isTracked
    simp [State.Clean, State.serve, State.setProt, Phase.clean, AccessType.readable,
      (revocable isTracked).2 rfl]
  have clean : ∀ other, tracked other → a.Clean other → ((a.setProt node .none).serve
      (some ⟨.wr, reqNode, live, .calling page nodes node true⟩)).Clean other := by
    intro other isTracked before
    by_cases same : other = node
    · subst same
      exact dropped isTracked
    · simpa [State.Clean, State.setProt, State.serve, same] using before
  have noWriter : ∀ other, tracked other → ¬((a.setProt node .none).serve
      (some ⟨.wr, reqNode, live, .calling page nodes node true⟩)).Writes other := by
    rintro other isTracked (entitled | ⟨_, ⟨⟩, commits⟩)
    · refine old.settled rfl other isTracked (.inl ?_)
      by_cases same : other = node
      · subst same
        simp only [State.serve, State.setProt, Function.update_self] at entitled
        obtain ⟨grant, granted⟩ := Phase.granted_of_entitled rfl entitled
        rw [granted]
        rfl
      · simpa [State.serve, State.setProt, same] using entitled
    · exact commits.elim
  constructor
  case denied =>
    intro other isTracked requests
    by_cases same : other = node
    · simp [State.serve, State.setProt, same, AccessType.writable]
    · simpa [State.serve, State.setProt, same] using inv.denied other isTracked requests
  case serving =>
    intro _ same
    cases same
    refine ⟨old.live, old.asking, by simp, by simp, by simp, by simp, by simp, ?_,
      fun _ => noWriter⟩
    rintro _ _ ⟨⟩ other isTracked dirty
    by_cases same : other = node
    · subst same
      exact absurd (dropped isTracked) dirty
    · rcases old.remaining _ rfl rfl other isTracked (dirty ∘ clean other isTracked) with
        sameReq | member
      · exact .inl sameReq
      · exact .inr ((List.mem_cons.mp member).resolve_left same)
  case holder =>
    intro other isTracked dirty
    rcases inv.holder other isTracked (dirty ∘ clean other isTracked) with
      sameOwner | member | ⟨_, sameSrv, upgrades⟩
    · exact .inl sameOwner
    · exact .inr (.inl member)
    · obtain rfl := Option.some.inj (present.symm.trans sameSrv)
      exact .inr (.inr ⟨_, rfl, upgrades.1, upgrades.2.1, rfl⟩)
  case writer => exact fun other isTracked writes => absurd writes (noWriter other isTracked)
  case exclusive =>
    exact fun other _ isTracked _ writes => absurd writes (noWriter other isTracked)

/-- Once all nodes have been called, only the requester can hold anything. -/
theorem alone {serving : Serving Contents} (inv : Exclusive tracked a)
    (present : a.srv = some serving) (write : serving.rq = .wr)
    (none : serving.stage.remaining? = some []) (isTracked : tracked node)
    (dirty : ¬a.Clean node) : node = serving.reqNode :=
  ((inv.serving _ present).remaining [] write none node isTracked dirty).resolve_right (by simp)

theorem clear (inv : Exclusive tracked a)
    (present : a.srv = some ⟨.wr, reqNode, live, .sent page⟩) :
    Exclusive tracked ({ a with copyset := ∅ }.serve
      (some ⟨.wr, reqNode, live, .cleared page⟩)) := by
  have old := inv.serving _ present
  have noWriter : ∀ node, tracked node → ¬({ a with copyset := ∅ }.serve
      (some ⟨.wr, reqNode, live, .cleared page⟩)).Writes node := by
    rintro node isTracked (entitled | ⟨_, ⟨⟩, commits⟩)
    · exact old.settled rfl node isTracked (.inl entitled)
    · exact commits.elim
  have onlyRequester : ∀ node, tracked node → ¬a.Clean node → node = reqNode :=
    fun node isTracked => inv.alone present rfl rfl isTracked
  constructor
  case denied => exact inv.denied
  case serving =>
    intro _ same
    cases same
    refine ⟨old.live, old.asking, by simp, by simp, by simp, fun _ => rfl, by simp, ?_,
      fun _ => noWriter⟩
    exact fun _ _ _ node isTracked dirty => .inl (onlyRequester node isTracked dirty)
  case holder =>
    intro node isTracked dirty
    exact .inr (.inr ⟨_, rfl, rfl, (onlyRequester node isTracked dirty).symm, rfl⟩)
  case writer => exact fun node isTracked writes => absurd writes (noWriter node isTracked)
  case exclusive => exact fun node _ isTracked _ writes => absurd writes (noWriter node isTracked)

theorem commit (inv : Exclusive tracked a)
    (present : a.srv = some ⟨.wr, reqNode, live, .cleared page⟩) :
    Exclusive tracked ({ a with owner := reqNode }.serve
      (some ⟨.wr, reqNode, live, .committed page⟩)) := by
  have old := inv.serving _ present
  have emptied : a.copyset = ∅ := old.emptied rfl
  have onlyRequester : ∀ node, tracked node → ¬a.Clean node → node = reqNode :=
    fun node isTracked => inv.alone present rfl rfl isTracked
  have onlyWriter : ∀ node, tracked node → ({ a with owner := reqNode }.serve
      (some ⟨.wr, reqNode, live, .committed page⟩)).Writes node → node = reqNode := by
    rintro node isTracked (entitled | ⟨_, ⟨⟩, commits⟩)
    · exact onlyRequester node isTracked (not_clean_of_entitled entitled)
    · exact commits.symm
  constructor
  case denied => exact inv.denied
  case serving =>
    intro _ same
    cases same
    refine ⟨old.live, old.asking, by simp, by simp, by simp, fun _ => emptied, by simp, ?_, by simp⟩
    exact fun _ _ _ node isTracked dirty => .inl (onlyRequester node isTracked dirty)
  case holder => exact fun node isTracked dirty => .inl (onlyRequester node isTracked dirty)
  case writer =>
    intro node isTracked writes
    refine ⟨(onlyWriter node isTracked writes).symm, fun reader member => ?_⟩
    simp [State.serve, emptied] at member
  case exclusive =>
    intro node other isTracked otherTracked writes different
    by_contra dirty
    exact different ((onlyRequester other otherTracked dirty).trans
      (onlyWriter node isTracked writes).symm)

theorem grantRd (inv : Exclusive tracked a)
    (present : a.srv = some ⟨.rd, reqNode, live, .fetched page⟩) :
    Exclusive tracked ((a.serve none).setPhase reqNode (.granted .rd page)) := by
  have old := inv.serving _ present
  have noWriter : ∀ node, tracked node →
      ¬((a.serve none).setPhase reqNode (.granted .rd page)).Writes node := by
    rintro node isTracked (entitled | ⟨_, ⟨⟩, _⟩)
    by_cases same : node = reqNode
    · subst same
      have denied := inv.denied node isTracked (by
        have asking : a.app node = .asking .rd := old.asking
        simp [asking, Phase.requests])
      simp [State.serve, State.setPhase, Phase.entitled, denied] at entitled
    · exact old.settled rfl node isTracked (.inl (by
        simpa [State.serve, State.setPhase, same] using entitled))
  constructor
  case denied =>
    intro node isTracked requests
    by_cases same : node = reqNode
    · simp [State.serve, State.setPhase, same, Phase.requests] at requests
    · exact inv.denied node isTracked (by
        simpa [State.serve, State.setPhase, same] using requests)
  case serving => simp
  case holder =>
    intro node isTracked dirty
    by_cases same : node = reqNode
    · subst same
      exact .inr (.inl (old.listed rfl (by simp)))
    · have before : ¬a.Clean node := by
        simpa [State.Clean, State.serve, State.setPhase, same] using dirty
      rcases inv.holder node isTracked before with sameOwner | member | ⟨_, sameSrv, upgrades⟩
      · exact .inl sameOwner
      · exact .inr (.inl member)
      · obtain rfl := Option.some.inj (present.symm.trans sameSrv)
        cases upgrades.1
  case writer => exact fun node isTracked writes => absurd writes (noWriter node isTracked)
  case exclusive => exact fun node _ isTracked _ writes => absurd writes (noWriter node isTracked)

theorem grantWr (inv : Exclusive tracked a)
    (present : a.srv = some ⟨.wr, reqNode, live, .committed page⟩) :
    Exclusive tracked ((a.serve none).setPhase reqNode (.granted .wr page)) := by
  have old := inv.serving _ present
  have emptied : a.copyset = ∅ := old.emptied rfl
  have onlyRequester : ∀ node, tracked node → ¬a.Clean node → node = reqNode :=
    fun node isTracked => inv.alone present rfl rfl isTracked
  have others : ∀ node, tracked node → node ≠ reqNode →
      ((a.serve none).setPhase reqNode (.granted .wr page)).Clean node := by
    intro node isTracked different
    by_contra dirty
    refine different (onlyRequester node isTracked ?_)
    simpa [State.Clean, State.serve, State.setPhase, different] using dirty
  have onlyWriter : ∀ node, tracked node →
      ((a.serve none).setPhase reqNode (.granted .wr page)).Writes node → node = reqNode := by
    rintro node isTracked (entitled | ⟨_, ⟨⟩, _⟩)
    by_contra different
    exact not_clean_of_entitled entitled (others node isTracked different)
  have ownerNode : ∀ node, tracked node → node = reqNode → a.owner = node := by
    intro node isTracked same
    subst same
    exact (inv.writer node isTracked (.inr ⟨_, present, rfl⟩)).1
  constructor
  case denied =>
    intro node isTracked requests
    by_cases same : node = reqNode
    · simp [State.serve, State.setPhase, same, Phase.requests] at requests
    · exact inv.denied node isTracked (by
        simpa [State.serve, State.setPhase, same] using requests)
  case serving => simp
  case holder =>
    intro node isTracked dirty
    have same : node = reqNode := by
      by_contra different
      exact dirty (others node isTracked different)
    exact .inl (ownerNode node isTracked same).symm
  case writer =>
    intro node isTracked writes
    refine ⟨ownerNode node isTracked (onlyWriter node isTracked writes), fun reader member => ?_⟩
    simp [State.serve, State.setPhase, emptied] at member
  case exclusive =>
    intro node other isTracked otherTracked writes different
    exact others other otherTracked fun same =>
      different (same.trans (onlyWriter node isTracked writes).symm)

theorem initial (zero : Contents) : Exclusive tracked (State.initial zero) where
  denied := by simp [State.initial, AccessType.writable]
  serving := by simp [State.initial]
  holder := by
    intro node _ dirty
    simp [State.Clean, State.initial, Phase.clean, Phase.installing, AccessType.readable] at dirty
  writer := by
    intro node _ writes
    simp [State.Writes, State.initial, Phase.entitled, AccessType.writable] at writes
  exclusive := by simp [State.Clean, State.initial, Phase.clean, Phase.installing,
    AccessType.readable]

/-- Grants on the manager are left alone; workers protect theirs by their page
lock. -/
def Steady (regime : Regime Contents) (tracked : NodeId → Prop) : Prop :=
  ∀ {a access}, tracked 0 → regime.revokes a 0 access → Revocable a 0 access

theorem Steady.revocable {regime : Regime Contents} {access : AccessType}
    (steady : Steady regime tracked) (unlocked : node ≠ 0 → (a.app node).holdsLock = false)
    (permitted : regime.revokes a node access) (isTracked : tracked node) :
    Revocable a node access := by
  by_cases manager : node = 0
  · subst manager
    exact steady isTracked permitted
  · have free := not_installing_of_unlocked (unlocked manager)
    exact ⟨free.2, fun _ => free.1⟩

/-- Contents do not matter for exclusion. -/
theorem setBytes (inv : Exclusive tracked a) (bytes : NodeId → Contents) (current : Contents) :
    Exclusive tracked { a with bytes := bytes, current := current } where
  denied := inv.denied
  holder := inv.holder
  writer := inv.writer
  exclusive := inv.exclusive
  serving := fun serving present =>
    have old := inv.serving serving present
    ⟨old.live, old.asking, old.forward, old.ownerRead, old.listed, old.emptied, old.locked,
      old.remaining, old.settled⟩

/-- A step of an application thread that brings it from `a.app node` to `phase`
and its access to `access`. -/
theorem step_app (inv : Exclusive tracked a) {phase : Phase Contents} {access : AccessType}
    (node : NodeId) (sameSrv : b.srv = a.srv) (sameCopyset : b.copyset = a.copyset)
    (sameOwner : b.owner = a.owner) (prot : b.prot = Function.update a.prot node access)
    (app : b.app = Function.update a.app node phase) (notAsking : ∀ rq, a.app node ≠ .asking rq)
    (denied : tracked node → phase.requests = true → access.writable = false)
    (clean : (a.app node).clean (a.prot node) = true → phase.clean access = true)
    (entitled : phase.entitled access = true → (a.app node).entitled (a.prot node) = true)
    (lock : node ≠ 0 → phase.holdsLock = true →
      (a.app node).holdsLock = true ∨ ¬a.FetchHolds node) : Exclusive tracked b := by
  refine inv.touch node sameSrv sameCopyset sameOwner ?_ ?_ notAsking ?_ ?_ ?_ ?_
  · simp +contextual [prot]
  · simp +contextual [app]
  · simpa [prot, app] using denied
  · simpa [State.Clean, prot, app] using clean
  · simpa [prot, app] using entitled
  · intro worker serving present locks
    by_contra held
    rw [Bool.not_eq_false] at held
    rcases lock worker (by simpa [app] using held) with before | free
    · simp [(inv.serving serving present).locked node worker locks] at before
    · exact free ⟨serving, present, locks⟩

/-- A step of an application thread that leaves its access. -/
theorem step_phase (inv : Exclusive tracked a) {phase : Phase Contents} (node : NodeId)
    (notAsking : ∀ rq, a.app node ≠ .asking rq)
    (denied : tracked node → phase.requests = true → (a.prot node).writable = false)
    (installing : phase.installing = (a.app node).installing)
    (entitled : phase.entitled (a.prot node) = true → (a.app node).entitled (a.prot node) = true)
    (lock : node ≠ 0 → phase.holdsLock = true →
      (a.app node).holdsLock = true ∨ ¬a.FetchHolds node) :
    Exclusive tracked (a.setPhase node phase) :=
  inv.step_app node rfl rfl rfl (by simp [State.setPhase]) rfl notAsking denied
    (by simp [Phase.clean, installing]) entitled lock

/-- Every step of a run without failures keeps the invariant. -/
theorem step {regime : Regime Contents} (reliable : ¬regime.lossy)
    (steady : Steady regime tracked) (inv : Exclusive tracked a) (taken : Step regime a b) :
    Exclusive tracked b := by
  have denied : ∀ {node phase}, a.app node = phase → phase.requests = true → tracked node →
      (a.prot node).writable = false := by
    intro node _ rfl requests isTracked
    exact inv.denied node isTracked requests
  cases taken with
  | @fault node rq permitted outside faults =>
      have readOnly := Rq.not_writable_of_faults faults
      exact inv.step_phase node (by simp [outside]) (fun _ _ => readOnly)
        (by simp [outside, Phase.installing]) (by simp [Phase.entitled, readOnly])
        (by simp [Phase.holdsLock])
  | @lock node rq waiting free =>
      exact inv.step_phase node (by simp [waiting])
        (fun isTracked _ => denied waiting rfl isTracked)
        (by simp [waiting, Phase.installing]) (by simp [waiting, Phase.entitled])
        (fun worker _ => .inr (free worker))
  | @unlock node rq ready =>
      exact inv.step_phase node (by simp [ready]) (fun isTracked _ => denied ready rfl isTracked)
        (by simp [ready, Phase.installing]) (by simp [ready, Phase.entitled])
        (by simp [Phase.holdsLock])
  | @ask node rq ready =>
      exact inv.step_phase node (by simp [ready]) (fun isTracked _ => denied ready rfl isTracked)
        (by simp [ready, Phase.installing]) (by simp [ready, Phase.entitled])
        (by simp [ready, Phase.holdsLock])
  | @openPage node rq page granted =>
      refine inv.step_app node rfl rfl rfl rfl rfl (by simp [granted])
        (by simp [Phase.requests]) (by simp [granted, Phase.clean, Phase.installing]) ?_
        (by simp [granted, Phase.holdsLock])
      cases rq <;> simp [granted, Phase.entitled]
  | @copyRd node bytes opened =>
      exact (inv.setBytes _ a.current).step_phase node (by simp [opened])
        (by simp [Phase.requests]) (by simp [opened, Phase.installing])
        (by simp [Phase.entitled]) (by simp [opened, Phase.holdsLock])
  | @copyWr node page opened =>
      exact (inv.setBytes _ a.current).step_phase node (by simp [opened])
        (by simp [Phase.requests]) (by simp [opened, Phase.installing])
        (by simp [opened, Phase.entitled]) (by simp [opened, Phase.holdsLock])
  | @close node copied =>
      exact inv.step_app node rfl rfl rfl rfl rfl (by simp [copied])
        (by simp [Phase.requests]) (by simp [copied, Phase.clean, Phase.installing])
        (by simp [Phase.entitled, AccessType.writable]) (by simp [copied, Phase.holdsLock])
  | @leave node rq closing =>
      exact inv.step_phase node (by simp [closing]) (by simp [Phase.requests])
        (by simp [closing, Phase.installing]) (by simp [closing, Phase.entitled])
        (by simp [Phase.holdsLock])
  | store change outside permitted => exact inv.setBytes _ _
  | @start rq reqNode live idle asked =>
      cases live with
      | true => exact inv.start idle asked
      | false => exact absurd asked reliable
  | list serving => exact inv.list serving
  | lookRd serving =>
      refine inv.restage serving (by simp) ?_ (by simp) (by simp) (by simp) (by simp) (by simp)
        (by simp) (fun _ => rfl) (fun _ => id)
      intro _ same
      cases same
      rfl
  | lookWr serving =>
      refine inv.restage serving (by simp) ?_ (by simp) (by simp) (fun _ => id) (by simp) (by simp)
        (by simp) (by simp)
        (fun _ => id)
      intro _ same
      cases same
      rfl
  | eraseFetch serving other => exact inv.eraseFetch serving
  | eraseKeep serving worker same => exact inv.eraseKeep serving same
  | fetchOpen serving free => exact inv.fetchOpen serving free
  | @fetchCopy rq reqNode owner live nodes serving =>
      exact inv.restage serving (by simp) (inv.serving _ serving).ownerRead (by simp) (by simp)
        (fun _ => id) (fun _ _ rest => ⟨_, rest, List.Subset.refl _⟩) (fun _ => id) (by simp) id
        (by cases rq <;> exact fun _ => id)
  | @fetchClose rq reqNode owner live nodes page serving permitted =>
      have unlocked := fun worker => (inv.serving _ serving).locked owner worker rfl
      exact inv.fetchClose serving (steady.revocable unlocked permitted)
  | takeRd serving =>
      exact inv.restage serving (by simp) (by simp) (by simp) (by simp) (by simp) (by simp)
        (by simp) (fun _ => rfl) (by simp) (fun _ => id)
  | takeWr serving =>
      exact inv.restage serving (by simp) (by simp) (by simp) (by simp) (fun _ => False.elim)
        (fun _ _ rest => ⟨_, rest, List.Subset.refl _⟩) (fun _ _ => rfl) (fun _ => rfl) (by simp)
        (fun _ => id)
  | @grantRd reqNode live page serving =>
      obtain rfl : live = true := (inv.serving _ serving).live
      exact inv.grantRd serving
  | callNode serving =>
      exact inv.restage serving (by simp) (by simp) (by simp) (by simp) (fun _ => False.elim)
        (fun _ _ rest => ⟨_, rest, List.Subset.refl _⟩) (fun _ _ => rfl) (fun _ => rfl) (by simp)
        (fun _ => id)
  | dropCopy serving free permitted => exact inv.dropCopy serving (steady.revocable free permitted)
  | acknowledge serving =>
      exact inv.restage serving (by simp) (by simp) (by simp) (by simp) (fun _ => False.elim)
        (fun _ _ rest => ⟨_, rest, List.Subset.refl _⟩) (fun _ _ => rfl) (fun _ => rfl) (by simp)
        (fun _ => id)
  | send serving =>
      exact inv.restage serving (by simp) (by simp) (by simp) (by simp) (fun _ => False.elim)
        (fun _ _ rest => ⟨_, rest, List.Subset.refl _⟩) (fun _ _ => rfl) (fun _ => rfl) (by simp)
        (fun _ => id)
  | clear serving => exact inv.clear serving
  | commit serving _ => exact inv.commit serving
  | @grantWr reqNode live page serving =>
      obtain rfl : live = true := (inv.serving _ serving).live
      exact inv.grantWr serving
  | giveUp lossy serving => exact absurd lossy reliable
  | release serving => exact absurd rfl (inv.serving _ serving).forward
  | skipNodes lossy serving => exact absurd lossy reliable
  | stray lossy reduced free => exact absurd lossy reliable
  | lose lossy _ _ => exact absurd lossy reliable

end Exclusive

end LibIvy.Protocol
