import LibIvy.Protocol.Directory

/-!
Contract: whoever has the page has what the last store left.

Owns: the invariant that relates every copy, every grant and every page that a
request carries to the current contents, in runs without failures in which the
manager does not fault.

Does not own: runs with failures; see `LibIvy.Protocol.Ownership`.
-/

namespace LibIvy.Protocol

universe u

variable {Contents : Type u}

/-- The page that a request carries; `none` inside when the requester keeps its
copy. -/
@[simp] def Stage.page? : Stage Contents → Option (Option Contents)
  | .fetching _ _ (.copied page) => some page
  | .fetching _ _ (.closed page) => some page
  | .fetched page => some page
  | .invalidating page _ => some page
  | .calling page _ _ _ => some page
  | .sent page => some page
  | .cleared page => some page
  | .committed page => some page
  | _ => none

/-- What is given to the node is current. -/
def State.Fresh (a : State Contents) (node : NodeId) (rq : Rq) (page : Option Contents) : Prop :=
  page = some a.current ∨ page = none ∧ rq = .wr ∧ a.bytes node = a.current

/-- Grant for the node, on its way or being installed. -/
def Phase.Grants (phase : Phase Contents) (rq : Rq) (page : Option Contents) : Prop :=
  phase = .granted rq page ∨ phase = .opened rq page

/-- Every copy and every page under way is current. -/
structure Current (a : State Contents) : Prop where
  quiet : a.app 0 = .out ∧ (a.prot 0).writable = false
  copy : ∀ node, node ≠ 0 → a.prot node ≠ .none ∨ a.app node = .copied →
    (∀ rq page, a.app node ≠ .opened rq page) → a.bytes node = a.current
  grant : ∀ node rq page, (a.app node).Grants rq page → a.Fresh node rq page
  home : a.owner = 0 → a.bytes 0 = a.current
  readOnly : ∀ node, node ≠ 0 → a.FetchHolds node → a.prot node = .rd
  carried : ∀ serving, a.srv = some serving → ∀ page, serving.stage.page? = some page →
    a.Fresh serving.reqNode serving.rq page

namespace Current

variable {a b : State Contents}

theorem initial (zero : Contents) : Current (State.initial zero) := by
  constructor <;>
    simp [State.initial, AccessType.writable, Phase.Grants, State.FetchHolds]

section Steps

variable {reqNode node owner : NodeId} {rq : Rq} {live : Bool} {nodes : List NodeId}
variable {page : Option Contents} {stage : Stage Contents} {serving : Serving Contents}
variable {phase : Phase Contents} {access : AccessType}

/-- The requester of a request in service is a worker. -/
theorem requester_worker (inv : Current a) (excl : Exclusive (· ≠ 0) a)
    (present : a.srv = some serving) : serving.reqNode ≠ 0 := by
  intro same
  have asking := (excl.serving _ present).asking
  rw [same, inv.quiet.1] at asking
  contradiction

/-- Nobody stores while a request carries the page, and whoever stores is a
worker and the only node with access. -/
theorem store_alone (inv : Current a) (excl : Exclusive (· ≠ 0) a) (outside : a.app node = .out)
    (permitted : (a.prot node).writable = true) :
    node ≠ 0 ∧ a.owner = node ∧ (∀ other, other ≠ 0 → other ≠ node → a.Clean other) ∧
      ∀ serving, a.srv = some serving → serving.stage.page? = none := by
  have worker : node ≠ 0 := by
    intro same
    subst same
    simp [inv.quiet.2] at permitted
  have writes : a.Writes node := .inl (by simpa [outside, Phase.entitled] using permitted)
  have owner := (excl.writer node worker writes).1
  refine ⟨worker, owner, fun other otherWorker different =>
    excl.exclusive node other worker otherWorker writes different, fun serving present => ?_⟩
  have old := excl.serving serving present
  by_contra carries
  by_cases settled : serving.stage.settled = true
  · exact old.settled settled node worker writes
  obtain ⟨rq, reqNode, live, stage⟩ := serving
  cases stage with
  | fetching first nodes fetch =>
      cases fetch with
      | copied page =>
          -- the owner's copy has been made read-only
          have same : first = node := (old.ownerRead first rfl).trans owner
          have readOnly := inv.readOnly node worker ⟨_, present, same⟩
          simp [readOnly, AccessType.writable] at permitted
      | _ => contradiction
  | committed page =>
      have requester := inv.requester_worker excl present
      have asking : a.app reqNode = .asking rq := old.asking
      have different : reqNode ≠ node := by
        intro same
        subst same
        simp [outside] at asking
      have commits : a.Writes reqNode := .inr ⟨_, present, rfl⟩
      have clean := excl.exclusive reqNode node requester worker commits (Ne.symm different)
      exact Exclusive.not_clean_of_entitled
        (by simpa [outside, Phase.entitled] using permitted) clean
  | _ => contradiction

/-- A change of one node that stores nothing. -/
theorem touch (inv : Current a) (node : NodeId) (sameSrv : b.srv = a.srv)
    (sameOwner : b.owner = a.owner) (sameCurrent : b.current = a.current)
    (sameProt : ∀ other, other ≠ node → b.prot other = a.prot other)
    (sameApp : ∀ other, other ≠ node → b.app other = a.app other)
    (sameBytes : ∀ other, other ≠ node → b.bytes other = a.bytes other)
    (worker : node ≠ 0) (notAsking : ∀ serving, a.srv = some serving → serving.reqNode = node →
      b.bytes node = a.bytes node)
    (copy : b.prot node ≠ .none ∨ b.app node = .copied →
      (∀ rq page, b.app node ≠ .opened rq page) → b.bytes node = a.current)
    (grant : ∀ rq page, (b.app node).Grants rq page →
      page = some a.current ∨ page = none ∧ rq = .wr ∧ b.bytes node = a.current)
    (readOnly : a.FetchHolds node → b.prot node = .rd) : Current b := by
  have holds : ∀ other, b.FetchHolds other ↔ a.FetchHolds other := by
    simp [State.FetchHolds, sameSrv]
  constructor
  case quiet =>
    rw [sameApp 0 (Ne.symm worker), sameProt 0 (Ne.symm worker)]
    exact inv.quiet
  case copy =>
    intro other otherWorker access notOpened
    rw [sameCurrent]
    by_cases same : other = node
    · subst same
      exact copy access notOpened
    · rw [sameBytes other same]
      rw [sameProt other same, sameApp other same] at access
      exact inv.copy other otherWorker access (by simpa [sameApp other same] using notOpened)
  case grant =>
    intro other rq page grants
    rw [State.Fresh, sameCurrent]
    by_cases same : other = node
    · subst same
      exact grant rq page grants
    · rw [sameBytes other same]
      exact inv.grant other rq page (sameApp other same ▸ grants)
  case home =>
    rw [sameOwner, sameCurrent, sameBytes 0 (Ne.symm worker)]
    exact inv.home
  case readOnly =>
    intro other otherWorker locks
    by_cases same : other = node
    · subst same
      exact readOnly ((holds other).mp locks)
    · rw [sameProt other same]
      exact inv.readOnly other otherWorker ((holds other).mp locks)
  case carried =>
    intro serving present page carries
    rw [sameSrv] at present
    rw [State.Fresh, sameCurrent]
    have old := inv.carried serving present page carries
    by_cases same : serving.reqNode = node
    · rw [same, notAsking serving present same, ← same]
      exact old
    · rw [sameBytes _ same]
      exact old

/-- A request that moves on without touching any node, the owner included. -/
theorem restage (inv : Current a) (present : a.srv = some serving)
    (locks : ∀ node, stage.locks node → serving.stage.locks node)
    (page : ∀ carried, stage.page? = some carried → serving.stage.page? = some carried) :
    Current (a.serve (some { serving with stage := stage })) := by
  refine ⟨inv.quiet, inv.copy, inv.grant, inv.home, ?_, ?_⟩
  · rintro node worker ⟨_, ⟨⟩, holds⟩
    exact inv.readOnly node worker ⟨serving, present, locks node holds⟩
  · rintro _ ⟨⟩ carriedPage carries
    exact inv.carried serving present carriedPage (page carriedPage carries)

/-- The copyset does not matter for contents. -/
theorem setCopyset (inv : Current a) (copyset : NodeSet) :
    Current { a with copyset := copyset } :=
  ⟨inv.quiet, inv.copy, inv.grant, inv.home, inv.readOnly, inv.carried⟩

/-- The owner of a page that has not been taken from it has the current
contents. -/
theorem owner_bytes (inv : Current a) (accurate : Accurate a)
    (present : a.srv = some serving) (unsettled : serving.stage.settled = false)
    (notCommitted : ∀ node, ¬serving.commits node)
    (unlocked : a.owner ≠ 0 → (∀ page, a.app a.owner ≠ .granted .wr page) ∧
      ∀ rq page, a.app a.owner ≠ .opened rq page) : a.bytes a.owner = a.current := by
  by_cases manager : a.owner = 0
  · rw [manager]
    exact inv.home manager
  · obtain ⟨notGranted, notOpened⟩ := unlocked manager
    rcases accurate.held manager with (access | ⟨page, granted⟩) | drop | ⟨_, same, commits⟩
    · exact inv.copy _ manager (.inl access) notOpened
    · exact absurd granted (notGranted page)
    · exact absurd drop (Accurate.not_dropped present unsettled _)
    · obtain rfl : serving = _ := Option.some.inj (present.symm.trans same)
      exact absurd commits (notCommitted _)

theorem eraseKeep (inv : Current a) (excl : Exclusive (· ≠ 0) a) (accurate : Accurate a)
    (present : a.srv = some ⟨.wr, reqNode, live, .erasing owner⟩) (same : owner = reqNode) :
    Current ({ a with copyset := a.copyset.erase reqNode }.serve
      (some ⟨.wr, reqNode, live, .invalidating none nodes⟩)) := by
  have old := excl.serving _ present
  have ownerRead : owner = a.owner := old.ownerRead owner rfl
  have asking : a.app reqNode = .asking .wr := old.asking
  have ownBytes : a.bytes a.owner = a.current := by
    refine inv.owner_bytes accurate present rfl (fun _ => id) fun _ => ?_
    rw [← ownerRead, same, asking]
    exact ⟨by simp, by simp⟩
  refine ⟨inv.quiet, inv.copy, inv.grant, inv.home, ?_, ?_⟩
  · rintro node worker ⟨_, ⟨⟩, holds⟩
    exact holds.elim
  · rintro _ ⟨⟩ _ ⟨⟩
    refine .inr ⟨rfl, rfl, ?_⟩
    rw [← ownBytes, ← ownerRead, same]
    rfl

theorem fetchOpen (inv : Current a) (excl : Exclusive (· ≠ 0) a) (accurate : Accurate a)
    (present : a.srv = some ⟨rq, reqNode, live, .fetching owner nodes .pending⟩)
    (free : owner ≠ 0 → (a.app owner).holdsLock = false) :
    Current ((a.setProt owner .rd).serve
      (some ⟨rq, reqNode, live, .fetching owner nodes .opened⟩)) := by
  have ownerRead : owner = a.owner := (excl.serving _ present).ownerRead owner rfl
  have ownBytes : a.bytes a.owner = a.current := by
    refine inv.owner_bytes accurate present rfl (fun _ => id) fun worker => ?_
    have unlocked := free (ownerRead ▸ worker)
    rw [ownerRead] at unlocked
    constructor
    · intro page granted
      simp [granted, Phase.holdsLock] at unlocked
    · intro rq page opened
      simp [opened, Phase.holdsLock] at unlocked
  constructor
  case quiet =>
    refine ⟨inv.quiet.1, ?_⟩
    by_cases same : owner = 0
    · simp [State.setProt, State.serve, same, AccessType.writable]
    · simpa [State.setProt, State.serve, Ne.symm same] using inv.quiet.2
  case copy =>
    intro node worker access notOpened
    by_cases same : node = owner
    · rw [same, ownerRead]
      exact ownBytes
    · exact inv.copy node worker (by
        simpa [State.setProt, State.serve, same] using access) notOpened
  case grant => exact inv.grant
  case home => exact inv.home
  case readOnly =>
    rintro node worker ⟨_, ⟨⟩, rfl⟩
    simp [State.setProt, State.serve]
  case carried =>
    intro _ same
    cases same
    simp

theorem fetchCopy (inv : Current a) (excl : Exclusive (· ≠ 0) a)
    (present : a.srv = some ⟨rq, reqNode, live, .fetching owner nodes .opened⟩) :
    Current (a.serve
      (some ⟨rq, reqNode, live, .fetching owner nodes (.copied (some (a.bytes owner)))⟩)) := by
  have old := excl.serving _ present
  have ownerRead : owner = a.owner := old.ownerRead owner rfl
  have ownBytes : a.bytes owner = a.current := by
    by_cases manager : owner = 0
    · rw [manager]
      exact inv.home (ownerRead.symm.trans manager)
    · have readOnly := inv.readOnly owner manager ⟨_, present, rfl⟩
      have unlocked := old.locked owner manager rfl
      refine inv.copy owner manager (.inl (by simp [readOnly])) fun rq page opened => ?_
      simp [opened, Phase.holdsLock] at unlocked
  refine ⟨inv.quiet, inv.copy, inv.grant, inv.home, ?_, ?_⟩
  · rintro node worker ⟨_, ⟨⟩, rfl⟩
    exact inv.readOnly owner worker ⟨_, present, rfl⟩
  · rintro _ ⟨⟩ _ ⟨⟩
    exact .inl (by rw [ownBytes]; rfl)

/-- A node loses access while a request moves on. -/
theorem revoke (inv : Current a) (present : a.srv = some serving)
    (denied : access.writable = false) (locks : ∀ other, ¬stage.locks other)
    (page : stage.page? = serving.stage.page?)
    (left : node ≠ 0 → access ≠ .none → a.prot node ≠ .none) :
    Current ((a.setProt node access).serve (some { serving with stage := stage })) := by
  constructor
  case quiet =>
    refine ⟨inv.quiet.1, ?_⟩
    by_cases same : node = 0
    · simp [State.setProt, State.serve, same, denied]
    · simpa [State.setProt, State.serve, Ne.symm same] using inv.quiet.2
  case copy =>
    intro other worker access' notOpened
    by_cases same : other = node
    · subst same
      refine inv.copy other worker (access'.imp_left fun some => ?_) notOpened
      exact left worker (by simpa [State.setProt, State.serve] using some)
    · exact inv.copy other worker (by
        simpa [State.setProt, State.serve, same] using access') notOpened
  case grant => exact inv.grant
  case home => exact inv.home
  case readOnly =>
    rintro other worker ⟨_, ⟨⟩, holds⟩
    exact absurd holds (locks other)
  case carried =>
    rintro _ ⟨⟩ carriedPage carries
    exact inv.carried serving present carriedPage (page ▸ carries)

/-- A request ends with a grant. -/
theorem grantTo (inv : Current a) (excl : Exclusive (· ≠ 0) a) (present : a.srv = some serving)
    (carries : serving.stage.page? = some page) :
    Current ((a.serve none).setPhase serving.reqNode (.granted serving.rq page)) := by
  have worker := inv.requester_worker excl present
  have asking := (excl.serving _ present).asking
  constructor
  case quiet => simpa [State.setPhase, State.serve, Ne.symm worker] using inv.quiet
  case copy =>
    intro node nodeWorker access notOpened
    by_cases same : node = serving.reqNode
    · subst same
      refine inv.copy _ nodeWorker (.inl ?_) (by simp [asking])
      simpa [State.setPhase, State.serve] using access
    · exact inv.copy node nodeWorker (by
        simpa [State.setPhase, State.serve, same] using access) (by
        simpa [State.setPhase, State.serve, same] using notOpened)
  case grant =>
    intro node rq' page' grants
    by_cases same : node = serving.reqNode
    · subst same
      obtain ⟨rfl, rfl⟩ : serving.rq = rq' ∧ page = page' := by
        simpa [State.setPhase, Phase.Grants] using grants
      exact inv.carried serving present page carries
    · exact inv.grant node rq' page' (by simpa [State.setPhase, same] using grants)
  case home => exact inv.home
  case readOnly =>
    rintro node _ ⟨_, ⟨⟩, _⟩
  case carried => simp

/-- A store changes the current contents together with the only copy. -/
theorem store (inv : Current a) (excl : Exclusive (· ≠ 0) a) (accurate : Accurate a)
    (change : Contents → Contents) (outside : a.app node = .out)
    (permitted : (a.prot node).writable = true) :
    Current { a.setBytes node (change (a.bytes node)) with current := change a.current } := by
  obtain ⟨worker, owner, clean, carries⟩ := inv.store_alone excl outside permitted
  have ownBytes : a.bytes node = a.current := by
    refine inv.copy node worker (.inl ?_) (by simp [outside])
    intro none
    simp [none, AccessType.writable] at permitted
  have nothing : ∀ other, other ≠ 0 → other ≠ node →
      a.prot other = .none ∧ (a.app other).installing = false := by
    intro other otherWorker different
    simpa [State.Clean, Phase.clean] using clean other otherWorker different
  constructor
  case quiet => exact inv.quiet
  case copy =>
    intro other otherWorker access _
    by_cases same : other = node
    · simp [State.setBytes, same, ownBytes]
    · obtain ⟨none, idle⟩ := nothing other otherWorker same
      rcases access with access | copied
      · exact absurd none access
      · simp [show a.app other = .copied from copied, Phase.installing] at idle
  case grant =>
    intro other rq page grants
    -- a node with a grant under way is not clean
    have manager : other ≠ 0 := by
      intro same
      subst same
      rcases grants with grants | grants <;> simp [inv.quiet.1] at grants
    have different : other ≠ node := by
      intro same
      subst same
      rcases grants with grants | grants <;> simp [outside] at grants
    obtain ⟨none, idle⟩ := nothing other manager different
    rcases grants with granted | opened
    · simp [show a.app other = .granted rq page from granted, Phase.installing] at idle
    · cases rq with
      | rd => simp [show a.app other = .opened .rd page from opened, Phase.installing] at idle
      | wr =>
          have written := accurate.written other manager page opened
          simp [none] at written
  case home => exact fun manager => absurd (owner.symm.trans manager) worker
  case readOnly => exact inv.readOnly
  case carried =>
    intro serving present page carried
    rw [carries serving present] at carried
    contradiction

/-- A step of an application thread that is inside its fault handler. -/
theorem inside_worker (inv : Current a) (inside : a.app node ≠ .out) : node ≠ 0 := by
  intro same
  subst same
  exact inside inv.quiet.1

/-- A step of an application thread that leaves memory and access. -/
theorem step_phase (inv : Current a) (node : NodeId)
    (worker : node ≠ 0) (notCopied : phase ≠ .copied)
    (notOpenedBefore : ∀ rq page, a.app node ≠ .opened rq page)
    (notGrants : ∀ rq page, ¬phase.Grants rq page) : Current (a.setPhase node phase) := by
  refine inv.touch node rfl rfl rfl (fun _ _ => rfl) (by simp +contextual [State.setPhase])
    (fun _ _ => rfl) worker (fun _ _ _ => rfl) ?_ ?_ ?_
  · intro access _
    refine inv.copy node worker (access.imp_right fun copied => ?_) notOpenedBefore
    exact absurd (by simpa [State.setPhase] using copied) notCopied
  · intro rq page grants
    exact absurd (by simpa [State.setPhase] using grants) (notGrants rq page)
  · exact inv.readOnly node worker

end Steps

/-- Every step of a run without failures in which the manager does not fault keeps
everything current. -/
theorem step {regime : Regime Contents} (reliable : ¬regime.lossy)
    (workers : ∀ node, regime.faults node → node ≠ 0) (excl : Exclusive (· ≠ 0) a)
    (accurate : Accurate a) (inv : Current a) (taken : Step regime a b) : Current b := by
  -- the requester of a request in service is asking
  have asking : ∀ {node}, (∀ rq, a.app node ≠ .asking rq) → ∀ serving, a.srv = some serving →
      serving.reqNode ≠ node := by
    intro node notAsking serving present same
    subst same
    exact notAsking serving.rq (excl.serving serving present).asking
  have unlocked : ∀ {node}, node ≠ 0 → (a.app node).holdsLock = true → ¬a.FetchHolds node := by
    rintro node worker held ⟨serving, present, locks⟩
    simp [(excl.serving serving present).locked node worker locks] at held
  cases taken with
  | @fault node rq permitted outside faults =>
      exact inv.step_phase node (workers node permitted) (by simp) (by simp [outside])
        (by simp [Phase.Grants])
  | @lock node rq waiting free =>
      exact inv.step_phase node (inv.inside_worker (by simp [waiting])) (by simp)
        (by simp [waiting]) (by simp [Phase.Grants])
  | @unlock node rq ready =>
      exact inv.step_phase node (inv.inside_worker (by simp [ready])) (by simp)
        (by simp [ready]) (by simp [Phase.Grants])
  | @ask node rq ready =>
      exact inv.step_phase node (inv.inside_worker (by simp [ready])) (by simp)
        (by simp [ready]) (by simp [Phase.Grants])
  | @openPage node rq page granted =>
      have worker := inv.inside_worker (by simp [granted] : a.app node ≠ .out)
      refine inv.touch node rfl rfl rfl (by simp +contextual [State.setPhase, State.setProt])
        (by simp +contextual [State.setPhase, State.setProt]) (fun _ _ => rfl) worker
        (fun _ _ _ => rfl) ?_ ?_ ?_
      · intro _ notOpened
        exact absurd (by simp [State.setPhase]) (notOpened rq page)
      · intro rq' page' grants
        obtain ⟨rfl, rfl⟩ : rq = rq' ∧ page = page' := by
          simpa [State.setPhase, Phase.Grants] using grants
        exact inv.grant node rq page (.inl granted)
      · exact fun holds => absurd holds (unlocked worker (by simp [granted, Phase.holdsLock]))
  | @copyRd node bytes opened =>
      have worker := inv.inside_worker (by simp [opened] : a.app node ≠ .out)
      have fresh : bytes = a.current := by
        simpa [State.Fresh] using inv.grant node .rd (some bytes) (.inr opened)
      refine inv.touch node rfl rfl rfl (fun _ _ => rfl)
        (by simp +contextual [State.setPhase, State.setBytes])
        (by simp +contextual [State.setPhase, State.setBytes]) worker ?_ ?_ ?_ ?_
      · exact fun serving present same => absurd same (asking (by simp [opened]) serving present)
      · simp [State.setPhase, State.setBytes, fresh]
      · simp [State.setPhase, Phase.Grants]
      · exact fun holds => absurd holds (unlocked worker (by simp [opened, Phase.holdsLock]))
  | @copyWr node page opened =>
      have worker := inv.inside_worker (by simp [opened] : a.app node ≠ .out)
      have fresh : page.getD (a.bytes node) = a.current := by
        rcases inv.grant node .wr page (.inr opened) with rfl | ⟨rfl, -, kept⟩
        · rfl
        · exact kept
      refine inv.touch node rfl rfl rfl (fun _ _ => rfl)
        (by simp +contextual [State.setPhase, State.setBytes])
        (by simp +contextual [State.setPhase, State.setBytes]) worker ?_ ?_ ?_ ?_
      · exact fun serving present same => absurd same (asking (by simp [opened]) serving present)
      · simp [State.setPhase, State.setBytes, fresh]
      · simp [State.setPhase, Phase.Grants]
      · exact fun holds => absurd holds (unlocked worker (by simp [opened, Phase.holdsLock]))
  | @close node copied =>
      have worker := inv.inside_worker (by simp [copied] : a.app node ≠ .out)
      refine inv.touch node rfl rfl rfl (by simp +contextual [State.setPhase, State.setProt])
        (by simp +contextual [State.setPhase, State.setProt]) (fun _ _ => rfl) worker
        (fun _ _ _ => rfl) ?_ ?_ ?_
      · exact fun _ _ => inv.copy node worker (.inr copied) (by simp [copied])
      · simp [State.setPhase, Phase.Grants]
      · simp [State.setPhase, State.setProt]
  | @leave node rq closing =>
      exact inv.step_phase node (inv.inside_worker (by simp [closing])) (by simp)
        (by simp [closing]) (by simp [Phase.Grants])
  | store change outside permitted => exact inv.store excl accurate change outside permitted
  | start idle asked =>
      refine ⟨inv.quiet, inv.copy, inv.grant, inv.home, ?_, ?_⟩
      · rintro _ _ ⟨_, ⟨⟩, holds⟩
        exact holds.elim
      · intro _ same
        cases same
        simp
  | @list reqNode live serving =>
      have listed := inv.setCopyset (a.copyset.insert reqNode)
      exact listed.restage serving (fun _ => False.elim) (by simp)
  | lookRd serving => exact inv.restage serving (fun _ => False.elim) (by simp)
  | lookWr serving => exact inv.restage serving (fun _ => False.elim) (by simp)
  | @eraseFetch reqNode owner live serving other =>
      have erased := inv.setCopyset (a.copyset.erase reqNode)
      exact erased.restage serving (fun _ => False.elim) (by simp)
  | eraseKeep serving worker same => exact inv.eraseKeep excl accurate serving same
  | fetchOpen serving free => exact inv.fetchOpen excl accurate serving free
  | fetchCopy serving => exact inv.fetchCopy excl serving
  | @fetchClose rq reqNode owner live nodes page serving permitted =>
      refine inv.revoke serving (by cases rq <;> rfl) (fun _ => id) rfl fun worker _ => ?_
      simp [inv.readOnly owner worker ⟨_, serving, rfl⟩]
  | takeRd serving => exact inv.restage serving (fun _ => False.elim) fun _ => id
  | takeWr serving => exact inv.restage serving (fun _ => False.elim) fun _ => id
  | @grantRd reqNode live page serving =>
      obtain rfl : live = true := (excl.serving _ serving).live
      exact inv.grantTo excl serving rfl
  | callNode serving => exact inv.restage serving (fun _ => False.elim) fun _ => id
  | dropCopy serving free permitted =>
      exact inv.revoke serving rfl (fun _ => id) rfl fun _ some => absurd rfl some
  | acknowledge serving => exact inv.restage serving (fun _ => False.elim) fun _ => id
  | send serving => exact inv.restage serving (fun _ => False.elim) fun _ => id
  | clear serving =>
      have emptied := inv.setCopyset ∅
      exact emptied.restage serving (fun _ => False.elim) fun _ => id
  | commit serving _ =>
      have worker := inv.requester_worker excl serving
      refine ⟨inv.quiet, inv.copy, inv.grant, fun manager => absurd manager worker, ?_, ?_⟩
      · rintro _ _ ⟨_, ⟨⟩, holds⟩
        exact holds.elim
      · rintro _ ⟨⟩ _ ⟨⟩
        exact inv.carried _ serving _ rfl
  | @grantWr reqNode live page serving =>
      obtain rfl : live = true := (excl.serving _ serving).live
      exact inv.grantTo excl serving rfl
  | giveUp lossy serving => exact absurd lossy reliable
  | release serving => exact absurd rfl (excl.serving _ serving).forward
  | skipNodes lossy serving => exact absurd lossy reliable
  | stray lossy reduced free => exact absurd lossy reliable
  | lose lossy _ _ => exact absurd lossy reliable

end Current

end LibIvy.Protocol
