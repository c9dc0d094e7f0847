import LibIvy.Protocol.Coherence

/-!
Contract: whoever has the page has what the last store left, the manager included.

Owns: the invariant that relates every copy, every grant and every page that a
request carries to the current contents on all nodes, in runs without failures in
which the manager gives away the page that it has.

Does not own: runs with failures, why the manager does so.

The fault handlers of the manager take no lock, so a fetch can read the manager's
page before a write grant has been copied into it. A page that a fetch has read
on the manager is therefore not current until the fetch ends.
-/

namespace LibIvy.Protocol

universe u

variable {Contents : Type u}

/-! ### The manager's own page -/

/-- A grant is on its way to the node or not completely installed. -/
@[simp] def Phase.uninstalled : Phase Contents → Bool
  | .granted _ _ => true
  | .opened _ _ => true
  | .copied => true
  | _ => false

/-- The contents of a write grant are still to be copied. -/
@[simp] def Phase.takesOver : Phase Contents → Bool
  | .granted .wr _ => true
  | .opened .wr _ => true
  | _ => false

theorem Phase.takesOver_of_installed {phase : Phase Contents}
    (installed : phase.uninstalled = false) : phase.takesOver = false := by
  cases phase <;> simp_all

/-- The manager has installed what it was granted, and what a fetch has read there
is what it still has. -/
def State.GivesOwn (a : State Contents) : Prop :=
  (a.app 0).uninstalled = false ∧ ∀ serving nodes page, a.srv = some serving →
    serving.stage = .fetching 0 nodes (.copied page) → page = some (a.bytes 0)

theorem Serving.reqNode_of_commits {serving : Serving Contents} {node : NodeId}
    (commits : serving.commits node) : serving.reqNode = node := by
  obtain ⟨rq, reqNode, live, stage⟩ := serving
  cases stage <;> first | exact commits | exact commits.elim

/-- A page that a fetch has just read on the manager. -/
@[simp] def Stage.readsManager (stage : Stage Contents) (page : Option Contents) : Prop :=
  ∃ nodes, stage = .fetching 0 nodes (.copied page)

/-- Every copy and every page under way is current, on every node. -/
structure CurrentAll (a : State Contents) : Prop where
  copy : ∀ node, a.prot node ≠ .none ∨ a.app node = .copied →
    (∀ rq page, a.app node ≠ .opened rq page) → (node = 0 → (a.app node).takesOver = false) →
    a.bytes node = a.current
  grant : ∀ node rq page, (a.app node).Grants rq page → a.Fresh node rq page
  home : a.owner = 0 → (a.app 0).takesOver = false → ¬a.Commits 0 → a.bytes 0 = a.current
  written : ∀ page, a.app 0 = .opened .wr page → a.prot 0 ≠ .none
  readOnly : ∀ node, node ≠ 0 → a.FetchHolds node → a.prot node = .rd
  carried : ∀ serving, a.srv = some serving → ∀ page, serving.stage.page? = some page →
    ¬serving.stage.readsManager page → a.Fresh serving.reqNode serving.rq page

namespace CurrentAll

variable {a b : State Contents}

theorem initial (zero : Contents) : CurrentAll (State.initial zero) := by
  constructor <;> simp [State.initial, Phase.Grants, State.FetchHolds]

section Steps

variable {reqNode node owner : NodeId} {rq : Rq} {live : Bool} {nodes : List NodeId}
variable {page : Option Contents} {stage : Stage Contents} {serving : Serving Contents}
variable {phase : Phase Contents} {access : AccessType}

/-- A change of one node that stores nothing. -/
theorem touch (inv : CurrentAll a) (node : NodeId) (sameSrv : b.srv = a.srv)
    (sameOwner : b.owner = a.owner) (sameCurrent : b.current = a.current)
    (sameProt : ∀ other, other ≠ node → b.prot other = a.prot other)
    (sameApp : ∀ other, other ≠ node → b.app other = a.app other)
    (sameBytes : ∀ other, other ≠ node → b.bytes other = a.bytes other)
    (notAsking : ∀ serving, a.srv = some serving → serving.reqNode = node →
      b.bytes node = a.bytes node)
    (copy : b.prot node ≠ .none ∨ b.app node = .copied →
      (∀ rq page, b.app node ≠ .opened rq page) → (node = 0 → (b.app node).takesOver = false) →
      b.bytes node = a.current)
    (grant : ∀ rq page, (b.app node).Grants rq page →
      page = some a.current ∨ page = none ∧ rq = .wr ∧ b.bytes node = a.current)
    (home : node = 0 → a.owner = 0 → (b.app node).takesOver = false → ¬a.Commits 0 →
      b.bytes node = a.current)
    (written : ∀ page, b.app node = .opened .wr page → b.prot node ≠ .none)
    (readOnly : node ≠ 0 → a.FetchHolds node → b.prot node = .rd) : CurrentAll b := by
  have holds : ∀ other, b.FetchHolds other ↔ a.FetchHolds other := by
    simp [State.FetchHolds, sameSrv]
  have commits : b.Commits 0 ↔ a.Commits 0 := by
    simp [State.Commits, sameSrv]
  constructor
  case copy =>
    intro other access notOpened notTaking
    rw [sameCurrent]
    by_cases same : other = node
    · subst same
      exact copy access notOpened notTaking
    · rw [sameBytes other same]
      rw [sameProt other same, sameApp other same] at access
      rw [sameApp other same] at notOpened notTaking
      exact inv.copy other access notOpened notTaking
  case grant =>
    intro other rq page grants
    rw [State.Fresh, sameCurrent]
    by_cases same : other = node
    · subst same
      exact grant rq page grants
    · rw [sameBytes other same]
      exact inv.grant other rq page (sameApp other same ▸ grants)
  case home =>
    rw [sameOwner, sameCurrent, commits]
    intro manager notTaking notCommits
    by_cases same : 0 = node
    · subst same
      exact home rfl manager notTaking notCommits
    · rw [sameBytes 0 same]
      exact inv.home manager (sameApp 0 same ▸ notTaking) notCommits
  case written =>
    intro page opened
    by_cases same : 0 = node
    · subst same
      exact written page opened
    · rw [sameProt 0 same]
      exact inv.written page (sameApp 0 same ▸ opened)
  case readOnly =>
    intro other otherWorker locks
    by_cases same : other = node
    · subst same
      exact readOnly otherWorker ((holds other).mp locks)
    · rw [sameProt other same]
      exact inv.readOnly other otherWorker ((holds other).mp locks)
  case carried =>
    intro serving present page carries notReads
    rw [sameSrv] at present
    rw [State.Fresh, sameCurrent]
    have old := inv.carried serving present page carries notReads
    by_cases same : serving.reqNode = node
    · rw [same, notAsking serving present same, ← same]
      exact old
    · rw [sameBytes _ same]
      exact old

/-- A request that moves on without touching any node, the owner included. -/
theorem restage (inv : CurrentAll a) (present : a.srv = some serving)
    (locks : ∀ node, stage.locks node → serving.stage.locks node)
    (before : ∀ node, ¬serving.commits node)
    (page : ∀ carried, stage.page? = some carried → serving.stage.page? = some carried)
    (notReads : ∀ carried, ¬serving.stage.readsManager carried) :
    CurrentAll (a.serve (some { serving with stage := stage })) := by
  refine ⟨inv.copy, inv.grant, ?_, inv.written, ?_, ?_⟩
  · intro manager notTaking _
    refine inv.home manager notTaking ?_
    rintro ⟨_, same, commits⟩
    obtain rfl := Option.some.inj (present.symm.trans same)
    exact before 0 commits
  · rintro node worker ⟨_, ⟨⟩, holds⟩
    exact inv.readOnly node worker ⟨serving, present, locks node holds⟩
  · rintro _ ⟨⟩ carriedPage carries _
    exact inv.carried serving present carriedPage (page carriedPage carries) (notReads carriedPage)

/-- The copyset does not matter for contents. -/
theorem setCopyset (inv : CurrentAll a) (copyset : NodeSet) :
    CurrentAll { a with copyset := copyset } :=
  ⟨inv.copy, inv.grant, inv.home, inv.written, inv.readOnly, inv.carried⟩

/-- A worker that is the recorded owner of a page that has not been taken from it
has the current contents. -/
theorem owner_bytes (inv : CurrentAll a) (accurate : Accurate a)
    (present : a.srv = some serving) (unsettled : serving.stage.settled = false)
    (notCommitted : ∀ node, ¬serving.commits node) (worker : a.owner ≠ 0)
    (notGranted : ∀ page, a.app a.owner ≠ .granted .wr page)
    (notOpened : ∀ rq page, a.app a.owner ≠ .opened rq page) : a.bytes a.owner = a.current := by
  rcases accurate.held worker with (access | ⟨page, granted⟩) | drop | ⟨_, same, commits⟩
  · exact inv.copy _ (.inl access) notOpened fun manager => absurd manager worker
  · exact absurd granted (notGranted page)
  · exact absurd drop (Accurate.not_dropped present unsettled _)
  · obtain rfl : serving = _ := Option.some.inj (present.symm.trans same)
    exact absurd commits (notCommitted _)

/-- Nobody commits while the request is at another stage. -/
theorem not_commits (present : a.srv = some serving) (before : ∀ node, ¬serving.commits node) :
    ¬a.Commits node := by
  rintro ⟨_, same, commits⟩
  obtain rfl := Option.some.inj (present.symm.trans same)
  exact before node commits

theorem eraseKeep (inv : CurrentAll a) (accurate : Accurate a) (excl : Exclusive (· ≠ 0) a)
    (present : a.srv = some ⟨.wr, reqNode, live, .erasing owner⟩) (worker : owner ≠ 0)
    (same : owner = reqNode) :
    CurrentAll ({ a with copyset := a.copyset.erase reqNode }.serve
      (some ⟨.wr, reqNode, live, .invalidating none nodes⟩)) := by
  have old := excl.serving _ present
  have ownerRead : owner = a.owner := old.ownerRead owner rfl
  have asking : a.app a.owner = .asking .wr := by
    rw [← ownerRead, same]
    exact old.asking
  have ownBytes : a.bytes a.owner = a.current := by
    apply inv.owner_bytes accurate present rfl (fun _ => id) (ownerRead ▸ worker)
    · simp [asking]
    · simp [asking]
  refine ⟨inv.copy, inv.grant, ?_, inv.written, ?_, ?_⟩
  · exact fun manager => absurd (ownerRead.trans manager) worker
  · rintro node _ ⟨_, ⟨⟩, holds⟩
    exact holds.elim
  · rintro _ ⟨⟩ _ ⟨⟩ _
    refine .inr ⟨rfl, rfl, ?_⟩
    rw [← ownBytes, ← ownerRead, same]
    rfl

/-- The owner that a fetch opens has the current contents, unless it is the
manager and still waits to take the page over. -/
theorem fetchOpen (inv : CurrentAll a) (accurate : Accurate a) (excl : Exclusive (· ≠ 0) a)
    (present : a.srv = some ⟨rq, reqNode, live, .fetching owner nodes .pending⟩)
    (free : owner ≠ 0 → (a.app owner).holdsLock = false) :
    CurrentAll ((a.setProt owner .rd).serve
      (some ⟨rq, reqNode, live, .fetching owner nodes .opened⟩)) := by
  have ownerRead : owner = a.owner := (excl.serving _ present).ownerRead owner rfl
  have ownBytes : (owner = 0 → (a.app owner).takesOver = false) → a.bytes owner = a.current := by
    intro notTaking
    by_cases manager : owner = 0
    · subst manager
      exact inv.home ownerRead.symm (notTaking rfl) (not_commits present fun _ => id)
    · rw [ownerRead] at manager free ⊢
      have unlocked := free manager
      apply inv.owner_bytes accurate present rfl (fun _ => id) manager
      · intro page granted
        simp [granted, Phase.holdsLock] at unlocked
      · intro rq page opened
        simp [opened, Phase.holdsLock] at unlocked
  constructor
  case copy =>
    intro node access notOpened notTaking
    by_cases same : node = owner
    · subst same
      exact ownBytes notTaking
    · refine inv.copy node ?_ notOpened notTaking
      simpa [State.setProt, State.serve, same] using access
  case grant => exact inv.grant
  case home =>
    exact fun manager notTaking _ =>
      inv.home manager notTaking (not_commits present fun _ => id)
  case written =>
    intro page opened
    by_cases same : 0 = owner
    · simp [State.setProt, State.serve, same]
    · simpa [State.setProt, State.serve, same] using inv.written page opened
  case readOnly =>
    rintro node _ ⟨_, ⟨⟩, rfl⟩
    simp [State.setProt, State.serve]
  case carried =>
    intro _ same
    cases same
    simp

/-- What a fetch reads on a worker is current. What it reads on the manager is
checked only when the fetch ends. -/
theorem fetchCopy (inv : CurrentAll a) (excl : Exclusive (· ≠ 0) a)
    (present : a.srv = some ⟨rq, reqNode, live, .fetching owner nodes .opened⟩) :
    CurrentAll (a.serve
      (some ⟨rq, reqNode, live, .fetching owner nodes (.copied (some (a.bytes owner)))⟩)) := by
  have old := excl.serving _ present
  refine ⟨inv.copy, inv.grant, ?_, inv.written, ?_, ?_⟩
  · exact fun manager notTaking _ =>
      inv.home manager notTaking (not_commits present fun _ => id)
  · rintro node worker ⟨_, ⟨⟩, rfl⟩
    exact inv.readOnly owner worker ⟨_, present, rfl⟩
  · rintro _ ⟨⟩ _ ⟨⟩ notReads
    have worker : owner ≠ 0 := by
      intro manager
      apply notReads
      exact ⟨nodes, by rw [manager]⟩
    have readOnly := inv.readOnly owner worker ⟨_, present, rfl⟩
    have unlocked := old.locked owner worker rfl
    have fresh : a.bytes owner = a.current := by
      refine inv.copy owner (.inl (by simp [readOnly])) ?_ fun manager => absurd manager worker
      intro rq page opened
      simp [opened, Phase.holdsLock] at unlocked
    exact .inl (by rw [fresh]; rfl)

/-- A node loses access while a request moves on. -/
theorem revoke (inv : CurrentAll a) (present : a.srv = some serving)
    (before : ∀ other, ¬serving.commits other)
    (locks : ∀ other, ¬stage.locks other)
    (left : node ≠ 0 → access ≠ .none → a.prot node ≠ .none)
    (own : node = 0 → a.owner = 0 ∨ access = .none)
    (installed : node = 0 → (a.app 0).uninstalled = false)
    (carried : ∀ page, stage.page? = some page → a.Fresh serving.reqNode serving.rq page) :
    CurrentAll ((a.setProt node access).serve (some { serving with stage := stage })) := by
  have notCommits : ¬a.Commits 0 := not_commits present before
  constructor
  case copy =>
    intro other access' notOpened notTaking
    by_cases same : other = node
    · subst same
      by_cases manager : other = 0
      · subst manager
        rcases own rfl with ownerManager | none
        · exact inv.home ownerManager (notTaking rfl) notCommits
        · refine inv.copy 0 (.inr (access'.resolve_left ?_)) notOpened notTaking
          simp [State.setProt, State.serve, none]
      · refine inv.copy other (access'.imp_left fun some => ?_) notOpened notTaking
        apply left manager
        simpa [State.setProt, State.serve] using some
    · refine inv.copy other ?_ notOpened notTaking
      simpa [State.setProt, State.serve, same] using access'
  case grant => exact inv.grant
  case home => exact fun manager notTaking _ => inv.home manager notTaking notCommits
  case written =>
    intro page opened
    by_cases same : 0 = node
    · have uninstalled := installed same.symm
      rw [show a.app 0 = .opened .wr page from opened] at uninstalled
      contradiction
    · simpa [State.setProt, State.serve, same] using inv.written page opened
  case readOnly =>
    rintro other _ ⟨_, ⟨⟩, holds⟩
    exact absurd holds (locks other)
  case carried =>
    rintro _ ⟨⟩ page carries _
    exact carried page carries

/-- The fetch ends: what it has read is what the owner had. -/
theorem fetchClose (inv : CurrentAll a) (excl : Exclusive (· ≠ 0) a)
    (present : a.srv = some ⟨rq, reqNode, live, .fetching owner nodes (.copied page)⟩)
    (gives : owner = 0 → a.GivesOwn) :
    CurrentAll ((a.setProt owner (fetchAccess rq)).serve
      (some ⟨rq, reqNode, live, .fetching owner nodes (.closed page)⟩)) := by
  have ownerRead : owner = a.owner := (excl.serving _ present).ownerRead owner rfl
  apply inv.revoke present (fun _ => id) (fun _ => id)
  case left =>
    intro worker _
    simp [inv.readOnly owner worker ⟨_, present, rfl⟩]
  case own => exact fun manager => .inl (ownerRead.symm.trans manager)
  case installed => exact fun manager => (gives manager).1
  case carried =>
    rintro _ ⟨⟩
    by_cases manager : owner = 0
    · subst manager
      obtain ⟨installed, kept⟩ := gives rfl
      have own : a.bytes 0 = a.current := inv.home ownerRead.symm
        (Phase.takesOver_of_installed installed) (not_commits present fun _ => id)
      left
      rw [kept _ nodes page present rfl, own]
    · refine inv.carried _ present page rfl ?_
      rintro ⟨_, ⟨⟩⟩
      exact manager rfl

/-- A request ends with a grant. -/
theorem grantTo (inv : CurrentAll a) (excl : Exclusive (· ≠ 0) a) (present : a.srv = some serving)
    (carries : serving.stage.page? = some page)
    (notReads : ¬serving.stage.readsManager page)
    (ends : serving.rq = .rd → ∀ node, ¬serving.commits node) :
    CurrentAll ((a.serve none).setPhase serving.reqNode (.granted serving.rq page)) := by
  have asking := (excl.serving _ present).asking
  constructor
  case copy =>
    intro node access notOpened notTaking
    by_cases same : node = serving.reqNode
    · subst same
      refine inv.copy _ (.inl ?_) (by simp [asking]) (by simp [asking])
      simpa [State.setPhase, State.serve] using access
    · apply inv.copy node
      · simpa [State.setPhase, State.serve, same] using access
      · simpa [State.setPhase, State.serve, same] using notOpened
      · simpa [State.setPhase, State.serve, same] using notTaking
  case grant =>
    intro node rq' page' grants
    by_cases same : node = serving.reqNode
    · subst same
      obtain ⟨rfl, rfl⟩ : serving.rq = rq' ∧ page = page' := by
        simpa [State.setPhase, Phase.Grants] using grants
      exact inv.carried serving present page carries notReads
    · exact inv.grant node rq' page' (by simpa [State.setPhase, same] using grants)
  case home =>
    intro manager notTaking _
    -- a grant to write that ends on the manager takes the page over
    by_cases same : 0 = serving.reqNode
    · have read : serving.rq = .rd := by
        cases rq : serving.rq with
        | rd => rfl
        | wr => simp [State.setPhase, State.serve, ← same, rq] at notTaking
      refine inv.home manager (by simp [same, asking]) ?_
      exact not_commits present (ends read)
    · refine inv.home manager ?_ ?_
      · simpa [State.setPhase, State.serve, same] using notTaking
      · rintro ⟨_, present', commits⟩
        obtain rfl := Option.some.inj (present.symm.trans present')
        exact same (Serving.reqNode_of_commits commits).symm
  case written =>
    intro page' opened
    by_cases same : 0 = serving.reqNode
    · simp [State.setPhase, State.serve, ← same] at opened
    · exact inv.written page' (by simpa [State.setPhase, State.serve, same] using opened)
  case readOnly =>
    rintro node _ ⟨_, ⟨⟩, _⟩
  case carried => simp

/-- Nobody has anything while a node stores but that node, and a request carries
nothing but what a fetch has read on it. -/
theorem store_alone (inv : CurrentAll a) (excl : Exclusive (fun _ => True) a)
    (outside : a.app node = .out) (permitted : (a.prot node).writable = true) :
    a.owner = node ∧ (∀ other, other ≠ node → a.Clean other) ∧
      ∀ serving, a.srv = some serving → ∀ page, serving.stage.page? = some page →
        serving.stage.readsManager page := by
  have entitled : (a.app node).entitled (a.prot node) = true := by
    simpa [outside, Phase.entitled] using permitted
  have owner := (excl.writer node trivial (.inl entitled)).1
  refine ⟨owner, fun other => excl.exclusive node other trivial trivial (.inl entitled), ?_⟩
  intro serving present page carries
  have old := excl.serving serving present
  have unsettled : serving.stage.settled = false := by
    apply Bool.eq_false_iff.mpr
    exact fun settled => old.settled settled node trivial (.inl entitled)
  obtain ⟨rq, reqNode, live, stage⟩ := serving
  cases stage with
  | fetching first nodes fetch =>
      cases fetch with
      | copied fetched =>
          obtain rfl : fetched = page := by simpa using carries
          have same : first = node := (old.ownerRead first rfl).trans owner
          by_cases manager : first = 0
          · exact ⟨nodes, by rw [manager]⟩
          · -- a worker that is being fetched from has a read-only copy
            rw [same] at manager
            have readOnly := inv.readOnly node manager ⟨_, present, same⟩
            simp [readOnly, AccessType.writable] at permitted
      | _ => contradiction
  | committed fetched =>
      have asking : a.app reqNode = .asking rq := old.asking
      have different : node ≠ reqNode := by
        intro same
        subst same
        simp [outside] at asking
      have clean := excl.exclusive reqNode node trivial trivial (.inr ⟨_, present, rfl⟩) different
      exact absurd clean (Exclusive.not_clean_of_entitled entitled)
  | _ => contradiction

/-- A store changes the current contents together with the only copy. -/
theorem store (inv : CurrentAll a) (excl : Exclusive (fun _ => True) a) (accurate : Accurate a)
    (change : Contents → Contents) (outside : a.app node = .out)
    (permitted : (a.prot node).writable = true) :
    CurrentAll { a.setBytes node (change (a.bytes node)) with
      current := change a.current } := by
  obtain ⟨owner, clean, carries⟩ := inv.store_alone excl outside permitted
  have ownBytes : a.bytes node = a.current := by
    refine inv.copy node (.inl ?_) (by simp [outside]) (by simp [outside])
    intro none
    simp [none, AccessType.writable] at permitted
  have nothing : ∀ other, other ≠ node →
      a.prot other = .none ∧ (a.app other).installing = false := by
    intro other different
    simpa [State.Clean, Phase.clean] using clean other different
  constructor
  case copy =>
    intro other access _ _
    by_cases same : other = node
    · simp [State.setBytes, same, ownBytes]
    · obtain ⟨none, idle⟩ := nothing other same
      rcases access with access | copied
      · exact absurd none access
      · simp [show a.app other = .copied from copied, Phase.installing] at idle
  case grant =>
    intro other rq page grants
    -- a node with a grant under way is not clean
    have different : other ≠ node := by
      intro same
      subst same
      rcases grants with grants | grants <;> simp [outside] at grants
    obtain ⟨none, idle⟩ := nothing other different
    rcases grants with granted | opened
    · simp [show a.app other = .granted rq page from granted, Phase.installing] at idle
    · cases rq with
      | rd => simp [show a.app other = .opened .rd page from opened, Phase.installing] at idle
      | wr =>
          by_cases manager : other = 0
          · subst manager
            exact absurd none (inv.written page opened)
          · have written := accurate.written other manager page opened
            simp [none] at written
  case home =>
    intro manager _ _
    obtain rfl : node = 0 := owner.symm.trans manager
    simp [State.setBytes, ownBytes]
  case written => exact inv.written
  case readOnly => exact inv.readOnly
  case carried =>
    intro serving present page carried notReads
    exact absurd (carries serving present page carried) notReads

/-- A step of an application thread that leaves memory and access. -/
theorem step_phase (inv : CurrentAll a) (node : NodeId) (notCopied : phase ≠ .copied)
    (notOpenedBefore : ∀ rq page, a.app node ≠ .opened rq page)
    (notTakingBefore : (a.app node).takesOver = false)
    (notGrants : ∀ rq page, ¬phase.Grants rq page) : CurrentAll (a.setPhase node phase) := by
  refine inv.touch node rfl rfl rfl (fun _ _ => rfl) (by simp +contextual [State.setPhase])
    (fun _ _ => rfl) (fun _ _ _ => rfl) ?copy ?grant ?home ?written ?readOnly
  case copy =>
    intro access _ _
    refine inv.copy node (access.imp_right fun copied => ?_) notOpenedBefore
      fun _ => notTakingBefore
    exact absurd (by simpa [State.setPhase] using copied) notCopied
  case grant =>
    intro rq page grants
    exact absurd (by simpa [State.setPhase] using grants) (notGrants rq page)
  case home =>
    rintro rfl manager _ notCommits
    exact inv.home manager notTakingBefore notCommits
  case written =>
    intro page opened
    exact absurd (.inr (by simpa [State.setPhase] using opened)) (notGrants .wr page)
  case readOnly => exact inv.readOnly node

/-- The manager installs or copies: the page is current unless the grant to write is
still to be copied. -/
theorem installed_bytes (inv : CurrentAll a) (grants : (a.app node).Grants rq page) :
    page.getD (a.bytes node) = a.current := by
  rcases inv.grant node rq page grants with rfl | ⟨rfl, -, kept⟩
  · rfl
  · exact kept

end Steps

/-- Every step of a run without failures keeps everything current on all nodes, if
the manager gives away the page that it has. -/
theorem step {regime : Regime Contents} (reliable : ¬regime.lossy)
    (gives : ∀ {a : State Contents} {access}, regime.revokes a 0 access → a.GivesOwn)
    (all : Exclusive (fun _ => True) a) (excl : Exclusive (· ≠ 0) a) (accurate : Accurate a)
    (inv : CurrentAll a) (taken : Step regime a b) : CurrentAll b := by
  -- the requester of a request in service is asking
  have asking : ∀ {node}, (∀ rq, a.app node ≠ .asking rq) → ∀ serving, a.srv = some serving →
      serving.reqNode ≠ node := by
    intro node notAsking serving present same
    subst same
    exact notAsking serving.rq (excl.serving serving present).asking
  have unlocked : ∀ {node}, (a.app node).holdsLock = true → node ≠ 0 → ¬a.FetchHolds node := by
    rintro node held worker ⟨serving, present, locks⟩
    simp [(excl.serving serving present).locked node worker locks] at held
  cases taken with
  | @fault node rq permitted outside faults =>
      exact inv.step_phase node (by simp) (by simp [outside]) (by simp [outside])
        (by simp [Phase.Grants])
  | @lock node rq waiting free =>
      exact inv.step_phase node (by simp) (by simp [waiting]) (by simp [waiting])
        (by simp [Phase.Grants])
  | @unlock node rq ready =>
      exact inv.step_phase node (by simp) (by simp [ready]) (by simp [ready])
        (by simp [Phase.Grants])
  | @ask node rq ready =>
      exact inv.step_phase node (by simp) (by simp [ready]) (by simp [ready])
        (by simp [Phase.Grants])
  | @openPage node rq page granted =>
      refine inv.touch node rfl rfl rfl (by simp +contextual [State.setPhase, State.setProt])
        (by simp +contextual [State.setPhase, State.setProt]) (fun _ _ => rfl)
        (fun _ _ _ => rfl) ?_ ?_ ?_ ?_ ?_
      · intro _ notOpened _
        exact absurd (by simp [State.setPhase]) (notOpened rq page)
      · intro rq' page' grants
        obtain ⟨rfl, rfl⟩ : rq = rq' ∧ page = page' := by
          simpa [State.setPhase, Phase.Grants] using grants
        exact inv.grant node rq page (.inl granted)
      · rintro rfl manager notTaking notCommits
        cases rq with
        | rd => exact inv.home manager (by simp [granted]) notCommits
        | wr => simp [State.setPhase] at notTaking
      · simp [State.setPhase, State.setProt]
      · exact fun worker holds =>
          absurd holds (unlocked (by simp [granted, Phase.holdsLock]) worker)
  | @copyRd node bytes opened =>
      have fresh : bytes = a.current := @installed_bytes _ _ _ _ (some bytes) inv (.inr opened)
      refine inv.touch node rfl rfl rfl (fun _ _ => rfl)
        (by simp +contextual [State.setPhase, State.setBytes])
        (by simp +contextual [State.setPhase, State.setBytes]) ?_ ?_ ?_ ?_ ?_ ?_
      · exact fun serving present same => absurd same (asking (by simp [opened]) serving present)
      · simp [State.setPhase, State.setBytes, fresh]
      · simp [State.setPhase, Phase.Grants]
      · simp [State.setPhase, State.setBytes, fresh]
      · simp [State.setPhase]
      · exact fun worker holds =>
          absurd holds (unlocked (by simp [opened, Phase.holdsLock]) worker)
  | @copyWr node page opened =>
      have fresh := inv.installed_bytes (.inr opened)
      refine inv.touch node rfl rfl rfl (fun _ _ => rfl)
        (by simp +contextual [State.setPhase, State.setBytes])
        (by simp +contextual [State.setPhase, State.setBytes]) ?_ ?_ ?_ ?_ ?_ ?_
      · exact fun serving present same => absurd same (asking (by simp [opened]) serving present)
      · simp [State.setPhase, State.setBytes, fresh]
      · simp [State.setPhase, Phase.Grants]
      · simp [State.setPhase, State.setBytes, fresh]
      · simp [State.setPhase]
      · exact fun worker holds =>
          absurd holds (unlocked (by simp [opened, Phase.holdsLock]) worker)
  | @close node copied =>
      have installed : a.bytes node = a.current :=
        inv.copy node (.inr copied) (by simp [copied]) (by simp [copied])
      refine inv.touch node rfl rfl rfl (by simp +contextual [State.setPhase, State.setProt])
        (by simp +contextual [State.setPhase, State.setProt]) (fun _ _ => rfl)
        (fun _ _ _ => rfl) ?_ ?_ ?_ ?_ ?_
      · exact fun _ _ _ => installed
      · simp [State.setPhase, Phase.Grants]
      · exact fun _ _ _ _ => installed
      · simp [State.setPhase]
      · simp [State.setPhase, State.setProt]
  | @leave node rq closing =>
      exact inv.step_phase node (by simp) (by simp [closing]) (by simp [closing])
        (by simp [Phase.Grants])
  | store change outside permitted => exact inv.store all accurate change outside permitted
  | start idle asked =>
      refine ⟨inv.copy, inv.grant, ?_, inv.written, ?_, ?_⟩
      · exact fun manager notTaking _ => inv.home manager notTaking (by simp [State.Commits, idle])
      · rintro _ _ ⟨_, ⟨⟩, holds⟩
        exact holds.elim
      · intro _ same
        cases same
        simp
  | @list reqNode live serving =>
      have listed := inv.setCopyset (a.copyset.insert reqNode)
      exact listed.restage serving (fun _ => False.elim) (fun _ => id) (by simp) (by simp)
  | lookRd serving =>
      exact inv.restage serving (fun _ => False.elim) (fun _ => id) (by simp) (by simp)
  | lookWr serving =>
      exact inv.restage serving (fun _ => False.elim) (fun _ => id) (by simp) (by simp)
  | @eraseFetch reqNode owner live serving other =>
      have erased := inv.setCopyset (a.copyset.erase reqNode)
      exact erased.restage serving (fun _ => False.elim) (fun _ => id) (by simp) (by simp)
  | eraseKeep serving worker same => exact inv.eraseKeep accurate excl serving worker same
  | fetchOpen serving free => exact inv.fetchOpen accurate excl serving free
  | fetchCopy serving => exact inv.fetchCopy excl serving
  | @fetchClose rq reqNode owner live nodes page serving permitted =>
      apply inv.fetchClose excl serving
      rintro rfl
      exact gives permitted
  | takeRd serving =>
      exact inv.restage serving (fun _ => False.elim) (fun _ => id) (fun _ => id) (by simp)
  | takeWr serving =>
      exact inv.restage serving (fun _ => False.elim) (fun _ => id) (fun _ => id) (by simp)
  | @grantRd reqNode live page serving =>
      obtain rfl : live = true := (excl.serving _ serving).live
      exact inv.grantTo excl serving rfl (by simp) fun _ _ => id
  | callNode serving =>
      exact inv.restage serving (fun _ => False.elim) (fun _ => id) (fun _ => id) (by simp)
  | @dropCopy reqNode node live nodes page serving free permitted =>
      apply inv.revoke serving (fun _ => id) (fun _ => id)
      · exact fun _ some => absurd rfl some
      · exact fun _ => .inr rfl
      · rintro rfl
        exact (gives permitted).1
      · rintro _ ⟨⟩
        exact inv.carried _ serving page rfl (by simp)
  | acknowledge serving =>
      exact inv.restage serving (fun _ => False.elim) (fun _ => id) (fun _ => id) (by simp)
  | send serving =>
      exact inv.restage serving (fun _ => False.elim) (fun _ => id) (fun _ => id) (by simp)
  | clear serving =>
      have emptied := inv.setCopyset ∅
      exact emptied.restage serving (fun _ => False.elim) (fun _ => id) (fun _ => id) (by simp)
  | @commit reqNode live page serving _ =>
      refine ⟨inv.copy, inv.grant, ?_, inv.written, ?_, ?_⟩
      · exact fun manager _ notCommits => absurd ⟨_, rfl, manager⟩ notCommits
      · rintro _ _ ⟨_, ⟨⟩, holds⟩
        exact holds.elim
      · rintro _ ⟨⟩ _ ⟨⟩ _
        exact inv.carried _ serving page rfl (by simp)
  | @grantWr reqNode live page serving =>
      obtain rfl : live = true := (excl.serving _ serving).live
      exact inv.grantTo excl serving rfl (by simp) (by simp)
  | giveUp lossy serving => exact absurd lossy reliable
  | release serving => exact absurd rfl (excl.serving _ serving).forward
  | skipNodes lossy serving => exact absurd lossy reliable
  | stray lossy reduced free => exact absurd lossy reliable
  | lose lossy _ _ => exact absurd lossy reliable

end CurrentAll

end LibIvy.Protocol
