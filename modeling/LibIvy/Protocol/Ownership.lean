import LibIvy.Protocol.Coherence

/-!
Contract: the owner of a page has what the last store left, although calls fail.

Owns: the regime in which a grant with a page is dropped only when its node has
the same contents anyway, and the invariant that relates the owner, whoever may
write, and the page that a request carries to the current contents.

Does not own: copies of readers. A failed invalidation leaves them behind.
-/

namespace LibIvy.Protocol

universe u

variable {Contents : Type u}

/-! ### The regime -/

/-- The node gives up its request: a page that the grant carries is what the node
has already. -/
def State.MayLose (a : State Contents) (node : NodeId) : Prop :=
  ∀ page, a.app node = .granted .wr (some page) ∨
    a.srv = some ⟨.wr, node, true, .committed (some page)⟩ → page = a.bytes node

/-- The request is about to make its requester the owner: when the requester has
given up, it has the page that the request carries, also after it installs the
read grant that it may still have. -/
def State.MayCommit (a : State Contents) : Prop :=
  ∀ reqNode page, a.srv = some ⟨.wr, reqNode, false, .cleared (some page)⟩ →
    page = a.bytes reqNode ∧ ∀ held, (a.app reqNode).Grants .rd (some held) → held = page

/-- Calls fail at any time; only workers fault. -/
def lossyRegime : Regime Contents where
  lossy := True
  faults := fun node => node ≠ 0
  revokes := fun _ _ _ => True
  loses := State.MayLose
  commits := State.MayCommit

/-! ### The invariant -/

/-- The node has not got the access it asked for. -/
def Phase.denied : Phase Contents → Bool
  | .waiting _ => true
  | .ready _ => true
  | .asking _ => true
  | .granted _ _ => true
  | .closing .rd => true
  | _ => false

/-- The node has opened the page to write it. -/
def Phase.Written (phase : Phase Contents) : Prop :=
  (∃ page, phase = .opened .wr page) ∨ phase = .closing .wr

/-- The request has begun to take the page from the owner. -/
@[simp] def Stage.takes : Stage Contents → Bool
  | .fetching _ _ .pending => false
  | .fetching _ _ _ => true
  | stage => match stage.page? with
    | some (some _) => true
    | _ => false

theorem Stage.takes_of_page {stage : Stage Contents} {page : Contents}
    (carries : stage.page? = some (some page)) : stage.takes = true := by
  cases stage with
  | fetching owner nodes fetch => cases fetch <;> first | rfl | contradiction
  | _ => simp_all [takes, page?]

namespace State

variable (a : State Contents)

/-- The node may store or is about to be able to. -/
def Entitled (node : NodeId) : Prop := (a.app node).entitled (a.prot node) = true

/-- The owner is still to get the page. -/
def Owes (page : Contents) : Prop :=
  (a.app a.owner).Grants .wr (some page) ∨
    a.srv = some ⟨.wr, a.owner, true, .committed (some page)⟩

end State

/-- What holds of the request in service. -/
structure ServesOwner (a : State Contents) (serving : Serving Contents) : Prop where
  live : serving.live = true → a.app serving.reqNode = .asking serving.rq
  ownerRead : ∀ owner, serving.stage.owner? = some owner → owner = a.owner
  taken : serving.stage.takes = true → ¬a.Entitled a.owner
  carried : ∀ page, serving.stage.page? = some (some page) → page = a.current
  keeps : serving.rq = .wr → serving.stage.page? = some none → a.owner = serving.reqNode
  committed : ∀ page, serving.stage = .committed page → a.owner = serving.reqNode

/-- Only the owner may write, and it has the current contents or gets them with
its grant. -/
structure Owned (a : State Contents) : Prop where
  quiet : a.app 0 = .out ∧ (a.prot 0).writable = false
  denied : ∀ node, (a.app node).denied = true → (a.prot node).writable = false
  written : ∀ node, (a.app node).Written → a.prot node = .rw
  owner : ∀ node, a.Entitled node → a.owner = node
  given : ∀ rq page, (a.app a.owner).Grants rq (some page) → page = a.current
  kept : (∀ page, ¬a.Owes page) → a.bytes a.owner = a.current
  serving : ∀ serving, a.srv = some serving → ServesOwner a serving

namespace Owned

variable {a b : State Contents}

theorem initial (zero : Contents) : Owned (State.initial zero) := by
  constructor <;>
    simp [State.initial, AccessType.writable, Phase.denied, Phase.Written, Phase.Grants,
      State.Entitled, Phase.entitled]

section Steps

variable {reqNode node owner : NodeId} {rq : Rq} {live : Bool} {nodes : List NodeId}
variable {page : Option Contents} {stage : Stage Contents} {serving : Serving Contents}
variable {phase : Phase Contents} {access : AccessType}

theorem entitled_of_written (inv : Owned a) (written : (a.app node).Written) :
    a.Entitled node := by
  have access := inv.written node written
  rcases written with ⟨page, opened⟩ | closing
  · simp [State.Entitled, opened, access, Phase.entitled, AccessType.writable]
  · simp [State.Entitled, closing, access, Phase.entitled, AccessType.writable]

/-- A write grant, on its way or being installed, is the owner's. -/
theorem entitled_of_grants (inv : Owned a) (grants : (a.app node).Grants .wr page) :
    a.Entitled node := by
  rcases grants with granted | opened
  · simp [State.Entitled, granted, Phase.entitled]
  · exact inv.entitled_of_written (.inl ⟨page, opened⟩)

/-- What the owner is still to get is current. -/
theorem owed_current (inv : Owned a) {page : Contents} (owes : a.Owes page) :
    page = a.current := by
  rcases owes with grants | committed
  · exact inv.given .wr page grants
  · exact (inv.serving _ committed).carried page rfl

/-- A node inside its fault handler is a worker. -/
theorem inside_worker (inv : Owned a) (inside : a.app node ≠ .out) : node ≠ 0 := by
  intro same
  subst same
  exact inside inv.quiet.1

/-- A change of one node that is not asking. -/
theorem touch (inv : Owned a) (node : NodeId) (sameSrv : b.srv = a.srv)
    (sameOwner : b.owner = a.owner) (sameCurrent : b.current = a.current)
    (sameProt : ∀ other, other ≠ node → b.prot other = a.prot other)
    (sameApp : ∀ other, other ≠ node → b.app other = a.app other)
    (sameBytes : ∀ other, other ≠ node → b.bytes other = a.bytes other)
    (worker : node ≠ 0) (notAsking : ∀ rq, a.app node ≠ .asking rq)
    (denied : (b.app node).denied = true → (b.prot node).writable = false)
    (written : (b.app node).Written → b.prot node = .rw)
    (entitled : b.Entitled node → a.Entitled node)
    (given : a.owner = node → ∀ rq page, (b.app node).Grants rq (some page) → page = a.current)
    (kept : a.owner = node → (∀ page, ¬(b.app node).Grants .wr (some page)) →
      b.bytes node = a.current) : Owned b := by
  have entitledAll : ∀ other, b.Entitled other → a.Entitled other := by
    intro other
    by_cases same : other = node
    · subst same
      exact entitled
    · rw [State.Entitled, State.Entitled, sameProt other same, sameApp other same]
      exact id
  constructor
  case quiet =>
    rw [sameApp 0 (Ne.symm worker), sameProt 0 (Ne.symm worker)]
    exact inv.quiet
  case denied =>
    intro other phase
    by_cases same : other = node
    · subst same
      exact denied phase
    · rw [sameProt other same]
      exact inv.denied other (sameApp other same ▸ phase)
  case written =>
    intro other phase
    by_cases same : other = node
    · subst same
      exact written phase
    · rw [sameProt other same]
      exact inv.written other (sameApp other same ▸ phase)
  case owner =>
    intro other entitled
    rw [sameOwner]
    exact inv.owner other (entitledAll other entitled)
  case given =>
    intro rq page grants
    rw [sameCurrent]
    rw [sameOwner] at grants
    by_cases same : a.owner = node
    · exact given same rq page (same ▸ grants)
    · exact inv.given rq page (sameApp _ same ▸ grants)
  case kept =>
    intro settled
    rw [sameOwner, sameCurrent]
    by_cases same : a.owner = node
    · rw [same]
      refine kept same fun page grants => settled page (.inl ?_)
      rwa [sameOwner, same]
    · rw [sameBytes _ same]
      refine inv.kept fun page owes => settled page ?_
      rwa [State.Owes, sameOwner, sameApp _ same, sameSrv]
  case serving =>
    intro serving present
    rw [sameSrv] at present
    have old := inv.serving serving present
    refine ⟨fun live => ?_, ?_, ?_, ?_, ?_, ?_⟩
    · have asking := old.live live
      rwa [sameApp]
      intro same
      exact notAsking serving.rq (same ▸ asking)
    · rw [sameOwner]
      exact old.ownerRead
    · rw [sameOwner]
      exact fun takes entitled => old.taken takes (entitledAll _ entitled)
    · rw [sameCurrent]
      exact old.carried
    · rw [sameOwner]
      exact old.keeps
    · rw [sameOwner]
      exact old.committed

/-- The owner has the current contents unless it is still to get them; outside a
grant that is only so while its request is about to reply. -/
theorem owner_bytes (inv : Owned a) (same : a.owner = node)
    (notAsking : ∀ rq, a.app node ≠ .asking rq)
    (notGranted : ∀ page, ¬(a.app node).Grants .wr (some page)) : a.bytes node = a.current := by
  subst same
  refine inv.kept fun page owes => ?_
  rcases owes with grants | committed
  · exact notGranted page grants
  · exact notAsking .wr ((inv.serving _ committed).live rfl)

/-- A step of an application thread that leaves memory and access. -/
theorem step_phase (inv : Owned a) (node : NodeId) (worker : node ≠ 0)
    (notAsking : ∀ rq, a.app node ≠ .asking rq)
    (notGranted : ∀ page, ¬(a.app node).Grants .wr (some page))
    (denied : phase.denied = true → (a.prot node).writable = false)
    (notWritten : ¬phase.Written)
    (entitled : phase.entitled (a.prot node) = true → a.Entitled node)
    (notGrants : ∀ rq page, ¬phase.Grants rq page) : Owned (a.setPhase node phase) := by
  have now : (a.setPhase node phase).app node = phase := by simp [State.setPhase]
  refine inv.touch node rfl rfl rfl (fun _ _ => rfl) (by simp +contextual [State.setPhase])
    (fun _ _ => rfl) worker notAsking ?_ ?_ ?_ ?_ ?_
  · rw [now]
    exact denied
  · rw [now]
    exact fun written => absurd written notWritten
  · rw [State.Entitled, now]
    exact entitled
  · rw [now]
    exact fun _ rq page grants => absurd grants (notGrants rq _)
  · exact fun same _ => inv.owner_bytes same notAsking notGranted

/-- A node loses access. -/
theorem reduce (inv : Owned a) (reduced : access.writable = false)
    (notWritten : ¬(a.app node).Written) : Owned (a.setProt node access) := by
  have less : ∀ other, (a.setProt node access).Entitled other → a.Entitled other := by
    intro other
    by_cases same : other = node
    · subst same
      intro entitled
      simp only [State.Entitled, State.setProt, Function.update_self] at entitled ⊢
      obtain ⟨page, granted⟩ := Phase.granted_of_entitled reduced entitled
      rw [granted]
      rfl
    · simp [State.Entitled, State.setProt, same]
  have denies : ∀ other, (a.prot other).writable = false →
      ((a.setProt node access).prot other).writable = false := by
    intro other
    by_cases same : other = node
    · simp [State.setProt, same, reduced]
    · simp [State.setProt, same]
  refine ⟨⟨inv.quiet.1, denies 0 inv.quiet.2⟩, fun other phase => denies other
    (inv.denied other phase), fun other written => ?_, fun other entitled =>
    inv.owner other (less other entitled), inv.given, inv.kept, fun serving present => ?_⟩
  · have different : other ≠ node := by
      intro same
      subst same
      exact notWritten written
    simpa [State.setProt, different] using inv.written other written
  · have old := inv.serving serving present
    exact ⟨old.live, old.ownerRead, fun takes entitled => old.taken takes (less _ entitled),
      old.carried, old.keeps, old.committed⟩

/-- The copyset does not matter for the owner. -/
theorem setCopyset (inv : Owned a) (copyset : NodeSet) : Owned { a with copyset := copyset } :=
  ⟨inv.quiet, inv.denied, inv.written, inv.owner, inv.given, inv.kept, fun serving present =>
    have old := inv.serving serving present
    ⟨old.live, old.ownerRead, old.taken, old.carried, old.keeps, old.committed⟩⟩

/-- The service changes, and no request has committed before. -/
theorem reserve (inv : Owned a) {srv : Option (Serving Contents)}
    (before : ∀ page, a.srv ≠ some ⟨.wr, a.owner, true, .committed (some page)⟩)
    (serving : ∀ serving, srv = some serving → ServesOwner (a.serve srv) serving) :
    Owned (a.serve srv) := by
  refine ⟨inv.quiet, inv.denied, inv.written, inv.owner, inv.given, fun settled => ?_, serving⟩
  refine inv.kept fun page owes => ?_
  rcases owes with grants | committed
  · exact settled page (.inl grants)
  · exact before page committed

/-- A request that moves on without touching any node. -/
theorem restage (inv : Owned a) (present : a.srv = some serving)
    (before : ∀ page, serving.stage ≠ .committed page)
    (after : ∀ page, stage ≠ .committed page)
    (ownerRead : ∀ owner, stage.owner? = some owner → owner = a.owner)
    (taken : stage.takes = true → ¬a.Entitled a.owner)
    (carried : ∀ page, stage.page? = some (some page) → page = a.current)
    (keeps : serving.rq = .wr → stage.page? = some none → a.owner = serving.reqNode) :
    Owned (a.serve (some { serving with stage := stage })) := by
  have old := inv.serving serving present
  refine inv.reserve ?_ ?_
  · intro page committed
    obtain rfl := Option.some.inj (present.symm.trans committed)
    exact before _ rfl
  · intro _ same
    cases same
    exact ⟨old.live, ownerRead, taken, carried, keeps, fun page same => absurd same (after page)⟩

/-- A request that moves on with the page it carries. -/
theorem advance (inv : Owned a) (present : a.srv = some serving)
    (before : ∀ page, serving.stage ≠ .committed page)
    (after : ∀ page, stage ≠ .committed page)
    (ownerRead : ∀ owner, stage.owner? = some owner → owner = a.owner)
    (taken : stage.takes = true → serving.stage.takes = true)
    (page : ∀ page, stage.page? = some page → serving.stage.page? = some page) :
    Owned (a.serve (some { serving with stage := stage })) := by
  have old := inv.serving serving present
  exact inv.restage present before after ownerRead (fun takes => old.taken (taken takes))
    (fun carried carries => old.carried carried (page _ carries))
    fun write carries => old.keeps write (page _ carries)

theorem start (inv : Owned a) (idle : a.srv = none)
    (asked : live = true → a.app reqNode = .asking rq) :
    Owned (a.serve (some ⟨rq, reqNode, live, .started⟩)) := by
  refine inv.reserve (by simp [idle]) ?_
  intro _ same
  cases same
  exact ⟨asked, by simp, by simp, by simp, by simp, by simp⟩

/-- A request ends without a grant for its requester. -/
theorem finish (inv : Owned a)
    (before : ∀ page, a.srv ≠ some ⟨.wr, a.owner, true, .committed (some page)⟩) :
    Owned (a.serve none) :=
  inv.reserve before (by simp)

theorem eraseKeep (inv : Owned a)
    (present : a.srv = some ⟨.wr, reqNode, live, .erasing owner⟩) (same : owner = reqNode) :
    Owned (a.serve (some ⟨.wr, reqNode, live, .invalidating none nodes⟩)) := by
  have ownerRead : owner = a.owner := (inv.serving _ present).ownerRead owner rfl
  exact inv.restage present (by simp) (by simp) (by simp) (by simp) (by simp)
    fun _ _ => ownerRead.symm.trans same

/-- A callback runs on a node that is not installing a grant. -/
theorem not_written_of_free (inv : Owned a) (free : node ≠ 0 → (a.app node).holdsLock = false) :
    ¬(a.app node).Written := by
  intro written
  have worker : node ≠ 0 := inv.inside_worker (by
    rcases written with ⟨page, opened⟩ | closing <;> simp [*])
  have unlocked := free worker
  rcases written with ⟨page, opened⟩ | closing <;> simp [*, Phase.holdsLock] at unlocked

theorem fetchOpen (inv : Owned a)
    (present : a.srv = some ⟨rq, reqNode, live, .fetching owner nodes .pending⟩)
    (free : owner ≠ 0 → (a.app owner).holdsLock = false) :
    Owned ((a.setProt owner .rd).serve
      (some ⟨rq, reqNode, live, .fetching owner nodes .opened⟩)) := by
  have ownerRead : owner = a.owner := (inv.serving _ present).ownerRead owner rfl
  have unlocked : (a.app owner).holdsLock = false := by
    by_cases manager : owner = 0
    · rw [manager, inv.quiet.1]
      rfl
    · exact free manager
  have reduced : Owned (a.setProt owner .rd) := inv.reduce rfl (inv.not_written_of_free free)
  refine reduced.restage present (by simp) (by simp) ?_ ?_ (by simp) (by simp)
  · intro _ same
    cases same
    exact ownerRead
  · intro _ entitled
    have same : (a.setProt owner .rd).prot owner = .rd := by simp [State.setProt]
    rw [State.Entitled, State.setProt_owner, ← ownerRead, same] at entitled
    obtain ⟨page, granted⟩ := Phase.granted_of_entitled rfl entitled
    simp [show a.app owner = .granted .wr page from granted, Phase.holdsLock] at unlocked

theorem fetchCopy (inv : Owned a)
    (present : a.srv = some ⟨rq, reqNode, live, .fetching owner nodes .opened⟩) :
    Owned (a.serve
      (some ⟨rq, reqNode, live, .fetching owner nodes (.copied (some (a.bytes owner)))⟩)) := by
  have old := inv.serving _ present
  have ownerRead : owner = a.owner := old.ownerRead owner rfl
  have notEntitled := old.taken rfl
  have ownBytes : a.bytes a.owner = a.current := by
    refine inv.kept fun page owes => ?_
    rcases owes with grants | committed
    · exact notEntitled (inv.entitled_of_grants grants)
    · simp [present] at committed
  refine inv.restage present (by simp) (by simp) ?_ (fun _ => notEntitled) ?_ (by simp)
  · intro _ same
    cases same
    exact ownerRead
  · intro _ same
    cases same
    rw [ownerRead, ownBytes]

theorem fetchClose (inv : Owned a)
    (present : a.srv = some ⟨rq, reqNode, live, .fetching owner nodes (.copied page)⟩) :
    Owned ((a.setProt owner (fetchAccess rq)).serve
      (some ⟨rq, reqNode, live, .fetching owner nodes (.closed page)⟩)) := by
  have old := inv.serving _ present
  have ownerRead : owner = a.owner := old.ownerRead owner rfl
  have notWritten : ¬(a.app owner).Written := fun written =>
    old.taken rfl (ownerRead ▸ inv.entitled_of_written written)
  have reduced : Owned (a.setProt owner (fetchAccess rq)) :=
    inv.reduce (by cases rq <;> rfl) notWritten
  refine reduced.advance present (by simp) (by simp) ?_ (fun _ => rfl) fun _ => id
  intro _ same
  cases same
  exact ownerRead

theorem commit (inv : Owned a) (present : a.srv = some ⟨.wr, reqNode, live, .cleared page⟩)
    (permitted : a.MayCommit) :
    Owned ({ a with owner := reqNode }.serve (some ⟨.wr, reqNode, live, .committed page⟩)) := by
  have old := inv.serving _ present
  -- without a page the requester is the owner already
  have entitled : ∀ node, a.Entitled node → page = none ∧ reqNode = node := by
    intro node entitled
    have same := inv.owner node entitled
    cases page with
    | none => exact ⟨rfl, (old.keeps rfl rfl).symm.trans same⟩
    | some bytes => exact absurd (same ▸ entitled) (old.taken rfl)
  refine ⟨inv.quiet, inv.denied, inv.written, fun node holds => (entitled node holds).2, ?_, ?_, ?_⟩
  · intro rq held grants
    have inHand : (a.app reqNode).Grants rq (some held) := grants
    cases page with
    | none =>
        have same : a.owner = reqNode := old.keeps rfl rfl
        rw [← same] at inHand
        exact inv.given rq held inHand
    | some bytes =>
        cases rq with
        | wr => exact nomatch (entitled reqNode (inv.entitled_of_grants inHand)).1
        | rd =>
            cases live with
            | true =>
                have asking : a.app reqNode = .asking .wr := old.live rfl
                rcases inHand with same | same <;> simp [asking] at same
            | false =>
                rw [(permitted reqNode bytes present).2 held inHand]
                exact old.carried bytes rfl
  · intro settled
    cases page with
    | none =>
        have same : a.owner = reqNode := old.keeps rfl rfl
        show a.bytes reqNode = a.current
        rw [← same]
        refine inv.kept fun held owes => ?_
        rcases owes with grants | committed
        · rw [same] at grants
          exact settled held (.inl grants)
        · simp [present] at committed
    | some bytes =>
        cases live with
        | true => exact absurd (.inr rfl) (settled bytes)
        | false =>
            show a.bytes reqNode = a.current
            rw [← (permitted reqNode bytes present).1]
            exact old.carried bytes rfl
  · intro _ same
    cases same
    refine ⟨old.live, by simp, fun takes holds => ?_, old.carried, fun _ _ => rfl, fun _ _ => rfl⟩
    obtain ⟨rfl, -⟩ := entitled reqNode holds
    contradiction

/-- A request ends with a grant. -/
theorem grantTo (inv : Owned a) (present : a.srv = some serving) (live : serving.live = true)
    (carries : serving.stage.page? = some page)
    (owner : serving.rq = .wr → a.owner = serving.reqNode)
    (before : serving.rq = .rd → ∀ page, serving.stage ≠ .committed page) :
    Owned ((a.serve none).setPhase serving.reqNode (.granted serving.rq page)) := by
  obtain ⟨rq, reqNode, _, stage⟩ := serving
  have old := inv.serving _ present
  have asking : a.app reqNode = .asking rq := old.live live
  have worker : reqNode ≠ 0 := inv.inside_worker (by simp [asking])
  have denied : (a.prot reqNode).writable = false := inv.denied reqNode (by simp [asking, Phase.denied])
  have now : ((a.serve none).setPhase reqNode (.granted rq page)).app reqNode = .granted rq page := by
    simp [State.setPhase]
  have others : ∀ other, other ≠ reqNode →
      ((a.serve none).setPhase reqNode (.granted rq page)).app other = a.app other := by
    simp +contextual [State.setPhase, State.serve]
  refine ⟨?_, ?_, ?_, ?_, ?_, ?_, by simp⟩
  · rw [others 0 (Ne.symm worker)]
    exact inv.quiet
  · intro node phase
    by_cases same : node = reqNode
    · rw [same]
      exact denied
    · exact inv.denied node (others node same ▸ phase)
  · intro node written
    by_cases same : node = reqNode
    · rw [same, now] at written
      rcases written with ⟨_, opened⟩ | closing <;> contradiction
    · exact inv.written node (others node same ▸ written)
  · intro node entitled
    by_cases same : node = reqNode
    · subst same
      cases rq with
      | wr => exact owner rfl
      | rd =>
          rw [State.Entitled, now] at entitled
          simp [Phase.entitled, denied] at entitled
    · rw [State.Entitled, others node same] at entitled
      exact inv.owner node entitled
  · intro rq' held grants
    by_cases same : a.owner = reqNode
    · rw [show ((a.serve none).setPhase reqNode (.granted rq page)).owner = reqNode from same, now]
        at grants
      obtain ⟨rfl, rfl⟩ : rq = rq' ∧ page = some held := by simpa [Phase.Grants] using grants
      exact old.carried held carries
    · exact inv.given rq' held (others _ same ▸ grants)
  · intro settled
    refine inv.kept fun held owes => ?_
    by_cases same : a.owner = reqNode
    · rcases owes with grants | committed
      · rw [same, asking] at grants
        rcases grants with granted | opened <;> contradiction
      · obtain ⟨rfl, rfl, -, rfl⟩ : rq = .wr ∧ reqNode = a.owner ∧ _ ∧ stage = .committed (some held) := by
          simpa [present] using committed
        obtain rfl : some held = page := by simpa [Stage.page?] using carries
        refine settled held (.inl ?_)
        exact .inl now
    · rcases owes with grants | committed
      · refine settled held (.inl ?_)
        rwa [show ((a.serve none).setPhase reqNode (.granted rq page)).owner = a.owner from rfl,
          others _ same]
      · simp only [present, Option.some.injEq, Serving.mk.injEq] at committed
        exact same committed.2.1.symm

/-- A store changes the current contents together with the owner's copy. -/
theorem store (inv : Owned a) (change : Contents → Contents) (outside : a.app node = .out)
    (permitted : (a.prot node).writable = true) :
    Owned { a.setBytes node (change (a.bytes node)) with current := change a.current } := by
  have entitled : a.Entitled node := by simpa [State.Entitled, outside, Phase.entitled] using permitted
  have same := inv.owner node entitled
  have ownBytes : a.bytes node = a.current :=
    inv.owner_bytes same (by simp [outside]) (by simp [outside, Phase.Grants])
  refine ⟨inv.quiet, inv.denied, inv.written, inv.owner, ?_, ?_, ?_⟩
  · intro rq page grants
    have inHand : (a.app a.owner).Grants rq (some page) := grants
    rw [same, outside] at inHand
    rcases inHand with granted | opened <;> contradiction
  · intro _
    show Function.update a.bytes node (change (a.bytes node)) a.owner = change a.current
    rw [same, Function.update_self, ownBytes]
  · intro serving present
    have old := inv.serving serving present
    refine ⟨old.live, old.ownerRead, old.taken, fun page carries => ?_, old.keeps, old.committed⟩
    exact absurd (same ▸ entitled) (old.taken (Stage.takes_of_page carries))

/-- A node gives up its request. -/
theorem lose (inv : Owned a) (permitted : a.MayLose node)
    (pending : a.app node = .asking rq ∨ ∃ page, a.app node = .granted rq page) :
    Owned ({ a with
      srv := a.srv.map fun (serving : Serving Contents) =>
        if serving.reqNode = node then { serving with live := false } else serving }.setPhase
      node (.ready rq)) := by
  have worker : node ≠ 0 := inv.inside_worker (by
    rcases pending with asking | ⟨page, granted⟩ <;> simp [*])
  have denied : (a.prot node).writable = false := inv.denied node (by
    rcases pending with asking | ⟨page, granted⟩ <;> simp [*, Phase.denied])
  have notEntitled : (Phase.ready rq : Phase Contents).entitled (a.prot node) ≠ true := by
    simp [Phase.entitled, denied]
  constructor
  case quiet => simpa [State.setPhase, Ne.symm worker] using inv.quiet
  case denied =>
    intro other phase
    by_cases same : other = node
    · rw [same]
      exact denied
    · exact inv.denied other (by simpa [State.setPhase, same] using phase)
  case written =>
    intro other written
    by_cases same : other = node
    · simp [same, State.setPhase, Phase.Written] at written
    · exact inv.written other (by simpa [State.setPhase, same] using written)
  case owner =>
    intro other entitled
    by_cases same : other = node
    · subst same
      exact absurd (by simpa [State.Entitled, State.setPhase] using entitled) notEntitled
    · exact inv.owner other (by simpa [State.Entitled, State.setPhase, same] using entitled)
  case given =>
    intro rq' held grants
    by_cases same : a.owner = node
    · simp [State.setPhase, same, Phase.Grants] at grants
    · exact inv.given rq' held (by simpa [State.setPhase, same] using grants)
  case kept =>
    intro settled
    show a.bytes a.owner = a.current
    by_cases owed : ∃ page, a.Owes page
    case neg => exact inv.kept (by simpa using owed)
    obtain ⟨page, owes⟩ := owed
    rw [← inv.owed_current owes]
    by_cases same : a.owner = node
    · subst same
      refine (permitted page (owes.imp_left fun grants => ?_)).symm
      rcases pending with asking | ⟨other, granted⟩ <;> rcases grants with grant | opened <;>
        simp_all
    · refine absurd ?_ (settled page)
      rcases owes with grants | committed
      · exact .inl (by simpa [State.setPhase, same] using grants)
      · exact .inr (by simp [committed, same])
  case serving =>
    intro serving present
    simp only [State.setPhase_srv, Option.map_eq_some_iff] at present
    obtain ⟨former, formerPresent, rfl⟩ := present
    have old := inv.serving former formerPresent
    have taken : former.stage.takes = true → ¬(State.setPhase { a with
        srv := a.srv.map fun (serving : Serving Contents) =>
          if serving.reqNode = node then { serving with live := false } else serving }
        node (.ready rq)).Entitled a.owner := by
      intro takes entitled
      by_cases same : a.owner = node
      · subst same
        exact notEntitled (by simpa [State.Entitled, State.setPhase] using entitled)
      · exact old.taken takes (by simpa [State.Entitled, State.setPhase, same] using entitled)
    by_cases same : former.reqNode = node
    · rw [if_pos same]
      exact ⟨by simp, old.ownerRead, taken, old.carried, old.keeps, old.committed⟩
    · rw [if_neg same]
      refine ⟨fun live => ?_, old.ownerRead, taken, old.carried, old.keeps, old.committed⟩
      simpa [State.setPhase, same] using old.live live

end Steps

/-- Every step of the regime keeps the owner's copy current. -/
theorem step (inv : Owned a) (taken : Step lossyRegime a b) : Owned b := by
  cases taken with
  | @fault node rq permitted outside faults =>
      refine inv.step_phase node permitted (by simp [outside]) (by simp [outside, Phase.Grants])
        (fun _ => Rq.not_writable_of_faults faults) (by simp [Phase.Written]) ?_
        (by simp [Phase.Grants])
      simp [Phase.entitled, Rq.not_writable_of_faults faults]
  | @lock node rq waiting free =>
      have denied := inv.denied node (by simp [waiting, Phase.denied])
      exact inv.step_phase node (inv.inside_worker (by simp [waiting])) (by simp [waiting])
        (by simp [waiting, Phase.Grants]) (fun _ => denied) (by simp [Phase.Written])
        (by simp [Phase.entitled, denied]) (by simp [Phase.Grants])
  | @unlock node rq ready =>
      have denied := inv.denied node (by simp [ready, Phase.denied])
      exact inv.step_phase node (inv.inside_worker (by simp [ready])) (by simp [ready])
        (by simp [ready, Phase.Grants]) (fun _ => denied) (by simp [Phase.Written])
        (by simp [Phase.entitled, denied]) (by simp [Phase.Grants])
  | @ask node rq ready =>
      have denied := inv.denied node (by simp [ready, Phase.denied])
      exact inv.step_phase node (inv.inside_worker (by simp [ready])) (by simp [ready])
        (by simp [ready, Phase.Grants]) (fun _ => denied) (by simp [Phase.Written])
        (by simp [Phase.entitled, denied]) (by simp [Phase.Grants])
  | @openPage node rq page granted =>
      have worker := inv.inside_worker (by simp [granted] : a.app node ≠ .out)
      have now : ((a.setProt node .rw).setPhase node (.opened rq page)).app node =
          .opened rq page := by simp [State.setPhase]
      refine inv.touch node rfl rfl rfl (by simp +contextual [State.setPhase, State.setProt])
        (by simp +contextual [State.setPhase, State.setProt]) (fun _ _ => rfl) worker
        (by simp [granted]) ?_ ?_ ?_ ?_ ?_
      · simp [now, Phase.denied]
      · simp [State.setPhase, State.setProt]
      · intro entitled
        cases rq with
        | rd => simp [State.Entitled, now, Phase.entitled] at entitled
        | wr => exact inv.entitled_of_grants (.inl granted)
      · intro same rq' held grants
        obtain ⟨rfl, rfl⟩ : rq = rq' ∧ page = some held := by simpa [now, Phase.Grants] using grants
        exact inv.given rq held (by simp [same, granted, Phase.Grants])
      · intro same settled
        refine inv.owner_bytes same (by simp [granted]) fun held grants => settled held ?_
        obtain ⟨rfl, rfl⟩ : rq = .wr ∧ page = some held := by simpa [granted, Phase.Grants] using grants
        exact .inr now
  | @copyRd node bytes opened =>
      have worker := inv.inside_worker (by simp [opened] : a.app node ≠ .out)
      refine inv.touch node rfl rfl rfl (fun _ _ => rfl)
        (by simp +contextual [State.setPhase, State.setBytes])
        (by simp +contextual [State.setPhase, State.setBytes]) worker (by simp [opened]) ?_ ?_ ?_ ?_ ?_
      · simp [State.setPhase, Phase.denied]
      · simp [State.setPhase, Phase.Written]
      · simp [State.Entitled, State.setPhase, Phase.entitled]
      · simp [State.setPhase, Phase.Grants]
      · intro same _
        have fresh := inv.given .rd bytes (by simp [same, opened, Phase.Grants])
        simp [State.setPhase, State.setBytes, fresh]
  | @copyWr node page opened =>
      have worker := inv.inside_worker (by simp [opened] : a.app node ≠ .out)
      have written := inv.written node (.inl ⟨page, opened⟩)
      refine inv.touch node rfl rfl rfl (fun _ _ => rfl)
        (by simp +contextual [State.setPhase, State.setBytes])
        (by simp +contextual [State.setPhase, State.setBytes]) worker (by simp [opened]) ?_ ?_ ?_ ?_ ?_
      · simp [State.setPhase, Phase.denied]
      · exact fun _ => written
      · exact fun _ => inv.entitled_of_written (.inl ⟨page, opened⟩)
      · simp [State.setPhase, Phase.Grants]
      · intro same _
        cases page with
        | some bytes =>
            have fresh := inv.given .wr bytes (by simp [same, opened, Phase.Grants])
            simp [State.setPhase, State.setBytes, fresh]
        | none =>
            have kept := inv.owner_bytes same (by simp [opened]) (by simp [opened, Phase.Grants])
            simp [State.setPhase, State.setBytes, kept]
  | @close node copied =>
      have worker := inv.inside_worker (by simp [copied] : a.app node ≠ .out)
      refine inv.touch node rfl rfl rfl (by simp +contextual [State.setPhase, State.setProt])
        (by simp +contextual [State.setPhase, State.setProt]) (fun _ _ => rfl) worker
        (by simp [copied]) ?_ ?_ ?_ ?_ ?_
      · simp [State.setPhase, State.setProt, AccessType.writable]
      · simp [State.setPhase, Phase.Written]
      · simp [State.Entitled, State.setPhase, State.setProt, Phase.entitled, AccessType.writable]
      · simp [State.setPhase, Phase.Grants]
      · exact fun same _ => inv.owner_bytes same (by simp [copied]) (by simp [copied, Phase.Grants])
  | @leave node rq closing =>
      refine inv.step_phase node (inv.inside_worker (by simp [closing])) (by simp [closing])
        (by simp [closing, Phase.Grants]) (by intros; contradiction) (by simp [Phase.Written]) ?_
        (by simp [Phase.Grants])
      simp [State.Entitled, closing, Phase.entitled]
  | store change outside permitted => exact inv.store change outside permitted
  | @start rq reqNode live idle asked =>
      refine inv.start idle fun waits => ?_
      subst waits
      exact asked
  | @list reqNode live serving =>
      have listed := inv.setCopyset (a.copyset.insert reqNode)
      refine listed.advance serving ?_ ?_ ?_ ?_ ?_ <;> simp
  | lookRd serving => refine inv.advance serving ?_ ?_ ?_ ?_ ?_ <;> simp
  | lookWr serving => refine inv.advance serving ?_ ?_ ?_ ?_ ?_ <;> simp
  | @eraseFetch reqNode owner live serving other =>
      have erased := inv.setCopyset (a.copyset.erase reqNode)
      refine erased.advance serving (by simp) (by simp) ?_ (by simp) (by simp)
      intro _ same
      cases same
      exact (inv.serving _ serving).ownerRead owner rfl
  | @eraseKeep reqNode owner live serving worker same =>
      exact (inv.setCopyset (a.copyset.erase reqNode)).eraseKeep serving same
  | fetchOpen serving free => exact inv.fetchOpen serving free
  | fetchCopy serving => exact inv.fetchCopy serving
  | fetchClose serving permitted => exact inv.fetchClose serving
  | takeRd serving =>
      exact inv.advance serving (by simp) (by simp) (by simp) (fun _ => rfl) fun _ => id
  | takeWr serving =>
      exact inv.advance serving (by simp) (by simp) (by simp) (fun _ => rfl) fun _ => id
  | @grantRd reqNode live page serving =>
      cases live with
      | true => exact inv.grantTo serving rfl rfl (by simp) (by simp)
      | false => exact inv.finish (by simp [serving])
  | callNode serving => exact inv.advance serving (by simp) (by simp) (by simp) id fun _ => id
  | @dropCopy reqNode node live nodes page serving free permitted =>
      have reduced : Owned (a.setProt node .none) := inv.reduce rfl (inv.not_written_of_free free)
      exact reduced.advance serving (by simp) (by simp) (by simp) id fun _ => id
  | acknowledge serving => exact inv.advance serving (by simp) (by simp) (by simp) id fun _ => id
  | send serving => exact inv.advance serving (by simp) (by simp) (by simp) id fun _ => id
  | clear serving =>
      exact (inv.setCopyset ∅).advance serving (by simp) (by simp) (by simp) id fun _ => id
  | commit serving permitted => exact inv.commit serving permitted
  | @grantWr reqNode live page serving =>
      cases live with
      | true =>
          exact inv.grantTo serving rfl rfl (fun _ => (inv.serving _ serving).committed page rfl)
            (by simp)
      | false => exact inv.finish (by simp [serving])
  | giveUp lossy serving => refine inv.advance serving ?_ ?_ ?_ ?_ ?_ <;> simp
  | release serving => exact inv.finish (by simp [serving])
  | skipNodes lossy serving =>
      exact inv.advance serving (by simp) (by simp) (by simp) id fun _ => id
  | stray lossy reduced free =>
      refine inv.reduce ?_ (inv.not_written_of_free free)
      rcases reduced with rfl | rfl <;> rfl
  | lose lossy permitted pending => exact inv.lose permitted pending

end Owned

end LibIvy.Protocol
