import LibIvy.Page.OwnerSettled

/-!
Contract: only the stranding effects unsettle the recorded owner of a page, and each
of them does.

Owns: the state that each of these effects leaves behind.

Does not own: that all other steps keep the owner settled; see
`LibIvy.Page.OwnerSettled`.
-/

namespace LibIvy

open Lib NumberText

namespace PageState

variable {cfg : Config} {base : Addr} {st after : PageState} {action : PageAction} {node : NodeId}

/-! ### Owners that ask -/

/-- A recorded owner that asks for its page while nobody replaces it is not settled. -/
theorem not_ownerSettled {owner : NodeId} (recorded : (st.node 0).info.owner = owner)
    (worker : owner ≠ 0) (asks : ¬st.Provided owner ∨ st.ReadGivenUp owner)
    (kept : ¬st.HandingOver) : ¬st.OwnerSettled := by
  intro settled
  have ⟨provided, served⟩ := (settled owner recorded worker).resolve_right kept
  rcases asks with without | ⟨id, self, present, -⟩
  · exact without provided
  · have stillDue := served id self .entry present
    contradiction

/-- Whether a node is provided depends on its thread, its protection and the replies. -/
theorem provided_congr (sameApp : after.app (thread node) = st.app (thread node))
    (sameProt : (after.node node).prot = (st.node node).prot) (sameReply : after.reply? = st.reply?) :
    after.Provided node ↔ st.Provided node := by
  simp only [Provided, sameApp, sameProt, sameReply]

/-- While another instance holds the manager's page lock, no write request replaces
the owner. -/
theorem not_handingOver_of_held (zero : cfg.managerId = 0) (locksHeld : LocksHeld cfg st)
    (linked : Linked cfg st) {id : HandlerId} {reqNode : NodeId} {pc : WrPc}
    (present : st.handler id = some ⟨0, .servWr reqNode pc⟩)
    (held : (Job.servWr reqNode pc).held true .pageLocks = true)
    (keeps : pc.takesOver st.tookAway = false) : ¬st.HandingOver := by
  rintro ⟨other, self, writer, takingPc, found, takes⟩
  obtain rfl : self = 0 := linked.atManager found rfl
  have manager : cfg.isManager 0 = true := by simp [zero]
  have mine : st.Holds cfg 0 .pageLocks (.handler id) := ⟨_, present, rfl, manager ▸ held⟩
  have theirs : st.Holds cfg 0 .pageLocks (.handler other) :=
    ⟨_, found, rfl, manager ▸ WrPc.held_of_takesOver takes⟩
  obtain rfl := Tid.handler.inj (locksHeld.unique mine theirs)
  obtain ⟨-, same⟩ := PageHandler.mk.inj (Option.some.inj (present.symm.trans found))
  obtain ⟨-, rfl⟩ := Job.servWr.inj same
  simp [keeps] at takes

/-- A fault handler that has the page holds the lock of its page. -/
theorem held_of_hasPage {pc : FaultPc} {replies : HandlerId → Option Reply}
    (has : pc.hasPage replies = true) : pc.held false .pageLocks = true := by
  cases pc <;> first | rfl | contradiction

/-! ### What the effects leave -/

/-- A write request moves on without a call and without a reply. -/
structure MovesTo (st after : PageState) (id : HandlerId) (reqNode : NodeId) (pc next : WrPc) :
    Prop where
  present : st.handler id = some ⟨0, .servWr reqNode pc⟩
  handlers : after.handler = Function.update st.handler id (some ⟨0, .servWr reqNode next⟩)
  apps : after.app = st.app
  prots : ∀ node, (after.node node).prot = (st.node node).prot
  running : (Job.servWr reqNode pc).reply? = none ∧ (Job.servWr reqNode next).reply? = none
  free : (Job.servWr reqNode next).awaits? = none

namespace MovesTo

variable {id : HandlerId} {reqNode : NodeId} {pc next : WrPc}

theorem present_after (moves : st.MovesTo after id reqNode pc next) :
    after.handler id = some ⟨0, .servWr reqNode next⟩ := by
  simp [moves.handlers]

theorem replies (moves : st.MovesTo after id reqNode pc next) : after.reply? = st.reply? := by
  funext call
  by_cases same : call = id
  · subst same
    simp [reply?, moves.present, moves.present_after, moves.running]
  · simp [reply?, moves.handlers, same]

theorem readGivenUp (moves : st.MovesTo after id reqNode pc next) (asks : st.ReadGivenUp node) :
    after.ReadGivenUp node := by
  obtain ⟨read, self, found, notByApp, notByHandler⟩ := asks
  have different : read ≠ id := by
    rintro rfl
    simp [moves.present] at found
  refine ⟨read, self, by simp [moves.handlers, different, found], ?_, ?_⟩
  · simpa only [moves.apps] using notByApp
  · intro caller handler callerPresent
    by_cases same : caller = id
    · subst same
      obtain rfl := Option.some.inj (moves.present_after.symm.trans callerPresent)
      simp [moves.free]
    · exact notByHandler caller handler (by simpa [moves.handlers, same] using callerPresent)

/-- Who asks before the step asks after it. -/
theorem asks (moves : st.MovesTo after id reqNode pc next)
    (before : ¬st.Provided node ∨ st.ReadGivenUp node) :
    ¬after.Provided node ∨ after.ReadGivenUp node := by
  have same := provided_congr (congrFun moves.apps _) (moves.prots node) moves.replies
  exact before.imp (mt same.mp) moves.readGivenUp

end MovesTo

/-- A fetch that fails leaves the request without an owner's page, on its way back. -/
theorem movesTo_of_lostFetch (linked : Linked cfg st) {id : HandlerId} {self reqNode owner : NodeId}
    {ivldSet : List NodeId} {call : HandlerId}
    (present : st.handler id = some ⟨self, .servWr reqNode (.fetching owner ivldSet call)⟩)
    (taken : st.step cfg base (.failHandler id) = some after) :
    st.MovesTo after id reqNode (.fetching owner ivldSet call) .callFailed ∧
      (after.node 0).info = (st.node 0).info ∧ owner ≠ 0 := by
  obtain rfl : self = 0 := linked.atManager present rfl
  obtain ⟨handler, next, again, failed, rfl⟩ := step_failHandler taken
  obtain rfl := Option.some.inj (present.symm.trans again)
  have row : ((Job.servWr reqNode (.fetching owner ivldSet call)).stmt cfg 0 base).fail? =
      if owner ≠ 0 then some (.servWr reqNode .callFailed) else none := by
    by_cases manager : owner = 0 <;>
      simp [Job.stmt, servWrRq, Stmt.map, Stmt.fail?, manager]
  obtain ⟨worker, same⟩ : owner ≠ 0 ∧ Job.servWr reqNode .callFailed = next := by
    simpa [row] using failed
  subst same
  exact ⟨⟨present, rfl, rfl, fun _ => rfl, ⟨rfl, rfl⟩, rfl⟩, rfl, worker⟩

/-- A write request that commits makes its requester the owner. -/
theorem movesTo_of_commits (linked : Linked cfg st) {id fresh : HandlerId}
    {self reqNode owner : NodeId} {contents : Reply}
    (present : st.handler id = some ⟨self, .servWr reqNode (.cleared owner contents)⟩)
    (taken : st.step cfg base (.handler id fresh) = some after) :
    st.MovesTo after id reqNode (.cleared owner contents) (.committed owner contents) ∧
      (after.node 0).info.owner = reqNode := by
  obtain rfl : self = 0 := linked.atManager present rfl
  obtain ⟨handler, next, between, again, ran, rfl⟩ := step_handler taken
  obtain rfl := Option.some.inj (present.symm.trans again)
  obtain ⟨rfl, rfl⟩ := ran
  refine ⟨⟨present, rfl, rfl, fun node => ?_, ⟨rfl, rfl⟩, rfl⟩, by simp [setHandler, setNode]⟩
  refine setNode_field (·.prot) ?_ node
  rfl

/-- A callback that takes the page changes nothing else. -/
theorem callback_effect {id fresh : HandlerId} {owner : NodeId} {job : Job}
    (present : st.handler id = some ⟨owner, job⟩) (revokes : job.revokes? = some .none)
    (taken : st.step cfg base (.handler id fresh) = some after) :
    job.prot? = some .none ∧ after.app = st.app ∧ (after.node owner).prot = .none ∧
      (after.node 0).info = (st.node 0).info ∧
      ∃ next, next.kind.serves = false ∧
        after.handler = Function.update st.handler id (some ⟨owner, next⟩) := by
  obtain ⟨handler, next, between, again, ran, rfl⟩ := step_handler taken
  obtain rfl := Option.some.inj (present.symm.trans again)
  have effect : job.prot? = some .none ∧ next.kind.serves = false ∧
      between = st.setNode owner { st.node owner with prot := .none } := by
    cases job with
    | fetch accessType pc =>
        cases pc <;> simp [Job.revokes?] at revokes
        obtain ⟨rfl, rfl⟩ := ran
        exact ⟨by simp [Job.prot?, revokes], rfl, by simp [revokes]⟩
    | invalidate pc =>
        cases pc <;> simp [Job.revokes?] at revokes
        obtain ⟨rfl, rfl⟩ := ran
        exact ⟨rfl, rfl, rfl⟩
    | _ => contradiction
  obtain ⟨sets, callback, rfl⟩ := effect
  refine ⟨sets, rfl, by simp [setHandler, setNode], ?_, next, callback, rfl⟩
  refine setNode_field (·.info) ?_ 0
  rfl

/-- A callback that takes the page leaves its node without it, unless the node is
inside a write fault. -/
theorem not_provided_of_callback (locksHeld : LocksHeld cfg st) {id fresh : HandlerId}
    {owner : NodeId} {job : Job} (worker : cfg.isManager owner = false)
    (present : st.handler id = some ⟨owner, job⟩) (revokes : job.revokes? = some .none)
    (noWrite : ∀ pc, st.app (thread owner) ≠ some (.wr, pc))
    (taken : st.step cfg base (.handler id fresh) = some after) : ¬after.Provided owner := by
  obtain ⟨sets, sameApps, unreadable, -⟩ := callback_effect present revokes taken
  intro provided
  cases inside : st.app (thread owner) with
  | none =>
      have readable := (provided_of_outside (sameApps ▸ inside)).mp provided
      simp [unreadable] at readable
  | some position =>
      obtain ⟨rq, pc⟩ := position
      cases rq with
      | wr => exact noWrite pc inside
      | rd =>
          -- a fault handler that has the page would hold the lock that the callback holds
          have has := (provided_of_reads (sameApps ▸ inside)).mp provided
          have mine : st.Holds cfg owner .pageLocks (.app (thread owner)) :=
            occupies_holds worker ⟨rfl, .rd, pc, inside, held_of_hasPage has⟩
          have theirs : st.Holds cfg owner .pageLocks (.handler id) :=
            occupies_holds worker (occupies_of_handler present sets)
          have same := locksHeld.unique mine theirs
          contradiction

/-- An instance that nobody waits for hands nothing over. -/
theorem handingOver_of_callback {id : HandlerId} {moved : PageHandler}
    (givenUp : st.GivenUp id) (callback : moved.job.kind.serves = false)
    (handlers : after.handler = Function.update st.handler id (some moved))
    (handing : after.HandingOver) : st.HandingOver := by
  obtain ⟨other, self, writer, pc, found, takes⟩ := handing
  have different : other ≠ id := by
    rintro rfl
    obtain rfl : moved = ⟨self, .servWr writer pc⟩ := by simpa [handlers] using found
    contradiction
  have before : st.handler other = some ⟨self, .servWr writer pc⟩ := by
    simpa [handlers, different] using found
  refine ⟨other, self, writer, pc, before, ?_⟩
  cases pc with
  | fetching owner ivldSet call =>
      have awaited : call ≠ id := by
        rintro rfl
        exact givenUp.2 other _ before rfl
      have same : after.tookAway call = st.tookAway call := by simp [tookAway, handlers, awaited]
      exact same.symm.trans takes
  | _ => exact takes

/-! ### Exactness -/

section Exactness

variable (zero : cfg.managerId = 0) (locksHeld : LocksHeld cfg st) (linked : Linked cfg st)

include zero locksHeld linked

/-- After a stranding effect the recorded owner is not settled. -/
theorem Strands.unsettles (fits : base < wordCount) (ownerRead : OwnerRead st)
    (strands : st.Strands action) (taken : st.step cfg base action = some after) :
    ¬after.OwnerSettled := by
  have locksAfter := locksHeld.step taken
  have linkedAfter := linked.step zero fits taken
  cases strands with
  | @lostFetch id self reqNode owner ivldSet call present took asks =>
      obtain rfl : self = 0 := linked.atManager present rfl
      obtain ⟨moves, sameInfo, worker⟩ := movesTo_of_lostFetch linked present taken
      have recorded : (after.node 0).info.owner = owner := by
        rw [sameInfo]
        exact ownerRead id _ owner present rfl
      exact not_ownerSettled recorded worker (moves.asks asks)
        (not_handingOver_of_held zero locksAfter linkedAfter moves.present_after rfl rfl)
  | @lateCallback id fresh owner job present revokes givenUp recorded worker kept noWrite =>
      obtain ⟨-, -, -, sameInfo, next, callback, handlers⟩ := callback_effect present revokes taken
      have without : ¬after.Provided owner :=
        not_provided_of_callback locksHeld (by simpa [zero] using worker) present revokes noWrite taken
      exact not_ownerSettled (sameInfo ▸ recorded) worker (.inl without)
        (mt (handingOver_of_callback givenUp callback handlers) kept)
  | @lateGrant id fresh self reqNode owner contents present worker givenUp asks =>
      obtain ⟨moves, recorded⟩ := movesTo_of_commits linked present taken
      exact not_ownerSettled recorded worker (moves.asks (.inl asks))
        (not_handingOver_of_held zero locksAfter linkedAfter moves.present_after rfl rfl)
  | @lateRead id fresh self reqNode owner contents present worker asks =>
      obtain ⟨moves, recorded⟩ := movesTo_of_commits linked present taken
      exact not_ownerSettled recorded worker (moves.asks (.inr asks))
        (not_handingOver_of_held zero locksAfter linkedAfter moves.present_after rfl rfl)
  | @lostReply owner call inside replied recorded worker kept =>
      obtain ⟨rq, pc, next, again, failed, rfl⟩ := step_failApp taken
      obtain ⟨rfl, rfl⟩ : Rq.rd = rq ∧ FaultPc.asking call = pc := by simpa [inside] using again
      obtain rfl : FaultPc.failed = next := by
        change (rdFaultHdlr cfg owner base (.asking call)).fail? = some next at failed
        cases manager : cfg.isManager owner with
        | true => simp [rdFaultHdlr, Stmt.fail?, manager] at failed
        | false => simpa [rdFaultHdlr, Stmt.fail?, manager] using failed
      have without : ¬(st.setApp (thread owner) (resumeOnPage .rd .failed)).Provided owner := by
        have moved : (st.setApp (thread owner) (resumeOnPage .rd .failed)).app (thread owner) =
            some (.rd, .failed) := by simp [setApp, resumeOnPage]
        simp [provided_of_reads moved, FaultPc.hasPage]
      exact not_ownerSettled recorded worker (.inl without) kept

/-- A step keeps the recorded owner settled exactly when it strands nobody. -/
theorem ownerSettled_step_iff (single : cfg.appThreads = 1) (fits : base < wordCount)
    (ownerRead : OwnerRead st) (mapped : st.Mapped cfg) (settled : st.OwnerSettled)
    (taken : st.step cfg base action = some after) : after.OwnerSettled ↔ ¬st.Strands action :=
  ⟨fun still strands => strands.unsettles zero locksHeld linked fits ownerRead taken still,
    fun unstranded => settled.step zero single locksHeld linked fits ownerRead mapped unstranded taken⟩

end Exactness

end PageState

end LibIvy
