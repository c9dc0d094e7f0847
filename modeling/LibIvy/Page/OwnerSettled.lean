import LibIvy.Page.Stranding

/-!
Contract: the recorded owner of a page need not ask for it, unless a failed call
strands it.

Owns: that a node which need not ask stays so, that a write request which has taken the
page goes on to replace the owner, and the invariant of every run without stranding
effects that follows from the two.

Does not own: which nodes a request calls; see `LibIvy.Contracts.Callbacks`.
-/

namespace LibIvy

open Lib NumberText TransitionSystem

/-! ### A settled node stays settled -/

section Settled

variable {cfg : Config} {base : Addr} {st after : PageState} {action : PageAction} {node : NodeId}

namespace PageState

/-- A reply that is there stays there. -/
theorem Keeps.replied {call : HandlerId} (keeps : st.Keeps after)
    (replied : (st.reply? call).isSome = true) : (after.reply? call).isSome = true := by
  cases present : st.handler call with
  | none => simp [reply?, present] at replied
  | some handler =>
      obtain ⟨reply, returned⟩ := Option.isSome_iff_exists.mp replied
      have jobReply : handler.job.reply? = some reply := by
        simpa [reply?, present] using returned
      obtain ⟨job, kept, -, same⟩ := keeps call handler present
      simp [reply?, kept, same reply jobReply, jobReply]

theorem hasPage_keeps {pc : FaultPc} (keeps : st.Keeps after)
    (has : pc.hasPage st.reply? = true) : pc.hasPage after.reply? = true := by
  cases pc <;> first | rfl | contradiction | exact keeps.replied has

/-- A node whose thread stays where it is stays provided, if its page stays readable. -/
theorem Provided.keep (provided : st.Provided node) (keeps : st.Keeps after)
    (sameApp : after.app (thread node) = st.app (thread node))
    (readable : st.app (thread node) = none → (st.node node).prot.readable = true →
      (after.node node).prot.readable = true) : after.Provided node := by
  unfold Provided at provided ⊢
  rw [sameApp]
  cases inside : st.app (thread node) with
  | none =>
      rw [inside] at provided
      exact readable inside provided
  | some position =>
      obtain ⟨rq, pc⟩ := position
      rw [inside] at provided
      cases rq with
      | rd => exact hasPage_keeps keeps provided
      | wr => trivial

theorem provided_of_outside (outside : st.app (thread node) = none) :
    st.Provided node ↔ (st.node node).prot.readable = true := by
  simp [Provided, outside]

theorem provided_of_reads {pc : FaultPc} (inside : st.app (thread node) = some (.rd, pc)) :
    st.Provided node ↔ pc.hasPage st.reply? = true := by
  simp [Provided, inside]

theorem provided_of_writes (pc : FaultPc) (inside : st.app (thread node) = some (.wr, pc)) :
    st.Provided node := by
  simp [Provided, inside]

/-- The step neither takes the page from the node nor loses the reply it waits for. -/
structure LeavesPage (st : PageState) (node : NodeId) (action : PageAction) : Prop where
  revokes : ∀ {id fresh job}, action = .handler id fresh → st.handler id = some ⟨node, job⟩ →
    job.revokes? = some .none → ∃ pc, st.app (thread node) = some (.wr, pc)
  replies : ∀ {call}, action = .failApp (thread node) →
    st.app (thread node) ≠ some (.rd, .asking call)

section Provided

variable (single : cfg.appThreads = 1) (linked : Linked cfg st) (mapped : st.Mapped cfg)

include mapped

/-- The fault handler of the node moves. -/
theorem Provided.app_step {rq : Rq} {pc next : FaultPc} {fresh : HandlerId}
    {between : PageState} (worker : cfg.isManager node = false) (provided : st.Provided node)
    (inside : st.app (thread node) = some (rq, pc))
    (ran : (faultHdlr cfg rq node base pc).execOnPage node (.app (thread node)) fresh st =
      some (next, between)) :
    (between.setApp (thread node) (resumeOnPage rq next)).Provided node := by
  have outcome : next = .returned ∨ next ≠ .returned := em _
  rcases outcome with rfl | running
  · -- the last statement leaves the protection as it is
    have last : pc = .noted := by
      rcases Stmt.execOnPage_ensures (faultHdlr_ensures_noted rq pc) (fun _ _ _ _ => trivial) ran
        with noted | ⟨_, _, _, _, _, _, _, _, noted, _⟩ <;> exact noted rfl
    subst last
    have unset : (faultHdlr cfg rq node base .noted).prot? = none := by
      rcases faultHdlr_prot? cfg rq node base .noted with none | none <;> exact none
    have readable := mapped _ rq .noted inside worker rfl
    rw [provided_of_outside (by simp [setApp, resumeOnPage])]
    change (between.node node).prot.readable = true
    rw [Stmt.execOnPage_prot node ran, if_pos rfl, unset]
    exact readable
  · have moved : (between.setApp (thread node) (resumeOnPage rq next)).app (thread node) =
        some (rq, next) := by
      simp [setApp, resumeOnPage_running running]
    cases rq with
    | wr => exact provided_of_writes next moved
    | rd =>
        rw [provided_of_reads inside] at provided
        rw [provided_of_reads moved]
        have keeps : st.Keeps (between.setApp (thread node) (resumeOnPage .rd next)) := by
          intro id handler present
          have kept : between.handler id = some handler := Stmt.execOnPage_keeps ran present
          exact ⟨handler.job, kept, rfl, fun _ _ => rfl⟩
        refine hasPage_keeps keeps ?_
        cases waits : pc.awaits? with
        | none =>
            rcases Stmt.execOnPage_ensures (faultHdlr_ensures_hasPage .rd waits provided)
              (fun _ _ _ _ => trivial) ran with has | ⟨_, _, _, _, _, _, _, _, called, _⟩
            · exact has running
            · exact called.elim
        | some call =>
            obtain rfl := FaultPc.awaits?_eq_some waits
            rcases Stmt.execOnPage_cases ran with ⟨nd, onNode, -⟩ | ⟨_, _, _, _, _, _, row, -⟩ |
              ⟨rpc, id, target, onFailure, reply, row, -, rfl, -⟩
            · contradiction
            · contradiction
            · obtain ⟨-, -, rfl, -⟩ := Stmt.await.inj row
              rfl

include single linked

/-- Whatever the other threads do, a provided node stays provided. -/
theorem Provided.step (zero : cfg.managerId = 0) (worker : node ≠ 0)
    (provided : st.Provided node) (leaves : st.LeavesPage node action)
    (taken : st.step cfg base action = some after) : after.Provided node := by
  have manager : cfg.isManager node = false := by simpa [zero] using worker
  have keeps := step_keeps taken
  cases action with
  | store thread' offset values =>
      obtain ⟨-, -, -, rfl⟩ := step_store taken
      refine provided.keep keeps rfl fun _ readable => ?_
      rw [← readable]
      refine setNode_field (·.prot.readable) ?_ node
      rfl
  | fault faulting rq =>
      obtain ⟨-, outside, faults, rfl⟩ := step_fault taken
      by_cases same : faulting = thread node
      · subst same
        have readable : (st.node node).prot.readable = true := (provided_of_outside outside).mp provided
        cases rq with
        | rd =>
            have faults : (!(st.node node).prot.readable) = true := faults
            simp [readable] at faults
        | wr => exact provided_of_writes .entry (by simp [setApp])
      · exact provided.keep keeps (by simp [setApp, Ne.symm same]) fun _ readable => readable
  | app moving fresh =>
      obtain ⟨rq, pc, next, between, inside, ran, rfl⟩ := step_app taken
      by_cases same : moving = thread node
      · subst same
        exact provided.app_step mapped manager inside ran
      · have elsewhere : node ≠ moving.node := by
          intro sameNode
          apply same
          rw [thread_eq single (linked.runs inside), sameNode]
        have sameApps := Stmt.execOnPage_app ran
        refine provided.keep keeps (by simp [setApp, Ne.symm same, sameApps]) fun _ readable => ?_
        change (between.node node).prot.readable = true
        rw [Stmt.execOnPage_prot node ran, if_neg elsewhere]
        exact readable
  | handler id fresh =>
      obtain ⟨⟨self, job⟩, next, between, present, ran, rfl⟩ := step_handler taken
      have sameApps := Stmt.execOnPage_app ran
      refine provided.keep keeps (congrFun sameApps _) fun outside readable => ?_
      change (between.node node).prot.readable = true
      rw [Stmt.execOnPage_prot node ran, job_prot?]
      split
      case isFalse => exact readable
      case isTrue here =>
        obtain rfl : node = self := here
        cases sets : job.prot? with
        | none => exact readable
        | some access =>
            have kept : job.revokes? ≠ some .none := by
              intro revokes
              obtain ⟨pc, writes⟩ := leaves.revokes rfl present revokes
              simp [outside] at writes
            have ok := linked.jobOk present
            cases job with
            | fetch accessType pc =>
                obtain ⟨rfl | rfl, -⟩ := ok <;> cases pc <;>
                  simp_all [Job.prot?, Job.revokes?] <;> subst sets <;> simp
            | invalidate pc => cases pc <;> simp_all [Job.prot?, Job.revokes?]
            | _ => contradiction
  | failApp failing =>
      obtain ⟨rq, pc, next, inside, failed, rfl⟩ := step_failApp taken
      by_cases same : failing = thread node
      · subst same
        obtain ⟨_, call, _, row, waits⟩ := Stmt.fail_awaits failed
        obtain rfl := FaultPc.awaits?_eq_some ((faultHdlr_awaits? ..).symm.trans waits)
        cases rq with
        | rd => exact absurd inside (leaves.replies rfl)
        | wr =>
            have running : next ≠ .returned := by
              intro returned
              have noted := Stmt.fail_ensures (faultHdlr_ensures_noted ..) failed returned
              contradiction
            exact provided_of_writes next (by simp [setApp, resumeOnPage_running running])
      · exact provided.keep keeps (by simp [setApp, Ne.symm same]) fun _ readable => readable
  | failHandler id =>
      obtain ⟨handler, next, -, -, rfl⟩ := step_failHandler taken
      exact provided.keep keeps rfl fun _ readable => readable

/-- A node that need not ask has no new read request. -/
theorem Settled.step (zero : cfg.managerId = 0) (fits : base < wordCount) (worker : node ≠ 0)
    (settled : st.Settled node) (leaves : st.LeavesPage node action)
    (taken : st.step cfg base action = some after) : after.Settled node := by
  refine ⟨settled.1.step single linked mapped zero worker leaves taken, ?_⟩
  intro id self pc present
  cases old : st.handler id with
  | some handler =>
      obtain ⟨job, kept, kind, -⟩ := step_keeps taken id handler old
      obtain ⟨rfl, rfl⟩ := PageHandler.mk.inj (Option.some.inj (kept.symm.trans present))
      obtain ⟨node', job⟩ := handler
      cases job with
      | servRd reqNode before =>
          obtain rfl : node = reqNode := JobKind.servRd.inj kind
          have served := settled.2 id node' before old
          obtain ⟨job, moved, pc', rfl, stays⟩ :=
            step_moves taken old (job_ensures_served served) ⟨before, rfl, served⟩
          obtain ⟨-, same⟩ := PageHandler.mk.inj (Option.some.inj (moved.symm.trans present))
          obtain ⟨-, rfl⟩ := Job.servRd.inj same
          exact stays
      | _ => contradiction
  | none =>
      rcases step_started taken old present with
        ⟨asking, rq, before, fn, body, target, addr, inside, row, accepted⟩ | callback
      · -- its caller asks, and a settled node does not
        have runs := linked.runs inside
        have kind := (faultHdlr_request fits (Config.node_fits runs) row accepted).2
        cases rq with
        | wr => contradiction
        | rd =>
            obtain rfl : node = asking.node := JobKind.servRd.inj kind
            have here : st.app (thread asking.node) = some (.rd, before) := by
              rw [← thread_eq single runs]
              exact inside
            have has := (provided_of_reads here).mp settled.1
            cases waits : before.awaits? with
            | none =>
                have called : (faultHdlr cfg .rd asking.node base before).Ensures
                    (fun next => next ≠ .returned → next.hasPage st.reply? = true)
                    (fun _ _ => False) fun _ => True := faultHdlr_ensures_hasPage .rd waits has
                rw [row] at called
                exact (called 0).elim
            | some call =>
                have waiting := (faultHdlr_awaits? cfg .rd asking.node base before).trans waits
                rw [row] at waiting
                contradiction
      · contradiction

end Provided

/-! ### A write request that replaces the owner -/

/-- A write request that takes over goes on, unless its fetch fails or it replaces
the owner. -/
theorem HandingOver.step {id : HandlerId} {self reqNode : NodeId} {pc : WrPc}
    (present : st.handler id = some ⟨self, .servWr reqNode pc⟩)
    (takes : pc.takesOver st.tookAway = true)
    (running : ∀ fresh, action = .handler id fresh → (Job.servWr reqNode pc).commits = false)
    (fetched : action = .failHandler id → ∀ owner ivldSet call, pc ≠ .fetching owner ivldSet call)
    (taken : st.step cfg base action = some after) : after.HandingOver := by
  have still : ∀ {pc : WrPc}, pc.takesOver st.tookAway = true → pc.takesOver after.tookAway = true := by
    intro pc takes
    cases pc <;> first | rfl | contradiction | exact tookAway_step takes taken
  rcases step_instance taken present with stays |
    ⟨next, moved, ⟨fresh, between, rfl, ran⟩ | ⟨rfl, failed⟩⟩
  · exact ⟨id, self, reqNode, pc, stays, still takes⟩
  · by_cases fetching : ∃ owner ivldSet call, pc = .fetching owner ivldSet call
    · obtain ⟨owner, ivldSet, call, rfl⟩ := fetching
      rcases Stmt.execOnPage_cases ran with ⟨nd, onNode, -⟩ | ⟨_, _, _, _, _, _, row, -⟩ |
        ⟨rpc, called, target, onFailure, reply, row, -, rfl, -⟩
      · contradiction
      · contradiction
      · obtain ⟨-, -, rfl, -⟩ := Stmt.await.inj row
        exact ⟨id, self, reqNode, _, moved, rfl⟩
    · have others : ∀ owner ivldSet call, pc ≠ .fetching owner ivldSet call :=
        fun owner ivldSet call same => fetching ⟨owner, ivldSet, call, same⟩
      rcases Stmt.execOnPage_ensures
        (job_ensures_takesOver after.tookAway takes others (running fresh rfl))
        (fun _ _ _ _ => trivial) ran with
        ⟨pc, rfl, goesOn⟩ | ⟨_, _, _, _, _, _, _, _, ⟨pc, rfl, goesOn⟩, _⟩
      · exact ⟨id, self, reqNode, pc, moved, goesOn⟩
      · exact ⟨id, self, reqNode, pc, moved, goesOn⟩
  · have waiting : (Job.servWr reqNode pc).commits = false := by
      cases pc <;> first | rfl | contradiction
    obtain ⟨pc, rfl, goesOn⟩ := Stmt.fail_ensures
      (job_ensures_takesOver after.tookAway takes (fetched rfl) waiting) failed
    exact ⟨id, self, reqNode, pc, moved, goesOn⟩

/-- A callback that has not failed is waited for by a request. -/
theorem awaited_of_attended (linked : Linked cfg st) {id : HandlerId} {handler : PageHandler}
    (present : st.handler id = some handler) (callback : handler.job.kind.serves = false)
    (attended : ¬st.GivenUp id) :
    ∃ caller request, st.handler caller = some request ∧ request.job.awaits? = some id := by
  unfold GivenUp at attended
  rcases not_and_or.mp attended with byApp | byHandler
  · push Not at byApp
    obtain ⟨asking, rq, pc, inside, waits⟩ := byApp
    obtain ⟨found, foundPresent, -, kind⟩ := linked.appCall inside waits
    obtain rfl : handler = found := by simpa [present] using foundPresent
    rw [kind] at callback
    cases rq <;> contradiction
  · push Not at byHandler
    exact byHandler

/-- A callback that has not failed takes the page for a request that takes over. -/
theorem handingOver_of_revokes (linked : Linked cfg st) {id fresh : HandlerId} {owner : NodeId}
    {job : Job} (present : st.handler id = some ⟨owner, job⟩)
    (revokes : job.revokes? = some .none) (attended : ¬st.GivenUp id)
    (taken : st.step cfg base (.handler id fresh) = some after) :
    st.HandingOver ∨ after.HandingOver := by
  have callback : job.kind.serves = false := by
    cases job <;> first | rfl | contradiction
  obtain ⟨caller, ⟨callerNode, callerJob⟩, callerPresent, waits⟩ :=
    awaited_of_attended linked present callback attended
  obtain ⟨callee, found, called⟩ := linked.handlerCall callerPresent waits
  obtain rfl : ⟨owner, job⟩ = callee := by simpa [present] using found
  cases callerJob with
  | servRd reqNode pc =>
      cases pc <;> try contradiction
      case fetching ownerNode call =>
        obtain ⟨-, kind⟩ := called
        cases job <;> simp_all [Job.kind, Job.revokes?]
        rename_i pc
        cases pc <;> simp at revokes
  | servWr reqNode pc =>
      cases pc <;> try contradiction
      case fetching ownerNode ivldSet call =>
        obtain rfl := Option.some.inj waits
        refine .inr ⟨caller, callerNode, reqNode, .fetching ownerNode ivldSet call, ?_, ?_⟩
        · rcases step_instance taken callerPresent with stays | ⟨_, _, ⟨_, _, same, -⟩ | ⟨same, -⟩⟩
          · exact stays
          · obtain ⟨rfl, -⟩ := PageAction.handler.inj same
            exact absurd (callerPresent.symm.trans present) (by rintro ⟨⟩; contradiction)
          · contradiction
        · obtain ⟨handler, next, between, again, ran, rfl⟩ := step_handler taken
          obtain rfl : ⟨owner, job⟩ = handler := by simpa [present] using again
          obtain ⟨rfl, kind⟩ := called
          change (PageState.setHandler _ _ _).tookAway call = true
          cases job with
          | fetch accessType pc =>
              obtain rfl := JobKind.fetch.inj kind
              cases pc <;> simp [Job.revokes?] at revokes
              obtain ⟨rfl, rfl⟩ := ran
              simp [tookAway, Job.tookAway]
          | _ => contradiction
      case invalidateSent ownerNode contents nodes call =>
        exact .inl ⟨caller, callerNode, reqNode, _, callerPresent, rfl⟩
  | fetch accessType pc => contradiction
  | invalidate pc => contradiction

/-! ### The recorded owner -/

section Owner

variable (zero : cfg.managerId = 0) (single : cfg.appThreads = 1) (locksHeld : LocksHeld cfg st)
variable (linked : Linked cfg st)

include single linked

/-- A request that has not failed is waited for by the thread of its node. -/
theorem asked_of_attended {id : HandlerId} {self : NodeId} {job : Job} {rq : Rq}
    (present : st.handler id = some ⟨self, job⟩) (kind : job.kind = rq.kind node)
    (attended : ¬st.GivenUp id) : st.app (thread node) = some (rq, .asking id) := by
  unfold GivenUp at attended
  rcases not_and_or.mp attended with byApp | byHandler
  · push Not at byApp
    obtain ⟨asking, rq', pc, inside, waits⟩ := byApp
    obtain rfl := FaultPc.awaits?_eq_some waits
    obtain ⟨found, foundPresent, -, foundKind⟩ := linked.appCall inside rfl
    obtain rfl : ⟨self, job⟩ = found := by simpa [present] using foundPresent
    have same : rq.kind node = rq'.kind asking.node := kind.symm.trans foundKind
    obtain ⟨rfl, rfl⟩ : rq = rq' ∧ node = asking.node := by
      cases rq <;> cases rq' <;> simp_all [Rq.kind]
    rwa [← thread_eq single (linked.runs inside)]
  · push Not at byHandler
    obtain ⟨caller, handler, callerPresent, waits⟩ := byHandler
    obtain ⟨callee, found, called⟩ := linked.handlerCall callerPresent waits
    obtain rfl : ⟨self, job⟩ = callee := by simpa [present] using found
    obtain ⟨callerNode, callerJob⟩ := handler
    have callback : Job.Callee callerJob self (rq.kind node) := kind ▸ called
    cases callerJob with
    | servRd reqNode pc => cases pc <;> cases rq <;> simp [Job.Callee, Rq.kind] at callback
    | servWr reqNode pc => cases pc <;> cases rq <;> simp [Job.Callee, Rq.kind] at callback
    | fetch accessType pc => contradiction
    | invalidate pc => contradiction

include zero locksHeld

/-- While a write request holds the manager's page lock, the read requests of a
provided node that are still to be served have failed. -/
theorem settled_of_provided {id : HandlerId} {reqNode : NodeId} {pc : WrPc}
    (present : st.handler id = some ⟨0, .servWr reqNode pc⟩)
    (held : (Job.servWr reqNode pc).held true .pageLocks = true) (provided : st.Provided node)
    (served : ¬st.ReadGivenUp node) : st.Settled node := by
  refine ⟨provided, fun other self pc' found => ?_⟩
  have manager : cfg.isManager 0 = true := by simp [zero]
  obtain rfl : self = 0 := linked.atManager found rfl
  have mine : st.Holds cfg 0 .pageLocks (.handler id) := ⟨_, present, rfl, manager ▸ held⟩
  have apart : (Job.servRd node pc').held true .pageLocks = true → pc'.unserved = false := by
    intro heldToo
    have others : st.Holds cfg 0 .pageLocks (.handler other) := ⟨_, found, rfl, manager ▸ heldToo⟩
    obtain rfl := Tid.handler.inj (locksHeld.unique mine others)
    simp [present] at found
  cases pc' with
  | done contents => rfl
  | entry =>
      by_cases givenUp : st.GivenUp other
      · exact absurd ⟨other, 0, found, givenUp⟩ served
      · have inside : st.app (thread node) = some (.rd, .asking other) :=
          asked_of_attended single linked found rfl givenUp
        have replied := (provided_of_reads inside).mp provided
        simp [FaultPc.hasPage, reply?, found, Job.reply?] at replied
  | _ => exact apart rfl

/-- The requester of a write request that commits is settled, unless the commit
strands it. -/
theorem settled_of_commits {id fresh : HandlerId} {reqNode owner : NodeId} {contents : Reply}
    (present : st.handler id = some ⟨0, .servWr reqNode (.cleared owner contents)⟩)
    (worker : reqNode ≠ 0) (unstranded : ¬st.Strands (.handler id fresh)) :
    st.Settled reqNode := by
  refine settled_of_provided zero single locksHeld linked present rfl ?_ fun asks =>
    unstranded (.lateRead present worker asks)
  by_contra asks
  by_cases givenUp : st.GivenUp id
  · exact unstranded (.lateGrant present worker givenUp asks)
  · have kind : (Job.servWr reqNode (.cleared owner contents)).kind = Rq.wr.kind reqNode := rfl
    exact asks (provided_of_writes _ (asked_of_attended single linked present kind givenUp))

/-- Without stranding effects the recorded owner stays settled. -/
theorem OwnerSettled.step (fits : base < wordCount) (ownerRead : OwnerRead st)
    (mapped : st.Mapped cfg) (settled : st.OwnerSettled) (unstranded : ¬st.Strands action)
    (taken : st.step cfg base action = some after) : after.OwnerSettled := by
  intro owner recorded worker
  by_cases commits : ∃ id fresh handler, action = .handler id fresh ∧
      st.handler id = some handler ∧ handler.job.commits = true
  · obtain ⟨id, fresh, ⟨self, job⟩, rfl, present, commits⟩ := commits
    obtain ⟨reqNode, ownerNode, contents, rfl⟩ := Job.eq_cleared commits
    obtain rfl : self = 0 := linked.atManager present rfl
    have replaced : (after.node 0).info.owner = reqNode := by
      obtain ⟨handler, next, between, again, ran, rfl⟩ := step_handler taken
      obtain rfl : ⟨0, .servWr reqNode (.cleared ownerNode contents)⟩ = handler := by
        simpa [present] using again
      obtain ⟨rfl, rfl⟩ := ran
      simp [setHandler, setNode]
    obtain rfl : reqNode = owner := replaced.symm.trans recorded
    have before := settled_of_commits zero single locksHeld linked present worker unstranded
    refine .inl (before.step single linked mapped zero fits worker ⟨?_, by simp⟩ taken)
    intro id' fresh' job same found revokes
    obtain ⟨rfl, -⟩ := PageAction.handler.inj same
    obtain ⟨-, rfl⟩ := PageHandler.mk.inj (Option.some.inj (present.symm.trans found))
    contradiction
  · have running : ∀ id fresh handler, action = .handler id fresh →
        st.handler id = some handler → handler.job.commits = false := by
      intro id fresh handler same present
      by_contra commit
      exact commits ⟨id, fresh, handler, same, present, by simpa using commit⟩
    rw [step_owner 0 running taken] at recorded
    by_cases handing : st.HandingOver
    · obtain ⟨id, self, reqNode, pc, present, takes⟩ := handing
      obtain rfl : self = 0 := linked.atManager present rfl
      by_cases lost : action = .failHandler id ∧ ∃ fetched ivldSet call, pc = .fetching fetched ivldSet call
      · obtain ⟨rfl, fetched, ivldSet, call, rfl⟩ := lost
        obtain rfl : owner = fetched := recorded.symm.trans (ownerRead id _ fetched present rfl)
        have kept : ¬(¬st.Provided owner ∨ st.ReadGivenUp owner) := fun asks =>
          unstranded (.lostFetch present takes asks)
        obtain ⟨provided, served⟩ := not_or.mp kept
        have before := settled_of_provided zero single locksHeld linked present rfl
          (not_not.mp provided) served
        exact .inl (before.step single linked mapped zero fits worker ⟨by simp, by simp⟩ taken)
      · refine .inr (HandingOver.step present takes
          (fun fresh same => running id fresh _ same present) ?_ taken)
        intro same fetched ivldSet call fetching
        exact lost ⟨same, fetched, ivldSet, call, fetching⟩
    · have before := (settled owner recorded worker).resolve_right handing
      by_cases takes : ∃ id fresh job, action = .handler id fresh ∧
          st.handler id = some ⟨owner, job⟩ ∧ job.revokes? = some .none ∧
          ∀ pc, st.app (thread owner) ≠ some (.wr, pc)
      · obtain ⟨id, fresh, job, rfl, present, revokes, noWrite⟩ := takes
        by_cases givenUp : st.GivenUp id
        · exact absurd (.lateCallback present revokes givenUp recorded worker handing noWrite)
            unstranded
        · exact .inr ((handingOver_of_revokes linked present revokes givenUp taken
            ).resolve_left handing)
      · refine .inl (before.step single linked mapped zero fits worker ⟨?_, ?_⟩ taken)
        · intro id fresh job same present revokes
          by_contra outside
          push Not at outside
          exact takes ⟨id, fresh, job, same, present, revokes, outside⟩
        · rintro call rfl inside
          have replied := (provided_of_reads inside).mp before.1
          exact unstranded (.lostReply inside replied recorded worker handing)

end Owner

/-- No read request of a worker finds its requester as the owner. -/
theorem OwnerSettled.lookUp (zero : cfg.managerId = 0) (locksHeld : LocksHeld cfg st)
    (linked : Linked cfg st) (settled : st.OwnerSettled) {id : HandlerId} {self reqNode : NodeId}
    (present : st.handler id = some ⟨self, .servRd reqNode .inserted⟩)
    (owned : (st.node self).info.owner = reqNode) : reqNode = 0 := by
  by_contra worker
  obtain rfl : self = 0 := linked.atManager present rfl
  rcases settled reqNode owned worker with ⟨-, served⟩ | ⟨other, self, writer, pc, found, takes⟩
  · have stillDue := served id 0 .inserted present
    contradiction
  · obtain rfl : self = 0 := linked.atManager found rfl
    have manager : cfg.isManager 0 = true := by simp [zero]
    have mine : st.Holds cfg 0 .pageLocks (.handler id) := ⟨_, present, rfl, rfl⟩
    have theirs : st.Holds cfg 0 .pageLocks (.handler other) :=
      ⟨_, found, rfl, by rw [manager]; exact WrPc.held_of_takesOver takes⟩
    obtain rfl := Tid.handler.inj (locksHeld.unique mine theirs)
    simp [present] at found

theorem OwnerSettled.initial : PageState.initial.OwnerSettled := by
  intro owner recorded worker
  exact absurd recorded.symm worker

/-- Nothing is stranded as long as every instance has its caller. -/
theorem not_strands_of_attended (attended : Attended st) (reliable : action.reliable = true) :
    ¬st.Strands action := by
  have called : ∀ {id handler}, st.handler id = some handler → handler.job.reply? = none →
      ¬st.GivenUp id := by
    intro id handler present running givenUp
    rcases attended present running with ⟨asking, rq, pc, inside, waits⟩ |
      ⟨caller, request, callerPresent, waits⟩
    · exact givenUp.1 asking rq pc inside waits
    · exact givenUp.2 caller request callerPresent waits
  intro strands
  cases strands with
  | lostFetch present taken asks => contradiction
  | @lateCallback id fresh owner job present revokes givenUp recorded worker kept noWrite =>
      refine called present ?_ givenUp
      cases job with
      | fetch accessType pc => cases pc <;> first | rfl | contradiction
      | invalidate pc => cases pc <;> first | rfl | contradiction
      | _ => contradiction
  | lateGrant present worker givenUp asks => exact called present rfl givenUp
  | lateRead present worker asks =>
      obtain ⟨id, self, found, givenUp⟩ := asks
      exact called found rfl givenUp
  | lostReply inside replied recorded worker kept => contradiction

end PageState

end Settled

/-! ### Where requests are served -/

/-- Read requests of workers are served on node `0`, whoever the manager is. -/
def PageState.ServedAtZero (cfg : Config) (st : PageState) : Prop :=
  ∀ id self reqNode pc, st.handler id = some ⟨self, .servRd reqNode pc⟩ →
    cfg.isManager reqNode = false → self = 0

theorem PageState.ServedAtZero.step {cfg : Config} {base : Addr} {st after : PageState}
    {action : PageAction} (fits : base < wordCount)
    (runs : ∀ {thread rq pc}, st.app thread = some (rq, pc) → cfg.runs thread = true)
    (servedAt : st.ServedAtZero cfg) (taken : st.step cfg base action = some after) :
    after.ServedAtZero cfg := by
  intro id self reqNode pc present worker
  cases old : st.handler id with
  | some handler =>
      obtain ⟨job, kept, kind, -⟩ := step_keeps taken id handler old
      obtain ⟨rfl, rfl⟩ := PageHandler.mk.inj (Option.some.inj (kept.symm.trans present))
      obtain ⟨node, job⟩ := handler
      cases job with
      | servRd asking before =>
          obtain rfl : reqNode = asking := JobKind.servRd.inj kind
          exact servedAt id node reqNode before old worker
      | _ => contradiction
  | none =>
      rcases step_started taken old present with
        ⟨asking, rq, before, fn, body, target, addr, inside, row, accepted⟩ | callback
      · obtain ⟨served, kind⟩ :=
          faultHdlr_request fits (Config.node_fits (runs inside)) row accepted
        cases rq with
        | wr => contradiction
        | rd =>
            obtain rfl : reqNode = asking.node := JobKind.servRd.inj kind
            simpa [worker] using served
      · contradiction

/-! ### Every run -/

section Runs

variable {cfg : Config} {base : Nat} {allowed : Sys → Action → Prop} {trace : List Event} {s : Sys}

/-- A worker can read what its fault handler has mapped, in every run. -/
theorem page_mapped (zero : cfg.managerId = 0) (aligned : 4096 ∣ base) (fits : base < wordCount)
    (run : Run (machine cfg) allowed trace s) : (s.view base).Mapped cfg := by
  refine page_invariant (fun st _ => st.Mapped cfg) aligned .initial ?_ run
  intro trace s action pageAction st run _ _ _ mapped taken
  exact mapped.step (page_ordered zero aligned fits run).1 taken

/-- In every run without stranding effects the owner of a page stays settled. -/
theorem page_ownerSettled (zero : cfg.managerId = 0) (single : cfg.appThreads = 1)
    (aligned : 4096 ∣ base) (fits : base < wordCount)
    (unstranded : ∀ {s action pageAction}, allowed s action → action.onPage = some pageAction →
      ¬(s.view (s.pageOf action)).Strands pageAction)
    (run : Run (machine cfg) allowed trace s) : (s.view base).OwnerSettled := by
  refine page_invariant (fun st _ => st.OwnerSettled) aligned .initial ?_ run
  rintro trace s action pageAction st run permitted rfl onPage settled taken
  obtain ⟨locksHeld, linked⟩ := page_ordered zero aligned fits run
  exact settled.step zero single locksHeld linked fits (page_ownerRead zero aligned fits run)
    (page_mapped zero aligned fits run) (unstranded permitted onPage) taken

theorem page_servedAtZero (aligned : 4096 ∣ base) (fits : base < wordCount)
    (run : Run (machine cfg) allowed trace s) : (s.view base).ServedAtZero cfg := by
  refine page_invariant (fun st _ => st.ServedAtZero cfg) aligned ?_ ?_ run
  · intro id self reqNode pc present
    contradiction
  · intro trace s action pageAction st run _ _ _ servedAt taken
    have addressed := Addressed.of_reachable run.reachable
    refine servedAt.step fits ?_ taken
    intro thread rq pc inView
    obtain ⟨addr, inside, -⟩ := App.view_eq_some ((s.view_app base thread).symm.trans inView)
    exact (addressed.fault inside).2

end Runs

end LibIvy
