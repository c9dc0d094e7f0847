import LibIvy.Page.OwnerRead
import LibIvy.Page.Usable

/-!
Contract: calls that failed can leave the recorded owner of a page without it.

Owns: what keeps a node from asking for the page, the effects of failed calls that take
this away from a recorded owner, where the instances of a page are after a step, and
that a worker can read what its fault handler has mapped.

Does not own: what holds without these effects; see `LibIvy.Page.OwnerSettled`.
-/

namespace LibIvy

open Lib NumberText TransitionSystem

/-! ### Nodes that need not ask -/

/-- The fault handler has the page, or its reply is there. -/
def FaultPc.hasPage (reply? : HandlerId → Option Reply) : FaultPc → Bool
  | .asking call => (reply? call).isSome
  | .got _ => true
  | .opened _ => true
  | .copied => true
  | .closed => true
  | .noted => true
  | _ => false

/-- The fault handler has set the protection of the page. -/
def FaultPc.mapped : FaultPc → Bool
  | .opened _ => true
  | .copied => true
  | .closed => true
  | .noted => true
  | _ => false

/-- A read request that has not got the owner's page, and may look up the owner
again. -/
def RdPc.unserved : RdPc → Bool
  | .fetched _ => false
  | .infoUnlocked _ => false
  | .done _ => false
  | .aborted => false
  | _ => true

/-- The fetch has taken all access from its node. -/
def Job.tookAway : Job → Bool
  | .fetch .none (.restricted _) => true
  | .fetch .none (.done _) => true
  | _ => false

/-- A write request that has taken the page from its owner, or did not need to, and
is about to replace the owner. -/
def WrPc.takesOver (tookAway : HandlerId → Bool) : WrPc → Bool
  | .fetching _ _ call => tookAway call
  | .invalidating _ _ _ => true
  | .invalidateSent _ _ _ _ => true
  | .sent _ _ => true
  | .cleared _ _ => true
  | _ => false

namespace PageState

/-- The node can read the page, has it at hand in a read fault, or is inside a write
fault. The manager answers the write requests of an owner without a call. -/
def Provided (st : PageState) (node : NodeId) : Prop :=
  match st.app (thread node) with
  | none => (st.node node).prot.readable = true
  | some (.rd, pc) => pc.hasPage st.reply? = true
  | some (.wr, _) => True

/-- Nobody waits for the instance: its caller has got an error. -/
def GivenUp (st : PageState) (id : HandlerId) : Prop :=
  (∀ thread rq pc, st.app thread = some (rq, pc) → pc.awaits? ≠ some id) ∧
    ∀ caller handler, st.handler caller = some handler → handler.job.awaits? ≠ some id

/-- A read request that the node has given up has still to be served. -/
def ReadGivenUp (st : PageState) (node : NodeId) : Prop :=
  ∃ id self, st.handler id = some ⟨self, .servRd node .entry⟩ ∧ st.GivenUp id

/-- The node need not ask for the page, and no read request of it looks up the owner. -/
def Settled (st : PageState) (node : NodeId) : Prop :=
  st.Provided node ∧
    ∀ id self pc, st.handler id = some ⟨self, .servRd node pc⟩ → pc.unserved = false

def tookAway (st : PageState) (call : HandlerId) : Bool :=
  (st.handler call).any fun callee => callee.job.tookAway

/-- A write request is about to replace the owner. -/
def HandingOver (st : PageState) : Prop :=
  ∃ id self reqNode pc, st.handler id = some ⟨self, .servWr reqNode pc⟩ ∧
    pc.takesOver st.tookAway = true

/-- Effects of failed calls after which the recorded owner of a page, a worker, may
ask for it. -/
inductive Strands (st : PageState) : PageAction → Prop where
  /-- A fetch has taken the page from its owner, and fails. -/
  | lostFetch {id : HandlerId} {self reqNode owner : NodeId} {ivldSet : List NodeId}
      {call : HandlerId}
      (present : st.handler id = some ⟨self, .servWr reqNode (.fetching owner ivldSet call)⟩)
      (taken : st.tookAway call = true) (asks : ¬st.Provided owner ∨ st.ReadGivenUp owner) :
      Strands st (.failHandler id)
  /-- A fetch or an invalidation that has failed takes the page from the owner. -/
  | lateCallback {id fresh : HandlerId} {owner : NodeId} {job : Job}
      (present : st.handler id = some ⟨owner, job⟩) (revokes : job.revokes? = some .none)
      (givenUp : st.GivenUp id) (recorded : (st.node 0).info.owner = owner) (worker : owner ≠ 0)
      (kept : ¬st.HandingOver) (noWrite : ∀ pc, st.app (thread owner) ≠ some (.wr, pc)) :
      Strands st (.handler id fresh)
  /-- A write request that has failed makes its requester the owner. -/
  | lateGrant {id fresh : HandlerId} {self reqNode owner : NodeId} {contents : Reply}
      (present : st.handler id = some ⟨self, .servWr reqNode (.cleared owner contents)⟩)
      (worker : reqNode ≠ 0) (givenUp : st.GivenUp id) (asks : ¬st.Provided reqNode) :
      Strands st (.handler id fresh)
  /-- A write request makes its requester the owner ahead of a read request that has
  failed. -/
  | lateRead {id fresh : HandlerId} {self reqNode owner : NodeId} {contents : Reply}
      (present : st.handler id = some ⟨self, .servWr reqNode (.cleared owner contents)⟩)
      (worker : reqNode ≠ 0) (asks : st.ReadGivenUp reqNode) : Strands st (.handler id fresh)
  /-- The reply to a read request of the owner is lost. -/
  | lostReply {owner : NodeId} {call : HandlerId}
      (inside : st.app (thread owner) = some (.rd, .asking call))
      (replied : (st.reply? call).isSome = true) (recorded : (st.node 0).info.owner = owner)
      (worker : owner ≠ 0) (kept : ¬st.HandingOver) : Strands st (.failApp (thread owner))

/-- The recorded owner is settled, unless it is the manager or about to be replaced. -/
def OwnerSettled (st : PageState) : Prop :=
  ∀ owner, (st.node 0).info.owner = owner → owner ≠ 0 → st.Settled owner ∨ st.HandingOver

/-- A worker can read a page that its fault handler has mapped. -/
def Mapped (cfg : Config) (st : PageState) : Prop :=
  ∀ thread rq pc, st.app thread = some (rq, pc) → cfg.isManager thread.node = false →
    pc.mapped = true → (st.node thread.node).prot.readable = true

end PageState

/-! ### Rows -/

section Rows

variable {cfg : Config} {self : NodeId} {base : Addr}

theorem FaultPc.held_of_mapped {pc : FaultPc} (mapped : pc.mapped = true) :
    pc.held false .pageLocks = true := by
  cases pc <;> first | rfl | contradiction

/-- Whatever a fault handler sets, the page can be read. -/
theorem FaultPc.readable_of_prot? {rq : Rq} {pc : FaultPc} {access : AccessType}
    (sets : pc.prot? rq = some access) : access.readable = true := by
  cases rq <;> cases pc <;> simp_all [FaultPc.prot?] <;> subst sets <;> simp

/-- A fault handler sets a protection before the position counts as mapped. -/
theorem faultHdlr_ensures_mapped (rq : Rq) (pc : FaultPc) :
    (faultHdlr cfg rq self base pc).Ensures
      (fun next => next.mapped = true →
        pc.mapped = true ∨ (faultHdlr cfg rq self base pc).prot? ≠ none)
      (fun _ next => next.mapped = false) fun _ => True := by
  cases rq <;> cases pc <;>
    simp only [faultHdlr, rdFaultHdlr, wrFaultHdlr, Stmt.ensures_ite, Stmt.prot?_ite] <;>
    simp [Stmt.Ensures, Stmt.prot?, FaultPc.mapped]

/-- A fault handler that has its reply keeps the page until it returns. -/
theorem faultHdlr_ensures_hasPage (rq : Rq) {pc : FaultPc} {reply? : HandlerId → Option Reply}
    (answered : pc.awaits? = none) (has : pc.hasPage reply? = true) :
    (faultHdlr cfg rq self base pc).Ensures
      (fun next => next ≠ .returned → next.hasPage reply? = true) (fun _ _ => False)
      fun _ => True := by
  cases rq <;> cases pc <;>
    simp only [faultHdlr, rdFaultHdlr, wrFaultHdlr, Stmt.ensures_ite] <;>
    simp_all [Stmt.Ensures, FaultPc.hasPage, FaultPc.awaits?]

/-- Only the last position leads to a return. -/
theorem faultHdlr_ensures_noted (rq : Rq) (pc : FaultPc) :
    (faultHdlr cfg rq self base pc).Ensures (fun next => next = .returned → pc = .noted)
      (fun _ next => next = .returned → pc = .noted) fun _ => True := by
  cases rq <;> cases pc <;>
    simp only [faultHdlr, rdFaultHdlr, wrFaultHdlr, Stmt.ensures_ite] <;>
    simp [Stmt.Ensures]

/-- A read request that has the page does not go back. -/
theorem job_ensures_served {reqNode : NodeId} {pc : RdPc} (served : pc.unserved = false) :
    ((Job.servRd reqNode pc).stmt cfg self base).Ensures
      (fun next => ∃ pc, next = .servRd reqNode pc ∧ pc.unserved = false)
      (fun _ next => ∃ pc, next = .servRd reqNode pc ∧ pc.unserved = false) fun _ => True := by
  rw [Job.stmt, Stmt.ensures_map]
  cases pc <;> simp only [servRdRq, Stmt.ensures_ite] <;>
    simp_all [Stmt.Ensures, RdPc.unserved]

/-- A fetch that has taken the page returns. -/
theorem job_ensures_tookAway {job : Job} (took : job.tookAway = true) :
    (job.stmt cfg self base).Ensures (fun next => next.tookAway = true)
      (fun _ next => next.tookAway = true) fun _ => True := by
  cases job with
  | fetch accessType pc =>
      rw [Job.stmt, Stmt.ensures_map]
      cases accessType <;> cases pc <;> simp only [fetchPg, Stmt.ensures_ite] <;>
        simp_all [Stmt.Ensures, Job.tookAway]
  | _ => contradiction

/-- After its fetch a write request goes on until it replaces the owner. -/
theorem job_ensures_takesOver {reqNode : NodeId} {pc : WrPc} {took : HandlerId → Bool}
    (later : HandlerId → Bool) (takes : pc.takesOver took = true)
    (fetched : ∀ owner ivldSet call, pc ≠ .fetching owner ivldSet call)
    (running : (Job.servWr reqNode pc).commits = false) :
    ((Job.servWr reqNode pc).stmt cfg self base).Ensures
      (fun next => ∃ pc, next = .servWr reqNode pc ∧ pc.takesOver later = true)
      (fun _ next => ∃ pc, next = .servWr reqNode pc ∧ pc.takesOver later = true)
      fun _ => True := by
  rw [Job.stmt, Stmt.ensures_map]
  cases pc
  case fetching owner ivldSet call => exact absurd rfl (fetched owner ivldSet call)
  case invalidating owner contents nodes =>
    cases nodes <;> simp [servWrRq, Stmt.Ensures, WrPc.takesOver]
  case invalidateSent owner contents nodes call =>
    refine ⟨fun reply _ => ?_, _, rfl, rfl⟩
    dsimp only
    split <;> exact ⟨_, rfl, rfl⟩
  case sent => exact ⟨_, rfl, rfl⟩
  all_goals contradiction

theorem WrPc.held_of_takesOver {reqNode : NodeId} {pc : WrPc} {took : HandlerId → Bool}
    (takes : pc.takesOver took = true) : (Job.servWr reqNode pc).held true .pageLocks = true := by
  cases pc <;> first | rfl | contradiction

end Rows

/-! ### Instances after a step -/

section Steps

variable {cfg : Config} {base : Addr} {st after : PageState} {action : PageAction}

/-- An instance stays where it is, moves, or fails. -/
theorem PageState.step_instance {id : HandlerId} {handler : PageHandler}
    (taken : st.step cfg base action = some after) (present : st.handler id = some handler) :
    after.handler id = some handler ∨
      ∃ next, after.handler id = some { handler with job := next } ∧
        ((∃ fresh between, action = .handler id fresh ∧
          (handler.job.stmt cfg handler.node base).execOnPage handler.node (.handler id) fresh st =
            some (next, between)) ∨
        action = .failHandler id ∧ (handler.job.stmt cfg handler.node base).fail? = some next) := by
  cases action with
  | store thread offset values =>
      obtain ⟨-, -, -, rfl⟩ := step_store taken
      exact .inl present
  | fault thread rq =>
      obtain ⟨-, -, -, rfl⟩ := step_fault taken
      exact .inl present
  | app thread fresh =>
      obtain ⟨rq, pc, next, between, -, ran, rfl⟩ := step_app taken
      have kept : between.handler id = some handler := Stmt.execOnPage_keeps ran present
      exact .inl kept
  | handler moving fresh =>
      obtain ⟨mover, next, between, found, ran, rfl⟩ := step_handler taken
      by_cases same : id = moving
      · subst same
        obtain rfl : mover = handler := by simpa [present] using found.symm
        exact .inr ⟨next, setHandler_self .., .inl ⟨fresh, between, rfl, ran⟩⟩
      · left
        rw [setHandler_other _ _ same]
        exact Stmt.execOnPage_keeps ran present
  | failApp thread =>
      obtain ⟨rq, pc, next, -, -, rfl⟩ := step_failApp taken
      exact .inl present
  | failHandler moving =>
      obtain ⟨mover, next, found, failed, rfl⟩ := step_failHandler taken
      by_cases same : id = moving
      · subst same
        obtain rfl : mover = handler := by simpa [present] using found.symm
        exact .inr ⟨next, setHandler_self .., .inr ⟨rfl, failed⟩⟩
      · left
        rw [setHandler_other _ _ same]
        exact present

/-- A property that the statements of an instance keep survives every step. -/
theorem PageState.step_moves {id : HandlerId} {handler : PageHandler} {property : Job → Prop}
    (taken : st.step cfg base action = some after) (present : st.handler id = some handler)
    (moves : (handler.job.stmt cfg handler.node base).Ensures property (fun _ => property)
      fun _ => True) (holds : property handler.job) :
    ∃ job, after.handler id = some ⟨handler.node, job⟩ ∧ property job := by
  rcases step_instance taken present with stays | ⟨next, moved, ⟨_, _, -, ran⟩ | ⟨-, failed⟩⟩
  · exact ⟨_, stays, holds⟩
  · refine ⟨next, moved, ?_⟩
    rcases Stmt.execOnPage_ensures moves (fun _ _ _ _ => trivial) ran with kept |
      ⟨_, _, _, _, _, _, _, _, kept, _⟩ <;> exact kept
  · exact ⟨next, moved, Stmt.fail_ensures moves failed⟩

/-- A new instance was called by a fault handler, or serves no request. -/
theorem PageState.step_started {id : HandlerId} {handler : PageHandler}
    (taken : st.step cfg base action = some after) (absent : st.handler id = none)
    (present : after.handler id = some handler) :
    (∃ thread rq pc fn body target addr, st.app thread = some (rq, pc) ∧
      faultHdlr cfg rq thread.node base pc = .call handler.node fn body target ∧
      fn.accept body = some (addr, handler.job)) ∨ handler.job.kind.serves = false := by
  cases action with
  | store thread offset values =>
      obtain ⟨-, -, -, rfl⟩ := step_store taken
      exact absurd (absent.symm.trans present) (by simp)
  | fault thread rq =>
      obtain ⟨-, -, -, rfl⟩ := step_fault taken
      exact absurd (absent.symm.trans present) (by simp)
  | app thread fresh =>
      obtain ⟨rq, pc, next, between, inside, ran, rfl⟩ := step_app taken
      rcases Stmt.execOnPage_handler ran present with old |
        ⟨fn, body, target, addr, row, -, -, accepted⟩
      · exact absurd (absent.symm.trans old) (by simp)
      · exact .inl ⟨thread, rq, pc, fn, body, target, addr, inside, row, accepted⟩
  | handler moving fresh =>
      obtain ⟨mover, next, between, found, ran, rfl⟩ := step_handler taken
      have different : id ≠ moving := by
        intro same
        subst same
        exact absurd (absent.symm.trans found) (by simp)
      rw [setHandler_other _ _ different] at present
      rcases Stmt.execOnPage_handler ran present with old |
        ⟨fn, body, target, addr, row, -, -, accepted⟩
      · exact absurd (absent.symm.trans old) (by simp)
      · exact .inr (job_starts row accepted)
  | failApp thread =>
      obtain ⟨rq, pc, next, -, -, rfl⟩ := step_failApp taken
      exact absurd (absent.symm.trans present) (by simp)
  | failHandler moving =>
      obtain ⟨mover, next, found, failed, rfl⟩ := step_failHandler taken
      have different : id ≠ moving := by
        intro same
        subst same
        exact absurd (absent.symm.trans found) (by simp)
      rw [setHandler_other _ _ different] at present
      exact absurd (absent.symm.trans present) (by simp)

theorem PageState.tookAway_step {call : HandlerId} (took : st.tookAway call = true)
    (taken : st.step cfg base action = some after) : after.tookAway call = true := by
  cases present : st.handler call with
  | none => simp [tookAway, present] at took
  | some callee =>
      have calleeTook : callee.job.tookAway = true := by simpa [tookAway, present] using took
      obtain ⟨job, moved, keeps⟩ :=
        step_moves taken present (job_ensures_tookAway calleeTook) calleeTook
      simpa [tookAway, moved] using keeps

/-- Only a write request that commits replaces an owner. -/
theorem PageState.step_owner (node : NodeId)
    (running : ∀ id fresh handler, action = .handler id fresh → st.handler id = some handler →
      handler.job.commits = false)
    (taken : st.step cfg base action = some after) :
    (after.node node).info.owner = (st.node node).info.owner := by
  cases action with
  | store thread offset values =>
      obtain ⟨-, -, -, rfl⟩ := step_store taken
      refine setNode_field (·.info.owner) ?_ node
      rfl
  | fault thread rq =>
      obtain ⟨-, -, -, rfl⟩ := step_fault taken
      rfl
  | app thread fresh =>
      obtain ⟨rq, pc, next, between, -, ran, rfl⟩ := step_app taken
      exact Stmt.execOnPage_owner (faultHdlr_keepsOwner rq pc) ran node
  | handler id fresh =>
      obtain ⟨handler, next, between, present, ran, rfl⟩ := step_handler taken
      exact Stmt.execOnPage_owner (job_keepsOwner (running id fresh handler rfl present)) ran node
  | failApp thread =>
      obtain ⟨rq, pc, next, -, -, rfl⟩ := step_failApp taken
      rfl
  | failHandler id =>
      obtain ⟨handler, next, -, -, rfl⟩ := step_failHandler taken
      rfl

end Steps

/-! ### A mapped page stays readable -/

namespace PageState.Mapped

variable {cfg : Config} {base : Addr} {st after : PageState}

theorem initial : PageState.initial.Mapped cfg := by
  intro thread rq pc inside
  contradiction

theorem occupies {thread : AppId} {rq : Rq} {pc : FaultPc}
    (inside : st.app thread = some (rq, pc)) (mapped : pc.mapped = true) :
    st.Occupies thread.node (.app thread) :=
  ⟨rfl, rq, pc, inside, FaultPc.held_of_mapped mapped⟩

/-- No other thread changes the protection meanwhile. -/
theorem other {σ : Type} {self : NodeId} {mover : Tid} {fresh : HandlerId} {stmt : Stmt σ}
    {next : σ} {between : PageState} {thread : AppId} {rq : Rq} {pc : FaultPc}
    (mapped : st.Mapped cfg) (locksHeld : LocksHeld cfg st)
    (sets : ∀ {access}, stmt.prot? = some access → st.Occupies self mover)
    (ran : stmt.execOnPage self mover fresh st = some (next, between))
    (inside : st.app thread = some (rq, pc)) (worker : cfg.isManager thread.node = false)
    (here : pc.mapped = true) (different : .app thread ≠ mover) :
    (between.node thread.node).prot.readable = true := by
  have alone : ∀ {one other}, st.Occupies thread.node one → st.Occupies thread.node other →
      one = other := fun first second =>
    locksHeld.unique (occupies_holds worker first) (occupies_holds worker second)
  rw [occupied_prot alone sets ran (occupies inside here) different]
  exact mapped thread rq pc inside worker here

theorem step {action : PageAction} (mapped : st.Mapped cfg) (locksHeld : LocksHeld cfg st)
    (taken : st.step cfg base action = some after) : after.Mapped cfg := by
  cases action with
  | store thread offset values =>
      obtain ⟨-, -, -, rfl⟩ := PageState.step_store taken
      intro other rq pc inside worker here
      have readable := mapped other rq pc inside worker here
      rw [← readable]
      refine PageState.setNode_field (·.prot.readable) ?_ other.node
      rfl
  | fault thread rq =>
      obtain ⟨-, -, -, rfl⟩ := PageState.step_fault taken
      intro other rq' pc inside worker here
      by_cases same : other = thread
      · subst same
        obtain ⟨rfl, rfl⟩ : rq = rq' ∧ .entry = pc := by simpa [PageState.setApp] using inside
        contradiction
      · exact mapped other rq' pc (by simpa [PageState.setApp, same] using inside) worker here
  | app thread fresh =>
      obtain ⟨rq, pc, next, between, inside, ran, rfl⟩ := PageState.step_app taken
      have sameApps := Stmt.execOnPage_app ran
      intro other rq' pc' insideAfter worker here
      by_cases same : other = thread
      · subst same
        have resumed : resumeOnPage rq next = some (rq', pc') := by
          simpa [PageState.setApp] using insideAfter
        obtain ⟨rfl, rfl, -⟩ := resumeOnPage_eq_some resumed
        change (between.node other.node).prot.readable = true
        rw [Stmt.execOnPage_prot other.node ran, if_pos rfl]
        cases sets : (faultHdlr cfg rq' other.node base pc).prot? with
        | some access =>
            rcases faultHdlr_prot? cfg rq' other.node base pc with none | row
            · simp [none] at sets
            · exact FaultPc.readable_of_prot? (row ▸ sets)
        | none =>
            rcases Stmt.execOnPage_ensures (faultHdlr_ensures_mapped rq' pc)
              (fun _ _ _ _ => trivial) ran with before | ⟨_, _, _, _, _, _, _, _, called, _⟩
            · have wasMapped := (before here).resolve_right (not_not.mpr sets)
              exact mapped other rq' pc inside worker wasMapped
            · simp [called] at here
      · have before : st.app other = some (rq', pc') := by
          rw [← sameApps]
          simpa [PageState.setApp, same] using insideAfter
        have readable := mapped.other locksHeld (occupies_of_app inside) ran before worker here
          fun sameTid => same (Tid.app.inj sameTid)
        exact readable
  | handler id fresh =>
      obtain ⟨handler, next, between, present, ran, rfl⟩ := PageState.step_handler taken
      have sameApps := Stmt.execOnPage_app ran
      intro thread rq pc inside worker here
      have before : st.app thread = some (rq, pc) := sameApps ▸ inside
      have readable := mapped.other locksHeld
        (fun sets => occupies_of_handler present (job_prot? ▸ sets)) ran before worker here
        (by simp)
      exact readable
  | failApp thread =>
      obtain ⟨rq, pc, next, inside, failed, rfl⟩ := PageState.step_failApp taken
      intro other rq' pc' insideAfter worker here
      by_cases same : other = thread
      · subst same
        have resumed : resumeOnPage rq next = some (rq', pc') := by
          simpa [PageState.setApp] using insideAfter
        obtain ⟨rfl, rfl, -⟩ := resumeOnPage_eq_some resumed
        obtain ⟨_, call, _, row, waits⟩ := Stmt.fail_awaits failed
        obtain rfl := FaultPc.awaits?_eq_some ((faultHdlr_awaits? ..).symm.trans waits)
        have unmapped := Stmt.fail_ensures (faultHdlr_ensures_mapped rq' _) failed here
        rw [row] at unmapped
        simp [FaultPc.mapped, Stmt.prot?] at unmapped
      · exact mapped other rq' pc' (by simpa [PageState.setApp, same] using insideAfter) worker here
  | failHandler id =>
      obtain ⟨handler, next, -, -, rfl⟩ := PageState.step_failHandler taken
      exact mapped

end PageState.Mapped

end LibIvy
