import LibIvy.Page.FaultSteps

/-!
Contract: every step of a served function is a step of the protocol, or none.

Owns: the simulation for the positions of `serv_rd_rq`, `serv_wr_rq`, `fetch_pg`
and `invalidate_adapter`.

Does not own: the fault handlers; see `LibIvy.Page.FaultSteps`.
-/

namespace LibIvy

open Lib Protocol

section Requests

variable {cfg : Config} {base : Addr} {regime : Regime Page} {st : PageState} {current : Page}
variable {id : HandlerId} {reqNode : NodeId} {rq : Rq} {job next : Job}

/-! ### The instance that serves a request -/

/-- The request in service after a statement of its instance on node `0`. -/
theorem protocolState_served {nd : NodePage} (zero : cfg.managerId = 0)
    (afterHeld : LocksHeld cfg ((st.setNode 0 nd).setHandler id ⟨0, next⟩))
    (same : nd.prot = (st.node 0).prot ∧ nd.bytes = (st.node 0).bytes)
    (running : st.reply? id = none) (held : next.held true .pageLocks = true)
    (others : ∀ call, next.awaits? = some call → call ≠ id) :
    ((st.setNode 0 nd).setHandler id ⟨0, next⟩).protocolState current =
      { st.protocolState current with
        copyset := nd.info.copyset
        owner := nd.info.owner }.serve (next.serving st.isAsking st.progress id) := by
  rw [PageState.protocolState_frame st ((st.setNode 0 nd).setHandler id ⟨0, next⟩) rfl
    (PageState.setNode_field (·.prot) same.1) (PageState.setNode_field (·.bytes) same.2)]
  · have serving := afterHeld.serving_eq zero (PageState.setHandler_self ..) held
    have sameServing : next.serving ((st.setNode 0 nd).setHandler id ⟨0, next⟩).isAsking
        ((st.setNode 0 nd).setHandler id ⟨0, next⟩).progress id =
          next.serving st.isAsking st.progress id := by
      refine Job.serving_congr (fun _ => rfl) fun call waits => ?_
      rw [PageState.progress_setHandler, if_neg (others call waits)]
      rfl
    rw [serving, sameServing]
    simp [PageState.setHandler, PageState.setNode, State.serve]
  · intro node rq call _
    rw [PageState.reply?_setHandler]
    split
    · rename_i sameId
      rw [sameId, running]
      exact (Job.serves_of_held held).2
    · rfl

/-- The threads that wait for a request are its requester. -/
theorem asker_eq (linked : Linked cfg st) {node : NodeId} {rq rq' : Rq} {handler : PageHandler}
    (present : st.handler id = some handler) (kind : handler.job.kind = rq.kind reqNode)
    (inside : st.app (PageState.thread node) = some (rq', .asking id)) :
    rq' = rq ∧ node = reqNode := by
  obtain ⟨found, foundPresent, -, foundKind⟩ := linked.appCall inside rfl
  obtain rfl : handler = found := by simpa [present] using foundPresent
  rw [kind] at foundKind
  cases rq <;> cases rq' <;> simp_all [Rq.kind, PageState.thread]

/-- A requester that waits for a running instance is asking. -/
theorem asking_of_isAsking (linked : Linked cfg st) {handler : PageHandler}
    (present : st.handler id = some handler) (kind : handler.job.kind = rq.kind reqNode)
    (running : handler.job.reply? = none) (live : st.isAsking reqNode id = true) :
    st.app (PageState.thread reqNode) = some (rq, .asking id) ∧ st.phase reqNode = .asking rq := by
  have inside : st.app (PageState.thread reqNode) = some (rq, .asking id) := by
    simp only [PageState.isAsking] at live
    split at live
    · contradiction
    · rename_i rq' pc inside
      obtain rfl := FaultPc.awaits?_eq_some (beq_iff_eq.mp live)
      rw [inside, (asker_eq linked present kind inside).1]
  refine ⟨inside, ?_⟩
  simp [PageState.phase, inside, FaultPc.phase, PageState.reply?, present, running]

/-- Without failures the requester still waits. -/
theorem live_of_attended (linked : Linked cfg st) (single : cfg.appThreads = 1)
    (attended : Attended st) {handler : PageHandler} (present : st.handler id = some handler)
    (kind : handler.job.kind = rq.kind reqNode) (running : handler.job.reply? = none) :
    st.isAsking reqNode id = true := by
  rcases attended present running with ⟨thread, rq', pc, inside, waits⟩ |
    ⟨caller, callerHandler, callerPresent, waits⟩
  · obtain rfl := FaultPc.awaits?_eq_some waits
    have only : thread = PageState.thread thread.node := by
      have runs := (Config.runs_node (linked.runs inside)).2
      obtain ⟨node, idx⟩ := thread
      simp only [single, Nat.lt_one_iff] at runs
      rw [PageState.thread, runs]
    rw [only] at inside
    obtain ⟨-, sameNode⟩ := asker_eq linked present kind inside
    rw [sameNode] at inside
    simp [PageState.isAsking, inside, FaultPc.awaits?]
  · obtain ⟨callee, calleePresent, called⟩ := linked.handlerCall callerPresent waits
    obtain rfl : handler = callee := by simpa [present] using calleePresent
    rw [kind] at called
    cases rq <;> obtain ⟨node, job⟩ := callerHandler <;> cases job <;>
      (rename_i pc; cases pc <;> simp_all [Job.Callee, Rq.kind])

/-- The instance takes the manager's page lock. -/
theorem start_protocol (zero : cfg.managerId = 0) (single : cfg.appThreads = 1)
    (linked : Linked cfg st) {nd : NodePage} (present : st.handler id = some ⟨0, job⟩)
    (afterHeld : LocksHeld cfg ((st.setNode 0 nd).setHandler id ⟨0, next⟩))
    (free : (st.node 0).pageLock = none)
    (same : nd.prot = (st.node 0).prot ∧ nd.bytes = (st.node 0).bytes ∧
      nd.info.copyset = (st.node 0).info.copyset ∧ nd.info.owner = (st.node 0).info.owner)
    (kind : job.kind = rq.kind reqNode) (running : job.reply? = none)
    (held : next.held true .pageLocks = true) (idle : next.awaits? = none)
    (started : next.serving st.isAsking st.progress id =
      some ⟨rq, reqNode, st.isAsking reqNode id, .started⟩)
    (attended : Attended st ∨ regime.lossy) :
    StepOrStay regime (st.protocolState current)
      (((st.setNode 0 nd).setHandler id ⟨0, next⟩).protocolState current) := by
  have notReplied : st.reply? id = none := by simp [PageState.reply?, present, running]
  rw [protocolState_served zero afterHeld ⟨same.1, same.2.1⟩ notReplied held (by simp [idle]),
    same.2.2.1, same.2.2.2, started]
  refine .inr (.start (PageState.serving_none free) ?_)
  split
  · rename_i live
    exact (asking_of_isAsking linked present kind running live).2
  · rename_i lost
    exact attended.resolve_left fun attended =>
      lost (live_of_attended linked single attended present kind running)

/-- The reply of a request reaches its requester when it still waits. -/
theorem phase_granted (linked : Linked cfg st) (present : st.handler id = some ⟨0, job⟩)
    (kind : job.kind = rq.kind reqNode) (running : job.reply? = none) {reply : Reply}
    (returned : next.reply? = some reply) :
    (st.setHandler id ⟨0, next⟩).phase =
      if st.isAsking reqNode id then Function.update st.phase reqNode (.granted rq reply.page?)
      else st.phase := by
  funext node
  by_cases asks : ∃ rq', st.app (PageState.thread node) = some (rq', .asking id)
  · obtain ⟨rq', inside⟩ := asks
    obtain ⟨rfl, rfl⟩ := asker_eq linked present kind inside
    have live : st.isAsking node id = true := by
      simp [PageState.isAsking, inside, FaultPc.awaits?]
    have moved : (st.setHandler id ⟨0, next⟩).app (PageState.thread node) =
        some (rq', .asking id) := inside
    have replied : (st.setHandler id ⟨0, next⟩).reply? id = some reply := by
      simp [PageState.reply?_setHandler, returned]
    rw [if_pos live, Function.update_self]
    simp only [PageState.phase, moved, FaultPc.phase, replied]
  · have kept : (st.setHandler id ⟨0, next⟩).phase node = st.phase node := by
      refine PageState.phase_congr rfl fun rq' call inside => ?_
      rw [PageState.reply?_setHandler, if_neg]
      intro same
      subst same
      exact asks ⟨rq', inside⟩
    rw [kept]
    split
    · rename_i live
      rw [Function.update_of_ne]
      intro same
      subst same
      have inside := (asking_of_isAsking linked present kind running live).1
      exact asks ⟨rq, inside⟩
    · rfl

/-- The instance has released the manager's page lock. -/
theorem protocolState_released :
    ((st.setNode 0 ((st.node 0).setLock .pageLocks none)).setHandler id ⟨0, next⟩).protocolState
        current =
      { (st.protocolState current).serve none with
        app := (st.setHandler id ⟨0, next⟩).phase } := by
  have unlocked : (((st.setNode 0 ((st.node 0).setLock .pageLocks none)).setHandler id
      ⟨0, next⟩).node 0).pageLock = none := by
    simp [PageState.setNode, PageState.setHandler, NodePage.setLock]
  exact State.ext (funext (PageState.setNode_field (·.prot) rfl))
    (funext (PageState.setNode_field (·.bytes) rfl))
    rfl rfl rfl rfl (PageState.serving_none unlocked)

/-- It goes back to its entry. -/
theorem protocolState_retries (running : st.reply? id = none) (idle : next.reply? = none) :
    ((st.setNode 0 ((st.node 0).setLock .pageLocks none)).setHandler id ⟨0, next⟩).protocolState
        current = (st.protocolState current).serve none := by
  have kept : (st.setHandler id ⟨0, next⟩).phase = st.phase := by
    refine funext fun node => PageState.phase_congr rfl fun rq call _ => ?_
    rw [PageState.reply?_setHandler]
    split
    · rename_i sameId
      rw [sameId, running]
      exact idle
    · rfl
  rw [protocolState_released, kept]
  rfl

/-- It replies. -/
theorem protocolState_grants (linked : Linked cfg st)
    (present : st.handler id = some ⟨0, job⟩) (kind : job.kind = rq.kind reqNode)
    (running : job.reply? = none) {reply : Reply} (returned : next.reply? = some reply) :
    ((st.setNode 0 ((st.node 0).setLock .pageLocks none)).setHandler id ⟨0, next⟩).protocolState
        current =
      ((st.protocolState current).serve none).deliver (st.isAsking reqNode id) reqNode
        (.granted rq reply.page?) := by
  rw [protocolState_released, phase_granted linked present kind running returned]
  unfold State.deliver
  split <;> rfl

/-- What the caller of a returned instance has seen of it. -/
theorem progress_replied {call : HandlerId} {callee : PageHandler} {reply : Reply}
    (found : st.handler call = some callee) (replied : st.reply? call = some reply) :
    (∀ access, callee.job.kind = .fetch access →
      (st.progress call).fetch = .closed reply.page?) ∧
    (callee.job.kind = .invalidate → (st.progress call).dropped = true ∧ reply = .ok) := by
  simp only [PageState.reply?, PageState.progress, found, Option.map_some, Option.getD_some] at *
  obtain ⟨node, job⟩ := callee
  cases job with
  | servRd reqNode pc => simp [Job.kind]
  | servWr reqNode pc => simp [Job.kind]
  | fetch access pc =>
      cases pc <;> simp_all [Job.reply?, Job.kind, PageHandler.progress, FetchPc.stage]
  | invalidate pc =>
      cases pc <;> simp_all [Job.reply?, Job.kind, PageHandler.progress, InvalidatePc.hasDropped]

/-! ### Statements of the instance in service -/

/-- A statement on node `0` that keeps its page. -/
theorem served_step (zero : cfg.managerId = 0) (locksHeld : LocksHeld cfg st) {nd : NodePage}
    (present : st.handler id = some ⟨0, job⟩)
    (afterHeld : LocksHeld cfg ((st.setNode 0 nd).setHandler id ⟨0, next⟩))
    (held : job.held true .pageLocks = true ∧ next.held true .pageLocks = true)
    (idle : next.awaits? = none)
    (same : nd.prot = (st.node 0).prot ∧ nd.bytes = (st.node 0).bytes)
    (moves : (st.protocolState current).srv = job.serving st.isAsking st.progress id →
      StepOrStay regime (st.protocolState current)
        ({ st.protocolState current with
          copyset := nd.info.copyset
          owner := nd.info.owner }.serve (next.serving st.isAsking st.progress id))) :
    StepOrStay regime (st.protocolState current)
      (((st.setNode 0 nd).setHandler id ⟨0, next⟩).protocolState current) := by
  have running : st.reply? id = none := by
    simp [PageState.reply?, present, (Job.serves_of_held held.1).2]
  rw [protocolState_served zero afterHeld same running held.2 (by simp [idle])]
  exact moves (locksHeld.serving_eq zero present held.1)

/-- A statement on node `0` that leaves the request at its stage. -/
theorem served_stay (zero : cfg.managerId = 0) (locksHeld : LocksHeld cfg st) {nd : NodePage}
    (present : st.handler id = some ⟨0, job⟩)
    (afterHeld : LocksHeld cfg ((st.setNode 0 nd).setHandler id ⟨0, next⟩))
    (held : job.held true .pageLocks = true ∧ next.held true .pageLocks = true)
    (idle : next.awaits? = none)
    (same : nd.prot = (st.node 0).prot ∧ nd.bytes = (st.node 0).bytes ∧ nd.info = (st.node 0).info)
    (stage : next.serving st.isAsking st.progress id = job.serving st.isAsking st.progress id) :
    StepOrStay regime (st.protocolState current)
      (((st.setNode 0 nd).setHandler id ⟨0, next⟩).protocolState current) := by
  refine served_step zero locksHeld present afterHeld held idle ⟨same.1, same.2.1⟩ fun serving => ?_
  rw [stage, same.2.2]
  exact .inl (State.serve_eq _ serving)

/-- A call. -/
theorem called_step (zero : cfg.managerId = 0) (locksHeld : LocksHeld cfg st)
    (linked : Linked cfg st) {fresh : HandlerId} {callee : PageHandler}
    (present : st.handler id = some ⟨0, job⟩) (unused : st.handler fresh = none)
    (afterHeld : LocksHeld cfg ((st.setHandler fresh callee).setHandler id ⟨0, next⟩))
    (held : job.held true .pageLocks = true ∧ next.held true .pageLocks = true)
    (waits : next.awaits? = some fresh)
    (moves : (st.protocolState current).srv = job.serving st.isAsking st.progress id →
      StepOrStay regime (st.protocolState current) ((st.protocolState current).serve
        (next.serving st.isAsking (st.setHandler fresh callee).progress id))) :
    StepOrStay regime (st.protocolState current)
      (((st.setHandler fresh callee).setHandler id ⟨0, next⟩).protocolState current) := by
  have different : fresh ≠ id := by
    intro same
    subst same
    simp [present] at unused
  have running : (st.setHandler fresh callee).reply? id = none := by
    rw [PageState.reply?_setHandler, if_neg (Ne.symm different)]
    simp [PageState.reply?, present, (Job.serves_of_held held.1).2]
  have started : (st.setHandler fresh callee).protocolState current = st.protocolState current :=
    protocolState_started zero linked locksHeld unused
  have self := (st.setHandler fresh callee).setNode_self 0
  rw [← self] at afterHeld ⊢
  rw [protocolState_served zero afterHeld ⟨rfl, rfl⟩ running held.2 (by simp [waits, different]),
    started]
  exact moves (locksHeld.serving_eq zero present held.1)

/-- The reply of a call is taken. -/
theorem taken_step (zero : cfg.managerId = 0) (locksHeld : LocksHeld cfg st)
    (present : st.handler id = some ⟨0, job⟩)
    (afterHeld : LocksHeld cfg (st.setHandler id ⟨0, next⟩))
    (held : job.held true .pageLocks = true ∧ next.held true .pageLocks = true)
    (idle : next.awaits? = none)
    (moves : (st.protocolState current).srv = job.serving st.isAsking st.progress id →
      StepOrStay regime (st.protocolState current) ((st.protocolState current).serve
        (next.serving st.isAsking st.progress id))) :
    StepOrStay regime (st.protocolState current)
      ((st.setHandler id ⟨0, next⟩).protocolState current) := by
  have self := st.setNode_self 0
  rw [← self] at afterHeld
  have moved := served_step zero locksHeld present afterHeld held idle ⟨rfl, rfl⟩ moves
  rwa [self] at moved

/-! ### `serv_rd_rq` -/

section Read

variable (zero : cfg.managerId = 0) (single : cfg.appThreads = 1) (locksHeld : LocksHeld cfg st)
variable (linked : Linked cfg st) (attended : Attended st ∨ regime.lossy)

include zero single locksHeld linked attended

theorem servRd_protocol {pc : RdPc} {fresh : HandlerId} {between : PageState}
    (present : st.handler id = some ⟨0, .servRd reqNode pc⟩)
    (ran : ((servRdRq cfg 0 base reqNode pc).map (.servRd reqNode)).execOnPage 0 (.handler id) fresh
      st = some (next, between))
    (afterHeld : LocksHeld cfg (between.setHandler id ⟨0, next⟩)) :
    StepOrStay regime (st.protocolState current)
      ((between.setHandler id ⟨0, next⟩).protocolState current) := by
  have manager : cfg.isManager 0 = true := by simp [zero]
  have ok := linked.jobOk present
  cases pc with
  | entry =>
      obtain ⟨free, rfl, rfl⟩ := Stmt.execOnPage_waitLock ran
      exact start_protocol zero single linked present afterHeld free ⟨rfl, rfl, rfl, rfl⟩
        (rfl : _ = Rq.rd.kind reqNode) rfl rfl rfl rfl attended
  | pageLocked =>
      simp only [servRdRq, if_pos manager] at ran
      obtain ⟨-, rfl, rfl⟩ := Stmt.execOnPage_waitLock ran
      exact served_stay zero locksHeld present afterHeld ⟨rfl, rfl⟩ rfl ⟨rfl, rfl, rfl⟩ rfl
  | infoLocked =>
      obtain ⟨rfl, rfl⟩ := ran
      exact served_step zero locksHeld present afterHeld ⟨rfl, rfl⟩ rfl ⟨rfl, rfl⟩
        fun serving => .inr (.list serving)
  | inserted =>
      obtain ⟨rfl, rfl⟩ := ran
      exact served_step zero locksHeld present afterHeld ⟨rfl, rfl⟩ rfl ⟨rfl, rfl⟩
        fun serving => .inr (.lookRd serving)
  | gotOwner ownerNode =>
      have row : ∃ dst fn body, servRdRq cfg 0 base reqNode (.gotOwner ownerNode) =
          .call dst fn body (.fetching ownerNode) := by
        simp only [servRdRq]
        split <;> exact ⟨_, _, _, rfl⟩
      obtain ⟨dst, fn, body, row⟩ := row
      simp only [row, Stmt.map, Stmt.execOnPage] at ran
      split at ran
      case h_2 => contradiction
      case h_1 addr callee unused accepted =>
        obtain ⟨rfl, rfl⟩ := ran
        have pending : ((st.setHandler fresh ⟨dst, callee⟩).progress fresh).fetch = .pending := by
          simp [PageState.progress, progress_accept accepted]
        refine called_step zero locksHeld linked present unused afterHeld ⟨rfl, rfl⟩ rfl
          fun serving => .inl (State.serve_eq _ ?_)
        rw [serving]
        simp [Job.serving, RdPc.stage, pending]
  | fetching ownerNode call =>
      simp only [servRdRq, Stmt.map, Stmt.execOnPage] at ran
      split at ran
      case h_2 => contradiction
      case h_1 reply replied =>
        obtain ⟨rfl, rfl⟩ := ran
        obtain ⟨callee, found, -, kind⟩ := linked.handlerCall present rfl
        have closed := (progress_replied found replied).1 _ kind
        refine taken_step zero locksHeld present afterHeld ⟨rfl, rfl⟩ rfl fun serving => ?_
        rw [Job.serving, RdPc.stage, closed] at serving
        exact .inr (.takeRd serving)
  | fetched pageContents =>
      obtain ⟨rfl, rfl⟩ := ran
      exact served_stay zero locksHeld present afterHeld ⟨rfl, rfl⟩ rfl ⟨rfl, rfl, rfl⟩ rfl
  | infoUnlocked pageContents =>
      have full : pageContents.length ≠ 0 := by
        rw [Reply.IsPage.length ok]
        decide
      simp only [servRdRq, if_neg full] at ran
      obtain ⟨rfl, rfl⟩ := ran
      rw [protocolState_grants linked present (rfl : _ = Rq.rd.kind reqNode) rfl rfl]
      exact .inr (.grantRd (locksHeld.serving_eq zero present rfl))
  | callFailed =>
      obtain ⟨rfl, rfl⟩ := ran
      exact served_stay zero locksHeld present afterHeld ⟨rfl, rfl⟩ rfl ⟨rfl, rfl, rfl⟩ rfl
  | backOff =>
      obtain ⟨rfl, rfl⟩ := ran
      have running : st.reply? id = none := by simp [PageState.reply?, present, Job.reply?]
      rw [protocolState_retries running rfl]
      exact .inr (.release (locksHeld.serving_eq zero present rfl))
  | done => contradiction
  | aborted => contradiction

/-! ### `serv_wr_rq` -/

theorem servWr_protocol {pc : WrPc} {fresh : HandlerId} {between : PageState}
    (present : st.handler id = some ⟨0, .servWr reqNode pc⟩)
    (commits : (Job.servWr reqNode pc).commits = true → regime.commits (st.protocolState current))
    (ran : ((servWrRq cfg 0 base reqNode pc).map (.servWr reqNode)).execOnPage 0 (.handler id) fresh
      st = some (next, between))
    (afterHeld : LocksHeld cfg (between.setHandler id ⟨0, next⟩)) :
    StepOrStay regime (st.protocolState current)
      ((between.setHandler id ⟨0, next⟩).protocolState current) := by
  have manager : cfg.isManager 0 = true := by simp [zero]
  have ok := linked.jobOk present
  cases pc with
  | entry =>
      obtain ⟨free, rfl, rfl⟩ := Stmt.execOnPage_waitLock ran
      exact start_protocol zero single linked present afterHeld free ⟨rfl, rfl, rfl, rfl⟩
        (rfl : _ = Rq.wr.kind reqNode) rfl rfl rfl rfl attended
  | pageLocked =>
      simp only [servWrRq, if_pos manager] at ran
      obtain ⟨rfl, rfl⟩ := ran
      exact served_step zero locksHeld present afterHeld ⟨rfl, rfl⟩ rfl ⟨rfl, rfl⟩
        fun serving => .inr (.lookWr serving)
  | gotOwner ownerNode =>
      obtain ⟨-, rfl, rfl⟩ := Stmt.execOnPage_waitLock ran
      exact served_stay zero locksHeld present afterHeld ⟨rfl, rfl⟩ rfl ⟨rfl, rfl, rfl⟩ rfl
  | infoLocked ownerNode =>
      obtain ⟨rfl, rfl⟩ := ran
      refine served_step zero locksHeld present afterHeld ⟨rfl, rfl⟩ rfl ⟨rfl, rfl⟩
        fun serving => .inr ?_
      by_cases fetches : ownerNode = 0 ∨ ownerNode ≠ reqNode
      · simp only [Job.serving, WrPc.stage, if_pos fetches]
        exact .eraseFetch serving fetches
      · simp only [Job.serving, WrPc.stage, if_neg fetches]
        have keeps : ownerNode ≠ 0 ∧ ownerNode = reqNode := by simpa using fetches
        exact .eraseKeep serving keeps.1 keeps.2
  | erased ownerNode ivldSet =>
      by_cases fetches : ownerNode = 0 ∨ ownerNode ≠ reqNode
      · have row : ∃ dst fn body, servWrRq cfg 0 base reqNode (.erased ownerNode ivldSet) =
            .call dst fn body (.fetching ownerNode ivldSet) := by
          simp only [servWrRq]
          split
          · exact ⟨_, _, _, rfl⟩
          · rename_i notZero
            rw [if_neg (fetches.resolve_left notZero)]
            exact ⟨_, _, _, rfl⟩
        obtain ⟨dst, fn, body, row⟩ := row
        simp only [row, Stmt.map, Stmt.execOnPage] at ran
        split at ran
        case h_2 => contradiction
        case h_1 addr callee unused accepted =>
          obtain ⟨rfl, rfl⟩ := ran
          have pending : ((st.setHandler fresh ⟨dst, callee⟩).progress fresh).fetch = .pending := by
            simp [PageState.progress, progress_accept accepted]
          refine called_step zero locksHeld linked present unused afterHeld ⟨rfl, rfl⟩ rfl
            fun serving => .inl (State.serve_eq _ ?_)
          rw [serving]
          simp [Job.serving, WrPc.stage, pending, if_pos fetches]
      · have keeps : ownerNode ≠ 0 ∧ ownerNode = reqNode := by simpa using fetches
        simp only [servWrRq, if_neg keeps.1, if_pos keeps.2] at ran
        obtain ⟨rfl, rfl⟩ := ran
        exact served_stay zero locksHeld present afterHeld ⟨rfl, rfl⟩ rfl ⟨rfl, rfl, rfl⟩
          (by simp [Job.serving, WrPc.stage, if_neg fetches, Reply.page?])
  | fetching ownerNode ivldSet call =>
      simp only [servWrRq, Stmt.map, Stmt.execOnPage] at ran
      split at ran
      case h_2 => contradiction
      case h_1 reply replied =>
        obtain ⟨rfl, rfl⟩ := ran
        obtain ⟨callee, found, -, kind⟩ := linked.handlerCall present rfl
        have closed := (progress_replied found replied).1 _ kind
        refine taken_step zero locksHeld present afterHeld ⟨rfl, rfl⟩ rfl fun serving => ?_
        rw [Job.serving, WrPc.stage, closed] at serving
        exact .inr (.takeWr serving)
  | invalidating ownerNode pageContents nodes =>
      cases nodes with
      | nil =>
          obtain ⟨rfl, rfl⟩ := ran
          exact served_step zero locksHeld present afterHeld ⟨rfl, rfl⟩ rfl ⟨rfl, rfl⟩
            fun serving => .inr (.send serving)
      | cons node nodes =>
          simp only [servWrRq, Stmt.map, Stmt.execOnPage] at ran
          split at ran
          case h_2 => contradiction
          case h_1 addr callee unused accepted =>
            obtain ⟨rfl, rfl⟩ := ran
            have started : (st.setHandler fresh ⟨node, callee⟩).progress fresh =
                ⟨node, .pending, false⟩ := by
              simp [PageState.progress, progress_accept accepted]
            refine called_step zero locksHeld linked present unused afterHeld ⟨rfl, rfl⟩ rfl
              fun serving => .inr ?_
            simp only [Job.serving, WrPc.stage, started]
            exact .callNode serving
  | invalidateSent ownerNode pageContents nodes call =>
      simp only [servWrRq, Stmt.map, Stmt.execOnPage] at ran
      split at ran
      case h_2 => contradiction
      case h_1 reply replied =>
        obtain ⟨rfl, rfl⟩ := ran
        obtain ⟨callee, found, kind⟩ := linked.handlerCall present rfl
        obtain ⟨dropped, rfl⟩ := (progress_replied found replied).2 kind
        refine taken_step zero locksHeld present afterHeld ⟨rfl, rfl⟩ rfl fun serving => ?_
        rw [Job.serving, WrPc.stage, dropped] at serving
        exact .inr (.acknowledge serving)
  | sent ownerNode pageContents =>
      obtain ⟨rfl, rfl⟩ := ran
      exact served_step zero locksHeld present afterHeld ⟨rfl, rfl⟩ rfl ⟨rfl, rfl⟩
        fun serving => .inr (.clear serving)
  | cleared ownerNode pageContents =>
      obtain ⟨rfl, rfl⟩ := ran
      exact served_step zero locksHeld present afterHeld ⟨rfl, rfl⟩ rfl ⟨rfl, rfl⟩
        fun serving => .inr (.commit serving (commits rfl))
  | committed ownerNode pageContents =>
      obtain ⟨rfl, rfl⟩ := ran
      exact served_stay zero locksHeld present afterHeld ⟨rfl, rfl⟩ rfl ⟨rfl, rfl, rfl⟩ rfl
  | infoUnlocked ownerNode pageContents =>
      have kept : ¬(ownerNode ≠ reqNode ∧ pageContents.length = 0) := by
        rintro ⟨different, short⟩
        rcases ok with full | ⟨_, same⟩
        · simp [full.length, pageSize] at short
        · exact different same
      simp only [servWrRq, if_neg kept] at ran
      obtain ⟨rfl, rfl⟩ := ran
      rw [protocolState_grants linked present (rfl : _ = Rq.wr.kind reqNode) rfl rfl]
      exact .inr (.grantWr (locksHeld.serving_eq zero present rfl))
  | callFailed =>
      obtain ⟨rfl, rfl⟩ := ran
      exact served_stay zero locksHeld present afterHeld ⟨rfl, rfl⟩ rfl ⟨rfl, rfl, rfl⟩ rfl
  | backOff =>
      obtain ⟨rfl, rfl⟩ := ran
      have running : st.reply? id = none := by simp [PageState.reply?, present, Job.reply?]
      rw [protocolState_retries running rfl]
      exact .inr (.release (locksHeld.serving_eq zero present rfl))
  | done => contradiction
  | aborted => contradiction

end Read

end Requests

end LibIvy
