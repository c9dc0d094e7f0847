import LibIvy.Page.Abstraction

/-!
Contract: every step of a fault handler is a step of the protocol, or none.

Owns: the simulation for the positions of `rd_fault_hdlr` and `wr_fault_hdlr`,
and that starting an instance changes nothing yet.

Does not own: the served functions; see `LibIvy.Page.ServeSteps`.
-/

namespace LibIvy

open Lib Protocol

section Steps

variable {cfg : Config} {base : Addr} {regime : Regime Page} {st : PageState} {current : Page}
variable (zero : cfg.managerId = 0) (linked : Linked cfg st) (locksHeld : LocksHeld cfg st)

/-! ### Calls -/

include zero linked locksHeld

omit linked in
/-- An unused name is not the instance in service. -/
theorem server_ne {id fresh : HandlerId} {job : Job} (unused : st.handler fresh = none)
    (serves : st.server = some (id, job)) : fresh ≠ id := by
  intro same
  subst same
  simp [((locksHeld.server_iff zero).mp serves).1] at unused

omit linked in
theorem server_started {fresh : HandlerId} {handler : PageHandler}
    (unused : st.handler fresh = none) :
    (st.setHandler fresh handler).server = st.server := by
  refine PageState.server_congr rfl (fun id job serves => ?_) fun id held => ?_
  · exact PageState.setHandler_other _ _ (server_ne zero locksHeld unused serves).symm
  · obtain ⟨found, present, -⟩ := (locksHeld 0 .pageLocks (.handler id)).mp held
    exact ⟨found, present⟩

/-- Starting an instance changes nothing yet. -/
theorem protocolState_started {fresh : HandlerId} {handler : PageHandler}
    (unused : st.handler fresh = none) :
    (st.setHandler fresh handler).protocolState current = st.protocolState current := by
  have other : ∀ {id found}, st.handler id = some found → id ≠ fresh := by
    intro id found present same
    subst same
    simp [unused] at present
  rw [PageState.protocolState_frame st (st.setHandler fresh handler) rfl (fun _ => rfl)
    (fun _ => rfl)]
  · have same : (st.setHandler fresh handler).serving = st.serving := by
      refine PageState.serving_congr (server_started zero locksHeld unused)
        (fun _ _ _ _ => rfl) fun id job serves call waits => ?_
      have present := ((locksHeld.server_iff zero).mp serves).1
      obtain ⟨callee, calleePresent, -⟩ := linked.handlerCall present waits
      rw [PageState.progress_setHandler, if_neg (other calleePresent)]
    rw [same]
    rfl
  · intro node rq call inside
    obtain ⟨callee, present, -⟩ := linked.appCall inside rfl
    rw [PageState.reply?_setHandler, if_neg (other present)]

omit linked in
/-- The request in service has not returned. -/
theorem server_running {id : HandlerId} {job : Job} (serves : st.server = some (id, job)) :
    st.reply? id = none := by
  obtain ⟨present, held⟩ := (locksHeld.server_iff zero).mp serves
  simp [PageState.reply?, present, (Job.serves_of_held held).2]

/-- A fetch that holds the lock of a worker's page holds it in the lock table. -/
theorem fetchHolds_locked {node : NodeId} (worker : node ≠ 0)
    (holds : (st.protocolState current).FetchHolds node) : (st.node node).pageLock ≠ none := by
  obtain ⟨serving, present, locks⟩ := holds
  simp only [PageState.protocolState, PageState.serving, Option.bind_eq_some_iff] at present
  obtain ⟨⟨id, job⟩, serves, same⟩ := present
  have found := ((locksHeld.server_iff zero).mp serves).1
  have notManager : cfg.isManager node = false := by simp [zero, worker]
  have callee : ∃ call handler, st.handler call = some handler ∧ handler.node = node ∧
      handler.job.held false .pageLocks = true := by
    have look : ∀ {call owner nodes}, job.awaits? = some call →
        (∀ {callee : PageHandler}, job.Callee callee.node callee.job.kind →
          callee.node = owner ∧ ∃ access, callee.job.kind = .fetch access) →
        (Stage.fetching owner nodes (st.progress call).fetch).locks node →
        ∃ call handler, st.handler call = some handler ∧ handler.node = node ∧
          handler.job.held false .pageLocks = true := by
      intro call owner nodes waits called locks
      obtain ⟨callee, calleePresent, calls⟩ := linked.handlerCall found waits
      obtain ⟨rfl, access, kind⟩ := called calls
      refine ⟨call, callee, calleePresent, ?_⟩
      obtain ⟨calleeNode, calleeJob⟩ := callee
      cases calleeJob <;> cases kind
      rename_i pc
      simp only [PageState.progress, calleePresent, Option.map_some, Option.getD_some,
        PageHandler.progress] at locks
      cases pc <;> simp_all [FetchPc.stage, Stage.locks, Job.held]
    cases job with
    | servRd reqNode pc =>
        obtain rfl := Option.some.inj same
        cases pc <;> try contradiction
        case fetching owner call =>
          refine look rfl ?_ locks
          rintro callee ⟨rfl, kind⟩
          exact ⟨rfl, _, kind⟩
    | servWr reqNode pc =>
        obtain rfl := Option.some.inj same
        cases pc <;> try contradiction
        case erased owner nodes =>
          simp only [WrPc.stage] at locks
          split at locks <;> contradiction
        case fetching owner nodes call =>
          refine look rfl ?_ locks
          rintro callee ⟨rfl, kind⟩
          exact ⟨rfl, _, kind⟩
    | fetch => contradiction
    | invalidate => contradiction
  obtain ⟨call, handler, calleePresent, atNode, held⟩ := callee
  have locked := (locksHeld node .pageLocks (.handler call)).mpr
    ⟨handler, calleePresent, atNode, by rwa [notManager]⟩
  simp only [NodePage.lock] at locked
  simp [locked]

/-! ### Application threads -/

omit zero linked locksHeld in
/-- A fault handler that awaits neither before nor after a statement on its node. -/
theorem local_step {node : NodeId} {nd : NodePage} {rq : Rq} {pc next : FaultPc}
    (inside : st.app (PageState.thread node) = some (rq, pc))
    (idle : pc.awaits? = none ∧ next.awaits? = none)
    (sameInfo : nd.info.copyset = (st.node node).info.copyset ∧
      nd.info.owner = (st.node node).info.owner)
    (sameLock : node = 0 → nd.pageLock = (st.node node).pageLock)
    (moves : StepOrStay regime (st.protocolState current)
      ((((st.protocolState current).setProt node nd.prot).setBytes node nd.bytes).setPhase node
        (next.phase st.reply? rq))) :
    StepOrStay regime (st.protocolState current)
      (((st.setNode node nd).setApp (PageState.thread node) (resumeOnPage rq next)).protocolState
        current) := by
  have moved : (st.setNode node nd).app (PageState.thread node) = some (rq, pc) := inside
  rw [PageState.protocolState_resume (by simp [idle, PageState.isAsking, moved]),
    PageState.protocolState_setNode nd sameInfo sameLock]
  exact moves

omit zero linked locksHeld in
/-- The same when the directory and the contents stay. -/
theorem prot_step {node : NodeId} {nd : NodePage} {rq : Rq} {pc next : FaultPc}
    (inside : st.app (PageState.thread node) = some (rq, pc))
    (idle : pc.awaits? = none ∧ next.awaits? = none)
    (same : nd.info = (st.node node).info ∧ nd.bytes = (st.node node).bytes)
    (sameLock : node = 0 → nd.pageLock = (st.node node).pageLock)
    (moves : StepOrStay regime (st.protocolState current)
      (((st.protocolState current).setProt node nd.prot).setPhase node
        (next.phase st.reply? rq))) :
    StepOrStay regime (st.protocolState current)
      (((st.setNode node nd).setApp (PageState.thread node) (resumeOnPage rq next)).protocolState
        current) := by
  refine local_step inside idle (by simp [same.1]) sameLock ?_
  have kept : ((st.protocolState current).setProt node nd.prot).bytes node = nd.bytes :=
    same.2.symm
  rwa [State.setBytes_eq _ kept]

omit zero linked locksHeld in
/-- The same when the directory and the protection stay. -/
theorem bytes_step {node : NodeId} {nd : NodePage} {rq : Rq} {pc next : FaultPc}
    (inside : st.app (PageState.thread node) = some (rq, pc))
    (idle : pc.awaits? = none ∧ next.awaits? = none)
    (same : nd.info = (st.node node).info ∧ nd.prot = (st.node node).prot)
    (sameLock : node = 0 → nd.pageLock = (st.node node).pageLock)
    (moves : StepOrStay regime (st.protocolState current)
      (((st.protocolState current).setBytes node nd.bytes).setPhase node
        (next.phase st.reply? rq))) :
    StepOrStay regime (st.protocolState current)
      (((st.setNode node nd).setApp (PageState.thread node) (resumeOnPage rq next)).protocolState
        current) := by
  refine local_step inside idle (by simp [same.1]) sameLock ?_
  rwa [State.setProt_eq _ same.2.symm]

omit zero linked locksHeld in
/-- The same when protection and contents stay. -/
theorem still_step {node : NodeId} {nd : NodePage} {rq : Rq} {pc next : FaultPc}
    (inside : st.app (PageState.thread node) = some (rq, pc))
    (idle : pc.awaits? = none ∧ next.awaits? = none)
    (same : nd.prot = (st.node node).prot ∧ nd.bytes = (st.node node).bytes ∧
      nd.info.copyset = (st.node node).info.copyset ∧
      nd.info.owner = (st.node node).info.owner)
    (sameLock : node = 0 → nd.pageLock = (st.node node).pageLock)
    (moves : StepOrStay regime (st.protocolState current)
      ((st.protocolState current).setPhase node (next.phase st.reply? rq))) :
    StepOrStay regime (st.protocolState current)
      (((st.setNode node nd).setApp (PageState.thread node) (resumeOnPage rq next)).protocolState
        current) := by
  refine local_step inside idle same.2.2 sameLock ?_
  rwa [State.setProt_eq _ same.1.symm, State.setBytes_eq _ same.2.1.symm]

/-- Every step of an application thread in its fault handler. -/
theorem app_protocol {node : NodeId} {rq : Rq} {pc next : FaultPc} {fresh : HandlerId}
    {between : PageState} (inside : st.app (PageState.thread node) = some (rq, pc))
    (ran : (faultHdlr cfg rq node base pc).execOnPage node (.app (PageState.thread node)) fresh st =
      some (next, between)) :
    StepOrStay regime (st.protocolState current)
      ((between.setApp (PageState.thread node) (resumeOnPage rq next)).protocolState current) := by
  have phase : (st.protocolState current).app node = pc.phase st.reply? rq := by
    simp [PageState.protocolState, PageState.phase, inside]
  have ok := linked.appOk inside
  have worker : ¬cfg.isManager node = true → node ≠ 0 := by simp [zero]
  have manager : cfg.isManager node = true → node = 0 := by simp [zero]
  cases pc with
  | entry =>
      have row : faultHdlr cfg rq node base .entry =
          if cfg.isManager node then .skip .locked
          else .waitLock .pageLocks (pgAlign base) .locked := by cases rq <;> rfl
      rw [row] at ran
      split at ran
      case isTrue atManager =>
        obtain ⟨rfl, rfl⟩ := ran
        exact still_step inside ⟨rfl, rfl⟩ ⟨rfl, rfl, rfl, rfl⟩ (fun _ => rfl)
          (.inr (.lock phase fun different => absurd (manager atManager) different))
      case isFalse atWorker =>
        obtain ⟨free, rfl, rfl⟩ := Stmt.execOnPage_waitLock ran
        exact still_step inside ⟨rfl, rfl⟩ ⟨rfl, rfl, rfl, rfl⟩
          (fun same => absurd same (worker atWorker))
          (.inr (.lock phase fun different holds =>
            fetchHolds_locked zero linked locksHeld different holds free))
  | locked =>
      have row : ∃ dst fn body, faultHdlr cfg rq node base .locked = .call dst fn body .asking := by
        cases rq <;> exact ⟨_, _, _, rfl⟩
      obtain ⟨dst, fn, body, row⟩ := row
      rw [row] at ran
      simp only [Stmt.execOnPage] at ran
      split at ran
      case h_2 => contradiction
      case h_1 addr job unused accepted =>
        obtain ⟨rfl, rfl⟩ := ran
        have started : (st.setHandler fresh ⟨dst, job⟩).app (PageState.thread node) =
            some (rq, .locked) := inside
        rw [PageState.protocolState_resume, protocolState_started zero linked locksHeld unused]
        · simp only [FaultPc.phase, PageState.reply?_setHandler, if_pos,
            (RpcName.accept_entry accepted).1]
          exact .inr (.ask phase)
        · intro id served serves
          rw [server_started zero locksHeld unused] at serves
          have different := server_ne zero locksHeld unused serves
          simp [FaultPc.awaits?, different, PageState.isAsking, started]
  | asking call =>
      have row : faultHdlr cfg rq node base (.asking call) =
          .await (!cfg.isManager node) call .got .failed := by cases rq <;> rfl
      rw [row] at ran
      simp only [Stmt.execOnPage] at ran
      split at ran
      case h_2 => contradiction
      case h_1 reply replied =>
        obtain ⟨rfl, rfl⟩ := ran
        rw [PageState.protocolState_resume]
        · rw [State.setPhase_eq]
          · exact .inl rfl
          · rw [phase]
            simp [FaultPc.phase, replied]
        · intro id job serves
          have different : call ≠ id := by
            intro same
            subst same
            simp [server_running zero locksHeld serves] at replied
          simp [FaultPc.awaits?, different, PageState.isAsking, inside]
  | got memStr =>
      have granted : (st.protocolState current).app node = .granted rq memStr.page? := phase
      have opened : next = .opened memStr ∧
          between = st.setNode node { st.node node with prot := .rw } := by
        cases rq with
        | rd =>
            simp only [faultHdlr, rdFaultHdlr] at ran
            split at ran
            · obtain ⟨rfl, rfl⟩ := ran
              exact ⟨rfl, rfl⟩
            · contradiction
        | wr =>
            obtain ⟨rfl, rfl⟩ := ran
            exact ⟨rfl, rfl⟩
      obtain ⟨rfl, rfl⟩ := opened
      exact prot_step inside ⟨rfl, rfl⟩ ⟨rfl, rfl⟩ (fun _ => rfl) (.inr (.openPage granted))
  | opened memStr =>
      cases rq with
      | rd =>
          obtain ⟨page, rfl⟩ := ok
          obtain ⟨bytes, full, -, rfl, rfl⟩ := Stmt.execOnPage_memcpy ran
          obtain rfl : page = bytes := Option.some.inj full
          exact bytes_step inside ⟨rfl, rfl⟩ ⟨rfl, rfl⟩ (fun _ => rfl) (.inr (.copyRd phase))
      | wr =>
          rcases ok with ⟨page, rfl⟩ | rfl
          · have whole : (Reply.page page).length = 2 * pageSize := rfl
            simp only [faultHdlr, wrFaultHdlr, if_pos whole] at ran
            obtain ⟨bytes, full, -, rfl, rfl⟩ := Stmt.execOnPage_memcpy ran
            obtain rfl : page = bytes := Option.some.inj full
            exact bytes_step inside ⟨rfl, rfl⟩ ⟨rfl, rfl⟩ (fun _ => rfl) (.inr (.copyWr phase))
          · -- an empty reply: the node keeps its copy
            have short : Reply.empty.length ≠ 2 * pageSize := by decide
            simp only [faultHdlr, wrFaultHdlr, if_neg short] at ran
            obtain ⟨rfl, rfl⟩ := ran
            exact bytes_step inside ⟨rfl, rfl⟩ ⟨rfl, rfl⟩ (fun _ => rfl) (.inr (.copyWr phase))
  | copied =>
      cases rq with
      | rd =>
          obtain ⟨rfl, rfl⟩ := ran
          exact prot_step inside ⟨rfl, rfl⟩ ⟨rfl, rfl⟩ (fun _ => rfl) (.inr (.close phase))
      | wr =>
          obtain ⟨rfl, rfl⟩ := ran
          exact still_step inside ⟨rfl, rfl⟩ ⟨rfl, rfl, rfl, rfl⟩ (fun _ => rfl)
            (.inl (State.setPhase_eq _ phase))
  | closed =>
      cases rq with
      | rd =>
          obtain ⟨rfl, rfl⟩ := ran
          exact still_step inside ⟨rfl, rfl⟩ ⟨rfl, rfl, rfl, rfl⟩ (fun _ => rfl)
            (.inl (State.setPhase_eq _ phase))
      | wr => contradiction
  | noted =>
      have row : faultHdlr cfg rq node base .noted =
          if cfg.isManager node then .skip .returned
          else .unlock .pageLocks (pgAlign base) .returned := by cases rq <;> rfl
      rw [row] at ran
      split at ran
      case isTrue atManager =>
        obtain ⟨rfl, rfl⟩ := ran
        exact still_step inside ⟨rfl, rfl⟩ ⟨rfl, rfl, rfl, rfl⟩ (fun _ => rfl) (.inr (.leave phase))
      case isFalse atWorker =>
        obtain ⟨rfl, rfl⟩ := ran
        exact still_step inside ⟨rfl, rfl⟩ ⟨rfl, rfl, rfl, rfl⟩
          (fun same => absurd same (worker atWorker)) (.inr (.leave phase))
  | failed =>
      have row : faultHdlr cfg rq node base .failed =
          if cfg.isManager node then .skip .entry
          else .unlock .pageLocks (pgAlign base) .entry := by cases rq <;> rfl
      rw [row] at ran
      split at ran
      case isTrue atManager =>
        obtain ⟨rfl, rfl⟩ := ran
        exact still_step inside ⟨rfl, rfl⟩ ⟨rfl, rfl, rfl, rfl⟩ (fun _ => rfl) (.inr (.unlock phase))
      case isFalse atWorker =>
        obtain ⟨rfl, rfl⟩ := ran
        exact still_step inside ⟨rfl, rfl⟩ ⟨rfl, rfl, rfl, rfl⟩
          (fun same => absurd same (worker atWorker)) (.inr (.unlock phase))
  | returned => exact absurd ok (by simp [FaultPc.Ok])

end Steps

end LibIvy
