import LibIvy.Page.ServeSteps

/-!
Contract: every step of a fetch or an invalidation is a step of the protocol, or
none.

Owns: the simulation for the positions of `fetch_pg` and `invalidate_adapter`,
called by the request in service or left behind by a call that failed.

Does not own: the requests; see `LibIvy.Page.ServeSteps`.
-/

namespace LibIvy

open Lib Protocol

/-- The access that the next statement of a job leaves to its node for good. -/
def Job.revokes? : Job → Option AccessType
  | .fetch accessType (.copied _) => some accessType
  | .invalidate .locked => some .none
  | _ => none

namespace PageState

/-- The request in service waits for the instance `id`. -/
def Calls (st : PageState) (id : HandlerId) : Prop :=
  ∃ caller job, st.server = some (caller, job) ∧ job.awaits? = some id

/-- The request in service, for any progress of the instances it calls. -/
def servingWith (st : PageState) (look : HandlerId → Progress) : Option (Serving Page) :=
  st.server.bind fun served => served.2.serving st.isAsking look served.1

end PageState

theorem Job.held_of_awaits {job : Job} {call : HandlerId} (waits : job.awaits? = some call) :
    job.held true .pageLocks = true ∧ job.kind.serves = true := by
  cases job with
  | servRd reqNode pc => cases pc <;> simp_all [Job.awaits?, Job.held, Job.kind, JobKind.serves]
  | servWr reqNode pc => cases pc <;> simp_all [Job.awaits?, Job.held, Job.kind, JobKind.serves]
  | fetch accessType pc => contradiction
  | invalidate pc => contradiction

section Callbacks

variable {cfg : Config} {base : Addr} {regime : Regime Page} {st : PageState} {current : Page}
variable {id : HandlerId} {node : NodeId} {job next : Job}

/-! ### Callers -/

section Callers

variable (zero : cfg.managerId = 0) (locksHeld : LocksHeld cfg st) (linked : Linked cfg st)

include zero locksHeld linked

/-- Without failures the request in service waits for every running callback. -/
theorem calls_of_attended (attended : Attended st) {handler : PageHandler}
    (present : st.handler id = some handler) (running : handler.job.reply? = none)
    (callback : handler.job.kind.serves = false) : st.Calls id := by
  rcases attended present running with ⟨thread, rq, pc, inside, waits⟩ |
    ⟨caller, callerHandler, callerPresent, waits⟩
  · obtain ⟨found, foundPresent, -, kind⟩ := linked.appCall inside waits
    obtain rfl : handler = found := by simpa [present] using foundPresent
    rw [kind] at callback
    cases rq <;> contradiction
  · obtain ⟨held, serves⟩ := Job.held_of_awaits waits
    have atZero := linked.atManager callerPresent serves
    obtain ⟨callerNode, callerJob⟩ := callerHandler
    obtain rfl : callerNode = 0 := atZero
    exact ⟨caller, callerJob, (locksHeld.server_iff zero).mpr ⟨callerPresent, held⟩, waits⟩

/-- A fetch that a request waits for. -/
theorem fetch_called (calls : st.Calls id) {access : AccessType} {pc : FetchPc}
    (present : st.handler id = some ⟨node, .fetch access pc⟩) :
    ∃ rq reqNode live nodes, access = fetchAccess rq ∧ ∀ look, st.servingWith look =
      some ⟨rq, reqNode, live, .fetching node nodes (look id).fetch⟩ := by
  obtain ⟨caller, callerJob, serves, waits⟩ := calls
  have callerPresent := ((locksHeld.server_iff zero).mp serves).1
  obtain ⟨callee, found, called⟩ := linked.handlerCall callerPresent waits
  obtain rfl : ⟨node, .fetch access pc⟩ = callee := by simpa [present] using found
  simp only [PageState.servingWith, serves, Option.bind_some]
  cases callerJob with
  | servRd reqNode callerPc =>
      cases callerPc <;> try contradiction
      case fetching owner call =>
        obtain rfl := Option.some.inj waits
        obtain ⟨rfl, kind⟩ := called
        exact ⟨.rd, reqNode, st.isAsking reqNode caller, [], (JobKind.fetch.inj kind), fun _ => rfl⟩
  | servWr reqNode callerPc =>
      cases callerPc <;> try contradiction
      case fetching owner nodes call =>
        obtain rfl := Option.some.inj waits
        obtain ⟨rfl, kind⟩ := called
        exact ⟨.wr, reqNode, st.isAsking reqNode caller, nodes, (JobKind.fetch.inj kind),
          fun _ => rfl⟩
  | fetch => contradiction
  | invalidate => contradiction

/-- An invalidation that a request waits for. -/
theorem invalidate_called (calls : st.Calls id) {pc : InvalidatePc}
    (present : st.handler id = some ⟨node, .invalidate pc⟩) :
    ∃ reqNode live page nodes, ∀ look, st.servingWith look =
      some ⟨.wr, reqNode, live, .calling page nodes (look id).node (look id).dropped⟩ := by
  obtain ⟨caller, callerJob, serves, waits⟩ := calls
  have callerPresent := ((locksHeld.server_iff zero).mp serves).1
  obtain ⟨callee, found, called⟩ := linked.handlerCall callerPresent waits
  obtain rfl : ⟨node, .invalidate pc⟩ = callee := by simpa [present] using found
  simp only [PageState.servingWith, serves, Option.bind_some]
  cases callerJob with
  | servRd reqNode callerPc =>
      cases callerPc <;> try contradiction
      case fetching owner call => exact absurd called.2 (by simp [Job.kind])
  | servWr reqNode callerPc =>
      cases callerPc <;> try contradiction
      case fetching owner nodes call => exact absurd called.2 (by simp [Job.kind])
      case invalidateSent owner pageContents nodes call =>
        obtain rfl := Option.some.inj waits
        exact ⟨reqNode, st.isAsking reqNode caller, pageContents.page?, nodes, fun _ => rfl⟩
  | fetch => contradiction
  | invalidate => contradiction

end Callers

/-- Moving a callback that no request waits for. -/
theorem serving_orphan (orphan : ¬st.Calls id) {handler : PageHandler} :
    st.servingWith (st.setHandler id handler).progress = st.serving := by
  simp only [PageState.servingWith, PageState.serving]
  cases served : st.server with
  | none => rfl
  | some server =>
      refine Job.serving_congr (fun _ => rfl) fun call waits => ?_
      rw [PageState.progress_setHandler, if_neg]
      intro same
      subst same
      exact orphan ⟨_, _, served, waits⟩

/-! ### Statements of a callback -/

/-- The page after a statement of a callback. -/
theorem protocolState_callback (zero : cfg.managerId = 0) (locksHeld : LocksHeld cfg st)
    (linked : Linked cfg st) {nd : NodePage} (present : st.handler id = some ⟨node, job⟩)
    (callback : job.kind.serves = false)
    (same : nd.bytes = (st.node node).bytes ∧ nd.info = (st.node node).info)
    (sameLock : node = 0 → nd.pageLock = (st.node node).pageLock) :
    ((st.setNode node nd).setHandler id ⟨node, next⟩).protocolState current =
      ((st.protocolState current).setProt node nd.prot).serve
        (st.servingWith (st.setHandler id ⟨node, next⟩).progress) := by
  have served : ∀ {caller callerJob}, st.server = some (caller, callerJob) → caller ≠ id := by
    intro caller callerJob serves same
    subst same
    obtain ⟨found, held⟩ := (locksHeld.server_iff zero).mp serves
    obtain ⟨rfl, rfl⟩ : node = 0 ∧ job = callerJob := by simpa [present] using found
    simp [(Job.serves_of_held held).1] at callback
  have sameServer : (st.setHandler id ⟨node, next⟩).server = st.server := by
    refine PageState.server_congr rfl (fun caller callerJob serves => ?_) fun caller held => ?_
    · exact PageState.setHandler_other _ _ (served serves)
    · obtain ⟨found, foundPresent, -⟩ := (locksHeld 0 .pageLocks (.handler caller)).mp held
      exact ⟨found, foundPresent⟩
  have moved : (st.setHandler id ⟨node, next⟩).protocolState current =
      (st.protocolState current).serve
        (st.servingWith (st.setHandler id ⟨node, next⟩).progress) := by
    rw [PageState.protocolState_frame st (st.setHandler id ⟨node, next⟩) rfl (fun _ => rfl)
      fun _ => rfl]
    · simp only [PageState.serving, sameServer, PageState.servingWith]
      rfl
    · intro other rq call inside
      obtain ⟨found, foundPresent, -, kind⟩ := linked.appCall inside rfl
      rw [PageState.reply?_setHandler, if_neg]
      intro same
      subst same
      obtain rfl : ⟨node, job⟩ = found := by simpa [present] using foundPresent
      rw [kind] at callback
      cases rq <;> contradiction
  have onNode : ((st.setHandler id ⟨node, next⟩).setNode node nd).protocolState current =
      ((st.setHandler id ⟨node, next⟩).protocolState current).setProt node nd.prot := by
    have sameInfo : nd.info = ((st.setHandler id ⟨node, next⟩).node node).info := same.2
    have lock : node = 0 →
        nd.pageLock = ((st.setHandler id ⟨node, next⟩).node node).pageLock := sameLock
    rw [PageState.protocolState_setNode nd (by simp [sameInfo]) lock]
    exact State.setBytes_eq _ same.1.symm
  exact onNode.trans (by rw [moved]; rfl)

section Rows

variable (zero : cfg.managerId = 0) (locksHeld : LocksHeld cfg st) (linked : Linked cfg st)
variable (attended : Attended st ∨ regime.lossy)

include zero locksHeld linked

/-- A statement that changes neither the access nor the progress. -/
theorem callback_stay {nd : NodePage} (present : st.handler id = some ⟨node, job⟩)
    (callback : job.kind.serves = false)
    (same : nd.prot = (st.node node).prot ∧ nd.bytes = (st.node node).bytes ∧
      nd.info = (st.node node).info)
    (sameLock : node = 0 → nd.pageLock = (st.node node).pageLock)
    (progress : PageHandler.progress ⟨node, next⟩ = PageHandler.progress ⟨node, job⟩) :
    StepOrStay regime (st.protocolState current)
      (((st.setNode node nd).setHandler id ⟨node, next⟩).protocolState current) := by
  have look : (st.setHandler id ⟨node, next⟩).progress = st.progress := by
    funext call
    rw [PageState.progress_setHandler]
    split
    · rename_i sameId
      simp [sameId, PageState.progress, present, progress]
    · rfl
  rw [protocolState_callback zero locksHeld linked present callback same.2 sameLock, look,
    State.setProt_eq _ same.1.symm]
  exact .inl (State.serve_eq _ rfl)

include attended

/-- A statement that changes the access. -/
theorem callback_step {nd : NodePage} (present : st.handler id = some ⟨node, job⟩)
    (callback : job.kind.serves = false) (running : job.reply? = none)
    (same : nd.bytes = (st.node node).bytes ∧ nd.info = (st.node node).info)
    (sameLock : node = 0 → nd.pageLock = (st.node node).pageLock)
    (reduced : nd.prot = .rd ∨ nd.prot = .none)
    (locked : job.held (cfg.isManager node) .pageLocks = !cfg.isManager node)
    (called : st.Calls id → (node ≠ 0 → (st.phase node).holdsLock = false) →
      Step regime (st.protocolState current) (((st.protocolState current).setProt node nd.prot).serve
        (st.servingWith (st.setHandler id ⟨node, next⟩).progress))) :
    StepOrStay regime (st.protocolState current)
      (((st.setNode node nd).setHandler id ⟨node, next⟩).protocolState current) := by
  have free : node ≠ 0 → (st.phase node).holdsLock = false := by
    intro worker
    have notManager : cfg.isManager node = false := by simp [zero, worker]
    have holds : st.Holds cfg node .pageLocks (.handler id) :=
      ⟨_, present, rfl, by rw [locked, notManager]; rfl⟩
    cases held : (st.phase node).holdsLock with
    | false => rfl
    | true =>
        have byApp := PageState.holds_of_holdsLock notManager held
        exact absurd (locksHeld.unique holds byApp) nofun
  rw [protocolState_callback zero locksHeld linked present callback same sameLock]
  by_cases calls : st.Calls id
  · exact .inr (called calls free)
  · have lossy : regime.lossy := attended.resolve_left fun attended =>
      calls (calls_of_attended zero locksHeld linked attended present running callback)
    have kept : ((st.protocolState current).setProt node nd.prot).srv = st.serving := rfl
    rw [serving_orphan calls, State.serve_eq _ kept]
    exact .inr (.stray lossy reduced free)

/-! ### `fetch_pg` -/

theorem fetch_protocol {access : AccessType} {pc : FetchPc} {fresh : HandlerId}
    {between : PageState} (present : st.handler id = some ⟨node, .fetch access pc⟩)
    (revokes : ∀ {kept}, (Job.fetch access pc).revokes? = some kept →
      regime.revokes (st.protocolState current) node kept)
    (ran : ((fetchPg cfg node base access pc).map (.fetch access)).execOnPage node (.handler id)
      fresh st = some (next, between)) :
    StepOrStay regime (st.protocolState current)
      ((between.setHandler id ⟨node, next⟩).protocolState current) := by
  have worker : ¬cfg.isManager node = true → node ≠ 0 := by simp [zero]
  have ok := linked.jobOk present
  cases pc with
  | entry =>
      simp only [fetchPg] at ran
      split at ran
      case isTrue =>
        obtain ⟨rfl, rfl⟩ := ran
        exact callback_stay zero locksHeld linked present rfl ⟨rfl, rfl, rfl⟩ (fun _ => rfl) rfl
      case isFalse atWorker =>
        obtain ⟨-, rfl, rfl⟩ := Stmt.execOnPage_waitLock ran
        exact callback_stay zero locksHeld linked present rfl ⟨rfl, rfl, rfl⟩
          (fun same => absurd same (worker atWorker)) rfl
  | locked =>
      obtain ⟨rfl, rfl⟩ := ran
      refine callback_step zero locksHeld linked attended present rfl rfl ⟨rfl, rfl⟩ (fun _ => rfl)
        (.inl rfl) rfl fun calls free => ?_
      obtain ⟨rq, reqNode, live, nodes, -, serving⟩ := fetch_called zero locksHeld linked calls present
      have before := serving st.progress
      simp only [PageState.progress, present] at before
      rw [serving, PageState.progress_setHandler, if_pos rfl]
      exact .fetchOpen before free
  | readOnly =>
      obtain ⟨-, rfl, rfl⟩ := Stmt.execOnPage_readPage ran
      have kept : (st.protocolState current).prot node = (st.node node).prot := rfl
      rw [protocolState_callback zero locksHeld linked present rfl ⟨rfl, rfl⟩ fun _ => rfl,
        State.setProt_eq _ kept]
      by_cases calls : st.Calls id
      · obtain ⟨rq, reqNode, live, nodes, -, serving⟩ :=
          fetch_called zero locksHeld linked calls present
        have before := serving st.progress
        simp only [PageState.progress, present] at before
        rw [serving, PageState.progress_setHandler, if_pos rfl]
        exact .inr (.fetchCopy before)
      · rw [serving_orphan calls]
        exact .inl (State.serve_eq _ rfl)
  | copied memStr =>
      obtain ⟨rfl, rfl⟩ := ran
      refine callback_step zero locksHeld linked attended present rfl rfl ⟨rfl, rfl⟩ (fun _ => rfl)
        ok.1 rfl fun calls free => ?_
      obtain ⟨rq, reqNode, live, nodes, rfl, serving⟩ :=
        fetch_called zero locksHeld linked calls present
      have before := serving st.progress
      simp only [PageState.progress, present] at before
      rw [serving, PageState.progress_setHandler, if_pos rfl]
      exact .fetchClose before (revokes rfl)
  | restricted memStr =>
      simp only [fetchPg] at ran
      split at ran
      case isTrue =>
        obtain ⟨rfl, rfl⟩ := ran
        exact callback_stay zero locksHeld linked present rfl ⟨rfl, rfl, rfl⟩ (fun _ => rfl) rfl
      case isFalse atWorker =>
        obtain ⟨rfl, rfl⟩ := ran
        exact callback_stay zero locksHeld linked present rfl ⟨rfl, rfl, rfl⟩
          (fun same => absurd same (worker atWorker)) rfl
  | done => contradiction

/-! ### `invalidate_adapter` -/

theorem invalidate_protocol {pc : InvalidatePc} {fresh : HandlerId} {between : PageState}
    (present : st.handler id = some ⟨node, .invalidate pc⟩)
    (revokes : ∀ {kept}, (Job.invalidate pc).revokes? = some kept →
      regime.revokes (st.protocolState current) node kept)
    (ran : ((invalidateAdapter cfg node base pc).map .invalidate).execOnPage node (.handler id)
      fresh st = some (next, between)) :
    StepOrStay regime (st.protocolState current)
      ((between.setHandler id ⟨node, next⟩).protocolState current) := by
  have worker : ¬cfg.isManager node = true → node ≠ 0 := by simp [zero]
  cases pc with
  | entry =>
      simp only [invalidateAdapter] at ran
      split at ran
      case isTrue =>
        obtain ⟨rfl, rfl⟩ := ran
        exact callback_stay zero locksHeld linked present rfl ⟨rfl, rfl, rfl⟩ (fun _ => rfl) rfl
      case isFalse atWorker =>
        obtain ⟨-, rfl, rfl⟩ := Stmt.execOnPage_waitLock ran
        exact callback_stay zero locksHeld linked present rfl ⟨rfl, rfl, rfl⟩
          (fun same => absurd same (worker atWorker)) rfl
  | locked =>
      obtain ⟨rfl, rfl⟩ := ran
      refine callback_step zero locksHeld linked attended present rfl rfl ⟨rfl, rfl⟩ (fun _ => rfl)
        (.inr rfl) rfl fun calls free => ?_
      obtain ⟨reqNode, live, page, nodes, serving⟩ :=
        invalidate_called zero locksHeld linked calls present
      have before := serving st.progress
      simp only [PageState.progress, present] at before
      rw [serving, PageState.progress_setHandler, if_pos rfl]
      exact .dropCopy before free (revokes rfl)
  | dropped =>
      simp only [invalidateAdapter] at ran
      split at ran
      case isTrue =>
        obtain ⟨rfl, rfl⟩ := ran
        exact callback_stay zero locksHeld linked present rfl ⟨rfl, rfl, rfl⟩ (fun _ => rfl) rfl
      case isFalse atWorker =>
        obtain ⟨rfl, rfl⟩ := ran
        exact callback_stay zero locksHeld linked present rfl ⟨rfl, rfl, rfl⟩
          (fun same => absurd same (worker atWorker)) rfl
  | done => contradiction

end Rows

end Callbacks

end LibIvy
