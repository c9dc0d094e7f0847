import LibIvy.Page.CallbackSteps

/-!
Contract: every step of a page is a step of the protocol, or none.

Owns: what the regime of the protocol asks of a step of the runtime, and the
simulation.

Does not own: invariants of the protocol, runs of the whole system.
-/

namespace LibIvy

open Lib Protocol

/-- The contents that the last store left, after one more step. -/
def PageAction.current (current : Page) : PageAction → Page
  | .store _ offset values => writePage current offset values
  | _ => current

/-- What the regime asks of a step of the runtime. -/
structure Permits (regime : Regime Page) (st : PageState) (current : Page) (action : PageAction) :
    Prop where
  faults : ∀ {thread rq}, action = .fault thread rq → regime.faults thread.node
  lossy : action.reliable = false → regime.lossy
  attended : Attended st ∨ regime.lossy
  revokes : ∀ {id fresh handler access}, action = .handler id fresh →
    st.handler id = some handler → handler.job.revokes? = some access →
    regime.revokes (st.protocolState current) handler.node access
  loses : ∀ {thread rq call}, action = .failApp thread →
    st.app thread = some (rq, .asking call) → regime.loses (st.protocolState current) thread.node
  commits : ∀ {id fresh handler}, action = .handler id fresh → st.handler id = some handler →
    handler.job.commits = true → regime.commits (st.protocolState current)

section Refinement

variable {cfg : Config} {base : Addr} {regime : Regime Page} {st after : PageState} {current : Page}

/-- A node runs one application thread. -/
theorem thread_eq (single : cfg.appThreads = 1) {thread : AppId} (runs : cfg.runs thread = true) :
    thread = PageState.thread thread.node := by
  have only := (Config.runs_node runs).2
  obtain ⟨node, idx⟩ := thread
  simp only [single, Nat.lt_one_iff] at only
  rw [PageState.thread, only]

variable (zero : cfg.managerId = 0) (single : cfg.appThreads = 1)
variable (linked : Linked cfg st) (locksHeld : LocksHeld cfg st)

include zero single linked locksHeld

omit zero single linked locksHeld in
theorem failApp_protocol {node : NodeId} {rq : Rq} {pc next : FaultPc} (lossy : regime.lossy)
    (permitted : ∀ {rq call}, st.app (PageState.thread node) = some (rq, .asking call) →
      regime.loses (st.protocolState current) node)
    (inside : st.app (PageState.thread node) = some (rq, pc))
    (failed : (faultHdlr cfg rq node base pc).fail? = some next) :
    StepOrStay regime (st.protocolState current)
      ((st.setApp (PageState.thread node) (resumeOnPage rq next)).protocolState current) := by
  obtain ⟨rpc, call, target, row, waits⟩ := Stmt.fail_awaits failed
  obtain rfl := FaultPc.awaits?_eq_some ((faultHdlr_awaits? ..).symm.trans waits)
  obtain rfl : FaultPc.failed = next := by cases rq <;> cases row <;> rfl
  have pending : (st.protocolState current).app node = .asking rq ∨
      ∃ page, (st.protocolState current).app node = .granted rq page := by
    simp only [PageState.protocolState, PageState.phase, inside, FaultPc.phase]
    cases st.reply? call <;> simp
  have serving : (st.setApp (PageState.thread node) (resumeOnPage rq .failed)).serving =
      st.serving.map fun (serving : Serving Page) =>
        if serving.reqNode = node then { serving with live := false } else serving := by
    simp only [PageState.serving]
    have sameServer : (st.setApp (PageState.thread node) (resumeOnPage rq .failed)).server =
        st.server := rfl
    rw [sameServer, PageState.setApp_progress]
    cases st.server with
    | none => rfl
    | some served =>
        obtain ⟨id, job⟩ := served
        cases job <;> simp only [Option.bind_some, Job.serving, PageState.isAsking_resume,
          Option.map_some, Option.map_none, Option.some.injEq]
        all_goals split <;> rfl
  refine .inr ?_
  have moved : (st.setApp (PageState.thread node) (resumeOnPage rq .failed)).protocolState current =
      { st.protocolState current with
        srv := (st.protocolState current).srv.map fun (serving : Serving Page) =>
          if serving.reqNode = node then { serving with live := false } else serving }.setPhase
        node (.ready rq) :=
    State.ext rfl rfl rfl rfl rfl (PageState.phase_resume node rq .failed) serving
  rw [moved]
  exact .lose lossy (permitted inside) pending

omit single in
theorem failHandler_protocol {id : HandlerId} {handler : PageHandler} {next : Job}
    (lossy : regime.lossy) (present : st.handler id = some handler)
    (failed : (handler.job.stmt cfg handler.node base).fail? = some next)
    (afterHeld : LocksHeld cfg (st.setHandler id { handler with job := next })) :
    StepOrStay regime (st.protocolState current)
      ((st.setHandler id { handler with job := next }).protocolState current) := by
  obtain ⟨node, job⟩ := handler
  obtain ⟨rpc, call, target, row, waits⟩ := Stmt.fail_awaits failed
  rw [job_awaits?] at waits
  cases job with
  | servRd reqNode pc =>
      obtain rfl : node = 0 := linked.atManager present rfl
      cases pc <;> try contradiction
      case fetching owner call =>
        cases row
        exact taken_step zero locksHeld present afterHeld ⟨rfl, rfl⟩ rfl
          fun serving => .inr (.giveUp lossy serving)
  | servWr reqNode pc =>
      obtain rfl : node = 0 := linked.atManager present rfl
      cases pc <;> try contradiction
      case fetching owner nodes call =>
        cases row
        exact taken_step zero locksHeld present afterHeld ⟨rfl, rfl⟩ rfl
          fun serving => .inr (.giveUp lossy serving)
      case invalidateSent owner pageContents nodes call =>
        cases row
        exact taken_step zero locksHeld present afterHeld ⟨rfl, rfl⟩ rfl
          fun serving => .inr (.skipNodes lossy serving)
  | fetch access pc => contradiction
  | invalidate pc => contradiction

/-- The simulation. -/
theorem step_protocol {action : PageAction} (permits : Permits regime st current action)
    (taken : st.step cfg base action = some after) :
    StepOrStay regime (st.protocolState current)
      (after.protocolState (action.current current)) := by
  have afterHeld := locksHeld.step taken
  cases action with
  | store thread offset values =>
      obtain ⟨runs, outside, permitted, rfl⟩ := PageState.step_store taken
      obtain ⟨node, rfl⟩ : ∃ node, thread = PageState.thread node := ⟨_, thread_eq single runs⟩
      have phase : (st.protocolState current).app node = .out := by
        simp [PageState.protocolState, PageState.phase, outside]
      have stored : (st.setNode node { st.node node with
            bytes := writePage (st.node node).bytes offset values }).protocolState
              (writePage current offset values) =
          { (st.protocolState current).setBytes node
              (writePage (st.node node).bytes offset values) with
            current := writePage current offset values } := by
        have kept : (st.protocolState current).prot node = (st.node node).prot := rfl
        have moved : (st.setNode node { st.node node with
              bytes := writePage (st.node node).bytes offset values }).protocolState current =
            ((st.protocolState current).setProt node (st.node node).prot).setBytes node
              (writePage (st.node node).bytes offset values) :=
          PageState.protocolState_setNode _ ⟨rfl, rfl⟩ fun _ => rfl
        rw [State.setProt_eq _ kept] at moved
        exact congrArg (fun (a : State Page) =>
          { a with current := writePage current offset values }) moved
      exact .inr (stored ▸ .store (fun bytes => writePage bytes offset values) phase permitted)
  | fault thread rq =>
      obtain ⟨runs, outside, permitted, rfl⟩ := PageState.step_fault taken
      obtain ⟨node, rfl⟩ : ∃ node, thread = PageState.thread node := ⟨_, thread_eq single runs⟩
      have phase : (st.protocolState current).app node = .out := by
        simp [PageState.protocolState, PageState.phase, outside]
      have idle : ∀ id job, st.server = some (id, job) →
          (FaultPc.entry.awaits? == some id) = st.isAsking node id := by
        simp [PageState.isAsking, outside, FaultPc.awaits?]
      have moved : (st.setApp (PageState.thread node) (some (rq, .entry))).protocolState current =
          (st.protocolState current).setPhase node (.waiting rq) :=
        PageState.protocolState_resume idle
      exact .inr (moved ▸ .fault (permits.faults rfl) phase permitted)
  | app thread fresh =>
      obtain ⟨rq, pc, next, between, inside, ran, rfl⟩ := PageState.step_app taken
      obtain ⟨node, rfl⟩ : ∃ node, thread = PageState.thread node :=
        ⟨_, thread_eq single (linked.runs inside)⟩
      exact app_protocol zero linked locksHeld inside ran
  | handler id fresh =>
      obtain ⟨⟨node, job⟩, next, between, present, ran, rfl⟩ := PageState.step_handler taken
      cases job with
      | servRd reqNode pc =>
          obtain rfl : node = 0 := linked.atManager present rfl
          exact servRd_protocol zero single locksHeld linked permits.attended present ran afterHeld
      | servWr reqNode pc =>
          obtain rfl : node = 0 := linked.atManager present rfl
          exact servWr_protocol zero single locksHeld linked permits.attended present
            (permits.commits rfl present) ran afterHeld
      | fetch access pc =>
          exact fetch_protocol zero locksHeld linked permits.attended present
            (permits.revokes rfl present) ran
      | invalidate pc =>
          exact invalidate_protocol zero locksHeld linked permits.attended present
            (permits.revokes rfl present) ran
  | failApp thread =>
      obtain ⟨rq, pc, next, inside, failed, rfl⟩ := PageState.step_failApp taken
      obtain ⟨node, rfl⟩ : ∃ node, thread = PageState.thread node :=
        ⟨_, thread_eq single (linked.runs inside)⟩
      exact failApp_protocol (permits.lossy rfl) (permits.loses rfl) inside failed
  | failHandler id =>
      obtain ⟨handler, next, present, failed, rfl⟩ := PageState.step_failHandler taken
      exact failHandler_protocol zero linked locksHeld (permits.lossy rfl) present failed
        afterHeld

end Refinement

end LibIvy
