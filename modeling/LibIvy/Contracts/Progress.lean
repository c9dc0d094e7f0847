import LibIvy.Contracts.Coherence
import LibIvy.Contracts.Deadlock
import LibIvy.Contracts.Service
import LibIvy.Page.Crossing
import LibIvy.Page.Usable

/-!
Contract: which faults are served.

Owns: that a thread that waits for nobody can move, that in runs of the workers
without crossing calls somebody can move until all faults are served, that a call that
crosses a fault leaves that fault unserved for good, and with both that crossing calls
are exactly what keeps faults from being served.

Does not own: how many statements that takes; see `LibIvy.Contracts.Messages`.
-/

namespace LibIvy

open Lib NumberText TransitionSystem

/-! ### Threads that wait for nobody -/

/-- A statement that has what it needs is executed. -/
theorem Stmt.exec_enabled {σ : Type} {self : NodeId} {tid : Tid} {fresh : HandlerId} {stmt : Stmt σ}
    {s : Sys} {base : Nat} (aligned : 4096 ∣ base) (onPage : stmt.OnPage base)
    (allowed : stmt.Allowed ((s.node self).prot base))
    (unblocked : stmt.blocker (s.node self).lock s.reply? = none) (unused : s.handler fresh = none) :
    ∃ next after events, stmt.exec self tid fresh s = some (next, after, events) := by
  cases stmt with
  | waitLock table key next =>
      have free : (s.node self).lock table key = none := unblocked
      simp [exec, runLocal, free]
  | readPage addr next =>
      obtain rfl : pgAlign addr = base := onPage
      have readable : ((s.node self).prot (pgAlign addr)).readable = true := allowed
      simp [exec, runLocal, readable]
  | memcpy addr contents next =>
      obtain rfl : addr = base := onPage
      obtain ⟨⟨bytes, full⟩, writable⟩ := allowed
      simp [exec, runLocal, full, pgAlign_of_dvd aligned, writable]
  | call dst fn body next =>
      obtain ⟨job, accepted⟩ := onPage
      simp [exec, unused, accepted]
  | await rpc id next failed =>
      cases replied : s.reply? id with
      | none => simp [blocker, replied] at unblocked
      | some reply => simp [exec, replied]
  | halt => exact allowed.elim
  | _ => exact ⟨_, _, _, rfl⟩

/-- The thread is inside a fault handler, or executes a served function that has not
returned. -/
def Sys.Active (s : Sys) : Tid → Prop
  | .app thread => s.app thread ≠ .run
  | .handler id => ∃ handler, s.handler id = some handler ∧ handler.job.reply? = none

/-- The same for the threads of one page. -/
def PageState.Active (st : PageState) : Tid → Prop
  | .app thread => ∃ rq pc, st.app thread = some (rq, pc)
  | .handler id => ∃ handler, st.handler id = some handler ∧ handler.job.reply? = none

theorem Sys.active_of_view {s : Sys} {base : Addr} {tid : Tid} (active : (s.view base).Active tid) :
    s.Active tid := by
  cases tid with
  | app thread =>
      obtain ⟨rq, pc, inView⟩ := active
      obtain ⟨addr, inside, -⟩ := App.view_eq_some inView
      simp [Active, inside]
  | handler id =>
      obtain ⟨⟨node, job⟩, present, running⟩ := active
      exact ⟨_, s.handler_of_view present, running⟩

theorem Stmt.blocker_running {σ : Type} {stmt : Stmt σ} {lock : LockTable → Addr → Option Tid}
    {reply? : HandlerId → Option Reply} {other : Tid}
    (waiting : stmt.blocker lock reply? = some other) :
    (∃ table key, lock table key = some other) ∨
      ∃ id, stmt.awaits? = some id ∧ other = .handler id ∧ reply? id = none := by
  cases stmt with
  | waitLock table key next => exact .inl ⟨table, key, waiting⟩
  | await rpc id next failed =>
      simp only [blocker] at waiting
      split at waiting
      · rename_i running
        exact .inr ⟨id, rfl, (Option.some.inj waiting).symm, Option.isNone_iff_eq_none.mp running⟩
      · contradiction
  | _ => contradiction

/-- Whoever is waited for is still working. -/
theorem PageState.active_of_blocker {cfg : Config} {base : Addr} {st : PageState}
    (locksHeld : LocksHeld cfg st) (linked : Linked cfg st) {tid other : Tid}
    (waiting : st.blocker cfg base tid = some other) : st.Active other := by
  have holder : ∀ node table, (st.node node).lock table = some other → st.Active other := by
    intro node table held
    have holds := (locksHeld node table other).mp held
    cases other with
    | app thread =>
        obtain ⟨-, rq, pc, inside, -⟩ := holds
        exact ⟨rq, pc, inside⟩
    | handler id =>
        obtain ⟨handler, present, -, held⟩ := holds
        exact ⟨handler, present, Job.running_of_held held⟩
  have called : ∀ {id : HandlerId} {handler : PageHandler}, st.handler id = some handler →
      st.reply? id = none → st.Active (.handler id) := by
    intro id handler present running
    exact ⟨handler, present, by simpa [reply?, present] using running⟩
  cases tid with
  | app thread =>
      simp only [blocker] at waiting
      split at waiting
      · contradiction
      · rename_i rq pc inside
        rcases Stmt.blocker_running waiting with ⟨table, key, held⟩ | ⟨id, waits, rfl, running⟩
        · exact holder _ _ held
        · rw [faultHdlr_awaits?] at waits
          obtain ⟨callee, found, -⟩ := linked.appCall inside waits
          exact called found running
  | handler id =>
      simp only [blocker] at waiting
      split at waiting
      · contradiction
      · rename_i handler present
        rcases Stmt.blocker_running waiting with ⟨table, key, held⟩ | ⟨id, waits, rfl, running⟩
        · exact holder _ _ held
        · rw [job_awaits?] at waits
          obtain ⟨callee, found, -⟩ := linked.handlerCall present waits
          exact called found running

/-! ### Somebody can move -/

section Enabled

variable {cfg : Config} {base : Nat} {trace : List Event} {s : Sys}

/-- Protections of a page are what its threads rely on, in runs of the workers. -/
theorem page_usable (zero : cfg.managerId = 0) (aligned : 4096 ∣ base) (fits : base < wordCount)
    (run : Run (machine cfg) (ReliableWorkers cfg) trace s) : Usable (s.view base) := by
  refine (page_invariant (fun st _ => ManagerOutside cfg st ∧ Usable st) aligned
    ⟨by simp [ManagerOutside, PageState.initial], .initial⟩ ?_ run).2
  rintro trace s action pageAction st run permitted - onPage ⟨outside, usable⟩ taken
  obtain ⟨locksHeld, linked⟩ := page_ordered zero aligned fits run
  have attended : Attended (s.view base) :=
    page_attended aligned (fun _ _ permitted => permitted.1) run
  refine ⟨outside.step ?_ taken, usable.step ((reliable_onPage onPage).trans permitted.1)
    (occupies_unique zero locksHeld linked attended outside) taken⟩
  rintro thread rq rfl
  obtain ⟨addr, rfl⟩ := fault_of_onPage onPage
  simpa [WorkersOnly, Action.byWorker] using permitted.2

/-- Some statement of the runtime can be executed. -/
def Sys.CanMove (cfg : Config) (s : Sys) : Prop :=
  ∃ action, action.ofRuntime = true ∧ action.reliable = true ∧ s.step cfg action ≠ none

/-- A thread of the runtime that waits for nobody can move. -/
theorem canMove_of_unblocked (zero : cfg.managerId = 0)
    (run : Run (machine cfg) (ReliableWorkers cfg) trace s) {tid : Tid} (active : s.Active tid)
    (unblocked : s.blocker cfg tid = none) : s.CanMove cfg := by
  have addressed := Addressed.of_reachable run.reachable
  obtain ⟨fresh, names⟩ := Sys.bounded_of_reachable run.reachable
  have unused : s.handler fresh = none := names fresh le_rfl
  cases tid with
  | app thread =>
      cases inside : s.app thread with
      | run => exact absurd inside active
      | fault rq addr pc =>
          have aligned := pgAlign_dvd addr
          have fits := pgAlign_lt (addressed.fault inside).1
          have inView : (s.view (pgAlign addr)).app thread = some (rq, pc) := by
            rw [Sys.view_app, inside, App.view_fault]
          have linked := (page_ordered zero aligned fits run).2
          have allowed : (faultHdlr cfg rq thread.node addr pc).Allowed
              ((s.node thread.node).prot (pgAlign addr)) := by
            rw [← faultHdlr_pgAlign]
            exact (page_usable zero aligned fits run).app_allowed linked inView
          simp only [Sys.blocker, inside] at unblocked
          obtain ⟨next, after, events, ran⟩ := @Stmt.exec_enabled _ _ (.app thread) fresh _ _ _
            aligned (addressed.app_onPage inside) allowed unblocked unused
          refine ⟨.app thread fresh, rfl, rfl, ?_⟩
          simp [Sys.step_app_of inside ran]
  | handler id =>
      obtain ⟨handler, present, running⟩ := active
      obtain ⟨aligned, fits⟩ := addressed.handler present
      have linked := (page_ordered zero aligned fits run).2
      have allowed : (handler.job.stmt cfg handler.node handler.addr).Allowed
          ((s.node handler.node).prot handler.addr) :=
        (page_usable zero aligned fits run).handler_allowed linked (s.view_handler present rfl) running
      simp only [Sys.blocker, present] at unblocked
      obtain ⟨next, after, events, ran⟩ := @Stmt.exec_enabled _ _ (.handler id) fresh _ _ _
        aligned (addressed.handler_onPage present) allowed unblocked unused
      refine ⟨.handler id fresh, rfl, rfl, ?_⟩
      simp [Sys.step_handler_of present ran]

/-- As long as no call has crossed a fault, an active thread is enough for some
thread to move. -/
theorem canMove_of_active (zero : cfg.managerId = 0) (single : cfg.appThreads = 1)
    (run : Run (machine cfg) (fun s action => ReliableWorkers cfg s action ∧
      crossesFault cfg s action = false) trace s) {tid : Tid} (active : s.Active tid) :
    s.CanMove cfg := by
  have addressed := Addressed.of_reachable run.reachable
  have workers := run.mono fun _ _ permitted => permitted.1
  have uncrossed : Run (machine cfg) (ReliableUncrossed cfg) trace s :=
    run.mono fun _ _ permitted => ⟨permitted.1.1, permitted.2⟩
  have ordered : ∀ base, 4096 ∣ base → base < wordCount →
      LocksHeld cfg (s.view base) ∧ Linked cfg (s.view base) ∧ CallsPass cfg (s.view base) := by
    intro base aligned fits
    obtain ⟨locksHeld, linked⟩ := page_ordered zero aligned fits run
    exact ⟨locksHeld, linked, page_callsPass zero aligned fits uncrossed⟩
  have nonempty : Set.Nonempty {tid | s.Active tid} := ⟨tid, active⟩
  obtain ⟨free, freeActive, unblocked⟩ := exists_unblocked_of_rank s.waitRank
    (fun _ _ waiting => addressed.waitRank_decreases zero single ordered waiting) nonempty (by
      intro tid _ other waiting
      obtain ⟨base, aligned, fits, -, onPage⟩ := addressed.blocker_view waiting
      obtain ⟨locksHeld, linked, -⟩ := ordered base aligned fits
      exact Sys.active_of_view (PageState.active_of_blocker locksHeld linked onPage))
  exact canMove_of_unblocked zero workers freeActive unblocked

end Enabled

/-! ### Crossed faults -/

section Crossed

variable {cfg : Config} {base : Nat} {s after : Sys} {action : Action} {events trace : List Event}

/-- A call that crosses a fault of a page stays where it is. -/
theorem crossing_stays (zero : cfg.managerId = 0) (aligned : 4096 ∣ base) (fits : base < wordCount)
    {node : NodeId} {serving call : HandlerId} (worker : cfg.isManager node = false)
    (run : Run (machine cfg) Reliable trace s) (reliable : action.reliable = true)
    (crossing : (s.view base).Crossing node serving call)
    (taken : s.step cfg action = some (after, events)) :
    (after.view base).Crossing node serving call := by
  have addressed := Addressed.of_reachable run.reachable
  by_cases same : base = s.pageOf action
  · subst same
    cases onPage : action.onPage with
    | none =>
        obtain ⟨thread, addr, count, rfl⟩ := Action.eq_load onPage
        obtain ⟨-, -, -, -, rfl, -⟩ := Sys.step_load taken
        exact crossing
    | some pageAction =>
        obtain ⟨locksHeld, -⟩ := page_ordered zero aligned fits run
        exact crossing.step zero worker locksHeld ((reliable_onPage onPage).trans reliable)
          (addressed.view_step onPage taken)
  · rw [addressed.view_step_other aligned same taken]
    exact crossing

theorem Stmt.call_of_callee {σ : Type} {stmt : Stmt σ} {dst : NodeId}
    (callee : stmt.callee? = some dst) : ∃ fn body target, stmt = .call dst fn body target := by
  cases stmt with
  | call other fn body target =>
      obtain rfl := Option.some.inj callee
      exact ⟨fn, body, target, rfl⟩
  | _ => contradiction

/-- A node that is being called has a call in front of its page lock. -/
theorem called_of_callsNode {node : NodeId} (locksHeld : LocksHeld cfg (s.view base))
    (linked : Linked cfg (s.view base)) (calls : s.callsNode node base = true) :
    ∃ serving call, (∃ job, (s.view base).handler serving = some ⟨0, job⟩ ∧
        job.awaits? = some call) ∧
      ∃ job, (s.view base).handler call = some ⟨node, job⟩ ∧ job.atPageLock = true := by
  simp only [Sys.callsNode] at calls
  split at calls
  case h_2 => contradiction
  case h_1 serving locked =>
    split at calls
    case h_2 => contradiction
    case h_1 call waits =>
      have holder : ((s.view base).node 0).lock .pageLocks = some (.handler serving) := locked
      obtain ⟨⟨holderNode, job⟩, present, rfl, -⟩ := (locksHeld 0 .pageLocks _).mp holder
      obtain ⟨handler, inSys, awaits⟩ := Option.bind_eq_some_iff.mp waits
      obtain rfl := Option.some.inj ((s.handler_of_view present).symm.trans inSys)
      obtain ⟨⟨calleeNode, callee⟩, found, -⟩ := linked.handlerCall present awaits
      simp only [s.handler_of_view found, Option.any_some, Bool.and_eq_true, beq_iff_eq] at calls
      obtain ⟨rfl, atLock⟩ := calls
      exact ⟨serving, call, ⟨job, present, awaits⟩, callee, found, atLock⟩

/-- The node whose fault is crossed when the step lets a call cross a fault. -/
def crossedNode (cfg : Config) (s : Sys) : Action → Option NodeId
  | .handler id _ => (s.handler id).bind fun handler =>
      (handler.job.stmt cfg handler.node handler.addr).callee?
  | .app thread _ => some thread.node
  | _ => none

/-- A step that lets a call cross a fault. -/
theorem crossing_of_step (zero : cfg.managerId = 0) (single : cfg.appThreads = 1)
    (run : Run (machine cfg) Reliable trace s) (reliable : action.reliable = true)
    (crosses : crossesFault cfg s action = true) (taken : s.step cfg action = some (after, events)) :
    ∃ base node serving call, crossedNode cfg s action = some node ∧ 4096 ∣ base ∧
      base < wordCount ∧ cfg.isManager node = false ∧
      (after.view base).Crossing node serving call := by
  have addressed := Addressed.of_reachable run.reachable
  have later := run.step reliable taken
  cases action with
  | handler id fresh =>
      obtain ⟨handler, -, -, present, -, -⟩ := Sys.step_handler taken
      obtain ⟨aligned, fits⟩ := addressed.handler present
      obtain ⟨locksHeld, linked⟩ := page_ordered zero aligned fits run
      obtain ⟨locksAfter, linkedAfter⟩ := page_ordered zero aligned fits later
      simp only [crossesFault, present] at crosses
      split at crosses
      case h_2 => contradiction
      case h_1 dst callee =>
        simp only [Bool.and_eq_true, Bool.not_eq_true'] at crosses
        obtain ⟨worker, unserved⟩ := crosses
        simp only [Sys.unserved] at unserved
        split at unserved
        case h_1 => contradiction
        case h_2 rq addr pc inside =>
          simp only [Bool.and_eq_true, beq_iff_eq] at unserved
          obtain ⟨samePage, unserved⟩ := unserved
          have inView : (s.view handler.addr).app (PageState.thread dst) = some (rq, pc) := by
            rw [Sys.view_app, PageState.thread, inside, ← samePage, App.view_fault]
          have waits : pc.unserved (s.view handler.addr).reply? = true := by
            cases pc with
            | asking call =>
                have serves := addressed.appAwaits inside rfl
                rw [samePage] at serves
                rw [FaultPc.unserved, s.view_reply? serves]
                exact unserved
            | _ => exact unserved
          have onPage := addressed.view_step rfl taken
          simp only [Sys.pageOf, present] at onPage
          have crossed : crossedNode cfg s (.handler id fresh) = some dst := by
            simpa [crossedNode, present] using callee
          exact ⟨handler.addr, dst, id, fresh, crossed, aligned, fits, worker, .of_call zero linked
            locksAfter linkedAfter (s.view_handler present rfl) (Stmt.call_of_callee callee) inView
            waits onPage⟩
  | app thread fresh =>
      simp only [crossesFault] at crosses
      split at crosses
      case h_2 => contradiction
      case h_1 rq addr inside =>
        simp only [Bool.and_eq_true, Bool.not_eq_true'] at crosses
        obtain ⟨worker, calls⟩ := crosses
        have aligned := pgAlign_dvd addr
        have fits := pgAlign_lt (addressed.fault inside).1
        obtain ⟨locksHeld, linked⟩ := page_ordered zero aligned fits run
        obtain ⟨serving, call, waits, atLock⟩ := called_of_callsNode locksHeld linked calls
        have only := thread_eq single (addressed.fault inside).2
        have inView : (s.view (pgAlign addr)).app (PageState.thread thread.node) =
            some (rq, .entry) := by
          rw [← only, Sys.view_app, inside, App.view_fault]
        have onPage := addressed.view_step rfl taken
        simp only [Sys.pageOf, inside] at onPage
        rw [only] at onPage
        exact ⟨pgAlign addr, thread.node, serving, call, rfl, aligned, fits, worker,
          .of_lock worker waits atLock inView onPage⟩
  | _ => contradiction

/-- A call that has crossed a fault is still in its way. -/
theorem crossing_of_logged (zero : cfg.managerId = 0) (single : cfg.appThreads = 1)
    {log : List (Sys × Action)} (run : Run (machine cfg).logged Reliable log s)
    {entry : Sys × Action} (member : entry ∈ log)
    (crosses : crossesFault cfg entry.1 entry.2 = true) :
    ∃ base node serving call, crossedNode cfg entry.1 entry.2 = some node ∧ 4096 ∣ base ∧
      base < wordCount ∧ cfg.isManager node = false ∧ (s.view base).Crossing node serving call := by
  induction run with
  | init => simp at member
  | step run reliable taken inductionHypothesis =>
      obtain ⟨rfl, events, stepped⟩ := logged_step taken
      obtain ⟨trace, reached⟩ := Run.of_logged run
      rcases List.mem_append.mp member with earlier | now
      · obtain ⟨base, node, serving, call, crossed, aligned, fits, worker, crossing⟩ :=
          inductionHypothesis earlier
        exact ⟨base, node, serving, call, crossed, aligned, fits, worker,
          crossing_stays zero aligned fits worker reached reliable crossing stepped⟩
      · obtain rfl := List.mem_singleton.mp now
        exact crossing_of_step zero single reached reliable crosses stepped

/-- A node whose fault was crossed is inside its fault handler. -/
theorem inside_of_crossed (zero : cfg.managerId = 0) (single : cfg.appThreads = 1)
    {log : List (Sys × Action)} (run : Run (machine cfg).logged Reliable log s)
    {entry : Sys × Action} (member : entry ∈ log)
    (crosses : crossesFault cfg entry.1 entry.2 = true) :
    ∃ node rq addr pc, crossedNode cfg entry.1 entry.2 = some node ∧
      s.app ⟨node, 0⟩ = .fault rq addr pc := by
  obtain ⟨base, node, _, _, crossed, -, -, -, crossing⟩ :=
    crossing_of_logged zero single run member crosses
  obtain ⟨rq, pc, inView, -⟩ := crossing.inside
  obtain ⟨addr, inside, -⟩ := App.view_eq_some inView
  exact ⟨node, rq, addr, pc, crossed, inside⟩

end Crossed

/-! ### Nothing left to execute -/

section AtRest

variable {cfg : Config} {allowed : Sys → Action → Prop} {log : List (Sys × Action)} {s : Sys}

/-- When nobody is active, nothing is left to execute. -/
theorem Sys.atRest_of_inactive (inactive : ∀ tid, ¬s.Active tid) (action : Action)
    (ofRuntime : action.ofRuntime = true) (reliable : action.reliable = true) :
    s.step cfg action = none := by
  cases action with
  | app thread fresh =>
      have outside : s.app thread = .run := not_not.mp (inactive (.app thread))
      simp [step, outside]
  | handler id fresh =>
      cases present : s.handler id with
      | none => simp [step, present]
      | some handler =>
          cases returned : handler.job.reply? with
          | none => exact absurd ⟨handler, present, returned⟩ (inactive (.handler id))
          | some reply => simp [step, present, job_stmt_halt returned, Stmt.exec, Stmt.runLocal]
  | _ => contradiction

/-- The name that the step has for an instance. -/
def Action.fresh? : Action → Option HandlerId
  | .app _ fresh => some fresh
  | .handler _ fresh => some fresh
  | _ => none

theorem Stmt.exec_started {σ : Type} {self : NodeId} {tid : Tid} {fresh id : HandlerId}
    {stmt : Stmt σ} {after : Sys} {next : σ} {events : List Event} {handler : Handler}
    (ran : stmt.exec self tid fresh s = some (next, after, events))
    (present : after.handler id = some handler) : s.handler id = some handler ∨ id = fresh := by
  by_cases same : id = fresh
  · exact .inr same
  · rcases exec_cases ran with ⟨nd, -, rfl⟩ | ⟨_, _, _, _, _, _, -, -, -, -, rfl, -⟩ |
      ⟨_, _, _, _, _, -, -, -, rfl, -⟩
    · exact .inl present
    · exact .inl (by simpa [Sys.setHandler, same] using present)
    · exact .inl present

/-- Every instance has been named by a step. -/
theorem named_of_logged (run : Run (machine cfg).logged allowed log s) {id : HandlerId}
    {handler : Handler} (present : s.handler id = some handler) :
    ∃ entry ∈ log, entry.2.fresh? = some id := by
  induction run generalizing handler with
  | init => contradiction
  | @step log _ before after action run _ taken inductionHypothesis =>
      obtain ⟨rfl, events, stepped⟩ := logged_step taken
      change before.step cfg action = some (after, events) at stepped
      have earlier : ∀ {handler : Handler}, before.handler id = some handler →
          ∃ entry ∈ log ++ [(before, action)], entry.2.fresh? = some id := by
        intro handler present
        obtain ⟨entry, member, named⟩ := inductionHypothesis present
        exact ⟨entry, List.mem_append_left _ member, named⟩
      have now : action.fresh? = some id →
          ∃ entry ∈ log ++ [(before, action)], entry.2.fresh? = some id :=
        fun named => ⟨_, List.mem_append_right _ (List.mem_singleton_self _), named⟩
      cases action with
      | load thread addr count =>
          obtain ⟨-, -, -, -, rfl, -⟩ := Sys.step_load stepped
          exact earlier present
      | store thread addr values =>
          obtain ⟨-, -, -, -, rfl, -⟩ := Sys.step_store stepped
          exact earlier present
      | fault thread rq addr =>
          obtain ⟨-, -, -, -, rfl, -⟩ := Sys.step_fault stepped
          exact earlier present
      | app thread fresh =>
          obtain ⟨_, _, _, _, between, -, ran, rfl⟩ := Sys.step_app stepped
          rcases Stmt.exec_started ran present with old | rfl
          · exact earlier old
          · exact now rfl
      | handler mover fresh =>
          obtain ⟨moving, _, between, found, ran, rfl⟩ := Sys.step_handler stepped
          by_cases same : id = mover
          · subst same
            exact earlier found
          · have old : between.handler id = some handler := by
              simpa [Sys.setHandler, same] using present
            rcases Stmt.exec_started ran old with old | rfl
            · exact earlier old
            · exact now rfl
      | failApp thread =>
          obtain ⟨_, _, _, _, -, -, rfl, -⟩ := Sys.step_failApp stepped
          exact earlier present
      | failHandler mover =>
          obtain ⟨moving, _, found, -, rfl, -⟩ := Sys.step_failHandler stepped
          by_cases same : id = mover
          · subst same
            exact earlier found
          · exact earlier (by simpa [Sys.setHandler, same] using present)

end AtRest

/-- A fault that a call has crossed is not served in any run of the workers, however
far it goes; and when the runtime has nothing left to execute, all faults are served
if and only if no call has crossed the fault of the node it was for. -/
theorem served_iff_uncrossed {cfg : Config} (zero : cfg.managerId = 0) (single : cfg.appThreads = 1)
    {log : List (Sys × Action)} {s : Sys}
    (run : Run (machine cfg).logged (ReliableWorkers cfg) log s) :
    (∀ entry ∈ log, crossesFault cfg entry.1 entry.2 = true →
      ∃ node rq addr pc, crossedNode cfg entry.1 entry.2 = some node ∧
        s.app ⟨node, 0⟩ = .fault rq addr pc) ∧
    ((∀ action, action.ofRuntime = true → action.reliable = true → s.step cfg action = none) →
      ((∀ thread, s.app thread = .run) ↔
        ∀ entry ∈ log, crossesFault cfg entry.1 entry.2 = false)) := by
  have reliable : Run (machine cfg).logged Reliable log s := run.mono fun _ _ permitted => permitted.1
  refine ⟨fun entry member crosses => inside_of_crossed zero single reliable member crosses,
    fun atRest => ⟨?_, ?_⟩⟩
  · intro served entry member
    by_contra crosses
    rw [Bool.not_eq_false] at crosses
    obtain ⟨node, rq, addr, pc, -, inside⟩ := inside_of_crossed zero single reliable member crosses
    simp [served] at inside
  · intro uncrossed thread
    by_contra inside
    obtain ⟨trace, reached⟩ : Reachable (machine cfg) (fun s action => ReliableWorkers cfg s action ∧
        crossesFault cfg s action = false) s := run.of_logged_within uncrossed
    obtain ⟨action, ofRuntime, reliable, moves⟩ :=
      @canMove_of_active _ _ _ zero single reached (.app thread) inside
    exact moves (atRest action ofRuntime reliable)

/-- Worker `1` writes to a page, then worker `2` does; both faults have been served. -/
theorem served_iff_uncrossed_writes : ∃ log s,
    Run (machine threeNodes).logged (ReliableWorkers threeNodes) log s ∧
      (s.node 2).prot firstPage = .rw ∧ ((∀ thread, s.app thread = .run) ↔
        ∀ entry ∈ log, crossesFault threeNodes entry.1 entry.2 = false) := by
  obtain ⟨log, s, run, checked⟩ := exists_run (machine threeNodes).logged
    (fun _ action => action.reliable && action.byWorker threeNodes)
    (fun s log => decide ((s.node 2).prot firstPage = .rw) &&
      (log.all fun entry => entry.2.fresh?.all fun fresh => fresh < 10) &&
      ((List.range 3).all fun node => (s.app ⟨node, 0⟩).isRunning) &&
      (List.range 10).all fun id => (s.handler id).all fun handler => handler.job.reply?.isSome)
    (writeFromManager ⟨1, 0⟩ firstPage 0 ++ writeFromManager ⟨2, 0⟩ firstPage 2)
    (fun _ _ permitted => Bool.and_eq_true_iff.mp permitted)
    (by decide +kernel)
  simp only [Bool.and_eq_true, decide_eq_true_eq, List.all_eq_true, List.mem_range] at checked
  obtain ⟨⟨⟨granted, named⟩, outside⟩, returned⟩ := checked
  have addressed := Addressed.of_reachable (Run.of_logged run)
  refine ⟨log, s, run, granted, (served_iff_uncrossed rfl rfl run).2 (Sys.atRest_of_inactive ?_)⟩
  rintro (thread | id) active
  · cases inside : s.app thread with
    | run => exact active inside
    | fault rq addr pc =>
        have runs := (addressed.fault inside).2
        have listed := outside thread.node (Config.runs_node runs).1
        have here : s.app ⟨thread.node, 0⟩ = .fault rq addr pc := by
          rw [← inside]
          exact congrArg s.app (thread_eq rfl runs).symm
        simp [here, App.isRunning] at listed
  · obtain ⟨handler, present, running⟩ := active
    obtain ⟨entry, member, starts⟩ := named_of_logged run present
    have below : id < 10 := by simpa [starts] using named entry member
    simpa [present, running] using returned id below

end LibIvy
