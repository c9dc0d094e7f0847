import LibIvy.Page.Projection
import LibIvy.Page.Refinement

/-!
Contract: invariants of one page in every run of the system.

Owns: the contents that the stores of a trace leave on a page, the rule that
carries an invariant of one page over runs, and the rule that carries an
invariant of the protocol over runs.

Does not own: any particular invariant.
-/

namespace LibIvy

open Lib NumberText AtomicMemory TransitionSystem Protocol

/-! ### What the last stores left -/

/-- The contents that the stores of the trace leave on the page at `base`. -/
def contentsOf (base : Addr) (trace : List Event) : Page :=
  fun offset => after (fun _ => 0) (history trace) (base + offset.val)

@[simp] theorem history_nil : history [] = [] := rfl

theorem history_append (first second : List Event) :
    history (first ++ second) = history first ++ history second :=
  List.filterMap_append

theorem contentsOf_silent {events : List Event} (base : Addr) (trace : List Event)
    (silent : history events = []) : contentsOf base (trace ++ events) = contentsOf base trace := by
  funext offset
  simp [contentsOf, history_append, silent]

theorem contentsOf_load (base : Addr) (trace : List Event) (thread : AppId) (addr : Addr)
    (values : List UInt8) :
    contentsOf base (trace ++ [.load thread addr values]) = contentsOf base trace := by
  funext offset
  simp [contentsOf, history, Event.access?, after, apply]

/-- Statements of the runtime are no accesses of an application. -/
theorem Stmt.exec_silent {σ : Type} {self : NodeId} {tid : Tid} {fresh : HandlerId}
    {stmt : Stmt σ} {s later : Sys} {next : σ} {events : List Event}
    (ran : stmt.exec self tid fresh s = some (next, later, events)) : history events = [] := by
  rcases exec_cases ran with ⟨nd, onNode, -⟩ | ⟨_, _, _, _, _, _, -, -, -, -, -, rfl⟩ |
    ⟨_, _, _, _, _, -, -, -, -, rfl⟩
  · cases stmt with
    | call => contradiction
    | await => contradiction
    | halt => contradiction
    | waitLock table key target =>
        simp only [runLocal] at onNode
        split at onNode
        · obtain ⟨rfl, rfl, rfl⟩ := onNode
          rfl
        · contradiction
    | readPage addr target =>
        simp only [runLocal] at onNode
        split at onNode
        · obtain ⟨rfl, rfl, rfl⟩ := onNode
          rfl
        · contradiction
    | memcpy addr contents target =>
        simp only [runLocal] at onNode
        split at onNode
        · split at onNode
          · obtain ⟨rfl, rfl, rfl⟩ := onNode
            rfl
          · contradiction
        · contradiction
    | _ =>
        obtain ⟨rfl, rfl, rfl⟩ := onNode
        rfl
  · rfl
  · rfl

section Contents

variable {cfg : Config} {s later : Sys} {action : Action} {events trace : List Event}

/-- A store changes the contents of its page as it changes the bytes there. -/
theorem contentsOf_store (trace : List Event) (thread : AppId) (addr : Nat)
    (values : List UInt8) :
    contentsOf (pgAlign addr) (trace ++ [.store thread addr values]) =
      writePage (contentsOf (pgAlign addr) trace) (addr % 4096) values := by
  funext offset
  have start : pgAlign addr + addr % 4096 = addr := by
    unfold pgAlign
    omega
  have stored : history [.store thread addr values] = [.store addr values] := rfl
  simp only [contentsOf, history_append, stored, after_append, writePage]
  simp only [after, List.foldl_cons, List.foldl_nil, apply, writeSpan]
  have position : pgAlign addr + offset.val - addr = offset.val - addr % 4096 := by omega
  by_cases reached : addr % 4096 ≤ offset.val
  · rw [if_pos (by omega), if_pos reached, position]
  · rw [if_neg (by omega), if_neg reached]

theorem contentsOf_store_other (trace : List Event) (thread : AppId) {addr base : Nat}
    {values : List UInt8} (within : addr % 4096 + values.length ≤ 4096) (aligned : 4096 ∣ base)
    (different : base ≠ pgAlign addr) :
    contentsOf base (trace ++ [.store thread addr values]) = contentsOf base trace := by
  funext offset
  have apart := pages_apart (pgAlign_dvd addr) aligned different
  have below := offset.isLt
  have start : pgAlign addr + addr % 4096 = addr := by
    unfold pgAlign
    omega
  have stored : history [.store thread addr values] = [.store addr values] := rfl
  simp only [contentsOf, history_append, stored, after_append]
  exact writeSpan_outside (by simp only [pageSize] at *; omega)

/-- A step is a load, a store, or no access at all. -/
theorem access_cases (taken : s.step cfg action = some (later, events)) :
    (∃ thread addr count, action = .load thread addr count) ∨
    (∃ thread addr values, action = .store thread addr values) ∨
    history events = [] ∧ ∀ pageAction, action.onPage = some pageAction →
      ∀ current, pageAction.current current = current := by
  cases action with
  | load thread addr count => exact .inl ⟨_, _, _, rfl⟩
  | store thread addr values => exact .inr (.inl ⟨_, _, _, rfl⟩)
  | fault thread rq addr =>
      obtain ⟨-, -, -, -, -, rfl⟩ := Sys.step_fault taken
      exact .inr (.inr ⟨rfl, by rintro _ ⟨⟩ _; rfl⟩)
  | app thread fresh =>
      obtain ⟨rq, addr, pc, next, between, -, ran, -⟩ := Sys.step_app taken
      exact .inr (.inr ⟨Stmt.exec_silent ran, by rintro _ ⟨⟩ _; rfl⟩)
  | handler id fresh =>
      obtain ⟨handler, next, between, -, ran, -⟩ := Sys.step_handler taken
      exact .inr (.inr ⟨Stmt.exec_silent ran, by rintro _ ⟨⟩ _; rfl⟩)
  | failApp thread =>
      obtain ⟨rq, addr, pc, next, -, -, -, rfl⟩ := Sys.step_failApp taken
      exact .inr (.inr ⟨rfl, by rintro _ ⟨⟩ _; rfl⟩)
  | failHandler id =>
      obtain ⟨handler, next, -, -, -, rfl⟩ := Sys.step_failHandler taken
      exact .inr (.inr ⟨rfl, by rintro _ ⟨⟩ _; rfl⟩)

/-- The contents of the page of a step follow the step. -/
theorem contentsOf_onPage {pageAction : PageAction} (onPage : action.onPage = some pageAction)
    (taken : s.step cfg action = some (later, events)) :
    contentsOf (s.pageOf action) (trace ++ events) =
      pageAction.current (contentsOf (s.pageOf action) trace) := by
  rcases access_cases taken with ⟨thread, addr, count, rfl⟩ | ⟨thread, addr, values, rfl⟩ |
    ⟨silent, same⟩
  · contradiction
  · obtain ⟨-, -, -, -, -, rfl⟩ := Sys.step_store taken
    obtain rfl := Option.some.inj onPage
    exact contentsOf_store trace thread addr values
  · rw [same pageAction onPage]
    exact contentsOf_silent _ _ silent

/-- The contents of the other pages stay. -/
theorem contentsOf_other {base : Nat} (aligned : 4096 ∣ base) (different : base ≠ s.pageOf action)
    (taken : s.step cfg action = some (later, events)) :
    contentsOf base (trace ++ events) = contentsOf base trace := by
  rcases access_cases taken with ⟨thread, addr, count, rfl⟩ | ⟨thread, addr, values, rfl⟩ |
    ⟨silent, -⟩
  · obtain ⟨-, -, -, -, -, rfl⟩ := Sys.step_load taken
    exact contentsOf_load ..
  · obtain ⟨-, -, within, -, -, rfl⟩ := Sys.step_store taken
    exact contentsOf_store_other trace thread (withinPage_iff.mp within).2 aligned different
  · exact contentsOf_silent _ _ silent

/-- A node whose page has what the stores left loads what they left. -/
theorem readSpan_of_page {nd : Node} {addr count : Nat} (within : addr % 4096 + count ≤ 4096)
    (same : nd.pageAt (pgAlign addr) = contentsOf (pgAlign addr) trace) :
    readSpan nd.mem addr count = readSpan (after (fun _ => 0) (history trace)) addr count := by
  apply readSpan_congr
  intro offset below
  have position : addr % 4096 + offset < pageSize := by
    simp only [pageSize]
    omega
  have start : pgAlign addr + (addr % 4096 + offset) = addr + offset := by
    unfold pgAlign
    omega
  have bytes := congrFun same ⟨addr % 4096 + offset, position⟩
  simpa only [Node.pageAt, contentsOf, start] using bytes

end Contents

/-! ### Invariants of a page -/

section Rules

variable {cfg : Config} {allowed : Sys → Action → Prop} {base : Nat} {trace : List Event} {s : Sys}

/-- An invariant of the page at `base` and of what was stored there last, kept by
every permitted step of the page, holds in every run. -/
theorem page_invariant (property : PageState → Page → Prop) (aligned : 4096 ∣ base)
    (initial : property PageState.initial fun _ => 0)
    (preserved : ∀ {trace s action pageAction st}, Run (machine cfg) allowed trace s →
      allowed s action → s.pageOf action = base → action.onPage = some pageAction →
      property (s.view base) (contentsOf base trace) →
      (s.view base).step cfg base pageAction = some st →
      property st (pageAction.current (contentsOf base trace)))
    (run : Run (machine cfg) allowed trace s) :
    property (s.view base) (contentsOf base trace) := by
  refine run.invariant (fun trace s => property (s.view base) (contentsOf base trace)) ?_ ?_
  · exact initial
  · intro trace events before later action run holds permitted taken
    have addressed := Addressed.of_reachable run.reachable
    by_cases same : base = before.pageOf action
    · cases onPage : action.onPage with
      | none =>
          obtain ⟨thread, addr, count, rfl⟩ := Action.eq_load onPage
          obtain ⟨-, -, -, -, rfl, rfl⟩ := Sys.step_load taken
          rw [contentsOf_load]
          exact holds
      | some pageAction =>
          subst same
          rw [contentsOf_onPage onPage taken]
          exact preserved run permitted rfl onPage holds (addressed.view_step onPage taken)
    · rw [contentsOf_other aligned same taken, addressed.view_step_other aligned same taken]
      exact holds

theorem reliable_onPage {action : Action} {pageAction : PageAction}
    (onPage : action.onPage = some pageAction) : pageAction.reliable = action.reliable := by
  cases action <;> simp only [Action.onPage, reduceCtorEq, Option.some.injEq] at onPage <;>
    subst onPage <;> rfl

/-- Locks and calls of a page are in order in every run. -/
theorem page_ordered (zero : cfg.managerId = 0) (aligned : 4096 ∣ base) (fits : base < wordCount)
    (run : Run (machine cfg) allowed trace s) :
    LocksHeld cfg (s.view base) ∧ Linked cfg (s.view base) := by
  refine page_invariant (fun st _ => LocksHeld cfg st ∧ Linked cfg st) aligned
    ⟨.initial, .initial⟩ ?_ run
  rintro trace s action pageAction st - - - - ⟨locksHeld, linked⟩ taken
  exact ⟨locksHeld.step taken, linked.step zero fits taken⟩

/-- Without failures every instance has its caller. -/
theorem page_attended (aligned : 4096 ∣ base)
    (reliable : ∀ s action, allowed s action → action.reliable = true)
    (run : Run (machine cfg) allowed trace s) : Attended (s.view base) := by
  refine page_invariant (fun st _ => Attended st) aligned Attended.initial ?_ run
  intro trace s action pageAction st _ permitted _ onPage attended taken
  exact attended.step ((reliable_onPage onPage).trans (reliable s action permitted)) taken

/-- The protocol state of the page at `base` after a run. -/
def protocolOf (base : Addr) (trace : List Event) (s : Sys) : State Page :=
  (s.view base).protocolState (contentsOf base trace)

theorem fault_of_onPage {action : Action} {thread : AppId} {rq : Rq}
    (onPage : action.onPage = some (.fault thread rq)) : ∃ addr, action = .fault thread rq addr := by
  cases action <;> simp_all [Action.onPage]

theorem handler_of_onPage {action : Action} {id fresh : HandlerId}
    (onPage : action.onPage = some (.handler id fresh)) : action = .handler id fresh := by
  cases action <;> simp_all [Action.onPage]

/-- What a regime asks of the steps of runs without failures. -/
theorem reliable_permits {regime : Regime Page} (aligned : 4096 ∣ base)
    (reliable : ∀ s action, allowed s action → action.reliable = true)
    (faults : ∀ {s thread rq addr}, allowed s (.fault thread rq addr) → regime.faults thread.node)
    (revokes : ∀ {trace s id fresh handler access}, Run (machine cfg) allowed trace s →
      allowed s (.handler id fresh) →
      (s.view base).handler id = some handler → handler.job.revokes? = some access →
      regime.revokes (protocolOf base trace s) handler.node access)
    (loses : ∀ a node, regime.loses a node) (commits : ∀ a, regime.commits a)
    {action : Action} {pageAction : PageAction} (run : Run (machine cfg) allowed trace s)
    (permitted : allowed s action) (onPage : action.onPage = some pageAction) :
    Permits regime (s.view base) (contentsOf base trace) pageAction where
  faults := by
    intro thread rq same
    subst same
    obtain ⟨addr, rfl⟩ := fault_of_onPage onPage
    exact faults permitted
  lossy := by
    intro fails
    rw [reliable_onPage onPage, reliable s action permitted] at fails
    contradiction
  attended := .inl (page_attended aligned reliable run)
  revokes := by
    intro id fresh handler access rfl present kept
    obtain rfl := handler_of_onPage onPage
    exact revokes run permitted present kept
  loses := fun _ _ => loses _ _
  commits := fun _ _ _ => commits _

/-- An invariant of the protocol holds in every run whose steps the regime
permits. -/
theorem protocol_invariant (regime : Regime Page) (property : State Page → Prop)
    (zero : cfg.managerId = 0) (single : cfg.appThreads = 1) (aligned : 4096 ∣ base)
    (fits : base < wordCount) (initial : property (State.initial fun _ => 0))
    (preserved : ∀ {a b}, property a → Step regime a b → property b)
    (permits : ∀ {trace s action pageAction}, Run (machine cfg) allowed trace s →
      allowed s action → s.pageOf action = base → action.onPage = some pageAction →
      Permits regime (s.view base) (contentsOf base trace) pageAction)
    (run : Run (machine cfg) allowed trace s) : property (protocolOf base trace s) := by
  refine page_invariant (fun st current => property (st.protocolState current)) aligned ?_ ?_ run
  · rw [PageState.protocolState_initial]
    exact initial
  · intro trace s action pageAction st run permitted samePage onPage holds taken
    obtain ⟨locksHeld, linked⟩ := page_ordered zero aligned fits run
    rcases step_protocol zero single linked locksHeld (permits run permitted samePage onPage) taken
      with same | step
    · rwa [same]
    · exact preserved holds step

end Rules

end LibIvy
