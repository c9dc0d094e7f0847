import LibIvy.Contracts.Service
import LibIvy.Page.Dues
import Mathlib.Data.Finite.Prod

/-!
Contract: what a page fault costs.

Owns: the calls and statements of a run, and that in runs without failures they are
bounded by the faults of the run, on any set of pages, whatever the number of nodes.

Does not own: that faults are served; see `LibIvy.Contracts.Progress`.

One write request may call every reader of the page. Each of these calls is counted
with the read fault that put the reader into the copyset.
-/

namespace LibIvy

open Lib NumberText TransitionSystem

/-! ### What is counted -/

def Event.isCall : Event → Bool
  | .call _ _ _ => true
  | _ => false

/-- The calls that the step makes. -/
def Sys.calls (cfg : Config) (s : Sys) (action : Action) : Nat :=
  (s.step cfg action).elim 0 fun outcome => outcome.2.countP Event.isCall

/-- The fault that the step starts is of this kind. -/
def Action.faults (rq : Rq) : Action → Bool
  | .fault _ other _ => other == rq
  | _ => false

/-- The steps of a run that concern the pages. -/
def onPages (pages : Addr → Bool) (log : List (Sys × Action)) : List (Sys × Action) :=
  log.filter fun entry => pages (entry.1.pageOf entry.2)

/-- The calls of a run, requests of the manager to itself included. -/
def callCount (cfg : Config) (log : List (Sys × Action)) : Nat :=
  (log.map fun entry => entry.1.calls cfg entry.2).sum

/-- The statements of fault handlers and served functions in a run. -/
def statementCount (log : List (Sys × Action)) : Nat :=
  log.countP fun entry => entry.2.ofRuntime

/-- The faults of one kind in a run. -/
def faultCount (rq : Rq) (log : List (Sys × Action)) : Nat :=
  log.countP fun entry => entry.2.faults rq

/-! ### Prices of steps -/

section Steps

variable {cfg : Config} {prices : Prices} {s after : Sys} {action : Action} {events : List Event}

def stepCost (cfg : Config) (prices : Prices) (entry : Sys × Action) : Nat :=
  (if entry.2.ofRuntime then prices.statement else 0) + prices.call * entry.1.calls cfg entry.2

def stepCredit (prices : Prices) (entry : Sys × Action) : Nat :=
  match entry.2 with
  | .fault _ rq _ => rq.price prices
  | _ => 0

theorem Sys.calls_of_step (taken : s.step cfg action = some (after, events)) :
    s.calls cfg action = events.countP Event.isCall := by
  simp [calls, taken]

variable (prices) in
theorem Stmt.runLocal_calls {σ : Type} {self : NodeId} {tid : Tid} {stmt : Stmt σ} {nd final : Node}
    {next : σ} (ran : stmt.runLocal self tid nd = some (next, final, events)) :
    events.countP Event.isCall = 0 ∧ stmt.price prices = prices.statement := by
  cases stmt with
  | call => contradiction
  | await => contradiction
  | halt => contradiction
  | waitLock table key target =>
      simp only [runLocal] at ran
      split at ran
      · obtain ⟨rfl, rfl, rfl⟩ := ran
        exact ⟨rfl, rfl⟩
      · contradiction
  | readPage addr target =>
      simp only [runLocal] at ran
      split at ran
      · obtain ⟨rfl, rfl, rfl⟩ := ran
        exact ⟨rfl, rfl⟩
      · contradiction
  | memcpy addr contents target =>
      simp only [runLocal] at ran
      split at ran
      · split at ran
        · obtain ⟨rfl, rfl, rfl⟩ := ran
          exact ⟨rfl, rfl⟩
        · contradiction
      · contradiction
  | _ =>
      obtain ⟨rfl, rfl, rfl⟩ := ran
      exact ⟨rfl, rfl⟩

variable (prices) in
/-- The price of a statement is that of the calls it makes. -/
theorem Stmt.exec_price {σ : Type} {self : NodeId} {tid : Tid} {fresh : HandlerId} {stmt : Stmt σ}
    {next : σ} (ran : stmt.exec self tid fresh s = some (next, after, events)) :
    stmt.price prices = prices.statement + prices.call * events.countP Event.isCall := by
  rcases exec_cases ran with ⟨nd, onNode, -⟩ | ⟨_, _, _, _, _, _, rfl, _, _, _, _, rfl⟩ |
    ⟨_, _, _, _, _, rfl, _, _, _, rfl⟩
  · obtain ⟨none, price⟩ := runLocal_calls prices onNode
    rw [none, price, Nat.mul_zero, Nat.add_zero]
  · exact congrArg (prices.statement + ·) (Nat.mul_one _).symm
  · rfl

/-- A step costs what it costs on its page. -/
theorem stepCost_onPage {pageAction : PageAction} (onPage : action.onPage = some pageAction)
    (reliable : action.reliable = true) (taken : s.step cfg action = some (after, events)) :
    stepCost cfg prices (s, action) =
      (s.view (s.pageOf action)).cost cfg (s.pageOf action) prices pageAction := by
  rw [stepCost, Sys.calls_of_step taken]
  cases action with
  | load => contradiction
  | store thread addr values =>
      obtain ⟨-, -, -, -, -, rfl⟩ := Sys.step_store taken
      obtain rfl := Option.some.inj onPage
      rfl
  | fault thread rq addr =>
      obtain ⟨-, -, -, -, -, rfl⟩ := Sys.step_fault taken
      obtain rfl := Option.some.inj onPage
      rfl
  | app thread fresh =>
      obtain ⟨rq, addr, pc, next, between, inside, ran, -⟩ := Sys.step_app taken
      obtain rfl := Option.some.inj onPage
      have inView : (s.view (pgAlign addr)).app thread = some (rq, pc) := by
        rw [Sys.view_app, inside, App.view_fault]
      have price := Stmt.exec_price prices ran
      simp [PageState.cost, Sys.pageOf, inside, inView, faultHdlr_pgAlign, price, Action.ofRuntime]
  | handler id fresh =>
      obtain ⟨handler, next, between, present, ran, -⟩ := Sys.step_handler taken
      obtain rfl := Option.some.inj onPage
      have inView := s.view_handler present rfl
      have price := Stmt.exec_price prices ran
      simp [PageState.cost, Sys.pageOf, present, inView, price, Action.ofRuntime]
  | failApp => contradiction
  | failHandler => contradiction

theorem stepCredit_onPage {pageAction : PageAction} (onPage : action.onPage = some pageAction) :
    stepCredit prices (s, action) = pageAction.credit prices := by
  cases action <;> first | contradiction | (obtain rfl := Option.some.inj onPage; rfl)

end Steps

/-! ### Every run -/

section Runs

variable {cfg : Config} {prices : Prices} {log : List (Sys × Action)} {s : Sys}

/-- The configuration runs finitely many threads. -/
theorem Config.finite_runs (cfg : Config) : {thread | cfg.runs thread = true}.Finite := by
  refine (Set.Finite.image2 AppId.mk (Set.finite_lt_nat cfg.nodes.length)
    (Set.finite_lt_nat cfg.appThreads)).subset ?_
  intro thread runs
  obtain ⟨node, idx⟩ := Config.runs_node runs
  exact ⟨thread.node, node, thread.idx, idx, rfl⟩

/-- Finitely many threads work on a page. -/
theorem view_few {allowed : Sys → Action → Prop} (reached : Reachable (machine cfg) allowed s)
    (base : Addr) : (s.view base).Few prices := by
  obtain ⟨bound, unused⟩ := Sys.bounded_of_reachable reached
  have addressed := Addressed.of_reachable reached
  refine ((cfg.finite_runs.image Tid.app).union
    ((Set.finite_lt_nat bound).image Tid.handler)).subset ?_
  intro tid owes
  cases tid with
  | app thread =>
      refine .inl ⟨thread, ?_, rfl⟩
      cases inside : s.app thread with
      | run => simp [PageState.owes, Sys.view_app, inside] at owes
      | fault rq addr pc => exact (addressed.fault inside).2
  | handler id =>
      refine .inr ⟨id, ?_, rfl⟩
      by_contra above
      have none : s.handler id = none := unused id (Nat.le_of_not_lt above)
      simp [PageState.owes, Sys.view, none] at owes

/-- What the steps of a run on one page cost is paid by the faults on it. -/
theorem page_paid (zero : cfg.managerId = 0) {base : Nat} (aligned : 4096 ∣ base)
    (fits : base < wordCount) (run : Run (machine cfg).logged Reliable log s) :
    ((withKey (fun entry => entry.1.pageOf entry.2) base log).map (stepCost cfg prices)).sum ≤
      ((withKey (fun entry => entry.1.pageOf entry.2) base log).map (stepCredit prices)).sum := by
  rw [sum_withKey, sum_withKey]
  refine Nat.le_of_add_right_le (k := (s.view base).owed prices) ?_
  refine run.amortized (fun s => (s.view base).owed prices) _ _ ?_ ?_
  · have nothing : (Sys.initial.view base).owes prices = fun _ => 0 := by
      funext tid
      cases tid <;> rfl
    have nobody : ¬(Sys.initial.view base).Copied := by
      rintro ⟨id, handler, present, -⟩
      contradiction
    change PageState.owed prices (Sys.initial.view base) = 0
    rw [PageState.owed, nothing, owedTotal_zero, PageState.readers, if_neg nobody, Nat.zero_add]
    exact Nat.zero_mul _
  · intro log before after action events run reliable taken
    change before.step cfg action = some (after, events) at taken
    obtain ⟨trace, reached⟩ := Run.of_logged run
    have addressed := Addressed.of_reachable reached.reachable
    by_cases same : before.pageOf action = base
    case neg =>
      have kept := addressed.view_step_other aligned (Ne.symm same) taken
      simp only [kept, if_neg same, le_refl]
    case pos =>
      subst same
      simp only [if_true]
      cases onPage : action.onPage with
      | none =>
          obtain ⟨thread, addr, count, rfl⟩ := Action.eq_load onPage
          obtain ⟨-, -, -, -, rfl, rfl⟩ := Sys.step_load taken
          rw [stepCost, Sys.calls_of_step taken]
          exact le_rfl
      | some pageAction =>
          obtain ⟨locksHeld, linked⟩ := page_ordered zero aligned fits reached
          rw [stepCost_onPage onPage reliable taken, stepCredit_onPage onPage]
          exact PageState.step_owed zero locksHeld linked (view_few reached.reachable _)
            ((reliable_onPage onPage).trans reliable) (addressed.view_step onPage taken)

theorem sum_stepCost (cfg : Config) (prices : Prices) (log : List (Sys × Action)) :
    (log.map (stepCost cfg prices)).sum =
      prices.statement * statementCount log + prices.call * callCount cfg log := by
  induction log with
  | nil => rfl
  | cons entry rest inductionHypothesis =>
      simp only [statementCount, callCount] at inductionHypothesis ⊢
      rw [List.map_cons, List.sum_cons, inductionHypothesis, List.countP_cons, List.map_cons,
        List.sum_cons, stepCost, Nat.mul_add, Nat.mul_add]
      split <;> simp <;> omega

theorem sum_stepCredit (prices : Prices) (log : List (Sys × Action)) :
    (log.map (stepCredit prices)).sum =
      prices.readFault * faultCount .rd log + prices.writeFault * faultCount .wr log := by
  induction log with
  | nil => rfl
  | cons entry rest inductionHypothesis =>
      simp only [faultCount] at inductionHypothesis ⊢
      rw [List.map_cons, List.sum_cons, inductionHypothesis, List.countP_cons, List.countP_cons,
        Nat.mul_add, Nat.mul_add]
      obtain ⟨s, action⟩ := entry
      cases action with
      | fault thread rq addr =>
          cases rq <;> simp [stepCredit, Action.faults, Rq.price] <;> omega
      | _ => simp [stepCredit, Action.faults]

/-- The entries of a log concern pages. -/
theorem aligned_of_logged {allowed : Sys → Action → Prop}
    (run : Run (machine cfg).logged allowed log s) :
    ∀ entry ∈ log, 4096 ∣ entry.1.pageOf entry.2 ∧ entry.1.pageOf entry.2 < wordCount := by
  induction run with
  | init => simp
  | step run _ taken inductionHypothesis =>
      obtain ⟨rfl, events, stepped⟩ := logged_step taken
      intro entry member
      rcases List.mem_append.mp member with old | new
      · exact inductionHypothesis entry old
      · obtain rfl := List.mem_singleton.mp new
        exact (Addressed.of_reachable (Run.of_logged run)).pageOf_aligned stepped

/-- What the steps of a run on some pages cost is paid by the faults on them. -/
theorem pages_paid (zero : cfg.managerId = 0) (prices : Prices)
    (run : Run (machine cfg).logged Reliable log s) (pages : Addr → Bool) :
    prices.statement * statementCount (onPages pages log) +
        prices.call * callCount cfg (onPages pages log) ≤
      prices.readFault * faultCount .rd (onPages pages log) +
        prices.writeFault * faultCount .wr (onPages pages log) := by
  rw [← sum_stepCost, ← sum_stepCredit]
  refine sum_le_of_keys (fun entry => entry.1.pageOf entry.2) ?_
  intro entry member
  obtain ⟨listed, chosen⟩ := List.mem_filter.mp member
  obtain ⟨aligned, fits⟩ := aligned_of_logged run entry listed
  -- all steps on a chosen page are among the steps on the chosen pages
  have same : withKey (fun entry : Sys × Action => entry.1.pageOf entry.2)
      (entry.1.pageOf entry.2) (onPages pages log) =
      withKey (fun entry => entry.1.pageOf entry.2) (entry.1.pageOf entry.2) log := by
    rw [withKey, withKey, onPages, List.filter_filter]
    apply List.filter_congr
    intro other _
    by_cases onPage : other.1.pageOf other.2 = entry.1.pageOf entry.2
    · simp [onPage, chosen]
    · simp [onPage]
  rw [same]
  exact page_paid zero aligned fits run

end Runs

/-- In every reliable run, on any set of pages, a read fault leads to at most three
calls and a write fault to at most two, however many nodes there are, and fault
handlers and served functions run at most 26 and 23 statements for them. -/
theorem calls_bounded {cfg : Config} (zero : cfg.managerId = 0) {log : List (Sys × Action)}
    {s : Sys} (run : Run (machine cfg).logged Reliable log s) (pages : Addr → Bool) :
    callCount cfg (onPages pages log) ≤
        3 * faultCount .rd (onPages pages log) + 2 * faultCount .wr (onPages pages log) ∧
      statementCount (onPages pages log) ≤
        26 * faultCount .rd (onPages pages log) + 23 * faultCount .wr (onPages pages log) := by
  have calls := pages_paid zero ⟨0, 1⟩ run pages
  have statements := pages_paid zero ⟨1, 0⟩ run pages
  simp only [Prices.readFault, Prices.writeFault] at calls statements
  omega

/-- Worker `1` reads a page, worker `2` writes to it: as many calls and statements as
the bounds say. -/
theorem calls_bounded_tight : ∃ log s, Run (machine threeNodes).logged Reliable log s ∧
    (faultCount .rd log = 1 ∧ faultCount .wr log = 1) ∧ callCount threeNodes log = 5 ∧
    statementCount log = 49 ∧ callCount threeNodes (onPages (fun _ => true) log) ≤
      3 * faultCount .rd (onPages (fun _ => true) log) +
        2 * faultCount .wr (onPages (fun _ => true) log) := by
  obtain ⟨log, s, run, checked⟩ := exists_run (machine threeNodes).logged
    (fun _ action => action.reliable)
    (fun _ log => faultCount .rd log == 1 && faultCount .wr log == 1 &&
      callCount threeNodes log == 5 && statementCount log == 49)
    (readFromOwner ⟨1, 0⟩ firstPage 0 ++ writeFromManagerCopy ⟨2, 0⟩ firstPage 2)
    (fun _ _ reliable => reliable)
    (by decide +kernel)
  simp only [Bool.and_eq_true, beq_iff_eq] at checked
  exact ⟨log, s, run, checked.1.1, checked.1.2, checked.2, (calls_bounded rfl run _).1⟩

end LibIvy
