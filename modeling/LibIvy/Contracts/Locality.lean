import LibIvy.Page.Runs

/-!
Contract: a page is served on its own.

Owns: the fact that the offset of an address inside its page does not matter,
the frame of the steps of one page, and the keys of the lock tables and of the
directory.

Does not own: what the steps of a page do to that page.
-/

namespace LibIvy

open Lib NumberText TransitionSystem

/-! ### The offset inside the page -/

/-- The same position of the same fault, at an address of the same page. -/
inductive App.SamePage : App → App → Prop where
  | run : SamePage .run .run
  | fault (rq : Rq) (pc : FaultPc) {addr addr' : Addr} (samePage : pgAlign addr = pgAlign addr') :
      SamePage (.fault rq addr pc) (.fault rq addr' pc)

/-- The states differ at most in the offsets of the addresses that pending fault
handlers were given. -/
structure Sys.SamePages (s t : Sys) : Prop where
  node : s.node = t.node
  handler : s.handler = t.handler
  app : ∀ thread, App.SamePage (s.app thread) (t.app thread)

/-- The same action, where a fault may be at another address of the same page. -/
inductive Action.SamePage : Action → Action → Prop where
  | same (action : Action) : SamePage action action
  | fault (thread : AppId) (rq : Rq) {addr addr' : Addr} (samePage : pgAlign addr = pgAlign addr') :
      SamePage (.fault thread rq addr) (.fault thread rq addr')

theorem App.SamePage.resume {rq : Rq} {pc : FaultPc} {addr addr' : Addr}
    (samePage : pgAlign addr = pgAlign addr') :
    App.SamePage (App.resume rq addr pc) (App.resume rq addr' pc) := by
  cases pc <;> first | exact .run | exact .fault rq _ samePage

/-- The statements of the fault handlers depend on the page only. -/
theorem faultHdlr_samePage (cfg : Config) (rq : Rq) (id : NodeId) {addr addr' : Addr}
    (samePage : pgAlign addr = pgAlign addr') :
    faultHdlr cfg rq id addr = faultHdlr cfg rq id addr' := by
  rw [← faultHdlr_pgAlign, samePage, faultHdlr_pgAlign]

/-- Both addresses are addresses of the 64-bit space, or neither is. -/
theorem withinPage_samePage {addr addr' : Nat} (samePage : pgAlign addr = pgAlign addr') :
    withinPage addr 1 = withinPage addr' 1 := by
  rw [Bool.eq_iff_iff, withinPage_iff, withinPage_iff]
  simp only [pgAlign, wordCount] at *
  omega

namespace Sys.SamePages

variable {cfg : Config} {s t : Sys}

/-- A statement does not read the threads. -/
theorem exec {σ : Type} {self : NodeId} {tid : Tid} {fresh : HandlerId} {stmt : Stmt σ}
    {next : σ} {after : Sys} {events : List Event} (same : s.SamePages t)
    (ran : stmt.exec self tid fresh s = some (next, after, events)) :
    ∃ after', stmt.exec self tid fresh t = some (next, after', events) ∧ after.SamePages after' := by
  obtain ⟨node, app, handler⟩ := s
  obtain ⟨node', app', handler'⟩ := t
  obtain ⟨rfl, rfl, sameApp⟩ := same
  cases stmt with
  | call dst fn body target =>
      simp only [Stmt.exec] at ran
      split at ran
      · rename_i addr job unused accepted
        obtain ⟨rfl, rfl, rfl⟩ := ran
        refine ⟨Sys.setHandler ⟨node, app', handler⟩ fresh ⟨dst, addr, job⟩, ?_, rfl, rfl, sameApp⟩
        simp_all [Stmt.exec]
      · contradiction
  | await rpc id target failed =>
      simp only [Stmt.exec] at ran
      split at ran
      · rename_i reply replied
        obtain ⟨rfl, rfl, rfl⟩ := ran
        have replied : Sys.reply? ⟨node, app', handler⟩ id = some reply := replied
        exact ⟨⟨node, app', handler⟩, by simp [Stmt.exec, replied], rfl, rfl, sameApp⟩
      · contradiction
  | _ =>
      simp only [Stmt.exec] at ran
      split at ran
      · rename_i nd stepEvents onNode
        obtain ⟨rfl, rfl, rfl⟩ := ran
        refine ⟨Sys.setNode ⟨node, app', handler⟩ self nd, ?_, rfl, rfl, sameApp⟩
        simp only [Stmt.exec, onNode]
      · contradiction

theorem setApp {thread : AppId} {app app' : App} (same : s.SamePages t)
    (sameApp : App.SamePage app app') : (s.setApp thread app).SamePages (t.setApp thread app') where
  node := same.node
  handler := same.handler
  app := by
    intro other
    by_cases this : other = thread
    · subst this
      simpa [Sys.setApp] using sameApp
    · simpa [Sys.setApp, this] using same.app other

theorem setHandler {id : HandlerId} {handler : Handler} (same : s.SamePages t) :
    (s.setHandler id handler).SamePages (t.setHandler id handler) where
  node := same.node
  handler := by simp [Sys.setHandler, same.handler]
  app := same.app

theorem fault {thread : AppId} {rq : Rq} {addr : Addr} {pc : FaultPc} (same : s.SamePages t)
    (inside : s.app thread = .fault rq addr pc) :
    ∃ addr', t.app thread = .fault rq addr' pc ∧ pgAlign addr = pgAlign addr' := by
  have sameApp := same.app thread
  rw [inside] at sameApp
  cases found : t.app thread with
  | run => rw [found] at sameApp; contradiction
  | fault rq' addr' pc' =>
      rw [found] at sameApp
      cases sameApp with
      | fault rq pc samePage => exact ⟨addr', rfl, samePage⟩

theorem run {thread : AppId} (same : s.SamePages t) (outside : s.app thread = .run) :
    t.app thread = .run := by
  have sameApp := same.app thread
  rw [outside] at sameApp
  cases found : t.app thread with
  | run => rfl
  | fault rq' addr' pc' => rw [found] at sameApp; contradiction

/-- The same step is possible, with the same events. -/
theorem step {action action' : Action} {after : Sys} {events : List Event} (same : s.SamePages t)
    (sameAction : action.SamePage action')
    (taken : s.step cfg action = some (after, events)) :
    ∃ after', t.step cfg action' = some (after', events) ∧ after.SamePages after' := by
  have sameNode := same.node
  have sameHandler := same.handler
  cases sameAction with
  | fault thread rq samePage =>
      obtain ⟨outside, runs, within, denied, rfl, rfl⟩ := Sys.step_fault taken
      rw [withinPage_samePage samePage] at within
      rw [sameNode, samePage] at denied
      refine ⟨_, ?_, same.setApp (.fault rq .entry samePage)⟩
      simp [Sys.step, same.run outside, runs, within, denied]
  | same action =>
      cases action with
      | load thread addr count =>
          obtain ⟨outside, runs, within, readable, rfl, rfl⟩ := Sys.step_load taken
          rw [sameNode] at readable ⊢
          exact ⟨t, by simp [Sys.step, same.run outside, runs, within, readable], same⟩
      | store thread addr values =>
          obtain ⟨outside, runs, within, writable, rfl, rfl⟩ := Sys.step_store taken
          rw [sameNode] at writable ⊢
          refine ⟨_, by simp [Sys.step, same.run outside, runs, within, writable]; rfl, ?_⟩
          exact ⟨by simp [Sys.setNode, sameNode], sameHandler, same.app⟩
      | fault thread rq addr =>
          obtain ⟨outside, runs, within, denied, rfl, rfl⟩ := Sys.step_fault taken
          rw [sameNode] at denied
          refine ⟨_, ?_, same.setApp (.fault rq .entry rfl)⟩
          simp [Sys.step, same.run outside, runs, within, denied]
      | app thread fresh =>
          obtain ⟨rq, addr, pc, next, between, inside, ran, rfl⟩ := Sys.step_app taken
          obtain ⟨addr', inside', samePage⟩ := same.fault inside
          rw [faultHdlr_samePage cfg rq thread.node samePage] at ran
          obtain ⟨between', ran', sameBetween⟩ := same.exec ran
          exact ⟨_, by simp [Sys.step, inside', ran'], sameBetween.setApp (.resume samePage)⟩
      | handler id fresh =>
          obtain ⟨handler, next, between, present, ran, rfl⟩ := Sys.step_handler taken
          obtain ⟨between', ran', sameBetween⟩ := same.exec ran
          rw [sameHandler] at present
          exact ⟨_, by simp [Sys.step, present, ran'], sameBetween.setHandler⟩
      | failApp thread =>
          obtain ⟨rq, addr, pc, next, inside, failed, rfl, rfl⟩ := Sys.step_failApp taken
          obtain ⟨addr', inside', samePage⟩ := same.fault inside
          rw [faultHdlr_samePage cfg rq thread.node samePage] at failed
          exact ⟨_, by simp [Sys.step, inside', failed], same.setApp (.resume samePage)⟩
      | failHandler id =>
          obtain ⟨handler, next, present, failed, rfl, rfl⟩ := Sys.step_failHandler taken
          rw [sameHandler] at present
          exact ⟨_, by simp [Sys.step, present, failed], same.setHandler⟩

theorem refl (s : Sys) : s.SamePages s where
  node := rfl
  handler := rfl
  app := by
    intro thread
    cases s.app thread with
    | run => exact .run
    | fault rq addr pc => exact .fault rq pc rfl

/-- Without pending faults the states are equal. -/
theorem eq (same : s.SamePages t) (idle : ∀ thread, (s.app thread).isRunning = true) : t = s := by
  have sameApp : t.app = s.app := by
    funext thread
    have runs := idle thread
    cases found : s.app thread with
    | run => exact same.run found
    | fault rq addr pc => simp [found, App.isRunning] at runs
  obtain ⟨sameNode, sameHandler, -⟩ := same
  cases s
  cases t
  simp_all

end Sys.SamePages

/-- A schedule whose faults are at other addresses of the same pages can be
replayed too: the same locks, directory entries and request bodies in the same
order, and the same final state. -/
theorem replay_samePage {cfg : Config} {test : Sys → Action → Bool}
    (anyTest : ∀ s action, test s action = true) {s t after : Sys} {schedule schedule' : List Action}
    {events : List Event} (same : s.SamePages t)
    (sameSchedule : List.Forall₂ Action.SamePage schedule schedule')
    (replayed : (machine cfg).replayWithin test s schedule = some (after, events)) :
    ∃ after', (machine cfg).replayWithin test t schedule' = some (after', events) ∧
      after.SamePages after' := by
  induction sameSchedule generalizing s t events with
  | nil =>
      obtain ⟨rfl, rfl⟩ := replayed
      exact ⟨t, rfl, same⟩
  | cons sameAction sameRest inductionHypothesis =>
      obtain ⟨next, stepEvents, later, -, taken, restReplayed, rfl⟩ := replayWithin_cons replayed
      obtain ⟨next', taken', sameNext⟩ := same.step sameAction taken
      obtain ⟨after', restReplayed', sameAfter⟩ := inductionHypothesis sameNext restReplayed
      have taken' : (machine cfg).step t _ = some (next', stepEvents) := taken'
      exact ⟨after', by simp [replayWithin, anyTest, taken', restReplayed'], sameAfter⟩

/-! ### The other pages -/

/-- Steps of one page leave what every other page consists of: locks, directory
entry, protections and bytes on every node, its faults and its instances. -/
theorem replay_frame {cfg : Config} {s after : Sys} {schedule : List Action} {events : List Event}
    {page : Nat} (addressed : Addressed cfg s)
    (replayed : (machine cfg).replayWithin (fun s action => s.pageOf action == page) s schedule =
      some (after, events)) :
    Addressed cfg after ∧ ∀ base, 4096 ∣ base → base ≠ page → after.view base = s.view base := by
  refine replayWithin_invariant (fun t => Addressed cfg t ∧
    ∀ base, 4096 ∣ base → base ≠ page → t.view base = s.view base) ?_ replayed
    ⟨addressed, fun _ _ _ => rfl⟩
  rintro before later action events ⟨addressed, kept⟩ onPage taken
  refine ⟨addressed.step taken, fun base aligned different => ?_⟩
  obtain rfl := beq_iff_eq.mp onPage
  exact (addressed.view_step_other aligned different taken).trans (kept base aligned different)

/-- The instances that were not there before work on the page. -/
theorem started_onPage {cfg : Config} {s after : Sys} {page : Nat} (addressed : Addressed cfg after)
    (kept : ∀ base, 4096 ∣ base → base ≠ page → after.view base = s.view base) {id : HandlerId}
    {handler : Handler} (unused : s.handler id = none) (present : after.handler id = some handler) :
    handler.addr = page := by
  by_contra elsewhere
  have inView := after.view_handler present rfl
  rw [kept handler.addr (addressed.handler present).1 elsewhere] at inView
  simp [Sys.view, unused] at inView

/-! ### Keys -/

/-- The key of a lock table or of the directory that a step used. -/
def Event.key? : Event → Option Addr
  | .lockKey _ _ key => some key
  | .infoKey _ key => some key
  | _ => none

theorem Stmt.exec_keys {σ : Type} {self : NodeId} {tid : Tid} {fresh : HandlerId} {stmt : Stmt σ}
    {s after : Sys} {next : σ} {events : List Event} {base : Addr} (onPage : stmt.OnPage base)
    (ran : stmt.exec self tid fresh s = some (next, after, events)) :
    ∀ event ∈ events, ∀ key, event.key? = some key → key = base := by
  rcases exec_cases ran with ⟨nd, onNode, -⟩ | ⟨_, _, _, _, _, _, -, -, -, -, -, rfl⟩ |
    ⟨_, _, _, _, _, -, -, -, -, rfl⟩
  · cases stmt with
    | call => contradiction
    | await => contradiction
    | halt => contradiction
    | waitLock table key target =>
        simp only [runLocal] at onNode
        split at onNode
        · obtain ⟨rfl, rfl, rfl⟩ := onNode
          simpa [Event.key?, OnPage] using onPage
        · contradiction
    | readPage addr target =>
        simp only [runLocal] at onNode
        split at onNode
        · obtain ⟨rfl, rfl, rfl⟩ := onNode
          simp
        · contradiction
    | memcpy addr contents target =>
        simp only [runLocal] at onNode
        split at onNode
        · split at onNode
          · obtain ⟨rfl, rfl, rfl⟩ := onNode
            simp
          · contradiction
        · contradiction
    | skip target =>
        obtain ⟨rfl, rfl, rfl⟩ := onNode
        simp
    | setAccess addr access target =>
        obtain ⟨rfl, rfl, rfl⟩ := onNode
        simp
    | _ =>
        obtain ⟨rfl, rfl, rfl⟩ := onNode
        simpa [Event.key?, OnPage] using onPage
  · simp [Event.key?]
  · simp

theorem step_keys {cfg : Config} {s after : Sys} {action : Action} {events : List Event}
    (addressed : Addressed cfg s) (taken : s.step cfg action = some (after, events)) :
    ∀ event ∈ events, ∀ key, event.key? = some key → 4096 ∣ key := by
  cases action with
  | load thread addr count =>
      obtain ⟨-, -, -, -, -, rfl⟩ := Sys.step_load taken
      simp [Event.key?]
  | store thread addr values =>
      obtain ⟨-, -, -, -, -, rfl⟩ := Sys.step_store taken
      simp [Event.key?]
  | fault thread rq addr =>
      obtain ⟨-, -, -, -, -, rfl⟩ := Sys.step_fault taken
      simp
  | app thread fresh =>
      obtain ⟨rq, addr, pc, next, between, inside, ran, -⟩ := Sys.step_app taken
      intro event member key used
      rw [Stmt.exec_keys (addressed.app_onPage inside) ran event member key used]
      exact pgAlign_dvd addr
  | handler id fresh =>
      obtain ⟨handler, next, between, present, ran, -⟩ := Sys.step_handler taken
      intro event member key used
      rw [Stmt.exec_keys (addressed.handler_onPage present) ran event member key used]
      exact (addressed.handler present).1
  | failApp thread =>
      obtain ⟨_, _, _, _, -, -, -, rfl⟩ := Sys.step_failApp taken
      simp
  | failHandler id =>
      obtain ⟨_, _, -, -, -, rfl⟩ := Sys.step_failHandler taken
      simp

theorem run_keys {cfg : Config} {allowed : Sys → Action → Prop} {trace : List Event} {s : Sys}
    (run : Run (machine cfg) allowed trace s) :
    ∀ event ∈ trace, ∀ key, event.key? = some key → 4096 ∣ key := by
  refine run.invariant (fun trace _ => ∀ event ∈ trace, ∀ key, event.key? = some key → 4096 ∣ key)
    (by simp) ?_
  intro trace events before after action run aligned _ taken event member key used
  rcases List.mem_append.mp member with earlier | later
  · exact aligned event earlier key used
  · exact step_keys (Addressed.of_reachable run.reachable) taken event later key used

/-! ### Every run -/

/-- Only the page of a fault address matters; the steps of one page leave all
other pages; all keys are page starts. -/
theorem page_locality (cfg : Config) :
    (∀ s schedule schedule' after events, List.Forall₂ Action.SamePage schedule schedule' →
      (machine cfg).replayWithin (fun _ _ => true) s schedule = some (after, events) →
      ∃ after', (machine cfg).replayWithin (fun _ _ => true) s schedule' = some (after', events) ∧
        after.SamePages after' ∧ ((∀ thread, (after.app thread).isRunning = true) → after' = after)) ∧
    (∀ s, Reachable (machine cfg) anyStep s → ∀ page schedule after events,
      (machine cfg).replayWithin (fun s action => s.pageOf action == page) s schedule =
        some (after, events) →
      (∀ base, 4096 ∣ base → base ≠ page → after.view base = s.view base) ∧
      ∀ id handler, s.handler id = none → after.handler id = some handler → handler.addr = page) ∧
    (∀ trace s, Run (machine cfg) anyStep trace s →
      ∀ event ∈ trace, ∀ key, event.key? = some key → 4096 ∣ key) := by
  refine ⟨?_, ?_, fun trace s run => run_keys run⟩
  · intro s schedule schedule' after events sameSchedule replayed
    obtain ⟨after', replayed', same⟩ :=
      replay_samePage (fun _ _ => rfl) (.refl s) sameSchedule replayed
    exact ⟨after', replayed', same, same.eq⟩
  · intro s reached page schedule after events replayed
    obtain ⟨addressed, kept⟩ := replay_frame (Addressed.of_reachable reached) replayed
    exact ⟨kept, fun id handler unused present => started_onPage addressed kept unused present⟩

/-- A read fault of worker `1` on the sixth byte of the page is served as one on its
first byte. -/
theorem page_locality_at_offset :
    ∃ after after' events,
      (machine threeNodes).replayWithin (fun _ _ => true) Sys.initial
        (readFromOwner ⟨1, 0⟩ firstPage 0) = some (after, events) ∧
      (machine threeNodes).replayWithin (fun _ _ => true) Sys.initial
        (readFromOwner ⟨1, 0⟩ (firstPage + 5) 0) = some (after', events) ∧
      after.SamePages after' := by
  have served : ((machine threeNodes).replayWithin (fun _ _ => true) Sys.initial
      (readFromOwner ⟨1, 0⟩ firstPage 0)).isSome = true := by decide +kernel
  obtain ⟨⟨after, events⟩, replayed⟩ := Option.isSome_iff_exists.mp served
  have samePage : pgAlign firstPage = pgAlign (firstPage + 5) := by decide
  obtain ⟨after', replayed', same, -⟩ := (page_locality threeNodes).1 _ _ _ after events
    (.cons (.fault ⟨1, 0⟩ .rd samePage) (List.forall₂_same.mpr fun _ _ => .same _)) replayed
  exact ⟨after, after', events, replayed, replayed', same⟩

end LibIvy
