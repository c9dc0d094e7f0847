import LibIvy.Page.Protection

/-!
Contract: a worker may write only what it has been granted to write.

Owns: the property over the log of a run, the copying of a read fault that it has
to exempt, and a run that needs the exemption.

Does not own: what the manager checks before it grants.

The read path makes the page writable before it copies the contents, and read-only
after. The protection belongs to the process, so all of its threads can store
meanwhile.
-/

namespace LibIvy

open Lib NumberText TransitionSystem

/-- The entries of a log: a state and the step taken from it. -/
abbrev Log := List (Sys × Action)

namespace Sys

/-- The step is the `set_access` of `get_wr_page_from_mngr` on the worker. -/
def InstallsWrite (s : Sys) (worker : NodeId) (base : Addr) (memStr : Reply) : Action → Prop
  | .app thread _ => thread.node = worker ∧
      ∃ addr, s.app thread = .fault .wr addr (.got memStr) ∧ pgAlign addr = base
  | _ => False

/-- The manager has returned the reply to a write request of the worker. -/
def GrantedWrite (cfg : Config) (s : Sys) (worker : NodeId) (base : Addr) (memStr : Reply) : Prop :=
  ∃ id handler, s.handler id = some handler ∧ cfg.isManager handler.node = true ∧
    handler.addr = base ∧ handler.job = .servWr worker (.done memStr)

/-- The step is the return of a `fetch_pg` or an invalidation on the worker. -/
def CompletesCallback (s : Sys) (worker : NodeId) (base : Addr) : Action → Prop
  | .handler id _ => ∃ handler, s.handler id = some handler ∧ handler.node = worker ∧
      handler.addr = base ∧ handler.job.returns = true
  | _ => False

/-- A thread of the worker is between the two `set_access` calls of
`get_rd_page_from_mngr`. -/
def CopiesRead (s : Sys) (worker : NodeId) (base : Addr) : Prop :=
  ∃ idx addr pc, s.app ⟨worker, idx⟩ = .fault .rd addr pc ∧ pgAlign addr = base ∧ pc.copying = true

end Sys

/-- A write grant was installed on the worker and no callback has completed there
since. -/
def HoldsWriteGrant (cfg : Config) (worker : NodeId) (base : Addr) (log : Log) : Prop :=
  ∃ earlier before action later memStr, log = earlier ++ (before, action) :: later ∧
    before.GrantedWrite cfg worker base memStr ∧
    before.InstallsWrite worker base memStr action ∧
    ∀ entry ∈ later, ¬entry.1.CompletesCallback worker base entry.2

section Runs

variable {cfg : Config} {allowed : Sys → Action → Prop} {base : Nat} {worker : NodeId}
  {log : Log} {s before after : Sys} {action : Action} {events : List Event}

theorem HoldsWriteGrant.snoc (holds : HoldsWriteGrant cfg worker base log)
    (calm : ¬before.CompletesCallback worker base action) :
    HoldsWriteGrant cfg worker base (log ++ [(before, action)]) := by
  obtain ⟨earlier, granting, install, later, memStr, rfl, granted, installs, since⟩ := holds
  refine ⟨earlier, granting, install, later ++ [(before, action)], memStr, by simp, granted,
    installs, ?_⟩
  intro entry member
  rcases List.mem_append.mp member with old | new
  · exact since entry old
  · obtain rfl := List.mem_singleton.mp new
    exact calm

/-- Locks, grants and callbacks of a page are in order in every run. -/
theorem page_protected (aligned : 4096 ∣ base) (isWorker : cfg.isManager worker = false)
    (reached : Reachable (machine cfg) allowed s) :
    LocksHeld cfg (s.view base) ∧ Granting cfg (s.view base) ∧ (s.view base).Revoked worker := by
  obtain ⟨trace, run⟩ := reached
  refine page_invariant
    (fun st _ => LocksHeld cfg st ∧ Granting cfg st ∧ st.Revoked worker) aligned
    ⟨.initial, .initial, by simp [PageState.Revoked, PageState.initial]⟩ ?_ run
  rintro trace s action pageAction st - - - - ⟨locksHeld, granting, revoked⟩ taken
  exact ⟨locksHeld.step taken, granting.step taken, revoked.step isWorker locksHeld granting taken⟩

theorem copiesRead_iff : s.CopiesRead worker base ↔ (s.view base).Copying worker := by
  constructor
  · rintro ⟨idx, addr, pc, inside, rfl, copies⟩
    exact ⟨idx, pc, by rw [Sys.view_app, inside, App.view_fault], copies⟩
  · rintro ⟨idx, pc, inView, copies⟩
    obtain ⟨addr, inside, samePage⟩ := App.view_eq_some (by rwa [Sys.view_app] at inView)
    exact ⟨idx, addr, pc, inside, samePage, copies⟩

/-- A grant on the page is one in the system. -/
theorem grantedWrite_of_view {memStr : Reply}
    (granted : (s.view base).Granted cfg .wr worker memStr) :
    s.GrantedWrite cfg worker base memStr := by
  obtain ⟨id, ⟨node, job⟩, inView, manager, kind, replied⟩ := granted
  have present := s.handler_of_view inView
  refine ⟨id, _, present, manager, rfl, ?_⟩
  cases job with
  | servWr reqNode pc =>
      obtain rfl : reqNode = worker := by simpa [Job.kind, Rq.kind] using kind
      cases pc <;> simp only [Job.reply?, reduceCtorEq, Option.some.injEq] at replied
      rw [replied]
  | _ => contradiction

/-- The return of a callback is a step of its page. -/
theorem completesCallback_onPage (completes : before.CompletesCallback worker base action) :
    before.pageOf action = base ∧ ∃ id fresh handler, action.onPage = some (.handler id fresh) ∧
      (before.view base).handler id = some handler ∧ handler.node = worker ∧
      handler.job.returns = true := by
  cases action with
  | handler id fresh =>
      obtain ⟨handler, present, onWorker, samePage, returns⟩ := completes
      exact ⟨by simp [Sys.pageOf, present, samePage], id, fresh, _, rfl,
        before.view_handler present samePage, onWorker, returns⟩
  | _ => contradiction

/-- One step: write access comes from an installed grant, from a copy that is being
made, or was there before. -/
theorem write_granted_step (aligned : 4096 ∣ base) (isWorker : cfg.isManager worker = false)
    (reached : Reachable (machine cfg) allowed before)
    (granted : ((before.node worker).prot base).writable = true →
      before.CopiesRead worker base ∨ HoldsWriteGrant cfg worker base log)
    (taken : before.step cfg action = some (after, events))
    (writable : ((after.node worker).prot base).writable = true) :
    after.CopiesRead worker base ∨ HoldsWriteGrant cfg worker base (log ++ [(before, action)]) := by
  have addressed := Addressed.of_reachable reached
  obtain ⟨locksHeld, granting, revoked⟩ := page_protected aligned isWorker reached
  by_cases same : base = before.pageOf action
  case neg =>
    have sameView := addressed.view_step_other aligned same taken
    have writableBefore : ((before.view base).node worker).prot.writable = true := sameView ▸ writable
    refine (granted writableBefore).imp (fun copies => ?_) (fun holds => holds.snoc ?_)
    · rwa [copiesRead_iff, sameView, ← copiesRead_iff]
    · exact fun completes => same (completesCallback_onPage completes).1.symm
  case pos =>
    cases onPage : action.onPage with
    | none =>
        obtain ⟨thread, addr, count, rfl⟩ := Action.eq_load onPage
        obtain ⟨-, -, -, -, rfl, -⟩ := Sys.step_load taken
        exact (granted writable).imp_right fun holds => holds.snoc id
    | some pageAction =>
        have onView := addressed.view_step onPage taken
        rw [← same] at onView
        rcases PageState.step_writable granting revoked onView writable with
          ⟨thread, fresh, rq, memStr, rfl, onWorker, inView, copies⟩ |
          ⟨writableBefore, copies, calm⟩
        · cases rq with
          | rd => exact .inl (copiesRead_iff.mpr (copies rfl))
          | wr =>
              obtain ⟨addr, inside, samePage⟩ := App.view_eq_some inView
              obtain rfl : action = .app thread fresh := by
                cases action <;> simp_all [Action.onPage]
              refine .inr ⟨log, before, _, [], memStr, rfl, ?_,
                ⟨onWorker, addr, inside, samePage⟩, by simp⟩
              exact grantedWrite_of_view (onWorker ▸ granting.got inView)
        · refine (granted writableBefore).imp (fun copying => ?_) (fun holds => holds.snoc ?_)
          · exact copiesRead_iff.mpr (copies (copiesRead_iff.mp copying))
          · intro completes
            obtain ⟨-, id, fresh, handler, isHandler, present, onWorker, returns⟩ :=
              completesCallback_onPage completes
            obtain rfl := Option.some.inj (onPage.symm.trans isHandler)
            simp [(calm id fresh handler rfl present onWorker).1] at returns

/-- Whatever the threads, and whether calls fail or not: when the protection of a
page on a worker includes write, then a write grant of the manager has been
installed there and no fetch or invalidation has completed since, or a thread of
the worker is between the two `set_access` calls of its read. -/
theorem write_only_after_grant {addr : Addr} (isWorker : cfg.isManager worker = false)
    (run : Run (machine cfg).logged allowed log s)
    (writable : ((s.node worker).prot (pgAlign addr)).writable = true) :
    s.CopiesRead worker (pgAlign addr) ∨ HoldsWriteGrant cfg worker (pgAlign addr) log := by
  refine run.invariant (fun log s => ((s.node worker).prot (pgAlign addr)).writable = true →
    s.CopiesRead worker (pgAlign addr) ∨ HoldsWriteGrant cfg worker (pgAlign addr) log) ?_ ?_ writable
  · intro denied
    contradiction
  · intro log entries before after action run granted permitted taken
    obtain ⟨rfl, events, stepped⟩ := logged_step taken
    exact write_granted_step (pgAlign_dvd addr) isWorker run.of_logged granted stepped

end Runs

/-! ### A writer and a reader -/

/-- Worker `1` has written. -/
theorem write_only_after_grant_of_writer :
    ∃ (log : Log) (s : Sys), (s.node 1).prot firstPage = .rw ∧
      (s.CopiesRead 1 firstPage ∨ HoldsWriteGrant threeNodes 1 firstPage log) := by
  obtain ⟨log, s, run, checked⟩ := exists_run (machine threeNodes).logged
    (fun _ action => action.reliable) (fun s _ => decide ((s.node 1).prot firstPage = .rw))
    (writeFromManager ⟨1, 0⟩ firstPage 0) (fun s action permitted => (permitted : Reliable s action))
    (by decide +kernel)
  have writes := of_decide_eq_true checked
  exact ⟨log, s, writes, @write_only_after_grant threeNodes Reliable 1 log s firstPage rfl run
    (by rw [pgAlign_of_dvd (by decide : 4096 ∣ firstPage), writes]; rfl)⟩

/-- A thread inside a write fault moves. -/
def movesWriter (entry : Sys × Action) : Bool :=
  match entry.2 with
  | .app thread _ => match entry.1.app thread with
    | .fault .wr _ _ => true
    | _ => false
  | _ => false

/-- Worker `1` reads the page for the first time: its page is writable before the
contents are copied, and nobody has asked to write. -/
theorem write_only_after_grant_fails : ¬∀ (cfg : Config) (worker : NodeId) (addr : Addr) (log : Log)
    (s : Sys), cfg.isManager worker = false → Run (machine cfg).logged Reliable log s →
    ((s.node worker).prot (pgAlign addr)).writable = true →
    HoldsWriteGrant cfg worker (pgAlign addr) log := by
  intro always
  obtain ⟨log, s, run, checked⟩ := exists_run (machine threeNodes).logged
    (fun _ action => action.reliable)
    (fun s log => ((s.node 1).prot (pgAlign firstPage)).writable && !log.any movesWriter)
    ([.fault ⟨1, 0⟩ .rd firstPage] ++ moves 2 (.app ⟨1, 0⟩ 0) ++ moves 5 (.handler 0 1) ++
      moves 5 (.handler 1 0) ++ moves 3 (.handler 0 0) ++ moves 2 (.app ⟨1, 0⟩ 0))
    (fun s action permitted => (permitted : Reliable s action)) (by decide +kernel)
  obtain ⟨writable, nobodyWrites⟩ := (Bool.and_eq_true ..).mp checked
  obtain ⟨earlier, before, action, later, memStr, rfl, -, installs, -⟩ :=
    always threeNodes 1 firstPage log s rfl run writable
  cases action with
  | app thread fresh =>
      obtain ⟨-, addr, inside, -⟩ := installs
      simp [movesWriter, inside] at nobodyWrites
  | _ => contradiction

end LibIvy
