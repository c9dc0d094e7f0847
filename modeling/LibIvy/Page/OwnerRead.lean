import LibIvy.Page.Runs

/-!
Contract: the owner that a request has read.

Owns: the positions at which a request goes by an owner it has read, the statement
that replaces an owner, and the fact that what a request has read stays recorded while
it goes by it.

Does not own: what a request does with the owner it found.
-/

namespace LibIvy

open Lib NumberText TransitionSystem

/-! ### The owner that a request has read -/

/-- The owner that a request has read and not yet replaced. -/
def Job.owner? : Job → Option NodeId
  | .servRd _ (.gotOwner ownerNode) => some ownerNode
  | .servRd _ (.fetching ownerNode _) => some ownerNode
  | .servWr _ (.gotOwner ownerNode) => some ownerNode
  | .servWr _ (.infoLocked ownerNode) => some ownerNode
  | .servWr _ (.erased ownerNode _) => some ownerNode
  | .servWr _ (.fetching ownerNode _ _) => some ownerNode
  | _ => none

/-- It holds the page lock meanwhile. -/
theorem Job.held_of_owner? {job : Job} {owner : NodeId} (read : job.owner? = some owner)
    (manager : Bool) : job.held manager .pageLocks = true := by
  cases job with
  | servRd reqNode pc => cases pc <;> simp_all [Job.owner?, Job.held]
  | servWr reqNode pc => cases pc <;> simp_all [Job.owner?, Job.held]
  | fetch accessType pc => contradiction
  | invalidate pc => contradiction

/-- The position reads the owner next. -/
def Job.looksUp : Job → Bool
  | .servRd _ .inserted => true
  | .servWr _ .pageLocked => true
  | _ => false

section Positions

variable {cfg : Config} {self : NodeId} {base : Addr} {job : Job}

/-- Only a look-up makes a request read an owner. -/
theorem job_ensures_owner (notLookUp : job.looksUp = false) :
    (job.stmt cfg self base).Ensures (fun next => next.owner? = none ∨ next.owner? = job.owner?)
      (fun _ next => next.owner? = none ∨ next.owner? = job.owner?) (fun _ => True) := by
  cases job with
  | servRd reqNode pc =>
      rw [Job.stmt, Stmt.ensures_map]
      cases pc <;> simp only [servRdRq, Stmt.ensures_ite] <;>
        simp_all [Stmt.Ensures, Job.owner?, Job.looksUp]
  | servWr reqNode pc =>
      rw [Job.stmt, Stmt.ensures_map]
      cases pc
      case invalidating ownerNode pageContents nodes =>
        cases nodes <;> simp [servWrRq, Stmt.Ensures, Job.owner?]
      case invalidateSent ownerNode pageContents nodes call =>
        refine ⟨fun reply _ => ?_, .inl rfl⟩
        dsimp only
        split <;> exact .inl rfl
      all_goals
        simp only [servWrRq, Stmt.ensures_ite]
        simp_all [Stmt.Ensures, Job.owner?, Job.looksUp]
  | fetch accessType pc =>
      rw [Job.stmt, Stmt.ensures_map]
      cases pc <;> simp only [fetchPg, Stmt.ensures_ite] <;> simp [Stmt.Ensures, Job.owner?]
  | invalidate pc =>
      rw [Job.stmt, Stmt.ensures_map]
      cases pc <;> simp only [invalidateAdapter, Stmt.ensures_ite] <;>
        simp [Stmt.Ensures, Job.owner?]

/-- Where a look-up leads. -/
theorem job_looksUp {tid : Tid} {fresh : HandlerId} {st between : PageState} {next : Job}
    (lookUp : job.looksUp = true)
    (ran : (job.stmt cfg self base).execOnPage self tid fresh st = some (next, between)) :
    between = st ∧ (next.owner? = none ∨ next.owner? = some (st.node self).info.owner) := by
  cases job with
  | servRd reqNode pc =>
      cases pc <;> try contradiction
      obtain ⟨rfl, rfl⟩ := ran
      exact ⟨PageState.setNode_self .., .inr rfl⟩
  | servWr reqNode pc =>
      cases pc <;> try contradiction
      simp only [Job.stmt, servWrRq] at ran
      split at ran
      · obtain ⟨rfl, rfl⟩ := ran
        exact ⟨PageState.setNode_self .., .inr rfl⟩
      · obtain ⟨rfl, rfl⟩ := ran
        exact ⟨PageState.setNode_self .., .inl rfl⟩
  | fetch accessType pc => contradiction
  | invalidate pc => contradiction

/-- The statement leaves the recorded owner alone. -/
def Stmt.KeepsOwner {σ : Type} : Stmt σ → Prop
  | .setOwner _ _ _ => False
  | _ => True

@[simp] theorem Stmt.keepsOwner_ite {σ : Type} (condition : Prop) [Decidable condition]
    (first second : Stmt σ) :
    (if condition then first else second).KeepsOwner ↔
      if condition then first.KeepsOwner else second.KeepsOwner := by
  split <;> rfl

@[simp] theorem Stmt.keepsOwner_map {σ τ : Type} (wrap : σ → τ) (stmt : Stmt σ) :
    (stmt.map wrap).KeepsOwner ↔ stmt.KeepsOwner := by
  cases stmt <;> rfl

theorem faultHdlr_keepsOwner (rq : Rq) (pc : FaultPc) :
    (faultHdlr cfg rq self base pc).KeepsOwner := by
  cases rq <;> cases pc <;>
    simp only [faultHdlr, rdFaultHdlr, wrFaultHdlr, Stmt.keepsOwner_ite] <;>
    simp [Stmt.KeepsOwner]

theorem job_keepsOwner (running : job.commits = false) :
    (job.stmt cfg self base).KeepsOwner := by
  cases job with
  | servRd reqNode pc =>
      rw [Job.stmt, Stmt.keepsOwner_map]
      cases pc <;> simp only [servRdRq, Stmt.keepsOwner_ite] <;> simp [Stmt.KeepsOwner]
  | servWr reqNode pc =>
      rw [Job.stmt, Stmt.keepsOwner_map]
      cases pc
      case invalidating ownerNode pageContents nodes => cases nodes <;> trivial
      case cleared => contradiction
      all_goals
        simp only [servWrRq, Stmt.keepsOwner_ite]
        simp [Stmt.KeepsOwner]
  | fetch accessType pc =>
      rw [Job.stmt, Stmt.keepsOwner_map]
      cases pc <;> simp only [fetchPg, Stmt.keepsOwner_ite] <;> simp [Stmt.KeepsOwner]
  | invalidate pc =>
      rw [Job.stmt, Stmt.keepsOwner_map]
      cases pc <;> simp only [invalidateAdapter, Stmt.keepsOwner_ite] <;> simp [Stmt.KeepsOwner]

end Positions

theorem Stmt.execOnPage_owner {σ : Type} {self : NodeId} {tid : Tid} {fresh : HandlerId}
    {stmt : Stmt σ} {st after : PageState} {next : σ} (keeps : stmt.KeepsOwner)
    (ran : stmt.execOnPage self tid fresh st = some (next, after)) (node : NodeId) :
    (after.node node).info.owner = (st.node node).info.owner := by
  rcases execOnPage_cases ran with ⟨nd, onNode, rfl⟩ | ⟨_, _, _, _, _, _, _, _, _, _, rfl⟩ |
    ⟨_, _, _, _, _, _, _, _, rfl⟩
  · refine PageState.setNode_field (·.info.owner) ?_ node
    cases stmt with
    | setOwner => contradiction
    | call => contradiction
    | await => contradiction
    | halt => contradiction
    | waitLock table key target =>
        simp only [runOnPage] at onNode
        split at onNode
        · obtain ⟨rfl, rfl⟩ := onNode
          cases table <;> rfl
        · contradiction
    | unlock table key target =>
        obtain ⟨rfl, rfl⟩ := onNode
        cases table <;> rfl
    | readPage addr target =>
        simp only [runOnPage] at onNode
        split at onNode
        · obtain ⟨rfl, rfl⟩ := onNode
          rfl
        · contradiction
    | memcpy addr contents target =>
        simp only [runOnPage] at onNode
        split at onNode
        · split at onNode
          · obtain ⟨rfl, rfl⟩ := onNode
            rfl
          · contradiction
        · contradiction
    | _ =>
        obtain ⟨rfl, rfl⟩ := onNode
        rfl
  · rfl
  · rfl

/-- What every request has read is still recorded. -/
def OwnerRead (st : PageState) : Prop :=
  ∀ id handler owner, st.handler id = some handler → handler.job.owner? = some owner →
    (st.node handler.node).info.owner = owner

theorem RpcName.accept_owner {fn : RpcName} {body : Text} {addr : Addr} {job : Job}
    (accepted : fn.accept body = some (addr, job)) : job.owner? = none := by
  cases fn <;> simp only [RpcName.accept, Option.map_eq_some_iff, Prod.mk.injEq] at accepted <;>
    obtain ⟨_, _, _, rfl⟩ := accepted <;> rfl

/-- A request that waits for a reply is past its look-up. -/
theorem looksUp_of_fail {cfg : Config} {self : NodeId} {base : Addr} {job next : Job}
    (failed : (job.stmt cfg self base).fail? = some next) : job.looksUp = false := by
  obtain ⟨_, _, _, _, waits⟩ := Stmt.fail_awaits failed
  rw [job_awaits?] at waits
  cases job with
  | servRd reqNode pc => cases pc <;> first | rfl | contradiction
  | servWr reqNode pc => cases pc <;> first | rfl | contradiction
  | fetch accessType pc => rfl
  | invalidate pc => rfl

namespace OwnerRead

variable {cfg : Config} {base : Addr} {st after : PageState}

theorem initial : OwnerRead PageState.initial := by
  intro id handler owner present
  simp [PageState.initial] at present

/-- Instances that stay where they are keep what they read, when no owner is
replaced. -/
theorem exec {σ : Type} {self : NodeId} {tid : Tid} {fresh : HandlerId} {stmt : Stmt σ}
    {next : σ} {between : PageState} (ownerRead : OwnerRead st)
    (ran : stmt.execOnPage self tid fresh st = some (next, between)) (keeps : stmt.KeepsOwner) :
    OwnerRead between := by
  intro id handler owner present read
  rcases Stmt.execOnPage_handler ran present with old | ⟨_, _, _, _, _, _, _, accepted⟩
  · rw [Stmt.execOnPage_owner keeps ran]
    exact ownerRead id handler owner old read
  · simp [RpcName.accept_owner accepted] at read

theorem setHandler {id : HandlerId} {moved : PageHandler} (ownerRead : OwnerRead st)
    (read : ∀ owner, moved.job.owner? = some owner → (st.node moved.node).info.owner = owner) :
    OwnerRead (st.setHandler id moved) := by
  intro other handler owner present readOwner
  by_cases same : other = id
  · subst same
    obtain rfl : moved = handler := by simpa using present
    exact read owner readOwner
  · rw [PageState.setHandler_other _ _ same] at present
    exact ownerRead other handler owner present readOwner

theorem handler_step {id fresh : HandlerId} {self : NodeId} {job next : Job} {between : PageState}
    (ownerRead : OwnerRead st) (locksHeld : LocksHeld cfg st)
    (present : st.handler id = some ⟨self, job⟩)
    (ran : (job.stmt cfg self base).execOnPage self (.handler id) fresh st = some (next, between)) :
    OwnerRead (between.setHandler id ⟨self, next⟩) := by
  cases commits : job.commits with
  | false =>
      have keeps : (job.stmt cfg self base).KeepsOwner := job_keepsOwner commits
      refine (ownerRead.exec ran keeps).setHandler fun owner read => ?_
      rw [Stmt.execOnPage_owner keeps ran]
      cases lookUp : job.looksUp with
      | true =>
          obtain ⟨-, unread | looked⟩ := job_looksUp lookUp ran
          · simp [unread] at read
          · exact Option.some.inj (looked.symm.trans read)
      | false =>
          have moved : next.owner? = none ∨ next.owner? = job.owner? := by
            rcases Stmt.execOnPage_ensures (job_ensures_owner lookUp) (fun _ _ _ _ => trivial) ran
              with moved | ⟨_, _, _, _, _, _, _, _, moved, _⟩ <;> exact moved
          rcases moved with unread | unmoved
          · simp [unread] at read
          · exact ownerRead id ⟨self, job⟩ owner present (unmoved.symm.trans read)
  | true =>
      obtain ⟨reqNode, ownerNode, pageContents, rfl⟩ := Job.eq_cleared commits
      obtain ⟨rfl, rfl⟩ := ran
      intro other handler owner found read
      have different : other ≠ id := by
        intro same
        subst same
        obtain rfl : ⟨self, _⟩ = handler := by simpa using found
        contradiction
      rw [PageState.setHandler_other _ _ different] at found
      -- the owner is replaced under the page lock, which the other request holds on its node
      have elsewhere : handler.node ≠ self := by
        intro same
        subst same
        have mine : st.Holds cfg handler.node .pageLocks (.handler id) := ⟨_, present, rfl, rfl⟩
        have other's : st.Holds cfg handler.node .pageLocks (.handler other) :=
          ⟨_, found, rfl, Job.held_of_owner? read _⟩
        exact different (Tid.handler.inj (locksHeld.unique other's mine))
      have same := ownerRead other handler owner found read
      simpa [PageState.setNode, PageState.setHandler, elsewhere] using same

theorem step {action : PageAction} (ownerRead : OwnerRead st) (locksHeld : LocksHeld cfg st)
    (taken : st.step cfg base action = some after) : OwnerRead after := by
  cases action with
  | store thread offset values =>
      obtain ⟨-, -, -, rfl⟩ := PageState.step_store taken
      intro id handler owner present read
      have recorded := ownerRead id handler owner present read
      rw [← recorded]
      refine PageState.setNode_field (fun nd => nd.info.owner) ?_ handler.node
      rfl
  | fault thread rq =>
      obtain ⟨-, -, -, rfl⟩ := PageState.step_fault taken
      exact ownerRead
  | app thread fresh =>
      obtain ⟨rq, pc, next, between, -, ran, rfl⟩ := PageState.step_app taken
      have kept := ownerRead.exec ran (faultHdlr_keepsOwner rq pc)
      exact kept
  | handler id fresh =>
      obtain ⟨⟨self, job⟩, next, between, present, ran, rfl⟩ := PageState.step_handler taken
      exact ownerRead.handler_step locksHeld present ran
  | failApp thread =>
      obtain ⟨rq, pc, next, -, -, rfl⟩ := PageState.step_failApp taken
      exact ownerRead
  | failHandler id =>
      obtain ⟨⟨self, job⟩, next, present, failed, rfl⟩ := PageState.step_failHandler taken
      refine ownerRead.setHandler fun owner read => ?_
      rcases Stmt.fail_ensures (job_ensures_owner (looksUp_of_fail failed)) failed with
        unread | unmoved
      · have unread : next.owner? = none := unread
        simp [unread] at read
      · exact ownerRead id ⟨self, job⟩ owner present (unmoved.symm.trans read)

end OwnerRead

/-! ### Every run -/

/-- What a request of the configured manager has read is recorded, in every run. -/
theorem page_ownerRead {cfg : Config} {base : Nat} {allowed : Sys → Action → Prop}
    {trace : List Event} {s : Sys} (zero : cfg.managerId = 0) (aligned : 4096 ∣ base)
    (fits : base < wordCount) (run : Run (machine cfg) allowed trace s) :
    OwnerRead (s.view base) := by
  refine page_invariant (fun st _ => OwnerRead st) aligned OwnerRead.initial ?_ run
  intro trace s action pageAction st run _ _ _ ownerRead taken
  exact ownerRead.step (page_ordered zero aligned fits run).1 taken

end LibIvy
