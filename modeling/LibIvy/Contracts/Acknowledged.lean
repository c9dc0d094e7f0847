import LibIvy.Runtime.Machine
import LibIvy.Runtime.Solo

/-!
Contract: a write grant and the invalidations it depends on.

Owns: one execution of `serv_wr_rq` for every directory entry and every outcome
of its calls: what it is answered, when it hands the page over, when it returns, and
when that means that every recorded reader has confirmed.

Does not own: what `invalidate_adapter` does to a reader.

`send_invalidations` ends at the first node that does not answer `ok`, and
`serv_wr_rq` goes on with the result unused. A page that node `0` owns is read by a
direct call, which cannot fail. An owner that is called may answer anything; the
assertion that the answer is not empty comes after the copyset has been cleared.
-/

namespace LibIvy

open Lib

/-- Outcomes of the calls of one execution of `serv_wr_rq`: the page that
`fetch_pg_adapter` reads when it is called directly, the body that the owner answers
to `FETCH_PG` and the body that each node answers to an invalidation. A body may be
any; `none` is a failed call. -/
structure CallOutcomes where
  localPage : Page
  fetch : Option Reply
  invalidate : NodeId → Option Text

def CallOutcomes.outcomes (given : CallOutcomes) : Outcomes where
  direct _ := .page given.localPage
  rpc
    | _, .fetchPg => given.fetch
    | node, .invalidatePg => (given.invalidate node).map Reply.text
    | _, _ => none

/-- The page of this directory entry is fetched from another node than the manager
and the requester, over RPC. -/
def Info.FetchedOverRpc (entry : Info) (reqNode : NodeId) : Prop :=
  entry.owner ≠ 0 ∧ entry.owner ≠ reqNode

/-- The node has answered `ok` to an invalidation. -/
def Solo.Acknowledged (solo : Solo WrPc) (reader : NodeId) : Prop :=
  ∃ reply, (reader, RpcName.invalidatePg, reply) ∈ solo.answers ∧ reply.isOk = true

/-- Every reader that the directory entry records, the requester apart, has answered
`ok` to an invalidation. -/
def Solo.Confirmed (solo : Solo WrPc) (entry : Info) (reqNode : NodeId) : Prop :=
  ∀ reader ∈ entry.copyset, reader ≠ reqNode → solo.Acknowledged reader

/-- `serv_wr_rq` has returned without an error. -/
def WrPc.returned : WrPc → Bool
  | .done _ => true
  | _ => false

/-- `serv_wr_rq` has cleared the copyset to hand the page over. -/
def WrPc.handsOver : WrPc → Bool
  | .cleared _ _ => true
  | .committed _ _ => true
  | .infoUnlocked _ _ => true
  | .done _ => true
  | _ => false

/-- The answers that the loop of `send_invalidations` gets. -/
def invalidationAnswers (given : CallOutcomes) : List NodeId → List (NodeId × RpcName × Reply)
  | [] => []
  | node :: nodes =>
      match given.invalidate node with
      | none => []
      | some body =>
          (node, .invalidatePg, .text body) ::
            if (Reply.text body).isOk then invalidationAnswers given nodes else []

/-- A node that answers did answer so. -/
theorem invalidate_of_answer {given : CallOutcomes} {nodes : List NodeId} {reader : NodeId}
    {fn : RpcName} {reply : Reply} (answered : (reader, fn, reply) ∈ invalidationAnswers given nodes) :
    (given.invalidate reader).map Reply.text = some reply := by
  induction nodes with
  | nil => simp [invalidationAnswers] at answered
  | cons node nodes inductionHypothesis =>
      cases body : given.invalidate node with
      | none => simp [invalidationAnswers, body] at answered
      | some text =>
          simp only [invalidationAnswers, body, List.mem_cons, Prod.mk.injEq] at answered
          rcases answered with ⟨rfl, -, rfl⟩ | later
          · simp [body]
          · split at later
            · exact inductionHypothesis later
            · contradiction

/-- When every node answers `ok`, the loop asks every node. -/
theorem answers_of_all_ok {given : CallOutcomes} {nodes : List NodeId}
    (allOk : ∀ node ∈ nodes, given.invalidate node = some ['o', 'k']) :
    ∀ reader ∈ nodes, (reader, RpcName.invalidatePg, Reply.ok) ∈ invalidationAnswers given nodes := by
  induction nodes with
  | nil => simp
  | cons node nodes inductionHypothesis =>
      obtain ⟨here, rest⟩ := List.forall_mem_cons.mp allOk
      intro reader member
      have isOk : Reply.isOk .ok = true := rfl
      simp only [invalidationAnswers, here, isOk, if_true]
      rcases List.mem_cons.mp member with rfl | later
      · exact List.mem_cons_self
      · exact List.mem_cons_of_mem _ (inductionHypothesis rest reader later)

section Execution

variable {cfg : Config} {self : NodeId} {addr : Addr} {reqNode : NodeId} {given : CallOutcomes}

/-- The executions of `serv_wr_rq(addr, reqNode)`. -/
abbrev WrSteps (cfg : Config) (self : NodeId) (addr : Addr) (reqNode : NodeId)
    (given : CallOutcomes) : Solo WrPc → Solo WrPc → Prop :=
  Solo.Steps (servWrRq cfg self addr reqNode) self given.outcomes

/-- From the entry to the choice of the fetch. -/
theorem erased_of_entry {node : Node} (manager : cfg.isManager self = true)
    (pageFree : node.pageLocks (pgAlign addr) = none)
    (infoFree : node.infoLocks (pgAlign addr) = none) :
    ∃ nd, WrSteps cfg self addr reqNode given (.start .entry node)
      (.start (.erased (node.info (pgAlign addr)).owner
        ((node.info (pgAlign addr)).copyset.erase reqNode).elems) nd) := by
  let pageLocked := node.setLock .pageLocks (pgAlign addr) (some (.handler 0))
  let infoLocked := pageLocked.setLock .infoLocks (pgAlign addr) (some (.handler 0))
  let entry := node.info (pgAlign addr)
  let erased := infoLocked.setInfo (pgAlign addr)
    { entry with copyset := entry.copyset.erase reqNode }
  refine ⟨erased, ?_⟩
  refine Solo.Steps.head (.start .pageLocked pageLocked) ?_ ?_
  · simp [Solo.step, Solo.start, servWrRq, Stmt.runLocal, Node.lock, pageFree, pageLocked]
  refine Solo.Steps.head (.start (.gotOwner entry.owner) pageLocked) ?_ ?_
  · simp [Solo.step, Solo.start, servWrRq, Stmt.runLocal, manager, pageLocked, Node.setLock, entry]
  refine Solo.Steps.head (.start (.infoLocked entry.owner) infoLocked) ?_ ?_
  · simp [Solo.step, Solo.start, servWrRq, Stmt.runLocal, Node.lock, infoFree, pageLocked,
      infoLocked, Node.setLock]
  refine Solo.Steps.head (.start (.erased entry.owner (entry.copyset.erase reqNode).elems) erased)
    ?_ (.refl _)
  simp [Solo.step, Solo.start, servWrRq, Stmt.runLocal, pageLocked, infoLocked, Node.setLock,
    entry, erased]

/-- The fetch: the manager's own page, the answer of another owner, or no contents
for a requester that owns the page. -/
theorem invalidating_of_erased {entry : Info} {ivldSet : List NodeId} (node : Node)
    (fetches : entry.FetchedOverRpc reqNode → given.fetch ≠ none) :
    ∃ contents answers, WrSteps cfg self addr reqNode given (.start (.erased entry.owner ivldSet) node)
        ⟨.invalidating entry.owner contents ivldSet, node, none, answers⟩ ∧
      (∀ answer ∈ answers, answer.2.1 = .fetchPg) ∧
      (entry.FetchedOverRpc reqNode → given.fetch = some contents) ∧
      (¬entry.FetchedOverRpc reqNode → entry.owner ≠ reqNode → contents.length ≠ 0) := by
  by_cases manager : entry.owner = 0
  · refine ⟨.page given.localPage, [(self, .fetchPg, .page given.localPage)], ?_, by simp,
      fun goesOut => absurd manager goesOut.1, fun _ _ => by simp [Reply.length, pageSize]⟩
    refine Solo.Steps.head ⟨.fetching entry.owner ivldSet 0, node, some (self, .fetchPg), []⟩ ?_ ?_
    · simp [Solo.step, Solo.start, servWrRq, manager]
    · refine Solo.Steps.head _ ?_ (.refl _)
      simp [Solo.step, servWrRq, CallOutcomes.outcomes, manager]
  · by_cases same : entry.owner = reqNode
    · refine ⟨.empty, [], Solo.Steps.head _ ?_ (.refl _), by simp,
        fun goesOut => absurd same goesOut.2, fun _ other => absurd same other⟩
      simp only [Solo.step, Solo.start, servWrRq, if_neg manager, if_pos same]
      rfl
    · obtain ⟨contents, fetched⟩ := Option.ne_none_iff_exists'.mp (fetches ⟨manager, same⟩)
      refine ⟨contents, [(entry.owner, .fetchPg, contents)], ?_, by simp, fun _ => fetched,
        fun direct => absurd ⟨manager, same⟩ direct⟩
      refine Solo.Steps.head
        ⟨.fetching entry.owner ivldSet 0, node, some (entry.owner, .fetchPg), []⟩ ?_ ?_
      · simp [Solo.step, Solo.start, servWrRq, manager, same]
      · refine Solo.Steps.head _ ?_ (.refl _)
        simp [Solo.step, servWrRq, CallOutcomes.outcomes, manager, fetched]

/-- The loop of `send_invalidations`. -/
theorem sent_of_invalidating (ownerNode : NodeId) (contents : Reply) (nodes : List NodeId)
    (node : Node) (answers : List (NodeId × RpcName × Reply)) :
    WrSteps cfg self addr reqNode given ⟨.invalidating ownerNode contents nodes, node, none, answers⟩
      ⟨.sent ownerNode contents, node, none, answers ++ invalidationAnswers given nodes⟩ := by
  induction nodes generalizing answers with
  | nil =>
      refine Solo.Steps.head _ rfl ?_
      simpa [invalidationAnswers] using Solo.Steps.refl _
  | cons reader nodes inductionHypothesis =>
      refine Solo.Steps.head ⟨.invalidateSent ownerNode contents nodes 0, node,
        some (reader, .invalidatePg), answers⟩ rfl ?_
      cases body : given.invalidate reader with
      | none =>
          refine Solo.Steps.head ⟨.sent ownerNode contents, node, none, answers⟩ ?_ ?_
          · simp [Solo.step, servWrRq, CallOutcomes.outcomes, body]
          · simpa [invalidationAnswers, body] using Solo.Steps.refl _
      | some text =>
          by_cases isOk : (Reply.text text).isOk = true
          · have rest := inductionHypothesis (answers ++ [(reader, .invalidatePg, .text text)])
            refine Solo.Steps.head _ ?_ (by
              simpa [invalidationAnswers, body, isOk] using rest)
            simp [Solo.step, servWrRq, CallOutcomes.outcomes, body, isOk]
          · refine Solo.Steps.head _ ?_ (.refl _)
            simp [Solo.step, servWrRq, CallOutcomes.outcomes, body, isOk, invalidationAnswers]

/-- The commit. -/
theorem unlocked_of_cleared (ownerNode : NodeId) (contents : Reply) (node : Node)
    (answers : List (NodeId × RpcName × Reply)) :
    ∃ nd, WrSteps cfg self addr reqNode given ⟨.cleared ownerNode contents, node, none, answers⟩
      ⟨.infoUnlocked ownerNode contents, nd, none, answers⟩ := by
  let committed := node.setInfo (pgAlign addr) { node.info (pgAlign addr) with owner := reqNode }
  refine ⟨committed.setLock .infoLocks (pgAlign addr) none, ?_⟩
  refine Solo.Steps.head ⟨.committed ownerNode contents, committed, none, answers⟩ rfl ?_
  exact Solo.Steps.head _ rfl (.refl _)

/-- The return, with contents or to the owner itself. -/
theorem done_of_unlocked {ownerNode : NodeId} {contents : Reply} (node : Node)
    (answers : List (NodeId × RpcName × Reply)) (full : ownerNode ≠ reqNode → contents.length ≠ 0) :
    ∃ nd, WrSteps cfg self addr reqNode given ⟨.infoUnlocked ownerNode contents, node, none, answers⟩
      ⟨.done contents, nd, none, answers⟩ := by
  refine ⟨node.setLock .pageLocks (pgAlign addr) none, Solo.Steps.head _ ?_ (.refl _)⟩
  have nonempty : ¬(ownerNode ≠ reqNode ∧ contents.length = 0) := fun empty => full empty.1 empty.2
  simp [Solo.step, servWrRq, nonempty, Stmt.runLocal]

/-- The failing assertion on the contents. -/
theorem aborted_of_unlocked {ownerNode : NodeId} {contents : Reply} (node : Node)
    (answers : List (NodeId × RpcName × Reply)) (other : ownerNode ≠ reqNode)
    (empty : contents.length = 0) :
    WrSteps cfg self addr reqNode given ⟨.infoUnlocked ownerNode contents, node, none, answers⟩
      ⟨.aborted, node, none, answers⟩ := by
  refine Solo.Steps.head _ ?_ (.refl _)
  simp [Solo.step, servWrRq, other, empty, Stmt.runLocal]

/-- A page that has been handed over stays so, whether the request returns or not. -/
theorem handsOver_step {before after : Solo WrPc}
    (handed : before.pc.handsOver = true ∨ before.pc = .aborted)
    (taken : before.step (servWrRq cfg self addr reqNode) self given.outcomes = some after) :
    after.pc.handsOver = true ∨ after.pc = .aborted := by
  obtain ⟨pc, node, asked, answers⟩ := before
  cases pc <;> simp only [WrPc.handsOver, Bool.false_eq_true, reduceCtorEq, or_false, false_or]
    at handed
  case cleared =>
    cases taken
    exact .inl rfl
  case committed =>
    cases taken
    exact .inl rfl
  case infoUnlocked ownerNode contents =>
    by_cases empty : ownerNode ≠ reqNode ∧ contents.length = 0
    · simp only [Solo.step, servWrRq, if_pos empty, Stmt.runLocal] at taken
      cases taken
      exact .inr rfl
    · simp only [Solo.step, servWrRq, if_neg empty, Stmt.runLocal] at taken
      cases taken
      exact .inl rfl
  case done => contradiction
  case aborted => contradiction

/-- While the fetch fails, the request goes round from the entry to the fetch. -/
def Retries (key : Addr) (ownerNode : NodeId) (solo : Solo WrPc) : Prop :=
  (solo.node.info key).owner = ownerNode ∧
    match solo.pc with
    | .entry => True
    | .pageLocked => True
    | .gotOwner owner => owner = ownerNode
    | .infoLocked owner => owner = ownerNode
    | .erased owner _ => owner = ownerNode
    | .fetching owner _ _ => owner = ownerNode ∧ ∃ dst, solo.asked = some (dst, .fetchPg)
    | .callFailed => True
    | .backOff => True
    | .aborted => True
    | _ => False

/-- A function that goes on after waiting for a lock has taken it. -/
theorem locked_of_step {before after : Solo WrPc} {table : LockTable} {key : Addr} {next : WrPc}
    (row : servWrRq cfg self addr reqNode before.pc = .waitLock table key next)
    (taken : before.step (servWrRq cfg self addr reqNode) self given.outcomes = some after) :
    before.node.lock table key = none ∧
      after = { before with pc := next, node := before.node.setLock table key (some (.handler 0)) } := by
  simp only [Solo.step, row, Stmt.runLocal] at taken
  split at taken
  · rename_i ran
    split at ran
    · rename_i free
      cases ran
      cases taken
      exact ⟨free, rfl⟩
    · contradiction
  · contradiction

theorem Retries.step {entry : Info} {before after : Solo WrPc} (fails : given.fetch = none)
    (fetches : entry.FetchedOverRpc reqNode) (retries : Retries (pgAlign addr) entry.owner before)
    (taken : before.step (servWrRq cfg self addr reqNode) self given.outcomes = some after) :
    Retries (pgAlign addr) entry.owner after := by
  obtain ⟨pc, node, asked, answers⟩ := before
  obtain ⟨owner, position⟩ := retries
  obtain ⟨worker, other⟩ := fetches
  cases pc <;> simp only at position
  case entry =>
    obtain ⟨-, rfl⟩ := locked_of_step rfl taken
    exact ⟨by simpa using owner, trivial⟩
  case pageLocked =>
    cases manager : cfg.isManager self <;> simp [Solo.step, servWrRq, manager, Stmt.runLocal] at taken
    · subst taken
      exact ⟨owner, trivial⟩
    · subst taken
      exact ⟨owner, owner⟩
  case gotOwner read =>
    obtain ⟨-, rfl⟩ := locked_of_step rfl taken
    exact ⟨by simpa using owner, position⟩
  case infoLocked read =>
    cases taken
    exact ⟨by simpa [Node.setInfo] using owner, position⟩
  case erased read ivldSet =>
    subst position
    simp only [Solo.step, servWrRq, if_neg worker, if_neg other] at taken
    cases taken
    exact ⟨owner, rfl, _, rfl⟩
  case fetching read ivldSet call =>
    obtain ⟨rfl, dst, rfl⟩ := position
    simp only [Solo.step, servWrRq, CallOutcomes.outcomes, fails, decide_eq_true_eq,
      if_pos worker] at taken
    cases taken
    exact ⟨owner, trivial⟩
  case callFailed =>
    cases taken
    exact ⟨by simpa using owner, trivial⟩
  case backOff =>
    cases taken
    exact ⟨by simpa using owner, trivial⟩
  case aborted => contradiction

/-- Unless the fetch it makes fails, `serv_wr_rq` gets past the loop of
`send_invalidations`. -/
theorem sent_of_entry {node : Node} (manager : cfg.isManager self = true)
    (pageFree : node.pageLocks (pgAlign addr) = none)
    (infoFree : node.infoLocks (pgAlign addr) = none)
    (fetches : (node.info (pgAlign addr)).FetchedOverRpc reqNode → given.fetch ≠ none) :
    ∃ contents nd fetched, WrSteps cfg self addr reqNode given (.start .entry node)
        ⟨.sent (node.info (pgAlign addr)).owner contents, nd, none,
          fetched ++ invalidationAnswers given
            ((node.info (pgAlign addr)).copyset.erase reqNode).elems⟩ ∧
      (∀ answer ∈ fetched, answer.2.1 = .fetchPg) ∧
      ((node.info (pgAlign addr)).FetchedOverRpc reqNode → given.fetch = some contents) ∧
      (¬(node.info (pgAlign addr)).FetchedOverRpc reqNode →
        (node.info (pgAlign addr)).owner ≠ reqNode → contents.length ≠ 0) := by
  obtain ⟨nd, toErased⟩ := erased_of_entry manager pageFree infoFree
  obtain ⟨contents, fetched, toLoop, isFetch, answered, full⟩ := invalidating_of_erased nd fetches
  exact ⟨contents, nd, fetched, toErased.trans (toLoop.trans (sent_of_invalidating ..)), isFetch,
    answered, full⟩

/-- Then it hands the page over. -/
theorem unlocked_of_entry {node : Node} (manager : cfg.isManager self = true)
    (pageFree : node.pageLocks (pgAlign addr) = none)
    (infoFree : node.infoLocks (pgAlign addr) = none)
    (fetches : (node.info (pgAlign addr)).FetchedOverRpc reqNode → given.fetch ≠ none) :
    ∃ contents nd fetched, WrSteps cfg self addr reqNode given (.start .entry node)
        ⟨.infoUnlocked (node.info (pgAlign addr)).owner contents, nd, none,
          fetched ++ invalidationAnswers given
            ((node.info (pgAlign addr)).copyset.erase reqNode).elems⟩ ∧
      (∀ answer ∈ fetched, answer.2.1 = .fetchPg) ∧
      ((node.info (pgAlign addr)).FetchedOverRpc reqNode → given.fetch = some contents) ∧
      (¬(node.info (pgAlign addr)).FetchedOverRpc reqNode →
        (node.info (pgAlign addr)).owner ≠ reqNode → contents.length ≠ 0) := by
  obtain ⟨contents, nd, fetched, toSent, facts⟩ := sent_of_entry manager pageFree infoFree fetches
  obtain ⟨unlocked, toUnlocked⟩ := unlocked_of_cleared (node.info (pgAlign addr)).owner contents
    (nd.setInfo (pgAlign addr) { nd.info (pgAlign addr) with copyset := ∅ }) _
  exact ⟨contents, unlocked, fetched, toSent.trans (Solo.Steps.head _ rfl toUnlocked), facts⟩

/-- A node has confirmed only if its answer is `ok`. -/
theorem ok_of_acknowledged {final : Solo WrPc} {nodes : List NodeId} {reader : NodeId}
    {fetched : List (NodeId × RpcName × Reply)}
    (isFetch : ∀ answer ∈ fetched, answer.2.1 = RpcName.fetchPg)
    (answers : final.answers = fetched ++ invalidationAnswers given nodes)
    (acknowledged : final.Acknowledged reader) : given.invalidate reader = some ['o', 'k'] := by
  obtain ⟨reply, answered, isOk⟩ := acknowledged
  rw [answers, List.mem_append] at answered
  rcases answered with early | answered
  · exact absurd (isFetch _ early) nofun
  · obtain ⟨body, replied, rfl⟩ := Option.map_eq_some_iff.mp (invalidate_of_answer answered)
    rw [replied]
    simpa [Reply.isOk] using isOk

theorem stops_of_returned {solo : Solo WrPc} (returned : solo.pc.returned = true) :
    solo.step (servWrRq cfg self addr reqNode) self given.outcomes = none := by
  obtain ⟨pc, node, asked, answers⟩ := solo
  cases pc <;> first | rfl | contradiction

/-- When every recorded reader answers `ok`, all of them have done so after the
loop. -/
theorem confirmed_of_allOk {entry : Info} {pc : WrPc} {nd : Node}
    {fetched : List (NodeId × RpcName × Reply)}
    (allOk : ∀ reader ∈ entry.copyset, reader ≠ reqNode →
      given.invalidate reader = some ['o', 'k']) :
    Solo.Confirmed ⟨pc, nd, none, fetched ++ invalidationAnswers given
      (entry.copyset.erase reqNode).elems⟩ entry reqNode := by
  intro reader recorded other
  have listed : reader ∈ (entry.copyset.erase reqNode).elems :=
    NodeSet.mem_erase.mpr ⟨other, recorded⟩
  refine ⟨.ok, List.mem_append_right _ (answers_of_all_ok ?_ reader listed), rfl⟩
  intro asked member
  obtain ⟨notRequester, inCopyset⟩ := NodeSet.mem_erase.mp member
  exact allOk asked inCopyset notRequester

/-- A fetch that fails keeps the request from handing the page over. -/
theorem not_handsOver_of_failed {node : Node} {reached : Solo WrPc} (fails : given.fetch = none)
    (fetches : (node.info (pgAlign addr)).FetchedOverRpc reqNode)
    (steps : WrSteps cfg self addr reqNode given (.start .entry node) reached) :
    reached.pc.handsOver = false := by
  have retries : Retries (pgAlign addr) (node.info (pgAlign addr)).owner reached :=
    steps.invariant _ (fun retries taken => retries.step fails fetches taken) ⟨rfl, trivial⟩
  obtain ⟨-, position⟩ := retries
  cases pc : reached.pc <;> simp_all [WrPc.handsOver]

/-- The page is handed over only when every recorded reader but the requester has
confirmed, exactly when the fetch it makes fails (then it is not handed over) or all
of the readers do answer `ok`. -/
theorem handed_over_iff {node : Node} (manager : cfg.isManager self = true)
    (pageFree : node.pageLocks (pgAlign addr) = none)
    (infoFree : node.infoLocks (pgAlign addr) = none) :
    (∀ reached, WrSteps cfg self addr reqNode given (.start .entry node) reached →
      reached.pc.handsOver = true → reached.Confirmed (node.info (pgAlign addr)) reqNode) ↔
    (node.info (pgAlign addr)).FetchedOverRpc reqNode ∧ given.fetch = none ∨
      ∀ reader ∈ (node.info (pgAlign addr)).copyset, reader ≠ reqNode →
        given.invalidate reader = some ['o', 'k'] := by
  by_cases fails : (node.info (pgAlign addr)).FetchedOverRpc reqNode ∧ given.fetch = none
  case pos =>
    refine iff_of_true (fun reached steps handed => ?_) (.inl fails)
    simp [not_handsOver_of_failed fails.2 fails.1 steps] at handed
  case neg =>
    obtain ⟨contents, nd, fetched, toSent, isFetch, -, -⟩ :=
      sent_of_entry manager pageFree infoFree fun goesOut failed => fails ⟨goesOut, failed⟩
    constructor
    · refine fun always => .inr fun reader recorded other => ?_
      have cleared := toSent.trans (Solo.Steps.head _ rfl (.refl _))
      exact ok_of_acknowledged isFetch rfl (always _ cleared rfl reader recorded other)
    · rintro (failed | allOk) reached steps handed
      · exact absurd failed fails
      · rcases toSent.linear steps with ahead | behind
        · intro reader recorded other
          obtain ⟨reply, answered, isOk⟩ := confirmed_of_allOk allOk reader recorded other
          exact ⟨reply, ahead.answers_kept answered, isOk⟩
        · -- what has been handed over is not about to be
          have later := behind.invariant (fun solo => solo.pc.handsOver = true ∨ solo.pc = .aborted)
            handsOver_step (.inl handed)
          rcases later with handed | aborted <;> contradiction

theorem handsOver_of_returned {pc : WrPc} (returned : pc.returned = true) :
    pc.handsOver = true := by
  cases pc <;> first | rfl | contradiction

/-- `serv_wr_rq` returns without an error only after every recorded reader but the
requester has answered `ok`, exactly when the owner it calls fails or answers nothing
(then it does not return so) or all of the readers do answer `ok`. It clears the
copyset and hands the page over only then, exactly when the call of the owner fails or
all of the readers answer `ok`. -/
theorem acknowledged_iff {node : Node} (manager : cfg.isManager self = true)
    (pageFree : node.pageLocks (pgAlign addr) = none)
    (infoFree : node.infoLocks (pgAlign addr) = none) :
    ((∀ final, WrSteps cfg self addr reqNode given (.start .entry node) final →
        final.pc.returned = true → final.Confirmed (node.info (pgAlign addr)) reqNode) ↔
      (node.info (pgAlign addr)).FetchedOverRpc reqNode ∧
          (∀ answer, given.fetch = some answer → answer.length = 0) ∨
        ∀ reader ∈ (node.info (pgAlign addr)).copyset, reader ≠ reqNode →
          given.invalidate reader = some ['o', 'k']) ∧
    ((∀ reached, WrSteps cfg self addr reqNode given (.start .entry node) reached →
        reached.pc.handsOver = true → reached.Confirmed (node.info (pgAlign addr)) reqNode) ↔
      (node.info (pgAlign addr)).FetchedOverRpc reqNode ∧ given.fetch = none ∨
        ∀ reader ∈ (node.info (pgAlign addr)).copyset, reader ≠ reqNode →
          given.invalidate reader = some ['o', 'k']) := by
  have handedOver := @handed_over_iff cfg self addr reqNode given node manager pageFree infoFree
  refine ⟨?_, handedOver⟩
  by_cases fails : (node.info (pgAlign addr)).FetchedOverRpc reqNode ∧ given.fetch = none
  case pos =>
    refine iff_of_true (fun final steps returned => ?_) (.inl ⟨fails.1, by simp [fails.2]⟩)
    exact handedOver.mpr (.inl fails) final steps (handsOver_of_returned returned)
  case neg =>
    obtain ⟨contents, nd, fetched, unlocked, isFetch, answered, full⟩ :=
      unlocked_of_entry manager pageFree infoFree fun goesOut failed => fails ⟨goesOut, failed⟩
    by_cases empty : (node.info (pgAlign addr)).owner ≠ reqNode ∧ contents.length = 0
    · -- the assertion on the contents fails, so the call does not return
      have goesOut : (node.info (pgAlign addr)).FetchedOverRpc reqNode := by
        by_contra direct
        exact full direct empty.1 empty.2
      have aborts := unlocked.trans (aborted_of_unlocked nd _ empty.1 empty.2)
      refine iff_of_true (fun final steps returned => ?_) (.inl ⟨goesOut, fun answer same => ?_⟩)
      · obtain rfl := steps.unique aborts (stops_of_returned returned) rfl
        contradiction
      · obtain rfl : contents = answer := Option.some.inj ((answered goesOut).symm.trans same)
        exact empty.2
    · obtain ⟨final, toDone⟩ := done_of_unlocked nd _ fun other short => empty ⟨other, short⟩
      constructor
      · refine fun always => .inr fun reader recorded other => ?_
        exact ok_of_acknowledged isFetch rfl
          (always _ (unlocked.trans toDone) rfl reader recorded other)
      · rintro (⟨goesOut, short⟩ | allOk) final steps returned
        · exact absurd ⟨goesOut.2, short contents (answered goesOut)⟩ empty
        · exact handedOver.mpr (.inr allOk) final steps (handsOver_of_returned returned)

end Execution

/-! ### A page that is read by another node -/

/-- The manager of a page that is owned by node `0` and read by node `2`. -/
def readByTwo : Node :=
  { Node.initial with info := fun _ => ⟨NodeSet.insert 2 ∅, .rd, 0⟩ }

/-- Node `1` asks for the page and node `2` confirms. -/
theorem acknowledged_iff_when_confirmed :
    readByTwo.pageLocks (pgAlign firstPage) = none ∧
    readByTwo.infoLocks (pgAlign firstPage) = none ∧
    ∀ final, WrSteps threeNodes 0 firstPage 1 ⟨fun _ => 0, none, fun _ => some ['o', 'k']⟩
      (.start .entry readByTwo) final → final.pc.returned = true → final.Acknowledged 2 := by
  refine ⟨rfl, rfl, fun final steps returned => ?_⟩
  exact (acknowledged_iff rfl rfl rfl).1.mpr (.inr fun _ _ _ => rfl) final steps returned 2
    (by decide) (by decide)

/-- Node `1` asks for the page and the invalidation of node `2` fails. -/
theorem acknowledged_fails : ¬∀ (cfg : Config) (self : NodeId) (addr : Addr) (reqNode : NodeId)
    (given : CallOutcomes) (node : Node), cfg.isManager self = true →
    node.pageLocks (pgAlign addr) = none → node.infoLocks (pgAlign addr) = none →
    ∀ final, WrSteps cfg self addr reqNode given (.start .entry node) final →
      final.pc.returned = true → final.Confirmed (node.info (pgAlign addr)) reqNode := by
  intro always
  let given : CallOutcomes := ⟨fun _ => 0, none, fun _ => none⟩
  have owned : ¬(readByTwo.info (pgAlign firstPage)).FetchedOverRpc 1 := fun goesOut => goesOut.1 rfl
  obtain ⟨contents, nd, fetched, unlocked, isFetch, -, full⟩ :=
    (unlocked_of_entry rfl rfl rfl fun goesOut => absurd goesOut owned :
      ∃ contents nd fetched, WrSteps threeNodes 0 firstPage 1 given (.start .entry readByTwo)
        ⟨.infoUnlocked 0 contents, nd, none, fetched ++ invalidationAnswers given [2]⟩ ∧ _)
  obtain ⟨done, toDone⟩ := done_of_unlocked nd _ fun _ => full owned (by decide)
  have acknowledged := always threeNodes 0 firstPage 1 given readByTwo rfl rfl rfl _
    (unlocked.trans toDone) rfl 2
    (by decide) (by decide)
  exact absurd (ok_of_acknowledged isFetch rfl acknowledged) nofun

end LibIvy
