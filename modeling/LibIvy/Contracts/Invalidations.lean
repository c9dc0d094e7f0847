import LibIvy.Contracts.Acknowledged
import LibIvy.Runtime.Invalidations

/-!
Contract: which nodes `send_invalidations` has called when it returns.

Owns: the law of its result and its calls for every list of nodes and every
outcome of the calls, and the fact that the positions of `serv_wr_rq` make these
calls.

Does not own: what `serv_wr_rq` does with the result (it does not use it).
-/

namespace LibIvy

open Lib

section Contract

variable {addr : Addr} {nodes : List NodeId} {post : Nat → PostOutcome}

/-- When all nodes answer `ok`, all of them are called and no error is returned. -/
theorem sendInvalidations_of_allOk
    (allOk : ∀ position, position < nodes.length → (post position).AnsweredOk) :
    sendInvalidations addr nodes post = ⟨nodes.map (invalidation addr), none⟩ := by
  have whole : sendInvalidations addr (nodes ++ []) post = _ := sendInvalidations_append [] allOk
  simpa [sendInvalidations] using whole

/-- A node that does not answer `ok` is the last one called. -/
theorem sendInvalidations_of_firstFailed {front : List NodeId} {node : NodeId} (rest : List NodeId)
    (frontOk : ∀ position, position < front.length → (post position).AnsweredOk)
    (failed : ¬(post front.length).AnsweredOk) :
    sendInvalidations addr (front ++ node :: rest) post =
      ⟨(front ++ [node]).map (invalidation addr), some ((post front.length).failure node)⟩ := by
  rw [sendInvalidations_append _ frontOk, sendInvalidations_of_failed failed]
  simp

end Contract

/-- No error is returned exactly when every call made is answered `ok`, and then
every listed node has been called, once per occurrence and in order. Otherwise the
calls end with the first one that is not answered `ok`. -/
theorem sendInvalidations_contract (addr : Addr) (nodes : List NodeId) (post : Nat → PostOutcome) :
    ((sendInvalidations addr nodes post).err = none ↔
        ∀ position, position < (sendInvalidations addr nodes post).calls.length →
          (post position).AnsweredOk) ∧
      ((sendInvalidations addr nodes post).err = none →
        (sendInvalidations addr nodes post).calls = nodes.map (invalidation addr)) ∧
      ∀ err, (sendInvalidations addr nodes post).err = some err →
        ∃ front node rest, nodes = front ++ node :: rest ∧
          (∀ position, position < front.length → (post position).AnsweredOk) ∧
          ¬(post front.length).AnsweredOk ∧ err = (post front.length).failure node ∧
          (sendInvalidations addr nodes post).calls =
            (front ++ [node]).map (invalidation addr) := by
  rcases allOk_or_firstFailed nodes post with allOk | ⟨front, node, rest, rfl, frontOk, failed⟩
  · rw [sendInvalidations_of_allOk allOk]
    refine ⟨iff_of_true rfl ?_, fun _ => rfl, fun err returned => absurd returned (by simp)⟩
    simpa using allOk
  · rw [sendInvalidations_of_firstFailed rest frontOk failed]
    refine ⟨iff_of_false (by simp) ?_, fun returned => absurd returned (by simp), ?_⟩
    · intro answered
      exact failed (answered front.length (by simp))
    · intro err returned
      cases returned
      exact ⟨front, node, rest, rfl, frontOk, failed, rfl, rfl⟩

/-! ### Inside `serv_wr_rq` -/

/-- What the `Post` comes to when a node answers with this body, or not at all. -/
def PostOutcome.ofBody : Option Text → PostOutcome
  | some body => .response 200 body
  | none => .threw

/-- The outcomes by position, for calls whose outcomes are given by node. -/
def CallOutcomes.post (given : CallOutcomes) (nodes : List NodeId) (position : Nat) : PostOutcome :=
  PostOutcome.ofBody (nodes[position]?.bind given.invalidate)

theorem CallOutcomes.post_succ (given : CallOutcomes) (node : NodeId) (nodes : List NodeId) :
    (fun position => given.post (node :: nodes) (position + 1)) = given.post nodes := rfl

/-- The answer to a call, when there is one. -/
def CallOutcomes.answer (given : CallOutcomes) (made : RpcCall) : Option (NodeId × RpcName × Reply) :=
  (given.invalidate made.nodeId).map fun body => (made.nodeId, made.name, .text body)

/-- The answers that `serv_wr_rq` gets are those to the calls of
`send_invalidations`. -/
theorem invalidationAnswers_eq (given : CallOutcomes) (addr : Addr) (nodes : List NodeId) :
    invalidationAnswers given nodes =
      (sendInvalidations addr nodes (given.post nodes)).calls.filterMap given.answer := by
  induction nodes with
  | nil => rfl
  | cons node nodes inductionHypothesis =>
      have here : given.post (node :: nodes) 0 = PostOutcome.ofBody (given.invalidate node) := rfl
      cases body : given.invalidate node with
      | none =>
          have failed : ¬(given.post (node :: nodes) 0).AnsweredOk := by
            simp [here, body, PostOutcome.ofBody, PostOutcome.AnsweredOk]
          rw [sendInvalidations_of_failed failed]
          simp [invalidationAnswers, body, CallOutcomes.answer, invalidation]
      | some text =>
          have outcome : (given.post (node :: nodes) 0).AnsweredOk ↔ text = ['o', 'k'] := by
            simp [here, body, PostOutcome.ofBody, PostOutcome.AnsweredOk]
          by_cases isOk : text = ['o', 'k']
          · rw [sendInvalidations_of_ok (outcome.mpr isOk), CallOutcomes.post_succ]
            simp [invalidationAnswers, body, isOk, Reply.isOk, CallOutcomes.answer, invalidation,
              inductionHypothesis]
          · rw [sendInvalidations_of_failed (mt outcome.mp isOk)]
            simp [invalidationAnswers, body, isOk, Reply.isOk, CallOutcomes.answer, invalidation]

/-- From the head of the loop, `serv_wr_rq` makes the calls of
`send_invalidations` for its reader set and goes on to the commit. -/
theorem sent_of_sendInvalidations {cfg : Config} {self : NodeId} {addr : Addr} {reqNode : NodeId}
    (given : CallOutcomes) (ownerNode : NodeId) (contents : Reply) (nodes : List NodeId)
    (node : Node) (answers : List (NodeId × RpcName × Reply)) :
    WrSteps cfg self addr reqNode given ⟨.invalidating ownerNode contents nodes, node, none, answers⟩
      ⟨.sent ownerNode contents, node, none,
        answers ++ (sendInvalidations addr nodes (given.post nodes)).calls.filterMap given.answer⟩ := by
  rw [← invalidationAnswers_eq]
  exact sent_of_invalidating ownerNode contents nodes node answers

end LibIvy
