import LibIvy.Wire.Requests

/-!
Contract: the loop of `send_invalidations` by itself.

Owns: what `RpcServer::call` makes of the outcome of its `Post`, the calls that
`send_invalidations` makes and the error it returns.

Does not own: what the called nodes do, how the result is used.

The outcome of every call is given from outside by the position of the call, so
two calls to one node may come to different outcomes.
-/

namespace LibIvy

open Lib NumberText

/-- What `Post` comes to: a response, a result without one, or an exception. -/
inductive PostOutcome where
  | response (status : Nat) (body : Text)
  | error (code : Nat)
  | threw

/-- The call is answered `ok`. -/
def PostOutcome.AnsweredOk : PostOutcome → Prop
  | .response _ body => body = ['o', 'k']
  | .error _ => False
  | .threw => False

/-- `res_t<string>`. -/
structure CallResult where
  resp : Text
  err : Option Text

def rpcFailed : Text := "RPC failed".toList

/-- `RpcServer::call` by the outcome of its `Post`. The status of a response is
not looked at. -/
def RpcServer.call : PostOutcome → CallResult
  | .response _ body => ⟨body, none⟩
  | .error _ => ⟨[], some rpcFailed⟩
  | .threw => ⟨[], some rpcFailed⟩

/-- The arguments of one `RpcServer::call`. -/
structure RpcCall where
  nodeId : NodeId
  name : RpcName
  buf : Text

/-- The call that `send_invalidations(addr, …)` makes for one node. -/
def invalidation (addr : Addr) (node : NodeId) : RpcCall :=
  ⟨node, .invalidatePg, invalidateRequest addr⟩

def invalidationFailed (node : NodeId) : Text :=
  "Invalidation failed for node ".toList ++ toText node

/-- The calls made, in order, and the returned `mres_t`. -/
structure Sent where
  calls : List RpcCall
  err : Option Text

/-- `send_invalidations(addr, nodes)`, where `post position` is what the `Post` of
the call at `position` comes to. -/
def sendInvalidations (addr : Addr) : List NodeId → (Nat → PostOutcome) → Sent
  | [], _ => ⟨[], none⟩
  | node :: nodes, post =>
      let result := RpcServer.call (post 0)
      match result.err with
      | some err => ⟨[invalidation addr node], some err⟩
      | none =>
          if result.resp ≠ ['o', 'k'] then
            ⟨[invalidation addr node], some (invalidationFailed node)⟩
          else
            let rest := sendInvalidations addr nodes fun position => post (position + 1)
            ⟨invalidation addr node :: rest.calls, rest.err⟩

/-- The error for a call that is not answered `ok`. -/
def PostOutcome.failure (node : NodeId) : PostOutcome → Text
  | .response _ _ => invalidationFailed node
  | .error _ => rpcFailed
  | .threw => rpcFailed

section Loop

variable {addr : Addr} {node : NodeId} {nodes : List NodeId} {post : Nat → PostOutcome}

/-- After an `ok` the loop goes on with the next node. -/
theorem sendInvalidations_of_ok (answered : (post 0).AnsweredOk) :
    sendInvalidations addr (node :: nodes) post =
      ⟨invalidation addr node ::
          (sendInvalidations addr nodes fun position => post (position + 1)).calls,
        (sendInvalidations addr nodes fun position => post (position + 1)).err⟩ := by
  cases outcome : post 0 with
  | response status body =>
      rw [outcome] at answered
      obtain rfl : body = ['o', 'k'] := answered
      rw [sendInvalidations, outcome]
      rfl
  | error code =>
      rw [outcome] at answered
      exact absurd answered id
  | threw =>
      rw [outcome] at answered
      exact absurd answered id

/-- Any other outcome ends the loop with its error. -/
theorem sendInvalidations_of_failed (failed : ¬(post 0).AnsweredOk) :
    sendInvalidations addr (node :: nodes) post =
      ⟨[invalidation addr node], some ((post 0).failure node)⟩ := by
  cases outcome : post 0 with
  | response status body =>
      rw [outcome] at failed
      rw [sendInvalidations, outcome]
      exact if_pos failed
  | error code =>
      rw [sendInvalidations, outcome]
      rfl
  | threw =>
      rw [sendInvalidations, outcome]
      rfl

/-- Nodes that all answer `ok` are called one after the other, then the loop is
where it would be at the start of the other nodes. -/
theorem sendInvalidations_append {front : List NodeId} (rest : List NodeId)
    (answered : ∀ position, position < front.length → (post position).AnsweredOk) :
    sendInvalidations addr (front ++ rest) post =
      ⟨front.map (invalidation addr) ++
          (sendInvalidations addr rest fun position => post (front.length + position)).calls,
        (sendInvalidations addr rest fun position => post (front.length + position)).err⟩ := by
  induction front generalizing post with
  | nil => simp
  | cons node front inductionHypothesis =>
      have later : ∀ position, position < front.length → (post (position + 1)).AnsweredOk :=
        fun position below => answered _ (Nat.succ_lt_succ below)
      have shift : ∀ position, front.length + position + 1 = (node :: front).length + position := by
        intro position
        simp only [List.length_cons]
        omega
      rw [List.cons_append, sendInvalidations_of_ok (answered 0 (Nat.zero_lt_succ _)),
        inductionHypothesis later]
      simp only [shift, List.map_cons, List.cons_append]

end Loop

/-- Either every node answers `ok`, or there is a first one that does not. -/
theorem allOk_or_firstFailed (nodes : List NodeId) (post : Nat → PostOutcome) :
    (∀ position, position < nodes.length → (post position).AnsweredOk) ∨
      ∃ front node rest, nodes = front ++ node :: rest ∧
        (∀ position, position < front.length → (post position).AnsweredOk) ∧
        ¬(post front.length).AnsweredOk := by
  induction nodes generalizing post with
  | nil => exact .inl fun position below => absurd below (Nat.not_lt_zero _)
  | cons node nodes inductionHypothesis =>
      by_cases answered : (post 0).AnsweredOk
      · rcases inductionHypothesis fun position => post (position + 1) with
          allOk | ⟨front, failed, rest, rfl, frontOk, notOk⟩
        · refine .inl fun position below => ?_
          cases position with
          | zero => exact answered
          | succ position => exact allOk position (Nat.lt_of_succ_lt_succ below)
        · refine .inr ⟨node :: front, failed, rest, rfl, fun position below => ?_, notOk⟩
          cases position with
          | zero => exact answered
          | succ position => exact frontOk position (Nat.lt_of_succ_lt_succ below)
      · exact .inr ⟨[], node, nodes, rfl, fun position below => absurd below (Nat.not_lt_zero _),
          answered⟩

end LibIvy
