import LibIvy.Common
import LibIvy.Lib.NumberText

/-!
Contract: the request bodies of the four RPC functions.

Owns: the encoders written at the call sites and the parsing done by the four
adapters, with the law that each adapter reads what its callers write for every
64-bit address and node id.

Does not own: what the handlers do with the parsed request.
-/

namespace LibIvy

open Lib NumberText

/-- The functions registered with the RPC server. -/
inductive RpcName where
  | getRdPageFromManager
  | getWrPageFromManager
  | fetchPg
  | invalidatePg
deriving DecidableEq, Repr

/-- `addr_str + ":" + std::to_string(this->id)` of both `get_*_page_from_mngr`. -/
def pageRequest (addrUl : Addr) (id : NodeId) : Text :=
  toText addrUl ++ ':' :: toText id

/-- `std::to_string(addr_val) + ":rd"` of `serv_rd_rq`. -/
def fetchRdRequest (addrVal : Addr) : Text := toText addrVal ++ ':' :: ['r', 'd']

/-- `std::to_string(addr_val) + ":none"` of `serv_wr_rq`. -/
def fetchNoneRequest (addrVal : Addr) : Text := toText addrVal ++ ':' :: ['n', 'o', 'n', 'e']

/-- `std::to_string(addr_ul)` of `send_invalidations`. -/
def invalidateRequest (addrUl : Addr) : Text := toText addrUl

/-- What `serv_rd_rq_adapter` and `serv_wr_rq_adapter` pass on: the aligned
address and the requesting node. -/
def parsePageRequest (body : Text) : Option (Addr × NodeId) := do
  let parts := splitAtFirst ':' body
  let addrUl ← stoul 10 parts.1
  let reqNode ← stoul 10 parts.2
  return (pgAlign addrUl, reqNode)

/-- What `fetch_pg_adapter` passes on; an unknown access throws. -/
def parseFetchRequest (body : Text) : Option (Addr × AccessType) := do
  let parts := splitAtFirst ':' body
  let access ←
    if parts.2 = ['r', 'd'] then some AccessType.rd
    else if parts.2 = ['n', 'o', 'n', 'e'] then some AccessType.none
    else none
  let addrUl ← stoul 10 parts.1
  return (addrUl, access)

/-- No other access is ever passed on. -/
theorem parseFetchRequest_access {body : Text} {addr : Addr} {access : AccessType}
    (parsed : parseFetchRequest body = some (addr, access)) : access = .rd ∨ access = .none := by
  simp only [parseFetchRequest, Option.bind_eq_bind] at parsed
  split at parsed
  · simp only [Option.bind_some, Option.bind_eq_some_iff] at parsed
    obtain ⟨_, _, same⟩ := parsed
    exact .inl (Prod.mk.inj (Option.some.inj same)).2.symm
  · split at parsed
    · simp only [Option.bind_some, Option.bind_eq_some_iff] at parsed
      obtain ⟨_, _, same⟩ := parsed
      exact .inr (Prod.mk.inj (Option.some.inj same)).2.symm
    · contradiction

/-- `pg_align(std::stoul(addr, nullptr, 10))` of `invalidate_adapter`. -/
def parseInvalidateRequest (body : Text) : Option Addr := do
  let addrUl ← stoul 10 body
  return pgAlign addrUl

private theorem split_toText (addr : Addr) (rest : Text) :
    splitAtFirst ':' (toText addr ++ ':' :: rest) = (toText addr, rest) :=
  splitAtFirst_append (separator_not_mem_toText addr)

/-- Page requests survive the wire. -/
theorem parsePageRequest_pageRequest {addrUl : Addr} {id : NodeId}
    (addrFits : addrUl < wordCount) (idFits : id < wordCount) :
    parsePageRequest (pageRequest addrUl id) = some (pgAlign addrUl, id) := by
  simp [parsePageRequest, pageRequest, split_toText, stoul_toText addrFits, stoul_toText idFits]

/-- Whatever the address, a request is passed on for the node that made it. -/
theorem reqNode_of_pageRequest {addrUl addr : Addr} {id reqNode : NodeId} (idFits : id < wordCount)
    (parsed : parsePageRequest (pageRequest addrUl id) = some (addr, reqNode)) : reqNode = id := by
  simp only [parsePageRequest, pageRequest, split_toText, stoul_toText idFits, Option.bind_eq_bind,
    Option.bind_some, Option.bind_eq_some_iff, Option.pure_def, Option.some.injEq,
    Prod.mk.injEq] at parsed
  obtain ⟨_, -, -, rfl⟩ := parsed
  rfl

/-- Fetch requests of the read path survive the wire. -/
theorem parseFetchRequest_rd {addrVal : Addr} (fits : addrVal < wordCount) :
    parseFetchRequest (fetchRdRequest addrVal) = some (addrVal, .rd) := by
  simp [parseFetchRequest, fetchRdRequest, split_toText, stoul_toText fits]

/-- Fetch requests of the write path survive the wire. -/
theorem parseFetchRequest_none {addrVal : Addr} (fits : addrVal < wordCount) :
    parseFetchRequest (fetchNoneRequest addrVal) = some (addrVal, .none) := by
  simp [parseFetchRequest, fetchNoneRequest, split_toText, stoul_toText fits]

/-- Invalidations survive the wire. -/
theorem parseInvalidateRequest_invalidateRequest {addrUl : Addr} (fits : addrUl < wordCount) :
    parseInvalidateRequest (invalidateRequest addrUl) = some (pgAlign addrUl) := by
  simp [parseInvalidateRequest, invalidateRequest, stoul_toText fits]

end LibIvy
