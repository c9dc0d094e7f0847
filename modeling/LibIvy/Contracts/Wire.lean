import LibIvy.Runtime.Handlers

/-!
Contract: what is put on the wire is what is taken from it.

Owns: the round trips of the request bodies of all calls, from the statement that
makes the call to the job that the adapter starts, and of page contents in reply
bodies.

Does not own: bodies that no node of the system sends.
-/

namespace LibIvy

open Lib NumberText

/-! ### Requests -/

/-- What the adapter of a called function passes on; `none` when it throws or the
statement is no call. -/
def Stmt.decoded? {σ : Type} : Stmt σ → Option (Addr × Job)
  | .call _ fn body _ => fn.accept body
  | _ => none

@[simp] theorem Stmt.decoded?_ite {σ : Type} (condition : Prop) [Decidable condition]
    (first second : Stmt σ) :
    (if condition then first else second).decoded? =
      if condition then first.decoded? else second.decoded? := by
  split <;> rfl

/-- Every request body, for every 64-bit address and node id, is decoded to the
aligned address together with what its sender asks for: the request of a fault to
its node id, the fetch of a read request to read access, the fetch of a write
request to no access. -/
theorem payloads_decoded (cfg : Config) (self : NodeId) (addr id : UInt64) :
    (∀ rq, (faultHdlr cfg rq id.toNat addr.toNat .locked).decoded? =
      some (pgAlign addr.toNat, rq.job id.toNat)) ∧
    (∀ ownerNode, (servRdRq cfg self addr.toNat id.toNat (.gotOwner ownerNode)).decoded? =
      some (pgAlign addr.toNat, .fetch .rd .entry)) ∧
    (∀ ownerNode ivldSet,
      (servWrRq cfg self addr.toNat id.toNat (.erased ownerNode ivldSet)).decoded? =
        if ownerNode ≠ 0 ∧ ownerNode = id.toNat then none
        else some (pgAlign addr.toNat, .fetch .none .entry)) ∧
    (∀ ownerNode pageContents node nodes,
      (servWrRq cfg self addr.toNat id.toNat
        (.invalidating ownerNode pageContents (node :: nodes))).decoded? =
        some (pgAlign addr.toNat, .invalidate .entry)) := by
  have addrFits : addr.toNat < wordCount := addr.toNat_lt
  have idFits : id.toNat < wordCount := id.toNat_lt
  have aligned : pgAlign addr.toNat < wordCount := pgAlign_lt addrFits
  refine ⟨fun rq => ?_, fun ownerNode => ?_, fun ownerNode ivldSet => ?_, fun _ _ node nodes => ?_⟩
  · have request := parsePageRequest_pageRequest aligned idFits
    rw [pgAlign_pgAlign] at request
    cases rq <;>
      simp [faultHdlr, rdFaultHdlr, wrFaultHdlr, Stmt.decoded?, RpcName.accept, request, Rq.job]
  · simp only [servRdRq, Stmt.decoded?_ite]
    simp [Stmt.decoded?, RpcName.accept, parseFetchRequest_rd aligned]
  · simp only [servWrRq, Stmt.decoded?_ite]
    by_cases manager : ownerNode = 0
    · simp [manager, Stmt.decoded?, RpcName.accept, parseFetchRequest_none aligned]
    · by_cases keeps : ownerNode = id.toNat
      · subst keeps
        simp [manager, Stmt.decoded?]
      · simp [manager, keeps, Stmt.decoded?, RpcName.accept, parseFetchRequest_none aligned]
  · simp [servWrRq, Stmt.decoded?, RpcName.accept, parseInvalidateRequest_invalidateRequest addrFits]

/-! ### Pages -/

/-- Every array of `char` is written as twice as many hexadecimal digits, which
pass through `c_str()` and are read back as the same array; and every text of
whole pairs of such digits is what is written for the array read from it. -/
theorem page_codec_round_trip :
    (∀ arr : List Int8, (toHexChars arr).length = 2 * arr.length ∧
      (∀ c ∈ toHexChars arr, c ∈ hexAlphabet) ∧ throughCStr (toHexChars arr) = toHexChars arr ∧
      fromHexChars (toHexChars arr) = some arr) ∧
    (∀ s : Text, s.length % 2 = 0 → (∀ c ∈ s, c ∈ hexAlphabet) →
      ∃ arr, fromHexChars s = some arr ∧ arr.length = s.length / 2 ∧ toHexChars arr = s) := by
  constructor
  · intro arr
    have digits := toHex_alphabet (arr.map Int8.toUInt8)
    refine ⟨?_, digits, throughCStr_of_alphabet digits, ?_⟩
    · rw [toHexChars, length_toHex, List.length_map]
    · have same : UInt8.toInt8 ∘ Int8.toUInt8 = id := by
        funext c
        simp
      simp [fromHexChars, toHexChars, fromHex_toHex, same]
  · intro s even digits
    obtain ⟨bytes, read, length, written⟩ := toHex_fromHex even digits
    refine ⟨bytes.map UInt8.toInt8, ?_, ?_, ?_⟩
    · rw [fromHexChars, read, Option.map_some]
    · rw [List.length_map, length]
    · rw [toHexChars, List.map_map]
      have same : Int8.toUInt8 ∘ UInt8.toInt8 = id := by
        funext byte
        simp
      rw [same, List.map_id, written]

end LibIvy
