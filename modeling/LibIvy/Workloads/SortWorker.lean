import LibIvy.Lib.ExchangeSort
import LibIvy.Workloads.Psort
import LibIvy.Workloads.Parts
import Mathlib.Data.List.Sort

/-!
Contract: what `sort_worker` does when it runs alone.

Owns: the parts of the data, the events of one worker, that its loops sort its
part in place, and that it signals completion and returns.

Does not own: the other nodes.
-/

namespace LibIvy.Workloads.Psort

open LibIvy.Lib Program ExchangeSort

/-- The elements from a position on. -/
def elementsFrom (mem : Mem) (start : Nat) : Nat → UInt64 :=
  fun offset => mem (.data (start + offset))

/-- A location of the elements in `[start, start + count)`. -/
def InRange (start count : Nat) (loc : Loc) : Prop := ∃ offset < count, loc = .data (start + offset)

/-- `after` holds the elements of `[start, start + count)` in order, and
otherwise what `before` holds. -/
structure SortedRange (start count : Nat) (before after : Mem) : Prop where
  sorted : ((List.range count).map (elementsFrom after start)).Pairwise (· ≤ ·)
  perm : ((List.range count).map (elementsFrom after start)).Perm
    ((List.range count).map (elementsFrom before start))
  outside : ∀ loc, ¬ InRange start count loc → after loc = before loc

section Loops

variable {start count : Nat}

/-- The comparison and the conditional swap perform one exchange. -/
theorem compareSwap_ensures {lower : Nat} (inside : lower + 1 < count) (mem : Mem) :
    Ensures (Effect.Within (InRange start count))
      (compareSwap (.data (start + lower)) (.data (start + (lower + 1)))) mem fun _ after =>
        elementsFrom after start = exchange (elementsFrom mem start) lower ∧
        ∀ loc, ¬ InRange start count loc → after loc = mem loc := by
  have lowerInside : InRange start count (.data (start + lower)) := ⟨lower, by omega, rfl⟩
  have upperInside : InRange start count (.data (start + (lower + 1))) := ⟨lower + 1, inside, rfl⟩
  unfold compareSwap
  refine Ensures.read_bind lowerInside (Ensures.read_bind upperInside ?_)
  split
  · rename_i less
    refine Ensures.read_bind lowerInside (Ensures.read_bind upperInside
      (Ensures.write_bind lowerInside (Ensures.write upperInside ⟨?_, fun loc outside => ?_⟩)))
    · funext offset
      have swapped : exchange (elementsFrom mem start) lower = Function.update
          (Function.update (elementsFrom mem start) lower (elementsFrom mem start (lower + 1)))
          (lower + 1) (elementsFrom mem start lower) := if_pos less
      rw [swapped]
      by_cases atUpper : offset = lower + 1
      · subst atUpper
        simp [elementsFrom]
      · by_cases atLower : offset = lower
        · subst atLower
          simp [elementsFrom]
        · simp [elementsFrom, atUpper, atLower]
    · have notLower : loc ≠ .data (start + lower) := fun same => outside (same ▸ lowerInside)
      have notUpper : loc ≠ .data (start + (lower + 1)) := fun same => outside (same ▸ upperInside)
      rw [Function.update_of_ne notUpper, Function.update_of_ne notLower]
  · rename_i ordered
    refine .pure ⟨?_, fun _ _ => rfl⟩
    have kept : exchange (elementsFrom mem start) lower = elementsFrom mem start := if_neg ordered
    rw [kept]

/-- The inner loop is one pass. -/
theorem sortPass_ensures {settled : Nat} {mem : Mem}
    (holds : Settled (elementsFrom mem start) count settled) :
    Ensures (Effect.Within (InRange start count))
      ((List.range' 1 (count - 1)).forM fun j =>
        compareSwap (.data (start + (j - 1))) (.data (start + j))) mem fun _ after =>
      Settled (elementsFrom after start) count (settled + 1) ∧
      ((List.range count).map (elementsFrom after start)).Perm
        ((List.range count).map (elementsFrom mem start)) ∧
      ∀ loc, ¬ InRange start count loc → after loc = mem loc := by
  have loop : Ensures (Effect.Within (InRange start count))
      ((List.range' 1 (count - 1)).forM fun j =>
        compareSwap (.data (start + (j - 1))) (.data (start + j))) mem fun _ after =>
      PassState (elementsFrom mem start) (elementsFrom after start) count settled
        (List.range' 1 (count - 1)).length ∧
      ∀ loc, ¬ InRange start count loc → after loc = mem loc := by
    refine Ensures.forM (fun performed after =>
      PassState (elementsFrom mem start) (elementsFrom after start) count settled performed ∧
      ∀ loc, ¬ InRange start count loc → after loc = mem loc) ⟨.start holds, fun _ _ => rfl⟩ ?_
    rintro performed inside memory ⟨passed, outside⟩
    rw [List.length_range'] at inside
    have here : (List.range' 1 (count - 1))[performed] = performed + 1 := by
      simp [Nat.add_comm]
    rw [here, Nat.add_sub_cancel]
    refine (compareSwap_ensures (by omega) memory).mono (fun _ within => within) ?_
    rintro _ after ⟨exchanged, others⟩
    refine ⟨?_, fun loc notInside => (others loc notInside).trans (outside loc notInside)⟩
    rw [exchanged]
    exact passed.next (by omega)
  refine loop.mono (fun _ within => within) fun _ after passed => ?_
  rw [List.length_range'] at passed
  exact ⟨passed.1.finish, passed.1.perm, passed.2⟩

/-- The two nested loops sort the range in place. -/
theorem sortWorkset_ensures (mem : Mem) :
    Ensures (Effect.Within (InRange start count)) (sortWorkset start count) mem fun _ after =>
      SortedRange start count mem after := by
  have loop : Ensures (Effect.Within (InRange start count)) (sortWorkset start count) mem
      fun _ after => Settled (elementsFrom after start) count (List.range count).length ∧
        ((List.range count).map (elementsFrom after start)).Perm
          ((List.range count).map (elementsFrom mem start)) ∧
        ∀ loc, ¬ InRange start count loc → after loc = mem loc := by
    refine Ensures.forM (fun passes after => Settled (elementsFrom after start) count passes ∧
        ((List.range count).map (elementsFrom after start)).Perm
          ((List.range count).map (elementsFrom mem start)) ∧
        ∀ loc, ¬ InRange start count loc → after loc = mem loc)
      ⟨settled_zero _ _, .refl _, fun _ _ => rfl⟩ ?_
    rintro passes - memory ⟨settled, perm, outside⟩
    refine (sortPass_ensures settled).mono (fun _ within => within) ?_
    rintro _ after ⟨more, permNext, others⟩
    exact ⟨more, permNext.trans perm, fun loc notInside =>
      (others loc notInside).trans (outside loc notInside)⟩
  refine loop.mono (fun _ within => within) ?_
  rintro _ after ⟨settled, perm, outside⟩
  rw [List.length_range] at settled
  exact ⟨settled.pairwise, perm, outside⟩

end Loops

/-! ### One worker -/

/-- The length of a part, as a worker computes it. -/
def share (mem : Mem) : Nat := (mem .elems / mem .nodes).toNat

/-- The elements of the part of a worker. -/
def InPart (mem : Mem) (id : Nat) : Loc → Prop := InRange (share mem * id) (share mem)

/-- The locations a worker loads or stores. -/
def Touched (mem : Mem) (id : Nat) : Loc → Prop
  | .canary _ => True
  | .elems => True
  | .ready => True
  | .nodes => True
  | .done worker => worker = id
  | .data index => InPart mem id (.data index)

/-- The events of a worker before it signals completion. -/
def PartEvent (mem : Mem) (id : Nat) (event : Effect Loc UInt64 Note) : Prop :=
  event.Within (Touched mem id) ∧ event.StoresWithin (InPart mem id)

theorem InPart.touched {mem : Mem} {id : Nat} {loc : Loc} (inside : InPart mem id loc) :
    Touched mem id loc := by
  obtain ⟨offset, below, rfl⟩ := inside
  exact ⟨offset, below, rfl⟩

theorem PartEvent.of_within {mem : Mem} {id : Nat} {event : Effect Loc UInt64 Note}
    (within : event.Within (InPart mem id)) : PartEvent mem id event := by
  cases event with
  | load => exact ⟨InPart.touched within, trivial⟩
  | store => exact ⟨InPart.touched within, within⟩
  | note => exact ⟨trivial, trivial⟩

theorem assertValid_bind {mem memory : Mem} {id : Nat} {rest : Prog Unit} {post : Unit → Mem → Prop}
    (next : Ensures (PartEvent mem id) rest memory post) :
    Ensures (PartEvent mem id) (assertValid >>= fun _ => rest) memory post := by
  have check : Ensures (PartEvent mem id) assertValid memory fun _ after => after = memory := by
    refine (assertValid_ensures memory).mono ?_ fun _ _ same => same
    rintro _ ⟨index, value, rfl⟩
    exact ⟨trivial, trivial⟩
  refine check.bind fun _ after same => ?_
  rwa [same]

/-- The worker sorts its part and changes nothing else. -/
theorem sortPart_ensures {mem : Mem} (nonzero : mem .nodes ≠ 0) (id : Nat) :
    Ensures (PartEvent mem id) (sortPart id) mem fun _ after =>
      SortedRange (share mem * id) (share mem) mem after := by
  unfold sortPart
  refine assertValid_bind (Ensures.read_bind ⟨trivial, trivial⟩
    (Ensures.read_bind ⟨trivial, trivial⟩ (assertValid_bind (Ensures.read_bind ⟨trivial, trivial⟩ ?_))))
  rw [divide, if_neg nonzero]
  change Ensures _ (sortWorkset (share mem * id) (share mem) >>= fun _ => assertValid) mem _
  have sort : Ensures (PartEvent mem id) (sortWorkset (share mem * id) (share mem)) mem
      fun _ after => SortedRange (share mem * id) (share mem) mem after :=
    (sortWorkset_ensures mem).mono (fun _ within => .of_within within) fun _ _ sorted => sorted
  refine sort.bind fun _ after sorted => ?_
  have last : Ensures (PartEvent mem id) (assertValid >>= fun _ => pure ()) after fun _ final =>
      SortedRange (share mem * id) (share mem) mem final := assertValid_bind (.pure sorted)
  simpa using last

/-- The busy waiting ends at once when `ready` is set. -/
theorem awaitReady_eval {mem : Mem} (ready : mem .ready ≠ 0) :
    awaitReady.Eval mem [.load .ready (mem .ready)] () mem := by
  have leaves : (mem .ready == 0) = false := beq_false_of_ne ready
  have test : Eval (do return (← read .ready) == 0 : Prog Bool) mem
      ([.load .ready (mem .ready)] ++ []) (mem .ready == 0) mem :=
    (Eval.read _ mem).bind (.pure _ mem)
  rw [leaves] at test
  exact .whileDo_exit test

/-- A worker that finds `ready` set sorts its part, signals completion and
returns. -/
theorem sortWorker_ensures {mem : Mem} (ready : mem .ready ≠ 0) (nonzero : mem .nodes ≠ 0)
    (id : Nat) :
    Ensures (fun _ => True) (sortWorker id) mem fun _ after => after .elems = mem .elems ∧
      after .ready = mem .ready ∧ after .nodes = mem .nodes := by
  have fixed : ∀ loc, (∀ index, loc ≠ .data index) → ¬ InPart mem id loc := by
    rintro loc notData ⟨offset, -, same⟩
    exact notData _ same
  have await : Ensures (fun _ => True) awaitReady mem fun _ after => after = mem :=
    ⟨_, _, _, awaitReady_eval ready, fun _ _ => trivial, rfl⟩
  refine await.bind fun _ memory same => ?_
  rw [same]
  refine ((sortPart_ensures nonzero id).mono (fun _ _ => trivial) fun _ _ sorted => sorted).bind ?_
  intro _ after sorted
  refine Ensures.write_bind trivial ?_
  refine (assertValid_ensures _).mono (fun _ _ => trivial) ?_
  intro _ final same
  subst same
  have elems := sorted.outside .elems (fixed _ (by simp))
  have ready := sorted.outside .ready (fixed _ (by simp))
  have nodes := sorted.outside .nodes (fixed _ (by simp))
  simp [elems, ready, nodes]

end LibIvy.Workloads.Psort
