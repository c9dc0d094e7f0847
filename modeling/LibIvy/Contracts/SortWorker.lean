import LibIvy.Workloads.Handshake

/-!
Contract: `sort_worker` sorts its own slice of the data.

Owns: that its loops terminate, what they leave in the slice and outside, the
elements they access, and that the sorts of different workers commute, for every
element count, every number of nodes and all values.

Does not own: when the workers run.
-/

namespace LibIvy.Contracts.SortWorker

open LibIvy.Lib Program LibIvy.Workloads LibIvy.Workloads.Psort

/-- The indices in `[id * (elems / nodes), (id + 1) * (elems / nodes))`. -/
def InSlice (mem : Mem) (id index : Nat) : Prop :=
  id * ((mem .elems).toNat / (mem .nodes).toNat) ≤ index ∧
    index < (id + 1) * ((mem .elems).toNat / (mem .nodes).toNat)

/-- The values that `contents` holds in the slice that `mem` gives a worker. -/
def slice (mem : Mem) (id : Nat) (contents : Mem) : List UInt64 :=
  (List.range' (id * ((mem .elems).toNat / (mem .nodes).toNat))
    ((mem .elems).toNat / (mem .nodes).toNat)).map fun index => contents (.data index)

/-- `after` has the slice of a worker in order, and is otherwise `mem`. -/
structure SliceSorted (mem : Mem) (id : Nat) (after : Mem) : Prop where
  ascending : ∀ lower upper, lower ≤ upper → InSlice mem id lower → InSlice mem id upper →
    after (.data lower) ≤ after (.data upper)
  perm : (slice mem id after).Perm (slice mem id mem)
  outside : ∀ loc, (∀ index, InSlice mem id index → loc ≠ .data index) → after loc = mem loc

section Slices

variable {mem after : Mem} {id other : Nat}

theorem share_eq (mem : Mem) : share mem = (mem .elems).toNat / (mem .nodes).toNat :=
  UInt64.toNat_div ..

theorem nodes_ne_zero (valid : id < (mem .nodes).toNat) : mem .nodes ≠ 0 := by
  intro zero
  rw [zero] at valid
  exact absurd valid (Nat.not_lt_zero _)

/-- The start of a slice, computed as a `size_t`, does not wrap. -/
theorem start_toNat (valid : id < (mem .nodes).toNat) :
    (mem .elems / mem .nodes * UInt64.ofNat id).toNat = share mem * id := by
  have idFits : id < 2 ^ 64 := lt_trans valid (UInt64.toNat_lt _)
  have elemsFits := UInt64.toNat_lt (mem .elems)
  have inData : share mem * id ≤ (mem .elems).toNat := by
    rw [share_eq]
    exact le_trans (Nat.mul_le_mul_left _ valid.le) (Nat.div_mul_le_self ..)
  rw [UInt64.toNat_mul, UInt64.toNat_ofNat_of_lt' idFits]
  exact Nat.mod_eq_of_lt (lt_of_le_of_lt inData elemsFits)

theorem inPart_iff {index : Nat} : InPart mem id (.data index) ↔ InSlice mem id index := by
  rw [InSlice, ← share_eq, Nat.add_mul, Nat.one_mul, Nat.mul_comm id]
  constructor
  · intro inside
    obtain ⟨offset, below, same⟩ := inside
    cases same
    omega
  · intro inside
    exact ⟨index - share mem * id, by omega, by rw [Nat.add_sub_cancel' inside.1]⟩

/-- A slice of a worker that exists is in the data. -/
theorem InSlice.lt_elems {index : Nat} (valid : id < (mem .nodes).toNat)
    (inside : InSlice mem id index) : index < (mem .elems).toNat := by
  refine lt_of_lt_of_le inside.2 (le_trans (Nat.mul_le_mul_right _ valid) ?_)
  exact Nat.mul_div_le ..

theorem InSlice.disjoint {index : Nat} (inside : InSlice mem id index)
    (within : InSlice mem other index) : id = other :=
  InPart.disjoint (inPart_iff.mpr inside) (inPart_iff.mpr within)

theorem slice_eq (mem : Mem) (id : Nat) (contents : Mem) :
    slice mem id contents =
      (List.range (share mem)).map (elementsFrom contents (share mem * id)) := by
  rw [slice, ← share_eq, Nat.mul_comm, List.range'_eq_map_range, List.map_map]
  rfl

/-- What the loops leave, in terms of the slice. -/
theorem SliceSorted.of_range (sorted : SortedRange (share mem * id) (share mem) mem after) :
    SliceSorted mem id after where
  ascending lower upper ordered lowerInside upperInside := by
    rw [← inPart_iff] at lowerInside upperInside
    obtain ⟨first, _, lowerAt⟩ := lowerInside
    obtain ⟨second, below, upperAt⟩ := upperInside
    cases lowerAt
    cases upperAt
    exact le_of_pairwise sorted.sorted (Nat.le_of_add_le_add_left ordered) below
  perm := by
    rw [slice_eq, slice_eq]
    exact sorted.perm
  outside loc notInside := by
    refine sorted.outside loc ?_
    intro inside
    obtain ⟨offset, below, same⟩ := inside
    exact notInside _ (inPart_iff.mp ⟨offset, below, rfl⟩) same

end Slices

/-! ### Several workers -/

/-- `after` has the slices of these workers in order, and is otherwise `mem`. -/
structure SlicesSorted (mem : Mem) (workers : List Nat) (after : Mem) : Prop where
  inside : ∀ id ∈ workers, Agree (InPart mem id) after (settled (mem .nodes).toNat mem)
  outside : ∀ loc, (∀ id ∈ workers, ¬InPart mem id loc) → after loc = mem loc

namespace SlicesSorted

variable {mem middle after : Mem} {workers : List Nat} {id : Nat}

theorem nil (mem : Mem) : SlicesSorted mem [] mem :=
  ⟨by simp, fun _ _ => rfl⟩

/-- What the sorts leave depends on the workers, not on their order. -/
theorem unique {reordered : List Nat} {other : Mem} (sorted : SlicesSorted mem workers after)
    (sortedToo : SlicesSorted mem reordered other)
    (same : ∀ id, id ∈ workers ↔ id ∈ reordered) : after = other := by
  funext loc
  by_cases covered : ∃ id ∈ workers, InPart mem id loc
  · obtain ⟨id, member, inside⟩ := covered
    exact (sorted.inside id member loc inside).trans
      (sortedToo.inside id ((same id).mp member) loc inside).symm
  · have free : ∀ id ∈ workers, ¬InPart mem id loc := fun id member inside =>
      covered ⟨id, member, inside⟩
    rw [sorted.outside loc free, sortedToo.outside loc fun id member =>
      free id ((same id).mpr member)]

theorem header (sorted : SlicesSorted mem workers after) :
    after .elems = mem .elems ∧ after .nodes = mem .nodes := by
  have notData : ∀ loc, (∀ index, loc ≠ .data index) → after loc = mem loc := by
    intro loc notData
    refine sorted.outside loc fun id _ inside => ?_
    obtain ⟨offset, -, same⟩ := inside
    exact notData _ same
  exact ⟨notData _ (by simp), notData _ (by simp)⟩

/-- The sort of one more worker. -/
theorem next (sorted : SlicesSorted mem workers middle) (valid : id < (mem .nodes).toNat)
    (new : id ∉ workers)
    (range : SortedRange (share middle * id) (share middle) middle after) :
    SlicesSorted mem (workers ++ [id]) after := by
  have shape : share middle = share mem := by
    rw [share, sorted.header.1, sorted.header.2, share]
  rw [shape] at range
  have untouched : Agree (InPart mem id) middle mem := by
    intro loc inside
    refine sorted.outside loc fun other member within => ?_
    exact new (InPart.disjoint inside within ▸ member)
  have before : (List.range (share mem)).map (elementsFrom middle (share mem * id)) =
      (List.range (share mem)).map (elementsFrom mem (share mem * id)) := by
    refine List.map_congr_left fun offset member => ?_
    exact untouched _ ⟨offset, List.mem_range.mp member, rfl⟩
  have own : Agree (InPart mem id) after (settled (mem .nodes).toNat mem) :=
    agree_settled_of_perm valid range.sorted (before ▸ range.perm)
  constructor
  · intro other member loc inside
    rcases List.mem_append.mp member with earlier | last
    · have elsewhere : ¬InPart mem id loc := fun within =>
        new (InPart.disjoint within inside ▸ earlier)
      rw [range.outside loc elsewhere]
      exact sorted.inside other earlier loc inside
    · obtain rfl := List.mem_singleton.mp last
      exact own loc inside
  · intro loc free
    have notOwn : ¬InPart mem id loc := free id (by simp)
    rw [range.outside loc notOwn]
    exact sorted.outside loc fun other member => free other (by simp [member])

end SlicesSorted

/-- Workers that sort one after the other have their slices sorted at the end. -/
theorem sortParts_ensures {mem : Mem} {workers : List Nat} (distinct : workers.Nodup)
    (valid : ∀ id ∈ workers, id < (mem .nodes).toNat) :
    Ensures (fun _ => True) (workers.forM sortPart) mem fun _ after =>
      SlicesSorted mem workers after := by
  have loop : Ensures (fun _ => True) (workers.forM sortPart) mem fun _ after =>
      SlicesSorted mem (workers.take workers.length) after := by
    refine Ensures.forM (fun count after => SlicesSorted mem (workers.take count) after)
      (.nil mem) ?_
    intro count inside memory sorted
    have here := valid _ (List.getElem_mem inside)
    have nonzero : memory .nodes ≠ 0 := nodes_ne_zero (by rwa [sorted.header.2])
    refine (sortPart_ensures nonzero workers[count]).mono (fun _ _ => trivial) ?_
    intro _ after range
    rw [List.take_succ_eq_append_getElem inside]
    refine sorted.next here ?_ range
    intro member
    obtain ⟨position, below, same⟩ := List.mem_take_iff_getElem.mp member
    have positions := (List.Nodup.getElem_inj_iff distinct).mp same
    omega
  simpa using loop

/-- `sort_worker` up to its signal, on any memory: a worker that exists leaves its
slice in order, changes nothing else and accesses only data of its slice; the
slices of different workers are disjoint; and workers that sort one after the
other leave the same memory in every order. -/
theorem sortPart_sorts_slice (mem : Mem) :
    (∀ id < (mem .nodes).toNat, ∃ events after, (sortPart id).Eval mem events () after ∧
        SliceSorted mem id after ∧ ∀ event ∈ events, event.Within fun loc =>
          ∀ index, loc = .data index → InSlice mem id index ∧ index < (mem .elems).toNat) ∧
      (∀ id other index, id ≠ other → InSlice mem id index → ¬InSlice mem other index) ∧
      ∀ workers reordered : List Nat, workers.Perm reordered → workers.Nodup →
        (∀ id ∈ workers, id < (mem .nodes).toNat) →
        ∃ events eventsToo after, (workers.forM sortPart).Eval mem events () after ∧
          (reordered.forM sortPart).Eval mem eventsToo () after := by
  refine ⟨?_, fun id other index different inside within => different (inside.disjoint within), ?_⟩
  · intro id valid
    obtain ⟨events, _, after, evaluated, allowed, range⟩ :=
      sortPart_ensures (nodes_ne_zero valid) id
    refine ⟨events, after, evaluated, .of_range range, fun event member => ?_⟩
    have accesses : ∀ loc, Touched mem id loc → ∀ index, loc = .data index →
        InSlice mem id index ∧ index < (mem .elems).toNat := by
      intro loc touched index same
      subst same
      have inside : InSlice mem id index := inPart_iff.mp touched
      exact ⟨inside, inside.lt_elems valid⟩
    have within := (allowed event member).1
    cases event with
    | load loc value => exact accesses loc within
    | store loc value => exact accesses loc within
    | note text => trivial
  · intro workers reordered order distinct valid
    have members : ∀ id, id ∈ workers ↔ id ∈ reordered := fun id => order.mem_iff
    obtain ⟨events, _, after, evaluated, -, sorted⟩ := sortParts_ensures distinct valid
    obtain ⟨eventsToo, _, other, evaluatedToo, -, sortedToo⟩ :=
      sortParts_ensures (order.nodup_iff.mp distinct) fun id member =>
        valid id ((members id).mpr member)
    rw [← sorted.unique sortedToo members] at evaluatedToo
    exact ⟨events, eventsToo, after, evaluated, evaluatedToo⟩

/-- Two slices of two elements and one element that no worker sorts. -/
def fiveElements : Mem
  | .elems => 5
  | .nodes => 2
  | .data 0 => 9
  | .data 1 => 3
  | .data 2 => 8
  | .data 3 => 3
  | _ => 0

theorem sortPart_sorts_slice_fiveElements :
    (∃ events after, (sortPart 1).Eval fiveElements events () after ∧
        SliceSorted fiveElements 1 after ∧ ∀ event ∈ events, event.Within fun loc =>
          ∀ index, loc = .data index →
            InSlice fiveElements 1 index ∧ index < (fiveElements .elems).toNat) ∧
      ¬InSlice fiveElements 1 0 ∧
      ∃ events eventsToo after, ([0, 1].forM sortPart).Eval fiveElements events () after ∧
        ([1, 0].forM sortPart).Eval fiveElements eventsToo () after := by
  obtain ⟨sorts, disjoint, commute⟩ := sortPart_sorts_slice fiveElements
  refine ⟨sorts 1 (by decide), disjoint 0 1 0 (by decide) (by unfold InSlice; decide), ?_⟩
  exact commute [0, 1] [1, 0] (.swap 1 0 []) (by decide) (by decide)

end LibIvy.Contracts.SortWorker
