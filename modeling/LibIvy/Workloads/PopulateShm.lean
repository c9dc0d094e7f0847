import LibIvy.Workloads.Psort

/-!
Contract: what `populate_shm` stores before it signals `ready`.

Owns: its stores in order, that it evaluates to them from any memory, what of the
input they leave there, and the memory that the signal publishes.

Does not own: the other nodes.
-/

namespace LibIvy.Workloads.Psort

open LibIvy.Lib Program

section Populate

variable (nodesWorker : UInt64) (input : Input)

/-- The `memset`. -/
def zeroStores : List (Loc × UInt64) :=
  (regionLocs nodesWorker (regionSz input.elems).toNat).map fun loc => (loc, 0)

/-- The numbers of the input file. -/
def numberStores : List (Loc × UInt64) :=
  input.numbers.zipIdx.map fun entry => (.data entry.2, entry.1.toInt64.toUInt64)

def flagStores : List (Loc × UInt64) :=
  (List.range nodesWorker.toNat).map fun i => (.done i, 0)

def canaryStores : List (Loc × UInt64) :=
  canaryVal.zipIdx.map fun entry => (.canary entry.2, entry.1)

/-- The stores to the header, in order. -/
def headerStores : List (Loc × UInt64) :=
  [(.elems, input.elems), (.ready, 0)] ++
    (flagStores nodesWorker ++ ([(.nodes, nodesWorker)] ++ canaryStores))

/-- All stores of `populate_shm` before the signal. -/
def fillStores : List (Effect Loc UInt64 Note) :=
  Effect.stores
    (zeroStores nodesWorker input ++ (numberStores input ++ headerStores nodesWorker input))

/-- The memory that the signal publishes. -/
def publishedMem : Mem
  | .canary index => canaryVal.getD index 0
  | .elems => input.elems
  | .ready => 1
  | .done _ => 0
  | .nodes => nodesWorker
  | .data index => (input.numbers[index]?).elim 0 fun number => number.toInt64.toUInt64

/-- The memory just before the signal. -/
def filledMem : Mem := Effect.applyAll (fun _ => 0) (fillStores nodesWorker input)

theorem fillShm_eval_from (mem : Mem) :
    (fillShm nodesWorker input).Eval mem (fillStores nodesWorker input) ()
      (Effect.applyAll mem (fillStores nodesWorker input)) := by
  have evaluated : ∃ after, (fillShm nodesWorker input).Eval mem
      (Effect.stores (zeroStores nodesWorker input) ++ (Effect.stores (numberStores input) ++
        ([.store .elems input.elems] ++ ([.store .ready 0] ++ (Effect.stores (flagStores nodesWorker) ++
          ([.store .nodes nodesWorker] ++ Effect.stores canaryStores)))))) () after :=
    ⟨_, .bind (.forM_write _ (fun loc : Loc => (loc, (0 : UInt64))) _) <|
      .bind (.forM_write _ (fun entry : Int32 × Nat =>
        (Loc.data entry.2, entry.1.toInt64.toUInt64)) _) <|
      .bind (.write _ _ _) <| .bind (.write _ _ _) <|
      .bind (.forM_write _ (fun i : Nat => (Loc.done i, (0 : UInt64))) _) <|
      .bind (.write _ _ _) <|
      .forM_write _ (fun entry : UInt64 × Nat => (Loc.canary entry.2, entry.1)) _⟩
  obtain ⟨after, evaluated⟩ := evaluated
  have events : fillStores nodesWorker input =
      Effect.stores (zeroStores nodesWorker input) ++ (Effect.stores (numberStores input) ++
        ([.store .elems input.elems] ++ ([.store .ready 0] ++ (Effect.stores (flagStores nodesWorker) ++
          ([.store .nodes nodesWorker] ++ Effect.stores canaryStores))))) := by
    simp only [fillStores, headerStores, Effect.stores_append]
    rfl
  rw [← events] at evaluated
  rwa [evaluated.after_eq] at evaluated

theorem fillShm_eval :
    (fillShm nodesWorker input).Eval (fun _ => 0) (fillStores nodesWorker input) ()
      (filledMem nodesWorker input) :=
  fillShm_eval_from nodesWorker input fun _ => 0

variable {nodesWorker input}

/-- The last part of the stores decides about the locations it hits. -/
theorem filled_suffix {mem : Mem} {before after : List (Loc × UInt64)} {loc : Loc} {value : UInt64}
    (split : zeroStores nodesWorker input ++ (numberStores input ++ headerStores nodesWorker input) =
      before ++ after) (same : ∀ entry ∈ after, entry.1 = loc → entry.2 = value)
    (hit : ∃ entry ∈ after, entry.1 = loc) :
    Effect.applyAll mem (fillStores nodesWorker input) loc = value := by
  rw [fillStores, split, Effect.stores_append, Effect.applyAll_append]
  exact Effect.applyAll_stores same (.inr hit)

/-- A location that is only zeroed holds zero. -/
theorem filledMem_zero {loc : Loc}
    (number : ∀ entry ∈ numberStores input, entry.1 = loc → entry.2 = 0)
    (header : ∀ entry ∈ headerStores nodesWorker input, entry.1 = loc → entry.2 = 0) :
    filledMem nodesWorker input loc = 0 := by
  refine Effect.applyAll_stores (fun entry member isLoc => ?_) (.inl rfl)
  rcases List.mem_append.mp member with zeroed | later
  · obtain ⟨_, -, rfl⟩ := List.mem_map.mp zeroed
    rfl
  · rcases List.mem_append.mp later with inNumbers | inHeader
    · exact number entry inNumbers isLoc
    · exact header entry inHeader isLoc

theorem numberStores_data {entry : Loc × UInt64} (member : entry ∈ numberStores input) :
    ∃ index number, input.numbers[index]? = some number ∧
      entry = (.data index, number.toInt64.toUInt64) := by
  obtain ⟨⟨number, index⟩, inInput, rfl⟩ := List.mem_map.mp member
  exact ⟨index, number, (List.mem_zipIdx_iff_getElem?.mp inInput), rfl⟩

theorem mem_numberStores {index : Nat} {number : Int32}
    (found : input.numbers[index]? = some number) :
    (.data index, number.toInt64.toUInt64) ∈ numberStores input :=
  List.mem_map.mpr ⟨(number, index), List.mem_zipIdx_iff_getElem?.mpr found, rfl⟩

theorem mem_headerStores {entry : Loc × UInt64} :
    entry ∈ headerStores nodesWorker input ↔ entry = (.elems, input.elems) ∨ entry = (.ready, 0) ∨
      (∃ id < nodesWorker.toNat, entry = (.done id, 0)) ∨ entry = (.nodes, nodesWorker) ∨
      ∃ byte index, canaryVal[index]? = some byte ∧ entry = (.canary index, byte) := by
  simp [headerStores, flagStores, canaryStores, List.mem_zipIdx_iff_getElem?, eq_comm]

/-- The values that the header's stores put into a location. -/
theorem headerStores_value {entry : Loc × UInt64}
    (member : entry ∈ headerStores nodesWorker input) :
    entry.2 = if entry.1 = .ready then 0 else publishedMem nodesWorker input entry.1 := by
  rcases mem_headerStores.mp member with rfl | rfl | ⟨_, -, rfl⟩ | rfl | ⟨byte, index, found, rfl⟩
  · rfl
  · rfl
  · rfl
  · rfl
  · simp [publishedMem, List.getD_eq_getElem?_getD, found]

/-- Only the signal sets `ready`. -/
theorem fillStores_ready {value : UInt64}
    (member : .store .ready value ∈ fillStores nodesWorker input) : value = 0 := by
  obtain ⟨entry, inStores, same⟩ := Effect.mem_stores.mp member
  obtain ⟨atReady, rfl⟩ := Effect.store.inj same
  rcases List.mem_append.mp inStores with zeroed | later
  · obtain ⟨_, -, rfl⟩ := List.mem_map.mp zeroed
    rfl
  · rcases List.mem_append.mp later with inNumbers | inHeader
    · obtain ⟨_, _, -, rfl⟩ := numberStores_data inNumbers
      exact Loc.noConfusion atReady
    · rw [headerStores_value inHeader, if_pos atReady.symm]

theorem fillStores_unset {loc : Loc} {value : UInt64} {mem : Mem}
    (member : .store loc value ∈ fillStores nodesWorker input) (unset : mem .ready = 0) :
    Function.update mem loc value .ready = 0 := by
  by_cases isReady : loc = .ready
  · rw [isReady] at member ⊢
    rw [fillStores_ready member, Function.update_self]
  · rwa [Function.update_of_ne (Ne.symm isReady)]

/-- Outside the data the last stores are the header's. -/
theorem filledMem_header {loc : Loc} (notData : ∀ index, loc ≠ .data index)
    (notReady : loc ≠ .ready) :
    filledMem nodesWorker input loc = publishedMem nodesWorker input loc := by
  have same : ∀ entry ∈ headerStores nodesWorker input, entry.1 = loc →
      entry.2 = publishedMem nodesWorker input loc := by
    intro entry member same
    subst same
    rw [headerStores_value member, if_neg notReady]
  by_cases hit : ∃ entry ∈ headerStores nodesWorker input, entry.1 = loc
  · exact filled_suffix (List.append_assoc ..).symm same hit
  · have zero : publishedMem nodesWorker input loc = 0 := by
      cases loc with
      | canary index =>
          cases found : canaryVal[index]? with
          | none => simp [publishedMem, List.getD_eq_getElem?_getD, found]
          | some byte =>
              have member : (.canary index, byte) ∈ headerStores nodesWorker input :=
                mem_headerStores.mpr (.inr (.inr (.inr (.inr ⟨byte, index, found, rfl⟩))))
              exact absurd ⟨_, member, rfl⟩ hit
      | elems => exact absurd ⟨_, mem_headerStores.mpr (.inl rfl), rfl⟩ hit
      | ready => exact absurd rfl notReady
      | done id => rfl
      | nodes => exact absurd ⟨_, mem_headerStores.mpr (.inr (.inr (.inr (.inl rfl)))), rfl⟩ hit
      | data index => exact absurd rfl (notData index)
    rw [zero]
    refine filledMem_zero (fun entry member isLoc => ?_) fun entry member isLoc => ?_
    · obtain ⟨index, _, -, rfl⟩ := numberStores_data member
      exact absurd isLoc.symm (notData index)
    · exact absurd ⟨entry, member, isLoc⟩ hit

theorem headerStores_ne_data {entry : Loc × UInt64} (index : Nat)
    (member : entry ∈ headerStores nodesWorker input) : entry.1 ≠ .data index := by
  rcases mem_headerStores.mp member with rfl | rfl | ⟨_, -, rfl⟩ | rfl | ⟨_, _, -, rfl⟩ <;> simp

/-- Whatever the memory held, the numbers read are in the data. -/
theorem filled_data {mem : Mem} {index : Nat} {number : Int32}
    (found : input.numbers[index]? = some number) :
    Effect.applyAll mem (fillStores nodesWorker input) (.data index) = number.toInt64.toUInt64 := by
  have elsewhere : ∀ entry ∈ headerStores nodesWorker input, ∀ index, entry.1 ≠ Loc.data index :=
    fun _ member index => headerStores_ne_data index member
  exact Effect.applyAll_stores_indexed Loc.data (fun number : Int32 => number.toInt64.toUInt64)
    (fun _ _ => Loc.data.inj) elsewhere found

/-- Whatever the memory held, the count read is in the header. -/
theorem filled_elems (mem : Mem) :
    Effect.applyAll mem (fillStores nodesWorker input) .elems = input.elems := by
  refine filled_suffix (List.append_assoc ..).symm (fun entry member isElems => ?_)
    ⟨_, mem_headerStores.mpr (.inl rfl), rfl⟩
  rw [headerStores_value member, isElems]
  rfl

theorem filledMem_data (index : Nat) :
    filledMem nodesWorker input (.data index) = publishedMem nodesWorker input (.data index) := by
  cases found : input.numbers[index]? with
  | none =>
      rw [publishedMem, found]
      refine filledMem_zero (fun entry member isData => ?_)
        fun entry member isData => absurd isData (headerStores_ne_data index member)
      obtain ⟨other, number, inInput, rfl⟩ := numberStores_data member
      obtain rfl := Loc.data.inj isData
      rw [found] at inInput
      contradiction
  | some number =>
      rw [publishedMem, found]
      exact filled_data found

/-- The signal publishes the header and the numbers. -/
theorem filledMem_signal :
    Function.update (filledMem nodesWorker input) .ready 1 = publishedMem nodesWorker input := by
  funext loc
  by_cases isReady : loc = .ready
  · rw [isReady, Function.update_self]
    rfl
  · rw [Function.update_of_ne isReady]
    cases loc with
    | data index => exact filledMem_data index
    | _ => exact filledMem_header (by simp) isReady

end Populate

end LibIvy.Workloads.Psort
