import LibIvy.Lib.NumberStream
import LibIvy.Workloads.Pdot
import LibIvy.Workloads.PopulateShm

/-!
Contract: how the workloads read their input files.

Both loaders extract a `size_t`, then one `int` after the other until the stream
fails, and store each of them at the next index.

Owns: the text of an input file, what the extractions yield on it, the loaders of
psort and pdot on any memory, and what they leave there.

Does not own: the workers.
-/

namespace LibIvy.Workloads

open LibIvy.Lib Program NumberText NumberStream

/-- An input file: the number of elements, then the elements, each on a line of
its own. The last line may end without a line break. -/
def inputFile (numbers : List UInt64) (lastBreak : Bool) : Text :=
  toText numbers.length ++
    (lines (numbers.map UInt64.toNat) ++ if lastBreak then ['\n'] else [])

/-- `in_f >> elems`, then `while (in_f >> in_num)`. `unset` is what `elems` holds
before it is assigned. -/
def readInput (unset : UInt64) (text : Text) : Psort.Input :=
  let count := extractSize (some text)
  ⟨count.assigned.getD unset, extractInts count.stream⟩

/-- The count and the elements of the file have arrived. -/
structure Faithful (numbers : List UInt64) (elems : UInt64) (element : Nat → UInt64) : Prop where
  count : elems.toNat = numbers.length
  elements : ∀ index (inside : index < numbers.length), element index = numbers[index]

/-- Every number is one that an `int` holds, and the count is one that a `size_t`
holds. -/
def IntsOnly (numbers : List UInt64) : Prop :=
  numbers.length < wordCount ∧ ∀ number ∈ numbers, number.toNat < intCount

instance (numbers : List UInt64) : Decidable (IntsOnly numbers) :=
  decidable_of_iff (numbers.length < wordCount ∧ numbers.all fun number => number.toNat < intCount)
    (by simp [IntsOnly])

section Reading

variable {numbers : List UInt64} {lastBreak : Bool} {unset : UInt64}

/-- The numbers before the first one that an `int` does not hold. -/
def readable (numbers : List UInt64) : List UInt64 :=
  numbers.takeWhile fun number => number.toNat < intCount

theorem readInput_inputFile (numbers : List UInt64) (lastBreak : Bool) (unset : UInt64) :
    readInput unset (inputFile numbers lastBreak) =
      if numbers.length < wordCount then
        ⟨UInt64.ofNat numbers.length,
          (readable numbers).map fun number => Int32.ofInt number.toNat⟩
      else ⟨UInt64.ofNat (wordCount - 1), []⟩ := by
  have ends : EndsField (if lastBreak then ['\n'] else []) := by cases lastBreak <;> rfl
  have blank : ∀ c ∈ (if lastBreak then ['\n'] else []), isBlank c = true := by
    cases lastBreak <;> simp [isBlank]
  have noBlanks : ∀ c ∈ ([] : Text), isBlank c = true := by simp
  have count : extractSize (some (inputFile numbers lastBreak)) = _ :=
    extract_toText noBlanks numbers.length (endsField_lines (numbers.map UInt64.toNat) ends)
  by_cases fits : numbers.length < wordCount
  · rw [convertSize_fits fits, if_pos rfl] at count
    simp only [readInput, count, Option.getD_some, if_pos fits, extractInts_lines _ ends blank,
      List.takeWhile_map, List.map_map, readable]
    rfl
  · rw [convertSize, if_pos (Nat.not_lt.mp fits)] at count
    simp only [readInput, count, if_neg fits]
    rfl

/-- A number that an `int` holds is stored as itself. -/
theorem stored_fits {number : UInt64} (fits : number.toNat < intCount) :
    (Int32.ofInt number.toNat).toInt64.toUInt64 = number := by
  rw [intCount] at fits
  have kept : (Int32.ofInt number.toNat).toInt = number.toNat :=
    Int32.toInt_ofInt_of_le (by omega) (by omega)
  have wide : (Int32.ofInt number.toNat).toInt64.toInt = number.toNat := by
    rw [Int32.toInt_toInt64, kept]
  have positive : 0 ≤ (Int32.ofInt number.toNat).toInt64 := by
    rw [Int64.le_iff_toInt_le, wide]
    exact Int.natCast_nonneg _
  apply UInt64.toNat_inj.mp
  rw [Int64.toNat_toUInt64_of_le positive, Int64.toNatClampNeg, wide]
  rfl

/-- What the file yields when an `int` holds all its numbers. -/
theorem readInput_of_ints (ints : IntsOnly numbers) :
    readInput unset (inputFile numbers lastBreak) =
      ⟨UInt64.ofNat numbers.length, numbers.map fun number => Int32.ofInt number.toNat⟩ := by
  have whole : readable numbers = numbers :=
    List.takeWhile_eq_self_iff.mpr fun number member => by simpa using ints.2 number member
  rw [readInput_inputFile, if_pos ints.1, whole]

theorem readInput_elems (ints : IntsOnly numbers) :
    (readInput unset (inputFile numbers lastBreak)).elems.toNat = numbers.length := by
  rw [readInput_of_ints ints]
  exact UInt64.toNat_ofNat_of_lt' ints.1

/-- Then a memory that holds the count and the numbers read holds the file's. -/
theorem Faithful.of_ints (lastBreak : Bool) (unset : UInt64) (ints : IntsOnly numbers) {elems : UInt64} {element : Nat → UInt64}
    (count : elems = (readInput unset (inputFile numbers lastBreak)).elems)
    (stored : ∀ index number,
      (readInput unset (inputFile numbers lastBreak)).numbers[index]? = some number →
        element index = number.toInt64.toUInt64) : Faithful numbers elems element := by
  rw [readInput_of_ints ints] at count stored
  constructor
  · rw [count]
    exact UInt64.toNat_ofNat_of_lt' ints.1
  · intro index inside
    have found : (numbers.map fun number => Int32.ofInt number.toNat)[index]? =
        some (Int32.ofInt numbers[index].toNat) := by
      rw [List.getElem?_map, List.getElem?_eq_getElem inside]
      rfl
    rw [stored index _ found]
    exact stored_fits (ints.2 _ (List.getElem_mem inside))

/-- A memory that holds only the numbers read, and zero after them, does not hold
the file's otherwise. -/
theorem IntsOnly.of_faithful (lastBreak : Bool) (unset : UInt64) {elems : UInt64}
    {element : Nat → UInt64}
    (stored : ∀ index, element index =
      ((readInput unset (inputFile numbers lastBreak)).numbers[index]?).elim 0
        fun number => number.toInt64.toUInt64)
    (faithful : Faithful numbers elems element) : IntsOnly numbers := by
  have count : numbers.length < wordCount := faithful.count ▸ UInt64.toNat_lt elems
  refine ⟨count, fun number member => ?_⟩
  rw [readInput_inputFile, if_pos count] at stored
  by_contra tooLarge
  have split : readable numbers ++ numbers.dropWhile (fun number => number.toNat < intCount) =
      numbers := List.takeWhile_append_dropWhile
  cases rest : numbers.dropWhile fun number => number.toNat < intCount with
  | nil =>
      have fits := List.dropWhile_eq_nil_iff.mp rest number member
      exact tooLarge (by simpa using fits)
  | cons first later =>
      -- the first number that an `int` does not hold: its place stays zero
      have large := List.head?_dropWhile_not (fun number : UInt64 => number.toNat < intCount) numbers
      rw [rest] at large split
      have here : (readable numbers ++ first :: later)[(readable numbers).length]? = some first := by
        simp
      rw [split] at here
      obtain ⟨inside, isFirst⟩ := List.getElem?_eq_some_iff.mp here
      have zero : element (readable numbers).length = 0 := by
        rw [stored]
        simp
      rw [faithful.elements _ inside, isFirst] at zero
      subst zero
      simp only [List.head?_cons] at large
      exact absurd large (by decide)

end Reading

/-! ### The loaders -/

namespace Psort

/-- `populate_shm` brings the file to the shared memory, whatever that held. -/
def Loads (nodesWorker : UInt64) (numbers : List UInt64) (lastBreak : Bool) : Prop :=
  ∀ unset mem, ∃ events after,
    (populateShm nodesWorker (readInput unset (inputFile numbers lastBreak))).Eval mem events ()
      after ∧ Faithful numbers (after .elems) fun index => after (.data index)

/-- What `populate_shm` leaves. -/
theorem populateShm_eval (nodesWorker : UInt64) (input : Input) (mem : Mem) :
    ∃ events, (populateShm nodesWorker input).Eval mem events ()
      (Function.update (Effect.applyAll mem (fillStores nodesWorker input)) .ready 1) := by
  have dump : Ensures (fun _ => True) (dumpShmPage nodesWorker)
      (Function.update (Effect.applyAll mem (fillStores nodesWorker input)) .ready 1)
      fun _ after => after =
        Function.update (Effect.applyAll mem (fillStores nodesWorker input)) .ready 1 :=
    Ensures.forM_discard fun _ => trivial
  obtain ⟨events, _, after, dumped, -, same⟩ := dump
  rw [same] at dumped
  exact ⟨_, (fillShm_eval_from nodesWorker input mem).bind ((Eval.write _ _ _).bind dumped)⟩

end Psort

namespace Pdot

/-- The fields of `shm_layout`, with the one that the workers do not use. -/
inductive Field where
  | canary (index : Nat)
  | shm (loc : Loc)
deriving DecidableEq, Repr

/-- `CANARY_VAL`, which is the one of psort. -/
def canaryVal : List UInt64 := Psort.canaryVal

/-- `main` of the manager from its read loop to the flags that it clears. -/
def fillVectors (nodesWorker : UInt64) (input : Psort.Input) : Program Field UInt64 Empty Unit := do
  input.numbers.zipIdx.forM fun entry => write (.shm (.vecs entry.2)) entry.1.toInt64.toUInt64
  canaryVal.zipIdx.forM fun entry => write (.canary entry.2) entry.1
  write (.shm .elems) input.elems
  write (.shm .ready) 0
  (List.range nodesWorker.toNat).forM fun i => write (.shm (.done i)) 0

/-- The same up to the store that signals `ready`. -/
def loadVectors (nodesWorker : UInt64) (input : Psort.Input) : Program Field UInt64 Empty Unit := do
  fillVectors nodesWorker input
  write (.shm .ready) 1

/-- The read loop brings the file to the shared memory, whatever that held. -/
def Loads (nodesWorker : UInt64) (numbers : List UInt64) (lastBreak : Bool) : Prop :=
  ∀ unset mem, ∃ events after,
    (loadVectors nodesWorker (readInput unset (inputFile numbers lastBreak))).Eval mem events ()
      after ∧ Faithful numbers (after (.shm .elems)) fun index => after (.shm (.vecs index))

section Load

variable (nodesWorker : UInt64) (input : Psort.Input)

/-- The numbers of the input file. -/
def numberStores : List (Field × UInt64) :=
  input.numbers.zipIdx.map fun entry => (.shm (.vecs entry.2), entry.1.toInt64.toUInt64)

def canaryStores : List (Field × UInt64) :=
  canaryVal.zipIdx.map fun entry => (.canary entry.2, entry.1)

def flagStores : List (Field × UInt64) :=
  (List.range nodesWorker.toNat).map fun i => (.shm (.done i), 0)

/-- The stores to the header before the signal, in order. -/
def headerStores : List (Field × UInt64) :=
  canaryStores ++ ([(.shm .elems, input.elems), (.shm .ready, 0)] ++ flagStores nodesWorker)

/-- All stores before the signal. -/
def fillStores : List (Field × UInt64) := numberStores input ++ headerStores nodesWorker input

/-- All stores from the read loop to the signal. -/
def loadStores : List (Effect Field UInt64 Empty) :=
  Effect.stores (fillStores nodesWorker input) ++ [.store (.shm .ready) 1]

theorem fillVectors_eval (mem : Field → UInt64) :
    (fillVectors nodesWorker input).Eval mem (Effect.stores (fillStores nodesWorker input)) ()
      (Effect.applyAll mem (Effect.stores (fillStores nodesWorker input) :
        List (Effect Field UInt64 Empty))) := by
  have evaluated : ∃ after, (fillVectors nodesWorker input).Eval mem
      (Effect.stores (numberStores input) ++ (Effect.stores canaryStores ++
        ([.store (.shm .elems) input.elems] ++ ([.store (.shm .ready) 0] ++
          Effect.stores (flagStores nodesWorker))))) () after :=
    ⟨_, .bind (.forM_write _ (fun entry : Int32 × Nat =>
        (Field.shm (.vecs entry.2), entry.1.toInt64.toUInt64)) _) <|
      .bind (.forM_write _ (fun entry : UInt64 × Nat => (Field.canary entry.2, entry.1)) _) <|
      .bind (.write _ _ _) <| .bind (.write _ _ _) <|
      .forM_write _ (fun i : Nat => (Field.shm (.done i), (0 : UInt64))) _⟩
  obtain ⟨after, evaluated⟩ := evaluated
  have events : (Effect.stores (fillStores nodesWorker input) : List (Effect Field UInt64 Empty)) =
      Effect.stores (numberStores input) ++ (Effect.stores canaryStores ++
        ([.store (.shm .elems) input.elems] ++ ([.store (.shm .ready) 0] ++
          Effect.stores (flagStores nodesWorker)))) := by
    simp only [fillStores, headerStores, Effect.stores_append]
    rfl
  rw [← events] at evaluated
  rwa [evaluated.after_eq] at evaluated

theorem loadVectors_eval (mem : Field → UInt64) :
    (loadVectors nodesWorker input).Eval mem (loadStores nodesWorker input) ()
      (Effect.applyAll mem (loadStores nodesWorker input)) := by
  have evaluated : ∃ after,
      (loadVectors nodesWorker input).Eval mem (loadStores nodesWorker input) () after :=
    ⟨_, (fillVectors_eval nodesWorker input mem).bind (.write _ _ _)⟩
  obtain ⟨after, evaluated⟩ := evaluated
  rwa [evaluated.after_eq] at evaluated

/-- The signal changes nothing else. -/
theorem applyAll_loadStores (mem : Field → UInt64) :
    Effect.applyAll mem (loadStores nodesWorker input) =
      Function.update (Effect.applyAll mem (Effect.stores (fillStores nodesWorker input) :
        List (Effect Field UInt64 Empty))) (.shm .ready) 1 := by
  rw [loadStores, Effect.applyAll_append]
  rfl

variable {nodesWorker input}

theorem mem_headerStores {entry : Field × UInt64} :
    entry ∈ headerStores nodesWorker input ↔
      (∃ byte index, canaryVal[index]? = some byte ∧ entry = (.canary index, byte)) ∨
        entry = (.shm .elems, input.elems) ∨ entry = (.shm .ready, 0) ∨
          ∃ id < nodesWorker.toNat, entry = (.shm (.done id), 0) := by
  simp [headerStores, flagStores, canaryStores, List.mem_zipIdx_iff_getElem?, eq_comm]

theorem headerStores_ne_vecs {entry : Field × UInt64} (index : Nat)
    (member : entry ∈ headerStores nodesWorker input) : entry.1 ≠ .shm (.vecs index) := by
  rcases mem_headerStores.mp member with ⟨_, _, -, rfl⟩ | rfl | rfl | ⟨_, -, rfl⟩ <;> simp

/-- Whatever the memory held, the numbers read are in the vectors. -/
theorem loaded_vecs {mem : Field → UInt64} {index : Nat} {number : Int32}
    (found : input.numbers[index]? = some number) :
    Effect.applyAll mem (loadStores nodesWorker input) (.shm (.vecs index)) =
      number.toInt64.toUInt64 := by
  have elsewhere : ∀ entry ∈ headerStores nodesWorker input, ∀ index,
      entry.1 ≠ Field.shm (.vecs index) := fun _ member index => headerStores_ne_vecs index member
  have distinct : Function.Injective fun index => Field.shm (.vecs index) :=
    fun _ _ same => Loc.vecs.inj (Field.shm.inj same)
  rw [applyAll_loadStores, Function.update_of_ne (by simp), fillStores,
    ← List.nil_append (numberStores input ++ headerStores nodesWorker input)]
  exact Effect.applyAll_stores_indexed (fun index => Field.shm (.vecs index))
    (fun number : Int32 => number.toInt64.toUInt64) distinct elsewhere found

/-- Elsewhere the vectors keep what the memory held. -/
theorem unloaded_vecs {mem : Field → UInt64} {index : Nat} (none : input.numbers[index]? = none) :
    Effect.applyAll mem (loadStores nodesWorker input) (.shm (.vecs index)) =
      mem (.shm (.vecs index)) := by
  rw [applyAll_loadStores, Function.update_of_ne (by simp)]
  refine Effect.applyAll_stores (fun entry member here => ?_) (.inl rfl)
  rcases List.mem_append.mp member with inNumbers | inHeader
  · obtain ⟨⟨number, other⟩, listed, rfl⟩ := List.mem_map.mp inNumbers
    obtain rfl := Loc.vecs.inj (Field.shm.inj here)
    rw [List.mem_zipIdx_iff_getElem?, none] at listed
    contradiction
  · exact absurd here (headerStores_ne_vecs index inHeader)

/-- Whatever the memory held, the count read is in the header. -/
theorem loaded_elems (mem : Field → UInt64) :
    Effect.applyAll mem (loadStores nodesWorker input) (.shm .elems) = input.elems := by
  rw [applyAll_loadStores, Function.update_of_ne (by simp), fillStores, Effect.stores_append,
    Effect.applyAll_append]
  refine Effect.applyAll_stores (fun entry member isElems => ?_)
    (.inr ⟨_, mem_headerStores.mpr (.inr (.inl rfl)), rfl⟩)
  rcases mem_headerStores.mp member with
    ⟨_, _, -, rfl⟩ | rfl | rfl | ⟨_, -, rfl⟩ <;> first | rfl | simp at isElems

end Load

end Pdot

end LibIvy.Workloads
