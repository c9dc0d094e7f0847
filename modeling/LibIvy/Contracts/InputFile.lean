import LibIvy.Workloads.InputFile

/-!
Contract: which input files the loaders bring to the shared memory.

Owns: the condition on the numbers of a file under which `populate_shm` of psort
and `main` of pdot leave the count and every element in place, for every file of
64-bit numbers and every memory.

Does not own: what the workers compute.

Both loaders read into an `int`. A number that an `int` does not hold fails the
stream, so neither it nor any later one is stored.
-/

namespace LibIvy.Contracts.InputFile

open LibIvy.Lib Program LibIvy.Workloads NumberStream

variable {nodesWorker : UInt64} {numbers : List UInt64} {lastBreak : Bool}

theorem psort_loads_iff : Psort.Loads nodesWorker numbers lastBreak ↔ IntsOnly numbers := by
  constructor
  · intro loads
    obtain ⟨events, after, evaluated, faithful⟩ := loads 0 fun _ => 0
    obtain ⟨_, loaded⟩ := Psort.populateShm_eval nodesWorker
      (readInput 0 (inputFile numbers lastBreak)) fun _ => 0
    obtain ⟨-, -, rfl⟩ := evaluated.unique loaded
    refine IntsOnly.of_faithful lastBreak 0 (fun index => ?_) faithful
    rw [Function.update_of_ne (by simp)]
    exact Psort.filledMem_data index
  · intro ints unset mem
    obtain ⟨events, loaded⟩ := Psort.populateShm_eval nodesWorker
      (readInput unset (inputFile numbers lastBreak)) mem
    refine ⟨events, _, loaded, Faithful.of_ints lastBreak unset ints ?_ fun index number found => ?_⟩
    · rw [Function.update_of_ne (by simp)]
      exact Psort.filled_elems mem
    · rw [Function.update_of_ne (by simp)]
      exact Psort.filled_data found

theorem pdot_loads_iff : Pdot.Loads nodesWorker numbers lastBreak ↔ IntsOnly numbers := by
  constructor
  · intro loads
    obtain ⟨events, after, evaluated, faithful⟩ := loads 0 fun _ => 0
    obtain ⟨-, -, rfl⟩ := evaluated.unique (Pdot.loadVectors_eval nodesWorker
      (readInput 0 (inputFile numbers lastBreak)) fun _ => 0)
    refine IntsOnly.of_faithful lastBreak 0 (fun index => ?_) faithful
    cases found : (readInput 0 (inputFile numbers lastBreak)).numbers[index]? with
    | none => exact Pdot.unloaded_vecs found
    | some number => exact Pdot.loaded_vecs found
  · intro ints unset mem
    exact ⟨_, _, Pdot.loadVectors_eval nodesWorker _ mem,
      Faithful.of_ints lastBreak unset ints (Pdot.loaded_elems mem) fun _ _ found => Pdot.loaded_vecs found⟩

/-- Each loader brings every file of these numbers to the shared memory exactly
when all of them are below `2 ^ 31` (and there are fewer than `2 ^ 64`). -/
theorem loaders_faithful_iff (nodesWorker : UInt64) (numbers : List UInt64) (lastBreak : Bool) :
    (Psort.Loads nodesWorker numbers lastBreak ↔ IntsOnly numbers) ∧
      (Pdot.Loads nodesWorker numbers lastBreak ↔ IntsOnly numbers) :=
  ⟨psort_loads_iff, pdot_loads_iff⟩

/-- The file with the lines `1` and `2147483648`. -/
theorem loaders_lose_largeNumber :
    ¬Psort.Loads 2 [2147483648] true ∧ ¬Pdot.Loads 2 [2147483648] true := by
  have tooLarge : ¬IntsOnly [2147483648] := fun ints =>
    absurd (ints.2 2147483648 List.mem_cons_self) (by decide)
  exact ⟨mt psort_loads_iff.mp tooLarge, mt pdot_loads_iff.mp tooLarge⟩

end LibIvy.Contracts.InputFile
