import LibIvy.Contracts.PsortRun
import LibIvy.Workloads.PsortLayout

/-!
Contract: the accesses of psort stay inside its shared memory.

Owns: for every interleaving, that each access of each node is inside the bytes
that the manager has computed the size of from the count it has read, and that this
is so only if its read loop then gets no more numbers than that.

Does not own: the values, the pages.

Neither the loop that stores the numbers nor that of a worker checks an index.
-/

namespace LibIvy.Contracts.PsortRegion

open LibIvy.Lib TransitionSystem Program Guarantee LibIvy.Workloads LibIvy.Workloads.Psort
open LibIvy.Contracts.Handshake LibIvy.Contracts.PsortRun

/-- A field of the header, or an element before the end of the region. -/
def InRegion (nodesWorker : UInt64) (input : Input) (loc : Loc) : Prop :=
  loc.Exists nodesWorker ∧ loc.offset nodesWorker + loc.size ≤ (regionSz input.elems).toNat

section

variable {nodesWorker : UInt64} {input : Input}

/-- The size of the region has not wrapped around. -/
theorem regionSz_toNat {elems : UInt64} (whole : 8 * elems.toNat + 4096 < 2 ^ 64) :
    (regionSz elems).toNat = 8 * elems.toNat + 4096 := by
  rw [regionSz, UInt64.toNat_add, UInt64.toNat_mul]
  simp only [UInt64.reduceToNat]
  omega

theorem inRegion_header (fits : HeaderFits nodesWorker)
    (whole : 8 * input.elems.toNat + 4096 < 2 ^ 64) (loc : Loc) (inHeader : loc.InHeader nodesWorker) :
    InRegion nodesWorker input loc := by
  refine ⟨inHeader.found, ?_⟩
  rw [regionSz_toNat whole]
  have found := inHeader.found
  have canary : canaryVal.length = 17 := rfl
  simp only [HeaderFits, Loc.offset] at fits
  cases loc <;> simp only [Loc.InHeader, Loc.Exists, Loc.offset, Loc.size] at * <;> omega

theorem inRegion_data (whole : 8 * input.elems.toNat + 4096 < 2 ^ 64) {index : Nat} :
    InRegion nodesWorker input (.data index) ↔ index < input.elems.toNat := by
  simp only [InRegion, Loc.Exists, Loc.offset, Loc.size, regionSz_toNat whole, true_and]
  omega

/-- The event accesses no element from `bound` on. -/
def Below (bound : Nat) (event : Effect Loc UInt64 Note) : Prop :=
  event.Within fun loc => ∀ index, loc = .data index → index < bound

/-- An access of a field that exists is in the region when its index is small. -/
theorem fitting_inRegion (fits : HeaderFits nodesWorker)
    (whole : 8 * input.elems.toNat + 4096 < 2 ^ 64) {event : Effect Loc UInt64 Note}
    (found : Fitting (Loc.Exists nodesWorker) event) (below : Below input.elems.toNat event) :
    Fitting (InRegion nodesWorker input) event := by
  have inside : ∀ loc : Loc, loc.Exists nodesWorker →
      (∀ index, loc = .data index → index < input.elems.toNat) → InRegion nodesWorker input loc := by
    intro loc found below
    cases loc with
    | data index => exact (inRegion_data whole).mpr (below index rfl)
    | _ => exact inRegion_header fits whole _ found
  cases event with
  | load loc value => exact inside loc found below
  | store loc value => exact ⟨inside loc found.1 below, found.2⟩
  | note text => trivial

/-! ### The accesses that compute an index -/

/-- The part of a worker ends before the elements do. -/
theorem sortPart_below {id : Nat} (valid : id < nodesWorker.toNat) {event : Effect Loc UInt64 Note}
    (allowed : PartEvent (publishedMem nodesWorker input) id event) :
    Below input.elems.toNat event := by
  have inside : ∀ index, Touched (publishedMem nodesWorker input) id (.data index) →
      index < input.elems.toNat := by
    rintro index ⟨offset, below, same⟩
    obtain rfl := Loc.data.inj same
    have length : share (publishedMem nodesWorker input) =
        input.elems.toNat / nodesWorker.toNat := UInt64.toNat_div ..
    have all : nodesWorker.toNat * share (publishedMem nodesWorker input) ≤ input.elems.toNat := by
      rw [length]
      exact Nat.mul_div_le ..
    have part : share (publishedMem nodesWorker input) * (id + 1) ≤
        share (publishedMem nodesWorker input) * nodesWorker.toNat := Nat.mul_le_mul_left _ valid
    rw [Nat.mul_comm nodesWorker.toNat] at all
    rw [Nat.mul_add, Nat.mul_one] at part
    omega
  have within := allowed.1
  cases event with
  | load loc value =>
      rintro index rfl
      exact inside index within
  | store loc value =>
      rintro index rfl
      exact inside index within
  | note text => trivial

/-- `merge_worker` loads elements before the end. -/
theorem mergeWorker_below {event : Effect Loc UInt64 Note}
    (allowed : MergeEvent (mergeMem nodesWorker.toNat (publishedMem nodesWorker input)) event) :
    Below input.elems.toNat event := by
  cases event with
  | load loc value =>
      rintro index rfl
      exact allowed
  | store loc value => exact allowed.elim
  | note text => trivial

/-! ### The programs -/

variable (nodesWorker input) in
/-- The guarantee of psort, inside the region. -/
def psortStays : Guarantee Party Loc UInt64 Note :=
  (psortMay nodesWorker input).restrict (Fitting (InRegion nodesWorker input))

theorem manager_stays (fits : HeaderFits nodesWorker)
    (whole : 8 * input.elems.toNat + 4096 < 2 ^ 64)
    (bounded : input.numbers.length ≤ input.elems.toNat) :
    Triple (psortStays nodesWorker input) .manager
      (fun config => (Filling nodesWorker input [] config ∧
        Agree (fun _ => True) config.mem fun _ => 0) ∧ Output [] config)
      (manager nodesWorker input) fun _ _ => True := by
  have header := @inRegion_header nodesWorker input fits whole
  have populates := @populateShm_fitting nodesWorker _ header input
    (by
      intro index inside
      rw [regionSz_toNat whole] at inside
      exact (inRegion_data whole).mpr (by omega))
    (by
      intro index inside
      exact (inRegion_data whole).mpr (by omega))
  have merges : Triple (psortStays nodesWorker input) .manager
      (fun config => Merging nodesWorker input config ∧ Output [.callMergeWorker] config)
      (mergeWorker nodesWorker) fun _ _ => True := by
    obtain ⟨events, printed, evaluated, allowed, -, -, -⟩ := mergeWorker_eval nodesWorker
      (mergeMem nodesWorker.toNat (publishedMem nodesWorker input))
    have undisturbed := (mergeWorker_undisturbed allowed).restrict
      (Fitting (InRegion nodesWorker input)) fun event member =>
        fitting_inRegion fits whole (evaluated.allowed mergeWorker_found event member)
          (mergeWorker_below (allowed event member))
    refine (Triple.of_eval evaluated undisturbed).conseq ?_ fun _ _ _ => trivial
    rintro config ⟨merging, output⟩
    exact ⟨⟨merging, output⟩, fun loc _ => congrFun merging.mem_eq loc⟩
  exact ((populateShm_keeps.silent populateShm_silent []).restrict populates).bind fun _ =>
    ((waitForWorkers_keeps.silent waitForWorkers_silent []).restrict
      (waitForWorkers_fitting header)).bind fun _ =>
      ((callMergeWorker_keeps.emit_printed []).restrict (Only.emit trivial)).bind fun _ => merges

theorem sortWorker_stays (fits : HeaderFits nodesWorker)
    (whole : 8 * input.elems.toNat + 4096 < 2 ^ 64) {id : Nat} (valid : id < nodesWorker.toNat) :
    Triple (psortStays nodesWorker input) (.worker id)
      (Waiting (publishedMem nodesWorker input) id) (sortWorker id) fun _ _ => True := by
  have header := @inRegion_header nodesWorker input fits whole
  have nonzero : publishedMem nodesWorker input .nodes ≠ 0 := by
    intro zero
    obtain rfl : nodesWorker = 0 := zero
    exact absurd valid (Nat.not_lt_zero id)
  have sorts : Triple (psortStays nodesWorker input) (.worker id)
      (Working (publishedMem nodesWorker input) id (publishedMem nodesWorker input)) (sortPart id)
      fun _ => Working (publishedMem nodesWorker input) id
        (settled nodesWorker.toNat (publishedMem nodesWorker input)) := by
    obtain ⟨events, result, after, evaluated, allowed, sorted⟩ := sortPart_ensures nonzero id
    have undisturbed := (@sortPart_undisturbed nodesWorker.toNat (publishedMem nodesWorker input)
      (fillStores nodesWorker input) id events valid allowed).restrict
      (Fitting (InRegion nodesWorker input)) fun event member =>
        fitting_inRegion fits whole (evaluated.allowed (sortPart_found id) event member)
          (sortPart_below valid (allowed event member))
    refine (Triple.of_eval evaluated undisturbed).conseq (fun _ holds => holds) ?_
    intro _ config ⟨_, holds, agree⟩
    exact ⟨holds, fun loc touched =>
      (agree loc touched).trans (sorted.agree_touched valid loc touched)⟩
  refine ((awaitReady_keeps id).restrict (awaitReady_fitting header)).bind fun _ =>
    sorts.bind fun _ => ?_
  exact ((signalDone_keeps valid).restrict (signalDone_fitting header valid)).conseq
    (fun _ holds => holds) fun _ _ _ => trivial

/-- Every node stays inside the region from the start. -/
theorem programs_stay (fits : HeaderFits nodesWorker)
    (whole : 8 * input.elems.toNat + 4096 < 2 ^ 64)
    (bounded : input.numbers.length ≤ input.elems.toNat) (party : Party) (fuel : Nat) :
    Keeps (psortStays nodesWorker input) party (fun _ _ => True) fuel
      (programs nodesWorker input party) start := by
  cases party with
  | manager =>
      exact manager_stays fits whole bounded fuel start ⟨⟨⟨⟨start_inv, rfl⟩, by simp⟩, fun _ _ => rfl⟩, rfl⟩
  | worker id =>
      by_cases valid : id < nodesWorker.toNat
      · rw [programs, if_pos valid]
        exact sortWorker_stays fits whole valid fuel start ⟨by simp [Completed, start], .inl rfl⟩
      · rw [programs, if_neg valid]
        exact Keeps.pure fun _ _ => trivial

/-- What the nodes access in an interleaving. -/
theorem accesses_fitting (fits : HeaderFits nodesWorker)
    (whole : 8 * input.elems.toNat + 4096 < 2 ^ 64)
    (bounded : input.numbers.length ≤ input.elems.toNat) {trace : Trace}
    {state : Threads Party Loc UInt64 Note} (run : Run (psort nodesWorker input) anyStep trace state) :
    ∀ entry ∈ trace, Fitting (InRegion nodesWorker input) entry.2 := by
  rintro ⟨party, event⟩ member
  have guaranteed := (run_keeps (programs_stay fits whole bounded) run).1
  obtain ⟨_, -, fitting⟩ := guaranteed.permitted member
  exact fitting

/-- Some run stores all numbers of the file. -/
theorem exists_filled (nodesWorker : UInt64) (input : Input) : ∃ trace state,
    Run (psort nodesWorker input) anyStep trace state ∧
      ∀ event ∈ fillStores nodesWorker input, (.manager, event) ∈ trace := by
  obtain ⟨fills, populated⟩ := populateShm_eval nodesWorker input fun _ => 0
  have run : Run (psort nodesWorker input) anyStep ([] ++ Threads.tagged .manager fills)
      ⟨Function.update (Effect.applyAll (fun _ => 0) (fillStores nodesWorker input)) .ready 1,
        Function.update (programs nodesWorker input) .manager (managerRest nodesWorker)⟩ :=
    Threads.run_part (fun _ => managerRest nodesWorker) populated .init rfl
      (manager_eq nodesWorker input)
  refine ⟨_, _, run, ?_⟩
  obtain ⟨guaranteed, reached, -⟩ := run_keeps programs_keep run
  have inv := guaranteed.invariant start_inv fun _ _ _ => psortInv_kept
  rw [reached] at inv
  have signalled : Function.update (Effect.applyAll (fun _ => 0) (fillStores nodesWorker input))
      .ready 1 .ready ≠ 0 := by
    rw [Function.update_self]
    decide
  exact inv.stored signalled

/-- In every interleaving every access of every node is inside the shared memory, if
and only if the read loop gets no more numbers than the count says. The header fits
its page, and the size of the region does not wrap around. -/
theorem psort_stays_inside (fits : HeaderFits nodesWorker)
    (whole : 8 * input.elems.toNat + 4096 < 2 ^ 64) :
    (∀ trace state, Run (psort nodesWorker input) anyStep trace state →
      ∀ entry ∈ trace, entry.2.Within (InRegion nodesWorker input)) ↔
      input.numbers.length ≤ input.elems.toNat := by
  constructor
  · intro inside
    by_contra exceeds
    obtain ⟨trace, state, run, filled⟩ := exists_filled nodesWorker input
    obtain ⟨number, found⟩ : ∃ number, input.numbers[input.elems.toNat]? = some number :=
      ⟨_, List.getElem?_eq_getElem (Nat.lt_of_not_le exceeds)⟩
    have stored := filled _ (Effect.mem_stores.mpr
      ⟨_, List.mem_append_right _ (List.mem_append_left _ (mem_numberStores found)), rfl⟩)
    have within : InRegion nodesWorker input (.data input.elems.toNat) := inside trace state run _ stored
    exact absurd ((inRegion_data whole).mp within) (Nat.lt_irrefl _)
  · intro bounded trace state run entry member
    exact (accesses_fitting fits whole bounded run entry member).within

end

/-- A file that says how many numbers it holds, and one that holds another one. -/
theorem psort_stays_inside_two :
    (∀ trace state, Run (psort 2 ⟨2, [3, 1]⟩) anyStep trace state →
      ∀ entry ∈ trace, entry.2.Within (InRegion 2 ⟨2, [3, 1]⟩)) ∧
    ¬∀ trace state, Run (psort 2 ⟨2, [3, 1, 2]⟩) anyStep trace state →
      ∀ entry ∈ trace, entry.2.Within (InRegion 2 ⟨2, [3, 1, 2]⟩) := by
  refine ⟨(psort_stays_inside (by decide) (by decide)).mpr (by decide), fun inside => ?_⟩
  have bounded := (psort_stays_inside (by decide) (by decide)).mp inside
  exact absurd bounded (by decide)

end LibIvy.Contracts.PsortRegion
