import LibIvy.Lib.ByteLayout
import LibIvy.Workloads.Psort

/-!
Contract: the shared memory of psort in bytes.

Owns: the bytes of every field of `shm_layout`, and that the programs keep to the
fields that exist and store values that fit; for the parts of the programs that
compute no index, that they keep to the header.

Does not own: the pages of the region, the order of the accesses, the elements.
-/

namespace LibIvy.Workloads.Psort

open LibIvy.Lib Program

/-- The fields of the header end before the data begins, as the static assertion on
its size demands. -/
def HeaderFits (nodesWorker : UInt64) : Prop := Loc.offset nodesWorker .nodes + 8 ≤ 4096

instance {nodesWorker : UInt64} : Decidable (HeaderFits nodesWorker) :=
  inferInstanceAs (Decidable (_ ≤ _))

/-- The field exists. -/
def Loc.Exists (nodesWorker : UInt64) : Loc → Prop
  | .canary index => index < canaryVal.length
  | .done worker => worker < nodesWorker.toNat
  | _ => True

/-- The field exists and is not an element. -/
def Loc.InHeader (nodesWorker : UInt64) : Loc → Prop
  | .data _ => False
  | loc => loc.Exists nodesWorker

theorem Loc.InHeader.found {nodesWorker : UInt64} {loc : Loc} (inHeader : loc.InHeader nodesWorker) :
    loc.Exists nodesWorker := by
  cases loc with
  | data index => exact inHeader.elim
  | _ => exact inHeader

theorem Loc.apart {nodesWorker : UInt64} (fits : HeaderFits nodesWorker) (one other : Loc)
    (oneExists : one.Exists nodesWorker) (otherExists : other.Exists nodesWorker)
    (different : one ≠ other) :
    one.offset nodesWorker + one.size ≤ other.offset nodesWorker ∨
      other.offset nodesWorker + other.size ≤ one.offset nodesWorker := by
  have canary : canaryVal.length = 17 := rfl
  simp only [HeaderFits, Loc.offset] at fits
  cases one <;> cases other <;>
    simp only [Loc.Exists, Loc.offset, Loc.size, ne_eq, not_true_eq_false,
      Loc.canary.injEq, Loc.done.injEq, Loc.data.injEq] at * <;> omega

/-- The access is one of the region, and the value fits the field. -/
abbrev Fitting (region : Loc → Prop) : Effect Loc UInt64 Note → Prop := FitsIn Loc.size region

/-- `shm_layout` at the base of the region. -/
def shmLayout {nodesWorker : UInt64} (fits : HeaderFits nodesWorker) (base : Nat) :
    Layout Loc UInt64 UInt8 :=
  wordLayout (fun loc => base + loc.offset nodesWorker) Loc.size (Loc.Exists nodesWorker)
    fun one other oneExists otherExists different => by
      have apart := Loc.apart fits one other oneExists otherExists different
      omega

section

variable {nodesWorker : UInt64} {region : Loc → Prop}

theorem byte_fits {value : UInt64} (small : value = 0 ∨ value = 1) (loc : Loc) :
    value.toNat < 256 ^ loc.size := by
  have byte : value.toNat < 256 ^ 1 := by
    rcases small with rfl | rfl <;> decide
  refine Nat.lt_of_lt_of_le byte (Nat.pow_le_pow_right (by omega) ?_)
  cases loc <;> simp [Loc.size]

theorem read_fitting {loc : Loc} (inside : region loc) :
    Only (Fitting region) (read loc : Prog UInt64) :=
  .read fun _ => inside

theorem write_fitting {loc : Loc} {value : UInt64} (inside : region loc)
    (small : value.toNat < 256 ^ loc.size) : Only (Fitting region) (write loc value : Prog Unit) :=
  .write ⟨inside, small⟩

/-! ### The header -/

section Header

variable (header : ∀ loc : Loc, loc.InHeader nodesWorker → region loc)
include header

theorem assertValid_fitting : Only (Fitting region) assertValid := by
  apply Only.forM
  intro index member
  exact .discard (read_fitting (header (.canary index) (List.mem_range.mp member)))

theorem awaitReady_fitting : Only (Fitting region) awaitReady := by
  apply Only.whileDo
  · exact (read_fitting (header .ready trivial)).bind fun _ => .pure _
  · exact .pure ()

/-- The end of `sort_worker`. -/
theorem signalDone_fitting {id : Nat} (valid : id < nodesWorker.toNat) :
    Only (Fitting region) (do write (.done id) 1; assertValid) := by
  refine (write_fitting (header (.done id) valid) (byte_fits (.inr rfl) _)).bind fun _ => ?_
  exact assertValid_fitting header

theorem headerLocs_inside {loc : Loc} (member : loc ∈ headerLocs nodesWorker) : region loc := by
  apply header
  simp only [headerLocs, List.mem_append, List.mem_map, List.mem_range, List.mem_cons,
    List.not_mem_nil, or_false] at member
  rcases member with ((⟨index, valid, rfl⟩ | rfl | rfl) | ⟨worker, valid, rfl⟩) | rfl
  · exact valid
  · trivial
  · trivial
  · exact valid
  · trivial

theorem regionLocs_inside {size : Nat} (data : ∀ index, 4096 + 8 * index + 8 ≤ size →
    region (.data index)) {loc : Loc} (member : loc ∈ regionLocs nodesWorker size) : region loc := by
  obtain ⟨listed, bounded⟩ := List.mem_filter.mp member
  rcases List.mem_append.mp listed with inHeader | inData
  · exact headerLocs_inside header inHeader
  · obtain ⟨index, -, rfl⟩ := List.mem_map.mp inData
    exact data index (of_decide_eq_true bounded)

omit header in
theorem canaryVal_small {value : UInt64} (member : value ∈ canaryVal) : value.toNat < 256 := by
  have all : (canaryVal.all fun value => value.toNat < 256) = true := by decide
  exact of_decide_eq_true (List.all_eq_true.mp all value member)

theorem fillShm_fitting {input : Input}
    (zeroed : ∀ index, 4096 + 8 * index + 8 ≤ (regionSz input.elems).toNat → region (.data index))
    (numbers : ∀ index < input.numbers.length, region (.data index)) :
    Only (Fitting region) (fillShm nodesWorker input) := by
  have clear : Only (Fitting region)
      ((regionLocs nodesWorker (regionSz input.elems).toNat).forM fun loc =>
        (write loc 0 : Prog Unit)) :=
    Only.forM fun loc member =>
      write_fitting (regionLocs_inside header zeroed member) (byte_fits (.inl rfl) loc)
  have data : Only (Fitting region) (input.numbers.zipIdx.forM fun entry =>
      (write (.data entry.2) entry.1.toInt64.toUInt64 : Prog Unit)) := by
    apply Only.forM
    rintro ⟨number, index⟩ member
    have listed := List.mk_mem_zipIdx_iff_getElem?.mp member
    obtain ⟨inside, -⟩ := List.getElem?_eq_some_iff.mp listed
    exact write_fitting (numbers index inside) (word_fits _)
  have flags : Only (Fitting region)
      ((List.range nodesWorker.toNat).forM fun i => (write (.done i) 0 : Prog Unit)) :=
    Only.forM fun i member =>
      write_fitting (header (.done i) (List.mem_range.mp member)) (byte_fits (.inl rfl) _)
  refine clear.bind fun _ => data.bind fun _ => ?_
  refine (write_fitting (header .elems trivial) (word_fits _)).bind fun _ => ?_
  refine (write_fitting (header .ready trivial) (byte_fits (.inl rfl) _)).bind fun _ => ?_
  refine flags.bind fun _ => (write_fitting (header .nodes trivial) (word_fits _)).bind fun _ => ?_
  apply Only.forM
  rintro ⟨value, index⟩ member
  have listed := List.mk_mem_zipIdx_iff_getElem?.mp member
  obtain ⟨inside, -⟩ := List.getElem?_eq_some_iff.mp listed
  exact write_fitting (header (.canary index) inside) (canaryVal_small (List.mem_of_getElem? listed))

theorem populateShm_fitting {input : Input}
    (zeroed : ∀ index, 4096 + 8 * index + 8 ≤ (regionSz input.elems).toNat → region (.data index))
    (numbers : ∀ index < input.numbers.length, region (.data index)) :
    Only (Fitting region) (populateShm nodesWorker input) := by
  have signal : Only (Fitting region) (write .ready 1 : Prog Unit) :=
    write_fitting (header .ready trivial) (byte_fits (.inr rfl) _)
  have dumps : Only (Fitting region) (dumpShmPage nodesWorker) :=
    Only.forM fun loc member => .discard (read_fitting (headerLocs_inside header member))
  exact (fillShm_fitting header zeroed numbers).bind fun _ => signal.bind fun _ => dumps

theorem waitForWorkers_fitting : Only (Fitting region) (waitForWorkers nodesWorker) := by
  have checks : ∀ parts : List Nat, (∀ id ∈ parts, id < nodesWorker.toNat) →
      Only (Fitting region) (checkWorkers parts) := by
    intro parts valid
    induction parts with
    | nil => exact .pure true
    | cons id parts inductionHypothesis =>
        have flag : Only (Fitting region) (read (.done id) : Prog UInt64) :=
          read_fitting (header (.done id) (valid id (List.mem_cons_self ..)))
        refine flag.bind fun _ => flag.bind fun value => ?_
        split
        · exact .pure false
        · exact inductionHypothesis fun other member => valid other (List.mem_cons_of_mem _ member)
  refine Only.iterate (fun _ => (assertValid_fitting header).bind fun _ => ?_) ()
  refine (checks _ fun id member => List.mem_range.mp member).bind fun finished => ?_
  split <;> exact .pure _

end Header

/-! ### The programs -/

theorem found_header (loc : Loc) (inHeader : loc.InHeader nodesWorker) : loc.Exists nodesWorker :=
  inHeader.found

theorem compareSwap_found (lower upper : Nat) :
    Only (Fitting (Loc.Exists nodesWorker)) (compareSwap (.data lower) (.data upper)) := by
  have reads : ∀ index, Only (Fitting (Loc.Exists nodesWorker)) (read (.data index) : Prog UInt64) :=
    fun index => read_fitting trivial
  refine (reads lower).bind fun left => (reads upper).bind fun right => ?_
  split
  · refine (reads lower).bind fun temp => (reads upper).bind fun moved => ?_
    refine (write_fitting trivial (word_fits moved)).bind fun _ => ?_
    exact write_fitting trivial (word_fits temp)
  · exact .pure ()

theorem sortPart_found (id : Nat) : Only (Fitting (Loc.Exists nodesWorker)) (sortPart id) := by
  have checks : Only (Fitting (Loc.Exists nodesWorker)) assertValid :=
    assertValid_fitting found_header
  refine checks.bind fun _ => (read_fitting trivial).bind fun _ => ?_
  refine (read_fitting trivial).bind fun elems => checks.bind fun _ => ?_
  refine (read_fitting trivial).bind fun nodes => ?_
  have divides : Only (Fitting (Loc.Exists nodesWorker)) (divide elems nodes) := by
    unfold divide
    split
    · exact .undefined
    · exact .pure _
  refine divides.bind fun elemsPerNode => Only.bind ?_ fun _ => checks
  apply Only.forM
  intro _ _
  apply Only.forM
  intro j _
  exact compareSwap_found ..

theorem readElems_found {Result : Type} {rest : UInt64 → Prog Result}
    (next : ∀ elems, Only (Fitting (Loc.Exists nodesWorker)) (rest elems)) :
    Only (Fitting (Loc.Exists nodesWorker)) (read .elems >>= rest) :=
  (read_fitting trivial).bind next

theorem mergeDone_found (iter : Nat → Nat) (parts : List Nat) :
    Only (Fitting (Loc.Exists nodesWorker)) (mergeDone nodesWorker iter parts) := by
  induction parts with
  | nil => exact .pure true
  | cons i rest inductionHypothesis =>
      apply readElems_found
      intro elems
      split
      · exact .pure false
      · exact inductionHypothesis

theorem mergeScan_found (iter : Nat → Nat) (least : UInt64 × Option Nat) (i : Nat) :
    Only (Fitting (Loc.Exists nodesWorker)) (mergeScan nodesWorker iter least i) := by
  apply readElems_found
  intro elems
  split
  · apply readElems_found
    intro elems
    refine (read_fitting trivial).bind fun elem => ?_
    split <;> exact .pure _
  · exact .pure least

theorem mergeRound_found (iter : Nat → Nat) :
    Only (Fitting (Loc.Exists nodesWorker)) (mergeRound nodesWorker iter) := by
  have scans : Only (Fitting (Loc.Exists nodesWorker)) ((List.range nodesWorker.toNat).foldlM
      (mergeScan nodesWorker iter) (uint64Max, none)) := Only.foldlM fun least i _ => mergeScan_found iter least i
  refine scans.bind fun ⟨minElem, minIdx⟩ => ?_
  cases minIdx with
  | none => exact .undefined
  | some minIdx =>
      refine (Only.emit trivial).bind fun _ => ?_
      apply readElems_found
      intro elems
      split <;> exact .pure _

theorem mergeWorker_found : Only (Fitting (Loc.Exists nodesWorker)) (mergeWorker nodesWorker) := by
  refine (assertValid_fitting found_header).bind fun _ => Only.iterate (fun iter => ?_) _
  refine (mergeDone_found iter _).bind fun finished => ?_
  split
  · exact .pure _
  · exact (mergeRound_found iter).bind fun _ => .pure _

end

end LibIvy.Workloads.Psort
