import LibIvy.Lib.ByteLayout
import LibIvy.Workloads.PdotMain
import LibIvy.Workloads.PdotKeeps

/-!
Contract: the shared memory of pdot in bytes.

Owns: the bytes of every field of `shm_layout`, and that every node keeps to the
fields that exist, stores values that fit, and accesses no element beyond those that
the file has.

Does not own: the pages of the region, the order of the accesses.
-/

namespace LibIvy.Workloads.Pdot

open LibIvy.Lib Program Guarantee

/-- The offset of a field in `shm_layout`. -/
def Field.offset (nodesWorker : UInt64) : Field → Nat
  | .canary index => index
  | .shm .elems => 24
  | .shm .ready => 32
  | .shm (.result worker) => 40 + 8 * worker
  | .shm (.done worker) => 40 + 8 * nodesWorker.toNat + 8 * worker
  | .shm (.vecs index) => 4096 + 8 * index

def Field.size : Field → Nat
  | .canary _ => 1
  | .shm .ready => 1
  | .shm _ => 8

/-- The fields of the header end before the vectors begin, as the static assertion on
its size demands. -/
def HeaderFits (nodesWorker : UInt64) : Prop :=
  Field.offset nodesWorker (.shm (.done nodesWorker.toNat)) ≤ 4096

instance {nodesWorker : UInt64} : Decidable (HeaderFits nodesWorker) :=
  inferInstanceAs (Decidable (_ ≤ _))

/-- The field exists. -/
def Field.Exists (nodesWorker : UInt64) : Field → Prop
  | .canary index => index < canaryVal.length
  | .shm (.result worker) => worker < nodesWorker.toNat
  | .shm (.done worker) => worker < nodesWorker.toNat
  | .shm _ => True

theorem Field.apart {nodesWorker : UInt64} (fits : HeaderFits nodesWorker) (one other : Field)
    (oneExists : one.Exists nodesWorker) (otherExists : other.Exists nodesWorker)
    (different : one ≠ other) :
    one.offset nodesWorker + one.size ≤ other.offset nodesWorker ∨
      other.offset nodesWorker + other.size ≤ one.offset nodesWorker := by
  have canary : canaryVal.length = 17 := rfl
  have header : Field.offset nodesWorker (.shm (.done nodesWorker.toNat)) ≤ 4096 := fits
  unfold Field.offset at header
  rcases one with _ | (_ | _ | _ | _ | _) <;> rcases other with _ | (_ | _ | _ | _ | _) <;>
    simp only [Field.Exists, Field.offset, Field.size, ne_eq, not_true_eq_false,
      Field.canary.injEq, Field.shm.injEq, Loc.result.injEq, Loc.done.injEq, Loc.vecs.injEq] at * <;>
    omega

/-- `shm_layout` at the base of the region. -/
def shmLayout {nodesWorker : UInt64} (fits : HeaderFits nodesWorker) (base : Nat) :
    Layout Field UInt64 UInt8 :=
  wordLayout (fun field => base + field.offset nodesWorker) Field.size (Field.Exists nodesWorker)
    fun one other oneExists otherExists different => by
      have apart := Field.apart fits one other oneExists otherExists different
      omega

/-- The field exists, and an element is one before `bound`. -/
def Reached (nodesWorker : UInt64) (bound : Nat) (field : Field) : Prop :=
  field.Exists nodesWorker ∧ ∀ index, field = .shm (.vecs index) → index < bound

/-- The access is one of a field that is reached, and the value fits it. -/
abbrev Fitting {Note : Type} (nodesWorker : UInt64) (bound : Nat) : Effect Field UInt64 Note → Prop :=
  FitsIn Field.size (Reached nodesWorker bound)

section

variable {nodesWorker : UInt64} {bound : Nat} {input : Psort.Input} {Other : Type}

theorem byte_fits {value : UInt64} (small : value.toNat < 256) (field : Field) :
    value.toNat < 256 ^ field.size := by
  have byte : value.toNat < 256 ^ 1 := small
  refine Nat.lt_of_lt_of_le byte (Nat.pow_le_pow_right (by omega) ?_)
  rcases field with _ | (_ | _ | _ | _ | _) <;> simp [Field.size]

theorem reached_header (field : Field) (found : field.Exists nodesWorker)
    (inHeader : ∀ index, field ≠ .shm (.vecs index)) : Reached nodesWorker bound field :=
  ⟨found, fun index same => absurd same (inHeader index)⟩

theorem reached_vecs {index : Nat} (below : index < bound) :
    Reached nodesWorker bound (.shm (.vecs index)) := by
  refine ⟨trivial, fun other same => ?_⟩
  rwa [← Loc.vecs.inj (Field.shm.inj same)]

/-- A load of the header. -/
theorem read_fitting (field : Field) (found : field.Exists nodesWorker)
    (inHeader : ∀ index, field ≠ .shm (.vecs index)) :
    Only (Fitting nodesWorker bound) (read field : Program Field UInt64 Other UInt64) :=
  .read fun _ => reached_header field found inHeader

/-- A store to the header. -/
theorem write_fitting (field : Field) {value : UInt64} (found : field.Exists nodesWorker)
    (inHeader : ∀ index, field ≠ .shm (.vecs index)) (small : value.toNat < 256 ^ field.size) :
    Only (Fitting nodesWorker bound) (write field value : Program Field UInt64 Other Unit) :=
  .write ⟨reached_header field found inHeader, small⟩

/-! ### `main` of node 1 -/

theorem canaryVal_small {value : UInt64} (member : value ∈ canaryVal) : value.toNat < 256 := by
  have all : (canaryVal.all fun value => value.toNat < 256) = true := by decide
  exact of_decide_eq_true (List.all_eq_true.mp all value member)

theorem loadVectors_fitting (bounded : input.numbers.length ≤ bound) :
    Only (Fitting nodesWorker bound) (ofFields (loadVectors nodesWorker input)) := by
  have numbers : Only (Fitting nodesWorker bound) (input.numbers.zipIdx.forM fun entry =>
      (write (.shm (.vecs entry.2)) entry.1.toInt64.toUInt64 : Main Unit)) := by
    apply Only.forM
    rintro ⟨number, index⟩ member
    have listed := List.mk_mem_zipIdx_iff_getElem?.mp member
    obtain ⟨inside, -⟩ := List.getElem?_eq_some_iff.mp listed
    exact .write ⟨reached_vecs (Nat.lt_of_lt_of_le inside bounded), word_fits _⟩
  have canary : Only (Fitting nodesWorker bound) (canaryVal.zipIdx.forM fun entry =>
      (write (.canary entry.2) entry.1 : Main Unit)) := by
    apply Only.forM
    rintro ⟨value, index⟩ member
    have listed := List.mk_mem_zipIdx_iff_getElem?.mp member
    obtain ⟨inside, -⟩ := List.getElem?_eq_some_iff.mp listed
    exact write_fitting (.canary index) inside nofun
      (byte_fits (canaryVal_small (List.mem_of_getElem? listed)) _)
  have flags : Only (Fitting nodesWorker bound) ((List.range nodesWorker.toNat).forM fun i =>
      (write (.shm (.done i)) 0 : Main Unit)) :=
    Only.forM fun i member => write_fitting (.shm (.done i)) (List.mem_range.mp member)
      (by simp) (byte_fits (by decide) _)
  have shape : ofFields (loadVectors nodesWorker input) = (do
      input.numbers.zipIdx.forM fun entry => write (.shm (.vecs entry.2)) entry.1.toInt64.toUInt64
      canaryVal.zipIdx.forM fun entry => write (.canary entry.2) entry.1
      write (.shm .elems) input.elems
      write (.shm .ready) 0
      (List.range nodesWorker.toNat).forM fun i => write (.shm (.done i)) 0
      write (.shm .ready) 1) := by
    simp only [ofFields, loadVectors, fillVectors, relabel_bind, relabel_write, relabel_forM, id,
      LawfulMonad.bind_assoc]
  rw [shape]
  have ready : ∀ value : UInt64, value.toNat < 256 →
      Only (Fitting nodesWorker bound) (write (.shm .ready) value : Main Unit) := fun _ small =>
    write_fitting (.shm .ready) trivial (by simp) (byte_fits small _)
  have count : Only (Fitting nodesWorker bound) (write (.shm .elems) input.elems : Main Unit) :=
    write_fitting (.shm .elems) trivial (by simp) (word_fits _)
  exact numbers.bind fun _ => canary.bind fun _ => count.bind fun _ =>
    (ready 0 (by decide)).bind fun _ => flags.bind fun _ => ready 1 (by decide)

theorem waitForWorkers_fitting :
    Only (Fitting nodesWorker bound) (ofShm (waitForWorkers nodesWorker)) := by
  apply Only.relabel
  refine Only.iterate (fun _ => Only.bind ?_ fun allDone => ?_) ()
  · apply Only.foldlM
    intro allDone i member
    refine (Only.read fun _ => ?_).bind fun flag => ?_
    · exact reached_header (.shm (.done i)) (List.mem_range.mp member) (by simp)
    · split <;> exact .pure _
  · split <;> exact .pure _

theorem mergeWorker_fitting :
    Only (Fitting nodesWorker bound) (ofShm (mergeWorker nodesWorker)) := by
  apply Only.relabel
  apply Only.foldlM
  intro result i member
  have looks : Only (fun event => Fitting nodesWorker bound
      (Effect.relabel Field.shm (Empty.elim : Empty → Note) event)) (read (.result i)) := by
    refine .read fun _ => ?_
    exact reached_header (.shm (.result i)) (List.mem_range.mp member) (by simp)
  exact looks.bind fun _ => looks.bind fun _ => .pure _

/-! ### `mult_worker` -/

theorem awaitReady_fitting : Only (Fitting nodesWorker bound) (ofShm awaitReady) := by
  apply Only.relabel
  apply Only.whileDo
  · refine (Only.read fun _ => ?_).bind fun _ => .pure _
    exact reached_header (.shm .ready) trivial (by simp)
  · exact .pure ()

theorem finish_fitting {id : Nat} (valid : id < nodesWorker.toNat) (sum : UInt64) :
    Only (Fitting nodesWorker bound) (finish nodesWorker id sum) := by
  have result : Only (Fitting nodesWorker bound) (write (.shm (.result id)) sum : Main Unit) :=
    write_fitting (.shm (.result id)) valid (by simp) (word_fits _)
  have flag : Only (Fitting nodesWorker bound)
      (write (.shm (.done id)) 0xffffffffffffffff : Main Unit) :=
    write_fitting (.shm (.done id)) valid (by simp) (word_fits _)
  refine result.bind fun _ => flag.bind fun _ => Only.forM fun i member => .discard ?_
  exact read_fitting (.shm (.done i)) (List.mem_range.mp member) (by simp)

/-- The part of a worker ends before the elements do. -/
theorem addPart_stays {id : Nat} (valid : id < nodesWorker.toNat) :
    Triple ((mainMay nodesWorker input).restrict (Fitting nodesWorker input.elems.toNat))
      (.worker id) (Open nodesWorker input) (ofShm (addPart nodesWorker id)) fun sum config =>
        sum = workerSum nodesWorker input id ∧ Open nodesWorker input config := by
  have length : vectorLength (publishedShm nodesWorker input) = input.elems.toNat / 2 := by
    rw [vectorLength, publishedShm, published, loaded_elems]
  have ends : share nodesWorker (publishedShm nodesWorker input) * (id + 1) ≤
      input.elems.toNat / 2 := by
    refine le_trans (Nat.mul_le_mul_left _ valid) ?_
    rw [← length, share]
    exact Nat.div_mul_le_self ..
  rw [Nat.mul_add, Nat.mul_one] at ends
  have vecs : ∀ {index}, index < input.elems.toNat → ∀ value : UInt64,
      Fitting nodesWorker input.elems.toNat (Effect.relabel Field.shm (Empty.elim : Empty → Note)
        (.load (.vecs index) value)) := fun below _ => reached_vecs below
  obtain ⟨events, sum, after, evaluated, loads, -, sameSum⟩ :=
    @addPart_ensures nodesWorker (publishedShm nodesWorker input)
      (fun event => (∃ loc value, Input loc ∧ event = .load loc value) ∧
        Fitting nodesWorker input.elems.toNat
          (event.relabel Field.shm (Empty.elim : Empty → Note))) id
      (fun value => ⟨⟨.elems, value, trivial, rfl⟩, reached_header (.shm .elems) trivial (by simp)⟩)
      fun i below value => ⟨⟨⟨.vecs _, value, trivial, rfl⟩, vecs (by omega) value⟩,
        ⟨.vecs _, value, trivial, rfl⟩, vecs (by omega) value⟩
  obtain ⟨later, evaluated, -⟩ := evaluated.relabel Field.shm (Empty.elim : Empty → Note)
    (fun _ _ => Field.shm.inj) (published nodesWorker input) fun _ => rfl
  have undisturbed := (@addPart_undisturbed nodesWorker input id _
    fun event member => (loads event member).1).restrict
    (Fitting nodesWorker input.elems.toNat) fun event member => by
      obtain ⟨inner, listed, rfl⟩ := List.mem_map.mp member
      exact (loads inner listed).2
  refine (Triple.of_eval evaluated undisturbed).conseq
    (fun config opened => ⟨opened, opened.agree⟩) ?_
  rintro result config ⟨rfl, opened, -⟩
  exact ⟨sameSum, opened⟩

/-! ### All nodes -/

theorem manager_fitting (bounded : input.numbers.length ≤ bound) :
    Only (Fitting nodesWorker bound) (manager nodesWorker input) :=
  (loadVectors_fitting bounded).bind fun _ => waitForWorkers_fitting.bind fun _ =>
    mergeWorker_fitting.bind fun _ => Only.emit trivial

end

end LibIvy.Workloads.Pdot
