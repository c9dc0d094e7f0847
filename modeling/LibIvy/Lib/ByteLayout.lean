import LibIvy.Lib.AtomicMemory
import LibIvy.Lib.Program
import Mathlib.Algebra.Group.Nat.Defs

/-!
Contract: typed locations kept in a memory of bytes.

A layout gives every location a run of bytes and says how a value is written
there. The runs of valid locations do not overlap, so a program that keeps to
them may be read as one over typed locations.

Owns: little-endian words, layouts and their laws, the accesses that a layout
permits, and the relation between a typed memory and the bytes that hold it.

Does not own: any particular layout, the programs.
-/

namespace LibIvy.Lib

open AtomicMemory

/-! ### Little-endian words -/

/-- The lowest `size` bytes of a number, lowest first. -/
def littleEndian : Nat → Nat → List UInt8
  | 0, _ => []
  | size + 1, number => .ofNat number :: littleEndian size (number / 256)

/-- The number that the bytes stand for. -/
def ofLittleEndian : List UInt8 → Nat
  | [] => 0
  | byte :: bytes => byte.toNat + 256 * ofLittleEndian bytes

@[simp] theorem littleEndian_length (size number : Nat) :
    (littleEndian size number).length = size := by
  induction size generalizing number with
  | zero => rfl
  | succ size inductionHypothesis => simp [littleEndian, inductionHypothesis]

theorem ofLittleEndian_littleEndian {size number : Nat} (fits : number < 256 ^ size) :
    ofLittleEndian (littleEndian size number) = number := by
  induction size generalizing number with
  | zero =>
      rw [Nat.pow_zero, Nat.lt_one_iff] at fits
      rw [fits]
      rfl
  | succ size inductionHypothesis =>
      have rest : number / 256 < 256 ^ size := by
        apply Nat.div_lt_of_lt_mul
        rwa [Nat.mul_comm, ← Nat.pow_succ]
      have byte : (UInt8.ofNat number).toNat = number % 256 := UInt8.toNat_ofNat' ..
      rw [littleEndian, ofLittleEndian, inductionHypothesis rest, byte]
      exact Nat.mod_add_div number 256

theorem ofLittleEndian_zero (size : Nat) : ofLittleEndian (List.replicate size 0) = 0 := by
  induction size with
  | zero => rfl
  | succ size inductionHypothesis =>
      rw [List.replicate_succ, ofLittleEndian, inductionHypothesis]
      rfl

/-! ### Layouts -/

/-- Where each location is kept, and how. Only the bytes of `Valid` locations are
apart from each other; only values that `Fits` are read back. -/
structure Layout (Loc Value Byte : Type) where
  start : Loc → Nat
  size : Loc → Nat
  encode : Loc → Value → List Byte
  decode : Loc → List Byte → Value
  Valid : Loc → Prop
  Fits : Loc → Value → Prop
  encode_length : ∀ loc value, (encode loc value).length = size loc
  decode_encode : ∀ loc value, Fits loc value → decode loc (encode loc value) = value
  apart : ∀ one other, Valid one → Valid other → one ≠ other →
    start one + size one ≤ start other ∨ start other + size other ≤ start one

namespace Layout

variable {Loc Value Byte Note : Type} {layout : Layout Loc Value Byte}

/-- The value that the bytes hold at a location. -/
def fetch (layout : Layout Loc Value Byte) (bytes : Nat → Byte) (loc : Loc) : Value :=
  layout.decode loc (readSpan bytes (layout.start loc) (layout.size loc))

/-- The layout says what the event means for the bytes. -/
def Permits (layout : Layout Loc Value Byte) : Effect Loc Value Note → Prop
  | .load loc _ => layout.Valid loc
  | .store loc value => layout.Valid loc ∧ layout.Fits loc value
  | .note _ => True

/-- The bytes hold the typed memory. -/
def Holds (layout : Layout Loc Value Byte) (bytes : Nat → Byte) (mem : Loc → Value) : Prop :=
  ∀ loc, layout.Valid loc → layout.fetch bytes loc = mem loc

/-- What is fetched depends on the bytes of the location only. -/
theorem fetch_congr {left right : Nat → Byte} {loc : Loc}
    (same : readSpan left (layout.start loc) (layout.size loc) =
      readSpan right (layout.start loc) (layout.size loc)) :
    layout.fetch left loc = layout.fetch right loc :=
  congrArg (layout.decode loc) same

theorem Holds.store [DecidableEq Loc] {bytes : Nat → Byte} {mem : Loc → Value} {loc : Loc}
    {value : Value} (holds : layout.Holds bytes mem) (valid : layout.Valid loc)
    (fits : layout.Fits loc value) :
    layout.Holds (writeSpan bytes (layout.start loc) (layout.encode loc value))
      (Function.update mem loc value) := by
  intro other otherValid
  by_cases same : other = loc
  · subst same
    rw [Function.update_self, fetch, ← layout.encode_length other value, readSpan_writeSpan]
    exact layout.decode_encode other value fits
  · rw [Function.update_of_ne same, ← holds other otherValid]
    apply fetch_congr
    apply readSpan_writeSpan_apart
    rw [layout.encode_length]
    exact layout.apart other loc otherValid valid same

end Layout

/-! ### Layouts of words -/

/-- The word at a location is kept in little-endian order. -/
def wordLayout {Loc : Type} (start size : Loc → Nat) (Valid : Loc → Prop)
    (apart : ∀ one other, Valid one → Valid other → one ≠ other →
      start one + size one ≤ start other ∨ start other + size other ≤ start one) :
    Layout Loc UInt64 UInt8 where
  start := start
  size := size
  encode loc value := littleEndian (size loc) value.toNat
  decode _ bytes := .ofNat (ofLittleEndian bytes)
  Valid := Valid
  Fits loc value := value.toNat < 256 ^ size loc
  encode_length _ _ := littleEndian_length ..
  decode_encode loc value fits := by
    rw [ofLittleEndian_littleEndian fits]
    exact UInt64.ofNat_toNat
  apart := apart

/-- The access is one of the region, and what is stored fits the location. -/
def FitsIn {Loc Note : Type} (size : Loc → Nat) (region : Loc → Prop) :
    Effect Loc UInt64 Note → Prop
  | .load loc _ => region loc
  | .store loc value => region loc ∧ value.toNat < 256 ^ size loc
  | .note _ => True

theorem FitsIn.within {Loc Note : Type} {size : Loc → Nat} {region : Loc → Prop}
    {event : Effect Loc UInt64 Note} (fits : FitsIn size region event) : event.Within region := by
  cases event with
  | load loc value => exact fits
  | store loc value => exact fits.1
  | note text => trivial

theorem FitsIn.mono {Loc Note : Type} {size : Loc → Nat} {region wider : Loc → Prop}
    {event : Effect Loc UInt64 Note} (fits : FitsIn size region event)
    (widen : ∀ loc, region loc → wider loc) : FitsIn size wider event := by
  cases event with
  | load loc value => exact widen loc fits
  | store loc value => exact fits.imp_left (widen loc)
  | note text => trivial

/-- Eight bytes hold any word. -/
theorem word_fits (value : UInt64) : value.toNat < 256 ^ 8 := value.toNat_lt

/-- Zero bytes hold zero words. -/
theorem wordLayout_zero {Loc : Type} {start size : Loc → Nat} {Valid : Loc → Prop}
    {apart : ∀ one other, Valid one → Valid other → one ≠ other →
      start one + size one ≤ start other ∨ start other + size other ≤ start one} :
    (wordLayout start size Valid apart).Holds (fun _ => 0) fun _ => 0 := by
  intro loc _
  have zeros : readSpan (fun _ => (0 : UInt8)) (start loc) (size loc) =
      List.replicate (size loc) 0 := by
    rw [readSpan, List.map_const', List.length_range]
  change UInt64.ofNat (ofLittleEndian (readSpan _ (start loc) (size loc))) = 0
  rw [zeros, ofLittleEndian_zero]
  rfl

end LibIvy.Lib
