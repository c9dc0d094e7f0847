import LibIvy.Lib.NumberText
import Mathlib.Data.UInt

/-!
Contract: formatted extraction of numbers from a stream, the way the C++
standard library does it in base ten.

Owns: `operator>>` for an unsigned 64-bit and for a signed 32-bit variable, the
loop that extracts until the stream fails, and what both read from printed
numbers.

Does not own: other bases, locales with digit groups, input errors.

A stream is the text that is left to read, or `none` once it has failed: then no
extraction reads or assigns anything. Reaching the end of the text while digits
are read is no failure.
-/

namespace LibIvy.Lib

namespace NumberStream

open NumberText

/-- The text left to read; `none` after a failure. -/
abbrev Stream := Option Text

/-- What an extraction assigns to its variable, if anything, and the stream it
leaves. -/
structure Extraction (Value : Type) where
  assigned : Option Value
  stream : Stream

/-! ### Fields -/

/-- The field of a number: its sign, its digits and what follows them. -/
structure Field where
  negative : Bool
  digits : Text
  rest : Text

def readField (text : Text) : Field :=
  let (negative, unsigned) := readSign text
  ⟨negative, unsigned.takeWhile (isDigitIn 10), unsigned.dropWhile (isDigitIn 10)⟩

theorem readSign_length_le (text : Text) : (readSign text).2.length ≤ text.length := by
  unfold readSign
  split <;> simp

/-- The digits of a field are taken from the text. -/
theorem readField_shorter {text : Text} (digits : (readField text).digits ≠ []) :
    (readField text).rest.length < text.length := by
  have whole : (readField text).digits ++ (readField text).rest = (readSign text).2 :=
    List.takeWhile_append_dropWhile
  have lengths := congrArg List.length whole
  have positive := List.length_pos_iff.mpr digits
  have signed := readSign_length_le text
  rw [List.length_append] at lengths
  omega

/-- A text does not go on with a digit. -/
def EndsField (text : Text) : Prop := text.takeWhile (isDigitIn 10) = []

theorem readField_toText (value : Nat) {rest : Text} (ends : EndsField rest) :
    readField (toText value ++ rest) = ⟨false, toText value, rest⟩ := by
  have decimal : ∀ c ∈ toText value, isDigitIn 10 c = true := fun c member =>
    isDigitIn_ten_of_isDigit (isDigit_of_mem_toText member)
  obtain ⟨head, tail, digits⟩ := List.exists_cons_of_ne_nil (toText_ne_nil value)
  have plain := plain_of_isDigitIn (by decide) (decimal head (by rw [digits]; simp))
  have unsigned : readSign (toText value ++ rest) = (false, toText value ++ rest) := by
    rw [digits, List.cons_append]
    unfold readSign
    split <;> simp_all
  have kept : rest.dropWhile (isDigitIn 10) = rest := by
    have split := List.takeWhile_append_dropWhile (p := isDigitIn 10) (l := rest)
    rwa [show rest.takeWhile (isDigitIn 10) = [] from ends] at split
  rw [readField, unsigned]
  simp only [List.takeWhile_append_of_pos decimal, List.dropWhile_append_of_pos decimal, kept,
    show rest.takeWhile (isDigitIn 10) = [] from ends, List.append_nil]

/-! ### Extractions -/

section Extract

variable {Value : Type} (zero : Value) (convert : Bool → Nat → Value × Bool)

/-- One extraction, up to the conversion of sign and magnitude, which also says
whether the number fits. Leading blanks are skipped; a field without digits is
`zero` and a failure; of a number that does not fit all digits are taken. -/
def extract : Stream → Extraction Value
  | none => ⟨none, none⟩
  | some text =>
      if text.dropWhile isBlank = [] then ⟨none, none⟩
      else
        let field := readField (text.dropWhile isBlank)
        if field.digits = [] then ⟨some zero, none⟩
        else
          let (value, fits) := convert field.negative (digitsValue 10 field.digits)
          ⟨some value, if fits then some field.rest else none⟩

/-- An extraction that does not fail has read at least one digit. -/
theorem extract_shorter {text rest : Text}
    (left : (extract zero convert (some text)).stream = some rest) : rest.length < text.length := by
  have skipped : (text.dropWhile isBlank).length ≤ text.length :=
    (List.dropWhile_sublist isBlank).length_le
  unfold extract at left
  simp only at left
  split at left
  · contradiction
  · split at left
    · contradiction
    · rename_i digits
      have shorter := readField_shorter digits
      split at left
      · cases left
        omega
      · contradiction

/-- `while (stream >> variable)`: the values that the body of the loop sees. -/
def extractWhile (text : Text) : List Value :=
  match left : extract zero convert (some text) with
  | ⟨some value, some rest⟩ =>
      have : rest.length < text.length :=
        extract_shorter zero convert (congrArg Extraction.stream left)
      value :: extractWhile rest
  | _ => []
termination_by text.length

variable {zero convert}

theorem extractWhile_of_extracted {text rest : Text} {value : Value}
    (extracted : extract zero convert (some text) = ⟨some value, some rest⟩) :
    extractWhile zero convert text = value :: extractWhile zero convert rest := by
  rw [extractWhile]
  split
  · rename_i same
    rw [extracted] at same
    cases same
    rfl
  · rename_i other
    exact absurd extracted (other _ _)

theorem extractWhile_of_failed {text : Text}
    (failed : (extract zero convert (some text)).stream = none) :
    extractWhile zero convert text = [] := by
  rw [extractWhile]
  split
  · rename_i same
    rw [same] at failed
    contradiction
  · rfl

/-- Blanks and a printed number are one extraction. -/
theorem extract_toText {blanks : Text} (blank : ∀ c ∈ blanks, isBlank c = true) (value : Nat)
    {rest : Text} (ends : EndsField rest) :
    extract zero convert (some (blanks ++ (toText value ++ rest))) =
      ⟨some (convert false value).1, if (convert false value).2 then some rest else none⟩ := by
  obtain ⟨head, tail, digits⟩ := List.exists_cons_of_ne_nil (toText_ne_nil value)
  have decimal : head.isDigit = true :=
    isDigit_of_mem_toText (by rw [digits]; exact List.mem_cons_self)
  have plain := plain_of_isDigitIn (by decide) (isDigitIn_ten_of_isDigit decimal)
  have skipped : (blanks ++ (toText value ++ rest)).dropWhile isBlank = toText value ++ rest := by
    rw [List.dropWhile_append_of_pos blank, digits, List.cons_append, List.dropWhile_cons, plain.1]
    rfl
  have nonempty : toText value ++ rest ≠ [] := by simp [toText_ne_nil]
  simp only [extract, skipped, readField_toText value ends, digitsValue_toText, if_neg nonempty,
    if_neg (toText_ne_nil value)]

/-- Blanks up to the end are a failure that assigns nothing. -/
theorem extract_blanks {blanks : Text} (blank : ∀ c ∈ blanks, isBlank c = true) :
    extract zero convert (some blanks) = ⟨none, none⟩ := by
  have skipped : blanks.dropWhile isBlank = [] := List.dropWhile_eq_nil_iff.mpr blank
  simp only [extract, if_pos skipped]

end Extract

/-! ### Conversions -/

/-- The conversion for `size_t`: the magnitude is clamped, a sign negates modulo
`2 ^ 64`. -/
def convertSize (negative : Bool) (magnitude : Nat) : UInt64 × Bool :=
  if wordCount ≤ magnitude then (UInt64.ofNat (wordCount - 1), false)
  else if negative then (-UInt64.ofNat magnitude, true)
  else (UInt64.ofNat magnitude, true)

/-- The conversion for `int`: clamped at both ends. -/
def convertInt (negative : Bool) (magnitude : Nat) : Int32 × Bool :=
  let value : Int := if negative then -magnitude else magnitude
  if value < Int32.minValue.toInt then (Int32.minValue, false)
  else if Int32.maxValue.toInt < value then (Int32.maxValue, false)
  else (Int32.ofInt value, true)

/-- `stream >> variable` for a `size_t`. -/
def extractSize : Stream → Extraction UInt64 := extract 0 convertSize

/-- `while (stream >> variable)` for an `int`. -/
def extractInts (stream : Stream) : List Int32 := stream.elim [] (extractWhile 0 convertInt)

/-- The numbers that an `int` holds. -/
def intCount : Nat := 2 ^ 31

theorem convertSize_fits {value : Nat} (fits : value < wordCount) :
    convertSize false value = (UInt64.ofNat value, true) := by
  rw [convertSize, if_neg (Nat.not_le.mpr fits)]
  rfl

theorem convertInt_fits {value : Nat} (fits : value < intCount) :
    convertInt false value = (Int32.ofInt value, true) := by
  have lower : ¬((value : Int) < Int32.minValue.toInt) := by
    have least : Int32.minValue.toInt = -2147483648 := by decide
    omega
  have upper : ¬(Int32.maxValue.toInt < (value : Int)) := by
    have greatest : Int32.maxValue.toInt = 2147483647 := by decide
    rw [intCount] at fits
    omega
  simp only [convertInt, Bool.false_eq_true, ↓reduceIte, if_neg lower, if_neg upper]

theorem convertInt_fails {value : Nat} (fails : intCount ≤ value) :
    (convertInt false value).2 = false := by
  have lower : ¬((value : Int) < Int32.minValue.toInt) := by
    have least : Int32.minValue.toInt = -2147483648 := by decide
    omega
  have upper : Int32.maxValue.toInt < (value : Int) := by
    have greatest : Int32.maxValue.toInt = 2147483647 := by decide
    rw [intCount] at fails
    omega
  simp only [convertInt, Bool.false_eq_true, ↓reduceIte, if_neg lower, if_pos upper]

/-! ### Files with one number on each line -/

/-- The numbers on lines of their own, each after a line break. -/
def lines (numbers : List Nat) : Text := numbers.flatMap fun number => '\n' :: toText number

theorem endsField_lines (numbers : List Nat) {ending : Text} (ends : EndsField ending) :
    EndsField (lines numbers ++ ending) := by
  cases numbers with
  | nil => exact ends
  | cons number numbers => rfl

/-- Of numbers on lines, an `int` reads those before the first one that it does
not hold. -/
theorem extractInts_lines (numbers : List Nat) {ending : Text} (ends : EndsField ending)
    (blank : ∀ c ∈ ending, isBlank c = true) :
    extractInts (some (lines numbers ++ ending)) =
      (numbers.takeWhile fun number => number < intCount).map fun (number : Nat) =>
        Int32.ofInt number := by
  induction numbers with
  | nil => exact extractWhile_of_failed (by rw [lines, List.flatMap_nil, List.nil_append,
      extract_blanks blank])
  | cons number numbers inductionHypothesis =>
      have text : lines (number :: numbers) ++ ending =
          ['\n'] ++ (toText number ++ (lines numbers ++ ending)) := by
        simp [lines]
      have extracted : extract 0 convertInt (some (lines (number :: numbers) ++ ending)) = _ :=
        text ▸ extract_toText (by simp [isBlank]) number (endsField_lines numbers ends)
      by_cases fits : number < intCount
      · rw [convertInt_fits fits, if_pos rfl] at extracted
        rw [List.takeWhile_cons_of_pos (by simpa using fits), List.map_cons, ← inductionHypothesis]
        exact extractWhile_of_extracted extracted
      · rw [List.takeWhile_cons_of_neg (by simpa using fits)]
        refine extractWhile_of_failed ?_
        rw [extracted, convertInt_fails (Nat.not_lt.mp fits)]
        rfl

end NumberStream

end LibIvy.Lib
