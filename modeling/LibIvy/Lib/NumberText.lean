import Mathlib.Algebra.Group.Nat.Defs
import Mathlib.Data.List.TakeWhile

/-!
Contract: numbers as text, the way the C++ standard library prints and reads
them.

Owns: `toText` (`std::to_string` of an unsigned 64-bit value), `stoul`
(`std::stoul` with the C `strtoul` grammar: leading blanks, one sign, an
optional `0x` in base sixteen, the longest run of digits, a thrown exception
without digits or out of range, negation modulo `2 ^ 64`), splitting at the
first separator, and the inversion law of printing and reading.

A text is the list of its characters. `none` stands for a thrown exception.
-/

namespace LibIvy.Lib

/-- A C++ `std::string`. -/
abbrev Text := List Char

namespace NumberText

/-- The number of 64-bit values. -/
def wordCount : Nat := 2 ^ 64

/-- `isspace` in the C locale. -/
def isBlank (c : Char) : Bool :=
  c == ' ' || (9 ≤ c.toNat && c.toNat ≤ 13)

/-- Value of a character as a digit; `99` when it is no digit in any base. -/
def digitValue (c : Char) : Nat :=
  if '0' ≤ c ∧ c ≤ '9' then c.toNat - 48
  else if 'a' ≤ c ∧ c ≤ 'z' then c.toNat - 87
  else if 'A' ≤ c ∧ c ≤ 'Z' then c.toNat - 55
  else 99

def isDigitIn (base : Nat) (c : Char) : Bool := digitValue c < base

def digitsValue (base : Nat) (digits : Text) : Nat :=
  digits.foldl (fun value digit => base * value + digitValue digit) 0

/-- `strtoul` drops `0x` in base sixteen when a digit follows it. -/
def dropRadix (base : Nat) : Text → Text
  | '0' :: x :: digit :: rest =>
      if base = 16 ∧ (x = 'x' ∨ x = 'X') ∧ isDigitIn 16 digit then digit :: rest
      else '0' :: x :: digit :: rest
  | text => text

/-- The sign and what follows it. -/
def readSign : Text → Bool × Text
  | '-' :: rest => (true, rest)
  | '+' :: rest => (false, rest)
  | text => (false, text)

/-- `std::stoul(text, nullptr, base)`. -/
def stoul (base : Nat) (text : Text) : Option Nat :=
  let (negative, rest) := readSign (text.dropWhile isBlank)
  let digits := (dropRadix base rest).takeWhile (isDigitIn base)
  if digits = [] then none
  else if wordCount ≤ digitsValue base digits then none
  else if negative then some ((wordCount - digitsValue base digits) % wordCount)
  else some (digitsValue base digits)

/-- `std::to_string` of an unsigned value. -/
def toText (value : Nat) : Text := Nat.toDigits 10 value

/-- The text before the first `separator`, and what `substr(pos + 1, size - 1)`
takes after it. Without a separator `find` is `npos`, so the first part is the
whole text and `npos + 1` wraps to the start. -/
def splitAtFirst (separator : Char) (text : Text) : Text × Text :=
  match text.findIdx? (· == separator) with
  | some position => (text.take position, (text.drop (position + 1)).take (text.length - 1))
  | none => (text, text.take (text.length - 1))

/-! ### Decimal digits -/

theorem digitValue_of_isDigit {c : Char} (digit : c.isDigit = true) :
    digitValue c = c.toNat - 48 := by
  simp only [Char.isDigit, Bool.and_eq_true, decide_eq_true_eq, ge_iff_le] at digit
  unfold digitValue
  rw [if_pos ⟨digit.1, digit.2⟩]

theorem isDigitIn_ten_of_isDigit {c : Char} (digit : c.isDigit = true) :
    isDigitIn 10 c = true := by
  have value := digitValue_of_isDigit digit
  simp only [Char.isDigit, Bool.and_eq_true, decide_eq_true_eq, ge_iff_le] at digit
  have upper : c.toNat ≤ 57 := digit.2
  simp only [isDigitIn, value, decide_eq_true_eq]
  omega

theorem isDigit_of_mem_toText {value : Nat} {c : Char} (member : c ∈ toText value) :
    c.isDigit = true :=
  Nat.isDigit_of_mem_toDigits (by decide) (by decide) member

theorem toText_ne_nil (value : Nat) : toText value ≠ [] := by
  simp [toText]

private theorem foldl_digitValue_eq (digits : Text) (initial : Nat)
    (decimal : ∀ c ∈ digits, c.isDigit = true) :
    digits.foldl (fun value digit => 10 * value + digitValue digit) initial =
      Nat.ofDigitChars 10 digits initial := by
  induction digits generalizing initial with
  | nil => simp
  | cons head tail inductionHypothesis =>
      rw [List.foldl_cons, Nat.ofDigitChars_cons,
        inductionHypothesis _ (fun c member => decimal c (List.mem_cons_of_mem _ member)),
        digitValue_of_isDigit (decimal head (by simp))]
      rfl

theorem digitsValue_toText (value : Nat) : digitsValue 10 (toText value) = value := by
  unfold digitsValue
  rw [foldl_digitValue_eq _ _ (fun c member => isDigit_of_mem_toText member)]
  exact Nat.ofDigitChars_ten_toDigits

theorem separator_not_mem_toText (value : Nat) : ':' ∉ toText value := by
  intro member
  have digit := isDigit_of_mem_toText member
  exact absurd digit (by decide)

/-! ### Reading digits -/

/-- Digits are letters or decimal digits: no blanks, no signs. -/
theorem plain_of_isDigitIn {base : Nat} {c : Char} (bound : base ≤ 99)
    (digit : isDigitIn base c = true) : isBlank c = false ∧ c ≠ '-' ∧ c ≠ '+' := by
  have value : digitValue c ≠ 99 := by
    simp only [isDigitIn, decide_eq_true_eq] at digit
    omega
  have lower : 48 ≤ c.toNat := by
    unfold digitValue at value
    split at value
    · rename_i decimal
      exact decimal.1
    · split at value
      · rename_i letter
        exact le_trans (by decide : (48 : Nat) ≤ 97) letter.1
      · split at value
        · rename_i letter
          exact le_trans (by decide : (48 : Nat) ≤ 65) letter.1
        · exact absurd rfl value
  have notSpace : c ≠ ' ' := by rintro rfl; exact absurd lower (by decide)
  refine ⟨?_, ?_, ?_⟩
  · simp only [isBlank, Bool.or_eq_false_iff, beq_eq_false_iff_ne, ne_eq, notSpace,
      not_false_eq_true, Bool.and_eq_false_iff, decide_eq_false_iff_not, true_and]
    omega
  · intro same
    subst same
    exact absurd lower (by decide)
  · intro same
    subst same
    exact absurd lower (by decide)

/-- A text that starts with a digit has no blanks to skip and no sign. -/
theorem readSign_of_digit {base : Nat} {head : Char} (bound : base ≤ 99) (rest : Text)
    (digit : isDigitIn base head = true) :
    readSign ((head :: rest).dropWhile isBlank) = (false, head :: rest) := by
  obtain ⟨notBlank, notMinus, notPlus⟩ := plain_of_isDigitIn bound digit
  simp only [List.dropWhile_cons, notBlank, Bool.false_eq_true, ↓reduceIte]
  unfold readSign
  split <;> simp_all

/-- The `x` of a radix is no digit. -/
theorem dropRadix_digits {base : Nat} {digits : Text}
    (inBase : ∀ c ∈ digits, isDigitIn base c = true) : dropRadix base digits = digits := by
  unfold dropRadix
  split
  · rename_i x digit rest
    refine if_neg ?_
    rintro ⟨rfl, radix, -⟩
    have member := inBase x (by simp)
    rcases radix with rfl | rfl <;> exact absurd member (by decide)
  · rfl

/-- Only base sixteen has a radix to drop. -/
theorem dropRadix_ten (text : Text) : dropRadix 10 text = text := by
  unfold dropRadix
  split
  · exact if_neg (by simp)
  · rfl

/-- Digits are read as their value. -/
theorem stoul_digits {base : Nat} {digits : Text} (bound : base ≤ 99) (nonempty : digits ≠ [])
    (inBase : ∀ c ∈ digits, isDigitIn base c = true) :
    stoul base digits =
      if wordCount ≤ digitsValue base digits then none else some (digitsValue base digits) := by
  obtain ⟨head, tail, rfl⟩ := List.exists_cons_of_ne_nil nonempty
  have sign := readSign_of_digit bound tail (inBase head (by simp))
  have taken : (head :: tail).takeWhile (isDigitIn base) = head :: tail :=
    List.takeWhile_eq_self_iff.mpr inBase
  simp only [stoul, sign, dropRadix_digits inBase, taken, nonempty, ↓reduceIte, Bool.false_eq_true]

theorem stoul_decimal {digits : Text} (nonempty : digits ≠ [])
    (decimal : ∀ c ∈ digits, c.isDigit = true) :
    stoul 10 digits =
      if wordCount ≤ digitsValue 10 digits then none else some (digitsValue 10 digits) :=
  stoul_digits (by decide) nonempty fun c member => isDigitIn_ten_of_isDigit (decimal c member)

/-- Reading a printed 64-bit value gives it back. -/
theorem stoul_toText {value : Nat} (fits : value < wordCount) :
    stoul 10 (toText value) = some value := by
  rw [stoul_decimal (toText_ne_nil value) fun c member => isDigit_of_mem_toText member,
    digitsValue_toText, if_neg (Nat.not_le.mpr fits)]

/-! ### What a text must look like to be read -/

theorem isDigitIn_ten {c : Char} : isDigitIn 10 c = c.isDigit := by
  cases digit : c.isDigit with
  | true => exact isDigitIn_ten_of_isDigit digit
  | false =>
      have outside : ¬('0' ≤ c ∧ c ≤ '9') := by
        intro inside
        simp only [Char.isDigit, Bool.and_eq_false_iff, decide_eq_false_iff_not] at digit
        rcases digit with low | high
        · exact low inside.1
        · exact high inside.2
      simp only [isDigitIn, digitValue, if_neg outside, decide_eq_false_iff_not]
      split
      · rename_i letter
        have lower : 97 ≤ c.toNat := letter.1
        omega
      · split
        · rename_i letter
          have lower : 65 ≤ c.toNat := letter.1
          omega
        · omega

/-- A text that starts with a decimal number: blanks, a sign, digits, and a rest that
does not go on with a digit. -/
structure NumberField (text blanks sign digits rest : Text) : Prop where
  text : text = blanks ++ (sign ++ (digits ++ rest))
  blank : ∀ c ∈ blanks, isBlank c = true
  sign : sign = [] ∨ sign = ['-'] ∨ sign = ['+']
  nonempty : digits ≠ []
  decimal : ∀ c ∈ digits, c.isDigit = true
  stops : ∀ c ∈ rest.head?, c.isDigit = false

namespace NumberField

variable {text blanks sign digits rest : Text}

/-- The digits end where the rest begins. -/
theorem takeWhile_digits (field : NumberField text blanks sign digits rest) :
    (digits ++ rest).takeWhile (isDigitIn 10) = digits := by
  have decimal : ∀ c ∈ digits, isDigitIn 10 c = true := fun c member =>
    isDigitIn_ten_of_isDigit (field.decimal c member)
  rw [List.takeWhile_append_of_pos decimal]
  cases rest with
  | nil => simp
  | cons head tail =>
      have stops : isDigitIn 10 head = false := isDigitIn_ten.trans (field.stops head (by simp))
      simp [stops]

/-- The sign, after the blanks. -/
theorem readSign_eq (field : NumberField text blanks sign digits rest) :
    readSign (text.dropWhile isBlank) = (sign == ['-'], digits ++ rest) := by
  obtain ⟨head, tail, split⟩ := List.exists_cons_of_ne_nil field.nonempty
  have digit : isDigitIn 10 head = true :=
    isDigitIn_ten_of_isDigit (field.decimal head (by simp [split]))
  rw [field.text, List.dropWhile_append_of_pos field.blank]
  rcases field.sign with rfl | rfl | rfl
  · rw [List.nil_append, split, List.cons_append, readSign_of_digit (by decide) _ digit]
    rfl
  · rfl
  · rfl

/-- `stoul` reads the number that the text starts with. -/
theorem stoul_eq (field : NumberField text blanks sign digits rest) :
    stoul 10 text =
      if wordCount ≤ digitsValue 10 digits then none
      else if sign = ['-'] then some ((wordCount - digitsValue 10 digits) % wordCount)
      else some (digitsValue 10 digits) := by
  simp only [stoul, field.readSign_eq, dropRadix_ten, field.takeWhile_digits, field.nonempty,
    ↓reduceIte, beq_iff_eq]

end NumberField

private theorem readSign_split (text : Text) :
    ∃ sign, (sign = [] ∨ sign = ['-'] ∨ sign = ['+']) ∧ text = sign ++ (readSign text).2 := by
  unfold readSign
  split
  · exact ⟨['-'], by simp, rfl⟩
  · exact ⟨['+'], by simp, rfl⟩
  · exact ⟨[], by simp, rfl⟩

/-- Whatever `stoul` reads starts with a number. -/
theorem numberField_of_stoul {text : Text} {value : Nat} (read : stoul 10 text = some value) :
    ∃ blanks sign digits rest, NumberField text blanks sign digits rest := by
  obtain ⟨sign, isSign, split⟩ := readSign_split (text.dropWhile isBlank)
  let after := (readSign (text.dropWhile isBlank)).2
  refine ⟨text.takeWhile isBlank, sign, after.takeWhile (isDigitIn 10),
    after.dropWhile (isDigitIn 10), ?_, ?_, isSign, ?_, ?_, ?_⟩
  · rw [List.takeWhile_append_dropWhile, ← split, List.takeWhile_append_dropWhile]
  · exact fun c member => List.mem_takeWhile_imp member
  · intro empty
    simp only [stoul, dropRadix_ten] at read
    rw [if_pos empty] at read
    contradiction
  · intro c member
    rw [← isDigitIn_ten]
    exact List.mem_takeWhile_imp member
  · intro c starts
    have stops := List.head?_dropWhile_not (isDigitIn 10) after
    rw [Option.mem_def.mp starts] at stops
    exact isDigitIn_ten.symm.trans stops

/-! ### Splitting -/

/-- The pieces that repeated `std::getline(stream, piece, separator)` takes from a
stream of the text. Nothing follows a separator at the end. -/
def getlines (separator : Char) : Text → List Text
  | [] => []
  | c :: rest =>
      if c = separator then [] :: getlines separator rest
      else match getlines separator rest with
        | [] => [[c]]
        | line :: lines => (c :: line) :: lines

theorem getlines_append {separator : Char} {line : Text} (absent : separator ∉ line) (rest : Text) :
    getlines separator (line ++ separator :: rest) = line :: getlines separator rest := by
  induction line with
  | nil => simp [getlines]
  | cons c line inductionHypothesis =>
      obtain ⟨different, absent⟩ : separator ≠ c ∧ separator ∉ line := by simpa using absent
      rw [List.cons_append, getlines, if_neg (Ne.symm different), inductionHypothesis absent]

theorem getlines_ne_nil {separator : Char} {text : Text} (nonempty : text ≠ []) :
    getlines separator text ≠ [] := by
  cases text with
  | nil => contradiction
  | cons c rest =>
      rw [getlines]
      split
      · exact List.cons_ne_nil _ _
      · split <;> exact List.cons_ne_nil _ _

/-- A text without the separator, then the separator, splits at it; the count of
`substr` is never too small for the second part. -/
theorem splitAtFirst_append {separator : Char} {first second : Text}
    (absent : separator ∉ first) :
    splitAtFirst separator (first ++ separator :: second) = (first, second) := by
  have position : (first ++ separator :: second).findIdx? (· == separator) =
      some first.length := by
    rw [List.findIdx?_append]
    have none : first.findIdx? (· == separator) = none := by
      rw [List.findIdx?_eq_none_iff]
      intro c member
      simp only [beq_eq_false_iff_ne, ne_eq]
      intro same
      subst same
      exact absent member
    simp [none, List.findIdx?_cons]
  have dropped : (first ++ separator :: second).drop (first.length + 1) = second := by
    simp [List.drop_append]
  simp only [splitAtFirst, position, List.take_left, dropped, Prod.mk.injEq, true_and]
  apply List.take_of_length_le
  simp only [List.length_append, List.length_cons]
  omega

/-- A text with the separator is what it splits into. -/
theorem eq_append_of_splitAtFirst {separator : Char} {text first second : Text}
    (present : separator ∈ text) (split : splitAtFirst separator text = (first, second)) :
    text = first ++ separator :: second ∧ separator ∉ first := by
  obtain ⟨before, after, rfl, absent⟩ := List.eq_append_cons_of_mem present
  rw [splitAtFirst_append absent] at split
  obtain ⟨rfl, rfl⟩ := split
  exact ⟨rfl, absent⟩

/-- Both ways in which a text splits. -/
theorem splitAtFirst_eq_iff {separator : Char} {text first second : Text} :
    splitAtFirst separator text = (first, second) ↔
      text = first ++ separator :: second ∧ separator ∉ first ∨
        separator ∉ text ∧ first = text ∧ second = text.dropLast := by
  by_cases present : separator ∈ text
  · constructor
    · exact fun split => .inl (eq_append_of_splitAtFirst present split)
    · rintro (⟨rfl, absent⟩ | ⟨absent, -⟩)
      · exact splitAtFirst_append absent
      · contradiction
  · have nowhere : text.findIdx? (· == separator) = none := by
      rw [List.findIdx?_eq_none_iff]
      intro c member
      simp only [beq_eq_false_iff_ne, ne_eq]
      intro same
      subst same
      exact present member
    simp only [splitAtFirst, nowhere, ← List.dropLast_eq_take, Prod.mk.injEq]
    constructor
    · rintro ⟨rfl, rfl⟩
      exact .inr ⟨present, rfl, rfl⟩
    · rintro (⟨rfl, -⟩ | ⟨-, rfl, rfl⟩)
      · exact absurd (by simp) present
      · exact ⟨rfl, rfl⟩

end NumberText

end LibIvy.Lib
