import Mathlib.Data.List.OfFn
import LibIvy.Common
import LibIvy.Lib.NumberText

/-!
Contract: page contents as text in RPC replies.

Owns: `to_hex` and `from_hex`, the reply bodies of the protocol, and the facts
that let a reply carry its page instead of the rendered text: `Reply.length` is
the length of the rendered body and `from_hex` of it gives the page back.

Does not own: requests, HTTP.
-/

namespace LibIvy

open Lib NumberText

/-! ### Hexadecimal pages -/

/-- One element of `to_hex`: `std::hex`, `std::uppercase`, `setw(2)`,
`setfill('0')`. -/
def hexByte (byte : UInt8) : Text :=
  let digits := (Nat.toDigits 16 byte.toNat).map Char.toUpper
  List.replicate (2 - digits.length) '0' ++ digits

/-- `to_hex`. The cast to `uint8_t` makes each element its unsigned value. -/
def toHex (bytes : List UInt8) : Text := bytes.flatMap hexByte

/-- The bytes that `from_hex` writes, in order; `none` when `std::stoul` throws.
In a text of odd length the last pair ends in the terminating NUL. -/
def fromHex : Text → Option (List UInt8)
  | [] => some []
  | [last] => do
      let value ← stoul 16 [last]
      return [UInt8.ofNat value]
  | high :: low :: rest => do
      let value ← stoul 16 [high, low]
      let bytes ← fromHex rest
      return UInt8.ofNat value :: bytes

private theorem hexByte_digits : ∀ value < 256,
    ∃ high low, hexByte (UInt8.ofNat value) = [high, low] ∧
      stoul 16 [high, low] = some value := by
  have table : ∀ value < 256, (hexByte (UInt8.ofNat value)).length = 2 ∧
      stoul 16 (hexByte (UInt8.ofNat value)) = some value := by decide +kernel
  intro value below
  obtain ⟨length, read⟩ := table value below
  obtain ⟨high, low, shape⟩ := List.length_eq_two.mp length
  exact ⟨high, low, shape, shape ▸ read⟩

theorem hexByte_pair (byte : UInt8) :
    ∃ high low, hexByte byte = [high, low] ∧ stoul 16 [high, low] = some byte.toNat := by
  have digits := hexByte_digits byte.toNat byte.toNat_lt
  rwa [UInt8.ofNat_toNat] at digits

theorem length_toHex (bytes : List UInt8) : (toHex bytes).length = 2 * bytes.length := by
  induction bytes with
  | nil => rfl
  | cons head tail inductionHypothesis =>
      obtain ⟨high, low, shape, _⟩ := hexByte_pair head
      unfold toHex at inductionHypothesis ⊢
      rw [List.flatMap_cons, List.length_append, inductionHypothesis, shape]
      simp only [List.length_cons, List.length_nil]
      omega

theorem fromHex_toHex (bytes : List UInt8) : fromHex (toHex bytes) = some bytes := by
  induction bytes with
  | nil => rfl
  | cons head tail inductionHypothesis =>
      obtain ⟨high, low, shape, read⟩ := hexByte_pair head
      unfold toHex at inductionHypothesis ⊢
      rw [List.flatMap_cons, shape]
      simp [fromHex, read, inductionHypothesis]

/-! ### Arrays of `char` -/

/-- `to_hex(arr, len)`. A `char` is signed; `static_cast<uint8_t>` takes it modulo
`256`. -/
def toHexChars (arr : List Int8) : Text := toHex (arr.map Int8.toUInt8)

/-- The elements that `from_hex(s)` writes. The assignment truncates an
`unsigned long` to a `char`. -/
def fromHexChars (s : Text) : Option (List Int8) :=
  (fromHex s).map fun bytes => bytes.map UInt8.toInt8

/-- The characters of `std::hex` with `std::uppercase`. -/
def hexAlphabet : Text :=
  ['0', '1', '2', '3', '4', '5', '6', '7', '8', '9', 'A', 'B', 'C', 'D', 'E', 'F']

/-- What remains of a string that is passed on as `c_str()`. -/
def throughCStr (s : Text) : Text := s.takeWhile (· ≠ Char.ofNat 0)

private theorem hexByte_alphabet (byte : UInt8) : ∀ c ∈ hexByte byte, c ∈ hexAlphabet := by
  have table : ∀ value < 256,
      (hexByte (UInt8.ofNat value)).all (fun c => c ∈ hexAlphabet) = true := by
    decide +kernel
  have digits := table byte.toNat byte.toNat_lt
  rw [UInt8.ofNat_toNat, List.all_eq_true] at digits
  exact fun c member => of_decide_eq_true (digits c member)

/-- Only hexadecimal digits are written. -/
theorem toHex_alphabet (bytes : List UInt8) : ∀ c ∈ toHex bytes, c ∈ hexAlphabet := by
  intro c member
  obtain ⟨byte, -, digit⟩ := List.mem_flatMap.mp member
  exact hexByte_alphabet byte c digit

/-- Hexadecimal digits pass through `c_str()`. -/
theorem throughCStr_of_alphabet {s : Text} (digits : ∀ c ∈ s, c ∈ hexAlphabet) :
    throughCStr s = s := by
  refine List.takeWhile_eq_self_iff.mpr fun c member => ?_
  have notNul : Char.ofNat 0 ∉ hexAlphabet := by decide
  have different : c ≠ Char.ofNat 0 := fun same => notNul (same ▸ digits c member)
  simpa using different

/-- Two digits are read as the byte that is written with them. -/
private theorem hexByte_of_pair : ∀ high ∈ hexAlphabet, ∀ low ∈ hexAlphabet,
    (stoul 16 [high, low]).map (fun value => hexByte (UInt8.ofNat value)) = some [high, low] := by
  have table : hexAlphabet.all (fun high => hexAlphabet.all fun low =>
      (stoul 16 [high, low]).map (fun value => hexByte (UInt8.ofNat value)) = some [high, low]) = true := by
    decide +kernel
  intro high highDigit low lowDigit
  exact of_decide_eq_true (List.all_eq_true.mp (List.all_eq_true.mp table high highDigit) low lowDigit)

/-- A text of whole pairs of digits is what is written for the bytes read from it. -/
theorem toHex_fromHex : ∀ {s : Text}, s.length % 2 = 0 → (∀ c ∈ s, c ∈ hexAlphabet) →
    ∃ bytes, fromHex s = some bytes ∧ bytes.length = s.length / 2 ∧ toHex bytes = s
  | [], _, _ => ⟨[], rfl, rfl, rfl⟩
  | [_], odd, _ => by contradiction
  | high :: low :: rest, even, digits => by
      obtain ⟨highDigit, lowDigit, restDigits⟩ : high ∈ hexAlphabet ∧ low ∈ hexAlphabet ∧
          ∀ c ∈ rest, c ∈ hexAlphabet := by simpa using digits
      have restEven : rest.length % 2 = 0 := by
        simp only [List.length_cons] at even
        omega
      obtain ⟨bytes, read, length, written⟩ := toHex_fromHex restEven restDigits
      obtain ⟨value, pair, digits⟩ :=
        Option.map_eq_some_iff.mp (hexByte_of_pair high highDigit low lowDigit)
      refine ⟨UInt8.ofNat value :: bytes, ?_, ?_, ?_⟩
      · simp [fromHex, pair, read]
      · simp only [List.length_cons, length]
        omega
      · unfold toHex at written ⊢
        rw [List.flatMap_cons, digits, written]
        rfl

/-! ### Reply bodies -/

/-- The body of an RPC reply. A page is kept as its bytes; `render` is the text
that travels. -/
inductive Reply where
  | text (body : Text)
  | page (bytes : Page)

namespace Reply

/-- The empty body. -/
abbrev empty : Reply := .text []

/-- `Ivy::OK`. -/
abbrev ok : Reply := .text ['o', 'k']

/-- The text in the HTTP body. -/
def render : Reply → Text
  | .text body => body
  | .page bytes => toHex (List.ofFn bytes)

/-- `length()` of the body. -/
def length : Reply → Nat
  | .text body => body.length
  | .page _ => 2 * pageSize

/-- The page that `from_hex` and `memcpy` install from a full body. -/
def contents? : Reply → Option Page
  | .text body => do
      let bytes ← fromHex body
      return fun offset => bytes.getD offset.val 0
  | .page bytes => some bytes

/-- `resp == OK`. -/
def isOk : Reply → Bool
  | .text body => body == ['o', 'k']
  | .page _ => false

theorem length_render (reply : Reply) : reply.render.length = reply.length := by
  cases reply with
  | text body => rfl
  | page bytes => simp [render, length, length_toHex]

/-- Decoding the text of a page gives the bytes that `contents?` keeps. -/
theorem fromHex_render_page (bytes : Page) :
    fromHex (Reply.page bytes).render = some (List.ofFn bytes) :=
  fromHex_toHex _

/-- The comparison with `"ok"` sees the same thing in the rendered body. -/
theorem isOk_iff_render (reply : Reply) : reply.isOk = true ↔ reply.render = ['o', 'k'] := by
  cases reply with
  | text body => simp [isOk, render]
  | page bytes =>
      have length : (Reply.page bytes).render.length = 2 * pageSize := length_render _
      simp only [isOk, Bool.false_eq_true, false_iff]
      intro same
      rw [same] at length
      simp [pageSize] at length

end Reply

end LibIvy
