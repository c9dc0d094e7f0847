import LibIvy.Common
import LibIvy.Lib.NumberText

/-!
Contract: what `read_mem_perm` makes of `/proc/self/maps`.

Owns: the loop over the lines with its tokens, bounds and flags, and the listings
that the kernel writes.

Does not own: the kernel's mappings themselves.
-/

namespace LibIvy

open Lib NumberText

/-! ### The function -/

/-- How `read_mem_perm` ends. -/
inductive PermResult where
  | returned (access : AccessType)
  | threw
  /-- The loop is over and the function has no `return` after it. -/
  | fellOff
deriving DecidableEq, Repr

/-- `perm[0] == 'r'`. -/
def permReads (perm : Text) : Bool := perm[0]? == some 'r'

/-- `perm[1] == 'w'`. -/
def permWrites (perm : Text) : Bool := perm[1]? == some 'w'

/-- The branches on the permission string; `none` goes on with the next line. -/
def permAccess? (perm : Text) : Option AccessType :=
  if permReads perm && permWrites perm then some .rw
  else if permReads perm then some .rd
  else if permWrites perm then some .wr
  else none

/-- One round of the loop of `read_mem_perm`; `none` goes on with the next line. -/
def checkLine (addr : Addr) (line : Text) : Option PermResult :=
  match getlines ' ' line with
  | range :: perm :: _ :: _ =>
      let bounds := splitAtFirst '-' range
      match stoul 16 bounds.1, stoul 16 bounds.2 with
      | some first, some last =>
          if addr ≥ first ∨ addr < last then (permAccess? perm).map .returned else none
      | _, _ => some .threw
  | _ => none

/-- `read_mem_perm(addr)` for the contents of the file. -/
def readMemPerm (maps : Text) (addr : Addr) : PermResult :=
  ((getlines '\n' maps).findSome? (checkLine addr)).getD .fellOff

/-! ### Listings -/

/-- One well-formed line: the bounds in hexadecimal, the permission string, the
other fields. -/
structure Mapping where
  startText : Text
  endText : Text
  perm : Text
  rest : Text
  startDigits : startText ≠ [] ∧ ∀ c ∈ startText, isDigitIn 16 c = true
  endDigits : endText ≠ [] ∧ ∀ c ∈ endText, isDigitIn 16 c = true
  startFits : digitsValue 16 startText < wordCount
  endFits : digitsValue 16 endText < wordCount
  ordered : digitsValue 16 startText ≤ digitsValue 16 endText
  flags : perm ≠ [] ∧ ' ' ∉ perm ∧ '\n' ∉ perm
  fields : rest ≠ [] ∧ '\n' ∉ rest

namespace Mapping

variable (mapping : Mapping)

def start : Addr := digitsValue 16 mapping.startText

def stop : Addr := digitsValue 16 mapping.endText

/-- The range contains the address. -/
def Contains (addr : Addr) : Prop := mapping.start ≤ addr ∧ addr < mapping.stop

/-- The kernel writes `r` first, or another character for no such permission. -/
def readable : Bool := mapping.perm.head? == some 'r'

/-- The second character is `w`. -/
def writable : Bool := mapping.perm.tail.head? == some 'w'

/-- One of the two flags is set. -/
def flagged : Bool := mapping.readable || mapping.writable

/-- What the two flags permit. -/
def access : AccessType :=
  match mapping.readable, mapping.writable with
  | true, true => .rw
  | true, false => .rd
  | false, true => .wr
  | false, false => .none

def line : Text :=
  mapping.startText ++ '-' :: mapping.endText ++ ' ' :: mapping.perm ++ ' ' :: mapping.rest

end Mapping

/-- The file that lists the mappings. -/
def listing (mappings : List Mapping) : Text :=
  mappings.flatMap fun mapping => mapping.line ++ ['\n']

/-- The ranges are disjoint and ascend. -/
def Ascending (mappings : List Mapping) : Prop :=
  mappings.Pairwise fun lower upper => lower.stop ≤ upper.start

/-! ### Lines are read as they were written -/

private theorem not_mem_of_digits {digits : Text} {c : Char}
    (hex : ∀ c ∈ digits, isDigitIn 16 c = true) (other : isDigitIn 16 c = false) : c ∉ digits :=
  fun member => by simp [hex c member] at other

namespace Mapping

variable (mapping : Mapping)

theorem newline_not_mem_line : '\n' ∉ mapping.line := by
  have start := not_mem_of_digits mapping.startDigits.2 (by decide : isDigitIn 16 '\n' = false)
  have last := not_mem_of_digits mapping.endDigits.2 (by decide : isDigitIn 16 '\n' = false)
  have perm := mapping.flags.2.2
  have rest := mapping.fields.2
  simp [line, start, last, perm, rest]

/-- The first two tokens, and that there are more. -/
theorem tokens : ∃ more, more ≠ [] ∧ getlines ' ' mapping.line =
    (mapping.startText ++ '-' :: mapping.endText) :: mapping.perm :: more := by
  have start := not_mem_of_digits mapping.startDigits.2 (by decide : isDigitIn 16 ' ' = false)
  have last := not_mem_of_digits mapping.endDigits.2 (by decide : isDigitIn 16 ' ' = false)
  have range : ' ' ∉ mapping.startText ++ '-' :: mapping.endText := by simp [start, last]
  refine ⟨getlines ' ' mapping.rest, getlines_ne_nil mapping.fields.1, ?_⟩
  rw [line, List.append_assoc (mapping.startText ++ '-' :: mapping.endText), List.cons_append,
    getlines_append range, getlines_append mapping.flags.2.1]

/-- The branches on the permission string tell apart what the flags permit, except
that no branch is for a mapping without flags. -/
theorem permAccess?_perm :
    permAccess? mapping.perm = if mapping.flagged then some mapping.access else none := by
  have first : permReads mapping.perm = mapping.readable := by
    rw [permReads, readable, List.head?_eq_getElem?]
  have second : permWrites mapping.perm = mapping.writable := by
    rw [permWrites, writable, List.head?_eq_getElem?, List.getElem?_tail]
  rw [permAccess?, first, second]
  unfold flagged access
  cases mapping.readable <;> cases mapping.writable <;> rfl

/-- The round of the loop for a well-formed line. -/
theorem checkLine_line (addr : Addr) :
    checkLine addr mapping.line =
      if addr ≥ mapping.start ∨ addr < mapping.stop then
        if mapping.flagged then some (.returned mapping.access) else none
      else none := by
  obtain ⟨more, nonempty, tokens⟩ := mapping.tokens
  obtain ⟨third, others, rfl⟩ := List.exists_cons_of_ne_nil nonempty
  have dash := not_mem_of_digits mapping.startDigits.2 (by decide : isDigitIn 16 '-' = false)
  have start : stoul 16 mapping.startText = some mapping.start := by
    rw [stoul_digits (by decide) mapping.startDigits.1 mapping.startDigits.2,
      if_neg (Nat.not_le.mpr mapping.startFits), start]
  have stop : stoul 16 mapping.endText = some mapping.stop := by
    rw [stoul_digits (by decide) mapping.endDigits.1 mapping.endDigits.2,
      if_neg (Nat.not_le.mpr mapping.endFits), stop]
  simp only [checkLine, tokens, splitAtFirst_append dash, start, stop, permAccess?_perm,
    apply_ite (Option.map PermResult.returned), Option.map_some, Option.map_none]

end Mapping

theorem getlines_listing (mappings : List Mapping) :
    getlines '\n' (listing mappings) = mappings.map Mapping.line := by
  induction mappings with
  | nil => rfl
  | cons mapping mappings inductionHypothesis =>
      have first : listing (mapping :: mappings) = mapping.line ++ '\n' :: listing mappings := by
        simp [listing]
      rw [first, getlines_append mapping.newline_not_mem_line, inductionHypothesis, List.map_cons]

end LibIvy
