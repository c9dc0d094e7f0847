import LibIvy.Wire.MapsText

/-!
Contract: `read_mem_perm` reports the mapping that contains the address.

Owns: the property, the listings for which it holds, and a listing for which it
fails.

Does not own: the lines that are not well formed.

The test of the bounds is a disjunction. With ascending ranges it holds on every
line, so the first line with an `r` or `w` flag decides for all addresses.
-/

namespace LibIvy

open Lib NumberText

variable {mappings : List Mapping} {mapping : Mapping} {addr : Addr}

/-- The flags of the first line that has any. -/
def firstFlags (mappings : List Mapping) : Option AccessType :=
  (mappings.find? Mapping.flagged).map Mapping.access

/-- A loop whose rounds decide on the flags ends at the first line that has any. -/
private theorem findSome?_rounds {round : Mapping → Option PermResult}
    (decides : ∀ mapping ∈ mappings,
      round mapping = if mapping.flagged then some (.returned mapping.access) else none) :
    mappings.findSome? round = (firstFlags mappings).map .returned := by
  induction mappings with
  | nil => rfl
  | cons head tail inductionHypothesis =>
      have later := inductionHypothesis fun mapping member =>
        decides mapping (List.mem_cons_of_mem head member)
      rw [List.findSome?_cons, decides head List.mem_cons_self]
      unfold firstFlags at later ⊢
      rw [List.find?_cons]
      cases head.flagged with
      | true => rfl
      | false => exact later

/-- The answer is the permission of the one mapping that contains the address. -/
def ReportsContaining (mappings : List Mapping) (addr : Addr) : Prop :=
  ∀ mapping ∈ mappings, mapping.Contains addr →
    readMemPerm (listing mappings) addr = .returned mapping.access

namespace Ascending

/-- Two lines are the same, or one range lies below the other. -/
theorem apart {other : Mapping} (ascending : Ascending mappings) (listed : mapping ∈ mappings)
    (otherListed : other ∈ mappings) :
    mapping = other ∨ mapping.stop ≤ other.start ∨ other.stop ≤ mapping.start := by
  induction mappings with
  | nil => contradiction
  | cons head tail inductionHypothesis =>
      obtain ⟨below, ascending⟩ := List.pairwise_cons.mp ascending
      rcases List.mem_cons.mp listed with first | later
      · rcases List.mem_cons.mp otherListed with otherFirst | otherLater
        · exact .inl (first.trans otherFirst.symm)
        · exact .inr (.inl (first ▸ below other otherLater))
      · rcases List.mem_cons.mp otherListed with otherFirst | otherLater
        · exact .inr (.inr (otherFirst ▸ below mapping later))
        · exact inductionHypothesis ascending later otherLater

theorem contains_unique {other : Mapping} (ascending : Ascending mappings)
    (listed : mapping ∈ mappings) (otherListed : other ∈ mappings)
    (contains : mapping.Contains addr) (otherContains : other.Contains addr) :
    mapping = other := by
  obtain ⟨lower, upper⟩ := contains
  obtain ⟨otherLower, otherUpper⟩ := otherContains
  rcases ascending.apart listed otherListed with same | below | above
  · exact same
  · exact absurd (lt_of_lt_of_le upper (below.trans otherLower)) (lt_irrefl _)
  · exact absurd (lt_of_lt_of_le otherUpper (above.trans lower)) (lt_irrefl _)

/-- Every line passes the test of the bounds. -/
theorem passes {other : Mapping} (ascending : Ascending mappings) (listed : mapping ∈ mappings)
    (contains : mapping.Contains addr) (otherListed : other ∈ mappings) :
    addr ≥ other.start ∨ addr < other.stop := by
  obtain ⟨lower, upper⟩ := contains
  have ordered : other.start ≤ other.stop := other.ordered
  rcases ascending.apart listed otherListed with rfl | below | above
  · exact .inl lower
  · exact .inr (lt_of_lt_of_le upper (below.trans ordered))
  · exact .inl (ordered.trans (above.trans lower))

/-- The answer is the same for all addresses of the listing. -/
theorem readMemPerm_eq (ascending : Ascending mappings) (listed : mapping ∈ mappings)
    (contains : mapping.Contains addr) :
    readMemPerm (listing mappings) addr =
      ((firstFlags mappings).map PermResult.returned).getD .fellOff := by
  have loop : (mappings.map Mapping.line).findSome? (checkLine addr) =
      (firstFlags mappings).map .returned := by
    rw [List.findSome?_map]
    apply findSome?_rounds
    intro other otherListed
    have passes := ascending.passes listed contains otherListed
    rw [Function.comp_apply, other.checkLine_line, if_pos passes]
  rw [readMemPerm, getlines_listing, loop]

end Ascending

/-- The permission of the mapping that contains the address is reported exactly when
the first line with an `r` or `w` flag has the same two flags. -/
theorem reports_containing_iff (ascending : Ascending mappings) (listed : mapping ∈ mappings)
    (contains : mapping.Contains addr) :
    ReportsContaining mappings addr ↔
      firstFlags mappings = some mapping.access := by
  have answer := ascending.readMemPerm_eq listed contains
  constructor
  · intro reports
    rw [reports mapping listed contains] at answer
    cases flags : firstFlags mappings with
    | none => simp [flags] at answer
    | some access => simpa [flags, eq_comm] using answer
  · intro same other otherListed otherContains
    obtain rfl := ascending.contains_unique listed otherListed contains otherContains
    rw [answer, same]
    rfl

/-! ### Two pages -/

/-- A page that can be read. -/
def readablePage : Mapping where
  startText := ['1', '0', '0', '0']
  endText := ['2', '0', '0', '0']
  perm := ['r', '-', '-', 'p']
  rest := ['0']
  startDigits := ⟨by decide, List.all_eq_true.mp rfl⟩
  endDigits := ⟨by decide, List.all_eq_true.mp rfl⟩
  startFits := by decide
  endFits := by decide
  ordered := by decide
  flags := by decide
  fields := by decide

/-- The page above it, without access. -/
def protectedPage : Mapping where
  startText := ['2', '0', '0', '0']
  endText := ['3', '0', '0', '0']
  perm := ['-', '-', '-', 'p']
  rest := ['0']
  startDigits := ⟨by decide, List.all_eq_true.mp rfl⟩
  endDigits := ⟨by decide, List.all_eq_true.mp rfl⟩
  startFits := by decide
  endFits := by decide
  ordered := by decide
  flags := by decide
  fields := by decide

theorem reports_containing_readable :
    ReportsContaining [readablePage, protectedPage] 4096 :=
  (@reports_containing_iff _ readablePage _ (List.pairwise_pair.mpr (by decide))
    List.mem_cons_self ⟨by decide, by decide⟩).mpr (by decide)

/-- The page without access is reported with the flags of the page below it. -/
theorem reports_containing_fails :
    ¬∀ mappings, Ascending mappings → ∀ addr, ReportsContaining mappings addr := by
  intro always
  have ascending : Ascending [readablePage, protectedPage] :=
    List.pairwise_pair.mpr (by decide)
  have reported := always _ ascending 8192 protectedPage (by simp) ⟨by decide, by decide⟩
  exact absurd reported (by decide)

end LibIvy
