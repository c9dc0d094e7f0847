import LibIvy.Wire.NodeAddress

/-!
Contract: a node string is accepted only as host and port.

Owns: the property for every string, the strings for which it fails, and that
these are all.

Does not own: the other checks of the constructors.

`std::stoul` skips blanks, takes a sign and stops at the first other character,
and the largest port that passes the check does not fit into sixteen bits.
-/

namespace LibIvy

open Lib NumberText

/-- The constructor throws or the string is well formed and host and port are
stored exactly; `parse_addr` gives the same. -/
def ParsedExactly (addr : Text) : Prop :=
  (rpcServerAddr addr = none ∨ ∃ host port, NodeAddress addr host port ∧
    ∃ stored, rpcServerAddr addr = some (host, stored) ∧ stored.toNat = port) ∧
  parseAddr addr = (rpcServerAddr addr).map fun parsed => (parsed.1, parsed.2.toNat)

/-- The port field starts with a number from 1 to 65536 (modulo `2 ^ 64`, after
blanks and a sign), but there are blanks or a sign before it, something follows it, it
is 65536, or the string has no `':'`. -/
def Misread (addr : Text) : Prop :=
  ∃ host field blanks sign digits rest, HostAndField addr host field ∧
    NumberField field blanks sign digits rest ∧ PortInRange sign digits ∧
    (blanks ≠ [] ∨ sign ≠ [] ∨ rest ≠ [] ∨ digitsValue 10 digits = 65536 ∨ ':' ∉ addr)

/-- The constructor and `parse_addr` accept the same strings. -/
theorem rpcServerAddr_of_accepted {addr host : Text} {port : Nat}
    (accepted : hostAndPort addr = some (host, port)) :
    rpcServerAddr addr = some (host, UInt16.ofNat port) ∧ parseAddr addr = some (host, port) := by
  simp [rpcServerAddr, parseAddr, accepted]

/-- A string that is accepted and not misread is well formed. -/
theorem nodeAddress_of_not_misread {addr host : Text} {port : Nat}
    (accepted : hostAndPort addr = some (host, port)) (notMisread : ¬Misread addr) :
    NodeAddress addr host port := by
  obtain ⟨field, blanks, sign, digits, rest, split, number, inRange, unsigned⟩ :=
    field_of_accepted accepted
  have regular : ¬(blanks ≠ [] ∨ sign ≠ [] ∨ rest ≠ [] ∨ digitsValue 10 digits = 65536 ∨
      ':' ∉ addr) := fun irregular =>
    notMisread ⟨host, field, blanks, sign, digits, rest, split, number, inRange, irregular⟩
  simp only [not_or, not_not] at regular
  obtain ⟨rfl, rfl, rfl, notLast, present⟩ := regular
  obtain ⟨nonempty, ⟨text, plain⟩ | ⟨absent, -⟩⟩ := split
  · obtain rfl : field = digits := by simpa using number.text
    obtain rfl := unsigned rfl
    simp only [PortInRange, List.nil_eq, reduceCtorEq, if_false] at inRange
    exact ⟨⟨field, text, number.nonempty, number.decimal, rfl⟩, nonempty, plain, inRange.1, by omega⟩
  · contradiction

/-- A well-formed string is not misread. -/
theorem not_misread_of_nodeAddress {addr host : Text} {port : Nat}
    (wellFormed : NodeAddress addr host port) : ¬Misread addr := by
  rintro ⟨other, field, blanks, sign, digits, rest, ⟨-, splits⟩, number, inRange, irregular⟩
  obtain ⟨own, text, -, decimal, value⟩ := wellFormed.text
  have present : ':' ∈ addr := by simp [text]
  obtain ⟨text', absent⟩ := splits.resolve_right fun without => without.1 present
  obtain ⟨rfl, rfl⟩ : host = other ∧ own = field := by
    have parts := (splitAtFirst_append wellFormed.plain).symm.trans
      ((congrArg (splitAtFirst ':') (text.symm.trans text')).trans (splitAtFirst_append absent))
    exact Prod.mk.inj parts
  have isDigit : ∀ c ∈ blanks ++ (sign ++ (digits ++ rest)), c.isDigit = true :=
    number.text ▸ decimal
  have noBlanks : blanks = [] := by
    by_contra blank
    obtain ⟨c, tail, rfl⟩ := List.exists_cons_of_ne_nil blank
    have plain := plain_of_isDigitIn (by decide) (isDigitIn_ten_of_isDigit (isDigit c (by simp)))
    simp [number.blank c (by simp)] at plain
  have noSign : sign = [] := by
    rcases number.sign with none | rfl | rfl
    · exact none
    · exact absurd (isDigit '-' (by simp)) (by decide)
    · exact absurd (isDigit '+' (by simp)) (by decide)
  have noRest : rest = [] := by
    by_contra trailing
    obtain ⟨c, tail, rfl⟩ := List.exists_cons_of_ne_nil trailing
    have stops := number.stops c (by simp)
    simp [isDigit c (by simp)] at stops
  subst noBlanks noSign noRest
  obtain rfl : own = digits := by simpa using number.text
  rcases irregular with blank | signed | trailing | last | without
  · contradiction
  · contradiction
  · contradiction
  · have bounded := wellFormed.bounded
    omega
  · exact without present

/-- Host and port are parsed exactly from all strings but the misread ones. -/
theorem parsed_exactly_iff (addr : Text) : ParsedExactly addr ↔ ¬Misread addr := by
  constructor
  · rintro ⟨exactly, -⟩ misread
    obtain ⟨host, field, blanks, sign, digits, rest, split, number, inRange, -⟩ := id misread
    obtain ⟨port, accepted, -⟩ := accepted_of_field split number inRange
    rcases exactly with rejected | ⟨storedHost, storedPort, wellFormed, -⟩
    · simp [(rpcServerAddr_of_accepted accepted).1] at rejected
    · exact not_misread_of_nodeAddress wellFormed misread
  · intro notMisread
    cases accepted : hostAndPort addr with
    | none => simp [ParsedExactly, rpcServerAddr, parseAddr, accepted]
    | some parsed =>
        obtain ⟨host, port⟩ := parsed
        have wellFormed := nodeAddress_of_not_misread accepted notMisread
        obtain ⟨constructed, both⟩ := rpcServerAddr_of_accepted accepted
        have bounded := wellFormed.bounded
        have stored : (UInt16.ofNat port).toNat = port := UInt16.toNat_ofNat_of_lt' (by
          simp only [UInt16.size]
          omega)
        refine ⟨.inr ⟨host, port, wellFormed, _, constructed, stored⟩, ?_⟩
        rw [both, constructed, Option.map_some, stored]

/-- Port `65536` passes the check and is stored as `0`. -/
theorem parsed_exactly_fails : ¬∀ addr : Text, ParsedExactly addr := by
  intro always
  obtain ⟨-, same⟩ := always ['h', ':', '6', '5', '5', '3', '6']
  exact absurd same (by decide)

end LibIvy
