import LibIvy.Lib.NumberText
import LibIvy.Wire.PageText

/-!
Contract: host and port of a node string.

Owns: the two parsers of node strings, in the constructor of `RpcServer` and in
`parse_addr`, and what makes a node string well formed.

Does not own: name resolution, sockets.
-/

namespace LibIvy

open Lib NumberText

/-- The checks that both parsers make; `none` is a thrown exception. -/
def hostAndPort (addr : Text) : Option (Text × Nat) :=
  let hostname := (splitAtFirst ':' addr).1
  let portStr := (splitAtFirst ':' addr).2
  if hostname = [] then none
  else if portStr = [] then none
  else do
    let portNum ← stoul 10 (throughCStr portStr)
    if portNum < 1 ∨ portNum > 65536 then none else some (hostname, portNum)

/-- `parse_addr(addr)`. -/
def parseAddr (addr : Text) : Option (Text × Nat) := hostAndPort addr

/-- `hostname` and `port` of the `RpcServer` for the node string; the port is
stored in sixteen bits. -/
def rpcServerAddr (addr : Text) : Option (Text × UInt16) := do
  let (hostname, portNum) ← hostAndPort addr
  return (hostname, UInt16.ofNat portNum)

/-- What both parsers accept. -/
theorem hostAndPort_eq_some {addr host : Text} {port : Nat} :
    hostAndPort addr = some (host, port) ↔ ∃ portStr, splitAtFirst ':' addr = (host, portStr) ∧
      host ≠ [] ∧ stoul 10 (throughCStr portStr) = some port ∧ 1 ≤ port ∧ port ≤ 65536 := by
  obtain ⟨first, portStr, split⟩ : ∃ first portStr, splitAtFirst ':' addr = (first, portStr) :=
    ⟨_, _, rfl⟩
  simp only [hostAndPort, split, Prod.mk.injEq]
  constructor
  · intro accepted
    split at accepted
    · contradiction
    · rename_i hostGiven
      split at accepted
      · contradiction
      · obtain ⟨portNum, read, checked⟩ := Option.bind_eq_some_iff.mp accepted
        split at checked
        · contradiction
        · obtain ⟨rfl, rfl⟩ := checked
          exact ⟨portStr, ⟨rfl, rfl⟩, hostGiven, read, by omega, by omega⟩
  · rintro ⟨_, ⟨rfl, rfl⟩, hostGiven, read, positive, bounded⟩
    have portGiven : portStr ≠ [] := by
      intro same
      subst same
      contradiction
    have inRange : ¬(port < 1 ∨ port > 65536) := by omega
    simp only [hostGiven, portGiven, read, inRange, ↓reduceIte, Option.bind_eq_bind,
      Option.bind_some]

/-! ### The characters of a node string -/

/-- A NUL ends no number that would go on, so nothing is lost on the way through
`c_str()`. -/
theorem numberField_throughCStr {text blanks sign digits rest : Text}
    (field : NumberField text blanks sign digits rest) :
    NumberField (throughCStr text) blanks sign digits (throughCStr rest) := by
  have kept : ∀ c ∈ blanks ++ (sign ++ digits), decide (c ≠ Char.ofNat 0) = true := by
    intro c member
    rw [decide_eq_true_eq]
    intro same
    subst same
    rcases List.mem_append.mp member with blank | later
    · exact absurd (field.blank _ blank) (by decide)
    · rcases List.mem_append.mp later with signed | digit
      · rcases field.sign with rfl | rfl | rfl <;> exact absurd signed (by decide)
      · exact absurd (field.decimal _ digit) (by decide)
  have text : text = (blanks ++ (sign ++ digits)) ++ rest := by
    simpa only [List.append_assoc] using field.text
  refine ⟨?_, field.blank, field.sign, field.nonempty, field.decimal, ?_⟩
  · rw [text, throughCStr, List.takeWhile_append_of_pos kept]
    simp only [List.append_assoc, throughCStr]
  · cases rest with
    | nil => simp [throughCStr]
    | cons head tail =>
        intro c starts
        have first : c = head := by
          rw [throughCStr, List.takeWhile_cons] at starts
          split at starts
          · simpa using starts.symm
          · simp at starts
        exact first ▸ field.stops head (by simp)

/-- What is read through `c_str()` stands at the start of the whole text. -/
theorem numberField_of_throughCStr {text : Text} {value : Nat}
    (read : stoul 10 (throughCStr text) = some value) :
    ∃ blanks sign digits rest, NumberField text blanks sign digits rest := by
  obtain ⟨blanks, sign, digits, rest, field⟩ := numberField_of_stoul read
  refine ⟨blanks, sign, digits, rest ++ text.dropWhile (· ≠ Char.ofNat 0), ?_, field.blank,
    field.sign, field.nonempty, field.decimal, ?_⟩
  · have whole : text = throughCStr text ++ text.dropWhile (· ≠ Char.ofNat 0) :=
      List.takeWhile_append_dropWhile.symm
    rw [field.text] at whole
    simpa only [List.append_assoc] using whole
  · intro c starts
    cases rest with
    | cons head tail => exact field.stops c starts
    | nil =>
        have nul := List.head?_dropWhile_not (· ≠ Char.ofNat 0) text
        rw [List.nil_append, Option.mem_def] at starts
        rw [starts] at nul
        obtain rfl : c = Char.ofNat 0 := by simpa using nul
        decide

/-- The string is a host, the first `':'` and a port field. Without a `':'` the whole
string is taken for the host and all but its last character for the port. -/
def HostAndField (addr host field : Text) : Prop :=
  host ≠ [] ∧
    (addr = host ++ ':' :: field ∧ ':' ∉ host ∨
      ':' ∉ addr ∧ host = addr ∧ field = addr.dropLast)

/-- The signed number is 1 to 65536 modulo `2 ^ 64`. -/
def PortInRange (sign digits : Text) : Prop :=
  if sign = ['-'] then
    wordCount - 65536 ≤ digitsValue 10 digits ∧ digitsValue 10 digits < wordCount
  else 1 ≤ digitsValue 10 digits ∧ digitsValue 10 digits ≤ 65536

/-- Strings that look so are accepted. -/
theorem accepted_of_field {addr host field blanks sign digits rest : Text}
    (split : HostAndField addr host field) (number : NumberField field blanks sign digits rest)
    (inRange : PortInRange sign digits) :
    ∃ port, hostAndPort addr = some (host, port) ∧ (sign = [] → port = digitsValue 10 digits) := by
  obtain ⟨nonempty, splits⟩ := split
  have read := (numberField_throughCStr number).stoul_eq
  have parts := splitAtFirst_eq_iff.mpr splits
  unfold PortInRange at inRange
  split at inRange
  · rename_i negative
    rw [if_neg (Nat.not_le.mpr inRange.2), if_pos negative] at read
    have port : (wordCount - digitsValue 10 digits) % wordCount =
        wordCount - digitsValue 10 digits := by
      apply Nat.mod_eq_of_lt
      simp only [wordCount] at inRange ⊢
      omega
    refine ⟨_, hostAndPort_eq_some.mpr ⟨field, parts, nonempty, read, ?_, ?_⟩,
      fun unsigned => by simp [negative] at unsigned⟩
    · rw [port]
      omega
    · rw [port]
      omega
  · rename_i positive
    have fits : ¬wordCount ≤ digitsValue 10 digits := by
      simp only [wordCount]
      omega
    rw [if_neg fits, if_neg positive] at read
    exact ⟨_, hostAndPort_eq_some.mpr ⟨field, parts, nonempty, read, inRange.1, inRange.2⟩,
      fun _ => rfl⟩

/-- Strings that are accepted look so. -/
theorem field_of_accepted {addr host : Text} {port : Nat}
    (accepted : hostAndPort addr = some (host, port)) :
    ∃ field blanks sign digits rest, HostAndField addr host field ∧
      NumberField field blanks sign digits rest ∧ PortInRange sign digits ∧
      (sign = [] → port = digitsValue 10 digits) := by
  obtain ⟨field, parts, nonempty, read, positive, bounded⟩ := hostAndPort_eq_some.mp accepted
  obtain ⟨blanks, sign, digits, rest, number⟩ := numberField_of_throughCStr read
  refine ⟨field, blanks, sign, digits, rest, ⟨nonempty, splitAtFirst_eq_iff.mp parts⟩, number, ?_⟩
  rw [(numberField_throughCStr number).stoul_eq] at read
  split at read
  · contradiction
  · rename_i fits
    unfold PortInRange
    split at read
    · rename_i negative
      obtain rfl := Option.some.inj read
      rw [if_pos negative]
      refine ⟨?_, fun unsigned => by simp [negative] at unsigned⟩
      simp only [wordCount] at *
      omega
    · rename_i unsigned
      obtain rfl := Option.some.inj read
      rw [if_neg unsigned]
      exact ⟨⟨positive, bounded⟩, fun _ => rfl⟩

/-- The string is the host, `':'`, and the port in decimal digits. -/
structure NodeAddress (addr host : Text) (port : Nat) : Prop where
  text : ∃ digits, addr = host ++ ':' :: digits ∧ digits ≠ [] ∧
    (∀ c ∈ digits, c.isDigit = true) ∧ digitsValue 10 digits = port
  nonempty : host ≠ []
  plain : ':' ∉ host
  positive : 1 ≤ port
  bounded : port ≤ 65535

/-- A well-formed node string is accepted with its host and port. -/
theorem NodeAddress.accepted {addr host : Text} {port : Nat} (wellFormed : NodeAddress addr host port) :
    hostAndPort addr = some (host, port) := by
  obtain ⟨digits, rfl, nonempty, decimal, rfl⟩ := wellFormed.text
  have positive := wellFormed.positive
  have bounded := wellFormed.bounded
  have notNul : ∀ c ∈ digits, c ≠ Char.ofNat 0 := by
    intro c member same
    subst same
    exact absurd (decimal _ member) (by decide)
  have whole : throughCStr digits = digits :=
    List.takeWhile_eq_self_iff.mpr fun c member => by simpa using notNul c member
  have fits : ¬wordCount ≤ digitsValue 10 digits := by
    simp only [wordCount]
    omega
  have inRange : ¬(digitsValue 10 digits < 1 ∨ digitsValue 10 digits > 65536) := by omega
  simp only [hostAndPort, splitAtFirst_append wellFormed.plain, wellFormed.nonempty, nonempty, whole,
    stoul_decimal nonempty decimal, fits, inRange, ↓reduceIte, Option.bind_eq_bind, Option.bind_some]

end LibIvy
