import Mathlib.Data.List.Basic

/-!
Contract: one atomic shared memory, as a specification.

A memory maps locations to values. Clients load and store runs of consecutive
locations, each access in one step. A history of accesses is legal from a memory
when every load returns what the memory holds after the stores before it.

Owns: reading and writing runs of locations, the memory left by a history,
legality of histories, and the law that a legal history answers each location
of each load with the value of the last store that covers it.
-/

namespace LibIvy.Lib

universe u

namespace AtomicMemory

variable {Value : Type u}

/-- The values at `start, start + 1, ...`. -/
def readSpan (mem : Nat → Value) (start count : Nat) : List Value :=
  (List.range count).map fun offset => mem (start + offset)

/-- Store a list of values at `start, start + 1, ...`. -/
def writeSpan (mem : Nat → Value) (start : Nat) (values : List Value) : Nat → Value :=
  fun location =>
    if start ≤ location then (values[location - start]?).getD (mem location)
    else mem location

theorem readSpan_length (mem : Nat → Value) (start count : Nat) :
    (readSpan mem start count).length = count := by
  simp [readSpan]

theorem readSpan_congr {left right : Nat → Value} {start count : Nat}
    (agree : ∀ offset < count, left (start + offset) = right (start + offset)) :
    readSpan left start count = readSpan right start count := by
  apply List.map_congr_left
  intro offset member
  exact agree offset (List.mem_range.mp member)

theorem writeSpan_outside {mem : Nat → Value} {start : Nat} {values : List Value} {location : Nat}
    (outside : location < start ∨ start + values.length ≤ location) :
    writeSpan mem start values location = mem location := by
  unfold writeSpan
  split
  · rw [List.getElem?_eq_none (by omega)]
    rfl
  · rfl

/-- What has been stored is read back. -/
theorem readSpan_writeSpan (mem : Nat → Value) (start : Nat) (values : List Value) :
    readSpan (writeSpan mem start values) start values.length = values := by
  apply List.ext_getElem
  · exact readSpan_length ..
  · intro offset _ inside
    simp [readSpan, writeSpan, List.getElem?_eq_getElem inside]

/-- A store leaves a run of locations apart from it as it was. -/
theorem readSpan_writeSpan_apart {mem : Nat → Value} {start other count : Nat}
    {values : List Value} (apart : other + count ≤ start ∨ start + values.length ≤ other) :
    readSpan (writeSpan mem start values) other count = readSpan mem other count := by
  apply readSpan_congr
  intro offset below
  apply writeSpan_outside
  omega

/-- One access of a client. -/
inductive Access (Value : Type u) where
  | load (start : Nat) (values : List Value)
  | store (start : Nat) (values : List Value)

/-- The memory after an access. -/
def apply (mem : Nat → Value) : Access Value → Nat → Value
  | .load _ _ => mem
  | .store start values => writeSpan mem start values

/-- The memory after a history. -/
def after (mem : Nat → Value) (history : List (Access Value)) : Nat → Value :=
  history.foldl apply mem

/-- Every load of the history returns the current contents. -/
def Legal (mem : Nat → Value) : List (Access Value) → Prop
  | [] => True
  | .load start values :: rest => values = readSpan mem start values.length ∧ Legal mem rest
  | .store start values :: rest => Legal (writeSpan mem start values) rest

instance Legal.decidable [DecidableEq Value] (mem : Nat → Value) :
    (history : List (Access Value)) → Decidable (Legal mem history)
  | [] => inferInstanceAs (Decidable True)
  | .load start values :: rest =>
      have := Legal.decidable mem rest
      inferInstanceAs (Decidable (values = readSpan mem start values.length ∧ Legal mem rest))
  | .store start values :: rest => Legal.decidable (writeSpan mem start values) rest

@[simp] theorem after_nil (mem : Nat → Value) : after mem [] = mem := rfl

theorem after_append (mem : Nat → Value) (first second : List (Access Value)) :
    after mem (first ++ second) = after (after mem first) second := by
  simp [after]

/-- Legality splits at any point of the history. -/
theorem legal_append (mem : Nat → Value) (first second : List (Access Value)) :
    Legal mem (first ++ second) ↔ Legal mem first ∧ Legal (after mem first) second := by
  induction first generalizing mem with
  | nil => simp [Legal]
  | cons head tail inductionHypothesis =>
      cases head with
      | load start values =>
          simp only [List.cons_append, Legal, inductionHypothesis, after, List.foldl_cons, apply]
          tauto
      | store start values =>
          simp only [List.cons_append, Legal, inductionHypothesis, after, List.foldl_cons, apply]

/-- The value of the last store of the history that covers `location`. -/
def lastStored (initial : Value) (location : Nat) : List (Access Value) → Value
  | [] => initial
  | .load _ _ :: rest => lastStored initial location rest
  | .store start values :: rest =>
      lastStored (writeSpan (fun _ => initial) start values location) location rest

/-- What a history leaves at a location is the value of the last store to it. -/
theorem after_eq_lastStored (mem : Nat → Value) (location : Nat) (history : List (Access Value)) :
    after mem history location = lastStored (mem location) location history := by
  induction history generalizing mem with
  | nil => rfl
  | cons head tail inductionHypothesis =>
      cases head with
      | load start values => exact inductionHypothesis mem
      | store start values => exact inductionHypothesis (writeSpan mem start values)

/-- In a legal history every location of every load has the value of the last
store before the load that covers it. -/
theorem load_returns_lastStored {mem : Nat → Value} {before later : List (Access Value)}
    {start : Nat} {values : List Value}
    (legal : Legal mem (before ++ .load start values :: later)) :
    values = (List.range values.length).map fun offset =>
      lastStored (mem (start + offset)) (start + offset) before := by
  have loaded := ((legal_append _ _ _).mp legal).2.1
  rw [readSpan] at loaded
  refine loaded.trans (List.map_congr_left fun offset _ => ?_)
  exact after_eq_lastStored mem (start + offset) before

end AtomicMemory

end LibIvy.Lib
