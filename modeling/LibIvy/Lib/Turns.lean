import Mathlib.Algebra.Order.Group.Nat

/-!
Contract: turns that a counter gives to clients.

The clients are `1, 2, …, count`. It is the turn of one client at a time: the one
whose place is the counter's remainder.

Owns: whose turn it is, turns that are still ahead, and that a client's turn stays
ahead while others take theirs.

Does not own: who advances the counter.
-/

namespace LibIvy.Lib.Turns

/-- At this value of the counter it is the turn of `client`. -/
def IsTurn (count client counter : Nat) : Prop := counter % count + 1 = client

/-- A turn of `client` comes at or after `counter`, and not after `last`. -/
def Ahead (count client last counter : Nat) : Prop :=
  ∃ turn, counter ≤ turn ∧ turn ≤ last ∧ IsTurn count client turn

variable {count client other last counter : Nat}

theorem IsTurn.unique (turn : IsTurn count client counter) (turnToo : IsTurn count other counter) :
    client = other :=
  Eq.trans (Eq.symm turn) turnToo

/-- No client waits longer than one round. -/
theorem exists_turn (positive : 0 < client) (valid : client ≤ count) (counter : Nat) :
    Ahead count client (counter + (count - 1)) counter := by
  have below := Nat.mod_lt counter (lt_of_lt_of_le positive valid)
  have whole := Nat.div_add_mod counter count
  by_cases later : counter % count ≤ client - 1
  · refine ⟨counter + (client - 1 - counter % count), by omega, by omega, ?_⟩
    have place : counter + (client - 1 - counter % count) =
        count * (counter / count) + (client - 1) := by omega
    rw [IsTurn, place, Nat.mul_add_mod, Nat.mod_eq_of_lt (by omega)]
    omega
  · refine ⟨counter + (client - 1 + count - counter % count), by omega, by omega, ?_⟩
    have place : counter + (client - 1 + count - counter % count) =
        count * (counter / count + 1) + (client - 1) := by
      rw [Nat.mul_add]
      omega
    rw [IsTurn, place, Nat.mul_add_mod, Nat.mod_eq_of_lt (by omega)]
    omega

/-- A turn that is not now stays ahead. -/
theorem Ahead.succ (ahead : Ahead count client last counter) (notNow : ¬IsTurn count client counter) :
    Ahead count client last (counter + 1) := by
  obtain ⟨turn, after, bound, isTurn⟩ := ahead
  have different : counter ≠ turn := fun same => notNow (same ▸ isTurn)
  exact ⟨turn, by omega, bound, isTurn⟩

theorem Ahead.mono (ahead : Ahead count client last counter) {further : Nat} (more : last ≤ further) :
    Ahead count client further counter := by
  obtain ⟨turn, after, bound, isTurn⟩ := ahead
  exact ⟨turn, after, le_trans bound more, isTurn⟩

theorem Ahead.counter_le (ahead : Ahead count client last counter) : counter ≤ last := by
  obtain ⟨turn, after, bound, -⟩ := ahead
  exact le_trans after bound

end LibIvy.Lib.Turns
