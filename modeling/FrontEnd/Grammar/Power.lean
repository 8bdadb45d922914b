/-!
# Powers

The *power* of an operator says how tightly it binds its operands. Powers are ordered from the
weakest to the tightest.

## Main definitions

* `FrontEnd.Power` — the powers.
* `FrontEnd.Power.rank` — the place of a power in the order.
-/

namespace FrontEnd

/-- How tightly an operator binds, the weakest first. -/
inductive Power where
  /-- No operator. -/
  | lowest
  /-- The operators `==` and `!=`. -/
  | equals
  /-- The operators `<` and `>`. -/
  | lessGreater
  /-- The operators `+` and `-` between two operands. -/
  | sum
  /-- The operators `*` and `/`. -/
  | product
  /-- An operator in front of its operand. -/
  | unary
  /-- Tighter than every operator. -/
  | call
  deriving DecidableEq, Repr, Inhabited

namespace Power

/-- The place of a power in the order. -/
def rank : Power → Nat
  | lowest => 0
  | equals => 1
  | lessGreater => 2
  | sum => 3
  | product => 4
  | unary => 5
  | call => 6

instance : Ord Power := ⟨fun a b => compare a.rank b.rank⟩

instance : LT Power := ⟨fun a b => a.rank < b.rank⟩

instance : LE Power := ⟨fun a b => a.rank ≤ b.rank⟩

instance (a b : Power) : Decidable (a < b) := inferInstanceAs (Decidable (a.rank < b.rank))

instance (a b : Power) : Decidable (a ≤ b) := inferInstanceAs (Decidable (a.rank ≤ b.rank))

theorem lt_def {a b : Power} : a < b ↔ a.rank < b.rank := Iff.rfl

theorem le_def {a b : Power} : a ≤ b ↔ a.rank ≤ b.rank := Iff.rfl

theorem not_lt {a b : Power} : ¬ a < b ↔ b ≤ a := Nat.not_lt

theorem lt_of_lt_of_le {a b c : Power} (hab : a < b) (hbc : b ≤ c) : a < c :=
  Nat.lt_of_lt_of_le hab hbc

theorem lt_trans {a b c : Power} (hab : a < b) (hbc : b < c) : a < c :=
  Nat.lt_trans hab hbc

theorem le_call (a : Power) : a ≤ call := by
  cases a <;> decide

end Power

end FrontEnd
