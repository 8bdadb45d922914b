import FrontEnd.Proofs.Fault

/-!
# The tables of the language

The grammar of the language is given by tables, into which its rules are entered one after the
other. Here the tables are turned around: which kinds have a given rule, and which kinds continue an
expression.

## Main definitions

* `FrontEnd.LeadingRule.kinds` — the kinds at which an expression begins by a rule.
* `FrontEnd.Kind.IsOperator` — the operators between two operands.
* `FrontEnd.Kind.EndsExpression` — the kinds with which no expression goes on.

## Main results

* `FrontEnd.Grammar.leading_standard`, `FrontEnd.Grammar.continues_standard` — the tables of
  expressions.
-/

namespace FrontEnd

/-- The operators that stand between two operands. -/
def Kind.IsOperator (k : Kind) : Prop :=
  k ∈ [Kind.eq, .notEq, .lt, .gt, .plus, .minus, .asterisk, .slash]

instance (k : Kind) : Decidable k.IsOperator :=
  inferInstanceAs (Decidable (k ∈ _))

/-- No expression of the language goes on with a token of the kind. -/
def Kind.EndsExpression (k : Kind) : Prop :=
  ¬ k.IsOperator ∧ k ≠ .elseKey

instance (k : Kind) : Decidable k.EndsExpression :=
  inferInstanceAs (Decidable (_ ∧ _))

/-- The kinds at which an expression of the language begins by the rule. -/
def LeadingRule.kinds : LeadingRule → List Kind
  | identifier => [.ident]
  | integer => [.int]
  | boolean => [.trueKey, .falseKey]
  | unary => [.bang, .minus]
  | grouping => [.lparen]
  | conditional => [.ifKey]

namespace Grammar

variable {k : Kind}

theorem leading_standard {r : LeadingRule} : standard.leading k = some r ↔ k ∈ r.kinds := by
  cases r <;> cases k <;> decide

theorem eq_lparen_of_leading (h : standard.leading k = some .grouping) : k = .lparen := by
  simpa [LeadingRule.kinds] using leading_standard.mp h

theorem eq_ifKey_of_leading (h : standard.leading k = some .conditional) : k = .ifKey := by
  simpa [LeadingRule.kinds] using leading_standard.mp h

theorem statement_standard_eq_binding :
    (standard.statement k).getD .expression = .binding ↔ k = .letKey := by
  cases k <;> decide

theorem statement_standard_eq_result :
    (standard.statement k).getD .expression = .result ↔ k = .returnKey := by
  cases k <;> decide

theorem statement_standard_eq_expression :
    (standard.statement k).getD .expression = .expression ↔ k ≠ .letKey ∧ k ≠ .returnKey := by
  cases k <;> decide

theorem power_le_product_of_isOperator (hk : k.IsOperator) : standard.power k ≤ .product := by
  revert hk
  cases k <;> decide

theorem lowest_lt_power_of_isOperator (hk : k.IsOperator) : .lowest < standard.power k := by
  revert hk
  cases k <;> decide

/-- An expression of the language goes on with the operators, as far as they bind more tightly. -/
theorem continues_standard {b : Power} :
    standard.Continues b k ↔ k.IsOperator ∧ b < standard.power k := by
  constructor
  · rintro ⟨-, hpower, htrail⟩
    refine ⟨?_, hpower⟩
    revert htrail
    cases k <;> decide
  · rintro ⟨hop, hpower⟩
    have htable : k ≠ .semicolon ∧ standard.trailing k = some .binary := by
      revert hop
      cases k <;> decide
    exact ⟨htable.1, hpower, htable.2⟩

theorem not_continues_of_endsExpression (hk : k.EndsExpression) (b : Power) :
    ¬ standard.Continues b k :=
  fun hgo => hk.1 (continues_standard.mp hgo).1

/-- What begins an expression begins no other statement, and ends no statements. -/
theorem statement_of_leading {r : LeadingRule} (h : standard.leading k = some r) :
    (standard.statement k).getD .expression = .expression ∧ k ∉ [Kind.rbrace, .eof] := by
  have hk := leading_standard.mp h
  revert hk
  cases r <;> cases k <;> decide

/-- No operator binds more tightly than those in front of their operand. -/
theorem not_continues_unary (k : Kind) : ¬ standard.Continues .unary k := by
  rw [continues_standard]
  rintro ⟨hop, hpower⟩
  have hle := power_le_product_of_isOperator hop
  simp only [Power.lt_def, Power.le_def, Power.rank] at hpower hle
  omega

theorem bounded_standard : standard.Bounded :=
  ⟨rfl, rfl⟩

end Grammar

end FrontEnd
