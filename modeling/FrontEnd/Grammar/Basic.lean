import FrontEnd.Grammar.Power
import FrontEnd.Token.Kind

/-!
# Grammars

A *grammar* tells a reader of tokens what to do at each kind of token. It is data: three tables give
the rule by which an expression begins, by which an expression goes on, and by which a statement
begins, and a fourth table gives the power of the kinds by which an expression goes on. Rules can be
entered for any kind, over what the table says already.

## Main definitions

* `FrontEnd.LeadingRule`, `FrontEnd.TrailingRule`, `FrontEnd.StatementRule` — the rules.
* `FrontEnd.Table`, `FrontEnd.Table.enter` — tables by kind.
* `FrontEnd.Grammar` — the four tables.
* `FrontEnd.Grammar.power` — the power of a kind, the weakest for a kind that has none.
* `FrontEnd.Grammar.withStandard`, `FrontEnd.Grammar.standard` — the rules of the language.
-/

namespace FrontEnd

/-- The rules by which an expression begins. -/
inductive LeadingRule where
  /-- The token is a name. -/
  | identifier
  /-- The token is a number. -/
  | integer
  /-- The token is a truth value. -/
  | boolean
  /-- The token is an operator in front of its operand. -/
  | unary
  /-- The token opens a parenthesis. -/
  | grouping
  /-- The token begins a conditional. -/
  | conditional
  deriving DecidableEq, Repr

/-- The rules by which an expression goes on. -/
inductive TrailingRule where
  /-- The token is an operator between two operands. -/
  | binary
  deriving DecidableEq, Repr

/-- The rules by which a statement begins. -/
inductive StatementRule where
  /-- The token begins the naming of a value. -/
  | binding
  /-- The token begins the handing back of a value. -/
  | result
  /-- The token begins an expression. -/
  | expression
  deriving DecidableEq, Repr

/-- A table by kind of token. -/
abbrev Table (α : Type) := Kind → Option α

namespace Table

variable {α : Type}

/-- The table without entries. -/
def empty : Table α := fun _ => none

/-- Enters `a` for the kind `k`, over what was there. -/
def enter (t : Table α) (k : Kind) (a : α) : Table α :=
  fun k' => if k' = k then some a else t k'

/-- The kinds that have an entry. -/
def kinds (t : Table α) : List Kind :=
  Kind.all.filter fun k => (t k).isSome

/-- The kinds that have an entry, in the order of their names. -/
def sortedKinds (t : Table α) : List Kind :=
  t.kinds.mergeSort fun k k' => k.name ≤ k'.name

@[simp]
theorem enter_self (t : Table α) (k : Kind) (a : α) : t.enter k a k = some a := by
  simp [enter]

theorem enter_of_ne (t : Table α) {k k' : Kind} (a : α) (h : k' ≠ k) : t.enter k a k' = t k' := by
  simp [enter, h]

end Table

/-- A grammar. -/
structure Grammar where
  /-- How an expression begins. -/
  leading : Table LeadingRule
  /-- How an expression goes on. -/
  trailing : Table TrailingRule
  /-- How tightly the kinds bind by which an expression goes on. -/
  powers : Table Power
  /-- How a statement begins. -/
  statement : Table StatementRule

namespace Grammar

/-- The grammar without rules. -/
def empty : Grammar := ⟨.empty, .empty, .empty, .empty⟩

/-- The power of a kind: the weakest if the table gives none. -/
def power (g : Grammar) (k : Kind) : Power :=
  (g.powers k).getD .lowest

/-- Enters a rule by which an expression begins. -/
def addLeading (g : Grammar) (k : Kind) (r : LeadingRule) : Grammar :=
  { g with leading := g.leading.enter k r }

/-- Enters a rule by which an expression goes on, together with its power. -/
def addTrailing (g : Grammar) (k : Kind) (b : Power) (r : TrailingRule) : Grammar :=
  { g with powers := g.powers.enter k b, trailing := g.trailing.enter k r }

/-- Enters a rule by which a statement begins. -/
def addStatement (g : Grammar) (k : Kind) (r : StatementRule) : Grammar :=
  { g with statement := g.statement.enter k r }

/-- Enters the rules of the language over what the tables say. Other entries stay. -/
def withStandard (g : Grammar) : Grammar :=
  g
  |>.addTrailing .eq .equals .binary
  |>.addTrailing .notEq .equals .binary
  |>.addTrailing .lt .lessGreater .binary
  |>.addTrailing .gt .lessGreater .binary
  |>.addTrailing .plus .sum .binary
  |>.addTrailing .minus .sum .binary
  |>.addTrailing .asterisk .product .binary
  |>.addTrailing .slash .product .binary
  |>.addLeading .ident .identifier
  |>.addLeading .int .integer
  |>.addLeading .trueKey .boolean
  |>.addLeading .falseKey .boolean
  |>.addLeading .bang .unary
  |>.addLeading .minus .unary
  |>.addLeading .lparen .grouping
  |>.addLeading .ifKey .conditional
  |>.addStatement .letKey .binding
  |>.addStatement .returnKey .result

/-- The grammar of the language. -/
def standard : Grammar := empty.withStandard

end Grammar

end FrontEnd
