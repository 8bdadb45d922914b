import FrontEnd.Tree.Render

/-!
# The outline of a tree

The *outline* lists the nodes of a program in pre-order, each with a label, the literal of its token
and its canonical form. A statement and an expression are listed twice in a row, first under the
label of the sort of node and then under the label of the particular form.

## Main definitions

* `FrontEnd.Outline.Label` — what a line of the outline stands for.
* `FrontEnd.Outline.Entry` — a line of the outline.
* `FrontEnd.Program.outline` — the outline.
-/

namespace FrontEnd

namespace Outline

/-- What a line of an outline stands for. -/
inductive Label where
  /-- The program. -/
  | program
  /-- A statement of any form. -/
  | statement
  /-- A statement that gives a name to a value. -/
  | binding
  /-- A statement that hands back a value. -/
  | result
  /-- A statement that is an expression. -/
  | expressionStatement
  /-- An expression of any form. -/
  | expression
  /-- A name. -/
  | identifier
  /-- A number. -/
  | integer
  /-- A truth value. -/
  | boolean
  /-- An operator in front of its operand. -/
  | unary
  /-- An operator between its operands. -/
  | binary
  /-- A conditional. -/
  | conditional
  /-- A block. -/
  | block
  deriving DecidableEq, Repr

/-- A line of an outline. -/
structure Entry where
  /-- What the line stands for. -/
  label : Label
  /-- The literal of the node's token. -/
  literal : String
  /-- The canonical form of the node. -/
  rendering : String
  deriving DecidableEq, Repr

end Outline

open Outline

/-- The line of a name. -/
def Identifier.entry (name : Identifier) : Entry :=
  ⟨.identifier, name.token.literal, name.value⟩

/-- The label of the form of an expression. -/
def Expr.label : Expr → Label
  | .identifier .. => .identifier
  | .integer .. => .integer
  | .boolean .. => .boolean
  | .unary .. => .unary
  | .binary .. => .binary
  | .conditional .. => .conditional

/-- The label of the form of a statement. -/
def Stmt.label : Stmt → Label
  | .binding .. => .binding
  | .result .. => .result
  | .expression .. => .expressionStatement

/-- The two lines of an expression itself, without what is inside it. -/
def Expr.entries (e : Expr) : List Entry :=
  [⟨.expression, e.token.literal, e.render⟩, ⟨e.label, e.token.literal, e.render⟩]

/-- The two lines of a statement itself, without what is inside it. -/
def Stmt.entries (s : Stmt) : List Entry :=
  [⟨.statement, s.token.literal, s.render⟩, ⟨s.label, s.token.literal, s.render⟩]

mutual

/-- What is listed below an expression. -/
def Expr.inside : Expr → List Entry
  | .identifier _ => []
  | .integer _ _ => []
  | .boolean _ _ => []
  | .unary _ _ operand => operand.entries ++ operand.inside
  | .binary _ left _ right => left.entries ++ left.inside ++ (right.entries ++ right.inside)
  | .conditional _ condition consequence none =>
    condition.entries ++ condition.inside ++ consequence.outline
  | .conditional _ condition consequence (some alternative) =>
    condition.entries ++ condition.inside ++ consequence.outline ++ alternative.outline

/-- What is listed below a statement. -/
def Stmt.inside : Stmt → List Entry
  | .binding _ name none => [name.entry]
  | .binding _ name (some value) => name.entry :: (value.entries ++ value.inside)
  | .result _ none => []
  | .result _ (some value) => value.entries ++ value.inside
  | .expression _ expr => expr.entries ++ expr.inside

/-- The line of a block, and what is listed below it. -/
def Block.outline : Block → List Entry
  | .mk t statements => ⟨.block, t.literal, Stmt.renderAll statements⟩ :: Stmt.outlines statements

/-- The lines of statements with what is listed below each. -/
def Stmt.outlines : List Stmt → List Entry
  | [] => []
  | s :: ss => s.entries ++ s.inside ++ Stmt.outlines ss

end

/-- The outline of a program: its own line, then its statements. -/
def Program.outline (p : Program) : List Entry :=
  ⟨.program, p.literal, p.render⟩ :: Stmt.outlines p.statements

end FrontEnd
