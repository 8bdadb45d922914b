import FrontEnd.Token.Basic

/-!
# Syntax trees

A *program* is a list of statements. Every node keeps the token it began with, and next to it the
data that later stages read: the value of a literal, the operator of an application. Nothing forces
the two to agree, since a tree may be built by hand; the trees that come from a text do agree.

## Main definitions

* `FrontEnd.Identifier` — a name with its token.
* `FrontEnd.Expr`, `FrontEnd.Stmt`, `FrontEnd.Block` — expressions, statements, and the braced lists
  of statements that are the bodies of conditionals.
* `FrontEnd.Program` — a whole text.
* `FrontEnd.Expr.token`, `FrontEnd.Stmt.token`, `FrontEnd.Block.token` — the token of a node.
* `FrontEnd.Program.literal` — the text that a program begins with.
-/

namespace FrontEnd

/-- A name. -/
structure Identifier where
  /-- The token of the name. -/
  token : Token
  /-- The name itself. -/
  value : String
  deriving DecidableEq, Repr

/-- The name that a token spells. -/
def Identifier.ofToken (t : Token) : Identifier :=
  ⟨t, t.literal⟩

mutual

/-- Expressions. -/
inductive Expr where
  /-- A name. -/
  | identifier (name : Identifier)
  /-- A number. -/
  | integer (token : Token) (value : Int)
  /-- A truth value. -/
  | boolean (token : Token) (value : Bool)
  /-- An operator in front of its operand. -/
  | unary (token : Token) (operator : String) (operand : Expr)
  /-- An operator between its operands. -/
  | binary (token : Token) (left : Expr) (operator : String) (right : Expr)
  /-- A choice between two blocks, the second of which may be missing. -/
  | conditional (token : Token) (condition : Expr) (consequence : Block)
      (alternative : Option Block)

/-- Statements. -/
inductive Stmt where
  /-- Gives a name to a value. The value is missing if it could not be read. -/
  | binding (token : Token) (name : Identifier) (value : Option Expr)
  /-- Hands back a value. The value is missing if it could not be read. -/
  | result (token : Token) (value : Option Expr)
  /-- An expression for its own sake. -/
  | expression (token : Token) (expr : Expr)

/-- A braced list of statements. -/
inductive Block where
  /-- The statements after the token that opens the block. -/
  | mk (token : Token) (statements : List Stmt)

end

/-- A program: its statements in the order of the text. -/
structure Program where
  /-- The statements. -/
  statements : List Stmt

/-- The token that an expression keeps: the operator for `Expr.binary`, and otherwise the first
token. -/
def Expr.token : Expr → Token
  | .identifier name => name.token
  | .integer t _ => t
  | .boolean t _ => t
  | .unary t _ _ => t
  | .binary t _ _ _ => t
  | .conditional t _ _ _ => t

/-- The token that a statement begins with. -/
def Stmt.token : Stmt → Token
  | .binding t _ _ => t
  | .result t _ => t
  | .expression t _ => t

/-- The token that opens a block. -/
def Block.token : Block → Token
  | .mk t _ => t

/-- The statements of a block. -/
def Block.statements : Block → List Stmt
  | .mk _ statements => statements

namespace Program

/-- The number of statements. -/
def length (p : Program) : Nat :=
  p.statements.length

/-- Whether there are no statements. -/
def isEmpty (p : Program) : Bool :=
  p.statements.isEmpty

/-- The literal of the token that the first statement begins with, empty if there is none. -/
def literal (p : Program) : String :=
  match p.statements with
  | [] => ""
  | s :: _ => s.token.literal

end Program

end FrontEnd
