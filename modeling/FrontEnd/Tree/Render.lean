import FrontEnd.Tree.Basic

/-!
# The canonical form of a tree

A tree is *rendered* on one line with every application in parentheses, so that the reader sees how
the operators were grouped. A name is rendered by its value, a number or truth value by the literal
of its token, an application by its operator. Neither braces nor the semicolons after expression
statements are rendered, and nothing stands between two statements.

## Main definitions

* `FrontEnd.Expr.render`, `FrontEnd.Stmt.render`, `FrontEnd.Block.render`,
  `FrontEnd.Program.render` — the canonical form.
-/

namespace FrontEnd

mutual

/-- The canonical form of an expression. -/
def Expr.render : Expr → String
  | .identifier name => name.value
  | .integer t _ => t.literal
  | .boolean t _ => t.literal
  | .unary _ operator operand => "(" ++ operator ++ operand.render ++ ")"
  | .binary _ left operator right =>
    "(" ++ left.render ++ " " ++ operator ++ " " ++ right.render ++ ")"
  | .conditional _ condition consequence none =>
    "if" ++ condition.render ++ " " ++ consequence.render
  | .conditional _ condition consequence (some alternative) =>
    "if" ++ condition.render ++ " " ++ consequence.render ++ "else " ++ alternative.render

/-- The canonical form of a statement. -/
def Stmt.render : Stmt → String
  | .binding t name none => t.literal ++ " " ++ name.value ++ " = ;"
  | .binding t name (some value) =>
    t.literal ++ " " ++ name.value ++ " = " ++ value.render ++ ";"
  | .result t none => t.literal ++ ";"
  | .result t (some value) => t.literal ++ " " ++ value.render ++ ";"
  | .expression _ expr => expr.render

/-- The canonical form of a block: that of its statements. -/
def Block.render : Block → String
  | .mk _ statements => Stmt.renderAll statements

/-- The canonical forms of statements, one after the other. -/
def Stmt.renderAll : List Stmt → String
  | [] => ""
  | s :: ss => s.render ++ Stmt.renderAll ss

end

/-- The canonical form of a program: that of its statements. -/
def Program.render (p : Program) : String :=
  Stmt.renderAll p.statements

end FrontEnd
