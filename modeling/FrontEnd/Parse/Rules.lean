import FrontEnd.Grammar.Basic
import FrontEnd.Parse.Window
import FrontEnd.Text.Numeral
import FrontEnd.Tree.Basic

/-!
# Reading trees from tokens

Expressions are read by climbing: a leading rule, chosen by the current token, reads the first
operand, and then the operators that bind more tightly than the operator in front are taken in one
after the other, each with its right operand. Statements are read by the rule of their first token,
and as an expression if there is none.

The tokens are seen through a window. Whatever is read ends on its own last token, and is missing if
an error kept it from being read. The reading goes on after an error from the token where it
stopped.

Since the grammar is data, it may ask for a reading that never ends, so every function has a bound
on the depth of its calls, its *fuel*. The outcome is what was read and the state after it, or
`none` if the fuel ran out before.

## Main definitions

* `FrontEnd.Parse.expression`, `FrontEnd.Parse.climb`, `FrontEnd.Parse.binary`,
  `FrontEnd.Parse.leading`, `FrontEnd.Parse.conditional`, `FrontEnd.Parse.branches` — reading
  expressions.
* `FrontEnd.Parse.statement`, `FrontEnd.Parse.opening`, `FrontEnd.Parse.statements`,
  `FrontEnd.Parse.block` — reading statements.
-/

namespace FrontEnd.Parse

open Window

variable {ω : Type} [Window ω]

/-- Reads the rest of a conditional after its condition: the closing parenthesis, a block, and a
second block if `else` comes next. The token is the one that began the conditional. The blocks are
read even if the condition is missing. -/
def branches (block : ω → Option (Block × ω)) (t : Token) (condition? : Option Expr) (s : ω) :
    Option (Option Expr × ω) :=
  expecting s .rparen fun s₁ =>
    expecting s₁ .lbrace fun s₂ => do
      let (consequence, s₃) ← block s₂
      if (peek s₃).is .elseKey then
        expecting (advance s₃) .lbrace fun s₄ => do
          let (alternative, s₅) ← block s₄
          some (condition?.map fun condition =>
            .conditional t condition consequence (some alternative), s₅)
      else
        some (condition?.map fun condition => .conditional t condition consequence none, s₃)

mutual

/-- Reads an expression whose operators all bind more tightly than `b`. -/
def expression (g : Grammar) (fuel : Nat) (b : Power) (s : ω) : Option (Option Expr × ω) :=
  match fuel with
  | 0 => none
  | n + 1 =>
    match g.leading (current s).kind with
    | none => some (none, record s (.noExpression (current s).kind))
    | some r => do
      let (left?, s) ← leading g n r s
      match left? with
      | none => some (none, s)
      | some left => climb g n b left s
termination_by structural fuel

/-- Goes on with the expression `left`, which has been read, as long as the next token is an
operator that binds more tightly than `b`. A semicolon always ends the expression. -/
def climb (g : Grammar) (fuel : Nat) (b : Power) (left : Expr) (s : ω) : Option (Option Expr × ω) :=
  match fuel with
  | 0 => none
  | n + 1 =>
    if (peek s).is .semicolon = false ∧ b < g.power (peek s).kind then
      match g.trailing (peek s).kind with
      | none => some (some left, s)
      | some .binary => do
        let (e?, s) ← binary g n left (g.power (peek s).kind) (advance s)
        match e? with
        | none => some (none, s)
        | some e => climb g n b e s
    else
      some (some left, s)
termination_by structural fuel

/-- Reads the right operand of the operator at the current token, whose left operand is `left` and
whose power is `b`. -/
def binary (g : Grammar) (fuel : Nat) (left : Expr) (b : Power) (s : ω) :
    Option (Option Expr × ω) :=
  match fuel with
  | 0 => none
  | n + 1 => do
    let (right?, s') ← expression g n b (advance s)
    some (right?.map fun right => .binary (current s) left (current s).literal right, s')
termination_by structural fuel

/-- Reads by a leading rule from the current token on, whatever its kind. -/
def leading (g : Grammar) (fuel : Nat) (r : LeadingRule) (s : ω) : Option (Option Expr × ω) :=
  match fuel with
  | 0 => none
  | n + 1 =>
    match r with
    | .identifier => some (some (.identifier (.ofToken (current s))), s)
    | .integer =>
      match Text.signed64? (current s).literal with
      | none => some (none, record s (.badInteger (current s).literal))
      | some value => some (some (.integer (current s) value), s)
    | .boolean => some (some (.boolean (current s) ((current s).is .trueKey)), s)
    | .unary => do
      let (operand?, s') ← expression g n .unary (advance s)
      some (operand?.map fun operand => .unary (current s) (current s).literal operand, s')
    | .grouping => do
      let (e?, s) ← expression g n .lowest (advance s)
      expecting s .rparen fun s => some (e?, s)
    | .conditional => conditional g n s
termination_by structural fuel

/-- Reads a conditional from the current token on: the condition in parentheses, and the blocks. -/
def conditional (g : Grammar) (fuel : Nat) (s : ω) : Option (Option Expr × ω) :=
  match fuel with
  | 0 => none
  | n + 1 =>
    expecting s .lparen fun s₁ => do
      let (condition?, s₂) ← expression g n .lowest (advance s₁)
      branches (block g n) (current s) condition? s₂
termination_by structural fuel

/-- Reads a statement by the rule of the current token. -/
def statement (g : Grammar) (fuel : Nat) (s : ω) : Option (Option Stmt × ω) :=
  match fuel with
  | 0 => none
  | n + 1 => opening g n ((g.statement (current s).kind).getD .expression) s
termination_by structural fuel

/-- Reads by a statement rule from the current token on, whatever its kind, and takes in a semicolon
after it. -/
def opening (g : Grammar) (fuel : Nat) (r : StatementRule) (s : ω) : Option (Option Stmt × ω) :=
  match fuel with
  | 0 => none
  | n + 1 =>
    match r with
    | .binding =>
      expecting s .ident fun s₁ =>
        expecting s₁ .assign fun s₂ => do
          let (value, s₃) ← expression g n .lowest (advance s₂)
          some (some (.binding (current s) (.ofToken (current s₁)) value), skipSemicolon s₃)
    | .result => do
      let (value, s₁) ← expression g n .lowest (advance s)
      some (some (.result (current s) value), skipSemicolon s₁)
    | .expression => do
      let (e?, s₁) ← expression g n .lowest s
      some (e?.map fun e => .expression (current s) e, skipSemicolon s₁)
termination_by structural fuel

/-- Reads statements until the current token is of a kind in `stop`, and leaves out those that are
missing. -/
def statements (g : Grammar) (fuel : Nat) (stop : List Kind) (s : ω) : Option (List Stmt × ω) :=
  match fuel with
  | 0 => none
  | n + 1 =>
    if (current s).kind ∈ stop then
      some ([], s)
    else do
      let (first?, s) ← statement g n s
      let (others, s) ← statements g n stop (advance s)
      some (first?.toList ++ others, s)
termination_by structural fuel

/-- Reads a block from the token that opens it on, up to the closing brace or the end. -/
def block (g : Grammar) (fuel : Nat) (s : ω) : Option (Block × ω) :=
  match fuel with
  | 0 => none
  | n + 1 => do
    let (body, s') ← statements g n [.rbrace, .eof] (advance s)
    some (.mk (current s) body, s')
termination_by structural fuel

end

end FrontEnd.Parse
