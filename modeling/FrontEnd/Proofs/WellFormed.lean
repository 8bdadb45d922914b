import FrontEnd.Proofs.Lexing
import FrontEnd.Proofs.Standard

/-!
# Well-formed trees

A tree holds the same thing more than once: a node keeps its token, and beside it the data that come
from the token. In a *well-formed* tree the two agree, and every token could have been cut from a
text for the place where it stands. The token of an expression statement is left open, since the
statement may begin with any token of its expression, or with a parenthesis around it. So trees are
also compared up to these tokens, which is done by *masking* them.

## Main definitions

* `FrontEnd.Expr.WellFormed`, `FrontEnd.Stmt.WellFormed`, `FrontEnd.Block.WellFormed`,
  `FrontEnd.Program.WellFormed` — well-formed trees.
* `FrontEnd.Expr.mask`, `FrontEnd.Stmt.mask`, `FrontEnd.Block.mask`, `FrontEnd.Program.mask` — trees
  with the tokens of their expression statements masked.
-/

namespace FrontEnd

/-- The token of a name is that of a word other than the keywords, and the name is its literal. -/
structure Identifier.WellFormed (name : Identifier) : Prop where
  /-- The token is that of a name. -/
  kind_eq : name.token.kind = .ident
  /-- The name is the literal of the token. -/
  value_eq : name.value = name.token.literal
  /-- There is at least one letter. -/
  ne_empty : name.value ≠ ""
  /-- There are only letters and underscores. -/
  isLetter : ∀ c ∈ name.value.toList, isLetter c = true
  /-- The word is no keyword. -/
  keyword?_eq : Kind.keyword? name.value = none

mutual

/-- The data of each node of the expression agree with its token. -/
def Expr.WellFormed : Expr → Prop
  | .identifier name => name.WellFormed
  | .integer t value =>
    t.kind = .int ∧ ∃ n, Text.natural? t.literal.toList = some n ∧ n ≤ Text.maxSigned64 ∧ value = n
  | .boolean t value => t = .ofKind (if value then .trueKey else .falseKey)
  | .unary t operator operand =>
    t.kind ∈ [Kind.bang, .minus] ∧ t = .ofKind t.kind ∧ operator = t.literal ∧ operand.WellFormed
  | .binary t left operator right =>
    t.kind.IsOperator ∧ t = .ofKind t.kind ∧ operator = t.literal ∧ left.WellFormed ∧
      right.WellFormed
  | .conditional t condition consequence none =>
    t = .ofKind .ifKey ∧ condition.WellFormed ∧ consequence.WellFormed
  | .conditional t condition consequence (some alternative) =>
    t = .ofKind .ifKey ∧ condition.WellFormed ∧ consequence.WellFormed ∧ alternative.WellFormed

/-- The data of each node of the statement agree with its token. -/
def Stmt.WellFormed : Stmt → Prop
  | .binding t name none => t = .ofKind .letKey ∧ name.WellFormed
  | .binding t name (some value) => t = .ofKind .letKey ∧ name.WellFormed ∧ value.WellFormed
  | .result t none => t = .ofKind .returnKey
  | .result t (some value) => t = .ofKind .returnKey ∧ value.WellFormed
  | .expression _ expr => expr.WellFormed

/-- The data of each node of the block agree with its token. -/
def Block.WellFormed : Block → Prop
  | .mk t statements => t = .ofKind .lbrace ∧ Stmt.AllWellFormed statements

/-- All of the statements are well-formed. -/
def Stmt.AllWellFormed : List Stmt → Prop
  | [] => True
  | s :: ss => s.WellFormed ∧ Stmt.AllWellFormed ss

end

/-- All statements of the program are well-formed. -/
def Program.WellFormed (p : Program) : Prop :=
  Stmt.AllWellFormed p.statements

theorem Kind.IsOperator.isSome_spelling? {k : Kind} (h : k.IsOperator) : k.spelling?.isSome := by
  revert h
  cases k <;> decide

/-! ### Masks -/

mutual

/-- The expression with the tokens of its expression statements masked, if there is a mask. -/
def Expr.mask (hide : Bool) : Expr → Expr
  | .identifier name => .identifier name
  | .integer t value => .integer t value
  | .boolean t value => .boolean t value
  | .unary t operator operand => .unary t operator (operand.mask hide)
  | .binary t left operator right => .binary t (left.mask hide) operator (right.mask hide)
  | .conditional t condition consequence none =>
    .conditional t (condition.mask hide) (consequence.mask hide) none
  | .conditional t condition consequence (some alternative) =>
    .conditional t (condition.mask hide) (consequence.mask hide) (some (alternative.mask hide))

/-- The statement with the tokens of its expression statements masked, if there is a mask. -/
def Stmt.mask (hide : Bool) : Stmt → Stmt
  | .binding t name none => .binding t name none
  | .binding t name (some value) => .binding t name (some (value.mask hide))
  | .result t none => .result t none
  | .result t (some value) => .result t (some (value.mask hide))
  | .expression t expr => .expression (if hide then .eof else t) (expr.mask hide)

/-- The block with the tokens of its expression statements masked, if there is a mask. -/
def Block.mask (hide : Bool) : Block → Block
  | .mk t statements => .mk t (Stmt.maskAll hide statements)

/-- The statements with the tokens of their expression statements masked, if there is a mask. -/
def Stmt.maskAll (hide : Bool) : List Stmt → List Stmt
  | [] => []
  | s :: ss => s.mask hide :: Stmt.maskAll hide ss

end

/-- The program with the tokens of its expression statements masked, if there is a mask. -/
def Program.mask (hide : Bool) (p : Program) : Program :=
  ⟨Stmt.maskAll hide p.statements⟩

mutual

@[simp]
theorem Expr.mask_false : ∀ e : Expr, e.mask false = e
  | .identifier _ => by rw [Expr.mask]
  | .integer _ _ => by rw [Expr.mask]
  | .boolean _ _ => by rw [Expr.mask]
  | .unary _ _ e => by rw [Expr.mask, e.mask_false]
  | .binary _ l _ r => by rw [Expr.mask, l.mask_false, r.mask_false]
  | .conditional _ c b none => by rw [Expr.mask, c.mask_false, b.mask_false]
  | .conditional _ c b (some a) => by rw [Expr.mask, c.mask_false, b.mask_false, a.mask_false]

@[simp]
theorem Stmt.mask_false : ∀ s : Stmt, s.mask false = s
  | .binding _ _ none => by rw [Stmt.mask]
  | .binding _ _ (some e) => by rw [Stmt.mask, e.mask_false]
  | .result _ none => by rw [Stmt.mask]
  | .result _ (some e) => by rw [Stmt.mask, e.mask_false]
  | .expression _ e => by rw [Stmt.mask, e.mask_false]; rfl

@[simp]
theorem Block.mask_false : ∀ b : Block, b.mask false = b
  | .mk _ ss => by rw [Block.mask, Stmt.maskAll_false ss]

@[simp]
theorem Stmt.maskAll_false : ∀ ss : List Stmt, Stmt.maskAll false ss = ss
  | [] => rfl
  | s :: ss => by rw [Stmt.maskAll, s.mask_false, Stmt.maskAll_false ss]

end

theorem Program.mask_false (p : Program) : p.mask false = p := by
  rw [Program.mask, Stmt.maskAll_false]

/-! ### The tokens of well-formed trees -/

theorem Identifier.WellFormed.ofToken_eq {name : Identifier} (h : name.WellFormed) :
    .ofToken name.token = name := by
  rw [Identifier.ofToken, ← h.value_eq]

theorem Identifier.WellFormed.genuine {name : Identifier} (h : name.WellFormed) :
    name.token.Genuine := by
  have hword : Kind.ofWord name.value = .ident := by rw [Kind.ofWord, h.keyword?_eq]; rfl
  have hlexeme := isLexeme_ofWord h.ne_empty h.isLetter
  rw [hword, h.value_eq, ← h.kind_eq] at hlexeme
  exact hlexeme

theorem Token.genuine_of_natural? {t : Token} {n : Nat} (hkind : t.kind = .int)
    (h : Text.natural? t.literal.toList = some n) : t.Genuine := by
  obtain ⟨hne, hdigits, -⟩ := Text.natural?_eq_some h
  unfold Genuine
  rw [hkind]
  cases hcs : t.literal.toList with
  | nil => exact absurd hcs hne
  | cons c cs =>
    rw [hcs, List.all_cons, Bool.and_eq_true, List.all_eq_true] at hdigits
    exact .number hdigits.1 hdigits.2

end FrontEnd
