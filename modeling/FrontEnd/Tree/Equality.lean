import FrontEnd.Tree.Basic

/-!
# Equality of trees

Two trees are equal when they agree in everything that they hold: tokens, values, operators and
shape. This is decidable.

## Main definitions

* `FrontEnd.Expr.same`, `FrontEnd.Stmt.same`, `FrontEnd.Block.same`, `FrontEnd.Stmt.sameAll` — the
  test, node by node.
* The instances of `DecidableEq` on expressions, statements, blocks and programs.

## Main results

* `FrontEnd.Expr.same_iff`, `FrontEnd.Stmt.same_iff`, `FrontEnd.Block.same_iff`,
  `FrontEnd.Stmt.sameAll_iff` — the test is equality.
-/

namespace FrontEnd

mutual

/-- Whether two expressions agree in everything. -/
def Expr.same : Expr → Expr → Bool
  | .identifier n, .identifier n' => n == n'
  | .integer t v, .integer t' v' => t == t' && v == v'
  | .boolean t v, .boolean t' v' => t == t' && v == v'
  | .unary t o e, .unary t' o' e' => t == t' && o == o' && e.same e'
  | .binary t l o r, .binary t' l' o' r' => t == t' && l.same l' && o == o' && r.same r'
  | .conditional t c b none, .conditional t' c' b' none => t == t' && c.same c' && b.same b'
  | .conditional t c b (some a), .conditional t' c' b' (some a') =>
    t == t' && c.same c' && b.same b' && a.same a'
  | _, _ => false

/-- Whether two statements agree in everything. -/
def Stmt.same : Stmt → Stmt → Bool
  | .binding t n none, .binding t' n' none => t == t' && n == n'
  | .binding t n (some e), .binding t' n' (some e') => t == t' && n == n' && e.same e'
  | .result t none, .result t' none => t == t'
  | .result t (some e), .result t' (some e') => t == t' && e.same e'
  | .expression t e, .expression t' e' => t == t' && e.same e'
  | _, _ => false

/-- Whether two blocks agree in everything. -/
def Block.same : Block → Block → Bool
  | .mk t ss, .mk t' ss' => t == t' && Stmt.sameAll ss ss'

/-- Whether two lists of statements agree in everything. -/
def Stmt.sameAll : List Stmt → List Stmt → Bool
  | [], [] => true
  | s :: ss, s' :: ss' => s.same s' && Stmt.sameAll ss ss'
  | _, _ => false

end

mutual

theorem Expr.same_iff : ∀ e e' : Expr, e.same e' = true ↔ e = e'
  | .identifier _, e' => by cases e' <;> simp [Expr.same]
  | .integer _ _, e' => by cases e' <;> simp [Expr.same]
  | .boolean _ _, e' => by cases e' <;> simp [Expr.same]
  | .unary _ _ e, e' => by cases e' <;> simp [Expr.same, Expr.same_iff e, and_assoc]
  | .binary _ l _ r, e' => by
    cases e' <;> simp [Expr.same, Expr.same_iff l, Expr.same_iff r, and_assoc]
  | .conditional _ c b none, e' => by
    rcases e' with _ | _ | _ | _ | _ | ⟨_, _, _, _ | _⟩ <;>
      simp [Expr.same, Expr.same_iff c, Block.same_iff b, and_assoc]
  | .conditional _ c b (some a), e' => by
    rcases e' with _ | _ | _ | _ | _ | ⟨_, _, _, _ | _⟩ <;>
      simp [Expr.same, Expr.same_iff c, Block.same_iff b, Block.same_iff a, and_assoc]

theorem Stmt.same_iff : ∀ s s' : Stmt, s.same s' = true ↔ s = s'
  | .binding _ _ none, s' => by
    rcases s' with ⟨_, _, _ | _⟩ | ⟨_, _ | _⟩ | _ <;> simp [Stmt.same]
  | .binding _ _ (some e), s' => by
    rcases s' with ⟨_, _, _ | _⟩ | ⟨_, _ | _⟩ | _ <;> simp [Stmt.same, Expr.same_iff e, and_assoc]
  | .result _ none, s' => by
    rcases s' with ⟨_, _, _ | _⟩ | ⟨_, _ | _⟩ | _ <;> simp [Stmt.same]
  | .result _ (some e), s' => by
    rcases s' with ⟨_, _, _ | _⟩ | ⟨_, _ | _⟩ | _ <;> simp [Stmt.same, Expr.same_iff e]
  | .expression _ e, s' => by
    rcases s' with ⟨_, _, _ | _⟩ | ⟨_, _ | _⟩ | _ <;> simp [Stmt.same, Expr.same_iff e]

theorem Block.same_iff : ∀ b b' : Block, b.same b' = true ↔ b = b'
  | .mk _ ss, .mk _ ss' => by simp [Block.same, Stmt.sameAll_iff ss ss']

theorem Stmt.sameAll_iff : ∀ ss ss' : List Stmt, Stmt.sameAll ss ss' = true ↔ ss = ss'
  | [], [] => by simp [Stmt.sameAll]
  | [], _ :: _ => by simp [Stmt.sameAll]
  | _ :: _, [] => by simp [Stmt.sameAll]
  | s :: ss, s' :: ss' => by simp [Stmt.sameAll, Stmt.same_iff s s', Stmt.sameAll_iff ss ss']

end

instance : DecidableEq Expr := fun e e' => decidable_of_iff _ (Expr.same_iff e e')

instance : DecidableEq Stmt := fun s s' => decidable_of_iff _ (Stmt.same_iff s s')

instance : DecidableEq Block := fun b b' => decidable_of_iff _ (Block.same_iff b b')

deriving instance DecidableEq for Program

end FrontEnd
