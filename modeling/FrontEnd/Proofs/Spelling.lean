import FrontEnd.Proofs.Outcome
import FrontEnd.Proofs.WellFormed

/-!
# Spelling trees and reading them back

A tree is *spelled* by the tokens that its nodes keep, in the order of the text, with braces around
blocks, parentheses around conditions, and a semicolon after each statement. Parentheses stand
around an operand if without them the operators would be grouped in another way, and they may stand
around any expression, as often as one likes.

Every spelling is read back: the literals of its tokens, separated by spaces, are a text without
errors, and its parse is the tree that was spelled. Only the tokens of expression statements are not
spelled, since such a statement keeps the first token of its expression, which may be a parenthesis.

## Main definitions

* `FrontEnd.Expr.rootPower?` — the power of the operator at the root of an expression.
* `FrontEnd.SpellsExpression`, `FrontEnd.SpellsStatement`, `FrontEnd.SpellsStatements`,
  `FrontEnd.SpellsBlock` — the spellings.

## Main results

* `FrontEnd.SpellsExpression.reads` — a spelled expression is read, whatever comes after it.
* `FrontEnd.parse_spaced_of_spells` — every spelling is read back.
-/

namespace FrontEnd

/-- The power of the operator at the root of an expression, if it stands between two operands. -/
def Expr.rootPower? : Expr → Option Power
  | .binary t _ _ _ => some (Grammar.standard.power t.kind)
  | _ => none

mutual

/-- The tokens spell the expression. The first argument of the relation tells whether they are in
parentheses. -/
inductive SpellsExpression (hide : Bool) : Bool → Expr → List Token → Prop
  | identifier {name} : SpellsExpression hide false (.identifier name) [name.token]
  | integer {t value} : SpellsExpression hide false (.integer t value) [t]
  | boolean {t value} : SpellsExpression hide false (.boolean t value) [t]
  | unary {t operator operand wrapped ts} (hoperand : SpellsExpression hide wrapped operand ts)
      (hwrapped : operand.rootPower? ≠ none → wrapped = true) :
      SpellsExpression hide false (.unary t operator operand) (t :: ts)
  | binary {t left operator right wrapped ts wrapped' us}
      (hleft : SpellsExpression hide wrapped left ts)
      (hwrapped : ∀ p, left.rootPower? = some p → p < Grammar.standard.power t.kind →
        wrapped = true)
      (hright : SpellsExpression hide wrapped' right us)
      (hwrapped' : ∀ p, right.rootPower? = some p → p ≤ Grammar.standard.power t.kind →
        wrapped' = true) :
      SpellsExpression hide false (.binary t left operator right) (ts ++ t :: us)
  | conditional {t condition consequence wrapped ts us}
      (hcondition : SpellsExpression hide wrapped condition ts)
      (hconsequence : SpellsBlock hide consequence us) :
      SpellsExpression hide false (.conditional t condition consequence none)
        (t :: .ofKind .lparen :: (ts ++ .ofKind .rparen :: us))
  | alternative {t condition consequence alternative wrapped ts us vs}
      (hcondition : SpellsExpression hide wrapped condition ts)
      (hconsequence : SpellsBlock hide consequence us)
      (halternative : SpellsBlock hide alternative vs) :
      SpellsExpression hide false (.conditional t condition consequence (some alternative))
        (t :: .ofKind .lparen :: (ts ++ .ofKind .rparen :: (us ++ .ofKind .elseKey :: vs)))
  | wrap {e wrapped ts} (h : SpellsExpression hide wrapped e ts) :
      SpellsExpression hide true e (.ofKind .lparen :: (ts ++ [.ofKind .rparen]))

/-- The tokens spell the statement. The token of an expression statement is the first one of its
spelling, unless it is hidden. -/
inductive SpellsStatement (hide : Bool) : Stmt → List Token → Prop
  | binding {t name value wrapped ts} (hvalue : SpellsExpression hide wrapped value ts) :
      SpellsStatement hide (.binding t name (some value))
        (t :: name.token :: .ofKind .assign :: (ts ++ [.ofKind .semicolon]))
  | result {t value wrapped ts} (hvalue : SpellsExpression hide wrapped value ts) :
      SpellsStatement hide (.result t (some value)) (t :: (ts ++ [.ofKind .semicolon]))
  | expression {t expr wrapped ts} (hexpr : SpellsExpression hide wrapped expr ts)
      (hfirst : hide = false → t = front ts) :
      SpellsStatement hide (.expression t expr) (ts ++ [.ofKind .semicolon])

/-- The tokens spell the statements, one after the other. -/
inductive SpellsStatements (hide : Bool) : List Stmt → List Token → Prop
  | nil : SpellsStatements hide [] []
  | cons {s ss ts us} (hfirst : SpellsStatement hide s ts) (hothers : SpellsStatements hide ss us) :
      SpellsStatements hide (s :: ss) (ts ++ us)

/-- The tokens spell the block, between braces. -/
inductive SpellsBlock (hide : Bool) : Block → List Token → Prop
  | mk {t statements ts} (hstatements : SpellsStatements hide statements ts) :
      SpellsBlock hide (.mk t statements) (t :: (ts ++ [.ofKind .rbrace]))

end

/-! ### Spellings can be written down -/

theorem Token.genuine_of_eq_ofKind {t : Token} (ht : t = .ofKind t.kind)
    (hk : t.kind.spelling?.isSome) : t.Genuine := by
  rw [ht]
  exact genuine_ofKind hk

section Genuine

variable {hide : Bool}

mutual

theorem SpellsExpression.genuine : ∀ {wrapped e ts}, SpellsExpression hide wrapped e ts →
    e.WellFormed → ∀ t ∈ ts, t.Genuine
  | _, _, _, .identifier, hwf => genuine_cons (Identifier.WellFormed.genuine hwf) (by simp)
  | _, _, _, .integer, ⟨hkind, _, hvalue, _⟩ =>
    genuine_cons (Token.genuine_of_natural? hkind hvalue) (by simp)
  | _, _, _, .boolean, hwf => by
    obtain rfl := hwf
    exact genuine_cons_ofKind (by split <;> rfl) (by simp)
  | _, _, _, .unary hoperand _, ⟨hkind, ht, _, hwf⟩ => by
    have hop : ∀ k ∈ [Kind.bang, .minus], k.spelling?.isSome := by decide
    exact genuine_cons (Token.genuine_of_eq_ofKind ht (hop _ hkind)) (hoperand.genuine hwf)
  | _, _, _, .binary hleft _ hright _, ⟨hkind, ht, _, hwf, hwf'⟩ =>
    genuine_append (hleft.genuine hwf)
      (genuine_cons (Token.genuine_of_eq_ofKind ht hkind.isSome_spelling?) (hright.genuine hwf'))
  | _, _, _, .conditional hcondition hconsequence, ⟨ht, hwf, hwf'⟩ => by
    subst ht
    exact genuine_cons_ofKind rfl (genuine_cons_ofKind rfl (genuine_append (hcondition.genuine hwf)
      (genuine_cons_ofKind rfl (hconsequence.genuine hwf'))))
  | _, _, _, .alternative hcondition hconsequence halternative, ⟨ht, hwf, hwf', hwf''⟩ => by
    subst ht
    exact genuine_cons_ofKind rfl (genuine_cons_ofKind rfl (genuine_append (hcondition.genuine hwf)
      (genuine_cons_ofKind rfl (genuine_append (hconsequence.genuine hwf')
        (genuine_cons_ofKind rfl (halternative.genuine hwf''))))))
  | _, _, _, .wrap h, hwf =>
    genuine_cons_ofKind rfl (genuine_append (h.genuine hwf) (genuine_cons_ofKind rfl (by simp)))

theorem SpellsStatement.genuine : ∀ {s ts}, SpellsStatement hide s ts → s.WellFormed →
    ∀ t ∈ ts, t.Genuine
  | _, _, .binding hvalue, ⟨ht, hname, hwf⟩ => by
    subst ht
    exact genuine_cons_ofKind rfl (genuine_cons hname.genuine (genuine_cons_ofKind rfl
      (genuine_append (hvalue.genuine hwf) (genuine_cons_ofKind rfl (by simp)))))
  | _, _, .result hvalue, ⟨ht, hwf⟩ => by
    subst ht
    exact genuine_cons_ofKind rfl
      (genuine_append (hvalue.genuine hwf) (genuine_cons_ofKind rfl (by simp)))
  | _, _, .expression hexpr _, hwf =>
    genuine_append (hexpr.genuine hwf) (genuine_cons_ofKind rfl (by simp))

theorem SpellsStatements.genuine : ∀ {ss ts}, SpellsStatements hide ss ts →
    Stmt.AllWellFormed ss → ∀ t ∈ ts, t.Genuine
  | _, _, .nil, _ => by simp
  | _, _, .cons hfirst hothers, ⟨hwf, hwf'⟩ =>
    genuine_append (hfirst.genuine hwf) (hothers.genuine hwf')

theorem SpellsBlock.genuine : ∀ {b ts}, SpellsBlock hide b ts → b.WellFormed →
    ∀ t ∈ ts, t.Genuine
  | _, _, .mk hstatements, ⟨ht, hwf⟩ => by
    subst ht
    exact genuine_cons_ofKind rfl
      (genuine_append (hstatements.genuine hwf) (genuine_cons_ofKind rfl (by simp)))

end

end Genuine

theorem SpellsExpression.ne_nil {hide wrapped : Bool} {e : Expr} {ts : List Token}
    (h : SpellsExpression hide wrapped e ts) : ts ≠ [] := by
  cases h <;> simp

/-! ### Spellings are read back -/

/-- In front of a token of the kind `k`, the spelled expression is read as a whole where operators
have to bind more tightly than `b`: it is in parentheses, or the operator at its root binds more
tightly than `b`, and not less tightly than an operator that comes next. -/
def Expr.Fits (e : Expr) (wrapped : Bool) (b : Power) (k : Kind) : Prop :=
  wrapped = false → ∀ p, e.rootPower? = some p → b < p ∧ ¬ Grammar.standard.Continues p k

theorem Expr.fits_lowest {e : Expr} (hwf : e.WellFormed) (wrapped : Bool) {k : Kind}
    (hk : k.EndsExpression) : e.Fits wrapped .lowest k := by
  rintro - p hp
  refine ⟨?_, Grammar.not_continues_of_endsExpression hk p⟩
  cases e with
  | binary t left operator right =>
    obtain rfl := Option.some.inj hp
    exact Grammar.lowest_lt_power_of_isOperator hwf.1
  | _ => cases hp

/-- The tokens, which spell the expression `e`, are read as `e'`, and the reading goes on from
there. -/
def ReadsBack (wrapped : Bool) (e e' : Expr) (ts : List Token) : Prop :=
  ∀ ⦃b rest e'' rest'⦄, e.Fits wrapped b (front rest).kind → (front rest).kind ≠ .elseKey →
    ReadsClimb .standard b e' rest e'' rest' → ReadsExpression .standard b (ts ++ rest) e'' rest'

namespace ReadsBack

variable {wrapped : Bool} {e e' : Expr} {t : Token} {ts : List Token}

theorem of_leading {r : LeadingRule} (hrule : t.kind ∈ r.kinds)
    (h : ∀ rest, (front rest).kind ≠ .elseKey →
      ReadsLeading .standard r (t :: (ts ++ rest)) e' rest) : ReadsBack wrapped e e' (t :: ts) := by
  intro b rest e'' rest' _ helse hclimb
  exact .intro (Grammar.leading_standard.mpr hrule) (h rest helse) hclimb

/-- Where nothing follows, the expression is read to its end. -/
theorem lowest (h : ReadsBack wrapped e e' ts) (hwf : e.WellFormed) {rest : List Token}
    (hrest : (front rest).kind.EndsExpression) :
    ReadsExpression .standard .lowest (ts ++ rest) e' rest :=
  h (e.fits_lowest hwf wrapped hrest) hrest.2
    (.stop (Grammar.not_continues_of_endsExpression hrest _))

/-- In front of a semicolon the expression is read to its end. -/
theorem semicolon (h : ReadsBack wrapped e e' ts) (hwf : e.WellFormed) (rest : List Token) :
    ReadsExpression .standard .lowest (ts ++ [.ofKind .semicolon] ++ rest) e'
      (.ofKind .semicolon :: rest) := by
  have hend : Kind.EndsExpression .semicolon := by decide
  rw [List.append_assoc, List.singleton_append]
  exact h.lowest hwf hend

/-- The spelling begins with a token by which an expression begins. -/
theorem starts (h : ReadsBack wrapped e e' ts) (hwf : e.WellFormed) (hne : ts ≠ []) :
    ∃ u us r, ts = u :: us ∧ Grammar.standard.leading u.kind = some r := by
  cases ts with
  | nil => exact absurd rfl hne
  | cons u us =>
    cases h.semicolon hwf [] with
    | intro hrule => exact ⟨u, us, _, rfl, hrule⟩

/-- Parentheses around an expression make it read as a whole. -/
theorem wrap (h : ReadsBack wrapped e e' ts) (hwf : e.WellFormed) :
    ReadsBack true e e' (.ofKind .lparen :: (ts ++ [.ofKind .rparen])) := by
  refine of_leading (r := .grouping) (by simp [LeadingRule.kinds]) fun rest _ => ?_
  have hend : Kind.EndsExpression .rparen := by decide
  rw [List.append_assoc, List.singleton_append]
  exact .grouping (h.lowest hwf hend) rfl

/-- Two operands with an operator between them are read as a whole if they are in parentheses where
this is needed. -/
theorem binary {wrapped' : Bool} {right right' : Expr} {us : List Token} (hop : t.kind.IsOperator)
    (hleft : ReadsBack wrapped e e' ts)
    (hwrapped : ∀ p, e.rootPower? = some p → p < Grammar.standard.power t.kind → wrapped = true)
    (hright : ReadsBack wrapped' right right' us)
    (hwrapped' : ∀ p, right.rootPower? = some p → p ≤ Grammar.standard.power t.kind →
      wrapped' = true) :
    ReadsBack false (.binary t e t.literal right) (.binary t e' t.literal right')
      (ts ++ t :: us) := by
  intro b rest e'' rest' hfits helse hclimb
  obtain ⟨hb, hstop⟩ := hfits rfl _ rfl
  rw [List.append_assoc, List.cons_append]
  have hfits_left : e.Fits wrapped b t.kind := by
    intro hbare p hp
    have hle : Grammar.standard.power t.kind ≤ p := by
      refine Power.not_lt.mp fun hlt => ?_
      exact absurd (hwrapped p hp hlt) (by simp [hbare])
    refine ⟨Power.lt_of_lt_of_le hb hle, fun hgo => ?_⟩
    exact Power.not_lt.mpr hle (Grammar.continues_standard.mp hgo).2
  have hfits_right : right.Fits wrapped' (Grammar.standard.power t.kind) (front rest).kind := by
    intro hbare p hp
    have hlt : Grammar.standard.power t.kind < p := by
      by_contra hle
      exact absurd (hwrapped' p hp (Power.not_lt.mp hle)) (by simp [hbare])
    exact ⟨hlt, fun hgo => hstop ⟨hgo.1, Power.lt_trans hlt hgo.2.1, hgo.2.2⟩⟩
  have helse_op : t.kind ≠ .elseKey := fun heq => absurd hop (by rw [heq]; decide)
  refine hleft hfits_left helse_op (.step (Grammar.continues_standard.mpr ⟨hop, hb⟩) ?_ hclimb)
  exact hright hfits_right helse (.stop hstop)

end ReadsBack

section Reads

variable {hide : Bool}

mutual

/-- **A spelled expression is read, whatever comes after it.** The invariant speaks of the power and
of the token after the spelling; what is read after it plays no part. -/
theorem SpellsExpression.reads : ∀ {wrapped e ts}, SpellsExpression hide wrapped e ts →
    e.WellFormed → ∃ e', e'.mask hide = e.mask hide ∧ ReadsBack wrapped e e' ts
  | _, _, _, .identifier, hwf => by
    have hname := Identifier.WellFormed.ofToken_eq hwf
    refine ⟨_, rfl, .of_leading (r := .identifier) ?_ fun rest _ => hname ▸ .identifier⟩
    simpa [LeadingRule.kinds] using Identifier.WellFormed.kind_eq hwf
  | _, _, _, .integer, hwf => by
    obtain ⟨hkind, n, hvalue, hfits, rfl⟩ := hwf
    have hsigned := Text.signed64?_of_natural? hvalue
    rw [Text.fit64?_natCast_of_le hfits] at hsigned
    refine ⟨_, rfl, .of_leading (r := .integer) ?_ fun rest _ => .integer hsigned⟩
    simpa [LeadingRule.kinds] using hkind
  | _, .boolean _ value, _, .boolean, hwf => by
    obtain rfl := hwf
    refine ⟨_, rfl, .of_leading (r := .boolean) ?_ fun rest _ => ?_⟩
    · cases value <;> simp [LeadingRule.kinds]
    · cases value <;> exact .boolean
  | _, _, _, .unary hoperand hwrapped, hwf => by
    obtain ⟨hkind, -, rfl, hwf⟩ := hwf
    obtain ⟨operand', hmask, hreads⟩ := hoperand.reads hwf
    refine ⟨.unary _ _ operand', by rw [Expr.mask, Expr.mask, hmask], ?_⟩
    refine .of_leading (r := .unary) hkind fun rest helse => .unary ?_
    refine hreads (fun hbare p hp => ?_) helse (.stop (Grammar.not_continues_unary _))
    exact absurd (hwrapped (by simp [hp])) (by simp [hbare])
  | _, _, _, .binary hleft hwrapped hright hwrapped', hwf => by
    obtain ⟨hop, -, rfl, hwf, hwf'⟩ := hwf
    obtain ⟨left', hmask, hreads⟩ := hleft.reads hwf
    obtain ⟨right', hmask', hreads'⟩ := hright.reads hwf'
    refine ⟨.binary _ left' _ right', by rw [Expr.mask, Expr.mask, hmask, hmask'], ?_⟩
    exact hreads.binary hop hwrapped hreads' hwrapped'
  | _, _, _, .conditional hcondition hconsequence, hwf => by
    obtain ⟨rfl, hwf, hwf'⟩ := hwf
    obtain ⟨condition', hmask, hreads⟩ := hcondition.reads hwf
    obtain ⟨block', hmask', brace, us, rfl, hbrace, hreads'⟩ := hconsequence.reads hwf'
    refine ⟨.conditional (.ofKind .ifKey) condition' block' none,
      by simp only [Expr.mask, hmask, hmask'], ?_⟩
    refine .of_leading (r := .conditional) (by simp [LeadingRule.kinds]) fun rest helse => ?_
    have hend : Kind.EndsExpression .rparen := by decide
    simp only [List.cons_append, List.append_assoc]
    exact .conditional rfl (hreads.lowest hwf hend) rfl hbrace (hreads' rest) helse
  | _, _, _, .alternative hcondition hconsequence halternative, hwf => by
    obtain ⟨rfl, hwf, hwf', hwf''⟩ := hwf
    obtain ⟨condition', hmask, hreads⟩ := hcondition.reads hwf
    obtain ⟨block', hmask', brace, us, rfl, hbrace, hreads'⟩ := hconsequence.reads hwf'
    obtain ⟨other', hmask'', brace', vs, rfl, hbrace', hreads''⟩ := halternative.reads hwf''
    refine ⟨.conditional (.ofKind .ifKey) condition' block' (some other'),
      by simp only [Expr.mask, hmask, hmask', hmask''], ?_⟩
    refine .of_leading (r := .conditional) (by simp [LeadingRule.kinds]) fun rest _ => ?_
    have hend : Kind.EndsExpression .rparen := by decide
    simp only [List.cons_append, List.append_assoc]
    exact .alternative rfl (hreads.lowest hwf hend) rfl hbrace (hreads' _) rfl hbrace'
      (hreads'' rest)
  | _, _, _, .wrap h, hwf => by
    obtain ⟨e', hmask, hreads⟩ := h.reads hwf
    exact ⟨e', hmask, hreads.wrap hwf⟩

/-- A spelled statement is read. It begins with a token that ends no statements. -/
theorem SpellsStatement.reads : ∀ {s ts}, SpellsStatement hide s ts → s.WellFormed →
    ∃ s', s'.mask hide = s.mask hide ∧ ∃ t us, ts = t :: us ∧ t.kind ∉ [Kind.rbrace, .eof] ∧
      ∀ rest, ReadsOpening .standard ((Grammar.standard.statement t.kind).getD .expression)
        (t :: (us ++ rest)) s' rest
  | _, _, .binding hvalue, hwf => by
    obtain ⟨rfl, hname, hwf⟩ := hwf
    obtain ⟨value', hmask, hreads⟩ := hvalue.reads hwf
    refine ⟨.binding (.ofKind .letKey) _ (some value'), by rw [Stmt.mask, Stmt.mask, hmask], _, _,
      rfl, by decide, fun rest => ?_⟩
    have hassign : (Token.ofKind .assign).kind = .assign := rfl
    have hread := ReadsOpening.binding (t := .ofKind .letKey) hname.kind_eq hassign
      (hreads.semicolon hwf rest)
    rw [afterSemicolon_cons rfl, hname.ofToken_eq] at hread
    exact hread
  | _, _, .result hvalue, hwf => by
    obtain ⟨rfl, hwf⟩ := hwf
    obtain ⟨value', hmask, hreads⟩ := hvalue.reads hwf
    refine ⟨.result (.ofKind .returnKey) (some value'), by rw [Stmt.mask, Stmt.mask, hmask], _, _,
      rfl, by decide, fun rest => ?_⟩
    have hread := ReadsOpening.result (t := .ofKind .returnKey) (hreads.semicolon hwf rest)
    rw [afterSemicolon_cons rfl] at hread
    exact hread
  | _, _, .expression hexpr hfirst, hwf => by
    obtain ⟨expr', hmask, hreads⟩ := hexpr.reads hwf
    obtain ⟨u, us, r, rfl, hrule⟩ := hreads.starts hwf hexpr.ne_nil
    refine ⟨.expression u expr', ?_, u, us ++ [.ofKind .semicolon], rfl, ?_, fun rest => ?_⟩
    · rw [Stmt.mask, Stmt.mask, hmask]
      cases hide with
      | true => rfl
      | false => rw [hfirst rfl, front_cons]
    · exact (Grammar.statement_of_leading hrule).2
    · have hread := ReadsOpening.expression (hreads.semicolon hwf rest)
      rw [afterSemicolon_cons rfl] at hread
      rw [(Grammar.statement_of_leading hrule).1]
      exact hread

/-- Spelled statements are read, up to a token that ends statements. -/
theorem SpellsStatements.reads : ∀ {ss ts}, SpellsStatements hide ss ts →
    Stmt.AllWellFormed ss → ∃ ss', Stmt.maskAll hide ss' = Stmt.maskAll hide ss ∧
      ∀ stop rest, stop ⊆ [.rbrace, .eof] → (front rest).kind ∈ stop →
        ReadsStatements .standard stop (ts ++ rest) ss' rest
  | _, _, .nil, _ => ⟨[], rfl, fun _ _ _ hfront => .nil hfront⟩
  | _, _, .cons hfirst hothers, hwf => by
    obtain ⟨hwf, hwf'⟩ := hwf
    obtain ⟨s', hmask, t, us, rfl, hstart, hreads⟩ := hfirst.reads hwf
    obtain ⟨ss', hmask', hreads'⟩ := hothers.reads hwf'
    refine ⟨s' :: ss', by rw [Stmt.maskAll, Stmt.maskAll, hmask, hmask'], ?_⟩
    intro stop rest hstop hfront
    rw [List.append_assoc, List.cons_append]
    exact .cons (fun hmem => hstart (hstop hmem)) (hreads _) (hreads' stop rest hstop hfront)

/-- A spelled block is read. -/
theorem SpellsBlock.reads : ∀ {b ts}, SpellsBlock hide b ts → b.WellFormed →
    ∃ b', b'.mask hide = b.mask hide ∧ ∃ brace us, ts = brace :: us ∧ brace.kind = .lbrace ∧
      ∀ rest, ReadsBlock .standard (brace :: (us ++ rest)) b' rest
  | _, _, .mk hstatements, hwf => by
    obtain ⟨rfl, hwf⟩ := hwf
    obtain ⟨ss', hmask, hreads⟩ := hstatements.reads hwf
    refine ⟨.mk _ ss', by rw [Block.mask, Block.mask, hmask], _, _, rfl, rfl, fun rest => ?_⟩
    rw [List.append_assoc, List.singleton_append]
    exact .intro (hreads [.rbrace, .eof] (.ofKind .rbrace :: rest) (List.Subset.refl _) (by simp))

end

/-- Every spelling is read back without errors, up to what is hidden. -/
theorem SpellsStatements.parse_spaced {p : Program} {ts : List Token}
    (h : SpellsStatements hide p.statements ts) (hwf : p.WellFormed) :
    ∃ q, parse (spaced ts) = ⟨q, []⟩ ∧ q.mask hide = p.mask hide := by
  obtain ⟨ss, hmask, hreads⟩ := h.reads hwf
  have hlex : lex (spaced ts).toList = ts := lex_spaced (h.genuine hwf)
  have hread : ReadsStatements .standard [.eof] (lex (spaced ts).toList) ss [] := by
    simpa [hlex] using hreads [.eof] [] (by simp) (by simp [Token.eof])
  exact ⟨⟨ss⟩, parse_of_reads hread, congrArg Program.mk hmask⟩

end Reads

/-- **Every spelling is read back.** The literals of the tokens, separated by spaces, are read
without errors, and what is read is the program that was spelled, up to the tokens of expression
statements. If these are the first tokens of the spellings, it is the program itself. -/
theorem parse_spaced_of_spells {p : Program} {ts : List Token} (hwf : p.WellFormed)
    (h : SpellsStatements true p.statements ts) :
    (parse (spaced ts)).errors = [] ∧ (parse (spaced ts)).program.mask true = p.mask true ∧
      (SpellsStatements false p.statements ts → (parse (spaced ts)).program = p) := by
  obtain ⟨q, hparse, hmask⟩ := h.parse_spaced hwf
  refine ⟨by rw [hparse], by rw [hparse, hmask], fun hexact => ?_⟩
  obtain ⟨q', hparse', hmask'⟩ := hexact.parse_spaced hwf
  rw [hparse']
  simpa only [Program.mask_false] using hmask'

/-- The program `let a = (b + 1) * -b; if (a) { b; };`, with a token for its last statement that is
not the first one of its spelling. -/
def Program.sample : Program :=
  let name (w : String) : Identifier := ⟨⟨.ident, w⟩, w⟩
  let sum := Expr.binary (.ofKind .plus) (.identifier (name "b")) "+" (.integer ⟨.int, "1"⟩ 1)
  let negated := Expr.unary (.ofKind .minus) "-" (.identifier (name "b"))
  let body := Block.mk (.ofKind .lbrace) [.expression ⟨.ident, "b"⟩ (.identifier (name "b"))]
  ⟨[.binding (.ofKind .letKey) (name "a") (some (.binary (.ofKind .asterisk) sum "*" negated)),
    .expression (.ofKind .ifKey)
      (.conditional (.ofKind .ifKey) (.identifier (name "a")) body none)]⟩

theorem Program.wellFormed_sample : Program.sample.WellFormed := by
  have hname {w : String} (hne : w ≠ "") (hw : w.toList.all isLetter = true)
      (hkey : Kind.keyword? w = none) : Identifier.WellFormed ⟨⟨.ident, w⟩, w⟩ :=
    ⟨rfl, rfl, hne, List.all_eq_true.mp hw, hkey⟩
  have ha : Identifier.WellFormed ⟨⟨.ident, "a"⟩, "a"⟩ := hname (by decide) (by decide) rfl
  have hb : Identifier.WellFormed ⟨⟨.ident, "b"⟩, "b"⟩ := hname (by decide) (by decide) rfl
  have hone : Expr.WellFormed (.integer ⟨.int, "1"⟩ 1) := ⟨rfl, 1, by decide, by decide, rfl⟩
  exact ⟨⟨rfl, ha, by decide, rfl, rfl, ⟨by decide, rfl, rfl, hb, hone⟩, by decide, rfl, rfl, hb⟩,
    ⟨rfl, ha, rfl, hb, trivial⟩, trivial⟩

/-- A spelling in which a sum is in parentheses because it has to be, and a negation and a whole
statement are although they need not be. -/
theorem parse_spaced_sample : Program.sample.WellFormed ∧
    ∃ ts, SpellsStatements true Program.sample.statements ts ∧
      spaced ts = "let a = ( b + 1 ) * ( - b ) ; ( if ( a ) \x7b b ; \x7d ) ;" ∧
      (parse (spaced ts)).errors = [] ∧
      (parse (spaced ts)).program.mask true = Program.sample.mask true := by
  have hspells : ∃ ts, SpellsStatements true Program.sample.statements ts ∧
      spaced ts = "let a = ( b + 1 ) * ( - b ) ; ( if ( a ) \x7b b ; \x7d ) ;" := by
    refine ⟨_, .cons (.binding (.binary (.wrap (.binary .identifier nofun .integer nofun))
      (fun _ _ _ => rfl) (.wrap (.unary .identifier fun h => absurd rfl h)) nofun)) (.cons
        (.expression (.wrap (.conditional .identifier
          (.mk (.cons (.expression .identifier nofun) .nil)))) nofun) .nil), ?_⟩
    decide
  obtain ⟨ts, hts, htext⟩ := hspells
  have hread := parse_spaced_of_spells Program.wellFormed_sample hts
  exact ⟨Program.wellFormed_sample, ts, hts, htext, hread.1, hread.2.1⟩

end FrontEnd
