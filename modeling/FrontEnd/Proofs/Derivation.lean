import FrontEnd.Proofs.Lexing
import FrontEnd.Proofs.Standard

/-!
# Derivations

The grammar of the language as a set of productions:

    Statements ::= Statement*
    Statement  ::= Clause [SEMICOLON]
    Clause     ::= LET IDENT ASSIGN Expression | RETURN Expression | Expression
    Expression ::= Operand (Operator Operand)*
    Operand    ::= (BANG | MINUS)* Atom
    Atom       ::= IDENT | INT | TRUE | FALSE | LPAREN Expression RPAREN
                 | IF LPAREN Expression RPAREN Block [ELSE Block]
    Block      ::= LBRACE Statements RBRACE

A number has to fit into 64 bits with a sign. A block may lack its closing brace if it goes on to
the end of the tokens. The productions are ambiguous, since nothing has to stand between two
statements and MINUS begins an operand as well as it joins two: `a - b` is one statement or two.

A derivation says that a phrase stands at the front of some tokens, and which tokens are left. So
the end of the tokens is where nothing is left.

## Main definitions

* `FrontEnd.Phrase`, `FrontEnd.Derives` — the phrases and their derivations.
* `FrontEnd.Derives.weight`, `FrontEnd.Derives.Balances` — the sum of weights of tokens, and weights
  for which a phrase never has a negative one.

## Main results

* `FrontEnd.Derives.join` — two expressions with an operator between them are an expression.
* `FrontEnd.Derives.maximal` — statements can be derived with no statement cut short.
* `FrontEnd.Derives.closing` — a phrase that is left open can be closed, and one that is not can
  stand in front of any tokens.
* `FrontEnd.Derives.weight_le` — what a phrase takes off the tokens has no negative weight.
-/

namespace FrontEnd

/-- The phrases of the language. -/
inductive Phrase where
  /-- Statements, one after the other. -/
  | statements
  /-- A clause with an optional semicolon. -/
  | statement
  /-- A statement without the semicolon. -/
  | clause
  /-- Operands with operators between them. -/
  | expression
  /-- An atom after operators that stand in front of it. -/
  | operand
  /-- An expression without operators on the outside. -/
  | atom
  /-- Statements in braces. -/
  | block

/-- The phrase stands at the front of the first list of tokens, and the second list is left. -/
inductive Derives : Phrase → List Token → List Token → Prop
  -- Statements ::= Statement*
  | nil {ts} : Derives .statements ts ts
  | cons {ts us rest} (hfirst : Derives .statement ts us) (hothers : Derives .statements us rest) :
      Derives .statements ts rest
  -- Statement ::= Clause [SEMICOLON]
  | bare {ts rest} (hclause : Derives .clause ts rest) : Derives .statement ts rest
  | semicolon {ts mark rest} (hclause : Derives .clause ts (mark :: rest))
      (hmark : mark.kind = .semicolon) : Derives .statement ts rest
  -- Clause ::= LET IDENT ASSIGN Expression | RETURN Expression | Expression
  | binding {key name mark ts rest} (hkey : key.kind = .letKey) (hname : name.kind = .ident)
      (hmark : mark.kind = .assign) (hvalue : Derives .expression ts rest) :
      Derives .clause (key :: name :: mark :: ts) rest
  | result {key ts rest} (hkey : key.kind = .returnKey) (hvalue : Derives .expression ts rest) :
      Derives .clause (key :: ts) rest
  | expression {ts rest} (hexpr : Derives .expression ts rest) : Derives .clause ts rest
  -- Expression ::= Operand (Operator Operand)*
  | operand {ts rest} (hoperand : Derives .operand ts rest) : Derives .expression ts rest
  | operator {ts op us rest} (hleft : Derives .operand ts (op :: us)) (hop : op.kind.IsOperator)
      (hright : Derives .expression us rest) : Derives .expression ts rest
  -- Operand ::= (BANG | MINUS)* Atom
  | atom {ts rest} (hatom : Derives .atom ts rest) : Derives .operand ts rest
  | unary {op ts rest} (hop : op.kind = .bang ∨ op.kind = .minus)
      (hoperand : Derives .operand ts rest) : Derives .operand (op :: ts) rest
  -- Atom ::= IDENT | INT | TRUE | FALSE | LPAREN Expression RPAREN
  --        | IF LPAREN Expression RPAREN Block [ELSE Block]
  | identifier {name ts} (hname : name.kind = .ident) : Derives .atom (name :: ts) ts
  | integer {numeral ts n} (hkind : numeral.kind = .int)
      (hvalue : Text.natural? numeral.literal.toList = some n) (hfits : n ≤ Text.maxSigned64) :
      Derives .atom (numeral :: ts) ts
  | boolean {key ts} (hkey : key.kind = .trueKey ∨ key.kind = .falseKey) :
      Derives .atom (key :: ts) ts
  | grouping {o ts close rest} (hopen : o.kind = .lparen)
      (hinner : Derives .expression ts (close :: rest)) (hclose : close.kind = .rparen) :
      Derives .atom (o :: ts) rest
  | conditional {key o ts close us rest} (hkey : key.kind = .ifKey) (hopen : o.kind = .lparen)
      (hcondition : Derives .expression ts (close :: us)) (hclose : close.kind = .rparen)
      (hblock : Derives .block us rest) : Derives .atom (key :: o :: ts) rest
  | alternative {key o ts close us other vs rest} (hkey : key.kind = .ifKey)
      (hopen : o.kind = .lparen) (hcondition : Derives .expression ts (close :: us))
      (hclose : close.kind = .rparen) (hblock : Derives .block us (other :: vs))
      (helse : other.kind = .elseKey) (hblock' : Derives .block vs rest) :
      Derives .atom (key :: o :: ts) rest
  -- Block ::= LBRACE Statements RBRACE
  | closed {brace ts close rest} (hbrace : brace.kind = .lbrace)
      (hbody : Derives .statements ts (close :: rest)) (hclose : close.kind = .rbrace) :
      Derives .block (brace :: ts) rest
  | unclosed {brace ts} (hbrace : brace.kind = .lbrace) (hbody : Derives .statements ts []) :
      Derives .block (brace :: ts) []

namespace Kind

/-- The tokens by which an atom begins. -/
def StartsAtom (k : Kind) : Prop :=
  k ∈ [ident, int, trueKey, falseKey, lparen, ifKey]

/-- The tokens by which an expression begins. -/
def StartsExpression (k : Kind) : Prop :=
  k = bang ∨ k = minus ∨ k.StartsAtom

/-- The tokens by which a clause begins. -/
def StartsClause (k : Kind) : Prop :=
  k = letKey ∨ k = returnKey ∨ k.StartsExpression

instance (k : Kind) : Decidable k.StartsAtom := inferInstanceAs (Decidable (k ∈ _))

instance (k : Kind) : Decidable k.StartsExpression := inferInstanceAs (Decidable (_ ∨ _ ∨ _))

instance (k : Kind) : Decidable k.StartsClause := inferInstanceAs (Decidable (_ ∨ _ ∨ _))

/-- No operator closes what another token has opened. -/
theorem IsOperator.ne_closing {k : Kind} (h : k.IsOperator) : k ≠ .rbrace ∧ k ≠ .elseKey := by
  revert h
  cases k <;> decide

theorem StartsAtom.not_isOperator {k : Kind} (h : k.StartsAtom) : ¬ k.IsOperator := by
  revert h
  cases k <;> decide

/-- Of the tokens by which a clause begins, only MINUS continues an expression. -/
theorem StartsClause.endsExpression {k : Kind} (h : k.StartsClause) (hk : ¬ k.IsOperator) :
    k.EndsExpression := by
  refine ⟨hk, ?_⟩
  rintro rfl
  exact absurd h (by decide)

end Kind

namespace Derives

/-! ### What a phrase begins with, and what it takes off -/

theorem startsAtom : ∀ {ts rest}, Derives .atom ts rest → (front ts).kind.StartsAtom
  | _, _, .identifier hname => by simp [Kind.StartsAtom, hname]
  | _, _, .integer hkind _ _ => by simp [Kind.StartsAtom, hkind]
  | _, _, .boolean hkey => by rcases hkey with hkey | hkey <;> simp [Kind.StartsAtom, hkey]
  | _, _, .grouping hopen _ _ => by simp [Kind.StartsAtom, hopen]
  | _, _, .conditional hkey _ _ _ _ => by simp [Kind.StartsAtom, hkey]
  | _, _, .alternative hkey _ _ _ _ _ _ => by simp [Kind.StartsAtom, hkey]

theorem startsExpression_of_operand : ∀ {ts rest}, Derives .operand ts rest →
    (front ts).kind.StartsExpression
  | _, _, .atom hatom => .inr (.inr hatom.startsAtom)
  | _, _, .unary (.inl hop) _ => .inl hop
  | _, _, .unary (.inr hop) _ => .inr (.inl hop)

theorem startsExpression : ∀ {ts rest}, Derives .expression ts rest →
    (front ts).kind.StartsExpression
  | _, _, .operand hoperand => hoperand.startsExpression_of_operand
  | _, _, .operator hleft _ _ => hleft.startsExpression_of_operand

theorem startsClause : ∀ {ts rest}, Derives .clause ts rest → (front ts).kind.StartsClause
  | _, _, .binding hkey _ _ _ => .inl hkey
  | _, _, .result hkey _ => .inr (.inl hkey)
  | _, _, .expression hexpr => .inr (.inr hexpr.startsExpression)

/-- A phrase takes tokens off the front. -/
theorem length_le {N : Phrase} {ts rest : List Token} (h : Derives N ts rest) :
    rest.length ≤ ts.length := by
  induction h with
  | nil => exact le_rfl
  | cons _ _ ih ih' => exact ih'.trans ih
  | bare _ ih => exact ih
  | expression _ ih => exact ih
  | operand _ ih => exact ih
  | atom _ ih => exact ih
  | _ => simp only [List.length_cons] at *; omega

/-- Every phrase but statements takes at least one token. -/
theorem length_lt {N : Phrase} {ts rest : List Token} (h : Derives N ts rest)
    (hN : N ≠ .statements) : rest.length < ts.length := by
  induction h with
  | nil => exact absurd rfl hN
  | cons => exact absurd rfl hN
  | bare _ ih => exact ih (by simp)
  | expression _ ih => exact ih (by simp)
  | operand _ ih => exact ih (by simp)
  | atom _ ih => exact ih (by simp)
  | semicolon hclause => exact hclause.length_le
  | operator hleft _ hright =>
    have hle := hleft.length_le
    have hle' := hright.length_le
    rw [List.length_cons] at hle
    omega
  | binding _ _ _ hvalue =>
    have hle := hvalue.length_le
    simp only [List.length_cons]
    omega
  | result _ hvalue => exact Nat.lt_succ_of_le hvalue.length_le
  | unary _ hoperand => exact Nat.lt_succ_of_le hoperand.length_le
  | identifier => exact Nat.lt_succ_self _
  | integer => exact Nat.lt_succ_self _
  | boolean => exact Nat.lt_succ_self _
  | grouping _ hinner =>
    have hle := hinner.length_le
    simp only [List.length_cons] at hle ⊢
    omega
  | conditional _ _ hcondition _ hblock =>
    have hle := hcondition.length_le
    have hle' := hblock.length_le
    simp only [List.length_cons] at hle ⊢
    omega
  | alternative _ _ hcondition _ hblock _ hblock' =>
    have hle := hcondition.length_le
    have hle' := hblock.length_le
    have hle'' := hblock'.length_le
    simp only [List.length_cons] at hle hle' ⊢
    omega
  | closed _ hbody =>
    have hle := hbody.length_le
    simp only [List.length_cons] at hle ⊢
    omega
  | unclosed => exact Nat.succ_pos _

/-! ### Joining expressions -/

/-- Two expressions with an operator between them are an expression. -/
theorem join {op : Token} {ts us rest : List Token} (hleft : Derives .expression ts (op :: us))
    (hop : op.kind.IsOperator) (hright : Derives .expression us rest) :
    Derives .expression ts rest := by
  generalize hN : Phrase.expression = N at hleft
  generalize hvs : op :: us = vs at hleft
  induction hleft with
  | operand hoperand =>
    subst hvs
    exact .operator hoperand hop hright
  | operator hoperand hop' _ _ ih => exact .operator hoperand hop' (ih hN hvs)
  | _ => cases hN

/-- A clause that ends in an expression can be continued by an operator and another expression. -/
theorem join_clause {op : Token} {us rest : List Token} (hop : op.kind.IsOperator)
    (hright : Derives .expression us rest) : ∀ {ts}, Derives .clause ts (op :: us) →
      Derives .clause ts rest
  | _, .binding hkey hname hmark hvalue => .binding hkey hname hmark (hvalue.join hop hright)
  | _, .result hkey hvalue => .result hkey (hvalue.join hop hright)
  | _, .expression hexpr => .expression (hexpr.join hop hright)

/-- A clause that begins with an operator goes on as an expression after it: the operator is MINUS,
and stands in front of an operand. -/
theorem expression_of_clause {op : Token} {ts rest : List Token} (hop : op.kind.IsOperator)
    (hclause : Derives .clause (op :: ts) rest) : Derives .expression ts rest := by
  have hoperand {us : List Token} (h : Derives .operand (op :: ts) us) :
      Derives .operand ts us := by
    cases h with
    | atom hatom => exact absurd hop hatom.startsAtom.not_isOperator
    | unary _ hoperand => exact hoperand
  cases hclause with
  | binding hkey => exact absurd hop (by simp [hkey, Kind.IsOperator])
  | result hkey => exact absurd hop (by simp [hkey, Kind.IsOperator])
  | expression hexpr =>
    cases hexpr with
    | operand h => exact .operand (hoperand h)
    | operator h hop' hright => exact .operator (hoperand h) hop' hright

/-- **Statements can be derived with no statement cut short.** If they do not end at once, the first
clause can be chosen so that the token after it continues no expression. -/
theorem maximal {ts rest : List Token} (h : Derives .statements ts rest)
    (hrest : (front rest).kind.EndsExpression) (hsemi : (front rest).kind ≠ .semicolon) :
    ts = rest ∨ ∃ us, Derives .clause ts us ∧ (front us).kind.EndsExpression ∧
      Derives .statements (afterSemicolon us) rest := by
  generalize hN : Phrase.statements = N at h
  induction h with
  | nil => exact .inl rfl
  | @cons ts us rest hfirst hothers _ ih =>
    right
    cases hfirst with
    | @semicolon _ mark _ hclause hmark =>
      refine ⟨mark :: us, hclause, ?_, by rwa [afterSemicolon_cons hmark]⟩
      rw [front_cons, hmark]
      decide
    | bare hclause =>
      rcases ih hrest hsemi rfl with rfl | ⟨vs, hnext, hvs, hlater⟩
      · exact ⟨us, hclause, hrest, by rwa [afterSemicolon_of_ne hsemi]⟩
      · have hstart := hnext.startsClause
        by_cases hop : (front us).kind.IsOperator
        · -- The next clause begins with MINUS, so the first one could have gone on.
          have hus : us = front us :: us.tail := eq_front_cons_tail us fun heof => by
            exact absurd hop (by rw [heof]; decide)
          rw [hus] at hclause hnext
          exact ⟨vs, join_clause hop (expression_of_clause hop hnext) hclause, hvs, hlater⟩
        · have hnext : (front us).kind ≠ .semicolon := fun hkind => by
            exact absurd hstart (by rw [hkind]; decide)
          exact ⟨us, hclause, hstart.endsExpression hop, by rwa [afterSemicolon_of_ne hnext]⟩
  | _ => cases hN

/-! ### Closing phrases -/

/-- So many closing braces. -/
def braces (n : Nat) : List Token :=
  List.replicate n (.ofKind .rbrace)

theorem braces_add (m n : Nat) : braces (m + n) = braces m ++ braces n :=
  List.replicate_add ..

/-- The tokens `w` are a phrase of the given sort, whatever comes after them. -/
def Complete (N : Phrase) (w : List Token) : Prop :=
  ∀ rest, Derives N (w ++ rest) rest

/-- **A phrase can be closed.** Closing braces after it make it complete, and none are needed if
there were tokens left. -/
theorem closing {N : Phrase} {ts rest : List Token} (h : Derives N ts rest) :
    ∃ w n, ts = w ++ rest ∧ (rest ≠ [] → n = 0) ∧ Complete N (w ++ braces n) := by
  induction h with
  | nil => exact ⟨[], 0, rfl, fun _ => rfl, fun _ => .nil⟩
  | cons _ _ ih ih' =>
    obtain ⟨w, m, rfl, hm, hfirst⟩ := ih
    obtain ⟨v, n, rfl, hn, hothers⟩ := ih'
    refine ⟨w ++ v, m + n, by simp, fun hrest => ?_, fun rest' => ?_⟩
    · rw [hm (by simp [hrest]), hn hrest]
    · have hmid : braces m ++ v = v ++ braces m := by
        by_cases hv : v = []
        · simp [hv]
        · simp [hm (by simp [hv]), braces]
      have heq : (w ++ v ++ braces (m + n)) ++ rest' =
          (w ++ braces m) ++ ((v ++ braces n) ++ rest') := by
        simp only [braces_add, List.append_assoc]
        rw [← List.append_assoc (braces m) v, hmid, List.append_assoc]
      rw [heq]
      exact .cons (hfirst _) (hothers rest')
  | bare _ ih =>
    obtain ⟨w, n, rfl, hn, hclause⟩ := ih
    exact ⟨w, n, rfl, hn, fun rest' => .bare (hclause rest')⟩
  | @semicolon ts mark rest _ hmark ih =>
    obtain ⟨w, n, rfl, hn, hclause⟩ := ih
    obtain rfl := hn (by simp)
    refine ⟨w ++ [mark], 0, by simp, fun _ => rfl, fun rest' => .semicolon ?_ hmark⟩
    simpa [braces] using hclause (mark :: rest')
  | binding hkey hname hmark _ ih =>
    obtain ⟨w, n, rfl, hn, hvalue⟩ := ih
    exact ⟨_ :: _ :: _ :: w, n, rfl, hn, fun rest' => .binding hkey hname hmark (hvalue rest')⟩
  | result hkey _ ih =>
    obtain ⟨w, n, rfl, hn, hvalue⟩ := ih
    exact ⟨_ :: w, n, rfl, hn, fun rest' => .result hkey (hvalue rest')⟩
  | expression _ ih =>
    obtain ⟨w, n, rfl, hn, hexpr⟩ := ih
    exact ⟨w, n, rfl, hn, fun rest' => .expression (hexpr rest')⟩
  | operand _ ih =>
    obtain ⟨w, n, rfl, hn, hoperand⟩ := ih
    exact ⟨w, n, rfl, hn, fun rest' => .operand (hoperand rest')⟩
  | @operator ts op us rest _ hop _ ih ih' =>
    obtain ⟨w, m, rfl, hm, hleft⟩ := ih
    obtain ⟨v, n, rfl, hn, hright⟩ := ih'
    obtain rfl := hm (by simp)
    refine ⟨w ++ op :: v, n, by simp, hn, fun rest' => .operator ?_ hop (hright rest')⟩
    simpa [braces] using hleft (op :: ((v ++ braces n) ++ rest'))
  | atom _ ih =>
    obtain ⟨w, n, rfl, hn, hatom⟩ := ih
    exact ⟨w, n, rfl, hn, fun rest' => .atom (hatom rest')⟩
  | unary hop _ ih =>
    obtain ⟨w, n, rfl, hn, hoperand⟩ := ih
    exact ⟨_ :: w, n, rfl, hn, fun rest' => .unary hop (hoperand rest')⟩
  | @identifier name ts hname =>
    exact ⟨[name], 0, rfl, fun _ => rfl, fun _ => .identifier hname⟩
  | @integer numeral ts n hkind hvalue hfits =>
    exact ⟨[numeral], 0, rfl, fun _ => rfl, fun _ => .integer hkind hvalue hfits⟩
  | @boolean key ts hkey => exact ⟨[key], 0, rfl, fun _ => rfl, fun _ => .boolean hkey⟩
  | @grouping o ts close rest hopen _ hclose ih =>
    obtain ⟨w, n, rfl, hn, hinner⟩ := ih
    obtain rfl := hn (by simp)
    refine ⟨o :: w ++ [close], 0, by simp, fun _ => rfl, fun rest' => .grouping hopen ?_ hclose⟩
    simpa [braces] using hinner (close :: rest')
  | @conditional key o ts close us rest hkey hopen _ hclose _ ih ih' =>
    obtain ⟨w, m, rfl, hm, hcondition⟩ := ih
    obtain ⟨v, n, rfl, hn, hblock⟩ := ih'
    obtain rfl := hm (by simp)
    refine ⟨key :: o :: w ++ close :: v, n, by simp, hn, fun rest' => ?_⟩
    refine .conditional hkey hopen ?_ hclose (hblock rest')
    simpa [braces] using hcondition (close :: ((v ++ braces n) ++ rest'))
  | @alternative key o ts close us other vs rest hkey hopen _ hclose _ helse _ ih ih' ih'' =>
    obtain ⟨w, m, rfl, hm, hcondition⟩ := ih
    obtain ⟨v, l, rfl, hl, hblock⟩ := ih'
    obtain ⟨v', n, rfl, hn, hblock'⟩ := ih''
    obtain rfl := hm (by simp)
    obtain rfl := hl (by simp)
    refine ⟨key :: o :: w ++ close :: v ++ other :: v', n, by simp, hn, fun rest' => ?_⟩
    refine .alternative hkey hopen ?_ hclose (hblock (other :: ((v' ++ braces n) ++ rest'))) helse
      (hblock' rest')
    simpa [braces] using hcondition (close :: (v ++ other :: ((v' ++ braces n) ++ rest')))
  | @closed brace ts close rest hbrace _ hclose ih =>
    obtain ⟨w, n, rfl, hn, hbody⟩ := ih
    obtain rfl := hn (by simp)
    refine ⟨brace :: w ++ [close], 0, by simp, fun _ => rfl, fun rest' => .closed hbrace ?_ hclose⟩
    simpa [braces] using hbody (close :: rest')
  | @unclosed brace ts hbrace _ ih =>
    obtain ⟨w, n, rfl, -, hbody⟩ := ih
    refine ⟨brace :: w, n + 1, by simp, fun h => absurd rfl h, fun rest' => ?_⟩
    have hstatements := hbody (.ofKind .rbrace :: rest')
    have heq : (w ++ braces n) ++ .ofKind .rbrace :: rest' = (w ++ braces (n + 1)) ++ rest' := by
      simp [braces, List.replicate_succ']
    rw [heq] at hstatements
    exact .closed hbrace hstatements rfl

/-- A phrase with tokens after it is complete. -/
theorem complete {N : Phrase} {ts rest : List Token} (h : Derives N ts rest) (hrest : rest ≠ []) :
    ∃ w, ts = w ++ rest ∧ Complete N w := by
  obtain ⟨w, n, rfl, hn, hw⟩ := h.closing
  obtain rfl := hn hrest
  exact ⟨w, rfl, by simpa [braces] using hw⟩

/-! ### Weighing phrases -/

/-- Weights of tokens by which no phrase weighs less than nothing: a kind may pull down only if
another one has to come before it that makes up for it. -/
structure Balances (f : Kind → Int) : Prop where
  /-- A closing brace comes after an opening one. -/
  braces : 0 ≤ f .lbrace + f .rbrace
  /-- An ELSE comes after an IF. -/
  branches : 0 ≤ f .ifKey + f .elseKey
  /-- The other kinds have nothing to be made up for. -/
  others : ∀ k, k ≠ .rbrace → k ≠ .elseKey → 0 ≤ f k

/-- The sum of the weights of the tokens. -/
def weight (f : Kind → Int) : List Token → Int
  | [] => 0
  | t :: ts => f t.kind + weight f ts

@[simp]
theorem weight_nil (f : Kind → Int) : weight f [] = 0 := rfl

@[simp]
theorem weight_cons (f : Kind → Int) (t : Token) (ts : List Token) :
    weight f (t :: ts) = f t.kind + weight f ts := rfl

/-- **No phrase weighs less than nothing.** -/
theorem weight_le {f : Kind → Int} (hf : Balances f) {N : Phrase} {ts rest : List Token}
    (h : Derives N ts rest) : weight f rest ≤ weight f ts := by
  have hpos {t : Token} {k : Kind} (ht : t.kind = k) (hk : k ≠ .rbrace ∧ k ≠ .elseKey) :
      0 ≤ f t.kind := ht ▸ hf.others k hk.1 hk.2
  induction h with
  | nil => exact Int.le_refl _
  | cons _ _ ih ih' => exact Int.le_trans ih' ih
  | bare _ ih => exact ih
  | semicolon _ hmark ih =>
    have h := hpos hmark (by decide)
    rw [weight_cons] at ih
    omega
  | binding hkey hname hmark _ ih =>
    have h := hpos hkey (by decide)
    have h' := hpos hname (by decide)
    have h'' := hpos hmark (by decide)
    simp only [weight_cons]
    omega
  | result hkey _ ih =>
    have h := hpos hkey (by decide)
    rw [weight_cons]
    omega
  | expression _ ih => exact ih
  | operand _ ih => exact ih
  | operator _ hop _ ih ih' =>
    have h := hpos rfl hop.ne_closing
    rw [weight_cons] at ih
    omega
  | atom _ ih => exact ih
  | @unary op _ _ hop _ ih =>
    have h : 0 ≤ f op.kind := hop.elim (hpos · (by decide)) (hpos · (by decide))
    rw [weight_cons]
    omega
  | identifier hname =>
    have h := hpos hname (by decide)
    rw [weight_cons]
    omega
  | integer hkind =>
    have h := hpos hkind (by decide)
    rw [weight_cons]
    omega
  | @boolean key _ hkey =>
    have h : 0 ≤ f key.kind := hkey.elim (hpos · (by decide)) (hpos · (by decide))
    rw [weight_cons]
    omega
  | grouping hopen _ hclose ih =>
    have h := hpos hopen (by decide)
    have h' := hpos hclose (by decide)
    rw [weight_cons] at ih ⊢
    omega
  | conditional hkey hopen _ hclose _ ih ih' =>
    have h := hpos hkey (by decide)
    have h' := hpos hopen (by decide)
    have h'' := hpos hclose (by decide)
    simp only [weight_cons] at ih ⊢
    omega
  | alternative hkey hopen _ hclose _ helse _ ih ih' ih'' =>
    have h := hf.branches
    have h' := hpos hopen (by decide)
    have h'' := hpos hclose (by decide)
    simp only [weight_cons, hkey, helse] at ih ih' ⊢
    omega
  | closed hbrace _ hclose ih =>
    have h := hf.braces
    simp only [weight_cons, hbrace, hclose] at ih ⊢
    omega
  | unclosed hbrace _ ih =>
    have h := hpos hbrace (by decide)
    rw [weight_cons]
    omega

end Derives

end FrontEnd
