import FrontEnd.Proofs.Outcome

/-!
# The tokens of a tree in the order of the text

Each node of a tree keeps a token. Listed in order, with an operator between its operands and every
other token before what is inside the node, they are tokens of the text in the order of the text,
none of them twice. This holds for every text: whatever an error throws away, what is kept stays in
order. If there are no errors, nothing is thrown away but the marks that only show the shape of the
tree.

For a reading from a tape, the invariant is that the tokens of what was read and then the tokens
after the current one occur in this order among the tokens that were ahead.

## Main definitions

* `FrontEnd.Expr.tokens`, `FrontEnd.Stmt.tokens`, `FrontEnd.Block.tokens`, `FrontEnd.Program.tokens`
  — the tokens of a tree in order.
* `FrontEnd.Kind.isKept` — the kinds of the tokens that trees keep.
* `FrontEnd.Tape.ReadsInOrder` — every reading with some fuel keeps the tokens in order.

## Main results

* `FrontEnd.Tape.readsInOrder` — every reading keeps the tokens in order.
* `FrontEnd.ReadsStatements.tokens_eq` — a reading without errors keeps all tokens that trees keep.
* `FrontEnd.tokens_parse_sublist` — the tokens of a program and the tokens of its text.
-/

namespace FrontEnd

open scoped List

/-! ### The tokens of a tree -/

mutual

/-- The tokens of an expression in the order of the text. -/
def Expr.tokens : Expr → List Token
  | .identifier name => [name.token]
  | .integer t _ => [t]
  | .boolean t _ => [t]
  | .unary t _ operand => t :: operand.tokens
  | .binary t left _ right => left.tokens ++ t :: right.tokens
  | .conditional t condition consequence none => t :: (condition.tokens ++ consequence.tokens)
  | .conditional t condition consequence (some alternative) =>
    t :: (condition.tokens ++ (consequence.tokens ++ alternative.tokens))

/-- The tokens of a statement in the order of the text. -/
def Stmt.tokens : Stmt → List Token
  | .binding t name none => [t, name.token]
  | .binding t name (some value) => t :: name.token :: value.tokens
  | .result t none => [t]
  | .result t (some value) => t :: value.tokens
  | .expression _ expr => expr.tokens

/-- The tokens of a block in the order of the text. -/
def Block.tokens : Block → List Token
  | .mk t statements => t :: Stmt.tokensAll statements

/-- The tokens of statements in the order of the text. -/
def Stmt.tokensAll : List Stmt → List Token
  | [] => []
  | s :: ss => s.tokens ++ Stmt.tokensAll ss

end

/-- The tokens of a program in the order of the text. -/
def Program.tokens (p : Program) : List Token :=
  Stmt.tokensAll p.statements

/-- The tokens of an expression that may be missing. -/
def Expr.tokens? (e? : Option Expr) : List Token :=
  (e?.map Expr.tokens).getD []

@[simp]
theorem Expr.tokens?_none : Expr.tokens? none = [] := rfl

@[simp]
theorem Expr.tokens?_some (e : Expr) : Expr.tokens? (some e) = e.tokens := rfl

/-- The tokens of a statement that may be missing. -/
def Stmt.tokens? (s? : Option Stmt) : List Token :=
  (s?.map Stmt.tokens).getD []

@[simp]
theorem Stmt.tokens?_none : Stmt.tokens? none = [] := rfl

@[simp]
theorem Stmt.tokens?_some (s : Stmt) : Stmt.tokens? (some s) = s.tokens := rfl

theorem Stmt.tokensAll_toList_append (s? : Option Stmt) (ss : List Stmt) :
    Stmt.tokensAll (s?.toList ++ ss) = Stmt.tokens? s? ++ Stmt.tokensAll ss := by
  cases s? <;> rfl

theorem Stmt.tokens_binding (t : Token) (name : Identifier) (value? : Option Expr) :
    Stmt.tokens (.binding t name value?) = t :: name.token :: Expr.tokens? value? := by
  cases value? <;> rfl

theorem Stmt.tokens_result (t : Token) (value? : Option Expr) :
    Stmt.tokens (.result t value?) = t :: Expr.tokens? value? := by
  cases value? <;> rfl

/-! ### Every reading keeps the tokens in order -/

/-- The token at the front of a list comes before the others. -/
theorem front_cons_sublist {ts us : List Token} (hts : ts ≠ []) (h : us <+ ts.tail) :
    front ts :: us <+ ts := by
  cases ts with
  | nil => exact absurd rfl hts
  | cons t ts => exact h.cons_cons t

namespace Tape

open Window

/-- What was read, given by its tokens, and then the tokens after the current one occur in this
order among the tokens `ts`. -/
def InOrder {α : Type} (tokens : α → List Token) (ts : List Token) (a : α) (t : Tape) : Prop :=
  tokens a ++ t.ahead.tail <+ ts

variable {g : Grammar} {n : Nat}

theorem ne_nil_of_kind {ts : List Token} {k : Kind} (h : (front ts).kind = k) (hk : k ≠ .eof) :
    ts ≠ [] := by
  rintro rfl
  exact hk h.symm

theorem tail_ahead_skipSemicolon_sublist (t : Tape) :
    (skipSemicolon t).ahead.tail <+ t.ahead.tail := by
  rw [tail_ahead_skipSemicolon]
  exact (afterSemicolon_suffix _).sublist

/-- Every reading by `g` with the fuel `n` keeps the tokens in order. Whatever keeps the current
token is called on a tape that has one. -/
structure ReadsInOrder (g : Grammar) (n : Nat) : Prop where
  expression : ∀ b (t : Tape),
    Ensures (InOrder Expr.tokens? t.ahead) (Parse.expression g n b t)
  climb : ∀ b left (t : Tape),
    Ensures (InOrder Expr.tokens? (left.tokens ++ t.ahead.tail)) (Parse.climb g n b left t)
  binary : ∀ left b (t : Tape), t.ahead ≠ [] →
    Ensures (InOrder Expr.tokens? (left.tokens ++ t.ahead)) (Parse.binary g n left b t)
  leading : ∀ r (t : Tape), t.ahead ≠ [] →
    Ensures (InOrder Expr.tokens? t.ahead) (Parse.leading g n r t)
  conditional : ∀ t : Tape, t.ahead ≠ [] →
    Ensures (InOrder Expr.tokens? t.ahead) (Parse.conditional g n t)
  statement : ∀ t : Tape, t.ahead ≠ [] →
    Ensures (InOrder Stmt.tokens? t.ahead) (Parse.statement g n t)
  opening : ∀ r (t : Tape), t.ahead ≠ [] →
    Ensures (InOrder Stmt.tokens? t.ahead) (Parse.opening g n r t)
  statements : ∀ stop (t : Tape), .eof ∈ stop →
    Ensures (fun ss t' => Stmt.tokensAll ss ++ t'.ahead <+ t.ahead) (Parse.statements g n stop t)
  block : ∀ t : Tape, t.ahead ≠ [] →
    Ensures (InOrder Block.tokens t.ahead) (Parse.block g n t)

theorem ReadsInOrder.zero (g : Grammar) : ReadsInOrder g 0 := by
  constructor <;> intros <;> exact .none

/-- A conditional keeps at most its own token and those of its parts. -/
theorem tokens?_conditional_sublist (i : Token) (condition? : Option Expr) (first : Block)
    (second? : Option Block) :
    Expr.tokens? (condition?.map fun c => .conditional i c first second?) <+
      i :: (Expr.tokens? condition? ++ (first.tokens ++ (second?.map Block.tokens).getD [])) := by
  cases condition? with
  | none => exact List.nil_sublist _
  | some condition =>
    cases second? with
    | none => simp [Expr.tokens]
    | some second => simp [Expr.tokens]

/-- The rest of a conditional keeps the tokens in order if its blocks do. -/
theorem inOrder_branches {block : Tape → Option (Block × Tape)}
    (hblock : ∀ t : Tape, t.ahead ≠ [] → Ensures (InOrder Block.tokens t.ahead) (block t))
    (i : Token) (condition? : Option Expr) {us : List Token} {t : Tape}
    (ht : InOrder Expr.tokens? us condition? t) :
    Ensures (InOrder Expr.tokens? (i :: us)) (Parse.branches block i condition? t) := by
  have hfail {t' : Tape} (h : t'.ahead.tail <+ t.ahead.tail) :
      InOrder Expr.tokens? (i :: us) none t' :=
    ((h.trans (List.sublist_append_right _ _)).trans ht).cons i
  have hconditional {first : Block} {second? : Option Block} {t' : Tape}
      (h : first.tokens ++ ((second?.map Block.tokens).getD [] ++ t'.ahead.tail) <+
        t.ahead.tail) :
      InOrder Expr.tokens? (i :: us)
        (condition?.map fun c => .conditional i c first second?) t' := by
    refine ((tokens?_conditional_sublist i condition? first second?).append_right _).trans ?_
    simp only [List.cons_append, List.append_assoc]
    exact ((h.append_left _).trans ht).cons_cons i
  unfold Parse.branches
  refine Ensures.expecting (fun _ => ?_) fun _ => hfail (.refl _)
  refine Ensures.expecting (fun hbrace => ?_) fun _ => hfail (List.tail_sublist _)
  have hne : (advance (advance t)).ahead ≠ [] := ne_nil_of_kind hbrace (by decide)
  refine (hblock _ hne).bind fun first t₁ h₁ => ?_
  have hfirst : first.tokens ++ t₁.ahead.tail <+ t.ahead.tail := h₁.trans (List.tail_sublist _)
  dsimp only
  split
  · refine Ensures.expecting (fun hbrace' => ?_) fun _ => ?_
    · have hne' : (advance (advance t₁)).ahead ≠ [] := ne_nil_of_kind hbrace' (by decide)
      refine (hblock _ hne').bind fun second t₂ h₂ => .some (hconditional ?_)
      have hsecond : second.tokens ++ t₂.ahead.tail <+ t₁.ahead.tail :=
        h₂.trans (List.tail_sublist _)
      exact (hsecond.append_left _).trans hfirst
    · have hafter : (advance t₁).ahead.tail <+ first.tokens ++ t₁.ahead.tail :=
        (List.tail_sublist _).trans (List.sublist_append_right _ _)
      exact hfail (hafter.trans hfirst)
  · exact .some (hconditional hfirst)

/-- One more unit of fuel. -/
theorem ReadsInOrder.succ (hg : g.Bounded) (ih : ReadsInOrder g n) : ReadsInOrder g (n + 1) where
  expression b t := by
    unfold Parse.expression
    cases hrule : g.leading (current t).kind with
    | none => exact .some (List.tail_sublist _)
    | some r =>
      have hne : t.ahead ≠ [] := by
        intro hnil
        rw [current_eq, hnil] at hrule
        exact absurd (hg.leading_eof.symm.trans hrule) (by simp)
      refine (ih.leading r t hne).bind fun left? t₁ h₁ => ?_
      cases left? with
      | none => exact .some h₁
      | some left => exact (ih.climb b left t₁).mono fun _ _ h => h.trans h₁
  climb b left t := by
    by_cases hgo : g.Continues b (peek t).kind
    · have hne : t.ahead.tail ≠ [] := by
        intro hnil
        rw [peek_eq, hnil] at hgo
        exact hg.not_continues b hgo
      rw [Parse.climb_of_continues n left hgo]
      refine (ih.binary left _ (advance t) hne).bind fun e? t₁ h₁ => ?_
      cases e? with
      | none => exact .some h₁
      | some e => exact (ih.climb b e t₁).mono fun _ _ h => h.trans h₁
    · rw [Parse.climb_of_not_continues n left hgo]
      exact .some (.refl _)
  binary left b t hne := by
    unfold Parse.binary
    refine (ih.expression b (advance t)).bind fun right? t₁ h₁ => .some ?_
    cases right? with
    | none => exact (h₁.trans (List.tail_sublist _)).trans (List.sublist_append_right _ _)
    | some right =>
      have hright := front_cons_sublist hne h₁
      simpa [InOrder, Expr.tokens] using hright.append_left left.tokens
  leading r t hne := by
    have hself {us : List Token} (h : us <+ t.ahead.tail) : current t :: us <+ t.ahead :=
      front_cons_sublist hne h
    unfold Parse.leading
    cases r with
    | identifier => exact .some (hself (.refl _))
    | integer =>
      cases Text.signed64? (current t).literal with
      | none => exact .some (List.tail_sublist _)
      | some value => exact .some (hself (.refl _))
    | boolean => exact .some (hself (.refl _))
    | unary =>
      refine (ih.expression _ (advance t)).bind fun operand? t₁ h₁ => .some ?_
      cases operand? with
      | none => exact h₁.trans (List.tail_sublist _)
      | some operand => exact hself h₁
    | grouping =>
      refine (ih.expression _ (advance t)).bind fun e? t₁ h₁ => ?_
      have hafter : Expr.tokens? e? ++ t₁.ahead.tail <+ t.ahead := h₁.trans (List.tail_sublist _)
      refine Ensures.expecting (fun _ => .some ?_) fun _ => ?_
      · exact ((List.tail_sublist _).append_left _).trans hafter
      · exact (List.sublist_append_right _ _).trans hafter
    | conditional => exact ih.conditional t hne
  conditional t hne := by
    unfold Parse.conditional
    refine Ensures.expecting (fun _ => ?_) fun _ => List.tail_sublist _
    refine (ih.expression _ (advance (advance t))).bind fun condition? t₁ h₁ => ?_
    refine (inOrder_branches ih.block _ condition? h₁).mono fun _ _ h => h.trans ?_
    exact front_cons_sublist hne (List.tail_sublist _)
  statement t hne := by
    unfold Parse.statement
    exact ih.opening _ t hne
  opening r t hne := by
    have hskip {ts us : List Token} {t' : Tape} (h : ts ++ t'.ahead.tail <+ us) :
        ts ++ (skipSemicolon t').ahead.tail <+ us :=
      ((tail_ahead_skipSemicolon_sublist t').append_left ts).trans h
    unfold Parse.opening
    cases r with
    | binding =>
      refine Ensures.expecting (fun hname => ?_) fun _ => List.tail_sublist _
      refine Ensures.expecting (fun _ => ?_) fun _ =>
        (List.tail_sublist _).trans (List.tail_sublist _)
      refine (ih.expression _ _).bind fun value t₁ h₁ => .some (hskip ?_)
      have hvalue : Expr.tokens? value ++ t₁.ahead.tail <+ t.ahead.tail.tail :=
        h₁.trans (List.tail_sublist _)
      rw [Stmt.tokens?_some, Stmt.tokens_binding]
      have hname' : t.ahead.tail ≠ [] := ne_nil_of_kind hname (by decide)
      exact front_cons_sublist hne (front_cons_sublist hname' hvalue)
    | result =>
      refine (ih.expression _ _).bind fun value t₁ h₁ => .some (hskip ?_)
      rw [Stmt.tokens?_some, Stmt.tokens_result]
      exact front_cons_sublist hne h₁
    | expression =>
      refine (ih.expression _ t).bind fun e? t₁ h₁ => .some (hskip ?_)
      cases e? with
      | none => exact h₁
      | some e => exact h₁
  statements stop t hstop := by
    unfold Parse.statements
    split
    · exact .some (.refl _)
    next hcur =>
      have hne : t.ahead ≠ [] := by
        intro hnil
        rw [current_eq, hnil] at hcur
        exact hcur hstop
      refine (ih.statement t hne).bind fun first? t₁ h₁ => ?_
      refine (ih.statements stop (advance t₁) hstop).bind fun others t₂ h₂ => .some ?_
      rw [Stmt.tokensAll_toList_append, List.append_assoc]
      exact (h₂.append_left _).trans h₁
  block t hne := by
    unfold Parse.block
    refine (ih.statements _ (advance t) (by simp)).bind fun body t₁ h₁ => .some ?_
    have hbody : Stmt.tokensAll body ++ t₁.ahead.tail <+ t.ahead.tail :=
      ((List.tail_sublist _).append_left _).trans h₁
    exact front_cons_sublist hne hbody

/-- **Every reading keeps the tokens in order.** -/
theorem readsInOrder (hg : g.Bounded) (n : Nat) : ReadsInOrder g n := by
  induction n with
  | zero => exact .zero g
  | succ n ih => exact .succ hg ih

end Tape

/-! ### A reading without errors keeps all tokens but the marks -/

/-- The kinds of the tokens that trees keep: all but the marks that only show the shape of the tree,
and the end token. -/
def Kind.isKept (k : Kind) : Bool :=
  k ∉ [Kind.lparen, .rparen, .rbrace, .semicolon, .assign, .elseKey, .eof]

/-- The tokens of a list that trees keep. -/
def kept (ts : List Token) : List Token :=
  ts.filter fun t => t.kind.isKept

@[simp]
theorem kept_nil : kept [] = [] := rfl

theorem kept_append (ts us : List Token) : kept (ts ++ us) = kept ts ++ kept us :=
  List.filter_append ..

theorem kept_cons {t : Token} (ht : t.kind.isKept = true) (ts : List Token) :
    kept (t :: ts) = t :: kept ts :=
  List.filter_cons_of_pos ht

theorem kept_cons_of_not {t : Token} {k : Kind} (ht : t.kind = k) (ts : List Token)
    (hk : k.isKept = false := by decide) : kept (t :: ts) = kept ts := by
  subst ht
  exact List.filter_cons_of_neg (by simp [hk])

/-- The first token of an expression is kept unless it opens a parenthesis. -/
theorem isKept_of_leading {k : Kind} {r : LeadingRule} (h : Grammar.standard.leading k = some r)
    (hr : r ≠ .grouping) : k.isKept = true := by
  have hk := Grammar.leading_standard.mp h
  revert hk hr
  cases r <;> cases k <;> decide

theorem Kind.IsOperator.isKept {k : Kind} (h : k.IsOperator) : k.isKept = true := by
  revert h
  cases k <;> decide

theorem kept_afterSemicolon (ts : List Token) : kept (afterSemicolon ts) = kept ts := by
  by_cases hsemi : (front ts).kind = .semicolon
  · cases ts with
    | nil => rfl
    | cons t ts =>
      rw [front_cons] at hsemi
      rw [afterSemicolon_cons hsemi, kept_cons_of_not hsemi]
  · rw [afterSemicolon_of_ne hsemi]

theorem kept_tail {ts : List Token} (h : (front ts).kind ∈ [Kind.rbrace, .eof]) :
    kept ts.tail = kept ts := by
  cases ts with
  | nil => rfl
  | cons t ts =>
    have hk : ∀ k ∈ [Kind.rbrace, .eof], k.isKept = false := by decide
    rw [front_cons] at h
    rw [List.tail_cons, kept_cons_of_not rfl ts (hk _ h)]

mutual

theorem ReadsExpression.tokens_eq : ∀ {b ts e rest}, ReadsExpression .standard b ts e rest →
    e.tokens ++ kept rest = kept ts
  | _, _, _, _, .intro hrule hleft hclimb => by rw [hclimb.tokens_eq, hleft.tokens_eq hrule]

theorem ReadsClimb.tokens_eq : ∀ {b left us e rest}, ReadsClimb .standard b left us e rest →
    e.tokens ++ kept rest = left.tokens ++ kept us
  | _, _, _, _, _, .stop _ => rfl
  | _, _, _, _, _, .step hop hright hclimb => by
    have hop' := (Grammar.continues_standard.mp hop).1
    rw [hclimb.tokens_eq, kept_cons hop'.isKept, ← hright.tokens_eq, Expr.tokens]
    simp

theorem ReadsLeading.tokens_eq : ∀ {r ts e rest}, ReadsLeading .standard r ts e rest →
    Grammar.standard.leading (front ts).kind = some r → e.tokens ++ kept rest = kept ts
  | _, _, _, _, .identifier, hrule => (kept_cons (isKept_of_leading hrule nofun) _).symm
  | _, _, _, _, .integer _, hrule => (kept_cons (isKept_of_leading hrule nofun) _).symm
  | _, _, _, _, .boolean, hrule => (kept_cons (isKept_of_leading hrule nofun) _).symm
  | _, _, _, _, .unary hoperand, hrule => by
    rw [front_cons] at hrule
    rw [kept_cons (isKept_of_leading hrule nofun), ← hoperand.tokens_eq]
    rfl
  | _, _, _, _, .grouping hinner hclose, hrule => by
    rw [front_cons] at hrule
    rw [kept_cons_of_not (Grammar.eq_lparen_of_leading hrule), ← hinner.tokens_eq,
      kept_cons_of_not hclose]
  | _, _, _, _, .conditional hopen hcondition hclose hbrace hblock _, hrule => by
    rw [front_cons] at hrule
    rw [kept_cons (isKept_of_leading hrule nofun), kept_cons_of_not hopen, ← hcondition.tokens_eq,
      kept_cons_of_not hclose, ← hblock.tokens_eq hbrace, Expr.tokens]
    simp
  | _, _, _, _, .alternative hopen hcondition hclose hbrace hblock helse hbrace' hblock', hrule => by
    rw [front_cons] at hrule
    rw [kept_cons (isKept_of_leading hrule nofun), kept_cons_of_not hopen, ← hcondition.tokens_eq,
      kept_cons_of_not hclose, ← hblock.tokens_eq hbrace, kept_cons_of_not helse,
      ← hblock'.tokens_eq hbrace', Expr.tokens]
    simp

theorem ReadsOpening.tokens_eq : ∀ {r ts s rest}, ReadsOpening .standard r ts s rest →
    (Grammar.standard.statement (front ts).kind).getD .expression = r →
      s.tokens ++ kept rest = kept ts
  | _, _, _, _, .binding hname hassign hvalue, hrule => by
    have hkey := Grammar.statement_standard_eq_binding.mp hrule
    rw [front_cons] at hkey
    rw [kept_afterSemicolon, kept_cons (by rw [hkey]; rfl), kept_cons (by rw [hname]; rfl),
      kept_cons_of_not hassign, ← hvalue.tokens_eq]
    rfl
  | _, _, _, _, .result hvalue, hrule => by
    have hkey := Grammar.statement_standard_eq_result.mp hrule
    rw [front_cons] at hkey
    rw [kept_afterSemicolon, kept_cons (by rw [hkey]; rfl), ← hvalue.tokens_eq]
    rfl
  | _, _, _, _, .expression hexpr, _ => by rw [kept_afterSemicolon, ← hexpr.tokens_eq]; rfl

theorem ReadsStatements.tokens_eq : ∀ {stop ts ss rest}, ReadsStatements .standard stop ts ss rest →
    Stmt.tokensAll ss ++ kept rest = kept ts
  | _, _, _, _, .nil _ => rfl
  | _, _, _, _, .cons _ hfirst hothers => by
    rw [Stmt.tokensAll, List.append_assoc, hothers.tokens_eq, hfirst.tokens_eq rfl]

theorem ReadsBlock.tokens_eq : ∀ {ts block rest}, ReadsBlock .standard ts block rest →
    (front ts).kind = .lbrace → block.tokens ++ kept rest = kept ts
  | _, _, _, .intro hbody, hbrace => by
    rw [front_cons] at hbrace
    rw [kept_tail hbody.front_mem, kept_cons (by rw [hbrace]; rfl), ← hbody.tokens_eq]
    rfl

end

/-- A text without errors has the tokens of its program, and the marks. -/
theorem tokens_eq_kept {source : String} (h : (parse source).errors = []) :
    (parse source).program.tokens = kept (lex source.toList) := by
  obtain ⟨ss, hreads, hparse⟩ := reads_of_errors_eq_nil h
  rw [hparse, ← hreads.tokens_eq, kept_nil, List.append_nil]
  rfl

/-- A statement begins with the token that it keeps as its first one. -/
theorem ReadsOpening.token_eq {r : StatementRule} {ts rest : List Token} {s : Stmt}
    (h : ReadsOpening .standard r ts s rest) : s.token = front ts := by
  cases h <;> rfl

/-- A text without errors begins with the literal that its program begins with. -/
theorem literal_eq_front {source : String} (h : (parse source).errors = []) :
    (parse source).program.literal = (front (lex source.toList)).literal := by
  obtain ⟨ss, hreads, hparse⟩ := reads_of_errors_eq_nil h
  rw [hparse]
  generalize lex source.toList = ts at hreads ⊢
  cases hreads with
  | nil => rfl
  | cons _ hfirst => exact congrArg Token.literal hfirst.token_eq

/-- **The tokens of a program are those of its text, in order.** Whatever the text, the tokens that
the program keeps are tokens of the text in the same order, and none is kept twice. Without errors
they are all tokens of the text but the marks and the end token, and the program begins with the
literal of the first token. -/
theorem tokens_parse_sublist (source : String) :
    (parse source).program.tokens <+ tokenize source ∧
      ((parse source).errors = [] →
        (parse source).program.tokens = (tokenize source).filter (fun t => t.kind ∉
          [Kind.lparen, .rparen, .rbrace, .semicolon, .assign, .elseKey, .eof]) ∧
        (tokenize source).head?.map Token.literal = some (parse source).program.literal) := by
  refine ⟨?_, fun herrors => ⟨?_, ?_⟩⟩
  · obtain ⟨ss, t, hsublist, hparse, -⟩ := parse_of_ensures fun n =>
      (Tape.readsInOrder Grammar.bounded_standard n).statements [.eof]
        (Tape.ofTokens (lex source.toList)) (by simp)
    rw [hparse, tokenize_eq]
    exact ((List.sublist_append_left _ _).trans hsublist).trans (List.sublist_append_left _ _)
  · have hfilter : kept (tokenize source) = kept (lex source.toList) := by
      rw [tokenize_eq, kept_append, kept_cons_of_not (k := .eof) rfl, kept_nil, List.append_nil]
    rw [tokens_eq_kept herrors, ← hfilter]
    rfl
  · rw [tokenize_eq, literal_eq_front herrors]
    cases lex source.toList <;> rfl

/-- Of a conditional the braces that open its blocks are kept, but not those that close them, the
parentheses and `else`. -/
theorem tokens_parse_sublist_conditional :
    (parse "if (a) \x7b -b; \x7d else \x7b 1 \x7d").errors = [] ∧
      (parse "if (a) \x7b -b; \x7d else \x7b 1 \x7d").program.tokens.map Token.literal =
        ["if", "a", "\x7b", "-", "b", "\x7b", "1"] := by
  have h : (parse "if (a) \x7b -b; \x7d else \x7b 1 \x7d").errors = [] := by decide +kernel
  refine ⟨h, ?_⟩
  rw [((tokens_parse_sublist _).2 h).1]
  decide +kernel

end FrontEnd
