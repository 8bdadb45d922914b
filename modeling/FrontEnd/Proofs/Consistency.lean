import FrontEnd.Proofs.Outcome
import FrontEnd.Proofs.Segments
import FrontEnd.Proofs.WellFormed

/-!
# The trees of a text agree with its tokens

Whatever is wrong with a text, the trees that can be read from it are well-formed: at every node the
data agree with the token. An expression statement keeps the token that it begins with, which is
always one at which an expression can begin.

Each node is built by the rule that the tables give for its token, from a token of the text. The
invariant of a reading is that the tokens ahead could have been cut from a text. So it is enough to
look at one node at a time, with the kind of its token given.

## Main definitions

* `FrontEnd.Expr.Opened`, `FrontEnd.Stmt.Opened`, `FrontEnd.Block.Opened`,
  `FrontEnd.Program.Opened` — trees whose expression statements begin with a token at which an
  expression can begin.
* `FrontEnd.Expr.Consistent`, `FrontEnd.Stmt.Consistent`, `FrontEnd.Block.Consistent` — well-formed
  trees of this sort.
* `FrontEnd.Tape.ReadsConsistent` — every reading with some fuel gives such trees.

## Main results

* `FrontEnd.Tape.readsConsistent` — every reading gives such trees.
* `FrontEnd.consistent_parse` — and so does every text.
-/

namespace FrontEnd

/-! ### Expression statements -/

mutual

/-- The expression statements inside the expression begin with a token at which an expression can
begin. -/
def Expr.Opened : Expr → Prop
  | .identifier _ => True
  | .integer _ _ => True
  | .boolean _ _ => True
  | .unary _ _ operand => operand.Opened
  | .binary _ left _ right => left.Opened ∧ right.Opened
  | .conditional _ condition consequence none => condition.Opened ∧ consequence.Opened
  | .conditional _ condition consequence (some alternative) =>
    condition.Opened ∧ consequence.Opened ∧ alternative.Opened

/-- The statement begins with a token at which an expression can begin if it is an expression, and
so do those inside it. -/
def Stmt.Opened : Stmt → Prop
  | .binding _ _ none => True
  | .binding _ _ (some value) => value.Opened
  | .result _ none => True
  | .result _ (some value) => value.Opened
  | .expression t expr =>
    t.kind ∈ [Kind.ident, .int, .trueKey, .falseKey, .bang, .minus, .lparen, .ifKey] ∧ expr.Opened

/-- The expression statements of the block begin with a token at which an expression can begin. -/
def Block.Opened : Block → Prop
  | .mk _ statements => Stmt.AllOpened statements

/-- The expression statements among the statements begin with a token at which an expression can
begin. -/
def Stmt.AllOpened : List Stmt → Prop
  | [] => True
  | s :: ss => s.Opened ∧ Stmt.AllOpened ss

end

/-- The expression statements of the program begin with a token at which an expression can begin. -/
def Program.Opened (p : Program) : Prop :=
  Stmt.AllOpened p.statements

/-! ### Tokens of a given kind -/

/-- A genuine token of a kind with a fixed literal is the only one of its kind. -/
theorem Token.Genuine.eq_ofKind {t : Token} (ht : t.Genuine) {k : Kind} (hk : t.kind = k)
    (hspelling : k.spelling?.isSome) : t = .ofKind k := by
  obtain ⟨w, hw⟩ := Option.isSome_iff_exists.mp hspelling
  obtain ⟨kind, literal⟩ := t
  obtain rfl : kind = k := hk
  have hliteral : literal = w := ht.literal_eq rfl hw
  rw [Token.ofKind, hw, hliteral, Option.getD_some]

/-- A word that is the literal of no kind is no keyword. -/
theorem Kind.keyword?_of_free {w : String} (hfree : ∀ k : Kind, k.spelling? ≠ some w) :
    Kind.keyword? w = none := by
  cases hword : Kind.keyword? w with
  | none => rfl
  | some k =>
    obtain ⟨l₁, l₂, heq, -⟩ := List.lookup_eq_some_iff.mp hword
    exact absurd (Kind.spelling?_of_mem_keywords (by simp [heq])) (hfree k)

/-- The token of a name spells a well-formed one. -/
theorem Token.Genuine.wellFormed_ofToken {t : Token} (ht : t.Genuine) (hk : t.kind = .ident) :
    (Identifier.ofToken t).WellFormed := by
  cases ht.wellFormed with
  | name hne hletters hfree => exact ⟨rfl, rfl, hne, hletters, Kind.keyword?_of_free hfree⟩
  | fixed hspelling =>
    subst hk
    cases hspelling
  | number | illegal => cases hk

/-! ### Consistent trees, node by node -/

/-- The expression is well-formed, and its expression statements begin as they may. -/
structure Expr.Consistent (e : Expr) : Prop where
  wellFormed : e.WellFormed
  opened : e.Opened

/-- The statement is well-formed, and the expression statements in it begin as they may. -/
structure Stmt.Consistent (s : Stmt) : Prop where
  wellFormed : s.WellFormed
  opened : s.Opened

/-- The block is well-formed, and its expression statements begin as they may. -/
structure Block.Consistent (block : Block) : Prop where
  wellFormed : block.WellFormed
  opened : block.Opened

/-- The statements are well-formed, and the expression statements in them begin as they may. -/
structure Stmt.AllConsistent (ss : List Stmt) : Prop where
  wellFormed : Stmt.AllWellFormed ss
  opened : Stmt.AllOpened ss

namespace Expr.Consistent

variable {t : Token}

theorem identifier (ht : t.Genuine) (hk : t.kind = .ident) :
    (Expr.identifier (.ofToken t)).Consistent :=
  ⟨ht.wellFormed_ofToken hk, trivial⟩

/-- A number that can be read has the value of its digits. -/
theorem integer (ht : t.Genuine) (hk : t.kind = .int) {value : Int}
    (hvalue : Text.signed64? t.literal = some value) : (Expr.integer t value).Consistent := by
  obtain ⟨n, hn⟩ := ht.exists_natural? hk
  rw [Text.signed64?_of_natural? hn] at hvalue
  have hle := Text.le_of_fit64?_natCast hvalue
  rw [Text.fit64?_natCast_of_le hle] at hvalue
  exact ⟨⟨hk, n, hn, hle, (Option.some.inj hvalue).symm⟩, trivial⟩

theorem boolean (ht : t.Genuine) (hk : t.kind ∈ [Kind.trueKey, .falseKey]) :
    (Expr.boolean t (t.is .trueKey)).Consistent := by
  refine ⟨?_, trivial⟩
  rcases List.mem_pair.mp hk with hk | hk
  · simpa [Expr.WellFormed, Token.is, hk] using ht.eq_ofKind hk rfl
  · simpa [Expr.WellFormed, Token.is, hk] using ht.eq_ofKind hk rfl

theorem unary (ht : t.Genuine) (hk : t.kind ∈ [Kind.bang, .minus]) {operand : Expr}
    (h : operand.Consistent) : (Expr.unary t t.literal operand).Consistent := by
  have hspelling : ∀ k ∈ [Kind.bang, .minus], k.spelling?.isSome := by decide
  exact ⟨⟨hk, ht.eq_ofKind rfl (hspelling _ hk), rfl, h.wellFormed⟩, h.opened⟩

theorem binary (ht : t.Genuine) (hk : t.kind.IsOperator) {left right : Expr}
    (hleft : left.Consistent) (hright : right.Consistent) :
    (Expr.binary t left t.literal right).Consistent :=
  ⟨⟨hk, ht.eq_ofKind rfl hk.isSome_spelling?, rfl, hleft.wellFormed, hright.wellFormed⟩,
    hleft.opened, hright.opened⟩

theorem conditional (ht : t.Genuine) (hk : t.kind = .ifKey) {condition : Expr} {first : Block}
    {second? : Option Block} (hcondition : condition.Consistent) (hfirst : first.Consistent)
    (hsecond : ∀ second ∈ second?, second.Consistent) :
    (Expr.conditional t condition first second?).Consistent := by
  have ht' := ht.eq_ofKind hk rfl
  cases second? with
  | none =>
    exact ⟨⟨ht', hcondition.wellFormed, hfirst.wellFormed⟩, hcondition.opened, hfirst.opened⟩
  | some second =>
    have hsecond' := hsecond second rfl
    exact ⟨⟨ht', hcondition.wellFormed, hfirst.wellFormed, hsecond'.wellFormed⟩,
      hcondition.opened, hfirst.opened, hsecond'.opened⟩

end Expr.Consistent

namespace Stmt.Consistent

variable {t name : Token}

theorem binding (ht : t.Genuine) (hk : t.kind = .letKey) (hname : name.Genuine)
    (hk' : name.kind = .ident) {value? : Option Expr} (hvalue : ∀ e ∈ value?, e.Consistent) :
    (Stmt.binding t (.ofToken name) value?).Consistent := by
  have ht' := ht.eq_ofKind hk rfl
  have hname' := hname.wellFormed_ofToken hk'
  cases value? with
  | none => exact ⟨⟨ht', hname'⟩, trivial⟩
  | some e => exact ⟨⟨ht', hname', (hvalue e rfl).wellFormed⟩, (hvalue e rfl).opened⟩

theorem result (ht : t.Genuine) (hk : t.kind = .returnKey) {value? : Option Expr}
    (hvalue : ∀ e ∈ value?, e.Consistent) : (Stmt.result t value?).Consistent := by
  have ht' := ht.eq_ofKind hk rfl
  cases value? with
  | none => exact ⟨ht', trivial⟩
  | some e => exact ⟨⟨ht', (hvalue e rfl).wellFormed⟩, (hvalue e rfl).opened⟩

theorem expression {r : LeadingRule} (hrule : Grammar.standard.leading t.kind = some r) {e : Expr}
    (h : e.Consistent) : (Stmt.expression t e).Consistent := by
  refine ⟨h.wellFormed, ?_, h.opened⟩
  have hk := Grammar.leading_standard.mp hrule
  revert hk
  cases r <;> cases t.kind <;> decide

end Stmt.Consistent

theorem Block.Consistent.of_statements {t : Token} (ht : t.Genuine) (hk : t.kind = .lbrace)
    {ss : List Stmt} (h : Stmt.AllConsistent ss) : (Block.mk t ss).Consistent :=
  ⟨⟨ht.eq_ofKind hk rfl, h.wellFormed⟩, h.opened⟩

theorem Stmt.AllConsistent.nil : Stmt.AllConsistent [] :=
  ⟨trivial, trivial⟩

theorem Stmt.AllConsistent.toList_append {s? : Option Stmt} (hs : ∀ s ∈ s?, s.Consistent)
    {ss : List Stmt} (h : Stmt.AllConsistent ss) : Stmt.AllConsistent (s?.toList ++ ss) := by
  cases s? with
  | none => exact h
  | some s => exact ⟨⟨(hs s rfl).wellFormed, h.wellFormed⟩, (hs s rfl).opened, h.opened⟩

/-! ### Every reading gives consistent trees -/

open Window in
/-- An expression is read only from a token at which one can begin. -/
theorem Parse.expression_ensures_leading {ω : Type} [Window ω] (g : Grammar)
    (n : Nat) (b : Power) (s : ω) :
    Ensures (fun e? _ => ∀ e ∈ e?, ∃ r, g.leading (current s).kind = some r)
      (Parse.expression g n b s) := by
  cases n with
  | zero => exact .none
  | succ n =>
    unfold Parse.expression
    cases g.leading (current s).kind with
    | none => exact .some (by simp)
    | some r => exact fun _ _ _ _ _ => ⟨r, rfl⟩

namespace Tape

open Window

/-- The tokens ahead could all have been cut from a text. -/
def Genuine (t : Tape) : Prop :=
  ∀ u ∈ t.ahead, u.Genuine

theorem Genuine.advance {t : Tape} (h : t.Genuine) : (Window.advance t).Genuine :=
  fun u hu => h u (List.mem_of_mem_tail hu)

theorem Genuine.record {t : Tape} (h : t.Genuine) (e : ParseError) : (Window.record t e).Genuine :=
  h

theorem Genuine.skipSemicolon {t : Tape} (h : t.Genuine) : (Window.skipSemicolon t).Genuine := by
  unfold Window.skipSemicolon
  split
  · exact h.advance
  · exact h

theorem Genuine.current {t : Tape} (h : t.Genuine) {k : Kind} (hk : (Window.current t).kind = k)
    (hne : k ≠ .eof) : (Window.current t).Genuine := by
  subst hk
  refine h _ ?_
  rw [eq_front_cons_tail t.ahead hne]
  exact List.mem_cons_self

/-- What was read, if anything, has the property `P`, and the tokens ahead are genuine. -/
structure Gives {α : Type} (P : α → Prop) (a? : Option α) (t : Tape) : Prop where
  /-- The property of what was read. -/
  prop : ∀ a ∈ a?, P a
  /-- The tokens ahead. -/
  genuine : t.Genuine

theorem Gives.none {α : Type} {P : α → Prop} {t : Tape} (h : t.Genuine) : Gives P none t :=
  ⟨by simp, h⟩

theorem Gives.some {α : Type} {P : α → Prop} {a : α} {t : Tape} (ha : P a) (h : t.Genuine) :
    Gives P (some a) t :=
  ⟨fun _ ha' => Option.some.inj ha' ▸ ha, h⟩

/-- What is built from what was read. -/
theorem Gives.map {α β : Type} {P : α → Prop} {Q : β → Prop} {f : α → β} {a? : Option α} {t : Tape}
    (h : Gives P a? t) (hf : ∀ a, P a → Q (f a)) : Gives Q (a?.map f) t := by
  cases a? with
  | none => exact .none h.genuine
  | some a => exact .some (hf a (h.prop a rfl)) h.genuine

/-- A wanted token is found, or nothing is given. -/
theorem Gives.expecting {α : Type} {P : α → Prop} {t : Tape} {k : Kind}
    {f : Tape → Option (Option α × Tape)} (ht : t.Genuine)
    (hf : (current (advance t)).kind = k → (advance t).Genuine →
      Ensures (Gives P) (f (advance t))) :
    Ensures (Gives P) (expecting t k f) :=
  Ensures.expecting (fun hk => hf hk ht.advance) fun _ => .none (ht.record _)

/-- Every reading by the grammar of the language with the fuel `n` gives consistent trees, and
leaves genuine tokens, provided that the tokens ahead are genuine. Whatever is read by a rule is
read from a token of the kind that has this rule. -/
structure ReadsConsistent (n : Nat) : Prop where
  expression : ∀ b (t : Tape), t.Genuine →
    Ensures (Gives Expr.Consistent) (Parse.expression .standard n b t)
  climb : ∀ b left (t : Tape), left.Consistent → t.Genuine →
    Ensures (Gives Expr.Consistent) (Parse.climb .standard n b left t)
  binary : ∀ left b (t : Tape), left.Consistent → (current t).kind.IsOperator → t.Genuine →
    Ensures (Gives Expr.Consistent) (Parse.binary .standard n left b t)
  leading : ∀ r (t : Tape), Grammar.standard.leading (current t).kind = some r → t.Genuine →
    Ensures (Gives Expr.Consistent) (Parse.leading .standard n r t)
  conditional : ∀ t : Tape, (current t).kind = .ifKey → t.Genuine →
    Ensures (Gives Expr.Consistent) (Parse.conditional .standard n t)
  statement : ∀ t : Tape, t.Genuine →
    Ensures (Gives Stmt.Consistent) (Parse.statement .standard n t)
  opening : ∀ r (t : Tape),
    (Grammar.standard.statement (current t).kind).getD .expression = r → t.Genuine →
    Ensures (Gives Stmt.Consistent) (Parse.opening .standard n r t)
  statements : ∀ stop (t : Tape), t.Genuine →
    Ensures (fun ss t' => Stmt.AllConsistent ss ∧ t'.Genuine) (Parse.statements .standard n stop t)
  block : ∀ t : Tape, (current t).kind = .lbrace → t.Genuine →
    Ensures (fun block t' => block.Consistent ∧ t'.Genuine) (Parse.block .standard n t)

theorem ReadsConsistent.zero : ReadsConsistent 0 := by
  constructor <;> intros <;> exact .none

/-- The rest of a conditional gives consistent trees if its blocks are consistent. -/
theorem gives_branches {block : Tape → Option (Block × Tape)}
    (hblock : ∀ t : Tape, (current t).kind = .lbrace → t.Genuine →
      Ensures (fun block t' => block.Consistent ∧ t'.Genuine) (block t))
    {i : Token} (hi : i.Genuine) (hk : i.kind = .ifKey) {condition? : Option Expr} {t : Tape}
    (h : Gives Expr.Consistent condition? t) :
    Ensures (Gives Expr.Consistent) (Parse.branches block i condition? t) := by
  have hconditional {first : Block} {second? : Option Block} {t' : Tape}
      (hfirst : first.Consistent) (hsecond : ∀ second ∈ second?, second.Consistent)
      (ht' : t'.Genuine) : Gives Expr.Consistent
        (condition?.map fun c => .conditional i c first second?) t' :=
    Gives.map ⟨h.prop, ht'⟩ fun c hc => .conditional hi hk hc hfirst hsecond
  unfold Parse.branches
  refine Gives.expecting h.genuine fun _ h₁ => Gives.expecting h₁ fun hbrace h₂ => ?_
  refine (hblock _ hbrace h₂).bind fun first t₃ h₃ => ?_
  obtain ⟨hfirst, ht₃⟩ := h₃
  dsimp only
  split
  · refine Gives.expecting ht₃.advance fun hbrace' h₄ => ?_
    refine (hblock _ hbrace' h₄).bind fun second t₅ h₅ => .some ?_
    exact hconditional hfirst (by simpa using h₅.1) h₅.2
  · exact .some (hconditional hfirst (by simp) ht₃)

/-- One more unit of fuel. -/
theorem ReadsConsistent.succ {n : Nat} (ih : ReadsConsistent n) : ReadsConsistent (n + 1) where
  expression b t ht := by
    unfold Parse.expression
    cases hrule : Grammar.standard.leading (current t).kind with
    | none => exact .some (.none (ht.record _))
    | some r =>
      refine (ih.leading r t hrule ht).bind fun left? t₁ h₁ => ?_
      cases left? with
      | none => exact .some h₁
      | some left => exact ih.climb b left t₁ (h₁.prop left rfl) h₁.genuine
  climb b left t hleft ht := by
    by_cases hgo : Grammar.standard.Continues b (peek t).kind
    · have hop : (current (advance t)).kind.IsOperator := (Grammar.continues_standard.mp hgo).1
      rw [Parse.climb_of_continues n left hgo]
      refine (ih.binary left _ (advance t) hleft hop ht.advance).bind fun e? t₁ h₁ => ?_
      cases e? with
      | none => exact .some h₁
      | some e => exact ih.climb b e t₁ (h₁.prop e rfl) h₁.genuine
    · rw [Parse.climb_of_not_continues n left hgo]
      exact .some (.some hleft ht)
  binary left b t hleft hop ht := by
    have hcur : (current t).Genuine := ht.current rfl fun heof => by
      rw [heof] at hop
      exact absurd hop (by decide)
    unfold Parse.binary
    refine (ih.expression b (advance t) ht.advance).bind fun right? t₁ h₁ => .some ?_
    exact h₁.map fun right hright => .binary hcur hop hleft hright
  leading r t hrule ht := by
    have hk := Grammar.leading_standard.mp hrule
    have hcur : (current t).Genuine := ht.current rfl fun heof => by
      rw [heof] at hrule
      exact absurd hrule (by simp [show Grammar.standard.leading .eof = none from rfl])
    unfold Parse.leading
    cases r with
    | identifier => exact .some (.some (.identifier hcur (List.mem_singleton.mp hk)) ht)
    | integer =>
      cases hvalue : Text.signed64? (current t).literal with
      | none => exact .some (.none (ht.record _))
      | some value => exact .some (.some (.integer hcur (List.mem_singleton.mp hk) hvalue) ht)
    | boolean => exact .some (.some (.boolean hcur hk) ht)
    | unary =>
      refine (ih.expression _ (advance t) ht.advance).bind fun operand? t₁ h₁ => .some ?_
      exact h₁.map fun operand hoperand => .unary hcur hk hoperand
    | grouping =>
      refine (ih.expression _ (advance t) ht.advance).bind fun e? t₁ h₁ => ?_
      exact Gives.expecting h₁.genuine fun _ h₂ => .some ⟨h₁.prop, h₂⟩
    | conditional => exact ih.conditional t (List.mem_singleton.mp hk) ht
  conditional t hk ht := by
    unfold Parse.conditional
    refine Gives.expecting ht fun _ h₁ => ?_
    refine (ih.expression _ _ h₁.advance).bind fun condition? t₂ h₂ => ?_
    exact gives_branches ih.block (ht.current hk (by decide)) hk h₂
  statement t ht := by
    unfold Parse.statement
    exact ih.opening _ t rfl ht
  opening r t hrule ht := by
    unfold Parse.opening
    cases r with
    | binding =>
      have hk := Grammar.statement_standard_eq_binding.mp hrule
      refine Gives.expecting ht fun hname h₁ => Gives.expecting h₁ fun _ h₂ => ?_
      refine (ih.expression _ _ h₂.advance).bind fun value t₃ h₃ => .some (.some ?_ ?_)
      · exact .binding (ht.current hk (by decide)) hk (h₁.current hname (by decide)) hname h₃.prop
      · exact h₃.genuine.skipSemicolon
    | result =>
      have hk := Grammar.statement_standard_eq_result.mp hrule
      refine (ih.expression _ _ ht.advance).bind fun value t₁ h₁ => .some (.some ?_ ?_)
      · exact .result (ht.current hk (by decide)) hk h₁.prop
      · exact h₁.genuine.skipSemicolon
    | expression =>
      have hlead := Parse.expression_ensures_leading .standard n .lowest t
      refine ((ih.expression _ t ht).and hlead).bind fun e? t₁ h₁ => .some ?_
      obtain ⟨⟨he, ht₁⟩, hlead⟩ := h₁
      refine Gives.map (P := fun e => e ∈ e?) ⟨fun _ h => h, ht₁.skipSemicolon⟩ fun e hmem => ?_
      obtain ⟨r, hr⟩ := hlead e hmem
      exact .expression hr (he e hmem)
  statements stop t ht := by
    unfold Parse.statements
    split
    · exact .some ⟨.nil, ht⟩
    · refine (ih.statement t ht).bind fun first? t₁ h₁ => ?_
      refine (ih.statements stop (advance t₁) h₁.genuine.advance).bind fun others t₂ h₂ => ?_
      exact .some ⟨.toList_append h₁.prop h₂.1, h₂.2⟩
  block t hk ht := by
    unfold Parse.block
    refine (ih.statements _ (advance t) ht.advance).bind fun body t₁ h₁ => ?_
    exact .some ⟨.of_statements (ht.current hk (by decide)) hk h₁.1, h₁.2⟩

/-- **Every reading gives consistent trees.** -/
theorem readsConsistent (n : Nat) : ReadsConsistent n := by
  induction n with
  | zero => exact .zero
  | succ n ih => exact .succ ih

end Tape

/-- **The trees of a text agree with its tokens.** Whatever the text, the program that is read from
it is well-formed at every node, and each of its expression statements, at any depth, begins with a
token at which an expression can begin. -/
theorem consistent_parse (source : String) :
    (parse source).program.WellFormed ∧ (parse source).program.Opened := by
  obtain ⟨ss, t, ⟨h, -⟩, hparse, -⟩ := parse_of_ensures fun n =>
    (Tape.readsConsistent n).statements [.eof] (Tape.ofTokens (lex source.toList))
      fun _ hu => genuine_of_mem_lex hu
  rw [hparse]
  exact ⟨h.wellFormed, h.opened⟩

end FrontEnd
