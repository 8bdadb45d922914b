import FrontEnd.Proofs.Acceptance
import FrontEnd.Proofs.Lookahead
import FrontEnd.Proofs.MoreFuel
import FrontEnd.Proofs.Segments

/-!
# Texts one after the other

A text without errors that closes all its braces can have any other text after it, on a line of its
own, and the two are read as if each stood alone. Only the first token of the second text matters
for this: at the end of the first one a reading may wait for an operator, for ELSE or for a
semicolon, unless it has seen a semicolon already.

The readings of the first text are followed with the second one after it. They look at most one
token past what they take, so only those that take everything can see the difference. The number of
open braces tells that such a reading did not stop inside a block.

## Main definitions

* `FrontEnd.depth` — the number of braces that tokens open, less those that they close.
* `FrontEnd.Joins` — tokens that can come after a reading of an expression.
* `FrontEnd.Parted` — tokens that do not go on with the last statement of others.

## Main results

* `FrontEnd.ReadsExpression.append`, `FrontEnd.ReadsOpening.append` — readings are kept if more
  tokens come after them.
* `FrontEnd.ReadsStatements.append_ensures` — the statements of more tokens come after those of the
  first ones.
* `FrontEnd.parse_append_newline` — two texts one after the other.
-/

namespace FrontEnd

/-! ### Open braces -/

/-- How much deeper into braces a token leads. -/
def Kind.nesting : Kind → Int
  | lbrace => 1
  | rbrace => -1
  | _ => 0

theorem Kind.nesting_nonneg {k : Kind} (hk : k ≠ .rbrace) : 0 ≤ k.nesting := by
  revert hk
  cases k <;> decide

theorem Kind.ne_rbrace_of_leading {k : Kind} {r : LeadingRule}
    (h : Grammar.standard.leading k = some r) : k ≠ .rbrace := by
  rintro rfl
  exact absurd h (by simp [show Grammar.standard.leading .rbrace = none from rfl])

theorem Kind.balances_nesting : Derives.Balances Kind.nesting where
  braces := by decide
  branches := by decide
  others _ hk _ := nesting_nonneg hk

/-- The number of braces that the tokens open, less the number of those that they close. -/
def depth (ts : List Token) : Int :=
  Derives.weight Kind.nesting ts

@[simp]
theorem depth_nil : depth [] = 0 := rfl

@[simp]
theorem depth_cons (t : Token) (ts : List Token) : depth (t :: ts) = t.kind.nesting + depth ts :=
  Derives.weight_cons ..

theorem depth_eq_countP (ts : List Token) :
    depth ts = (ts.countP (·.is .lbrace) : Int) - ts.countP (·.is .rbrace) := by
  induction ts with
  | nil => rfl
  | cons t ts ih =>
    rw [depth_cons, ih, List.countP_cons, List.countP_cons]
    cases hk : t.kind <;> simp [Kind.nesting, Token.is, hk] <;> omega

namespace Derives

variable {N : Phrase} {ts rest : List Token}

/-- A phrase closes no more braces than it opens. -/
theorem depth_le (h : Derives N ts rest) : depth rest ≤ depth ts :=
  h.weight_le Kind.balances_nesting

/-- An expression that closes all its braces does not end with a semicolon. -/
theorem exists_last (h : Derives N ts rest)
    (hN : N ∈ [Phrase.expression, .operand, .atom, .block]) (hdepth : depth ts ≤ depth rest) :
    ∃ w t, ts = w ++ t :: rest ∧ t.kind ≠ .semicolon := by
  -- The last token of a phrase is the last one of its last part, where no brace is left open.
  have hsplit {N : Phrase} {ts us : List Token} (h : Derives N ts us) : ∃ w, ts = w ++ us := by
    obtain ⟨w, -, hw, -⟩ := h.closing
    exact ⟨w, hw⟩
  induction h with
  | nil | cons | bare | semicolon | binding | result | expression => exact absurd hN (by simp)
  | operand _ ih => exact ih (by simp) hdepth
  | atom _ ih => exact ih (by simp) hdepth
  | @operator ts op us rest hleft hop _ _ ih =>
    have hle := hleft.depth_le
    have hnesting := Kind.nesting_nonneg hop.ne_closing.1
    rw [depth_cons] at hle
    obtain ⟨w, t, rfl, ht⟩ := ih (by simp) (by omega)
    obtain ⟨v, rfl⟩ := hsplit hleft
    exact ⟨v ++ op :: w, t, by simp, ht⟩
  | @unary op ts rest hop _ ih =>
    have hnesting : 0 ≤ op.kind.nesting :=
      Kind.nesting_nonneg (by rcases hop with hop | hop <;> simp [hop])
    rw [depth_cons] at hdepth
    obtain ⟨w, t, rfl, ht⟩ := ih (by simp) (by omega)
    exact ⟨op :: w, t, rfl, ht⟩
  | @identifier name ts hname => exact ⟨[], name, rfl, by simp [hname]⟩
  | @integer numeral ts n hkind => exact ⟨[], numeral, rfl, by simp [hkind]⟩
  | @boolean key ts hkey =>
    exact ⟨[], key, rfl, by rcases hkey with hkey | hkey <;> simp [hkey]⟩
  | @grouping o ts close rest _ hinner hclose =>
    obtain ⟨v, rfl⟩ := hsplit hinner
    exact ⟨o :: v, close, rfl, by simp [hclose]⟩
  | @conditional key o ts close us rest hkey hopen hcondition hclose _ _ ih =>
    have hle := hcondition.depth_le
    simp only [depth_cons, hkey, hopen, hclose, Kind.nesting] at hle hdepth
    obtain ⟨w, t, rfl, ht⟩ := ih (by simp) (by omega)
    obtain ⟨v, rfl⟩ := hsplit hcondition
    exact ⟨key :: o :: v ++ close :: w, t, by simp, ht⟩
  | @alternative key o ts close us other vs rest hkey hopen hcondition hclose hblock helse _ _ _
      ih =>
    have hle := hcondition.depth_le
    have hle' := hblock.depth_le
    simp only [depth_cons, hkey, hopen, hclose, helse, Kind.nesting] at hle hle' hdepth
    obtain ⟨w, t, rfl, ht⟩ := ih (by simp) (by omega)
    obtain ⟨v', rfl⟩ := hsplit hblock
    obtain ⟨v, rfl⟩ := hsplit hcondition
    exact ⟨key :: o :: v ++ close :: v' ++ other :: w, t, by simp, ht⟩
  | @closed brace ts close rest _ hbody hclose =>
    obtain ⟨v, rfl⟩ := hsplit hbody
    exact ⟨brace :: v, close, rfl, by simp [hclose]⟩
  | unclosed hbrace hbody =>
    have hle := hbody.depth_le
    simp only [depth_cons, depth_nil, hbrace, Kind.nesting] at hle hdepth
    omega

end Derives

/-! ### Readings of expressions with more tokens after them -/

/-- The tokens `us` can come after a reading that leaves `rest` of `ts`: if nothing is left, no
brace is open, and no expression goes on with the first token of `us`. -/
def Joins (us ts rest : List Token) : Prop :=
  rest = [] → depth ts ≤ 0 ∧ (front us).kind.EndsExpression

namespace Joins

variable {us ts mid rest : List Token}

theorem of_cons {t : Token} : Joins us ts (t :: rest) :=
  fun h => absurd h (by simp)

/-- The first one of two readings. -/
theorem left (h : Joins us ts rest) (hrest : rest <:+ mid) : Joins us ts mid := by
  rintro rfl
  exact h (List.suffix_nil.mp hrest)

/-- The second one of two readings. -/
theorem right (h : Joins us ts rest) (hmid : depth mid ≤ depth ts) : Joins us mid rest :=
  fun hrest => ⟨Int.le_trans hmid (h hrest).1, (h hrest).2⟩

/-- A token that closes no brace has been taken. -/
theorem cons {t : Token} (h : Joins us (t :: ts) rest) (ht : t.kind ≠ .rbrace) :
    Joins us ts rest := by
  refine h.right ?_
  have hnesting := Kind.nesting_nonneg ht
  rw [depth_cons]
  omega

/-- The next token ends an expression just as well. -/
theorem front_append (h : Joins us ts rest) {P : Kind → Prop}
    (hends : ∀ k : Kind, k.EndsExpression → P k) (hrest : P (front rest).kind) :
    P (front (rest ++ us)).kind := by
  cases rest with
  | nil => exact hends _ (h rfl).2
  | cons t rest => exact hrest

end Joins

section Append

variable {us : List Token}

/-- A block that is closed is read with more tokens after it. -/
theorem ReadsBlock.append {ts rest : List Token} {block : Block}
    (h : ReadsBlock .standard ts block rest) (hbrace : (front ts).kind = .lbrace)
    (hts : ∀ t ∈ ts, t.Genuine) (hus : Joins us ts rest) :
    ReadsBlock .standard (ts ++ us) block (rest ++ us) := by
  cases h with
  | @intro brace ts body rest hbody =>
    cases rest with
    | nil =>
      -- The block is not closed, so a brace is open.
      have hle := (hbody.derives (genuine_of_cons hts)).depth_le
      have hdepth := (hus rfl).1
      rw [front_cons] at hbrace
      simp only [depth_cons, depth_nil, hbrace, Kind.nesting] at hle hdepth
      omega
    | cons close rest => exact .intro (hbody.looksAhead.append (by simp) us)

mutual

theorem ReadsExpression.append : ∀ {b ts e rest}, ReadsExpression .standard b ts e rest →
    (∀ t ∈ ts, t.Genuine) → Joins us ts rest →
      ReadsExpression .standard b (ts ++ us) e (rest ++ us)
  | _, _, _, _, .intro hrule hleft hclimb, hts, hus => by
    have hle := (hleft.derives hrule hts).depth_le
    have hmid := genuine_of_suffix_tail hts hleft.suffix
    exact .intro hrule (hleft.append hrule hts (hus.left hclimb.suffix))
      (hclimb.append hmid (hus.right hle))

theorem ReadsClimb.append : ∀ {b left ts e rest}, ReadsClimb .standard b left ts e rest →
    (∀ t ∈ ts, t.Genuine) → Joins us ts rest →
      ReadsClimb .standard b left (ts ++ us) e (rest ++ us)
  | b, _, _, _, _, .stop hstop, _, hus =>
    .stop (hus.front_append (fun _ hk => Grammar.not_continues_of_endsExpression hk b) hstop)
  | _, _, _, _, _, .step hop hright hclimb, hts, hus => by
    have hts' := genuine_of_cons hts
    have hmid := genuine_of_suffix_tail hts' hright.suffix
    have hle := (hright.derives hts').1.depth_le
    have hus' := hus.cons (Grammar.continues_standard.mp hop).1.ne_closing.1
    exact .step hop (hright.append hts' (hus'.left hclimb.suffix))
      (hclimb.append hmid (hus'.right hle))

theorem ReadsLeading.append : ∀ {r ts e rest}, ReadsLeading .standard r ts e rest →
    Grammar.standard.leading (front ts).kind = some r → (∀ t ∈ ts, t.Genuine) →
      Joins us ts rest → ReadsLeading .standard r (ts ++ us) e (rest ++ us)
  | _, _, _, _, .identifier, _, _, _ => .identifier
  | _, _, _, _, .integer hvalue, _, _, _ => .integer hvalue
  | _, _, _, _, .boolean, _, _, _ => .boolean
  | _, _, _, _, .unary hoperand, hrule, hts, hus =>
    .unary (hoperand.append (genuine_of_cons hts) (hus.cons (Kind.ne_rbrace_of_leading hrule)))
  | _, _, _, _, .grouping hinner hclose, _, hts, _ =>
    .grouping (hinner.append (genuine_of_cons hts) .of_cons) hclose
  | _, _, _, _, .conditional hopen hcondition hclose hbrace hblock helse, hrule, hts, hus => by
    have hts' := genuine_of_cons (genuine_of_cons hts)
    have hblock' := genuine_of_cons (genuine_of_suffix_tail hts' hcondition.suffix)
    have hus₁ := (hus.cons (Kind.ne_rbrace_of_leading hrule)).cons (by simp [hopen])
    have hus₂ := (hus₁.right (hcondition.derives hts').1.depth_le).cons (by simp [hclose])
    exact .conditional hopen (hcondition.append hts' .of_cons) hclose hbrace
      (hblock.append hbrace hblock' hus₂) (hus.front_append (fun _ hk => hk.2) helse)
  | _, _, _, _, .alternative hopen hcondition hclose hbrace hblock helse hbrace' hblock', hrule,
      hts, hus => by
    have hts' := genuine_of_cons (genuine_of_cons hts)
    have hfirst := genuine_of_cons (genuine_of_suffix_tail hts' hcondition.suffix)
    have hsecond := genuine_of_cons (genuine_of_suffix_tail hfirst hblock.suffix)
    have hus₁ := (hus.cons (Kind.ne_rbrace_of_leading hrule)).cons (by simp [hopen])
    have hus₂ := (hus₁.right (hcondition.derives hts').1.depth_le).cons (by simp [hclose])
    have hus₃ := (hus₂.right (hblock.derives hbrace hfirst).depth_le).cons (by simp [helse])
    exact .alternative hopen (hcondition.append hts' .of_cons) hclose hbrace
      (hblock.append hbrace hfirst .of_cons) helse hbrace' (hblock'.append hbrace' hsecond hus₃)

end

/-! ### Readings of statements with more tokens after them -/

/-- The tokens `us` do not go on with the last statement of `ts`: there is none, it ends with a
semicolon, or the first token of `us` neither continues an expression nor is a semicolon. -/
def Parted (ts us : List Token) : Prop :=
  ts = [] ∨ (∃ t ∈ ts.getLast?, t.kind = .semicolon) ∨
    ((front us).kind.EndsExpression ∧ (front us).kind ≠ .semicolon)

theorem Parted.of_suffix {ts vs : List Token} (h : Parted ts us) (hvs : vs <:+ ts) :
    Parted vs us := by
  obtain ⟨w, rfl⟩ := hvs
  by_cases hnil : vs = []
  · exact .inl hnil
  rcases h with hts | hlast | hfront
  · exact absurd (List.append_eq_nil_iff.mp hts).2 hnil
  · rw [List.getLast?_append_of_ne_nil w hnil] at hlast
    exact .inr (.inl hlast)
  · exact .inr (.inr hfront)

theorem afterSemicolon_append {rest : List Token} (h : rest ≠ []) :
    afterSemicolon (rest ++ us) = afterSemicolon rest ++ us := by
  cases rest with
  | nil => exact absurd rfl h
  | cons t rest =>
    unfold afterSemicolon
    rw [List.cons_append, front_cons, front_cons]
    split
    · rfl
    · rfl

/-- The value of a statement, and the semicolon after it, are read with more tokens after them. -/
theorem ReadsExpression.append_afterSemicolon {b : Power} {ts rest : List Token} {e : Expr}
    (h : ReadsExpression .standard b ts e rest) (hts : ∀ t ∈ ts, t.Genuine)
    (hdepth : depth ts ≤ 0) (hus : Parted ts us) :
    ∃ rest', ReadsExpression .standard b (ts ++ us) e rest' ∧
      afterSemicolon rest' = afterSemicolon rest ++ us := by
  cases rest with
  | cons t rest => exact ⟨_, h.append hts .of_cons, afterSemicolon_append (by simp)⟩
  | nil =>
    -- The statement has no semicolon, and its value does not end with one either.
    obtain ⟨w, t, rfl, ht⟩ := (h.derives hts).1.exists_last (by simp) hdepth
    rcases hus with hnil | ⟨t', ht', hsemi⟩ | ⟨hends, hsemi⟩
    · exact absurd hnil (by simp)
    · obtain rfl : t = t' := by simpa using ht'
      exact absurd hsemi ht
    · exact ⟨us, h.append hts fun _ => ⟨hdepth, hends⟩, afterSemicolon_of_ne hsemi⟩

theorem ReadsOpening.append {r : StatementRule} {ts rest : List Token} {s : Stmt}
    (h : ReadsOpening .standard r ts s rest)
    (hrule : (Grammar.standard.statement (front ts).kind).getD .expression = r)
    (hts : ∀ t ∈ ts, t.Genuine) (hdepth : depth ts ≤ 0) (hus : Parted ts us) :
    ReadsOpening .standard r (ts ++ us) s (rest ++ us) := by
  cases h with
  | @binding t name assign ts e rest hname hassign hvalue =>
    have hkey := Grammar.statement_standard_eq_binding.mp hrule
    rw [front_cons] at hkey
    have hts' := genuine_of_cons (genuine_of_cons (genuine_of_cons hts))
    have hdepth' : depth ts ≤ 0 := by
      simpa [hkey, hname, hassign, Kind.nesting] using hdepth
    obtain ⟨rest', hvalue', hrest⟩ := hvalue.append_afterSemicolon hts' hdepth'
      (hus.of_suffix ⟨[t, name, assign], rfl⟩)
    rw [← hrest]
    exact .binding hname hassign hvalue'
  | @result t ts e rest hvalue =>
    have hkey := Grammar.statement_standard_eq_result.mp hrule
    rw [front_cons] at hkey
    have hdepth' : depth ts ≤ 0 := by simpa [hkey, Kind.nesting] using hdepth
    obtain ⟨rest', hvalue', hrest⟩ := hvalue.append_afterSemicolon (genuine_of_cons hts) hdepth'
      (hus.of_suffix ⟨[t], rfl⟩)
    rw [← hrest]
    exact .result hvalue'
  | expression hexpr =>
    obtain ⟨rest', hexpr', hrest⟩ := hexpr.append_afterSemicolon hts hdepth hus
    rw [← hrest]
    exact .expression hexpr'

open Window Tape in
/-- **Statements and more tokens after them.** If tokens are read without errors and close all their
braces, the tokens after them are read from where they begin, as if there was nothing before. -/
theorem ReadsStatements.append_ensures : ∀ {stop ts ss rest},
    ReadsStatements .standard stop ts ss rest → stop = [.eof] → rest = [] →
      (∀ t ∈ ts, t.Genuine) → depth ts ≤ 0 → Parted ts us → ∀ n (t : Tape), t.ahead = ts ++ us →
        Ensures (fun ss' t' => ∃ m others,
            Parse.statements .standard m [.eof] ⟨us, t.faults⟩ = some (others, t') ∧
              ss' = ss ++ others)
          (Parse.statements .standard n stop t)
  | _, _, _, _, .nil _, rfl, rfl, _, _, _, n, ⟨_, fs⟩, rfl =>
    fun ss' _ h => ⟨n, ss', h, rfl⟩
  | _, _, _, _, .cons _ _ _, _, _, _, _, _, 0, _, _ => .none
  | _, _, _, _, .cons hstop _ _, _, _, _, _, _, 1, t, ht => by
    rw [Parse.statements, if_neg (by simpa [ht] using hstop)]
    exact .none
  | _, _, _, _, .cons hstop hfirst hothers, hend, hrest, hts, hdepth, hus, n + 2, ⟨_, fs⟩, rfl => by
    have hle := (Derives.depth_le (hfirst.derives rfl hts))
    have hsuffix := hfirst.suffix.trans (List.tail_suffix _)
    have hread := hfirst.append rfl hts hdepth hus
    rw [Parse.statements, if_neg (by simpa using hstop), Parse.statement]
    refine (hread.ensures n _ rfl).bind fun first? t₁ h₁ => ?_
    obtain ⟨rfl, hf₁, hr₁⟩ := h₁
    refine (hothers.append_ensures hend hrest (genuine_of_suffix hts hsuffix)
      (Int.le_trans hle hdepth) (hus.of_suffix hsuffix) (n + 1) (advance t₁) hr₁).bind ?_
    rintro _ t₂ ⟨m, others, hstatements, rfl⟩
    rw [faults_advance, hf₁] at hstatements
    exact .some ⟨m, others, hstatements, rfl⟩

end Append

/-- A text is read with some fuel. -/
theorem exists_statements_eq (source : String) : ∃ n ss t,
    Parse.statements .standard n [.eof] (Tape.ofTokens (lex source.toList)) = some (ss, t) ∧
      parse source = ⟨⟨ss⟩, t.faults.map Prod.snd⟩ := by
  let Q (ss : List Stmt) (t : Tape) : Prop := ∃ n,
    Parse.statements .standard n [.eof] (Tape.ofTokens (lex source.toList)) = some (ss, t)
  have hQ (n : Nat) : Window.Ensures Q
      (Parse.statements .standard n [.eof] (Tape.ofTokens (lex source.toList))) :=
    fun ss t h => ⟨n, h⟩
  obtain ⟨ss, t, ⟨n, hread⟩, hparse, -⟩ := parse_of_ensures hQ
  exact ⟨n, ss, t, hread, hparse⟩

/-- Kinds with which the next text does not go on with a statement. -/
theorem Kind.endsExpression_of_not_mem {k : Kind} (hk : k ∉ [Kind.eq, .notEq, .lt, .gt, .plus,
    .minus, .asterisk, .slash, .semicolon, .elseKey]) : k.EndsExpression ∧ k ≠ .semicolon := by
  revert hk
  cases k <;> decide

/-- **Two texts one after the other.** A text without errors in which all braces are closed can be
followed by any other one on a new line: its statements come first, then the statements and the
errors of the other text. The other text must not go on with the last statement, which is only
possible if this has no semicolon. -/
theorem parse_append_newline {a b : String} (ha : (parse a).errors = [])
    (hbraces : (tokenize a).countP (·.is .rbrace) = (tokenize a).countP (·.is .lbrace))
    (hjoint : (tokenize a).dropLast = [] ∨
      (∃ t ∈ (tokenize a).dropLast.getLast?, t.kind = .semicolon) ∨
      ∀ t ∈ (tokenize b).head?, t.kind ∉ [Kind.eq, .notEq, .lt, .gt, .plus, .minus, .asterisk,
        .slash, .semicolon, .elseKey]) :
    parse (a ++ "\n" ++ b) =
      ⟨⟨(parse a).program.statements ++ (parse b).program.statements⟩, (parse b).errors⟩ := by
  obtain ⟨ss, hreads, hparse⟩ := reads_of_errors_eq_nil ha
  obtain ⟨n, others, t, hothers, hparse'⟩ := exists_statements_eq b
  have hdepth : depth (lex a.toList) ≤ 0 := by
    have hcount (k : Kind) (hk : Token.eof.is k = false) :
        (tokenize a).countP (·.is k) = (lex a.toList).countP (·.is k) := by
      simp [tokenize_eq, List.countP_append, hk]
    rw [hcount .rbrace rfl, hcount .lbrace rfl] at hbraces
    rw [depth_eq_countP, hbraces]
    omega
  have hus : Parted (lex a.toList) (lex b.toList) := by
    rw [dropLast_tokenize, tokens_ofString] at hjoint
    refine hjoint.imp_right (Or.imp_right fun hfront => Kind.endsExpression_of_not_mem ?_)
    refine hfront (front (lex b.toList)) ?_
    rw [tokenize_eq]
    cases lex b.toList <;> rfl
  have hlex : lex (a ++ "\n" ++ b).toList = lex a.toList ++ lex b.toList := by
    have hchars : (a ++ "\n" ++ b).toList = a.toList ++ '\n' :: b.toList := by simp
    rw [hchars, lex_append_cons_of_isBlank rfl]
  obtain ⟨ss', t', ⟨m, others', hothers', rfl⟩, hparse'', -⟩ := parse_of_ensures fun n =>
    hreads.append_ensures rfl rfl (fun t => genuine_of_mem_lex) hdepth hus n _ hlex
  obtain ⟨rfl, rfl⟩ := Prod.mk.inj (Parse.statements_unique hothers hothers')
  rw [hparse, hparse', hparse'']

/-- After a conditional that ends with a block, a statement with an error on a line of its own. -/
theorem parse_append_newline_conditional :
    parse ("if (a) \x7b b \x7d else \x7b c; \x7d" ++ "\n" ++ "let d = (e; f") =
      ⟨⟨(parse "if (a) \x7b b \x7d else \x7b c; \x7d").program.statements ++
        (parse "let d = (e; f").program.statements⟩, (parse "let d = (e; f").errors⟩ ∧
      (parse "let d = (e; f").errors ≠ [] := by
  refine ⟨parse_append_newline (by decide +kernel) (by decide +kernel) ?_, by decide +kernel⟩
  exact .inr (.inr (by decide +kernel))

end FrontEnd
