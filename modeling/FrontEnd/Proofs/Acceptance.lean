import FrontEnd.Proofs.Derivation
import FrontEnd.Proofs.Outcome

/-!
# The texts that are accepted

A text is read without errors exactly if its tokens can be derived as statements.

What is read can be derived, rule by rule. The other direction is less direct, since the derivations
are ambiguous and a reading always goes on as long as it can. So a derivation is first changed into
one that cuts no statement short. An expression that is read above some power may still end before
the derivation does, namely in front of an operator that binds too loosely; then an expression can
be derived after this operator, and the reading of it is left to whoever asked for the power.

## Main definitions

* `FrontEnd.Resumes` — the derivation goes on, at most with an operator of a bounded power.

## Main results

* `FrontEnd.ReadsStatements.derives` — what is read can be derived.
* `FrontEnd.Derives.exists_reads` — what can be derived is read.
* `FrontEnd.errors_eq_nil_iff_derives` — the texts that are accepted.
-/

namespace FrontEnd

/-! ### What is read can be derived -/

/-- After an operator that stands in front, only one operand is read. -/
theorem ReadsClimb.rest_eq_of_unary {b : Power} {left e : Expr} {us rest : List Token}
    (h : ReadsClimb .standard b left us e rest) (hb : b = .unary) : us = rest := by
  cases h with
  | stop => rfl
  | step hop =>
    subst hb
    exact absurd hop (Grammar.not_continues_unary _)

theorem Derives.atom_integer {t : Token} {ts : List Token} {value : Int} (ht : t.Genuine)
    (hkind : t.kind = .int) (hvalue : Text.signed64? t.literal = some value) :
    Derives .atom (t :: ts) ts := by
  obtain ⟨n, hn⟩ := ht.exists_natural? hkind
  rw [Text.signed64?_of_natural? hn] at hvalue
  exact .integer hkind hn (Text.le_of_fit64?_natCast hvalue)

/-- An optional semicolon after a clause makes it a statement. -/
theorem Derives.statement_afterSemicolon {ts rest : List Token} (h : Derives .clause ts rest) :
    Derives .statement ts (afterSemicolon rest) := by
  by_cases hsemi : (front rest).kind = .semicolon
  · have hrest := eq_front_cons_tail rest (by simp [hsemi])
    rw [hrest] at h ⊢
    rw [afterSemicolon_cons hsemi]
    exact .semicolon h hsemi
  · rw [afterSemicolon_of_ne hsemi]
    exact .bare h

/-- Statements between braces are a block, and so are statements after a brace up to the end. -/
theorem Derives.block_of_front {brace : Token} {ts rest : List Token}
    (h : Derives .statements ts rest) (hbrace : brace.kind = .lbrace)
    (hrest : ∀ t ∈ rest, t.Genuine) (hfront : (front rest).kind ∈ [Kind.rbrace, .eof]) :
    Derives .block (brace :: ts) rest.tail := by
  cases rest with
  | nil => exact .unclosed hbrace h
  | cons close rest =>
    have heof := (hrest close (by simp)).kind_ne_eof
    exact .closed hbrace h (by simpa [heof] using hfront)

mutual

/-- An expression is read for an expression; after an operator in front, for one operand. -/
theorem ReadsExpression.derives : ∀ {b ts e rest}, ReadsExpression .standard b ts e rest →
    (∀ t ∈ ts, t.Genuine) →
      Derives .expression ts rest ∧ (b = .unary → Derives .operand ts rest)
  | _, _, _, _, .intro hrule hleft hclimb, hts => by
    have hus := genuine_of_suffix_tail hts hleft.suffix
    have hoperand := hleft.derives hrule hts
    exact ⟨hclimb.derives hus (.operand hoperand), fun hb => hclimb.rest_eq_of_unary hb ▸ hoperand⟩

/-- What has been read in front of the operators is derived already. -/
theorem ReadsClimb.derives : ∀ {b left us e rest}, ReadsClimb .standard b left us e rest →
    (∀ t ∈ us, t.Genuine) → ∀ {ts}, Derives .expression ts us → Derives .expression ts rest
  | _, _, _, _, _, .stop _, _, _, h => h
  | _, _, _, _, _, .step hop hright hclimb, hus, _, h => by
    have hts := genuine_of_cons hus
    have hvs := genuine_of_suffix_tail hts hright.suffix
    have hop' := (Grammar.continues_standard.mp hop).1
    exact hclimb.derives hvs (h.join hop' (hright.derives hts).1)

theorem ReadsLeading.derives : ∀ {r ts e rest}, ReadsLeading .standard r ts e rest →
    Grammar.standard.leading (front ts).kind = some r → (∀ t ∈ ts, t.Genuine) →
      Derives .operand ts rest
  | _, _, _, _, .identifier, hrule, _ =>
    .atom (.identifier (by simpa [LeadingRule.kinds] using Grammar.leading_standard.mp hrule))
  | _, _, _, _, .integer hvalue, hrule, hts =>
    .atom (.atom_integer (hts _ (by simp))
      (by simpa [LeadingRule.kinds] using Grammar.leading_standard.mp hrule) hvalue)
  | _, _, _, _, .boolean, hrule, _ =>
    .atom (.boolean (by simpa [LeadingRule.kinds] using Grammar.leading_standard.mp hrule))
  | _, _, _, _, .unary hoperand, hrule, hts => by
    have hop := Grammar.leading_standard.mp hrule
    have hts' := genuine_of_cons hts
    exact .unary (by simpa [LeadingRule.kinds] using hop) ((hoperand.derives hts').2 rfl)
  | _, _, _, _, .grouping hinner hclose, hrule, hts => by
    have hts' := genuine_of_cons hts
    exact .atom (.grouping (Grammar.eq_lparen_of_leading hrule) (hinner.derives hts').1 hclose)
  | _, _, _, _, .conditional hopen hcondition hclose hbrace hblock _, hrule, hts => by
    have hts' := genuine_of_cons (genuine_of_cons hts)
    have hus := genuine_of_suffix_tail hts' hcondition.suffix
    exact .atom (.conditional (Grammar.eq_ifKey_of_leading hrule) hopen
      (hcondition.derives hts').1 hclose
      (hblock.derives hbrace (genuine_of_cons hus)))
  | _, _, _, _, .alternative hopen hcondition hclose hbrace hblock helse hbrace' hblock', hrule,
      hts => by
    have hts' := genuine_of_cons (genuine_of_cons hts)
    have hus := genuine_of_suffix_tail hts' hcondition.suffix
    have hus' := genuine_of_cons hus
    have hvs := genuine_of_suffix_tail hus' hblock.suffix
    exact .atom (.alternative (Grammar.eq_ifKey_of_leading hrule) hopen
      (hcondition.derives hts').1 hclose (hblock.derives hbrace hus') helse
      (hblock'.derives hbrace' (genuine_of_cons hvs)))

theorem ReadsOpening.derives : ∀ {r ts s rest}, ReadsOpening .standard r ts s rest →
    (Grammar.standard.statement (front ts).kind).getD .expression = r → (∀ t ∈ ts, t.Genuine) →
      Derives .statement ts rest
  | _, _, _, _, .binding hname hassign hvalue, hrule, hts => by
    have hts' := genuine_of_cons (genuine_of_cons (genuine_of_cons hts))
    have hkey := Grammar.statement_standard_eq_binding.mp hrule
    exact (Derives.binding hkey hname hassign (hvalue.derives hts').1).statement_afterSemicolon
  | _, _, _, _, .result hvalue, hrule, hts => by
    have hts' := genuine_of_cons hts
    have hkey := Grammar.statement_standard_eq_result.mp hrule
    exact (Derives.result hkey (hvalue.derives hts').1).statement_afterSemicolon
  | _, _, _, _, .expression hexpr, _, hts =>
    (Derives.expression (hexpr.derives hts).1).statement_afterSemicolon

theorem ReadsStatements.derives : ∀ {stop ts ss rest}, ReadsStatements .standard stop ts ss rest →
    (∀ t ∈ ts, t.Genuine) → Derives .statements ts rest
  | _, _, _, _, .nil _, _ => .nil
  | _, _, _, _, .cons _ hfirst hothers, hts =>
    .cons (hfirst.derives rfl hts)
      (hothers.derives (genuine_of_suffix_tail hts hfirst.suffix))

theorem ReadsBlock.derives : ∀ {ts block rest}, ReadsBlock .standard ts block rest →
    (front ts).kind = .lbrace → (∀ t ∈ ts, t.Genuine) → Derives .block ts rest
  | _, _, _, .intro hbody, hbrace, hts => by
    have hts' := genuine_of_cons hts
    exact (hbody.derives hts').block_of_front hbrace (genuine_of_suffix hts' hbody.suffix)
      hbody.front_mem

end

/-! ### What can be derived is read -/

/-- The tokens `us` lead to `rest`: they are the same, or what is between them is an operator of at
most the power `b` and an expression. -/
def Resumes (b : Power) (us rest : List Token) : Prop :=
  us = rest ∨ ∃ op vs, us = op :: vs ∧ op.kind.IsOperator ∧ Grammar.standard.power op.kind ≤ b ∧
    Derives .expression vs rest

variable {b : Power} {n : Nat} {ts us rest : List Token}

theorem Resumes.call (h : Resumes b us rest) : Resumes .call us rest := by
  rcases h with rfl | ⟨op, vs, rfl, hop, -, hvs⟩
  · exact .inl rfl
  · exact .inr ⟨op, vs, rfl, hop, Power.le_call _, hvs⟩

/-- Every operator binds more tightly than the lowest power. -/
theorem Resumes.eq_of_lowest (h : Resumes .lowest us rest) : us = rest := by
  rcases h with rfl | ⟨op, vs, rfl, hop, hpower, -⟩
  · rfl
  · exact absurd (Grammar.lowest_lt_power_of_isOperator hop) (Power.not_lt.mpr hpower)

theorem Resumes.front_ne_else (h : Resumes b us rest) (hrest : (front rest).kind.EndsExpression) :
    (front us).kind ≠ .elseKey := by
  rcases h with rfl | ⟨op, vs, rfl, hop, -, -⟩
  · exact hrest.2
  · intro helse
    rw [front_cons] at helse
    exact absurd hop (by rw [helse]; decide)

theorem Derives.exists_operand (h : Derives .expression ts rest) :
    ∃ us, Derives .operand ts us ∧ Resumes .call us rest := by
  cases h with
  | operand hoperand => exact ⟨rest, hoperand, .inl rfl⟩
  | operator hleft hop hright =>
    exact ⟨_, hleft, .inr ⟨_, _, rfl, hop, Power.le_call _, hright⟩⟩

/-- Expressions on fewer than `n` tokens are read, up to an operator that binds too loosely. -/
def ExpressionsRead (n : Nat) : Prop :=
  ∀ b ts rest, ts.length < n → Derives .expression ts rest → (front rest).kind.EndsExpression →
    ∃ e us, ReadsExpression .standard b ts e us ∧ Resumes b us rest

/-- Statements on fewer than `n` tokens are read. -/
def StatementsRead (n : Nat) : Prop :=
  ∀ stop ts rest, ts.length < n → Derives .statements ts rest → (front rest).kind ∈ stop →
    stop ⊆ [.rbrace, .eof] → ∃ ss, ReadsStatements .standard stop ts ss rest

/-- At the lowest power an expression is read to its end. -/
theorem ExpressionsRead.lowest (hexpr : ExpressionsRead n) (hn : ts.length < n)
    (h : Derives .expression ts rest) (hrest : (front rest).kind.EndsExpression) :
    ∃ e, ReadsExpression .standard .lowest ts e rest := by
  obtain ⟨e, us, hread, hresumes⟩ := hexpr .lowest ts rest hn h hrest
  exact ⟨e, hresumes.eq_of_lowest ▸ hread⟩

theorem climb_reads (hexpr : ExpressionsRead n) (b : Power)
    (hrest : (front rest).kind.EndsExpression) : ∀ m left us, us.length ≤ m → us.length ≤ n →
      Resumes .call us rest →
        ∃ e vs, ReadsClimb .standard b left us e vs ∧ Resumes b vs rest := by
  -- The induction is on a bound of the tokens: each operator takes at least one of them.
  intro m
  induction m with
  | zero =>
    intro left us hm _ hus
    obtain rfl := List.length_eq_zero_iff.mp (Nat.le_zero.mp hm)
    rcases hus with rfl | ⟨op, vs, hcons, -⟩
    · exact ⟨left, [], .stop (Grammar.not_continues_of_endsExpression hrest b), .inl rfl⟩
    · exact absurd hcons (by simp)
  | succ m ih =>
    intro left us hm hn hus
    rcases hus with rfl | ⟨op, vs, rfl, hop, -, hvs⟩
    · exact ⟨left, us, .stop (Grammar.not_continues_of_endsExpression hrest b), .inl rfl⟩
    · rw [List.length_cons] at hm hn
      by_cases hpower : b < Grammar.standard.power op.kind
      · obtain ⟨right, ws, hright, hws⟩ :=
          hexpr (Grammar.standard.power op.kind) vs rest (by omega) hvs hrest
        have hlen := hright.suffix.length_le
        rw [List.length_tail] at hlen
        obtain ⟨e, xs, hclimb, hxs⟩ :=
          ih (.binary op left op.literal right) ws (by omega) (by omega) hws.call
        have hgo := Grammar.continues_standard.mpr ⟨hop, hpower⟩
        exact ⟨e, xs, .step hgo hright hclimb, hxs⟩
      · have hstop : ¬ Grammar.standard.Continues b (front (op :: vs)).kind := fun hgo =>
          hpower (Grammar.continues_standard.mp hgo).2
        exact ⟨left, op :: vs, .stop hstop, .inr ⟨op, vs, rfl, hop, Power.not_lt.mp hpower, hvs⟩⟩

theorem block_reads (hstmt : StatementsRead n) (hn : ts.length ≤ n) (h : Derives .block ts rest) :
    ∃ brace us block, ts = brace :: us ∧ brace.kind = .lbrace ∧
      ReadsBlock .standard (brace :: us) block rest := by
  cases h with
  | @closed brace ts close rest hbrace hbody hclose =>
    obtain ⟨body, hread⟩ := hstmt [.rbrace, .eof] ts (close :: rest) hn hbody (by simp [hclose])
      (List.Subset.refl _)
    exact ⟨brace, ts, .mk brace body, rfl, hbrace, .intro hread⟩
  | @unclosed brace ts hbrace hbody =>
    obtain ⟨body, hread⟩ := hstmt [.rbrace, .eof] ts [] hn hbody (by simp [Token.eof])
      (List.Subset.refl _)
    exact ⟨brace, ts, .mk brace body, rfl, hbrace, .intro hread⟩

/-- An atom is read by the rule of its first token. -/
theorem atom_reads (hexpr : ExpressionsRead n) (hstmt : StatementsRead n) (hn : ts.length ≤ n)
    (h : Derives .atom ts rest) (helse : (front rest).kind ≠ .elseKey) :
    ∃ r e, Grammar.standard.leading (front ts).kind = some r ∧
      ReadsLeading .standard r ts e rest := by
  have hrule {k : Kind} {r : LeadingRule} (hk : k ∈ r.kinds) :
      Grammar.standard.leading k = some r :=
    Grammar.leading_standard.mpr hk
  cases h with
  | identifier hname =>
    exact ⟨.identifier, _, hrule (by simp [hname, LeadingRule.kinds]), .identifier⟩
  | integer hkind hvalue hfits =>
    have hsigned := Text.signed64?_of_natural? hvalue
    rw [Text.fit64?_natCast_of_le hfits] at hsigned
    exact ⟨.integer, _, hrule (by simp [hkind, LeadingRule.kinds]), .integer hsigned⟩
  | boolean hkey => exact ⟨.boolean, _, hrule (by simpa [LeadingRule.kinds] using hkey), .boolean⟩
  | @grouping o ts close rest hopen hinner hclose =>
    obtain ⟨e, hread⟩ := hexpr.lowest hn hinner (by rw [front_cons, hclose]; decide)
    exact ⟨.grouping, e, hrule (by simp [hopen, LeadingRule.kinds]), .grouping hread hclose⟩
  | @conditional key o ts close us rest hkey hopen hcondition hclose hblock =>
    have hlen := hcondition.length_le
    simp only [List.length_cons] at hn hlen
    obtain ⟨c, hread⟩ := hexpr.lowest (by omega) hcondition (by rw [front_cons, hclose]; decide)
    obtain ⟨brace, us, block, rfl, hbrace, hread'⟩ := block_reads hstmt (by omega) hblock
    exact ⟨.conditional, _, hrule (by simp [hkey, LeadingRule.kinds]),
      .conditional hopen hread hclose hbrace hread' helse⟩
  | @alternative key o ts close us other vs rest hkey hopen hcondition hclose hblock hother
      hblock' =>
    have hlen := hcondition.length_le
    have hlen' := hblock.length_le
    simp only [List.length_cons] at hn hlen hlen'
    obtain ⟨c, hread⟩ := hexpr.lowest (by omega) hcondition (by rw [front_cons, hclose]; decide)
    obtain ⟨brace, us, block, rfl, hbrace, hread'⟩ := block_reads hstmt (by omega) hblock
    obtain ⟨brace', vs, block', rfl, hbrace', hread''⟩ := block_reads hstmt (by omega) hblock'
    exact ⟨.conditional, _, hrule (by simp [hkey, LeadingRule.kinds]),
      .alternative hopen hread hclose hbrace hread' hother hbrace' hread''⟩

/-- An operand is read by the rule of its first token. -/
theorem operand_reads (hexpr : ExpressionsRead n) (hstmt : StatementsRead n)
    (h : Derives .operand ts rest) (hn : ts.length ≤ n) (helse : (front rest).kind ≠ .elseKey) :
    ∃ r e, Grammar.standard.leading (front ts).kind = some r ∧
      ReadsLeading .standard r ts e rest := by
  generalize hN : Phrase.operand = N at h
  induction h with
  | atom hatom => exact atom_reads hexpr hstmt hn hatom helse
  | @unary op ts rest hop _ ih =>
    rw [List.length_cons] at hn
    obtain ⟨r, e, hrule, hleft⟩ := ih (by omega) helse hN
    have hclimb : ReadsClimb .standard .unary e rest e rest := .stop (Grammar.not_continues_unary _)
    refine ⟨.unary, _, Grammar.leading_standard.mpr ?_, .unary (.of_leading hrule hleft hclimb)⟩
    simpa [LeadingRule.kinds] using hop
  | _ => cases hN

/-- One more token for expressions: the first operand begins with it. -/
theorem expressionsRead_succ (hexpr : ExpressionsRead n) (hstmt : StatementsRead n) :
    ExpressionsRead (n + 1) := by
  intro b ts rest hn h hrest
  obtain ⟨us, hoperand, hus⟩ := h.exists_operand
  have hlen := hoperand.length_lt (by simp)
  obtain ⟨r, left, hrule, hleft⟩ :=
    operand_reads hexpr hstmt hoperand (by omega) (hus.front_ne_else hrest)
  obtain ⟨e, vs, hclimb, hvs⟩ :=
    climb_reads hexpr b hrest us.length left us le_rfl (by omega) hus
  exact ⟨e, vs, .of_leading hrule hleft hclimb, hvs⟩

/-- A clause is read by the rule of its first token, with a semicolon after it. -/
theorem clause_reads (hexpr : ExpressionsRead n) (hn : ts.length < n) (h : Derives .clause ts rest)
    (hrest : (front rest).kind.EndsExpression) :
    ∃ s, ReadsOpening .standard ((Grammar.standard.statement (front ts).kind).getD .expression) ts s
      (afterSemicolon rest) := by
  cases h with
  | @binding key name mark ts rest hkey hname hmark hvalue =>
    simp only [List.length_cons] at hn
    obtain ⟨e, hread⟩ := hexpr.lowest (by omega) hvalue hrest
    rw [front_cons, Grammar.statement_standard_eq_binding.mpr hkey]
    exact ⟨_, .binding hname hmark hread⟩
  | @result key ts rest hkey hvalue =>
    rw [List.length_cons] at hn
    obtain ⟨e, hread⟩ := hexpr.lowest (by omega) hvalue hrest
    rw [front_cons, Grammar.statement_standard_eq_result.mpr hkey]
    exact ⟨_, .result hread⟩
  | expression hvalue =>
    obtain ⟨e, hread⟩ := hexpr.lowest hn hvalue hrest
    have hstart := hvalue.startsExpression
    have hkeys : (front ts).kind ≠ .letKey ∧ (front ts).kind ≠ .returnKey := by
      constructor <;> intro hk <;> exact absurd hstart (by rw [hk]; decide)
    rw [Grammar.statement_standard_eq_expression.mpr hkeys]
    cases hread with
    | intro hrule hleft hclimb => exact ⟨_, .expression (.intro hrule hleft hclimb)⟩

/-- One more token for statements: the first statement begins with it. -/
theorem statementsRead_succ (hexpr : ExpressionsRead (n + 1)) (hstmt : StatementsRead n) :
    StatementsRead (n + 1) := by
  intro stop ts rest hn h hfront hstop
  have hend : ∀ k ∈ [Kind.rbrace, .eof],
      k.EndsExpression ∧ k ≠ .semicolon ∧ ¬ k.StartsClause := by decide
  obtain ⟨hrest, hsemi, -⟩ := hend _ (hstop hfront)
  rcases h.maximal hrest hsemi with rfl | ⟨us, hclause, hus, hothers⟩
  · exact ⟨[], .nil hfront⟩
  · obtain ⟨first, hfirst⟩ := clause_reads hexpr hn hclause hus
    have hlen := hclause.length_lt (by simp)
    have hlen' := (afterSemicolon_suffix us).length_le
    obtain ⟨others, hread⟩ := hstmt stop (afterSemicolon us) rest (by omega) hothers hfront hstop
    have hts : ts = front ts :: ts.tail := eq_front_cons_tail ts fun heof => by
      exact absurd hclause.startsClause (by rw [heof]; decide)
    rw [hts] at hfirst ⊢
    refine ⟨first :: others, .cons (fun hmem => ?_) hfirst hread⟩
    exact (hend _ (hstop hmem)).2.2 hclause.startsClause

/-- Expressions and statements on any number of tokens are read. -/
theorem derived_reads (n : Nat) : ExpressionsRead n ∧ StatementsRead n := by
  induction n with
  | zero => exact ⟨fun _ _ _ h => absurd h (by omega), fun _ _ _ h => absurd h (by omega)⟩
  | succ n ih =>
    have hexpr := expressionsRead_succ ih.1 ih.2
    exact ⟨hexpr, statementsRead_succ hexpr ih.2⟩

/-- **Tokens that can be derived as statements are read without errors.** -/
theorem Derives.exists_reads (h : Derives .statements ts []) :
    ∃ ss, ReadsStatements .standard [.eof] ts ss [] :=
  (derived_reads (ts.length + 1)).2 [.eof] ts [] (by omega) h (by simp [Token.eof]) (by simp)

/-- A text is accepted if its tokens can be derived as statements. -/
theorem errors_eq_nil_of_derives {source : String}
    (h : Derives .statements (lex source.toList) []) : (parse source).errors = [] := by
  obtain ⟨ss, hreads⟩ := h.exists_reads
  rw [parse_of_reads hreads]

/-- **The texts that are accepted.** A text is read without errors if and only if its tokens,
without the end token, can be derived as statements. -/
theorem errors_eq_nil_iff_derives (source : String) :
    (parse source).errors = [] ↔ Derives .statements (tokenize source).dropLast [] := by
  rw [dropLast_tokenize, tokens_ofString]
  constructor
  · intro h
    obtain ⟨ss, hreads, -⟩ := reads_of_errors_eq_nil h
    exact hreads.derives fun t => genuine_of_mem_lex
  · exact errors_eq_nil_of_derives

end FrontEnd
