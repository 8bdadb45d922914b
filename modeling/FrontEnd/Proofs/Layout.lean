import FrontEnd.Proofs.Acceptance

/-!
# The canonical form and layout

The canonical form of a text differs from the text only in its layout: in blanks, parentheses,
braces and semicolons. All other characters are the same, in the same order. So rendering loses
nothing that was read, and adds nothing to it.

## Main definitions

* `FrontEnd.isLayout`, `FrontEnd.withoutLayout` — layout, and a text without it.
* `FrontEnd.solid`, `FrontEnd.solids` — the other characters of a text, and of the literals of
  tokens.

## Main results

* `FrontEnd.ReadsStatements.solid_renderAll` — the solid characters of what is read are those of
  the tokens that were taken for it.
* `FrontEnd.withoutLayout_canonical` — the canonical form of a text differs from it in layout only.
-/

namespace FrontEnd

/-- The characters of layout: blanks, parentheses, braces and semicolons. -/
def isLayout (c : Char) : Bool :=
  c ∈ [' ', '\t', '\r', '\n', '(', ')', '{', '}', ';']

/-- The characters of a text that are no layout. -/
def solid (s : String) : List Char :=
  s.toList.filter fun c => !isLayout c

/-- A text without its layout. -/
def withoutLayout (s : String) : String :=
  String.ofList (solid s)

/-- The characters of the literals that are no layout, one literal after the other. -/
def solids (ts : List Token) : List Char :=
  ts.flatMap fun t => solid t.literal

@[simp]
theorem solid_append (s t : String) : solid (s ++ t) = solid s ++ solid t := by
  simp [solid]

@[simp]
theorem solids_nil : solids [] = [] := rfl

@[simp]
theorem solids_cons (t : Token) (ts : List Token) :
    solids (t :: ts) = solid t.literal ++ solids ts := rfl

/-- What rendering adds besides the texts of a tree. -/
theorem solid_layout : solid "(" = [] ∧ solid ")" = [] ∧ solid " " = [] ∧ solid ";" = [] ∧
    solid " = " = solid "=" ∧ solid "else " = solid "else" := by
  decide

theorem isLayout_of_isBlank {c : Char} (h : isBlank c = true) : isLayout c = true := by
  rcases eq_of_isBlank h with rfl | rfl | rfl | rfl <;> rfl

/-- The solid characters of the tokens of a text are those of the text. -/
theorem solids_lex (source : String) : solids (lex source.toList) = solid source := by
  have hfilter : solids (lex source.toList) =
      ((lex source.toList).flatMap fun t => t.literal.toList).filter fun c => !isLayout c := by
    rw [List.filter_flatMap]
    rfl
  rw [hfilter, flatMap_literal_lex, List.filter_filter, solid]
  refine List.filter_congr fun c _ => ?_
  cases hc : isBlank c with
  | false => simp
  | true => simp [isLayout_of_isBlank hc]

/-- The kinds of tokens that are layout. -/
def Kind.IsLayout (k : Kind) : Prop :=
  k ∈ [Kind.lparen, .rparen, .lbrace, .rbrace, .semicolon]

instance (k : Kind) : Decidable k.IsLayout :=
  inferInstanceAs (Decidable (k ∈ _))

/-- A genuine token of layout has no solid characters. -/
theorem Token.Genuine.solid_eq_nil {t : Token} (ht : t.Genuine) (hk : t.kind.IsLayout) :
    solid t.literal = [] := by
  have hlayout : ∀ k ∈ [Kind.lparen, .rparen, .lbrace, .rbrace, .semicolon],
      ∃ w, k.spelling? = some w ∧ solid w = [] := by decide
  obtain ⟨w, hw, hsolid⟩ := hlayout _ hk
  rw [ht.literal_eq rfl hw, hsolid]

theorem solids_cons_of_isLayout {t : Token} {ts : List Token} (hts : ∀ u ∈ t :: ts, u.Genuine)
    {k : Kind} (hk : t.kind = k) (hlayout : k.IsLayout := by decide) :
    solids (t :: ts) = solids ts := by
  subst hk
  rw [solids_cons, (hts t (by simp)).solid_eq_nil hlayout, List.nil_append]

/-- What closes a block is layout. -/
theorem solids_tail {ts : List Token} (hts : ∀ t ∈ ts, t.Genuine)
    (hfront : (front ts).kind ∈ [Kind.rbrace, .eof]) : solids ts.tail = solids ts := by
  cases ts with
  | nil => rfl
  | cons t ts =>
    have heof := (hts t (by simp)).kind_ne_eof
    have hbrace : t.kind = .rbrace := by simpa [heof] using hfront
    rw [solids_cons_of_isLayout hts hbrace, List.tail_cons]

theorem solids_afterSemicolon {ts : List Token} (hts : ∀ t ∈ ts, t.Genuine) :
    solids (afterSemicolon ts) = solids ts := by
  by_cases hsemi : (front ts).kind = .semicolon
  · cases ts with
    | nil => rfl
    | cons t ts =>
      rw [front_cons] at hsemi
      rw [afterSemicolon_cons hsemi, solids_cons_of_isLayout hts hsemi]
  · rw [afterSemicolon_of_ne hsemi]

/-! ### What is rendered was read -/

mutual

theorem ReadsExpression.solid_render : ∀ {b ts e rest}, ReadsExpression .standard b ts e rest →
    (∀ t ∈ ts, t.Genuine) → solid e.render ++ solids rest = solids ts
  | _, _, _, _, .intro hrule hleft hclimb, hts => by
    have hus := genuine_of_suffix_tail hts hleft.suffix
    rw [hclimb.solid_render hus, hleft.solid_render hrule hts]

theorem ReadsClimb.solid_render : ∀ {b left us e rest}, ReadsClimb .standard b left us e rest →
    (∀ t ∈ us, t.Genuine) → solid e.render ++ solids rest = solid left.render ++ solids us
  | _, _, _, _, _, .stop _, _ => rfl
  | _, _, _, _, _, .step _ hright hclimb, hus => by
    have hts := genuine_of_cons hus
    have hvs := genuine_of_suffix_tail hts hright.suffix
    have hright' := hright.solid_render hts
    rw [hclimb.solid_render hvs, solids_cons, ← hright']
    simp [Expr.render, solid_layout]

theorem ReadsLeading.solid_render : ∀ {r ts e rest}, ReadsLeading .standard r ts e rest →
    Grammar.standard.leading (front ts).kind = some r → (∀ t ∈ ts, t.Genuine) →
      solid e.render ++ solids rest = solids ts
  | _, _, _, _, .identifier, _, _ => by simp [Expr.render, Identifier.ofToken]
  | _, _, _, _, .integer _, _, _ => by simp [Expr.render]
  | _, _, _, _, .boolean, _, _ => by simp [Expr.render]
  | _, _, _, _, .unary hoperand, _, hts => by
    rw [solids_cons, ← hoperand.solid_render (genuine_of_cons hts)]
    simp [Expr.render, solid_layout]
  | _, _, _, _, .grouping hinner hclose, hrule, hts => by
    have hopen := Grammar.eq_lparen_of_leading hrule
    have hts' := genuine_of_cons hts
    have hus := genuine_of_suffix_tail hts' hinner.suffix
    rw [solids_cons_of_isLayout hts hopen, ← hinner.solid_render hts',
      solids_cons_of_isLayout hus hclose]
  | _, _, _, _, .conditional hopen hcondition hclose hbrace hblock _, hrule, hts => by
    rw [front_cons] at hrule
    have hkey := (hts _ (by simp)).literal_eq (Grammar.eq_ifKey_of_leading hrule) rfl
    have hos := genuine_of_cons hts
    have hts' := genuine_of_cons hos
    have hcs := genuine_of_suffix_tail hts' hcondition.suffix
    have hus := genuine_of_cons hcs
    rw [solids_cons, hkey, solids_cons_of_isLayout hos hopen,
      ← hcondition.solid_render hts', solids_cons_of_isLayout hcs hclose,
      ← hblock.solid_render hbrace hus]
    simp [Expr.render, solid_layout]
  | _, _, _, _, .alternative hopen hcondition hclose hbrace hblock helse hbrace' hblock', hrule,
      hts => by
    rw [front_cons] at hrule
    have hkey := (hts _ (by simp)).literal_eq (Grammar.eq_ifKey_of_leading hrule) rfl
    have hos := genuine_of_cons hts
    have hts' := genuine_of_cons hos
    have hcs := genuine_of_suffix_tail hts' hcondition.suffix
    have hus := genuine_of_cons hcs
    have hes := genuine_of_suffix_tail hus hblock.suffix
    have hvs := genuine_of_cons hes
    have hother := (hes _ (by simp)).literal_eq helse rfl
    rw [solids_cons, hkey, solids_cons_of_isLayout hos hopen, ← hcondition.solid_render hts',
      solids_cons_of_isLayout hcs hclose, ← hblock.solid_render hbrace hus, solids_cons, hother,
      ← hblock'.solid_render hbrace' hvs]
    simp [Expr.render, solid_layout]

theorem ReadsOpening.solid_render : ∀ {r ts s rest}, ReadsOpening .standard r ts s rest →
    (∀ t ∈ ts, t.Genuine) → solid s.render ++ solids rest = solids ts
  | _, _, _, _, .binding _ hassign hvalue, hts => by
    have hns := genuine_of_cons hts
    have has := genuine_of_cons hns
    have hts' := genuine_of_cons has
    have hrest := genuine_of_suffix_tail hts' hvalue.suffix
    have hmark := (has _ (by simp)).literal_eq hassign rfl
    rw [solids_afterSemicolon hrest, solids_cons, solids_cons, solids_cons, hmark,
      ← hvalue.solid_render hts']
    simp [Stmt.render, solid_layout, Identifier.ofToken]
  | _, _, _, _, .result hvalue, hts => by
    have hts' := genuine_of_cons hts
    have hrest := genuine_of_suffix_tail hts' hvalue.suffix
    rw [solids_afterSemicolon hrest, solids_cons, ← hvalue.solid_render hts']
    simp [Stmt.render, solid_layout]
  | _, _, _, _, .expression hexpr, hts => by
    have hrest := genuine_of_suffix_tail hts hexpr.suffix
    rw [solids_afterSemicolon hrest, Stmt.render, hexpr.solid_render hts]

theorem ReadsStatements.solid_renderAll : ∀ {stop ts ss rest},
    ReadsStatements .standard stop ts ss rest → (∀ t ∈ ts, t.Genuine) →
      solid (Stmt.renderAll ss) ++ solids rest = solids ts
  | _, _, _, _, .nil _, _ => rfl
  | _, _, _, _, .cons _ hfirst hothers, hts => by
    have hus := genuine_of_suffix_tail hts hfirst.suffix
    rw [Stmt.renderAll, solid_append, List.append_assoc, hothers.solid_renderAll hus,
      hfirst.solid_render hts]

theorem ReadsBlock.solid_render : ∀ {ts block rest}, ReadsBlock .standard ts block rest →
    (front ts).kind = .lbrace → (∀ t ∈ ts, t.Genuine) →
      solid block.render ++ solids rest = solids ts
  | _, _, _, .intro hbody, hbrace, hts => by
    have hts' := genuine_of_cons hts
    have hrest := genuine_of_suffix hts' hbody.suffix
    rw [solids_cons_of_isLayout hts hbrace, ← hbody.solid_renderAll hts', Block.render,
      solids_tail hrest hbody.front_mem]

end

/-- **The canonical form of a text differs from it in layout only.** -/
theorem withoutLayout_canonical {source r : String} (h : canonical source = .ok r) :
    withoutLayout r = withoutLayout source := by
  obtain ⟨herrors, rfl⟩ := canonical_eq_ok h
  obtain ⟨ss, hreads, hparse⟩ := reads_of_errors_eq_nil herrors
  have hsolid := hreads.solid_renderAll fun t => genuine_of_mem_lex
  rw [solids_nil, List.append_nil, solids_lex] at hsolid
  rw [hparse, Program.render, withoutLayout, withoutLayout, hsolid]

/-- A conditional whose last block is left open. Its canonical form has other blanks and parentheses
than the text, and no braces. -/
theorem withoutLayout_canonical_conditional :
    canonical "if (a < -1) \x7b let b = a; b \x7d else \x7b (c) - d * 2" =
      .ok "if(a < (-1)) let b = a;belse (c - (d * 2))" ∧
    withoutLayout "if(a < (-1)) let b = a;belse (c - (d * 2))" =
      withoutLayout "if (a < -1) \x7b let b = a; b \x7d else \x7b (c) - d * 2" := by
  have h : canonical "if (a < -1) \x7b let b = a; b \x7d else \x7b (c) - d * 2" =
      .ok "if(a < (-1)) let b = a;belse (c - (d * 2))" := by decide +kernel
  exact ⟨h, withoutLayout_canonical h⟩

end FrontEnd
