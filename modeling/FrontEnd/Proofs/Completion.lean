import FrontEnd.Proofs.Acceptance

/-!
# Completing what was read before an error

Whatever is read before the first error can be completed: some more tokens after it make it a phrase
that can be derived, whatever comes after them. An operand that is missing is filled in, and what is
open is closed from the inside out: parentheses, conditions and blocks.

## Main definitions

* `FrontEnd.Completable` — some tokens complete the phrase.

## Main results

* `FrontEnd.FaultsStatements.completable` — the tokens before the first error can be completed.
-/

namespace FrontEnd

open Derives

/-- The tokens `w` are the beginning of a phrase, which some more tokens complete. -/
def Completable (N : Phrase) (w : List Token) : Prop :=
  ∃ c, (∀ t ∈ c, t.Genuine) ∧ Complete N (w ++ c)

/-- A name to fill in where an operand is missing. -/
def Token.filler : Token :=
  ⟨.ident, "x"⟩

theorem Token.genuine_filler : Token.filler.Genuine := by
  have hne : "x" ≠ "" := by decide
  exact isLexeme_ofWord hne (List.all_eq_true.mp (by decide))

theorem genuine_braces (n : Nat) : ∀ t ∈ braces n, t.Genuine := by
  intro t ht
  rw [List.eq_of_mem_replicate ht]
  exact Token.genuine_ofKind rfl

/-! ### Phrases that can be completed -/

section Completable

variable {N M : Phrase} {t o close other brace : Token} {ts rest v v' w : List Token}

/-- A phrase that was derived can be completed. -/
theorem Derives.completable (h : Derives N ts rest) : ∃ w, ts = w ++ rest ∧ Completable N w := by
  obtain ⟨w, n, hw, -, hcomplete⟩ := h.closing
  exact ⟨w, hw, braces n, genuine_braces n, hcomplete⟩

/-- The beginning of a phrase is the beginning of a larger one, if the larger one has some tokens in
front and some more to complete it. -/
theorem Completable.extend (h : Completable N w) (v c : List Token) (hc : ∀ t ∈ c, t.Genuine)
    (hNM : ∀ ts rest, Derives N ts (c ++ rest) → Derives M (v ++ ts) rest) :
    Completable M (v ++ w) := by
  obtain ⟨c', hc', hw⟩ := h
  refine ⟨c' ++ c, genuine_append hc' hc, fun rest => ?_⟩
  have heq : (v ++ w ++ (c' ++ c)) ++ rest = v ++ ((w ++ c') ++ (c ++ rest)) := by simp
  rw [heq]
  exact hNM _ _ (hw (c ++ rest))

theorem Completable.mono (h : Completable N w) (v : List Token)
    (hNM : ∀ ts rest, Derives N ts rest → Derives M (v ++ ts) rest) : Completable M (v ++ w) :=
  h.extend v [] (by simp) hNM

theorem completable_expression : Completable .expression [] :=
  ⟨[.filler], by simpa using Token.genuine_filler, fun _ => .operand (.atom (.identifier rfl))⟩

theorem completable_operand : Completable .operand [] :=
  ⟨[.filler], by simpa using Token.genuine_filler, fun _ => .atom (.identifier rfl)⟩

theorem completable_block : Completable .block [] :=
  ⟨[.ofKind .lbrace, .ofKind .rbrace], genuine_cons_ofKind rfl (genuine_cons_ofKind rfl (by simp)),
    fun _ => .closed rfl .nil rfl⟩

theorem Completable.block (h : Completable .statements v) (hbrace : brace.kind = .lbrace) :
    Completable .block (brace :: v) :=
  h.extend [brace] [.ofKind .rbrace] (genuine_cons_ofKind rfl (by simp)) fun _ _ hbody =>
    .closed hbrace hbody rfl

/-- An expression after an opening parenthesis. -/
theorem Completable.grouping (h : Completable .expression w) (hopen : o.kind = .lparen) :
    Completable .operand (o :: w) :=
  h.extend [o] [.ofKind .rparen] (genuine_cons_ofKind rfl (by simp)) fun _ _ hinner =>
    .atom (.grouping hopen hinner rfl)

/-- The condition of a conditional. -/
theorem Completable.condition (h : Completable .expression w) (hkey : t.kind = .ifKey)
    (hopen : o.kind = .lparen) : Completable .operand (t :: o :: w) := by
  refine h.extend [t, o] [.ofKind .rparen, .ofKind .lbrace, .ofKind .rbrace] ?_ ?_
  · exact genuine_cons_ofKind rfl (genuine_cons_ofKind rfl (genuine_cons_ofKind rfl (by simp)))
  · intro ts rest hcondition
    exact .atom (.conditional hkey hopen hcondition rfl (.closed rfl .nil rfl))

theorem completable_conditional (hkey : t.kind = .ifKey) : Completable .operand [t] := by
  obtain ⟨c, hc, hcomplete⟩ := completable_expression.condition hkey (o := .ofKind .lparen) rfl
  exact ⟨.ofKind .lparen :: c, genuine_cons_ofKind rfl hc, hcomplete⟩

theorem completable_assign (hkey : t.kind = .letKey) (hname : o.kind = .ident) :
    Completable .statement [t, o] :=
  ⟨[.ofKind .assign, .filler], genuine_cons_ofKind rfl (by simpa using Token.genuine_filler),
    fun _ => .bare (.binding hkey hname rfl (.operand (.atom (.identifier rfl))))⟩

theorem completable_binding (hkey : t.kind = .letKey) : Completable .statement [t] := by
  obtain ⟨c, hc, hcomplete⟩ := completable_assign hkey (o := .filler) rfl
  exact ⟨.filler :: c, genuine_cons Token.genuine_filler hc, hcomplete⟩

/-- The first block of a conditional, after a condition. -/
theorem Completable.consequence (h : Completable .block v) (hkey : t.kind = .ifKey)
    (hopen : o.kind = .lparen) (hcondition : Complete .expression w)
    (hclose : close.kind = .rparen) : Completable .operand (t :: o :: (w ++ close :: v)) := by
  have hmono := h.mono (M := .operand) (t :: o :: (w ++ [close])) fun ts rest hblock => by
    simpa using Derives.atom (.conditional hkey hopen (hcondition (close :: ts)) hclose hblock)
  simpa using hmono

/-- The second block of a conditional, after a condition and a block. -/
theorem Completable.alternative (h : Completable .block v') (hkey : t.kind = .ifKey)
    (hopen : o.kind = .lparen) (hcondition : Complete .expression w) (hclose : close.kind = .rparen)
    (hblock : Complete .block v) (helse : other.kind = .elseKey) :
    Completable .operand (t :: o :: (w ++ close :: (v ++ other :: v'))) := by
  have hmono := h.mono (M := .operand) (t :: o :: (w ++ close :: (v ++ [other])))
    fun ts rest hblock' => by
      simpa using Derives.atom (.alternative hkey hopen (hcondition (close :: (v ++ other :: ts)))
        hclose (hblock (other :: ts)) helse hblock')
  simpa using hmono

end Completable

/-! ### What was read before an error -/

theorem FaultsClimb.ne_nil {g : Grammar} {b : Power} {ts us : List Token} {err : ParseError}
    (h : FaultsClimb g b ts us err) : ts ≠ [] := by
  cases h <;> simp

theorem FaultsClimb.ne_unary {b : Power} {ts us : List Token} {err : ParseError}
    (h : FaultsClimb .standard b ts us err) : b ≠ .unary := by
  rintro rfl
  cases h with
  | operand hop => exact Grammar.not_continues_unary _ hop
  | later hop => exact Grammar.not_continues_unary _ hop

theorem FaultsStatements.ne_nil {g : Grammar} {stop : List Kind} {ts us : List Token}
    {err : ParseError} (h : FaultsStatements g stop ts us err) : ts ≠ [] := by
  cases h <;> simp

theorem Derives.Complete.join {op : Token} {v w : List Token} (hv : Complete .expression v)
    (hop : op.kind.IsOperator) (hw : Complete .expression w) :
    Complete .expression (v ++ op :: w) := by
  intro rest
  rw [List.append_assoc]
  exact (hv _).join hop (hw rest)

theorem Derives.Complete.completable_append {op : Token} {v w : List Token}
    (hv : Complete .expression v) (hop : op.kind.IsOperator) (hw : Completable .expression w) :
    Completable .expression (v ++ op :: w) := by
  have hmono := hw.mono (M := .expression) (v ++ [op]) fun ts rest h => by
    simpa using (hv (op :: ts)).join hop h
  simpa using hmono

mutual

/-- After an operator in front, what was read is the beginning of one operand. -/
theorem FaultsExpression.completable : ∀ {b ts us err}, FaultsExpression .standard b ts us err →
    (∀ t ∈ ts, t.Genuine) →
      ∃ w, ts = w ++ us ∧ Completable .expression w ∧ (b = .unary → Completable .operand w)
  | _, _, _, _, .noRule _, _ => ⟨[], rfl, completable_expression, fun _ => completable_operand⟩
  | _, _, _, _, .leading hrule hleft, hts => by
    obtain ⟨w, hw, hcompletable⟩ := hleft.completable hrule hts
    exact ⟨w, hw, hcompletable.mono [] fun _ _ => .operand, fun _ => hcompletable⟩
  | _, _, _, _, .climb hrule hleft hclimb, hts => by
    have hvs := genuine_of_suffix_tail hts hleft.suffix
    obtain ⟨w, hw, hcomplete⟩ := (hleft.derives hrule hts).complete hclimb.ne_nil
    obtain ⟨v, rfl, hcompletable⟩ := hclimb.completable hvs
    refine ⟨w ++ v, by rw [hw, List.append_assoc], ?_, fun hb => absurd hb hclimb.ne_unary⟩
    exact hcompletable w fun rest => .operand (hcomplete rest)

/-- After a complete expression, an operator and what was read after it. -/
theorem FaultsClimb.completable : ∀ {b ts us err}, FaultsClimb .standard b ts us err →
    (∀ t ∈ ts, t.Genuine) →
      ∃ w, ts = w ++ us ∧ ∀ v, Complete .expression v → Completable .expression (v ++ w)
  | _, _, _, _, .operand hop hright, hts => by
    have hop' := (Grammar.continues_standard.mp hop).1
    obtain ⟨w, rfl, hw, -⟩ := hright.completable (genuine_of_cons hts)
    exact ⟨_ :: w, rfl, fun v hv => hv.completable_append hop' hw⟩
  | _, _, _, _, .later hop hright hclimb, hts => by
    have hop' := (Grammar.continues_standard.mp hop).1
    have hts' := genuine_of_cons hts
    have hvs := genuine_of_suffix_tail hts' hright.suffix
    obtain ⟨w, rfl, hw⟩ := (hright.derives hts').1.complete hclimb.ne_nil
    obtain ⟨w', rfl, hw'⟩ := hclimb.completable hvs
    refine ⟨_ :: (w ++ w'), congrArg (_ :: ·) (List.append_assoc w w' _).symm, fun v hv => ?_⟩
    simpa using hw' _ (hv.join hop' hw)

theorem FaultsLeading.completable : ∀ {r ts us err}, FaultsLeading .standard r ts us err →
    Grammar.standard.leading (front ts).kind = some r → (∀ t ∈ ts, t.Genuine) →
      ∃ w, ts = w ++ us ∧ Completable .operand w
  | _, _, _, _, .integer _, _, _ => ⟨[], rfl, completable_operand⟩
  | _, _, _, _, .unary hoperand, hrule, hts => by
    have hop := Grammar.leading_standard.mp hrule
    obtain ⟨w, rfl, -, hw⟩ := hoperand.completable (genuine_of_cons hts)
    refine ⟨_ :: w, rfl, (hw rfl).mono [_] fun _ _ h => .unary ?_ h⟩
    simpa [LeadingRule.kinds] using hop
  | _, _, _, _, .grouping hinner, hrule, hts => by
    obtain ⟨w, rfl, hw, -⟩ := hinner.completable (genuine_of_cons hts)
    exact ⟨_ :: w, rfl, hw.grouping (Grammar.eq_lparen_of_leading hrule)⟩
  | _, _, _, _, .unclosed hinner _, hrule, hts => by
    have hts' := genuine_of_cons hts
    obtain ⟨w, rfl, hw⟩ := (hinner.derives hts').1.completable
    exact ⟨_ :: w, rfl, hw.grouping (Grammar.eq_lparen_of_leading hrule)⟩
  | _, _, _, _, .noCondition _, hrule, _ => by
    exact ⟨[_], rfl, completable_conditional (Grammar.eq_ifKey_of_leading hrule)⟩
  | _, _, _, _, .condition hopen hcondition, hrule, hts => by
    have hts' := genuine_of_cons (genuine_of_cons hts)
    obtain ⟨w, rfl, hw, -⟩ := hcondition.completable hts'
    exact ⟨_ :: _ :: w, rfl, hw.condition (Grammar.eq_ifKey_of_leading hrule) hopen⟩
  | _, _, _, _, .unclosedCondition hopen hcondition _, hrule, hts => by
    have hts' := genuine_of_cons (genuine_of_cons hts)
    obtain ⟨w, rfl, hw⟩ := (hcondition.derives hts').1.completable
    exact ⟨_ :: _ :: w, rfl, hw.condition (Grammar.eq_ifKey_of_leading hrule) hopen⟩
  | _, _, _, _, .noBlock hopen hcondition hclose _, hrule, hts => by
    have hts' := genuine_of_cons (genuine_of_cons hts)
    obtain ⟨w, rfl, hw⟩ := (hcondition.derives hts').1.complete (by simp)
    have hkey := Grammar.eq_ifKey_of_leading hrule
    exact ⟨_, by simp, completable_block.consequence hkey hopen hw hclose⟩
  | _, _, _, _, .block hopen hcondition hclose hbrace hblock, hrule, hts => by
    have hts' := genuine_of_cons (genuine_of_cons hts)
    have hvs := genuine_of_suffix_tail hts' hcondition.suffix
    obtain ⟨w, rfl, hw⟩ := (hcondition.derives hts').1.complete (by simp)
    obtain ⟨v, rfl, hv⟩ := hblock.completable
      (genuine_of_cons (genuine_of_cons hvs))
    have hkey := Grammar.eq_ifKey_of_leading hrule
    exact ⟨_, by simp, (hv.block hbrace).consequence hkey hopen hw hclose⟩
  | _, _, _, _, .noAlternative hopen hcondition hclose hbrace hblock helse _, hrule, hts => by
    have hts' := genuine_of_cons (genuine_of_cons hts)
    have hvs := genuine_of_suffix_tail hts' hcondition.suffix
    have hblock' := hblock.derives hbrace (genuine_of_cons hvs)
    obtain ⟨w, rfl, hw⟩ := (hcondition.derives hts').1.complete (by simp)
    obtain ⟨v, hv, hfirst⟩ := hblock'.complete (by simp)
    have hkey := Grammar.eq_ifKey_of_leading hrule
    exact ⟨_, by simp [hv], completable_block.alternative hkey hopen hw hclose hfirst helse⟩
  | _, _, _, _, .alternative hopen hcondition hclose hbrace hblock helse hbrace' hblock', hrule,
      hts => by
    have hts' := genuine_of_cons (genuine_of_cons hts)
    have hvs := genuine_of_suffix_tail hts' hcondition.suffix
    have hvs' := genuine_of_cons hvs
    have hws := genuine_of_suffix_tail hvs' hblock.suffix
    have hblock'' := hblock.derives hbrace hvs'
    obtain ⟨w, rfl, hw⟩ := (hcondition.derives hts').1.complete (by simp)
    obtain ⟨v, hv, hfirst⟩ := hblock''.complete (by simp)
    obtain ⟨v', rfl, hsecond⟩ := hblock'.completable
      (genuine_of_cons (genuine_of_cons hws))
    have hkey := Grammar.eq_ifKey_of_leading hrule
    exact ⟨_, by simp [hv], (hsecond.block hbrace').alternative hkey hopen hw hclose hfirst helse⟩

theorem FaultsOpening.completable : ∀ {r ts us err}, FaultsOpening .standard r ts us err →
    (Grammar.standard.statement (front ts).kind).getD .expression = r → (∀ t ∈ ts, t.Genuine) →
      ∃ w, ts = w ++ us ∧ Completable .statement w
  | _, _, _, _, .noName _, hrule, _ => by
    have hkey := Grammar.statement_standard_eq_binding.mp hrule
    exact ⟨[_], rfl, completable_binding hkey⟩
  | _, _, _, _, .noAssign hname _, hrule, _ => by
    have hkey := Grammar.statement_standard_eq_binding.mp hrule
    exact ⟨[_, _], rfl, completable_assign hkey hname⟩
  | _, _, _, _, .binding hname hassign hvalue, hrule, hts => by
    have hkey := Grammar.statement_standard_eq_binding.mp hrule
    have hts' := genuine_of_cons (genuine_of_cons (genuine_of_cons hts))
    obtain ⟨w, rfl, hw, -⟩ := hvalue.completable hts'
    exact ⟨_ :: _ :: _ :: w, rfl,
      hw.mono [_, _, _] fun _ _ h => .bare (.binding hkey hname hassign h)⟩
  | _, _, _, _, .result hvalue, hrule, hts => by
    have hkey := Grammar.statement_standard_eq_result.mp hrule
    obtain ⟨w, rfl, hw, -⟩ := hvalue.completable (genuine_of_cons hts)
    exact ⟨_ :: w, rfl, hw.mono [_] fun _ _ h => .bare (.result hkey h)⟩
  | _, _, _, _, .expression hexpr, _, hts => by
    obtain ⟨w, hw, hcompletable, -⟩ := hexpr.completable hts
    exact ⟨w, hw, hcompletable.mono [] fun _ _ h => .bare (.expression h)⟩

/-- **The tokens before the first error can be completed.** -/
theorem FaultsStatements.completable : ∀ {stop ts us err},
    FaultsStatements .standard stop ts us err → (∀ t ∈ ts, t.Genuine) →
      ∃ w, ts = w ++ us ∧ Completable .statements w
  | _, _, _, _, .first _ hfirst, hts => by
    obtain ⟨w, hw, hcompletable⟩ := hfirst.completable rfl hts
    exact ⟨w, hw, hcompletable.mono [] fun _ _ h => .cons h .nil⟩
  | _, _, _, _, .later _ hfirst hothers, hts => by
    have hvs := genuine_of_suffix_tail hts hfirst.suffix
    obtain ⟨w, hw, hcomplete⟩ := (hfirst.derives rfl hts).complete hothers.ne_nil
    obtain ⟨v, rfl, hcompletable⟩ := hothers.completable hvs
    refine ⟨w ++ v, by rw [hw, List.append_assoc], ?_⟩
    exact hcompletable.mono w fun ts _ h => .cons (hcomplete ts) h

end

end FrontEnd
