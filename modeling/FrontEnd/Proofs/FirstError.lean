import FrontEnd.Proofs.Completion
import FrontEnd.Proofs.Lookahead

/-!
# The place of the first error

The first error of a text is at the earliest token possible. The tokens before it could have been
the beginning of a text without errors, but together with the token that the error speaks of they
could not. The error tells the kind of this token.

## Main definitions

* `FrontEnd.ParseError.Names` — the token that an error speaks of.
* `FrontEnd.IsEarliestError` — an error at the earliest token possible.

## Main results

* `FrontEnd.firstError_earliest` — the first error is at the earliest token possible.
-/

namespace FrontEnd

/-- The error tells the kind of the token, or the literal if the token is a number. -/
def ParseError.Names : ParseError → Token → Prop
  | .noExpression kind, t => kind = t.kind
  | .unexpected _ found, t => found = t.kind
  | .badInteger literal, t => t.kind = .int ∧ literal = t.literal

/-! ### The first error names the token that it speaks of -/

mutual

theorem FaultsExpression.names : ∀ {b ts us err}, FaultsExpression .standard b ts us err →
    err.Names (front us)
  | _, _, _, _, .noRule _ => rfl
  | _, _, _, _, .leading hrule hleft => hleft.names hrule
  | _, _, _, _, .climb _ _ hclimb => hclimb.names

theorem FaultsClimb.names : ∀ {b ts us err}, FaultsClimb .standard b ts us err →
    err.Names (front us)
  | _, _, _, _, .operand _ hright => hright.names
  | _, _, _, _, .later _ _ hclimb => hclimb.names

theorem FaultsLeading.names : ∀ {r ts us err}, FaultsLeading .standard r ts us err →
    Grammar.standard.leading (front ts).kind = some r → err.Names (front us)
  | _, _, _, _, .integer _, hrule =>
    ⟨by simpa [LeadingRule.kinds] using Grammar.leading_standard.mp hrule, rfl⟩
  | _, _, _, _, .unary hoperand, _ => hoperand.names
  | _, _, _, _, .grouping hinner, _ => hinner.names
  | _, _, _, _, .unclosed _ _, _ => rfl
  | _, _, _, _, .noCondition _, _ => rfl
  | _, _, _, _, .condition _ hcondition, _ => hcondition.names
  | _, _, _, _, .unclosedCondition _ _ _, _ => rfl
  | _, _, _, _, .noBlock _ _ _ _, _ => rfl
  | _, _, _, _, .block _ _ _ _ hblock, _ => hblock.names
  | _, _, _, _, .noAlternative _ _ _ _ _ _ _, _ => rfl
  | _, _, _, _, .alternative _ _ _ _ _ _ _ hblock', _ => hblock'.names

theorem FaultsOpening.names : ∀ {r ts us err}, FaultsOpening .standard r ts us err →
    err.Names (front us)
  | _, _, _, _, .noName _ => rfl
  | _, _, _, _, .noAssign _ _ => rfl
  | _, _, _, _, .binding _ _ hvalue => hvalue.names
  | _, _, _, _, .result hvalue => hvalue.names
  | _, _, _, _, .expression hexpr => hexpr.names

theorem FaultsStatements.names : ∀ {stop ts us err}, FaultsStatements .standard stop ts us err →
    err.Names (front us)
  | _, _, _, _, .first _ hfirst => hfirst.names
  | _, _, _, _, .later _ _ hothers => hothers.names

end

/-! ### The place of the first error -/

/-- Texts whose tokens begin in the same way up to some token, which may be the end token, agree up
to this token. -/
theorem exists_append_of_prefix {w us : List Token} {source : String}
    (h : w ++ [front us] <+: tokenize source) (hus : ∀ t ∈ us, t.Genuine) :
    ∃ us', lex source.toList = w ++ us' ∧ us'.head? = us.head? := by
  rw [tokenize_eq, List.prefix_concat_iff] at h
  rcases h with heq | ⟨post, hpost⟩
  · obtain ⟨rfl, hfront⟩ := List.append_inj' heq rfl
    cases us with
    | nil => exact ⟨[], by simp, rfl⟩
    | cons t us =>
      obtain rfl := List.singleton_inj.mp hfront
      exact absurd rfl (hus Token.eof (by simp)).kind_ne_eof
  · rw [List.append_assoc] at hpost
    refine ⟨front us :: post, hpost.symm, ?_⟩
    have hmem : front us ∈ lex source.toList := by simp [← hpost]
    cases us with
    | nil => exact absurd rfl (genuine_of_mem_lex hmem).kind_ne_eof
    | cons t us => rfl

/-- Tokens that can be completed are those at the beginning of a text without errors. -/
theorem Completable.exists_source {w : List Token} (h : Completable .statements w)
    (hw : ∀ t ∈ w, t.Genuine) :
    ∃ source, w <+: tokenize source ∧ (parse source).errors = [] := by
  obtain ⟨c, hc, hcomplete⟩ := h
  have hlex : lex (spaced (w ++ c)).toList = w ++ c := lex_spaced (genuine_append hw hc)
  refine ⟨spaced (w ++ c), ?_, errors_eq_nil_of_derives ?_⟩
  · rw [tokenize_eq, hlex, List.append_assoc]
    exact List.prefix_append w _
  · rw [hlex]
    simpa using hcomplete []

/-- The error `err` at the token with the index `p` of a text is at the earliest token possible. -/
structure IsEarliestError (source : String) (p : Nat) (err : ParseError) : Prop where
  /-- There is a token at the place, and the error names it. -/
  names : ∃ t, (tokenize source)[p]? = some t ∧ err.Names t
  /-- Some text without errors begins with the tokens before it. -/
  viable : ∃ source', (tokenize source).take p <+: tokenize source' ∧ (parse source').errors = []
  /-- No text without errors begins with the tokens up to it. -/
  hopeless : ∀ source', (tokenize source).take (p + 1) <+: tokenize source' →
    (parse source').errors ≠ []

theorem FaultsStatements.isEarliestError {source : String} {us w : List Token} {err : ParseError}
    (h : FaultsStatements .standard [.eof] (lex source.toList) us err)
    (hw : lex source.toList = w ++ us) : IsEarliestError source w.length err := by
  have hgenuine : ∀ t ∈ w ++ us, t.Genuine := hw ▸ fun t => genuine_of_mem_lex
  have htokens : tokenize source = w ++ (us ++ [Token.eof]) := by
    rw [tokenize_eq, hw, List.append_assoc]
  refine ⟨⟨front us, ?_, h.names⟩, ?_, fun source' hprefix => ?_⟩
  · rw [htokens, List.getElem?_append_right le_rfl, Nat.sub_self]
    cases us <;> rfl
  · obtain ⟨v, hv, hcompletable⟩ := h.completable fun t => genuine_of_mem_lex
    obtain rfl : w = v := List.append_cancel_right (hw.symm.trans hv)
    rw [htokens, List.take_left]
    exact hcompletable.exists_source fun t ht => hgenuine t (by simp [ht])
  · have htake : (tokenize source).take (w.length + 1) = w ++ [front us] := by
      rw [htokens, List.take_length_add_append]
      cases us <;> rfl
    rw [htake] at hprefix
    obtain ⟨us', hlex, hhead⟩ :=
      exists_append_of_prefix hprefix fun t ht => hgenuine t (by simp [ht])
    obtain ⟨v, hv, hlooks⟩ := h.looksAhead
    obtain rfl : w = v := List.append_cancel_right (hw.symm.trans hv)
    exact errors_ne_nil_of_faults (hlex ▸ hlooks us' hhead)

/-- **The first error is at the earliest token possible.** Some text without errors begins with the
tokens before the one that the first error speaks of, but none begins with these and that token. The
error tells the kind of the token. If it is the end token, then the tokens of the text are those at
the beginning of a text without errors, but no text without errors has just these. -/
theorem firstError_earliest {source : String} (h : (parse source).errors ≠ []) :
    ∃ p err others, locatedErrors source = (p, err) :: others ∧
      (parse source).errors.head? = some err ∧ IsEarliestError source p err := by
  obtain ⟨us, err, hfaults⟩ := faults_of_errors_ne_nil h
  obtain ⟨others, hlocated⟩ := locatedErrors_of_faults hfaults
  obtain ⟨w, hw, -⟩ := hfaults.looksAhead
  have hp : (lex source.toList).length - us.length = w.length := by simp [hw]
  rw [hp] at hlocated
  refine ⟨w.length, err, others, hlocated, ?_, hfaults.isEarliestError hw⟩
  rw [← map_snd_locatedErrors, hlocated]
  rfl

/-- The operand that is missing in front of a semicolon comes before the parenthesis that is not
closed. -/
theorem firstError_earliest_missing_operand : (parse "let a = (b - ; c").errors ≠ [] ∧
    ∃ others, locatedErrors "let a = (b - ; c" = (6, .noExpression .semicolon) :: others ∧
      (parse "let a = (b - ; c").errors.head? = some (.noExpression .semicolon) ∧
      IsEarliestError "let a = (b - ; c" 6 (.noExpression .semicolon) := by
  have h : (parse "let a = (b - ; c").errors ≠ [] := by decide +kernel
  obtain ⟨p, err, others, hlocated, hhead, hearliest⟩ := firstError_earliest h
  have hfirst : (locatedErrors "let a = (b - ; c").head? = some (6, .noExpression .semicolon) := by
    decide +kernel
  rw [hlocated, List.head?_cons] at hfirst
  obtain ⟨rfl, rfl⟩ := Prod.mk.inj (Option.some.inj hfirst)
  exact ⟨h, others, hlocated, hhead, hearliest⟩

end FrontEnd
