import FrontEnd.Proofs.Fault

/-!
# One token of lookahead

A reading looks at most one token past what it takes off the tokens. So the tokens after that one
can be exchanged: the same is read from the changed tokens, and what is left of them is changed in
the same way. The first error of a reading also depends only on the tokens up to the one that it
speaks of.

## Main definitions

* `FrontEnd.LooksAhead` — a relation between tokens and what is left of them that looks at most one
  token past what it takes.

## Main results

* `FrontEnd.ReadsStatements.looksAhead`, `FrontEnd.FaultsStatements.looksAhead` and the same for the
  other relations — readings look at most one token past what they take.
-/

namespace FrontEnd

variable {P Q : List Token → List Token → Prop} {ts us rest rest' : List Token}

theorem front_eq_of_head?_eq (h : us.head? = ts.head?) : front us = front ts := by
  cases us <;> cases ts <;> simp_all

theorem head?_append_congr (w : List Token) (h : rest'.head? = rest.head?) :
    (w ++ rest').head? = (w ++ rest).head? := by
  rw [List.head?_append, List.head?_append, h]

/-- The relation `P` holds between `ts` and what is left of it, `rest`, and goes on to hold if the
tokens after the first one of `rest` are exchanged. -/
def LooksAhead (P : List Token → List Token → Prop) (ts rest : List Token) : Prop :=
  ∃ w, ts = w ++ rest ∧ ∀ rest', rest'.head? = rest.head? → P (w ++ rest') rest'

namespace LooksAhead

/-- Nothing is taken. -/
theorem refl (h : ∀ rest', rest'.head? = rest.head? → P rest' rest') : LooksAhead P rest rest :=
  ⟨[], rfl, h⟩

theorem mono (h : LooksAhead P ts rest)
    (hPQ : ∀ ts' rest', front rest' = front rest → P ts' rest' → Q ts' rest') :
    LooksAhead Q ts rest := by
  obtain ⟨w, rfl, hP⟩ := h
  exact ⟨w, rfl, fun rest' hhead =>
    hPQ _ _ (front_eq_of_head?_eq hhead) (hP rest' hhead)⟩

/-- As long as something is left, more tokens can come after it. -/
theorem append (h : LooksAhead P ts rest) (hrest : rest ≠ []) (us : List Token) :
    P (ts ++ us) (rest ++ us) := by
  obtain ⟨w, rfl, hP⟩ := h
  rw [List.append_assoc]
  exact hP (rest ++ us) (by rw [List.head?_append_of_ne_nil rest hrest])

/-- The token at the front stays there. -/
theorem atFront {t : Token} (h : LooksAhead P (t :: ts) rest) :
    LooksAhead (fun ts' rest' => ∃ us, ts' = t :: us ∧ P (t :: us) rest') (t :: ts) rest := by
  obtain ⟨w, hw, hP⟩ := h
  refine ⟨w, hw, fun rest' hhead => ?_⟩
  have hcons := head?_append_congr w hhead
  rw [← hw, List.head?_cons] at hcons
  obtain ⟨us, hus⟩ := List.head?_eq_some_iff.mp hcons
  exact ⟨us, hus, hus ▸ hP rest' hhead⟩

/-- One relation after the other. -/
theorem trans (h : LooksAhead P ts us) (k : LooksAhead Q us rest) :
    LooksAhead (fun ts rest => ∃ us, P ts us ∧ Q us rest) ts rest := by
  obtain ⟨w, rfl, hP⟩ := h
  obtain ⟨v, rfl, hQ⟩ := k
  refine ⟨w ++ v, (List.append_assoc w v rest).symm, fun rest' hhead => ⟨v ++ rest', ?_, ?_⟩⟩
  · rw [List.append_assoc]
    exact hP _ (head?_append_congr v hhead)
  · exact hQ rest' hhead

/-- One more token in front. -/
theorem cons (t : Token) (h : LooksAhead P ts rest) :
    LooksAhead (fun ts rest => ∃ us, ts = t :: us ∧ P us rest) (t :: ts) rest := by
  obtain ⟨w, rfl, hP⟩ := h
  exact ⟨t :: w, rfl, fun rest' hhead => ⟨w ++ rest', rfl, hP rest' hhead⟩⟩

/-- One token less is left. -/
theorem dropFront {t : Token} (h : LooksAhead P ts (t :: rest)) :
    LooksAhead (fun ts rest => P ts (t :: rest)) ts rest := by
  obtain ⟨w, rfl, hP⟩ := h
  refine ⟨w ++ [t], by simp, fun rest' _ => ?_⟩
  rw [List.append_assoc, List.singleton_append]
  exact hP (t :: rest') rfl

/-- One token less is left, if there is one. -/
theorem tail (h : LooksAhead P ts rest) :
    LooksAhead (fun ts rest => ∃ us, P ts us ∧ rest = us.tail) ts rest.tail := by
  cases rest with
  | nil =>
    obtain ⟨w, rfl, hP⟩ := h
    refine ⟨w, rfl, fun rest' hhead => ⟨rest', hP rest' hhead, ?_⟩⟩
    rw [List.head?_eq_none_iff.mp hhead, List.tail_nil]
  | cons t rest => exact h.dropFront.mono fun _ _ _ hP => ⟨_, hP, rfl⟩

/-- A semicolon less is left, if there is one. -/
theorem afterSemicolon (h : LooksAhead P ts rest) :
    LooksAhead (fun ts rest => ∃ us, P ts us ∧ rest = afterSemicolon us) ts
      (afterSemicolon rest) := by
  by_cases hsemi : (front rest).kind = .semicolon
  · have hrest := eq_front_cons_tail rest (by simp [hsemi])
    rw [hrest] at h ⊢
    rw [afterSemicolon_cons hsemi]
    refine h.dropFront.mono fun ts' rest' _ hP => ⟨_, hP, ?_⟩
    rw [afterSemicolon_cons hsemi]
  · rw [afterSemicolon_of_ne hsemi]
    refine h.mono fun ts' rest' hfront hP => ⟨rest', hP, ?_⟩
    rw [afterSemicolon_of_ne (by rwa [hfront])]

end LooksAhead

/-! ### Readings without errors -/

section Reads

variable {g : Grammar}

mutual

theorem ReadsExpression.looksAhead : ∀ {b ts e rest}, ReadsExpression g b ts e rest →
    LooksAhead (fun ts rest => ReadsExpression g b ts e rest) ts rest
  | _, _, _, _, .intro hrule hleft hclimb => by
    refine (hleft.looksAhead.trans hclimb.looksAhead).atFront.mono ?_
    rintro _ _ - ⟨_, rfl, _, hleft, hclimb⟩
    exact .intro hrule hleft hclimb

theorem ReadsClimb.looksAhead : ∀ {b left ts e rest}, ReadsClimb g b left ts e rest →
    LooksAhead (fun ts rest => ReadsClimb g b left ts e rest) ts rest
  | _, _, _, _, _, .stop hstop =>
    .refl fun rest' hhead => .stop (by rwa [front_eq_of_head?_eq hhead])
  | _, _, _, _, _, .step hop hright hclimb => by
    refine ((hright.looksAhead.trans hclimb.looksAhead).cons _).mono ?_
    rintro _ _ - ⟨_, rfl, _, hright, hclimb⟩
    exact .step hop hright hclimb

theorem ReadsLeading.looksAhead : ∀ {r ts e rest}, ReadsLeading g r ts e rest →
    LooksAhead (fun ts rest => ReadsLeading g r ts e rest) ts rest
  | _, _, _, _, .identifier => ⟨[_], rfl, fun _ _ => .identifier⟩
  | _, _, _, _, .integer hvalue => ⟨[_], rfl, fun _ _ => .integer hvalue⟩
  | _, _, _, _, .boolean => ⟨[_], rfl, fun _ _ => .boolean⟩
  | _, _, _, _, .unary hoperand => by
    refine (hoperand.looksAhead.cons _).mono ?_
    rintro _ _ - ⟨_, rfl, hoperand⟩
    exact .unary hoperand
  | _, _, _, _, .grouping hinner hclose => by
    refine (hinner.looksAhead.dropFront.cons _).mono ?_
    rintro _ _ - ⟨_, rfl, hinner⟩
    exact .grouping hinner hclose
  | _, _, _, _, .conditional hopen hcondition hclose hbrace hblock helse => by
    have hlooks := hcondition.looksAhead.dropFront.trans hblock.looksAhead.atFront
    refine ((hlooks.cons _).cons _).mono ?_
    rintro _ rest' hrest ⟨_, rfl, _, rfl, _, hcondition, _, rfl, hblock⟩
    exact .conditional hopen hcondition hclose hbrace hblock (by rwa [hrest])
  | _, _, _, _, .alternative hopen hcondition hclose hbrace hblock helse hbrace' hblock' => by
    have hblocks := hblock.looksAhead.atFront.dropFront.trans hblock'.looksAhead.atFront
    have hlooks := hcondition.looksAhead.dropFront.trans hblocks
    refine ((hlooks.cons _).cons _).mono ?_
    rintro _ _ - ⟨_, rfl, _, rfl, _, hcondition, _, ⟨_, rfl, hblock⟩, _, rfl, hblock'⟩
    exact .alternative hopen hcondition hclose hbrace hblock helse hbrace' hblock'

theorem ReadsOpening.looksAhead : ∀ {r ts s rest}, ReadsOpening g r ts s rest →
    LooksAhead (fun ts rest => ReadsOpening g r ts s rest) ts rest
  | _, _, _, _, .binding hname hassign hvalue => by
    refine (((hvalue.looksAhead.afterSemicolon.cons _).cons _).cons _).mono ?_
    rintro _ _ - ⟨_, rfl, _, rfl, _, rfl, _, hvalue, rfl⟩
    exact .binding hname hassign hvalue
  | _, _, _, _, .result hvalue => by
    refine (hvalue.looksAhead.afterSemicolon.cons _).mono ?_
    rintro _ _ - ⟨_, rfl, _, hvalue, rfl⟩
    exact .result hvalue
  | _, _, _, _, .expression hexpr => by
    refine hexpr.looksAhead.afterSemicolon.atFront.mono ?_
    rintro _ _ - ⟨_, rfl, _, hexpr, rfl⟩
    exact .expression hexpr

theorem ReadsStatements.looksAhead : ∀ {stop ts ss rest}, ReadsStatements g stop ts ss rest →
    LooksAhead (fun ts rest => ReadsStatements g stop ts ss rest) ts rest
  | _, _, _, _, .nil hstop => .refl fun rest' hhead => .nil (by rwa [front_eq_of_head?_eq hhead])
  | _, _, _, _, .cons hstop hfirst hothers => by
    refine (hfirst.looksAhead.trans hothers.looksAhead).atFront.mono ?_
    rintro _ _ - ⟨_, rfl, _, hfirst, hothers⟩
    exact .cons hstop hfirst hothers

theorem ReadsBlock.looksAhead : ∀ {ts block rest}, ReadsBlock g ts block rest →
    LooksAhead (fun ts rest => ReadsBlock g ts block rest) ts rest
  | _, _, _, .intro hbody => by
    refine (hbody.looksAhead.tail.cons _).mono ?_
    rintro _ _ - ⟨_, rfl, _, hbody, rfl⟩
    exact .intro hbody

end

end Reads

/-! ### Readings with an error -/

section Faults

variable {g : Grammar}

mutual

theorem FaultsExpression.looksAhead : ∀ {b ts us err}, FaultsExpression g b ts us err →
    LooksAhead (fun ts us => FaultsExpression g b ts us err) ts us
  | _, _, _, _, .noRule hrule => .refl fun us' hhead => by
    rw [← front_eq_of_head?_eq hhead] at hrule ⊢
    exact .noRule hrule
  | _, _, _, _, .leading hrule hleft => by
    refine hleft.looksAhead.atFront.mono ?_
    rintro _ _ - ⟨_, rfl, hleft⟩
    exact .leading hrule hleft
  | _, _, _, _, .climb hrule hleft hclimb => by
    refine (hleft.looksAhead.trans hclimb.looksAhead).atFront.mono ?_
    rintro _ _ - ⟨_, rfl, _, hleft, hclimb⟩
    exact .climb hrule hleft hclimb

theorem FaultsClimb.looksAhead : ∀ {b ts us err}, FaultsClimb g b ts us err →
    LooksAhead (fun ts us => FaultsClimb g b ts us err) ts us
  | _, _, _, _, .operand hop hright => by
    refine (hright.looksAhead.cons _).mono ?_
    rintro _ _ - ⟨_, rfl, hright⟩
    exact .operand hop hright
  | _, _, _, _, .later hop hright hclimb => by
    refine ((hright.looksAhead.trans hclimb.looksAhead).cons _).mono ?_
    rintro _ _ - ⟨_, rfl, _, hright, hclimb⟩
    exact .later hop hright hclimb

theorem FaultsLeading.looksAhead : ∀ {r ts us err}, FaultsLeading g r ts us err →
    LooksAhead (fun ts us => FaultsLeading g r ts us err) ts us
  | _, _, _, _, .integer hvalue => .refl fun us' hhead => by
    obtain ⟨us, rfl⟩ := List.head?_eq_some_iff.mp hhead
    exact .integer hvalue
  | _, _, _, _, .unary hoperand => by
    refine (hoperand.looksAhead.cons _).mono ?_
    rintro _ _ - ⟨_, rfl, hoperand⟩
    exact .unary hoperand
  | _, _, _, _, .grouping hinner => by
    refine (hinner.looksAhead.cons _).mono ?_
    rintro _ _ - ⟨_, rfl, hinner⟩
    exact .grouping hinner
  | _, _, _, _, .unclosed hinner hclose => by
    refine (hinner.looksAhead.cons _).mono ?_
    rintro _ _ hfront ⟨_, rfl, hinner⟩
    rw [← hfront] at hclose ⊢
    exact .unclosed hinner hclose
  | _, _, _, _, .noCondition hopen => by
    refine ⟨[_], rfl, fun us' hhead => ?_⟩
    rw [← front_eq_of_head?_eq hhead] at hopen ⊢
    exact .noCondition hopen
  | _, _, _, _, .condition hopen hcondition => by
    refine ((hcondition.looksAhead.cons _).cons _).mono ?_
    rintro _ _ - ⟨_, rfl, _, rfl, hcondition⟩
    exact .condition hopen hcondition
  | _, _, _, _, .unclosedCondition hopen hcondition hclose => by
    refine ((hcondition.looksAhead.cons _).cons _).mono ?_
    rintro _ _ hfront ⟨_, rfl, _, rfl, hcondition⟩
    rw [← hfront] at hclose ⊢
    exact .unclosedCondition hopen hcondition hclose
  | _, _, _, _, .noBlock hopen hcondition hclose hbrace => by
    refine ((hcondition.looksAhead.dropFront.cons _).cons _).mono ?_
    rintro _ _ hfront ⟨_, rfl, _, rfl, hcondition⟩
    rw [← hfront] at hbrace ⊢
    exact .noBlock hopen hcondition hclose hbrace
  | _, _, _, _, .block hopen hcondition hclose hbrace hblock => by
    have hlooks := hcondition.looksAhead.dropFront.dropFront.trans hblock.looksAhead
    refine ((hlooks.cons _).cons _).mono ?_
    rintro _ _ - ⟨_, rfl, _, rfl, _, hcondition, hblock⟩
    exact .block hopen hcondition hclose hbrace hblock
  | _, _, _, _, .noAlternative hopen hcondition hclose hbrace hblock helse hbrace' => by
    have hlooks := hcondition.looksAhead.dropFront.trans hblock.looksAhead.atFront.dropFront
    refine ((hlooks.cons _).cons _).mono ?_
    rintro _ _ hfront ⟨_, rfl, _, rfl, _, hcondition, _, rfl, hblock⟩
    rw [← hfront] at hbrace' ⊢
    exact .noAlternative hopen hcondition hclose hbrace hblock helse hbrace'
  | _, _, _, _, .alternative hopen hcondition hclose hbrace hblock helse hbrace' hblock' => by
    have hblocks := hblock.looksAhead.atFront.dropFront.dropFront.trans hblock'.looksAhead
    have hlooks := hcondition.looksAhead.dropFront.trans hblocks
    refine ((hlooks.cons _).cons _).mono ?_
    rintro _ _ - ⟨_, rfl, _, rfl, _, hcondition, _, ⟨_, rfl, hblock⟩, hblock'⟩
    exact .alternative hopen hcondition hclose hbrace hblock helse hbrace' hblock'

theorem FaultsOpening.looksAhead : ∀ {r ts us err}, FaultsOpening g r ts us err →
    LooksAhead (fun ts us => FaultsOpening g r ts us err) ts us
  | _, _, _, _, .noName hname => by
    refine ⟨[_], rfl, fun us' hhead => ?_⟩
    rw [← front_eq_of_head?_eq hhead] at hname ⊢
    exact .noName hname
  | _, _, _, _, .noAssign hname hassign => by
    refine ⟨[_, _], rfl, fun us' hhead => ?_⟩
    rw [← front_eq_of_head?_eq hhead] at hassign ⊢
    exact .noAssign hname hassign
  | _, _, _, _, .binding hname hassign hvalue => by
    refine (((hvalue.looksAhead.cons _).cons _).cons _).mono ?_
    rintro _ _ - ⟨_, rfl, _, rfl, _, rfl, hvalue⟩
    exact .binding hname hassign hvalue
  | _, _, _, _, .result hvalue => by
    refine (hvalue.looksAhead.cons _).mono ?_
    rintro _ _ - ⟨_, rfl, hvalue⟩
    exact .result hvalue
  | _, _, _, _, .expression hexpr => hexpr.looksAhead.mono fun _ _ _ => .expression

theorem FaultsStatements.looksAhead : ∀ {stop ts us err}, FaultsStatements g stop ts us err →
    LooksAhead (fun ts us => FaultsStatements g stop ts us err) ts us
  | _, _, _, _, .first hstop hfirst => by
    refine hfirst.looksAhead.atFront.mono ?_
    rintro _ _ - ⟨_, rfl, hfirst⟩
    exact .first hstop hfirst
  | _, _, _, _, .later hstop hfirst hothers => by
    refine (hfirst.looksAhead.trans hothers.looksAhead).atFront.mono ?_
    rintro _ _ - ⟨_, rfl, _, hfirst, hothers⟩
    exact .later hstop hfirst hothers

end

end Faults

end FrontEnd
