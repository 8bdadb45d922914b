import FrontEnd.Proofs.Concatenation

/-!
# Optional semicolons

A semicolon ends a statement, but a statement also ends where the next token cannot go on with it.
Of the tokens by which the next statement may begin, only MINUS can: `a; -b` are two statements, and
`a -b` is one. So a semicolon can be left out wherever no MINUS comes after it, in blocks of any
depth, and leaving it out in front of MINUS gives other statements, though no error.

Two facts about readings are behind this. The tokens after an expression can be exchanged for others
that end it. And where a semicolon is erased that a reading has taken, the reading goes on to hold:
the parts before the semicolon look at most one token ahead, the parts after it do not know of it,
and only the statement that it ended may see the difference.

## Main definitions

* `FrontEnd.Replaces` — tokens that can stand after an expression in the place of others.
* `FrontEnd.Erases` — a relation between tokens and trees that is kept if a token is erased, with
  another tree only if MINUS comes after the token.

## Main results

* `FrontEnd.ReadsExpression.exchange` — an expression with other tokens after it.
* `FrontEnd.ReadsExpression.of_semicolon`, `FrontEnd.ReadsExpression.of_semicolon_minus` — the end
  of a statement without its semicolon.
* `FrontEnd.ReadsStatements.erase` — statements without one of their semicolons.
* `FrontEnd.parse_replace_semicolon` — texts with a blank in the place of a semicolon.
-/

namespace FrontEnd

/-! ### Other tokens after an expression -/

/-- The tokens `rest'` can stand after an expression in the place of `rest`: they begin with the
same token, or there was a token and no expression goes on with the first one of `rest'`. -/
def Replaces (rest rest' : List Token) : Prop :=
  rest'.head? = rest.head? ∨ (rest ≠ [] ∧ (front rest').kind.EndsExpression)

namespace Replaces

variable {rest rest' : List Token}

theorem of_cons (t : Token) (us us' : List Token) : Replaces (t :: us) (t :: us') :=
  .inl rfl

/-- More tokens in front. -/
theorem append (h : Replaces rest rest') (w : List Token) : Replaces (w ++ rest) (w ++ rest') := by
  cases w with
  | nil => exact h
  | cons t w => exact .of_cons t _ _

/-- What holds of the token after an expression, and of all tokens that end one, is kept. -/
theorem front (h : Replaces rest rest') {P : Kind → Prop}
    (hends : ∀ k : Kind, k.EndsExpression → P k) (hrest : P (front rest).kind) :
    P (FrontEnd.front rest').kind := by
  rcases h with hhead | ⟨-, hk⟩
  · rwa [front_eq_of_head?_eq hhead]
  · exact hends _ hk

end Replaces

/-- A block that is closed can have any tokens after it. -/
theorem ReadsBlock.exchange {g : Grammar} {ts rest : List Token} {block : Block}
    (h : ReadsBlock g ts block rest) : ∃ t w, ts = t :: (w ++ rest) ∧
      ∀ rest', Replaces rest rest' → ReadsBlock g (t :: (w ++ rest')) block rest' := by
  cases h with
  | @intro t ts body rest hbody =>
    obtain ⟨w, rfl, hlooks⟩ := hbody.looksAhead
    cases rest with
    | nil =>
      refine ⟨t, w, rfl, fun rest' h => ?_⟩
      rcases h with hhead | ⟨hne, -⟩
      · obtain rfl := List.head?_eq_none_iff.mp hhead
        exact .intro hbody
      · exact absurd rfl hne
    | cons close rest =>
      refine ⟨t, w ++ [close], by simp, fun rest' _ => ?_⟩
      rw [List.append_assoc]
      exact .intro (hlooks (close :: rest') rfl)

mutual

/-- An expression can have other tokens after it, if these end it. -/
theorem ReadsExpression.exchange : ∀ {b ts e rest}, ReadsExpression .standard b ts e rest →
    ∃ t w, ts = t :: (w ++ rest) ∧ ∀ rest', Replaces rest rest' →
      ReadsExpression .standard b (t :: (w ++ rest')) e rest'
  | _, _, _, rest, .intro hrule hleft hclimb => by
    obtain ⟨t, w, hts, hleft'⟩ := hleft.exchange
    obtain ⟨x, rfl, hclimb'⟩ := hclimb.exchange
    obtain ⟨rfl, rfl⟩ := List.cons.inj hts
    rw [← List.append_assoc]
    refine ⟨_, w ++ x, rfl, fun rest' h => ?_⟩
    rw [List.append_assoc]
    exact .intro hrule (hleft' _ (h.append x)) (hclimb' rest' h)

theorem ReadsClimb.exchange : ∀ {b left ts e rest}, ReadsClimb .standard b left ts e rest →
    ∃ w, ts = w ++ rest ∧ ∀ rest', Replaces rest rest' →
      ReadsClimb .standard b left (w ++ rest') e rest'
  | b, _, _, _, _, .stop hstop =>
    ⟨[], rfl, fun _ h =>
      .stop (h.front (fun _ hk => Grammar.not_continues_of_endsExpression hk b) hstop)⟩
  | _, _, op :: _, _, _, .step hop hright hclimb => by
    obtain ⟨t, w, rfl, hright'⟩ := hright.exchange
    obtain ⟨x, rfl, hclimb'⟩ := hclimb.exchange
    refine ⟨op :: t :: (w ++ x), by simp, fun rest' h => ?_⟩
    rw [List.cons_append, List.cons_append, List.append_assoc]
    exact .step hop (hright' _ (h.append x)) (hclimb' rest' h)

theorem ReadsLeading.exchange : ∀ {r ts e rest}, ReadsLeading .standard r ts e rest →
    ∃ t w, ts = t :: (w ++ rest) ∧ ∀ rest', Replaces rest rest' →
      ReadsLeading .standard r (t :: (w ++ rest')) e rest'
  | _, _, _, _, .identifier => ⟨_, [], rfl, fun _ _ => .identifier⟩
  | _, _, _, _, .integer hvalue => ⟨_, [], rfl, fun _ _ => .integer hvalue⟩
  | _, _, _, _, .boolean => ⟨_, [], rfl, fun _ _ => .boolean⟩
  | _, _, _, _, .unary hoperand => by
    obtain ⟨t, w, rfl, hoperand'⟩ := hoperand.exchange
    exact ⟨_, t :: w, rfl, fun rest' h => .unary (hoperand' rest' h)⟩
  | _, _, _, _, @ReadsLeading.grouping _ o _ _ close _ hinner hclose => by
    obtain ⟨t, w, rfl, hinner'⟩ := hinner.exchange
    refine ⟨o, t :: w ++ [close], by simp, fun rest' _ => ?_⟩
    rw [List.append_assoc]
    exact .grouping (hinner' _ (.of_cons _ _ rest')) hclose
  | _, _, _, _, @ReadsLeading.conditional _ key o _ _ close brace _ _ _ hopen hcondition hclose
      hbrace hblock helse => by
    obtain ⟨t, w, rfl, hcondition'⟩ := hcondition.exchange
    obtain ⟨_, y, hus, hblock'⟩ := hblock.exchange
    obtain ⟨rfl, rfl⟩ := List.cons.inj hus
    refine ⟨key, o :: t :: (w ++ close :: brace :: y), by simp, fun rest' h => ?_⟩
    simp only [List.cons_append, List.append_assoc]
    exact .conditional hopen (hcondition' _ (.of_cons _ _ _)) hclose hbrace (hblock' rest' h)
      (h.front (fun _ hk => hk.2) helse)
  | _, _, _, _, @ReadsLeading.alternative _ key o _ _ close brace _ _ other brace' _ _ _ hopen
      hcondition hclose hbrace hblock helse hbrace' hblock' => by
    obtain ⟨t, w, rfl, hcondition'⟩ := hcondition.exchange
    obtain ⟨_, y, hus, hfirst⟩ := hblock.exchange
    obtain ⟨_, z, hvs, hsecond⟩ := hblock'.exchange
    obtain ⟨rfl, rfl⟩ := List.cons.inj hus
    obtain ⟨rfl, rfl⟩ := List.cons.inj hvs
    refine ⟨key, o :: t :: (w ++ close :: brace :: (y ++ other :: brace' :: z)), by simp,
      fun rest' h => ?_⟩
    simp only [List.cons_append, List.append_assoc]
    exact .alternative hopen (hcondition' _ (.of_cons _ _ _)) hclose hbrace
      (hfirst _ (.of_cons _ _ _)) helse hbrace' (hsecond rest' h)

end

/-! ### Readings without a token -/

/-- If `us` is left of some tokens, the token in front of `v` has been taken or is still ahead. -/
theorem suffix_or_of_append_eq {y us w v : List Token} {mark : Token}
    (h : y ++ us = w ++ mark :: v) : us <:+ v ∨ ∃ x, us = x ++ mark :: v ∧ w = y ++ x := by
  rcases List.append_eq_append_iff.mp h with ⟨x, rfl, hus⟩ | ⟨x, rfl, hv⟩
  · exact .inr ⟨x, hus, rfl⟩
  · cases x with
    | nil => exact .inr ⟨[], hv.symm, by simp⟩
    | cons t x =>
      obtain ⟨-, rfl⟩ := List.cons.inj hv
      exact .inl (List.suffix_append x us)

theorem not_append_cons_suffix (w : List Token) (t : Token) (v : List Token) :
    ¬ w ++ t :: v <:+ v := fun h => by
  have hlen := h.length_le
  simp only [List.length_append, List.length_cons] at hlen
  omega

/-- The relation `P` holds of `ts` also without the token `mark` in front of `v`, if this has been
taken. The tree stays the same unless `v` begins with MINUS, and then it is another one. -/
def Erases {α : Type} (mark : Token) (v : List Token) (P : List Token → α → List Token → Prop)
    (ts : List Token) (a : α) (rest : List Token) : Prop :=
  ∀ w, ts = w ++ mark :: v → rest <:+ v →
    ∃ a', P (w ++ v) a' rest ∧ (a' = a ↔ (front v).kind ≠ .minus)

namespace Erases

variable {α β : Type} {mark t : Token} {v ts us rest : List Token} {a : α} {b : β}
  {P : List Token → α → List Token → Prop} {Q : List Token → β → List Token → Prop}

/-- The tree is a part of another one. -/
theorem map (h : Erases mark v P ts a rest) (f : α → β) (hf : Function.Injective f)
    (hPQ : ∀ ts' a', P ts' a' rest → Q ts' (f a') rest) : Erases mark v Q ts (f a) rest := by
  intro w hw hrest
  obtain ⟨a', hP, ha⟩ := h w hw hrest
  exact ⟨f a', hPQ _ _ hP, hf.eq_iff.trans ha⟩

/-- Nothing is taken. -/
theorem refl : Erases mark v P rest a rest := by
  rintro w rfl hrest
  exact absurd hrest (not_append_cons_suffix w mark v)

/-- Only one token is taken. -/
theorem single (ht : t ≠ mark) : Erases mark v P (t :: rest) a rest := by
  intro w hw hrest
  cases w with
  | nil => exact absurd (List.cons.inj hw).1 ht
  | cons t' w =>
    obtain ⟨-, rfl⟩ := List.cons.inj hw
    exact absurd hrest (not_append_cons_suffix w mark v)

/-- One more token in front. -/
theorem cons (h : Erases mark v P ts a rest) (ht : t ≠ mark) :
    Erases mark v (fun ts a rest => ∃ us, ts = t :: us ∧ P us a rest) (t :: ts) a rest := by
  intro w hw hrest
  cases w with
  | nil => exact absurd (List.cons.inj hw).1 ht
  | cons t' w =>
    obtain ⟨rfl, hts⟩ := List.cons.inj hw
    obtain ⟨a', hP, ha⟩ := h w hts hrest
    exact ⟨a', ⟨w ++ v, rfl, hP⟩, ha⟩

/-- The token at the front stays there. -/
theorem atFront (h : Erases mark v P (t :: ts) a rest) (ht : t ≠ mark) :
    Erases mark v (fun ts a rest => ∃ us, ts = t :: us ∧ P (t :: us) a rest) (t :: ts) a rest := by
  intro w hw hrest
  obtain ⟨a', hP, ha⟩ := h w hw hrest
  cases w with
  | nil => exact absurd (List.cons.inj hw).1 ht
  | cons t' w =>
    obtain ⟨rfl, -⟩ := List.cons.inj hw
    exact ⟨a', ⟨w ++ v, rfl, hP⟩, ha⟩

/-- One token less is left. -/
theorem dropFront (h : Erases mark v P ts a (t :: rest)) (hsuffix : t :: rest <:+ ts)
    (ht : t ≠ mark) : Erases mark v (fun ts a rest => P ts a (t :: rest)) ts a rest := by
  intro w hw hrest
  obtain ⟨y, rfl⟩ := hsuffix
  rcases suffix_or_of_append_eq hw with hv | ⟨x, hx, rfl⟩
  · exact h w hw hv
  · cases x with
    | nil => exact absurd (List.cons.inj hx).1 ht
    | cons t' x =>
      obtain ⟨-, rfl⟩ := List.cons.inj hx
      exact absurd hrest (not_append_cons_suffix x mark v)

/-- One token less is left, if there is one. -/
theorem tail (h : Erases mark v P ts a rest) (hsuffix : rest <:+ ts) (hfront : front rest ≠ mark) :
    Erases mark v (fun ts a rest => ∃ us, P ts a us ∧ rest = us.tail) ts a rest.tail := by
  cases rest with
  | nil =>
    intro w hw hrest
    obtain ⟨a', hP, ha⟩ := h w hw hrest
    exact ⟨a', ⟨[], hP, rfl⟩, ha⟩
  | cons t rest =>
    intro w hw hrest
    obtain ⟨a', hP, ha⟩ := h.dropFront hsuffix hfront w hw hrest
    exact ⟨a', ⟨t :: rest, hP, rfl⟩, ha⟩

/-- One relation after the other, where the second one depends on the tree of the first. -/
theorem seq {Q : α → List Token → β → List Token → Prop}
    (hlooks : LooksAhead (fun ts us => P ts a us) ts us) (hP : Erases mark v P ts a us)
    (hQ : ∀ x, x ≠ [] → us = x ++ mark :: v → rest <:+ v →
      ∃ b', Q a (x ++ v) b' rest ∧ (b' = b ↔ (front v).kind ≠ .minus))
    (hcongr : ∀ a', ∃ b', Q a' us b' rest ∧ (b' = b ↔ a' = a))
    (hseam : us = mark :: v →
      Erases mark v (fun ts b rest => ∃ a us, P ts a us ∧ Q a us b rest) ts b rest) :
    Erases mark v (fun ts b rest => ∃ a us, P ts a us ∧ Q a us b rest) ts b rest := by
  intro w hw hrest
  obtain ⟨y, rfl, hlooks⟩ := hlooks
  rcases suffix_or_of_append_eq hw with hv | ⟨x, rfl, rfl⟩
  · obtain ⟨a', hP', ha⟩ := hP w hw hv
    obtain ⟨b', hQ', hb⟩ := hcongr a'
    exact ⟨b', ⟨a', us, hP', hQ'⟩, hb.trans ha⟩
  · by_cases hx : x = []
    · exact hseam (by rw [hx, List.nil_append]) _ hw hrest
    · obtain ⟨b', hQ', hb⟩ := hQ x hx rfl hrest
      have hhead : (x ++ v).head? = (x ++ mark :: v).head? := by
        rw [List.head?_append_of_ne_nil x hx, List.head?_append_of_ne_nil x hx]
      rw [List.append_assoc]
      exact ⟨b', ⟨a, x ++ v, hlooks _ hhead, hQ'⟩, hb⟩

/-- One relation after the other, where the second one does not begin with the token. -/
theorem trans (hP : Erases mark v P ts a us) (hlooks : LooksAhead (fun ts us => P ts a us) ts us)
    (hQ : Q us b rest) (hQ' : Erases mark v Q us b rest) (hfront : front us ≠ mark) :
    Erases mark v (fun ts p rest => ∃ us, P ts p.1 us ∧ Q us p.2 rest) ts (a, b) rest := by
  have h := seq (Q := fun a' us (p : α × β) rest => p.1 = a' ∧ Q us p.2 rest) (b := (a, b))
    hlooks hP
    (fun x _ hx hrest => by
      obtain ⟨b', hb', heq⟩ := hQ' x hx hrest
      exact ⟨(a, b'), ⟨rfl, hb'⟩, by simpa using heq⟩)
    (fun a' => ⟨(a', b), ⟨rfl, hQ⟩, by simp⟩)
    (fun hus => absurd (by rw [hus, front_cons]) hfront)
  refine h.map id Function.injective_id ?_
  rintro ts' _ ⟨_, us', hP', rfl, hQ'⟩
  exact ⟨us', hP', hQ'⟩

end Erases

/-! ### At the end of a statement -/

/-- The tree of what has been read before can be exchanged. -/
theorem ReadsClimb.exists_of_left {g : Grammar} : ∀ {b left ts e rest},
    ReadsClimb g b left ts e rest → ∀ left', ∃ e', ReadsClimb g b left' ts e' rest ∧
      (e' = e ↔ left' = left)
  | _, _, _, _, _, .stop hstop, left' => ⟨left', .stop hstop, Iff.rfl⟩
  | _, _, _, _, _, .step hop hright hclimb, left' => by
    obtain ⟨e', hclimb', he⟩ := hclimb.exists_of_left (.binary _ left' _ _)
    exact ⟨e', .step hop hright hclimb', he.trans (by simp)⟩

/-- At the lowest power operators are read as long as there are any. -/
theorem ReadsClimb.not_isOperator : ∀ {b left ts e rest}, ReadsClimb .standard b left ts e rest →
    b = .lowest → ¬ (front rest).kind.IsOperator
  | _, _, _, _, _, .stop hstop, hb => fun hop => by
    subst hb
    exact hstop (Grammar.continues_standard.mpr ⟨hop, Grammar.lowest_lt_power_of_isOperator hop⟩)
  | _, _, _, _, _, .step _ _ hclimb, hb => hclimb.not_isOperator hb

theorem ReadsExpression.not_isOperator {ts rest : List Token} {e : Expr}
    (h : ReadsExpression .standard .lowest ts e rest) : ¬ (front rest).kind.IsOperator := by
  cases h with
  | intro _ _ hclimb => exact hclimb.not_isOperator rfl

/-- Statements end at once or begin with a clause. -/
theorem ReadsStatements.starts {stop : List Kind} {ts rest : List Token} {ss : List Stmt}
    (h : ReadsStatements .standard stop ts ss rest) (hts : ∀ t ∈ ts, t.Genuine) :
    (front ts).kind ∈ stop ∨ (front ts).kind.StartsClause := by
  cases h with
  | nil hstop => exact .inl hstop
  | cons _ hfirst =>
    right
    cases hfirst.derives rfl hts with
    | bare hclause => exact hclause.startsClause
    | semicolon hclause => exact hclause.startsClause

/-- Where statements begin, the one before them can end: only MINUS goes on with it. -/
theorem Kind.endsExpression_of_starts {k : Kind} {stop : List Kind} (h : k ∈ stop ∨ k.StartsClause)
    (hstop : stop ⊆ [.rbrace, .eof]) (hminus : k ≠ .minus) :
    k.EndsExpression ∧ k ≠ .semicolon := by
  have hk : k ∈ [Kind.rbrace, .eof] ∨ k.StartsClause := h.imp_left (@hstop k)
  revert hk hminus
  cases k <;> decide

section Seam

variable {mark : Token} {stop : List Kind} {w v rest : List Token} {e : Expr} {others : List Stmt}

/-- In front of other tokens than MINUS, an expression ends as it did with the semicolon. -/
theorem ReadsExpression.of_semicolon
    (hvalue : ReadsExpression .standard .lowest (w ++ mark :: v) e (mark :: v))
    (hends : (front v).kind.EndsExpression) : ReadsExpression .standard .lowest (w ++ v) e v := by
  obtain ⟨t, x, hts, hvalue'⟩ := hvalue.exchange
  obtain rfl : w = t :: x := List.append_cancel_right hts
  exact hvalue' v (.inr ⟨by simp, hends⟩)

/-- In front of MINUS, an expression goes on with the next statement, and is read together with
it. -/
theorem ReadsExpression.of_semicolon_minus
    (hvalue : ReadsExpression .standard .lowest (w ++ mark :: v) e (mark :: v))
    (hts : ∀ t ∈ w ++ mark :: v, t.Genuine) (hothers : ReadsStatements .standard stop v others rest)
    (hstop : stop ⊆ [.rbrace, .eof]) (hminus : (front v).kind = .minus) :
    ∃ e' us second others', others = second :: others' ∧
      ReadsExpression .standard .lowest (w ++ v) e' us ∧
        ReadsStatements .standard stop (afterSemicolon us) others' rest := by
  have hv : ∀ t ∈ v, t.Genuine := fun t ht => hts t (by simp [ht])
  have hop : (front v).kind.IsOperator := by rw [hminus]; decide
  cases hothers with
  | nil hmem => exact absurd (hstop hmem) (by rw [hminus]; decide)
  | @cons _ minus vs second us others' _ _ hsecond hothers' =>
    rw [front_cons] at hminus hop
    have hrule : (Grammar.standard.statement minus.kind).getD .expression = .expression := by
      rw [hminus]; rfl
    rw [hrule] at hsecond
    cases hsecond with
    | @expression _ _ e₂ us hexpr =>
      have hus : ∀ t ∈ us, t.Genuine := genuine_of_suffix_tail hv hexpr.suffix
      have helse : (front us).kind ≠ .elseKey := fun helse => by
        rw [afterSemicolon_of_ne (by simp [helse])] at hothers'
        rcases hothers'.starts hus with hmem | hstart
        · exact absurd (hstop hmem) (by rw [helse]; decide)
        · exact absurd hstart (by rw [helse]; decide)
      -- The first expression, MINUS and the rest of the second one derive a single expression.
      obtain ⟨w', hw, hcomplete⟩ := (hvalue.derives hts).1.complete (by simp)
      obtain rfl := List.append_cancel_right hw
      have hright := Derives.expression_of_clause hop (.expression (hexpr.derives hv).1)
      have hjoin := (hcomplete (minus :: vs)).join hop hright
      obtain ⟨e', hread⟩ :=
        (derived_reads _).1.lowest (Nat.lt_succ_self _) hjoin ⟨hexpr.not_isOperator, helse⟩
      exact ⟨e', us, _, others', rfl, hread, hothers'⟩

end Seam

/-! ### Semicolons anywhere -/

section Erase

variable {mark : Token} {v : List Token}

/-- A token of another kind is not the semicolon. -/
theorem Token.ne_of_kind_eq {t : Token} {k : Kind} (hmark : mark.kind = .semicolon)
    (ht : t.kind = k) (hk : k ≠ .semicolon) : t ≠ mark := by
  rintro rfl
  exact hk (ht.symm.trans hmark)

/-- No expression begins with a semicolon. -/
theorem Token.ne_of_leading {t : Token} {r : LeadingRule} (hmark : mark.kind = .semicolon)
    (hrule : Grammar.standard.leading t.kind = some r) : t ≠ mark := by
  refine ne_of_kind_eq hmark rfl fun ht => ?_
  rw [ht] at hrule
  exact absurd hrule (by simp [show Grammar.standard.leading .semicolon = none from rfl])

/-- No expression goes on with a semicolon. -/
theorem Token.ne_of_continues {t : Token} {b : Power} (hmark : mark.kind = .semicolon)
    (hop : Grammar.standard.Continues b t.kind) : t ≠ mark :=
  ne_of_kind_eq hmark rfl hop.1

/-- An operand and the operators after it, without a semicolon in one of them. -/
theorem ReadsClimb.erase_after {α : Type} {P : List Token → α → List Token → Prop}
    {f : α → Expr} {b : Power} {ts us rest : List Token} {a : α} {e : Expr}
    (hmark : mark.kind = .semicolon) (hf : Function.Injective f)
    (hlooks : LooksAhead (fun ts us => P ts a us) ts us) (hP : Erases mark v P ts a us)
    (hclimb : ReadsClimb .standard b (f a) us e rest)
    (hclimb' : Erases mark v (ReadsClimb .standard b (f a)) us e rest) :
    Erases mark v (fun ts e rest => ∃ a us, P ts a us ∧ ReadsClimb .standard b (f a) us e rest)
      ts e rest := by
  refine .seq hlooks hP (fun x _ => hclimb' x) (fun a' => ?_) fun hus => ?_
  · obtain ⟨e', he', heq⟩ := hclimb.exists_of_left (f a')
    exact ⟨e', he', heq.trans hf.eq_iff⟩
  · -- A semicolon in front leaves nothing to climb, so it is not taken.
    subst hus
    intro w _ hrest
    cases hclimb with
    | stop => exact absurd hrest (not_append_cons_suffix [] mark v)
    | step hop => exact absurd rfl (Token.ne_of_continues hmark hop)

/-- The value of a statement and the statements after it, without a semicolon in or between them. -/
theorem ReadsExpression.erase_before {stop : List Kind} {ts us rest : List Token} {e : Expr}
    {others : List Stmt} (hmark : mark.kind = .semicolon) (hts : ∀ t ∈ ts, t.Genuine)
    (hstop : stop ⊆ [.rbrace, .eof]) (hvalue : ReadsExpression .standard .lowest ts e us)
    (hvalue' : Erases mark v (ReadsExpression .standard .lowest) ts e us)
    (hothers : ReadsStatements .standard stop (afterSemicolon us) others rest)
    (hothers' : Erases mark v (ReadsStatements .standard stop) (afterSemicolon us) others rest) :
    Erases mark v (fun ts p rest => ∃ e us, ReadsExpression .standard .lowest ts e us ∧
        p.1 = e ∧ ReadsStatements .standard stop (afterSemicolon us) p.2 rest)
      ts (e, others) rest := by
  refine .seq hvalue.looksAhead hvalue' (fun x hx hus hrest => ?_)
    (fun e' => ⟨(e', others), ⟨rfl, hothers⟩, by simp⟩) fun hus w hw hrest => ?_
  · -- The semicolon is in a later statement.
    rw [hus, afterSemicolon_append hx] at hothers'
    obtain ⟨others', hread, heq⟩ := hothers' _ rfl hrest
    rw [afterSemicolon_append hx]
    exact ⟨(e, others'), ⟨rfl, hread⟩, by simpa using heq⟩
  · -- The semicolon is the one that ends the statement.
    subst hus hw
    rw [afterSemicolon_cons hmark] at hothers
    have hv : ∀ t ∈ v, t.Genuine := fun t ht => hts t (by simp [ht])
    by_cases hminus : (front v).kind = .minus
    · obtain ⟨e', us, second, others', rfl, hread, hread'⟩ :=
        hvalue.of_semicolon_minus hts hothers hstop hminus
      refine ⟨(e', others'), ⟨e', us, hread, rfl, hread'⟩, ?_⟩
      simp [hminus]
    · obtain ⟨hends, hsemi⟩ := Kind.endsExpression_of_starts (hothers.starts hv) hstop hminus
      refine ⟨(e, others), ⟨e, v, hvalue.of_semicolon hends, rfl, ?_⟩, by simp [hminus]⟩
      rwa [afterSemicolon_of_ne hsemi]

mutual

/-- An expression without a semicolon, which was in a block of it. -/
theorem ReadsExpression.erase (hmark : mark.kind = .semicolon) : ∀ {b ts e rest},
    ReadsExpression .standard b ts e rest → (∀ t ∈ ts, t.Genuine) →
      Erases mark v (ReadsExpression .standard b) ts e rest
  | _, _, _, _, .intro hrule hleft hclimb, hts => by
    have hus := genuine_of_suffix_tail hts hleft.suffix
    have h := ReadsClimb.erase_after hmark Function.injective_id hleft.looksAhead
      (hleft.erase hmark hrule hts) hclimb (hclimb.erase hmark hus)
    refine (h.atFront (Token.ne_of_leading hmark hrule)).map id Function.injective_id ?_
    rintro _ _ ⟨_, rfl, _, _, hleft', hclimb'⟩
    exact .intro hrule hleft' hclimb'

theorem ReadsClimb.erase (hmark : mark.kind = .semicolon) : ∀ {b left ts e rest},
    ReadsClimb .standard b left ts e rest → (∀ t ∈ ts, t.Genuine) →
      Erases mark v (ReadsClimb .standard b left) ts e rest
  | _, _, _, _, _, .stop _, _ => .refl
  | _, left, _, _, _, @ReadsClimb.step _ _ _ op _ _ _ _ _ hop hright hclimb, hts => by
    have hts' := genuine_of_cons hts
    have hus := genuine_of_suffix_tail hts' hright.suffix
    have hinj : Function.Injective (Expr.binary op left op.literal) := fun _ _ h => by
      simpa using h
    have h := ReadsClimb.erase_after hmark hinj hright.looksAhead (hright.erase hmark hts')
      hclimb (hclimb.erase hmark hus)
    refine (h.cons (Token.ne_of_continues hmark hop)).map id Function.injective_id ?_
    rintro _ _ ⟨_, rfl, _, _, hright', hclimb'⟩
    exact .step hop hright' hclimb'

theorem ReadsLeading.erase (hmark : mark.kind = .semicolon) : ∀ {r ts e rest},
    ReadsLeading .standard r ts e rest → Grammar.standard.leading (front ts).kind = some r →
      (∀ t ∈ ts, t.Genuine) → Erases mark v (ReadsLeading .standard r) ts e rest
  | _, _, _, _, .identifier, hrule, _ => .single (Token.ne_of_leading hmark hrule)
  | _, _, _, _, .integer _, hrule, _ => .single (Token.ne_of_leading hmark hrule)
  | _, _, _, _, .boolean, hrule, _ => .single (Token.ne_of_leading hmark hrule)
  | _, _, _, _, @ReadsLeading.unary _ t _ _ _ hoperand, hrule, hts => by
    have hinj : Function.Injective (Expr.unary t t.literal) := fun _ _ h => by simpa using h
    have h := hoperand.erase hmark (genuine_of_cons hts)
    refine (h.cons (Token.ne_of_leading hmark hrule)).map _ hinj ?_
    rintro _ _ ⟨_, rfl, hoperand'⟩
    exact .unary hoperand'
  | _, _, _, _, .grouping hinner hclose, hrule, hts => by
    have h := (hinner.erase hmark (genuine_of_cons hts)).dropFront
      (hinner.suffix.trans (List.tail_suffix _)) (Token.ne_of_kind_eq hmark hclose (by decide))
    refine (h.cons (Token.ne_of_leading hmark hrule)).map id Function.injective_id ?_
    rintro _ _ ⟨_, rfl, hinner'⟩
    exact .grouping hinner' hclose
  | _, _, _, _, @ReadsLeading.conditional _ key o _ c _ brace us block _ hopen hcondition hclose
      hbrace hblock helse, hrule, hts => by
    have hts' := genuine_of_cons (genuine_of_cons hts)
    have hus := genuine_of_cons (genuine_of_suffix_tail hts' hcondition.suffix)
    have hbrace_ne := Token.ne_of_kind_eq hmark hbrace (by decide)
    have hcond := (hcondition.erase hmark hts').dropFront
      (hcondition.suffix.trans (List.tail_suffix _)) (Token.ne_of_kind_eq hmark hclose (by decide))
    have h := hcond.trans hcondition.looksAhead.dropFront
      ⟨us, rfl, hblock⟩ ((hblock.erase hmark hbrace hus).atFront hbrace_ne) hbrace_ne
    have hkey : key ≠ mark := Token.ne_of_leading hmark hrule
    have hlead := (h.cons (Token.ne_of_kind_eq hmark hopen (by decide))).cons hkey
    refine hlead.map (fun p => Expr.conditional key p.1 p.2 none) ?_ ?_
    · rintro ⟨c₁, b₁⟩ ⟨c₂, b₂⟩ heq
      simpa using heq
    · rintro _ ⟨c', block'⟩ ⟨_, rfl, _, rfl, _, hcondition', _, rfl, hblock'⟩
      exact .conditional hopen hcondition' hclose hbrace hblock' helse
  | _, _, _, _, @ReadsLeading.alternative _ key o _ c _ brace us block _ brace' vs block' _ hopen
      hcondition hclose hbrace hblock helse hbrace' hblock', hrule, hts => by
    have hts' := genuine_of_cons (genuine_of_cons hts)
    have hus := genuine_of_cons (genuine_of_suffix_tail hts' hcondition.suffix)
    have hvs := genuine_of_cons (genuine_of_suffix_tail hus hblock.suffix)
    have hbrace_ne := Token.ne_of_kind_eq hmark hbrace (by decide)
    have hbrace_ne' := Token.ne_of_kind_eq hmark hbrace' (by decide)
    have hcond := (hcondition.erase hmark hts').dropFront
      (hcondition.suffix.trans (List.tail_suffix _)) (Token.ne_of_kind_eq hmark hclose (by decide))
    have hfirst := ((hblock.erase hmark hbrace hus).atFront hbrace_ne).dropFront
      (hblock.suffix.trans (List.tail_suffix _)) (Token.ne_of_kind_eq hmark helse (by decide))
    have hblocks := hfirst.trans hblock.looksAhead.atFront.dropFront
      ⟨vs, rfl, hblock'⟩ ((hblock'.erase hmark hbrace' hvs).atFront hbrace_ne') hbrace_ne'
    have h := hcond.trans hcondition.looksAhead.dropFront
      ⟨_, ⟨us, rfl, hblock⟩, vs, rfl, hblock'⟩ hblocks hbrace_ne
    have hkey : key ≠ mark := Token.ne_of_leading hmark hrule
    have hlead := (h.cons (Token.ne_of_kind_eq hmark hopen (by decide))).cons hkey
    refine hlead.map (fun p => Expr.conditional key p.1 p.2.1 (some p.2.2)) ?_ ?_
    · rintro ⟨c₁, b₁, b₁'⟩ ⟨c₂, b₂, b₂'⟩ heq
      simpa using heq
    · rintro _ ⟨c', _, _⟩ ⟨_, rfl, _, rfl, _, hcondition', _, ⟨_, rfl, hread⟩, _, rfl, hread'⟩
      exact .alternative hopen hcondition' hclose hbrace hread helse hbrace' hread'

/-- A statement and those after it, without a semicolon in or between them. -/
theorem ReadsOpening.erase (hmark : mark.kind = .semicolon) : ∀ {r ts s us},
    ReadsOpening .standard r ts s us → (front ts).kind ≠ .semicolon → (∀ t ∈ ts, t.Genuine) →
      ∀ {stop others rest}, stop ⊆ [.rbrace, .eof] →
        ReadsStatements .standard stop us others rest →
          Erases mark v (ReadsStatements .standard stop) us others rest →
            Erases mark v (fun ts ss rest => ∃ s us others, ss = s :: others ∧
              ReadsOpening .standard r ts s us ∧ ReadsStatements .standard stop us others rest)
              ts (s :: others) rest
  | _, _, _, _, @ReadsOpening.binding _ t name _ _ _ _ hname hassign hvalue, hfront, hts, _, _, _,
      hstop, hothers, hothers' => by
    have hts' := genuine_of_cons (genuine_of_cons (genuine_of_cons hts))
    have h := hvalue.erase_before hmark hts' hstop (hvalue.erase hmark hts') hothers hothers'
    have hlead := ((h.cons (Token.ne_of_kind_eq hmark hassign (by decide))).cons
      (Token.ne_of_kind_eq hmark hname (by decide))).cons (Token.ne_of_kind_eq hmark rfl hfront)
    refine hlead.map (fun p => Stmt.binding t (.ofToken name) (some p.1) :: p.2) ?_ ?_
    · rintro ⟨e₁, ss₁⟩ ⟨e₂, ss₂⟩ heq
      simpa using heq
    · rintro _ ⟨_, _⟩ ⟨_, rfl, _, rfl, _, rfl, _, _, hvalue', rfl, hread⟩
      exact ⟨_, _, _, rfl, .binding hname hassign hvalue', hread⟩
  | _, _, _, _, @ReadsOpening.result _ t _ _ _ hvalue, hfront, hts, _, _, _, hstop, hothers,
      hothers' => by
    have hts' := genuine_of_cons hts
    have h := hvalue.erase_before hmark hts' hstop (hvalue.erase hmark hts') hothers hothers'
    have hlead := h.cons (Token.ne_of_kind_eq hmark rfl hfront)
    refine hlead.map (fun p => Stmt.result t (some p.1) :: p.2) ?_ ?_
    · rintro ⟨e₁, ss₁⟩ ⟨e₂, ss₂⟩ heq
      simpa using heq
    · rintro _ ⟨_, _⟩ ⟨_, rfl, _, _, hvalue', rfl, hread⟩
      exact ⟨_, _, _, rfl, .result hvalue', hread⟩
  | _, _, _, _, @ReadsOpening.expression _ t _ _ _ hexpr, hfront, hts, _, _, _, hstop, hothers,
      hothers' => by
    have h := hexpr.erase_before hmark hts hstop (hexpr.erase hmark hts) hothers hothers'
    have hlead := h.atFront (Token.ne_of_kind_eq hmark rfl hfront)
    refine hlead.map (fun p => Stmt.expression t p.1 :: p.2) ?_ ?_
    · rintro ⟨e₁, ss₁⟩ ⟨e₂, ss₂⟩ heq
      simpa using heq
    · rintro _ ⟨_, _⟩ ⟨_, rfl, _, _, hexpr', rfl, hread⟩
      exact ⟨_, _, _, rfl, .expression hexpr', hread⟩

/-- **Statements without one of their semicolons.** -/
theorem ReadsStatements.erase (hmark : mark.kind = .semicolon) : ∀ {stop ts ss rest},
    ReadsStatements .standard stop ts ss rest → stop ⊆ [.rbrace, .eof] →
      (∀ t ∈ ts, t.Genuine) → Erases mark v (ReadsStatements .standard stop) ts ss rest
  | _, _, _, _, .nil _, _, _ => .refl
  | stop, t :: ts, _, _, .cons hmem hfirst hothers, hstop, hts => by
    have hsemi : t.kind ≠ .semicolon := fun ht => by
      rcases (ReadsStatements.cons hmem hfirst hothers).starts hts with h | h
      · exact hmem h
      · exact absurd h (by rw [front_cons, ht]; decide)
    have hus := genuine_of_suffix_tail hts hfirst.suffix
    have h := hfirst.erase hmark hsemi hts hstop hothers (hothers.erase hmark hstop hus)
    refine (h.atFront (Token.ne_of_kind_eq hmark rfl hsemi)).map id Function.injective_id ?_
    rintro _ _ ⟨_, rfl, _, _, _, rfl, hfirst', hothers'⟩
    exact .cons hmem hfirst' hothers'

theorem ReadsBlock.erase (hmark : mark.kind = .semicolon) : ∀ {ts block rest},
    ReadsBlock .standard ts block rest → (front ts).kind = .lbrace → (∀ t ∈ ts, t.Genuine) →
      Erases mark v (ReadsBlock .standard) ts block rest
  | _, _, _, @ReadsBlock.intro _ brace _ _ _ hbody, hbrace, hts => by
    have hts' := genuine_of_cons hts
    have hfront : (front _).kind ≠ .semicolon := fun h => by
      exact absurd hbody.front_mem (by rw [h]; decide)
    have h := (hbody.erase hmark (List.Subset.refl _) hts').tail hbody.suffix
      (Token.ne_of_kind_eq hmark rfl hfront)
    refine (h.cons (Token.ne_of_kind_eq hmark hbrace (by decide))).map (Block.mk brace) ?_ ?_
    · intro _ _ heq
      simpa using heq
    · rintro _ _ ⟨_, rfl, _, hbody', htail⟩
      rw [htail]
      exact .intro hbody'

end

end Erase

/-! ### Semicolons in a text -/

/-- A semicolon is a token wherever it stands. -/
theorem lex_append_semicolon (as bs : List Char) :
    lex (as ++ ';' :: bs) = lex as ++ .ofKind .semicolon :: lex bs := by
  rw [lex_append_of_not_takes, lex_cons_of_not_isBlank rfl]
  · rfl
  · rintro t - c hc htakes
    obtain rfl : ';' = c := by simpa using hc
    rcases htakes with ⟨-, h⟩ | ⟨-, h⟩ | ⟨-, h⟩
    all_goals exact absurd h (by decide)

/-- **Semicolons are optional except in front of MINUS.** If a text is read without errors, any `;`
in it can be replaced by a blank: the text is still read without errors, and to the same statements
if and only if the next token after the semicolon is not MINUS. -/
theorem parse_replace_semicolon {a b : String} (h : (parse (a ++ ";" ++ b)).errors = []) :
    ∃ next others, tokenize b = next :: others ∧
      tokenize (a ++ ";" ++ b) = (tokenize a).dropLast ++ ⟨.semicolon, ";"⟩ :: next :: others ∧
        (parse (a ++ " " ++ b)).errors = [] ∧
          ((parse (a ++ " " ++ b)).program = (parse (a ++ ";" ++ b)).program ↔
            next.kind ≠ .minus) := by
  have hlex : lex (a ++ ";" ++ b).toList =
      lex a.toList ++ .ofKind .semicolon :: lex b.toList := by
    rw [← lex_append_semicolon]
    simp
  have hlex' : lex (a ++ " " ++ b).toList = lex a.toList ++ lex b.toList := by
    rw [← lex_append_cons_of_isBlank (c := ' ') rfl]
    simp
  obtain ⟨ss, hreads, hparse⟩ := reads_of_errors_eq_nil h
  obtain ⟨ss', hreads', hss⟩ :=
    hreads.erase rfl (by simp) (fun t => genuine_of_mem_lex) _ hlex (List.nil_suffix)
  rw [← hlex'] at hreads'
  have hnext : tokenize b = front (tokenize b) :: (tokenize b).tail := by
    rw [tokenize_eq]
    cases lex b.toList <;> rfl
  refine ⟨front (tokenize b), (tokenize b).tail, hnext, ?_, ?_, ?_⟩
  · rw [← hnext, dropLast_tokenize, tokens_ofString, tokenize_eq, tokenize_eq, hlex,
      List.append_assoc, List.cons_append]
    rfl
  · rw [parse_of_reads hreads']
  · rw [parse_of_reads hreads', hparse, front_tokenize, ← hss]
    simp

/-- In a block, a semicolon in front of MINUS and one in front of a parenthesis. -/
theorem parse_replace_semicolon_block :
    (parse ("if (a) \x7b b" ++ " " ++ "-c; (d) \x7d")).program ≠
        (parse ("if (a) \x7b b" ++ ";" ++ "-c; (d) \x7d")).program ∧
      (parse ("if (a) \x7b b; -c" ++ " " ++ "(d) \x7d")).program =
        (parse ("if (a) \x7b b; -c" ++ ";" ++ "(d) \x7d")).program := by
  have hkinds : (tokenize "-c; (d) \x7d").head? = some ⟨.minus, "-"⟩ ∧
      (tokenize "(d) \x7d").head? = some ⟨.lparen, "("⟩ := by decide +kernel
  constructor
  · obtain ⟨next, others, hb, -, -, hprogram⟩ := parse_replace_semicolon
      (a := "if (a) \x7b b") (b := "-c; (d) \x7d") (by decide +kernel)
    obtain rfl : next = ⟨.minus, "-"⟩ := by simpa [hb] using hkinds.1
    exact fun heq => absurd rfl (hprogram.mp heq)
  · obtain ⟨next, others, hb, -, -, hprogram⟩ := parse_replace_semicolon
      (a := "if (a) \x7b b; -c") (b := "(d) \x7d") (by decide +kernel)
    obtain rfl : next = ⟨.lparen, "("⟩ := by simpa [hb] using hkinds.2
    exact hprogram.mpr (by simp)

end FrontEnd
