import FrontEnd.Proofs.Concatenation

/-!
# Errors end with their statement

After an error the reading goes on from the token where it stopped, with no rule of its own for
where the next statement begins. Still, in a text without opening braces no error reaches past a
semicolon at the end of the text. No expression begins or goes on with a semicolon, so every
reading that comes to the last one stops there, and whatever was left open is given up without
moving on. The only trace of the tokens after it is in the errors about a token that was wanted
there: such an error speaks of the first one of these tokens where it would speak of the end.

So a text that ends with a semicolon is read in the same way with other tokens after it, and these
are read as if there was nothing before. The only tokens that would be noticed are a semicolon,
which is taken in with the statement before, and a closing parenthesis, which may be wanted by one
that was left open.

## Main definitions

* `FrontEnd.ParseError.insteadOfEnd` — an error that speaks of another token where the end was.
* `FrontEnd.Terminated` — tokens without opening braces whose last one is a semicolon.
* `FrontEnd.Tape.Joined`, `FrontEnd.Tape.Extends` — two tapes of which one has more tokens after
  those of the other, and those where a semicolon comes before these tokens.
* `FrontEnd.Tape.Keeps` — two readings that do the same on such tapes.
* `FrontEnd.Tape.Resumes` — a tape that is read after other errors.
* `FrontEnd.Tape.ReadsApart` — what is read from one tape and then from other tokens.

## Main results

* `FrontEnd.Tape.readsSame` — expressions are read in the same way on two such tapes.
* `FrontEnd.Tape.Extends.statement` — and so are statements.
* `FrontEnd.Tape.Joined.statements_ensures` — the statements up to the last semicolon and those
  after it are read apart.
* `FrontEnd.parse_append_of_semicolon` — two texts of which the first ends with a semicolon.
-/

namespace FrontEnd

open Window

/-- The error with a token of the kind `k` where it speaks of the end of the text as the next
token. -/
def ParseError.insteadOfEnd (k : Kind) : ParseError → ParseError
  | .unexpected expected .eof => .unexpected expected k
  | e => e

theorem ParseError.insteadOfEnd_of_ne (k : Kind) {expected found : Kind} (h : found ≠ .eof) :
    insteadOfEnd k (.unexpected expected found) = .unexpected expected found := by
  unfold insteadOfEnd
  split
  next heq => exact absurd (ParseError.unexpected.inj heq).2 h
  next => rfl

/-! ### Tokens that end with a semicolon -/

/-- The last token is a semicolon, and there is no opening brace and no end token. -/
structure Terminated (ts : List Token) : Prop where
  /-- The last token is a semicolon. -/
  last : ∃ t ∈ ts.getLast?, t.kind = .semicolon
  /-- No token opens a block. -/
  ne_lbrace : ∀ t ∈ ts, t.kind ≠ .lbrace
  /-- No token is the end token. -/
  ne_eof : ∀ t ∈ ts, t.kind ≠ .eof

namespace Terminated

variable {ts : List Token}

theorem ne_nil (h : Terminated ts) : ts ≠ [] := by
  rintro rfl
  obtain ⟨t, ht, -⟩ := h.last
  exact absurd ht (by simp)

theorem front_mem (h : Terminated ts) : front ts ∈ ts := by
  cases ts with
  | nil => exact absurd rfl h.ne_nil
  | cons t ts => exact List.mem_cons_self

/-- After the first token the same holds, or that was the semicolon at the end. -/
theorem tail (h : Terminated ts) :
    (ts.tail = [] ∧ (front ts).kind = .semicolon) ∨ Terminated ts.tail := by
  obtain ⟨t, ht, hsemi⟩ := h.last
  cases ts with
  | nil => exact absurd rfl h.ne_nil
  | cons t' ts =>
    cases ts with
    | nil =>
      obtain rfl : t' = t := by simpa using ht
      exact .inl ⟨rfl, hsemi⟩
    | cons t'' ts =>
      refine .inr ⟨⟨t, by simpa using ht, hsemi⟩, fun u hu => ?_, fun u hu => ?_⟩
      · exact h.ne_lbrace u (List.mem_cons_of_mem _ hu)
      · exact h.ne_eof u (List.mem_cons_of_mem _ hu)

theorem tail_of_ne (h : Terminated ts) (hne : (front ts).kind ≠ .semicolon) :
    Terminated ts.tail :=
  h.tail.resolve_left fun hend => hne hend.2

/-- More tokens at the end do not change the first one. -/
theorem front_append (h : Terminated ts) (us : List Token) : front (ts ++ us) = front ts := by
  cases ts with
  | nil => exact absurd rfl h.ne_nil
  | cons t ts => rfl

end Terminated

namespace Tape

/-! ### Tapes with more tokens at the end -/

/-- The second tape has the tokens `us` after those of the first one. The errors so far are the
same, except that those about the end of the first tape are about the first token of `us`. -/
structure Joined (us : List Token) (t t' : Tape) : Prop where
  /-- The tokens `us` come last. -/
  ahead_eq : t'.ahead = t.ahead ++ us
  /-- The errors so far. -/
  errors_eq : t'.faults.map Prod.snd =
    (t.faults.map Prod.snd).map (ParseError.insteadOfEnd (front us).kind)

/-- The second tape has the tokens `us` after those of the first one, which end with a semicolon. -/
structure Extends (us : List Token) (t t' : Tape) : Prop extends Joined us t t' where
  /-- The tokens of the first tape end with a semicolon. -/
  terminated : Terminated t.ahead

/-- Both readings lack fuel, or both give the same result, which has the property `Q`, and the tapes
after it differ as before. -/
structure Keeps {α : Type} (us : List Token) (Q : α → Tape → Prop) (x x' : Option (α × Tape)) :
    Prop where
  alike : Alike (Extends us) x x'
  ensures : Ensures Q x

variable {α β : Type} {us : List Token} {t t' : Tape}

theorem Keeps.none {Q : α → Tape → Prop} : Keeps us Q none none :=
  ⟨.none, .none⟩

theorem Keeps.some {Q : α → Tape → Prop} {a : α} (h : Extends us t t') (hQ : Q a t) :
    Keeps us Q (some (a, t)) (some (a, t')) :=
  ⟨.some a h, .some hQ⟩

theorem Keeps.bind {P : α → Tape → Prop} {Q : β → Tape → Prop} {x x' : Option (α × Tape)}
    {f f' : α × Tape → Option (β × Tape)} (hx : Keeps us P x x')
    (hf : ∀ a t t', Extends us t t' → P a t → Keeps us Q (f (a, t)) (f' (a, t'))) :
    Keeps us Q (x >>= f) (x' >>= f') := by
  obtain ⟨halike, hP⟩ := hx
  cases halike with
  | none => exact .none
  | some a h => exact hf a _ _ h (hP a _ rfl)

namespace Extends

theorem current_eq (h : Extends us t t') : current t' = current t := by
  rw [Tape.current_eq, h.ahead_eq, h.terminated.front_append, Tape.current_eq]

theorem record (h : Extends us t t') {e e' : ParseError}
    (he : e' = e.insteadOfEnd (front us).kind) : Extends us (record t e) (record t' e') := by
  refine ⟨⟨h.ahead_eq, ?_⟩, h.terminated⟩
  simp [h.errors_eq, he]

theorem tail_ahead (h : Extends us t t') : t'.ahead.tail = t.ahead.tail ++ us := by
  rw [h.ahead_eq, List.tail_append_of_ne_nil h.terminated.ne_nil]

theorem joined_advance (h : Extends us t t') :
    Joined us (Window.advance t) (Window.advance t') :=
  ⟨h.tail_ahead, h.errors_eq⟩

/-- Before the last semicolon both tapes move on to the same token. -/
theorem advance_of_tail (h : Extends us t t') (htail : Terminated t.ahead.tail) :
    Extends us (advance t) (advance t') :=
  ⟨h.joined_advance, htail⟩

theorem advance (h : Extends us t t') (hne : (current t).kind ≠ .semicolon) :
    Extends us (advance t) (advance t') :=
  h.advance_of_tail (h.terminated.tail_of_ne hne)

theorem peek_of_tail (h : Extends us t t') (htail : Terminated t.ahead.tail) :
    peek t' = peek t := by
  rw [peek_eq, h.tail_ahead, htail.front_append, peek_eq]

theorem peek_of_ne (h : Extends us t t') (hne : (current t).kind ≠ .semicolon) :
    peek t' = peek t :=
  h.peek_of_tail (h.terminated.tail_of_ne hne)

/-- At the last semicolon the first tape has its end next, and the other one has `us`. -/
theorem kind_peek_of_tail_eq_nil (h : Extends us t t') (hnil : t.ahead.tail = []) :
    (peek t).kind = .eof ∧ (peek t').kind = (front us).kind := by
  rw [peek_eq, peek_eq, h.tail_ahead, hnil]
  exact ⟨rfl, rfl⟩

/-- A wanted token is found on both tapes or on none of them. At the last semicolon it is found on
none, if it is not the first one of `us`. -/
theorem expecting {Q : Option α → Tape → Prop} {f f' : Tape → Option (Option α × Tape)} {k : Kind}
    (h : Extends us t t') (hk : k ≠ .eof)
    (hus : (current t).kind = .semicolon → (front us).kind ≠ k)
    (hf : (peek t).kind = k → Extends us (Window.advance t) (Window.advance t') →
      Keeps us Q (f (Window.advance t)) (f' (Window.advance t')))
    (hQ : ∀ u, Q Option.none u) :
    Keeps us Q (expecting t k f) (expecting t' k f') := by
  rcases h.terminated.tail with ⟨hnil, hsemi⟩ | htail
  · obtain ⟨hend, hfront⟩ := h.kind_peek_of_tail_eq_nil hnil
    have hpeek : (peek t).is k = false := by
      simpa only [Token.is, hend, beq_eq_false_iff_ne] using hk.symm
    have hpeek' : (peek t').is k = false := by
      simpa only [Token.is, hfront, beq_eq_false_iff_ne] using hus hsemi
    rw [expecting_of_not_is hpeek, expecting_of_not_is hpeek', hend, hfront]
    exact .some (h.record rfl) (hQ _)
  · by_cases hpeek : (peek t).is k = true
    · rw [expecting_of_is hpeek, expecting_of_is (by rwa [h.peek_of_tail htail])]
      exact hf (by simpa [Token.is] using hpeek) (h.advance_of_tail htail)
    · rw [Bool.not_eq_true] at hpeek
      rw [expecting_of_not_is hpeek, expecting_of_not_is (by rwa [h.peek_of_tail htail]),
        h.peek_of_tail htail]
      have hfound : (peek t).kind ≠ .eof := htail.ne_eof _ htail.front_mem
      exact .some (h.record (ParseError.insteadOfEnd_of_ne _ hfound).symm) (hQ _)

/-- A semicolon after a statement is taken in on both tapes or on none of them. -/
theorem skipSemicolon (h : Extends us t t') (hus : (front us).kind ≠ .semicolon) :
    Extends us (skipSemicolon t) (skipSemicolon t') := by
  unfold Window.skipSemicolon
  rcases h.terminated.tail with ⟨hnil, -⟩ | htail
  · obtain ⟨hend, hfront⟩ := h.kind_peek_of_tail_eq_nil hnil
    have hpeek : ¬ (peek t).is .semicolon = true := by simp only [Token.is, hend]; decide
    have hpeek' : ¬ (peek t').is .semicolon = true := by
      simpa only [Token.is, hfront, beq_iff_eq] using hus
    rwa [if_neg hpeek, if_neg hpeek']
  · rw [h.peek_of_tail htail]
    split
    · exact h.advance_of_tail htail
    · exact h

end Extends

/-! ### Expressions with more tokens at the end -/

/-- If an expression was read, it does not end with a semicolon. -/
def OffSemicolon (e? : Option Expr) (t : Tape) : Prop :=
  e?.isSome → (current t).kind ≠ .semicolon

theorem offSemicolon_none (t : Tape) : OffSemicolon none t := by
  simp [OffSemicolon]

/-- The rest of a conditional is given up on both tapes, since no block can follow. -/
theorem Extends.branches {block block' : Tape → Option (Block × Tape)} (h : Extends us t t')
    (hparen : (front us).kind ≠ .rparen) (i : Token) (condition? : Option Expr) :
    Keeps us OffSemicolon (Parse.branches block i condition? t)
      (Parse.branches block' i condition? t') := by
  unfold Parse.branches
  refine h.expecting (by decide) (fun _ => hparen) (fun hclose h₁ => ?_) offSemicolon_none
  have hoff : (current (Window.advance t)).kind ≠ .semicolon := ne_of_eq_of_ne hclose (by decide)
  refine h₁.expecting (by decide) (fun hsemi => absurd hsemi hoff) (fun hbrace _ => ?_)
    offSemicolon_none
  have htail := h₁.terminated.tail_of_ne hoff
  exact absurd hbrace (htail.ne_lbrace _ htail.front_mem)

/-- Every reading of an expression with the fuel `n` does the same on tapes that differ by `us` at
the end. An expression may begin at the last semicolon, where nothing is read; all other readings
begin before it. -/
structure ReadsSame (us : List Token) (n : Nat) : Prop where
  expression : ∀ b ⦃t t'⦄, Extends us t t' →
    Keeps us OffSemicolon (Parse.expression .standard n b t) (Parse.expression .standard n b t')
  climb : ∀ b left ⦃t t'⦄, Extends us t t' → (current t).kind ≠ .semicolon →
    Keeps us OffSemicolon (Parse.climb .standard n b left t) (Parse.climb .standard n b left t')
  binary : ∀ left b ⦃t t'⦄, Extends us t t' → (current t).kind ≠ .semicolon →
    Keeps us OffSemicolon (Parse.binary .standard n left b t) (Parse.binary .standard n left b t')
  leading : ∀ r ⦃t t'⦄, Extends us t t' → (current t).kind ≠ .semicolon →
    Keeps us OffSemicolon (Parse.leading .standard n r t) (Parse.leading .standard n r t')
  conditional : ∀ ⦃t t'⦄, Extends us t t' → (current t).kind ≠ .semicolon →
    Keeps us OffSemicolon (Parse.conditional .standard n t) (Parse.conditional .standard n t')

theorem ReadsSame.zero (us : List Token) : ReadsSame us 0 := by
  constructor <;> intros <;> exact .none

/-- One more unit of fuel. -/
theorem ReadsSame.succ {n : Nat} (hparen : (front us).kind ≠ .rparen) (ih : ReadsSame us n) :
    ReadsSame us (n + 1) where
  expression b t t' h := by
    unfold Parse.expression
    rw [h.current_eq]
    cases hrule : Grammar.standard.leading (current t).kind with
    | none => exact .some (h.record rfl) (offSemicolon_none _)
    | some r =>
      have hoff : (current t).kind ≠ .semicolon := by
        intro hsemi
        have hnone : Grammar.standard.leading .semicolon = none := rfl
        rw [hsemi, hnone] at hrule
        cases hrule
      refine (ih.leading r h hoff).bind fun left? u u' hu hleft => ?_
      cases left? with
      | none => exact .some hu (offSemicolon_none _)
      | some left => exact ih.climb b left hu (hleft rfl)
  climb b left t t' h hoff := by
    by_cases hgo : Grammar.standard.Continues b (peek t).kind
    · have hgo' : Grammar.standard.Continues b (peek t').kind := by rwa [h.peek_of_ne hoff]
      have hop : (current (advance t)).kind ≠ .semicolon := hgo.1
      rw [Parse.climb_of_continues n left hgo, Parse.climb_of_continues n left hgo',
        h.peek_of_ne hoff]
      refine (ih.binary left _ (h.advance hoff) hop).bind fun e? u u' hu he => ?_
      cases e? with
      | none => exact .some hu (offSemicolon_none _)
      | some e => exact ih.climb b e hu (he rfl)
    · have hgo' : ¬ Grammar.standard.Continues b (peek t').kind := by rwa [h.peek_of_ne hoff]
      rw [Parse.climb_of_not_continues n left hgo, Parse.climb_of_not_continues n left hgo']
      exact .some h fun _ => hoff
  binary left b t t' h hoff := by
    unfold Parse.binary
    rw [h.current_eq]
    refine (ih.expression b (h.advance hoff)).bind fun right? u u' hu hright => ?_
    exact .some hu fun hsome => hright (by simpa using hsome)
  leading r t t' h hoff := by
    unfold Parse.leading
    rw [h.current_eq]
    cases r with
    | identifier => exact .some h fun _ => hoff
    | integer =>
      cases Text.signed64? (current t).literal with
      | none => exact .some (h.record rfl) (offSemicolon_none _)
      | some value => exact .some h fun _ => hoff
    | boolean => exact .some h fun _ => hoff
    | unary =>
      refine (ih.expression _ (h.advance hoff)).bind fun operand? u u' hu hoperand => ?_
      exact .some hu fun hsome => hoperand (by simpa using hsome)
    | grouping =>
      refine (ih.expression _ (h.advance hoff)).bind fun e? u u' hu _ => ?_
      refine hu.expecting (by decide) (fun _ => hparen) (fun hclose hv => ?_) offSemicolon_none
      exact .some hv fun _ => ne_of_eq_of_ne hclose (by decide)
    | conditional => exact ih.conditional h hoff
  conditional t t' h hoff := by
    unfold Parse.conditional
    rw [h.current_eq]
    refine h.expecting (by decide) (fun hsemi => absurd hsemi hoff) (fun hopen h₁ => ?_)
      offSemicolon_none
    have hoff₁ : (current (advance t)).kind ≠ .semicolon := ne_of_eq_of_ne hopen (by decide)
    refine (ih.expression _ (h₁.advance hoff₁)).bind fun condition? u u' hu _ => ?_
    exact hu.branches hparen _ condition?

/-- **Expressions are read in the same way with more tokens at the end**, if the first one of these
is no closing parenthesis. -/
theorem readsSame (hparen : (front us).kind ≠ .rparen) (n : Nat) : ReadsSame us n := by
  induction n with
  | zero => exact .zero us
  | succ n ih => exact .succ hparen ih

/-! ### Statements with more tokens at the end -/

/-- The second tape has the tokens of the first one, and the errors `es` in front of its errors. -/
structure Resumes (es : List ParseError) (t t' : Tape) : Prop where
  ahead_eq : t'.ahead = t.ahead
  errors_eq : t'.faults.map Prod.snd = es ++ t.faults.map Prod.snd

/-- Errors that were recorded before do not change how a tape is read. -/
theorem resumes_isSimulation (es : List ParseError) : IsSimulation (Resumes es) where
  current_eq t t' h := by rw [current_eq, current_eq, h.ahead_eq]
  peek_eq t t' h := by rw [peek_eq, peek_eq, h.ahead_eq]
  advance t t' h := ⟨by rw [ahead_advance, ahead_advance, h.ahead_eq], h.errors_eq⟩
  record t t' e h := ⟨h.ahead_eq, by simp [h.errors_eq]⟩

/-- The tapes are read apart: the statements `ss'` are those of the first tape `t`, read with the
fuel `n`, and then those of the tokens `us`, and so are the errors of the tape `u'`. -/
def ReadsApart (us : List Token) (n : Nat) (t : Tape) (ss' : List Stmt) (u' : Tape) : Prop :=
  ∃ ss u m others v,
    Parse.statements .standard n [.eof] t = some (ss, u) ∧
    Parse.statements .standard m [.eof] (ofTokens us) = some (others, v) ∧
    ss' = ss ++ others ∧
    u'.faults.map Prod.snd =
      (u.faults.map Prod.snd).map (ParseError.insteadOfEnd (front us).kind) ++
        v.faults.map Prod.snd

section Statements

variable (hsemi : (front us).kind ≠ .semicolon) (hparen : (front us).kind ≠ .rparen)

include hsemi hparen

/-- A statement is read in the same way on both tapes by the rule of its first token. -/
theorem Extends.opening {r : StatementRule} (h : Extends us t t')
    (hr : (Grammar.standard.statement (current t).kind).getD .expression = r) (n : Nat) :
    Keeps us (fun _ _ => True) (Parse.opening .standard n r t)
      (Parse.opening .standard n r t') := by
  cases n with
  | zero => exact .none
  | succ n =>
    have ih := readsSame hparen n
    unfold Parse.opening
    rw [h.current_eq]
    cases r with
    | binding =>
      have hoff : (current t).kind ≠ .semicolon :=
        ne_of_eq_of_ne (Grammar.statement_standard_eq_binding.mp hr) (by decide)
      refine h.expecting (by decide) (fun hend => absurd hend hoff) (fun hname h₁ => ?_)
        fun _ => trivial
      have hoff₁ : (current (Window.advance t)).kind ≠ .semicolon :=
        ne_of_eq_of_ne hname (by decide)
      refine h₁.expecting (by decide) (fun hend => absurd hend hoff₁) (fun hassign h₂ => ?_)
        fun _ => trivial
      have hoff₂ : (current (Window.advance (Window.advance t))).kind ≠ .semicolon :=
        ne_of_eq_of_ne hassign (by decide)
      rw [h₁.current_eq]
      exact (ih.expression _ (h₂.advance hoff₂)).bind fun value u u' hu _ =>
        .some (hu.skipSemicolon hsemi) trivial
    | result =>
      have hoff : (current t).kind ≠ .semicolon :=
        ne_of_eq_of_ne (Grammar.statement_standard_eq_result.mp hr) (by decide)
      exact (ih.expression _ (h.advance hoff)).bind fun value u u' hu _ =>
        .some (hu.skipSemicolon hsemi) trivial
    | expression =>
      exact (ih.expression _ h).bind fun e? u u' hu _ => .some (hu.skipSemicolon hsemi) trivial

theorem Extends.statement (h : Extends us t t') (n : Nat) :
    Alike (Extends us) (Parse.statement .standard n t) (Parse.statement .standard n t') := by
  cases n with
  | zero => exact .none
  | succ n =>
    unfold Parse.statement
    rw [h.current_eq]
    exact (h.opening hsemi hparen rfl n).alike

/-- **Statements up to the last semicolon, and those after it.** What is read from the joined tape
is what is read from the first one alone, and then what is read from the other tokens alone. -/
theorem Joined.statements_ensures (n : Nat) {t t' : Tape} (h : Joined us t t')
    (hahead : t.ahead = [] ∨ Terminated t.ahead) :
    Ensures (ReadsApart us n t) (Parse.statements .standard n [.eof] t') := by
  induction n generalizing t t' with
  | zero => exact .none
  | succ n ih =>
    rcases hahead with hnil | hterm
    · -- The first tape is at its end, and the second one has nothing but `us` left.
      let es := (t.faults.map Prod.snd).map (ParseError.insteadOfEnd (front us).kind)
      have hresumes : Resumes es (ofTokens us) t' := by
        refine ⟨?_, ?_⟩
        · rw [h.ahead_eq, hnil, List.nil_append, ofTokens]
        · simpa [es, ofTokens] using h.errors_eq
      have hend : Parse.statements .standard (n + 1) [.eof] t = some ([], t) := by
        rw [Parse.statements, if_pos (by rw [current_eq, hnil]; decide)]
      have halike := ((resumes_isSimulation es).readsAlike .standard (n + 1)).statements [.eof]
        hresumes
      refine halike.ensures.mono ?_
      rintro others u' ⟨v, hv, hread⟩
      exact ⟨[], t, n + 1, others, v, hend, hread, rfl, hv.errors_eq⟩
    · have hext : Extends us t t' := ⟨h, hterm⟩
      have hne : (current t).kind ∉ [Kind.eof] := by
        simpa using hterm.ne_eof _ hterm.front_mem
      rw [Parse.statements, if_neg (by rwa [hext.current_eq])]
      refine (hext.statement hsemi hparen n).ensures.bind ?_
      rintro first? u' ⟨u, hu, hfirst⟩
      refine (ih hu.joined_advance (hu.terminated.tail.imp_left And.left)).bind ?_
      rintro ss' w' ⟨ss, w, m, others, v, hss, hothers, rfl, herrors⟩
      have hread : Parse.statements .standard (n + 1) [.eof] t = some (first?.toList ++ ss, w) := by
        rw [Parse.statements, if_neg hne]
        simp [hfirst, hss]
      exact .some ⟨_, w, m, others, v, hread, hothers, (List.append_assoc ..).symm, herrors⟩

end Statements

end Tape

/-- **Errors end with their statement.** If a text without opening braces ends with a semicolon,
then, whatever is wrong in it, another text can follow: its statements come first, then those of the
other text, and so do the errors. Where an error of the first text speaks of its end, it speaks of
the first token of the other text instead. This must not be a semicolon, which would go on with the
last statement, nor a closing parenthesis. -/
theorem parse_append_of_semicolon {a b : String} (hbrace : ∀ t ∈ tokenize a, t.kind ≠ .lbrace)
    (hlast : ∃ t ∈ (tokenize a).dropLast.getLast?, t.kind = .semicolon)
    (hsemi : (front (tokenize b)).kind ≠ .semicolon)
    (hparen : (front (tokenize b)).kind ≠ .rparen) :
    parse (a ++ b) =
      ⟨⟨(parse a).program.statements ++ (parse b).program.statements⟩,
        (parse a).errors.map (ParseError.insteadOfEnd (front (tokenize b)).kind) ++
          (parse b).errors⟩ := by
  rw [front_tokenize] at hsemi hparen ⊢
  rw [dropLast_tokenize, tokens_ofString] at hlast
  have hterm : Terminated (lex a.toList) := by
    refine ⟨hlast, fun t ht => hbrace t ?_, fun t ht => (genuine_of_mem_lex ht).kind_ne_eof⟩
    rw [tokenize_eq]
    exact List.mem_append_left _ ht
  have hlex : lex (a ++ b).toList = lex a.toList ++ lex b.toList := by
    rw [String.toList_append]
    refine lex_append_of_not_takes fun t ht c _ => ?_
    obtain ⟨t', ht', hkind⟩ := hlast
    obtain rfl : t = t' := Option.mem_unique ht ht'
    rw [hkind]
    exact Kind.not_takes_semicolon c
  have hjoined : Tape.Joined (lex b.toList) (Tape.ofTokens (lex a.toList))
      (Tape.ofTokens (lex (a ++ b).toList)) := ⟨hlex, rfl⟩
  obtain ⟨n, ss, u, hss, ha⟩ := exists_statements_eq a
  obtain ⟨m, others, v, hothers, hb⟩ := exists_statements_eq b
  obtain ⟨l, both, w, hboth, hab⟩ := exists_statements_eq (a ++ b)
  obtain ⟨ss', u', k, others', v', hss', hothers', rfl, herrors⟩ :=
    hjoined.statements_ensures hsemi hparen l (.inr hterm) both w hboth
  obtain ⟨rfl, rfl⟩ := Prod.mk.inj (Parse.statements_unique hss hss')
  obtain ⟨rfl, rfl⟩ := Prod.mk.inj (Parse.statements_unique hothers hothers')
  rw [ha, hb, hab, herrors]

/-- Two groups and a condition are left open at semicolons, a third group at the last one, and an
operand is missing after it. -/
theorem parse_append_of_semicolon_unclosed :
    parse ("let x = ((1; if (; (;" ++ "return y * ; z") =
      ⟨⟨(parse "let x = ((1; if (; (;").program.statements ++
          (parse "return y * ; z").program.statements⟩,
        (parse "let x = ((1; if (; (;").errors.map (ParseError.insteadOfEnd .returnKey) ++
          (parse "return y * ; z").errors⟩ ∧
      ParseError.unexpected .rparen .eof ∈ (parse "let x = ((1; if (; (;").errors ∧
      (parse "return y * ; z").errors ≠ [] := by
  refine ⟨?_, by decide +kernel, by decide +kernel⟩
  have hfront : (front (tokenize "return y * ; z")).kind = .returnKey := by decide +kernel
  have happend := parse_append_of_semicolon (a := "let x = ((1; if (; (;")
    (b := "return y * ; z") (by decide +kernel) ⟨⟨.semicolon, ";"⟩, by decide +kernel, rfl⟩
    (by rw [hfront]; decide) (by rw [hfront]; decide)
  rwa [hfront] at happend

end FrontEnd
