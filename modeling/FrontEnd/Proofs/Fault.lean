import FrontEnd.Proofs.Reading

/-!
# Readings with an error

The relations of this file say where the first error of a reading is met. Like those for readings
without errors they follow the reading functions, but only up to the first error: what was read
before it was read without errors, and what comes after it plays no part. Each relation ends in the
tokens from the one on that the error speaks of, and the error.

## Main definitions

* `FrontEnd.FaultsExpression`, `FrontEnd.FaultsClimb`, `FrontEnd.FaultsLeading`,
  `FrontEnd.FaultsOpening`, `FrontEnd.FaultsStatements` — the relations. A block has none of its
  own: its errors are those of its statements.
* `FrontEnd.Tape.Marks` — the first error after a tape, with its place.
* `FrontEnd.Grammar.Bounded` — no expression begins or goes on with the end token.

## Main results

* `FrontEnd.FaultsStatements.ensures` and the same for the other relations — the reading functions
  record the error that the relations tell, as the first one.
* `FrontEnd.reads_or_faults` — statements are read without errors, or there is a first error.
-/

namespace FrontEnd

mutual

/-- The first error in an expression whose operators all bind more tightly than `b`. -/
inductive FaultsExpression (g : Grammar) :
    Power → List Token → List Token → ParseError → Prop
  | noRule {b ts} (hrule : g.leading (front ts).kind = none) :
      FaultsExpression g b ts ts (.noExpression (front ts).kind)
  | leading {b r t ts us err} (hrule : g.leading t.kind = some r)
      (hleft : FaultsLeading g r (t :: ts) us err) : FaultsExpression g b (t :: ts) us err
  | climb {b r t ts left vs us err} (hrule : g.leading t.kind = some r)
      (hleft : ReadsLeading g r (t :: ts) left vs) (hclimb : FaultsClimb g b vs us err) :
      FaultsExpression g b (t :: ts) us err

/-- The first error after the first operand of an expression: in a right operand. -/
inductive FaultsClimb (g : Grammar) : Power → List Token → List Token → ParseError → Prop
  | operand {b op ts us err} (hop : g.Continues b op.kind)
      (hright : FaultsExpression g (g.power op.kind) ts us err) :
      FaultsClimb g b (op :: ts) us err
  | later {b op ts right vs us err} (hop : g.Continues b op.kind)
      (hright : ReadsExpression g (g.power op.kind) ts right vs)
      (hclimb : FaultsClimb g b vs us err) : FaultsClimb g b (op :: ts) us err

/-- The first error in an operand by a leading rule. -/
inductive FaultsLeading (g : Grammar) : LeadingRule → List Token → List Token → ParseError → Prop
  | integer {t ts} (hvalue : Text.signed64? t.literal = none) :
      FaultsLeading g .integer (t :: ts) (t :: ts) (.badInteger t.literal)
  | unary {t ts us err} (hoperand : FaultsExpression g .unary ts us err) :
      FaultsLeading g .unary (t :: ts) us err
  | grouping {t ts us err} (hinner : FaultsExpression g .lowest ts us err) :
      FaultsLeading g .grouping (t :: ts) us err
  | unclosed {t ts e us} (hinner : ReadsExpression g .lowest ts e us)
      (hclose : (front us).kind ≠ .rparen) :
      FaultsLeading g .grouping (t :: ts) us (.unexpected .rparen (front us).kind)
  | noCondition {t ts} (hopen : (front ts).kind ≠ .lparen) :
      FaultsLeading g .conditional (t :: ts) ts (.unexpected .lparen (front ts).kind)
  | condition {t o ts us err} (hopen : o.kind = .lparen)
      (hcondition : FaultsExpression g .lowest ts us err) :
      FaultsLeading g .conditional (t :: o :: ts) us err
  | unclosedCondition {t o ts c us} (hopen : o.kind = .lparen)
      (hcondition : ReadsExpression g .lowest ts c us) (hclose : (front us).kind ≠ .rparen) :
      FaultsLeading g .conditional (t :: o :: ts) us (.unexpected .rparen (front us).kind)
  | noBlock {t o ts c close us} (hopen : o.kind = .lparen)
      (hcondition : ReadsExpression g .lowest ts c (close :: us)) (hclose : close.kind = .rparen)
      (hbrace : (front us).kind ≠ .lbrace) :
      FaultsLeading g .conditional (t :: o :: ts) us (.unexpected .lbrace (front us).kind)
  | block {t o ts c close brace vs us err} (hopen : o.kind = .lparen)
      (hcondition : ReadsExpression g .lowest ts c (close :: brace :: vs))
      (hclose : close.kind = .rparen) (hbrace : brace.kind = .lbrace)
      (hblock : FaultsStatements g [.rbrace, .eof] vs us err) :
      FaultsLeading g .conditional (t :: o :: ts) us err
  | noAlternative {t o ts c close brace vs first other us} (hopen : o.kind = .lparen)
      (hcondition : ReadsExpression g .lowest ts c (close :: brace :: vs))
      (hclose : close.kind = .rparen) (hbrace : brace.kind = .lbrace)
      (hblock : ReadsBlock g (brace :: vs) first (other :: us)) (helse : other.kind = .elseKey)
      (hbrace' : (front us).kind ≠ .lbrace) :
      FaultsLeading g .conditional (t :: o :: ts) us (.unexpected .lbrace (front us).kind)
  | alternative {t o ts c close brace vs first other brace' ws us err} (hopen : o.kind = .lparen)
      (hcondition : ReadsExpression g .lowest ts c (close :: brace :: vs))
      (hclose : close.kind = .rparen) (hbrace : brace.kind = .lbrace)
      (hblock : ReadsBlock g (brace :: vs) first (other :: brace' :: ws))
      (helse : other.kind = .elseKey) (hbrace' : brace'.kind = .lbrace)
      (hblock' : FaultsStatements g [.rbrace, .eof] ws us err) :
      FaultsLeading g .conditional (t :: o :: ts) us err

/-- The first error in a statement by a statement rule. -/
inductive FaultsOpening (g : Grammar) :
    StatementRule → List Token → List Token → ParseError → Prop
  | noName {t ts} (hname : (front ts).kind ≠ .ident) :
      FaultsOpening g .binding (t :: ts) ts (.unexpected .ident (front ts).kind)
  | noAssign {t name ts} (hname : name.kind = .ident) (hassign : (front ts).kind ≠ .assign) :
      FaultsOpening g .binding (t :: name :: ts) ts (.unexpected .assign (front ts).kind)
  | binding {t name assign ts us err} (hname : name.kind = .ident)
      (hassign : assign.kind = .assign) (hvalue : FaultsExpression g .lowest ts us err) :
      FaultsOpening g .binding (t :: name :: assign :: ts) us err
  | result {t ts us err} (hvalue : FaultsExpression g .lowest ts us err) :
      FaultsOpening g .result (t :: ts) us err
  | expression {ts us err} (hexpr : FaultsExpression g .lowest ts us err) :
      FaultsOpening g .expression ts us err

/-- The first error in statements up to a token of a kind in `stop`. -/
inductive FaultsStatements (g : Grammar) :
    List Kind → List Token → List Token → ParseError → Prop
  | first {stop t ts us err} (hstop : t.kind ∉ stop)
      (hfirst : FaultsOpening g ((g.statement t.kind).getD .expression) (t :: ts) us err) :
      FaultsStatements g stop (t :: ts) us err
  | later {stop t ts first vs us err} (hstop : t.kind ∉ stop)
      (hfirst : ReadsOpening g ((g.statement t.kind).getD .expression) (t :: ts) first vs)
      (hothers : FaultsStatements g stop vs us err) : FaultsStatements g stop (t :: ts) us err

end

/-! ### The reading functions follow the relations -/

namespace Tape

open Window

/-- Since the tape `t`, the first error that was recorded is `err`, with the tokens `us` from the
one on that it speaks of. -/
def Marks (t : Tape) (us : List Token) (err : ParseError) (t' : Tape) : Prop :=
  t.faults ++ [(us, err)] <+: t'.faults

variable {t t₁ t₂ : Tape} {us : List Token} {err : ParseError}

/-- What is done after the first error leaves it the first. -/
theorem Marks.reaches (h : Marks t us err t₁) (hr : Reaches t₁ t₂) : Marks t us err t₂ :=
  h.trans (faults_prefix_of_reaches hr)

/-- What is done without errors before the first error leaves it the first. -/
theorem Marks.of_faults_eq (h : Marks t₁ us err t₂) (hf : t₁.faults = t.faults) :
    Marks t us err t₂ := by
  unfold Marks at h ⊢
  rwa [hf] at h

theorem marks_record (t : Tape) (err : ParseError) :
    Marks t (err.blamed t.ahead) err (record t err) :=
  List.prefix_rfl

variable {α β : Type}

/-- A reading that goes on after the first error. -/
theorem Ensures.marks_bind {x : Option (α × Tape)} {f : α × Tape → Option (β × Tape)}
    (hx : Ensures (fun _ => Marks t us err) x)
    (hf : ∀ a t', Ensures (fun _ => Reaches t') (f (a, t'))) :
    Ensures (fun _ => Marks t us err) (x >>= f) :=
  hx.bind fun a t' ht => (hf a t').mono fun _ _ => ht.reaches

/-- A reading that meets the first error after nothing else went wrong. -/
theorem Ensures.marks_of_faults_eq {x : Option (α × Tape)}
    (hx : Ensures (fun _ => Marks t₁ us err) x) (hf : t₁.faults = t.faults) :
    Ensures (fun _ => Marks t us err) x :=
  hx.mono fun _ _ h => h.of_faults_eq hf

/-- A token of another kind than the wanted one is an error. -/
theorem Ensures.marks_expecting {k : Kind} {f : Tape → Option (Option α × Tape)}
    (hk : (front t.ahead.tail).kind ≠ k) :
    Ensures (fun _ => Marks t t.ahead.tail (.unexpected k (front t.ahead.tail).kind))
      (expecting t k f) :=
  Ensures.expecting (fun h => absurd h hk) fun _ => marks_record t (.unexpected k _)

end Tape

section Ensures

open Window Tape

variable {g : Grammar} {us : List Token} {err : ParseError}

/-- The first error in the right operand of a binary operator. -/
theorem Parse.binary_marks {b : Power} {ts : List Token}
    (hright : ∀ n (t : Tape), t.ahead = ts →
      Ensures (fun _ => Marks t us err) (expression g n b t))
    (left : Expr) (n : Nat) (t : Tape) (ht : t.ahead.tail = ts) :
    Ensures (fun _ => Marks t us err) (binary g n left b t) := by
  cases n with
  | zero => exact .none
  | succ n =>
    rw [binary]
    exact Ensures.marks_bind (hright n (advance t) ht) fun _ t' => .some (.refl t')

/-- The first error in a block is that in its statements. -/
theorem Parse.block_marks {ts : List Token}
    (hbody : ∀ n (t : Tape), t.ahead = ts →
      Ensures (fun _ => Marks t us err) (statements g n [.rbrace, .eof] t))
    (n : Nat) (t : Tape) (ht : t.ahead.tail = ts) :
    Ensures (fun _ => Marks t us err) (block g n t) := by
  cases n with
  | zero => exact .none
  | succ n =>
    rw [block]
    exact Ensures.marks_bind (hbody n (advance t) ht) fun _ t' => .some (.refl t')

/-- The first error in a conditional comes after an opening parenthesis, in the condition or after
it. -/
theorem Parse.conditional_marks {i o : Token} {ts : List Token} (hopen : o.kind = .lparen)
    (hrest : ∀ n (t : Tape), t.ahead = ts → Ensures (fun _ => Marks t us err) (do
      let (condition?, t) ← expression g n .lowest t
      branches (block g n) i condition? t))
    (n : Nat) (t : Tape) (ht : t.ahead = i :: o :: ts) :
    Ensures (fun _ => Marks t us err) (conditional g n t) := by
  cases n with
  | zero => exact .none
  | succ n =>
    have hcur : current t = i := by simp [ht]
    rw [conditional, hcur]
    refine Ensures.expecting (fun _ => ?_) fun hne => absurd (by simpa [ht] using hopen) hne
    exact hrest n (advance (advance t)) (by simp [ht])

/-- The first error after a condition that was read: there is no closing parenthesis. -/
theorem Parse.branches_marks_close (block : Tape → Option (Block × Tape)) (i : Token)
    (condition? : Option Expr) (t : Tape) (ht : t.ahead.tail = us)
    (hclose : (front us).kind ≠ .rparen) :
    Ensures (fun _ => Marks t us (.unexpected .rparen (front us).kind))
      (branches block i condition? t) := by
  subst ht
  exact Ensures.marks_expecting hclose

/-- The first error after a condition in parentheses: there is no opening brace. -/
theorem Parse.branches_marks_brace (block : Tape → Option (Block × Tape)) (i : Token)
    (condition? : Option Expr) (t : Tape) {close : Token} (ht : t.ahead.tail = close :: us)
    (hclose : close.kind = .rparen) (hbrace : (front us).kind ≠ .lbrace) :
    Ensures (fun _ => Marks t us (.unexpected .lbrace (front us).kind))
      (branches block i condition? t) := by
  rw [branches]
  refine Ensures.expecting (fun _ => ?_) fun hne => absurd (by simpa [ht] using hclose) hne
  have hus : (advance t).ahead.tail = us := by simp [ht]
  subst hus
  exact Ensures.marks_of_faults_eq (Ensures.marks_expecting hbrace) rfl

/-- The first error in the first block of a conditional. -/
theorem Parse.branches_marks_first {n : Nat} (i : Token) (condition? : Option Expr) (t : Tape)
    {close brace : Token} {vs : List Token} (ht : t.ahead.tail = close :: brace :: vs)
    (hclose : close.kind = .rparen) (hbrace : brace.kind = .lbrace)
    (hblock : ∀ t : Tape, t.ahead.tail = vs → Ensures (fun _ => Marks t us err) (block g n t)) :
    Ensures (fun _ => Marks t us err) (branches (block g n) i condition? t) := by
  rw [branches]
  refine Ensures.expecting (fun _ => ?_) fun hne => absurd (by simpa [ht] using hclose) hne
  refine Ensures.expecting (fun _ => ?_) fun hne => absurd (by simpa [ht] using hbrace) hne
  have hfirst := hblock (advance (advance t)) (by simp [ht])
  refine Ensures.marks_bind (hfirst.mono fun _ _ h => h.of_faults_eq rfl) fun first t' => ?_
  dsimp only
  split
  · refine (Reaches.refl t').advance.expecting ?_
    exact (((movesOnly g n).block _).reaches (.advance (.advance (.refl t')))).bind fun _ _ h =>
      .some h
  · exact .some (.refl t')

/-- The first error after the first block of a conditional, where `else` comes next. -/
theorem Parse.branches_marks_second {n : Nat} (i : Token) (condition? : Option Expr) (t : Tape)
    {close brace other : Token} {first : Block} {vs ws : List Token}
    (ht : t.ahead.tail = close :: brace :: vs) (hclose : close.kind = .rparen)
    (hbrace : brace.kind = .lbrace)
    (hblock : ∀ t : Tape, t.ahead = brace :: vs →
      Ensures (Clean t first (other :: ws)) (block g n t))
    (helse : other.kind = .elseKey)
    (hrest : ∀ {f : Tape → Option (Option Expr × Tape)} (t : Tape), t.ahead.tail = ws →
      (∀ t, f t = do
        let (second, t) ← block g n t
        some (condition?.map fun condition => .conditional i condition first (some second), t)) →
      Ensures (fun _ => Marks t us err) (expecting t .lbrace f)) :
    Ensures (fun _ => Marks t us err) (branches (block g n) i condition? t) := by
  rw [branches]
  refine Ensures.expecting (fun _ => ?_) fun hne => absurd (by simpa [ht] using hclose) hne
  refine Ensures.expecting (fun _ => ?_) fun hne => absurd (by simpa [ht] using hbrace) hne
  refine (hblock _ (by simp [ht])).bind fun first' t₁ h₁ => ?_
  obtain ⟨rfl, hf₁, hr₁⟩ := h₁
  simp only
  rw [if_pos (by simpa [Token.is, hr₁] using helse)]
  refine Ensures.marks_of_faults_eq (hrest (advance t₁) (by simp [hr₁]) fun _ => rfl) ?_
  exact hf₁

mutual

theorem FaultsExpression.ensures : ∀ {b ts us err}, FaultsExpression g b ts us err →
    ∀ n (t : Tape), t.ahead = ts → Ensures (fun _ => Marks t us err) (Parse.expression g n b t)
  | _, _, _, _, _, 0, _, _ => .none
  | _, _, _, _, .noRule hrule, n + 1, t, ht => by
    subst ht
    rw [Parse.expression]
    simp only [current_eq, hrule]
    exact .some (marks_record t (.noExpression _))
  | _, _, _, _, .leading hrule hleft, n + 1, ⟨_, fs⟩, rfl => by
    rw [Parse.expression]
    simp only [current_eq, front_cons, hrule]
    refine Ensures.marks_bind (hleft.ensures n _ rfl) fun left? t' => ?_
    cases left? with
    | none => exact .some (.refl t')
    | some left => exact (movesOnly g n).climb _ left t'
  | _, _, _, _, .climb hrule hleft hclimb, n + 1, ⟨_, fs⟩, rfl => by
    rw [Parse.expression]
    simp only [current_eq, front_cons, hrule]
    refine (hleft.ensures n _ rfl).bind fun left? t₁ h₁ => ?_
    obtain ⟨rfl, hf₁, hr₁⟩ := h₁
    exact Ensures.marks_of_faults_eq (hclimb.ensures n _ t₁ hr₁) hf₁

theorem FaultsClimb.ensures : ∀ {b ts us err}, FaultsClimb g b ts us err →
    ∀ n left (t : Tape), t.ahead.tail = ts →
      Ensures (fun _ => Marks t us err) (Parse.climb g n b left t)
  | _, _, _, _, _, 0, _, _, _ => .none
  | _, _, _, _, .operand hop hright, n + 1, left, t, ht => by
    rw [Parse.climb_of_continues n _ (by simpa [ht] using hop)]
    simp only [peek_eq, ht, front_cons]
    have hbinary := Parse.binary_marks (fun n t => hright.ensures n t) left n (advance t)
      (by simp [ht])
    refine Ensures.marks_bind (hbinary.mono fun _ _ h => h.of_faults_eq rfl) fun e? t' => ?_
    cases e? with
    | none => exact .some (.refl t')
    | some e => exact (movesOnly g n).climb _ e t'
  | _, _, _, _, .later hop hright hclimb, n + 1, left, t, ht => by
    rw [Parse.climb_of_continues n _ (by simpa [ht] using hop)]
    simp only [peek_eq, ht, front_cons]
    have hbinary := Parse.binary_ensures (fun n t => hright.ensures n t) left _ n (advance t) ht
    refine hbinary.bind fun e? t₁ h₁ => ?_
    obtain ⟨rfl, hf₁, hr₁⟩ := h₁
    exact Ensures.marks_of_faults_eq (hclimb.ensures n _ t₁ hr₁) hf₁

theorem FaultsLeading.ensures : ∀ {r ts us err}, FaultsLeading g r ts us err →
    ∀ n (t : Tape), t.ahead = ts → Ensures (fun _ => Marks t us err) (Parse.leading g n r t)
  | _, _, _, _, _, 0, _, _ => .none
  | _, _, _, _, .integer hvalue, n + 1, ⟨_, fs⟩, rfl => by
    rw [Parse.leading]
    simp only [current_eq, front_cons, hvalue]
    exact .some (marks_record _ (.badInteger _))
  | _, _, _, _, .unary hoperand, n + 1, ⟨_, fs⟩, rfl => by
    rw [Parse.leading]
    exact Ensures.marks_bind (hoperand.ensures n _ rfl) fun _ t' => .some (.refl t')
  | _, _, _, _, .grouping hinner, n + 1, ⟨_, fs⟩, rfl => by
    rw [Parse.leading]
    refine Ensures.marks_bind (hinner.ensures n _ rfl) fun _ t' => ?_
    exact (Reaches.refl t').expecting (.some (.advance (.refl t')))
  | _, _, _, _, .unclosed hinner hclose, n + 1, ⟨_, fs⟩, rfl => by
    rw [Parse.leading]
    refine (hinner.ensures n _ rfl).bind fun e? t₁ h₁ => ?_
    obtain ⟨rfl, hf₁, rfl⟩ := h₁
    exact Ensures.marks_of_faults_eq (Ensures.marks_expecting hclose) hf₁
  | _, _, _, _, .noCondition hopen, 1, _, _ => .none
  | _, _, _, _, .noCondition hopen, n + 2, ⟨_, fs⟩, rfl => by
    rw [Parse.leading, Parse.conditional]
    exact Ensures.marks_expecting hopen
  | _, _, _, _, .condition hopen hcondition, n + 1, t, ht => by
    rw [Parse.leading]
    refine Parse.conditional_marks hopen (fun n t ht => ?_) n t ht
    refine Ensures.marks_bind (hcondition.ensures n t ht) fun c? t' => ?_
    exact reaches_branches (movesOnly g n).block _ c? t'
  | _, _, _, _, .unclosedCondition hopen hcondition hclose, n + 1, t, ht => by
    rw [Parse.leading]
    refine Parse.conditional_marks hopen (fun n t ht => ?_) n t ht
    refine (hcondition.ensures n t ht).bind fun c? t₁ h₁ => ?_
    exact Ensures.marks_of_faults_eq (Parse.branches_marks_close _ _ _ t₁ h₁.tail_eq hclose)
      h₁.faults_eq
  | _, _, _, _, .noBlock hopen hcondition hclose hbrace, n + 1, t, ht => by
    rw [Parse.leading]
    refine Parse.conditional_marks hopen (fun n t ht => ?_) n t ht
    refine (hcondition.ensures n t ht).bind fun c? t₁ h₁ => ?_
    exact Ensures.marks_of_faults_eq
      (Parse.branches_marks_brace _ _ _ t₁ h₁.tail_eq hclose hbrace) h₁.faults_eq
  | _, _, _, _, .block hopen hcondition hclose hbrace hblock, n + 1, t, ht => by
    rw [Parse.leading]
    refine Parse.conditional_marks hopen (fun n t ht => ?_) n t ht
    refine (hcondition.ensures n t ht).bind fun c? t₁ h₁ => ?_
    refine Ensures.marks_of_faults_eq ?_ h₁.faults_eq
    exact Parse.branches_marks_first _ c? t₁ h₁.tail_eq hclose hbrace
      (Parse.block_marks (fun n t => hblock.ensures n t) n)
  | _, _, _, _, .noAlternative hopen hcondition hclose hbrace hblock helse hbrace', n + 1, t,
      ht => by
    rw [Parse.leading]
    refine Parse.conditional_marks hopen (fun n t ht => ?_) n t ht
    refine (hcondition.ensures n t ht).bind fun c? t₁ h₁ => ?_
    refine Ensures.marks_of_faults_eq ?_ h₁.faults_eq
    refine Parse.branches_marks_second _ c? t₁ h₁.tail_eq hclose hbrace (hblock.ensures n) helse ?_
    rintro f t₂ rfl -
    exact Ensures.marks_expecting hbrace'
  | _, _, _, _, .alternative hopen hcondition hclose hbrace hblock helse hbrace' hblock', n + 1, t,
      ht => by
    rw [Parse.leading]
    refine Parse.conditional_marks hopen (fun n t ht => ?_) n t ht
    refine (hcondition.ensures n t ht).bind fun c? t₁ h₁ => ?_
    refine Ensures.marks_of_faults_eq ?_ h₁.faults_eq
    refine Parse.branches_marks_second _ c? t₁ h₁.tail_eq hclose hbrace (hblock.ensures n) helse ?_
    intro f t₂ ht₂ hf
    refine Ensures.expecting (fun _ => ?_) fun hne => absurd (by simpa [ht₂] using hbrace') hne
    have hsecond :=
      Parse.block_marks (fun n t => hblock'.ensures n t) n (advance t₂) (by simp [ht₂])
    rw [hf]
    exact Ensures.marks_bind (hsecond.mono fun _ _ h => h.of_faults_eq rfl) fun _ t' =>
      .some (.refl t')

theorem FaultsOpening.ensures : ∀ {r ts us err}, FaultsOpening g r ts us err →
    ∀ n (t : Tape), t.ahead = ts → Ensures (fun _ => Marks t us err) (Parse.opening g n r t)
  | _, _, _, _, _, 0, _, _ => .none
  | _, _, _, _, .noName hname, n + 1, ⟨_, fs⟩, rfl => by
    rw [Parse.opening]
    exact Ensures.marks_expecting hname
  | _, _, _, _, .noAssign hname hassign, n + 1, ⟨_, fs⟩, rfl => by
    rw [Parse.opening]
    refine Ensures.expecting (fun _ => ?_) fun hne => absurd hname hne
    exact Ensures.marks_expecting (t := advance ⟨_, fs⟩) hassign
  | _, _, _, _, .binding hname hassign hvalue, n + 1, ⟨_, fs⟩, rfl => by
    rw [Parse.opening]
    refine Ensures.expecting (fun _ => ?_) fun hne => absurd hname hne
    refine Ensures.expecting (fun _ => ?_) fun hne => absurd hassign hne
    exact Ensures.marks_bind (hvalue.ensures n _ rfl) fun _ t' => .some (.skipSemicolon (.refl t'))
  | _, _, _, _, .result hvalue, n + 1, ⟨_, fs⟩, rfl => by
    rw [Parse.opening]
    exact Ensures.marks_bind (hvalue.ensures n _ rfl) fun _ t' => .some (.skipSemicolon (.refl t'))
  | _, _, _, _, .expression hexpr, n + 1, t, ht => by
    rw [Parse.opening]
    exact Ensures.marks_bind (hexpr.ensures n t ht) fun _ t' => .some (.skipSemicolon (.refl t'))

theorem FaultsStatements.ensures : ∀ {stop ts us err}, FaultsStatements g stop ts us err →
    ∀ n (t : Tape), t.ahead = ts →
      Ensures (fun _ => Marks t us err) (Parse.statements g n stop t)
  | _, _, _, _, _, 0, _, _ => .none
  | _, _, _, _, .first hstop _, 1, t, ht => by
    rw [Parse.statements, if_neg (by simpa [ht] using hstop)]
    exact .none
  | _, _, _, _, .first hstop hfirst, n + 2, ⟨_, fs⟩, rfl => by
    rw [Parse.statements, if_neg (by simpa using hstop), Parse.statement]
    refine Ensures.marks_bind (hfirst.ensures n _ rfl) fun first? t' => ?_
    exact (((movesOnly g (n + 1)).statements _ _).reaches (.advance (.refl t'))).bind fun _ _ h =>
      .some h
  | _, _, _, _, .later hstop _ _, 1, t, ht => by
    rw [Parse.statements, if_neg (by simpa [ht] using hstop)]
    exact .none
  | _, _, _, _, .later hstop hfirst hothers, n + 2, ⟨_, fs⟩, rfl => by
    rw [Parse.statements, if_neg (by simpa using hstop), Parse.statement]
    refine (hfirst.ensures n _ rfl).bind fun first? t₁ h₁ => ?_
    obtain ⟨rfl, hf₁, hr₁⟩ := h₁
    have hlater := hothers.ensures (n + 1) (advance t₁) hr₁
    exact Ensures.marks_bind (hlater.mono fun _ _ h => h.of_faults_eq hf₁) fun _ t' =>
      .some (.refl t')

end

end Ensures

/-! ### Nothing else can happen -/

/-- No expression begins or goes on with the end token. -/
structure Grammar.Bounded (g : Grammar) : Prop where
  /-- No expression begins with the end token. -/
  leading_eof : g.leading .eof = none
  /-- No expression goes on with it. -/
  trailing_eof : g.trailing .eof = none

theorem Grammar.Bounded.not_continues {g : Grammar} (hg : g.Bounded) (b : Power) :
    ¬ g.Continues b .eof := by
  rintro ⟨-, -, h⟩
  exact absurd (hg.trailing_eof.symm.trans h) (by simp)

/-- Something is read, or there is a first error. -/
def Settles {α : Type} (reads : α → List Token → Prop)
    (faults : List Token → ParseError → Prop) : Prop :=
  (∃ a rest, reads a rest) ∨ ∃ us err, faults us err

section Settles

variable {g : Grammar} {n : Nat}

/-- Expressions on fewer than `n` tokens settle. -/
def ExpressionsSettle (g : Grammar) (n : Nat) : Prop :=
  ∀ b ts, ts.length < n → Settles (ReadsExpression g b ts) (FaultsExpression g b ts)

/-- Statements on fewer than `n` tokens settle, if they end at the end token at the latest. -/
def StatementsSettle (g : Grammar) (n : Nat) : Prop :=
  ∀ stop ts, .eof ∈ stop → ts.length < n →
    Settles (ReadsStatements g stop ts) (FaultsStatements g stop ts)

theorem climb_settles (hg : g.Bounded) (hexpr : ExpressionsSettle g n) (b : Power) :
    ∀ (m : Nat) (left : Expr) (ts : List Token), ts.length ≤ m → m ≤ n →
      Settles (ReadsClimb g b left ts) (FaultsClimb g b ts) := by
  intro m
  induction m with
  | zero =>
    intro left ts hm _
    obtain rfl := List.length_eq_zero_iff.mp (Nat.le_zero.mp hm)
    exact .inl ⟨left, [], .stop (hg.not_continues b)⟩
  | succ m ih =>
    intro left ts hm hn
    by_cases hop : g.Continues b (front ts).kind
    · cases ts with
      | nil => exact absurd hop (hg.not_continues b)
      | cons op ts =>
        simp only [List.length_cons] at hm
        rcases hexpr (g.power op.kind) ts (by omega) with ⟨right, us, hright⟩ | ⟨us, err, hright⟩
        · have hus := hright.suffix.length_le
          rw [List.length_tail] at hus
          rcases ih (.binary op left op.literal right) us (by omega) (by omega) with
            ⟨e, rest, hclimb⟩ | ⟨vs, err, hclimb⟩
          · exact .inl ⟨e, rest, .step hop hright hclimb⟩
          · exact .inr ⟨vs, err, .later hop hright hclimb⟩
        · exact .inr ⟨us, err, .operand hop hright⟩
    · exact .inl ⟨left, ts, .stop hop⟩

/-- The rest of a conditional settles, from its first block on. -/
theorem conditional_settles (hstmt : StatementsSettle g n) {t o close brace : Token}
    {ts us : List Token} {c : Expr} (hopen : o.kind = .lparen)
    (hcondition : ReadsExpression g .lowest ts c (close :: brace :: us))
    (hclose : close.kind = .rparen) (hbrace : brace.kind = .lbrace) (hn : us.length < n) :
    Settles (ReadsLeading g .conditional (t :: o :: ts))
      (FaultsLeading g .conditional (t :: o :: ts)) := by
  rcases hstmt [.rbrace, .eof] us (by simp) hn with ⟨body, vs, hbody⟩ | ⟨vs, err, hbody⟩
  · have hblock : ReadsBlock g (brace :: us) (.mk brace body) vs.tail := .intro hbody
    by_cases helse : (front vs.tail).kind = .elseKey
    · have hvs := eq_front_cons_tail vs.tail (by simp [helse])
      rw [hvs] at hblock
      by_cases hbrace' : (front vs.tail.tail).kind = .lbrace
      · have hvs' := eq_front_cons_tail vs.tail.tail (by simp [hbrace'])
        rw [hvs'] at hblock
        have hlen : vs.tail.tail.tail.length < n := by
          have := hbody.suffix.length_le
          simp only [List.length_tail]
          omega
        rcases hstmt [.rbrace, .eof] _ (by simp) hlen with ⟨body', ws, hbody'⟩ | ⟨ws, err, hbody'⟩
        · exact .inl ⟨_, _, .alternative hopen hcondition hclose hbrace hblock helse hbrace'
            (.intro hbody')⟩
        · exact .inr ⟨_, _, .alternative hopen hcondition hclose hbrace hblock helse hbrace'
            hbody'⟩
      · exact .inr ⟨_, _, .noAlternative hopen hcondition hclose hbrace hblock helse hbrace'⟩
    · exact .inl ⟨_, _, .conditional hopen hcondition hclose hbrace hblock helse⟩
  · exact .inr ⟨vs, err, .block hopen hcondition hclose hbrace hbody⟩

theorem leading_settles (hexpr : ExpressionsSettle g n) (hstmt : StatementsSettle g n)
    (r : LeadingRule) (t : Token) (ts : List Token) (hn : ts.length < n) :
    Settles (ReadsLeading g r (t :: ts)) (FaultsLeading g r (t :: ts)) := by
  cases r with
  | identifier => exact .inl ⟨_, _, .identifier⟩
  | integer =>
    cases hvalue : Text.signed64? t.literal with
    | none => exact .inr ⟨_, _, .integer hvalue⟩
    | some value => exact .inl ⟨_, _, .integer hvalue⟩
  | boolean => exact .inl ⟨_, _, .boolean⟩
  | unary =>
    rcases hexpr .unary ts hn with ⟨e, us, h⟩ | ⟨us, err, h⟩
    · exact .inl ⟨_, _, .unary h⟩
    · exact .inr ⟨us, err, .unary h⟩
  | grouping =>
    rcases hexpr .lowest ts hn with ⟨e, us, h⟩ | ⟨us, err, h⟩
    · by_cases hclose : (front us).kind = .rparen
      · rw [eq_front_cons_tail us (by simp [hclose])] at h
        exact .inl ⟨e, _, .grouping h hclose⟩
      · exact .inr ⟨us, _, .unclosed h hclose⟩
    · exact .inr ⟨us, err, .grouping h⟩
  | conditional =>
    by_cases hopen : (front ts).kind = .lparen
    · cases ts with
      | nil => exact absurd hopen (by simp [Token.eof])
      | cons o ts =>
        simp only [List.length_cons] at hn
        rcases hexpr .lowest ts (by omega) with ⟨c, us, h⟩ | ⟨us, err, h⟩
        · by_cases hclose : (front us).kind = .rparen
          · have hus := eq_front_cons_tail us (by simp [hclose])
            by_cases hbrace : (front us.tail).kind = .lbrace
            · have hus' := eq_front_cons_tail us.tail (by simp [hbrace])
              have hlen : us.tail.tail.length < n := by
                have := h.suffix.length_le
                simp only [List.length_tail] at this ⊢
                omega
              rw [hus, hus'] at h
              exact conditional_settles hstmt hopen h hclose hbrace hlen
            · rw [hus] at h
              exact .inr ⟨_, _, .noBlock hopen h hclose hbrace⟩
          · exact .inr ⟨us, _, .unclosedCondition hopen h hclose⟩
        · exact .inr ⟨us, err, .condition hopen h⟩
    · exact .inr ⟨ts, _, .noCondition hopen⟩

/-- One more token for expressions: the first operand begins with it. -/
theorem expressionsSettle_succ (hg : g.Bounded) (hexpr : ExpressionsSettle g n)
    (hstmt : StatementsSettle g n) : ExpressionsSettle g (n + 1) := by
  intro b ts hn
  cases hrule : g.leading (front ts).kind with
  | none => exact .inr ⟨ts, _, .noRule hrule⟩
  | some r =>
    cases ts with
    | nil => exact absurd (hg.leading_eof.symm.trans hrule) (by simp)
    | cons t ts =>
      simp only [List.length_cons] at hn
      rcases leading_settles hexpr hstmt r t ts (by omega) with
        ⟨left, us, hleft⟩ | ⟨us, err, hleft⟩
      · have hus := hleft.suffix.length_le
        simp only [List.tail_cons] at hus
        rcases climb_settles hg hexpr b us.length left us le_rfl (by omega) with
          ⟨e, rest, hclimb⟩ | ⟨vs, err, hclimb⟩
        · exact .inl ⟨e, rest, .intro hrule hleft hclimb⟩
        · exact .inr ⟨vs, err, .climb hrule hleft hclimb⟩
      · exact .inr ⟨us, err, .leading hrule hleft⟩

theorem opening_settles (hexpr : ExpressionsSettle g n) (r : StatementRule) (t : Token)
    (ts : List Token) (hn : (t :: ts).length < n) :
    Settles (ReadsOpening g r (t :: ts)) (FaultsOpening g r (t :: ts)) := by
  have hlen : ts.length < n := by
    simp only [List.length_cons] at hn
    omega
  cases r with
  | binding =>
    by_cases hname : (front ts).kind = .ident
    · have hts := eq_front_cons_tail ts (by simp [hname])
      by_cases hassign : (front ts.tail).kind = .assign
      · have hts' := eq_front_cons_tail ts.tail (by simp [hassign])
        rw [hts, hts']
        have htail : ts.tail.tail.length < n := by
          simp only [List.length_tail]
          omega
        rcases hexpr .lowest ts.tail.tail htail with ⟨e, us, h⟩ | ⟨us, err, h⟩
        · exact .inl ⟨_, _, .binding hname hassign h⟩
        · exact .inr ⟨us, err, .binding hname hassign h⟩
      · rw [hts]
        exact .inr ⟨_, _, .noAssign hname hassign⟩
    · exact .inr ⟨ts, _, .noName hname⟩
  | result =>
    rcases hexpr .lowest ts hlen with ⟨e, us, h⟩ | ⟨us, err, h⟩
    · exact .inl ⟨_, _, .result h⟩
    · exact .inr ⟨us, err, .result h⟩
  | expression =>
    rcases hexpr .lowest (t :: ts) hn with ⟨e, us, h⟩ | ⟨us, err, h⟩
    · exact .inl ⟨_, _, .expression h⟩
    · exact .inr ⟨us, err, .expression h⟩

/-- One more token for statements: the first statement begins with it. -/
theorem statementsSettle_succ (hexpr : ExpressionsSettle g (n + 1))
    (hstmt : StatementsSettle g n) : StatementsSettle g (n + 1) := by
  intro stop ts hstop hn
  by_cases hfront : (front ts).kind ∈ stop
  · exact .inl ⟨[], ts, .nil hfront⟩
  · cases ts with
    | nil => exact absurd hstop hfront
    | cons t ts =>
      rcases opening_settles hexpr ((g.statement t.kind).getD .expression) t ts hn with
        ⟨first, us, hfirst⟩ | ⟨us, err, hfirst⟩
      · have hus := hfirst.suffix.length_le
        simp only [List.tail_cons, List.length_cons] at hus hn
        rcases hstmt stop us hstop (by omega) with ⟨others, rest, hothers⟩ | ⟨vs, err, hothers⟩
        · exact .inl ⟨_, rest, .cons hfront hfirst hothers⟩
        · exact .inr ⟨vs, err, .later hfront hfirst hothers⟩
      · exact .inr ⟨us, err, .first hfront hfirst⟩

/-- Expressions and statements settle on any number of tokens. -/
theorem settle (hg : g.Bounded) (n : Nat) : ExpressionsSettle g n ∧ StatementsSettle g n := by
  induction n with
  | zero => exact ⟨fun _ _ h => absurd h (by omega), fun _ _ _ h => absurd h (by omega)⟩
  | succ n ih =>
    have hexpr := expressionsSettle_succ hg ih.1 ih.2
    exact ⟨hexpr, statementsSettle_succ hexpr ih.2⟩

/-- **Statements are read without errors, or there is a first error.** -/
theorem reads_or_faults (hg : g.Bounded) (stop : List Kind) (hstop : .eof ∈ stop)
    (ts : List Token) :
    (∃ ss rest, ReadsStatements g stop ts ss rest) ∨
      ∃ us err, FaultsStatements g stop ts us err :=
  (settle hg (ts.length + 1)).2 stop ts hstop (by omega)

end Settles

end FrontEnd
