import FrontEnd.Proofs.Moves

/-!
# Readings without errors

The relations of this file say how trees are read from tokens as long as nothing goes wrong. They
speak neither of fuel nor of errors: a relation holds between the tokens from the current one on,
the tree that is read, and the *rest*, the tokens after the tree. A block may lack its closing brace
if the tokens end with it, and then nothing is left.

If one of the relations holds, the reading functions follow it: on a tape with these tokens they
give this tree, record nothing, and stop in front of this rest.

## Main definitions

* `FrontEnd.Grammar.Continues` — the kinds by which an expression goes on.
* `FrontEnd.afterSemicolon` — the tokens after an optional semicolon.
* `FrontEnd.ReadsExpression`, `FrontEnd.ReadsClimb`, `FrontEnd.ReadsLeading`,
  `FrontEnd.ReadsOpening`, `FrontEnd.ReadsStatements`, `FrontEnd.ReadsBlock` — the relations, one
  for each reading function that has a tree of its own.
* `FrontEnd.Tape.Clean` — the outcome of a reading without errors.

## Main results

* `FrontEnd.ReadsExpression.ensures` and the same for the other relations — the reading functions
  follow the relations.
-/

namespace FrontEnd

/-- An expression whose operators bind more tightly than `b` goes on with a token of the kind
`k`. -/
def Grammar.Continues (g : Grammar) (b : Power) (k : Kind) : Prop :=
  k ≠ .semicolon ∧ b < g.power k ∧ g.trailing k = some .binary

instance (g : Grammar) (b : Power) (k : Kind) : Decidable (g.Continues b k) :=
  inferInstanceAs (Decidable (_ ∧ _ ∧ _))

/-- The tokens after a semicolon, if there is one at the front. -/
def afterSemicolon (ts : List Token) : List Token :=
  if (front ts).kind = .semicolon then ts.tail else ts

theorem afterSemicolon_cons {mark : Token} (h : mark.kind = .semicolon) (ts : List Token) :
    afterSemicolon (mark :: ts) = ts :=
  if_pos h

theorem afterSemicolon_of_ne {ts : List Token} (h : (front ts).kind ≠ .semicolon) :
    afterSemicolon ts = ts :=
  if_neg h

mutual

/-- An expression whose operators all bind more tightly than `b`: a first operand, and what follows
it. -/
inductive ReadsExpression (g : Grammar) : Power → List Token → Expr → List Token → Prop
  | intro {b r t ts left us e rest} (hrule : g.leading t.kind = some r)
      (hleft : ReadsLeading g r (t :: ts) left us) (hclimb : ReadsClimb g b left us e rest) :
      ReadsExpression g b (t :: ts) e rest

/-- The part of an expression after `left`, which has been read: operators that bind more tightly
than `b`, each with its right operand. -/
inductive ReadsClimb (g : Grammar) : Power → Expr → List Token → Expr → List Token → Prop
  | stop {b left ts} (hstop : ¬ g.Continues b (front ts).kind) : ReadsClimb g b left ts left ts
  | step {b left op ts right us e rest} (hop : g.Continues b op.kind)
      (hright : ReadsExpression g (g.power op.kind) ts right us)
      (hclimb : ReadsClimb g b (.binary op left op.literal right) us e rest) :
      ReadsClimb g b left (op :: ts) e rest

/-- An operand by a leading rule. -/
inductive ReadsLeading (g : Grammar) : LeadingRule → List Token → Expr → List Token → Prop
  | identifier {t ts} : ReadsLeading g .identifier (t :: ts) (.identifier (.ofToken t)) ts
  | integer {t ts value} (hvalue : Text.signed64? t.literal = some value) :
      ReadsLeading g .integer (t :: ts) (.integer t value) ts
  | boolean {t ts} : ReadsLeading g .boolean (t :: ts) (.boolean t (t.is .trueKey)) ts
  | unary {t ts e rest} (hoperand : ReadsExpression g .unary ts e rest) :
      ReadsLeading g .unary (t :: ts) (.unary t t.literal e) rest
  | grouping {t ts e close rest} (hinner : ReadsExpression g .lowest ts e (close :: rest))
      (hclose : close.kind = .rparen) : ReadsLeading g .grouping (t :: ts) e rest
  | conditional {t o ts c close brace us block rest} (hopen : o.kind = .lparen)
      (hcondition : ReadsExpression g .lowest ts c (close :: brace :: us))
      (hclose : close.kind = .rparen) (hbrace : brace.kind = .lbrace)
      (hblock : ReadsBlock g (brace :: us) block rest) (helse : (front rest).kind ≠ .elseKey) :
      ReadsLeading g .conditional (t :: o :: ts) (.conditional t c block none) rest
  | alternative {t o ts c close brace us block other brace' vs block' rest}
      (hopen : o.kind = .lparen)
      (hcondition : ReadsExpression g .lowest ts c (close :: brace :: us))
      (hclose : close.kind = .rparen) (hbrace : brace.kind = .lbrace)
      (hblock : ReadsBlock g (brace :: us) block (other :: brace' :: vs))
      (helse : other.kind = .elseKey) (hbrace' : brace'.kind = .lbrace)
      (hblock' : ReadsBlock g (brace' :: vs) block' rest) :
      ReadsLeading g .conditional (t :: o :: ts) (.conditional t c block (some block')) rest

/-- A statement by a statement rule, with the semicolon after it. -/
inductive ReadsOpening (g : Grammar) : StatementRule → List Token → Stmt → List Token → Prop
  | binding {t name assign ts e rest} (hname : name.kind = .ident) (hassign : assign.kind = .assign)
      (hvalue : ReadsExpression g .lowest ts e rest) :
      ReadsOpening g .binding (t :: name :: assign :: ts) (.binding t (.ofToken name) (some e))
        (afterSemicolon rest)
  | result {t ts e rest} (hvalue : ReadsExpression g .lowest ts e rest) :
      ReadsOpening g .result (t :: ts) (.result t (some e)) (afterSemicolon rest)
  | expression {t ts e rest} (hexpr : ReadsExpression g .lowest (t :: ts) e rest) :
      ReadsOpening g .expression (t :: ts) (.expression t e) (afterSemicolon rest)

/-- Statements up to a token of a kind in `stop`, which stays in front. -/
inductive ReadsStatements (g : Grammar) : List Kind → List Token → List Stmt → List Token → Prop
  | nil {stop ts} (hstop : (front ts).kind ∈ stop) : ReadsStatements g stop ts [] ts
  | cons {stop t ts first us others rest} (hstop : t.kind ∉ stop)
      (hfirst : ReadsOpening g ((g.statement t.kind).getD .expression) (t :: ts) first us)
      (hothers : ReadsStatements g stop us others rest) :
      ReadsStatements g stop (t :: ts) (first :: others) rest

/-- A block from the token that opens it to its closing brace or the end of the tokens. -/
inductive ReadsBlock (g : Grammar) : List Token → Block → List Token → Prop
  | intro {t ts body rest} (hbody : ReadsStatements g [.rbrace, .eof] ts body rest) :
      ReadsBlock g (t :: ts) (.mk t body) rest.tail

end

theorem ReadsExpression.of_leading {g : Grammar} {b : Power} {r : LeadingRule}
    {ts us rest : List Token} {left e : Expr} (hrule : g.leading (front ts).kind = some r)
    (hleft : ReadsLeading g r ts left us) (hclimb : ReadsClimb g b left us e rest) :
    ReadsExpression g b ts e rest := by
  cases ts with
  | nil => nomatch hleft
  | cons t ts => exact .intro hrule hleft hclimb

/-- Statements are read until a token at which they stop. -/
theorem ReadsStatements.front_mem {g : Grammar} : ∀ {stop ts ss rest},
    ReadsStatements g stop ts ss rest → (front rest).kind ∈ stop
  | _, _, _, _, .nil hstop => hstop
  | _, _, _, _, .cons _ _ hothers => hothers.front_mem

/-! ### What is read comes off the front -/

theorem afterSemicolon_suffix (ts : List Token) : afterSemicolon ts <:+ ts := by
  unfold afterSemicolon
  split
  · exact List.tail_suffix ts
  · exact List.suffix_rfl

section Suffix

variable {g : Grammar}

mutual

theorem ReadsExpression.suffix : ∀ {b ts e rest}, ReadsExpression g b ts e rest → rest <:+ ts.tail
  | _, _, _, _, .intro _ hleft hclimb => hclimb.suffix.trans hleft.suffix

theorem ReadsClimb.suffix : ∀ {b left ts e rest}, ReadsClimb g b left ts e rest → rest <:+ ts
  | _, _, _, _, _, .stop _ => List.suffix_rfl
  | _, _, _, _, _, .step _ hright hclimb =>
    (hclimb.suffix.trans hright.suffix).trans
      ((List.tail_suffix _).trans (List.suffix_cons _ _))

theorem ReadsLeading.suffix : ∀ {r ts e rest}, ReadsLeading g r ts e rest → rest <:+ ts.tail
  | _, _, _, _, .identifier => List.suffix_rfl
  | _, _, _, _, .integer _ => List.suffix_rfl
  | _, _, _, _, .boolean => List.suffix_rfl
  | _, _, _, _, .unary hoperand => hoperand.suffix.trans (List.tail_suffix _)
  | _, _, _, _, .grouping hinner _ =>
    (List.suffix_cons _ _).trans (hinner.suffix.trans (List.tail_suffix _))
  | _, _, _, _, .conditional _ hcondition _ _ hblock _ =>
    (hblock.suffix.trans ((List.suffix_cons _ _).trans (List.suffix_cons _ _))).trans
      (hcondition.suffix.trans ((List.tail_suffix _).trans (List.suffix_cons _ _)))
  | _, _, _, _, .alternative _ hcondition _ _ hblock _ _ hblock' =>
    (hblock'.suffix.trans ((List.suffix_cons _ _).trans (List.suffix_cons _ _))).trans
      ((hblock.suffix.trans ((List.suffix_cons _ _).trans (List.suffix_cons _ _))).trans
        (hcondition.suffix.trans ((List.tail_suffix _).trans (List.suffix_cons _ _))))

theorem ReadsOpening.suffix : ∀ {r ts s rest}, ReadsOpening g r ts s rest → rest <:+ ts.tail
  | _, _, _, _, .binding _ _ hvalue =>
    ((afterSemicolon_suffix _).trans (hvalue.suffix.trans (List.tail_suffix _))).trans
      ((List.suffix_cons _ _).trans (List.suffix_cons _ _))
  | _, _, _, _, .result hvalue =>
    (afterSemicolon_suffix _).trans (hvalue.suffix.trans (List.tail_suffix _))
  | _, _, _, _, .expression hexpr => (afterSemicolon_suffix _).trans hexpr.suffix

theorem ReadsStatements.suffix : ∀ {stop ts ss rest},
    ReadsStatements g stop ts ss rest → rest <:+ ts
  | _, _, _, _, .nil _ => List.suffix_rfl
  | _, _, _, _, .cons _ hfirst hothers =>
    hothers.suffix.trans (hfirst.suffix.trans (List.suffix_cons _ _))

theorem ReadsBlock.suffix : ∀ {ts block rest}, ReadsBlock g ts block rest → rest <:+ ts.tail
  | _, _, _, .intro hbody => (List.tail_suffix _).trans hbody.suffix

end

end Suffix

namespace Tape

open Window

variable {α : Type}

/-- The reading from the tape `t` gave the tree `a`, recorded nothing, and left the tokens `rest`
after the current one. -/
structure Clean (t : Tape) (a : α) (rest : List Token) (a' : α) (t' : Tape) : Prop where
  /-- The tree is given. -/
  eq : a' = a
  /-- No error is recorded. -/
  faults_eq : t'.faults = t.faults
  /-- The rest is still ahead. -/
  tail_eq : t'.ahead.tail = rest

theorem tail_ahead_skipSemicolon (t : Tape) :
    (skipSemicolon t).ahead.tail = afterSemicolon t.ahead.tail := by
  unfold skipSemicolon afterSemicolon
  by_cases h : (front t.ahead.tail).kind = .semicolon
  · rw [if_pos (by simpa [Token.is] using h), if_pos h, ahead_advance]
  · rw [if_neg (by simpa [Token.is] using h), if_neg h]

theorem faults_skipSemicolon (t : Tape) : (skipSemicolon t).faults = t.faults := by
  unfold skipSemicolon
  split
  · rfl
  · rfl

end Tape

namespace Parse

open Window

variable {ω : Type} [Window ω] {g : Grammar} {b : Power} {s : ω}

/-- The loop over operators goes on exactly with the kinds by which an expression goes on. -/
theorem climb_of_continues (n : Nat) (left : Expr) (h : g.Continues b (peek s).kind) :
    climb g (n + 1) b left s = (do
      let (e?, s) ← binary g n left (g.power (peek s).kind) (advance s)
      match e? with
      | none => some (none, s)
      | some e => climb g n b e s) := by
  obtain ⟨hsemi, hpower, htrail⟩ := h
  have hgo : (peek s).is .semicolon = false ∧ b < g.power (peek s).kind :=
    ⟨by simpa [Token.is] using hsemi, hpower⟩
  rw [climb, if_pos hgo]
  split
  next hnone => exact absurd (htrail.symm.trans hnone) (by simp)
  next => rfl

theorem climb_of_not_continues (n : Nat) (left : Expr) (h : ¬ g.Continues b (peek s).kind) :
    climb g (n + 1) b left s = some (some left, s) := by
  rw [climb]
  split
  next hgo =>
    cases htrail : g.trailing (peek s).kind with
    | none => rfl
    | some r => exact absurd ⟨by simpa [Token.is] using hgo.1, hgo.2, htrail⟩ h
  next => rfl

end Parse

/-! ### The reading functions follow the relations -/

section Ensures

open Window Tape

variable {g : Grammar}

/-- A binary operator is read once its right operand is. -/
theorem Parse.binary_ensures {b : Power} {ts us : List Token} {right : Expr}
    (hright : ∀ n (t : Tape), t.ahead = ts →
      Ensures (Clean t (some right) us) (expression g n b t))
    (left : Expr) (op : Token) (n : Nat) (t : Tape) (ht : t.ahead = op :: ts) :
    Ensures (Clean t (some (.binary op left op.literal right)) us) (binary g n left b t) := by
  cases n with
  | zero => exact .none
  | succ n =>
    rw [binary]
    refine (hright n (advance t) (by simp [ht])).bind fun right? t₁ h₁ => ?_
    obtain ⟨rfl, hfaults, htail⟩ := h₁
    exact .some ⟨by simp [ht], hfaults, htail⟩

/-- The rest of a conditional without a second block is read once its block is. -/
theorem Parse.branches_ensures {us rest : List Token} {close brace : Token} {first : Block}
    {n : Nat} (hclose : close.kind = .rparen) (hbrace : brace.kind = .lbrace)
    (hblock : ∀ n (t : Tape), t.ahead = brace :: us → Ensures (Clean t first rest) (block g n t))
    (helse : (front rest).kind ≠ .elseKey) (i : Token) (c : Expr) (t : Tape)
    (ht : t.ahead.tail = close :: brace :: us) :
    Ensures (Clean t (some (.conditional i c first none)) rest)
      (branches (block g n) i (some c) t) := by
  rw [branches]
  refine Ensures.expecting (fun _ => ?_) fun hne => absurd (by simpa [ht] using hclose) hne
  refine Ensures.expecting (fun _ => ?_) fun hne => absurd (by simpa [ht] using hbrace) hne
  refine (hblock n _ (by simp [ht])).bind fun first' t₁ h₁ => ?_
  obtain ⟨rfl, hf₁, hr₁⟩ := h₁
  simp only
  rw [if_neg (by simpa [Token.is, hr₁] using helse)]
  exact .some ⟨rfl, hf₁, hr₁⟩

/-- The rest of a conditional with a second block is read once both blocks are. -/
theorem Parse.branches_ensures_else {us vs rest : List Token} {close brace other brace' : Token}
    {first second : Block} {n : Nat} (hclose : close.kind = .rparen) (hbrace : brace.kind = .lbrace)
    (hblock : ∀ n (t : Tape), t.ahead = brace :: us →
      Ensures (Clean t first (other :: brace' :: vs)) (block g n t))
    (helse : other.kind = .elseKey) (hbrace' : brace'.kind = .lbrace)
    (hblock' : ∀ n (t : Tape), t.ahead = brace' :: vs → Ensures (Clean t second rest) (block g n t))
    (i : Token) (c : Expr) (t : Tape) (ht : t.ahead.tail = close :: brace :: us) :
    Ensures (Clean t (some (.conditional i c first (some second))) rest)
      (branches (block g n) i (some c) t) := by
  rw [branches]
  refine Ensures.expecting (fun _ => ?_) fun hne => absurd (by simpa [ht] using hclose) hne
  refine Ensures.expecting (fun _ => ?_) fun hne => absurd (by simpa [ht] using hbrace) hne
  refine (hblock n _ (by simp [ht])).bind fun first' t₁ h₁ => ?_
  obtain ⟨rfl, hf₁, hr₁⟩ := h₁
  simp only
  rw [if_pos (by simpa [Token.is, hr₁] using helse)]
  refine Ensures.expecting (fun _ => ?_) fun hne => absurd (by simpa [hr₁] using hbrace') hne
  refine (hblock' n _ (by simp [hr₁])).bind fun second' t₂ h₂ => ?_
  obtain ⟨rfl, hf₂, hr₂⟩ := h₂
  exact .some ⟨rfl, hf₂.trans hf₁, hr₂⟩

/-- A conditional is read once its condition and what comes after it are. -/
theorem Parse.conditional_ensures {ts us rest : List Token} {c e : Expr} {i o : Token}
    (hopen : o.kind = .lparen)
    (hcondition : ∀ n (t : Tape), t.ahead = ts →
      Ensures (Clean t (some c) us) (expression g n .lowest t))
    (hbranches : ∀ n (t : Tape), t.ahead.tail = us →
      Ensures (Clean t (some e) rest) (branches (block g n) i (some c) t))
    (n : Nat) (t : Tape) (ht : t.ahead = i :: o :: ts) :
    Ensures (Clean t (some e) rest) (conditional g n t) := by
  cases n with
  | zero => exact .none
  | succ n =>
    rw [conditional]
    refine Ensures.expecting (fun _ => ?_) fun hne => absurd (by simpa [ht] using hopen) hne
    refine (hcondition n _ (by simp [ht])).bind fun c? t₁ h₁ => ?_
    obtain ⟨rfl, hf₁, hr₁⟩ := h₁
    have hcur : current t = i := by simp [ht]
    rw [hcur]
    refine (hbranches n t₁ hr₁).mono fun e? t₂ h₂ => ?_
    exact ⟨h₂.eq, h₂.faults_eq.trans hf₁, h₂.tail_eq⟩

mutual

theorem ReadsExpression.ensures : ∀ {b ts e rest}, ReadsExpression g b ts e rest →
    ∀ n (t : Tape), t.ahead = ts → Ensures (Clean t (some e) rest) (Parse.expression g n b t)
  | _, _, _, _, _, 0, _, _ => .none
  | _, _, _, _, .intro hrule hleft hclimb, n + 1, ⟨_, fs⟩, rfl => by
    rw [Parse.expression]
    simp only [current_eq, front_cons, hrule]
    refine (hleft.ensures n _ rfl).bind fun left? t₁ h₁ => ?_
    obtain ⟨rfl, hf₁, hr₁⟩ := h₁
    refine (hclimb.ensures n t₁ hr₁).mono fun e? t₂ h₂ => ?_
    exact ⟨h₂.eq, h₂.faults_eq.trans hf₁, h₂.tail_eq⟩

theorem ReadsClimb.ensures : ∀ {b left ts e rest}, ReadsClimb g b left ts e rest →
    ∀ n (t : Tape), t.ahead.tail = ts → Ensures (Clean t (some e) rest) (Parse.climb g n b left t)
  | _, _, _, _, _, _, 0, _, _ => .none
  | _, _, _, _, _, .stop hstop, n + 1, t, ht => by
    rw [Parse.climb_of_not_continues n _ (by simpa [ht] using hstop)]
    exact .some ⟨rfl, rfl, ht⟩
  | _, left, _, _, _, .step hop hright hclimb, n + 1, t, ht => by
    rw [Parse.climb_of_continues n _ (by simpa [ht] using hop)]
    simp only [peek_eq, ht, front_cons]
    have hbinary := Parse.binary_ensures (fun n t => hright.ensures n t) left _ n (advance t) ht
    refine hbinary.bind fun e? t₁ h₁ => ?_
    obtain ⟨rfl, hf₁, hr₁⟩ := h₁
    refine (hclimb.ensures n t₁ hr₁).mono fun e? t₂ h₂ => ?_
    exact ⟨h₂.eq, h₂.faults_eq.trans hf₁, h₂.tail_eq⟩

theorem ReadsLeading.ensures : ∀ {r ts e rest}, ReadsLeading g r ts e rest →
    ∀ n (t : Tape), t.ahead = ts → Ensures (Clean t (some e) rest) (Parse.leading g n r t)
  | _, _, _, _, _, 0, _, _ => .none
  | _, _, _, _, .identifier, n + 1, ⟨_, fs⟩, rfl => by
    rw [Parse.leading]
    exact .some ⟨rfl, rfl, rfl⟩
  | _, _, _, _, .integer hvalue, n + 1, ⟨_, fs⟩, rfl => by
    rw [Parse.leading]
    simp only [current_eq, front_cons, hvalue]
    exact .some ⟨rfl, rfl, rfl⟩
  | _, _, _, _, .boolean, n + 1, ⟨_, fs⟩, rfl => by
    rw [Parse.leading]
    exact .some ⟨rfl, rfl, rfl⟩
  | _, _, _, _, .unary hoperand, n + 1, ⟨_, fs⟩, rfl => by
    rw [Parse.leading]
    refine (hoperand.ensures n _ rfl).bind fun e? t₁ h₁ => ?_
    obtain ⟨rfl, hf₁, hr₁⟩ := h₁
    exact .some ⟨rfl, hf₁, hr₁⟩
  | _, _, _, _, .grouping hinner hclose, n + 1, ⟨_, fs⟩, rfl => by
    rw [Parse.leading]
    refine (hinner.ensures n _ rfl).bind fun e? t₁ h₁ => ?_
    obtain ⟨rfl, hf₁, hr₁⟩ := h₁
    refine Ensures.expecting (fun _ => .some ⟨rfl, hf₁, by simp [hr₁]⟩) fun hne => ?_
    exact absurd (by simpa [hr₁] using hclose) hne
  | _, _, _, _, .conditional hopen hcondition hclose hbrace hblock helse, n + 1, t, ht => by
    rw [Parse.leading]
    refine Parse.conditional_ensures hopen (fun n t => hcondition.ensures n t) ?_ n t ht
    intro m
    exact Parse.branches_ensures hclose hbrace (fun n t => hblock.ensures n t) helse _ _
  | _, _, _, _, .alternative hopen hcondition hclose hbrace hblock helse hbrace' hblock', n + 1, t,
      ht => by
    rw [Parse.leading]
    refine Parse.conditional_ensures hopen (fun n t => hcondition.ensures n t) ?_ n t ht
    intro m
    exact Parse.branches_ensures_else hclose hbrace (fun n t => hblock.ensures n t) helse hbrace'
      (fun n t => hblock'.ensures n t) _ _

theorem ReadsOpening.ensures : ∀ {r ts s rest}, ReadsOpening g r ts s rest →
    ∀ n (t : Tape), t.ahead = ts → Ensures (Clean t (some s) rest) (Parse.opening g n r t)
  | _, _, _, _, _, 0, _, _ => .none
  | _, _, _, _, .binding hname hassign hvalue, n + 1, ⟨_, fs⟩, rfl => by
    rw [Parse.opening]
    refine Ensures.expecting (fun _ => ?_) fun hne => absurd hname hne
    refine Ensures.expecting (fun _ => ?_) fun hne => absurd hassign hne
    refine (hvalue.ensures n _ rfl).bind fun e? t₁ h₁ => ?_
    obtain ⟨rfl, hf₁, hr₁⟩ := h₁
    refine .some ⟨rfl, (faults_skipSemicolon t₁).trans hf₁, ?_⟩
    rw [tail_ahead_skipSemicolon, hr₁]
  | _, _, _, _, .result hvalue, n + 1, ⟨_, fs⟩, rfl => by
    rw [Parse.opening]
    refine (hvalue.ensures n _ rfl).bind fun e? t₁ h₁ => ?_
    obtain ⟨rfl, hf₁, hr₁⟩ := h₁
    refine .some ⟨rfl, (faults_skipSemicolon t₁).trans hf₁, ?_⟩
    rw [tail_ahead_skipSemicolon, hr₁]
  | _, _, _, _, .expression hexpr, n + 1, ⟨_, fs⟩, rfl => by
    rw [Parse.opening]
    refine (hexpr.ensures n _ rfl).bind fun e? t₁ h₁ => ?_
    obtain ⟨rfl, hf₁, hr₁⟩ := h₁
    refine .some ⟨rfl, (faults_skipSemicolon t₁).trans hf₁, ?_⟩
    rw [tail_ahead_skipSemicolon, hr₁]

theorem ReadsStatements.ensures : ∀ {stop ts ss rest}, ReadsStatements g stop ts ss rest →
    ∀ n (t : Tape), t.ahead = ts →
      Ensures (fun ss' t' => ss' = ss ∧ t'.faults = t.faults ∧ t'.ahead = rest)
        (Parse.statements g n stop t)
  | _, _, _, _, _, 0, _, _ => .none
  | _, _, _, _, .nil hstop, n + 1, t, ht => by
    rw [Parse.statements, if_pos (by simpa [ht] using hstop)]
    exact .some ⟨rfl, rfl, ht⟩
  | _, _, _, _, .cons hstop _ _, 1, t, ht => by
    rw [Parse.statements, if_neg (by simpa [ht] using hstop)]
    exact .none
  | _, _, _, _, .cons hstop hfirst hothers, n + 2, ⟨_, fs⟩, rfl => by
    rw [Parse.statements, if_neg (by simpa using hstop), Parse.statement]
    refine (hfirst.ensures n _ rfl).bind fun first? t₁ h₁ => ?_
    obtain ⟨rfl, hf₁, hr₁⟩ := h₁
    refine (hothers.ensures (n + 1) (advance t₁) hr₁).bind fun others t₂ h₂ => ?_
    obtain ⟨rfl, hf₂, hr₂⟩ := h₂
    exact .some ⟨rfl, hf₂.trans hf₁, hr₂⟩

theorem ReadsBlock.ensures : ∀ {ts block rest}, ReadsBlock g ts block rest →
    ∀ n (t : Tape), t.ahead = ts → Ensures (Clean t block rest) (Parse.block g n t)
  | _, _, _, _, 0, _, _ => .none
  | _, _, _, .intro hbody, n + 1, ⟨_, fs⟩, rfl => by
    rw [Parse.block]
    refine (hbody.ensures n _ rfl).bind fun body t₁ h₁ => ?_
    obtain ⟨rfl, hf₁, hr₁⟩ := h₁
    exact .some ⟨rfl, hf₁, by rw [hr₁]⟩

end

end Ensures

end FrontEnd
