import FrontEnd.Proofs.Segments
import FrontEnd.Proofs.Spelling

/-!
# Canonical forms as tokens and blanks

The canonical form of a tree without conditionals is written down piece by piece: each token of it
with the blanks that stand after it. Inside a statement no two neighbouring tokens glue, so only the
places between two statements matter, where there is neither a blank nor, after an expression, a
semicolon. Two statements run together there if a bare word comes before a letter, or a bare number
before a bare number.

## Main definitions

* `FrontEnd.Expr.IsPlain`, `FrontEnd.Stmt.IsPlain` — trees without conditionals.
* `FrontEnd.Stmt.Glues` — statements whose canonical forms run together.
* `FrontEnd.Expr.pieces`, `FrontEnd.Stmt.pieces` — canonical forms as tokens and blanks.
* `FrontEnd.IsNeat` — what is common to the pieces of canonical forms.
* `FrontEnd.Apart` — pieces that do not glue.

## Main results

* `FrontEnd.pieceChars_flatMap_pieces` — the pieces of a program have the characters of its canonical
  form.
* `FrontEnd.isChain_pieces_iff` — no pieces of a program glue exactly if no statements run together.
-/

namespace FrontEnd

/-! ### Trees without conditionals -/

/-- There is no conditional in the expression. -/
inductive Expr.IsPlain : Expr → Prop
  | identifier {name} : IsPlain (.identifier name)
  | integer {t value} : IsPlain (.integer t value)
  | boolean {t value} : IsPlain (.boolean t value)
  | unary {t operator operand} (hoperand : operand.IsPlain) :
      IsPlain (.unary t operator operand)
  | binary {t left operator right} (hleft : left.IsPlain) (hright : right.IsPlain) :
      IsPlain (.binary t left operator right)

/-- There is no conditional in the statement, and no value is missing. -/
inductive Stmt.IsPlain : Stmt → Prop
  | binding {t name value} (hvalue : value.IsPlain) : IsPlain (.binding t name (some value))
  | result {t value} (hvalue : value.IsPlain) : IsPlain (.result t (some value))
  | expression {t expr} (hexpr : expr.IsPlain) : IsPlain (.expression t expr)

/-- The statement is a name or a truth value for its own sake. -/
def Stmt.IsWord : Stmt → Prop
  | .expression _ (.identifier _) => True
  | .expression _ (.boolean _ _) => True
  | _ => False

/-- The statement is a number for its own sake. -/
def Stmt.IsNumber : Stmt → Prop
  | .expression _ (.integer _ _) => True
  | _ => False

/-- The canonical forms of the statements run together: a word is followed by a letter, or a number
by a number. -/
def Stmt.Glues (s s' : Stmt) : Prop :=
  (s.IsWord ∧ ∃ c ∈ s'.render.toList.head?, isLetter c = true) ∨ (s.IsNumber ∧ s'.IsNumber)

/-! ### Canonical forms as tokens and blanks -/

/-- The tokens of the canonical form of an expression, each with the blanks after it. The last one
has the given blanks after it. The canonical form of a conditional does not show its blocks, so it
is left out. -/
def Expr.pieces : Expr → List Char → List (Token × List Char)
  | .identifier name, ws => [(name.token, ws)]
  | .integer t _, ws => [(t, ws)]
  | .boolean t _, ws => [(t, ws)]
  | .unary t _ operand, ws =>
    (.ofKind .lparen, []) :: (t, []) :: (operand.pieces [] ++ [(.ofKind .rparen, ws)])
  | .binary t left _ right, ws =>
    (.ofKind .lparen, []) ::
      (left.pieces [' '] ++ (t, [' ']) :: (right.pieces [] ++ [(.ofKind .rparen, ws)]))
  | .conditional _ _ _ _, _ => []

/-- The tokens of the canonical form of a statement, each with the blanks after it. -/
def Stmt.pieces : Stmt → List (Token × List Char)
  | .binding t name none =>
    [(t, [' ']), (name.token, [' ']), (.ofKind .assign, [' ']), (.ofKind .semicolon, [])]
  | .binding t name (some value) =>
    (t, [' ']) :: (name.token, [' ']) :: (.ofKind .assign, [' ']) ::
      (value.pieces [] ++ [(.ofKind .semicolon, [])])
  | .result t none => [(t, []), (.ofKind .semicolon, [])]
  | .result t (some value) => (t, [' ']) :: (value.pieces [] ++ [(.ofKind .semicolon, [])])
  | .expression _ expr => expr.pieces []

/-- The characters of tokens with blanks after them. -/
def pieceChars (ps : List (Token × List Char)) : List Char :=
  ps.flatMap fun p => p.1.literal.toList ++ p.2

@[simp]
theorem pieceChars_nil : pieceChars [] = [] := rfl

@[simp]
theorem pieceChars_cons (p : Token × List Char) (ps : List (Token × List Char)) :
    pieceChars (p :: ps) = p.1.literal.toList ++ (p.2 ++ pieceChars ps) := by
  simp [pieceChars]

@[simp]
theorem pieceChars_append (ps qs : List (Token × List Char)) :
    pieceChars (ps ++ qs) = pieceChars ps ++ pieceChars qs := by
  simp [pieceChars]

theorem Expr.IsPlain.pieceChars_pieces {e : Expr} (h : e.IsPlain) (hwf : e.WellFormed)
    (ws : List Char) : pieceChars (e.pieces ws) = e.render.toList ++ ws := by
  induction h generalizing ws with
  | identifier => simp [Expr.pieces, Expr.render, Identifier.WellFormed.value_eq hwf]
  | integer => simp [Expr.pieces, Expr.render]
  | boolean => simp [Expr.pieces, Expr.render]
  | unary _ ih =>
    obtain ⟨-, -, rfl, hwf⟩ := hwf
    simp [Expr.pieces, Expr.render, ih hwf, Token.ofKind, Kind.spelling?]
  | binary _ _ ih ih' =>
    obtain ⟨-, -, rfl, hwf, hwf'⟩ := hwf
    simp [Expr.pieces, Expr.render, ih hwf, ih' hwf', Token.ofKind, Kind.spelling?]

theorem Stmt.IsPlain.pieceChars_pieces {s : Stmt} (h : s.IsPlain) (hwf : s.WellFormed) :
    pieceChars s.pieces = s.render.toList := by
  cases h with
  | binding hvalue =>
    obtain ⟨rfl, hname, hwf⟩ := hwf
    simp [Stmt.pieces, Stmt.render, hvalue.pieceChars_pieces hwf, hname.value_eq, Token.ofKind,
      Kind.spelling?]
  | result hvalue =>
    obtain ⟨rfl, hwf⟩ := hwf
    simp [Stmt.pieces, Stmt.render, hvalue.pieceChars_pieces hwf, Token.ofKind, Kind.spelling?]
  | expression hexpr => simp [Stmt.pieces, Stmt.render, hexpr.pieceChars_pieces hwf]

theorem pieceChars_flatMap_pieces {ss : List Stmt} (hplain : ∀ s ∈ ss, s.IsPlain)
    (hwf : ∀ s ∈ ss, s.WellFormed) :
    pieceChars (ss.flatMap Stmt.pieces) = (Stmt.renderAll ss).toList := by
  induction ss with
  | nil => rfl
  | cons s ss ih =>
    have hs := (hplain s (by simp)).pieceChars_pieces (hwf s (by simp))
    rw [List.flatMap_cons, pieceChars_append, hs, Stmt.renderAll, String.toList_append,
      ih (fun s' hs' => hplain s' (by simp [hs'])) (fun s' hs' => hwf s' (by simp [hs']))]

/-! ### The pieces of canonical forms -/

/-- A token with blanks after it as it stands in the canonical form of a tree without
conditionals. -/
structure IsNeat (p : Token × List Char) : Prop where
  /-- The token can be found in a text. -/
  genuine : p.1.Genuine
  /-- There are only blanks after it. -/
  blank : ∀ c ∈ p.2, isBlank c = true
  /-- It does not belong to a conditional. -/
  kind_ne : p.1.kind ≠ .ifKey ∧ p.1.kind ≠ .elseKey
  /-- After `=` there is a blank. -/
  blank_assign : p.1.kind = .assign → p.2 ≠ []

theorem IsNeat.of_kind {t : Token} {ws : List Char} (ht : t.Genuine)
    (hws : ∀ c ∈ ws, isBlank c = true) (hk : t.kind ∉ [Kind.ifKey, .elseKey, .assign]) :
    IsNeat (t, ws) := by
  simp only [List.mem_cons, List.not_mem_nil, or_false, not_or] at hk
  exact ⟨ht, hws, ⟨hk.1, hk.2.1⟩, fun h => absurd h hk.2.2⟩

theorem IsNeat.ofKind {k : Kind} {ws : List Char} (hk : k.spelling?.isSome)
    (hws : ∀ c ∈ ws, isBlank c = true) (hk' : k ∉ [Kind.ifKey, .elseKey, .assign]) :
    IsNeat (.ofKind k, ws) :=
  .of_kind (Token.genuine_ofKind hk) hws hk'

theorem isBlank_of_mem_space : ∀ c ∈ [' '], isBlank c = true :=
  List.forall_mem_singleton.mpr rfl

theorem Expr.IsPlain.isNeat {e : Expr} (h : e.IsPlain) (hwf : e.WellFormed) {ws : List Char}
    (hws : ∀ c ∈ ws, isBlank c = true) : ∀ p ∈ e.pieces ws, IsNeat p := by
  have hnil : ∀ c ∈ ([] : List Char), isBlank c = true := by simp
  induction h generalizing ws with
  | identifier =>
    refine List.forall_mem_singleton.mpr (.of_kind (Identifier.WellFormed.genuine hwf) hws ?_)
    simp [Identifier.WellFormed.kind_eq hwf]
  | integer =>
    obtain ⟨hkind, n, hvalue, -⟩ := hwf
    refine List.forall_mem_singleton.mpr (.of_kind (Token.genuine_of_natural? hkind hvalue) hws ?_)
    simp [hkind]
  | @boolean t value =>
    obtain rfl := hwf
    refine List.forall_mem_singleton.mpr (.ofKind ?_ hws ?_) <;> cases value <;> decide
  | @unary t _ _ _ ih =>
    obtain ⟨hkind, ht, -, hwf⟩ := hwf
    have hop : ∀ k ∈ [Kind.bang, .minus],
        k.spelling?.isSome ∧ k ∉ [Kind.ifKey, .elseKey, .assign] := by decide
    have ht' := Token.genuine_of_eq_ofKind ht (hop _ hkind).1
    simp only [Expr.pieces, List.forall_mem_cons, List.forall_mem_append]
    exact ⟨.ofKind rfl hnil (by decide), .of_kind ht' hnil (hop _ hkind).2, ih hwf hnil,
      .ofKind rfl hws (by decide), by simp⟩
  | @binary t _ _ _ _ _ ih ih' =>
    obtain ⟨hop, ht, -, hwf, hwf'⟩ := hwf
    have hkind : t.kind ∉ [Kind.ifKey, .elseKey, .assign] := by
      revert hop
      cases t.kind <;> decide
    have ht' := Token.genuine_of_eq_ofKind ht hop.isSome_spelling?
    simp only [Expr.pieces, List.forall_mem_cons, List.forall_mem_append]
    exact ⟨.ofKind rfl hnil (by decide), ih hwf isBlank_of_mem_space,
      .of_kind ht' isBlank_of_mem_space hkind, ih' hwf' hnil, .ofKind rfl hws (by decide), by simp⟩

theorem Stmt.IsPlain.isNeat {s : Stmt} (h : s.IsPlain) (hwf : s.WellFormed) :
    ∀ p ∈ s.pieces, IsNeat p := by
  have hnil : ∀ c ∈ ([] : List Char), isBlank c = true := by simp
  cases h with
  | binding hvalue =>
    obtain ⟨rfl, hname, hwf⟩ := hwf
    simp only [Stmt.pieces, List.forall_mem_cons, List.forall_mem_append]
    refine ⟨.ofKind rfl isBlank_of_mem_space (by decide),
      .of_kind hname.genuine isBlank_of_mem_space (by simp [hname.kind_eq]),
      ⟨Token.genuine_ofKind rfl, isBlank_of_mem_space, by decide, by simp⟩,
      hvalue.isNeat hwf hnil, .ofKind rfl hnil (by decide), by simp⟩
  | result hvalue =>
    obtain ⟨rfl, hwf⟩ := hwf
    simp only [Stmt.pieces, List.forall_mem_cons, List.forall_mem_append]
    exact ⟨.ofKind rfl isBlank_of_mem_space (by decide), hvalue.isNeat hwf hnil,
      .ofKind rfl hnil (by decide), by simp⟩
  | expression hexpr => exact hexpr.isNeat hwf hnil

/-- The kinds of the tokens at the front of canonical forms of expressions. -/
def Kind.OpensExpression (k : Kind) : Prop :=
  k ∈ [Kind.ident, .int, .trueKey, .falseKey, .lparen]

instance (k : Kind) : Decidable k.OpensExpression := inferInstanceAs (Decidable (k ∈ _))

theorem Expr.IsPlain.exists_first {e : Expr} (h : e.IsPlain) (hwf : e.WellFormed)
    (ws : List Char) : ∃ p ps, e.pieces ws = p :: ps ∧ p.1.kind.OpensExpression := by
  cases h with
  | identifier =>
    exact ⟨_, _, rfl, by simp [Kind.OpensExpression, Identifier.WellFormed.kind_eq hwf]⟩
  | integer => exact ⟨_, _, rfl, by simp [Kind.OpensExpression, hwf.1]⟩
  | @boolean t value =>
    obtain rfl := hwf
    exact ⟨_, _, rfl, by cases value <;> simp [Kind.OpensExpression]⟩
  | unary => exact ⟨_, _, rfl, by simp [Kind.OpensExpression]⟩
  | binary => exact ⟨_, _, rfl, by simp [Kind.OpensExpression]⟩

theorem Expr.IsPlain.exists_last {e : Expr} (h : e.IsPlain) (ws : List Char) :
    ∃ ps t, e.pieces ws = ps ++ [(t, ws)] := by
  cases h with
  | identifier | integer | boolean => exact ⟨[], _, rfl⟩
  | @unary t _ operand =>
    exact ⟨(.ofKind .lparen, []) :: (t, []) :: operand.pieces [], _, rfl⟩
  | @binary t left _ right =>
    exact ⟨(.ofKind .lparen, []) :: (left.pieces [' '] ++ (t, [' ']) :: right.pieces []),
      .ofKind .rparen, by simp [Expr.pieces]⟩

/-! ### Neighbours in canonical forms -/

/-- The tokens do not glue, or there is a blank between them. -/
def Apart (p q : Token × List Char) : Prop :=
  p.2 = [] → ¬ p.1.Glues q.1

theorem Apart.of_ne_nil {p q : Token × List Char} (h : p.2 ≠ []) : Apart p q :=
  fun hnil => absurd hnil h

/-- A token that takes nothing with it needs no blank. -/
theorem Apart.of_left {p q : Token × List Char} (h : p.1.kind.isWord = false ∧ p.1.kind ≠ .int ∧
    p.1.kind ≠ .assign ∧ p.1.kind ≠ .bang) : Apart p q := by
  obtain ⟨hword, hint, hassign, hbang⟩ := h
  simp [Apart, Token.Glues, hword, hint, hassign, hbang]

/-- Closing parentheses and semicolons need no blank before them. -/
theorem isChain_concat_ofKind {ps : List (Token × List Char)} (h : ps.IsChain Apart) {k : Kind}
    (hk : k = .rparen ∨ k = .semicolon) (ws : List Char) :
    (ps ++ [(Token.ofKind k, ws)]).IsChain Apart := by
  have hkind : k.isWord = false ∧ k ≠ .int ∧ (Token.ofKind k).literal.toList.head? ≠ some '=' := by
    rcases hk with rfl | rfl <;> decide
  obtain ⟨hword, hint, hhead⟩ := hkind
  refine List.isChain_append.mpr ⟨h, .singleton _, fun p _ q hq => ?_⟩
  obtain rfl := Option.some.inj hq
  simp [Apart, Token.Glues, hword, hint, hhead]

/-- An operator in front of its operand needs no blank. -/
theorem Apart.of_opensExpression {p q : Token × List Char} (hp : p.1.kind ∈ [Kind.bang, .minus])
    (hq : q.1.Genuine) (hkind : q.1.kind.OpensExpression) : Apart p q := by
  have hother : ∀ k ∈ [Kind.bang, .minus], k.isWord = false ∧ k ≠ .int := by decide
  rintro - (⟨hword, -⟩ | ⟨hint, -⟩ | ⟨-, hhead⟩)
  · exact absurd hword (by simp [(hother _ hp).1])
  · exact (hother _ hp).2 hint
  · -- The operand begins with a letter, a digit or a parenthesis.
    obtain ⟨cs, hcs⟩ := List.head?_eq_some_iff.mp hhead
    have hopens : ∀ k : Kind, k.OpensExpression → k.isWord = true ∨ k = .int ∨ k = .lparen := by
      intro k
      cases k <;> decide
    have hlexeme := hq
    rw [Token.Genuine, hcs] at hlexeme
    rcases hopens _ hkind with hword | hint | hparen
    · exact absurd (hlexeme.isWord_iff.1.mp hword) (by decide)
    · exact absurd (hlexeme.isWord_iff.2.mp hint) (by decide)
    · rw [hq.literal_eq hparen rfl] at hhead
      exact absurd hhead (by decide)

/-- In the canonical form of an expression no tokens glue. -/
theorem Expr.IsPlain.isChain_pieces {e : Expr} (h : e.IsPlain) (hwf : e.WellFormed)
    (ws : List Char) : (e.pieces ws).IsChain Apart := by
  have hnil : ∀ c ∈ ([] : List Char), isBlank c = true := by simp
  induction h generalizing ws with
  | identifier | integer | boolean => exact .singleton _
  | @unary t _ operand hoperand ih =>
    obtain ⟨hkind, -, -, hwf⟩ := hwf
    obtain ⟨q, qs, hq, hopens⟩ := hoperand.exists_first hwf []
    have hgenuine := (hoperand.isNeat hwf hnil q (by simp [hq])).genuine
    have hinner := isChain_concat_ofKind (ih hwf []) (.inl rfl) ws
    refine List.isChain_cons.mpr ⟨fun _ _ => .of_left (by decide), ?_⟩
    refine List.isChain_cons.mpr ⟨fun q' hq' => ?_, hinner⟩
    obtain rfl : q = q' := by simpa [hq] using hq'
    exact .of_opensExpression hkind hgenuine hopens
  | @binary t left _ right hleft hright ih ih' =>
    obtain ⟨-, -, -, hwf, hwf'⟩ := hwf
    have hinner := isChain_concat_ofKind (ih' hwf' []) (.inl rfl) ws
    refine List.isChain_cons.mpr ⟨fun _ _ => .of_left (by decide), ?_⟩
    refine List.isChain_append.mpr ⟨ih hwf [' '], ?_, fun p hp _ _ => ?_⟩
    · exact List.isChain_cons.mpr ⟨fun _ _ => .of_ne_nil (by simp), hinner⟩
    · obtain ⟨ps, u, hlast⟩ := hleft.exists_last [' ']
      obtain rfl : (u, [' ']) = p := by simpa [hlast] using hp
      exact .of_ne_nil (by simp)

theorem Stmt.IsPlain.isChain_pieces {s : Stmt} (h : s.IsPlain) (hwf : s.WellFormed) :
    s.pieces.IsChain Apart := by
  have hspace {t : Token} {ps : List (Token × List Char)} (hps : ps.IsChain Apart) :
      ((t, [' ']) :: ps).IsChain Apart :=
    List.isChain_cons.mpr ⟨fun _ _ => .of_ne_nil (by simp), hps⟩
  cases h with
  | binding hvalue =>
    have hinner := isChain_concat_ofKind (hvalue.isChain_pieces hwf.2.2 []) (.inr rfl) []
    exact hspace (hspace (hspace hinner))
  | result hvalue =>
    exact hspace (isChain_concat_ofKind (hvalue.isChain_pieces hwf.2 []) (.inr rfl) [])
  | expression hexpr => exact hexpr.isChain_pieces hwf []

/-- The first piece of a statement tells how its canonical form begins. -/
theorem Stmt.IsPlain.exists_first {s : Stmt} (h : s.IsPlain) (hwf : s.WellFormed) :
    ∃ q qs, s.pieces = q :: qs ∧
      (q.1.kind.OpensExpression ∨ q.1.kind = .letKey ∨ q.1.kind = .returnKey) ∧
      (q.1.kind.isWord = true ↔ ∃ c ∈ s.render.toList.head?, isLetter c = true) ∧
      (q.1.kind = .int ↔ s.IsNumber) := by
  have hkind : ∃ q qs, s.pieces = q :: qs ∧
      (q.1.kind.OpensExpression ∨ q.1.kind = .letKey ∨ q.1.kind = .returnKey) ∧
      (q.1.kind = .int ↔ s.IsNumber) := by
    cases h with
    | binding =>
      obtain ⟨rfl, -⟩ := hwf
      exact ⟨_, _, rfl, .inr (.inl rfl), by simp [Stmt.IsNumber]⟩
    | result =>
      obtain ⟨rfl, -⟩ := hwf
      exact ⟨_, _, rfl, .inr (.inr rfl), by simp [Stmt.IsNumber]⟩
    | expression hexpr =>
      obtain ⟨q, qs, hq, hopens⟩ := hexpr.exists_first hwf []
      refine ⟨q, qs, hq, .inl hopens, ?_⟩
      cases hexpr with
      | identifier =>
        obtain ⟨rfl, rfl⟩ := List.cons.inj hq
        simp [Stmt.IsNumber, Identifier.WellFormed.kind_eq hwf]
      | integer =>
        obtain ⟨rfl, rfl⟩ := List.cons.inj hq
        simp [Stmt.IsNumber, hwf.1]
      | @boolean _ value =>
        obtain ⟨rfl, rfl⟩ := List.cons.inj hq
        obtain rfl := hwf
        cases value <;> simp [Stmt.IsNumber]
      | unary | binary =>
        obtain ⟨rfl, rfl⟩ := List.cons.inj hq
        simp [Stmt.IsNumber]
  obtain ⟨q, qs, hq, hopens, hint⟩ := hkind
  refine ⟨q, qs, hq, hopens, ?_, hint⟩
  have hgenuine := (h.isNeat hwf q (by simp [hq])).genuine
  rw [← h.pieceChars_pieces hwf, hq, pieceChars_cons]
  cases hcs : q.1.literal.toList with
  | nil => exact absurd hcs hgenuine.ne_nil
  | cons c cs =>
    rw [Token.Genuine, hcs] at hgenuine
    simp [hgenuine.isWord_iff.1]

/-- The last piece of a statement tells what may come after it. -/
theorem Stmt.IsPlain.exists_last {s : Stmt} (h : s.IsPlain) (hwf : s.WellFormed) :
    ∃ ps t, s.pieces = ps ++ [(t, [])] ∧ (t.kind.isWord = true ↔ s.IsWord) ∧
      (t.kind = .int ↔ s.IsNumber) ∧ t.kind ≠ .assign ∧ t.kind ≠ .bang := by
  have hmark {k : Kind} (hk : k = .rparen ∨ k = .semicolon) (hs : ¬ s.IsWord ∧ ¬ s.IsNumber) :
      (k.isWord = true ↔ s.IsWord) ∧ (k = .int ↔ s.IsNumber) ∧ k ≠ .assign ∧ k ≠ .bang := by
    have hkind : k.isWord ≠ true ∧ k ≠ .int ∧ k ≠ .assign ∧ k ≠ .bang := by
      rcases hk with rfl | rfl <;> decide
    exact ⟨iff_of_false hkind.1 hs.1, iff_of_false hkind.2.1 hs.2, hkind.2.2⟩
  cases h with
  | @binding t name value =>
    exact ⟨(t, [' ']) :: (name.token, [' ']) :: (.ofKind .assign, [' ']) :: value.pieces [],
      .ofKind .semicolon, rfl, hmark (.inr rfl) ⟨id, id⟩⟩
  | @result t value =>
    exact ⟨(t, [' ']) :: value.pieces [], .ofKind .semicolon, rfl, hmark (.inr rfl) ⟨id, id⟩⟩
  | expression hexpr =>
    cases hexpr with
    | @identifier name =>
      refine ⟨[], name.token, rfl, ?_⟩
      rw [Identifier.WellFormed.kind_eq hwf]
      exact ⟨iff_of_true rfl trivial, iff_of_false (by decide) id, by decide, by decide⟩
    | @integer t value =>
      refine ⟨[], t, rfl, ?_⟩
      rw [hwf.1]
      exact ⟨iff_of_false (by decide) id, iff_of_true rfl trivial, by decide, by decide⟩
    | @boolean t value =>
      obtain rfl := hwf
      refine ⟨[], _, rfl, iff_of_true ?_ trivial, iff_of_false ?_ id, ?_, ?_⟩ <;>
        cases value <;> decide
    | @unary t _ operand =>
      exact ⟨(.ofKind .lparen, []) :: (t, []) :: operand.pieces [], .ofKind .rparen, rfl,
        hmark (.inl rfl) ⟨id, id⟩⟩
    | @binary t left _ right =>
      exact ⟨(.ofKind .lparen, []) :: (left.pieces [' '] ++ (t, [' ']) :: right.pieces []),
        .ofKind .rparen, by simp [Stmt.pieces, Expr.pieces], hmark (.inl rfl) ⟨id, id⟩⟩

/-- Between two statements, tokens glue exactly if the canonical forms run together. -/
theorem Stmt.IsPlain.apart_iff {s s' : Stmt} (h : s.IsPlain) (hwf : s.WellFormed)
    (h' : s'.IsPlain) (hwf' : s'.WellFormed) :
    (∀ p ∈ s.pieces.getLast?, ∀ q ∈ s'.pieces.head?, Apart p q) ↔ ¬ s.Glues s' := by
  obtain ⟨ps, t, hlast, hword, hint, hassign, hbang⟩ := h.exists_last hwf
  obtain ⟨q, qs, hfirst, -, hword', hint'⟩ := h'.exists_first hwf'
  have hglues : t.Glues q.1 ↔ s.Glues s' := by
    rw [Token.Glues, Stmt.Glues, hword, hint, hword', hint']
    simp [hassign, hbang]
  simp [hlast, hfirst, Apart, hglues]

/-- In the canonical form of a program no tokens glue exactly if no statements run together. -/
theorem isChain_pieces_iff {ss : List Stmt} (hplain : ∀ s ∈ ss, s.IsPlain)
    (hwf : ∀ s ∈ ss, s.WellFormed) :
    (ss.flatMap Stmt.pieces).IsChain Apart ↔ ss.IsChain fun s s' => ¬ s.Glues s' := by
  have hne : [] ∉ ss.map Stmt.pieces := by
    intro hmem
    obtain ⟨s, hs, hnil⟩ := List.mem_map.mp hmem
    obtain ⟨q, qs, hq, -⟩ := (hplain s hs).exists_first (hwf s hs)
    rw [hq] at hnil
    cases hnil
  have hstmt : ∀ ps ∈ ss.map Stmt.pieces, ps.IsChain Apart := by
    rintro _ hps
    obtain ⟨s, hs, rfl⟩ := List.mem_map.mp hps
    exact (hplain s hs).isChain_pieces (hwf s hs)
  rw [List.flatMap_def, List.isChain_flatten hne, and_iff_right hstmt, List.isChain_map]
  exact List.IsChain.iff_of_mem_imp fun s s' hs hs' =>
    (hplain s hs).apart_iff (hwf s hs) (hplain s' hs') (hwf s' hs')

end FrontEnd
