import FrontEnd.Proofs.Acceptance
import FrontEnd.Proofs.CanonicalForm
import FrontEnd.Proofs.TokenOrder

/-!
# Reading canonical forms back

The canonical form of a program without conditionals is read back exactly if no two statements run
together in it.

If none do, the tokens of the canonical form are those that it was written with, and they spell the
program. Conversely, a text that is read back has the tokens of the program among its own, in order
and with nothing but marks between them. Where two statements run together, the text has a token in
place of the one that was written there, and trees would keep both of them. Only ELSE would not be
kept, but no text without errors has an ELSE and no IF.

## Main definitions

* `FrontEnd.Program.RoundTrips` — a program whose canonical form is read back.

## Main results

* `FrontEnd.exists_reads_pieces` — the tokens of a canonical form are read as the program.
* `FrontEnd.isChain_of_kept_eq` — where pieces glue, trees would keep other tokens.
* `FrontEnd.Derives.kind_ne_elseKey` — in statements, ELSE comes only after IF.
* `FrontEnd.roundTrips_iff` — the canonical forms that are read back.
-/

namespace FrontEnd

/-! ### Canonical forms are read back -/

/-- The tokens of the canonical form spell the expression. -/
theorem Expr.IsPlain.spells {e : Expr} (h : e.IsPlain) (ws : List Char) :
    ∃ wrapped, SpellsExpression true wrapped e ((e.pieces ws).map Prod.fst) ∧
      (e.rootPower? ≠ none → wrapped = true) := by
  induction h generalizing ws with
  | identifier => exact ⟨false, .identifier, fun h => absurd rfl h⟩
  | integer => exact ⟨false, .integer, fun h => absurd rfl h⟩
  | boolean => exact ⟨false, .boolean, fun h => absurd rfl h⟩
  | @unary t operator operand _ ih =>
    obtain ⟨wrapped, hoperand, hwrapped⟩ := ih []
    have hspells : SpellsExpression true false (.unary t operator operand) _ :=
      .unary hoperand hwrapped
    exact ⟨true, by simpa [Expr.pieces] using hspells.wrap, fun _ => rfl⟩
  | @binary t left operator right _ _ ih ih' =>
    obtain ⟨wrapped, hleft, hwrapped⟩ := ih [' ']
    obtain ⟨wrapped', hright, hwrapped'⟩ := ih' []
    have hspells : SpellsExpression true false (.binary t left operator right) _ :=
      .binary hleft (fun p hp _ => hwrapped (by simp [hp])) hright
        (fun p hp _ => hwrapped' (by simp [hp]))
    exact ⟨true, by simpa [Expr.pieces] using hspells.wrap, fun _ => rfl⟩

/-- The canonical form of a statement is read back in front of tokens that go on with no
statement. -/
theorem Stmt.IsPlain.reads {s : Stmt} (h : s.IsPlain) (hwf : s.WellFormed) :
    ∃ s', s'.mask true = s.mask true ∧ ∃ t us, s.pieces.map Prod.fst = t :: us ∧
      t.kind ∉ [Kind.rbrace, .eof] ∧ ∀ rest, (front rest).kind.EndsExpression →
        (front rest).kind ≠ .semicolon → ReadsOpening .standard
          ((Grammar.standard.statement t.kind).getD .expression) (t :: (us ++ rest)) s' rest := by
  cases h with
  | @binding t name value hvalue =>
    obtain ⟨wrapped, hspells, -⟩ := hvalue.spells []
    obtain ⟨s', hmask, u, us, hus, hstart, hreads⟩ := (SpellsStatement.binding hspells).reads hwf
    exact ⟨s', hmask, u, us, by simpa [Stmt.pieces] using hus, hstart, fun rest _ _ => hreads rest⟩
  | @result t value hvalue =>
    obtain ⟨wrapped, hspells, -⟩ := hvalue.spells []
    obtain ⟨s', hmask, u, us, hus, hstart, hreads⟩ := (SpellsStatement.result hspells).reads hwf
    exact ⟨s', hmask, u, us, by simpa [Stmt.pieces] using hus, hstart, fun rest _ _ => hreads rest⟩
  | expression hexpr =>
    obtain ⟨wrapped, hspells, -⟩ := hexpr.spells []
    obtain ⟨expr', hmask, hreads⟩ := hspells.reads hwf
    obtain ⟨u, us, r, hus, hrule⟩ := hreads.starts hwf hspells.ne_nil
    have hstart := Grammar.statement_of_leading hrule
    refine ⟨.expression u expr', by simp [Stmt.mask, hmask], u, us, hus, hstart.2, ?_⟩
    intro rest hends hsemi
    rw [hus] at hreads
    have hread := ReadsOpening.expression (hreads.lowest hwf hends)
    rwa [afterSemicolon_of_ne hsemi, ← hstart.1] at hread

/-- After a statement, the canonical form of a program goes on with no expression. -/
theorem endsExpression_front_pieces {ss : List Stmt} (hplain : ∀ s ∈ ss, s.IsPlain)
    (hwf : ∀ s ∈ ss, s.WellFormed) :
    (front ((ss.flatMap Stmt.pieces).map Prod.fst)).kind.EndsExpression ∧
      (front ((ss.flatMap Stmt.pieces).map Prod.fst)).kind ≠ .semicolon := by
  cases ss with
  | nil => decide
  | cons s ss =>
    obtain ⟨q, qs, hq, hkind, -⟩ := (hplain s (by simp)).exists_first (hwf s (by simp))
    have hopens : ∀ k : Kind, k.OpensExpression ∨ k = .letKey ∨ k = .returnKey →
        k.EndsExpression ∧ k ≠ .semicolon := by
      intro k
      cases k <;> decide
    simpa [hq] using hopens _ hkind

/-- The canonical forms of statements are read back from their tokens. -/
theorem exists_reads_pieces {ss : List Stmt} (hplain : ∀ s ∈ ss, s.IsPlain)
    (hwf : ∀ s ∈ ss, s.WellFormed) :
    ∃ ss', Stmt.maskAll true ss' = Stmt.maskAll true ss ∧
      ReadsStatements .standard [.eof] ((ss.flatMap Stmt.pieces).map Prod.fst) ss' [] := by
  induction ss with
  | nil => exact ⟨[], rfl, .nil (by simp [Token.eof])⟩
  | cons s ss ih =>
    have hplain' : ∀ s' ∈ ss, s'.IsPlain := fun s' hs' => hplain s' (by simp [hs'])
    have hwf' : ∀ s' ∈ ss, s'.WellFormed := fun s' hs' => hwf s' (by simp [hs'])
    obtain ⟨s', hmask, t, us, hus, hstart, hreads⟩ := (hplain s (by simp)).reads (hwf s (by simp))
    obtain ⟨ss', hmask', hreads'⟩ := ih hplain' hwf'
    obtain ⟨hends, hsemi⟩ := endsExpression_front_pieces hplain' hwf'
    refine ⟨s' :: ss', by rw [Stmt.maskAll, Stmt.maskAll, hmask, hmask'], ?_⟩
    rw [List.flatMap_cons, List.map_append, hus, List.cons_append]
    exact .cons (fun hmem => hstart (List.mem_cons_of_mem _ hmem)) (hreads _ hends hsemi) hreads'

/-! ### What is read back was not glued -/

mutual

theorem Expr.tokens_mask (hide : Bool) : ∀ e : Expr, (e.mask hide).tokens = e.tokens
  | .identifier _ => by rw [Expr.mask]
  | .integer _ _ => by rw [Expr.mask]
  | .boolean _ _ => by rw [Expr.mask]
  | .unary _ _ e => by rw [Expr.mask, Expr.tokens, Expr.tokens, e.tokens_mask]
  | .binary _ l _ r => by
    rw [Expr.mask, Expr.tokens, Expr.tokens, l.tokens_mask, r.tokens_mask]
  | .conditional _ c b none => by
    rw [Expr.mask, Expr.tokens, Expr.tokens, c.tokens_mask, b.tokens_mask]
  | .conditional _ c b (some a) => by
    rw [Expr.mask, Expr.tokens, Expr.tokens, c.tokens_mask, b.tokens_mask, a.tokens_mask]

theorem Stmt.tokens_mask (hide : Bool) : ∀ s : Stmt, (s.mask hide).tokens = s.tokens
  | .binding _ _ none => by rw [Stmt.mask]
  | .binding _ _ (some e) => by rw [Stmt.mask, Stmt.tokens, Stmt.tokens, e.tokens_mask]
  | .result _ none => by rw [Stmt.mask]
  | .result _ (some e) => by rw [Stmt.mask, Stmt.tokens, Stmt.tokens, e.tokens_mask]
  | .expression _ e => by rw [Stmt.mask, Stmt.tokens, Stmt.tokens, e.tokens_mask]

theorem Block.tokens_mask (hide : Bool) : ∀ b : Block, (b.mask hide).tokens = b.tokens
  | .mk _ ss => by rw [Block.mask, Block.tokens, Block.tokens, Stmt.tokensAll_maskAll hide ss]

theorem Stmt.tokensAll_maskAll (hide : Bool) :
    ∀ ss : List Stmt, Stmt.tokensAll (Stmt.maskAll hide ss) = Stmt.tokensAll ss
  | [] => rfl
  | s :: ss => by
    rw [Stmt.maskAll, Stmt.tokensAll, Stmt.tokensAll, s.tokens_mask,
      Stmt.tokensAll_maskAll hide ss]

end

/-- Statements that agree up to masks have the same tokens. -/
theorem tokensAll_eq_of_maskAll_eq {hide : Bool} {ss ss' : List Stmt}
    (h : Stmt.maskAll hide ss = Stmt.maskAll hide ss') :
    Stmt.tokensAll ss = Stmt.tokensAll ss' := by
  rw [← Stmt.tokensAll_maskAll hide ss, h, Stmt.tokensAll_maskAll]

theorem kept_cons_inj {t : Token} {ts us : List Token} (h : kept (t :: ts) = kept (t :: us)) :
    kept ts = kept us := by
  cases ht : t.kind.isKept with
  | true => simpa [kept_cons ht] using h
  | false => simpa [kept_cons_of_not rfl _ ht] using h

theorem IsLexeme.eq_or_eq_of_bang {k : Kind} {cs : List Char} (h : IsLexeme k ('!' :: cs)) :
    k = .bang ∨ k = .notEq := by
  generalize hchars : '!' :: cs = chars at h
  cases h with
  | bang => exact .inl rfl
  | notEq => exact .inr rfl
  | assign | eq => cases hchars
  | mark hmark =>
    obtain ⟨rfl, rfl⟩ := List.cons.inj hchars
    cases hmark
  | word hc | number hc =>
    obtain ⟨rfl, rfl⟩ := List.cons.inj hchars
    exact absurd hc (by decide)
  | illegal _ hbang =>
    obtain ⟨rfl, rfl⟩ := List.cons.inj hchars
    exact absurd rfl hbang

theorem Kind.isKept_of_isWord {k : Kind} (hword : k.isWord = true) (helse : k ≠ .elseKey) :
    k.isKept = true := by
  revert hword helse
  cases k <;> decide

/-- A token that takes a character with it is kept by trees. -/
theorem Kind.isKept_of_takes {k : Kind} {c : Char} (htakes : k.Takes c) (hassign : k ≠ .assign)
    (helse : k ≠ .elseKey) : k.isKept = true := by
  rcases htakes with ⟨hword, -⟩ | ⟨rfl, -⟩ | ⟨hequal, -⟩
  · exact Kind.isKept_of_isWord hword helse
  · rfl
  · rw [hequal.resolve_left hassign]
    rfl

/-- What a token becomes that takes a character with it is kept by trees, unless it is ELSE. -/
theorem IsLexeme.isKept_of_takes {k k' : Kind} {a c : Char} {as bs : List Char}
    (h : IsLexeme k (a :: as)) (h' : IsLexeme k' (a :: bs)) (htakes : k.Takes c)
    (hk : k ≠ .assign) (hk' : k' ≠ .elseKey) : k'.isKept = true := by
  rcases htakes with ⟨hword, -⟩ | ⟨hint, -⟩ | ⟨hequal, -⟩
  · exact Kind.isKept_of_isWord (h'.isWord_iff.1.mpr (h.isWord_iff.1.mp hword)) hk'
  · rw [h'.isWord_iff.2.mpr (h.isWord_iff.2.mp hint)]
    rfl
  · obtain rfl : k = .bang := hequal.resolve_left hk
    obtain rfl : a = '!' := by
      have hchars : String.ofList (a :: as) = "!" := h.ofList_eq rfl
      simpa using congrArg (fun w => w.toList.head?) hchars
    rcases h'.eq_or_eq_of_bang with rfl | rfl <;> rfl

/-- A token that takes the next character with it is not found in the text, but another one. -/
theorem Token.Genuine.exists_lex_append {t : Token} (ht : t.Genuine) {c : Char} {rest : List Char}
    (hc : c ∈ rest.head?) (htakes : t.kind.Takes c) (hassign : t.kind ≠ .assign) :
    ∃ t' ts, lex (t.literal.toList ++ rest) = t' :: ts ∧ t' ≠ t ∧
      (t'.kind ≠ .elseKey → t'.kind.isKept = true) := by
  cases hcs : t.literal.toList with
  | nil => exact absurd hcs ht.ne_nil
  | cons a as =>
    have hlexeme : IsLexeme t.kind (a :: as) := hcs ▸ ht
    have hblank : isBlank a = false := hlexeme.isBlank_eq_false a (by simp)
    let l := Lexeme.cut a (as ++ rest)
    have hlexeme' : IsLexeme l.kind l.chars := isLexeme_cut hblank _
    have hchars : l.chars ++ l.rest = a :: (as ++ rest) := Lexeme.chars_append_rest_cut a _
    refine ⟨l.token, lex l.rest, lex_cons_of_not_isBlank hblank _, fun heq => ?_, fun helse => ?_⟩
    · have hkind : l.kind = t.kind := congrArg Token.kind heq
      have hliteral : l.chars = a :: as := by
        rw [← hcs, ← heq, Lexeme.token, String.toList_ofList]
      have hrest : l.rest = rest := by
        rw [hliteral, List.cons_append] at hchars
        exact List.append_cancel_left (List.cons.inj hchars).2
      exact Lexeme.not_takes_cut a (as ++ rest) c (hrest.symm ▸ hc) (hkind.symm ▸ htakes)
    · cases hl : l.chars with
      | nil => exact absurd hl hlexeme'.ne_nil
      | cons b bs =>
        rw [hl] at hlexeme' hchars
        obtain rfl : b = a := (List.cons.inj hchars).1
        exact hlexeme.isKept_of_takes hlexeme' htakes hassign helse

/-- If the tokens of a text are those of its pieces, up to tokens that trees do not keep, no pieces
glue. -/
theorem isChain_of_kept_eq {ps : List (Token × List Char)} (hneat : ∀ p ∈ ps, IsNeat p)
    (helse : ∀ t ∈ lex (pieceChars ps), t.kind ≠ .elseKey)
    (hkept : kept (lex (pieceChars ps)) = kept (ps.map Prod.fst)) : ps.IsChain Apart := by
  induction ps with
  | nil => exact .nil
  | cons p ps ih =>
    obtain ⟨hgenuine, hblank, ⟨-, hne⟩, hassign⟩ := hneat p (by simp)
    rw [pieceChars_cons] at helse hkept
    by_cases htakes : ∃ c ∈ (p.2 ++ pieceChars ps).head?, p.1.kind.Takes c
    · -- The text begins with another token than the pieces do, and both are kept.
      obtain ⟨c, hc, htakes⟩ := htakes
      have hkind : p.1.kind ≠ .assign := by
        intro hk
        cases hws : p.2 with
        | nil => exact hassign hk hws
        | cons b ws =>
          obtain rfl : b = c := by simpa [hws] using hc
          exact Kind.not_takes_of_isBlank (hblank b (by simp [hws])) _ htakes
      obtain ⟨t', ts, hlex, hdiff, hkeeps⟩ := hgenuine.exists_lex_append hc htakes hkind
      have hkeeps' := Kind.isKept_of_takes htakes hkind hne
      rw [hlex, kept_cons (hkeeps (helse t' (by simp [hlex]))), List.map_cons, kept_cons hkeeps']
        at hkept
      exact absurd (List.cons.inj hkept).1 hdiff
    · push Not at htakes
      rw [lex_append hgenuine htakes, lex_append_of_isBlank hblank] at helse hkept
      have hchain := ih (fun q hq => hneat q (by simp [hq])) (fun t ht => helse t (by simp [ht]))
        (kept_cons_inj hkept)
      refine List.isChain_cons.mpr ⟨fun q hq hnil hglues => ?_, hchain⟩
      obtain ⟨qs, hqs⟩ := List.head?_eq_some_iff.mp hq
      have hq' := (hneat q (by simp [hqs])).genuine
      obtain ⟨c, hc, hc'⟩ := hq'.glues_iff.mp hglues
      obtain ⟨cs, hcs⟩ := List.head?_eq_some_iff.mp hc
      exact htakes c (by simp [hnil, hqs, hcs]) hc'

/-! ### No text without IF has an ELSE -/

/-- How many more branches of conditionals may come after a token. -/
def Kind.branching : Kind → Int
  | ifKey => 1
  | elseKey => -1
  | _ => 0

theorem Kind.balances_branching : Derives.Balances Kind.branching where
  braces := by decide
  branches := by decide
  others k _ hk := by
    revert hk
    cases k <;> decide

/-- In statements, ELSE comes only after IF. -/
theorem Derives.kind_ne_elseKey {ts : List Token} (h : Derives .statements ts [])
    (hif : ∀ t ∈ ts, t.kind ≠ .ifKey) : ∀ t ∈ ts, t.kind ≠ .elseKey := by
  have hle := h.weight_le Kind.balances_branching
  have hcount : weight Kind.branching ts = -(ts.countP (·.is .elseKey) : Int) := by
    clear h hle
    induction ts with
    | nil => rfl
    | cons t ts ih =>
      rw [weight_cons, ih fun u hu => hif u (by simp [hu]), List.countP_cons]
      by_cases hk : t.kind = .elseKey
      · simp only [hk, Kind.branching, Token.is, beq_self_eq_true, if_true]
        omega
      · have hzero : t.kind.branching = 0 := by
          have ht := hif t (by simp)
          revert hk ht
          cases t.kind <;> decide
        simp [hzero, Token.is, hk]
  rw [weight_nil, hcount] at hle
  have hzero : ts.countP (·.is .elseKey) = 0 := by omega
  intro t ht helse
  exact List.countP_eq_zero.mp hzero t ht (by simp [Token.is, helse])

/-! ### The canonical forms that are read back -/

theorem Stmt.AllWellFormed.wellFormed : ∀ {ss : List Stmt}, Stmt.AllWellFormed ss →
    ∀ s ∈ ss, s.WellFormed
  | [], _ => by simp
  | _ :: _, ⟨hwf, hwf'⟩ => List.forall_mem_cons.mpr ⟨hwf, hwf'.wellFormed⟩

/-- The canonical form of the program is read without errors, and what is read is the program, up to
the tokens of expression statements. -/
def Program.RoundTrips (p : Program) : Prop :=
  (parse p.render).errors = [] ∧ (parse p.render).program.mask true = p.mask true

section RoundTrips

variable {p : Program} (hplain : ∀ s ∈ p.statements, s.IsPlain)
  (hwf : ∀ s ∈ p.statements, s.WellFormed)

include hplain hwf

theorem isNeat_of_mem_pieces : ∀ q ∈ p.statements.flatMap Stmt.pieces, IsNeat q := by
  intro q hq
  obtain ⟨s, hs, hq⟩ := List.mem_flatMap.mp hq
  exact (hplain s hs).isNeat (hwf s hs) q hq

/-- Without glued tokens the canonical form is read back. -/
theorem roundTrips_of_isChain (h : (p.statements.flatMap Stmt.pieces).IsChain Apart) :
    p.RoundTrips := by
  have hneat := isNeat_of_mem_pieces hplain hwf
  have hmaximal : Segmentation.IsMaximal ⟨[], p.statements.flatMap Stmt.pieces⟩ :=
    ⟨by simp, fun q hq => (hneat q hq).genuine.wellFormed, fun q hq => (hneat q hq).blank, h⟩
  have hlex : lex p.render.toList = (p.statements.flatMap Stmt.pieces).map Prod.fst := by
    rw [Program.render, ← pieceChars_flatMap_pieces hplain hwf]
    exact hmaximal.lex_chars
  obtain ⟨ss, hmask, hreads⟩ := exists_reads_pieces hplain hwf
  rw [← hlex] at hreads
  rw [Program.RoundTrips, parse_of_reads hreads]
  exact ⟨rfl, congrArg Program.mk hmask⟩

/-- If the canonical form is read back, it has no glued tokens. -/
theorem isChain_of_roundTrips (h : p.RoundTrips) :
    (p.statements.flatMap Stmt.pieces).IsChain Apart := by
  obtain ⟨herrors, hmask⟩ := h
  have hneat := isNeat_of_mem_pieces hplain hwf
  have hchars := pieceChars_flatMap_pieces hplain hwf
  have hderives : Derives .statements (lex p.render.toList) [] := by
    obtain ⟨ss, hreads, -⟩ := reads_of_errors_eq_nil herrors
    exact hreads.derives fun t => genuine_of_mem_lex
  -- The tokens that trees keep are the tokens of the program, on both sides.
  have hkept : kept (lex p.render.toList) =
      kept ((p.statements.flatMap Stmt.pieces).map Prod.fst) := by
    obtain ⟨ss, hmask', hreads⟩ := exists_reads_pieces hplain hwf
    have htokens := hreads.tokens_eq
    rw [kept_nil, List.append_nil] at htokens
    rw [← tokens_eq_kept herrors, ← htokens, tokensAll_eq_of_maskAll_eq hmask']
    exact tokensAll_eq_of_maskAll_eq (Program.mk.inj hmask)
  have hif : ∀ t ∈ lex p.render.toList, t.kind ≠ .ifKey := by
    intro t ht hk
    have hmem : t ∈ kept (lex p.render.toList) := List.mem_filter.mpr ⟨ht, by rw [hk]; rfl⟩
    rw [hkept] at hmem
    obtain ⟨q, hq, rfl⟩ := List.mem_map.mp (List.mem_filter.mp hmem).1
    exact (hneat q hq).kind_ne.1 hk
  have helse := hderives.kind_ne_elseKey hif
  rw [Program.render, ← hchars] at helse hkept
  exact isChain_of_kept_eq hneat helse hkept

end RoundTrips

/-- **The canonical forms that are read back.** The canonical form of a program without conditionals
is read back exactly if no two neighbouring statements run together. In particular that of a single
statement is. -/
theorem roundTrips_iff {p : Program} (hwf : p.WellFormed)
    (hplain : ∀ s ∈ p.statements, s.IsPlain) :
    (p.RoundTrips ↔ p.statements.IsChain fun s s' => ¬ s.Glues s') ∧
      (∀ s, p.statements = [s] → p.RoundTrips) := by
  have hwf' := hwf.wellFormed
  have hiff : p.RoundTrips ↔ p.statements.IsChain fun s s' => ¬ s.Glues s' := by
    rw [← isChain_pieces_iff hplain hwf']
    exact ⟨isChain_of_roundTrips hplain hwf', roundTrips_of_isChain hplain hwf'⟩
  refine ⟨hiff, fun s hs => hiff.mpr ?_⟩
  rw [hs]
  exact .singleton s

/-- A name, a number and a negation next to each other are read apart, and two names next to each
other are read as one. -/
theorem roundTrips_iff_juxtaposed :
    (∃ p : Program, p.WellFormed ∧ p.render = "let a = (b + 1);a1(-b)" ∧ p.RoundTrips) ∧
      ∃ p : Program, p.WellFormed ∧ p.render = "ab" ∧ ¬ p.RoundTrips := by
  let name (w : String) : Expr := .identifier ⟨⟨.ident, w⟩, w⟩
  let word (w : String) : Stmt := .expression ⟨.ident, w⟩ (name w)
  let one : Expr := .integer ⟨.int, "1"⟩ 1
  have hname {w : String} (hne : w ≠ "") (hw : w.toList.all isLetter = true)
      (hkey : Kind.keyword? w = none) : (name w).WellFormed :=
    ⟨rfl, rfl, hne, List.all_eq_true.mp hw, hkey⟩
  have ha : (name "a").WellFormed := hname (by decide) (by decide) rfl
  have hb : (name "b").WellFormed := hname (by decide) (by decide) rfl
  have hone : one.WellFormed := ⟨rfl, 1, by decide, by decide, rfl⟩
  constructor
  · let first : Stmt := .binding (.ofKind .letKey) ⟨⟨.ident, "a"⟩, "a"⟩
      (some (.binary (.ofKind .plus) (name "b") "+" one))
    let last : Stmt :=
      .expression (.ofKind .lparen) (.unary (.ofKind .minus) "-" (name "b"))
    let p : Program := ⟨[first, word "a", .expression ⟨.int, "1"⟩ one, last]⟩
    have hwf : p.WellFormed :=
      ⟨⟨rfl, ha, by decide, rfl, rfl, hb, hone⟩, ha, hone, ⟨by decide, rfl, rfl, hb⟩, trivial⟩
    refine ⟨p, hwf, by decide +kernel, (roundTrips_iff hwf ?_).1.mpr ?_⟩
    · simp only [p, List.forall_mem_cons]
      exact ⟨.binding (.binary .identifier .integer), .expression .identifier,
        .expression .integer, .expression (.unary .identifier), by simp⟩
    · refine .cons_cons ?_ (.cons_cons ?_ (.cons_cons ?_ (.singleton _)))
      · rintro (⟨h, -⟩ | ⟨h, -⟩) <;> exact h
      · rintro (⟨-, c, hc, hletter⟩ | ⟨h, -⟩)
        · obtain rfl : '1' = c := by simpa [one, Stmt.render, Expr.render] using hc
          exact absurd hletter (by decide)
        · exact h
      · rintro (⟨h, -⟩ | ⟨-, h⟩) <;> exact h
  · let p : Program := ⟨[word "a", word "b"]⟩
    have hwf : p.WellFormed := ⟨ha, hb, trivial⟩
    refine ⟨p, hwf, by decide +kernel, mt (roundTrips_iff hwf ?_).1.mp fun hchain => ?_⟩
    · simp only [p, List.forall_mem_cons]
      exact ⟨.expression .identifier, .expression .identifier, by simp⟩
    · exact List.isChain_pair.mp hchain (.inl ⟨trivial, 'b', by decide +kernel, by decide⟩)

end FrontEnd
