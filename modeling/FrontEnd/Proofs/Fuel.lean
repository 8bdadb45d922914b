import FrontEnd.Proofs.Tape

/-!
# Every reading ends

If no expression begins with the end token, every reading ends, whatever else the grammar says: each
reading that calls another one on the same token does so only a bounded number of times in a row,
and then moves on. So a fixed multiple of the number of tokens ahead is fuel enough, and no reading
goes back.

## Main definitions

* `FrontEnd.Tape.Within` — a reading that ends with at most so many tokens ahead.
* `FrontEnd.Tape.Ends` — every reading with some fuel ends if the tape is short enough for it.

## Main results

* `FrontEnd.Tape.ends` — every reading ends.
* `FrontEnd.exists_program_eq` — a text is read to its end from the tape of its tokens, and the
  parse of the text is what comes of it.
-/

namespace FrontEnd

namespace Tape

open Window

variable {α β : Type}

/-- The reading ends, and leaves at most `k` tokens ahead. -/
def Within (k : Nat) (x : Option (α × Tape)) : Prop :=
  ∃ a t, x = some (a, t) ∧ t.ahead.length ≤ k

theorem Within.some {k : Nat} {t : Tape} (a : α) (h : t.ahead.length ≤ k) :
    Within k (some (a, t)) :=
  ⟨a, t, rfl, h⟩

theorem Within.mono {j k : Nat} {x : Option (α × Tape)} (hx : Within j x) (h : j ≤ k) :
    Within k x := by
  obtain ⟨a, t, rfl, ht⟩ := hx
  exact .some a (ht.trans h)

theorem Within.bind {j k : Nat} {x : Option (α × Tape)} {f : α × Tape → Option (β × Tape)}
    (hx : Within j x) (hf : ∀ a t, t.ahead.length ≤ j → Within k (f (a, t))) :
    Within k (x >>= f) := by
  obtain ⟨a, t, rfl, ht⟩ := hx
  exact hf a t ht

/-- A token other than the end token is found only while there are tokens ahead. -/
theorem Within.expecting {k : Nat} {t : Tape} {kind : Kind}
    {f : Tape → Option (Option α × Tape)} (hkind : kind ≠ .eof) (ht : t.ahead.length ≤ k)
    (hf : ∀ t', t'.ahead.length + 1 = t.ahead.length → t'.ahead ≠ [] → Within k (f t')) :
    Within k (expecting t kind f) := by
  by_cases h : (peek t).is kind = true
  · rw [expecting_of_is h]
    have hne : t.ahead.tail ≠ [] := by
      intro hnil
      simp only [peek_eq, hnil, Token.is, front_nil, Token.eof, beq_iff_eq] at h
      exact hkind h.symm
    have hlen : t.ahead.tail.length + 1 = t.ahead.length := by
      have := List.length_pos_iff.mpr hne
      rw [List.length_tail] at this ⊢
      omega
    exact hf _ hlen hne
  · rw [Bool.not_eq_true] at h
    rw [expecting_of_not_is h]
    exact .some _ ht

theorem length_ahead_skipSemicolon_le (t : Tape) :
    (skipSemicolon t).ahead.length ≤ t.ahead.length := by
  unfold skipSemicolon
  split
  · simp
  · exact le_rfl

/-- The rest of a conditional ends if the blocks do that begin after two tokens. -/
theorem Within.branches {k : Nat} {block : Tape → Option (Block × Tape)} (i : Token)
    (condition? : Option Expr) {t : Tape} (ht : t.ahead.length ≤ k)
    (hblock : ∀ t', t'.ahead.length + 2 ≤ t.ahead.length → Within t'.ahead.length (block t')) :
    Within k (Parse.branches block i condition? t) := by
  unfold Parse.branches
  refine Within.expecting (by decide) ht fun t₁ h₁ _ => ?_
  refine Within.expecting (by decide) (by omega) fun t₂ h₂ _ => ?_
  refine (hblock t₂ (by omega)).bind fun _ t₃ h₃ => ?_
  dsimp only
  split
  · have hadv : (advance t₃).ahead.length ≤ t₃.ahead.length := by simp
    refine Within.expecting (by decide) (by omega) fun t₄ h₄ _ => ?_
    refine (hblock t₄ (by omega)).bind fun _ t₅ h₅ => ?_
    exact .some (t := t₅) _ (by omega)
  · exact .some _ (by omega)

/-- Every reading by `g` with the fuel `n` ends without going back, provided that there is fuel for
the tokens ahead: eight units for each of them, and for the calls on the current token as many as
can stand in a row. Statements are read up to the end token at the latest. -/
structure Ends (g : Grammar) (n : Nat) : Prop where
  expression : ∀ b (t : Tape), 8 * t.ahead.length + 4 ≤ n →
    Within t.ahead.length (Parse.expression g n b t)
  climb : ∀ b left (t : Tape), 8 * t.ahead.length + 3 ≤ n →
    Within t.ahead.length (Parse.climb g n b left t)
  binary : ∀ left b (t : Tape), 8 * t.ahead.length + 2 ≤ n →
    Within t.ahead.tail.length (Parse.binary g n left b t)
  leading : ∀ r (t : Tape), 8 * t.ahead.length + 3 ≤ n →
    Within t.ahead.length (Parse.leading g n r t)
  conditional : ∀ t : Tape, 8 * t.ahead.length + 2 ≤ n →
    Within t.ahead.length (Parse.conditional g n t)
  statement : ∀ t : Tape, 8 * t.ahead.length + 6 ≤ n →
    Within t.ahead.length (Parse.statement g n t)
  opening : ∀ r (t : Tape), 8 * t.ahead.length + 5 ≤ n →
    Within t.ahead.length (Parse.opening g n r t)
  statements : ∀ stop (t : Tape), .eof ∈ stop → 8 * t.ahead.length + 7 ≤ n →
    Within t.ahead.length (Parse.statements g n stop t)
  block : ∀ t : Tape, 8 * t.ahead.length + 8 ≤ n →
    Within t.ahead.length (Parse.block g n t)

theorem Ends.zero (g : Grammar) : Ends g 0 := by
  constructor <;> intros <;> omega

variable {g : Grammar} {n : Nat}

/-- At the end of the tape no expression begins, and one unit of fuel shows it. -/
theorem expression_of_ahead_eq_nil (hg : g.leading .eof = none) (n : Nat) (b : Power) {t : Tape}
    (ht : t.ahead = []) :
    Parse.expression g (n + 1) b t = some (none, record t (.noExpression .eof)) := by
  have hcur : (current t).kind = .eof := by simp [ht, Token.eof]
  unfold Parse.expression
  rw [hcur, hg]

theorem binary_of_ahead_eq_nil (hg : g.leading .eof = none) (n : Nat) (left : Expr) (b : Power)
    {t : Tape} (ht : t.ahead = []) :
    Parse.binary g (n + 2) left b t = some (none, record (advance t) (.noExpression .eof)) := by
  have hadv : (advance t).ahead = [] := by simp [ht]
  unfold Parse.binary
  rw [expression_of_ahead_eq_nil hg n b hadv]
  rfl

/-- After a move there is fuel for an expression. -/
theorem Ends.expression_advance (hg : g.leading .eof = none) (ih : Ends g n) (b : Power) (t : Tape)
    (h : 8 * t.ahead.length + 1 ≤ n) :
    Within t.ahead.tail.length (Parse.expression g n b (advance t)) := by
  obtain ⟨m, rfl⟩ : ∃ m, n = m + 1 := ⟨n - 1, by omega⟩
  by_cases ht : t.ahead = []
  · rw [expression_of_ahead_eq_nil hg m b (by simp [ht])]
    exact .some _ le_rfl
  · have hpos := List.length_pos_iff.mpr ht
    have hadv : (advance t).ahead.length = t.ahead.length - 1 := by simp
    exact ih.expression b (advance t) (by omega)

/-- One more unit of fuel. -/
theorem Ends.succ (hg : g.leading .eof = none) (ih : Ends g n) : Ends g (n + 1) where
  expression b t h := by
    unfold Parse.expression
    cases g.leading (current t).kind with
    | none => exact .some _ le_rfl
    | some r =>
      refine (ih.leading r t (by omega)).bind fun left? t' ht' => ?_
      cases left? with
      | none => exact .some _ ht'
      | some left => exact (ih.climb b left t' (by omega)).mono ht'
  climb b left t h := by
    unfold Parse.climb
    split
    · cases g.trailing (peek t).kind with
      | none => exact .some _ le_rfl
      | some r =>
        by_cases ht : t.ahead = []
        · -- Past the end there is no right operand, so the loop does not go on.
          obtain ⟨m, rfl⟩ : ∃ m, n = m + 2 := ⟨n - 2, by omega⟩
          simp only [binary_of_ahead_eq_nil hg m left _ (t := advance t) (by simp [ht])]
          exact .some _ (by simp [ht])
        · have hpos := List.length_pos_iff.mpr ht
          have hadv : (advance t).ahead.length = t.ahead.length - 1 := by simp
          have htail : (advance t).ahead.tail.length ≤ t.ahead.length - 1 := by simp
          refine (ih.binary left _ (advance t) (by omega)).bind fun e? t' ht' => ?_
          cases e? with
          | none => exact .some _ (by omega)
          | some e => exact (ih.climb b e t' (by omega)).mono (by omega)
    · exact .some _ le_rfl
  binary left b t h := by
    unfold Parse.binary
    exact (ih.expression_advance hg b t (by omega)).bind fun _ _ ht => .some _ ht
  leading r t h := by
    unfold Parse.leading
    have hadv : t.ahead.tail.length ≤ t.ahead.length := by simp
    cases r with
    | identifier => exact .some _ le_rfl
    | integer =>
      cases Text.signed64? (current t).literal with
      | none => exact .some _ le_rfl
      | some value => exact .some _ le_rfl
    | boolean => exact .some _ le_rfl
    | unary =>
      exact (ih.expression_advance hg .unary t (by omega)).bind fun _ _ ht =>
        .some _ (ht.trans hadv)
    | grouping =>
      refine (ih.expression_advance hg .lowest t (by omega)).bind fun _ t' ht => ?_
      exact Within.expecting (by decide) (ht.trans hadv) fun u hu _ => .some _ (by omega)
    | conditional => exact ih.conditional t (by omega)
  conditional t h := by
    unfold Parse.conditional
    refine Within.expecting (by decide) le_rfl fun t₁ h₁ hne₁ => ?_
    have hpos := List.length_pos_iff.mpr hne₁
    refine (ih.expression_advance hg .lowest t₁ (by omega)).bind fun _ t₂ h₂ => ?_
    have hadv : t₁.ahead.tail.length ≤ t₁.ahead.length := by simp
    refine Within.branches _ _ (by omega) fun t' ht' => ?_
    exact ih.block t' (by omega)
  statement t h := by
    unfold Parse.statement
    exact ih.opening _ t (by omega)
  opening r t h := by
    unfold Parse.opening
    cases r with
    | binding =>
      refine Within.expecting (by decide) le_rfl fun t₁ h₁ _ => ?_
      refine Within.expecting (by decide) (by omega) fun t₂ h₂ _ => ?_
      have hadv : t₂.ahead.tail.length ≤ t₂.ahead.length := by simp
      refine (ih.expression_advance hg .lowest t₂ (by omega)).bind fun _ t₃ h₃ => ?_
      have := length_ahead_skipSemicolon_le t₃
      exact .some _ (by omega)
    | result =>
      have hadv : t.ahead.tail.length ≤ t.ahead.length := by simp
      refine (ih.expression_advance hg .lowest t (by omega)).bind fun _ t' h' => ?_
      have := length_ahead_skipSemicolon_le t'
      exact .some _ (by omega)
    | expression =>
      refine (ih.expression .lowest t (by omega)).bind fun _ t' h' => ?_
      have := length_ahead_skipSemicolon_le t'
      exact .some _ (by omega)
  statements stop t hstop h := by
    unfold Parse.statements
    split
    · exact .some _ le_rfl
    next hcur =>
      have hpos : 0 < t.ahead.length := by
        refine List.length_pos_iff.mpr fun hnil => hcur ?_
        simpa [hnil, Token.eof] using hstop
      refine (ih.statement t (by omega)).bind fun _ t' h' => ?_
      have hadv : (advance t').ahead.length = t'.ahead.length - 1 := by simp
      refine (ih.statements stop (advance t') hstop (by omega)).bind fun _ u hu => ?_
      exact .some _ (by omega)
  block t h := by
    unfold Parse.block
    have hadv : (advance t).ahead.length ≤ t.ahead.length := by simp
    refine (ih.statements _ (advance t) (by simp) (by omega)).bind fun _ t' h' => ?_
    exact .some _ (by omega)

/-- **Every reading ends.** -/
theorem ends (hg : g.leading .eof = none) (n : Nat) : Ends g n := by
  induction n with
  | zero => exact .zero g
  | succ n ih => exact .succ hg ih

end Tape

/-- The tape after a text is read from the tape of its tokens, with its program. The reading ends,
and the parse of the text has this program and the errors on this tape. -/
theorem exists_program_eq (source : String) :
    ∃ p t, Parse.program .standard (Parse.fuelFor (tokenize source).length)
        (Tape.ofTokens (Scanner.ofString source).tokens) = some (p, t) ∧
      parse source = ⟨p, t.faults.map Prod.snd⟩ := by
  let fuel := Parse.fuelFor (tokenize source).length
  let ts := (Scanner.ofString source).tokens
  have hfuel : 8 * ts.length + 7 ≤ fuel := by
    have : (tokenize source).length = ts.length + 1 := by simp [tokenize, ts]
    simp only [fuel, Parse.fuelFor, this]
    omega
  obtain ⟨body, t, hread, -⟩ :=
    (Tape.ends (g := .standard) (by decide) fuel).statements [.eof] (Tape.ofTokens ts) (by simp)
      hfuel
  have hprogram : Parse.program .standard fuel (Tape.ofTokens ts) = some (⟨body⟩, t) := by
    unfold Parse.program
    rw [hread]
    rfl
  refine ⟨⟨body⟩, t, hprogram, ?_⟩
  have halike := Tape.shows_isSimulation.program .standard fuel (Tape.shows_ofSource source)
  rw [hprogram] at halike
  generalize hx : Parse.program .standard fuel (ParseState.ofSource (Scanner.ofString source)) = x
    at halike
  cases halike with
  | some _ hshows =>
    unfold parse parseSource?
    rw [hx]
    exact congrArg (Parsed.mk ⟨body⟩) hshows.errors_eq

end FrontEnd
