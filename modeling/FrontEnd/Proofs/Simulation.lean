import FrontEnd.Parse.Program

/-!
# Windows that read alike

A reading looks at tokens only through its window. So two windows that show the same tokens, now and
after every move, read the same: the same trees with the same fuel. This is the only place where the
reading functions are compared on two different types of windows.

## Main definitions

* `FrontEnd.Window.IsSimulation` — a relation between windows that show the same tokens and stay
  related.
* `FrontEnd.Window.Alike` — outcomes that give the same result and related windows.
* `FrontEnd.Window.ReadsAlike` — every reading with some fuel has alike outcomes.

## Main results

* `FrontEnd.Window.IsSimulation.readsAlike` — related windows read alike.
* `FrontEnd.Window.IsSimulation.program` — and so do whole programs.
-/

namespace FrontEnd.Window

variable {ω ω' α β : Type} [Window ω] [Window ω']

/-- A relation between windows is a *simulation* if related windows show the same tokens and stay
related after every move. -/
structure IsSimulation (R : ω → ω' → Prop) : Prop where
  /-- The current tokens agree. -/
  current_eq : ∀ ⦃s s'⦄, R s s' → current s = current s'
  /-- The tokens after them agree. -/
  peek_eq : ∀ ⦃s s'⦄, R s s' → peek s = peek s'
  /-- Moving on keeps the relation. -/
  advance : ∀ ⦃s s'⦄, R s s' → R (advance s) (advance s')
  /-- Recording an error keeps the relation. -/
  record : ∀ ⦃s s'⦄ (e : ParseError), R s s' → R (record s e) (record s' e)

/-- Two outcomes are *alike* if both lack fuel, or both give the same result and related windows. -/
inductive Alike (R : ω → ω' → Prop) : Option (α × ω) → Option (α × ω') → Prop
  | none : Alike R none none
  | some (a : α) {s : ω} {s' : ω'} (h : R s s') : Alike R (some (a, s)) (some (a, s'))

variable {R : ω → ω' → Prop}

omit [Window ω] [Window ω'] in
/-- Readings that go on alike after alike outcomes are alike. -/
theorem Alike.bind {x : Option (α × ω)} {x' : Option (α × ω')} {f : α × ω → Option (β × ω)}
    {f' : α × ω' → Option (β × ω')} (hx : Alike R x x')
    (hf : ∀ a s s', R s s' → Alike R (f (a, s)) (f' (a, s'))) :
    Alike R (x >>= f) (x' >>= f') := by
  cases hx with
  | none => exact .none
  | some a h => exact hf a _ _ h

namespace IsSimulation

variable (hR : IsSimulation R)

include hR

theorem skipSemicolon {s : ω} {s' : ω'} (h : R s s') :
    R (skipSemicolon s) (skipSemicolon s') := by
  unfold Window.skipSemicolon
  rw [hR.peek_eq h]
  split
  · exact hR.advance h
  · exact h

theorem expecting {s : ω} {s' : ω'} (k : Kind) {f : ω → Option (Option α × ω)}
    {f' : ω' → Option (Option α × ω')} (h : R s s')
    (hf : ∀ s s', R s s' → Alike R (f s) (f' s')) :
    Alike R (expecting s k f) (expecting s' k f') := by
  by_cases hk : (peek s).is k = true
  · rw [expecting_of_is hk, expecting_of_is (hR.peek_eq h ▸ hk)]
    exact hf _ _ (hR.advance h)
  · rw [Bool.not_eq_true] at hk
    rw [expecting_of_not_is hk, expecting_of_not_is (hR.peek_eq h ▸ hk), hR.peek_eq h]
    exact .some _ (hR.record _ h)

/-- If blocks are read alike, so is the rest of a conditional after its condition. -/
theorem branches {block : ω → Option (Block × ω)} {block' : ω' → Option (Block × ω')}
    (hblock : ∀ ⦃s s'⦄, R s s' → Alike R (block s) (block' s')) (t : Token)
    (condition? : Option Expr) {s : ω} {s' : ω'} (h : R s s') :
    Alike R (Parse.branches block t condition? s) (Parse.branches block' t condition? s') := by
  unfold Parse.branches
  refine hR.expecting _ h fun s₁ s₁' h₁ => hR.expecting _ h₁ fun s₂ s₂' h₂ => ?_
  refine (hblock h₂).bind fun consequence s₃ s₃' h₃ => ?_
  simp only [hR.peek_eq h₃]
  split
  · refine hR.expecting _ (hR.advance h₃) fun s₄ s₄' h₄ => ?_
    exact (hblock h₄).bind fun alternative s₅ s₅' h₅ => .some _ h₅
  · exact .some _ h₃

end IsSimulation

/-- Every reading by `g` with the fuel `n` has alike outcomes on related windows. -/
structure ReadsAlike (R : ω → ω' → Prop) (g : Grammar) (n : Nat) : Prop where
  expression : ∀ b ⦃s s'⦄, R s s' → Alike R (Parse.expression g n b s) (Parse.expression g n b s')
  climb : ∀ b left ⦃s s'⦄, R s s' → Alike R (Parse.climb g n b left s) (Parse.climb g n b left s')
  binary : ∀ left b ⦃s s'⦄, R s s' →
    Alike R (Parse.binary g n left b s) (Parse.binary g n left b s')
  leading : ∀ r ⦃s s'⦄, R s s' → Alike R (Parse.leading g n r s) (Parse.leading g n r s')
  conditional : ∀ ⦃s s'⦄, R s s' → Alike R (Parse.conditional g n s) (Parse.conditional g n s')
  statement : ∀ ⦃s s'⦄, R s s' → Alike R (Parse.statement g n s) (Parse.statement g n s')
  opening : ∀ r ⦃s s'⦄, R s s' → Alike R (Parse.opening g n r s) (Parse.opening g n r s')
  statements : ∀ stop ⦃s s'⦄, R s s' →
    Alike R (Parse.statements g n stop s) (Parse.statements g n stop s')
  block : ∀ ⦃s s'⦄, R s s' → Alike R (Parse.block g n s) (Parse.block g n s')

/-- No reading does anything without fuel. -/
theorem ReadsAlike.zero (R : ω → ω' → Prop) (g : Grammar) : ReadsAlike R g 0 := by
  constructor <;> intros <;> exact .none

variable (hR : IsSimulation R) {g : Grammar} {n : Nat}

include hR

/-- One more unit of fuel: every reading is made of moves of the window and of readings with less
fuel. -/
theorem ReadsAlike.succ (ih : ReadsAlike R g n) : ReadsAlike R g (n + 1) where
  expression b s s' h := by
    unfold Parse.expression
    rw [hR.current_eq h]
    cases g.leading (current s').kind with
    | none => exact .some _ (hR.record _ h)
    | some r =>
      refine (ih.leading r h).bind fun left? t t' ht => ?_
      cases left? with
      | none => exact .some _ ht
      | some left => exact ih.climb b left ht
  climb b left s s' h := by
    unfold Parse.climb
    rw [hR.peek_eq h]
    split
    · cases g.trailing (peek s').kind with
      | none => exact .some _ h
      | some r =>
        refine (ih.binary left _ (hR.advance h)).bind fun e? t t' ht => ?_
        cases e? with
        | none => exact .some _ ht
        | some e => exact ih.climb b e ht
    · exact .some _ h
  binary left b s s' h := by
    unfold Parse.binary
    rw [hR.current_eq h]
    exact (ih.expression b (hR.advance h)).bind fun right? t t' ht => .some _ ht
  leading r s s' h := by
    unfold Parse.leading
    rw [hR.current_eq h]
    cases r with
    | identifier => exact .some _ h
    | integer =>
      cases Text.signed64? (current s').literal with
      | none => exact .some _ (hR.record _ h)
      | some value => exact .some _ h
    | boolean => exact .some _ h
    | unary => exact (ih.expression _ (hR.advance h)).bind fun operand? t t' ht => .some _ ht
    | grouping =>
      refine (ih.expression _ (hR.advance h)).bind fun e? t t' ht => ?_
      exact hR.expecting _ ht fun u u' hu => .some _ hu
    | conditional => exact ih.conditional h
  conditional s s' h := by
    unfold Parse.conditional
    rw [hR.current_eq h]
    refine hR.expecting _ h fun s₁ s₁' h₁ => ?_
    refine (ih.expression _ (hR.advance h₁)).bind fun condition? s₂ s₂' h₂ => ?_
    exact hR.branches ih.block _ condition? h₂
  statement s s' h := by
    unfold Parse.statement
    rw [hR.current_eq h]
    exact ih.opening _ h
  opening r s s' h := by
    unfold Parse.opening
    rw [hR.current_eq h]
    cases r with
    | binding =>
      refine hR.expecting _ h fun s₁ s₁' h₁ => hR.expecting _ h₁ fun s₂ s₂' h₂ => ?_
      refine (ih.expression _ (hR.advance h₂)).bind fun value s₃ s₃' h₃ => ?_
      rw [hR.current_eq h₁]
      exact .some _ (hR.skipSemicolon h₃)
    | result =>
      exact (ih.expression _ (hR.advance h)).bind fun value t t' ht =>
        .some _ (hR.skipSemicolon ht)
    | expression =>
      exact (ih.expression _ h).bind fun e? t t' ht => .some _ (hR.skipSemicolon ht)
  statements stop s s' h := by
    unfold Parse.statements
    rw [hR.current_eq h]
    split
    · exact .some _ h
    · refine (ih.statement h).bind fun first? t t' ht => ?_
      exact (ih.statements stop (hR.advance ht)).bind fun others u u' hu => .some _ hu
  block s s' h := by
    unfold Parse.block
    rw [hR.current_eq h]
    exact (ih.statements _ (hR.advance h)).bind fun body t t' ht => .some _ ht

/-- **Related windows read alike.** Whatever is read, the outcomes on related windows are alike. -/
theorem IsSimulation.readsAlike (g : Grammar) (n : Nat) : ReadsAlike R g n := by
  induction n with
  | zero => exact .zero R g
  | succ n ih => exact .succ hR ih

/-- Related windows read the same program. -/
theorem IsSimulation.program (g : Grammar) (n : Nat) {s : ω} {s' : ω'} (h : R s s') :
    Alike R (Parse.program g n s) (Parse.program g n s') :=
  ((hR.readsAlike g n).statements _ h).bind fun _ _ _ ht => .some _ ht

end FrontEnd.Window
