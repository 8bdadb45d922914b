import FrontEnd.Proofs.Tape

/-!
# What a reading does to its window

A reading changes its window only by moving on and by recording errors. So whatever these two moves
keep, every reading keeps. For tapes this means that errors are never forgotten.

## Main definitions

* `FrontEnd.Window.Ensures` — a reading that, if it ends, gives only results with a property.
* `FrontEnd.Window.Reaches` — a window that comes out of another one by moves.
* `FrontEnd.Window.MovesOnly` — every reading with some fuel only makes moves.

## Main results

* `FrontEnd.Window.movesOnly` — every reading only makes moves.
* `FrontEnd.Tape.faults_prefix_of_reaches` — moves keep the errors of a tape.
-/

namespace FrontEnd.Window

variable {ω α β : Type}

/-- If the reading ends, what it gives has the property `Q`. -/
def Ensures (Q : α → ω → Prop) (x : Option (α × ω)) : Prop :=
  ∀ a s, x = some (a, s) → Q a s

theorem Ensures.none {Q : α → ω → Prop} : Ensures Q none := by
  intro a s h
  exact absurd h (by simp)

theorem Ensures.some {Q : α → ω → Prop} {a : α} {s : ω} (h : Q a s) : Ensures Q (some (a, s)) := by
  intro a' s' heq
  obtain ⟨rfl, rfl⟩ := Prod.mk.inj (Option.some.inj heq)
  exact h

theorem Ensures.mono {P Q : α → ω → Prop} {x : Option (α × ω)} (hx : Ensures P x)
    (h : ∀ a s, P a s → Q a s) : Ensures Q x :=
  fun a s heq => h a s (hx a s heq)

theorem Ensures.and {P Q : α → ω → Prop} {x : Option (α × ω)} (hP : Ensures P x)
    (hQ : Ensures Q x) : Ensures (fun a s => P a s ∧ Q a s) x :=
  fun a s heq => ⟨hP a s heq, hQ a s heq⟩

/-- A reading that goes on after another one may use what that one ensures. -/
theorem Ensures.bind {P : α → ω → Prop} {Q : β → ω → Prop} {x : Option (α × ω)}
    {f : α × ω → Option (β × ω)} (hx : Ensures P x)
    (hf : ∀ a s, P a s → Ensures Q (f (a, s))) : Ensures Q (x >>= f) := by
  cases x with
  | none => exact .none
  | some p => exact hf p.1 p.2 (hx p.1 p.2 rfl)

/-- If the second of two readings with alike outcomes ends, the first one ends with the same
result. -/
theorem Alike.ensures {ω' : Type} {R : ω' → ω → Prop} {x : Option (α × ω')} {y : Option (α × ω)}
    (h : Alike R x y) : Ensures (fun a t => ∃ s, R s t ∧ x = Option.some (a, s)) y := by
  cases h with
  | none => exact .none
  | some a h => exact .some ⟨_, h, rfl⟩

variable [Window ω]

/-- A wanted token is found or an error is recorded. -/
theorem Ensures.expecting {Q : Option α → ω → Prop} {s : ω} {k : Kind}
    {f : ω → Option (Option α × ω)} (hf : (peek s).kind = k → Ensures Q (f (advance s)))
    (he : (peek s).kind ≠ k → Q Option.none (record s (.unexpected k (peek s).kind))) :
    Ensures Q (expecting s k f) := by
  by_cases h : (peek s).kind = k
  · rw [expecting_of_is (by simpa [Token.is] using h)]
    exact hf h
  · rw [expecting_of_not_is (by simpa [Token.is] using h)]
    exact .some (he h)

/-- A window comes out of another one by moves. -/
inductive Reaches : ω → ω → Prop
  | refl (s : ω) : Reaches s s
  | advance {s t : ω} (h : Reaches s t) : Reaches s (advance t)
  | record {s t : ω} (e : ParseError) (h : Reaches s t) : Reaches s (record t e)

namespace Reaches

variable {s t u : ω}

theorem trans (h : Reaches s t) (k : Reaches t u) : Reaches s u := by
  induction k with
  | refl => exact h
  | advance _ ih => exact ih.advance
  | record e _ ih => exact ih.record e

theorem skipSemicolon (h : Reaches s t) : Reaches s (skipSemicolon t) := by
  unfold Window.skipSemicolon
  split
  · exact h.advance
  · exact h

theorem expecting {k : Kind} {f : ω → Option (Option α × ω)} (h : Reaches s t)
    (hf : Ensures (fun _ => Reaches s) (f (Window.advance t))) :
    Ensures (fun _ => Reaches s) (expecting t k f) :=
  Ensures.expecting (fun _ => hf) fun _ => h.record _

end Reaches

variable (ω) in
/-- Every reading by `g` with the fuel `n` only makes moves. -/
structure MovesOnly (g : Grammar) (n : Nat) : Prop where
  expression : ∀ b (s : ω), Ensures (fun _ => Reaches s) (Parse.expression g n b s)
  climb : ∀ b left (s : ω), Ensures (fun _ => Reaches s) (Parse.climb g n b left s)
  binary : ∀ left b (s : ω), Ensures (fun _ => Reaches s) (Parse.binary g n left b s)
  leading : ∀ r (s : ω), Ensures (fun _ => Reaches s) (Parse.leading g n r s)
  conditional : ∀ s : ω, Ensures (fun _ => Reaches s) (Parse.conditional g n s)
  statement : ∀ s : ω, Ensures (fun _ => Reaches s) (Parse.statement g n s)
  opening : ∀ r (s : ω), Ensures (fun _ => Reaches s) (Parse.opening g n r s)
  statements : ∀ stop (s : ω), Ensures (fun _ => Reaches s) (Parse.statements g n stop s)
  block : ∀ s : ω, Ensures (fun _ => Reaches s) (Parse.block g n s)

theorem MovesOnly.zero (g : Grammar) : MovesOnly ω g 0 := by
  constructor <;> intros <;> exact .none

/-- What is reached by a reading that starts at a window reached before. -/
theorem Ensures.reaches {x : Option (α × ω)} {s t : ω} (hx : Ensures (fun _ => Reaches t) x)
    (h : Reaches s t) : Ensures (fun _ => Reaches s) x :=
  hx.mono fun _ _ => h.trans

/-- If blocks only make moves, so does the rest of a conditional after its condition. -/
theorem reaches_branches {block : ω → Option (Block × ω)}
    (hblock : ∀ s, Ensures (fun _ => Reaches s) (block s)) (i : Token) (condition? : Option Expr)
    (s : ω) : Ensures (fun _ => Reaches s) (Parse.branches block i condition? s) := by
  have hadv : Reaches s (advance (advance s)) := .advance (.advance (.refl s))
  unfold Parse.branches
  refine (Reaches.refl s).expecting ((Reaches.refl s).advance.expecting ?_)
  refine ((hblock _).reaches hadv).bind fun _ t ht => ?_
  dsimp only
  split
  · refine ht.advance.expecting ?_
    exact ((hblock _).reaches ht.advance.advance).bind fun _ _ hu => .some hu
  · exact .some ht

/-- One more unit of fuel. -/
theorem MovesOnly.succ {g : Grammar} {n : Nat} (ih : MovesOnly ω g n) : MovesOnly ω g (n + 1) where
  expression b s := by
    unfold Parse.expression
    cases g.leading (current s).kind with
    | none => exact .some (.record _ (.refl s))
    | some r =>
      refine (ih.leading r s).bind fun left? t ht => ?_
      cases left? with
      | none => exact .some ht
      | some left => exact (ih.climb b left t).reaches ht
  climb b left s := by
    unfold Parse.climb
    split
    · cases g.trailing (peek s).kind with
      | none => exact .some (.refl s)
      | some r =>
        refine (ih.binary left _ (advance s)).bind fun e? t ht => ?_
        have hst : Reaches s t := (Reaches.refl s).advance.trans ht
        cases e? with
        | none => exact .some hst
        | some e => exact (ih.climb b e t).reaches hst
    · exact .some (.refl s)
  binary left b s := by
    unfold Parse.binary
    exact ((ih.expression b (advance s)).reaches (.advance (.refl s))).bind fun _ _ ht => .some ht
  leading r s := by
    have hadv : Reaches s (advance s) := .advance (.refl s)
    unfold Parse.leading
    cases r with
    | identifier => exact .some (.refl s)
    | integer =>
      cases Text.signed64? (current s).literal with
      | none => exact .some (.record _ (.refl s))
      | some value => exact .some (.refl s)
    | boolean => exact .some (.refl s)
    | unary => exact ((ih.expression _ _).reaches hadv).bind fun _ _ ht => .some ht
    | grouping =>
      refine ((ih.expression _ _).reaches hadv).bind fun _ t ht => ?_
      exact ht.expecting (.some ht.advance)
    | conditional => exact ih.conditional s
  conditional s := by
    unfold Parse.conditional
    refine (Reaches.refl s).expecting ?_
    refine ((ih.expression _ _).reaches (.advance (.advance (.refl s)))).bind fun _ t₂ h₂ => ?_
    exact (reaches_branches ih.block _ _ t₂).reaches h₂
  statement s := by
    unfold Parse.statement
    exact ih.opening _ s
  opening r s := by
    have hadv : Reaches s (advance s) := .advance (.refl s)
    unfold Parse.opening
    cases r with
    | binding =>
      refine (Reaches.refl s).expecting (hadv.expecting ?_)
      exact ((ih.expression _ _).reaches hadv.advance.advance).bind fun _ _ h₃ =>
        .some h₃.skipSemicolon
    | result => exact ((ih.expression _ _).reaches hadv).bind fun _ _ ht => .some ht.skipSemicolon
    | expression => exact (ih.expression _ s).bind fun _ _ ht => .some ht.skipSemicolon
  statements stop s := by
    unfold Parse.statements
    split
    · exact .some (.refl s)
    · refine (ih.statement s).bind fun _ t ht => ?_
      exact ((ih.statements stop _).reaches ht.advance).bind fun _ _ hu => .some hu
  block s := by
    unfold Parse.block
    exact ((ih.statements _ _).reaches (.advance (.refl s))).bind fun _ _ ht => .some ht

/-- **Every reading only makes moves.** -/
theorem movesOnly (g : Grammar) (n : Nat) : MovesOnly ω g n := by
  induction n with
  | zero => exact .zero g
  | succ n ih => exact .succ ih

end FrontEnd.Window

namespace FrontEnd.Tape

open Window

/-- The errors of a tape stay, and later ones come after them. -/
theorem faults_prefix_of_reaches {s t : Tape} (h : Reaches s t) : s.faults <+: t.faults := by
  induction h with
  | refl => exact List.prefix_rfl
  | advance _ ih => exact ih
  | record e _ ih => exact ih.trans (List.prefix_append ..)

end FrontEnd.Tape
