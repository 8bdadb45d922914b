import FrontEnd.Parse.Program

/-!
# More fuel keeps the outcome

Fuel only bounds the depth of the calls of a reading. So a reading that ends with some fuel ends in
the same way with more of it, and whatever the fuel, a reading that ends has only one outcome.

## Main definitions

* `FrontEnd.Window.Lasts` — an outcome that is kept.
* `FrontEnd.Window.MoreFuel` — every reading with some fuel has its outcome kept by one unit more.

## Main results

* `FrontEnd.Window.moreFuel` — every reading has its outcome kept.
* `FrontEnd.Parse.statements_unique` — statements have one outcome, whatever the fuel.
-/

namespace FrontEnd

namespace Window

variable {α β : Type}

/-- If the first reading ends, the second one ends with the same outcome. -/
def Lasts (x y : Option α) : Prop :=
  ∀ a, x = some a → y = some a

theorem Lasts.none {y : Option α} : Lasts none y := by
  intro a h
  exact absurd h (by simp)

theorem Lasts.refl (x : Option α) : Lasts x x :=
  fun _ h => h

/-- An outcome that is kept by one more unit of fuel is kept by any number of them. -/
theorem Lasts.of_le {f : Nat → Option α} (hf : ∀ n, Lasts (f n) (f (n + 1))) {m n : Nat}
    (hmn : m ≤ n) : Lasts (f m) (f n) := by
  induction hmn with
  | refl => exact .refl _
  | step _ ih => exact fun a h => hf _ a (ih a h)

/-- Readings that go on from kept outcomes with kept outcomes. -/
theorem Lasts.bind {x y : Option α} {f f' : α → Option β} (hx : Lasts x y)
    (hf : ∀ a, Lasts (f a) (f' a)) : Lasts (x >>= f) (y >>= f') := by
  cases x with
  | none => exact .none
  | some a =>
    rw [hx a rfl]
    exact hf a

variable {ω : Type} [Window ω]

theorem Lasts.expecting (s : ω) (k : Kind) {f f' : ω → Option (Option α × ω)}
    (hf : ∀ s, Lasts (f s) (f' s)) : Lasts (expecting s k f) (expecting s k f') := by
  unfold Window.expecting
  split
  · exact hf _
  · exact .refl _

/-- If blocks have their outcomes kept, so has the rest of a conditional after its condition. -/
theorem Lasts.branches {block block' : ω → Option (Block × ω)}
    (hblock : ∀ s, Lasts (block s) (block' s)) (i : Token) (condition? : Option Expr) (s : ω) :
    Lasts (Parse.branches block i condition? s) (Parse.branches block' i condition? s) := by
  unfold Parse.branches
  refine .expecting _ _ fun s₁ => .expecting _ _ fun s₂ => (hblock s₂).bind fun (first, s₃) => ?_
  dsimp only
  split
  · exact .expecting _ _ fun s₄ => (hblock s₄).bind fun _ => .refl _
  · exact .refl _

variable (ω) in
/-- Every reading by `g` with the fuel `n` has its outcome kept by one more unit of fuel. -/
structure MoreFuel (g : Grammar) (n : Nat) : Prop where
  expression : ∀ b (s : ω), Lasts (Parse.expression g n b s) (Parse.expression g (n + 1) b s)
  climb : ∀ b left (s : ω), Lasts (Parse.climb g n b left s) (Parse.climb g (n + 1) b left s)
  binary : ∀ left b (s : ω), Lasts (Parse.binary g n left b s) (Parse.binary g (n + 1) left b s)
  leading : ∀ r (s : ω), Lasts (Parse.leading g n r s) (Parse.leading g (n + 1) r s)
  conditional : ∀ s : ω, Lasts (Parse.conditional g n s) (Parse.conditional g (n + 1) s)
  statement : ∀ s : ω, Lasts (Parse.statement g n s) (Parse.statement g (n + 1) s)
  opening : ∀ r (s : ω), Lasts (Parse.opening g n r s) (Parse.opening g (n + 1) r s)
  statements : ∀ stop (s : ω),
    Lasts (Parse.statements g n stop s) (Parse.statements g (n + 1) stop s)
  block : ∀ s : ω, Lasts (Parse.block g n s) (Parse.block g (n + 1) s)

theorem MoreFuel.zero (g : Grammar) : MoreFuel ω g 0 := by
  constructor <;> intros <;> exact .none

/-- One more unit of fuel on both sides. -/
theorem MoreFuel.succ {g : Grammar} {n : Nat} (ih : MoreFuel ω g n) : MoreFuel ω g (n + 1) where
  expression b s := by
    rw [Parse.expression, Parse.expression]
    cases g.leading (current s).kind with
    | none => exact .refl _
    | some r =>
      refine (ih.leading r s).bind fun (left?, s₁) => ?_
      cases left? with
      | none => exact .refl _
      | some left => exact ih.climb b left s₁
  climb b left s := by
    rw [Parse.climb, Parse.climb]
    split
    · cases g.trailing (peek s).kind with
      | none => exact .refl _
      | some r =>
        refine (ih.binary left _ _).bind fun (e?, s₁) => ?_
        cases e? with
        | none => exact .refl _
        | some e => exact ih.climb b e s₁
    · exact .refl _
  binary left b s := by
    rw [Parse.binary, Parse.binary]
    exact (ih.expression b _).bind fun _ => .refl _
  leading r s := by
    unfold Parse.leading
    cases r with
    | identifier => exact .refl _
    | integer => exact .refl _
    | boolean => exact .refl _
    | unary => exact (ih.expression _ _).bind fun _ => .refl _
    | grouping => exact (ih.expression _ _).bind fun _ => .refl _
    | conditional => exact ih.conditional s
  conditional s := by
    rw [Parse.conditional, Parse.conditional]
    refine .expecting _ _ fun s₁ => (ih.expression _ _).bind fun (condition?, s₂) => ?_
    exact .branches ih.block _ condition? s₂
  statement s := by
    rw [Parse.statement, Parse.statement]
    exact ih.opening _ s
  opening r s := by
    unfold Parse.opening
    cases r with
    | binding =>
      exact .expecting _ _ fun s₁ => .expecting _ _ fun s₂ =>
        (ih.expression _ _).bind fun _ => .refl _
    | result => exact (ih.expression _ _).bind fun _ => .refl _
    | expression => exact (ih.expression _ _).bind fun _ => .refl _
  statements stop s := by
    rw [Parse.statements, Parse.statements]
    split
    · exact .refl _
    · refine (ih.statement s).bind fun (first?, s₁) => ?_
      exact (ih.statements stop _).bind fun _ => .refl _
  block s := by
    rw [Parse.block, Parse.block]
    exact (ih.statements _ _).bind fun _ => .refl _

/-- **More fuel keeps the outcome of every reading.** -/
theorem moreFuel (g : Grammar) (n : Nat) : MoreFuel ω g n := by
  induction n with
  | zero => exact .zero g
  | succ n ih => exact .succ ih

end Window

namespace Parse

open Window

variable {ω : Type} [Window ω] {g : Grammar} {stop : List Kind} {s : ω} {m n : Nat}
  {r r' : List Stmt × ω}

theorem statements_of_le (hmn : m ≤ n) (h : statements g m stop s = some r) :
    statements g n stop s = some r :=
  Lasts.of_le (fun n => (moreFuel g n).statements stop s) hmn r h

/-- Statements have one outcome, whatever the fuel. -/
theorem statements_unique (h : statements g m stop s = some r)
    (h' : statements g n stop s = some r') : r = r' := by
  rcases Nat.le_total m n with hmn | hnm
  · exact Option.some.inj ((statements_of_le hmn h).symm.trans h')
  · exact Option.some.inj (h.symm.trans (statements_of_le hnm h'))

end Parse

end FrontEnd
