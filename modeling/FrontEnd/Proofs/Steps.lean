import FrontEnd.Parse.Script
import FrontEnd.Proofs.Moves

/-!
# What a step does to a workspace

A step of a script does two things to a workspace: it may enter rules into the grammar, and it may
move the parse on and record errors. It does nothing else. So the parse always stands somewhere in
the tokens of its text, and what it has passed or recorded stays so.

## Main definitions

* `FrontEnd.ParseState.Sees` — the tokens from the current one on.
* `FrontEnd.Workspace.Step.entered` — the grammar after a step.

## Main results

* `FrontEnd.ParseState.Sees.of_reaches` — moves take tokens off the front.
* `FrontEnd.ParseState.errors_prefix_of_reaches` — moves keep the errors of a parse.
* `FrontEnd.Workspace.step_spec` — a step enters its rules and makes moves.
-/

namespace FrontEnd

open Window

/-! ### The place of a parse in its text -/

namespace ParseState

/-- The tokens from the current one on are `ts`, and end tokens after them. -/
structure Sees (s : ParseState Scanner) (ts : List Token) : Prop where
  /-- The current token is the first one. -/
  current_eq : s.current = front ts
  /-- The next token is the second one. -/
  peek_eq : s.peek = front ts.tail
  /-- The text has the others. -/
  tokens_eq : s.source.tokens = ts.tail.tail

/-- Whatever its two tokens are, a parse sees them and those of its text. -/
theorem sees_self (s : ParseState Scanner) : s.Sees (s.current :: s.peek :: s.source.tokens) :=
  ⟨rfl, rfl, rfl⟩

/-- At the beginning of a text its tokens are seen. -/
theorem sees_ofSource (source : Scanner) : (ofSource source).Sees source.tokens :=
  have h := Tape.shows_ofScanner source
  ⟨h.current_eq, h.peek_eq, h.tokens_eq⟩

namespace Sees

variable {s s' : ParseState Scanner} {ts : List Token}

/-- The tape of the tokens shows the same as the parse. -/
theorem shows (h : s.Sees ts) : Tape.Shows s ⟨ts, s.errors.toList.map fun e => ([], e)⟩ :=
  ⟨h.current_eq, h.peek_eq, h.tokens_eq, by simp [Function.comp_def]⟩

theorem advance (h : s.Sees ts) : (Window.advance s).Sees ts.tail :=
  have h' := Tape.shows_isSimulation.advance h.shows
  ⟨h'.current_eq, h'.peek_eq, h'.tokens_eq⟩

theorem record (h : s.Sees ts) (e : ParseError) : (Window.record s e).Sees ts :=
  ⟨h.current_eq, h.peek_eq, h.tokens_eq⟩

/-- Moves take tokens off the front. -/
theorem of_reaches (h : s.Sees ts) (hr : Reaches s s') : ∃ k, s'.Sees (ts.drop k) := by
  induction hr with
  | refl => exact ⟨0, h⟩
  | advance _ ih =>
    obtain ⟨k, hk⟩ := ih
    exact ⟨k + 1, by simpa using hk.advance⟩
  | record e _ ih =>
    obtain ⟨k, hk⟩ := ih
    exact ⟨k, hk.record e⟩

end Sees

/-- The errors of a parse stay, and later ones come after them. -/
theorem errors_prefix_of_reaches {σ : Type} [TokenSource σ] {s s' : ParseState σ}
    (h : Reaches s s') : s.errors.toList <+: s'.errors.toList := by
  induction h with
  | refl => exact List.prefix_rfl
  | advance _ ih => exact ih
  | @record t e _ ih =>
    refine ih.trans ⟨[e], ?_⟩
    exact Array.toList_push.symm

end ParseState

/-- Dropping tokens from a text drops them from the list of its tokens. -/
theorem Scanner.tokens_drop (n : Nat) (s : Scanner) :
    (TokenSource.drop n s).tokens = s.tokens.drop n := by
  induction n generalizing s with
  | zero => rfl
  | succ n ih =>
    calc (TokenSource.drop n s.next.2).tokens = s.next.2.tokens.drop n := ih _
      _ = s.tokens.tail.drop n := by rw [s.tokens_next]
      _ = s.tokens.drop (n + 1) := by rw [List.drop_tail]

/-! ### Steps -/

namespace Workspace

/-- The grammar after a step, where `g` was the grammar before it. -/
def Step.entered (g : Grammar) : Step → Grammar
  | .addLeading k r => g.addLeading k r
  | .addTrailing k b r => g.addTrailing k b r
  | .addStatement k r => g.addStatement k r
  | .addStandard => g.withStandard
  | _ => g

variable {σ : Type} {w w' : Workspace σ} {a : Answer} {st : Step} {n : Nat}

theorem answered_eq_some {α : Type} {answer : α → Answer} {run : Option (α × ParseState σ)}
    (h : w.answered answer run = some (a, w')) :
    ∃ value s, run = some (value, s) ∧ a = answer value ∧ w' = { w with state := s } := by
  obtain ⟨⟨value, s⟩, hrun, heq⟩ := Option.map_eq_some_iff.mp h
  obtain ⟨rfl, rfl⟩ := Prod.mk.inj heq
  exact ⟨value, s, hrun, rfl, rfl⟩

variable [TokenSource σ]

/-- What is read makes moves, and the grammar stays. -/
theorem answered_spec {α : Type} {answer : α → Answer} {run : Option (α × ParseState σ)}
    (hrun : Ensures (fun _ => Reaches w.state) run) (h : w.answered answer run = some (a, w')) :
    w'.grammar = w.grammar ∧ Reaches w.state w'.state := by
  obtain ⟨value, s, heq, -, rfl⟩ := answered_eq_some h
  exact ⟨rfl, hrun value s heq⟩

theorem reaches_program (g : Grammar) (n : Nat) (s : ParseState σ) :
    Ensures (fun _ => Reaches s) (Parse.program g n s) :=
  ((movesOnly g n).statements _ s).bind fun _ _ h => .some h

theorem reaches_expectPeek (s : ParseState σ) (k : Kind) : Reaches s (expectPeek s k).2 := by
  cases hk : (peek s).is k with
  | true =>
    rw [expectPeek_of_is hk]
    exact .advance (.refl s)
  | false =>
    rw [expectPeek_of_not_is hk]
    exact .record _ (.refl s)

theorem step_expectPeek (w : Workspace σ) (n : Nat) (k : Kind) :
    w.step n (.expectPeek k) =
      some (.flag (expectPeek w.state k).1, { w with state := (expectPeek w.state k).2 }) := rfl

/-- **A step enters its rules into the grammar and makes moves.** -/
theorem step_spec (h : w.step n st = some (a, w')) :
    w'.grammar = st.entered w.grammar ∧ Reaches w.state w'.state := by
  have hmoves := movesOnly (ω := ParseState σ) w.grammar n
  cases st with
  | advance =>
    obtain ⟨-, rfl⟩ := Prod.mk.inj (Option.some.inj h)
    exact ⟨rfl, .advance (.refl _)⟩
  | expectPeek k =>
    rw [step_expectPeek] at h
    obtain ⟨-, rfl⟩ := Prod.mk.inj (Option.some.inj h)
    exact ⟨rfl, reaches_expectPeek w.state k⟩
  | record e =>
    obtain ⟨-, rfl⟩ := Prod.mk.inj (Option.some.inj h)
    exact ⟨rfl, .record e (.refl _)⟩
  | currentIs | peekIs | peekPower | errors | ruledKinds | addLeading | addTrailing | addStatement
  | addStandard =>
    obtain ⟨-, rfl⟩ := Prod.mk.inj (Option.some.inj h)
    exact ⟨rfl, .refl _⟩
  | program => exact answered_spec (reaches_program _ n _) h
  | block => exact answered_spec (hmoves.block _) h
  | expression b => exact answered_spec (hmoves.expression b _) h
  | binary left b => exact answered_spec (hmoves.binary left b _) h
  | leading r => exact answered_spec (hmoves.leading r _) h
  | statement => exact answered_spec (hmoves.statement _) h
  | opening r => exact answered_spec (hmoves.opening r _) h

end Workspace

end FrontEnd
