import FrontEnd.Proofs.Fuel
import FrontEnd.Proofs.MoreFuel
import FrontEnd.Proofs.Steps

/-!
# Every step ends

A grammar is data, and may ask for a reading that never ends: if an expression can begin with the
end token, it goes on for ever past the end of the text. This is the only way. As long as no rule
is entered by which an expression begins with the end token, every step of a script ends, from every
workspace, whatever else the grammar says and wherever the parse stands.

To *end* means that there is an outcome with enough fuel, and that it stays the same with more of
it. The number of tokens that are not read yet tells how much is enough.

## Main results

* `FrontEnd.Workspace.step_lasts` — more fuel keeps the outcome of a step.
* `FrontEnd.Workspace.exists_step_eq` — a step has an outcome with fuel for the tokens to come.
* `FrontEnd.Workspace.exists_run_eq` — and so has a script.
* `FrontEnd.Workspace.step_terminates` — every step, every script and every parse of a text ends.
* `FrontEnd.Workspace.step_eq_none_of_unary_eof` — a step that does not end.
-/

namespace FrontEnd

open Window

namespace Workspace

/-! ### More fuel -/

section MoreFuel

variable {σ : Type} [TokenSource σ]

omit [TokenSource σ] in
theorem answered_lasts {α : Type} (w : Workspace σ) (answer : α → Answer)
    {x y : Option (α × ParseState σ)} (h : Lasts x y) :
    Lasts (w.answered answer x) (w.answered answer y) := by
  cases x with
  | none => exact .none
  | some r =>
    rw [h r rfl]
    exact .refl _

/-- More fuel keeps the outcome of a step. -/
theorem step_lasts (w : Workspace σ) (st : Step) (n : Nat) :
    Lasts (w.step n st) (w.step (n + 1) st) := by
  have hmore := moreFuel (ω := ParseState σ) w.grammar n
  cases st with
  | program =>
    exact w.answered_lasts _ ((hmore.statements _ w.state).bind fun _ => .refl _)
  | block => exact w.answered_lasts _ (hmore.block _)
  | expression b => exact w.answered_lasts _ (hmore.expression b _)
  | binary left b => exact w.answered_lasts _ (hmore.binary left b _)
  | leading r => exact w.answered_lasts _ (hmore.leading r _)
  | statement => exact w.answered_lasts _ (hmore.statement _)
  | opening r => exact w.answered_lasts _ (hmore.opening r _)
  | _ => exact .refl _

end MoreFuel

/-! ### Enough fuel -/

/-- A reading on a text that is alike to one from a tape has an outcome if that one ends. -/
theorem exists_answered_eq {α : Type} (w : Workspace Scanner) (answer : α → Answer)
    {x : Option (α × ParseState Scanner)} {y : Option (α × Tape)} {k : Nat}
    (halike : Alike Tape.Shows x y) (hy : Tape.Within k y) :
    ∃ r, w.answered answer x = some r := by
  obtain ⟨value, t, rfl, -⟩ := hy
  cases halike with
  | some => exact ⟨_, rfl⟩

variable {w : Workspace Scanner} {ts : List Token} {n : Nat}

/-- A step has an outcome if there is fuel for the tokens to come. -/
theorem exists_step_eq (hw : w.grammar.leading .eof = none) (hs : w.state.Sees ts)
    (hn : 8 * ts.length + 8 ≤ n) (st : Step) : ∃ r, w.step n st = some r := by
  have hends := Tape.ends hw n
  have halike := Tape.shows_isSimulation.readsAlike w.grammar n
  let t : Tape := ⟨ts, w.state.errors.toList.map fun e => ([], e)⟩
  have ht : t.ahead.length = ts.length := rfl
  cases st with
  | program =>
    refine exists_answered_eq w _ (k := ts.length)
      (Tape.shows_isSimulation.program w.grammar n hs.shows) ?_
    have hstatements := hends.statements [.eof] t (by simp) (by omega)
    exact hstatements.bind fun _ _ h => .some _ h
  | block => exact exists_answered_eq w _ (halike.block hs.shows) (hends.block t hn)
  | expression b =>
    exact exists_answered_eq w _ (halike.expression b hs.shows) (hends.expression b t (by omega))
  | binary left b =>
    exact exists_answered_eq w _ (halike.binary left b hs.shows) (hends.binary left b t (by omega))
  | leading r =>
    exact exists_answered_eq w _ (halike.leading r hs.shows) (hends.leading r t (by omega))
  | statement =>
    exact exists_answered_eq w _ (halike.statement hs.shows) (hends.statement t (by omega))
  | opening r =>
    exact exists_answered_eq w _ (halike.opening r hs.shows) (hends.opening r t (by omega))
  | _ => exact ⟨_, rfl⟩

/-- Only a rule for the end token itself lets an expression begin with it. -/
theorem leading_eof_entered {g : Grammar} (hg : g.leading .eof = none) {st : Step}
    (hst : ∀ r, st ≠ .addLeading .eof r) : (st.entered g).leading .eof = none := by
  cases st with
  | addLeading k r =>
    have hk : .eof ≠ k := by
      rintro rfl
      exact hst r rfl
    exact (Table.enter_of_ne _ r hk).trans hg
  | addStandard => simpa [Step.entered, Grammar.withStandard, Grammar.addLeading,
      Grammar.addTrailing, Grammar.addStatement, Table.enter] using hg
  | _ => exact hg

/-- A script has an outcome if there is fuel for the tokens to come, and no rule is entered for the
end token. -/
theorem exists_run_eq (hw : w.grammar.leading .eof = none) (hs : w.state.Sees ts)
    (hn : 8 * ts.length + 8 ≤ n) {steps : List Step}
    (hsteps : ∀ r, .addLeading .eof r ∉ steps) : ∃ snapshots, w.run n steps = some snapshots := by
  induction steps generalizing w ts with
  | nil => exact ⟨[], rfl⟩
  | cons st steps ih =>
    obtain ⟨⟨a, w'⟩, hstep⟩ := exists_step_eq hw hs hn st
    obtain ⟨hgrammar, hreaches⟩ := step_spec hstep
    obtain ⟨k, hs'⟩ := hs.of_reaches hreaches
    have hw' : w'.grammar.leading .eof = none := by
      rw [hgrammar]
      exact leading_eof_entered hw fun r hr => hsteps r (by simp [hr])
    have hlen : (ts.drop k).length ≤ ts.length := by simp
    obtain ⟨snapshots, hrun⟩ := ih hw' hs' (by omega) fun r hr => hsteps r (by simp [hr])
    exact ⟨w'.snapshot a w.state.errors.size :: snapshots, by simp [run, hstep, hrun]⟩

/-- The fuel of a parse lasts for every text. -/
theorem parseSource?_eq (source : String) :
    parseSource? (Parse.fuelFor (tokenize source).length) (Scanner.ofString source) =
      some (parse source) := by
  let w : Workspace Scanner := ofSource (Scanner.ofString source)
  have hfuel : 8 * (Scanner.ofString source).tokens.length + 8 ≤
      Parse.fuelFor (tokenize source).length := by
    simp only [Parse.fuelFor, tokenize, List.length_append, List.length_singleton]
    omega
  obtain ⟨⟨a, w'⟩, hstep⟩ := exists_step_eq (w := w) rfl (ParseState.sees_ofSource _) hfuel .program
  obtain ⟨p, s, hprogram, -, -⟩ := answered_eq_some hstep
  have hsource : parseSource? (Parse.fuelFor (tokenize source).length) (Scanner.ofString source) =
      some ⟨p, s.errors.toList⟩ := congrArg (· >>= _) hprogram
  rw [parse, hsource]
  rfl

/-- **Every step ends.** If no expression begins with the end token, then every step has an outcome
from every workspace: with enough fuel there is one, and more fuel does not change it. So a script
that enters no rule by which an expression begins with the end token is performed to its end on
every text, and every text is parsed. -/
theorem step_terminates :
    (∀ w : Workspace Scanner, w.grammar.leading .eof = none → ∀ st : Step,
      ∃ n r, ∀ m, n ≤ m → w.step m st = some r) ∧
    (∀ source skip steps, (∀ r, .addLeading .eof r ∉ steps) →
      ∃ snapshots, performOn source skip steps = some snapshots) ∧
    ∀ source, parseSource? (Parse.fuelFor (tokenize source).length) (Scanner.ofString source) =
      some (parse source) := by
  have hstandard : Grammar.standard.leading .eof = none := rfl
  refine ⟨fun w hw st => ?_, fun source skip steps hsteps => ?_, parseSource?_eq⟩
  · obtain ⟨r, hr⟩ := exists_step_eq hw w.state.sees_self le_rfl st
    exact ⟨_, r, fun m hm => Lasts.of_le (w.step_lasts st) hm r hr⟩
  · let start := TokenSource.drop skip (Scanner.ofString source)
    have hlen : start.tokens.length + 1 ≤ (tokenize source).length := by
      simp [start, Scanner.tokens_drop, tokenize]
    obtain ⟨snapshots, hrun⟩ := exists_run_eq (w := ofSource start)
      (n := Parse.fuelFor (tokenize source).length) hstandard (ParseState.sees_ofSource start)
      (by simp only [Parse.fuelFor]; omega) hsteps
    exact ⟨_, congrArg (Option.map _) hrun⟩

/-- The end token can be an operator, since it is no operand. -/
theorem step_terminates_endless_operator :
    let g := Grammar.standard.addTrailing .eof .call .binary
    let w : Workspace Scanner := ⟨g, .ofSource (TokenSource.drop 2 (Scanner.ofString "let a = (b"))⟩
    let steps := [Step.addTrailing .eof .call .binary, .block, .leading .conditional]
    g.leading .eof = none ∧ (∃ n r, ∀ m, n ≤ m → w.step m (.expression .lowest) = some r) ∧
      (∀ r, .addLeading .eof r ∉ steps) ∧
      ∃ snapshots, performOn "let a = (b" 2 steps = some snapshots := by
  intro g w steps
  have hsteps : ∀ r, Step.addLeading .eof r ∉ steps := by simp [steps]
  exact ⟨rfl, step_terminates.1 w rfl _, hsteps, step_terminates.2.1 _ _ steps hsteps⟩

/-! ### A step that does not end -/

/-- An operator in front of its operand at the end token is read for ever. -/
theorem expression_eq_none_of_unary_eof {g : Grammar} (hg : g.leading .eof = some .unary) (n : Nat)
    (b : Power) {s : ParseState Scanner} (hs : s.Sees []) : Parse.expression g n b s = none := by
  have hcur : (current s).kind = .eof := congrArg Token.kind hs.current_eq
  induction n using Nat.twoStepInduction generalizing b s with
  | zero => rfl
  | one =>
    rw [Parse.expression, hcur, hg]
    rfl
  | more n ih _ =>
    have hadv : (advance s).Sees [] := hs.advance
    rw [Parse.expression, hcur, hg]
    simp only [Parse.leading, ih .unary hadv (congrArg Token.kind hadv.current_eq)]
    rfl

/-- So the condition on the grammar cannot be left out: there is a step that has no outcome with any
fuel. -/
theorem step_eq_none_of_unary_eof {w : Workspace Scanner}
    (hw : w.grammar.leading .eof = some .unary) (hs : w.state.Sees []) (b : Power) (n : Nat) :
    w.step n (.expression b) = none := by
  rw [step, expression_eq_none_of_unary_eof hw n b hs]
  rfl

end Workspace

end FrontEnd
