import FrontEnd.Proofs.Outcome
import FrontEnd.Proofs.Runs
import FrontEnd.Proofs.Segments

/-!
# Texts with the same tokens

A parse pulls its tokens from a text one by one, from places in the text that differ from one text
to another. But all that it ever learns of the text are the tokens. So two texts with the same
tokens cannot be told apart by a parse: whatever is done step by step with the one has the same
answers, tokens and errors as when it is done with the other, and ends if the other does. What
stands between the tokens of a text does not matter.

The relation between the two parses does not speak of places. It says that their texts have the same
tokens from there on.

## Main definitions

* `FrontEnd.ParseState.Agrees`, `FrontEnd.Workspace.Agrees` — parses that cannot be told apart.
* `FrontEnd.Workspace.Transition.Matches` — steps with the same answer and the same tokens and
  errors after them.

## Main results

* `FrontEnd.ParseState.agrees_isSimulation` — parses that agree stay so.
* `FrontEnd.Workspace.Agrees.step`, `FrontEnd.Workspace.IsRun.exists_matching` — steps and runs of
  workspaces that agree.
* `FrontEnd.Workspace.same_of_tokenize_eq` — texts with the same tokens are not told apart.
-/

namespace FrontEnd

open Window

/-! ### Parses that agree -/

namespace ParseState

/-- Two parses show the same tokens, have the same tokens to come, and have met the same errors. -/
structure Agrees (s s' : ParseState Scanner) : Prop where
  /-- The current tokens are the same. -/
  current_eq : s.current = s'.current
  /-- The next tokens are the same. -/
  peek_eq : s.peek = s'.peek
  /-- The texts have the same tokens after these two. -/
  tokens_eq : s.source.tokens = s'.source.tokens
  /-- The errors are the same. -/
  errors_eq : s.errors = s'.errors

/-- Parses that agree show the same tokens and agree after every move. -/
theorem agrees_isSimulation : IsSimulation Agrees where
  current_eq _ _ h := h.current_eq
  peek_eq _ _ h := h.peek_eq
  advance s s' h := by
    refine ⟨h.peek_eq, ?_, ?_, h.errors_eq⟩
    · calc s.source.next.1 = front s.source.tokens := s.source.next_fst
        _ = front s'.source.tokens := by rw [h.tokens_eq]
        _ = s'.source.next.1 := s'.source.next_fst.symm
    · calc s.source.next.2.tokens = s.source.tokens.tail := s.source.tokens_next
        _ = s'.source.tokens.tail := by rw [h.tokens_eq]
        _ = s'.source.next.2.tokens := s'.source.tokens_next.symm
  record s s' e h := ⟨h.current_eq, h.peek_eq, h.tokens_eq, congrArg (Array.push · e) h.errors_eq⟩

/-- Parses of texts with the same tokens agree from the beginning. -/
theorem agrees_ofSource {source source' : Scanner} (h : source.tokens = source'.tokens) :
    (ofSource source).Agrees (ofSource source') := by
  have hs := sees_ofSource source
  have hs' := sees_ofSource source'
  rw [← h] at hs'
  exact ⟨hs.current_eq.trans hs'.current_eq.symm, hs.peek_eq.trans hs'.peek_eq.symm,
    hs.tokens_eq.trans hs'.tokens_eq.symm, rfl⟩

end ParseState

/-! ### Steps of workspaces that agree -/

namespace Workspace

/-- Two workspaces have the same grammar, and their parses agree. -/
structure Agrees (w w' : Workspace Scanner) : Prop where
  /-- The rules are the same. -/
  grammar_eq : w.grammar = w'.grammar
  /-- The parses agree. -/
  state : w.state.Agrees w'.state

namespace Agrees

variable {w w' : Workspace Scanner}

theorem answered (h : w.Agrees w') {α : Type} (answer : α → Answer)
    {x x' : Option (α × ParseState Scanner)} (hx : Alike ParseState.Agrees x x') :
    Alike Agrees (w.answered answer x) (w'.answered answer x') := by
  cases hx with
  | none => exact .none
  | some a hs => exact .some _ ⟨h.grammar_eq, hs⟩

/-- A token that is wanted next is found by both parses or by none. -/
theorem expectPeek (h : w.Agrees w') (n : Nat) (k : Kind) :
    Alike Agrees (w.step n (.expectPeek k)) (w'.step n (.expectPeek k)) := by
  have hpeek : peek w.state = peek w'.state := h.state.peek_eq
  rw [step_expectPeek, step_expectPeek]
  cases hk : (peek w.state).is k with
  | true =>
    rw [expectPeek_of_is hk, expectPeek_of_is (hpeek ▸ hk)]
    exact .some _ ⟨h.grammar_eq, ParseState.agrees_isSimulation.advance h.state⟩
  | false =>
    rw [expectPeek_of_not_is hk, expectPeek_of_not_is (hpeek ▸ hk), hpeek]
    exact .some _ ⟨h.grammar_eq, ParseState.agrees_isSimulation.record _ h.state⟩

/-- Every step of workspaces that agree has the same answer, and they agree after it. -/
theorem step (h : w.Agrees w') (n : Nat) (st : Step) :
    Alike Agrees (w.step n st) (w'.step n st) := by
  have hsim := ParseState.agrees_isSimulation
  have hreads := hsim.readsAlike w'.grammar n
  cases st with
  | expectPeek k => exact h.expectPeek n k
  | advance => exact .some _ ⟨h.grammar_eq, hsim.advance h.state⟩
  | record e => exact .some _ ⟨h.grammar_eq, hsim.record e h.state⟩
  | currentIs | peekIs | peekPower | errors | ruledKinds =>
    simp only [Workspace.step, h.grammar_eq, h.state.current_eq, h.state.peek_eq,
      h.state.errors_eq]
    exact .some _ h
  | addLeading | addTrailing | addStatement | addStandard =>
    simp only [Workspace.step, h.grammar_eq]
    exact .some _ ⟨rfl, h.state⟩
  | program =>
    simp only [Workspace.step, h.grammar_eq]
    exact h.answered _ (hsim.program w'.grammar n h.state)
  | block =>
    simp only [Workspace.step, h.grammar_eq]
    exact h.answered _ (hreads.block h.state)
  | expression b =>
    simp only [Workspace.step, h.grammar_eq]
    exact h.answered _ (hreads.expression b h.state)
  | binary left b =>
    simp only [Workspace.step, h.grammar_eq]
    exact h.answered _ (hreads.binary left b h.state)
  | leading r =>
    simp only [Workspace.step, h.grammar_eq]
    exact h.answered _ (hreads.leading r h.state)
  | statement =>
    simp only [Workspace.step, h.grammar_eq]
    exact h.answered _ (hreads.statement h.state)
  | opening r =>
    simp only [Workspace.step, h.grammar_eq]
    exact h.answered _ (hreads.opening r h.state)

/-- The same is to be seen of workspaces that agree. -/
theorem snapshot_eq (h : w.Agrees w') (a : Answer) (old : Nat) :
    w.snapshot a old = w'.snapshot a old := by
  simp only [snapshot, h.state.current_eq, h.state.peek_eq, h.state.errors_eq]

/-- Scripts on workspaces that agree give the same snapshots, or both lack fuel. -/
theorem run_eq (h : w.Agrees w') (n : Nat) (steps : List Step) :
    w.run n steps = w'.run n steps := by
  induction steps generalizing w w' with
  | nil => rfl
  | cons st steps ih =>
    have hstep := h.step n st
    simp only [run]
    generalize w.step n st = x at hstep ⊢
    generalize w'.step n st = x' at hstep ⊢
    cases hstep with
    | none => rfl
    | some a hv =>
      simp only [Option.bind_eq_bind, Option.bind_some, ih hv, hv.snapshot_eq, h.state.errors_eq]

end Agrees

/-! ### Runs of workspaces that agree -/

/-- Two steps that were taken are the same step, with the same answer, and after them the parses
show the same tokens and have met the same errors. -/
structure Transition.Matches (r r' : Transition Scanner) : Prop where
  /-- The steps are the same. -/
  step_eq : r.step = r'.step
  /-- The answers are the same. -/
  answer_eq : r.answer = r'.answer
  /-- The grammars are the same after the steps. -/
  grammar_eq : r.after.grammar = r'.after.grammar
  /-- The current tokens are the same. -/
  current_eq : r.after.state.current = r'.after.state.current
  /-- The next tokens are the same. -/
  peek_eq : r.after.state.peek = r'.after.state.peek
  /-- The errors are the same. -/
  errors_eq : r.after.state.errors = r'.after.state.errors

/-- A run from a workspace can be made from any other one that agrees with it. -/
theorem IsRun.exists_matching {w w' : Workspace Scanner} {rs : List (Transition Scanner)}
    (h : IsRun w rs) (hw : w.Agrees w') :
    ∃ rs', IsRun w' rs' ∧ List.Forall₂ Transition.Matches rs rs' := by
  induction h generalizing w' with
  | nil => exact ⟨[], .nil, .nil⟩
  | @cons w v n st a rs hstep _ ih =>
    have halike := hw.step n st
    rw [hstep] at halike
    generalize hstep' : w'.step n st = x' at halike
    cases halike with
    | @some _ _ v' hv =>
      obtain ⟨rs', hrs', hmatch⟩ := ih hv
      refine ⟨⟨w', st, a, v'⟩ :: rs', .cons hstep' hrs', .cons ?_ hmatch⟩
      exact ⟨rfl, rfl, hv.grammar_eq, hv.state.current_eq, hv.state.peek_eq, hv.state.errors_eq⟩

/-- Workspaces on texts with the same tokens agree, also if some tokens are left out. -/
theorem agrees_of_tokenize_eq {a b : String} (h : tokenize a = tokenize b) (skip : Nat) :
    (ofSource (TokenSource.drop skip (Scanner.ofString a))).Agrees
      (ofSource (TokenSource.drop skip (Scanner.ofString b))) := by
  refine ⟨rfl, ParseState.agrees_ofSource ?_⟩
  rw [Scanner.tokens_drop, Scanner.tokens_drop, ← dropLast_tokenize, ← dropLast_tokenize, h]

/-- A text is performed on only through its tokens. -/
theorem perform_eq_of_tokenize_eq {a b : String} (h : tokenize a = tokenize b) (n skip : Nat)
    (steps : List Step) :
    perform n (Scanner.ofString a) skip steps = perform n (Scanner.ofString b) skip steps := by
  have hagrees := agrees_of_tokenize_eq h skip
  simp only [perform, hagrees.run_eq n steps, hagrees.snapshot_eq]

end Workspace

/-- Texts with the same tokens have the same parse. -/
theorem parse_eq_of_tokenize_eq {a b : String} (h : tokenize a = tokenize b) :
    parse a = parse b := by
  obtain ⟨p, t, hread, hparse⟩ := exists_program_eq a
  obtain ⟨p', t', hread', hparse'⟩ := exists_program_eq b
  rw [← dropLast_tokenize, h, dropLast_tokenize] at hread
  obtain ⟨rfl, rfl⟩ := Prod.mk.inj (Option.some.inj (hread.symm.trans hread'))
  exact hparse.trans hparse'.symm

/-- The tokens of a segmentation without glued neighbours are the tokens of its text. -/
theorem Segmentation.IsMaximal.tokenize_ofList {d : Segmentation} (h : d.IsMaximal) :
    tokenize (String.ofList d.chars) = d.tokens ++ [Token.eof] := by
  rw [tokenize_eq, String.toList_ofList, h.lex_chars]

namespace Workspace

/-- **A parse learns only the tokens of its text.** If two texts have the same tokens, then the
parses agree at the beginning, whatever number of tokens is left out; every run on the first text
can be made on the second one, with the same steps and answers and with the same tokens and errors
after each step; scripts give the same snapshots with the same fuel, or both lack it; and the texts
have the same parse. In particular, a text keeps its parse if only the blanks around its tokens are
changed, as long as no two tokens come to glue. -/
theorem same_of_tokenize_eq :
    (∀ a b : String, tokenize a = tokenize b →
      (∀ skip, let w := ofSource (TokenSource.drop skip (Scanner.ofString a))
        let w' := ofSource (TokenSource.drop skip (Scanner.ofString b))
        w.Agrees w' ∧ ∀ rs, IsRun w rs →
          ∃ rs', IsRun w' rs' ∧ List.Forall₂ Transition.Matches rs rs') ∧
      (∀ n skip steps,
        perform n (Scanner.ofString a) skip steps = perform n (Scanner.ofString b) skip steps) ∧
      parse a = parse b) ∧
    ∀ d d' : Segmentation, d.IsMaximal → d'.IsMaximal → d.tokens = d'.tokens →
      parse (String.ofList d.chars) = parse (String.ofList d'.chars) := by
  refine ⟨fun a b h => ⟨fun skip => ?_, ?_, parse_eq_of_tokenize_eq h⟩, fun d d' hd hd' h => ?_⟩
  · have hagrees := agrees_of_tokenize_eq h skip
    exact ⟨hagrees, fun rs hrs => hrs.exists_matching hagrees⟩
  · exact fun n skip steps => perform_eq_of_tokenize_eq h n skip steps
  · refine parse_eq_of_tokenize_eq ?_
    rw [hd.tokenize_ofList, hd'.tokenize_ofList, h]

/-- A text with blanks and one without, read from the second token on after a semicolon was made an
operator; and a sign with and without a blank after it. -/
theorem same_of_tokenize_eq_blanks :
    let a := "let x=(y;z"
    let b := " let x =\n( y ; z\r"
    let steps := [Step.addTrailing .semicolon .sum .binary, .expectPeek .assign, .advance,
      .expression .lowest, .program]
    let d : Segmentation := ⟨[], [(⟨.minus, "-"⟩, []), (⟨.ident, "x"⟩, [])]⟩
    let d' : Segmentation := ⟨['\n'], [(⟨.minus, "-"⟩, [' ']), (⟨.ident, "x"⟩, ['\t'])]⟩
    tokenize a = tokenize b ∧
      (∃ rs rs', IsRun (ofSource (TokenSource.drop 1 (Scanner.ofString a))) rs ∧
        rs.map Transition.step = steps ∧
        IsRun (ofSource (TokenSource.drop 1 (Scanner.ofString b))) rs' ∧
        List.Forall₂ Transition.Matches rs rs') ∧
      (d.IsMaximal ∧ d'.IsMaximal ∧ d.tokens = d'.tokens) ∧
      parse (String.ofList d.chars) = parse (String.ofList d'.chars) := by
  intro a b steps d d'
  have htokens : tokenize a = tokenize b := by decide +kernel
  obtain ⟨snapshots, hrun⟩ : ∃ snapshots,
      (ofSource (TokenSource.drop 1 (Scanner.ofString a))).run 100 steps = some snapshots :=
    Option.isSome_iff_exists.mp (by decide +kernel)
  obtain ⟨rs, hrs, hsteps, -⟩ := exists_isRun hrun
  obtain ⟨rs', hrs', hmatch⟩ := ((same_of_tokenize_eq.1 a b htokens).1 1).2 rs hrs
  have hname : Token.WellFormed ⟨.ident, "x"⟩ :=
    .name (by decide) (by simp [isLetter]) fun k => by cases k <;> decide
  have hminus : Token.WellFormed ⟨.minus, "-"⟩ := .fixed rfl
  have hapart : ¬ Token.Glues ⟨.minus, "-"⟩ ⟨.ident, "x"⟩ := by
    simp [Token.Glues, Kind.isWord, Kind.keywords]
  have hd : d.IsMaximal :=
    ⟨by simp [d], by simp [d, hname, hminus], by simp [d], by simp [d, hapart]⟩
  have hd' : d'.IsMaximal :=
    ⟨by simp [d', isBlank], by simp [d', hname, hminus], by simp [d', isBlank], by simp [d']⟩
  exact ⟨htokens, ⟨rs, rs', hrs, hsteps, hrs', hmatch⟩, ⟨hd, hd', rfl⟩,
    same_of_tokenize_eq.2 d d' hd hd' rfl⟩

end Workspace

end FrontEnd
