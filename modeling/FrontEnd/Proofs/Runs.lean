import FrontEnd.Proofs.Steps
import Mathlib.Order.Monotone.Basic

/-!
# Runs of a script

A *run* is a sequence of steps that were taken one after the other, each of which ended. What holds
at the start of a run and is kept by every step holds all along it. In a run on a text the parse
always stands at some place of the text and never goes back, no error is ever taken back, and the
grammar gives a power to exactly the kinds by which an expression goes on.

## Main definitions

* `FrontEnd.Workspace.Transition`, `FrontEnd.Workspace.IsRun` — a step that was taken, and runs.
* `FrontEnd.Grammar.Paired` — the powers of a grammar are those of its rules.
* `FrontEnd.tokenAt` — the tokens of a text by their place.
* `FrontEnd.Workspace.InPlace` — what holds of every workspace in a run.
* `FrontEnd.Workspace.Transition.Lawful` — what holds of every step in a run.

## Main results

* `FrontEnd.Workspace.exists_isRun` — a script that is performed is a run.
* `FrontEnd.Workspace.lawful_of_step` — every step is lawful.
* `FrontEnd.Workspace.IsRun.exists_places` — the places of a run.
* `FrontEnd.Workspace.run_invariant` — the invariant of a run on a text.
-/

namespace FrontEnd

open Window

/-! ### Powers and rules -/

/-- The kinds that have a power are the kinds by which an expression goes on. -/
def Grammar.Paired (g : Grammar) : Prop :=
  ∀ k, (g.powers k).isSome = (g.trailing k).isSome

namespace Grammar.Paired

variable {g : Grammar}

theorem addTrailing (h : g.Paired) (k : Kind) (b : Power) (r : TrailingRule) :
    (g.addTrailing k b r).Paired := by
  intro k'
  by_cases hk : k' = k
  · subst hk
    simp [Grammar.addTrailing]
  · simpa [Grammar.addTrailing, Table.enter_of_ne, hk] using h k'

theorem addLeading (h : g.Paired) (k : Kind) (r : LeadingRule) : (g.addLeading k r).Paired :=
  h

theorem addStatement (h : g.Paired) (k : Kind) (r : StatementRule) : (g.addStatement k r).Paired :=
  h

theorem withStandard (h : g.Paired) : g.withStandard.Paired := by
  unfold Grammar.withStandard
  iterate 2 refine addStatement ?_ _ _
  iterate 8 refine addLeading ?_ _ _
  iterate 8 refine addTrailing ?_ _ _ _
  exact h

theorem standard : Grammar.standard.Paired :=
  withStandard fun _ => rfl

/-- Where the power of a kind lets an expression go on, there is a rule by which it does. -/
theorem trailing_eq (h : g.Paired) {b : Power} {k : Kind} (hlt : b < g.power k) :
    g.trailing k = some .binary := by
  have hpower : (g.powers k).isSome := by
    cases hk : g.powers k with
    | none =>
      -- A kind without a power has the weakest one, and nothing is weaker.
      rw [Grammar.power, hk] at hlt
      exact absurd hlt (Nat.not_lt_zero _)
    | some _ => rfl
  rw [h k] at hpower
  obtain ⟨⟨⟩, hr⟩ := Option.isSome_iff_exists.mp hpower
  exact hr

end Grammar.Paired

/-! ### The tokens of a text by their place -/

/-- The token of a text with the index `i`, an end token past the last one. -/
def tokenAt (source : String) (i : Nat) : Token :=
  (tokenize source).getD i Token.eof

/-- The first token of those that are left after some. -/
theorem front_drop_tokens (source : String) (i : Nat) :
    front ((Scanner.ofString source).tokens.drop i) = tokenAt source i := by
  rw [tokenAt, tokenize, List.getD_eq_getElem?_getD]
  generalize (Scanner.ofString source).tokens = ts
  induction ts generalizing i with
  | nil => cases i <;> simp
  | cons t ts ih =>
    cases i with
    | zero => rfl
    | succ i => simpa using ih i

namespace Workspace

/-! ### Rules that are entered -/

/-- The step enters rules into the grammar. -/
def Step.entersRules : Step → Bool
  | .addLeading _ _ => true
  | .addTrailing _ _ _ => true
  | .addStatement _ _ => true
  | .addStandard => true
  | _ => false

theorem Step.entered_of_not {st : Step} (h : st.entersRules = false) (g : Grammar) :
    st.entered g = g := by
  cases st with
  | addLeading | addTrailing | addStatement | addStandard => cases h
  | _ => rfl

theorem paired_entered {g : Grammar} (h : g.Paired) (st : Step) : (st.entered g).Paired := by
  cases st with
  | addLeading k r => exact h.addLeading k r
  | addTrailing k b r => exact h.addTrailing k b r
  | addStatement k r => exact h.addStatement k r
  | addStandard => exact h.withStandard
  | _ => exact h

/-! ### Runs -/

/-- A step that was taken. -/
structure Transition (σ : Type) where
  /-- The workspace before the step. -/
  before : Workspace σ
  /-- The step. -/
  step : Step
  /-- Its answer. -/
  answer : Answer
  /-- The workspace after the step. -/
  after : Workspace σ

variable {σ : Type} [TokenSource σ]

/-- Steps that were taken one after the other from a workspace on, each with fuel enough to end. -/
inductive IsRun : Workspace σ → List (Transition σ) → Prop
  | nil {w : Workspace σ} : IsRun w []
  | cons {w w' : Workspace σ} {n : Nat} {st : Step} {a : Answer} {rs : List (Transition σ)}
      (hstep : w.step n st = some (a, w')) (hothers : IsRun w' rs) :
      IsRun w (⟨w, st, a, w'⟩ :: rs)

/-- A script that is performed is a run, and what is seen of it is seen of the run. -/
theorem exists_isRun {n : Nat} {steps : List Step} {w : Workspace σ} {snapshots : List Snapshot}
    (h : w.run n steps = some snapshots) :
    ∃ rs, IsRun w rs ∧ rs.map Transition.step = steps ∧
      snapshots = rs.map fun r => r.after.snapshot r.answer r.before.state.errors.size := by
  induction steps generalizing w snapshots with
  | nil => exact ⟨[], .nil, rfl, (Option.some.inj h).symm⟩
  | cons st steps ih =>
    obtain ⟨⟨a, w'⟩, hstep, hrest⟩ := Option.bind_eq_some_iff.mp h
    obtain ⟨snapshots', hrun, hsnapshots⟩ := Option.bind_eq_some_iff.mp hrest
    obtain ⟨rs, hrs, rfl, rfl⟩ := ih hrun
    exact ⟨⟨w, st, a, w'⟩ :: rs, .cons hstep hrs, rfl, (Option.some.inj hsnapshots).symm⟩

/-- What holds of every step in a run. -/
structure Transition.Lawful (r : Transition σ) : Prop where
  /-- The errors stay, and new ones come after them. -/
  errors_prefix : r.before.state.errors.toList <+: r.after.state.errors.toList
  /-- If an expected token does not come next, the one error is recorded that says so, and nothing
  else is changed. -/
  refused : ∀ k, r.step = .expectPeek k → r.answer = .flag false →
    r.after.state.errors.toList =
        r.before.state.errors.toList ++ [.unexpected k r.before.state.peek.kind] ∧
      r.after.state.current = r.before.state.current ∧
      r.after.state.peek = r.before.state.peek ∧
      r.after.state.source = r.before.state.source ∧
      r.after.grammar = r.before.grammar
  /-- Only the steps that enter rules change the grammar. -/
  grammar_eq : r.step.entersRules = false → r.after.grammar = r.before.grammar
  /-- Statements are read up to the end token, so that the next time there are none. -/
  program : r.step = .program → r.after.state.current.kind = .eof ∧
    ∀ n, r.after.step (n + 1) .program = some (.program ⟨[]⟩, r.after)

/-- Statements are read until the current token is of a kind at which they stop. -/
theorem current_statements {ω : Type} [Window ω] (g : Grammar) (n : Nat) (stop : List Kind)
    (s : ω) : Ensures (fun _ s' => (current s').kind ∈ stop) (Parse.statements g n stop s) := by
  induction n generalizing s with
  | zero => exact .none
  | succ n ih =>
    rw [Parse.statements]
    split
    next hstop => exact .some hstop
    next =>
      have hfirst : Ensures (fun _ _ => True) (Parse.statement g n s) := fun _ _ _ => trivial
      exact hfirst.bind fun _ t _ => (ih (advance t)).bind fun _ _ h => .some h

/-- At the end of a text no statement is read. -/
theorem step_program_of_eof {w : Workspace σ} (hw : w.state.current.kind = .eof) (n : Nat) :
    w.step (n + 1) .program = some (.program ⟨[]⟩, w) := by
  have hstop : (current w.state).kind ∈ [Kind.eof] := List.mem_singleton.mpr hw
  rw [step, Parse.program, Parse.statements, if_pos hstop]
  rfl

/-- **Every step is lawful.** -/
theorem lawful_of_step {w w' : Workspace σ} {n : Nat} {st : Step} {a : Answer}
    (h : w.step n st = some (a, w')) : Transition.Lawful ⟨w, st, a, w'⟩ where
  errors_prefix := ParseState.errors_prefix_of_reaches (step_spec h).2
  refused k hst ha := by
    dsimp only at hst ha
    subst hst ha
    rw [step_expectPeek] at h
    obtain ⟨hflag, rfl⟩ := Prod.mk.inj (Option.some.inj h)
    have hk : (peek w.state).is k = false := by
      by_contra hk
      rw [expectPeek_of_is (by simpa using hk)] at hflag
      exact absurd hflag (by simp)
    rw [expectPeek_of_not_is hk]
    exact ⟨Array.toList_push, rfl, rfl, rfl, rfl⟩
  grammar_eq hst := (step_spec h).1.trans (Step.entered_of_not hst _)
  program hst := by
    dsimp only at hst
    subst hst
    obtain ⟨p, s, hprogram, -, rfl⟩ := answered_eq_some h
    obtain ⟨⟨ss, s'⟩, hread, hsome⟩ := Option.bind_eq_some_iff.mp hprogram
    obtain ⟨-, rfl⟩ := Prod.mk.inj (Option.some.inj hsome)
    have heof : s'.current.kind = .eof :=
      List.mem_singleton.mp (current_statements w.grammar n [.eof] w.state ss s' hread)
    exact ⟨heof, step_program_of_eof heof⟩

/-! ### The places of a run -/

/-- A run on a text goes from place to place and never back. -/
theorem IsRun.exists_places {ts : List Token} {w : Workspace Scanner}
    {rs : List (Transition Scanner)} (h : IsRun w rs) {p : Nat} (hs : w.state.Sees (ts.drop p))
    (hg : w.grammar.Paired) :
    ∃ k : Nat → Nat, Monotone k ∧ k 0 = p ∧ ∀ i (r : Transition Scanner), rs[i]? = some r →
      r.Lawful ∧ r.after.state.Sees (ts.drop (k (i + 1))) ∧ r.after.grammar.Paired := by
  induction h generalizing p with
  | nil => exact ⟨fun _ => p, monotone_const, rfl, by simp⟩
  | @cons w w' n st a rs hstep _ ih =>
    obtain ⟨hgrammar, hreaches⟩ := step_spec hstep
    obtain ⟨j, hj⟩ := hs.of_reaches hreaches
    rw [List.drop_drop] at hj
    have hg' : w'.grammar.Paired := hgrammar ▸ paired_entered hg st
    obtain ⟨k, hk, hk₀, hrs⟩ := ih hj hg'
    rw [← hk₀] at hj
    refine ⟨fun i => Nat.casesOn i p k, ?_, rfl, fun i r hr => ?_⟩
    · refine monotone_nat_of_le_succ fun i => ?_
      cases i with
      | zero => exact (Nat.le_add_right p j).trans_eq hk₀.symm
      | succ i => exact hk (Nat.le_succ i)
    · cases i with
      | zero =>
        obtain rfl : (⟨w, st, a, w'⟩ : Transition Scanner) = r := by simpa using hr
        exact ⟨lawful_of_step hstep, hj, hg'⟩
      | succ i => exact hrs i r (by simpa using hr)

/-- What holds of every workspace in a run on a text, where the parse stands at the place `p`: the
kinds that have a power are the kinds by which an expression goes on, and so there is a rule
wherever the power of the next token lets an expression go on. -/
structure InPlace (source : String) (p : Nat) (w : Workspace Scanner) : Prop where
  /-- The current token is at the place. -/
  current_eq : w.state.current = tokenAt source p
  /-- The next token is after it. -/
  peek_eq : w.state.peek = tokenAt source (p + 1)
  /-- The kinds with a power are those with a rule. -/
  paired : ∀ k, (w.grammar.powers k).isSome = (w.grammar.trailing k).isSome
  /-- The rule by which an expression goes on is there. -/
  trailing_eq : ∀ b k, b < w.grammar.power k → w.grammar.trailing k = some .binary

theorem inPlace_of_sees {source : String} {p : Nat} {w : Workspace Scanner}
    (hs : w.state.Sees ((Scanner.ofString source).tokens.drop p)) (hg : w.grammar.Paired) :
    w.InPlace source p where
  current_eq := by rw [hs.current_eq, front_drop_tokens]
  peek_eq := by rw [hs.peek_eq, List.tail_drop, front_drop_tokens]
  paired := hg
  trailing_eq _ _ hlt := hg.trailing_eq hlt

/-- **The invariant of a run.** In every run on a text, of which some tokens may be left out at the
beginning, the parse goes from place to place along the tokens of the text and the end tokens after
them, and never back. At each place its two tokens are those of the text, and the kinds with a power
are those with a rule. Every step is lawful. -/
theorem run_invariant {source : String} {skip : Nat} {rs : List (Transition Scanner)}
    (h : IsRun (ofSource (TokenSource.drop skip (Scanner.ofString source))) rs) :
    ∃ p : Nat → Nat, Monotone p ∧ p 0 = skip ∧
      (ofSource (TokenSource.drop skip (Scanner.ofString source))).InPlace source (p 0) ∧
      ∀ i (r : Transition Scanner), rs[i]? = some r →
        r.Lawful ∧ r.after.InPlace source (p (i + 1)) := by
  have hs : (ofSource (TokenSource.drop skip (Scanner.ofString source))).state.Sees
      ((Scanner.ofString source).tokens.drop skip) := by
    rw [← Scanner.tokens_drop]
    exact ParseState.sees_ofSource _
  obtain ⟨p, hmono, hp₀, hplaces⟩ := h.exists_places hs .standard
  refine ⟨p, hmono, hp₀, ?_, fun i r hr => ?_⟩
  · rw [hp₀]
    exact inPlace_of_sees hs .standard
  · obtain ⟨hlawful, hsees, hpaired⟩ := hplaces i r hr
    exact ⟨hlawful, inPlace_of_sees hsees hpaired⟩

/-- A run from the second token on, in which a name is expected and does not come next, the end
token is made an operator, and a rule is followed at the end of the text. -/
theorem run_invariant_refused :
    ∃ rs, IsRun (ofSource (TokenSource.drop 1 (Scanner.ofString "let a = (b; c"))) rs ∧
      rs.map Transition.step = [.expectPeek .ident, .addTrailing .eof .sum .binary, .program,
        .leading .grouping] ∧
      rs.head?.map Transition.answer = some (.flag false) ∧
      ∃ p : Nat → Nat, Monotone p ∧ p 0 = 1 ∧ ∀ i (r : Transition Scanner), rs[i]? = some r →
        r.Lawful ∧ r.after.InPlace "let a = (b; c" (p (i + 1)) := by
  let w : Workspace Scanner := ofSource (TokenSource.drop 1 (Scanner.ofString "let a = (b; c"))
  let steps : List Step :=
    [.expectPeek .ident, .addTrailing .eof .sum .binary, .program, .leading .grouping]
  obtain ⟨snapshots, hrun, hfirst⟩ : ∃ snapshots, w.run 100 steps = some snapshots ∧
      snapshots.head?.map Snapshot.answer = some (.flag false) := by
    have hseen : (w.run 100 steps).bind (fun snapshots => snapshots.head?.map Snapshot.answer) =
        some (.flag false) := by decide +kernel
    exact Option.bind_eq_some_iff.mp hseen
  obtain ⟨rs, hrs, hsteps, rfl⟩ := exists_isRun hrun
  rw [List.head?_map, Option.map_map] at hfirst
  obtain ⟨p, hmono, hp₀, -, hplaces⟩ := run_invariant hrs
  exact ⟨rs, hrs, hsteps, hfirst, p, hmono, hp₀, hplaces⟩

end Workspace

end FrontEnd
