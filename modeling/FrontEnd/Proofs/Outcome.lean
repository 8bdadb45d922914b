import FrontEnd.Proofs.Fuel
import FrontEnd.Proofs.Lexing
import FrontEnd.Proofs.Standard

/-!
# The outcome of a parse

The parse of a text follows the relations on its tokens: if they are read without errors, the parse
gives the statements that are read, and otherwise its first error is the one that the relations
tell. Since every list of tokens is read without errors or has a first error, these are the only two
outcomes.

Read from the tape of its tokens, a text also has a place for each error: the index of the token
that the error speaks of.

## Main definitions

* `FrontEnd.locatedErrors` — the errors of a text, each with the index of its token.

## Main results

* `FrontEnd.parse_of_reads`, `FrontEnd.locatedErrors_of_faults` — the two outcomes.
* `FrontEnd.reads_of_errors_eq_nil`, `FrontEnd.faults_of_errors_ne_nil` — which of them it was is
  seen from the errors.
-/

namespace FrontEnd

open Window

theorem tokenize_eq (source : String) : tokenize source = lex source.toList ++ [Token.eof] := by
  rw [tokenize, tokens_ofString]

theorem front_tokenize (source : String) : front (tokenize source) = front (lex source.toList) := by
  rw [tokenize_eq]
  cases lex source.toList <;> rfl

/-- The errors that were met in reading a text, in order, each with the index of the token that it
speaks of among the tokens of the text: the token that was to be read, or the one after it if
another one was expected there. -/
def locatedErrors (source : String) : List (Nat × ParseError) :=
  let ts := (tokenize source).dropLast
  match Parse.program .standard (Parse.fuelFor (tokenize source).length) (Tape.ofTokens ts) with
  | none => []
  | some (_, t) => t.faults.map fun fault => (ts.length - fault.1.length, fault.2)

/-- The located errors are the errors of the parse. -/
theorem map_snd_locatedErrors (source : String) :
    (locatedErrors source).map Prod.snd = (parse source).errors := by
  obtain ⟨p, t, hprogram, hparse⟩ := exists_program_eq source
  rw [locatedErrors, dropLast_tokenize, hparse]
  simp only [hprogram, List.map_map]
  rfl

/-- What is ensured of every reading of the tokens of a text holds for its parse. -/
theorem parse_of_ensures {source : String} {Q : List Stmt → Tape → Prop}
    (h : ∀ n, Ensures Q (Parse.statements .standard n [.eof] (Tape.ofTokens (lex source.toList)))) :
    ∃ ss t, Q ss t ∧ parse source = ⟨⟨ss⟩, t.faults.map Prod.snd⟩ ∧
      locatedErrors source =
        t.faults.map fun fault => ((lex source.toList).length - fault.1.length, fault.2) := by
  obtain ⟨p, t, hprogram, hparse⟩ := exists_program_eq source
  rw [tokens_ofString] at hprogram
  have hlocated : locatedErrors source =
      t.faults.map fun fault => ((lex source.toList).length - fault.1.length, fault.2) := by
    simp only [locatedErrors, dropLast_tokenize, tokens_ofString, hprogram]
  rw [Parse.program] at hprogram
  obtain ⟨⟨ss, t'⟩, hread, hsome⟩ := Option.bind_eq_some_iff.mp hprogram
  obtain ⟨rfl, rfl⟩ := Prod.mk.inj (Option.some.inj hsome)
  exact ⟨ss, t', h _ ss t' hread, hparse, hlocated⟩

/-- Tokens that are read without errors give the statements that are read. -/
theorem parse_of_reads {source : String} {ss : List Stmt} {rest : List Token}
    (h : ReadsStatements .standard [.eof] (lex source.toList) ss rest) :
    parse source = ⟨⟨ss⟩, []⟩ := by
  obtain ⟨ss', t, ⟨rfl, hfaults, -⟩, hparse, -⟩ := parse_of_ensures fun n => h.ensures n _ rfl
  rw [hparse, hfaults]
  rfl

/-- If the tokens have a first error, the parse records it first. -/
theorem locatedErrors_of_faults {source : String} {us : List Token} {err : ParseError}
    (h : FaultsStatements .standard [.eof] (lex source.toList) us err) :
    ∃ others, locatedErrors source = ((lex source.toList).length - us.length, err) :: others := by
  obtain ⟨ss, t, ⟨faults, hfaults⟩, -, hlocated⟩ := parse_of_ensures fun n => h.ensures n _ rfl
  rw [hlocated, ← hfaults]
  exact ⟨_, rfl⟩

theorem errors_ne_nil_of_faults {source : String} {us : List Token} {err : ParseError}
    (h : FaultsStatements .standard [.eof] (lex source.toList) us err) :
    (parse source).errors ≠ [] := by
  obtain ⟨others, hlocated⟩ := locatedErrors_of_faults h
  rw [← map_snd_locatedErrors, hlocated]
  simp

/-- Statements up to the end token leave nothing of the tokens of a text. -/
theorem ReadsStatements.rest_eq_nil {g : Grammar} : ∀ {stop ts ss rest},
    ReadsStatements g stop ts ss rest → stop = [.eof] → (∀ t ∈ ts, t.Genuine) → rest = []
  | _, [], _, _, .nil _, _, _ => rfl
  | _, t :: _, _, _, .nil hstop, hend, hts => by
    subst hend
    exact absurd (by simpa using hstop) (hts t (by simp)).kind_ne_eof
  | _, _, _, _, .cons _ hfirst hothers, hend, hts =>
    hothers.rest_eq_nil hend fun t ht =>
      hts t (List.mem_cons_of_mem _ (hfirst.suffix.subset ht))

/-- A text without errors has its tokens read to the end. -/
theorem reads_of_errors_eq_nil {source : String} (h : (parse source).errors = []) :
    ∃ ss, ReadsStatements .standard [.eof] (lex source.toList) ss [] ∧
      parse source = ⟨⟨ss⟩, []⟩ := by
  rcases reads_or_faults Grammar.bounded_standard [.eof] (by simp) (lex source.toList) with
    ⟨ss, rest, hreads⟩ | ⟨us, err, hfaults⟩
  · obtain rfl := hreads.rest_eq_nil rfl fun t => genuine_of_mem_lex
    exact ⟨ss, hreads, parse_of_reads hreads⟩
  · exact absurd h (errors_ne_nil_of_faults hfaults)

/-- A text with errors has a first one. -/
theorem faults_of_errors_ne_nil {source : String} (h : (parse source).errors ≠ []) :
    ∃ us err, FaultsStatements .standard [.eof] (lex source.toList) us err := by
  rcases reads_or_faults Grammar.bounded_standard [.eof] (by simp) (lex source.toList) with
    ⟨ss, rest, hreads⟩ | hfaults
  · exact absurd (by rw [parse_of_reads hreads]) h
  · exact hfaults

end FrontEnd
