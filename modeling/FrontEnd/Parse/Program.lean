import FrontEnd.Parse.Rules
import FrontEnd.Parse.State
import FrontEnd.Token.Scanner
import FrontEnd.Tree.Equality
import FrontEnd.Tree.Render

/-!
# Reading a whole text

A text is read statement by statement up to its end. The result is the program together with the
errors that were met; the program holds what could be read in spite of them.

## Main definitions

* `FrontEnd.Parse.program` — reads statements up to the end token.
* `FrontEnd.Parse.fuelFor` — fuel for a given number of tokens.
* `FrontEnd.Parsed` — a program and the errors met in reading it.
* `FrontEnd.parse` — reads a text by the grammar of the language.
* `FrontEnd.canonical` — the canonical form of a text, or what is wrong with it.
-/

namespace FrontEnd

namespace Parse

/-- Reads statements up to the end token. -/
def program {ω : Type} [Window ω] (g : Grammar) (fuel : Nat) (s : ω) : Option (Program × ω) := do
  let (body, s) ← statements g fuel [.eof] s
  some (⟨body⟩, s)

/-- Fuel for reading so many tokens. No reading makes eight calls inside each other without moving
on by a token, unless it never ends. -/
def fuelFor (tokens : Nat) : Nat :=
  8 * (tokens + 4)

end Parse

/-- A program and the errors that were met in reading it, in order. -/
structure Parsed where
  /-- What could be read. -/
  program : Program
  /-- The errors. -/
  errors : List ParseError
  deriving DecidableEq

/-- Reads the tokens of a source by the grammar of the language, with the given fuel. -/
def parseSource? {σ : Type} [TokenSource σ] (fuel : Nat) (source : σ) : Option Parsed := do
  let (p, s) ← Parse.program .standard fuel (ParseState.ofSource source)
  some ⟨p, s.errors.toList⟩

/-- Reads a text by the grammar of the language. In this grammar no expression begins with the end
token, so the fuel lasts for every text, and the empty result that stands in for a lack of it is
never given. -/
def parse (source : String) : Parsed :=
  (parseSource? (Parse.fuelFor (tokenize source).length) (Scanner.ofString source)).getD ⟨⟨[]⟩, []⟩

/-- The canonical form of a text that is read without errors, and the errors otherwise. -/
def canonical (source : String) : Except (List ParseError) String :=
  let parsed := parse source
  if parsed.errors.isEmpty then .ok parsed.program.render else .error parsed.errors

/-- Only a text without errors has a canonical form. -/
theorem canonical_eq_ok {source text : String} (h : canonical source = .ok text) :
    (parse source).errors = [] ∧ text = (parse source).program.render := by
  simp only [canonical] at h
  split at h
  next hempty => exact ⟨List.isEmpty_iff.mp hempty, (Except.ok.inj h).symm⟩
  next => exact absurd h (by simp)

end FrontEnd
