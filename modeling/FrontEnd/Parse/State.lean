import FrontEnd.Parse.Window
import FrontEnd.Token.Source

/-!
# The state of a parse

The state of a parse is a window over a source of tokens: it holds the current token and the one
after it, and pulls further tokens from the source as it moves on. The errors it meets are kept in
order.

## Main definitions

* `FrontEnd.ParseState` — the two tokens, the source behind them and the errors so far.
* `FrontEnd.ParseState.ofSource` — the state before the first token.
* `FrontEnd.ParseState.advance` — moves on by one token.
-/

namespace FrontEnd

/-- The state of a parse that pulls its tokens from a source of type `σ`. -/
structure ParseState (σ : Type) where
  /-- The token that is read now. -/
  current : Token
  /-- The token after it. -/
  peek : Token
  /-- The source of the tokens after these two. -/
  source : σ
  /-- The errors so far, the first one first. -/
  errors : Array ParseError
  deriving DecidableEq, Repr

namespace ParseState

variable {σ : Type} [TokenSource σ]

/-- The state before the first token of a source. -/
def ofSource (source : σ) : ParseState σ :=
  let (current, source) := TokenSource.next source
  let (peek, source) := TokenSource.next source
  ⟨current, peek, source, #[]⟩

/-- Moves on by one token. -/
def advance (s : ParseState σ) : ParseState σ :=
  let (next, source) := TokenSource.next s.source
  { s with current := s.peek, peek := next, source := source }

/-- Records an error. -/
def record {σ : Type} (s : ParseState σ) (e : ParseError) : ParseState σ :=
  { s with errors := s.errors.push e }

/-- The state of a parse is a window. -/
instance : Window (ParseState σ) where
  current := current
  peek := peek
  advance := advance
  record := record

end ParseState

end FrontEnd
