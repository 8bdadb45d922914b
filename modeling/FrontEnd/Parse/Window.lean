import FrontEnd.ParseError
import FrontEnd.Token.Basic

/-!
# Windows

A parse looks at two tokens at a time, the *current* one and the one after it. All it can do is move
on by one token and record an error; errors do not stop it. A *window* is anything that can be
looked at and driven in this way. Whatever reads trees is written against this interface, so that
the same reading can be done on a text and on bare tokens.

## Main definitions

* `FrontEnd.Window` — the interface.
* `FrontEnd.Window.expectPeek` — moves on if the next token is of the wanted kind.
* `FrontEnd.Window.expecting` — goes on reading after a wanted token.
* `FrontEnd.Window.skipSemicolon` — moves on to a semicolon.
-/

namespace FrontEnd

/-- A view on two tokens that moves along the tokens of a text. -/
class Window (ω : Type) where
  /-- The token that is read now. -/
  current : ω → Token
  /-- The token after it. -/
  peek : ω → Token
  /-- Moves on by one token. -/
  advance : ω → ω
  /-- Records an error. -/
  record : ω → ParseError → ω

namespace Window

variable {ω α : Type} [Window ω]

/-- Moves on if the next token is of the kind `k`; records an error and stays otherwise. Says which
of the two it was. -/
def expectPeek (s : ω) (k : Kind) : Bool × ω :=
  if (peek s).is k then (true, advance s) else (false, record s (.unexpected k (peek s).kind))

/-- Moves on to a next token of the kind `k` and reads on from there. If the next token is of
another kind, an error is recorded and nothing is read. -/
def expecting (s : ω) (k : Kind) (f : ω → Option (Option α × ω)) : Option (Option α × ω) :=
  match expectPeek s k with
  | (true, s) => f s
  | (false, s) => some (none, s)

/-- Moves on to the next token if it is a semicolon. -/
def skipSemicolon (s : ω) : ω :=
  if (peek s).is .semicolon then advance s else s

theorem expectPeek_of_is {s : ω} {k : Kind} (h : (peek s).is k = true) :
    expectPeek s k = (true, advance s) := by
  rw [expectPeek, if_pos h]

theorem expectPeek_of_not_is {s : ω} {k : Kind} (h : (peek s).is k = false) :
    expectPeek s k = (false, record s (.unexpected k (peek s).kind)) := by
  rw [expectPeek, h]
  rfl

theorem expecting_of_is {s : ω} {k : Kind} {f : ω → Option (Option α × ω)}
    (h : (peek s).is k = true) : expecting s k f = f (advance s) := by
  rw [expecting, expectPeek_of_is h]

theorem expecting_of_not_is {s : ω} {k : Kind} {f : ω → Option (Option α × ω)}
    (h : (peek s).is k = false) :
    expecting s k f = some (none, record s (.unexpected k (peek s).kind)) := by
  rw [expecting, expectPeek_of_not_is h]

end Window

end FrontEnd
