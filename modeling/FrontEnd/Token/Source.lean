import FrontEnd.Token.Basic

/-!
# Sources of tokens

A *source* hands out tokens one at a time and never runs dry: past its last token it goes on with
the end token. Whatever reads tokens is written against this interface, so that it can read them
straight from a text or from a list.

## Main definitions

* `FrontEnd.TokenSource` — the interface.
* `FrontEnd.TokenSource.drop` — the source after some tokens.
* The instance on `List Token` — the tokens of a list, then end tokens.
-/

namespace FrontEnd

/-- A source of tokens. -/
class TokenSource (σ : Type) where
  /-- The next token, and the source after it. -/
  next : σ → Token × σ

namespace TokenSource

/-- The source after its next `n` tokens. -/
def drop {σ : Type} [TokenSource σ] : Nat → σ → σ
  | 0, s => s
  | n + 1, s => drop n (next s).2

end TokenSource

/-- A list hands out its members and then end tokens. -/
instance : TokenSource (List Token) where
  next
    | [] => (Token.eof, [])
    | t :: ts => (t, ts)

@[simp]
theorem TokenSource.next_nil : next ([] : List Token) = (Token.eof, []) := rfl

@[simp]
theorem TokenSource.next_cons (t : Token) (ts : List Token) : next (t :: ts) = (t, ts) := rfl

end FrontEnd
