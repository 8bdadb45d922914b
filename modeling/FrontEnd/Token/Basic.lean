import FrontEnd.Text.Quoted
import FrontEnd.Token.Kind

/-!
# Tokens

A *token* is a kind together with the text it was cut from, its *literal*. The two are independent
data: a token built by hand may carry any literal.

## Main definitions

* `FrontEnd.Token` — a kind and a literal.
* `FrontEnd.Token.eof` — the token at the end of every text.
* `FrontEnd.Token.describe` — the kind's name and the quoted literal.
-/

namespace FrontEnd

/-- A token: its kind and the text it stands for. -/
structure Token where
  /-- What the token may do in the grammar. -/
  kind : Kind
  /-- The text of the token. -/
  literal : String
  deriving DecidableEq, Repr, Inhabited

namespace Token

/-- The token at the end of a text. -/
def eof : Token := ⟨.eof, ""⟩

/-- Whether a token is of the kind `k`. -/
def is (t : Token) (k : Kind) : Bool :=
  t.kind == k

/-- The form in which a token is shown to a reader: the kind's name, then the quoted literal in
round brackets. -/
def describe (t : Token) : String :=
  t.kind.name ++ "(" ++ Text.quoted t.literal ++ ")"

end Token

end FrontEnd
