import FrontEnd.Token.Lexeme
import FrontEnd.Token.Source

/-!
# The scanner

A *scanner* is a place in a text from which tokens are read. It keeps the text, the number of bytes
before the place, and the characters from the place on, so that reading a token never looks at the
characters in front of it.

## Main definitions

* `FrontEnd.Scanner` — a place in a text.
* `FrontEnd.Scanner.next` — the token at the place, and the place after it.
* `FrontEnd.Scanner.tokens` — the tokens from the place on, without the end token.
* `FrontEnd.tokenize` — the tokens of a text, with one end token.

## Main results

* `FrontEnd.Scanner.length_rest_lt_of_lexeme?` — a token shortens what is left of the text.
-/

namespace FrontEnd

/-- The number of bytes that characters take in UTF-8. -/
def byteSize (cs : List Char) : Nat :=
  cs.foldr (fun c n => c.utf8Size + n) 0

/-- A place in a text. -/
structure Scanner where
  /-- The whole text. -/
  source : String
  /-- The number of bytes of the text before the place. -/
  offset : Nat
  /-- The characters of the text from the place on. -/
  rest : List Char
  deriving DecidableEq, Repr

namespace Scanner

/-- The beginning of a text. -/
def ofString (source : String) : Scanner :=
  ⟨source, 0, source.toList⟩

/-- The character at the place, `none` at the end of the text. -/
def char? (s : Scanner) : Option Char :=
  s.rest.head?

/-- The place after the characters `cs`, with the characters `rest` still to come. -/
def moveTo (s : Scanner) (cs rest : List Char) : Scanner :=
  { s with offset := s.offset + byteSize cs, rest := rest }

/-- The first place from here on that is not at a blank. -/
def skipBlanks (s : Scanner) : Scanner :=
  s.moveTo (s.rest.takeWhile isBlank) (s.rest.dropWhile isBlank)

/-- The lexeme that starts exactly at the place, `none` at the end of the text. -/
def lexeme? (s : Scanner) : Option Lexeme :=
  match s.rest with
  | [] => none
  | c :: cs => some (Lexeme.cut c cs)

/-- The next token from the place on, and the place after it. At the end of the text the token is
the end token and the place stays. -/
def next (s : Scanner) : Token × Scanner :=
  let s := s.skipBlanks
  match s.lexeme? with
  | none => (Token.eof, s)
  | some l => (l.token, s.moveTo l.chars l.rest)

/-- A scanner is a source of tokens. -/
instance : TokenSource Scanner where
  next := next

theorem rest_skipBlanks (s : Scanner) : s.skipBlanks.rest = s.rest.dropWhile isBlank := rfl

/-- If there is a lexeme after the blanks, fewer characters are left after it. -/
theorem length_rest_lt_of_lexeme? {s : Scanner} {l : Lexeme} (h : s.skipBlanks.lexeme? = some l) :
    l.rest.length < s.rest.length := by
  have hle : s.skipBlanks.rest.length ≤ s.rest.length := (List.dropWhile_sublist _).length_le
  unfold lexeme? at h
  split at h
  · exact absurd h (by simp)
  next c cs hrest =>
    obtain rfl := Option.some.inj h
    have hcut := Lexeme.length_rest_cut_le c cs
    rw [hrest, List.length_cons] at hle
    omega

/-- The tokens from the place on, up to the end of the text and without the end token. -/
def tokens (s : Scanner) : List Token :=
  match _h : s.skipBlanks.lexeme? with
  | none => []
  | some l => l.token :: tokens (s.skipBlanks.moveTo l.chars l.rest)
termination_by s.rest.length
decreasing_by exact length_rest_lt_of_lexeme? _h

end Scanner

/-- The tokens of a text, the end token last. -/
def tokenize (source : String) : List Token :=
  (Scanner.ofString source).tokens ++ [Token.eof]

end FrontEnd
