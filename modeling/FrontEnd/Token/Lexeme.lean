import FrontEnd.Token.Basic

/-!
# Lexemes

A *lexeme* is the stretch of characters that makes one token. At a character that is no blank
exactly one lexeme starts, and it is the longest one possible there: a word runs on as long as there
are letters, a number as long as there are digits, and `=` or `!` takes a following `=` with it.

## Main definitions

* `FrontEnd.isBlank`, `FrontEnd.isLetter`, `FrontEnd.isDigit` — the character classes. Only ASCII
  characters belong to them.
* `FrontEnd.Lexeme` — a lexeme cut off the front of a text, with the characters after it.
* `FrontEnd.Lexeme.cut` — the lexeme that starts with a given character.

## Main results

* `FrontEnd.Lexeme.chars_append_rest_cut` — cutting loses no character.
* `FrontEnd.Lexeme.length_rest_cut_le` — cutting takes at least the first character.
-/

namespace FrontEnd

/-- The characters that separate tokens: space, tab, line feed and carriage return. -/
def isBlank (c : Char) : Bool :=
  c == ' ' || c == '\t' || c == '\n' || c == '\r'

/-- The characters of words: the ASCII letters and the underscore. -/
def isLetter (c : Char) : Bool :=
  c.isAlpha || c == '_'

/-- The characters of numbers: the ASCII digits. -/
def isDigit (c : Char) : Bool :=
  c.isDigit

/-- The kind of a one-character token that needs no look at the character after it. -/
def Kind.ofMark? (c : Char) : Option Kind :=
  match c with
  | '+' => some .plus
  | '-' => some .minus
  | '*' => some .asterisk
  | '/' => some .slash
  | '<' => some .lt
  | '>' => some .gt
  | ';' => some .semicolon
  | ',' => some .comma
  | '(' => some .lparen
  | ')' => some .rparen
  | '{' => some .lbrace
  | '}' => some .rbrace
  | _ => none

/-- A lexeme at the front of a text. -/
structure Lexeme where
  /-- The kind of the token it makes. -/
  kind : Kind
  /-- Its characters. -/
  chars : List Char
  /-- The characters after it. -/
  rest : List Char
  deriving DecidableEq, Repr

namespace Lexeme

/-- The token that a lexeme makes. -/
def token (l : Lexeme) : Token :=
  ⟨l.kind, String.ofList l.chars⟩

/-- The lexeme that starts with `c`, which takes a following `=` with it if there is one: of the
kind `double` then, and of the kind `single` otherwise. -/
def withEqual (c : Char) (single double : Kind) : List Char → Lexeme
  | '=' :: cs => ⟨double, [c, '='], cs⟩
  | cs => ⟨single, [c], cs⟩

/-- The word that starts with `c`. -/
def word (c : Char) (cs : List Char) : Lexeme :=
  let chars := c :: cs.takeWhile isLetter
  ⟨Kind.ofWord (String.ofList chars), chars, cs.dropWhile isLetter⟩

/-- The number that starts with `c`. -/
def number (c : Char) (cs : List Char) : Lexeme :=
  ⟨.int, c :: cs.takeWhile isDigit, cs.dropWhile isDigit⟩

/-- The lexeme that starts with the character `c`, no blank, and goes on in `cs`. -/
def cut (c : Char) (cs : List Char) : Lexeme :=
  if c = '=' then withEqual c .assign .eq cs
  else if c = '!' then withEqual c .bang .notEq cs
  else match Kind.ofMark? c with
    | some k => ⟨k, [c], cs⟩
    | none =>
      if isLetter c then word c cs
      else if isDigit c then number c cs
      else ⟨.illegal, [c], cs⟩

theorem chars_append_rest_withEqual (c : Char) (single double : Kind) (cs : List Char) :
    (withEqual c single double cs).chars ++ (withEqual c single double cs).rest = c :: cs := by
  unfold withEqual
  split <;> rfl

/-- No character is lost: a lexeme and what follows it make up the text. -/
theorem chars_append_rest_cut (c : Char) (cs : List Char) :
    (cut c cs).chars ++ (cut c cs).rest = c :: cs := by
  unfold cut
  split
  · exact chars_append_rest_withEqual ..
  · split
    · exact chars_append_rest_withEqual ..
    · split
      · rfl
      · split
        · simp [word]
        · split <;> simp [number]

theorem length_rest_withEqual_le (c : Char) (single double : Kind) (cs : List Char) :
    (withEqual c single double cs).rest.length ≤ cs.length := by
  unfold withEqual
  split <;> simp

/-- A lexeme takes at least the character it starts with. -/
theorem length_rest_cut_le (c : Char) (cs : List Char) :
    (cut c cs).rest.length ≤ cs.length := by
  unfold cut
  split
  · exact length_rest_withEqual_le ..
  · split
    · exact length_rest_withEqual_le ..
    · split
      · exact Nat.le_refl _
      · split
        · exact (List.dropWhile_sublist _).length_le
        · split
          · exact (List.dropWhile_sublist _).length_le
          · exact Nat.le_refl _

end Lexeme

end FrontEnd
