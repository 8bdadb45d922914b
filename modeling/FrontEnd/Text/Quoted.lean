import FrontEnd.Text.DefaultIgnorable
import FrontEnd.Text.GraphemeExtend

/-!
# Quoted text

A text is *quoted* so that every character of it can be seen: it stands in double quotes, and a
character that would end the quotation or that does not show is written by an escape.

## Main definitions

* `FrontEnd.Text.isHidden` — the characters that do not show by themselves.
* `FrontEnd.Text.escape` — the written form of a character inside a quotation.
* `FrontEnd.Text.quoted` — a text in double quotes.
-/

namespace FrontEnd.Text

/-- Whether a character does not show by itself: it is unprintable, to be ignored in display, or a
mark on the character before it. -/
def isHidden (c : Char) : Bool :=
  isUnprintable c || isDefaultIgnorable c || (isGraphemeExtend c && !isSoundMark c)

/-- The escape of a character by its number: the code point in lower-case hexadecimal digits. -/
def escapeByNumber (c : Char) : String :=
  "\\u\x7b" ++ String.ofList (Nat.toDigits 16 c.toNat) ++ "\x7d"

/-- The written form of a character inside a quotation. The quote and the backslash take a backslash
in front, four control characters have a letter or digit of their own, and the other characters that
do not show by themselves are written by number. -/
def escape (c : Char) : String :=
  if c = '"' then "\\\""
  else if c = '\\' then "\\\\"
  else if c = '\x00' then "\\0"
  else if c = '\t' then "\\t"
  else if c = '\n' then "\\n"
  else if c = '\r' then "\\r"
  else if isHidden c then escapeByNumber c
  else c.toString

/-- A text in double quotes, every character in its written form. -/
def quoted (s : String) : String :=
  "\"" ++ String.join (s.toList.map escape) ++ "\""

end FrontEnd.Text
