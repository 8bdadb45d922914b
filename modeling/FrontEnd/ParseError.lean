import FrontEnd.Token.Kind

/-!
# Errors

What can be wrong with a text, and the words in which it is said. An error has a *message*, a *name*
for its sort, and for most sorts a *hint* at what the writer may have meant.

## Main definitions

* `FrontEnd.ParseError` — the errors.
* `FrontEnd.ParseError.message`, `FrontEnd.ParseError.name`, `FrontEnd.ParseError.hint?` — their
  words.
-/

namespace FrontEnd

/-- What is wrong with a text. -/
inductive ParseError where
  /-- No expression begins with a token of this kind. -/
  | noExpression (kind : Kind)
  /-- A token of one kind had to come next, and one of another kind did. -/
  | unexpected (expected found : Kind)
  /-- The literal is no number that can be represented. -/
  | badInteger (literal : String)
  deriving DecidableEq, Repr

namespace ParseError

/-- The error in a sentence. -/
def message : ParseError → String
  | noExpression kind => "no prefix parse function for " ++ kind.name ++ " found"
  | unexpected expected found =>
    "expected next token to be " ++ expected.name ++ ", got " ++ found.name ++ " instead"
  | badInteger literal => "could not parse " ++ literal ++ " as an integer"

/-- The name of the sort of error. -/
def name : ParseError → String
  | noExpression _ => "NoPrefixParseFn"
  | unexpected _ _ => "UnexpectedPeek"
  | badInteger _ => "IntegerParseError"

/-- A hint at what may have been meant, if there is one. -/
def hint? : ParseError → Option String
  | noExpression kind => some ("`" ++ kind.name ++ "` cannot start an expression")
  | unexpected .rparen _ => some "did you forget a closing `)`?"
  | unexpected .lbrace _ => some "bodies must be wrapped in `\x7b \x7d`"
  | unexpected _ _ => none
  | badInteger literal =>
    some ("Invalid integer: `" ++ literal ++ "`, is it above the integer limit?")

end ParseError

end FrontEnd
