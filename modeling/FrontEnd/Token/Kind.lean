/-!
# Token kinds

A *kind* says what a token may do in the grammar: it is a name, a number, one of the operators and
marks, one of seven keywords, the end of the text, or a character that belongs to no other kind.

## Main definitions

* `FrontEnd.Kind` — the kinds.
* `FrontEnd.Kind.name` — the upper-case name under which messages speak of a kind.
* `FrontEnd.Kind.all` — every kind, once.
* `FrontEnd.Kind.keyword?`, `FrontEnd.Kind.ofWord` — the kind of a word.
-/

namespace FrontEnd

/-- The kind of a token. -/
inductive Kind where
  /-- A character that starts no other token. -/
  | illegal
  /-- The end of the text. -/
  | eof
  /-- A word that is no keyword. -/
  | ident
  /-- A run of digits. -/
  | int
  /-- The mark `=`. -/
  | assign
  /-- The operator `+`. -/
  | plus
  /-- The operator `-`. -/
  | minus
  /-- The operator `!`. -/
  | bang
  /-- The operator `*`. -/
  | asterisk
  /-- The operator `/`. -/
  | slash
  /-- The operator `<`. -/
  | lt
  /-- The operator `>`. -/
  | gt
  /-- The operator `==`. -/
  | eq
  /-- The operator `!=`. -/
  | notEq
  /-- The mark `,`. -/
  | comma
  /-- The mark `;`. -/
  | semicolon
  /-- The mark `(`. -/
  | lparen
  /-- The mark `)`. -/
  | rparen
  /-- The mark `{`. -/
  | lbrace
  /-- The mark `}`. -/
  | rbrace
  /-- The keyword `fn`. -/
  | function
  /-- The keyword `let`. -/
  | letKey
  /-- The keyword `true`. -/
  | trueKey
  /-- The keyword `false`. -/
  | falseKey
  /-- The keyword `if`. -/
  | ifKey
  /-- The keyword `else`. -/
  | elseKey
  /-- The keyword `return`. -/
  | returnKey
  deriving DecidableEq, Repr, Inhabited

namespace Kind

/-- The name of a kind in messages. -/
def name : Kind → String
  | illegal => "ILLEGAL"
  | eof => "EOF"
  | ident => "IDENT"
  | int => "INT"
  | assign => "ASSIGN"
  | plus => "PLUS"
  | minus => "MINUS"
  | bang => "BANG"
  | asterisk => "ASTERISK"
  | slash => "SLASH"
  | lt => "LT"
  | gt => "GT"
  | eq => "EQ"
  | notEq => "NOT_EQ"
  | comma => "COMMA"
  | semicolon => "SEMICOLON"
  | lparen => "LPAREN"
  | rparen => "RPAREN"
  | lbrace => "LBRACE"
  | rbrace => "RBRACE"
  | function => "FUNCTION"
  | letKey => "LET"
  | trueKey => "TRUE"
  | falseKey => "FALSE"
  | ifKey => "IF"
  | elseKey => "ELSE"
  | returnKey => "RETURN"

/-- Every kind, in the order of declaration. -/
def all : List Kind :=
  [illegal, eof, ident, int, assign, plus, minus, bang, asterisk, slash, lt, gt, eq, notEq, comma,
    semicolon, lparen, rparen, lbrace, rbrace, function, letKey, trueKey, falseKey, ifKey, elseKey,
    returnKey]

/-- The kind with a given name, if there is one. -/
def ofName? (s : String) : Option Kind :=
  all.find? fun k => k.name == s

/-- The keywords with their kinds. -/
def keywords : List (String × Kind) :=
  [("fn", function), ("let", letKey), ("true", trueKey), ("false", falseKey), ("if", ifKey),
    ("else", elseKey), ("return", returnKey)]

/-- The kind of a keyword, `none` for any other text. -/
def keyword? (word : String) : Option Kind :=
  keywords.lookup word

/-- The kind of a word: its own kind for a keyword, that of a name otherwise. -/
def ofWord (word : String) : Kind :=
  (keyword? word).getD ident

end Kind

end FrontEnd
