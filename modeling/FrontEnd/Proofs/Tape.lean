import FrontEnd.Proofs.Simulation
import Mathlib.Data.List.DropRight

/-!
# Tapes

A *tape* is the plainest window: the list of the tokens that are not read yet. It keeps more about
an error than the state of a parse does, namely the place of the token that the error speaks of,
given by the tokens from there on. Past the last token there is nothing but the end token.

A tape shows the same tokens as the state of a parse that pulls them from a text, so a text can be
read from the tape of its tokens, and each error gets its place.

## Main definitions

* `FrontEnd.front` — the first token of a list, the end token if there is none.
* `FrontEnd.ParseError.blamed` — the tokens from the one on that an error speaks of.
* `FrontEnd.Tape` — the tokens ahead and the errors with their places.
* `FrontEnd.Tape.Shows` — a state of a parse and a tape that show the same tokens.

## Main results

* `FrontEnd.Scanner.tokens_next` — pulling a token from a text takes it off its tokens.
* `FrontEnd.Tape.shows_isSimulation`, `FrontEnd.Tape.shows_ofSource` — a text and the tape of its
  tokens read alike.
-/

namespace FrontEnd

/-- The token at the front of a list, the end token if the list is empty. -/
def front : List Token → Token
  | [] => Token.eof
  | t :: _ => t

@[simp]
theorem front_nil : front [] = Token.eof := rfl

@[simp]
theorem front_cons (t : Token) (ts : List Token) : front (t :: ts) = t := rfl

/-- A token at the front that is not the end token is the first one of the list. -/
theorem eq_front_cons_tail (ts : List Token) (h : (front ts).kind ≠ .eof) :
    ts = front ts :: ts.tail := by
  cases ts with
  | nil => exact absurd rfl h
  | cons t ts => rfl

/-- The tokens from the one on that an error speaks of, where `ts` are the tokens from the current
one on: the next token if another one was expected there, and the current one otherwise. -/
def ParseError.blamed : ParseError → List Token → List Token
  | .unexpected _ _, ts => ts.tail
  | .noExpression _, ts => ts
  | .badInteger _, ts => ts

/-- The tokens that are not read yet, and the errors so far. -/
structure Tape where
  /-- The tokens from the current one on. -/
  ahead : List Token
  /-- The errors so far, the first one first, each after the tokens from the one on that it speaks
  of. -/
  faults : List (List Token × ParseError)

namespace Tape

open Window

/-- The tape of a list of tokens, before anything is read. -/
def ofTokens (ts : List Token) : Tape :=
  ⟨ts, []⟩

/-- A tape is a window. -/
instance : Window Tape where
  current t := front t.ahead
  peek t := front t.ahead.tail
  advance t := { t with ahead := t.ahead.tail }
  record t e := { t with faults := t.faults ++ [(e.blamed t.ahead, e)] }

@[simp]
theorem current_eq (t : Tape) : current t = front t.ahead := rfl

@[simp]
theorem peek_eq (t : Tape) : peek t = front t.ahead.tail := rfl

@[simp]
theorem ahead_advance (t : Tape) : (advance t).ahead = t.ahead.tail := rfl

@[simp]
theorem faults_advance (t : Tape) : (advance t).faults = t.faults := rfl

@[simp]
theorem ahead_record (t : Tape) (e : ParseError) : (record t e).ahead = t.ahead := rfl

@[simp]
theorem faults_record (t : Tape) (e : ParseError) :
    (record t e).faults = t.faults ++ [(e.blamed t.ahead, e)] := rfl

end Tape

/-! ### The tokens of a text -/

namespace Scanner

theorem skipBlanks_skipBlanks_rest (s : Scanner) :
    s.skipBlanks.skipBlanks.rest = s.skipBlanks.rest := by
  simp only [rest_skipBlanks]
  exact List.dropWhile_idempotent isBlank s.rest

theorem lexeme?_skipBlanks_skipBlanks (s : Scanner) :
    s.skipBlanks.skipBlanks.lexeme? = s.skipBlanks.lexeme? := by
  unfold lexeme?
  rw [skipBlanks_skipBlanks_rest]

theorem tokens_of_lexeme?_eq_none {s : Scanner} (h : s.skipBlanks.lexeme? = none) :
    s.tokens = [] := by
  rw [tokens]
  split
  · rfl
  next l hl => exact absurd (h.symm.trans hl) (by simp)

theorem tokens_of_lexeme?_eq_some {s : Scanner} {l : Lexeme} (h : s.skipBlanks.lexeme? = some l) :
    s.tokens = l.token :: (s.skipBlanks.moveTo l.chars l.rest).tokens := by
  rw [tokens]
  split
  next hn => exact absurd (h.symm.trans hn) (by simp)
  next l' hl' =>
    obtain rfl := Option.some.inj (h.symm.trans hl')
    rfl

/-- The token that a scanner gives next is the first of its tokens. -/
theorem next_fst (s : Scanner) : s.next.1 = front s.tokens := by
  unfold next
  cases h : s.skipBlanks.lexeme? with
  | none => simp [tokens_of_lexeme?_eq_none h, h]
  | some l => simp [tokens_of_lexeme?_eq_some h, h]

/-- Giving out a token takes it off the tokens to come. -/
theorem tokens_next (s : Scanner) : s.next.2.tokens = s.tokens.tail := by
  unfold next
  cases h : s.skipBlanks.lexeme? with
  | none =>
    have hskip : s.skipBlanks.skipBlanks.lexeme? = none := by
      rw [lexeme?_skipBlanks_skipBlanks, h]
    simp [tokens_of_lexeme?_eq_none h, tokens_of_lexeme?_eq_none hskip, h]
  | some l => simp [tokens_of_lexeme?_eq_some h, h]

end Scanner

theorem dropLast_tokenize (source : String) :
    (tokenize source).dropLast = (Scanner.ofString source).tokens := by
  simp [tokenize]

/-! ### Reading a text from its tape -/

namespace Tape

open Window

/-- A tape *shows* the same as the state of a parse on a text if the tokens ahead and the errors
agree. -/
structure Shows (s : ParseState Scanner) (t : Tape) : Prop where
  /-- The current token is the first one on the tape. -/
  current_eq : s.current = front t.ahead
  /-- The next token is the second one. -/
  peek_eq : s.peek = front t.ahead.tail
  /-- The text has the others. -/
  tokens_eq : s.source.tokens = t.ahead.tail.tail
  /-- The errors are the same. -/
  errors_eq : s.errors.toList = t.faults.map Prod.snd

theorem shows_isSimulation : IsSimulation Shows where
  current_eq _ _ h := h.current_eq
  peek_eq _ _ h := h.peek_eq
  advance s t h := by
    refine ⟨h.peek_eq, ?_, ?_, h.errors_eq⟩
    · calc (advance s).peek = s.source.next.1 := rfl
        _ = front s.source.tokens := s.source.next_fst
        _ = front (advance t).ahead.tail := by rw [h.tokens_eq, ahead_advance]
    · calc (advance s).source.tokens = s.source.next.2.tokens := rfl
        _ = s.source.tokens.tail := s.source.tokens_next
        _ = (advance t).ahead.tail.tail := by rw [h.tokens_eq, ahead_advance]
  record s t e h := by
    refine ⟨h.current_eq, h.peek_eq, h.tokens_eq, ?_⟩
    calc (record s e).errors.toList = s.errors.toList ++ [e] := Array.toList_push
      _ = (record t e).faults.map Prod.snd := by simp [h.errors_eq]

/-- From a place in a text on, the tape of the tokens from there on shows the same as the parse. -/
theorem shows_ofScanner (s : Scanner) : Shows (ParseState.ofSource s) (ofTokens s.tokens) := by
  refine ⟨s.next_fst, ?_, ?_, rfl⟩
  · calc s.next.2.next.1 = front s.next.2.tokens := s.next.2.next_fst
      _ = front s.tokens.tail := by rw [s.tokens_next]
  · calc s.next.2.next.2.tokens = s.next.2.tokens.tail := s.next.2.tokens_next
      _ = s.tokens.tail.tail := by rw [s.tokens_next]

/-- At the beginning of a text, the tape of its tokens shows the same as the parse. -/
theorem shows_ofSource (source : String) :
    Shows (ParseState.ofSource (Scanner.ofString source))
      (ofTokens (Scanner.ofString source).tokens) :=
  shows_ofScanner _

end Tape

end FrontEnd
