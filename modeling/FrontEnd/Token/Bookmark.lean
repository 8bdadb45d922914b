import FrontEnd.Token.Scanner

/-!
# Bookmarks

A scanner is a value, so a place in a text can be kept and returned to. A *reader* is a scanner
together with one kept place, its *bookmark*; it is driven by moves that read a token, set the
bookmark, or go back to it.

## Main definitions

* `FrontEnd.Reader` — a scanner with a bookmark.
* `FrontEnd.Reader.Move` — the moves of a reader.
* `FrontEnd.Reader.run` — what a list of moves yields, move by move.
-/

namespace FrontEnd

/-- A scanner with a bookmark. -/
structure Reader where
  /-- Where the next token is read. -/
  place : Scanner
  /-- The kept place. -/
  bookmark : Scanner
  deriving DecidableEq, Repr

namespace Reader

/-- The moves of a reader. -/
inductive Move where
  /-- Read a token. -/
  | next
  /-- Set the bookmark here. -/
  | save
  /-- Go back to the bookmark. -/
  | restore
  deriving DecidableEq, Repr

/-- What a move yields: the token it read, or word that the bookmark was set or followed. -/
inductive Yield where
  /-- The token that was read. -/
  | token (t : Token)
  /-- The bookmark was set. -/
  | saved
  /-- The bookmark was followed. -/
  | restored
  deriving DecidableEq, Repr

/-- A reader at the beginning of a text, with its bookmark there too. -/
def ofString (source : String) : Reader :=
  ⟨Scanner.ofString source, Scanner.ofString source⟩

/-- One move. -/
def step (r : Reader) : Move → Yield × Reader
  | .next => (.token r.place.next.1, { r with place := r.place.next.2 })
  | .save => (.saved, { r with bookmark := r.place })
  | .restore => (.restored, { r with place := r.bookmark })

/-- What the moves yield in turn. -/
def run (r : Reader) : List Move → List Yield
  | [] => []
  | m :: ms => (r.step m).1 :: run (r.step m).2 ms

/-- The reader after the moves. -/
def after (r : Reader) (ms : List Move) : Reader :=
  ms.foldl (fun r m => (r.step m).2) r

end Reader

end FrontEnd
