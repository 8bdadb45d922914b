import FrontEnd.Proofs.Cursor
import FrontEnd.Proofs.Runs
import FrontEnd.Token.Bookmark

/-!
# Readers and bookmarks

A reader goes forward by tokens and back to its bookmark. A move back undoes every move since the
bookmark was set, so the place of a reader depends only on how many tokens were read along the moves
that are left: it is the place after this many tokens of the text.

Every place after some tokens lies in the text, at the beginning of a character or at the end.
Therefore a reader can be replaced by one that keeps two cursors, byte offsets with the characters
there, and slices the text: for no text and no moves does a slice fail.

## Main definitions

* `FrontEnd.Reader.reads` — how many tokens were read along the moves that are left.
* `FrontEnd.Cursor.InText` — a cursor in a text.
* `FrontEnd.Cursor.afterTokens` — the cursor after some tokens of a text.
* `FrontEnd.CursorReader`, `FrontEnd.CursorReader.run?` — a cursor with a bookmark, and what it
  yields.

## Main results

* `FrontEnd.Scanner.offset_lt_next` — a token takes at least a byte.
* `FrontEnd.Scanner.Placed.inText_cursor` — where the cursor of a scanner is.
* `FrontEnd.Reader.after_eq` — the places of a reader by the tokens that were read.
* `FrontEnd.Reader.Placed.run?_cursors` — readers with scanners and with cursors yield the same.
* `FrontEnd.CursorReader.cursors_along_text` — the cursors along a text, and readers that keep them.
-/

namespace FrontEnd

/-! ### Places after some tokens -/

theorem TokenSource.drop_succ {σ : Type} [TokenSource σ] (n : Nat) (s : σ) :
    drop (n + 1) s = (next (drop n s)).2 := by
  induction n generalizing s with
  | zero => rfl
  | succ n ih => exact ih (next s).2

namespace Scanner

theorem source_next (s : Scanner) : s.next.2.source = s.source := by
  cases hrest : s.skipBlanks.rest with
  | nil => rw [next_of_nil hrest]; rfl
  | cons c cs => rw [next_of_cons hrest]; rfl

/-- The place after some tokens is a place of the same text. -/
theorem placed_drop (source : String) (n : Nat) :
    (TokenSource.drop n (ofString source)).Placed ∧
      (TokenSource.drop n (ofString source)).source = source := by
  induction n with
  | zero => exact ⟨placed_ofString source, rfl⟩
  | succ n ih =>
    rw [TokenSource.drop_succ]
    exact ⟨ih.1.next, (source_next _).trans ih.2⟩

/-- The token after some tokens of a text. -/
theorem next_drop (source : String) (n : Nat) :
    (TokenSource.drop n (ofString source)).next.1 = tokenAt source n := by
  rw [next_fst, tokens_drop, front_drop_tokens]

end Scanner

theorem Lexeme.chars_cut_ne_nil (c : Char) (cs : List Char) : (cut c cs).chars ≠ [] := by
  intro hnil
  have happend := chars_append_rest_cut c cs
  have hle := length_rest_cut_le c cs
  rw [hnil, List.nil_append] at happend
  rw [happend, List.length_cons] at hle
  omega

/-- A token that is not the end token takes at least a byte. -/
theorem Scanner.offset_lt_next {s : Scanner} (h : s.next.1.kind ≠ .eof) :
    s.offset < s.next.2.offset := by
  cases hrest : s.skipBlanks.rest with
  | nil =>
    rw [next_of_nil hrest] at h
    exact absurd rfl h
  | cons c cs =>
    rw [next_of_cons hrest]
    have hchars : 0 < byteSize (Lexeme.cut c cs).chars :=
      byteSize_pos (Lexeme.chars_cut_ne_nil c cs)
    calc s.offset ≤ s.skipBlanks.offset := Nat.le_add_right _ _
      _ < s.skipBlanks.offset + byteSize (Lexeme.cut c cs).chars := Nat.lt_add_of_pos_right hchars

/-! ### Cursors in a text -/

/-- A cursor *in a text* is at the beginning of a character, which is the one it keeps, or at the
end, and then it keeps none. -/
structure Cursor.InText (source : String) (c : Cursor) : Prop where
  /-- The text is the whole text of the cursor. -/
  source_eq : c.source = source
  /-- The offset lies in the text. -/
  offset_le : c.offset ≤ source.utf8ByteSize
  /-- The offset splits no character. -/
  isValid : (⟨c.offset⟩ : String.Pos.Raw).IsValid source
  /-- The cursor keeps the character at the offset. -/
  char?_eq : c.char? = String.Pos.Raw.get? source ⟨c.offset⟩
  /-- It keeps none only at the end of the text. -/
  char?_eq_none_iff : c.char? = none ↔ c.offset = source.utf8ByteSize

/-- The cursor of a scanner whose parts belong to one place of a text is in the text. -/
theorem Scanner.Placed.inText_cursor {s : Scanner} (h : s.Placed) : s.cursor.InText s.source := by
  obtain ⟨before, hsource, hoffset⟩ := h
  have hsize : s.source.utf8ByteSize = s.offset + byteSize s.rest := by
    rw [hsource, utf8ByteSize_ofList, byteSize_append, hoffset]
  refine ⟨rfl, ?_, ?_, ?_, ?_⟩
  · rw [hsize]
    exact Nat.le_add_right _ _
  · have hvalid := Text.isValid_append (String.ofList before) (String.ofList s.rest)
    rwa [utf8ByteSize_ofList, ← String.ofList_append, ← hsource, ← hoffset] at hvalid
  · have hget := String.get?_of_valid before s.rest
    rw [← byteSize_eq_utf8Len, ← hsource, ← hoffset] at hget
    exact hget.symm
  · rw [hsize]
    cases hrest : s.rest with
    | nil => simp [cursor, char?, hrest]
    | cons c cs =>
      have hpos := byteSize_pos (List.cons_ne_nil c cs)
      simp only [cursor, char?, hrest, List.head?_cons, reduceCtorEq, false_iff]
      omega

/-- The cursor after some tokens of a text. -/
def Cursor.afterTokens (source : String) (n : Nat) : Cursor :=
  (TokenSource.drop n (Scanner.ofString source)).cursor

namespace Cursor

theorem inText_afterTokens (source : String) (n : Nat) : (afterTokens source n).InText source := by
  obtain ⟨hplaced, hsource⟩ := Scanner.placed_drop source n
  have h := hplaced.inText_cursor
  rwa [hsource] at h

/-- After some tokens the cursor reads the one that follows. -/
theorem next?_afterTokens {find : Pattern → String → Option Nat} (hfind : FindsRuns find)
    (source : String) (n : Nat) :
    (afterTokens source n).next? find = some (tokenAt source n, afterTokens source (n + 1)) := by
  have h := (Scanner.placed_drop source n).1.next?_cursor hfind
  rw [Scanner.next_drop] at h
  rw [afterTokens, h, afterTokens, TokenSource.drop_succ]
  rfl

theorem offset_afterTokens_lt {source : String} {n : Nat} (h : (tokenAt source n).kind ≠ .eof) :
    (afterTokens source n).offset < (afterTokens source (n + 1)).offset := by
  rw [← Scanner.next_drop] at h
  rw [afterTokens, afterTokens, TokenSource.drop_succ]
  exact Scanner.offset_lt_next h

end Cursor

/-! ### Bookmarks -/

namespace Reader

/-- How many tokens were read along the moves that are left, where the latest move comes first: a
move back undoes all moves since the bookmark was set, or all of them if it never was. -/
def reads : List Move → Nat
  | [] => 0
  | .next :: ms => reads ms + 1
  | .save :: ms => reads ms
  | .restore :: ms => reads (ms.dropWhile (· != .save))
termination_by ms => ms.length
decreasing_by
  · exact Nat.lt_succ_self _
  · exact Nat.lt_succ_self _
  · exact Nat.lt_succ_of_le (List.dropWhile_sublist _).length_le

theorem after_concat (r : Reader) (ms : List Move) (m : Move) :
    r.after (ms ++ [m]) = ((r.after ms).step m).2 :=
  List.foldl_concat _ _ _ _

theorem run_append (r : Reader) (ms ms' : List Move) :
    r.run (ms ++ ms') = r.run ms ++ (r.after ms).run ms' := by
  induction ms generalizing r with
  | nil => rfl
  | cons m ms ih => exact congrArg (_ :: ·) (ih (r.step m).2)

-- With the latest move first, the moves since the bookmark was set are a beginning of the list.
theorem after_reverse_eq (source : String) (ms : List Move) :
    (ofString source).after ms.reverse =
      ⟨TokenSource.drop (reads ms) (Scanner.ofString source),
        TokenSource.drop (reads (ms.dropWhile (· != .save))) (Scanner.ofString source)⟩ := by
  induction ms with
  | nil => simp [reads, after, ofString, TokenSource.drop]
  | cons m ms ih =>
    rw [List.reverse_cons, after_concat, ih]
    cases m with
    | next => rw [step, reads, TokenSource.drop_succ]; rfl
    | save => simp [step, reads]
    | restore => simp [step, reads]

/-- The place of a reader is after the tokens that were read along the moves that are left, and its
bookmark after those that were read along the moves that were left when it was set. -/
theorem after_eq (source : String) (ms : List Move) :
    (ofString source).after ms =
      ⟨TokenSource.drop (reads ms.reverse) (Scanner.ofString source),
        TokenSource.drop (reads (ms.reverse.dropWhile (· != .save)))
          (Scanner.ofString source)⟩ := by
  rw [← after_reverse_eq, List.reverse_reverse]

end Reader

/-! ### Readers that slice -/

/-- A cursor with a bookmark. -/
structure CursorReader where
  /-- Where the next token is read. -/
  place : Cursor
  /-- The kept place. -/
  bookmark : Cursor
  deriving DecidableEq, Repr

namespace CursorReader

/-- At the beginning of a text, with the bookmark there too. -/
def ofString (source : String) : CursorReader :=
  ⟨Cursor.ofString source, Cursor.ofString source⟩

section

variable (find : Pattern → String → Option Nat)

/-- One move, `none` if a slice fails. -/
def step? (r : CursorReader) : Reader.Move → Option (Reader.Yield × CursorReader)
  | .next => do
    let (t, c) ← r.place.next? find
    return (.token t, { r with place := c })
  | .save => some (.saved, { r with bookmark := r.place })
  | .restore => some (.restored, { r with place := r.bookmark })

/-- What the moves yield in turn, and the reader after them, `none` if a slice fails. -/
def run? (r : CursorReader) : List Reader.Move → Option (List Reader.Yield × CursorReader)
  | [] => some ([], r)
  | m :: ms => do
    let (y, r) ← r.step? find m
    let (ys, r) ← run? r ms
    return (y :: ys, r)

end

end CursorReader

namespace Reader

/-- The cursors of a reader. -/
def cursors (r : Reader) : CursorReader :=
  ⟨r.place.cursor, r.bookmark.cursor⟩

/-- The parts of both scanners of a reader belong to one place each. -/
def Placed (r : Reader) : Prop :=
  r.place.Placed ∧ r.bookmark.Placed

namespace Placed

variable {r : Reader} {find : Pattern → String → Option Nat}

theorem step (h : r.Placed) (m : Move) : (r.step m).2.Placed := by
  cases m with
  | next => exact ⟨h.1.next, h.2⟩
  | save => exact ⟨h.1, h.1⟩
  | restore => exact ⟨h.2, h.2⟩

theorem step?_cursors (h : r.Placed) (hfind : FindsRuns find) (m : Move) :
    r.cursors.step? find m = some ((r.step m).1, (r.step m).2.cursors) := by
  cases m with
  | next => simp [CursorReader.step?, cursors, h.1.next?_cursor hfind, Reader.step]
  | save => rfl
  | restore => rfl

/-- A reader that slices yields the same and gets to the same places. -/
theorem run?_cursors (h : r.Placed) (hfind : FindsRuns find) (ms : List Move) :
    r.cursors.run? find ms = some (r.run ms, (r.after ms).cursors) := by
  induction ms generalizing r with
  | nil => rfl
  | cons m ms ih =>
    simp [CursorReader.run?, h.step?_cursors hfind, ih (h.step m), run, after]

end Placed

/-- A token is read after those that were read along the moves that are left. -/
theorem run_concat_next (source : String) (ms : List Move) :
    (ofString source).run (ms ++ [.next]) =
      (ofString source).run ms ++ [.token (tokenAt source (reads ms.reverse))] := by
  rw [run_append, run, run, Reader.step, after_eq, Scanner.next_drop]

end Reader

namespace CursorReader

/-- **Cursors along a text.** The cursor after some tokens is in the text. It reads the token that
follows, no slice fails, and it gets at least a byte further unless this is the end token. Whatever
the moves, a reader that keeps two cursors yields what a reader yields, and its cursors are those
after the tokens that were read along the moves that are left. -/
theorem cursors_along_text {find : Pattern → String → Option Nat} (hfind : FindsRuns find)
    (source : String) :
    Cursor.afterTokens source 0 = Cursor.ofString source ∧
    (∀ n, (Cursor.afterTokens source n).InText source ∧
      (Cursor.afterTokens source n).next? find =
        some (tokenAt source n, Cursor.afterTokens source (n + 1)) ∧
      ((tokenAt source n).kind ≠ .eof →
        (Cursor.afterTokens source n).offset < (Cursor.afterTokens source (n + 1)).offset)) ∧
    ∀ ms : List Reader.Move,
      (ofString source).run? find ms = some ((Reader.ofString source).run ms,
        ((Reader.ofString source).after ms).cursors) ∧
      ((Reader.ofString source).after ms).cursors =
        ⟨Cursor.afterTokens source (Reader.reads ms.reverse),
          Cursor.afterTokens source (Reader.reads (ms.reverse.dropWhile (· != .save)))⟩ ∧
      (Reader.ofString source).run (ms ++ [.next]) =
        (Reader.ofString source).run ms ++ [.token (tokenAt source (Reader.reads ms.reverse))] := by
  have hstart : (Reader.ofString source).Placed :=
    ⟨Scanner.placed_ofString source, Scanner.placed_ofString source⟩
  refine ⟨rfl, fun n => ?_, fun ms => ?_⟩
  · exact ⟨Cursor.inText_afterTokens source n, Cursor.next?_afterTokens hfind source n,
      Cursor.offset_afterTokens_lt⟩
  · refine ⟨hstart.run?_cursors hfind ms, ?_, Reader.run_concat_next source ms⟩
    rw [Reader.after_eq]
    rfl

/-- A text with characters of two and of four bytes, and a bookmark after the first token, so that
the second one is yielded twice. -/
theorem cursors_along_text_restored :
    FindsRuns longestRun? ∧
    (ofString "é x1 == 𝒫").run? longestRun? [.next, .save, .next, .next, .restore, .next] =
      some ([.token ⟨.illegal, "é"⟩, .saved, .token ⟨.ident, "x"⟩, .token ⟨.int, "1"⟩, .restored,
        .token ⟨.ident, "x"⟩],
        ⟨Cursor.afterTokens "é x1 == 𝒫" 2, Cursor.afterTokens "é x1 == 𝒫" 1⟩) ∧
    (Cursor.afterTokens "é x1 == 𝒫" 2).InText "é x1 == 𝒫" ∧
    (Cursor.afterTokens "é x1 == 𝒫" 2).next? longestRun? =
      some (⟨.int, "1"⟩, Cursor.afterTokens "é x1 == 𝒫" 3) ∧
    (Cursor.afterTokens "é x1 == 𝒫" 2).offset < (Cursor.afterTokens "é x1 == 𝒫" 3).offset := by
  obtain ⟨-, hcursors, hmoves⟩ := cursors_along_text findsRuns_longestRun? "é x1 == 𝒫"
  obtain ⟨hrun, hplaces, -⟩ := hmoves [.next, .save, .next, .next, .restore, .next]
  obtain ⟨hplace, hnext, hlt⟩ := hcursors 2
  have hyields : (Reader.ofString "é x1 == 𝒫").run [.next, .save, .next, .next, .restore, .next] =
      [.token ⟨.illegal, "é"⟩, .saved, .token ⟨.ident, "x"⟩, .token ⟨.int, "1"⟩, .restored,
        .token ⟨.ident, "x"⟩] := by decide +kernel
  have hint : tokenAt "é x1 == 𝒫" 2 = ⟨.int, "1"⟩ := by decide +kernel
  rw [hint] at hnext hlt
  rw [hyields, hplaces] at hrun
  refine ⟨findsRuns_longestRun?, ?_, hplace, hnext, hlt (by decide)⟩
  simpa [Reader.reads] using hrun

end CursorReader

end FrontEnd
