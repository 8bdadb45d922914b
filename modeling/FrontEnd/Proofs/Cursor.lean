import FrontEnd.Proofs.Segments
import Mathlib.Data.String.Basic

/-!
# Cursors

A *cursor* is a place in a text that knows no more than a byte offset and the character there.
Whatever else it needs it slices out of the text by offsets, and a slice fails if an offset lies
past the end of the text or inside a character. A word or a number is found in one piece, by a
search for the longest run of the characters of a pattern.

A scanner keeps the characters ahead of it and never slices. As long as its offset and the
characters ahead of it belong to one place of its text, the cursor of the scanner reads the same
token and gets to the cursor of the scanner after it; in particular no slice fails on the way.

## Main definitions

* `FrontEnd.Text.slice?` — the stretch of a text between two byte offsets.
* `FrontEnd.Pattern`, `FrontEnd.FindsRuns` — the runs of characters that are searched for, and a
  search that finds them.
* `FrontEnd.Cursor`, `FrontEnd.Cursor.next?` — a byte offset and the character there; the token
  from there on.
* `FrontEnd.Scanner.cursor` — the cursor of a scanner.
* `FrontEnd.Scanner.Placed` — a scanner whose parts belong to one place of its text.

## Main results

* `FrontEnd.Text.slice?_eq_some_iff` — which slices there are.
* `FrontEnd.Scanner.Placed.next` — reading a token keeps the parts of a scanner together.
* `FrontEnd.Scanner.Placed.next?_cursor` — a scanner and its cursor read the same token.
-/

namespace FrontEnd

/-! ### Slices of a text -/

namespace Text

/-- The stretch of a text from the byte offset `start` up to the byte offset `stop`. There is none
if one of them lies past the end of the text or inside a character, or if `stop` comes first. -/
def slice? (text : String) (start stop : Nat) : Option String :=
  if h : (⟨start⟩ : String.Pos.Raw).IsValid text ∧ (⟨stop⟩ : String.Pos.Raw).IsValid text ∧
      start ≤ stop then
    some (text.slice (text.pos ⟨start⟩ h.1) (text.pos ⟨stop⟩ h.2.1) h.2.2).copy
  else
    none

theorem isValid_append (before after : String) :
    (⟨before.utf8ByteSize⟩ : String.Pos.Raw).IsValid (before ++ after) :=
  String.Pos.Raw.isValid_iff_exists_append.mpr ⟨before, after, rfl, rfl⟩

/-- A slice is a part of the text, and its offsets are the sizes of what comes before its ends. -/
theorem slice?_eq_some_iff {text part : String} {start stop : Nat} :
    slice? text start stop = some part ↔
      ∃ before after, text = before ++ part ++ after ∧ start = before.utf8ByteSize ∧
        stop = (before ++ part).utf8ByteSize := by
  constructor
  · intro h
    unfold slice? at h
    split at h
    next hvalid =>
      obtain ⟨before, after, hstart, hstop⟩ :=
        String.copy_slice_eq_iff_splits.mp ⟨hvalid.2.2, Option.some.inj h⟩
      exact ⟨before, after, hstop.eq_append,
        congrArg String.Pos.Raw.byteIdx hstart.offset_eq_rawEndPos,
        congrArg String.Pos.Raw.byteIdx hstop.offset_eq_rawEndPos⟩
    next => cases h
  · rintro ⟨before, after, rfl, rfl, rfl⟩
    have hassoc : before ++ part ++ after = before ++ (part ++ after) := String.append_assoc ..
    have hstart : (⟨before.utf8ByteSize⟩ : String.Pos.Raw).IsValid (before ++ part ++ after) :=
      hassoc ▸ isValid_append before (part ++ after)
    have hstop := isValid_append (before ++ part) after
    have hle : before.utf8ByteSize ≤ (before ++ part).utf8ByteSize := by simp
    obtain ⟨_, hcopy⟩ := String.copy_slice_eq_iff_splits.mpr ⟨before, after,
      (⟨hassoc, rfl⟩ : (String.pos _ _ hstart).Splits before (part ++ after)),
      (⟨rfl, rfl⟩ : (String.pos _ _ hstop).Splits (before ++ part) after)⟩
    rw [slice?, dif_pos ⟨hstart, hstop, hle⟩, hcopy]

end Text

@[simp]
theorem byteSize_nil : byteSize [] = 0 := rfl

@[simp]
theorem byteSize_cons (c : Char) (cs : List Char) :
    byteSize (c :: cs) = c.utf8Size + byteSize cs := rfl

theorem byteSize_eq_utf8Len (cs : List Char) : byteSize cs = String.utf8Len cs := by
  induction cs with
  | nil => rfl
  | cons c cs ih => rw [byteSize_cons, String.utf8Len_cons, ih, Nat.add_comm]

@[simp]
theorem byteSize_append (cs cs' : List Char) :
    byteSize (cs ++ cs') = byteSize cs + byteSize cs' := by
  simp only [byteSize_eq_utf8Len, String.utf8Len_append]

theorem utf8ByteSize_ofList (cs : List Char) : (String.ofList cs).utf8ByteSize = byteSize cs := by
  rw [String.utf8ByteSize_ofList, byteSize_eq_utf8Len]

theorem byteSize_pos {cs : List Char} (h : cs ≠ []) : 0 < byteSize cs := by
  obtain ⟨c, cs', rfl⟩ := List.exists_cons_of_ne_nil h
  exact Nat.add_pos_left c.utf8Size_pos _

theorem Text.slice?_ofList (before part after : List Char) :
    slice? (String.ofList (before ++ part ++ after)) (byteSize before) (byteSize (before ++ part)) =
      some (String.ofList part) := by
  refine slice?_eq_some_iff.mpr ⟨String.ofList before, String.ofList after, ?_, ?_, ?_⟩
  · rw [String.ofList_append, String.ofList_append]
  · rw [utf8ByteSize_ofList]
  · rw [← String.ofList_append, utf8ByteSize_ofList]

/-! ### Runs of characters -/

/-- What a text is searched for at its beginning. -/
inductive Pattern where
  /-- A run of ASCII letters and underscores. -/
  | word
  /-- A run of ASCII digits. -/
  | number
  deriving DecidableEq, Repr

namespace Pattern

/-- The characters of a run, by ranges to which both ends belong. -/
def ranges : Pattern → List (Char × Char)
  | word => [('a', 'z'), ('A', 'Z'), ('_', '_')]
  | number => [('0', '9')]

/-- Whether a character may stand in a run. -/
def covers (p : Pattern) (c : Char) : Bool :=
  p.ranges.any fun r => decide (r.1 ≤ c) && decide (c ≤ r.2)

theorem covers_word : word.covers = isLetter := by
  funext c
  have hunderscore : (decide ('_' ≤ c) && decide (c ≤ '_')) = (c == '_') := by
    rw [← Bool.decide_and, Bool.beq_eq_decide_eq]
    exact decide_eq_decide.mpr ⟨fun h => Char.le_antisymm h.2 h.1, fun h => h ▸ ⟨le_rfl, le_rfl⟩⟩
  have hupper : (decide ('A' ≤ c) && decide (c ≤ 'Z')) = c.isUpper := (Bool.decide_and ..).symm
  have hlower : (decide ('a' ≤ c) && decide (c ≤ 'z')) = c.isLower := rfl
  have halpha : c.isAlpha = (c.isUpper || c.isLower) := rfl
  simp only [covers, ranges, List.any_cons, List.any_nil, Bool.or_false, hunderscore, hupper,
    hlower, isLetter, halpha]
  rw [← Bool.or_assoc, Bool.or_comm c.isLower]

theorem covers_number : number.covers = isDigit := by
  funext c
  exact Bool.or_false _

/-- The longest beginning of a text that is not empty and whose characters may all stand in a
run. -/
def IsRun (p : Pattern) (text run : List Char) : Prop :=
  run ≠ [] ∧ (∀ c ∈ run, p.covers c = true) ∧
    ∃ rest, text = run ++ rest ∧ ∀ c ∈ rest.head?, ¬ p.covers c = true

theorem isRun_iff {p : Pattern} {text run : List Char} :
    p.IsRun text run ↔ run ≠ [] ∧ text.takeWhile p.covers = run := by
  constructor
  · rintro ⟨hne, hrun, rest, rfl, hrest⟩
    exact ⟨hne, (takeWhile_append_eq hrun hrest).1⟩
  · rintro ⟨hne, rfl⟩
    refine ⟨hne, fun c hc => List.mem_takeWhile_imp hc, text.dropWhile p.covers,
      List.takeWhile_append_dropWhile.symm, fun c hc => ?_⟩
    simp [not_of_mem_head?_dropWhile hc]

end Pattern

/-- A search *finds runs* if it gives the size in bytes of the run at the beginning of a text, and
nothing if there is no run. -/
def FindsRuns (find : Pattern → String → Option Nat) : Prop :=
  ∀ p text n, find p text = some n ↔ ∃ run, p.IsRun text.toList run ∧ n = byteSize run

theorem FindsRuns.getD_find {find : Pattern → String → Option Nat} (hfind : FindsRuns find)
    (p : Pattern) (text : String) :
    (find p text).getD 0 = byteSize (text.toList.takeWhile p.covers) := by
  cases hn : find p text with
  | some n =>
    obtain ⟨run, hrun, rfl⟩ := (hfind p text n).mp hn
    rw [(Pattern.isRun_iff.mp hrun).2]
    rfl
  | none =>
    have hrun : text.toList.takeWhile p.covers = [] := by
      by_contra hne
      have hsome := (hfind p text _).mpr ⟨_, Pattern.isRun_iff.mpr ⟨hne, rfl⟩, rfl⟩
      rw [hn] at hsome
      cases hsome
    rw [hrun]
    rfl

/-- The search that goes over the characters one by one. -/
def longestRun? (p : Pattern) (text : String) : Option Nat :=
  match text.toList.takeWhile p.covers with
  | [] => none
  | c :: cs => some (byteSize (c :: cs))

theorem findsRuns_longestRun? : FindsRuns longestRun? := by
  intro p text n
  simp only [Pattern.isRun_iff, longestRun?]
  cases hrun : text.toList.takeWhile p.covers with
  | nil => simp
  | cons c cs =>
    simp only [Option.some.injEq]
    constructor
    · rintro rfl
      exact ⟨c :: cs, ⟨List.cons_ne_nil c cs, rfl⟩, rfl⟩
    · rintro ⟨run, ⟨-, rfl⟩, rfl⟩
      rfl

/-! ### Cursors -/

/-- A byte offset in a text, and the character there. -/
structure Cursor where
  /-- The whole text. -/
  source : String
  /-- The number of bytes of the text before the place. -/
  offset : Nat
  /-- The character at the place, `none` at the end of the text. -/
  char? : Option Char
  deriving DecidableEq, Repr

namespace Cursor

/-- The beginning of a text. -/
def ofString (source : String) : Cursor :=
  ⟨source, 0, source.toList.head?⟩

/-- The text from a byte offset on. -/
def ahead? (c : Cursor) (offset : Nat) : Option String :=
  Text.slice? c.source offset c.source.utf8ByteSize

/-- The cursor at another byte offset, with the character that is found there. -/
def moveTo? (c : Cursor) (offset : Nat) : Option Cursor := do
  let text ← c.ahead? offset
  return { c with offset := offset, char? := text.toList.head? }

/-- The byte offset after the character at the place. At the end of the text it is the place. -/
def pastChar (c : Cursor) : Nat :=
  c.offset + c.char?.elim 0 Char.utf8Size

/-- The cursor after the character at the place. -/
def advance? (c : Cursor) : Option Cursor :=
  c.moveTo? c.pastChar

/-- The character after the one at the place, `none` at the end of the text. -/
def peek? (c : Cursor) : Option (Option Char) :=
  match c.char? with
  | none => some none
  | some _ => do
    let text ← c.ahead? c.pastChar
    return text.toList.head?

theorem of_moveTo?_eq_some {c c' : Cursor} {offset : Nat} (h : c.moveTo? offset = some c') :
    c'.source = c.source ∧ c'.offset = offset ∧ offset ≤ c.source.utf8ByteSize := by
  obtain ⟨text, htext, hc'⟩ := Option.bind_eq_some_iff.mp h
  obtain rfl := Option.some.inj hc'
  obtain ⟨before, after, -, hstart, hstop⟩ := Text.slice?_eq_some_iff.mp htext
  refine ⟨rfl, rfl, ?_⟩
  rw [hstop, hstart, String.utf8ByteSize_append]
  exact Nat.le_add_right _ _

/-- Past a blank there are fewer bytes to come. -/
theorem remaining_lt_of_advance? {c c' : Cursor} (hblank : c.char?.any isBlank = true)
    (h : c.advance? = some c') :
    c'.source.utf8ByteSize - c'.offset < c.source.utf8ByteSize - c.offset := by
  obtain ⟨ch, hch, -⟩ := (Option.any_eq_true ..).mp hblank
  obtain ⟨hsource, hoffset, hle⟩ := of_moveTo?_eq_some h
  have hpast : c.pastChar = c.offset + ch.utf8Size := by rw [pastChar, hch, Option.elim]
  have hpos := ch.utf8Size_pos
  rw [hsource]
  omega

/-- The first cursor from here on that is not at a blank. -/
def skipBlanks? (c : Cursor) : Option Cursor :=
  if _hblank : c.char?.any isBlank = true then
    match _h : c.advance? with
    | none => none
    | some c' => skipBlanks? c'
  else
    some c
termination_by c.source.utf8ByteSize - c.offset
decreasing_by exact remaining_lt_of_advance? _hblank _h

theorem skipBlanks?_of_not_blank {c : Cursor} (h : ¬ c.char?.any isBlank = true) :
    c.skipBlanks? = some c := by
  rw [skipBlanks?, dif_neg h]

theorem skipBlanks?_of_blank {c c' : Cursor} (hblank : c.char?.any isBlank = true)
    (h : c.advance? = some c') : c.skipBlanks? = c'.skipBlanks? := by
  rw [skipBlanks?, dif_pos hblank]
  split
  next hnone => exact absurd (h.symm.trans hnone) (by simp)
  next c'' hsome =>
    obtain rfl := Option.some.inj (h.symm.trans hsome)
    rfl

/-- A token of the character `first`, which takes a following `=` with it if there is one, and the
cursor at the last character of the token. -/
def withEqual? (c : Cursor) (first : Char) (single double : Kind) : Option (Token × Cursor) := do
  if (← c.peek?) = some '=' then
    let c ← c.advance?
    return (⟨double, (String.singleton first).push '='⟩, c)
  else
    return (⟨single, String.singleton first⟩, c)

/-- A token whose last character is at the place, with the cursor after it. -/
def endToken? (c : Cursor) (t : Token) : Option (Token × Cursor) := do
  let c ← c.advance?
  return (t, c)

section

variable (find : Pattern → String → Option Nat)

/-- The run that is found at the place, and the cursor after it. -/
def run? (c : Cursor) (p : Pattern) : Option (String × Cursor) := do
  let text ← c.ahead? c.offset
  let stop := c.offset + (find p text).getD 0
  let literal ← Text.slice? c.source c.offset stop
  let c ← c.moveTo? stop
  return (literal, c)

/-- The token that starts with the character `ch`, which is no blank, at the place, and the cursor
after it. -/
def token? (c : Cursor) (ch : Char) : Option (Token × Cursor) :=
  if ch = '=' then do
    let (t, c) ← c.withEqual? ch .assign .eq
    c.endToken? t
  else if ch = '!' then do
    let (t, c) ← c.withEqual? ch .bang .notEq
    c.endToken? t
  else match Kind.ofMark? ch with
    | some k => c.endToken? ⟨k, String.singleton ch⟩
    | none =>
      if isLetter ch then do
        let (literal, c) ← c.run? find .word
        return (⟨Kind.ofWord literal, literal⟩, c)
      else if isDigit ch then do
        let (literal, c) ← c.run? find .number
        return (⟨.int, literal⟩, c)
      else
        c.endToken? ⟨.illegal, String.singleton ch⟩

/-- The next token from the place on, and the cursor after it. At the end of the text the token is
the end token and the cursor stays. -/
def next? (c : Cursor) : Option (Token × Cursor) := do
  let c ← c.skipBlanks?
  match c.char? with
  | none => return (Token.eof, c)
  | some ch => c.token? find ch

end

end Cursor

/-! ### Scanners and their cursors -/

namespace Scanner

/-- The cursor at the place of a scanner. -/
def cursor (s : Scanner) : Cursor :=
  ⟨s.source, s.offset, s.char?⟩

/-- The offset of a scanner and the characters ahead of it belong to one place of its text. -/
def Placed (s : Scanner) : Prop :=
  ∃ before, s.source = String.ofList (before ++ s.rest) ∧ s.offset = byteSize before

/-- The token of a lexeme at the place of a scanner, and the cursor after it. -/
def reading (s : Scanner) (l : Lexeme) : Token × Cursor :=
  (l.token, (s.moveTo l.chars l.rest).cursor)

theorem pastChar_cursor {s : Scanner} {c : Char} {rest : List Char} (hrest : s.rest = c :: rest) :
    s.cursor.pastChar = s.offset + byteSize [c] := by
  simp [Cursor.pastChar, cursor, char?, hrest]

theorem moveTo_moveTo (s : Scanner) (cs cs' rest rest' : List Char) :
    (s.moveTo cs rest).moveTo cs' rest' = s.moveTo (cs ++ cs') rest' := by
  simp [moveTo, Nat.add_assoc]

theorem skipBlanks_eq_self {s : Scanner} (h : ¬ s.char?.any isBlank = true) : s.skipBlanks = s := by
  have hrest : ∀ c ∈ s.rest.head?, ¬ isBlank c = true :=
    fun c hc hblank => h ((Option.any_eq_true ..).mpr ⟨c, hc, hblank⟩)
  obtain ⟨htake, hdrop⟩ := takeWhile_append_eq (List.forall_mem_nil _) hrest
  rw [List.nil_append] at htake hdrop
  rw [skipBlanks, htake, hdrop]
  rfl

theorem skipBlanks?_cursor_of_not_blank {s : Scanner} (h : ¬ s.char?.any isBlank = true) :
    s.cursor.skipBlanks? = some s.skipBlanks.cursor := by
  rw [skipBlanks_eq_self h]
  exact Cursor.skipBlanks?_of_not_blank h

theorem next_of_nil {s : Scanner} (h : s.skipBlanks.rest = []) :
    s.next = (Token.eof, s.skipBlanks) := by
  have hlexeme : s.skipBlanks.lexeme? = none := by rw [lexeme?, h]
  simp only [next, hlexeme]

theorem next_of_cons {s : Scanner} {c : Char} {cs : List Char} (h : s.skipBlanks.rest = c :: cs) :
    s.next = ((Lexeme.cut c cs).token,
      s.skipBlanks.moveTo (Lexeme.cut c cs).chars (Lexeme.cut c cs).rest) := by
  have hlexeme : s.skipBlanks.lexeme? = some (Lexeme.cut c cs) := by rw [lexeme?, h]
  simp only [next, hlexeme]

theorem placed_ofString (source : String) : (ofString source).Placed :=
  ⟨[], by simp [ofString], rfl⟩

namespace Placed

variable {s : Scanner} {c : Char} {cs rest : List Char}

theorem moveTo (h : s.Placed) (hrest : s.rest = cs ++ rest) : (s.moveTo cs rest).Placed := by
  obtain ⟨before, hsource, hoffset⟩ := h
  rw [hrest, ← List.append_assoc] at hsource
  refine ⟨before ++ cs, hsource, ?_⟩
  rw [byteSize_append, ← hoffset]
  rfl

theorem skipBlanks (h : s.Placed) : s.skipBlanks.Placed :=
  h.moveTo List.takeWhile_append_dropWhile.symm

/-- Reading a token keeps the parts of a scanner together. -/
theorem next (h : s.Placed) : s.next.2.Placed := by
  cases hrest : s.skipBlanks.rest with
  | nil =>
    rw [next_of_nil hrest]
    exact h.skipBlanks
  | cons c cs =>
    rw [next_of_cons hrest]
    exact h.skipBlanks.moveTo (hrest.trans (Lexeme.chars_append_rest_cut c cs).symm)

/-! The readings of the cursor of a scanner, one by one. -/

theorem slice?_source (h : s.Placed) (hrest : s.rest = cs ++ rest) :
    Text.slice? s.source s.offset (s.offset + byteSize cs) = some (String.ofList cs) := by
  obtain ⟨before, hsource, hoffset⟩ := h
  have hslice := Text.slice?_ofList before cs rest
  rwa [List.append_assoc, ← hrest, ← hsource, byteSize_append, ← hoffset] at hslice

theorem ahead?_cursor (h : s.Placed) (hrest : s.rest = cs ++ rest) :
    s.cursor.ahead? (s.offset + byteSize cs) = some (String.ofList rest) := by
  obtain ⟨before, hsource, hoffset⟩ := h
  have hslice := Text.slice?_ofList (before ++ cs) rest []
  rwa [List.append_nil, List.append_assoc, ← hrest, ← utf8ByteSize_ofList (before ++ s.rest),
    ← hsource, byteSize_append, ← hoffset] at hslice

theorem moveTo?_cursor (h : s.Placed) (hrest : s.rest = cs ++ rest) :
    s.cursor.moveTo? (s.offset + byteSize cs) = some (s.moveTo cs rest).cursor := by
  rw [Cursor.moveTo?, h.ahead?_cursor hrest]
  simp [cursor, Scanner.moveTo, char?]

theorem advance?_cursor (h : s.Placed) (hrest : s.rest = c :: rest) :
    s.cursor.advance? = some (s.moveTo [c] rest).cursor := by
  rw [Cursor.advance?, pastChar_cursor hrest]
  exact h.moveTo?_cursor hrest

theorem peek?_cursor (h : s.Placed) (hrest : s.rest = c :: rest) :
    s.cursor.peek? = some rest.head? := by
  have hchar : s.cursor.char? = some c := congrArg List.head? hrest
  have hahead : s.cursor.ahead? (s.offset + byteSize [c]) = some (String.ofList rest) :=
    h.ahead?_cursor hrest
  simp only [Cursor.peek?, hchar, pastChar_cursor hrest, hahead]
  simp

/-- The cursor goes past the same blanks. -/
theorem skipBlanks?_cursor (h : s.Placed) : s.cursor.skipBlanks? = some s.skipBlanks.cursor := by
  -- The characters ahead are named, so that the scanner can move past them in the induction.
  generalize hcs : s.rest = cs
  induction cs generalizing s with
  | nil => exact skipBlanks?_cursor_of_not_blank (by simp [char?, hcs])
  | cons c cs ih =>
    by_cases hc : isBlank c = true
    · have hblank : s.char?.any isBlank = true := by simp [char?, hcs, hc]
      have hskip : (s.moveTo [c] cs).skipBlanks = s.skipBlanks := by
        rw [Scanner.skipBlanks, moveTo_moveTo, Scanner.skipBlanks, hcs,
          List.takeWhile_cons_of_pos hc, List.dropWhile_cons_of_pos hc]
        rfl
      calc s.cursor.skipBlanks? = (s.moveTo [c] cs).cursor.skipBlanks? :=
            Cursor.skipBlanks?_of_blank hblank (h.advance?_cursor hcs)
        _ = some (s.moveTo [c] cs).skipBlanks.cursor := ih (h.moveTo hcs) rfl
        _ = some s.skipBlanks.cursor := by rw [hskip]
    · exact skipBlanks?_cursor_of_not_blank (by simp [char?, hcs, hc])

theorem endToken?_cursor (h : s.Placed) (hrest : s.rest = c :: rest) (t : Token) :
    s.cursor.endToken? t = some (t, (s.moveTo [c] rest).cursor) := by
  rw [Cursor.endToken?, h.advance?_cursor hrest]
  rfl

theorem mark_cursor (h : s.Placed) (hrest : s.rest = c :: rest) (k : Kind) :
    s.cursor.endToken? ⟨k, String.singleton c⟩ = some (s.reading ⟨k, [c], rest⟩) := by
  rw [h.endToken?_cursor hrest, reading, Lexeme.token, String.singleton_eq_ofList]

theorem withEqual?_cursor (h : s.Placed) (hrest : s.rest = c :: rest) (single double : Kind) :
    ((s.cursor.withEqual? c single double).bind fun r => r.2.endToken? r.1) =
      some (s.reading (Lexeme.withEqual c single double rest)) := by
  by_cases hequal : rest.head? = some '='
  · obtain ⟨rest, rfl⟩ := List.head?_eq_some_iff.mp hequal
    have hliteral : (String.singleton c).push '=' = String.ofList [c, '='] := by
      rw [← String.toList_inj]
      simp
    have hmoved : (s.moveTo [c] ('=' :: rest)).Placed := h.moveTo hrest
    have hread : s.cursor.withEqual? c single double =
        some (⟨double, String.ofList [c, '=']⟩, (s.moveTo [c] ('=' :: rest)).cursor) := by
      simp [Cursor.withEqual?, h.peek?_cursor hrest, h.advance?_cursor hrest, hliteral]
    rw [hread, Option.bind_some, hmoved.endToken?_cursor rfl, moveTo_moveTo]
    rfl
  · have hread : s.cursor.withEqual? c single double =
        some (⟨single, String.singleton c⟩, s.cursor) := by
      simp [Cursor.withEqual?, h.peek?_cursor hrest, hequal]
    rw [hread, Option.bind_some, h.mark_cursor hrest, withEqual_of_head?_ne hequal]

section

variable {find : Pattern → String → Option Nat}

theorem run?_cursor (h : s.Placed) (hfind : FindsRuns find) (p : Pattern) :
    s.cursor.run? find p =
      some (String.ofList (s.rest.takeWhile p.covers),
        (s.moveTo (s.rest.takeWhile p.covers) (s.rest.dropWhile p.covers)).cursor) := by
  generalize hrun : s.rest.takeWhile p.covers = run
  have hrest : s.rest = run ++ s.rest.dropWhile p.covers := by
    rw [← hrun, List.takeWhile_append_dropWhile]
  have hahead : s.cursor.ahead? s.cursor.offset = some (String.ofList s.rest) :=
    h.ahead?_cursor (List.nil_append _).symm
  have hsize : (find p (String.ofList s.rest)).getD 0 = byteSize run := by
    rw [hfind.getD_find, String.toList_ofList, hrun]
  have hslice : Text.slice? s.cursor.source s.cursor.offset (s.cursor.offset + byteSize run) =
      some (String.ofList run) := h.slice?_source hrest
  have hmove : s.cursor.moveTo? (s.cursor.offset + byteSize run) =
      some (s.moveTo run (s.rest.dropWhile p.covers)).cursor := h.moveTo?_cursor hrest
  simp [Cursor.run?, hahead, hsize, hslice, hmove]

theorem token?_cursor (h : s.Placed) (hfind : FindsRuns find) (hrest : s.rest = c :: rest) :
    s.cursor.token? find c = some (s.reading (Lexeme.cut c rest)) := by
  unfold Cursor.token? Lexeme.cut
  by_cases hassign : c = '='
  · rw [if_pos hassign, if_pos hassign]
    exact h.withEqual?_cursor hrest _ _
  rw [if_neg hassign, if_neg hassign]
  by_cases hbang : c = '!'
  · rw [if_pos hbang, if_pos hbang]
    exact h.withEqual?_cursor hrest _ _
  rw [if_neg hbang, if_neg hbang]
  cases Kind.ofMark? c with
  | some k => exact h.mark_cursor hrest k
  | none =>
    by_cases hletter : isLetter c = true
    · simp only [if_pos hletter, h.run?_cursor hfind, Pattern.covers_word, hrest,
        List.takeWhile_cons_of_pos hletter, List.dropWhile_cons_of_pos hletter]
      rfl
    by_cases hdigit : isDigit c = true
    · simp only [if_neg hletter, if_pos hdigit, h.run?_cursor hfind, Pattern.covers_number, hrest,
        List.takeWhile_cons_of_pos hdigit, List.dropWhile_cons_of_pos hdigit]
      rfl
    · simp only [if_neg hletter, if_neg hdigit]
      exact h.mark_cursor hrest .illegal

/-- **A scanner and its cursor read the same token.** The cursor gets to the cursor of the scanner
after the token, and no slice fails. -/
theorem next?_cursor (h : s.Placed) (hfind : FindsRuns find) :
    s.cursor.next? find = some (s.next.1, s.next.2.cursor) := by
  rw [Cursor.next?, h.skipBlanks?_cursor]
  cases hrest : s.skipBlanks.rest with
  | nil =>
    have hchar : s.skipBlanks.cursor.char? = none := congrArg List.head? hrest
    simp [hchar, next_of_nil hrest]
  | cons c rest =>
    have hchar : s.skipBlanks.cursor.char? = some c := congrArg List.head? hrest
    simp [hchar, next_of_cons hrest, h.skipBlanks.token?_cursor hfind hrest, reading]

end

end Placed

end Scanner

end FrontEnd
