import FrontEnd.Proofs.Lexing
import Mathlib.Data.List.Chain

/-!
# Cutting a text into tokens and blanks

A text can be written as tokens with blanks around them. Blanks are free where they are not needed,
but two tokens with nothing between them may *glue*, and would then be read in another way: two
words make one word, two numbers make one number, and `=` or `!` takes a following `=` with it. A
*segmentation* without glued neighbours is what is meant by always taking the longest token. Every
text has exactly one, and the tokens of the text are those of this segmentation.

The tokens that may stand in a segmentation are described by their literals alone, with no regard to
how they are found.

## Main definitions

* `FrontEnd.Token.WellFormed` — the tokens that can be written down.
* `FrontEnd.Token.Glues` — two tokens that need a blank between them.
* `FrontEnd.Segmentation`, `FrontEnd.Segmentation.IsMaximal` — tokens with blanks around them, and
  those without glued neighbours.

## Main results

* `FrontEnd.Token.WellFormed.genuine`, `FrontEnd.Token.Genuine.wellFormed` — the tokens that can be
  written down are those that are found in texts.
* `FrontEnd.Segmentation.IsMaximal.lex_chars` — the tokens of a segmentation without glued
  neighbours are found in its text.
* `FrontEnd.tokenize_eq_maximal` — every text has exactly one such segmentation.
-/

namespace FrontEnd

/-! ### Tokens that can be written down -/

/-- The token can be written down: it has the literal of its kind, or it is a name, a number, or a
single character that has no other use. -/
inductive Token.WellFormed : Token → Prop
  | fixed {k : Kind} {w : String} (hspelling : k.spelling? = some w) : WellFormed ⟨k, w⟩
  | name {w : String} (hne : w ≠ "") (hletters : ∀ c ∈ w.toList, isLetter c = true)
      (hfree : ∀ k : Kind, k.spelling? ≠ some w) : WellFormed ⟨.ident, w⟩
  | number {w : String} (hne : w ≠ "") (hdigits : ∀ c ∈ w.toList, isDigit c = true) :
      WellFormed ⟨.int, w⟩
  | illegal {c : Char} (hblank : isBlank c = false) (hletter : isLetter c = false)
      (hdigit : isDigit c = false) (hfree : ∀ k : Kind, k.spelling? ≠ some (String.singleton c)) :
      WellFormed ⟨.illegal, String.singleton c⟩

theorem Kind.spelling?_of_ofMark? {c : Char} {k : Kind} (h : Kind.ofMark? c = some k) :
    k.spelling? = some (String.singleton c) := by
  unfold Kind.ofMark? at h
  split at h <;> cases h <;> rfl

theorem Kind.spelling?_of_mem_keywords {w : String} {k : Kind} (h : (w, k) ∈ Kind.keywords) :
    k.spelling? = some w := by
  have hkeywords : ∀ p ∈ Kind.keywords, p.2.spelling? = some p.1 := by decide
  exact hkeywords (w, k) h

/-- A word that is the literal of no kind is a name. -/
theorem Kind.ofWord_of_free {w : String} (hfree : ∀ k : Kind, k.spelling? ≠ some w) :
    Kind.ofWord w = .ident := by
  rcases Kind.ofWord_eq w with hk | hk
  · exact hk
  · exact absurd (Kind.spelling?_of_mem_keywords hk) (hfree _)

theorem Token.WellFormed.genuine {t : Token} (h : t.WellFormed) : t.Genuine := by
  cases h with
  | @fixed k w hspelling =>
    have ht : (⟨k, w⟩ : Token) = .ofKind k := by rw [Token.ofKind, hspelling, Option.getD_some]
    rw [ht]
    exact Token.genuine_ofKind (by rw [hspelling]; rfl)
  | name hne hletters hfree =>
    have hlexeme := isLexeme_ofWord hne hletters
    rwa [Kind.ofWord_of_free hfree] at hlexeme
  | @number w hne hdigits =>
    unfold Token.Genuine
    cases hcs : w.toList with
    | nil => exact absurd (by simpa using hcs) hne
    | cons c cs =>
      rw [hcs] at hdigits
      exact .number (hdigits c (by simp)) fun c' hc' => hdigits c' (by simp [hc'])
  | @illegal c hblank hletter hdigit hfree =>
    have hmark : Kind.ofMark? c = none := by
      cases hmark : Kind.ofMark? c with
      | none => rfl
      | some k => exact absurd (Kind.spelling?_of_ofMark? hmark) (hfree k)
    have hassign : c ≠ '=' := by
      rintro rfl
      exact hfree .assign rfl
    have hbang : c ≠ '!' := by
      rintro rfl
      exact hfree .bang rfl
    unfold Token.Genuine
    rw [String.toList_singleton]
    exact .illegal hassign hbang hmark hletter hdigit hblank

/-- A stretch of characters is a token of one kind only. -/
theorem IsLexeme.kind_unique {k k' : Kind} {cs : List Char} (h : IsLexeme k cs)
    (h' : IsLexeme k' cs) : k = k' := by
  cases cs with
  | nil => exact absurd rfl h.ne_nil
  | cons c cs =>
    have hcut : Lexeme.cut c (cs ++ []) = ⟨k, c :: cs, []⟩ := h.cut_append (by simp)
    have hcut' : Lexeme.cut c (cs ++ []) = ⟨k', c :: cs, []⟩ := h'.cut_append (by simp)
    exact congrArg Lexeme.kind (hcut.symm.trans hcut')

/-- A literal without a kind of its own is the literal of no other kind. -/
theorem IsLexeme.spelling?_ne {k : Kind} {w : String} (h : IsLexeme k w.toList)
    (hk : k.spelling? = none) (k' : Kind) : k'.spelling? ≠ some w := by
  intro hk'
  have hgenuine : IsLexeme k' w.toList := Token.WellFormed.genuine (.fixed hk')
  rw [h.kind_unique hgenuine, hk'] at hk
  cases hk

theorem Token.Genuine.wellFormed {t : Token} (h : t.Genuine) : t.WellFormed := by
  obtain ⟨k, w⟩ := t
  change IsLexeme k w.toList at h
  cases hspelling : k.spelling? with
  | some w' =>
    obtain rfl : w = w' := by simpa using h.ofList_eq hspelling
    exact .fixed hspelling
  | none =>
    have hfree := h.spelling?_ne hspelling
    generalize hcs : w.toList = cs at h
    obtain rfl : String.ofList cs = w := by rw [← hcs, String.ofList_toList]
    cases h with
    | mark hmark =>
      rw [Kind.spelling?_of_ofMark? hmark] at hspelling
      cases hspelling
    | assign | eq | bang | notEq => cases hspelling
    | @word c cs hc hcs' =>
      rw [Kind.ofWord_of_free hfree]
      refine .name (by simp) (fun c' hc' => ?_) hfree
      rw [hcs, List.mem_cons] at hc'
      rcases hc' with rfl | hc'
      · exact hc
      · exact hcs' c' hc'
    | @number c cs hc hcs' =>
      refine .number (by simp) fun c' hc' => ?_
      rw [hcs, List.mem_cons] at hc'
      rcases hc' with rfl | hc'
      · exact hc
      · exact hcs' c' hc'
    | @illegal c _ _ _ hletter hdigit hblank =>
      exact .illegal hblank hletter hdigit hfree

/-! ### Glued tokens -/

/-- The tokens need a blank between them: both are words, both are numbers, or the first one would
take the `=` with it that the second one begins with. -/
def Token.Glues (t u : Token) : Prop :=
  (t.kind.isWord = true ∧ u.kind.isWord = true) ∨ (t.kind = .int ∧ u.kind = .int) ∨
    ((t.kind = .assign ∨ t.kind = .bang) ∧ u.literal.toList.head? = some '=')

/-- A word takes letters with it. -/
theorem Kind.takes_iff_of_isWord {k : Kind} (hk : k.isWord = true) (c : Char) :
    k.Takes c ↔ isLetter c = true := by
  have hother : k ≠ .int ∧ k ≠ .assign ∧ k ≠ .bang := by
    refine ⟨?_, ?_, ?_⟩ <;> rintro rfl <;> exact absurd hk (by decide)
  simp [Kind.Takes, hk, hother]

/-- A number takes digits with it. -/
theorem Kind.takes_int_iff (c : Char) : Kind.int.Takes c ↔ isDigit c = true := by
  simp [Kind.Takes, Kind.isWord, Kind.keywords]

/-- A mark takes no character with it. -/
theorem Kind.not_takes_of_ofMark? {c : Char} {k : Kind} (h : Kind.ofMark? c = some k) (c' : Char) :
    ¬ k.Takes c' := by
  have hmark : k.isWord = false ∧ k ≠ .int ∧ k ≠ .assign ∧ k ≠ .bang := by
    unfold Kind.ofMark? at h
    split at h <;> cases h <;> decide
  obtain ⟨hword, hint, hassign, hbang⟩ := hmark
  simp [Kind.Takes, hword, hint, hassign, hbang]

/-- The first character tells words and numbers from other tokens. -/
theorem IsLexeme.isWord_iff {k : Kind} {c : Char} {cs : List Char} (h : IsLexeme k (c :: cs)) :
    (k.isWord = true ↔ isLetter c = true) ∧ (k = .int ↔ isDigit c = true) := by
  generalize hchars : c :: cs = chars at h
  cases h with
  | mark hmark =>
    obtain ⟨rfl, rfl⟩ := List.cons.inj hchars
    have hletter : isLetter c ≠ true := fun hl => by
      rw [Kind.ofMark?_of_isLetter hl] at hmark
      cases hmark
    have hdigit : isDigit c ≠ true := fun hd => by
      rw [Kind.ofMark?_of_isDigit hd] at hmark
      cases hmark
    have hk : k.isWord = false ∧ k ≠ .int := by
      unfold Kind.ofMark? at hmark
      split at hmark <;> cases hmark <;> decide
    simp [hk, hletter, hdigit]
  | assign | eq | bang | notEq =>
    obtain ⟨rfl, rfl⟩ := List.cons.inj hchars
    decide
  | word hc hcs =>
    obtain ⟨rfl, rfl⟩ := List.cons.inj hchars
    have hword := Kind.isWord_ofWord (String.ofList (c :: cs))
    have hdigit : isDigit c ≠ true := fun hd => by
      rw [isLetter_eq_false_of_isDigit hd] at hc
      cases hc
    refine ⟨iff_of_true hword hc, ⟨fun hk => ?_, fun hd => absurd hd hdigit⟩⟩
    rw [hk] at hword
    cases hword
  | number hc hcs =>
    obtain ⟨rfl, rfl⟩ := List.cons.inj hchars
    simp [hc, isLetter_eq_false_of_isDigit hc, Kind.isWord, Kind.keywords]
  | illegal _ _ _ hletter hdigit =>
    obtain ⟨rfl, rfl⟩ := List.cons.inj hchars
    simp [hletter, hdigit, Kind.isWord, Kind.keywords]

/-- Two tokens glue if the first one takes the first character of the second one with it. -/
theorem Token.Genuine.glues_iff {t u : Token} (hu : u.Genuine) :
    t.Glues u ↔ ∃ c ∈ u.literal.toList.head?, t.kind.Takes c := by
  unfold Token.Genuine at hu
  unfold Token.Glues
  cases hcs : u.literal.toList with
  | nil => exact absurd hcs hu.ne_nil
  | cons c cs =>
    rw [hcs] at hu
    obtain ⟨hword, hint⟩ := hu.isWord_iff
    simp [Kind.Takes, hword, hint]

theorem not_of_mem_head?_dropWhile {p : Char → Bool} {cs : List Char} {c : Char}
    (hc : c ∈ (cs.dropWhile p).head?) : p c = false := by
  have h := List.head?_dropWhile_not p cs
  rw [Option.mem_def.mp hc] at h
  simpa using h

/-- What takes at most a following `=` with it has done so. -/
theorem Lexeme.not_takes_withEqual (c : Char) {single double : Kind} (cs : List Char)
    (hsingle : single.isWord = false ∧ single ≠ .int) (hdouble : ∀ c', ¬ double.Takes c') :
    ∀ c' ∈ (withEqual c single double cs).rest.head?,
      ¬ (withEqual c single double cs).kind.Takes c' := by
  by_cases hcs : cs.head? = some '='
  · obtain ⟨cs, rfl⟩ := List.head?_eq_some_iff.mp hcs
    exact fun c' _ => hdouble c'
  · rw [withEqual_of_head?_ne hcs]
    rintro c' hc' (⟨hword, -⟩ | ⟨hint, -⟩ | ⟨-, rfl⟩)
    · exact absurd hword (by simp [hsingle.1])
    · exact hsingle.2 hint
    · exact hcs hc'

/-- A lexeme takes every character with it that it can. -/
theorem Lexeme.not_takes_cut (c : Char) (cs : List Char) :
    ∀ c' ∈ (cut c cs).rest.head?, ¬ (cut c cs).kind.Takes c' := by
  have hfixed (k : Kind) (hk : k = .eq ∨ k = .notEq ∨ k = .illegal) (c' : Char) :
      ¬ k.Takes c' := by
    rcases hk with rfl | rfl | rfl <;> simp [Kind.Takes, Kind.isWord, Kind.keywords]
  unfold cut
  split
  · exact not_takes_withEqual c cs (by decide) (hfixed .eq (.inl rfl))
  · split
    · exact not_takes_withEqual c cs (by decide) (hfixed .notEq (.inr (.inl rfl)))
    · split
      next hmark => exact fun c' _ => Kind.not_takes_of_ofMark? hmark c'
      next =>
        split
        · intro c' hc'
          have hword : (word c cs).kind.isWord = true := Kind.isWord_ofWord _
          rw [Kind.takes_iff_of_isWord hword, not_of_mem_head?_dropWhile hc']
          exact Bool.false_ne_true
        · split
          · intro c' hc'
            rw [number, Kind.takes_int_iff, not_of_mem_head?_dropWhile hc']
            exact Bool.false_ne_true
          · exact fun c' _ => hfixed .illegal (.inr (.inr rfl)) c'

/-! ### Segmentations -/

/-- A text as tokens with blanks around them. -/
structure Segmentation where
  /-- The characters before the first token. -/
  lead : List Char
  /-- The tokens, each with the characters between it and the next one. -/
  pieces : List (Token × List Char)
  deriving DecidableEq

namespace Segmentation

/-- The tokens of a segmentation. -/
def tokens (d : Segmentation) : List Token :=
  d.pieces.map Prod.fst

/-- The characters of the text. -/
def chars (d : Segmentation) : List Char :=
  d.lead ++ d.pieces.flatMap fun p => p.1.literal.toList ++ p.2

/-- The segmentation consists of tokens that can be written down and of blanks, and no two tokens
with nothing between them glue. -/
structure IsMaximal (d : Segmentation) : Prop where
  /-- There are only blanks before the first token. -/
  blank_lead : ∀ c ∈ d.lead, isBlank c = true
  /-- The tokens can be written down. -/
  wellFormed : ∀ p ∈ d.pieces, p.1.WellFormed
  /-- There are only blanks after each token. -/
  blank : ∀ p ∈ d.pieces, ∀ c ∈ p.2, isBlank c = true
  /-- Tokens that glue have a blank between them. -/
  apart : d.pieces.IsChain fun p q => p.2 = [] → ¬ p.1.Glues q.1

end Segmentation

/-! ### The tokens of a segmentation are found -/

theorem lex_append_of_isBlank {ws : List Char} (hws : ∀ c ∈ ws, isBlank c = true)
    (cs : List Char) : lex (ws ++ cs) = lex cs := by
  induction ws with
  | nil => rfl
  | cons c ws ih =>
    have hws' : ∀ c' ∈ ws, isBlank c' = true := fun c' hc' => hws c' (by simp [hc'])
    rw [List.cons_append, lex_cons_of_isBlank (hws c (by simp)), ih hws']

/-- The tokens of a text are found whatever comes after it, as long as the last one does not take
the character after the text with it. -/
theorem lex_append_of_not_takes {as bs : List Char}
    (h : ∀ t ∈ (lex as).getLast?, ∀ c ∈ bs.head?, ¬ t.kind.Takes c) :
    lex (as ++ bs) = lex as ++ lex bs := by
  induction as using lex_induction with
  | nil => rw [List.nil_append, lex_nil, List.nil_append]
  | blank a as ha ih =>
    rw [lex_cons_of_isBlank ha] at h
    rw [List.cons_append, lex_cons_of_isBlank ha, lex_cons_of_isBlank ha, ih h]
  | lexeme a as ha ih =>
    let l := Lexeme.cut a as
    have hgenuine : l.token.Genuine := Lexeme.genuine_token_cut ha as
    have hchars : a :: as = l.token.literal.toList ++ l.rest := by
      simpa [l, Lexeme.token] using (Lexeme.chars_append_rest_cut a as).symm
    -- The last token is the first one if no other one comes after it.
    have hlast : ∀ c ∈ bs.head?, ¬ ((lex l.rest).getLast?.getD l.token).kind.Takes c := by
      rw [lex_cons_of_not_isBlank ha, List.getLast?_cons] at h
      exact h _ rfl
    have hrest : ∀ c ∈ (l.rest ++ bs).head?, ¬ l.token.kind.Takes c := by
      intro c hc
      cases hl : l.rest with
      | nil => simpa [hl] using hlast c (by simpa [hl] using hc)
      | cons b cs => exact Lexeme.not_takes_cut a as c (by simpa [l, hl] using hc)
    have hlater : ∀ t ∈ (lex l.rest).getLast?, ∀ c ∈ bs.head?, ¬ t.kind.Takes c := by
      intro t ht
      simpa [Option.mem_def.mp ht] using hlast
    calc lex (a :: as ++ bs)
      _ = lex (l.token.literal.toList ++ (l.rest ++ bs)) := by rw [hchars, List.append_assoc]
      _ = l.token :: (lex l.rest ++ lex bs) := by rw [lex_append hgenuine hrest, ih hlater]
      _ = lex (a :: as) ++ lex bs := by rw [lex_cons_of_not_isBlank ha, List.cons_append]

/-- No token reaches over a blank. -/
theorem lex_append_cons_of_isBlank {c : Char} (hc : isBlank c = true) (as bs : List Char) :
    lex (as ++ c :: bs) = lex as ++ lex bs := by
  rw [lex_append_of_not_takes, lex_cons_of_isBlank hc]
  intro t _ c' hc'
  obtain rfl : c = c' := by simpa using hc'
  exact Kind.not_takes_of_isBlank hc _

namespace Segmentation

variable {d d' : Segmentation}

/-- The first piece and the rest of them, with the characters after the first token in front. -/
theorem IsMaximal.tail {p : Token × List Char} {ps : List (Token × List Char)}
    (h : d.IsMaximal) (hd : d.pieces = p :: ps) : IsMaximal ⟨p.2, ps⟩ where
  blank_lead := h.blank p (by simp [hd])
  wellFormed q hq := h.wellFormed q (by simp [hd, hq])
  blank q hq := h.blank q (by simp [hd, hq])
  apart := by
    have hapart := h.apart
    rw [hd] at hapart
    exact hapart.tail

/-- What comes after a token is not taken with it. -/
theorem IsMaximal.not_takes {p : Token × List Char} {ps : List (Token × List Char)}
    (h : d.IsMaximal) (hd : d.pieces = p :: ps) :
    ∀ c ∈ (chars ⟨p.2, ps⟩).head?, ¬ p.1.kind.Takes c := by
  intro c hc
  have hapart := h.apart
  rw [hd, List.isChain_cons] at hapart
  cases hws : p.2 with
  | cons b ws =>
    obtain rfl : b = c := by simpa [chars, hws] using hc
    exact Kind.not_takes_of_isBlank (h.blank p (by simp [hd]) b (by simp [hws])) _
  | nil =>
    -- Without blanks in between, the next character is the first one of the next token.
    cases ps with
    | nil => exact absurd hc (by simp [chars, hws])
    | cons q qs =>
      have hq : q.1.Genuine := (h.wellFormed q (by simp [hd])).genuine
      intro htakes
      refine hapart.1 q (by simp) hws (hq.glues_iff.mpr ⟨c, ?_, htakes⟩)
      have hne := hq.ne_nil
      cases hcs : q.1.literal.toList with
      | nil => exact absurd hcs hne
      | cons b cs => simpa [chars, hws, hcs] using hc

/-- **The tokens of a segmentation without glued neighbours are found in its text.** -/
theorem IsMaximal.lex_chars (h : d.IsMaximal) : lex d.chars = d.tokens := by
  obtain ⟨lead, pieces⟩ := d
  induction pieces generalizing lead with
  | nil => simpa [chars, tokens] using lex_append_of_isBlank h.blank_lead []
  | cons p ps ih =>
    have hp : p.1.Genuine := (h.wellFormed p (by simp)).genuine
    calc lex (chars ⟨lead, p :: ps⟩)
      _ = lex (lead ++ (p.1.literal.toList ++ chars ⟨p.2, ps⟩)) := by simp [chars]
      _ = lex (p.1.literal.toList ++ chars ⟨p.2, ps⟩) := lex_append_of_isBlank h.blank_lead _
      _ = p.1 :: lex (chars ⟨p.2, ps⟩) := lex_append hp (h.not_takes rfl)
      _ = tokens ⟨lead, p :: ps⟩ := by rw [ih p.2 (h.tail rfl)]; rfl

/-- The blanks between the tokens are seen from the text. -/
theorem IsMaximal.eq_of_tokens_eq (h : d.IsMaximal) (h' : d'.IsMaximal) (hchars : d.chars = d'.chars)
    (htokens : d.tokens = d'.tokens) : d = d' := by
  obtain ⟨lead, pieces⟩ := d
  obtain ⟨lead', pieces'⟩ := d'
  induction pieces generalizing lead lead' pieces' with
  | nil =>
    obtain rfl : pieces' = [] := by simpa [tokens] using htokens.symm
    obtain rfl : lead = lead' := by simpa [chars] using hchars
    rfl
  | cons p ps ih =>
    cases pieces' with
    | nil => exact absurd htokens (by simp [tokens])
    | cons p' ps' =>
      obtain ⟨htoken, hothers⟩ : p.1 = p'.1 ∧ ps.map Prod.fst = ps'.map Prod.fst := by
        simpa [tokens] using htokens
      have hp : p.1.Genuine := (h.wellFormed p (by simp)).genuine
      have hchars' : lead ++ (p.1.literal.toList ++ chars ⟨p.2, ps⟩) =
          lead' ++ (p.1.literal.toList ++ chars ⟨p'.2, ps'⟩) := by
        simpa [chars, htoken] using hchars
      have hstart (rest : List Char) : ∀ c ∈ (p.1.literal.toList ++ rest).head?,
          ¬ isBlank c = true := by
        intro c hc
        cases hcs : p.1.literal.toList with
        | nil => exact absurd hcs hp.ne_nil
        | cons b cs =>
          obtain rfl : b = c := by simpa [hcs] using hc
          simpa using hp.isBlank_eq_false b (by simp [hcs])
      obtain rfl : lead = lead' := by
        have hlead := (takeWhile_append_eq h.blank_lead (hstart (chars ⟨p.2, ps⟩))).1
        rw [hchars', (takeWhile_append_eq h'.blank_lead (hstart _)).1] at hlead
        exact hlead.symm
      have hrest : chars ⟨p.2, ps⟩ = chars ⟨p'.2, ps'⟩ :=
        List.append_cancel_left (List.append_cancel_left hchars')
      have heq := ih p.2 (h.tail rfl) p'.2 ps' (h'.tail rfl) hrest hothers
      obtain ⟨hblank, rfl⟩ := Segmentation.mk.inj heq
      rw [Prod.ext htoken hblank]

/-- Every text has a segmentation without glued neighbours. -/
theorem exists_isMaximal (cs : List Char) : ∃ d : Segmentation, d.IsMaximal ∧ d.chars = cs := by
  induction cs using lex_induction with
  | nil => exact ⟨⟨[], []⟩, ⟨by simp, by simp, by simp, by simp⟩, rfl⟩
  | blank c cs hc ih =>
    obtain ⟨d, hd, rfl⟩ := ih
    refine ⟨⟨c :: d.lead, d.pieces⟩, ⟨?_, hd.wellFormed, hd.blank, hd.apart⟩, rfl⟩
    exact List.forall_mem_cons.mpr ⟨hc, hd.blank_lead⟩
  | lexeme c cs hc ih =>
    obtain ⟨d, hd, hchars⟩ := ih
    let l := Lexeme.cut c cs
    have hgenuine : l.token.Genuine := Lexeme.genuine_token_cut hc cs
    refine ⟨⟨[], (l.token, d.lead) :: d.pieces⟩, ⟨by simp, ?_, ?_, ?_⟩, ?_⟩
    · exact List.forall_mem_cons.mpr ⟨hgenuine.wellFormed, hd.wellFormed⟩
    · exact List.forall_mem_cons.mpr ⟨hd.blank_lead, hd.blank⟩
    · refine List.isChain_cons.mpr ⟨fun q hq hlead hglues => ?_, hd.apart⟩
      obtain ⟨ps, hps⟩ := List.head?_eq_some_iff.mp hq
      have hq : q.1.Genuine := (hd.wellFormed q (by simp [hps])).genuine
      obtain ⟨b, hb, htakes⟩ := hq.glues_iff.mp hglues
      refine Lexeme.not_takes_cut c cs b ?_ htakes
      obtain ⟨bs, hbs⟩ := List.head?_eq_some_iff.mp hb
      simp [← hchars, chars, show d.lead = [] from hlead, hps, hbs]
    · rw [← Lexeme.chars_append_rest_cut c cs, ← hchars]
      simp [chars, Lexeme.token, l]

end Segmentation

/-- **Tokens are always taken as long as possible.** Every text can be cut in exactly one way into
blanks and tokens that can be written down so that no two tokens with nothing between them glue. The
tokens of the text are those of this segmentation, and one end token. -/
theorem tokenize_eq_maximal (source : String) :
    ∃ d : Segmentation, (d.IsMaximal ∧ d.chars = source.toList) ∧
      (∀ d' : Segmentation, d'.IsMaximal ∧ d'.chars = source.toList → d' = d) ∧
      tokenize source = d.tokens ++ [⟨.eof, ""⟩] := by
  obtain ⟨d, hd, hchars⟩ := Segmentation.exists_isMaximal source.toList
  refine ⟨d, ⟨hd, hchars⟩, ?_, ?_⟩
  · rintro d' ⟨hd', hchars'⟩
    have heq := hchars'.trans hchars.symm
    refine hd'.eq_of_tokens_eq hd heq ?_
    rw [← hd'.lex_chars, ← hd.lex_chars, heq]
  · rw [tokenize, tokens_ofString, ← hchars, hd.lex_chars]
    rfl

end FrontEnd
