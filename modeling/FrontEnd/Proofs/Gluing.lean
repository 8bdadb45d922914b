import FrontEnd.Proofs.Outcome
import FrontEnd.Proofs.Segments

/-!
# Texts that glue

If one text is put right after another, the tokens of the two come one after the other, unless the
last token of the first text takes the first character of the second one with it. Then the texts
*glue*, and the token at the joint becomes another one.

A word or a number at the end of a text is seen from its last character. This is not so for `=` and
`!`, since `=` may belong to the character before it: after `==` the next `=` is a token of its own,
after `===` it is not. So for these the last token decides. A blank at the end of the first text
always keeps the texts apart.

## Main definitions

* `FrontEnd.Glued` — the last token of a text takes the first character of another text with it.

## Main results

* `FrontEnd.IsLexeme.prefix_chars_cut` — a lexeme in front of a character that it takes with it.
* `FrontEnd.lex_append_iff` — the tokens of two texts, unless they glue.
* `FrontEnd.glued_iff` — texts that glue, by their characters.
* `FrontEnd.tokenize_append_iff` — when the tokens of two texts come one after the other.
-/

namespace FrontEnd

/-! ### The characters of a lexeme -/

/-- The characters of a lexeme are all letters, all digits, or neither. -/
theorem IsLexeme.class_eq {k : Kind} {c c' : Char} {cs : List Char} (h : IsLexeme k (c :: cs))
    (hc' : c' ∈ c :: cs) : isLetter c' = isLetter c ∧ isDigit c' = isDigit c := by
  generalize hchars : c :: cs = chars at h hc'
  cases h with
  | mark | assign | bang | illegal =>
    obtain ⟨rfl, -⟩ := List.cons.inj hchars
    obtain rfl := List.mem_singleton.mp hc'
    exact ⟨rfl, rfl⟩
  | eq | notEq =>
    obtain ⟨rfl, -⟩ := List.cons.inj hchars
    rcases List.mem_pair.mp hc' with rfl | rfl <;> exact ⟨rfl, rfl⟩
  | word hc hcs =>
    obtain ⟨rfl, rfl⟩ := List.cons.inj hchars
    have hletters : ∀ d ∈ c :: cs, isLetter d = true := List.forall_mem_cons.mpr ⟨hc, hcs⟩
    have hdigits (d : Char) (hd : d ∈ c :: cs) : isDigit d = false := by
      by_contra hdigit
      have hletter := isLetter_eq_false_of_isDigit (by simpa using hdigit)
      rw [hletters d hd] at hletter
      cases hletter
    rw [hletters c' hc', hc, hdigits c' hc', hdigits c List.mem_cons_self]
    exact ⟨rfl, rfl⟩
  | number hc hcs =>
    obtain ⟨rfl, rfl⟩ := List.cons.inj hchars
    have hdigits : ∀ d ∈ c :: cs, isDigit d = true := List.forall_mem_cons.mpr ⟨hc, hcs⟩
    rw [hdigits c' hc', hc, isLetter_eq_false_of_isDigit hc,
      isLetter_eq_false_of_isDigit (hdigits c' hc')]
    exact ⟨rfl, rfl⟩

/-- Every character of a lexeme tells words and numbers from other tokens. -/
theorem IsLexeme.isWord_iff_of_mem {k : Kind} {c : Char} {cs : List Char} (h : IsLexeme k cs)
    (hc : c ∈ cs) : (k.isWord = true ↔ isLetter c = true) ∧ (k = .int ↔ isDigit c = true) := by
  cases cs with
  | nil => exact absurd hc List.not_mem_nil
  | cons d cs =>
    obtain ⟨hletter, hdigit⟩ := h.class_eq hc
    rw [hletter, hdigit]
    exact h.isWord_iff

/-- What a lexeme takes with it, by one of its characters. -/
theorem IsLexeme.takes_iff {k : Kind} {c : Char} {cs : List Char} (h : IsLexeme k cs) (hc : c ∈ cs)
    (d : Char) : k.Takes d ↔ (isLetter c = true ∧ isLetter d = true) ∨
      (isDigit c = true ∧ isDigit d = true) ∨ ((k = .assign ∨ k = .bang) ∧ d = '=') := by
  obtain ⟨hword, hint⟩ := h.isWord_iff_of_mem hc
  rw [Kind.Takes, hword, hint]

/-! ### A lexeme in front of a character that it takes with it -/

theorem Lexeme.cut_of_isLetter {c : Char} (hc : isLetter c = true) (cs : List Char) :
    cut c cs = word c cs := by
  have hassign : c ≠ '=' := by
    rintro rfl
    exact absurd hc (by decide)
  have hbang : c ≠ '!' := by
    rintro rfl
    exact absurd hc (by decide)
  simp [cut, hassign, hbang, Kind.ofMark?_of_isLetter hc, hc]

theorem Lexeme.cut_of_isDigit {c : Char} (hc : isDigit c = true) (cs : List Char) :
    cut c cs = number c cs := by
  have hassign : c ≠ '=' := by
    rintro rfl
    exact absurd hc (by decide)
  have hbang : c ≠ '!' := by
    rintro rfl
    exact absurd hc (by decide)
  simp [cut, hassign, hbang, Kind.ofMark?_of_isDigit hc, isLetter_eq_false_of_isDigit hc, hc]

theorem prefix_cons_takeWhile {p : Char → Bool} {d : Char} {cs : List Char}
    (hcs : ∀ c ∈ cs, p c = true) (hd : p d = true) (c : Char) (rest : List Char) :
    c :: cs ++ [d] <+: c :: (cs ++ d :: rest).takeWhile p := by
  rw [List.takeWhile_append_of_pos hcs, List.takeWhile_cons_of_pos hd]
  exact ⟨rest.takeWhile p, by simp⟩

/-- In front of a character that it takes with it, a lexeme becomes longer by at least this one. -/
theorem IsLexeme.prefix_chars_cut {k : Kind} {c d : Char} {cs : List Char}
    (h : IsLexeme k (c :: cs)) (hd : k.Takes d) (rest : List Char) :
    c :: cs ++ [d] <+: (Lexeme.cut c (cs ++ d :: rest)).chars := by
  have hclass {c' : Char} (hc' : c' ∈ cs) := h.class_eq (List.mem_cons_of_mem c hc')
  rcases (h.takes_iff List.mem_cons_self d).mp hd with ⟨hc, hletter⟩ | ⟨hc, hdigit⟩ | ⟨hkind, rfl⟩
  · rw [Lexeme.cut_of_isLetter hc]
    exact prefix_cons_takeWhile (fun c' hc' => (hclass hc').1.trans hc) hletter c rest
  · rw [Lexeme.cut_of_isDigit hc]
    exact prefix_cons_takeWhile (fun c' hc' => (hclass hc').2.trans hc) hdigit c rest
  · rcases hkind with rfl | rfl
    · obtain ⟨rfl, rfl⟩ : c = '=' ∧ cs = [] := by simpa using congrArg String.toList (h.ofList_eq rfl)
      exact List.prefix_rfl
    · obtain ⟨rfl, rfl⟩ : c = '!' ∧ cs = [] := by simpa using congrArg String.toList (h.ofList_eq rfl)
      exact List.prefix_rfl

/-- The token at the front becomes another one. -/
theorem IsLexeme.token_cut_ne {k : Kind} {c d : Char} {cs : List Char} (h : IsLexeme k (c :: cs))
    (hd : k.Takes d) (rest : List Char) :
    (Lexeme.cut c (cs ++ d :: rest)).token ≠ ⟨k, String.ofList (c :: cs)⟩ := by
  intro heq
  have hchars : (Lexeme.cut c (cs ++ d :: rest)).chars = c :: cs := by
    simpa [Lexeme.token] using congrArg (fun t => t.literal.toList) heq
  have hlen := (h.prefix_chars_cut hd rest).length_le
  rw [hchars, List.length_append, List.length_singleton] at hlen
  omega

/-! ### The last token of a text -/

/-- Only blanks have no tokens. -/
theorem isBlank_of_lex_eq_nil {cs : List Char} (h : lex cs = []) : ∀ c ∈ cs, isBlank c = true := by
  have hfilter := flatMap_literal_lex cs
  rw [h, List.flatMap_nil, eq_comm, List.filter_eq_nil_iff] at hfilter
  simpa using hfilter

/-- If a text does not end with a blank, it ends with its last token. -/
theorem getLast?_literal {cs : List Char} {c : Char} (hc : c ∈ cs.getLast?)
    (hblank : isBlank c = false) {t : Token} (ht : t ∈ (lex cs).getLast?) :
    c ∈ t.literal.toList.getLast? := by
  have hgenuine : t.Genuine := genuine_of_mem_lex (List.mem_of_getLast? ht)
  have hfilter := flatMap_literal_lex cs
  obtain ⟨ts, hts⟩ := List.getLast?_eq_some_iff.mp ht
  obtain ⟨cs', rfl⟩ := List.getLast?_eq_some_iff.mp hc
  rw [hts, List.flatMap_append, List.filter_append, List.flatMap_singleton,
    List.filter_singleton] at hfilter
  have hlast := congrArg List.getLast? hfilter
  rw [List.getLast?_append_of_ne_nil _ hgenuine.ne_nil] at hlast
  simpa [hblank] using hlast

/-! ### Two texts one after the other -/

/-- The texts glue: the first one does not end with a blank, and its last token takes the first
character of the second one with it. -/
def Glued (as bs : List Char) : Prop :=
  ∃ c ∈ as.getLast?, isBlank c = false ∧
    ∃ t ∈ (lex as).getLast?, ∃ d ∈ bs.head?, t.kind.Takes d

/-- Texts that do not glue have the tokens of the one and then those of the other. -/
theorem lex_append_of_not_glued {as bs : List Char} (h : ¬ Glued as bs) :
    lex (as ++ bs) = lex as ++ lex bs := by
  by_cases hlast : ∃ c ∈ as.getLast?, isBlank c = true
  · obtain ⟨c, hc, hblank⟩ := hlast
    obtain ⟨as, rfl⟩ := List.getLast?_eq_some_iff.mp hc
    rw [List.append_assoc, List.singleton_append, lex_append_cons_of_isBlank hblank,
      lex_append_cons_of_isBlank hblank, lex_nil, List.append_nil]
  · refine lex_append_of_not_takes fun t ht d hd htakes => h ?_
    have hne : as ≠ [] := by
      rintro rfl
      exact absurd ht (by simp)
    obtain ⟨c, hc⟩ := Option.isSome_iff_exists.mp (List.getLast?_isSome.mpr hne)
    exact ⟨c, hc, by simpa using fun hblank => hlast ⟨c, hc, hblank⟩, t, ht, d, hd, htakes⟩

/-- Texts that glue have other tokens. -/
theorem Glued.lex_append_ne {as bs : List Char} (h : Glued as bs) :
    lex (as ++ bs) ≠ lex as ++ lex bs := by
  obtain ⟨c, hc, hblank, t, ht, d, hd, htakes⟩ := h
  obtain ⟨bs, rfl⟩ := List.head?_eq_some_iff.mp hd
  -- Blanks and tokens are taken off the front until the last token is the only one.
  induction as using lex_induction with
  | nil => exact absurd hc (by simp)
  | blank a as ha ih =>
    have hne : as ≠ [] := by
      rintro rfl
      obtain rfl : a = c := by simpa using hc
      exact absurd hblank (by simp [ha])
    rw [List.getLast?_cons_of_ne_nil hne] at hc
    rw [lex_cons_of_isBlank ha] at ht
    rw [List.cons_append, lex_cons_of_isBlank ha, lex_cons_of_isBlank ha]
    exact ih hc ht
  | lexeme a as ha ih =>
    let l := Lexeme.cut a as
    have hchars : l.chars ++ l.rest = a :: as := Lexeme.chars_append_rest_cut a as
    have hlexeme : IsLexeme l.kind l.chars := isLexeme_cut ha as
    have hlex : lex (a :: as) = l.token :: lex l.rest := lex_cons_of_not_isBlank ha as
    by_cases hrest : l.rest = []
    · rw [hrest, List.append_nil] at hchars
      rw [hrest, lex_nil] at hlex
      rw [hlex] at ht ⊢
      obtain rfl : l.token = t := by simpa using ht
      intro heq
      rw [List.cons_append, lex_cons_of_not_isBlank ha, List.singleton_append] at heq
      rw [hchars] at hlexeme
      refine hlexeme.token_cut_ne htakes bs ((List.cons.inj heq).1.trans ?_)
      rw [← hchars]
      rfl
    · have hlast : c ∈ l.rest.getLast? := by
        rwa [← hchars, List.getLast?_append_of_ne_nil _ hrest] at hc
      have hlater : lex l.rest ≠ [] := fun hnil => by
        rw [isBlank_of_lex_eq_nil hnil c (List.mem_of_getLast? hlast)] at hblank
        cases hblank
      rw [hlex, List.getLast?_cons_of_ne_nil hlater] at ht
      have hread : lex (a :: as ++ d :: bs) = l.token :: lex (l.rest ++ d :: bs) := by
        have hliteral : l.token.literal.toList = l.chars := String.toList_ofList
        rw [← hchars, List.append_assoc, ← hliteral]
        refine lex_append (Lexeme.genuine_token_cut ha as) fun c' hc' => ?_
        rw [List.head?_append_of_ne_nil _ hrest] at hc'
        exact Lexeme.not_takes_cut a as c' hc'
      rw [hread, hlex, List.cons_append]
      exact fun heq => ih hlast ht (List.cons.inj heq).2

/-- **The tokens of two texts come one after the other unless the texts glue.** -/
theorem lex_append_iff (as bs : List Char) :
    lex (as ++ bs) = lex as ++ lex bs ↔ ¬ Glued as bs :=
  ⟨fun heq hglued => hglued.lex_append_ne heq, lex_append_of_not_glued⟩

/-- Texts that glue, by the characters at the joint. For `=` and `!` at the end of the first text,
they do not tell, and its last token does. -/
theorem glued_iff (as bs : List Char) : Glued as bs ↔
    (∃ c ∈ as.getLast?, ∃ d ∈ bs.head?, isLetter c = true ∧ isLetter d = true) ∨
    (∃ c ∈ as.getLast?, ∃ d ∈ bs.head?, isDigit c = true ∧ isDigit d = true) ∨
    (bs.head? = some '=' ∧ (∃ t ∈ (lex as).getLast?, t.kind = .assign ∨ t.kind = .bang) ∧
      ∀ c ∈ as.getLast?, isBlank c = false) := by
  -- The last token, seen from the last character.
  have htakes {c : Char} (hc : c ∈ as.getLast?) (hblank : isBlank c = false) {t : Token}
      (ht : t ∈ (lex as).getLast?) (d : Char) : t.kind.Takes d ↔
        (isLetter c = true ∧ isLetter d = true) ∨ (isDigit c = true ∧ isDigit d = true) ∨
          ((t.kind = .assign ∨ t.kind = .bang) ∧ d = '=') := by
    have hgenuine : t.Genuine := genuine_of_mem_lex (List.mem_of_getLast? ht)
    exact hgenuine.takes_iff (List.mem_of_getLast? (getLast?_literal hc hblank ht)) d
  have hexists {c : Char} (hc : c ∈ as.getLast?) (hblank : isBlank c = false) :
      ∃ t, t ∈ (lex as).getLast? := by
    refine Option.isSome_iff_exists.mp (List.getLast?_isSome.mpr fun hnil => ?_)
    rw [isBlank_of_lex_eq_nil hnil c (List.mem_of_getLast? hc)] at hblank
    cases hblank
  constructor
  · rintro ⟨c, hc, hblank, t, ht, d, hd, htake⟩
    rcases (htakes hc hblank ht d).mp htake with ⟨hcl, hdl⟩ | ⟨hcd, hdd⟩ | ⟨hkind, rfl⟩
    · exact .inl ⟨c, hc, d, hd, hcl, hdl⟩
    · exact .inr (.inl ⟨c, hc, d, hd, hcd, hdd⟩)
    · refine .inr (.inr ⟨hd, ⟨t, ht, hkind⟩, fun c' hc' => ?_⟩)
      rwa [Option.mem_unique hc' hc]
  · rintro (⟨c, hc, d, hd, hcl, hdl⟩ | ⟨c, hc, d, hd, hcd, hdd⟩ | ⟨hd, ⟨t, ht, hkind⟩, hblank⟩)
    · have hblank := isBlank_eq_false_of_isLetter hcl
      obtain ⟨t, ht⟩ := hexists hc hblank
      exact ⟨c, hc, hblank, t, ht, d, hd, (htakes hc hblank ht d).mpr (.inl ⟨hcl, hdl⟩)⟩
    · have hblank := isBlank_eq_false_of_isDigit hcd
      obtain ⟨t, ht⟩ := hexists hc hblank
      exact ⟨c, hc, hblank, t, ht, d, hd, (htakes hc hblank ht d).mpr (.inr (.inl ⟨hcd, hdd⟩))⟩
    · have hne : as ≠ [] := by
        rintro rfl
        exact absurd ht (by simp)
      obtain ⟨c, hc⟩ := Option.isSome_iff_exists.mp (List.getLast?_isSome.mpr hne)
      exact ⟨c, hc, hblank c hc, t, ht, '=', hd, .inr (.inr ⟨hkind, rfl⟩)⟩

/-- **When the tokens of two texts come one after the other.** This is so if the two characters at
the joint are not both letters and not both digits, and if it is not so that the second text begins
with `=` while the first one ends with a token `=` or `!` and with no blank after it. In these three
cases, and in no others, putting the texts together gives other tokens. -/
theorem tokenize_append_iff (a b : String) :
    tokenize (a ++ b) = (tokenize a).dropLast ++ tokenize b ↔
      ¬ ((∃ c ∈ a.toList.getLast?, ∃ d ∈ b.toList.head?, isLetter c = true ∧ isLetter d = true) ∨
        (∃ c ∈ a.toList.getLast?, ∃ d ∈ b.toList.head?, isDigit c = true ∧ isDigit d = true) ∨
        (b.toList.head? = some '=' ∧
          (∃ t ∈ (tokenize a).dropLast.getLast?, t.kind = .assign ∨ t.kind = .bang) ∧
          ∀ c ∈ a.toList.getLast?, isBlank c = false)) := by
  rw [dropLast_tokenize, tokens_ofString, ← glued_iff, ← lex_append_iff, tokenize_eq, tokenize_eq,
    String.toList_append, ← List.append_assoc, List.append_left_inj]

example : tokenize ("a ==" ++ "= b") = (tokenize "a ==").dropLast ++ tokenize "= b" := by
  decide +kernel

end FrontEnd
