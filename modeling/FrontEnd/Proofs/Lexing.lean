import FrontEnd.Proofs.Tape
import FrontEnd.Text.Numeral

/-!
# Lexemes and the tokens of a text

A token is *genuine* if its literal can be written down as one token of its kind. Every token of a
text is genuine, and a genuine token is found again wherever its literal stands in front of a
character that it does not take with it. So every list of genuine tokens is the list of tokens of
some text: the literals separated by spaces. The characters of the tokens are the characters of the
text without the blanks.

## Main definitions

* `FrontEnd.IsLexeme`, `FrontEnd.Token.Genuine` — the literals of each kind.
* `FrontEnd.Kind.spelling?`, `FrontEnd.Token.ofKind` — the kinds with only one literal.
* `FrontEnd.Kind.Takes` — the characters that a token of a kind takes with it.
* `FrontEnd.lex` — the tokens of a list of characters.
* `FrontEnd.spaced` — the literals of tokens, separated by spaces.

## Main results

* `FrontEnd.genuine_of_mem_lex` — the tokens of a text are genuine.
* `FrontEnd.lex_append` — a genuine token is found at the front of a text.
* `FrontEnd.lex_spaced` — the tokens of literals separated by spaces.
* `FrontEnd.flatMap_literal_lex` — the tokens hold all characters but the blanks.
-/

namespace FrontEnd

/-! ### Character classes -/

theorem Kind.ofMark?_of_isLetter {c : Char} (h : isLetter c = true) : Kind.ofMark? c = none := by
  unfold Kind.ofMark?
  split <;> first | rfl | exact absurd h (by decide)

theorem Kind.ofMark?_of_isDigit {c : Char} (h : isDigit c = true) : Kind.ofMark? c = none := by
  unfold Kind.ofMark?
  split <;> first | rfl | exact absurd h (by decide)

theorem isLetter_eq_false_of_isDigit {c : Char} (h : isDigit c = true) : isLetter c = false := by
  have hletter : c.isAlpha = (decide ('A'.val ≤ c.val ∧ c.val ≤ 'Z'.val) ||
      (decide ('a'.val ≤ c.val) && decide (c.val ≤ 'z'.val))) := rfl
  by_contra hl
  simp only [isDigit, Char.isDigit, Bool.and_eq_true, decide_eq_true_eq, ge_iff_le,
    UInt32.le_iff_toNat_le] at h
  simp only [isLetter, hletter, UInt32.le_iff_toNat_le, Bool.not_eq_false, Bool.or_eq_true,
    Bool.and_eq_true, decide_eq_true_eq, beq_iff_eq] at hl
  change 48 ≤ c.val.toNat ∧ c.val.toNat ≤ 57 at h
  change ((65 ≤ c.val.toNat ∧ c.val.toNat ≤ 90) ∨ (97 ≤ c.val.toNat ∧ c.val.toNat ≤ 122)) ∨
    c = '_' at hl
  rcases hl with hl | rfl
  · omega
  · exact absurd h (by decide)

/-- The characters that separate tokens are no letters, no digits and no marks. -/
theorem eq_of_isBlank {c : Char} (h : isBlank c = true) :
    c = ' ' ∨ c = '\t' ∨ c = '\n' ∨ c = '\r' := by
  simpa only [isBlank, Bool.or_eq_true, beq_iff_eq, or_assoc] using h

theorem isBlank_eq_false_of_isLetter {c : Char} (h : isLetter c = true) : isBlank c = false := by
  by_contra hb
  rcases eq_of_isBlank (by simpa using hb) with rfl | rfl | rfl | rfl <;> exact absurd h (by decide)

theorem isBlank_eq_false_of_isDigit {c : Char} (h : isDigit c = true) : isBlank c = false := by
  by_contra hb
  rcases eq_of_isBlank (by simpa using hb) with rfl | rfl | rfl | rfl <;> exact absurd h (by decide)

theorem isBlank_eq_false_of_ofMark? {c : Char} {k : Kind} (h : Kind.ofMark? c = some k) :
    isBlank c = false := by
  by_contra hb
  rcases eq_of_isBlank (by simpa using hb) with rfl | rfl | rfl | rfl <;>
    exact absurd h (by simp [Kind.ofMark?])

/-! ### Lexemes -/

/-- The characters `cs` can be written down as one token of the kind. -/
inductive IsLexeme : Kind → List Char → Prop
  | mark {c : Char} {k : Kind} (hmark : Kind.ofMark? c = some k) : IsLexeme k [c]
  | assign : IsLexeme .assign ['=']
  | eq : IsLexeme .eq ['=', '=']
  | bang : IsLexeme .bang ['!']
  | notEq : IsLexeme .notEq ['!', '=']
  | word {c : Char} {cs : List Char} (hc : isLetter c = true)
      (hcs : ∀ c' ∈ cs, isLetter c' = true) :
      IsLexeme (Kind.ofWord (String.ofList (c :: cs))) (c :: cs)
  | number {c : Char} {cs : List Char} (hc : isDigit c = true)
      (hcs : ∀ c' ∈ cs, isDigit c' = true) : IsLexeme .int (c :: cs)
  | illegal {c : Char} (hassign : c ≠ '=') (hbang : c ≠ '!') (hmark : Kind.ofMark? c = none)
      (hletter : isLetter c = false) (hdigit : isDigit c = false) (hblank : isBlank c = false) :
      IsLexeme .illegal [c]

/-- The literal of the token can be written down as one token of its kind. -/
def Token.Genuine (t : Token) : Prop :=
  IsLexeme t.kind t.literal.toList

theorem isLexeme_withEqual (c : Char) (single double : Kind) (cs : List Char)
    (hsingle : IsLexeme single [c]) (hdouble : IsLexeme double [c, '=']) :
    IsLexeme (Lexeme.withEqual c single double cs).kind
      (Lexeme.withEqual c single double cs).chars := by
  unfold Lexeme.withEqual
  split
  · exact hdouble
  · exact hsingle

/-- The lexeme that starts at a character other than a blank is one. -/
theorem isLexeme_cut {c : Char} (hc : isBlank c = false) (cs : List Char) :
    IsLexeme (Lexeme.cut c cs).kind (Lexeme.cut c cs).chars := by
  unfold Lexeme.cut
  split
  next hassign =>
    subst hassign
    exact isLexeme_withEqual _ _ _ cs .assign .eq
  next hassign =>
    split
    next hbang =>
      subst hbang
      exact isLexeme_withEqual _ _ _ cs .bang .notEq
    next hbang =>
      cases hmark : Kind.ofMark? c with
      | some k => exact .mark hmark
      | none =>
        by_cases hletter : isLetter c = true
        · simp only [hletter, ↓reduceIte]
          exact .word hletter fun _ hmem => List.mem_takeWhile_imp hmem
        · by_cases hdigit : isDigit c = true
          · simp only [hletter, hdigit, ↓reduceIte]
            exact .number hdigit fun _ hmem => List.mem_takeWhile_imp hmem
          · simp only [hletter, hdigit]
            exact .illegal hassign hbang hmark (by simpa using hletter) (by simpa using hdigit) hc

theorem Lexeme.genuine_token_cut {c : Char} (hc : isBlank c = false) (cs : List Char) :
    (Lexeme.cut c cs).token.Genuine := by
  simpa [Token.Genuine, Lexeme.token] using isLexeme_cut hc cs

theorem IsLexeme.isBlank_eq_false {k : Kind} {cs : List Char} (h : IsLexeme k cs) :
    ∀ c ∈ cs, isBlank c = false := by
  intro c hc
  cases h with
  | mark hmark => exact (List.mem_singleton.mp hc) ▸ isBlank_eq_false_of_ofMark? hmark
  | assign => exact (List.mem_singleton.mp hc) ▸ rfl
  | eq => rcases List.mem_pair.mp hc with rfl | rfl <;> rfl
  | bang => exact (List.mem_singleton.mp hc) ▸ rfl
  | notEq => rcases List.mem_pair.mp hc with rfl | rfl <;> rfl
  | word hc' hcs =>
    rcases List.mem_cons.mp hc with rfl | hmem
    · exact isBlank_eq_false_of_isLetter hc'
    · exact isBlank_eq_false_of_isLetter (hcs c hmem)
  | number hc' hcs =>
    rcases List.mem_cons.mp hc with rfl | hmem
    · exact isBlank_eq_false_of_isDigit hc'
    · exact isBlank_eq_false_of_isDigit (hcs c hmem)
  | illegal _ _ _ _ _ hblank => exact (List.mem_singleton.mp hc) ▸ hblank

theorem IsLexeme.ne_nil {k : Kind} {cs : List Char} (h : IsLexeme k cs) : cs ≠ [] := by
  cases h <;> simp

/-! ### Fixed literals -/

/-- The literal of every token of the kind, for a kind whose tokens all have the same. -/
def Kind.spelling? : Kind → Option String
  | illegal => none
  | eof => none
  | ident => none
  | int => none
  | assign => some "="
  | plus => some "+"
  | minus => some "-"
  | bang => some "!"
  | asterisk => some "*"
  | slash => some "/"
  | lt => some "<"
  | gt => some ">"
  | eq => some "=="
  | notEq => some "!="
  | comma => some ","
  | semicolon => some ";"
  | lparen => some "("
  | rparen => some ")"
  | lbrace => some "\x7b"
  | rbrace => some "\x7d"
  | function => some "fn"
  | letKey => some "let"
  | trueKey => some "true"
  | falseKey => some "false"
  | ifKey => some "if"
  | elseKey => some "else"
  | returnKey => some "return"

/-- The token of a kind whose tokens are all the same. -/
def Token.ofKind (k : Kind) : Token :=
  ⟨k, k.spelling?.getD ""⟩

@[simp]
theorem Token.kind_ofKind (k : Kind) : (Token.ofKind k).kind = k := rfl

theorem Kind.ofWord_eq (w : String) :
    Kind.ofWord w = .ident ∨ (w, Kind.ofWord w) ∈ Kind.keywords := by
  unfold Kind.ofWord Kind.keyword?
  cases h : Kind.keywords.lookup w with
  | none => exact .inl rfl
  | some k =>
    obtain ⟨l₁, l₂, heq, -⟩ := List.lookup_eq_some_iff.mp h
    exact .inr (by simp [heq])

theorem IsLexeme.ofList_eq {k : Kind} {cs : List Char} (h : IsLexeme k cs) {w : String}
    (hw : k.spelling? = some w) : String.ofList cs = w := by
  cases h with
  | @mark c k hmark =>
    unfold Kind.ofMark? at hmark
    split at hmark <;> cases hmark <;> exact Option.some.inj hw
  | assign => exact Option.some.inj hw
  | eq => exact Option.some.inj hw
  | bang => exact Option.some.inj hw
  | notEq => exact Option.some.inj hw
  | @word c cs =>
    generalize String.ofList (c :: cs) = v at hw
    rcases Kind.ofWord_eq v with hk | hk
    · exact absurd (hk ▸ hw) (by simp [Kind.spelling?])
    · generalize Kind.ofWord v = k at hw hk
      simp only [Kind.keywords, List.mem_cons, Prod.mk.injEq, List.not_mem_nil, or_false] at hk
      rcases hk with ⟨rfl, rfl⟩ | ⟨rfl, rfl⟩ | ⟨rfl, rfl⟩ | ⟨rfl, rfl⟩ | ⟨rfl, rfl⟩ | ⟨rfl, rfl⟩ |
        ⟨rfl, rfl⟩ <;> exact Option.some.inj hw
  | number => exact absurd hw (by simp [Kind.spelling?])
  | illegal => exact absurd hw (by simp [Kind.spelling?])

/-- A genuine token of a kind with a fixed literal has this literal. -/
theorem Token.Genuine.literal_eq {t : Token} (ht : t.Genuine) {k : Kind} (hk : t.kind = k)
    {w : String} (hw : k.spelling? = some w) : t.literal = w := by
  subst hk
  simpa using IsLexeme.ofList_eq ht hw

/-- A run of letters can be written down as one token, of the kind of the word. -/
theorem isLexeme_ofWord {w : String} (hne : w ≠ "") (hw : ∀ c ∈ w.toList, isLetter c = true) :
    IsLexeme (Kind.ofWord w) w.toList := by
  cases hcs : w.toList with
  | nil => exact absurd (by simpa using hcs) hne
  | cons c cs =>
    obtain rfl : String.ofList (c :: cs) = w := by rw [← hcs, String.ofList_toList]
    rw [String.toList_ofList] at hw
    exact .word (hw c (by simp)) fun c' hc' => hw c' (by simp [hc'])

theorem isLexeme_keyword {w : String} {k : Kind} (hk : (w, k) ∈ Kind.keywords) :
    IsLexeme k w.toList := by
  have hkeywords : ∀ p ∈ Kind.keywords, Kind.ofWord p.1 = p.2 ∧ p.1 ≠ "" ∧
      p.1.toList.all isLetter = true := by decide
  obtain ⟨hword, hne, hletters⟩ := hkeywords (w, k) hk
  have hlexeme := isLexeme_ofWord hne (List.all_eq_true.mp hletters)
  rwa [hword] at hlexeme

/-- The fixed literals can be written down. -/
theorem Token.genuine_ofKind {k : Kind} (hk : k.spelling?.isSome) : (Token.ofKind k).Genuine := by
  cases k with
  | illegal | eof | ident | int => exact absurd hk (by decide)
  | assign => exact .assign
  | bang => exact .bang
  | eq => exact .eq
  | notEq => exact .notEq
  | plus | minus | asterisk | slash | lt | gt | comma | semicolon | lparen | rparen | lbrace
  | rbrace => exact .mark rfl
  | function | letKey | trueKey | falseKey | ifKey | elseKey | returnKey =>
    exact isLexeme_keyword (by decide)

/-- A lexeme of a kind without a fixed literal is a name, a number or an illegal character. -/
theorem IsLexeme.cases_of_spelling?_eq_none {k : Kind} {cs : List Char} (h : IsLexeme k cs)
    (hk : k.spelling? = none) :
    k = .ident ∨ (k = .int ∧ cs.all Char.isDigit = true) ∨ k = .illegal := by
  cases h with
  | mark hmark =>
    unfold Kind.ofMark? at hmark
    split at hmark <;> cases hmark <;> cases hk
  | @word c cs =>
    rcases Kind.ofWord_eq (String.ofList (c :: cs)) with hw | hw
    · exact .inl hw
    · generalize Kind.ofWord (String.ofList (c :: cs)) = k at hk hw
      have hkeywords : ∀ p ∈ Kind.keywords, p.2.spelling? ≠ none := by decide
      exact absurd hk (hkeywords _ hw)
  | number hc hcs => exact .inr (.inl ⟨rfl, by simpa [isDigit] using ⟨hc, hcs⟩⟩)
  | illegal => exact .inr (.inr rfl)
  | _ => cases hk

/-- The end token cannot be written down. -/
theorem Token.Genuine.kind_ne_eof {t : Token} (ht : t.Genuine) : t.kind ≠ .eof := by
  intro hkind
  unfold Genuine at ht
  rw [hkind] at ht
  simpa using ht.cases_of_spelling?_eq_none rfl

/-- The literal of a genuine number consists of digits. -/
theorem Token.Genuine.exists_natural? {t : Token} (ht : t.Genuine) (hkind : t.kind = .int) :
    ∃ n, Text.natural? t.literal.toList = some n := by
  unfold Genuine at ht
  rw [hkind] at ht
  have hdigits : t.literal.toList.all Char.isDigit = true := by
    simpa using ht.cases_of_spelling?_eq_none rfl
  exact ⟨_, if_pos ⟨ht.ne_nil, hdigits⟩⟩

/-! ### Lists of genuine tokens -/

theorem genuine_of_suffix {ts us : List Token} (hts : ∀ t ∈ ts, t.Genuine) (h : us <:+ ts) :
    ∀ t ∈ us, t.Genuine :=
  fun t ht => hts t (h.subset ht)

/-- What is left after a phrase of at least one token. -/
theorem genuine_of_suffix_tail {ts us : List Token} (hts : ∀ t ∈ ts, t.Genuine)
    (h : us <:+ ts.tail) : ∀ t ∈ us, t.Genuine :=
  genuine_of_suffix hts (h.trans (List.tail_suffix ts))

theorem genuine_of_cons {t : Token} {ts : List Token} (hts : ∀ u ∈ t :: ts, u.Genuine) :
    ∀ u ∈ ts, u.Genuine :=
  List.forall_mem_of_forall_mem_cons hts

theorem genuine_append {ts us : List Token} (hts : ∀ t ∈ ts, t.Genuine)
    (hus : ∀ t ∈ us, t.Genuine) : ∀ t ∈ ts ++ us, t.Genuine :=
  List.forall_mem_append.mpr ⟨hts, hus⟩

theorem genuine_cons {t : Token} {ts : List Token} (ht : t.Genuine) (hts : ∀ t ∈ ts, t.Genuine) :
    ∀ u ∈ t :: ts, u.Genuine :=
  List.forall_mem_cons.mpr ⟨ht, hts⟩

theorem genuine_cons_ofKind {k : Kind} (hk : k.spelling?.isSome) {ts : List Token}
    (hts : ∀ t ∈ ts, t.Genuine) : ∀ t ∈ .ofKind k :: ts, t.Genuine :=
  genuine_cons (Token.genuine_ofKind hk) hts

/-! ### Finding a lexeme again -/

/-- The kinds of words: names and keywords. -/
def Kind.isWord (k : Kind) : Bool :=
  k == .ident || Kind.keywords.any fun p => p.2 == k

theorem Kind.isWord_ofWord (w : String) : (Kind.ofWord w).isWord = true := by
  rcases Kind.ofWord_eq w with hw | hw
  · rw [hw]
    rfl
  · simp only [Kind.isWord, Bool.or_eq_true, List.any_eq_true, beq_iff_eq]
    exact .inr ⟨_, hw, rfl⟩

/-- A token of the kind `k` takes a character `c` after it with it, and so becomes another one. -/
def Kind.Takes (k : Kind) (c : Char) : Prop :=
  (k.isWord = true ∧ isLetter c = true) ∨ (k = .int ∧ isDigit c = true) ∨
    ((k = .assign ∨ k = .bang) ∧ c = '=')

instance (k : Kind) (c : Char) : Decidable (k.Takes c) :=
  inferInstanceAs (Decidable (_ ∨ _ ∨ _))

/-- No token takes a blank with it. -/
theorem Kind.not_takes_of_isBlank {c : Char} (h : isBlank c = true) (k : Kind) : ¬ k.Takes c := by
  rintro (⟨-, hc⟩ | ⟨-, hc⟩ | ⟨-, rfl⟩)
  · exact absurd h (by simp [isBlank_eq_false_of_isLetter hc])
  · exact absurd h (by simp [isBlank_eq_false_of_isDigit hc])
  · exact absurd h (by decide)

/-- A semicolon takes nothing with it. -/
theorem Kind.not_takes_semicolon (c : Char) : ¬ Kind.semicolon.Takes c := by
  rintro (⟨hword, -⟩ | ⟨hint, -⟩ | ⟨hmark | hmark, -⟩)
  · exact absurd hword (by decide)
  all_goals contradiction

theorem withEqual_of_head?_ne {c : Char} {single double : Kind} {cs : List Char}
    (h : cs.head? ≠ some '=') : Lexeme.withEqual c single double cs = ⟨single, [c], cs⟩ := by
  unfold Lexeme.withEqual
  split
  · exact absurd rfl h
  · rfl

theorem takeWhile_append_eq {p : Char → Bool} {cs rest : List Char} (hcs : ∀ c ∈ cs, p c = true)
    (hrest : ∀ c ∈ rest.head?, ¬ p c = true) :
    (cs ++ rest).takeWhile p = cs ∧ (cs ++ rest).dropWhile p = rest := by
  rw [List.takeWhile_append_of_pos hcs, List.dropWhile_append_of_pos hcs]
  cases rest with
  | nil => simp
  | cons c rest => simp [hrest c (by simp)]

/-- A lexeme in front of a character that it does not take with it is cut off there. -/
theorem IsLexeme.cut_append {k : Kind} {c : Char} {cs rest : List Char} (h : IsLexeme k (c :: cs))
    (hrest : ∀ c' ∈ rest.head?, ¬ k.Takes c') :
    Lexeme.cut c (cs ++ rest) = ⟨k, c :: cs, rest⟩ := by
  have hequal (hk : k = .assign ∨ k = .bang) : rest.head? ≠ some '=' :=
    fun hhead => hrest '=' hhead (.inr (.inr ⟨hk, rfl⟩))
  unfold Lexeme.cut
  generalize hchars : c :: cs = chars at h
  cases h with
  | mark hmark =>
    obtain ⟨rfl, rfl⟩ := List.cons.inj hchars
    have hassign : c ≠ '=' := by
      rintro rfl
      exact absurd hmark (by simp [Kind.ofMark?])
    have hbang : c ≠ '!' := by
      rintro rfl
      exact absurd hmark (by simp [Kind.ofMark?])
    simp [hassign, hbang, hmark]
  | assign =>
    obtain ⟨rfl, rfl⟩ := List.cons.inj hchars
    exact withEqual_of_head?_ne (hequal (.inl rfl))
  | eq =>
    obtain ⟨rfl, rfl⟩ := List.cons.inj hchars
    rfl
  | bang =>
    obtain ⟨rfl, rfl⟩ := List.cons.inj hchars
    exact withEqual_of_head?_ne (hequal (.inr rfl))
  | notEq =>
    obtain ⟨rfl, rfl⟩ := List.cons.inj hchars
    rfl
  | word hc hcs =>
    obtain ⟨rfl, rfl⟩ := List.cons.inj hchars
    have hassign : c ≠ '=' := by
      rintro rfl
      exact absurd hc (by decide)
    have hbang : c ≠ '!' := by
      rintro rfl
      exact absurd hc (by decide)
    obtain ⟨htake, hdrop⟩ := takeWhile_append_eq hcs fun c' hc' hl =>
      hrest c' hc' (.inl ⟨Kind.isWord_ofWord _, hl⟩)
    simp [hassign, hbang, Kind.ofMark?_of_isLetter hc, hc, Lexeme.word, htake, hdrop]
  | number hc hcs =>
    obtain ⟨rfl, rfl⟩ := List.cons.inj hchars
    have hassign : c ≠ '=' := by
      rintro rfl
      exact absurd hc (by decide)
    have hbang : c ≠ '!' := by
      rintro rfl
      exact absurd hc (by decide)
    obtain ⟨htake, hdrop⟩ := takeWhile_append_eq hcs fun c' hc' hl =>
      hrest c' hc' (.inr (.inl ⟨rfl, hl⟩))
    simp [hassign, hbang, Kind.ofMark?_of_isDigit hc, isLetter_eq_false_of_isDigit hc, hc,
      Lexeme.number, htake, hdrop]
  | illegal hassign hbang hmark hletter hdigit =>
    obtain ⟨rfl, rfl⟩ := List.cons.inj hchars
    simp [hassign, hbang, hmark, hletter, hdigit]

/-! ### The tokens of a text -/

/-- The tokens of a list of characters. -/
def lex (cs : List Char) : List Token :=
  (Scanner.mk "" 0 cs).tokens

/-- The tokens from a place on depend only on the characters from there on. -/
theorem Scanner.tokens_congr : ∀ {n : Nat} {s s' : Scanner}, s.rest.length ≤ n →
    s.rest = s'.rest → s.tokens = s'.tokens := by
  intro n
  induction n with
  | zero =>
    intro s s' hn hrest
    have hnil := List.length_eq_zero_iff.mp (Nat.le_zero.mp hn)
    rw [tokens_of_lexeme?_eq_none (s := s) (by simp [lexeme?, rest_skipBlanks, hnil]),
      tokens_of_lexeme?_eq_none (s := s') (by simp [lexeme?, rest_skipBlanks, ← hrest, hnil])]
  | succ n ih =>
    intro s s' hn hrest
    have hlexeme : s'.skipBlanks.lexeme? = s.skipBlanks.lexeme? := by
      unfold lexeme?
      rw [rest_skipBlanks, rest_skipBlanks, hrest]
    cases hl : s.skipBlanks.lexeme? with
    | none => rw [tokens_of_lexeme?_eq_none hl, tokens_of_lexeme?_eq_none (hlexeme.trans hl)]
    | some l =>
      have hlt := length_rest_lt_of_lexeme? hl
      rw [tokens_of_lexeme?_eq_some hl, tokens_of_lexeme?_eq_some (hlexeme.trans hl)]
      exact congrArg (l.token :: ·) (ih (by simp only [moveTo]; omega) rfl)

theorem Scanner.tokens_eq_lex (s : Scanner) : s.tokens = lex s.rest :=
  tokens_congr le_rfl rfl

theorem tokens_ofString (source : String) : (Scanner.ofString source).tokens = lex source.toList :=
  Scanner.tokens_eq_lex _

theorem lex_of_dropWhile_eq_nil {cs : List Char} (h : cs.dropWhile isBlank = []) : lex cs = [] :=
  Scanner.tokens_of_lexeme?_eq_none (by simp [Scanner.lexeme?, Scanner.rest_skipBlanks, h])

theorem lex_of_dropWhile_eq_cons {cs cs' : List Char} {c : Char}
    (h : cs.dropWhile isBlank = c :: cs') :
    lex cs = (Lexeme.cut c cs').token :: lex (Lexeme.cut c cs').rest := by
  have hl : (Scanner.mk "" 0 cs).skipBlanks.lexeme? = some (Lexeme.cut c cs') := by
    simp [Scanner.lexeme?, Scanner.rest_skipBlanks, h]
  rw [lex, Scanner.tokens_of_lexeme?_eq_some hl, Scanner.tokens_eq_lex]
  rfl

@[simp]
theorem lex_nil : lex [] = [] :=
  lex_of_dropWhile_eq_nil rfl

/-- Blanks in front of a text do not matter. -/
theorem lex_cons_of_isBlank {c : Char} (hc : isBlank c = true) (cs : List Char) :
    lex (c :: cs) = lex cs := by
  have hdrop : (c :: cs).dropWhile isBlank = cs.dropWhile isBlank := by simp [hc]
  cases h : cs.dropWhile isBlank with
  | nil => rw [lex_of_dropWhile_eq_nil h, lex_of_dropWhile_eq_nil (hdrop.trans h)]
  | cons c' cs' => rw [lex_of_dropWhile_eq_cons h, lex_of_dropWhile_eq_cons (hdrop.trans h)]

/-- At a character other than a blank, a token begins. -/
theorem lex_cons_of_not_isBlank {c : Char} (hc : isBlank c = false) (cs : List Char) :
    lex (c :: cs) = (Lexeme.cut c cs).token :: lex (Lexeme.cut c cs).rest :=
  lex_of_dropWhile_eq_cons (by simp [hc])

/-- A property of the tokens of all texts, by going through a text from its front. -/
theorem lex_induction {P : List Char → Prop} (nil : P [])
    (blank : ∀ c cs, isBlank c = true → P cs → P (c :: cs))
    (lexeme : ∀ c cs, isBlank c = false → P (Lexeme.cut c cs).rest → P (c :: cs))
    (cs : List Char) : P cs := by
  induction hn : cs.length using Nat.strong_induction_on generalizing cs with
  | _ n ih =>
    cases cs with
    | nil => exact nil
    | cons c cs =>
      rw [List.length_cons] at hn
      by_cases hc : isBlank c = true
      · exact blank c cs hc (ih cs.length (by omega) cs rfl)
      · have hlen := Lexeme.length_rest_cut_le c cs
        exact lexeme c cs (by simpa using hc) (ih _ (by omega) _ rfl)

/-- Every token of a text is genuine. -/
theorem genuine_of_mem_lex {cs : List Char} {t : Token} (ht : t ∈ lex cs) : t.Genuine := by
  induction cs using lex_induction with
  | nil => exact absurd ht (by simp)
  | blank c cs hc ih => exact ih (lex_cons_of_isBlank hc cs ▸ ht)
  | lexeme c cs hc ih =>
    rw [lex_cons_of_not_isBlank hc] at ht
    rcases List.mem_cons.mp ht with rfl | ht
    · exact Lexeme.genuine_token_cut hc cs
    · exact ih ht

/-- The characters of the tokens are those of the text without the blanks. -/
theorem flatMap_literal_lex (cs : List Char) :
    (lex cs).flatMap (fun t => t.literal.toList) = cs.filter fun c => !isBlank c := by
  induction cs using lex_induction with
  | nil => simp
  | blank c cs hc ih => rw [lex_cons_of_isBlank hc, ih, List.filter_cons_of_neg (by simp [hc])]
  | lexeme c cs hc ih =>
    have hchars : (Lexeme.cut c cs).chars.filter (fun c => !isBlank c) = (Lexeme.cut c cs).chars :=
      List.filter_eq_self.mpr fun c' hc' => by
        simpa using (isLexeme_cut hc cs).isBlank_eq_false c' hc'
    rw [lex_cons_of_not_isBlank hc, List.flatMap_cons, ih, ← Lexeme.chars_append_rest_cut c cs,
      List.filter_append, hchars]
    simp [Lexeme.token]

/-- A genuine token is found where its literal stands in front of a character that it does not take
with it. -/
theorem lex_append {t : Token} (ht : t.Genuine) {rest : List Char}
    (hrest : ∀ c ∈ rest.head?, ¬ t.kind.Takes c) :
    lex (t.literal.toList ++ rest) = t :: lex rest := by
  unfold Token.Genuine at ht
  cases hcs : t.literal.toList with
  | nil => exact absurd hcs ht.ne_nil
  | cons c cs =>
    rw [hcs] at ht
    rw [List.cons_append, lex_cons_of_not_isBlank (ht.isBlank_eq_false c (by simp)),
      ht.cut_append hrest]
    simp [Lexeme.token, ← hcs]

/-- The literals of tokens, separated by spaces. -/
def spaced (ts : List Token) : String :=
  " ".intercalate (ts.map Token.literal)

theorem toList_spaced_cons (t : Token) (ts : List Token) :
    (spaced (t :: ts)).toList =
      t.literal.toList ++ if ts = [] then [] else ' ' :: (spaced ts).toList := by
  unfold spaced
  cases ts with
  | nil => simp
  | cons t' ts => simp [String.intercalate_cons_cons]

/-- Genuine tokens are the tokens of their literals, separated by spaces. -/
theorem lex_spaced {ts : List Token} (hts : ∀ t ∈ ts, t.Genuine) : lex (spaced ts).toList = ts := by
  induction ts with
  | nil => simp [spaced]
  | cons t ts ih =>
    have hblank : isBlank ' ' = true := rfl
    rw [toList_spaced_cons, lex_append (hts t (by simp))]
    · split
      next hnil => simp [hnil]
      next => rw [lex_cons_of_isBlank hblank, ih fun t' ht' => hts t' (by simp [ht'])]
    · intro c hc
      split at hc
      next => exact absurd hc (by simp)
      next =>
        obtain rfl : ' ' = c := by simpa using hc
        exact Kind.not_takes_of_isBlank hblank _

end FrontEnd
