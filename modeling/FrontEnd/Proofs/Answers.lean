import FrontEnd.Proofs.Charges
import FrontEnd.Proofs.Consistency
import FrontEnd.Proofs.Transcript

/-!
# What an answer tells

An answer is read back without loss. It shows whether the line had errors, and then it gives either
all of them, in order, or the canonical form. So two lines have the same answer only if both have no
errors and the same canonical form, or both have errors and the same ones.

An answer is taken apart at its line feeds, since there are none inside its lines. A character that
starts no token of another kind reaches neither a tree nor a message: whatever the text, canonical
forms and messages are made of letters, digits, blanks and a few marks. A message is then taken
apart by its first character, which gives the sort of the error, and by the comma between the names
of two kinds, neither of which has a comma inside.

## Main definitions

* `FrontEnd.Text.ConsistsOf` — all characters of a text are of a class.
* `FrontEnd.Text.isPrintable`, `FrontEnd.isRendered` — the characters of messages and of canonical
  forms.

## Main results

* `FrontEnd.ParseError.message_injective` — a message determines its error.
* `FrontEnd.consistsOf_render_parse`, `FrontEnd.consistsOf_message` — the characters of the
  canonical form of a text, and of the messages of its errors.
* `FrontEnd.Session.answerLines_eq_of_answerTo_eq` — an answer determines its lines.
* `FrontEnd.Session.response_toUTF8_eq_iff` — when two answers are the same.
-/

namespace FrontEnd

/-! ### Texts taken apart -/

namespace Text

/-- The printable characters of ASCII, among which there is neither a line break nor a tab. -/
def isPrintable (c : Char) : Bool :=
  32 ≤ c.toNat && c.toNat < 127

/-- All characters of the text are of a class. -/
def ConsistsOf (p : Char → Bool) (s : String) : Prop :=
  s.toList.all p = true

instance (p : Char → Bool) (s : String) : Decidable (ConsistsOf p s) :=
  inferInstanceAs (Decidable (_ = true))

theorem consistsOf_iff {p : Char → Bool} {s : String} :
    ConsistsOf p s ↔ ∀ c ∈ s.toList, p c = true :=
  List.all_eq_true

@[simp]
theorem consistsOf_append (p : Char → Bool) (s t : String) :
    ConsistsOf p (s ++ t) ↔ ConsistsOf p s ∧ ConsistsOf p t := by
  simp [ConsistsOf]

theorem ConsistsOf.mono {p q : Char → Bool} {s : String} (h : ConsistsOf p s)
    (hpq : ∀ {c}, p c = true → q c = true) : ConsistsOf q s :=
  consistsOf_iff.mpr fun c hc => hpq (consistsOf_iff.mp h c hc)

theorem ConsistsOf.notMem {p : Char → Bool} {s : String} (h : ConsistsOf p s) {c : Char}
    (hc : p c = false) : c ∉ s.toList := fun hmem =>
  Bool.false_ne_true (hc.symm.trans (consistsOf_iff.mp h c hmem))

/-- Two texts that are the same have the same part before the first occurrence of a character, and
the same part after it. -/
theorem append_cons_inj {c : Char} {cs cs' ds ds' : List Char} (hcs : c ∉ cs) (hcs' : c ∉ cs')
    (h : cs ++ c :: ds = cs' ++ c :: ds') : cs = cs' ∧ ds = ds' := by
  have hsplit {l : List Char} (hl : c ∉ l) (r : List Char) :
      (l ++ c :: r).takeWhile (· != c) = l ∧ (l ++ c :: r).dropWhile (· != c) = c :: r := by
    refine takeWhile_append_eq (fun d hd => ?_) (by simp)
    rw [bne_iff_ne]
    exact ne_of_mem_of_not_mem hd hl
  obtain ⟨htake, hdrop⟩ := hsplit hcs ds
  obtain ⟨htake', hdrop'⟩ := hsplit hcs' ds'
  rw [← h] at htake' hdrop'
  exact ⟨htake.symm.trans htake', (List.cons.inj (hdrop.symm.trans hdrop')).2⟩

/-- Lines without a line feed inside are determined by the text that they make up. -/
theorem join_lines_inj {ls ls' : List String} (hls : ∀ l ∈ ls, '\n' ∉ l.toList)
    (hls' : ∀ l ∈ ls', '\n' ∉ l.toList)
    (h : String.join (ls.map (· ++ "\n")) = String.join (ls'.map (· ++ "\n"))) : ls = ls' := by
  have hcons (l : String) (ls : List String) :
      (String.join ((l :: ls).map (· ++ "\n"))).toList =
        l.toList ++ '\n' :: (String.join (ls.map (· ++ "\n"))).toList := by
    simp
  induction ls generalizing ls' with
  | nil =>
    cases ls' with
    | nil => rfl
    | cons l' ls' => simpa [hcons] using congrArg String.toList h
  | cons l ls ih =>
    cases ls' with
    | nil => simpa [hcons] using congrArg String.toList h
    | cons l' ls' =>
      rw [← String.toList_inj, hcons, hcons] at h
      obtain ⟨hl, hrest⟩ :=
        append_cons_inj (hls l List.mem_cons_self) (hls' l' List.mem_cons_self) h
      have htail := ih (fun l hl => hls l (List.mem_cons_of_mem _ hl))
        (fun l hl => hls' l (List.mem_cons_of_mem _ hl)) (String.toList_inj.mp hrest)
      rw [String.toList_inj.mp hl, htail]

end Text

/-! ### Messages -/

theorem Kind.ofName?_name (k : Kind) : Kind.ofName? k.name = some k := by
  cases k <;> decide

theorem Kind.name_injective : Function.Injective Kind.name := by
  intro k k' h
  have hsome : some k = some k' := by rw [← k.ofName?_name, h, k'.ofName?_name]
  exact Option.some.inj hsome

theorem Kind.consistsOf_name (k : Kind) : Text.ConsistsOf isLetter k.name := by
  cases k <;> decide

theorem Kind.comma_notMem_name (k : Kind) : ',' ∉ k.name.toList :=
  k.consistsOf_name.notMem (by decide)

namespace ParseError

@[simp]
theorem message_noExpression (k : Kind) :
    (noExpression k).message = "no prefix parse function for " ++ k.name ++ " found" := rfl

@[simp]
theorem message_unexpected (k found : Kind) :
    (unexpected k found).message =
      "expected next token to be " ++ k.name ++ ", got " ++ found.name ++ " instead" := rfl

@[simp]
theorem message_badInteger (literal : String) :
    (badInteger literal).message = "could not parse " ++ literal ++ " as an integer" := rfl

/-- The first character of the message, which gives the sort of the error. -/
def initial : ParseError → Char
  | noExpression _ => 'n'
  | unexpected _ _ => 'e'
  | badInteger _ => 'c'

theorem head?_message (e : ParseError) : e.message.toList.head? = some e.initial := by
  cases e <;> simp [initial]

/-- The name of the kind that was expected ends at the comma after it. -/
theorem kinds_eq_of_append_comma {k k' found found' : Kind}
    (h : k.name ++ (", got " ++ (found.name ++ " instead")) =
      k'.name ++ (", got " ++ (found'.name ++ " instead"))) : k = k' ∧ found = found' := by
  have hcomma (k : Kind) (rest : String) :
      (k.name ++ (", got " ++ rest)).toList = k.name.toList ++ ',' :: (" got " ++ rest).toList := by
    simp
  rw [← String.toList_inj, hcomma, hcomma] at h
  obtain ⟨hk, hrest⟩ := Text.append_cons_inj k.comma_notMem_name k'.comma_notMem_name h
  rw [String.toList_inj, String.append_right_inj, String.append_left_inj] at hrest
  exact ⟨Kind.name_injective (String.toList_inj.mp hk), Kind.name_injective hrest⟩

/-- **A message determines its error.** -/
theorem message_injective : Function.Injective message := by
  intro e e' h
  have hinitial : e.initial = e'.initial :=
    Option.some.inj (by rw [← head?_message, h, head?_message])
  cases e with
  | noExpression k =>
    cases e' with
    | noExpression k' =>
      rw [message_noExpression, message_noExpression, String.append_left_inj,
        String.append_right_inj] at h
      rw [Kind.name_injective h]
    | _ => exact absurd hinitial (by simp [initial])
  | unexpected k found =>
    cases e' with
    | unexpected k' found' =>
      simp only [message_unexpected, String.append_assoc, String.append_right_inj] at h
      obtain ⟨rfl, rfl⟩ := kinds_eq_of_append_comma h
      rfl
    | _ => exact absurd hinitial (by simp [initial])
  | badInteger literal =>
    cases e' with
    | badInteger literal' =>
      rw [message_badInteger, message_badInteger, String.append_left_inj,
        String.append_right_inj] at h
      rw [h]
    | _ => exact absurd hinitial (by simp [initial])

end ParseError

/-! ### The characters of answers -/

theorem Text.isPrintable_of_isLetter {c : Char} (h : isLetter c = true) : isPrintable c = true := by
  have hletter : c.isAlpha = (decide ('A'.val ≤ c.val ∧ c.val ≤ 'Z'.val) ||
      (decide ('a'.val ≤ c.val) && decide (c.val ≤ 'z'.val))) := rfl
  simp only [isLetter, hletter, UInt32.le_iff_toNat_le, Bool.or_eq_true, Bool.and_eq_true,
    decide_eq_true_eq, beq_iff_eq] at h
  change ((65 ≤ c.toNat ∧ c.toNat ≤ 90) ∨ (97 ≤ c.toNat ∧ c.toNat ≤ 122)) ∨ c = '_' at h
  rcases h with h | rfl
  · simp only [isPrintable, Bool.and_eq_true, decide_eq_true_eq]
    omega
  · rfl

theorem Text.isPrintable_of_isDigit {c : Char} (h : isDigit c = true) : isPrintable c = true := by
  simp only [isDigit, Char.isDigit, Bool.and_eq_true, decide_eq_true_eq, ge_iff_le,
    UInt32.le_iff_toNat_le] at h
  change 48 ≤ c.toNat ∧ c.toNat ≤ 57 at h
  simp only [isPrintable, Bool.and_eq_true, decide_eq_true_eq]
  omega

/-- The characters of canonical forms: letters, digits, and the marks that are rendered. -/
def isRendered (c : Char) : Bool :=
  isLetter c || isDigit c || " ()=;+-!*/<>".toList.contains c

theorem isRendered_of_isLetter {c : Char} (h : isLetter c = true) : isRendered c = true := by
  simp [isRendered, h]

theorem isRendered_of_isDigit {c : Char} (h : isDigit c = true) : isRendered c = true := by
  simp [isRendered, h]

/-- What is rendered is printable, and is no colon. -/
theorem isPrintable_of_isRendered {c : Char} (h : isRendered c = true) :
    Text.isPrintable c = true ∧ c ≠ ':' := by
  constructor
  · rw [isRendered, Bool.or_eq_true, Bool.or_eq_true] at h
    rcases h with (h | h) | h
    · exact Text.isPrintable_of_isLetter h
    · exact Text.isPrintable_of_isDigit h
    · have hmarks : " ()=;+-!*/<>".toList.all Text.isPrintable = true := by decide
      exact List.all_eq_true.mp hmarks c (List.contains_iff_mem.mp h)
  · rintro rfl
    exact absurd h (by decide)

open Text (ConsistsOf)

/-- What rendering adds besides the texts of a tree. -/
theorem consistsOf_layout : ConsistsOf isRendered "" ∧ ConsistsOf isRendered "(" ∧
    ConsistsOf isRendered ")" ∧ ConsistsOf isRendered " " ∧ ConsistsOf isRendered ";" ∧
    ConsistsOf isRendered " = " ∧ ConsistsOf isRendered " = ;" ∧ ConsistsOf isRendered "if" ∧
    ConsistsOf isRendered "else " := by
  decide

theorem consistsOf_keywords : ConsistsOf isRendered (Token.ofKind .letKey).literal ∧
    ConsistsOf isRendered (Token.ofKind .returnKey).literal := by
  decide

theorem consistsOf_operator {k : Kind} (hk : k ∈ [Kind.bang, .minus] ∨ k.IsOperator) :
    ConsistsOf isRendered (Token.ofKind k).literal := by
  revert hk
  cases k <;> decide

theorem Identifier.WellFormed.consistsOf_value {name : Identifier} (h : name.WellFormed) :
    ConsistsOf isRendered name.value :=
  (Text.consistsOf_iff.mpr h.isLetter).mono isRendered_of_isLetter

theorem Text.consistsOf_of_natural? {literal : String} {n : Nat}
    (h : natural? literal.toList = some n) : ConsistsOf isDigit literal :=
  (natural?_eq_some h).2.1

mutual

theorem Expr.WellFormed.consistsOf_render : ∀ {e : Expr}, e.WellFormed →
    ConsistsOf isRendered e.render
  | .identifier name, h => by
    rw [Expr.WellFormed] at h
    rw [Expr.render]
    exact h.consistsOf_value
  | .integer t value, h => by
    rw [Expr.WellFormed] at h
    obtain ⟨-, n, hn, -⟩ := h
    rw [Expr.render]
    exact (Text.consistsOf_of_natural? hn).mono isRendered_of_isDigit
  | .boolean t value, h => by
    rw [Expr.WellFormed] at h
    rw [Expr.render, h]
    cases value <;> decide
  | .unary t operator operand, h => by
    rw [Expr.WellFormed] at h
    obtain ⟨hk, ht, hop, hoperand⟩ := h
    have hliteral : ConsistsOf isRendered t.literal := by
      rw [ht]
      exact consistsOf_operator (.inl hk)
    rw [Expr.render, hop]
    simp [consistsOf_layout, hliteral, hoperand.consistsOf_render]
  | .binary t left operator right, h => by
    rw [Expr.WellFormed] at h
    obtain ⟨hk, ht, hop, hleft, hright⟩ := h
    have hliteral : ConsistsOf isRendered t.literal := by
      rw [ht]
      exact consistsOf_operator (.inr hk)
    rw [Expr.render, hop]
    simp [consistsOf_layout, hliteral, hleft.consistsOf_render, hright.consistsOf_render]
  | .conditional t condition consequence none, h => by
    rw [Expr.WellFormed] at h
    obtain ⟨-, hcondition, hconsequence⟩ := h
    rw [Expr.render]
    simp [consistsOf_layout, hcondition.consistsOf_render, hconsequence.consistsOf_render]
  | .conditional t condition consequence (some alternative), h => by
    rw [Expr.WellFormed] at h
    obtain ⟨-, hcondition, hconsequence, halternative⟩ := h
    rw [Expr.render]
    simp [consistsOf_layout, hcondition.consistsOf_render, hconsequence.consistsOf_render,
      halternative.consistsOf_render]

theorem Stmt.WellFormed.consistsOf_render : ∀ {s : Stmt}, s.WellFormed →
    ConsistsOf isRendered s.render
  | .binding t name none, h => by
    rw [Stmt.WellFormed] at h
    obtain ⟨rfl, hname⟩ := h
    rw [Stmt.render]
    simp [consistsOf_layout, consistsOf_keywords, hname.consistsOf_value]
  | .binding t name (some value), h => by
    rw [Stmt.WellFormed] at h
    obtain ⟨rfl, hname, hvalue⟩ := h
    rw [Stmt.render]
    simp [consistsOf_layout, consistsOf_keywords, hname.consistsOf_value, hvalue.consistsOf_render]
  | .result t none, h => by
    rw [Stmt.WellFormed] at h
    subst h
    rw [Stmt.render]
    simp [consistsOf_layout, consistsOf_keywords]
  | .result t (some value), h => by
    rw [Stmt.WellFormed] at h
    obtain ⟨rfl, hvalue⟩ := h
    rw [Stmt.render]
    simp [consistsOf_layout, consistsOf_keywords, hvalue.consistsOf_render]
  | .expression t expr, h => by
    rw [Stmt.WellFormed] at h
    rw [Stmt.render]
    exact h.consistsOf_render

theorem Block.WellFormed.consistsOf_render : ∀ {b : Block}, b.WellFormed →
    ConsistsOf isRendered b.render
  | .mk t statements, h => by
    rw [Block.WellFormed] at h
    rw [Block.render]
    exact Stmt.AllWellFormed.consistsOf_renderAll h.2

theorem Stmt.AllWellFormed.consistsOf_renderAll : ∀ {ss : List Stmt}, Stmt.AllWellFormed ss →
    ConsistsOf isRendered (Stmt.renderAll ss)
  | [], _ => by
    rw [Stmt.renderAll]
    exact consistsOf_layout.1
  | s :: ss, h => by
    rw [Stmt.AllWellFormed] at h
    rw [Stmt.renderAll, Text.consistsOf_append]
    exact ⟨h.1.consistsOf_render, Stmt.AllWellFormed.consistsOf_renderAll h.2⟩

end

/-- The program of a text is well-formed, so nothing else is rendered. -/
theorem consistsOf_render_parse (source : String) :
    ConsistsOf isRendered (parse source).program.render := by
  obtain ⟨ss, t, ⟨hss, -⟩, hparse, -⟩ := parse_of_ensures fun n =>
    (Tape.readsConsistent n).statements [.eof] (Tape.ofTokens (lex source.toList))
      fun _ hu => genuine_of_mem_lex hu
  rw [hparse]
  exact hss.wellFormed.consistsOf_renderAll

/-- The words of messages, without the names and literals among them. -/
theorem consistsOf_words : ConsistsOf Text.isPrintable "no prefix parse function for " ∧
    ConsistsOf Text.isPrintable " found" ∧
    ConsistsOf Text.isPrintable "expected next token to be " ∧
    ConsistsOf Text.isPrintable ", got " ∧ ConsistsOf Text.isPrintable " instead" ∧
    ConsistsOf Text.isPrintable "could not parse " ∧
    ConsistsOf Text.isPrintable " as an integer" := by
  decide

/-- A literal that cannot be read is a run of digits, so no other character gets into a message. -/
theorem consistsOf_message {source : String} {e : ParseError} (he : e ∈ (parse source).errors) :
    ConsistsOf Text.isPrintable e.message := by
  have hname (k : Kind) : ConsistsOf Text.isPrintable k.name :=
    k.consistsOf_name.mono Text.isPrintable_of_isLetter
  cases e with
  | noExpression k => simp [consistsOf_words, hname]
  | unexpected k found => simp [consistsOf_words, hname]
  | badInteger literal =>
    obtain ⟨us, vs, hus, hcharge⟩ := exists_chargedTo he
    obtain ⟨-, n, hn, -⟩ := hcharge.isTrue hus
    have hdigits := (Text.consistsOf_of_natural? hn).mono Text.isPrintable_of_isDigit
    simp [consistsOf_words, hdigits]

/-! ### Answers -/

namespace Session

/-- There is no line feed inside the lines of an answer. -/
theorem lineFeed_notMem_of_mem_answerLines {source l : String} (hl : l ∈ answerLines source) :
    '\n' ∉ l.toList := by
  unfold answerLines at hl
  split at hl
  · rw [List.mem_singleton.mp hl]
    exact (consistsOf_render_parse source).notMem (by decide)
  · rcases List.mem_cons.mp hl with rfl | hl
    · decide
    · obtain ⟨e, he, rfl⟩ := List.mem_map.mp hl
      simpa using (consistsOf_message he).notMem (c := '\n') (by decide)

/-- An answer determines its lines. -/
theorem answerLines_eq_of_answerTo_eq {source source' : String}
    (h : answerTo source = answerTo source') : answerLines source = answerLines source' := by
  have hlines (source : String) : ∀ l ∈ answerLines source, '\n' ∉ l.toList :=
    fun _ => lineFeed_notMem_of_mem_answerLines
  exact Text.join_lines_inj (hlines source) (hlines source') h

/-- The lines of an answer determine whether there are errors, and which, or else the canonical
form. A report has a line for every error besides its heading, so it has more lines than a canonical
form. -/
theorem answerLines_eq_iff {source source' : String} :
    answerLines source = answerLines source' ↔
      ((parse source).errors = [] ∧ (parse source').errors = [] ∧
        (parse source).program.render = (parse source').program.render) ∨
      ((parse source).errors ≠ [] ∧ (parse source').errors ≠ [] ∧
        (parse source).errors = (parse source').errors) := by
  have hreport : Function.Injective fun e : ParseError => "\t" ++ e.message := fun e e' h =>
    ParseError.message_injective ((String.append_right_inj _).mp h)
  unfold answerLines
  by_cases h : (parse source).errors = [] <;> by_cases h' : (parse source').errors = []
  · simp [h, h']
  · simp [h, h']
  · simp [h, h']
  · simp [h, h', hreport.list_map.eq_iff]

/-- **What an answer tells.** The bytes of the answers to two lines are the same if and only if both
lines have no errors and the same canonical form, or both have errors, and the same ones. All
characters of a canonical form are printable ASCII characters, and so are those of the messages of a
text, among which there are neither line breaks nor tabs; in a canonical form there is no colon
either. And errors that are different have different messages. -/
theorem response_toUTF8_eq_iff :
    (∀ source source' : String, (response source).toUTF8 = (response source').toUTF8 ↔
      ((parse source).errors = [] ∧ (parse source').errors = [] ∧
        (parse source).program.render = (parse source').program.render) ∨
      ((parse source).errors ≠ [] ∧ (parse source').errors ≠ [] ∧
        (parse source).errors = (parse source').errors)) ∧
    (∀ source : String,
      (∀ c ∈ (parse source).program.render.toList, Text.isPrintable c = true ∧ c ≠ ':') ∧
      ∀ e ∈ (parse source).errors, ∀ c ∈ e.message.toList, Text.isPrintable c = true) ∧
    Function.Injective ParseError.message := by
  refine ⟨fun source source' => ?_, fun source => ⟨fun c hc => ?_, fun e he c hc => ?_⟩,
    ParseError.message_injective⟩
  · rw [String.toUTF8_eq_toByteArray, String.toUTF8_eq_toByteArray, String.toByteArray_inj,
      response_eq, response_eq, ← answerLines_eq_iff]
    exact ⟨answerLines_eq_of_answerTo_eq, fun h => by rw [answerTo, answerTo, h]⟩
  · exact isPrintable_of_isRendered (Text.consistsOf_iff.mp (consistsOf_render_parse source) c hc)
  · exact Text.consistsOf_iff.mp (consistsOf_message he) c hc

/-- Two texts with the same canonical form, which is the answer to both, and two with different
errors. -/
theorem response_toUTF8_eq_iff_parentheses :
    response "-a * b" = "((-a) * b)\n" ∧
      (response "-a * b").toUTF8 = (response "((-a)*b);").toUTF8 ∧
      response "(a" =
        "Parser errors:\n\texpected next token to be RPAREN, got EOF instead\n" ∧
      (response "(a").toUTF8 ≠ (response "(a]").toUTF8 := by
  obtain ⟨hiff, -, -⟩ := response_toUTF8_eq_iff
  have hform : (parse "-a * b").errors = [] ∧ (parse "((-a)*b);").errors = [] ∧
      (parse "-a * b").program.render = (parse "((-a)*b);").program.render := by decide +kernel
  have herrors : (parse "(a").errors ≠ [] ∧ (parse "(a").errors ≠ (parse "(a]").errors := by
    decide +kernel
  refine ⟨by decide +kernel, (hiff _ _).mpr (.inl hform), by decide +kernel, fun h => ?_⟩
  rcases (hiff _ _).mp h with ⟨hnil, -⟩ | ⟨-, -, heq⟩
  · exact herrors.1 hnil
  · exact herrors.2 heq

end Session

end FrontEnd
