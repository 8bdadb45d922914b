import FrontEnd.Proofs.Acceptance
import FrontEnd.Proofs.Gluing
import Mathlib.Data.Nat.Digits.Defs

/-!
# Numbers in a text

The rule for integers reads the literal of a token as a numeral with an optional sign. The literals
of tokens are more special than that. Every numeral has a digit, and a token with a digit is a
number, all of digits; so signs, words and the end token are never taken for numbers, and a number
is read for what its digits stand for, unless this does not fit into 64 bits with a sign.

A sign in front of a number is an operator. It is read before the number and has no say in whether
the number fits: the least number of 64 bits cannot be written down.

## Main definitions

* `FrontEnd.Tape.Overflow` — the tape after operators and a number that is too large.

## Main results

* `FrontEnd.Text.decimal_eq_ofDigits` — the number that digits stand for is the one with these
  decimal digits.
* `FrontEnd.signed64?_literal` — the number that the literal of a token is read as.
* `FrontEnd.errors_operators_numeral` — the errors of operators in front of a number.
* `FrontEnd.integer_literals_exact` — integer literals are exact.
-/

namespace FrontEnd

open Window

/-! ### Numerals and tokens -/

namespace Text

/-- The number that digits stand for is the one with these decimal digits. Mathlib has the least
significant digit first. -/
theorem decimal_eq_ofDigits (cs : List Char) :
    decimal cs = Nat.ofDigits 10 (cs.reverse.map digitValue) := by
  induction cs using List.reverseRecOn with
  | nil => rfl
  | append_singleton cs c ih =>
    rw [decimal_concat, ih, List.reverse_append, List.reverse_singleton, List.singleton_append,
      List.map_cons, Nat.ofDigits_cons, Nat.add_comm]

theorem exists_isDigit_of_natural? {cs : List Char} {n : Nat} (h : natural? cs = some n) :
    ∃ c ∈ cs, c.isDigit = true := by
  obtain ⟨hne, hdigits, -⟩ := natural?_eq_some h
  exact ⟨cs.head hne, List.head_mem hne, List.all_eq_true.mp hdigits _ (List.head_mem hne)⟩

/-- A numeral has a digit: a sign alone is none, and neither is an empty text. -/
theorem exists_isDigit_of_signed64? {s : String} {value : Int} (h : signed64? s = some value) :
    ∃ c ∈ s.toList, c.isDigit = true := by
  unfold signed64? at h
  split at h
  next cs hcs =>
    obtain ⟨n, hn, -⟩ := Option.bind_eq_some_iff.mp h
    obtain ⟨c, hc, hdigit⟩ := exists_isDigit_of_natural? hn
    exact ⟨c, by simp [hcs, hc], hdigit⟩
  next cs hcs =>
    obtain ⟨n, hn, -⟩ := Option.bind_eq_some_iff.mp h
    obtain ⟨c, hc, hdigit⟩ := exists_isDigit_of_natural? hn
    exact ⟨c, by simp [hcs, hc], hdigit⟩
  next =>
    obtain ⟨n, hn, -⟩ := Option.bind_eq_some_iff.mp h
    exact exists_isDigit_of_natural? hn

theorem fit64?_natCast (n : Nat) :
    fit64? n = if n ≤ maxSigned64 then some (n : Int) else none := by
  split
  next h => exact fit64?_natCast_of_le h
  next h =>
    cases hvalue : fit64? n with
    | none => rfl
    | some value => exact absurd (le_of_fit64?_natCast hvalue) h

end Text

/-- A token of a text is a number, or nothing that could be read as one. -/
theorem signed64?_literal {source : String} {t : Token} (ht : t ∈ tokenize source) :
    Text.signed64? t.literal =
      if t.kind = .int ∧ Text.decimal t.literal.toList ≤ Text.maxSigned64 then
        some (Text.decimal t.literal.toList : Int)
      else none := by
  rw [tokenize_eq, List.mem_append, List.mem_singleton] at ht
  rcases ht with hmem | rfl
  · have hgenuine : t.Genuine := genuine_of_mem_lex hmem
    by_cases hkind : t.kind = .int
    · obtain ⟨n, hn⟩ := hgenuine.exists_natural? hkind
      obtain ⟨-, -, rfl⟩ := Text.natural?_eq_some hn
      rw [Text.signed64?_of_natural? hn, Text.fit64?_natCast]
      simp [hkind]
    · rw [if_neg fun h => hkind h.1]
      cases hvalue : Text.signed64? t.literal with
      | none => rfl
      | some value =>
        obtain ⟨c, hc, hdigit⟩ := Text.exists_isDigit_of_signed64? hvalue
        exact absurd ((IsLexeme.isWord_iff_of_mem hgenuine hc).2.mpr hdigit) hkind
  · rfl

/-! ### The rule for integers -/

namespace Parse

variable {ω : Type} [Window ω] {g : Grammar} {s : ω}

theorem leading_integer_of_some (n : Nat) {value : Int}
    (hvalue : Text.signed64? (current s).literal = some value) :
    leading g (n + 1) .integer s = some (some (.integer (current s) value), s) := by
  simp only [leading, hvalue]

theorem leading_integer_of_none (n : Nat) (hvalue : Text.signed64? (current s).literal = none) :
    leading g (n + 1) .integer s = some (none, record s (.badInteger (current s).literal)) := by
  simp only [leading, hvalue]

end Parse

/-! ### Numbers after operators -/

section Operators

variable {numeral : Token} {ops : List Token}

theorem Derives.operand_numeral (hkind : numeral.kind = .int) {n : Nat}
    (hvalue : Text.natural? numeral.literal.toList = some n) (hfits : n ≤ Text.maxSigned64)
    (hops : ∀ t ∈ ops, t.kind = .bang ∨ t.kind = .minus) :
    Derives .operand (ops ++ [numeral]) [] := by
  induction ops with
  | nil => exact .atom (.integer hkind hvalue hfits)
  | cons op ops ih => exact .unary (hops op (by simp)) (ih fun t ht => hops t (by simp [ht]))

/-- The number `numeral` is at the end of the tape, and that it is too large has been recorded after
other faults. -/
def Tape.Overflow (numeral : Token) (faults : List (List Token × ParseError)) (t : Tape) : Prop :=
  t = ⟨[numeral], faults ++ [([numeral], .badInteger numeral.literal)]⟩

/-- If no operand is read, no operator after it is looked at. -/
theorem Parse.expression_ensures_none {g : Grammar} {r : LeadingRule} {s : Tape} {Q : Tape → Prop}
    (hrule : g.leading (current s).kind = some r)
    (h : ∀ n, Ensures (fun e? t => e? = none ∧ Q t) (leading g n r s)) (n : Nat) (b : Power) :
    Ensures (fun e? t => e? = none ∧ Q t) (expression g n b s) := by
  cases n with
  | zero => exact .none
  | succ n =>
    unfold expression
    rw [hrule]
    refine (h n).bind fun e? t ht => ?_
    obtain ⟨rfl, ht⟩ := ht
    exact .some ⟨rfl, ht⟩

/-- Operators are passed up to a number that is too large, and nothing is read. -/
theorem overflow_expression (hkind : numeral.kind = .int)
    (hvalue : Text.signed64? numeral.literal = none)
    (hops : ∀ t ∈ ops, t.kind = .bang ∨ t.kind = .minus)
    (faults : List (List Token × ParseError)) (n : Nat) (b : Power) :
    Ensures (fun e? t => e? = none ∧ Tape.Overflow numeral faults t)
      (Parse.expression .standard n b (Tape.mk (ops ++ [numeral]) faults)) := by
  induction ops generalizing n b with
  | nil =>
    have hrule : Grammar.standard.leading numeral.kind = some .integer := by rw [hkind]; rfl
    refine Parse.expression_ensures_none hrule (fun n => ?_) n b
    cases n with
    | zero => exact .none
    | succ n =>
      have hcurrent : Text.signed64? (current (Tape.mk ([] ++ [numeral]) faults)).literal = none :=
        hvalue
      rw [Parse.leading_integer_of_none n hcurrent]
      exact .some ⟨rfl, rfl⟩
  | cons op ops ih =>
    have hrule : Grammar.standard.leading op.kind = some .unary := by
      rcases hops op (by simp) with hop | hop <;> rw [hop] <;> rfl
    refine Parse.expression_ensures_none hrule (fun n => ?_) n b
    cases n with
    | zero => exact .none
    | succ n =>
      refine (ih (fun t ht => hops t (by simp [ht])) n .unary).bind fun operand? t ht => ?_
      obtain ⟨rfl, ht⟩ := ht
      exact .some ⟨rfl, ht⟩

/-- Operators and a number are a statement of their own. -/
theorem exists_leading_front (hkind : numeral.kind = .int)
    (hops : ∀ t ∈ ops, t.kind = .bang ∨ t.kind = .minus) :
    ∃ r, Grammar.standard.leading (front (ops ++ [numeral])).kind = some r := by
  cases ops with
  | nil => exact ⟨.integer, by rw [List.nil_append, front_cons, hkind]; rfl⟩
  | cons op ops =>
    refine ⟨.unary, Grammar.leading_standard.mpr ?_⟩
    simpa [LeadingRule.kinds] using hops op (by simp)

theorem overflow_statement (hkind : numeral.kind = .int)
    (hvalue : Text.signed64? numeral.literal = none)
    (hops : ∀ t ∈ ops, t.kind = .bang ∨ t.kind = .minus)
    (faults : List (List Token × ParseError)) (n : Nat) :
    Ensures (fun s? t => s? = none ∧ Tape.Overflow numeral faults t)
      (Parse.statement .standard n (Tape.mk (ops ++ [numeral]) faults)) := by
  obtain ⟨r, hr⟩ := exists_leading_front hkind hops
  obtain _ | _ | n := n
  · exact .none
  · exact .none
  · unfold Parse.statement
    rw [Tape.current_eq, (Grammar.statement_of_leading hr).1]
    refine (overflow_expression hkind hvalue hops faults n .lowest).bind fun e? t ht => ?_
    obtain ⟨rfl, rfl⟩ := ht
    exact .some ⟨rfl, rfl⟩

/-- Operators and a number that is too large give no statement and one error. -/
theorem overflow_statements (hkind : numeral.kind = .int)
    (hvalue : Text.signed64? numeral.literal = none)
    (hops : ∀ t ∈ ops, t.kind = .bang ∨ t.kind = .minus)
    (faults : List (List Token × ParseError)) (n : Nat) :
    Ensures (fun (ss : List Stmt) (t : Tape) => ss = [] ∧
        t.faults = faults ++ [([numeral], .badInteger numeral.literal)])
      (Parse.statements .standard n [.eof] (Tape.mk (ops ++ [numeral]) faults)) := by
  obtain ⟨r, hr⟩ := exists_leading_front hkind hops
  have hstop : (current (Tape.mk (ops ++ [numeral]) faults)).kind ∉ [Kind.eof] := fun hmem =>
    (Grammar.statement_of_leading hr).2 (List.mem_cons_of_mem _ hmem)
  obtain _ | _ | n := n
  · exact .none
  · rw [Parse.statements, if_neg hstop]
    exact .none
  · rw [Parse.statements, if_neg hstop]
    refine (overflow_statement hkind hvalue hops faults (n + 1)).bind fun s? t ht => ?_
    obtain ⟨rfl, rfl⟩ := ht
    exact .some ⟨rfl, rfl⟩

end Operators

/-! ### Main results -/

/-- The errors of a text of operators in front of a number: there is one if and only if the digits
alone are too large, whatever the operators. -/
theorem errors_operators_numeral {source : String} {ops : List Token} {digits : String}
    (hops : ∀ t ∈ ops, t.kind = .bang ∨ t.kind = .minus)
    (hsource : tokenize source = ops ++ [⟨.int, digits⟩, .eof]) :
    (parse source).errors =
      if Text.decimal digits.toList ≤ Text.maxSigned64 then [] else [.badInteger digits] := by
  have hlex : lex source.toList = ops ++ [⟨.int, digits⟩] := by
    have happend : lex source.toList ++ [.eof] = (ops ++ [⟨.int, digits⟩]) ++ [.eof] := by
      rw [← tokenize_eq, hsource, List.append_assoc]
      rfl
    exact List.append_cancel_right happend
  have hmem : ⟨.int, digits⟩ ∈ lex source.toList := by simp [hlex]
  have hgenuine : Token.Genuine ⟨.int, digits⟩ := genuine_of_mem_lex hmem
  obtain ⟨n, hn⟩ := hgenuine.exists_natural? rfl
  obtain ⟨-, -, rfl⟩ := Text.natural?_eq_some hn
  split
  next hfits =>
    refine errors_eq_nil_of_derives ?_
    rw [hlex]
    exact .cons (.bare (.expression (.operand (.operand_numeral rfl hn hfits hops)))) .nil
  next hfits =>
    have hvalue : Text.signed64? (Token.mk .int digits).literal = none := by
      refine (Text.signed64?_of_natural? hn).trans ?_
      rw [Text.fit64?_natCast, if_neg hfits]
    have hoverflow := overflow_statements rfl hvalue hops []
    rw [← hlex] at hoverflow
    obtain ⟨ss, t, ⟨-, hfaults⟩, hparse, -⟩ := parse_of_ensures hoverflow
    rw [hparse, hfaults]
    rfl

/-- **Integer literals are exact up to the largest number of 64 bits with a sign.** Whatever token
of a text is current, the rule for integers reads it as a number if and only if it is one with at
most this value, however many digits it is written with. Otherwise it reads nothing and records one
error with the literal. In both cases it stays where it is. So operators in front of a number do not
matter: there is an error if and only if the digits alone are too large. -/
theorem integer_literals_exact (source : String) :
    (∀ {σ : Type} [TokenSource σ] (g : Grammar) (fuel : Nat) (s : ParseState σ),
      s.current ∈ tokenize source →
        Parse.leading g (fuel + 1) .integer s =
          if s.current.kind = .int ∧ Text.decimal s.current.literal.toList ≤ Text.maxSigned64 then
            some (some (.integer s.current (Text.decimal s.current.literal.toList)), s)
          else
            some (none, { s with errors := s.errors.push (.badInteger s.current.literal) })) ∧
      ∀ (ops : List Token) (digits : String), (∀ t ∈ ops, t.kind = .bang ∨ t.kind = .minus) →
        tokenize source = ops ++ [⟨.int, digits⟩, .eof] →
          (parse source).errors =
            if Text.decimal digits.toList ≤ Text.maxSigned64 then [] else [.badInteger digits] := by
  refine ⟨fun g fuel s hs => ?_, fun ops digits => errors_operators_numeral⟩
  have hvalue := signed64?_literal hs
  by_cases hfits : s.current.kind = .int ∧ Text.decimal s.current.literal.toList ≤ Text.maxSigned64
  · rw [if_pos hfits] at hvalue ⊢
    exact Parse.leading_integer_of_some fuel hvalue
  · rw [if_neg hfits] at hvalue ⊢
    exact Parse.leading_integer_of_none fuel hvalue

/-- A sign alone is no number, the least number of 64 bits with a sign cannot be written down, and
zeros in front do not count. -/
theorem integer_literals_exact_least :
    Parse.leading .standard 1 .integer (ParseState.mk ⟨.minus, "-"⟩ .eof ([] : List Token) #[]) =
        some (none, ⟨⟨.minus, "-"⟩, .eof, [], #[.badInteger "-"]⟩) ∧
      (parse "-9223372036854775808").errors = [.badInteger "9223372036854775808"] ∧
      (parse "!- 0000000000009223372036854775807").errors = [] := by
  have hsign := (integer_literals_exact "-").1 .standard 0
    (ParseState.mk ⟨.minus, "-"⟩ .eof ([] : List Token) #[]) (by decide +kernel)
  have hlarge := (integer_literals_exact "-9223372036854775808").2 [⟨.minus, "-"⟩]
    "9223372036854775808" (by decide) (by decide +kernel)
  have hsmall := (integer_literals_exact "!- 0000000000009223372036854775807").2
    [⟨.bang, "!"⟩, ⟨.minus, "-"⟩] "0000000000009223372036854775807" (by decide) (by decide +kernel)
  rw [if_neg (by decide)] at hsign
  rw [if_neg (by decide +kernel)] at hlarge
  rw [if_pos (by decide +kernel)] at hsmall
  exact ⟨hsign, hlarge, hsmall⟩

end FrontEnd
