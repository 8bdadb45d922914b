import FrontEnd.Proofs.Outcome
import Mathlib.Data.List.Forall2
import Mathlib.Data.List.Nodup
import Mathlib.Data.List.Perm.Subperm

/-!
# Every error has a token of its own

Errors come in cascades: a group or a conditional goes on after a part of it could not be read, and
every construct that is still open at the end of the text has an error of its own. Still there are
never more errors than tokens. Each error is *charged* to a token: one about the current token to
this token, and one about a token that was expected next to the token with which the construct began
that asked for it, a parenthesis, `if` or `let`. No token is charged twice, since an expression is
begun at most once at each token, the end token included, and a construct breaks off after its first
error.

The invariant of a reading is that its errors are charged to different tokens from its first token
on, and up to the token where it stops. The charges of readings that follow each other are then
different, as long as the later one begins behind the token where the earlier one stopped.

A charge says all that there is to be known about its error, so it also shows that the error is
true.

## Main definitions

* `FrontEnd.Kind.expects` — what a construct may ask for.
* `FrontEnd.BreaksOff` — a construct that ends with an error of its own.
* `FrontEnd.ChargedTo`, `FrontEnd.Charge` — errors and the tokens that they are charged to.
* `FrontEnd.Tape.Charges` — the errors of a reading are charged to different tokens.
* `FrontEnd.ParseError.IsTrue` — what an error says is so.

## Main results

* `FrontEnd.Tape.readsCharged` — the errors of every reading are charged to different tokens.
* `FrontEnd.exists_charges` — and so are those of every text.
* `FrontEnd.errors_charged_to_tokens` — there are at most as many errors as tokens.
* `FrontEnd.isTrue_of_mem_errors` — every error is true.
-/

namespace FrontEnd

open Window

/-! ### Charges -/

/-- The kinds of tokens that a construct asks for, by the kind of the token that it begins with: a
group, a conditional or a binding. Other tokens begin nothing that asks for a token. -/
def Kind.expects : Kind → List Kind
  | .lparen => [.rparen]
  | .ifKey => [.lparen, .rparen, .lbrace]
  | .letKey => [.ident, .assign]
  | _ => []

/-- The construct that begins at the current token of the tape `s` *breaks off* at the tape `t`: its
reading gives nothing, and the last thing that it does is to record that the next token is not of
the kind `k`. -/
inductive BreaksOff (s t : Tape) (k : Kind) : Prop
  | operand {n : Nat} {r : LeadingRule}
      (hrule : Grammar.standard.leading (current s).kind = some r)
      (hread : Parse.leading .standard n r s =
        some (none, record t (.unexpected k (peek t).kind)))
  | statement {n : Nat} {r : StatementRule}
      (hrule : Grammar.standard.statement (current s).kind = some r)
      (hread : Parse.opening .standard n r s =
        some (none, record t (.unexpected k (peek t).kind)))

/-- An error, given with the tokens from the one on that it speaks of, is *charged* to the first of
the tokens `us`. -/
inductive ChargedTo (us : List Token) : List Token × ParseError → Prop
  | noExpression (hrule : Grammar.standard.leading (front us).kind = none) :
      ChargedTo us (us, .noExpression (front us).kind)
  | badInteger (hkind : (front us).kind = .int)
      (hvalue : Text.signed64? (front us).literal = none) :
      ChargedTo us (us, .badInteger (front us).literal)
  | unexpected {faults : List (List Token × ParseError)} {t : Tape} {k : Kind}
      (hk : k ∈ (front us).kind.expects) (hsuffix : t.ahead <:+ us) (hne : (peek t).kind ≠ k)
      (hbreaks : BreaksOff ⟨us, faults⟩ t k) :
      ChargedTo us (t.ahead.tail, .unexpected k (peek t).kind)

/-- An error with the token that it is charged to. -/
structure Charge where
  /-- The tokens from the one on that is charged. -/
  tokens : List Token
  /-- The error, after the tokens from the one on that it speaks of. -/
  fault : List Token × ParseError
  /-- The error is charged to this token. -/
  charged : ChargedTo tokens fault

/-- The token that an error speaks of does not come before the one that it is charged to. -/
theorem Charge.fault_suffix (c : Charge) : c.fault.1 <:+ c.tokens := by
  obtain ⟨us, fault, hcharged⟩ := c
  cases hcharged with
  | noExpression | badInteger => exact List.suffix_rfl
  | unexpected _ hsuffix => exact (List.tail_suffix _).trans hsuffix

namespace Tape

/-- The errors that are recorded from the tape `s` to the tape `t` are charged to different tokens,
each of them not before the current token of `s` and not behind that of `t`. Fewer than `m` tokens
come after any of them. -/
def Charges (m : Nat) (s t : Tape) : Prop :=
  t.ahead <:+ s.ahead ∧ ∃ cs : List Charge,
    t.faults = s.faults ++ cs.map Charge.fault ∧
    (∀ c ∈ cs, c.tokens <:+ s.ahead ∧ t.ahead.length ≤ c.tokens.length ∧ c.tokens.length < m) ∧
    (cs.map fun c => c.tokens.length).Nodup

namespace Charges

variable {m m' : Nat} {s t u : Tape}

theorem suffix (h : Charges m s t) : t.ahead <:+ s.ahead :=
  h.1

theorem length_le (h : Charges m s t) : t.ahead.length ≤ s.ahead.length :=
  h.1.length_le

theorem refl (m : Nat) (s : Tape) : Charges m s s :=
  ⟨List.suffix_rfl, [], by simp⟩

theorem mono (h : Charges m s t) (hle : m ≤ m') : Charges m' s t := by
  obtain ⟨hsuffix, cs, hfaults, hcs, hnodup⟩ := h
  refine ⟨hsuffix, cs, hfaults, fun c hc => ?_, hnodup⟩
  obtain ⟨htokens, hfrom, hlt⟩ := hcs c hc
  exact ⟨htokens, hfrom, hlt.trans_le hle⟩

/-- What is charged after a move is charged before it. -/
theorem of_advance (h : Charges m (advance s) t) : Charges m s t := by
  obtain ⟨hsuffix, cs, hfaults, hcs, hnodup⟩ := h
  refine ⟨hsuffix.trans (List.tail_suffix _), cs, hfaults, fun c hc => ?_, hnodup⟩
  obtain ⟨htokens, hbounds⟩ := hcs c hc
  exact ⟨htokens.trans (List.tail_suffix _), hbounds⟩

theorem advance (h : Charges m s t) : Charges m s (advance t) := by
  obtain ⟨hsuffix, cs, hfaults, hcs, hnodup⟩ := h
  refine ⟨(List.tail_suffix _).trans hsuffix, cs, hfaults, fun c hc => ?_, hnodup⟩
  obtain ⟨htokens, hfrom, hlt⟩ := hcs c hc
  exact ⟨htokens, (List.tail_suffix _).length_le.trans hfrom, hlt⟩

theorem skipSemicolon (h : Charges m s t) : Charges m s (skipSemicolon t) := by
  unfold Window.skipSemicolon
  split
  · exact h.advance
  · exact h

/-- Readings that follow each other, where the later one charges only tokens behind the one where
the earlier one stopped. -/
theorem trans (h : Charges m s t) (h' : Charges m' t u) (hle : m' ≤ t.ahead.length)
    (hm : m' ≤ m) : Charges m s u := by
  obtain ⟨hsuffix, cs, hfaults, hcs, hnodup⟩ := h
  obtain ⟨hsuffix', cs', hfaults', hcs', hnodup'⟩ := h'
  refine ⟨hsuffix'.trans hsuffix, cs ++ cs', ?_, fun c hc => ?_, ?_⟩
  · rw [hfaults', hfaults, List.map_append, List.append_assoc]
  · have hlen := hsuffix'.length_le
    rcases List.mem_append.mp hc with hc | hc
    · obtain ⟨htokens, hfrom, hlt⟩ := hcs c hc
      exact ⟨htokens, hlen.trans hfrom, hlt⟩
    · obtain ⟨htokens, hfrom, hlt⟩ := hcs' c hc
      exact ⟨htokens.trans hsuffix, hfrom, hlt.trans_le hm⟩
  · rw [List.map_append, List.nodup_append]
    refine ⟨hnodup, hnodup', ?_⟩
    simp only [List.mem_map]
    rintro _ ⟨c, hc, rfl⟩ _ ⟨c', hc', rfl⟩
    have hfrom := (hcs c hc).2.1
    have hlt := (hcs' c' hc').2.2
    omega

/-- One more error, charged to the current token of `s`, which has not been charged. -/
theorem record {e : ParseError} (h : Charges s.ahead.length s t)
    (hcharged : ChargedTo s.ahead (e.blamed t.ahead, e)) :
    Charges (s.ahead.length + 1) s (record t e) := by
  obtain ⟨hsuffix, cs, hfaults, hcs, hnodup⟩ := h
  refine ⟨hsuffix, cs ++ [⟨s.ahead, _, hcharged⟩], ?_, fun c hc => ?_, ?_⟩
  · rw [faults_record, hfaults, List.map_append, List.append_assoc]
    rfl
  · rcases List.mem_append.mp hc with hc | hc
    · obtain ⟨htokens, hfrom, hlt⟩ := hcs c hc
      exact ⟨htokens, hfrom, by omega⟩
    · obtain rfl := List.mem_singleton.mp hc
      exact ⟨List.suffix_rfl, hsuffix.length_le, Nat.lt_succ_self _⟩
  · rw [List.map_append, List.nodup_append]
    refine ⟨hnodup, by simp, ?_⟩
    simp only [List.mem_map]
    rintro _ ⟨c, hc, rfl⟩ _ ⟨c', hc', rfl⟩
    obtain rfl := List.mem_singleton.mp hc'
    exact (hcs c hc).2.2.ne

end Charges

/-! ### Constructs -/

variable {α : Type}

/-- How a construct that begins at the current token of `s` may end: its errors are charged to
tokens behind this one, and it is read to its end or breaks off at a token that is not of a kind in
`ks`. -/
inductive Settles (s : Tape) (ks : List Kind) : Option α → Tape → Prop
  | through {a? : Option α} {t : Tape} (h : Charges s.ahead.length s t) : Settles s ks a? t
  | broken {t : Tape} {k : Kind} (h : Charges s.ahead.length s t) (hk : k ∈ ks)
      (hne : (peek t).kind ≠ k) : Settles s ks none (record t (.unexpected k (peek t).kind))

/-- A construct breaks off if a token that it asks for does not come next. -/
theorem Settles.expecting {s t : Tape} {ks : List Kind} {k : Kind}
    {f : Tape → Option (Option α × Tape)} (h : Charges s.ahead.length s t) (hk : k ∈ ks)
    (hf : (peek t).kind = k → Ensures (Settles s ks) (f (advance t))) :
    Ensures (Settles s ks) (expecting t k f) :=
  Ensures.expecting hf fun hne => .broken h hk hne

/-- The error with which a construct breaks off is charged to the token that it begins with. -/
theorem Settles.charges {s t : Tape} {a? : Option α}
    (h : Settles s (current s).kind.expects a? t)
    (hbreaks : ∀ t' k, a? = none → t = record t' (.unexpected k (peek t').kind) →
      BreaksOff s t' k) : Charges (s.ahead.length + 1) s t := by
  cases h with
  | through h => exact h.mono (Nat.le_succ _)
  | broken h hk hne => exact h.record (.unexpected hk h.suffix hne (hbreaks _ _ rfl rfl))

/-! ### Every reading -/

theorem ahead_ne_nil_of_current {t : Tape} {k : Kind} (h : (current t).kind = k)
    (hk : k ≠ .eof) : t.ahead ≠ [] := by
  rintro hnil
  rw [current_eq, hnil] at h
  exact hk h.symm

theorem length_tail_lt_of_ne_nil {ts : List Token} (h : ts ≠ []) : ts.tail.length < ts.length := by
  have hpos := List.length_pos_iff.mpr h
  rw [List.length_tail]
  omega

theorem length_ahead_advance_lt {t : Tape} (h : (advance t).ahead ≠ []) :
    (advance t).ahead.length < t.ahead.length :=
  length_tail_lt_of_ne_nil fun hnil => h (by rw [ahead_advance, hnil, List.tail_nil])

/-- What is charged behind the next token is charged behind the current one. -/
theorem Charges.back {s t : Tape}
    (h : Charges (Window.advance s).ahead.length (Window.advance s) t) :
    Charges s.ahead.length s t :=
  h.of_advance.mono (List.tail_suffix _).length_le

/-- What is charged from the next token on is charged behind the current one. -/
theorem Charges.behind {s t : Tape} (hs : s.ahead ≠ [])
    (h : Charges ((Window.advance s).ahead.length + 1) (Window.advance s) t) :
    Charges s.ahead.length s t :=
  h.of_advance.mono (length_tail_lt_of_ne_nil hs)

/-- The errors of every reading by the grammar of the language with the fuel `n` are charged to
different tokens. A reading that goes on from a token that has been read charges only tokens behind
it. -/
structure ReadsCharged (n : Nat) : Prop where
  expression : ∀ b (s : Tape),
    Ensures (fun _ => Charges (s.ahead.length + 1) s) (Parse.expression .standard n b s)
  climb : ∀ b left (s : Tape),
    Ensures (fun _ => Charges s.ahead.length s) (Parse.climb .standard n b left s)
  binary : ∀ left b (s : Tape), s.ahead ≠ [] →
    Ensures (fun _ => Charges s.ahead.length s) (Parse.binary .standard n left b s)
  leading : ∀ r (s : Tape), Grammar.standard.leading (current s).kind = some r →
    Ensures (fun _ => Charges (s.ahead.length + 1) s) (Parse.leading .standard n r s)
  conditional : ∀ s : Tape, s.ahead ≠ [] →
    Ensures (Settles s [.lparen, .rparen, .lbrace]) (Parse.conditional .standard n s)
  statement : ∀ s : Tape, s.ahead ≠ [] →
    Ensures (fun _ => Charges (s.ahead.length + 1) s) (Parse.statement .standard n s)
  opening : ∀ r (s : Tape), s.ahead ≠ [] →
    (Grammar.standard.statement (current s).kind).getD .expression = r →
    Ensures (fun _ => Charges (s.ahead.length + 1) s) (Parse.opening .standard n r s)
  statements : ∀ stop (s : Tape) m, .eof ∈ stop → (s.ahead ≠ [] → s.ahead.length < m) →
    Ensures (fun _ => Charges m s) (Parse.statements .standard n stop s)
  block : ∀ s : Tape, Ensures (fun _ => Charges s.ahead.length s) (Parse.block .standard n s)

theorem ReadsCharged.zero : ReadsCharged 0 := by
  constructor <;> intros <;> exact .none

/-- The rest of a conditional that begins at the current token of `s`. -/
theorem settles_branches {s : Tape} {block : Tape → Option (Block × Tape)}
    (hblock : ∀ t : Tape, Ensures (fun _ => Charges t.ahead.length t) (block t)) (i : Token)
    (condition? : Option Expr) {t : Tape} (h : Charges s.ahead.length s t) :
    Ensures (Settles s [.lparen, .rparen, .lbrace]) (Parse.branches block i condition? t) := by
  -- A block is read from a brace behind the token where the reading stopped before.
  have hbehind {u v : Tape} (hu : Charges s.ahead.length s u)
      (hv : Charges (advance (advance u)).ahead.length (advance (advance u)) v) :
      Charges s.ahead.length s v := by
    have hle := hu.length_le
    have hadv : (advance (advance u)).ahead.length ≤ u.ahead.length := by simp; omega
    exact hu.trans hv.of_advance.of_advance hadv (hadv.trans hle)
  unfold Parse.branches
  refine Settles.expecting h (by simp) fun _ => ?_
  refine Settles.expecting h.advance (by simp) fun _ => ?_
  refine (hblock _).bind fun first t₃ h₃ => ?_
  have h₃ := hbehind h h₃
  dsimp only
  split
  · refine Settles.expecting h₃.advance (by simp) fun _ => ?_
    exact (hblock _).bind fun second t₅ h₅ => .some (.through (hbehind h₃ h₅))
  · exact .some (.through h₃)

variable {n : Nat}

/-- A group, with one more unit of fuel. -/
theorem ReadsCharged.settles_grouping (ih : ReadsCharged n) {s : Tape} (hs : s.ahead ≠ []) :
    Ensures (Settles s [.rparen]) (Parse.leading .standard (n + 1) .grouping s) := by
  unfold Parse.leading
  refine (ih.expression _ (advance s)).bind fun e? t ht => ?_
  have ht := ht.behind hs
  exact Settles.expecting ht (by simp) fun _ => .some (.through ht.advance)

/-- A binding, with one more unit of fuel. -/
theorem ReadsCharged.settles_binding (ih : ReadsCharged n) (s : Tape) :
    Ensures (Settles s [.ident, .assign]) (Parse.opening .standard (n + 1) .binding s) := by
  have hrefl : Charges s.ahead.length s s := .refl _ s
  unfold Parse.opening
  refine Settles.expecting hrefl (by simp) fun _ => ?_
  refine Settles.expecting hrefl.advance (by simp) fun hassign => ?_
  have hne : (advance (advance s)).ahead ≠ [] := ahead_ne_nil_of_current hassign (by decide)
  refine (ih.expression _ _).bind fun value t ht => .some (.through ?_)
  exact (ht.behind hne).back.back.skipSemicolon

/-- One more unit of fuel. -/
theorem ReadsCharged.succ (ih : ReadsCharged n) : ReadsCharged (n + 1) where
  expression b s := by
    unfold Parse.expression
    cases hrule : Grammar.standard.leading (current s).kind with
    | none => exact .some ((Charges.refl _ s).record (.noExpression hrule))
    | some r =>
      refine (ih.leading r s hrule).bind fun left? t ht => ?_
      cases left? with
      | none => exact .some ht
      | some left =>
        refine (ih.climb b left t).mono fun _ u hu => ?_
        exact ht.trans hu le_rfl (ht.length_le.trans (Nat.le_succ _))
  climb b left s := by
    by_cases hgo : Grammar.standard.Continues b (peek s).kind
    · have hadv : (advance s).ahead ≠ [] := by
        refine ahead_ne_nil_of_current rfl fun heof => ?_
        have hop : Kind.IsOperator .eof := heof ▸ (Grammar.continues_standard.mp hgo).1
        exact absurd hop (by decide)
      rw [Parse.climb_of_continues n left hgo]
      refine (ih.binary left _ (advance s) hadv).bind fun e? t ht => ?_
      have ht := ht.back
      cases e? with
      | none => exact .some ht
      | some e => exact (ih.climb b e t).mono fun _ u hu => ht.trans hu le_rfl ht.length_le
    · rw [Parse.climb_of_not_continues n left hgo]
      exact .some (.refl _ s)
  binary left b s hs := by
    unfold Parse.binary
    exact (ih.expression b (advance s)).bind fun _ _ ht => .some (ht.behind hs)
  leading r s hrule := by
    have hk := Grammar.leading_standard.mp hrule
    have hs : s.ahead ≠ [] := by
      refine ahead_ne_nil_of_current rfl fun heof => ?_
      rw [heof] at hk
      revert hk
      cases r <;> decide
    -- A construct that breaks off does so in this very reading.
    have hbreaks {e? : Option Expr} {t : Tape}
        (hread : Parse.leading .standard (n + 1) r s = some (e?, t)) (t' : Tape) (k : Kind)
        (he : e? = none) (ht : t = record t' (.unexpected k (peek t').kind)) : BreaksOff s t' k :=
      .operand hrule (by rw [hread, he, ht])
    cases r with
    | identifier | boolean =>
      unfold Parse.leading
      exact .some (.refl _ s)
    | integer =>
      unfold Parse.leading
      cases hvalue : Text.signed64? (current s).literal with
      | none =>
        exact .some ((Charges.refl _ s).record (.badInteger (List.mem_singleton.mp hk) hvalue))
      | some value => exact .some (.refl _ s)
    | unary =>
      unfold Parse.leading
      refine (ih.expression _ (advance s)).bind fun operand? t ht => .some ?_
      exact (ht.behind hs).mono (Nat.le_succ _)
    | grouping =>
      intro e? t hread
      have hsettles := ih.settles_grouping hs e? t hread
      rw [← show (current s).kind.expects = [.rparen] by rw [List.mem_singleton.mp hk]; rfl]
        at hsettles
      exact hsettles.charges (hbreaks hread)
    | conditional =>
      intro e? t hread
      have hsettles := ih.conditional s hs e? t hread
      rw [← show (current s).kind.expects = [.lparen, .rparen, .lbrace] by
        rw [List.mem_singleton.mp hk]; rfl] at hsettles
      exact hsettles.charges (hbreaks hread)
  conditional s hs := by
    unfold Parse.conditional
    refine Settles.expecting (.refl _ s) (by simp) fun hopen => ?_
    have hadv : (advance s).ahead ≠ [] := ahead_ne_nil_of_current hopen (by decide)
    refine (ih.expression _ _).bind fun condition? t₂ h₂ => ?_
    exact settles_branches ih.block _ _ (h₂.behind hadv).back
  statement s hs := by
    unfold Parse.statement
    exact ih.opening _ s hs rfl
  opening r s hs hrule := by
    cases r with
    | binding =>
      have hk := Grammar.statement_standard_eq_binding.mp hrule
      intro e? t hread
      have hsettles := ih.settles_binding s e? t hread
      rw [← show (current s).kind.expects = [.ident, .assign] by rw [hk]; rfl] at hsettles
      refine hsettles.charges fun t' k he ht => .statement (n := n + 1) (r := .binding) ?_ ?_
      · rw [hk]
        rfl
      · rw [hread, he, ht]
    | result =>
      unfold Parse.opening
      refine (ih.expression _ (advance s)).bind fun value t ht => .some ?_
      exact ((ht.behind hs).mono (Nat.le_succ _)).skipSemicolon
    | expression =>
      unfold Parse.opening
      exact (ih.expression _ s).bind fun e? t ht => .some ht.skipSemicolon
  statements stop s m hstop hm := by
    unfold Parse.statements
    split
    · exact .some (.refl m s)
    next hcur =>
      have hs : s.ahead ≠ [] :=
        ahead_ne_nil_of_current rfl fun heof => hcur (heof ▸ hstop)
      refine (ih.statement s hs).bind fun first? t ht => ?_
      have ht := ht.mono (hm hs)
      refine (ih.statements stop (advance t) t.ahead.length hstop length_ahead_advance_lt).bind
        fun others u hu => .some ?_
      exact ht.trans hu.of_advance le_rfl (ht.length_le.trans (hm hs).le)
  block s := by
    unfold Parse.block
    exact (ih.statements _ (advance s) s.ahead.length (by simp) length_ahead_advance_lt).bind
      fun _ _ ht => .some ht.of_advance

/-- **The errors of every reading are charged to different tokens.** -/
theorem readsCharged (n : Nat) : ReadsCharged n := by
  induction n with
  | zero => exact .zero
  | succ n ih => exact .succ ih

end Tape

/-! ### The errors of a text -/

theorem length_tokenize (source : String) :
    (tokenize source).length = (lex source.toList).length + 1 := by
  rw [tokenize_eq, List.length_append, List.length_singleton]

/-- The errors of a text are charged to different tokens, given by their indices. -/
theorem exists_charges (source : String) :
    ∃ charges : List Nat, charges.Nodup ∧ (∀ i ∈ charges, i < (tokenize source).length) ∧
      List.Forall₂ (fun i error => ChargedTo ((tokenize source).dropLast.drop i)
        ((tokenize source).dropLast.drop error.1, error.2)) charges (locatedErrors source) := by
  obtain ⟨-, t, ⟨-, cs, hfaults, hcs, hnodup⟩, -, hlocated⟩ := parse_of_ensures fun n =>
    (Tape.readsCharged n).statements [.eof] (Tape.ofTokens (lex source.toList))
      ((lex source.toList).length + 1) (by simp) fun _ => Nat.lt_succ_self _
  rw [length_tokenize, dropLast_tokenize, tokens_ofString, hlocated, hfaults]
  let place (us : List Token) : Nat := (lex source.toList).length - us.length
  have hplace {us : List Token} (hus : us <:+ lex source.toList) :
      (lex source.toList).drop (place us) = us := (List.suffix_iff_eq_drop.mp hus).symm
  refine ⟨cs.map fun c => place c.tokens, ?_, ?_, ?_⟩
  · have hinj : ∀ x ∈ cs.map fun c => c.tokens.length, ∀ y ∈ cs.map fun c => c.tokens.length,
        (lex source.toList).length - x = (lex source.toList).length - y → x = y := by
      simp only [List.mem_map]
      rintro _ ⟨c, hc, rfl⟩ _ ⟨c', hc', rfl⟩ heq
      have hle := (hcs c hc).1.length_le
      have hle' := (hcs c' hc').1.length_le
      simp only [Tape.ofTokens] at hle hle'
      omega
    have hmap := hnodup.map_on hinj
    rwa [List.map_map] at hmap
  · simp only [List.mem_map]
    rintro _ ⟨c, -, rfl⟩
    exact Nat.lt_succ_of_le (Nat.sub_le _ _)
  · simp only [Tape.ofTokens, List.nil_append, List.map_map, List.forall₂_map_left_iff,
      List.forall₂_map_right_iff, List.forall₂_same, Function.comp_apply]
    intro c hc
    have htokens : c.tokens <:+ lex source.toList := (hcs c hc).1
    have hfault := c.fault_suffix.trans htokens
    change ChargedTo ((lex source.toList).drop (place c.tokens))
      ((lex source.toList).drop (place c.fault.1), c.fault.2)
    rw [hplace htokens, hplace hfault]
    exact c.charged

/-- Every error of a text is charged to a token of it. -/
theorem exists_chargedTo {source : String} {e : ParseError} (he : e ∈ (parse source).errors) :
    ∃ us vs, us <:+ lex source.toList ∧ ChargedTo us (vs, e) := by
  rw [← map_snd_locatedErrors] at he
  obtain ⟨⟨j, e⟩, hlocated, rfl⟩ := List.mem_map.mp he
  obtain ⟨charges, -, -, hcharges⟩ := exists_charges source
  obtain ⟨hlength, hcharged⟩ := List.forall₂_iff_get.mp hcharges
  obtain ⟨k, hk⟩ := List.mem_iff_get.mp hlocated
  have hcharged := hcharged k (k.isLt.trans_eq hlength.symm) k.isLt
  rw [hk, dropLast_tokenize, tokens_ofString] at hcharged
  exact ⟨_, _, List.drop_suffix _ _, hcharged⟩

/-- There are at most as many errors as tokens. -/
theorem length_errors_le (source : String) :
    (parse source).errors.length ≤ (tokenize source).length := by
  obtain ⟨charges, hnodup, hlt, hcharges⟩ := exists_charges source
  have hsubset : charges ⊆ List.range (tokenize source).length :=
    fun i hi => List.mem_range.mpr (hlt i hi)
  calc (parse source).errors.length = (locatedErrors source).length := by
        rw [← map_snd_locatedErrors, List.length_map]
    _ = charges.length := hcharges.length_eq.symm
    _ ≤ (List.range (tokenize source).length).length := (hnodup.subperm hsubset).length_le
    _ = (tokenize source).length := List.length_range

/-! ### Opening parentheses -/

/-- Opening parentheses and nothing else. -/
def parentheses (n : Nat) : String :=
  String.ofList (List.replicate n '(')

theorem lex_parentheses (n : Nat) :
    lex (parentheses n).toList = List.replicate n (.ofKind .lparen) := by
  rw [parentheses, String.toList_ofList]
  induction n with
  | zero => exact lex_nil
  | succ n ih =>
    rw [List.replicate_succ, lex_cons_of_not_isBlank (by decide), List.replicate_succ]
    exact congrArg (Token.ofKind .lparen :: ·) ih

/-- The errors of so many opening parentheses: at the end there is no expression, and none of the
parentheses is closed. -/
def unclosedErrors (n : Nat) : List ParseError :=
  .noExpression .eof :: List.replicate n (.unexpected .rparen .eof)

/-- The tape is at its end, and the errors of so many opening parentheses came after those that
were there. -/
def Tape.Unclosed (n : Nat) (faults : List (List Token × ParseError)) (t : Tape) : Prop :=
  t.ahead = [] ∧ t.faults.map Prod.snd = faults.map Prod.snd ++ unclosedErrors n

/-- A group that is not closed before the end of the tape. -/
theorem unclosed_grouping {n fuel : Nat} {faults : List (List Token × ParseError)}
    (ih : Ensures (fun _ => Tape.Unclosed n faults) (Parse.expression .standard fuel .lowest
      (Tape.mk (List.replicate n (.ofKind .lparen)) faults))) :
    Ensures (fun e? t => e? = none ∧ Tape.Unclosed (n + 1) faults t)
      (Parse.leading .standard (fuel + 1) .grouping
        (Tape.mk (List.replicate (n + 1) (.ofKind .lparen)) faults)) := by
  unfold Parse.leading
  refine ih.bind fun e? t ht => ?_
  obtain ⟨hahead, hfaults⟩ := ht
  have hpeek : (peek t).kind = .eof := by rw [Tape.peek_eq, hahead]; rfl
  refine Ensures.expecting (fun hclose => ?_) fun _ => ⟨rfl, hahead, ?_⟩
  · exact absurd (hpeek.symm.trans hclose) (by decide)
  · rw [Tape.faults_record, List.map_append, hfaults, hpeek, unclosedErrors, unclosedErrors,
      List.replicate_succ', List.append_assoc]
    rfl

theorem unclosed_expression (b : Power) (n fuel : Nat) (faults : List (List Token × ParseError)) :
    Ensures (fun _ => Tape.Unclosed n faults) (Parse.expression .standard fuel b
      (Tape.mk (List.replicate n (.ofKind .lparen)) faults)) := by
  induction n generalizing b fuel with
  | zero =>
    cases fuel with
    | zero => exact .none
    | succ fuel =>
      rw [Tape.expression_of_ahead_eq_nil rfl fuel b rfl]
      exact .some ⟨rfl, by simp [unclosedErrors]⟩
  | succ n ih =>
    obtain _ | _ | fuel := fuel
    · exact .none
    · exact .none
    · unfold Parse.expression
      rw [show Grammar.standard.leading (current (Tape.mk (List.replicate (n + 1)
        (.ofKind .lparen)) faults)).kind = some .grouping from rfl]
      refine (unclosed_grouping (ih .lowest fuel)).bind fun e? t ht => ?_
      obtain ⟨rfl, ht⟩ := ht
      exact .some ht

theorem Tape.Unclosed.skipSemicolon {n : Nat} {faults : List (List Token × ParseError)} {t : Tape}
    (h : Tape.Unclosed n faults t) : Tape.Unclosed n faults (skipSemicolon t) := by
  have hpeek : (peek t).is .semicolon = false := by rw [Tape.peek_eq, h.1]; rfl
  rw [Window.skipSemicolon, hpeek]
  exact h

theorem unclosed_statement (n fuel : Nat) (faults : List (List Token × ParseError)) :
    Ensures (fun _ => Tape.Unclosed (n + 1) faults) (Parse.statement .standard fuel
      (Tape.mk (List.replicate (n + 1) (.ofKind .lparen)) faults)) := by
  obtain _ | _ | fuel := fuel
  · exact .none
  · exact .none
  · exact (unclosed_expression .lowest (n + 1) fuel faults).bind fun _ _ ht =>
      .some ht.skipSemicolon

/-- The errors of a text of opening parentheses. -/
theorem errors_parentheses (n : Nat) :
    (parse (parentheses (n + 1))).errors = unclosedErrors (n + 1) := by
  have hreads (fuel : Nat) : Ensures (fun _ => Tape.Unclosed (n + 1) [])
      (Parse.statements .standard fuel [.eof]
        (Tape.ofTokens (lex (parentheses (n + 1)).toList))) := by
    rw [lex_parentheses]
    cases fuel with
    | zero => exact .none
    | succ fuel =>
      refine (unclosed_statement n fuel []).bind fun first? t ht => ?_
      obtain ⟨hahead, hfaults⟩ := ht
      cases fuel with
      | zero => exact .none
      | succ fuel =>
        have hstop : (current (advance t)).kind ∈ [Kind.eof] := by simp [hahead, Token.eof]
        have hend : Parse.statements .standard (fuel + 1) [.eof] (advance t) =
            some ([], advance t) := by rw [Parse.statements, if_pos hstop]
        dsimp only
        rw [hend]
        exact .some ⟨by simp [hahead], hfaults⟩
  obtain ⟨ss, t, ⟨-, hfaults⟩, hparse, -⟩ := parse_of_ensures hreads
  rw [hparse]
  exact hfaults

/-! ### Main results -/

/-- **There are at most as many errors as tokens**, the end token included. For the errors of a text
can be charged to different tokens: one that no expression begins with a token, or that a number is
too large, to this token, and one that a token was expected to the parenthesis, the `if` or the
`let` with which the construct began that broke off there. There is no better bound: so many opening
parentheses as one likes have as many errors as tokens. -/
theorem errors_charged_to_tokens :
    (∀ source : String,
      (∃ charges : List Nat, charges.Nodup ∧ (∀ i ∈ charges, i < (tokenize source).length) ∧
        List.Forall₂ (fun i error => ChargedTo ((tokenize source).dropLast.drop i)
          ((tokenize source).dropLast.drop error.1, error.2)) charges (locatedErrors source)) ∧
      (parse source).errors.length ≤ (tokenize source).length) ∧
    ∀ n, (parse (parentheses (n + 1))).errors.length =
      (tokenize (parentheses (n + 1))).length := by
  refine ⟨fun source => ⟨exists_charges source, length_errors_le source⟩, fun n => ?_⟩
  rw [errors_parentheses, length_tokenize, lex_parentheses]
  simp [unclosedErrors]

/-- What an error says is so, where `ts` are the tokens of the text: no expression begins with the
token of a kind that it names, and there is one; a token of the kind that was expected could be
expected, and there is one of the other kind that was found, which is not the first; and the number
is there and is too large. -/
def ParseError.IsTrue (ts : List Token) : ParseError → Prop
  | .noExpression kind =>
    (∃ t ∈ ts, t.kind = kind) ∧
      kind ∉ [Kind.ident, .int, .trueKey, .falseKey, .bang, .minus, .lparen, .ifKey]
  | .unexpected expected found =>
    expected ∈ [Kind.ident, .assign, .lparen, .rparen, .lbrace] ∧ found ≠ expected ∧
      ∃ i t, 0 < i ∧ ts[i]? = some t ∧ t.kind = found
  | .badInteger literal =>
    ⟨.int, literal⟩ ∈ ts ∧
      ∃ value, Text.natural? literal.toList = some value ∧ Text.maxSigned64 < value

/-- The front of the tokens from some place on is a token of the list, or the end token. -/
theorem front_mem_of_suffix {us ts : List Token} (h : us <:+ ts) :
    front us ∈ ts ++ [Token.eof] := by
  cases us with
  | nil => simp
  | cons t us => exact List.mem_append_left _ (h.subset List.mem_cons_self)

/-- A token that comes after another one is not the first. -/
theorem exists_index_pos {us ts : List Token} {t : Token} (hus : us ≠ []) (h : us <:+ ts)
    (ht : t ∈ us.tail ++ [Token.eof]) : ∃ i : Nat, 0 < i ∧ (ts ++ [Token.eof])[i]? = some t := by
  obtain ⟨before, rfl⟩ := h
  obtain ⟨u, us, rfl⟩ := List.exists_cons_of_ne_nil hus
  obtain ⟨i, hi⟩ := List.mem_iff_getElem?.mp ht
  refine ⟨before.length + (i + 1), by omega, ?_⟩
  rw [List.append_assoc, List.getElem?_append_right (by omega), Nat.add_sub_cancel_left]
  exact hi

theorem tail_suffix_tail {us ts : List Token} (h : us <:+ ts) : us.tail <:+ ts.tail := by
  obtain ⟨before, rfl⟩ := h
  cases before with
  | nil => exact List.suffix_rfl
  | cons t before => exact (List.tail_suffix us).trans (List.suffix_append before us)

/-- An error that is charged to a token of a text is true. -/
theorem ChargedTo.isTrue {source : String} {us vs : List Token} {e : ParseError}
    (h : ChargedTo us (vs, e)) (hus : us <:+ lex source.toList) : e.IsTrue (tokenize source) := by
  rw [tokenize_eq]
  have hfront := front_mem_of_suffix hus
  cases h with
  | noExpression hrule =>
    refine ⟨⟨_, hfront, rfl⟩, ?_⟩
    revert hrule
    cases (front us).kind <;> decide
  | badInteger hkind hvalue =>
    have hmem : front us ∈ lex source.toList := by
      refine (List.mem_append.mp hfront).resolve_right fun heof => ?_
      rw [List.mem_singleton.mp heof] at hkind
      cases hkind
    obtain ⟨n, hn⟩ := (genuine_of_mem_lex hmem).exists_natural? hkind
    refine ⟨?_, n, hn, ?_⟩
    · rw [← hkind]
      exact hfront
    · by_contra hle
      rw [Text.signed64?_of_natural? hn, Text.fit64?_natCast_of_le (Nat.not_lt.mp hle)] at hvalue
      cases hvalue
  | @unexpected faults t k hk hsuffix hne hbreaks =>
    have hne' : us ≠ [] := by
      rintro rfl
      cases hk
    refine ⟨?_, hne, ?_⟩
    · revert hk
      cases (front us).kind <;> simp [Kind.expects] <;> rintro (rfl | rfl | rfl) <;> simp
    · have hmem := front_mem_of_suffix (tail_suffix_tail hsuffix)
      obtain ⟨i, hi, hget⟩ := exists_index_pos hne' hus hmem
      exact ⟨i, _, hi, hget, rfl⟩

/-- **Every error is true.** If it says that no expression begins with a token of some kind, then
this is so and there is a token of this kind; if it says that a token was expected and another one
found, then the first is of a kind that can be expected, and there is a token of the other kind
behind the first token of the text; and if it says that a number cannot be read, then the number is
there and its value is larger than `2 ^ 63 - 1`. -/
theorem isTrue_of_mem_errors {source : String} {e : ParseError} (he : e ∈ (parse source).errors) :
    e.IsTrue (tokenize source) := by
  obtain ⟨us, vs, hus, hcharged⟩ := exists_chargedTo he
  exact hcharged.isTrue hus

/-- A text with errors of all sorts, some of them on account of others. -/
theorem isTrue_of_mem_errors_cascade :
    (parse "let 5; (9223372036854775808 \x7d").errors =
        [.unexpected .ident .int, .badInteger "9223372036854775808", .unexpected .rparen .rbrace,
          .noExpression .rbrace] ∧
      ∀ e ∈ [ParseError.unexpected .ident .int, .badInteger "9223372036854775808",
          .unexpected .rparen .rbrace, .noExpression .rbrace],
        e.IsTrue (tokenize "let 5; (9223372036854775808 \x7d") := by
  have herrors : (parse "let 5; (9223372036854775808 \x7d").errors =
      [.unexpected .ident .int, .badInteger "9223372036854775808", .unexpected .rparen .rbrace,
        .noExpression .rbrace] := by decide +kernel
  refine ⟨herrors, fun e he => ?_⟩
  rw [← herrors] at he
  exact isTrue_of_mem_errors he

end FrontEnd
