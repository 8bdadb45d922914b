import FrontEnd.Proofs.Fuel
import FrontEnd.Proofs.MoreFuel
import FrontEnd.Proofs.Reading
import FrontEnd.Proofs.Steps

/-!
# Trees by the powers of operators

Operators can be entered into a grammar for any kinds and with any powers. A chain of operands with
operators between them has one tree by the powers of the operators: its root is the last one of the
weakest operators, and the operators before it and after it make up the left and the right tree in
the same way. Whatever the powers are, as long as none of them is above that of an operator in front
of its operand, this is the tree that is read.

A reading goes through a chain from left to right, with an accumulated left operand and a bound on
the powers. What connects it with the tree is that a tree can be read off the front of the tokens.
If its operators bind more tightly than the bound, and none of their right operands goes on with
what comes next, then the loop over operators gets from the first operand to the whole tree and goes
on from there.

## Main definitions

* `FrontEnd.Grammar.withOperators` — a grammar with operators entered into it.
* `FrontEnd.IsOperand`, `FrontEnd.Operand` — operands without operators between them.
* `FrontEnd.chain` — the tokens of operands with operators between them.
* `FrontEnd.IsRoot`, `FrontEnd.IsPrecedenceTree` — the tree of a chain.
* `FrontEnd.IsPadded`, `FrontEnd.Tape.Padded` — tokens with the end token written out.

## Main results

* `FrontEnd.exists_isPrecedenceTree`, `FrontEnd.IsPrecedenceTree.unique` — a chain has one tree.
* `FrontEnd.IsPrecedenceTree.climb` — a tree is read off the front of the tokens.
* `FrontEnd.ParseState.Sees.expression_eq` — what is read from tokens is read from a text, with the
  place where the reading ends.
* `FrontEnd.expression_eq_precedenceTree` — a chain is read as its tree.
-/

namespace FrontEnd

open Window

/-! ### Operators that are entered -/

namespace Grammar

/-- The grammar after kinds were entered as operators between two operands, one after the other,
each with its power. -/
def withOperators (g : Grammar) (entries : List (Kind × Power)) : Grammar :=
  entries.foldl (fun g x => g.addTrailing x.1 x.2 .binary) g

/-- Operands are read as in the language: they begin in the same way, and no operator between two
operands binds more tightly than one in front of its operand. -/
structure KeepsOperands (g : Grammar) : Prop where
  /-- Expressions begin as in the language. -/
  leading_eq : g.leading = standard.leading
  /-- No power is above that of an operator in front of its operand. -/
  power_le : ∀ k, g.power k ≤ .unary

namespace KeepsOperands

variable {g : Grammar}

protected theorem standard : standard.KeepsOperands where
  leading_eq := rfl
  power_le k := by cases k <;> decide

theorem addTrailing (h : g.KeepsOperands) (k : Kind) {b : Power} (hb : b ≤ .unary)
    (r : TrailingRule) : (g.addTrailing k b r).KeepsOperands where
  leading_eq := h.leading_eq
  power_le k' := by
    by_cases hk : k' = k
    · simpa [power, Grammar.addTrailing, hk] using hb
    · simpa [power, Grammar.addTrailing, Table.enter_of_ne, hk] using h.power_le k'

theorem withOperators (h : g.KeepsOperands) {entries : List (Kind × Power)}
    (hentries : ∀ x ∈ entries, x.2 ≤ .unary) : (g.withOperators entries).KeepsOperands := by
  induction entries generalizing g with
  | nil => exact h
  | cons x entries ih =>
    refine ih (h.addTrailing x.1 (hentries x List.mem_cons_self) .binary) fun y hy => ?_
    exact hentries y (List.mem_cons_of_mem x hy)

theorem not_continues_unary (h : g.KeepsOperands) (k : Kind) : ¬ g.Continues .unary k :=
  fun hk => Power.not_lt.mpr (h.power_le k) hk.2.1

end KeepsOperands

/-- An expression ends in front of a semicolon and of operators that do not bind more tightly than
the bound. -/
theorem not_continues_of_power_le {g : Grammar} {b : Power} {k : Kind}
    (h : k = .semicolon ∨ g.power k ≤ b) : ¬ g.Continues b k := by
  rintro ⟨hsemi, hpower, -⟩
  obtain h | h := h
  · exact hsemi h
  · exact Power.not_lt.mpr h hpower

end Grammar

/-! ### Operands -/

/-- The tokens make up an operand: operators in front of a name, a truth value or a number that can
be represented. -/
inductive IsOperand : List Token → Expr → Prop
  | name {t : Token} (ht : t.kind = .ident) : IsOperand [t] (.identifier (.ofToken t))
  | truth {t : Token} (ht : t.kind = .trueKey ∨ t.kind = .falseKey) :
      IsOperand [t] (.boolean t (t.is .trueKey))
  | number {t : Token} {n : Nat} (ht : t.kind = .int)
      (hn : Text.natural? t.literal.toList = some n) (hle : n ≤ Text.maxSigned64) :
      IsOperand [t] (.integer t n)
  | unary {t : Token} {ts : List Token} {e : Expr} (ht : t.kind = .bang ∨ t.kind = .minus)
      (hoperand : IsOperand ts e) : IsOperand (t :: ts) (.unary t t.literal e)

/-- An operand is read off the front of the tokens. -/
theorem IsOperand.reads {g : Grammar} (hg : g.KeepsOperands) {ts : List Token} {left : Expr}
    (h : IsOperand ts left) {b : Power} {us rest : List Token} {e : Expr}
    (hclimb : ReadsClimb g b left us e rest) : ReadsExpression g b (ts ++ us) e rest := by
  induction h generalizing b us rest e with
  | name ht => exact .intro (by rw [hg.leading_eq, ht]; rfl) .identifier hclimb
  | truth ht =>
    refine .intro ?_ .boolean hclimb
    obtain ht | ht := ht <;> rw [hg.leading_eq, ht] <;> rfl
  | number ht hn hle =>
    refine .intro (by rw [hg.leading_eq, ht]; rfl) (.integer ?_) hclimb
    rw [Text.signed64?_of_natural? hn, Text.fit64?_natCast_of_le hle]
  | unary ht _ ih =>
    refine .intro ?_ (.unary (ih (.stop (hg.not_continues_unary _)))) hclimb
    obtain ht | ht := ht <;> rw [hg.leading_eq, ht] <;> rfl

/-- An operand. -/
structure Operand where
  /-- Its tokens. -/
  tokens : List Token
  /-- Its tree. -/
  expr : Expr
  /-- The tokens make up the operand. -/
  isOperand : IsOperand tokens expr

/-- The tokens of operators, each with the operand after it. -/
def links (others : List (Token × Operand)) : List Token :=
  others.flatMap fun x => x.1 :: x.2.tokens

/-- The tokens of a chain: an operand, and operators with the operands after them. -/
def chain (first : Operand) (others : List (Token × Operand)) : List Token :=
  first.tokens ++ links others

theorem links_append_cons (before : List (Token × Operand)) (op : Token) (v : Operand)
    (after : List (Token × Operand)) :
    links (before ++ (op, v) :: after) = links before ++ op :: chain v after := by
  simp [links, chain]

/-! ### Trees of chains -/

/-- An operator is the last one of the weakest: none of those before it is weaker, and all of those
after it are stronger. -/
structure IsRoot (power : Kind → Power) (before : List (Token × Operand)) (op : Token)
    (after : List (Token × Operand)) : Prop where
  /-- No operator before it is weaker. -/
  le_before : ∀ x ∈ before, power op.kind ≤ power x.1.kind
  /-- All operators after it are stronger. -/
  lt_after : ∀ x ∈ after, power op.kind < power x.1.kind

/-- The tree of a chain by the powers of its operators. The last one of the weakest operators is the
root, and those before it and after it make up the two trees below. -/
inductive IsPrecedenceTree (power : Kind → Power) : Operand → List (Token × Operand) → Expr → Prop
  | operand (first : Operand) : IsPrecedenceTree power first [] first.expr
  | binary {first v : Operand} {before after : List (Token × Operand)} {op : Token}
      {left right : Expr} (hroot : IsRoot power before op after)
      (hleft : IsPrecedenceTree power first before left)
      (hright : IsPrecedenceTree power v after right) :
      IsPrecedenceTree power first (before ++ (op, v) :: after) (.binary op left op.literal right)

section Trees

variable {power : Kind → Power}

/-- Some operators have a last one of the weakest among them. -/
theorem exists_isRoot (power : Kind → Power) (x : Token × Operand)
    (others : List (Token × Operand)) :
    ∃ before op v after, x :: others = before ++ (op, v) :: after ∧
      IsRoot power before op after := by
  induction others generalizing x with
  | nil => exact ⟨[], x.1, x.2, [], rfl, by simp, by simp⟩
  | cons y others ih =>
    obtain ⟨before, op, v, after, heq, hroot⟩ := ih y
    by_cases hle : power op.kind ≤ power x.1.kind
    · refine ⟨x :: before, op, v, after, by rw [heq, List.cons_append], ?_, hroot.lt_after⟩
      exact List.forall_mem_cons.mpr ⟨hle, hroot.le_before⟩
    · -- The first operator is weaker than the last of the weakest of the others.
      have hlt : power x.1.kind < power op.kind := by simpa [Power.lt_def, Power.le_def] using hle
      refine ⟨[], x.1, x.2, y :: others, rfl, by simp, fun z hz => ?_⟩
      rw [heq, List.mem_append, List.mem_cons] at hz
      obtain hz | rfl | hz := hz
      · exact Power.lt_of_lt_of_le hlt (hroot.le_before z hz)
      · exact hlt
      · exact Power.lt_trans hlt (hroot.lt_after z hz)

/-- Of two operators that are the last one of the weakest, none comes before the other: it would be
both weaker and not weaker. -/
theorem IsRoot.eq_nil {before between after after' : List (Token × Operand)} {op op' : Token}
    {v v' : Operand} (h : IsRoot power before op after)
    (h' : IsRoot power (before ++ between) op' after')
    (heq : (op, v) :: after = between ++ (op', v') :: after') : between = [] := by
  cases between with
  | nil => rfl
  | cons x between =>
    obtain ⟨rfl, rfl⟩ := List.cons.inj heq
    have hle := h'.le_before (op, v) (by simp)
    have hlt := h.lt_after (op', v') (by simp)
    exact absurd hlt (Power.not_lt.mpr hle)

/-- Operators have only one last one of the weakest among them. -/
theorem IsRoot.unique {before before' after after' : List (Token × Operand)} {op op' : Token}
    {v v' : Operand} (h : IsRoot power before op after) (h' : IsRoot power before' op' after')
    (heq : before ++ (op, v) :: after = before' ++ (op', v') :: after') :
    before = before' ∧ (op, v) = (op', v') ∧ after = after' := by
  have hbefore : before = before' := by
    obtain ⟨between, rfl, hbetween⟩ | ⟨between, rfl, hbetween⟩ := List.append_eq_append_iff.mp heq
    · rw [h.eq_nil h' hbetween, List.append_nil]
    · rw [h'.eq_nil h hbetween, List.append_nil]
  subst hbefore
  exact ⟨rfl, List.cons.inj (List.append_cancel_left heq)⟩

theorem exists_isPrecedenceTree (power : Kind → Power) (first : Operand)
    (others : List (Token × Operand)) : ∃ e, IsPrecedenceTree power first others e := by
  induction hn : others.length using Nat.strongRecOn generalizing first others with
  | ind n ih =>
    cases others with
    | nil => exact ⟨_, .operand first⟩
    | cons x others =>
      obtain ⟨before, op, v, after, heq, hroot⟩ := exists_isRoot power x others
      have hlen : before.length + after.length < n := by
        rw [← hn, heq, List.length_append, List.length_cons]
        omega
      obtain ⟨left, hleft⟩ := ih before.length (by omega) first before rfl
      obtain ⟨right, hright⟩ := ih after.length (by omega) v after rfl
      rw [heq]
      exact ⟨_, .binary hroot hleft hright⟩

theorem IsPrecedenceTree.unique {first : Operand} {others : List (Token × Operand)} {e e' : Expr}
    (h : IsPrecedenceTree power first others e) (h' : IsPrecedenceTree power first others e') :
    e = e' := by
  induction h generalizing e' with
  | operand first =>
    generalize hnil : [] = others at h'
    cases h' with
    | operand => rfl
    | binary => simp at hnil
  | @binary first v before after op left right hroot _ _ ihleft ihright =>
    generalize hothers : before ++ (op, v) :: after = others at h'
    cases h' with
    | operand => simp at hothers
    | binary hroot' hleft' hright' =>
      obtain ⟨rfl, hop, rfl⟩ := hroot.unique hroot' hothers
      obtain ⟨rfl, rfl⟩ := Prod.mk.inj hop
      rw [ihleft hleft', ihright hright']

end Trees

/-! ### Reading chains -/

/-- A tree is read off the front of the tokens: the loop over operators gets from the first operand
to the whole tree, if all operators bind more tightly than its bound and what comes next is none by
which one of their right operands goes on. -/
theorem IsPrecedenceTree.climb {g : Grammar} (hg : g.KeepsOperands) {first : Operand}
    {others : List (Token × Operand)} {left : Expr}
    (h : IsPrecedenceTree g.power first others left) {b : Power} {us rest : List Token} {e : Expr}
    (hothers : ∀ x ∈ others, g.Continues b x.1.kind)
    (hus : ∀ x ∈ others, ¬ g.Continues (g.power x.1.kind) (front us).kind)
    (hclimb : ReadsClimb g b left us e rest) :
    ReadsClimb g b first.expr (links others ++ us) e rest := by
  induction h generalizing b us rest e with
  | operand => exact hclimb
  | @binary first v before after op left right hroot hleft hright ihleft ihright =>
    simp only [List.forall_mem_append, List.forall_mem_cons] at hothers hus
    obtain ⟨hbefore, hop, hafter⟩ := hothers
    obtain ⟨-, husop, husafter⟩ := hus
    -- The right operand is read with the power of the root as its bound.
    have hcontinues : ∀ x ∈ after, g.Continues (g.power op.kind) x.1.kind := fun x hx =>
      ⟨(hafter x hx).1, hroot.lt_after x hx, (hafter x hx).2.2⟩
    have hoperand : ReadsExpression g (g.power op.kind) (chain v after ++ us) right us := by
      rw [chain, List.append_assoc]
      exact v.isOperand.reads hg (ihright hcontinues husafter (.stop husop))
    rw [links_append_cons, List.append_assoc]
    refine ihleft hbefore (fun x hx => ?_) (.step hop hoperand hclimb)
    exact Grammar.not_continues_of_power_le (.inr (hroot.le_before x hx))

/-- A chain is read as its tree, if its operators bind more tightly than the bound and it ends in
front of a token at which the expression ends. -/
theorem IsPrecedenceTree.reads {g : Grammar} (hg : g.KeepsOperands) {first : Operand}
    {others : List (Token × Operand)} {e : Expr} (h : IsPrecedenceTree g.power first others e)
    {b : Power} {rest : List Token} (hothers : ∀ x ∈ others, g.Continues b x.1.kind)
    (hrest : (front rest).kind = .semicolon ∨ g.power (front rest).kind ≤ b) :
    ReadsExpression g b (chain first others ++ rest) e rest := by
  rw [chain, List.append_assoc]
  refine first.isOperand.reads hg (h.climb hg hothers (fun x hx => ?_) (.stop ?_))
  · refine Grammar.not_continues_of_power_le (hrest.imp_right fun hle => ?_)
    exact Nat.le_of_lt (Nat.lt_of_le_of_lt hle (hothers x hx).2.1)
  · exact Grammar.not_continues_of_power_le hrest

/-! ### The place where a reading ends -/

/-- Tokens, and the same ones with the end token written out after them, until it is passed as
well. -/
inductive IsPadded : List Token → List Token → Prop
  | written (ts : List Token) : IsPadded ts (ts ++ [Token.eof])
  | passed : IsPadded [] []

namespace IsPadded

variable {ts ts' : List Token}

theorem front_eq (h : IsPadded ts ts') : front ts = front ts' := by
  cases h with
  | written =>
    cases ts with
    | nil => rfl
    | cons => rfl
  | passed => rfl

theorem tail (h : IsPadded ts ts') : IsPadded ts.tail ts'.tail := by
  cases h with
  | written =>
    cases ts with
    | nil => exact .passed
    | cons t ts => exact .written ts
  | passed => exact .passed

/-- If the end token is not reached yet, there is a token in front of what is left. -/
theorem exists_eq_cons (h : IsPadded ts ts') {rest : List Token}
    (htail : ts'.tail = rest ++ [Token.eof]) : ∃ last, ts = last :: rest := by
  cases h with
  | written =>
    cases ts with
    | nil => simp at htail
    | cons last us => exact ⟨last, by rw [List.append_cancel_right htail]⟩
  | passed => simp at htail

end IsPadded

namespace Tape

/-- A tape, and the same one with the end token written out. -/
structure Padded (t t' : Tape) : Prop where
  /-- The tokens are the same but for the end token. -/
  ahead : IsPadded t.ahead t'.ahead
  /-- The errors are the same. -/
  errors_eq : t.faults.map Prod.snd = t'.faults.map Prod.snd

/-- Past its last token a tape shows the end token anyway. -/
theorem padded_isSimulation : IsSimulation Padded where
  current_eq _ _ h := h.ahead.front_eq
  peek_eq _ _ h := h.ahead.tail.front_eq
  advance _ _ h := ⟨h.ahead.tail, h.errors_eq⟩
  record _ _ e h := ⟨h.ahead, by simp [h.errors_eq]⟩

/-- Moves take tokens off the front of a tape. -/
theorem ahead_suffix_of_reaches {t t' : Tape} (h : Reaches t t') : t'.ahead <:+ t.ahead := by
  induction h with
  | refl => exact List.suffix_rfl
  | advance _ ih => exact (List.tail_suffix _).trans ih
  | record _ _ ih => exact ih

end Tape

/-- If an expression is also read in front of an end token that is written out, then its reading
ends on its last token, even if that is the last one of the tape. -/
theorem ReadsExpression.ensures_last {g : Grammar} {b : Power} {ts rest : List Token} {e : Expr}
    (h : ReadsExpression g b (ts ++ rest ++ [Token.eof]) e (rest ++ [Token.eof])) (n : Nat)
    (t : Tape) (ht : t.ahead = ts ++ rest) :
    Ensures (fun e? t' => e? = some e ∧ t'.faults.map Prod.snd = t.faults.map Prod.snd ∧
      ∃ init last, ts = init ++ [last] ∧ t'.ahead = last :: rest) (Parse.expression g n b t) := by
  let padded : Tape := ⟨ts ++ rest ++ [Token.eof], t.faults⟩
  have hpadded : t.Padded padded := ⟨ht ▸ .written _, rfl⟩
  intro e? t' hread
  have halike := (Tape.padded_isSimulation.readsAlike g n).expression b hpadded
  rw [hread] at halike
  generalize hread' : Parse.expression g n b padded = outcome at halike
  cases halike with
  | some _ hu =>
    obtain ⟨rfl, hfaults, htail⟩ := h.ensures n padded rfl _ _ hread'
    obtain ⟨last, hlast⟩ := hu.ahead.exists_eq_cons htail
    obtain ⟨init, hinit⟩ :=
      Tape.ahead_suffix_of_reaches ((movesOnly g n).expression b t _ _ hread)
    have htokens : ts ++ rest = init ++ [last] ++ rest := by
      rw [← ht, ← hinit, hlast, List.append_assoc, List.singleton_append]
    exact ⟨rfl, by rw [hu.errors_eq, hfaults], init, last, List.append_cancel_right htokens, hlast⟩

/-- What is read from tokens is read from a text, without an error, and the reading ends on the last
token. -/
theorem ParseState.Sees.expression_eq {g : Grammar} (hg : g.leading .eof = none) {b : Power}
    {s : ParseState Scanner} {ts rest : List Token} (hs : s.Sees (ts ++ rest)) {e : Expr}
    (h : ReadsExpression g b (ts ++ rest ++ [Token.eof]) e (rest ++ [Token.eof])) :
    ∃ s' init last, ts = init ++ [last] ∧ s'.Sees (last :: rest) ∧ s'.errors = s.errors ∧
      ∀ n, Parse.fuelFor (ts ++ rest).length ≤ n →
        Parse.expression g n b s = some (some e, s') := by
  let n := Parse.fuelFor (ts ++ rest).length
  let t : Tape := ⟨ts ++ rest, s.errors.toList.map fun e => ([], e)⟩
  have hfuel : 8 * (ts ++ rest).length + 4 ≤ n := by
    simp only [n, Parse.fuelFor]
    omega
  obtain ⟨e?, t', hread, -⟩ := (Tape.ends hg n).expression b t hfuel
  obtain ⟨rfl, hfaults, init, last, hts, hahead⟩ := h.ensures_last n t rfl _ _ hread
  obtain ⟨s', hshows, hread'⟩ :=
    ((Tape.shows_isSimulation.readsAlike g n).expression b hs.shows).ensures _ _ hread
  refine ⟨s', init, last, hts, ?_, ?_, fun m hm => ?_⟩
  · exact hahead ▸ ⟨hshows.current_eq, hshows.peek_eq, hshows.tokens_eq⟩
  · have herrors : s'.errors.toList = s.errors.toList := by
      rw [hshows.errors_eq, hfaults, hs.shows.errors_eq]
    exact Array.toList_inj.mp herrors
  · exact Lasts.of_le (fun n => (moreFuel g n).expression b s) hm _ hread'

/-! ### Chains are read as their trees -/

/-- **A chain is read as its tree.** Let operators be entered into the grammar of the language, none
of them with a power above that of an operator in front of its operand. If the tokens to come are a
chain whose operators bind more tightly than the bound, and a semicolon or a token that does not
bind more tightly comes after it, then an expression is read that is the one tree of the chain. No
error is recorded, and the reading ends on the last token of the chain. -/
theorem expression_eq_precedenceTree {entries : List (Kind × Power)}
    (hentries : ∀ x ∈ entries, x.2 ≤ .unary) {g : Grammar}
    (hg : g = Grammar.standard.withOperators entries) (b : Power) (first : Operand)
    {others : List (Token × Operand)} (hothers : ∀ x ∈ others, g.Continues b x.1.kind)
    {rest : List Token} (hrest : (front rest).kind = .semicolon ∨ g.power (front rest).kind ≤ b)
    {s : ParseState Scanner} (hs : s.Sees (chain first others ++ rest)) :
    ∃ e, (∀ e', IsPrecedenceTree g.power first others e' ↔ e' = e) ∧
      ∃ s' init last, chain first others = init ++ [last] ∧ s'.Sees (last :: rest) ∧
        s'.errors = s.errors ∧
        ∀ n, Parse.fuelFor (chain first others ++ rest).length ≤ n →
          Parse.expression g n b s = some (some e, s') := by
  have hkeeps : g.KeepsOperands := hg ▸ .withOperators .standard hentries
  have hend : g.leading .eof = none := by rw [hkeeps.leading_eq]; rfl
  obtain ⟨e, he⟩ := exists_isPrecedenceTree g.power first others
  refine ⟨e, fun e' => ⟨fun he' => he'.unique he, fun heq => heq ▸ he⟩, ?_⟩
  have hread : ReadsExpression g b (chain first others ++ (rest ++ [Token.eof])) e
      (rest ++ [Token.eof]) :=
    he.reads hkeeps hothers (by rwa [← (IsPadded.written rest).front_eq])
  exact hs.expression_eq hend (List.append_assoc .. ▸ hread)

/-- Two operators of the same power, one of which is entered anew, and a kind that is no operator of
the language. -/
theorem expression_eq_precedenceTree_entered :
    let g := Grammar.standard.withOperators [(.comma, .product), (.asterisk, .sum)]
    let a := Expr.unary ⟨.minus, "-"⟩ "-" (.identifier (.ofToken ⟨.ident, "a"⟩))
    let b := Expr.identifier (.ofToken ⟨.ident, "b"⟩)
    let two := Expr.integer ⟨.int, "2"⟩ 2
    let c := Expr.unary ⟨.bang, "!"⟩ "!" (.identifier (.ofToken ⟨.ident, "c"⟩))
    ∃ s', Parse.expression g 200 .equals
        (ParseState.ofSource (Scanner.ofString "-a - b * 2 , !c ; d")) =
        some (some (.binary ⟨.asterisk, "*"⟩ (.binary ⟨.minus, "-"⟩ a "-" b) "*"
          (.binary ⟨.comma, ","⟩ two "," c)), s') ∧
      s'.current = ⟨.ident, "c"⟩ ∧ s'.peek = ⟨.semicolon, ";"⟩ ∧ s'.errors = #[] := by
  intro g a b two c
  let first : Operand := ⟨[⟨.minus, "-"⟩, ⟨.ident, "a"⟩], a, .unary (.inr rfl) (.name rfl)⟩
  let second : Operand := ⟨[⟨.ident, "b"⟩], b, .name rfl⟩
  let third : Operand := ⟨[⟨.int, "2"⟩], two, .number (n := 2) rfl (by decide) (by decide)⟩
  let fourth : Operand := ⟨[⟨.bang, "!"⟩, ⟨.ident, "c"⟩], c, .unary (.inl rfl) (.name rfl)⟩
  let others : List (Token × Operand) :=
    [(⟨.minus, "-"⟩, second), (⟨.asterisk, "*"⟩, third), (⟨.comma, ","⟩, fourth)]
  let rest : List Token := [⟨.semicolon, ";"⟩, ⟨.ident, "d"⟩]
  have hothers : ∀ x ∈ others, g.Continues .equals x.1.kind := by
    simp only [others, List.forall_mem_cons]
    decide
  have hsees : (ParseState.ofSource (Scanner.ofString "-a - b * 2 , !c ; d")).Sees
      (chain first others ++ rest) := by
    have htokens : (Scanner.ofString "-a - b * 2 , !c ; d").tokens =
        chain first others ++ rest := by decide +kernel
    exact htokens ▸ ParseState.sees_ofSource _
  have hleft : IsPrecedenceTree g.power first ([] ++ (⟨.minus, "-"⟩, second) :: []) _ :=
    .binary ⟨by simp, by simp⟩ (.operand first) (.operand second)
  have hright : IsPrecedenceTree g.power third ([] ++ (⟨.comma, ","⟩, fourth) :: []) _ :=
    .binary ⟨by simp, by simp⟩ (.operand third) (.operand fourth)
  have hroot : IsRoot g.power [(⟨.minus, "-"⟩, second)] ⟨.asterisk, "*"⟩
      [(⟨.comma, ","⟩, fourth)] := by
    constructor <;> simp only [List.forall_mem_cons] <;> decide
  obtain ⟨e, he, s', init, last, hchain, hsees', herrors, hread⟩ :=
    expression_eq_precedenceTree (by decide) rfl .equals first hothers (.inl rfl) hsees
  obtain rfl := (he _).mp (.binary hroot hleft hright)
  have hlast := congrArg List.getLast? hchain
  rw [List.getLast?_concat] at hlast
  obtain rfl := Option.some.inj hlast
  exact ⟨s', hread 200 (by decide), hsees'.current_eq, hsees'.peek_eq, herrors⟩

end FrontEnd
