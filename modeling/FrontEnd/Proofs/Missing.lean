import FrontEnd.Proofs.Outcome
import FrontEnd.Proofs.Runs
import FrontEnd.Proofs.Termination
import Mathlib.Data.List.ReduceOption

/-!
# What is missing has an error

A tree can lack something in two ways: a binding or a result may be without its value, and a
statement or an expression that could not be read is not there at all. Neither happens in silence.
Whatever the grammar, and wherever the parse stands, a reading that gives nothing has recorded an
error, and what is missing inside a tree is made up for by the errors that were recorded while the
tree was read, one for each value and each statement. No error is counted twice, since the readings
of the parts of a tree come one after the other.

The invariant of a reading is that what it gives is *covered* by its errors, where a tree that is
not there at all needs one error of its own.

## Main definitions

* `FrontEnd.Expr.missing`, `FrontEnd.Stmt.missing`, `FrontEnd.Block.missing`,
  `FrontEnd.Program.missing` — the number of values that a tree lacks, at any depth.
* `FrontEnd.Parse.Attempts` — the statements that are tried one after the other, read or not.
* `FrontEnd.ParseState.Covered` — what was read is covered by the errors.
* `FrontEnd.Workspace.Transition.Accounted` — what holds of every step of a script.

## Main results

* `FrontEnd.ParseState.readsCovered` — every reading gives what is covered.
* `FrontEnd.Workspace.accounted_of_step` — every step is accounted for.
* `FrontEnd.Workspace.missing_has_error` — nothing is missing without an error.
-/

namespace FrontEnd

open Window

/-! ### Values that a tree lacks -/

mutual

/-- The number of bindings and results without a value inside an expression. -/
def Expr.missing : Expr → Nat
  | .identifier _ => 0
  | .integer _ _ => 0
  | .boolean _ _ => 0
  | .unary _ _ operand => operand.missing
  | .binary _ left _ right => left.missing + right.missing
  | .conditional _ condition consequence none => condition.missing + consequence.missing
  | .conditional _ condition consequence (some alternative) =>
    condition.missing + consequence.missing + alternative.missing

/-- The number of bindings and results without a value in a statement, itself included. -/
def Stmt.missing : Stmt → Nat
  | .binding _ _ none => 1
  | .binding _ _ (some value) => value.missing
  | .result _ none => 1
  | .result _ (some value) => value.missing
  | .expression _ expr => expr.missing

/-- The number of bindings and results without a value in a block. -/
def Block.missing : Block → Nat
  | .mk _ statements => Stmt.missingAll statements

/-- The number of bindings and results without a value in some statements. -/
def Stmt.missingAll : List Stmt → Nat
  | [] => 0
  | s :: ss => s.missing + Stmt.missingAll ss

end

/-- The number of bindings and results without a value in a program. -/
def Program.missing (p : Program) : Nat :=
  Stmt.missingAll p.statements

theorem Block.missing_eq (b : Block) : b.missing = Stmt.missingAll b.statements := by
  cases b
  rfl

/-! ### Statements that are tried -/

namespace Parse

variable {ω : Type} [Window ω]

/-- Statements are tried one after the other from a window on until the current token is of a kind
in `stop`. Each attempt gives a statement or nothing; the window is that after the last one. -/
inductive Attempts (g : Grammar) (stop : List Kind) : ω → List (Option Stmt) → ω → Prop
  | stop {s : ω} (hstop : (current s).kind ∈ stop) : Attempts g stop s [] s
  | next {s s₁ s₂ : ω} {n : Nat} {first? : Option Stmt} {others : List (Option Stmt)}
      (hstop : (current s).kind ∉ stop) (hfirst : statement g n s = some (first?, s₁))
      (hothers : Attempts g stop (advance s₁) others s₂) : Attempts g stop s (first? :: others) s₂

end Parse

/-! ### What errors cover -/

/-- A number of errors that grew from `old` to `new` *covers* what was read: it grew if nothing was
read, and otherwise it grew by everything that `m` counts in what was read, apart from `k` that had
been missing before. -/
inductive Covered {α : Type} (m : α → Nat) (k old new : Nat) : Option α → Prop
  | absent (herror : old < new) : Covered m k old new none
  | present {a : α} (hgrows : old ≤ new) (hcover : m a + old ≤ k + new) :
      Covered m k old new (some a)

namespace Covered

variable {α β : Type} {m : α → Nat} {m' : β → Nat} {j k p q r : Nat} {a? : Option α}

theorem grows (h : Covered m k p q a?) : p ≤ q := by
  cases h with
  | absent herror => exact herror.le
  | present hgrows _ => exact hgrows

/-- What is read later on is covered since the beginning, where the errors in between cover what was
given to it. -/
theorem after (h : Covered m j q r a?) (hgrows : p ≤ q) (hgiven : j + p ≤ k + q) :
    Covered m k p r a? := by
  cases h with
  | absent herror => exact .absent (by omega)
  | present _ hcover => exact .present (by omega) (by omega)

/-- What is built from what was read and from other parts is covered, if the errors recorded later
cover what is missing in the others. -/
theorem map {f : α → β} {d : Nat} (h : Covered m j p q a?) (hf : ∀ a, m' (f a) ≤ m a + d)
    (hgrows : q ≤ r) (hothers : d + j + q ≤ k + r) : Covered m' k p r (a?.map f) := by
  cases h with
  | absent herror => exact .absent (by omega)
  | @present a _ hcover =>
    have hle := hf a
    exact .present (by omega) (by omega)

/-- A statement lacks its value if that could not be read, and is covered by the errors of it. -/
theorem of_value {f : Option α → β} (h : Covered m 0 p q a?) (hnone : m' (f none) = 1)
    (hsome : ∀ a, m' (f (some a)) = m a) : Covered m' 0 p q (some (f a?)) := by
  cases h with
  | absent herror => exact .present herror.le (by omega)
  | @present a hgrows hcover => exact .present hgrows (by rw [hsome]; exact hcover)

end Covered

/-! ### Every reading gives what is covered -/

namespace ParseState

variable {σ : Type} [TokenSource σ] {α : Type}

/-- What was read is covered by the errors recorded since the state `s`, apart from `k` that had
been missing before. -/
def Covers (m : α → Nat) (k : Nat) (s : ParseState σ) (a? : Option α) (s' : ParseState σ) : Prop :=
  Covered m k s.errors.size s'.errors.size a?

theorem size_errors_record (s : ParseState σ) (e : ParseError) :
    (Window.record s e).errors.size = s.errors.size + 1 :=
  Array.size_push e

theorem size_errors_skipSemicolon (s : ParseState σ) :
    (skipSemicolon s).errors.size = s.errors.size := by
  unfold skipSemicolon
  split
  · rfl
  · rfl

/-- A token at which nothing can be read is covered by the error that says so. -/
theorem covers_record {m : α → Nat} {k : Nat} {s t : ParseState σ}
    (hs : s.errors.size ≤ t.errors.size) (e : ParseError) :
    Covers m k s none (Window.record t e) :=
  .absent (by rw [size_errors_record]; omega)

/-- If a wanted token does not come next, the error that is recorded covers what is not read. -/
theorem covers_expecting {m : α → Nat} {k : Nat} {s t : ParseState σ} {kind : Kind}
    {f : ParseState σ → Option (Option α × ParseState σ)} (hs : s.errors.size ≤ t.errors.size)
    (hf : Ensures (Covers m k s) (f (Window.advance t))) :
    Ensures (Covers m k s) (Window.expecting t kind f) :=
  Ensures.expecting (fun _ => hf) fun _ => covers_record hs _

/-- The outcome of statements that were tried: those that were read are given, and the errors cover
one by one those that were not, and the values that the others lack. -/
def Tried (g : Grammar) (stop : List Kind) (s : ParseState σ) (ss : List Stmt)
    (s' : ParseState σ) : Prop :=
  ∃ attempts, Parse.Attempts g stop s attempts s' ∧ ss = attempts.reduceOption ∧
    attempts.count none + Stmt.missingAll ss + s.errors.size ≤ s'.errors.size

theorem Tried.missingAll_le {g : Grammar} {stop : List Kind} {s s' : ParseState σ} {ss : List Stmt}
    (h : Tried g stop s ss s') : Stmt.missingAll ss + s.errors.size ≤ s'.errors.size := by
  obtain ⟨attempts, -, -, hle⟩ := h
  omega

/-- The same, where the number of errors grew by `k`. -/
theorem Tried.exists_attempts {g : Grammar} {stop : List Kind} {s s' : ParseState σ}
    {ss : List Stmt} {k : Nat} (h : Tried g stop s ss s')
    (hk : s'.errors.size = s.errors.size + k) :
    ∃ attempts, Parse.Attempts g stop s attempts s' ∧ ss = attempts.reduceOption ∧
      attempts.count none + Stmt.missingAll ss ≤ k := by
  obtain ⟨attempts, hattempts, hss, hle⟩ := h
  exact ⟨attempts, hattempts, hss, by omega⟩

/-- Every reading by `g` with the fuel `n` gives what is covered by the errors that it records. What
was read before and becomes part of it counts as given. -/
structure ReadsCovered (σ : Type) [TokenSource σ] (g : Grammar) (n : Nat) : Prop where
  expression : ∀ b (s : ParseState σ), Ensures (Covers Expr.missing 0 s) (Parse.expression g n b s)
  climb : ∀ b left (s : ParseState σ),
    Ensures (Covers Expr.missing left.missing s) (Parse.climb g n b left s)
  binary : ∀ left b (s : ParseState σ),
    Ensures (Covers Expr.missing left.missing s) (Parse.binary g n left b s)
  leading : ∀ r (s : ParseState σ), Ensures (Covers Expr.missing 0 s) (Parse.leading g n r s)
  conditional : ∀ s : ParseState σ, Ensures (Covers Expr.missing 0 s) (Parse.conditional g n s)
  statement : ∀ s : ParseState σ, Ensures (Covers Stmt.missing 0 s) (Parse.statement g n s)
  opening : ∀ r (s : ParseState σ), Ensures (Covers Stmt.missing 0 s) (Parse.opening g n r s)
  statements : ∀ stop (s : ParseState σ), Ensures (Tried g stop s) (Parse.statements g n stop s)
  block : ∀ s : ParseState σ,
    Ensures (fun b => Tried g [.rbrace, .eof] (Window.advance s) b.statements) (Parse.block g n s)

theorem ReadsCovered.zero (g : Grammar) : ReadsCovered σ g 0 := by
  constructor <;> intros <;> exact .none

/-- The rest of a conditional is covered together with its condition if its blocks are covered. -/
theorem covers_branches {block : ParseState σ → Option (Block × ParseState σ)}
    (hblock : ∀ s, Ensures (fun b t => b.missing + s.errors.size ≤ t.errors.size) (block s))
    (i : Token) {condition? : Option Expr} {s t : ParseState σ}
    (ht : Covers Expr.missing 0 s condition? t) :
    Ensures (Covers Expr.missing 0 s) (Parse.branches block i condition? t) := by
  have hst : s.errors.size ≤ t.errors.size := ht.grows
  unfold Parse.branches
  refine covers_expecting hst (covers_expecting hst ?_)
  refine (hblock _).bind fun first t₃ h₃ => ?_
  change first.missing + t.errors.size ≤ t₃.errors.size at h₃
  have hst₃ : s.errors.size ≤ t₃.errors.size := by omega
  dsimp only
  split
  · refine covers_expecting hst₃ ((hblock _).bind fun second t₅ h₅ => .some ?_)
    change second.missing + t₃.errors.size ≤ t₅.errors.size at h₅
    refine Covered.map ht (d := first.missing + second.missing) (fun c => ?_) ?_ ?_
    · rw [Expr.missing, Nat.add_assoc]
    · dsimp only
      omega
    · dsimp only
      omega
  · refine .some (Covered.map ht (d := first.missing) (fun c => ?_) (by omega) (by omega))
    rw [Expr.missing]

variable {g : Grammar} {n : Nat}

/-- One more unit of fuel. -/
theorem ReadsCovered.succ (ih : ReadsCovered σ g n) : ReadsCovered σ g (n + 1) where
  expression b s := by
    unfold Parse.expression
    cases g.leading (current s).kind with
    | none => exact .some (covers_record le_rfl _)
    | some r =>
      refine (ih.leading r s).bind fun left? t ht => ?_
      cases ht with
      | absent herror => exact .some (.absent herror)
      | present hgrows hcover => exact (ih.climb b _ t).mono fun _ _ hu => hu.after hgrows hcover
  climb b left s := by
    have hleft : Covers Expr.missing left.missing s (some left) s := .present le_rfl le_rfl
    unfold Parse.climb
    split
    · cases g.trailing (peek s).kind with
      | none => exact .some hleft
      | some r =>
        refine (ih.binary left _ (Window.advance s)).bind fun e? t ht => ?_
        cases ht with
        | absent herror => exact .some (.absent herror)
        | present hgrows hcover => exact (ih.climb b _ t).mono fun _ _ hu => hu.after hgrows hcover
    · exact .some hleft
  binary left b s := by
    unfold Parse.binary
    refine (ih.expression b (Window.advance s)).bind fun right? t ht => .some ?_
    refine Covered.map ht (d := left.missing) (fun right => ?_) le_rfl le_rfl
    rw [Expr.missing, Nat.add_comm]
  leading r s := by
    unfold Parse.leading
    cases r with
    | identifier => exact .some (.present le_rfl le_rfl)
    | integer =>
      cases Text.signed64? (current s).literal with
      | none => exact .some (covers_record le_rfl _)
      | some value => exact .some (.present le_rfl le_rfl)
    | boolean => exact .some (.present le_rfl le_rfl)
    | unary =>
      refine (ih.expression _ (Window.advance s)).bind fun operand? t ht => .some ?_
      exact Covered.map ht (d := 0) (fun operand => le_rfl) le_rfl (by omega)
    | grouping =>
      refine (ih.expression _ (Window.advance s)).bind fun e? t ht => ?_
      exact covers_expecting ht.grows (.some ht)
    | conditional => exact ih.conditional s
  conditional s := by
    unfold Parse.conditional
    refine covers_expecting le_rfl ((ih.expression _ _).bind fun condition? t₂ h₂ => ?_)
    refine covers_branches (fun u => ?_) _ h₂
    exact (ih.block u).mono fun b v hv => b.missing_eq ▸ hv.missingAll_le
  statement s := by
    unfold Parse.statement
    exact ih.opening _ s
  opening r s := by
    unfold Parse.opening
    cases r with
    | binding =>
      refine covers_expecting le_rfl (covers_expecting le_rfl ?_)
      refine (ih.expression _ _).bind fun value? t ht => .some ?_
      rw [Covers, size_errors_skipSemicolon]
      exact Covered.of_value ht rfl fun _ => rfl
    | result =>
      refine (ih.expression _ _).bind fun value? t ht => .some ?_
      rw [Covers, size_errors_skipSemicolon]
      exact Covered.of_value ht rfl fun _ => rfl
    | expression =>
      refine (ih.expression _ s).bind fun e? t ht => .some ?_
      rw [Covers, size_errors_skipSemicolon]
      exact Covered.map ht (d := 0) (fun e => le_rfl) le_rfl (by omega)
  statements stop s := by
    unfold Parse.statements
    split
    next hstop => exact .some ⟨[], .stop hstop, rfl, by simp [Stmt.missingAll]⟩
    next hstop =>
      -- The equation of each attempt is kept, since the attempts are part of the outcome.
      refine ((ih.statement s).and fun _ _ h => h).bind fun first? t ht => ?_
      obtain ⟨ht, hfirst⟩ := ht
      refine (ih.statements stop (Window.advance t)).bind fun others u hu => .some ?_
      obtain ⟨attempts, hattempts, rfl, hle⟩ := hu
      change _ + t.errors.size ≤ u.errors.size at hle
      refine ⟨first? :: attempts, .next hstop hfirst hattempts, ?_, ?_⟩
      · cases first? <;> rfl
      · cases ht with
        | absent herror =>
          rw [List.count_cons_self, Option.toList_none, List.nil_append]
          omega
        | present _ hcover =>
          rw [List.count_cons_of_ne (by simp), Option.toList_some, List.singleton_append,
            Stmt.missingAll]
          omega
  block s := by
    unfold Parse.block
    exact (ih.statements _ (Window.advance s)).bind fun body t ht => .some ht

/-- **Every reading gives what is covered by its errors.** -/
theorem readsCovered (g : Grammar) (n : Nat) : ReadsCovered σ g n := by
  induction n with
  | zero => exact .zero g
  | succ n ih => exact .succ ih

/-- A program is made up of the statements that were tried. -/
theorem tried_program (g : Grammar) (n : Nat) (s : ParseState σ) :
    Ensures (fun p => Tried g [.eof] s p.statements) (Parse.program g n s) :=
  ((readsCovered g n).statements _ s).bind fun _ _ ht => .some ht

end ParseState

/-! ### Every step is accounted for -/

namespace Workspace

/-- The number of bindings and results without a value, at any depth of what a step answers. -/
def Answer.missing : Answer → Nat
  | .program p => p.missing
  | .block b => b.missing
  | .expression e? => (e?.map Expr.missing).getD 0
  | .statement s? => (s?.map Stmt.missing).getD 0
  | _ => 0

/-- The number of bindings and results without a value in what a step is given. -/
def Step.missing : Step → Nat
  | .binary left _ => left.missing
  | _ => 0

/-- The growth of the number of errors from `old` to `new` covers what a step answers, apart from
`k` values that had been missing before. -/
structure Answer.IsCovered (k old new : Nat) (a : Answer) : Prop where
  /-- There is an error if no expression or no statement could be read. -/
  lt : a = .expression none ∨ a = .statement none → old < new
  /-- There is an error for each value that is missing. -/
  le : a.missing + old ≤ k + new

namespace Answer.IsCovered

variable {k p q : Nat}

theorem expression {e? : Option Expr} (h : Covered Expr.missing k p q e?) :
    (Answer.expression e?).IsCovered k p q := by
  cases h with
  | absent herror =>
    refine ⟨fun _ => herror, ?_⟩
    simp only [missing, Option.map_none, Option.getD_none]
    omega
  | present _ hcover => exact ⟨by simp, hcover⟩

theorem statement {s? : Option Stmt} (h : Covered Stmt.missing k p q s?) :
    (Answer.statement s?).IsCovered k p q := by
  cases h with
  | absent herror =>
    refine ⟨fun _ => herror, ?_⟩
    simp only [missing, Option.map_none, Option.getD_none]
    omega
  | present _ hcover => exact ⟨by simp, hcover⟩

/-- An answer that is no expression and no statement. -/
theorem other {a : Answer} (ha : a ≠ .expression none ∧ a ≠ .statement none)
    (hle : a.missing + p ≤ q) : a.IsCovered k p q :=
  ⟨fun h => absurd h (not_or.mpr ha), by omega⟩

end Answer.IsCovered

variable {σ : Type} [TokenSource σ] {w w' : Workspace σ} {a : Answer} {st : Step} {n : Nat}

omit [TokenSource σ] in
/-- What is answered is covered if what was read is. -/
theorem isCovered_of_answered {α : Type} {k : Nat} {answer : α → Answer}
    {run : Option (α × ParseState σ)}
    (hrun : Ensures (fun x s => (answer x).IsCovered k w.state.errors.size s.errors.size) run)
    (h : w.answered answer run = some (a, w')) :
    a.IsCovered k w.state.errors.size w'.state.errors.size := by
  obtain ⟨x, s, heq, rfl, rfl⟩ := answered_eq_some h
  exact hrun x s heq

/-- Every step covers what it answers by the errors that it records. -/
theorem isCovered_of_step (h : w.step n st = some (a, w')) :
    a.IsCovered st.missing w.state.errors.size w'.state.errors.size := by
  have hreads := ParseState.readsCovered (σ := σ) w.grammar n
  have hgrows : 0 + w.state.errors.size ≤ w'.state.errors.size := by
    simpa using (ParseState.errors_prefix_of_reaches (step_spec h).2).length_le
  cases st with
  | program =>
    refine isCovered_of_answered ?_ h
    exact (ParseState.tried_program w.grammar n w.state).mono fun p s hs =>
      .other (by simp) hs.missingAll_le
  | block =>
    refine isCovered_of_answered ((hreads.block w.state).mono fun b s hs => ?_) h
    exact .other (by simp) (b.missing_eq ▸ hs.missingAll_le : b.missing + _ ≤ _)
  | expression b =>
    exact isCovered_of_answered ((hreads.expression b _).mono fun _ _ => .expression) h
  | binary left b =>
    exact isCovered_of_answered ((hreads.binary left b _).mono fun _ _ => .expression) h
  | leading r => exact isCovered_of_answered ((hreads.leading r _).mono fun _ _ => .expression) h
  | statement => exact isCovered_of_answered ((hreads.statement _).mono fun _ _ => .statement) h
  | opening r => exact isCovered_of_answered ((hreads.opening r _).mono fun _ _ => .statement) h
  | expectPeek k =>
    rw [step_expectPeek] at h
    obtain ⟨rfl, -⟩ := Prod.mk.inj (Option.some.inj h)
    exact .other (by simp) hgrows
  | advance | currentIs | peekIs | peekPower | record | errors | addLeading | addTrailing
  | addStatement | addStandard | ruledKinds =>
    obtain ⟨rfl, -⟩ := Prod.mk.inj (Option.some.inj h)
    exact .other (by simp) hgrows

/-- What holds of a step that was taken and recorded the errors `new`. -/
structure Transition.Accounted (r : Transition σ) (new : List ParseError) : Prop where
  /-- The errors come after those that were there. -/
  errors_eq : r.after.state.errors.toList = r.before.state.errors.toList ++ new
  /-- If no expression or no statement could be read, there is an error. -/
  ne_nil : r.answer = .expression none ∨ r.answer = .statement none → new ≠ []
  /-- There is an error for each value that is missing in what was read. -/
  missing_le : r.answer.missing ≤ r.step.missing + new.length
  /-- A program holds every statement that was tried, apart from those that could not be read; and
  there is an error for each of these and for each value that is missing in the others. -/
  program : ∀ p, r.step = .program → r.answer = .program p → ∃ attempts,
    Parse.Attempts r.before.grammar [.eof] r.before.state attempts r.after.state ∧
      p.statements = attempts.reduceOption ∧ attempts.count none + p.missing ≤ new.length
  /-- So does a block. -/
  block : ∀ b, r.step = .block → r.answer = .block b → ∃ attempts,
    Parse.Attempts r.before.grammar [.rbrace, .eof] (advance r.before.state) attempts
        r.after.state ∧
      b.statements = attempts.reduceOption ∧ attempts.count none + b.missing ≤ new.length

/-- **Every step is accounted for** by the errors that it records. -/
theorem accounted_of_step (h : w.step n st = some (a, w')) :
    ∃ new, Transition.Accounted ⟨w, st, a, w'⟩ new := by
  obtain ⟨new, hnew⟩ := ParseState.errors_prefix_of_reaches (step_spec h).2
  have hsize : w'.state.errors.size = w.state.errors.size + new.length := by
    simpa using (congrArg List.length hnew).symm
  have hcovered := isCovered_of_step h
  refine ⟨new, hnew.symm, ?_, ?_, ?_, ?_⟩
  · rintro hnone rfl
    exact absurd hsize (hcovered.lt hnone).ne'
  · have hle := hcovered.le
    dsimp only
    omega
  · rintro p hst ha
    dsimp only at hst ha
    subst hst ha
    obtain ⟨p', s, hread, hp, rfl⟩ := answered_eq_some h
    obtain rfl : p = p' := by simpa using hp
    exact (ParseState.tried_program w.grammar n w.state p s hread).exists_attempts hsize
  · rintro b hst ha
    dsimp only at hst ha
    subst hst ha
    obtain ⟨b', s, hread, hb, rfl⟩ := answered_eq_some h
    obtain rfl : b = b' := by simpa using hb
    rw [b.missing_eq]
    exact ((ParseState.readsCovered w.grammar n).block w.state b s hread).exists_attempts hsize

/-- The program of a text lacks at most as many values as there are errors. -/
theorem missing_parse_le (source : String) :
    (parse source).program.missing ≤ (parse source).errors.length := by
  obtain ⟨p, s, hread, hparse⟩ : ∃ p s, Parse.program .standard
      (Parse.fuelFor (tokenize source).length) (ParseState.ofSource (Scanner.ofString source)) =
        some (p, s) ∧ (⟨p, s.errors.toList⟩ : Parsed) = parse source := by
    obtain ⟨⟨p, s⟩, hread, hparse⟩ := Option.bind_eq_some_iff.mp (parseSource?_eq source)
    exact ⟨p, s, hread, Option.some.inj hparse⟩
  have hle := (ParseState.tried_program _ _ _ p s hread).missingAll_le
  rw [← hparse]
  exact hle

/-- **Nothing is missing without an error.** Every step of a script that ends is accounted for by
the errors that it records, whatever the grammar and wherever the parse stands: an expression or a
statement that is not there has an error, and so has each value that is missing in what is there,
and each statement that was tried and left out. So a text without errors has a program that lacks no
value, and every statement that was read, at any depth, is in it. -/
theorem missing_has_error :
    (∀ {σ : Type} [TokenSource σ] (w w' : Workspace σ) (n : Nat) (st : Step) (a : Answer),
      w.step n st = some (a, w') → ∃ new, Transition.Accounted ⟨w, st, a, w'⟩ new) ∧
    ∀ source : String,
      (parse source).program.missing ≤ (parse source).errors.length ∧
      ((parse source).errors = [] → (parse source).program.missing = 0 ∧
        ReadsStatements .standard [.eof] (tokenize source).dropLast
          (parse source).program.statements []) := by
  refine ⟨fun w w' n st a h => accounted_of_step h, fun source => ⟨missing_parse_le source, ?_⟩⟩
  intro herrors
  have hle := missing_parse_le source
  rw [herrors, List.length_nil, Nat.le_zero] at hle
  obtain ⟨ss, hreads, hparse⟩ := reads_of_errors_eq_nil herrors
  refine ⟨hle, ?_⟩
  rw [dropLast_tokenize, tokens_ofString, hparse]
  exact hreads

/-- Two values are missing, one of them inside a block, and one statement is left out. -/
theorem missing_has_error_unreadable :
    let w : Workspace Scanner :=
      ofSource (Scanner.ofString "let x = ; 1 + ; if (a) \x7b return ) \x7d")
    (∃ a w' new, w.step 100 .program = some (a, w') ∧ a.missing = 2 ∧
      Transition.Accounted ⟨w, .program, a, w'⟩ new ∧ 2 ≤ new.length) ∧
    (parse "let x = if (a) \x7b return 1 \x7d").errors = [] ∧
      (parse "let x = if (a) \x7b return 1 \x7d").program.missing = 0 := by
  intro w
  have hstep : (w.step 100 .program).map (·.1.missing) = some 2 := by decide +kernel
  obtain ⟨⟨a, w'⟩, hstep, hmissing⟩ := Option.map_eq_some_iff.mp hstep
  obtain ⟨new, hnew⟩ := missing_has_error.1 w w' 100 .program a hstep
  have hle := hnew.missing_le
  have herrors : (parse "let x = if (a) \x7b return 1 \x7d").errors = [] := by decide +kernel
  refine ⟨⟨a, w', new, hstep, hmissing, hnew, ?_⟩, herrors, ?_⟩
  · simpa [Step.missing, hmissing] using hle
  · exact ((missing_has_error.2 _).2 herrors).1

end Workspace

end FrontEnd
