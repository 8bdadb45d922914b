import FrontEnd.Parse.Program

/-!
# Scripts

A *workspace* holds a parse in progress together with its grammar, and a *script* drives it by hand:
its steps move the parse, ask about it, enter rules into the grammar, or read something from the
current token on.

## Main definitions

* `FrontEnd.Workspace` — a grammar and the state of a parse.
* `FrontEnd.Workspace.Step`, `FrontEnd.Workspace.Answer` — what can be done and what comes of it.
* `FrontEnd.Workspace.step` — one step.
* `FrontEnd.Workspace.Snapshot` — what is to be seen of a workspace after a step.
* `FrontEnd.Workspace.run` — the snapshots of a script.
-/

namespace FrontEnd

/-- A parse in progress with its grammar. -/
structure Workspace (σ : Type) where
  /-- The rules in force. -/
  grammar : Grammar
  /-- The state of the parse. -/
  state : ParseState σ

namespace Workspace

/-- The steps of a script. -/
inductive Step where
  /-- Move on by one token. -/
  | advance
  /-- Move on if the next token is of the kind. -/
  | expectPeek (kind : Kind)
  /-- Ask whether the current token is of the kind. -/
  | currentIs (kind : Kind)
  /-- Ask whether the next token is of the kind. -/
  | peekIs (kind : Kind)
  /-- Ask for the power of the next token. -/
  | peekPower
  /-- Record an error. -/
  | record (error : ParseError)
  /-- Ask for all errors so far. -/
  | errors
  /-- Enter a rule by which an expression begins. -/
  | addLeading (kind : Kind) (rule : LeadingRule)
  /-- Enter a rule by which an expression goes on. -/
  | addTrailing (kind : Kind) (power : Power) (rule : TrailingRule)
  /-- Enter a rule by which a statement begins. -/
  | addStatement (kind : Kind) (rule : StatementRule)
  /-- Enter the rules of the language. -/
  | addStandard
  /-- Ask for the kinds that have rules. -/
  | ruledKinds
  /-- Read statements up to the end. -/
  | program
  /-- Read a block. -/
  | block
  /-- Read an expression whose operators bind more tightly than the power. -/
  | expression (power : Power)
  /-- Read the right operand of the operator at the current token. -/
  | binary (left : Expr) (power : Power)
  /-- Read by a leading rule. -/
  | leading (rule : LeadingRule)
  /-- Read a statement. -/
  | statement
  /-- Read by a statement rule. -/
  | opening (rule : StatementRule)
  deriving DecidableEq

/-- What comes of a step. -/
inductive Answer where
  /-- Nothing to tell. -/
  | done
  /-- Yes or no. -/
  | flag (value : Bool)
  /-- A power. -/
  | power (value : Power)
  /-- Errors. -/
  | errors (list : List ParseError)
  /-- The kinds by which an expression begins, an expression goes on, and a statement begins. -/
  | ruledKinds (leading trailing statement : List Kind)
  /-- A program. -/
  | program (value : Program)
  /-- A block. -/
  | block (value : Block)
  /-- An expression, if one could be read. -/
  | expression (value : Option Expr)
  /-- A statement, if one could be read. -/
  | statement (value : Option Stmt)
  deriving DecidableEq

variable {σ : Type} [TokenSource σ]

/-- A parse at the first token of a source, by the grammar of the language. -/
def ofSource (source : σ) : Workspace σ :=
  ⟨.standard, .ofSource source⟩

/-- The workspace and the answer after something has been read. -/
def answered {σ α : Type} (w : Workspace σ) (answer : α → Answer)
    (run : Option (α × ParseState σ)) : Option (Answer × Workspace σ) :=
  run.map fun (value, state) => (answer value, { w with state := state })

/-- One step. The fuel bounds what is read by it; the result is `none` if it runs out. -/
def step (fuel : Nat) (w : Workspace σ) : Step → Option (Answer × Workspace σ)
  | .advance => some (.done, { w with state := w.state.advance })
  | .expectPeek k =>
    let (met, state) := Window.expectPeek w.state k
    some (.flag met, { w with state := state })
  | .currentIs k => some (.flag (w.state.current.is k), w)
  | .peekIs k => some (.flag (w.state.peek.is k), w)
  | .peekPower => some (.power (w.grammar.power w.state.peek.kind), w)
  | .record e => some (.done, { w with state := w.state.record e })
  | .errors => some (.errors w.state.errors.toList, w)
  | .addLeading k r => some (.done, { w with grammar := w.grammar.addLeading k r })
  | .addTrailing k b r => some (.done, { w with grammar := w.grammar.addTrailing k b r })
  | .addStatement k r => some (.done, { w with grammar := w.grammar.addStatement k r })
  | .addStandard => some (.done, { w with grammar := w.grammar.withStandard })
  | .ruledKinds =>
    let g := w.grammar
    some (.ruledKinds g.leading.sortedKinds g.trailing.sortedKinds g.statement.sortedKinds, w)
  | .program => w.answered .program (Parse.program w.grammar fuel w.state)
  | .block => w.answered .block (Parse.block w.grammar fuel w.state)
  | .expression b => w.answered .expression (Parse.expression w.grammar fuel b w.state)
  | .binary left b => w.answered .expression (Parse.binary w.grammar fuel left b w.state)
  | .leading r => w.answered .expression (Parse.leading w.grammar fuel r w.state)
  | .statement => w.answered .statement (Parse.statement w.grammar fuel w.state)
  | .opening r => w.answered .statement (Parse.opening w.grammar fuel r w.state)

/-- What is to be seen of a workspace after a step. -/
structure Snapshot where
  /-- The answer to the step. -/
  answer : Answer
  /-- The current token. -/
  current : Token
  /-- The kind of the token after it. -/
  peekKind : Kind
  /-- The errors that the step recorded. -/
  newErrors : List ParseError
  deriving DecidableEq

/-- The snapshot after a step with the given answer, where `old` errors had been recorded before. -/
def snapshot {σ : Type} (w : Workspace σ) (answer : Answer) (old : Nat) : Snapshot :=
  ⟨answer, w.state.current, w.state.peek.kind, w.state.errors.toList.drop old⟩

/-- The snapshots after the steps of a script, `none` if the fuel of a step runs out. -/
def run (fuel : Nat) (w : Workspace σ) : List Step → Option (List Snapshot)
  | [] => some []
  | step :: steps => do
    let (answer, w') ← w.step fuel step
    let snapshots ← run fuel w' steps
    some (w'.snapshot answer w.state.errors.size :: snapshots)

/-- The snapshots of a script on the tokens of a source, the first one from before its first step.
The first `skip` tokens are left out. -/
def perform (fuel : Nat) (source : σ) (skip : Nat) (steps : List Step) : Option (List Snapshot) :=
  let w := ofSource (TokenSource.drop skip source)
  (w.run fuel steps).map (w.snapshot .done 0 :: ·)

/-- The snapshots of a script on a text. -/
def performOn (source : String) (skip : Nat) (steps : List Step) : Option (List Snapshot) :=
  perform (Parse.fuelFor (tokenize source).length) (Scanner.ofString source) skip steps

end Workspace

end FrontEnd
