import FrontEnd.CommandLine.Folder
import FrontEnd.Session.Basic

/-!
# The command line

With an argument, the file that the first argument names is read as a text: its canonical form is
printed, or a report of what is wrong with it, followed by hints. Without an argument a session is
held over the standard input.

The log that the environment asks for by `MONKEY_LOG`, which goes to the standard error output, is
not part of what a run leaves behind here.

## Main definitions

* `FrontEnd.CommandLine.Report` — what a run of the program leaves behind.
* `FrontEnd.CommandLine.help` — the hints of errors.
* `FrontEnd.CommandLine.onText`, `FrontEnd.CommandLine.onFile` — a run on a file.
* `FrontEnd.CommandLine.onInput` — a run on the standard input.
* `FrontEnd.CommandLine.run` — a run with given arguments.
-/

namespace FrontEnd.CommandLine

/-- What a run of the program leaves behind. -/
structure Report where
  /-- The exit code, zero for success. -/
  code : UInt32
  /-- The bytes on the standard output. -/
  stdout : ByteArray
  /-- The text on the standard error output, apart from the log that `MONKEY_LOG` asks for. -/
  stderr : String

/-- The text of a failure: what failed and why. -/
def failure (what why : String) : String :=
  "Error: " ++ what ++ "\n\nCaused by:\n    " ++ why ++ "\n"

/-- The text of the failure of a session. -/
def sessionFailure (fault : Session.Fault) : String :=
  failure "REPL I/O failed" fault.message

/-- The hints of errors, a line for each error that has one. -/
def help (errors : List ParseError) : String :=
  String.join <| errors.filterMap fun e =>
    e.hint?.map fun hint => "help (" ++ e.name ++ "): " ++ hint ++ "\n"

/-- A run on a text. -/
def onText (text : String) : Report :=
  let parsed := parse text
  if parsed.errors.isEmpty then
    ⟨0, (parsed.program.render ++ "\n").toUTF8, ""⟩
  else
    let messages := parsed.errors.map ParseError.message
    ⟨1, (Session.errorReport messages ++ help parsed.errors).toUTF8, ""⟩

/-- A run on the file at a path, given the outcome of reading it. -/
def onFile (path : String) (content : Except ReadFault ByteArray) : Report :=
  let text := content.bind fun bytes =>
    match String.fromUTF8? bytes with
    | none => .error .notText
    | some text => .ok text
  match text with
  | .error fault => ⟨1, ByteArray.empty, failure ("failed to read " ++ path) fault.message⟩
  | .ok text => onText text

/-- The lines with which a session on the standard input begins. -/
def opening (config : Session.Config) : String :=
  config.greeting ++ "\nFeel free to type in commands\n"

/-- A run on the standard input. -/
def onInput (config : Session.Config) (input : ByteArray) : Report :=
  let outcome := Session.run config none input
  let stdout := (opening config).toUTF8 ++ outcome.output
  match outcome.fault with
  | none => ⟨0, stdout, ""⟩
  | some fault => ⟨1, stdout, sessionFailure fault⟩

/-- A run with the given arguments, of which only the first counts. Of the standard error output it
reports the failures and leaves out the log that `MONKEY_LOG` asks for. -/
def run (read : String → Except ReadFault ByteArray) (env : Session.Environment)
    (arguments : List String) (input : ByteArray) : Report :=
  match arguments with
  | path :: _ => onFile path (read path)
  | [] => onInput (.ofEnvironment env) input

end FrontEnd.CommandLine
