import FrontEnd.Parse.Program
import FrontEnd.Session.Config
import FrontEnd.Session.Device
import FrontEnd.Text.Lines

/-!
# Sessions

A session reads its input line by line. It shows the prompt, answers each line with the canonical
form of its text or with a report of what is wrong, shows the prompt again, and takes its leave at
the end of the input. It ends early at a line that is not text and when its device is full.

## Main definitions

* `FrontEnd.Session.errorReport` — a report of errors.
* `FrontEnd.Session.response`, `FrontEnd.Session.reply` — the answer to a line.
* `FrontEnd.Session.start` — a session over an input.
* `FrontEnd.Session.Outcome`, `FrontEnd.Session.run` — what a session leaves behind.
-/

namespace FrontEnd.Session

/-- A report of errors, one line for each message. -/
def errorReport (messages : List String) : String :=
  "Parser errors:\n" ++ String.join (messages.map fun message => "\t" ++ message ++ "\n")

/-- The answer to a line of text. -/
def response (line : String) : String :=
  match canonical line with
  | .ok rendering => rendering ++ "\n"
  | .error errors => errorReport (errors.map ParseError.message)

/-- The answer to a line of bytes. -/
def reply (line : ByteArray) : Except Fault String :=
  match String.fromUTF8? line with
  | none => .error .notText
  | some text => .ok (response text)

/-- The last words of a session. -/
def farewell : String := "\nExiting...\n"

/-- Answers lines, each answer followed by the prompt, and takes leave. -/
def serve (config : Config) : List ByteArray → EStateM Fault Device Unit
  | [] => say farewell
  | line :: lines => do
    match reply line with
    | .error fault => throw fault
    | .ok answer =>
      say answer
      say config.prompt
      serve config lines

/-- A session over an input. -/
def start (config : Config) (input : ByteArray) : EStateM Fault Device Unit := do
  say config.prompt
  serve config (Text.linesOf input)

/-- What a session leaves behind. -/
structure Outcome where
  /-- The bytes written. -/
  output : ByteArray
  /-- What ended the session early, if something did. -/
  fault : Option Fault

/-- Runs a session on a device of the given capacity. -/
def run (config : Config) (capacity : Option Nat) (input : ByteArray) : Outcome :=
  match (start config input).run (.ofCapacity capacity) with
  | .ok () device => ⟨device.written, none⟩
  | .error fault device => ⟨device.written, some fault⟩

end FrontEnd.Session
