import FrontEnd.CommandLine.Basic

/-!
# The program

Reads the file named by the first argument, or holds a session on the standard input if there is no
argument. This module only moves bytes between the system and `FrontEnd.CommandLine`.
-/

namespace FrontEnd.CommandLine

/-- Reads bytes up to a line feed, which is included, or to the end of the stream. -/
partial def readLine (stream : IO.FS.Stream) (before : ByteArray) : IO ByteArray := do
  let byte ← stream.read 1
  if byte.isEmpty then
    return before
  let line := before ++ byte
  if byte.data.contains Text.lineFeed then
    return line
  readLine stream line

/-- Writes a text and makes it visible at once. -/
def put (stream : IO.FS.Stream) (text : String) : IO Unit := do
  stream.putStr text
  stream.flush

/-- Holds a session from the line after the prompt on, and gives the exit code. -/
partial def converse (config : Session.Config) (stdin stdout stderr : IO.FS.Stream) :
    IO UInt32 := do
  match Text.linesOf (← readLine stdin ByteArray.empty) with
  | [] =>
    put stdout Session.farewell
    return 0
  | line :: _ =>
    match Session.reply line with
    | .error fault =>
      put stderr (sessionFailure fault)
      return 1
    | .ok answer =>
      put stdout (answer ++ config.prompt)
      converse config stdin stdout stderr

/-- Whether a code of the system states the reason with the given number. The system states it as
it is or negated. -/
def states (code number : UInt32) : Bool :=
  code == number || -code == number

/-- Why the system did not read a file, if it is one of the reasons that a report can give. -/
def ReadFault.ofSystem? : IO.Error → Option ReadFault
  | .noFileOrDirectory .. => some .missing
  | .inappropriateType _ code _ =>
    if states code 20 then some .throughFile
    else if states code 21 then some .folder
    else none
  | .invalidArgument _ code _ => if states code 36 then some .tooLong else none
  | _ => none

/-- The bytes of a file, or why it could not be read. Other failures of the system are passed on. -/
def readFile (path : String) : IO (Except ReadFault ByteArray) := do
  try
    return .ok (← IO.FS.readBinFile path)
  catch e =>
    match ReadFault.ofSystem? e with
    | some fault => return .error fault
    | none => throw e

/-- The part of the environment that configures a session. -/
def readEnvironment : IO Session.Environment := do
  let names := ["MONKEY_PROMPT", "USER", "USERNAME"]
  let values ← names.mapM fun name => return (name, ← IO.getEnv name)
  return fun name => ((values.lookup name).join).map String.toUTF8

end FrontEnd.CommandLine

open FrontEnd FrontEnd.CommandLine in
/-- The program. -/
def main (arguments : List String) : IO UInt32 := do
  let stdout ← IO.getStdout
  let stderr ← IO.getStderr
  match arguments with
  | path :: _ =>
    let report := onFile path (← readFile path)
    stdout.write report.stdout
    stdout.flush
    put stderr report.stderr
    return report.code
  | [] =>
    let config := Session.Config.ofEnvironment (← readEnvironment)
    put stdout (opening config ++ config.prompt)
    converse config (← IO.getStdin) stdout stderr
