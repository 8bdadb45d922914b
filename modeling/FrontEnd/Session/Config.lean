/-!
# Configuration of a session

A session shows a prompt in front of every line and greets its user by name if the name is known.
Both come from the environment, whose values are bytes: one that is not text in UTF-8 counts as not
set.

## Main definitions

* `FrontEnd.Session.Config` — the prompt and the name of the user.
* `FrontEnd.Session.Config.standard` — the configuration if nothing is known.
* `FrontEnd.Session.Config.ofEnvironment` — the configuration that an environment asks for.
* `FrontEnd.Session.Config.greeting` — the words to the user.
-/

namespace FrontEnd.Session

/-- An environment gives bytes to some names. -/
abbrev Environment := String → Option ByteArray

/-- The text that an environment gives to a name, if it is set and is text. -/
def Environment.text? (env : Environment) (name : String) : Option String :=
  (env name).bind String.fromUTF8?

/-- The configuration of a session. -/
structure Config where
  /-- What is shown before each line. -/
  prompt : String
  /-- The name of the user, if it is known. -/
  user : Option String
  deriving DecidableEq, Repr

namespace Config

/-- The prompt if no other is asked for. -/
def standardPrompt : String := ">> "

/-- The configuration if nothing is known. -/
def standard : Config := ⟨standardPrompt, none⟩

/-- The configuration that an environment asks for. The second name of the user is looked up only if
the first is not set, and an empty name is no name. -/
def ofEnvironment (env : Environment) : Config where
  prompt := (env.text? "MONKEY_PROMPT").getD standardPrompt
  user := ((env.text? "USER").or (env.text? "USERNAME")).filter fun name => !name.isEmpty

/-- The words with which a session begins. -/
def greeting (config : Config) : String :=
  match config.user with
  | some user => "Hello " ++ user ++ "! This is the Monkey programming language!"
  | none => "Hello! This is the Monkey programming language!"

end Config

end FrontEnd.Session
