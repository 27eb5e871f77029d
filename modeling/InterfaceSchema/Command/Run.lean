import InterfaceSchema.Command.Arguments
import InterfaceSchema.Compile
import InterfaceSchema.Environment
import InterfaceSchema.Schema.Json
import InterfaceSchema.Text.Blank
import InterfaceSchema.Toml.Settings

/-!
# Runs of the command

`Command.answer` answers a command line with an `Outcome`: an exit code and what is
printed. Each command loads and reads all it needs, and only then prints or
writes, so that one that fails leaves nothing behind.

The command is the same whatever parses its arguments and loads its configuration. Where
no other `ArgumentParser` and `ConfigLoader` are given, they are those of this library.
-/

namespace InterfaceSchema

/-- Exit code zero is success, one a failure, two a command line that asks for nothing.
On the standard error there are the events of the log that are shown, each on a line with
its time, and behind them `stderr`. -/
structure Outcome where
  code : Nat
  stdout : String := ""
  stderr : String := ""
  log : Log := []
  deriving Repr, Inhabited

namespace Command

variable {m : Type → Type} [Monad m] [FileSystem m] [ConfigLoader]

/-- A run gives what it prints, or the reason why it failed, and tells of itself. -/
abbrev Run (m : Type → Type) (α : Type) := ExceptT String (StateT Log m) α

/-- Goes on with what has been logged, and with its error as the reason. -/
def ofLogged {ε α : Type} (reason : ε → String) (x : Logged ε α) : Run m α :=
  ExceptT.mk fun log =>
    let (result, log) := x.run.run log
    pure (result.mapError reason, log)

def loadSettings (config : Option String) : Run m Settings := do
  match ← (Settings.load config : m _) with
  | .ok settings =>
    ofLogged id (Logged.tell [.configured settings.options.structureTags settings.header])
    return settings
  | .error e => throw ("failed to load configuration: " ++ e)

/-- An error with what was being done. -/
def orFail {α : Type} (context : String) : Except FileError α → Run m α
  | .ok a => return a
  | .error e => throw (context ++ ": " ++ e.message)

/-- The text of a schema: a file, or the input of the command for `-`. -/
def readSource (input : String) : Run m String := do
  if input = "-" then orFail "failed to read stdin" (← (FileSystem.readInput : m _))
  else orFail ("failed to read " ++ input) (← (FileSystem.read input : m _))

def compileSource (options : Options) (source : String) : Run m FactBase :=
  ofLogged CompileError.reason (compileLogged options source)

/-- The header that the settings name, unless none is wanted. -/
def readHeader (settings : Settings) (noHeader : Bool) : Run m (Option String) := do
  match settings.header, noHeader with
  | some path, false =>
    let text ← orFail ("failed to read header " ++ path) (← (FileSystem.read path : m _))
    return some text
  | _, _ => return none

/-- The facts under a header, each on a line of its own. -/
def withHeader (header : Option String) (facts : FactBase) : String :=
  (match header with
    | some text => Text.stripEnd text ++ "\n"
    | none => "") ++
  (if facts.render.isEmpty then "" else facts.render ++ "\n")

/-- Writes a text to a file, or gives it to be printed. -/
def deliver (text : String) : Option String → Run m String
  | none => return text
  | some path => do
    orFail ("failed to write " ++ path) (← (FileSystem.write path text : m _))
    return ""

def run (config : Option String) : Command → Run m String
  | .compile input output noHeader => do
    let settings ← loadSettings config
    let source ← readSource input
    let facts ← compileSource settings.options source
    let header ← readHeader settings noHeader
    deliver (withHeader header facts) output
  | .parse input => do
    let source ← readSource input
    let p ← ofLogged SyntaxError.reason (Program.ofTextLogged source)
    return p.toJson.pretty ++ "\n"
  | .check input => do
    let settings ← loadSettings config
    let source ← readSource input
    let _ ← compileSource settings.options source
    return "ok\n"

/-- What is shown of the log. The switch for it outdoes the environment. -/
def shows [Environment] (verbose : Bool) (e : LogEvent) : Bool :=
  if verbose then e.isWithin .debug
  else
    match Environment.logFilter? with
    | some filter => filter e
    | none => e.isWithin .warn

def outcome (log : Log) : Except String String → Outcome
  | .ok text => { code := 0, stdout := text, log }
  | .error reason => { code := 1, stderr := reason ++ "\n", log }

def answer [ArgumentParser] [Environment] (words : List String) : m Outcome := do
  match ArgumentParser.parse words with
  | .exit code stdout stderr => return { code, stdout, stderr }
  | .run i =>
    let (result, log) ← (run i.config i.command).run.run []
    return outcome (log.filter (shows i.verbose)) result

end Command

end InterfaceSchema
