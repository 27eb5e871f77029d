import InterfaceSchema.Command.Invocation
import InterfaceSchema.Text.Line

/-!
# Arguments

The parser of this library. The command line names a command and its input, with options
before and behind the command. The options of all commands may stand before the command
too, and those behind it win. An option stands at most once on each side. A word `--`
ends the options behind a command.
-/

namespace InterfaceSchema

namespace Arguments

/-- Where on the command line a word stands: before the command, or behind it. -/
inductive Level where
  | top
  | compile
  | parse
  | check
  deriving DecidableEq, Repr, Inhabited

inductive Switch where
  | config
  | verbose
  | version
  | help
  | output
  | noHeader
  deriving DecidableEq, Repr, Inhabited

def Level.ofName? : String → Option Level
  | "compile" => some .compile
  | "parse" => some .parse
  | "check" => some .check
  | _ => none

def Switch.takesValue : Switch → Bool
  | config | output => true
  | verbose | version | help | noHeader => false

/-- The switches with a name of one word. -/
def Level.long? (l : Level) (name : String) : Option Switch :=
  if name = "config" then some .config
  else if name = "verbose" then some .verbose
  else if name = "help" then some .help
  else if name = "version" ∧ l = .top then some .version
  else if name = "output" ∧ l = .compile then some .output
  else if name = "no-header" ∧ l = .compile then some .noHeader
  else none

/-- The switches with a name of one letter. -/
def Level.short? (l : Level) (c : Char) : Option Switch :=
  if c = 'v' then some .verbose
  else if c = 'h' then some .help
  else if c = 'V' ∧ l = .top then some .version
  else if c = 'o' ∧ l = .compile then some .output
  else none

def versionText : String := "isc 0.1.0\n"

def usage : String := "Usage: isc [OPTIONS] <COMMAND>\n"

/-- The part of a help that tells of the switches, with those of the level itself. -/
def switchesHelp (output noHeader version : String) : String :=
  "Options:\n" ++
  "      --config <CONFIG>  Configuration file layered over the defaults and ./isc.toml\n" ++
  output ++ noHeader ++
  "  -v, --verbose          Log debug output to stderr\n" ++
  "  -h, --help             Print help\n" ++
  version

def commandHelp (about name switches : String) : String :=
  about ++ "\n\nUsage: isc " ++ name ++ " [OPTIONS] <INPUT>\n\n" ++
  "Arguments:\n  <INPUT>  Input file, or `-` for stdin\n\n" ++ switches

def Level.help : Level → String
  | top =>
    "Compile interface schemas into logic facts\n\n" ++ usage ++ "\n" ++
    "Commands:\n" ++
    "  compile  Compile a schema to facts\n" ++
    "  parse    Parse a schema and print its AST as JSON\n" ++
    "  check    Parse and transpile a schema without emitting facts\n" ++
    "  help     Print this message or the help of the given subcommand(s)\n\n" ++
    switchesHelp "" "" "  -V, --version          Print version\n"
  | compile => commandHelp "Compile a schema to facts" "compile" <| switchesHelp
    "  -o, --output <OUTPUT>  Write facts to this file instead of stdout\n"
    "      --no-header        Do not prepend the configured header\n" ""
  | parse => commandHelp "Parse a schema and print its AST as JSON" "parse" (switchesHelp "" "" "")
  | check =>
    commandHelp "Parse and transpile a schema without emitting facts" "check" (switchesHelp "" "" "")

def helpHelp : String :=
  "Print this message or the help of the given subcommand(s)\n\n" ++
  "Usage: isc help [COMMAND]...\n\n" ++
  "Arguments:\n  [COMMAND]...  Print help for the subcommand(s)\n"

/-- The text that a switch asks for. -/
def Switch.text? (l : Level) : Switch → Option String
  | version => some versionText
  | help => some l.help
  | config | verbose | output | noHeader => none

/-! ## Words -/

/-- What has been given on one side of the command. -/
structure Given where
  config : Option String := none
  verbose : Bool := false
  output : Option String := none
  noHeader : Bool := false
  input : Option String := none
  deriving DecidableEq, Repr, Inhabited

namespace Given

/-- Gives a switch its value. It must not have one yet, nor an empty one. -/
def setValue (g : Given) (s : Switch) (value : String) : Option Given :=
  if value = "" then none
  else
    match s, g.config, g.output with
    | .config, none, _ => some { g with config := some value }
    | .output, _, none => some { g with output := some value }
    | _, _, _ => none

/-- Gives a switch without value. It must not have been given yet. -/
def setFlag (g : Given) (s : Switch) : Option Given :=
  match s, g.verbose, g.noHeader with
  | .verbose, false, _ => some { g with verbose := true }
  | .noHeader, _, false => some { g with noHeader := true }
  | _, _, _ => none

/-- Gives the input. It must not have been given yet. -/
def setInput (g : Given) (input : String) : Option Given :=
  match g.input with
  | none => some { g with input := some input }
  | some _ => none

end Given

/-- How far a word of switches leads: to a text that is asked for, or on, with
a switch whose value is the next word if there is one. -/
inductive Progress where
  | text (t : String)
  | more (g : Given) (pending : Option Switch)

/-- A switch with a name of one word, and the value behind its `=`. -/
def readLong (l : Level) (g : Given) (name : String) (value : Option String) : Option Progress :=
  match l.long? name, value with
  | some s, none =>
    match s.text? l with
    | some t => some (.text t)
    | none => if s.takesValue then some (.more g (some s)) else (.more · none) <$> g.setFlag s
  | some s, some v => if s.takesValue then (.more · none) <$> g.setValue s v else none
  | none, _ => none

/-- Switches with a name of one letter, in one word. The value of a switch may
stand behind it, with or without `=`. -/
def readShort (l : Level) (g : Given) : List Char → Option Progress
  | [] => some (.more g none)
  | c :: cs =>
    match l.short? c with
    | none => none
    | some s =>
      match s.text? l with
      | some t => some (.text t)
      | none =>
        if s.takesValue then
          match cs with
          | [] => some (.more g (some s))
          | '=' :: cs => (.more · none) <$> g.setValue s (String.ofList cs)
          | cs => (.more · none) <$> g.setValue s (String.ofList cs)
        else
          match g.setFlag s with
          | none => none
          | some g => readShort l g cs

/-- A word of switches begins with a hyphen; a hyphen alone is none. -/
def isSwitches (word : String) : Bool :=
  match word.toList with
  | '-' :: _ :: _ => true
  | _ => false

def readSwitches (l : Level) (g : Given) (word : String) : Option Progress :=
  match word.toList with
  | '-' :: '-' :: cs =>
    match Text.pieces '=' cs with
    | [] => none
    | [name] => readLong l g (String.ofList name) none
    | name :: _ :: _ =>
      readLong l g (String.ofList name) (some (String.ofList (cs.drop (name.length + 1))))
  | cs => readShort l g cs.tail

/-- A command with what was given before and behind it. -/
def request (top : Given) (l : Level) (g : Given) : Option CommandLine := do
  let input ← g.input
  let command ← match l with
    | .top => none
    | .compile => some (.compile input g.output g.noHeader)
    | .parse => some (.parse input)
    | .check => some (.check input)
  return .run ⟨command, g.config <|> top.config, g.verbose || top.verbose⟩

/-- Words that are no switches. -/
def readOperands (g : Given) (words : List String) : Option Given := words.foldlM Given.setInput g

def help? : List String → Option String
  | [] => some Level.top.help
  | ["help"] => some helpHelp
  | [name] => Level.help <$> Level.ofName? name
  | _ => none

/-- Reads words at a level; `top` was given before the command. -/
def read (top : Given) (l : Level) (g : Given) : List String → Option CommandLine
  | [] => request top l g
  | word :: words =>
    if word = "--" then
      if l = .top then none else readOperands g words >>= request top l
    else if isSwitches word then
      match readSwitches l g word, words with
      | none, _ => none
      | some (.text t), _ => some (.exit 0 t "")
      | some (.more g none), words => read top l g words
      | some (.more _ (some _)), [] => none
      | some (.more g (some s)), value :: words =>
        if isSwitches value then none
        else
          match g.setValue s value with
          | none => none
          | some g => read top l g words
    else if l = .top ∧ word = "help" then (.exit 0 · "") <$> help? words
    else if l = .top then
      match Level.ofName? word with
      | none => none
      | some l => read g l {} words
    else
      match g.setInput word with
      | none => none
      | some g => read top l g words

/-- What the words ask for; words that ask for nothing are answered with the usage. -/
def parse (words : List String) : CommandLine :=
  (read {} .top {} words).getD (.exit 2 "" usage)

instance : ArgumentParser := ⟨parse⟩

end Arguments

end InterfaceSchema
