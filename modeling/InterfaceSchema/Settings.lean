import InterfaceSchema.Files
import InterfaceSchema.Options
import InterfaceSchema.Toml

/-!
# Settings

The settings of the command come from layers of configuration: the built-in one,
`isc.toml` where there is one, and a file that the command line names, which has to be
there. What finds the documents and lays them over one another is a `ConfigLoader`.
-/

namespace InterfaceSchema

structure Settings where
  options : Options := {}
  /-- The file whose text stands above the facts. -/
  header : Option String := none
  deriving DecidableEq, Repr, Inhabited

/-- A document that is given as text, or a file. -/
inductive ConfigSource where
  | text (document : String)
  | file (path : String) (required : Bool)
  deriving DecidableEq, Repr, Inhabited

class ConfigLoader where
  /-- The document of a source. -/
  collect {m : Type → Type} [Monad m] [FileSystem m] :
    ConfigSource → m (Except String Toml.Members)
  /-- The settings in the documents together, later ones over earlier ones. -/
  build : List Toml.Members → Except String Settings

namespace Settings

def defaultText : String :=
  "# Built-in defaults for the isc toolchain.\n" ++
  "# User files (./isc.toml, --config <file>) are layered on top of these.\n\n" ++
  "[transpile]\n" ++
  "# Decorator tags lowered as `structure(N)` + `instance(tag, N)` at any position.\n" ++
  "structure_tags = [\"order\", \"linear\", \"tree\"]\n\n" ++
  "[output]\n" ++
  "# Path of a fact-base header (e.g. a rule prelude) prepended to compiled output.\n" ++
  "# header = \"prelude.pl\"\n"

/-- The file that each directory can have. -/
def localName : String := "isc.toml"

def sources (name : Option String) : List ConfigSource :=
  [.text defaultText, .file localName false] ++ (name.map (ConfigSource.file · true)).toList

variable {m : Type → Type} [Monad m] [FileSystem m] [ConfigLoader]

/-- The documents of sources, up to the first that has none. -/
def collectAll : List ConfigSource → m (Except String (List Toml.Members))
  | [] => return .ok []
  | source :: sources => do
    match ← ConfigLoader.collect source with
    | .error e => return .error e
    | .ok document => return (document :: ·) <$> (← collectAll sources)

def load (name : Option String) : m (Except String Settings) := do
  return (← collectAll (sources name)) >>= ConfigLoader.build

end Settings

end InterfaceSchema
