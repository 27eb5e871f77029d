import InterfaceSchema.Settings
import InterfaceSchema.Text.Line
import InterfaceSchema.Toml.Layer
import InterfaceSchema.Toml.Reader

/-!
# Settings from TOML documents

The loader of this library: it reads documents, lays them over one another and takes the
settings out of the result. There a section is a
table, or the list of the values of its settings in order.
-/

namespace InterfaceSchema.Toml

def tagList? : Toml → Option (List String)
  | .array tags => tags.mapM Toml.scalarText?
  | _ => none

def options? : Toml → Option Options
  | .table _ members =>
    match members.lookup "structure_tags" with
    | some tags => Options.mk <$> tagList? tags
    | none => some {}
  | .array (tags :: _) => Options.mk <$> tagList? tags
  | .array [] => some {}
  | _ => none

/-- The header in the section `output`. A list has to have a place for it. -/
def header? : Toml → Option (Option String)
  | .table _ members =>
    match members.lookup "header" with
    | some path => some <$> path.scalarText?
    | none => some none
  | .array (.unset :: _) => some none
  | .array (path :: _) => some <$> path.scalarText?
  | _ => none

def settings? : Toml → Option Settings
  | .table _ members => do
    let options ← options? (← members.lookup "transpile")
    let header ← match members.lookup "output" with
      | some output => header? output
      | none => some none
    return ⟨options, header⟩
  | _ => none

/-- A path with `.toml` behind its last name. Slashes behind the name and parts
that are a dot do not count; a path without a name has no such path. -/
def withExtension? (path : String) : Option String :=
  match (Text.pieces '/' path.toList).reverse.dropWhile (fun part => part = [] ∨ part = ['.']) with
  | [] => none
  | ['.', '.'] :: _ => none
  | name :: before =>
    let parts := ((name ++ ".toml".toList) :: before).reverse
    some (String.intercalate "/" (parts.map String.ofList))

variable {m : Type → Type} [Monad m] [FileSystem m]

/-- The file that a path means: the file there or, if there is none, the one with
`.toml` behind the name. -/
def findFile (path : String) : m (Option String) := do
  if ← FileSystem.isFile path then return some path
  else
    match withExtension? path with
    | none => return none
    | some longer => if ← FileSystem.isFile longer then return some longer else return none

/-- The text of the file that a path means, if there is one that is text. -/
def readText? (path : String) : m (Option String) := do
  match ← findFile path with
  | none => return none
  | some file => return (← FileSystem.read file).toOption

def parse (text : String) : Except String Toml.Members :=
  match ofText? text with
  | some document => .ok document
  | none => .error "malformed document"

/-- The document of a source. A file that nobody requires is empty where it cannot be read. -/
def collect : ConfigSource → m (Except String Toml.Members)
  | .text document => return parse document
  | .file path required => do
    match ← readText? path, required with
    | some text, _ => return parse text
    | none, false => return .ok []
    | none, true => return .error ("configuration file \"" ++ path ++ "\" not found")

def build (documents : List Toml.Members) : Except String Settings :=
  match settings? (documents.foldl lay (.table .header [])) with
  | some settings => .ok settings
  | none => .error "a setting is missing or has no value of its kind"

instance : ConfigLoader where
  collect := collect
  build := build

end InterfaceSchema.Toml
