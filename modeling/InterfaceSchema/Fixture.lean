import InterfaceSchema.Compile
import InterfaceSchema.Files.Tree
import InterfaceSchema.Text.Blank

/-!
# Fixtures

A fixture is a schema `name.is` with what its compilation should give: the facts
in `name.facts`, or a part of the explanation of its failure in `name.err`.
`Fixture.discover` loads the fixtures of a directory in the order of their file
names, `Fixture.run` compiles one and compares, and `Fixture.runAll` runs those
of a directory and tells what failed.
-/

namespace InterfaceSchema

inductive Expectation where
  | facts (text : String)
  | error (part : String)
  deriving DecidableEq, Repr, Inhabited

structure Fixture where
  name : String
  source : String
  expectation : Expectation
  deriving DecidableEq, Repr, Inhabited

inductive FixtureError where
  | fileRead (path : FilePath) (cause : FileError)
  | missingExpectation (name : String)
  | factMismatch (name expected actual : String)
  | unexpectedFailure (name reason : String)
  | unexpectedSuccess (name expected : String)
  | wrongError (name expected reason : String)
  | failures (messages : List String)
  deriving DecidableEq, Repr, Inhabited

def FixtureError.message : FixtureError → String
  | fileRead path cause => "Failed to read " ++ String.intercalate "/" path ++ ": " ++ cause.message
  | missingExpectation name => "Fixture '" ++ name ++ "' has no .facts or .err expectation"
  | factMismatch name expected actual =>
    "Fixture '" ++ name ++ "' produced different facts\n--- expected\n" ++ expected ++
      "\n--- actual\n" ++ actual
  | unexpectedFailure name reason => "Fixture '" ++ name ++ "' failed unexpectedly: " ++ reason
  | unexpectedSuccess name expected =>
    "Fixture '" ++ name ++ "' compiled but was expected to fail with '" ++ expected ++ "'"
  | wrongError name expected reason =>
    "Fixture '" ++ name ++ "' failed without '" ++ expected ++ "' in:\n" ++ reason
  | failures messages =>
    toString messages.length ++ " fixture(s) failed:\n" ++ String.intercalate "\n\n" messages

namespace Fixture

/-- Compiles the schema and compares. Blank characters at the end of the facts
do not count. -/
def run (f : Fixture) : Except FixtureError Unit :=
  match f.expectation, compile {} f.source with
  | .facts expected, .ok facts =>
    if Text.stripEnd facts.render = expected then .ok ()
    else .error (.factMismatch f.name expected facts.render)
  | .facts _, .error e => .error (.unexpectedFailure f.name e.reason)
  | .error expected, .ok _ => .error (.unexpectedSuccess f.name expected)
  | .error expected, .error e =>
    if Text.containsText e.reason.toList expected.toList then .ok ()
    else .error (.wrongError f.name expected e.reason)

/-- A file name parted at its last dot. A dot in front of all else parts
nothing. -/
def stemAndExtension (name : String) : String × Option String :=
  match (Text.pieces '.' name.toList).reverse with
  | extension :: before =>
    let stem := List.intercalate ['.'] before.reverse
    if stem.isEmpty then (name, none) else (String.ofList stem, some (String.ofList extension))
  | [] => (name, none)

def isSchemaName (name : String) : Bool := (stemAndExtension name).2 = some "is"

def readFile (t : FileTree) (path : FilePath) : Except FixtureError String :=
  (t.readAt path).mapError (.fileRead path)

/-- The place of the file that shares a schema's name and has another extension. The
name `.` shares none: with the dot behind it, it is the step to the directory above. -/
def companion (dir : FilePath) (name extension : String) : FilePath :=
  if name = "." then dir.dropLast else dir ++ [name ++ "." ++ extension]

/-- Loads the fixture of a schema in a directory. If both expectations are there,
the facts count. -/
def load (t : FileTree) (dir : FilePath) (file : String) : Except FixtureError Fixture := do
  let name := (stemAndExtension file).1
  let source ← readFile t (dir ++ [file])
  let facts := companion dir name "facts"
  let error := companion dir name "err"
  if t.exists? facts then
    let text ← readFile t facts
    return ⟨name, source, .facts (Text.stripEnd text)⟩
  else if t.exists? error then
    let text ← readFile t error
    return ⟨name, source, .error (Text.strip text)⟩
  else throw (.missingExpectation name)

/-- The schemas in a directory, in the order of their names. -/
def schemaNames (t : FileTree) (dir : FilePath) : List String :=
  ((t.entries dir).filter isSchemaName).mergeSort (fun a b => decide (a ≤ b))

def directory (t : FileTree) (path : String) : Except FixtureError FilePath :=
  match t.resolve path with
  | .error e => .error (.fileRead [path] e)
  | .ok dir =>
    match t.node? dir with
    | some .directory => .ok dir
    | some (.file _) => .error (.fileRead dir .notDirectory)
    | none => .error (.fileRead dir .notFound)

def discover (t : FileTree) (path : String) : Except FixtureError (List Fixture) := do
  let dir ← directory t path
  (schemaNames t dir).mapM (load t dir)

/-- Runs all fixtures, also behind one that fails, and counts them. -/
def runAll (t : FileTree) (path : String) : Except FixtureError Nat := do
  let fixtures ← discover t path
  let messages := fixtures.filterMap fun f =>
    match f.run with
    | .ok _ => none
    | .error e => some e.message
  if messages.isEmpty then return fixtures.length else throw (.failures messages)

end Fixture

end InterfaceSchema
