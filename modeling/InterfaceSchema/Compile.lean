import InterfaceSchema.Schema.Reader
import InterfaceSchema.Template.Expansion

/-!
# Compilation of schemas

`compile` reads a schema and gives its facts. What goes wrong is an error of
form or an error of meaning, a `CompileError`. `compileLogged` does the same and tells of it.
-/

namespace InterfaceSchema

inductive CompileError where
  | form (e : SyntaxError)
  | meaning (e : SemanticError)
  deriving Repr, Inhabited

namespace CompileError

def display : CompileError → String
  | form e => e.display
  | meaning e => "Semantic error: " ++ e.message

/-- The explanation for the author of the schema. -/
def reason : CompileError → String
  | form e => e.reason
  | meaning e => e.message

/-- The schema could not even be read. -/
def isForm : CompileError → Bool
  | form _ => true
  | meaning _ => false

end CompileError

def compile (options : Options) (source : String) : Except CompileError FactBase := do
  let p ← (Program.ofText source).mapError CompileError.form
  (p.facts options).mapError CompileError.meaning

def Collector.logging : Collector (Logged SemanticError) Emission := .emitting Logged.lift Logged.tell

def Program.ofTextLogged (source : String) : Logged SyntaxError Program := do
  Logged.tell [.preprocessed (Layout.canonical source)]
  let p ← Logged.lift (Program.ofText source)
  Logged.tell [.parsed p]
  return p

def Program.factsLogged (options : Options) (p : Program) : Logged SemanticError FactBase := do
  let es ← Collector.logging.program options p
  let facts := Emission.facts es
  Logged.tell [.lowered facts.length]
  return facts

def compileLogged (options : Options) (source : String) : Logged CompileError FactBase := do
  let p ← (Program.ofTextLogged source).adapt CompileError.form
  (p.factsLogged options).adapt CompileError.meaning

end InterfaceSchema
