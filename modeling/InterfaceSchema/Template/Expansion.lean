import InterfaceSchema.Emission
import InterfaceSchema.Template.Traversal

/-!
# Expansion

The traversal that gives an `Emission` for each fact or block of facts that a statement
brings. `Compilation.expand` is the expansion of a template, and `Program.facts` are the
facts of a program.
-/

namespace InterfaceSchema

/-- The links from an instance to the members that a statement defines. -/
def Emission.links (inst : String) (s : Statement) : List Emission :=
  s.definitions.map fun d => .fact (.apply .mapTo inst d.id.name)

def Collector.emitting {m : Type → Type} [Monad m]
    (lift : {β : Type} → Except SemanticError β → m β) (tell : List LogEvent → m Unit) :
    Collector m Emission where
  lift := lift
  tell := tell
  fact := .fact
  lowered _ es := es
  member inst s emitted := do
    let es ← emitted
    return (if s.isShared then [.once es] else es) ++ Emission.links inst s
  expanded template inst es := .fact (.applyInstance template inst) :: es

/-- The collector of emissions that tells nothing. -/
def Emission.collector : Collector (Except SemanticError) Emission :=
  .emitting (fun x => x) fun _ => .ok ()

namespace Compilation

abbrev Expander := Expansion (Except SemanticError) Emission

def emitRole (expand : Expander) (name : String) : Role → Except SemanticError (List Emission) :=
  Emission.collector.role expand name

def emitDefinition (c : Compilation) (expand : Expander) (d : Definition) :
    Except SemanticError (List Emission) :=
  Emission.collector.definition c expand d

def emitStatement (c : Compilation) (expand : Expander) (s : Statement) :
    Except SemanticError (List Emission) :=
  Emission.collector.statement c expand s

def emitMember (c : Compilation) (expand : Expander) (inst : String) (s : Statement) :
    Except SemanticError (List Emission) :=
  Emission.collector.member inst s (c.emitStatement expand s)

/-- Expands the template named at `site` for an instance, while the frames on
the scopes are being expanded. -/
def expand (c : Compilation) (scopes : Scopes) (site : Identifier)
    (args : Option (List Identifier)) (inst : String) : Except SemanticError (List Emission) :=
  Emission.collector.expand c scopes site args inst

def emissions (c : Compilation) (statements : List Statement) :
    Except SemanticError (List Emission) :=
  Emission.collector.statements c statements

end Compilation

def Program.emissions (options : Options) (p : Program) : Except SemanticError (List Emission) :=
  Emission.collector.program options p

def Program.facts (options : Options) (p : Program) : Except SemanticError FactBase :=
  Emission.facts <$> p.emissions options

end InterfaceSchema
