import InterfaceSchema.SemanticError

/-!
# Registries

A `Registry` holds the templates that were declared, in the order of their
declaration. Names are global, and a template is registered only if its name is
not taken. `Registry.registerAll` stops at the first template that is refused
and keeps those registered before it.
-/

namespace InterfaceSchema

structure Registry where
  templates : List Template := []
  deriving Repr, Inhabited

namespace Registry

def find? (r : Registry) (name : String) : Option Template :=
  r.templates.find? (·.name == name)

def size (r : Registry) : Nat := r.templates.length

def register (r : Registry) (t : Template) : Except SemanticError Registry :=
  if (r.find? t.name).isSome then .error (.duplicateTemplate t.header.id)
  else .ok ⟨r.templates ++ [t]⟩

def registerEach (r : Registry) : List Template → Registry × Option SemanticError
  | [] => (r, none)
  | t :: ts =>
    match r.register t with
    | .ok r => r.registerEach ts
    | .error e => (r, some e)

/-- Registers the templates declared in statements, at every depth. -/
def registerAll (r : Registry) (statements : List Statement) : Registry × Option SemanticError :=
  r.registerEach (Statement.declarationsIn statements)

/-- The registry of the templates declared in statements. -/
def ofStatements (statements : List Statement) : Except SemanticError Registry :=
  match (Registry.registerAll {} statements) with
  | (r, none) => .ok r
  | (_, some e) => .error e

theorem mem_of_find? {r : Registry} {name : String} {t : Template} (h : r.find? name = some t) :
    t ∈ r.templates := List.mem_of_find?_eq_some h

theorem name_of_find? {r : Registry} {name : String} {t : Template} (h : r.find? name = some t) :
    t.name = name := by
  have := List.find?_some h
  simpa using this

end Registry

end InterfaceSchema
