import InterfaceSchema.Schema.Basic

/-!
# Errors of meaning

A `SemanticError` says why a schema of good form cannot be compiled. Its `site`
is the identifier at fault.
-/

namespace InterfaceSchema

inductive SemanticError where
  | emptyDefinition (site : Identifier)
  | undeclaredTemplate (site : Identifier)
  | duplicateTemplate (site : Identifier)
  | arityMismatch (site : Identifier) (expected actual : Nat)
  | recursiveTemplate (name chain : String)
  deriving Repr, Inhabited

namespace SemanticError

def place (id : Identifier) : String :=
  "at line " ++ toString id.span.line ++ ", column " ++ toString id.span.column

def message : SemanticError → String
  | emptyDefinition site => "Definition '" ++ site.name ++ "' has no decorators " ++ place site
  | undeclaredTemplate site => "Undeclared template '" ++ site.name ++ "' " ++ place site
  | duplicateTemplate site => "Duplicate template name '" ++ site.name ++ "' " ++ place site
  | arityMismatch site expected actual =>
    "Template '" ++ site.name ++ "' expects " ++ toString expected ++ " arguments, got " ++
      toString actual ++ " " ++ place site
  | recursiveTemplate name chain =>
    "Recursive instantiation of template '" ++ name ++ "': " ++ chain

end SemanticError

end InterfaceSchema
