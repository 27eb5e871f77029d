import InterfaceSchema.Schema.Basic

/-!
# Facts

A `Fact` is one line of the compiled schema, and `Fact.text` is that line. A
`FactBase` is a list of facts in the order in which they were found.
-/

namespace InterfaceSchema

/-- What a schema can say and facts cannot. -/
inductive Unimplemented where
  | memberAccess
  | represents
  deriving DecidableEq, Repr, Inhabited

def Unimplemented.text : Unimplemented → String
  | memberAccess => "[member access not implemented]"
  | represents => "[represents not implemented]"

inductive Fact where
  | set (kind name : String)
  | structured (name : String)
  | inst (tag name : String)
  | applyInstance (template inst : String)
  | apply (relation : RelationKind) (left right : String)
  | applyCover (left middle right : String)
  | term (text : String)
  | unimplemented (feature : Unimplemented)
  deriving DecidableEq, Repr, Inhabited

namespace Fact

def predicate (name : String) (args : List String) : String :=
  name ++ "(" ++ String.intercalate ", " args ++ ")"

def text : Fact → String
  | set kind name => predicate "set" [kind, name]
  | structured name => predicate "structure" [name]
  | inst tag name => predicate "instance" [tag, name]
  | applyInstance template name => predicate "apply_instance" [template, name]
  | apply relation left right => predicate ("apply_" ++ relation.factName) [left, right]
  | applyCover left middle right => predicate "apply_cover" [left, middle, right]
  | term text => text
  | unimplemented feature => feature.text

end Fact

abbrev FactBase := List Fact

namespace FactBase

/-- The lines of the facts, without a line end behind the last. -/
def render (facts : FactBase) : String := String.intercalate "\n" (facts.map Fact.text)

end FactBase

end InterfaceSchema
