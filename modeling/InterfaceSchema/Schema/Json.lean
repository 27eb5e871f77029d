import InterfaceSchema.Json
import InterfaceSchema.Schema.Basic

/-!
# The JSON form of schemas

Every node is an object whose member `_type` names its kind; what is absent is
`null`. The form says nothing about places: `toJson` drops them, and `ofJson?`
takes the place of an identifier from a member `span`, if there is one, and
otherwise leaves it empty.
-/

namespace InterfaceSchema

open Json (object string array)

def Json.node (kind : String) (members : List (String × Json)) : Json :=
  object (("_type", string kind) :: members)

def Json.kind? (j : Json) : Option String := j.field? "_type" >>= Json.string?

/-- The form of a value, or `null` for none. -/
def Json.ofOption {α : Type} (toJson : α → Json) : Option α → Json
  | none => .null
  | some a => toJson a

/-- Reads a member that may be `null` or missing. -/
def Json.option? {α : Type} (read : Json → Option α) : Json → Option (Option α)
  | .null => some none
  | j => some <$> read j

def Identifier.toJson (id : Identifier) : Json := .node "Identifier" [("name", string id.name)]

def Identifier.listToJson (ids : List Identifier) : Json := array (ids.map Identifier.toJson)

def Expr.toJson : Expr → Json
  | .name id => id.toJson
  | .binary op left right =>
    .node "BinaryExpression"
      [("op", string op.symbol), ("left", left.toJson), ("right", right.toJson)]

def Decorator.toJson : Decorator → Json
  | .tag id => id.toJson
  | .call template args =>
    .node "PatternCall" [("name", template.toJson), ("args", Identifier.listToJson args)]

def Definition.toJson (d : Definition) : Json :=
  .node "DefinitionStatement"
    [("decorators", array (d.decorators.map Decorator.toJson)), ("name", d.id.toJson)]

def Operand.toJson : Operand → Json
  | .definition d => d.toJson
  | .expr e => e.toJson

def WithExpr.toJson (w : WithExpr) : Json :=
  .node "WithExpression" [("left", w.left.toJson), ("right", .ofOption Expr.toJson w.right)]

mutual
def Statement.toJson : Statement → Json
  | .relation left kind right =>
    .node "BinaryRelation"
      [("left", left.toJson), ("right", right.toJson), ("relation", string kind.keyword)]
  | .cover left middle right =>
    .node "CoverRelation"
      [("left", left.toJson), ("middle", middle.toJson), ("right", right.toJson)]
  | .represents view data shape =>
    .node "RepresentsRelation"
      [("view", view.toJson), ("data", data.toJson),
        ("structure", .ofOption WithExpr.toJson shape)]
  | .template header body =>
    .node "PatternStatement"
      [("name", header.id.toJson), ("args", .ofOption Identifier.listToJson header.params),
        ("statements", array (Statement.listToJson body)),
        ("extends", .ofOption Identifier.toJson header.base)]
  | .definition d => d.toJson
  | .term e => .node "ExpressionStatement" [("expression", e.toJson)]

def Statement.listToJson : List Statement → List Json
  | [] => []
  | s :: ss => s.toJson :: Statement.listToJson ss
end

def Program.toJson (p : Program) : Json :=
  .node "Program" [("statements", array (Statement.listToJson p.statements))]

/-! ## Reading -/

def Span.ofJson? (j : Json) : Option Span := do
  match ← j.array? >>= List.mapM Json.number? with
  | [start, stop, line, column] => return ⟨start, stop, line, column⟩
  | _ => none

def Identifier.ofJson? (j : Json) : Option Identifier := do
  guard (j.kind? = some "Identifier")
  let name ← j.field? "name" >>= Json.string?
  let span ← (j.field "span").option? Span.ofJson?
  return ⟨name, span.getD {}⟩

def Identifier.listOfJson? (j : Json) : Option (List Identifier) :=
  j.array? >>= List.mapM Identifier.ofJson?

def Operator.ofSymbol? : String → Option Operator
  | "." => some .member
  | "<-" => some .derivesFrom
  | _ => none

def RelationKind.ofKeyword? : String → Option RelationKind
  | "mapto many" => some .mapToMany
  | "mapto" => some .mapTo
  | "structures" => some .structures
  | "constrains" => some .constrains
  | _ => none

def Expr.ofJson? (j : Json) : Option Expr :=
  if j.kind? = some "BinaryExpression" then
    match _hl : j.field? "left", _hr : j.field? "right" with
    | some left, some right => do
      let op ← j.field? "op" >>= Json.string? >>= Operator.ofSymbol?
      let left ← Expr.ofJson? left
      let right ← Expr.ofJson? right
      return .binary op left right
    | _, _ => none
  else .name <$> Identifier.ofJson? j
termination_by sizeOf j
decreasing_by
  · exact Json.sizeOf_lt_of_field? _hl
  · exact Json.sizeOf_lt_of_field? _hr

def Decorator.ofJson? (j : Json) : Option Decorator :=
  if j.kind? = some "PatternCall" then do
    let template ← j.field? "name" >>= Identifier.ofJson?
    let args ← j.field? "args" >>= Identifier.listOfJson?
    return .call template args
  else .tag <$> Identifier.ofJson? j

def Definition.ofJson? (j : Json) : Option Definition := do
  guard (j.kind? = some "DefinitionStatement")
  let decorators ← j.field? "decorators" >>= Json.array? >>= List.mapM Decorator.ofJson?
  let id ← j.field? "name" >>= Identifier.ofJson?
  return ⟨decorators, id⟩

def Operand.ofJson? (j : Json) : Option Operand :=
  if j.kind? = some "DefinitionStatement" then .definition <$> Definition.ofJson? j
  else .expr <$> Expr.ofJson? j

def WithExpr.ofJson? (j : Json) : Option WithExpr := do
  guard (j.kind? = some "WithExpression")
  let left ← j.field? "left" >>= Expr.ofJson?
  let right ← (j.field "right").option? Expr.ofJson?
  return ⟨left, right⟩

def Header.ofJson? (j : Json) : Option Header := do
  let id ← j.field? "name" >>= Identifier.ofJson?
  let params ← (j.field "args").option? Identifier.listOfJson?
  let base ← (j.field "extends").option? Identifier.ofJson?
  return ⟨id, params, base⟩

/-- Reads a statement that is no template. -/
def Statement.simpleOfJson? (j : Json) : Option Statement :=
  match j.kind? with
  | some "BinaryRelation" => do
    let left ← j.field? "left" >>= Operand.ofJson?
    let right ← j.field? "right" >>= Expr.ofJson?
    let kind ← j.field? "relation" >>= Json.string? >>= RelationKind.ofKeyword?
    return .relation left kind right
  | some "CoverRelation" => do
    let left ← j.field? "left" >>= Operand.ofJson?
    let middle ← j.field? "middle" >>= Expr.ofJson?
    let right ← j.field? "right" >>= Expr.ofJson?
    return .cover left middle right
  | some "RepresentsRelation" => do
    let view ← j.field? "view" >>= Operand.ofJson?
    let data ← j.field? "data" >>= WithExpr.ofJson?
    let shape ← (j.field "structure").option? WithExpr.ofJson?
    return .represents view data shape
  | some "DefinitionStatement" => .definition <$> Definition.ofJson? j
  | some "ExpressionStatement" => .term <$> (j.field? "expression" >>= Expr.ofJson?)
  | _ => none

mutual
def Statement.ofJson? (j : Json) : Option Statement :=
  if j.kind? = some "PatternStatement" then
    match _h : j.field? "statements" with
    | some (.array items) => do
      let header ← Header.ofJson? j
      let body ← Statement.listOfJson? items
      return .template header body
    | _ => none
  else Statement.simpleOfJson? j
termination_by sizeOf j
decreasing_by
  have := Json.sizeOf_lt_of_field? _h
  simp only [Json.array.sizeOf_spec] at this
  omega

def Statement.listOfJson? : List Json → Option (List Statement)
  | [] => some []
  | j :: js => do
    let s ← Statement.ofJson? j
    let ss ← Statement.listOfJson? js
    return s :: ss
termination_by js => sizeOf js
end

def Program.ofJson? (j : Json) : Option Program := do
  guard (j.kind? = some "Program")
  let items ← j.field? "statements" >>= Json.array?
  let statements ← Statement.listOfJson? items
  return ⟨statements⟩

end InterfaceSchema
