import InterfaceSchema.Span

/-!
# Schemas

A `Program` is a list of statements. A statement declares a template (a
`pattern` with a body of statements), defines a name by a chain of decorators,
relates operands, or is an expression alone. `Statement.definitions` are the
definitions that a statement itself contains; `Statement.declarationsIn` are the
templates declared in statements, at every depth.
-/

namespace InterfaceSchema

/-- A name and its place in the text. Identifiers are compared by name, and so
is everything that is built from them. -/
structure Identifier where
  name : String
  span : Span := {}
  deriving Repr, Inhabited

instance : BEq Identifier := ⟨fun a b => a.name == b.name⟩

/-- The same place with another name. -/
def Identifier.renamed (id : Identifier) (name : String) : Identifier := { id with name }

inductive Operator where
  | member
  | derivesFrom
  deriving DecidableEq, Repr, Inhabited

def Operator.symbol : Operator → String
  | member => "."
  | derivesFrom => "<-"

inductive Expr where
  | name (id : Identifier)
  | binary (op : Operator) (left right : Expr)
  deriving BEq, Repr, Inhabited

namespace Expr

def head : Expr → Identifier
  | name id => id
  | binary _ left _ => left.head

def operator? : Expr → Option Operator
  | name _ => none
  | binary op _ _ => some op

def identifiers : Expr → List Identifier
  | name id => [id]
  | binary _ left right => left.identifiers ++ right.identifiers

end Expr

/-- A word before a defined name: a tag, or a template with arguments. -/
inductive Decorator where
  | tag (id : Identifier)
  | call (template : Identifier) (args : List Identifier)
  deriving BEq, Repr, Inhabited

namespace Decorator

def id : Decorator → Identifier
  | tag id => id
  | call template _ => template

/-- The decorator is the bare tag `word`. -/
def isTag (word : String) : Decorator → Bool
  | tag id => id.name == word
  | call _ _ => false

def identifiers : Decorator → List Identifier
  | tag id => [id]
  | call template args => template :: args

end Decorator

/-- The tag of a member that all instances of a template have in common. -/
def sharedTag : String := "shared"

structure Definition where
  decorators : List Decorator
  id : Identifier
  deriving BEq, Repr, Inhabited

namespace Definition

def isShared (d : Definition) : Bool := d.decorators.any (·.isTag sharedTag)

def identifiers (d : Definition) : List Identifier :=
  d.decorators.flatMap Decorator.identifiers ++ [d.id]

/-- A definition made of decorators and a name; without decorators it is none. -/
def ofDecorators? : List Decorator → Identifier → Option Definition
  | [], _ => none
  | d :: ds, id => some ⟨d :: ds, id⟩

/-- What is wrong with a definition that has no decorators. -/
def undecoratedMessage (id : Identifier) : String :=
  "definition '" ++ id.name ++ "' built without decorators"

end Definition

inductive RelationKind where
  | mapToMany
  | mapTo
  | structures
  | constrains
  deriving DecidableEq, Repr, Inhabited

namespace RelationKind

def keyword : RelationKind → String
  | mapToMany => "mapto many"
  | mapTo => "mapto"
  | structures => "structures"
  | constrains => "constrains"

def factName : RelationKind → String
  | mapToMany => "mapto_many"
  | k => k.keyword

end RelationKind

/-- The left side of a relation: a definition made there, or an expression. -/
inductive Operand where
  | definition (d : Definition)
  | expr (e : Expr)
  deriving BEq, Repr, Inhabited

namespace Operand

def definition? : Operand → Option Definition
  | definition d => some d
  | expr _ => none

def identifiers : Operand → List Identifier
  | definition d => d.identifiers
  | expr e => e.identifiers

end Operand

/-- An expression, perhaps `with` another one. -/
structure WithExpr where
  left : Expr
  right : Option Expr := none
  deriving BEq, Repr, Inhabited

def WithExpr.identifiers (w : WithExpr) : List Identifier :=
  w.left.identifiers ++ (w.right.map Expr.identifiers).getD []

/-- The first line of a template: its name, its parameters if it has a list of
them, and the template that it extends. -/
structure Header where
  id : Identifier
  params : Option (List Identifier) := none
  base : Option Identifier := none
  deriving BEq, Repr, Inhabited

def Header.identifiers (h : Header) : List Identifier :=
  h.id :: h.params.getD [] ++ h.base.toList

inductive Statement where
  | relation (left : Operand) (kind : RelationKind) (right : Expr)
  | cover (left : Operand) (middle right : Expr)
  | represents (view : Operand) (data : WithExpr) (shape : Option WithExpr)
  | template (header : Header) (body : List Statement)
  | definition (d : Definition)
  | term (e : Expr)
  deriving Repr, Inhabited

structure Template where
  header : Header
  body : List Statement
  deriving Repr, Inhabited

structure Program where
  statements : List Statement
  deriving Repr, Inhabited

namespace Template

def name (t : Template) : String := t.header.id.name

def params (t : Template) : List Identifier := t.header.params.getD []

def toStatement (t : Template) : Statement := .template t.header t.body

end Template

namespace Statement

/-- The definitions in a statement, those in the body of a template not
counted. -/
def definitions : Statement → List Definition
  | relation left _ _ => left.definition?.toList
  | cover left _ _ => left.definition?.toList
  | represents view _ _ => view.definition?.toList
  | definition d => [d]
  | template _ _ => []
  | term _ => []

/-- A definition in the statement is shared. -/
def isShared (s : Statement) : Bool := s.definitions.any Definition.isShared

def template? : Statement → Option Template
  | template header body => some ⟨header, body⟩
  | _ => none

mutual
/-- The template declared by a statement, and those declared in its body. -/
def declarations : Statement → List Template
  | template header body => ⟨header, body⟩ :: declarationsIn body
  | relation _ _ _ => []
  | cover _ _ _ => []
  | represents _ _ _ => []
  | definition _ => []
  | term _ => []

/-- The templates declared in statements, at every depth. -/
def declarationsIn : List Statement → List Template
  | [] => []
  | s :: ss => declarations s ++ declarationsIn ss
end

end Statement

/-! ## Identifiers in reading order -/

mutual
def Statement.identifiers : Statement → List Identifier
  | .relation left _ right => left.identifiers ++ right.identifiers
  | .cover left middle right => left.identifiers ++ middle.identifiers ++ right.identifiers
  | .represents view data shape =>
    view.identifiers ++ data.identifiers ++ (shape.map WithExpr.identifiers).getD []
  | .template header body => header.identifiers ++ Statement.identifiersOf body
  | .definition d => d.identifiers
  | .term e => e.identifiers

/-- The identifiers of statements, one statement after the other. -/
def Statement.identifiersOf : List Statement → List Identifier
  | [] => []
  | s :: ss => s.identifiers ++ Statement.identifiersOf ss
end

def Program.identifiers (p : Program) : List Identifier := Statement.identifiersOf p.statements

theorem Statement.identifiersOf_eq_flatMap (ss : List Statement) :
    Statement.identifiersOf ss = ss.flatMap Statement.identifiers := by
  induction ss with
  | nil => rfl
  | cons s ss ih => simp [Statement.identifiersOf, ih]

/-! ## Equality by name -/

mutual
def Statement.same : Statement → Statement → Bool
  | .relation l k r, .relation l' k' r' => l == l' && k == k' && r == r'
  | .cover l m r, .cover l' m' r' => l == l' && m == m' && r == r'
  | .represents v d s, .represents v' d' s' => v == v' && d == d' && s == s'
  | .template h b, .template h' b' => h == h' && Statement.sameList b b'
  | .definition d, .definition d' => d == d'
  | .term e, .term e' => e == e'
  | _, _ => false

/-- Equally many statements, each equal to its partner. -/
def Statement.sameList : List Statement → List Statement → Bool
  | [], [] => true
  | s :: ss, t :: ts => s.same t && Statement.sameList ss ts
  | _, _ => false
end

instance : BEq Statement := ⟨Statement.same⟩

instance : BEq Program := ⟨fun p q => p.statements == q.statements⟩

end InterfaceSchema
