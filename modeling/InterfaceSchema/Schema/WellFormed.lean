import InterfaceSchema.Schema.Basic
import InterfaceSchema.Token

/-!
# Well-formed schemas

A program is well formed if it can be written: its names are words, no
definition lacks a decorator, no list in parentheses is empty, operators have a
name on their right, and the body of each template has a statement and none that
would close it.
-/

namespace InterfaceSchema

/-- The name is a word. -/
def Identifier.isWellFormed (id : Identifier) : Bool :=
  !id.name.toList.isEmpty && id.name.toList.all Token.isWordChar

def Expr.isWellFormed : Expr → Bool
  | name id => id.isWellFormed
  | binary _ left (name id) => left.isWellFormed && id.isWellFormed
  | binary _ _ (binary _ _ _) => false

/-- Names that can stand in parentheses. -/
def Identifier.areWellFormed (ids : List Identifier) : Bool :=
  !ids.isEmpty && ids.all Identifier.isWellFormed

def Decorator.isWellFormed : Decorator → Bool
  | tag id => id.isWellFormed
  | call template args => template.isWellFormed && Identifier.areWellFormed args

def Definition.isWellFormed (d : Definition) : Bool :=
  !d.decorators.isEmpty && d.decorators.all Decorator.isWellFormed && d.id.isWellFormed

def Operand.isWellFormed : Operand → Bool
  | definition d => d.isWellFormed
  | expr e => e.isWellFormed

def WithExpr.isWellFormed (w : WithExpr) : Bool :=
  w.left.isWellFormed && w.right.all Expr.isWellFormed

def Header.isWellFormed (h : Header) : Bool :=
  h.id.isWellFormed && h.params.all Identifier.areWellFormed &&
    h.base.all Identifier.isWellFormed

/-- The statement is the word `end` alone, which closes a body. -/
def Statement.isBareEnd : Statement → Bool
  | .term (.name id) => id.name == "end"
  | _ => false

mutual
def Statement.isWellFormed : Statement → Bool
  | .relation left _ right => left.isWellFormed && right.isWellFormed
  | .cover left middle right => left.isWellFormed && middle.isWellFormed && right.isWellFormed
  | .represents view data shape =>
    view.isWellFormed && data.isWellFormed && shape.all WithExpr.isWellFormed
  | .template header body =>
    header.isWellFormed && !body.isEmpty && body.all (!·.isBareEnd) &&
      Statement.areWellFormed body
  | .definition d => d.isWellFormed
  | .term e => e.isWellFormed

def Statement.areWellFormed : List Statement → Bool
  | [] => true
  | s :: ss => s.isWellFormed && Statement.areWellFormed ss
end

def Program.isWellFormed (p : Program) : Bool := Statement.areWellFormed p.statements

end InterfaceSchema
