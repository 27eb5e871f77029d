import InterfaceSchema.Schema.Basic

/-!
# Renamings

A `Renaming` gives other names to names. It is applied to the names defined,
the operands and the arguments in a statement; tags, the names of templates and
templates declared in a body keep their names. `qualify` makes the name of a
member from its owner and its own name.
-/

namespace InterfaceSchema

def qualify (owner name : String) : String := "__" ++ owner ++ "__" ++ name

/-- Pairs of a name and the name it is given, the latest in front; no name
stands in front of two pairs. -/
structure Renaming where
  entries : List (String × String) := []
  deriving Repr, Inhabited

namespace Renaming

/-- Gives `name` the name `target`, whatever it was given before. -/
def bind (r : Renaming) (name target : String) : Renaming :=
  ⟨(name, target) :: r.entries.filter (·.1 != name)⟩

def find? (r : Renaming) (name : String) : Option String := r.entries.lookup name

def size (r : Renaming) : Nat := r.entries.length

def identifier (r : Renaming) (id : Identifier) : Identifier :=
  match r.find? id.name with
  | some target => id.renamed target
  | none => id

def expr (r : Renaming) : Expr → Expr
  | .name id => .name (r.identifier id)
  | .binary op left right => .binary op (r.expr left) (r.expr right)

def decorator (r : Renaming) : Decorator → Decorator
  | .tag id => .tag id
  | .call template args => .call template (args.map r.identifier)

def definition (r : Renaming) (d : Definition) : Definition :=
  ⟨d.decorators.map r.decorator, r.identifier d.id⟩

def operand (r : Renaming) : Operand → Operand
  | .definition d => .definition (r.definition d)
  | .expr e => .expr (r.expr e)

def withExpr (r : Renaming) (w : WithExpr) : WithExpr := ⟨r.expr w.left, w.right.map r.expr⟩

def statement (r : Renaming) : Statement → Statement
  | .relation left kind right => .relation (r.operand left) kind (r.expr right)
  | .cover left middle right => .cover (r.operand left) (r.expr middle) (r.expr right)
  | .represents view data shape =>
    .represents (r.operand view) (r.withExpr data) (shape.map r.withExpr)
  | .template header body => .template header body
  | .definition d => .definition (r.definition d)
  | .term e => .term (r.expr e)

theorem find?_bind_self (r : Renaming) (name target : String) :
    (r.bind name target).find? name = some target := by
  simp [find?, bind]

theorem lookup_filter_of_ne {name other : String} (h : other ≠ name)
    (entries : List (String × String)) :
    (entries.filter (·.1 != name)).lookup other = entries.lookup other := by
  induction entries with
  | nil => rfl
  | cons e es ih =>
    obtain ⟨k, v⟩ := e
    by_cases hk : k = name
    · subst hk
      have ho : (other == k) = false := by simpa using h
      simp [List.lookup_cons, ih, ho]
    · by_cases ho : other = k <;> simp [List.lookup_cons, hk, ho, ih]

theorem find?_bind_of_ne {r : Renaming} {name other : String} (h : other ≠ name)
    (target : String) : (r.bind name target).find? other = r.find? other := by
  have ho : (other == name) = false := by simpa using h
  simp [find?, bind, List.lookup_cons, ho, lookup_filter_of_ne h]

theorem definitions_statement (r : Renaming) (s : Statement) :
    (r.statement s).definitions = s.definitions.map r.definition := by
  cases s with
  | relation left _ _ => cases left <;> rfl
  | cover left _ _ => cases left <;> rfl
  | represents view _ _ => cases view <;> rfl
  | template _ _ => rfl
  | definition _ => rfl
  | term _ => rfl

theorem isShared_definition (r : Renaming) (d : Definition) :
    (r.definition d).isShared = d.isShared := by
  simp only [Definition.isShared, definition, List.any_map]
  congr 1
  funext d
  cases d <;> rfl

end Renaming

end InterfaceSchema
