import InterfaceSchema.Template.Renaming

/-!
# Names in statements

The names in a statement are those that a renaming acts on: the names defined,
the operands and the arguments. `Statement.names` lists them in reading order,
`Statement.mapNames` changes each, and `Statement.frame` is what stands around
them: keywords, operators, tags, the names of templates, and whole templates
declared in a body. A statement is its names in its frame.
-/

namespace InterfaceSchema

def Decorator.names : Decorator → List Identifier
  | tag _ => []
  | call _ args => args

def Definition.names (d : Definition) : List Identifier :=
  d.decorators.flatMap Decorator.names ++ [d.id]

def Operand.names : Operand → List Identifier
  | definition d => d.names
  | expr e => e.identifiers

def Statement.names : Statement → List Identifier
  | relation left _ right => left.names ++ right.identifiers
  | cover left middle right => left.names ++ middle.identifiers ++ right.identifiers
  | represents view data shape =>
    view.names ++ data.identifiers ++ (shape.map WithExpr.identifiers).getD []
  | template _ _ => []
  | definition d => d.names
  | term e => e.identifiers

theorem Statement.id_mem_names {s : Statement} {d : Definition} (h : d ∈ s.definitions) :
    d.id ∈ s.names := by
  have hdefinition : d.id ∈ d.names := List.mem_append_right _ (List.mem_singleton_self _)
  have hoperand {o : Operand} (h : d ∈ o.definition?.toList) : d.id ∈ o.names := by
    cases o with
    | definition d' =>
      obtain rfl : d = d' := by simpa [Operand.definition?] using h
      exact hdefinition
    | expr e => cases h
  cases s with
  | relation left _ _ => exact List.mem_append_left _ (hoperand h)
  | cover left _ _ => exact List.mem_append_left _ (List.mem_append_left _ (hoperand h))
  | represents view _ _ => exact List.mem_append_left _ (List.mem_append_left _ (hoperand h))
  | definition d' =>
    obtain rfl : d = d' := by simpa [definitions] using h
    exact hdefinition
  | template _ _ => cases h
  | term _ => cases h

def Expr.mapNames (f : Identifier → Identifier) : Expr → Expr
  | name id => .name (f id)
  | binary op left right => .binary op (left.mapNames f) (right.mapNames f)

def Decorator.mapNames (f : Identifier → Identifier) : Decorator → Decorator
  | tag id => .tag id
  | call template args => .call template (args.map f)

def Definition.mapNames (f : Identifier → Identifier) (d : Definition) : Definition :=
  ⟨d.decorators.map (Decorator.mapNames f), f d.id⟩

def Operand.mapNames (f : Identifier → Identifier) : Operand → Operand
  | definition d => .definition (d.mapNames f)
  | expr e => .expr (e.mapNames f)

def WithExpr.mapNames (f : Identifier → Identifier) (w : WithExpr) : WithExpr :=
  ⟨w.left.mapNames f, w.right.map (Expr.mapNames f)⟩

def Statement.mapNames (f : Identifier → Identifier) : Statement → Statement
  | relation left kind right => .relation (left.mapNames f) kind (right.mapNames f)
  | cover left middle right => .cover (left.mapNames f) (middle.mapNames f) (right.mapNames f)
  | represents view data shape =>
    .represents (view.mapNames f) (data.mapNames f) (shape.map (WithExpr.mapNames f))
  | template header body => .template header body
  | definition d => .definition (d.mapNames f)
  | term e => .term (e.mapNames f)

/-- The statement without its names. -/
def Statement.frame (s : Statement) : Statement := s.mapNames (·.renamed "")

/-! ## The names of changed statements -/

section

variable (f g : Identifier → Identifier)

theorem Expr.identifiers_mapNames (e : Expr) :
    (e.mapNames f).identifiers = e.identifiers.map f := by
  induction e with
  | name id => rfl
  | binary op left right ihl ihr => rw [mapNames, identifiers, ihl, ihr, identifiers, List.map_append]

theorem Definition.names_mapNames (d : Definition) : (d.mapNames f).names = d.names.map f := by
  have hdecorator (dec : Decorator) : (dec.mapNames f).names = dec.names.map f := by
    cases dec <;> rfl
  rw [names, mapNames, List.flatMap_map, names, List.map_append, List.map_flatMap]
  simp only [hdecorator, List.map_singleton]

theorem Operand.names_mapNames (o : Operand) : (o.mapNames f).names = o.names.map f := by
  cases o with
  | definition d => exact d.names_mapNames f
  | expr e => exact e.identifiers_mapNames f

theorem WithExpr.identifiers_mapNames (w : WithExpr) :
    (w.mapNames f).identifiers = w.identifiers.map f := by
  obtain ⟨left, right⟩ := w
  cases right <;> simp [identifiers, mapNames, Expr.identifiers_mapNames]

theorem Statement.names_mapNames (s : Statement) : (s.mapNames f).names = s.names.map f := by
  cases s with
  | represents view data shape =>
    cases shape <;>
      simp [names, mapNames, Operand.names_mapNames, WithExpr.identifiers_mapNames]
  | definition d => exact d.names_mapNames f
  | term e => exact e.identifiers_mapNames f
  | _ => simp [names, mapNames, Operand.names_mapNames, Expr.identifiers_mapNames]

theorem Expr.mapNames_mapNames (e : Expr) :
    (e.mapNames f).mapNames g = e.mapNames (g ∘ f) := by
  induction e with
  | name id => rfl
  | binary op left right ihl ihr => rw [mapNames, mapNames, ihl, ihr, mapNames]

theorem Definition.mapNames_mapNames (d : Definition) :
    (d.mapNames f).mapNames g = d.mapNames (g ∘ f) := by
  have hdecorator : Decorator.mapNames g ∘ Decorator.mapNames f = Decorator.mapNames (g ∘ f) := by
    funext dec
    cases dec <;> simp [Decorator.mapNames]
  simp [mapNames, hdecorator]

theorem Operand.mapNames_mapNames (o : Operand) :
    (o.mapNames f).mapNames g = o.mapNames (g ∘ f) := by
  cases o with
  | definition d => exact congrArg _ (d.mapNames_mapNames f g)
  | expr e => exact congrArg _ (e.mapNames_mapNames f g)

theorem WithExpr.mapNames_mapNames (w : WithExpr) :
    (w.mapNames f).mapNames g = w.mapNames (g ∘ f) := by
  obtain ⟨left, right⟩ := w
  cases right <;> simp [mapNames, Expr.mapNames_mapNames]

theorem Statement.mapNames_mapNames (s : Statement) :
    (s.mapNames f).mapNames g = s.mapNames (g ∘ f) := by
  cases s with
  | represents view data shape =>
    cases shape <;> simp [mapNames, Operand.mapNames_mapNames, WithExpr.mapNames_mapNames]
  | _ => simp [mapNames, Operand.mapNames_mapNames, Expr.mapNames_mapNames,
      Definition.mapNames_mapNames]

theorem Statement.definitions_mapNames (s : Statement) :
    (s.mapNames f).definitions = s.definitions.map (Definition.mapNames f) := by
  cases s with
  | relation left _ _ => cases left <;> rfl
  | cover left _ _ => cases left <;> rfl
  | represents view _ _ => cases view <;> rfl
  | _ => rfl

theorem Definition.isShared_mapNames (d : Definition) : (d.mapNames f).isShared = d.isShared := by
  rw [isShared, mapNames, List.any_map, isShared]
  congr 1
  funext dec
  cases dec <;> rfl

theorem Statement.frame_mapNames (f : String → String) (s : Statement) :
    (s.mapNames fun id => id.renamed (f id.name)).frame = s.frame :=
  s.mapNames_mapNames _ _

end

section

variable {f g : Identifier → Identifier}

theorem Expr.mapNames_congr {e : Expr} (h : ∀ id ∈ e.identifiers, f id = g id) :
    e.mapNames f = e.mapNames g := by
  induction e with
  | name id => exact congrArg _ (h id (List.mem_singleton_self id))
  | binary op left right ihl ihr =>
    rw [mapNames, mapNames, ihl fun id hid => h id (List.mem_append_left _ hid),
      ihr fun id hid => h id (List.mem_append_right _ hid)]

theorem Definition.mapNames_congr {d : Definition} (h : ∀ id ∈ d.names, f id = g id) :
    d.mapNames f = d.mapNames g := by
  have hdecorator : ∀ dec ∈ d.decorators, dec.mapNames f = dec.mapNames g := by
    intro dec hdec
    cases dec with
    | tag _ => rfl
    | call template args =>
      exact congrArg _ (List.map_congr_left fun id hid =>
        h id (List.mem_append_left _ (List.mem_flatMap.2 ⟨_, hdec, hid⟩)))
  rw [mapNames, mapNames, List.map_congr_left hdecorator,
    h d.id (List.mem_append_right _ (List.mem_singleton_self _))]

theorem Operand.mapNames_congr {o : Operand} (h : ∀ id ∈ o.names, f id = g id) :
    o.mapNames f = o.mapNames g := by
  cases o with
  | definition d => exact congrArg _ (Definition.mapNames_congr h)
  | expr e => exact congrArg _ (Expr.mapNames_congr h)

theorem WithExpr.mapNames_congr {w : WithExpr} (h : ∀ id ∈ w.identifiers, f id = g id) :
    w.mapNames f = w.mapNames g := by
  obtain ⟨left, right⟩ := w
  have hleft : left.mapNames f = left.mapNames g :=
    Expr.mapNames_congr fun id hid => h id (List.mem_append_left _ hid)
  cases right with
  | none => rw [mapNames, mapNames, hleft]; rfl
  | some right =>
    have hright : right.mapNames f = right.mapNames g :=
      Expr.mapNames_congr fun id hid => h id (List.mem_append_right _ hid)
    rw [mapNames, mapNames, hleft, Option.map_some, Option.map_some, hright]

theorem Statement.mapNames_congr {s : Statement} (h : ∀ id ∈ s.names, f id = g id) :
    s.mapNames f = s.mapNames g := by
  cases s with
  | relation left kind right =>
    rw [names, List.forall_mem_append] at h
    rw [mapNames, mapNames, Operand.mapNames_congr h.1, Expr.mapNames_congr h.2]
  | cover left middle right =>
    rw [names, List.forall_mem_append, List.forall_mem_append] at h
    rw [mapNames, mapNames, Operand.mapNames_congr h.1.1, Expr.mapNames_congr h.1.2,
      Expr.mapNames_congr h.2]
  | represents view data shape =>
    rw [names, List.forall_mem_append, List.forall_mem_append] at h
    rw [mapNames, mapNames, Operand.mapNames_congr h.1.1, WithExpr.mapNames_congr h.1.2]
    cases shape with
    | none => rfl
    | some shape => rw [Option.map_some, Option.map_some, WithExpr.mapNames_congr h.2]
  | template header body => rfl
  | definition d => exact congrArg _ (Definition.mapNames_congr h)
  | term e => exact congrArg _ (Expr.mapNames_congr h)

end

/-! ## Renamings -/

theorem Renaming.identifier_eq (r : Renaming) (id : Identifier) :
    r.identifier id = id.renamed ((r.find? id.name).getD id.name) := by
  rw [identifier]
  split <;> simp [*, Identifier.renamed]

/-- A renaming changes the names of a statement and nothing else. -/
theorem Renaming.statement_eq_mapNames (r : Renaming) (s : Statement) :
    r.statement s = s.mapNames r.identifier := by
  have hexpr (e : Expr) : r.expr e = e.mapNames r.identifier := by
    induction e with
    | name id => rfl
    | binary op left right ihl ihr => rw [expr, ihl, ihr, Expr.mapNames]
  have hdefinition (d : Definition) : r.definition d = d.mapNames r.identifier := by
    have hdecorator : r.decorator = Decorator.mapNames r.identifier := by
      funext dec
      cases dec <;> rfl
    rw [definition, hdecorator, Definition.mapNames]
  have hoperand (o : Operand) : r.operand o = o.mapNames r.identifier := by
    cases o with
    | definition d => exact congrArg _ (hdefinition d)
    | expr e => exact congrArg _ (hexpr e)
  have hwithExpr (w : WithExpr) : r.withExpr w = w.mapNames r.identifier := by
    rw [withExpr, hexpr, funext hexpr]
    rfl
  cases s with
  | relation left kind right => rw [statement, hoperand, hexpr, Statement.mapNames]
  | cover left middle right => rw [statement, hoperand, hexpr, hexpr, Statement.mapNames]
  | represents view data shape =>
    rw [statement, hoperand, hwithExpr, funext hwithExpr, Statement.mapNames]
  | template header body => rfl
  | definition d => exact congrArg _ (hdefinition d)
  | term e => exact congrArg _ (hexpr e)

end InterfaceSchema
