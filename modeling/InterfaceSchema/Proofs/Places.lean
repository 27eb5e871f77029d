import InterfaceSchema.Proofs.Equality
import InterfaceSchema.Proofs.Names
import InterfaceSchema.SemanticError
import InterfaceSchema.SyntaxError

/-!
# Changes of places

`mapSpan f` changes every place in a schema or an error by `f` and nothing else.
Equality of schemas does not see it (`Program.unplaced_mapSpan`), and renamings
keep places, so they commute with it (`Renaming.statement_mapSpan`). `Span.row` keeps
the line of a place only.
-/

namespace InterfaceSchema

/-- The line of a place without its columns and offsets. -/
def Span.row (s : Span) : Span := { line := s.line }

def Identifier.mapSpan (f : Span → Span) (id : Identifier) : Identifier := ⟨id.name, f id.span⟩

def Expr.mapSpan (f : Span → Span) (e : Expr) : Expr := e.mapNames (Identifier.mapSpan f)

def Decorator.mapSpan (f : Span → Span) : Decorator → Decorator
  | tag id => .tag (id.mapSpan f)
  | call template args => .call (template.mapSpan f) (args.map (Identifier.mapSpan f))

def Definition.mapSpan (f : Span → Span) (d : Definition) : Definition :=
  ⟨d.decorators.map (Decorator.mapSpan f), d.id.mapSpan f⟩

def Operand.mapSpan (f : Span → Span) : Operand → Operand
  | definition d => .definition (d.mapSpan f)
  | expr e => .expr (e.mapSpan f)

def WithExpr.mapSpan (f : Span → Span) (w : WithExpr) : WithExpr :=
  w.mapNames (Identifier.mapSpan f)

def Header.mapSpan (f : Span → Span) (h : Header) : Header :=
  ⟨h.id.mapSpan f, h.params.map (·.map (Identifier.mapSpan f)), h.base.map (Identifier.mapSpan f)⟩

mutual
def Statement.mapSpan (f : Span → Span) : Statement → Statement
  | .relation left kind right => .relation (left.mapSpan f) kind (right.mapSpan f)
  | .cover left middle right => .cover (left.mapSpan f) (middle.mapSpan f) (right.mapSpan f)
  | .represents view data shape =>
    .represents (view.mapSpan f) (data.mapSpan f) (shape.map (WithExpr.mapSpan f))
  | .template header body => .template (header.mapSpan f) (Statement.mapSpanAll f body)
  | .definition d => .definition (d.mapSpan f)
  | .term e => .term (e.mapSpan f)

def Statement.mapSpanAll (f : Span → Span) : List Statement → List Statement
  | [] => []
  | s :: ss => s.mapSpan f :: Statement.mapSpanAll f ss
end

def Template.mapSpan (f : Span → Span) (t : Template) : Template :=
  ⟨t.header.mapSpan f, Statement.mapSpanAll f t.body⟩

def Program.mapSpan (f : Span → Span) (p : Program) : Program :=
  ⟨Statement.mapSpanAll f p.statements⟩

def SyntaxError.mapSpan (f : Span → Span) (e : SyntaxError) : SyntaxError :=
  { e with span := f e.span }

def SemanticError.mapSpan (f : Span → Span) : SemanticError → SemanticError
  | emptyDefinition site => .emptyDefinition (site.mapSpan f)
  | undeclaredTemplate site => .undeclaredTemplate (site.mapSpan f)
  | duplicateTemplate site => .duplicateTemplate (site.mapSpan f)
  | arityMismatch site expected actual => .arityMismatch (site.mapSpan f) expected actual
  | recursiveTemplate name chain => .recursiveTemplate name chain

section

variable (f : Span → Span)

theorem Statement.mapSpanAll_eq_map (ss : List Statement) :
    Statement.mapSpanAll f ss = ss.map (Statement.mapSpan f) := by
  induction ss with
  | nil => rfl
  | cons s ss ih => rw [mapSpanAll, ih, List.map_cons]

theorem Expr.unplaced_mapSpan (e : Expr) : (e.mapSpan f).unplaced = e.unplaced := by
  induction e with
  | name id => rfl
  | binary op left right ihl ihr =>
    show Expr.binary op (left.mapSpan f).unplaced (right.mapSpan f).unplaced = _
    rw [ihl, ihr, unplaced]

theorem Decorator.unplaced_mapSpan (d : Decorator) : (d.mapSpan f).unplaced = d.unplaced := by
  cases d with
  | tag id => rfl
  | call template args =>
    rw [mapSpan, unplaced, List.map_map]
    rfl

theorem Definition.unplaced_mapSpan (d : Definition) : (d.mapSpan f).unplaced = d.unplaced := by
  rw [unplaced, mapSpan, List.map_map, Function.comp_def]
  simp only [Decorator.unplaced_mapSpan]
  rfl

theorem Operand.unplaced_mapSpan (o : Operand) : (o.mapSpan f).unplaced = o.unplaced := by
  cases o with
  | definition d => rw [mapSpan, unplaced, d.unplaced_mapSpan, unplaced]
  | expr e => rw [mapSpan, unplaced, e.unplaced_mapSpan, unplaced]

theorem WithExpr.unplaced_mapSpan (w : WithExpr) : (w.mapSpan f).unplaced = w.unplaced := by
  obtain ⟨left, right⟩ := w
  show WithExpr.mk (left.mapSpan f).unplaced ((right.map (Expr.mapSpan f)).map Expr.unplaced) = _
  rw [left.unplaced_mapSpan, Option.map_map, unplaced]
  simp only [Function.comp_def, Expr.unplaced_mapSpan]

theorem Header.unplaced_mapSpan (h : Header) : (h.mapSpan f).unplaced = h.unplaced := by
  obtain ⟨id, params, base⟩ := h
  have hid (id : Identifier) : (id.mapSpan f).unplaced = id.unplaced := rfl
  cases params <;> cases base <;> simp [unplaced, mapSpan, hid]

mutual
theorem Statement.unplaced_mapSpan : ∀ s : Statement, (s.mapSpan f).unplaced = s.unplaced
  | .relation left kind right => by
    rw [mapSpan, unplaced, left.unplaced_mapSpan, right.unplaced_mapSpan, unplaced]
  | .cover left middle right => by
    rw [mapSpan, unplaced, left.unplaced_mapSpan, middle.unplaced_mapSpan, right.unplaced_mapSpan,
      unplaced]
  | .represents view data shape => by
    rw [mapSpan, unplaced, view.unplaced_mapSpan, data.unplaced_mapSpan, unplaced]
    cases shape with
    | none => rfl
    | some shape => rw [Option.map_some, Option.map_some, shape.unplaced_mapSpan, Option.map_some]
  | .template header body => by
    rw [mapSpan, unplaced, header.unplaced_mapSpan, Statement.unplacedAll_mapSpanAll body, unplaced]
  | .definition d => congrArg Statement.definition (d.unplaced_mapSpan f)
  | .term e => congrArg Statement.term (e.unplaced_mapSpan f)

theorem Statement.unplacedAll_mapSpanAll : ∀ ss : List Statement,
    Statement.unplacedAll (Statement.mapSpanAll f ss) = Statement.unplacedAll ss
  | [] => rfl
  | s :: ss => by
    rw [mapSpanAll, unplacedAll, Statement.unplaced_mapSpan s, Statement.unplacedAll_mapSpanAll ss,
      unplacedAll]
end

theorem Program.unplaced_mapSpan (p : Program) : (p.mapSpan f).unplaced = p.unplaced :=
  congrArg Program.mk (Statement.unplacedAll_mapSpanAll f p.statements)

end

theorem Program.mapSpan_eq (f : Span → Span) :
    Program.mapSpan f = fun p => ⟨p.statements.map (Statement.mapSpan f)⟩ :=
  funext fun p => congrArg Program.mk (Statement.mapSpanAll_eq_map f p.statements)

theorem Expr.mapSpan_id (e : Expr) : e.mapSpan (fun s => s) = e := by
  induction e with
  | name id => rfl
  | binary op left right ihl ihr =>
    show Expr.binary op (left.mapSpan fun s => s) (right.mapSpan fun s => s) = _
    rw [ihl, ihr]

theorem Decorator.mapSpan_id (d : Decorator) : d.mapSpan (fun s => s) = d := by
  cases d with
  | tag id => rfl
  | call template args => exact congrArg (Decorator.call template) (List.map_id args)

theorem Definition.mapSpan_id (d : Definition) : d.mapSpan (fun s => s) = d := by
  obtain ⟨decorators, name⟩ := d
  rw [mapSpan, List.map_congr_left fun d _ => d.mapSpan_id, List.map_id']
  rfl

theorem Operand.mapSpan_id (o : Operand) : o.mapSpan (fun s => s) = o := by
  cases o with
  | definition d => exact congrArg Operand.definition d.mapSpan_id
  | expr e => exact congrArg Operand.expr e.mapSpan_id

theorem WithExpr.mapSpan_id (w : WithExpr) : w.mapSpan (fun s => s) = w := by
  obtain ⟨left, right⟩ := w
  show WithExpr.mk (left.mapSpan fun s => s) (right.map (Expr.mapSpan fun s => s)) = _
  rw [left.mapSpan_id]
  cases right with
  | none => rfl
  | some right => rw [Option.map_some, right.mapSpan_id]

theorem Header.mapSpan_id (h : Header) : h.mapSpan (fun s => s) = h := by
  have hid : Identifier.mapSpan (fun s => s) = fun id => id := rfl
  obtain ⟨name, params, base⟩ := h
  simp [mapSpan, hid]

mutual
theorem Statement.mapSpan_id : ∀ s : Statement, s.mapSpan (fun s => s) = s
  | .relation left kind right => by rw [mapSpan, left.mapSpan_id, right.mapSpan_id]
  | .cover left middle right => by
    rw [mapSpan, left.mapSpan_id, middle.mapSpan_id, right.mapSpan_id]
  | .represents view data shape => by
    rw [mapSpan, view.mapSpan_id, data.mapSpan_id]
    cases shape with
    | none => rfl
    | some shape => rw [Option.map_some, shape.mapSpan_id]
  | .template header body => by rw [mapSpan, header.mapSpan_id, Statement.mapSpanAll_id body]
  | .definition d => congrArg Statement.definition d.mapSpan_id
  | .term e => congrArg Statement.term e.mapSpan_id

theorem Statement.mapSpanAll_id : ∀ ss : List Statement,
    Statement.mapSpanAll (fun s => s) ss = ss
  | [] => rfl
  | s :: ss => by rw [mapSpanAll, Statement.mapSpan_id s, Statement.mapSpanAll_id ss]
end

/-! ## Renamings -/

namespace Renaming

variable (f : Span → Span) (r : Renaming)

theorem identifier_mapSpan (id : Identifier) :
    r.identifier (id.mapSpan f) = (r.identifier id).mapSpan f := by
  rw [identifier_eq, identifier_eq]
  rfl

theorem expr_mapSpan (e : Expr) : r.expr (e.mapSpan f) = (r.expr e).mapSpan f := by
  induction e with
  | name id => exact congrArg _ (r.identifier_mapSpan f id)
  | binary op left right ihl ihr =>
    show Expr.binary op (r.expr (left.mapSpan f)) (r.expr (right.mapSpan f)) = _
    rw [ihl, ihr]
    rfl

theorem decorator_mapSpan (d : Decorator) :
    r.decorator (d.mapSpan f) = (r.decorator d).mapSpan f := by
  cases d with
  | tag id => rfl
  | call template args =>
    simp only [Decorator.mapSpan, decorator, List.map_map]
    exact congrArg _ (List.map_congr_left fun id _ => r.identifier_mapSpan f id)

theorem definition_mapSpan (d : Definition) :
    r.definition (d.mapSpan f) = (r.definition d).mapSpan f := by
  simp only [definition, Definition.mapSpan, List.map_map, r.identifier_mapSpan f]
  exact congrArg (Definition.mk · _) (List.map_congr_left fun d _ => r.decorator_mapSpan f d)

theorem operand_mapSpan (o : Operand) : r.operand (o.mapSpan f) = (r.operand o).mapSpan f := by
  cases o with
  | definition d => exact congrArg _ (r.definition_mapSpan f d)
  | expr e => exact congrArg _ (r.expr_mapSpan f e)

theorem withExpr_mapSpan (w : WithExpr) :
    r.withExpr (w.mapSpan f) = (r.withExpr w).mapSpan f := by
  obtain ⟨left, right⟩ := w
  show WithExpr.mk (r.expr (left.mapSpan f)) ((right.map (Expr.mapSpan f)).map r.expr) = _
  rw [r.expr_mapSpan, Option.map_map, Function.comp_def]
  simp only [r.expr_mapSpan f]
  cases right <;> rfl

theorem statement_mapSpan (s : Statement) :
    r.statement (s.mapSpan f) = (r.statement s).mapSpan f := by
  cases s with
  | relation left kind right =>
    simp only [Statement.mapSpan, statement, operand_mapSpan, expr_mapSpan]
  | cover left middle right =>
    simp only [Statement.mapSpan, statement, operand_mapSpan, expr_mapSpan]
  | represents view data shape =>
    simp only [Statement.mapSpan, statement, operand_mapSpan, withExpr_mapSpan, Option.map_map]
    exact congrArg _ (congrArg (Option.map · shape) (funext fun w => r.withExpr_mapSpan f w))
  | template header body => rfl
  | definition d => exact congrArg _ (r.definition_mapSpan f d)
  | term e => exact congrArg _ (r.expr_mapSpan f e)

end Renaming

end InterfaceSchema
