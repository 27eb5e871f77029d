import InterfaceSchema.Schema.Basic

/-!
# Equality by name

Schemas are equal if they differ in places only. `unplaced` puts every
identifier at the same place, and two schemas are equal exactly if they are the
same without places (`Program.beq_iff`).
-/

namespace InterfaceSchema

def Identifier.unplaced (id : Identifier) : Identifier := ⟨id.name, {}⟩

def Expr.unplaced : Expr → Expr
  | name id => .name id.unplaced
  | binary op left right => .binary op left.unplaced right.unplaced

def Decorator.unplaced : Decorator → Decorator
  | tag id => .tag id.unplaced
  | call template args => .call template.unplaced (args.map Identifier.unplaced)

def Definition.unplaced (d : Definition) : Definition :=
  ⟨d.decorators.map Decorator.unplaced, d.id.unplaced⟩

def Operand.unplaced : Operand → Operand
  | definition d => .definition d.unplaced
  | expr e => .expr e.unplaced

def WithExpr.unplaced (w : WithExpr) : WithExpr := ⟨w.left.unplaced, w.right.map Expr.unplaced⟩

def Header.unplaced (h : Header) : Header :=
  ⟨h.id.unplaced, h.params.map (·.map Identifier.unplaced), h.base.map Identifier.unplaced⟩

mutual
def Statement.unplaced : Statement → Statement
  | .relation left kind right => .relation left.unplaced kind right.unplaced
  | .cover left middle right => .cover left.unplaced middle.unplaced right.unplaced
  | .represents view data shape =>
    .represents view.unplaced data.unplaced (shape.map WithExpr.unplaced)
  | .template header body => .template header.unplaced (Statement.unplacedAll body)
  | .definition d => .definition d.unplaced
  | .term e => .term e.unplaced

def Statement.unplacedAll : List Statement → List Statement
  | [] => []
  | s :: ss => s.unplaced :: Statement.unplacedAll ss
end

def Program.unplaced (p : Program) : Program := ⟨Statement.unplacedAll p.statements⟩

theorem Identifier.beq_iff {a b : Identifier} : (a == b) = true ↔ a.unplaced = b.unplaced := by
  show (a.name == b.name) = true ↔ _
  simp [unplaced]

theorem beq_list_iff {α : Type} [BEq α] {f : α → α}
    (hf : ∀ {a b : α}, (a == b) = true ↔ f a = f b) :
    ∀ {xs ys : List α}, (xs == ys) = true ↔ xs.map f = ys.map f
  | [], [] => by simp
  | [], _ :: _ => by simp
  | _ :: _, [] => by simp
  | x :: xs, y :: ys => by
    rw [List.cons_beq_cons, Bool.and_eq_true, hf, beq_list_iff hf, List.map_cons, List.map_cons,
      List.cons.injEq]

theorem beq_option_iff {α : Type} [BEq α] {f : α → α}
    (hf : ∀ {a b : α}, (a == b) = true ↔ f a = f b) :
    ∀ {x y : Option α}, (x == y) = true ↔ x.map f = y.map f
  | none, none => by simp
  | none, some _ => by simp
  | some _, none => by simp
  | some a, some b => by simp [hf]

theorem Expr.beq_iff : ∀ {a b : Expr}, (a == b) = true ↔ a.unplaced = b.unplaced
  | .name a, .name b => by
    show (a == b) = true ↔ _
    simp [unplaced, Identifier.beq_iff]
  | .name _, .binary _ _ _ => by
    show false = true ↔ _
    simp [unplaced]
  | .binary _ _ _, .name _ => by
    show false = true ↔ _
    simp [unplaced]
  | .binary op l r, .binary op' l' r' => by
    show (op == op' && (l == l' && r == r')) = true ↔ _
    simp [unplaced, Expr.beq_iff]

theorem Decorator.beq_iff {a b : Decorator} : (a == b) = true ↔ a.unplaced = b.unplaced := by
  cases a with
  | tag a =>
    cases b with
    | tag b =>
      show (a == b) = true ↔ _
      simp [unplaced, Identifier.beq_iff]
    | call _ _ =>
      show false = true ↔ _
      simp [unplaced]
  | call t xs =>
    cases b with
    | tag _ =>
      show false = true ↔ _
      simp [unplaced]
    | call u ys =>
      show (t == u && xs == ys) = true ↔ _
      simp only [Bool.and_eq_true, unplaced, call.injEq, Identifier.beq_iff,
        beq_list_iff Identifier.beq_iff]

theorem Definition.beq_iff {a b : Definition} : (a == b) = true ↔ a.unplaced = b.unplaced := by
  show (a.decorators == b.decorators && a.id == b.id) = true ↔ _
  simp only [Bool.and_eq_true, unplaced, Definition.mk.injEq, Identifier.beq_iff,
    beq_list_iff Decorator.beq_iff]

theorem Operand.beq_iff {a b : Operand} : (a == b) = true ↔ a.unplaced = b.unplaced := by
  cases a with
  | definition a =>
    cases b with
    | definition b =>
      show (a == b) = true ↔ _
      simp [unplaced, Definition.beq_iff]
    | expr _ =>
      show false = true ↔ _
      simp [unplaced]
  | expr a =>
    cases b with
    | definition _ =>
      show false = true ↔ _
      simp [unplaced]
    | expr b =>
      show (a == b) = true ↔ _
      simp [unplaced, Expr.beq_iff]

theorem WithExpr.beq_iff {a b : WithExpr} : (a == b) = true ↔ a.unplaced = b.unplaced := by
  show (a.left == b.left && a.right == b.right) = true ↔ _
  simp only [Bool.and_eq_true, unplaced, WithExpr.mk.injEq, Expr.beq_iff,
    beq_option_iff Expr.beq_iff]

theorem Header.beq_iff {a b : Header} : (a == b) = true ↔ a.unplaced = b.unplaced := by
  show (a.id == b.id && (a.params == b.params && a.base == b.base)) = true ↔ _
  simp only [Bool.and_eq_true, unplaced, Header.mk.injEq, Identifier.beq_iff,
    beq_option_iff Identifier.beq_iff, beq_option_iff (beq_list_iff Identifier.beq_iff)]

mutual
theorem Statement.same_iff : ∀ {s t : Statement}, s.same t = true ↔ s.unplaced = t.unplaced
  | .relation _ _ _, t => by
    cases t <;> simp [same, unplaced, Operand.beq_iff, Expr.beq_iff, and_assoc]
  | .cover _ _ _, t => by
    cases t <;> simp [same, unplaced, Operand.beq_iff, Expr.beq_iff, and_assoc]
  | .represents _ _ _, t => by
    cases t <;> simp [same, unplaced, Operand.beq_iff, WithExpr.beq_iff,
      beq_option_iff WithExpr.beq_iff, and_assoc]
  | .template _ _, t => by
    cases t <;> simp [same, unplaced, Header.beq_iff, Statement.sameList_iff]
  | .definition _, t => by
    cases t <;> simp [same, unplaced, Definition.beq_iff]
  | .term _, t => by
    cases t <;> simp [same, unplaced, Expr.beq_iff]

theorem Statement.sameList_iff : ∀ {ss ts : List Statement},
    Statement.sameList ss ts = true ↔ Statement.unplacedAll ss = Statement.unplacedAll ts
  | [], [] => by simp [sameList]
  | [], _ :: _ => by simp [sameList, unplacedAll]
  | _ :: _, [] => by simp [sameList, unplacedAll]
  | s :: ss, t :: ts => by
    simp [sameList, unplacedAll, Statement.same_iff, Statement.sameList_iff]
end

theorem Statement.unplacedAll_eq_map (ss : List Statement) :
    Statement.unplacedAll ss = ss.map Statement.unplaced := by
  induction ss with
  | nil => rfl
  | cons s ss ih => rw [unplacedAll, ih, List.map_cons]

theorem Program.beq_iff {p q : Program} : (p == q) = true ↔ p.unplaced = q.unplaced := by
  show (p.statements == q.statements) = true ↔ _
  rw [beq_list_iff (f := Statement.unplaced) Statement.same_iff, unplaced, unplaced,
    Program.mk.injEq, Statement.unplacedAll_eq_map, Statement.unplacedAll_eq_map]

end InterfaceSchema
