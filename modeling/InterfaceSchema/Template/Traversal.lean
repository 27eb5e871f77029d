import InterfaceSchema.Fact
import InterfaceSchema.Log
import InterfaceSchema.Options
import InterfaceSchema.Template.Renaming
import InterfaceSchema.Template.Scope

/-!
# Traversals

A definition says what its decorators mean for the name it defines; a decorator
that names a template expands the body of the template for that name. The body
is renamed first: parameters stand for arguments, and each member is qualified
by its owner, the template for shared members and the instance for others. A
member is renamed from its definition on, not above it.

A traversal goes through statements in this way, and a `Collector` says what becomes of
what it comes to: in which monad it runs, what it tells of itself, and what it collects.
-/

namespace InterfaceSchema

/-- The name of a member of the template, or of its instance. -/
def Definition.memberName (template inst : String) (d : Definition) : String :=
  qualify (if d.isShared then template else inst) d.id.name

/-- Renames the members defined in a statement as well. -/
def Renaming.bindMembers (template inst : String) (r : Renaming) (s : Statement) : Renaming :=
  s.definitions.foldl (fun r d => r.bind d.id.name (d.memberName template inst)) r

/-- Statements of a body, each renamed with the members defined up to it. -/
def Renaming.body (template inst : String) (r : Renaming) : List Statement → List Statement
  | [] => []
  | s :: ss =>
    let r := r.bindMembers template inst s
    r.statement s :: r.body template inst ss

/-- The names that parameters are given; the last of two equal parameters
counts. -/
def Renaming.ofArguments (params args : List Identifier) : Renaming :=
  (params.zip args).foldl (fun r (param, arg) => r.bind param.name arg.name) {}

namespace Template

def instantiate (t : Template) (r : Renaming) (inst : String) : List Statement :=
  r.body t.name inst t.body

/-- The renaming of the parameters. A bare tag gives no arguments and renames
none. -/
def bindArguments (t : Template) (site : Identifier) : Option (List Identifier) →
    Except SemanticError Renaming
  | none => .ok {}
  | some args =>
    if t.params.length = args.length then .ok (.ofArguments t.params args)
    else .error (.arityMismatch site t.params.length args.length)

end Template

/-- What a decorator says about the name it stands before. -/
inductive Role where
  | set (kind : String)
  | structured
  | structuredAs (tag : String)
  | inst (tag : String)
  | expand (site : Identifier) (args : Option (List Identifier))
  deriving Repr, Inhabited

/-- What a compilation goes by. -/
structure Compilation where
  options : Options := {}
  registry : Registry := {}

namespace Compilation

/-- The kinds of sets, at the first position. -/
def isSetKind (tag : String) : Bool := tag == "single" || tag == "many"

/-- The tag of a structure of no kind, at the first position. -/
def structureTag : String := "structure"

def roleOfTag (c : Compilation) (position : Nat) (tag : Identifier) : Role :=
  if position = 0 ∧ isSetKind tag.name = true then .set tag.name
  else if position = 0 ∧ tag.name = structureTag then .structured
  else if c.options.isStructureTag tag.name then .structuredAs tag.name
  else if (c.registry.find? tag.name).isSome then .expand tag none
  else .inst tag.name

def role (c : Compilation) (position : Nat) : Decorator → Role
  | .tag tag => c.roleOfTag position tag
  | .call template args => .expand template (some args)

/-- The roles of the decorators; `shared` has none and takes no position. -/
def roles (c : Compilation) (d : Definition) : List Role :=
  (d.decorators.filter (!·.isTag sharedTag)).mapIdx c.role

/-- What stands for an expression in a fact. -/
def exprText : Expr → String
  | .name id => id.name
  | .binary .derivesFrom left _ => exprText left
  | .binary .member _ _ => Unimplemented.memberAccess.text

/-- What stands for the left side of a relation in a fact. -/
def operandText : Operand → String
  | .definition d => d.id.name
  | .expr e => exprText e

/-- What is told where an expression becomes a text. -/
def exprEvents : Expr → List LogEvent
  | .name _ => []
  | .binary .derivesFrom left _ => exprEvents left
  | .binary .member left _ => [.memberAccess left.head.name]

/-- The expansion of the template named at a site, with its arguments, for an
instance. -/
abbrev Expansion (m : Type → Type) (α : Type) :=
  Identifier → Option (List Identifier) → String → m (List α)

end Compilation

/-- What becomes of what a traversal comes to. It runs in `m`, and collects values in `α`. -/
structure Collector (m : Type → Type) (α : Type) where
  lift : {β : Type} → Except SemanticError β → m β
  tell : List LogEvent → m Unit
  fact : Fact → α
  /-- A definition, by what its decorators bring. -/
  lowered : Definition → List α → List α
  /-- A statement in the body for an instance, by the traversal of the statement. -/
  member : String → Statement → m (List α) → m (List α)
  /-- The expansion of a template for an instance, by what its body brings. -/
  expanded : String → String → List α → List α

namespace Collector

open Compilation

variable {m : Type → Type} [Monad m] {α : Type} (k : Collector m α) (c : Compilation)
  (expansion : Expansion m α)

def fail {β : Type} (e : SemanticError) : m β := k.lift (.error e)

def role (name : String) : Role → m (List α)
  | .set kind => return [k.fact (.set kind name)]
  | .structured => return [k.fact (.structured name)]
  | .structuredAs tag => return [k.fact (.structured name), k.fact (.inst tag name)]
  | .inst tag => return [k.fact (.inst tag name)]
  | .expand site args => expansion site args name

def definition (d : Definition) : m (List α) :=
  if d.decorators.isEmpty then k.fail (.emptyDefinition d.id)
  else (fun ass => k.lowered d ass.flatten) <$> (c.roles d).mapM (k.role expansion d.id.name)

def operand : Operand → m (List α)
  | .definition d => k.definition c expansion d
  | .expr e => do
    k.tell (exprEvents e)
    return []

def statement : Statement → m (List α)
  | .template _ _ => return []
  | .definition d => k.definition c expansion d
  | .term e => do
    k.tell (exprEvents e)
    return [k.fact (.term (exprText e))]
  | .relation left kind right => do
    let as ← k.operand c expansion left
    k.tell (exprEvents right)
    return as ++ [k.fact (.apply kind (operandText left) (exprText right))]
  | .cover left middle right => do
    let as ← k.operand c expansion left
    k.tell (exprEvents middle ++ exprEvents right)
    return as ++ [k.fact (.applyCover (operandText left) (exprText middle) (exprText right))]
  | .represents _ _ _ => do
    k.tell [.represents]
    return [k.fact (.unimplemented .represents)]

/-- The statements of a body, with the members that are defined up to each renamed. -/
def body (template inst : String) (r : Renaming) : List Statement → m (List (List α))
  | [] => return []
  | s :: ss => do
    let r := r.bindMembers template inst s
    k.tell [.renamed template inst r.size]
    let as ← k.member inst (r.statement s) (k.statement c expansion (r.statement s))
    let ass ← body template inst r ss
    return as :: ass

/-- The template for an instance, with its parameters renamed. -/
def template (t : Template) (r : Renaming) (inst : String) : m (List α) := do
  k.tell [.expanding t.name inst]
  let ass ← k.body c expansion t.name inst r t.body
  return k.expanded t.name inst ass.flatten

/-- Expands the template named at `site` for an instance, while the frames on
the scopes are being expanded. -/
def expand (scopes : Scopes) (site : Identifier) (args : Option (List Identifier))
    (inst : String) : m (List α) :=
  match _ht : c.registry.find? site.name with
  | none => k.fail (.undeclaredTemplate site)
  | some t =>
    if _hs : scopes.isExpanding t.name = true then
      k.fail (.recursiveTemplate t.name (scopes.chain t.name))
    else do
      let r ← k.lift (t.bindArguments site args)
      let inner := fun site args inst' => expand (scopes.push ⟨t.name, inst⟩) site args inst'
      k.template c inner t r inst
termination_by scopes.remaining c.registry
decreasing_by
  exact Scopes.remaining_push_lt (Registry.mem_of_find? _ht) (by simpa using _hs) _

def statements (ss : List Statement) : m (List α) :=
  List.flatten <$> ss.mapM (k.statement c (k.expand c []))

def program (options : Options) (p : Program) : m (List α) := do
  let registry ← k.lift (Registry.ofStatements p.statements)
  k.tell [.registered registry.size]
  k.statements ⟨options, registry⟩ p.statements

end Collector

end InterfaceSchema
