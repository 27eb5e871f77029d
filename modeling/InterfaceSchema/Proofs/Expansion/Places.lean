import InterfaceSchema.Proofs.Expansion.Run
import InterfaceSchema.Proofs.Places

/-!
# Places in an expansion

The compilation copies places and never looks at them: if all places in a program
change, its facts stay the same, and in its failures the places change alike
(`Program.facts_mapSpan`).
-/

namespace InterfaceSchema

variable (f : Span → Span)

theorem Definition.isShared_mapSpan (d : Definition) : (d.mapSpan f).isShared = d.isShared := by
  rw [isShared, mapSpan, List.any_map, isShared]
  congr 1
  funext dec
  cases dec <;> rfl

theorem Statement.definitions_mapSpan (s : Statement) :
    (s.mapSpan f).definitions = s.definitions.map (Definition.mapSpan f) := by
  cases s with
  | relation left _ _ => cases left <;> rfl
  | cover left _ _ => cases left <;> rfl
  | represents view _ _ => cases view <;> rfl
  | _ => rfl

theorem Statement.compiled_mapSpan (s : Statement) :
    (s.mapSpan f).compiled = s.compiled.map (Definition.mapSpan f) := by
  cases s with
  | relation left _ _ => cases left <;> rfl
  | cover left _ _ => cases left <;> rfl
  | _ => rfl

theorem Statement.isShared_mapSpan (s : Statement) : (s.mapSpan f).isShared = s.isShared := by
  rw [isShared, definitions_mapSpan, List.any_map, isShared]
  simp only [Function.comp_def, Definition.isShared_mapSpan]

mutual
theorem Statement.declarations_mapSpan : ∀ s : Statement,
    (s.mapSpan f).declarations = s.declarations.map (Template.mapSpan f)
  | .template header body => by
    rw [mapSpan, declarations, declarations, Statement.declarationsIn_mapSpanAll body, List.map_cons]
    rfl
  | .relation _ _ _ => rfl
  | .cover _ _ _ => rfl
  | .represents _ _ _ => rfl
  | .definition _ => rfl
  | .term _ => rfl

theorem Statement.declarationsIn_mapSpanAll : ∀ ss : List Statement,
    Statement.declarationsIn (Statement.mapSpanAll f ss) =
      (Statement.declarationsIn ss).map (Template.mapSpan f)
  | [] => rfl
  | s :: ss => by
    rw [mapSpanAll, declarationsIn, Statement.declarations_mapSpan s,
      Statement.declarationsIn_mapSpanAll ss, declarationsIn, List.map_append]
end

namespace Registry

def mapSpan (r : Registry) : Registry := ⟨r.templates.map (Template.mapSpan f)⟩

theorem find?_mapSpan (r : Registry) (name : String) :
    (r.mapSpan f).find? name = (r.find? name).map (Template.mapSpan f) := by
  rw [find?, mapSpan, List.find?_map]
  rfl

theorem registerEach_mapSpan (r : Registry) (ts : List Template) :
    (r.mapSpan f).registerEach (ts.map (Template.mapSpan f)) =
      ((r.registerEach ts).1.mapSpan f, (r.registerEach ts).2.map (SemanticError.mapSpan f)) := by
  induction ts generalizing r with
  | nil => rfl
  | cons t ts ih =>
    rw [List.map_cons, registerEach, registerEach, register, register, find?_mapSpan,
      Option.isSome_map]
    show _ = (_, _)
    cases hfree : (r.find? (t.mapSpan f).name).isSome with
    | true =>
      have hfree : (r.find? t.name).isSome = true := hfree
      rw [hfree]
      rfl
    | false =>
      have hfree : (r.find? t.name).isSome = false := hfree
      have hregister : (⟨(r.mapSpan f).templates ++ [t.mapSpan f]⟩ : Registry) =
          mapSpan f ⟨r.templates ++ [t]⟩ := by
        rw [mapSpan, mapSpan, List.map_append]
        rfl
      rw [hfree]
      exact (congrArg (registerEach · _) hregister).trans (ih _)

theorem ofStatements_mapSpanAll (ss : List Statement) :
    ofStatements (Statement.mapSpanAll f ss) =
      (mapSpan f <$> ofStatements ss).mapError (SemanticError.mapSpan f) := by
  have hregister : registerAll {} (Statement.mapSpanAll f ss) =
      ((registerAll {} ss).1.mapSpan f, (registerAll {} ss).2.map (SemanticError.mapSpan f)) := by
    rw [registerAll, Statement.declarationsIn_mapSpanAll]
    exact registerEach_mapSpan f {} _
  rw [ofStatements, hregister, ofStatements]
  obtain ⟨r, e⟩ := registerAll {} ss
  cases e <;> rfl

end Registry

theorem Renaming.bindMembers_mapSpan (template inst : String) (r : Renaming) (s : Statement) :
    r.bindMembers template inst (s.mapSpan f) = r.bindMembers template inst s := by
  rw [bindMembers, Statement.definitions_mapSpan, List.foldl_map, bindMembers]
  simp only [Definition.memberName, Definition.isShared_mapSpan]
  rfl

theorem Renaming.body_mapSpan (template inst : String) (r : Renaming) (ss : List Statement) :
    r.body template inst (ss.map (Statement.mapSpan f)) =
      (r.body template inst ss).map (Statement.mapSpan f) := by
  induction ss generalizing r with
  | nil => rfl
  | cons s ss ih =>
    rw [List.map_cons, body, body, bindMembers_mapSpan, List.map_cons, statement_mapSpan, ih]

namespace Template

variable (t : Template)

theorem instantiate_mapSpan (r : Renaming) (inst : String) :
    (t.mapSpan f).instantiate r inst = (t.instantiate r inst).map (Statement.mapSpan f) := by
  rw [instantiate, mapSpan, Statement.mapSpanAll_eq_map, Renaming.body_mapSpan]
  rfl

theorem params_mapSpan : (t.mapSpan f).params = t.params.map (Identifier.mapSpan f) := by
  obtain ⟨⟨id, params, base⟩, body⟩ := t
  cases params <;> rfl

theorem bindArguments_mapSpan (site : Identifier) (args : Option (List Identifier)) :
    (t.mapSpan f).bindArguments (site.mapSpan f) (args.map (List.map (Identifier.mapSpan f))) =
      (t.bindArguments site args).mapError (SemanticError.mapSpan f) := by
  cases args with
  | none => rfl
  | some args =>
    rw [Option.map_some, bindArguments, bindArguments, params_mapSpan, List.length_map,
      List.length_map]
    split
    · rw [Renaming.ofArguments, List.zip_map, List.foldl_map]
      rfl
    · rfl

end Template

/-! ## Compilations -/

def Role.mapSpan : Role → Role
  | expand site args => .expand (site.mapSpan f) (args.map (List.map (Identifier.mapSpan f)))
  | role => role

namespace Compilation

def mapSpan (c : Compilation) : Compilation := ⟨c.options, c.registry.mapSpan f⟩

/-- The second expander does with changed places what the first one does. -/
def Follows (expand expand' : Expander) : Prop :=
  ∀ site args inst, expand' (site.mapSpan f) (args.map (List.map (Identifier.mapSpan f))) inst =
    (expand site args inst).mapError (SemanticError.mapSpan f)

variable (c : Compilation) {f : Span → Span} {expand expand' : Expander}

theorem role_mapSpan (position : Nat) (d : Decorator) :
    (c.mapSpan f).role position (d.mapSpan f) = (c.role position d).mapSpan f := by
  cases d with
  | call template args => rfl
  | tag tag =>
    show (c.mapSpan f).roleOfTag position (tag.mapSpan f) = (c.roleOfTag position tag).mapSpan f
    have hsome : ((c.mapSpan f).registry.find? tag.name).isSome = (c.registry.find? tag.name).isSome := by
      rw [mapSpan, Registry.find?_mapSpan, Option.isSome_map]
    have hname : (tag.mapSpan f).name = tag.name := rfl
    simp only [roleOfTag, hname, hsome, apply_ite (Role.mapSpan f)]
    rfl

theorem roles_mapSpan (d : Definition) :
    (c.mapSpan f).roles (d.mapSpan f) = (c.roles d).map (Role.mapSpan f) := by
  have hfilter : (d.mapSpan f).decorators.filter (!·.isTag sharedTag) =
      (d.decorators.filter (!·.isTag sharedTag)).map (Decorator.mapSpan f) := by
    rw [Definition.mapSpan, List.filter_map]
    refine congrArg _ (List.filter_congr fun dec _ => ?_)
    cases dec <;> rfl
  rw [roles, hfilter, roles]
  refine List.ext_getElem? fun i => ?_
  simp only [List.getElem?_mapIdx, List.getElem?_map, Option.map_map]
  exact congrArg (Option.map · _) (funext fun dec => c.role_mapSpan i dec)

theorem exprText_mapSpan (e : Expr) : exprText (e.mapSpan f) = exprText e := by
  induction e with
  | name id => rfl
  | binary op left right ihl _ =>
    cases op with
    | member => rfl
    | derivesFrom => exact ihl

theorem operandText_mapSpan (o : Operand) : operandText (o.mapSpan f) = operandText o := by
  cases o with
  | definition d => rfl
  | expr e => exact exprText_mapSpan e

theorem emitRole_mapSpan (h : Follows f expand expand') (name : String) (role : Role) :
    emitRole expand' name (role.mapSpan f) =
      (emitRole expand name role).mapError (SemanticError.mapSpan f) := by
  cases role with
  | expand site args => exact h site args name
  | _ => rfl

theorem emitDefinition_mapSpan (h : Follows f expand expand') (d : Definition) :
    (c.mapSpan f).emitDefinition expand' (d.mapSpan f) =
      (c.emitDefinition expand d).mapError (SemanticError.mapSpan f) := by
  have hempty : (d.mapSpan f).decorators.isEmpty = d.decorators.isEmpty := List.isEmpty_map
  rw [emitDefinition_eq, hempty, emitDefinition_eq, roles_mapSpan]
  split
  · rfl
  · have hroles := mapM_map_mapError (SemanticError.mapSpan f)
      fun role (_ : role ∈ c.roles d) => emitRole_mapSpan h d.id.name role
    rw [mapError_map]
    exact congrArg _ hroles

theorem ownFacts_mapSpan (s : Statement) : (s.mapSpan f).ownFacts = s.ownFacts := by
  cases s with
  | relation left kind right =>
    simp only [Statement.mapSpan, Statement.ownFacts, operandText_mapSpan, exprText_mapSpan]
  | cover left middle right =>
    simp only [Statement.mapSpan, Statement.ownFacts, operandText_mapSpan, exprText_mapSpan]
  | term e => simp only [Statement.mapSpan, Statement.ownFacts, exprText_mapSpan]
  | _ => rfl

theorem emitStatement_mapSpan (h : Follows f expand expand') (s : Statement) :
    (c.mapSpan f).emitStatement expand' (s.mapSpan f) =
      (c.emitStatement expand s).mapError (SemanticError.mapSpan f) := by
  rw [emitStatement_eq, emitStatement_eq, ownFacts_mapSpan, Statement.compiled_mapSpan,
    mapError_map, mapM_map_mapError (SemanticError.mapSpan f) fun d (_ : d ∈ s.compiled) =>
      c.emitDefinition_mapSpan h d]

theorem emitMember_mapSpan (h : Follows f expand expand') (inst : String) (s : Statement) :
    (c.mapSpan f).emitMember expand' inst (s.mapSpan f) =
      (c.emitMember expand inst s).mapError (SemanticError.mapSpan f) := by
  rw [emitMember_eq, c.emitStatement_mapSpan h, Emission.links, Statement.definitions_mapSpan,
    List.map_map,
    Statement.isShared_mapSpan, emitMember_eq, mapError_bind]
  rfl

theorem expand_mapSpan (scopes : Scopes) : Follows f (c.expand scopes) ((c.mapSpan f).expand scopes) := by
  intro site args inst
  induction scopes, site, args, inst using c.expansion_induction with
  | undeclared scopes site args inst hnone =>
    rw [expand_of_undeclared hnone]
    refine expand_of_undeclared ?_
    show (c.registry.mapSpan f).find? site.name = none
    rw [Registry.find?_mapSpan, hnone, Option.map_none]
  | recursive scopes site args inst t hfound hs =>
    have hfound' : (c.mapSpan f).registry.find? (site.mapSpan f).name = some (t.mapSpan f) := by
      show (c.registry.mapSpan f).find? site.name = _
      rw [Registry.find?_mapSpan, hfound, Option.map_some]
    have hs' : scopes.isExpanding (t.mapSpan f).name = true := hs
    rw [expand_of_isExpanding hfound hs]
    exact (expand_of_isExpanding hfound' hs').trans rfl
  | closed scopes site args inst t hfound hs ih =>
    have hfound' : (c.mapSpan f).registry.find? (site.mapSpan f).name = some (t.mapSpan f) := by
      show (c.registry.mapSpan f).find? site.name = _
      rw [Registry.find?_mapSpan, hfound, Option.map_some]
    have hs' : scopes.isExpanding (t.mapSpan f).name = false := hs
    have hinside : Follows f (c.inside scopes t inst) ((c.mapSpan f).inside scopes (t.mapSpan f) inst) :=
      fun site args inst' => ih site args inst'
    rw [expand_of_closed hfound' hs', expand_of_closed hfound hs, Template.bindArguments_mapSpan,
      mapError_bind]
    refine congrArg _ (funext fun r => ?_)
    rw [Template.instantiate_mapSpan,
      mapM_map_mapError _ fun s _ => c.emitMember_mapSpan hinside inst s, mapError_bind]
    rfl

theorem emissions_mapSpan (ss : List Statement) :
    (c.mapSpan f).emissions (Statement.mapSpanAll f ss) =
      (c.emissions ss).mapError (SemanticError.mapSpan f) := by
  rw [emissions_eq, Statement.mapSpanAll_eq_map,
    mapM_map_mapError _ fun s _ => c.emitStatement_mapSpan (c.expand_mapSpan []) s, emissions_eq,
    mapError_map]

end Compilation

/-- The facts of a program with other places, or its failure with these. -/
theorem Program.facts_mapSpan (options : Options) (p : Program) :
    (p.mapSpan f).facts options = (p.facts options).mapError (SemanticError.mapSpan f) := by
  rw [facts, emissions_eq, mapSpan, Registry.ofStatements_mapSpanAll, facts, emissions_eq,
    mapError_map]
  cases Registry.ofStatements p.statements with
  | error e => rfl
  | ok r =>
    have hemissions := Compilation.emissions_mapSpan (f := f) ⟨options, r⟩ p.statements
    show Emission.facts <$> (Compilation.mapSpan f ⟨options, r⟩).emissions _ = _
    rw [hemissions, ← mapError_map]
    rfl

end InterfaceSchema
