import InterfaceSchema.Proofs.Names

/-!
# Renamings as substitutions

A renaming gives all names in a statement their other names at once, each by its own
lookup, and leaves the frame: the renamed statement is the only one with these names in
this frame (`Renaming.eq_statement_iff`). So two renamings, one after the other, are a
single one, `Renaming.followedBy`. `Renaming.statement_substitutes` puts this together
with what it means for the definitions in a statement and for its places.
-/

namespace InterfaceSchema

-- What is equal after a change of the names has equally many names, so that the names of
-- its parts can be told apart in the list of all.
section

variable {f : Identifier → Identifier}

theorem Expr.length_identifiers_eq {e e' : Expr} (hframe : e.mapNames f = e'.mapNames f) :
    e.identifiers.length = e'.identifiers.length := by
  rw [← List.length_map f, ← identifiers_mapNames, hframe, identifiers_mapNames, List.length_map]

theorem Expr.eq_of_mapNames {e e' : Expr} (hframe : e.mapNames f = e'.mapNames f)
    (hnames : e.identifiers = e'.identifiers) : e = e' := by
  induction e generalizing e' with
  | name id =>
    cases e' with
    | name id' => exact congrArg name (List.singleton_inj.1 hnames)
    | binary op left right => cases hframe
  | binary op left right ihl ihr =>
    cases e' with
    | name id' => cases hframe
    | binary op' left' right' =>
      obtain ⟨rfl, hleft, hright⟩ := binary.inj hframe
      obtain ⟨hl, hr⟩ := List.append_inj hnames (length_identifiers_eq hleft)
      rw [ihl hleft hl, ihr hright hr]

theorem Decorator.length_names_eq {d d' : Decorator} (hframe : d.mapNames f = d'.mapNames f) :
    d.names.length = d'.names.length := by
  have hlength (d : Decorator) : (d.mapNames f).names.length = d.names.length := by
    cases d with
    | tag _ => rfl
    | call _ _ => exact List.length_map f
  rw [← hlength, hframe, hlength]

theorem Decorator.eq_of_mapNames {d d' : Decorator} (hframe : d.mapNames f = d'.mapNames f)
    (hnames : d.names = d'.names) : d = d' := by
  cases d with
  | tag id =>
    cases d' with
    | tag id' => exact hframe
    | call _ _ => cases hframe
  | call template args =>
    cases d' with
    | tag _ => cases hframe
    | call template' args' =>
      obtain ⟨rfl, _⟩ := call.inj hframe
      exact congrArg (call template) hnames

theorem Decorator.eq_of_map_mapNames {ds ds' : List Decorator}
    (hframe : ds.map (mapNames f) = ds'.map (mapNames f))
    (hnames : ds.flatMap names = ds'.flatMap names) : ds = ds' := by
  induction ds generalizing ds' with
  | nil => exact (List.map_eq_nil_iff.1 hframe.symm).symm
  | cons d ds ih =>
    cases ds' with
    | nil => cases hframe
    | cons d' ds' =>
      obtain ⟨hd, hds⟩ := List.cons.inj hframe
      obtain ⟨hn, hns⟩ := List.append_inj hnames (length_names_eq hd)
      rw [eq_of_mapNames hd hn, ih hds hns]

theorem Definition.eq_of_mapNames {d d' : Definition} (hframe : d.mapNames f = d'.mapNames f)
    (hnames : d.names = d'.names) : d = d' := by
  obtain ⟨hdecorators, _⟩ := mk.inj hframe
  obtain ⟨hargs, hid⟩ := List.append_inj' hnames rfl
  cases d with
  | mk decorators id =>
    obtain rfl : decorators = d'.decorators := Decorator.eq_of_map_mapNames hdecorators hargs
    obtain rfl : id = d'.id := List.singleton_inj.1 hid
    rfl

theorem Operand.length_names_eq {o o' : Operand} (hframe : o.mapNames f = o'.mapNames f) :
    o.names.length = o'.names.length := by
  rw [← List.length_map f, ← names_mapNames, hframe, names_mapNames, List.length_map]

theorem Operand.eq_of_mapNames {o o' : Operand} (hframe : o.mapNames f = o'.mapNames f)
    (hnames : o.names = o'.names) : o = o' := by
  cases o with
  | definition d =>
    cases o' with
    | definition d' =>
      exact congrArg definition (Definition.eq_of_mapNames (definition.inj hframe) hnames)
    | expr _ => cases hframe
  | expr e =>
    cases o' with
    | definition _ => cases hframe
    | expr e' => exact congrArg expr (Expr.eq_of_mapNames (expr.inj hframe) hnames)

theorem WithExpr.length_identifiers_eq {w w' : WithExpr} (hframe : w.mapNames f = w'.mapNames f) :
    w.identifiers.length = w'.identifiers.length := by
  rw [← List.length_map f, ← identifiers_mapNames, hframe, identifiers_mapNames, List.length_map]

/-- Parts that may be missing, from what is so for each of them. -/
theorem eq_of_map_mapNames {α : Type} {change : α → α} {list : α → List Identifier}
    (heq : ∀ {a a' : α}, change a = change a' → list a = list a' → a = a') {o o' : Option α}
    (hframe : o.map change = o'.map change)
    (hnames : (o.map list).getD [] = (o'.map list).getD []) : o = o' := by
  cases o with
  | none => exact (Option.map_eq_none_iff.1 hframe.symm).symm
  | some a =>
    cases o' with
    | none => cases hframe
    | some a' => exact congrArg some (heq (Option.some.inj hframe) hnames)

theorem WithExpr.eq_of_mapNames {w w' : WithExpr} (hframe : w.mapNames f = w'.mapNames f)
    (hnames : w.identifiers = w'.identifiers) : w = w' := by
  obtain ⟨hleft, hright⟩ := mk.inj hframe
  obtain ⟨hl, hr⟩ := List.append_inj hnames (Expr.length_identifiers_eq hleft)
  cases w with
  | mk left right =>
    obtain rfl : left = w'.left := Expr.eq_of_mapNames hleft hl
    obtain rfl : right = w'.right := eq_of_map_mapNames Expr.eq_of_mapNames hright hr
    rfl

/-- A statement is its names in their frame. -/
theorem Statement.eq_of_mapNames {s s' : Statement} (hframe : s.mapNames f = s'.mapNames f)
    (hnames : s.names = s'.names) : s = s' := by
  cases s with
  | relation left kind right =>
    cases s' with
    | relation left' kind' right' =>
      obtain ⟨hleft, rfl, hright⟩ := relation.inj hframe
      obtain ⟨hl, hr⟩ := List.append_inj hnames (Operand.length_names_eq hleft)
      rw [Operand.eq_of_mapNames hleft hl, Expr.eq_of_mapNames hright hr]
    | _ => cases hframe
  | cover left middle right =>
    cases s' with
    | cover left' middle' right' =>
      obtain ⟨hleft, hmiddle, hright⟩ := cover.inj hframe
      simp only [names, List.append_assoc] at hnames
      obtain ⟨hl, hmr⟩ := List.append_inj hnames (Operand.length_names_eq hleft)
      obtain ⟨hm, hr⟩ := List.append_inj hmr (Expr.length_identifiers_eq hmiddle)
      rw [Operand.eq_of_mapNames hleft hl, Expr.eq_of_mapNames hmiddle hm,
        Expr.eq_of_mapNames hright hr]
    | _ => cases hframe
  | represents view data shape =>
    cases s' with
    | represents view' data' shape' =>
      obtain ⟨hview, hdata, hshape⟩ := represents.inj hframe
      simp only [names, List.append_assoc] at hnames
      obtain ⟨hv, hds⟩ := List.append_inj hnames (Operand.length_names_eq hview)
      obtain ⟨hd, hs⟩ := List.append_inj hds (WithExpr.length_identifiers_eq hdata)
      rw [Operand.eq_of_mapNames hview hv, WithExpr.eq_of_mapNames hdata hd,
        eq_of_map_mapNames WithExpr.eq_of_mapNames hshape hs]
    | _ => cases hframe
  | template header body =>
    cases s' with
    | template header' body' => exact hframe
    | _ => cases hframe
  | definition d =>
    cases s' with
    | definition d' =>
      exact congrArg definition (Definition.eq_of_mapNames (definition.inj hframe) hnames)
    | _ => cases hframe
  | term e =>
    cases s' with
    | term e' => exact congrArg term (Expr.eq_of_mapNames (term.inj hframe) hnames)
    | _ => cases hframe

end

/-! ## Places in changed statements -/

section

variable {f : Identifier → Identifier} (hf : ∀ id, (f id).span = id.span)

include hf

theorem spans_map (ids : List Identifier) :
    (ids.map f).map Identifier.span = ids.map Identifier.span := by
  rw [List.map_map]
  exact List.map_congr_left fun id _ => hf id

theorem Expr.spans_mapNames (e : Expr) :
    (e.mapNames f).identifiers.map Identifier.span = e.identifiers.map Identifier.span := by
  rw [identifiers_mapNames, spans_map hf]

theorem WithExpr.spans_mapNames (w : WithExpr) :
    (w.mapNames f).identifiers.map Identifier.span = w.identifiers.map Identifier.span := by
  rw [identifiers_mapNames, spans_map hf]

theorem Definition.spans_mapNames (d : Definition) :
    (d.mapNames f).identifiers.map Identifier.span = d.identifiers.map Identifier.span := by
  have hdecorator (dec : Decorator) :
      (dec.mapNames f).identifiers.map Identifier.span = dec.identifiers.map Identifier.span := by
    cases dec with
    | tag _ => rfl
    | call template args => exact congrArg (template.span :: ·) (spans_map hf args)
  simp only [identifiers, mapNames, List.map_append, List.flatMap_map, List.map_flatMap, hdecorator,
    List.map_singleton, hf]

theorem Operand.spans_mapNames (o : Operand) :
    (o.mapNames f).identifiers.map Identifier.span = o.identifiers.map Identifier.span := by
  cases o with
  | definition d => exact d.spans_mapNames hf
  | expr e => exact e.spans_mapNames hf

theorem Statement.spans_mapNames (s : Statement) :
    (s.mapNames f).identifiers.map Identifier.span = s.identifiers.map Identifier.span := by
  cases s with
  | relation left kind right =>
    simp only [mapNames, identifiers, List.map_append, left.spans_mapNames hf,
      right.spans_mapNames hf]
  | cover left middle right =>
    simp only [mapNames, identifiers, List.map_append, left.spans_mapNames hf,
      middle.spans_mapNames hf, right.spans_mapNames hf]
  | represents view data shape =>
    have hshape : ((shape.map (WithExpr.mapNames f)).map WithExpr.identifiers |>.getD []).map
        Identifier.span = ((shape.map WithExpr.identifiers).getD []).map Identifier.span := by
      cases shape with
      | none => rfl
      | some w => exact w.spans_mapNames hf
    simp only [mapNames, identifiers, List.map_append, view.spans_mapNames hf,
      data.spans_mapNames hf, hshape]
  | template header body => rfl
  | definition d => exact d.spans_mapNames hf
  | term e => exact e.spans_mapNames hf

end

/-! ## Renamings -/

namespace Renaming

variable (r r' : Renaming) (s : Statement)

/-- What a renaming gives to a name. A name that it does not bind stays. -/
def target (name : String) : String := (r.find? name).getD name

/-- The renaming that does what two do, one after the other. -/
def followedBy : Renaming := r.entries.foldr (fun e q => q.bind e.1 (r'.target e.2)) r'

/-- What the first renaming binds is given what the second gives to that name; what only the
second binds is given what it gives. -/
theorem find?_followedBy (name : String) : (r.followedBy r').find? name =
    match r.find? name with
    | some given => some (r'.target given)
    | none => r'.find? name := by
  obtain ⟨entries⟩ := r
  rw [followedBy]
  induction entries with
  | nil => rfl
  | cons e entries ih =>
    obtain ⟨bound, given⟩ := e
    rw [List.foldr_cons]
    by_cases hname : name = bound
    · subst hname
      rw [find?_bind_self, find?, List.lookup_cons_self]
    · have hlookup : find? ⟨(bound, given) :: entries⟩ name = find? ⟨entries⟩ name := by
        rw [find?, find?, List.lookup_cons, beq_eq_false_iff_ne.2 hname]
      rw [find?_bind_of_ne hname, ih, hlookup]

example : ["a", "b", "c", "d"].map (find? (followedBy ⟨[("a", "b"), ("b", "a")]⟩
    ⟨[("b", "c"), ("d", "a")]⟩)) = [some "c", some "a", none, some "a"] := by
  decide

theorem target_followedBy (name : String) :
    (r.followedBy r').target name = r'.target (r.target name) := by
  rw [target, find?_followedBy]
  cases hname : r.find? name <;> simp [target, hname]

theorem names_statement :
    (r.statement s).names = s.names.map fun id => id.renamed (r.target id.name) := by
  rw [statement_eq_mapNames, Statement.names_mapNames]
  exact List.map_congr_left fun id _ => r.identifier_eq id

theorem frame_statement : (r.statement s).frame = s.frame := by
  rw [statement_eq_mapNames, Statement.mapNames_congr fun id _ => r.identifier_eq id]
  exact s.frame_mapNames r.target

/-- A renamed statement has the other names, and the frame that it had. -/
theorem eq_statement_iff (s' : Statement) : s' = r.statement s ↔
    s'.names = s.names.map (fun id => id.renamed (r.target id.name)) ∧ s'.frame = s.frame := by
  rw [← r.names_statement s, ← r.frame_statement s]
  constructor
  · rintro rfl
    exact ⟨rfl, rfl⟩
  · rintro ⟨hnames, hframe⟩
    exact Statement.eq_of_mapNames hframe hnames

theorem statement_statement : r'.statement (r.statement s) = (r.followedBy r').statement s := by
  refine (eq_statement_iff _ _ _).2 ⟨?_, ?_⟩
  · rw [names_statement, names_statement, List.map_map]
    refine List.map_congr_left fun id _ => ?_
    rw [target_followedBy]
    rfl
  · rw [frame_statement, frame_statement]

theorem statement_of_empty : statement {} s = s := by
  refine ((eq_statement_iff _ _ _).2 ⟨?_, rfl⟩).symm
  exact (List.map_id'' (fun _ => rfl) s.names).symm

theorem decoratorIds_definition (d : Definition) :
    (r.definition d).decorators.map Decorator.id = d.decorators.map Decorator.id := by
  rw [definition, List.map_map]
  refine List.map_congr_left fun dec _ => ?_
  cases dec <;> rfl

theorem spans_statement :
    (r.statement s).identifiers.map Identifier.span = s.identifiers.map Identifier.span := by
  rw [statement_eq_mapNames]
  refine Statement.spans_mapNames (fun id => ?_) s
  rw [identifier_eq]
  rfl

/-- Renaming is simultaneous substitution. Two renamings of a statement are one, which gives
to each name what the second gives to what the first gives; none at all leave it as it is.
The definitions in a renamed statement are the renamed ones, shared where they were. The
renamed statement is the only one with the names substituted in the same frame, so that
keywords, operators, tags and the names of templates stay, as do whole templates declared
in a body and the place of every identifier. -/
theorem statement_substitutes :
    (∀ name, (r.followedBy r').find? name =
      match r.find? name with
      | some given => some ((r'.find? given).getD given)
      | none => r'.find? name) ∧
    r'.statement (r.statement s) = (r.followedBy r').statement s ∧
    statement {} s = s ∧
    (r.statement s).definitions = s.definitions.map r.definition ∧
    (r.statement s).definitions.map Definition.isShared = s.definitions.map Definition.isShared ∧
    (∀ s', s' = r.statement s ↔
      s'.names = s.names.map (fun id => id.renamed ((r.find? id.name).getD id.name)) ∧
        s'.frame = s.frame) ∧
    (r.statement s).identifiers.map Identifier.span = s.identifiers.map Identifier.span ∧
    (r.statement s).definitions.map (·.decorators.map Decorator.id) =
      s.definitions.map (·.decorators.map Decorator.id) ∧
    ∀ t : Template, r.statement t.toStatement = t.toStatement := by
  refine ⟨r.find?_followedBy r', r.statement_statement r' s, statement_of_empty s,
    r.definitions_statement s, ?_, r.eq_statement_iff s, r.spans_statement s, ?_, fun t => rfl⟩
  · rw [definitions_statement, List.map_map]
    exact List.map_congr_left fun d _ => r.isShared_definition d
  · rw [definitions_statement, List.map_map]
    exact List.map_congr_left fun d _ => r.decoratorIds_definition d

end Renaming

end InterfaceSchema
