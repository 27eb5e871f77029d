import InterfaceSchema.Proofs.Expansion.Instances
import InterfaceSchema.Proofs.Names

/-!
# Resolution of names

Under which name a body compiles each of its names. Of the definitions of a name
in the body up to a statement the last one counts there; a name without any
stands for the argument of the last parameter called so, and for itself if there
is none. `Template.resolve` is this rule, and every statement of an expansion is
compiled with its names resolved, once and at one time
(`Compilation.expand_eq_resolve`).
-/

namespace InterfaceSchema

namespace Template

/-- The last definition of the name in the body up to the `k`-th statement. -/
def lastDefinition? (t : Template) (k : Nat) (name : String) : Option Definition :=
  ((t.body.take (k + 1)).flatMap Statement.definitions).reverse.find? (·.id.name == name)

/-- The argument for the last parameter of the name. -/
def argumentFor? (t : Template) (args : Option (List Identifier)) (name : String) :
    Option Identifier :=
  ((t.params.zip (args.getD [])).reverse.find? (·.1.name == name)).map Prod.snd

/-- What a name in the `k`-th statement of the body stands for. -/
def resolve (t : Template) (args : Option (List Identifier)) (inst : String) (k : Nat)
    (name : String) : String :=
  match t.lastDefinition? k name with
  | some d => qualify (if d.isShared then t.name else inst) name
  | none =>
    match t.argumentFor? args name with
    | some arg => arg.name
    | none => name

/-- The `k`-th statement of the body with its names resolved. -/
def resolved (t : Template) (args : Option (List Identifier)) (inst : String) (k : Nat)
    (s : Statement) : Statement :=
  s.mapNames fun id => id.renamed (t.resolve args inst k id.name)

end Template

theorem Renaming.find?_foldl_bind {α : Type} (key value : α → String) (xs : List α) (r : Renaming)
    (name : String) : (xs.foldl (fun r x => r.bind (key x) (value x)) r).find? name =
      ((xs.reverse.find? (key · == name)).map value).or (r.find? name) := by
  induction xs generalizing r with
  | nil => rfl
  | cons x xs ih =>
    rw [List.foldl_cons, ih, List.reverse_cons, List.find?_append]
    cases xs.reverse.find? (key · == name) with
    | some y => rfl
    | none =>
      by_cases hx : key x = name
      · subst hx
        simp [find?_bind_self]
      · simp [hx, find?_bind_of_ne (Ne.symm hx)]

theorem Renaming.foldl_bindMembers (template inst : String) (r : Renaming) (ss : List Statement) :
    ss.foldl (Renaming.bindMembers template inst) r =
      (ss.flatMap Statement.definitions).foldl
        (fun r d => r.bind d.id.name (d.memberName template inst)) r := by
  rw [List.foldl_flatMap]
  rfl

namespace Template

variable {t : Template} {site : Identifier} {args : Option (List Identifier)} {r : Renaming}

theorem find?_of_bindArguments (h : t.bindArguments site args = .ok r) (name : String) :
    r.find? name = (t.argumentFor? args name).map Identifier.name := by
  cases args with
  | none =>
    cases h
    rw [argumentFor?, Option.getD_none, List.zip_nil_right]
    rfl
  | some args =>
    simp only [bindArguments] at h
    split at h
    · cases h
      have hfind := Renaming.find?_foldl_bind (fun pair : Identifier × Identifier => pair.1.name)
        (·.2.name) (t.params.zip args) {} name
      rw [argumentFor?, Option.map_map]
      exact hfind.trans (Option.or_none ..)
    · cases h

/-- The `k`-th statement is renamed with the members defined up to it, and with
the parameters. -/
theorem find?_bindMembers (h : t.bindArguments site args = .ok r) (inst : String) {k : Nat}
    {s : Statement} (hs : t.body[k]? = some s) (name : String) :
    ((((t.body.take k).foldl (Renaming.bindMembers t.name inst) r).bindMembers t.name inst s).find?
      name).getD name = t.resolve args inst k name := by
  have hfold : ((t.body.take k).foldl (Renaming.bindMembers t.name inst) r).bindMembers t.name inst s =
      (t.body.take (k + 1)).foldl (Renaming.bindMembers t.name inst) r := by
    rw [List.take_add_one, hs, List.foldl_append]
    rfl
  rw [hfold, Renaming.foldl_bindMembers,
    Renaming.find?_foldl_bind (fun d : Definition => d.id.name) _, find?_of_bindArguments h, resolve,
    lastDefinition?]
  split
  · rename_i d hd
    have hname : d.id.name = name := by simpa using List.find?_some hd
    rw [hd, Option.map_some, Option.some_or, Option.getD_some, Definition.memberName, hname]
  · rename_i hnone
    rw [hnone, Option.map_none, Option.none_or]
    cases t.argumentFor? args name <;> rfl

/-- The body for an instance has the statements of the body, resolved. -/
theorem getElem?_instantiate (h : t.bindArguments site args = .ok r) (inst : String) (k : Nat) :
    (t.instantiate r inst)[k]? = t.body[k]?.map (t.resolved args inst k) := by
  rw [instantiate, Renaming.getElem?_body]
  cases hs : t.body[k]? with
  | none => rfl
  | some s =>
    rw [Option.map_some, Option.map_some, Renaming.statement_eq_mapNames]
    refine congrArg _ (Statement.mapNames_congr fun id _ => ?_)
    rw [Renaming.identifier_eq, find?_bindMembers h inst hs]

theorem length_instantiate (t : Template) (r : Renaming) (inst : String) :
    (t.instantiate r inst).length = t.body.length := by
  unfold instantiate
  generalize t.body = ss
  induction ss generalizing r with
  | nil => rfl
  | cons s ss ih => rw [Renaming.body, List.length_cons, List.length_cons, ih]

end Template

/-! ## Expansions -/

/-- An expansion compiles the statements of its template's body, in their order.
Each name in the `k`-th of them is compiled under the name that it stands for
there and keeps its place; all else, such as tags, the names of called templates
and templates declared in the body, is compiled as it stands. -/
theorem Compilation.expand_eq_resolve {c : Compilation} {scopes : Scopes} {site : Identifier}
    {args : Option (List Identifier)} {t : Template} {r : Renaming}
    (ho : c.Opens scopes site args t r) (inst : String) :
    c.expand scopes site args inst = (do
      let es ← (t.instantiate r inst).mapM (c.emitMember (c.inside scopes t inst) inst)
      return .fact (.applyInstance t.name inst) :: es.flatten) ∧
    (t.instantiate r inst).length = t.body.length ∧
    ∀ (k : Nat) (s : Statement), t.body[k]? = some s → ∃ s', (t.instantiate r inst)[k]? = some s' ∧
      s'.names = s.names.map (fun id => id.renamed (t.resolve args inst k id.name)) ∧
      s'.frame = s.frame := by
  refine ⟨?_, t.length_instantiate r inst, fun k s hs => ⟨t.resolved args inst k s, ?_, ?_, ?_⟩⟩
  · rw [expand_of_closed ho.found ho.closed, ho.bound]
    rfl
  · rw [Template.getElem?_instantiate ho.bound, hs, Option.map_some]
  · exact s.names_mapNames _
  · exact s.frame_mapNames _

/-- A template in which names shadow one another: a parameter is given twice and
then defined, and a member that is defined twice is called as an argument is. -/
def shadowing : Template :=
  ⟨⟨⟨"T", {}⟩, some [⟨"a", {}⟩, ⟨"b", {}⟩, ⟨"a", {}⟩], none⟩,
    [.relation (.expr (.name ⟨"a", {}⟩)) .mapTo (.name ⟨"x", {}⟩),
      .definition (.ofTags ["many"] "x"),
      .relation (.expr (.name ⟨"x", {}⟩)) .structures (.name ⟨"b", {}⟩),
      .definition (.ofTags ["shared", "many"] "x"),
      .definition ⟨[.call ⟨"a", {}⟩ [⟨"x", {}⟩, ⟨"a", {}⟩]], ⟨"a", {}⟩⟩,
      .template ⟨⟨"b", {}⟩, none, none⟩ [.term (.name ⟨"a", {}⟩)]]⟩

def shadowingArguments : List Identifier := [⟨"b", {}⟩, ⟨"x", {}⟩, ⟨"T", {}⟩]

example : (["a", "b", "x"].map fun name => (List.range 5).map fun k =>
    shadowing.resolve (some shadowingArguments) "i" k name) =
    [["T", "T", "T", "T", "__i__a"], ["x", "x", "x", "x", "x"],
      ["x", "__i__x", "__i__x", "__T__x", "__T__x"]] := by
  decide +kernel

/-- The template that the call in `shadowing` expands. -/
def shadowed : Template :=
  ⟨⟨⟨"a", {}⟩, some [⟨"p", {}⟩, ⟨"q", {}⟩], none⟩,
    [.relation (.expr (.name ⟨"p", {}⟩)) .mapTo (.name ⟨"q", {}⟩)]⟩

theorem expand_eq_resolve_shadowing :
    let c : Compilation := ⟨{}, ⟨[shadowing, shadowed]⟩⟩
    let r : Renaming := .ofArguments shadowing.params shadowingArguments
    c.Opens [] ⟨"T", {}⟩ (some shadowingArguments) shadowing r ∧
      (c.expand [] ⟨"T", {}⟩ (some shadowingArguments) "i").isOk = true ∧
      c.expand [] ⟨"T", {}⟩ (some shadowingArguments) "i" = (do
        let es ← (shadowing.instantiate r "i").mapM (c.emitMember (c.inside [] shadowing "i") "i")
        return .fact (.applyInstance "T" "i") :: es.flatten) ∧
      (shadowing.instantiate r "i").length = 6 ∧
      ∀ (k : Nat) (s : Statement), shadowing.body[k]? = some s →
        ∃ s', (shadowing.instantiate r "i")[k]? = some s' ∧
          s'.names = s.names.map (fun id =>
            id.renamed (shadowing.resolve (some shadowingArguments) "i" k id.name)) ∧
          s'.frame = s.frame := by
  intro c r
  have hopens : c.Opens [] ⟨"T", {}⟩ (some shadowingArguments) shadowing r := ⟨rfl, rfl, rfl⟩
  have hok : (c.expand [] ⟨"T", {}⟩ (some shadowingArguments) "i").isOk = true := by
    decide +kernel
  exact ⟨hopens, hok, Compilation.expand_eq_resolve hopens "i"⟩

end InterfaceSchema
