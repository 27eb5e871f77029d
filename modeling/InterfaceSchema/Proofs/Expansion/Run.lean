import InterfaceSchema.Proofs.Expansion.Traversal
import InterfaceSchema.Proofs.Registration
import InterfaceSchema.Template.Expansion

/-!
# Runs of the expansion

`Compilation.Reaches` says which expansions a run comes to: those that the
definitions of its statements ask for, and those that the bodies of the
templates expanded there ask for. `Compilation.Opens` is the condition under
which an expansion gets to the body of its template. A statement brings what the
definitions that it compiles bring and then its own facts (`emitStatement_eq`), and a
run succeeds exactly if every definition that it compiles has a decorator and every
expansion that it comes to succeeds (`isOk_emitStatement_iff`, `isOk_expand_iff`).
-/

namespace InterfaceSchema

/-- Collectors of emissions differ in how they fail and in what they tell. -/
theorem Collector.simulates_emitting {m m' : Type → Type} [Monad m] [Monad m'] {L : Lifting m m'}
    {lift : {β : Type} → Except SemanticError β → m β}
    {lift' : {β : Type} → Except SemanticError β → m' β} {tell : List LogEvent → m Unit}
    {tell' : List LogEvent → m' Unit}
    (hundecorated : ∀ id, L.Rel (@Eq (List Emission)) (lift (.error (.emptyDefinition id)))
      (lift' (.error (.emptyDefinition id))))
    (htell : ∀ es, L.Rel Eq (tell es) (tell' es)) :
    (Collector.emitting lift tell).Simulates L Eq (Collector.emitting lift' tell') where
  undecorated := hundecorated
  tell := htell
  nil := rfl
  append h h' := by rw [h, h']
  fact _ := rfl
  lowered _ _ _ h := h
  member _ _ _ _ h := L.bind h fun _ _ heq => L.pure (by rw [heq])
  expanded _ _ _ _ h := congrArg (_ :: ·) h

namespace Compilation

variable {c : Compilation} {expand : Expander} {scopes : Scopes} {site : Identifier}
  {args : Option (List Identifier)} {inst : String} {ss : List Statement}

theorem emitDefinition_eq (c : Compilation) (expand : Expander) (d : Definition) :
    c.emitDefinition expand d =
      if d.decorators.isEmpty then .error (.emptyDefinition d.id)
      else List.flatten <$> (c.roles d).mapM (emitRole expand d.id.name) := rfl

/-- A statement brings what the definitions that it compiles bring, and then its own
facts. -/
theorem emitStatement_eq (c : Compilation) (expand : Expander) (s : Statement) :
    c.emitStatement expand s = (fun ess => ess.flatten ++ s.ownFacts.map Emission.fact) <$>
      s.compiled.mapM (c.emitDefinition expand) :=
  Collector.statement_eq (fun _ => rfl) s

theorem emitMember_eq (c : Compilation) (expand : Expander) (inst : String) (s : Statement) :
    c.emitMember expand inst s = (do
      let es ← c.emitStatement expand s
      return (if s.isShared then [.once es] else es) ++ Emission.links inst s) := rfl

theorem isOk_emitRole_iff {name : String} {role : Role} :
    (emitRole expand name role).isOk = true ↔
      ∀ site args, role = .expand site args → (expand site args name).isOk = true := by
  cases role with
  | expand site args => exact ⟨fun h site args heq => by cases heq; exact h, fun h => h site args rfl⟩
  | _ => exact ⟨fun _ _ _ => nofun, fun _ => rfl⟩

theorem emitDefinition_eq_ok_iff {d : Definition} {es : List Emission} :
    c.emitDefinition expand d = .ok es ↔ d.decorators ≠ [] ∧
      ∃ ess, (c.roles d).mapM (emitRole expand d.id.name) = .ok ess ∧ ess.flatten = es := by
  rw [emitDefinition_eq]
  split
  · rename_i h
    simp [List.isEmpty_iff.1 h]
  · rename_i h
    rw [map_eq_ok_iff, and_iff_right (by simpa using h)]

theorem isOk_emitDefinition_iff {d : Definition} :
    (c.emitDefinition expand d).isOk = true ↔ d.decorators ≠ [] ∧
      ∀ site args, .expand site args ∈ c.roles d → (expand site args d.id.name).isOk = true := by
  rw [emitDefinition_eq]
  split
  · rename_i h
    simp [List.isEmpty_iff.1 h, Except.isOk, Except.toBool]
  · rename_i h
    rw [isOk_map, isOk_mapM_iff]
    simp only [isOk_emitRole_iff]
    constructor
    · exact fun hall => ⟨by simpa using h, fun site args hr => hall _ hr site args rfl⟩
    · rintro ⟨_, hall⟩ role hr site args rfl
      exact hall site args hr

theorem isOk_emitStatement_iff {s : Statement} :
    (c.emitStatement expand s).isOk = true ↔
      ∀ d ∈ s.compiled, (c.emitDefinition expand d).isOk = true := by
  rw [emitStatement_eq, isOk_map, isOk_mapM_iff]

theorem isOk_emitMember_iff (inst : String) {s : Statement} :
    (c.emitMember expand inst s).isOk = true ↔ (c.emitStatement expand s).isOk = true := by
  rw [emitMember_eq, isOk_bind_iff, isOk_iff_exists]
  exact ⟨fun ⟨es, h, _⟩ => ⟨es, h⟩, fun ⟨es, h⟩ => ⟨es, h, rfl⟩⟩

/-! ## Expansions and programs -/

/-- The expansion at `site` gets to the body of `t`, whose parameters `r`
renames. -/
structure Opens (c : Compilation) (scopes : Scopes) (site : Identifier)
    (args : Option (List Identifier)) (t : Template) (r : Renaming) : Prop where
  found : c.registry.find? site.name = some t
  closed : scopes.isExpanding t.name = false
  bound : t.bindArguments site args = .ok r

/-- The expander of the body of `t`. -/
def inside (c : Compilation) (scopes : Scopes) (t : Template) (inst : String) : Expander :=
  c.expand (scopes.push ⟨t.name, inst⟩)

theorem expand_of_undeclared (h : c.registry.find? site.name = none) :
    c.expand scopes site args inst = .error (.undeclaredTemplate site) :=
  Collector.expand_of_undeclared h

theorem expand_of_isExpanding {t : Template} (h : c.registry.find? site.name = some t)
    (hs : scopes.isExpanding t.name = true) : c.expand scopes site args inst =
      .error (.recursiveTemplate t.name (scopes.chain t.name)) :=
  Collector.expand_of_isExpanding h hs

theorem expand_of_closed {t : Template} (h : c.registry.find? site.name = some t)
    (hs : scopes.isExpanding t.name = false) : c.expand scopes site args inst = (do
      let r ← t.bindArguments site args
      let es ← (t.instantiate r inst).mapM (c.emitMember (c.inside scopes t inst) inst)
      return .fact (.applyInstance t.name inst) :: es.flatten) := by
  rw [expand, Collector.expand_of_closed h hs]
  exact bind_congr fun r => Collector.template_eq (fun _ => rfl) r

theorem expand_eq_ok_iff {es : List Emission} :
    c.expand scopes site args inst = .ok es ↔ ∃ t r ess, c.Opens scopes site args t r ∧
      (t.instantiate r inst).mapM (c.emitMember (c.inside scopes t inst) inst) = .ok ess ∧
      es = .fact (.applyInstance t.name inst) :: ess.flatten := by
  constructor
  · intro h
    cases hfound : c.registry.find? site.name with
    | none =>
      rw [expand_of_undeclared hfound] at h
      cases h
    | some t =>
      cases hs : scopes.isExpanding t.name with
      | true =>
        rw [expand_of_isExpanding hfound hs] at h
        cases h
      | false =>
        rw [expand_of_closed hfound hs] at h
        obtain ⟨r, hr, h⟩ := bind_eq_ok_iff.1 h
        obtain ⟨ess, hess, h⟩ := bind_eq_ok_iff.1 h
        cases h
        exact ⟨t, r, ess, ⟨hfound, hs, hr⟩, hess, rfl⟩
  · rintro ⟨t, r, ess, ho, hess, rfl⟩
    rw [expand_of_closed ho.found ho.closed]
    exact bind_eq_ok_iff.2 ⟨r, ho.bound, bind_eq_ok_iff.2 ⟨ess, hess, rfl⟩⟩

theorem isOk_expand_iff :
    (c.expand scopes site args inst).isOk = true ↔ ∃ t r, c.Opens scopes site args t r ∧
      ∀ s ∈ t.instantiate r inst,
        (c.emitStatement (c.inside scopes t inst) s).isOk = true := by
  simp only [isOk_iff_exists (x := c.expand scopes site args inst), expand_eq_ok_iff]
  constructor
  · rintro ⟨_, t, r, ess, ho, hess, rfl⟩
    refine ⟨t, r, ho, fun s hs => (isOk_emitMember_iff inst).1 ?_⟩
    exact isOk_mapM_iff.1 (isOk_iff_exists.2 ⟨ess, hess⟩) s hs
  · rintro ⟨t, r, ho, hall⟩
    obtain ⟨ess, hess⟩ := isOk_iff_exists.1
      (isOk_mapM_iff.2 fun s hs => (isOk_emitMember_iff inst).2 (hall s hs))
    exact ⟨_, t, r, ess, ho, hess, rfl⟩

theorem emissions_eq (c : Compilation) (ss : List Statement) :
    c.emissions ss = List.flatten <$> ss.mapM (c.emitStatement (c.expand [])) := rfl

theorem emissions_eq_ok_iff {es : List Emission} : c.emissions ss = .ok es ↔
    ∃ ess, ss.mapM (c.emitStatement (c.expand [])) = .ok ess ∧ ess.flatten = es := by
  rw [emissions_eq, map_eq_ok_iff]

theorem isOk_emissions_iff :
    (c.emissions ss).isOk = true ↔
      ∀ s ∈ ss, (c.emitStatement (c.expand []) s).isOk = true := by
  rw [emissions_eq, isOk_map, isOk_mapM_iff]

/-- Compiling `ss` comes to the expansion of the template named at `site` for
`inst`, while the frames on the scopes are being expanded. -/
inductive Reaches (c : Compilation) (ss : List Statement) :
    Scopes → Identifier → Option (List Identifier) → String → Prop where
  | top {s : Statement} {d : Definition} {site : Identifier} {args : Option (List Identifier)} :
    s ∈ ss → d ∈ s.compiled → .expand site args ∈ c.roles d → Reaches c ss [] site args d.id.name
  | body {scopes : Scopes} {site site' : Identifier} {args args' : Option (List Identifier)}
      {inst : String} {t : Template} {r : Renaming} {s : Statement} {d : Definition} :
    Reaches c ss scopes site args inst → c.Opens scopes site args t r →
    s ∈ t.instantiate r inst → d ∈ s.compiled → .expand site' args' ∈ c.roles d →
    Reaches c ss (scopes.push ⟨t.name, inst⟩) site' args' d.id.name

theorem Opens.unique {t u : Template} {r r' : Renaming} (h : c.Opens scopes site args t r)
    (h' : c.Opens scopes site args u r') : t = u ∧ r = r' := by
  obtain rfl : t = u := Option.some.inj (h.found.symm.trans h'.found)
  exact ⟨rfl, Except.ok.inj (h.bound.symm.trans h'.bound)⟩

end Compilation

/-- The compilation of a program in which names of templates are distinct. -/
def Program.compilation (options : Options) (p : Program) : Compilation :=
  ⟨options, ⟨Statement.declarationsIn p.statements⟩⟩

theorem Program.emissions_eq (options : Options) (p : Program) :
    p.emissions options = (do
      let registry ← Registry.ofStatements p.statements
      Compilation.emissions ⟨options, registry⟩ p.statements) := rfl

theorem Program.emissions_eq_ok_iff {options : Options} {p : Program} {es : List Emission} :
    p.emissions options = .ok es ↔
      ((Statement.declarationsIn p.statements).map Template.name).Nodup ∧
        (p.compilation options).emissions p.statements = .ok es := by
  rw [emissions_eq, bind_eq_ok_iff]
  simp only [Registry.ofStatements_eq_ok_iff]
  constructor
  · rintro ⟨_, ⟨rfl, hdistinct⟩, h⟩
    exact ⟨hdistinct, h⟩
  · rintro ⟨hdistinct, h⟩
    exact ⟨_, ⟨rfl, hdistinct⟩, h⟩

/-- Without facts a name of a template is taken, or the names are distinct and the
run fails. -/
theorem Program.facts_eq_error_iff {options : Options} {p : Program} {e : SemanticError} :
    p.facts options = .error e ↔ Registry.ofStatements p.statements = .error e ∨
      ((Statement.declarationsIn p.statements).map Template.name).Nodup ∧
        (p.compilation options).emissions p.statements = .error e := by
  rw [facts, map_eq_error_iff, emissions_eq, bind_eq_error_iff]
  simp only [Registry.ofStatements_eq_ok_iff]
  refine or_congr_right ⟨?_, fun ⟨hdistinct, h⟩ => ⟨_, ⟨rfl, hdistinct⟩, h⟩⟩
  rintro ⟨_, ⟨rfl, hdistinct⟩, h⟩
  exact ⟨hdistinct, h⟩

theorem Program.facts_of_distinct {options : Options} {p : Program}
    (h : ((Statement.declarationsIn p.statements).map Template.name).Nodup) :
    p.facts options = Emission.facts <$> (p.compilation options).emissions p.statements := by
  have hregistry : Registry.ofStatements p.statements =
      .ok ⟨Statement.declarationsIn p.statements⟩ := Registry.ofStatements_eq_ok_iff.2 ⟨rfl, h⟩
  rw [facts, emissions_eq, hregistry]
  rfl

theorem Program.facts_of_not_distinct {p : Program} (options : Options)
    (h : ¬((Statement.declarationsIn p.statements).map Template.name).Nodup) :
    ∃ site, Registry.ofStatements p.statements = .error (.duplicateTemplate site) ∧
      p.facts options = .error (.duplicateTemplate site) := by
  cases hregistry : Registry.ofStatements p.statements with
  | ok r => exact absurd (Registry.ofStatements_eq_ok_iff.1 hregistry).2 h
  | error e =>
    obtain ⟨site, rfl⟩ := Registry.exists_duplicate hregistry
    exact ⟨site, rfl, facts_eq_error_iff.2 (.inl hregistry)⟩

end InterfaceSchema
