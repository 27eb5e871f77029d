import InterfaceSchema.Proofs.Expansion.Run

/-!
# Compilations that agree

An expansion looks at a registry for the statements that it compiles, and not at
the templates declared among them: these are its `Compilation.contents`. Two
compilations `Agree` on definitions if they give them the same roles and the same
contents, and come to no other definitions there. They then compile them alike
(`Compilation.Agrees.emissions_eq_of_filter`). Registries that declare the same templates,
but for those declared inside (`Template.pruned`), agree on everything
(`Compilation.agrees_of_find?`).
-/

namespace InterfaceSchema

/-- The statement declares no template. -/
def Statement.isPlain (s : Statement) : Bool := s.template?.isNone

/-- The template without those declared in its body. -/
def Template.pruned (t : Template) : Template := ⟨t.header, t.body.filter Statement.isPlain⟩

theorem Renaming.isPlain_statement (r : Renaming) (s : Statement) :
    (r.statement s).isPlain = s.isPlain := by
  cases s <;> rfl

theorem Renaming.filter_isPlain_body (template inst : String) (r : Renaming)
    (ss : List Statement) : (r.body template inst ss).filter Statement.isPlain =
      r.body template inst (ss.filter Statement.isPlain) := by
  induction ss generalizing r with
  | nil => rfl
  | cons s ss ih =>
    rw [body, List.filter_cons, List.filter_cons, isPlain_statement, ih]
    cases s with
    | template header inner => rfl
    | _ => rfl

/-- The statements of an instance are those of the template as it is pruned. -/
theorem Template.filter_isPlain_instantiate (t : Template) (r : Renaming) (inst : String) :
    (t.instantiate r inst).filter Statement.isPlain = t.pruned.instantiate r inst :=
  r.filter_isPlain_body t.name inst t.body

namespace Compilation

variable {c c' : Compilation} {expand expand' : Expander} {scopes : Scopes} {site : Identifier}
  {args : Option (List Identifier)} {inst : String} {d : Definition} {s : Statement}

/-- The statements of the template named at a site, for an instance. -/
def contents (c : Compilation) (site : Identifier) (args : Option (List Identifier))
    (inst : String) : Except SemanticError (List Statement) :=
  match c.registry.find? site.name with
  | none => .error (.undeclaredTemplate site)
  | some t => (fun r => (t.instantiate r inst).filter Statement.isPlain) <$> t.bindArguments site args

theorem contents_of_undeclared (h : c.registry.find? site.name = none) :
    c.contents site args inst = .error (.undeclaredTemplate site) := by
  rw [contents, h]

theorem contents_of_declared {t : Template} (h : c.registry.find? site.name = some t) :
    c.contents site args inst =
      (fun r => (t.instantiate r inst).filter Statement.isPlain) <$> t.bindArguments site args := by
  rw [contents, h]

theorem contents_eq_of_pruned
    (h : (c'.registry.find? site.name).map Template.pruned =
      (c.registry.find? site.name).map Template.pruned) :
    c'.contents site args inst = c.contents site args inst := by
  have hcontents (c : Compilation) : c.contents site args inst =
      match (c.registry.find? site.name).map Template.pruned with
      | none => .error (.undeclaredTemplate site)
      | some t => (fun r => t.instantiate r inst) <$> t.bindArguments site args := by
    rw [contents]
    cases c.registry.find? site.name with
    | none => rfl
    | some t => simp only [Template.filter_isPlain_instantiate]; rfl
  rw [hcontents, hcontents, h]

theorem bindArguments_ne_undeclared (t : Template) (site site' : Identifier)
    (args : Option (List Identifier)) : t.bindArguments site args ≠ .error (.undeclaredTemplate site') := by
  intro h
  cases args with
  | none => cases h
  | some args =>
    simp only [Template.bindArguments] at h
    split at h <;> cases h

theorem contents_eq_undeclared_iff : c.contents site args inst = .error (.undeclaredTemplate site) ↔
    c.registry.find? site.name = none := by
  refine ⟨fun h => ?_, contents_of_undeclared⟩
  cases hfound : c.registry.find? site.name with
  | none => rfl
  | some t =>
    rw [contents_of_declared hfound] at h
    cases hbound : t.bindArguments site args with
    | ok r =>
      rw [hbound] at h
      cases h
    | error e =>
      rw [hbound] at h
      cases h
      exact absurd hbound (bindArguments_ne_undeclared t site site args)

/-- Templates declared in a body bring nothing. -/
theorem emitStatement_of_not_isPlain (c : Compilation) (expand : Expander)
    (h : s.isPlain = false) : c.emitStatement expand s = .ok [] := by
  cases s with
  | template header body => rfl
  | _ => cases h

theorem emitMember_of_not_isPlain (c : Compilation) (expand : Expander) (inst : String)
    (h : s.isPlain = false) : c.emitMember expand inst s = .ok [] := by
  cases s with
  | template header body => rfl
  | _ => cases h

theorem expand_eq_contents (hs : scopes.isExpanding site.name = false) :
    c.expand scopes site args inst = (do
      let ss ← c.contents site args inst
      let es ← List.flatten <$> ss.mapM
        (c.emitMember (c.expand (scopes.push ⟨site.name, inst⟩)) inst)
      return .fact (.applyInstance site.name inst) :: es) := by
  cases hfound : c.registry.find? site.name with
  | none =>
    rw [expand_of_undeclared hfound, contents_of_undeclared hfound]
    rfl
  | some t =>
    have hname : t.name = site.name := Registry.name_of_find? hfound
    rw [expand_of_closed hfound (hname ▸ hs), contents_of_declared hfound, ← hname]
    cases t.bindArguments site args with
    | error e => rfl
    | ok r =>
      have hplain : List.flatten <$> ((t.instantiate r inst).filter Statement.isPlain).mapM
          (c.emitMember (c.inside scopes t inst) inst) =
          List.flatten <$> (t.instantiate r inst).mapM (c.emitMember (c.inside scopes t inst) inst) :=
        flatten_mapM_filter (fun _ => c.emitMember_of_not_isPlain _ inst) _
      show (do
        let ess ← (t.instantiate r inst).mapM (c.emitMember (c.inside scopes t inst) inst)
        return Emission.fact (.applyInstance t.name inst) :: ess.flatten) = (do
        let es ← List.flatten <$> ((t.instantiate r inst).filter Statement.isPlain).mapM
          (c.emitMember (c.inside scopes t inst) inst)
        return Emission.fact (.applyInstance t.name inst) :: es)
      rw [hplain]
      cases (t.instantiate r inst).mapM (c.emitMember (c.inside scopes t inst) inst) <;> rfl

theorem emissions_filter_isPlain (c : Compilation) (ss : List Statement) :
    c.emissions (ss.filter Statement.isPlain) = c.emissions ss :=
  flatten_mapM_filter (fun _ => c.emitStatement_of_not_isPlain (c.expand [])) ss

/-! ## Agreement -/

/-- On the definitions of `D` both compilations go by the same roles and find the
same contents for them, and these lead to definitions of `D` only. -/
structure Agrees (c c' : Compilation) (D : Definition → Prop) : Prop where
  roles : ∀ d, D d → c'.roles d = c.roles d
  contents : ∀ d site args inst, D d → .expand site args ∈ c.roles d →
    c'.contents site args inst = c.contents site args inst
  closed : ∀ d site args inst ss, D d → .expand site args ∈ c.roles d →
    c.contents site args inst = .ok ss → ∀ s ∈ ss, ∀ d' ∈ s.compiled, D d'

/-- Both expanders expand what the definition asks for alike. -/
def SameExpansions (c : Compilation) (expand expand' : Expander) (d : Definition) : Prop :=
  ∀ site args, .expand site args ∈ c.roles d → expand' site args d.id.name = expand site args d.id.name

/-- Roles depend on what the options and the registry say about the tags. -/
theorem roles_congr_tags
    (h : ∀ tag, .tag tag ∈ d.decorators →
      c'.options.isStructureTag tag.name = c.options.isStructureTag tag.name ∧
        (c'.registry.find? tag.name).isSome = (c.registry.find? tag.name).isSome) :
    c'.roles d = c.roles d := by
  have hrole (position : Nat) (dec : Decorator) (hdec : dec ∈ d.decorators) :
      c'.role position dec = c.role position dec := by
    cases dec with
    | tag tag => simp only [role, roleOfTag, h tag hdec]
    | call template args => rfl
  refine List.ext_getElem? fun position => ?_
  rw [roles, roles, List.getElem?_mapIdx, List.getElem?_mapIdx]
  cases hdec : (d.decorators.filter (!·.isTag sharedTag))[position]? with
  | none => rfl
  | some dec =>
    exact congrArg some (hrole position dec (List.mem_of_mem_filter (List.mem_of_getElem? hdec)))

/-- Under the same options it is enough that the same names have a template. -/
theorem roles_congr (hoptions : c'.options = c.options)
    (hfind : ∀ name, (c'.registry.find? name).isSome = (c.registry.find? name).isSome)
    (d : Definition) : c'.roles d = c.roles d :=
  roles_congr_tags fun tag _ => ⟨by rw [hoptions], hfind tag.name⟩

theorem emitDefinition_congr (hroles : c'.roles d = c.roles d)
    (h : c.SameExpansions expand expand' d) :
    c'.emitDefinition expand' d = c.emitDefinition expand d := by
  rw [emitDefinition_eq, emitDefinition_eq, hroles]
  congr 2
  refine mapM_congr fun role hrole => ?_
  cases role with
  | expand site args => exact h site args hrole
  | _ => rfl

theorem emitStatement_congr
    (h : ∀ d ∈ s.compiled, c'.roles d = c.roles d ∧ c.SameExpansions expand expand' d) :
    c'.emitStatement expand' s = c.emitStatement expand s := by
  rw [emitStatement_eq, emitStatement_eq]
  refine congrArg _ (mapM_congr fun d hd => ?_)
  obtain ⟨hroles, hexpand⟩ := h d hd
  exact emitDefinition_congr hroles hexpand

theorem emitMember_congr (inst : String)
    (h : ∀ d ∈ s.compiled, c'.roles d = c.roles d ∧ c.SameExpansions expand expand' d) :
    c'.emitMember expand' inst s = c.emitMember expand inst s := by
  rw [emitMember_eq, emitMember_eq, emitStatement_congr h]

namespace Agrees

variable {D : Definition → Prop} (h : c.Agrees c' D)

include h

/-- What a definition of `D` asks for is expanded alike. The induction is on the
templates not being expanded. -/
theorem sameExpansions (scopes : Scopes) (hd : D d) :
    c.SameExpansions (c.expand scopes) (c'.expand scopes) d := by
  induction hn : scopes.remaining c.registry using Nat.strongRecOn generalizing scopes d with
  | ind n ih =>
  intro site args hrole
  have hcontents := h.contents d site args d.id.name hd hrole
  cases hs : scopes.isExpanding site.name with
  | false =>
    rw [expand_eq_contents hs, expand_eq_contents hs, hcontents]
    refine bind_congr_ok fun ss hss => ?_
    obtain ⟨t, hfound⟩ : ∃ t, c.registry.find? site.name = some t := by
      rw [← Option.ne_none_iff_exists']
      intro hnone
      rw [contents_of_undeclared hnone] at hss
      cases hss
    have hname : t.name = site.name := Registry.name_of_find? hfound
    have hless : Scopes.remaining (scopes.push ⟨site.name, d.id.name⟩) c.registry < n := by
      rw [← hn, ← hname]
      exact Scopes.remaining_push_lt (Registry.mem_of_find? hfound) (hname ▸ hs) _
    have hmembers : ss.mapM (c'.emitMember (c'.expand (scopes.push ⟨site.name, d.id.name⟩)) d.id.name) =
        ss.mapM (c.emitMember (c.expand (scopes.push ⟨site.name, d.id.name⟩)) d.id.name) := by
      refine mapM_congr fun s hmem => emitMember_congr _ fun d' hd' => ?_
      have hd' : D d' := h.closed d site args d.id.name ss hd hrole hss s hmem d' hd'
      exact ⟨h.roles d' hd', ih _ hless _ hd' rfl⟩
    rw [hmembers]
  | true =>
    cases hfound : c.registry.find? site.name with
    | none =>
      have hfound' : c'.registry.find? site.name = none := by
        rw [← contents_eq_undeclared_iff, hcontents, contents_of_undeclared hfound]
      rw [expand_of_undeclared hfound, expand_of_undeclared hfound']
    | some t =>
      obtain ⟨t', hfound'⟩ : ∃ t', c'.registry.find? site.name = some t' := by
        rw [← Option.ne_none_iff_exists']
        intro hnone
        rw [← contents_eq_undeclared_iff, hcontents, contents_eq_undeclared_iff, hfound] at hnone
        cases hnone
      have hname : t.name = site.name := Registry.name_of_find? hfound
      have hname' : t'.name = site.name := Registry.name_of_find? hfound'
      rw [expand_of_isExpanding hfound (hname ▸ hs), expand_of_isExpanding hfound' (hname' ▸ hs),
        hname, hname']

theorem emissions_eq {ss : List Statement} (hss : ∀ s ∈ ss, ∀ d ∈ s.compiled, D d) :
    c'.emissions ss = c.emissions ss := by
  refine congrArg _ (mapM_congr fun s hs => emitStatement_congr fun d hd => ?_)
  have hd : D d := hss s hs d hd
  exact ⟨h.roles d hd, h.sameExpansions [] hd⟩

/-- Templates may be declared elsewhere among the statements. -/
theorem emissions_eq_of_filter {ss ss' : List Statement}
    (hplain : ss'.filter Statement.isPlain = ss.filter Statement.isPlain)
    (hss : ∀ s ∈ ss, ∀ d ∈ s.compiled, D d) : c'.emissions ss' = c.emissions ss := calc
  c'.emissions ss'
  _ = c'.emissions (ss.filter Statement.isPlain) := by rw [← hplain, emissions_filter_isPlain]
  _ = c.emissions (ss.filter Statement.isPlain) :=
    h.emissions_eq fun s hs => hss s (List.mem_of_mem_filter hs)
  _ = c.emissions ss := c.emissions_filter_isPlain ss

end Agrees

/-- Under the same options it is enough that names find the same templates, but for
those declared in their bodies. -/
theorem agrees_of_find? (hoptions : c'.options = c.options)
    (hfind : ∀ name, (c'.registry.find? name).map Template.pruned =
      (c.registry.find? name).map Template.pruned) :
    c.Agrees c' fun _ => True where
  roles d _ := by
    refine roles_congr hoptions (fun name => ?_) d
    rw [← Option.isSome_map (f := Template.pruned), hfind, Option.isSome_map]
  contents _ site _ _ _ _ := contents_eq_of_pruned (hfind site.name)
  closed := fun _ _ _ _ _ _ _ _ _ _ _ _ => trivial

end Compilation

end InterfaceSchema
