import InterfaceSchema.Proofs.Expansion.Run
import Mathlib.Data.Multiset.MapFold
import Mathlib.Logic.Relation

/-!
# Acceptance

Which programs compile. The outline of a program is what is left of it without
the names of instances, operands and arguments and without the order of its
statements: the chains of decorators of the definitions that are compiled, and
the name, the number of parameters and the chains of each template. Whether a
program has facts depends on its outline alone, and `Program.Outline.Admissible`
says how: names of templates are distinct, and on the chains that are reached no
chain is empty, every call is of a declared template with as many parameters, and
no template instantiates itself.
-/

namespace InterfaceSchema

/-- A decorator without the names of its arguments. -/
inductive Mark where
  | tag (name : String)
  | call (template : String) (arity : Nat)
  deriving DecidableEq, Repr

def Decorator.mark : Decorator → Mark
  | tag id => .tag id.name
  | call template args => .call template.name args.length

def Definition.chain (d : Definition) : List Mark := d.decorators.map Decorator.mark

/-- The chains of the definitions that the statements compile. -/
def Statement.chains (ss : List Statement) : Multiset (List Mark) :=
  ((ss.flatMap Statement.compiled).map Definition.chain : List (List Mark))

structure Template.Outline where
  name : String
  arity : Nat
  chains : Multiset (List Mark)

def Template.outline (t : Template) : Template.Outline :=
  ⟨t.name, t.params.length, Statement.chains t.body⟩

structure Program.Outline where
  templates : Multiset Template.Outline
  chains : Multiset (List Mark)

def Program.outline (p : Program) : Program.Outline where
  templates :=
    ((Statement.declarationsIn p.statements).map Template.outline : List Template.Outline)
  chains := Statement.chains p.statements

/-- The chain instantiates the template of this name if there is one. A call
does; so does a tag, unless it is the kind of a set or of a structure at the
first position or a tag of the options. Positions are counted without the tag of
shared members, which instantiates none. -/
inductive Mark.Names (options : Options) (chain : List Mark) : String → Prop where
  | call {name : String} {arity : Nat} : .call name arity ∈ chain → Names options chain name
  | tag {position : Nat} {name : String} :
    (chain.filter (· != .tag sharedTag))[position]? = some (.tag name) →
    (position = 0 → name ∉ ["single", "many", "structure"]) → name ∉ options.structureTags →
    Names options chain name

namespace Program.Outline

/-- The chains that are compiled: those of the program, and those of the
templates that a compiled chain instantiates. -/
inductive Reached (options : Options) (o : Outline) : List Mark → Prop where
  | top {chain : List Mark} : chain ∈ o.chains → Reached options o chain
  | body {chain chain' : List Mark} {t : Template.Outline} :
    Reached options o chain → t ∈ o.templates → Mark.Names options chain t.name →
    chain' ∈ t.chains → Reached options o chain'

/-- The body of `t` instantiates `u`. -/
def Edge (options : Options) (o : Outline) (t u : Template.Outline) : Prop :=
  t ∈ o.templates ∧ u ∈ o.templates ∧ ∃ chain ∈ t.chains, Mark.Names options chain u.name

structure Admissible (options : Options) (o : Outline) : Prop where
  distinct : (o.templates.map Template.Outline.name).Nodup
  decorated : ∀ chain, o.Reached options chain → chain ≠ []
  declared : ∀ chain name arity, o.Reached options chain → .call name arity ∈ chain →
    ∃ t ∈ o.templates, t.name = name ∧ t.arity = arity
  acyclic : ∀ chain t, o.Reached options chain → t ∈ o.templates →
    Mark.Names options chain t.name → ¬Relation.TransGen (o.Edge options) t t

end Program.Outline

/-! ## Chains and roles -/

theorem Statement.mem_chains_iff {ss : List Statement} {chain : List Mark} :
    chain ∈ Statement.chains ss ↔ ∃ s ∈ ss, ∃ d ∈ s.compiled, d.chain = chain := by
  simp only [Statement.chains, Multiset.mem_coe, List.mem_map, List.mem_flatMap]
  constructor
  · rintro ⟨d, ⟨s, hs, hd⟩, h⟩
    exact ⟨s, hs, d, hd, h⟩
  · rintro ⟨s, hs, d, hd, h⟩
    exact ⟨d, ⟨s, hs, hd⟩, h⟩

theorem Decorator.mark_bne_shared (d : Decorator) :
    (d.mark != .tag sharedTag) = !d.isTag sharedTag := by
  cases d <;> simp [mark, isTag, bne]

theorem Definition.chain_filter (d : Definition) :
    d.chain.filter (· != .tag sharedTag) =
      (d.decorators.filter (!·.isTag sharedTag)).map Decorator.mark := by
  rw [chain, List.filter_map]
  exact congrArg _ (List.filter_congr fun d _ => Decorator.mark_bne_shared d)

theorem Renaming.chain_definition (r : Renaming) (d : Definition) :
    (r.definition d).chain = d.chain := by
  simp only [Definition.chain, definition, List.map_map]
  refine List.map_congr_left fun d _ => ?_
  cases d <;> simp [decorator, Decorator.mark]

theorem Renaming.chains_statement (r : Renaming) (s : Statement) :
    (r.statement s).compiled.map Definition.chain = s.compiled.map Definition.chain := by
  rw [compiled_statement, List.map_map]
  exact List.map_congr_left fun d _ => r.chain_definition d

theorem Renaming.chains_body (template inst : String) (r : Renaming) (ss : List Statement) :
    Statement.chains (r.body template inst ss) = Statement.chains ss := by
  unfold Statement.chains
  congr 1
  induction ss generalizing r with
  | nil => rfl
  | cons s ss ih =>
    simp only [body, List.flatMap_cons, List.map_append, ih, chains_statement]

namespace Compilation

variable {c : Compilation} {d : Definition} {site : Identifier} {name : String}

theorem mem_roles_iff {role : Role} :
    role ∈ c.roles d ↔ ∃ (position : Nat) (dec : Decorator),
      (d.decorators.filter (!·.isTag sharedTag))[position]? = some dec ∧
        c.role position dec = role := by
  rw [roles, List.mem_mapIdx]
  constructor
  · rintro ⟨i, hi, h⟩
    exact ⟨i, _, List.getElem?_eq_getElem hi, h⟩
  · rintro ⟨i, dec, hdec, h⟩
    obtain ⟨hi, rfl⟩ := List.getElem?_eq_some_iff.1 hdec
    exact ⟨i, hi, h⟩

theorem roleOfTag_eq_expand_iff {position : Nat} {tag : Identifier}
    {args : Option (List Identifier)} :
    c.roleOfTag position tag = .expand site args ↔
      (position = 0 → tag.name ∉ ["single", "many", "structure"]) ∧
        tag.name ∉ c.options.structureTags ∧ (c.registry.find? tag.name).isSome = true ∧
        site = tag ∧ args = none := by
  have hkind : (position = 0 → tag.name ∉ ["single", "many", "structure"]) ↔
      ¬(position = 0 ∧ isSetKind tag.name = true) ∧ ¬(position = 0 ∧ tag.name = structureTag) := by
    by_cases hp : position = 0 <;> simp [hp, isSetKind, structureTag, and_assoc]
  have hstruct : tag.name ∉ c.options.structureTags ↔
      ¬c.options.isStructureTag tag.name = true := by
    simp [Options.isStructureTag]
  rw [hkind, hstruct, roleOfTag]
  by_cases hset : position = 0 ∧ isSetKind tag.name = true
  · rw [if_pos hset]
    exact iff_of_false Role.noConfusion fun h => h.1.1 hset
  by_cases hstructure : position = 0 ∧ tag.name = structureTag
  · rw [if_neg hset, if_pos hstructure]
    exact iff_of_false Role.noConfusion fun h => h.1.2 hstructure
  by_cases htag : c.options.isStructureTag tag.name = true
  · rw [if_neg hset, if_neg hstructure, if_pos htag]
    exact iff_of_false Role.noConfusion fun h => h.2.1 htag
  by_cases hsome : (c.registry.find? tag.name).isSome = true
  · rw [if_neg hset, if_neg hstructure, if_neg htag, if_pos hsome, Role.expand.injEq]
    constructor
    · rintro ⟨rfl, rfl⟩
      exact ⟨⟨hset, hstructure⟩, htag, hsome, rfl, rfl⟩
    · rintro ⟨_, _, _, rfl, rfl⟩
      exact ⟨rfl, rfl⟩
  · rw [if_neg hset, if_neg hstructure, if_neg htag, if_neg hsome]
    exact iff_of_false Role.noConfusion fun h => hsome h.2.2.1

theorem names_of_mem_roles {args : Option (List Identifier)}
    (h : .expand site args ∈ c.roles d) : Mark.Names c.options d.chain site.name := by
  obtain ⟨position, dec, hdec, hrole⟩ := mem_roles_iff.1 h
  have hmark : (d.chain.filter (· != .tag sharedTag))[position]? = some dec.mark := by
    rw [Definition.chain_filter, List.getElem?_map, hdec, Option.map_some]
  cases dec with
  | tag id =>
    obtain ⟨hkind, hstruct, _, rfl, _⟩ := roleOfTag_eq_expand_iff.1 hrole
    exact .tag hmark hkind hstruct
  | call template as =>
    cases hrole
    exact .call (List.mem_of_mem_filter (List.mem_of_getElem? hmark))

/-- Arguments come from a call, and without them there is such a template. -/
theorem call_of_mem_roles {args : Option (List Identifier)} (h : .expand site args ∈ c.roles d) :
    (∃ as, args = some as ∧ .call site as ∈ d.decorators) ∨
      args = none ∧ (c.registry.find? site.name).isSome = true := by
  obtain ⟨position, dec, hdec, hrole⟩ := mem_roles_iff.1 h
  cases dec with
  | tag id =>
    obtain ⟨_, _, hsome, rfl, rfl⟩ := roleOfTag_eq_expand_iff.1 hrole
    exact .inr ⟨rfl, hsome⟩
  | call template as =>
    cases hrole
    exact .inl ⟨as, rfl, List.mem_of_mem_filter (List.mem_of_getElem? hdec)⟩

theorem mark_of_mem_roles {args : Option (List Identifier)}
    (h : .expand site args ∈ c.roles d) :
    (∃ as, args = some as ∧ .call site.name as.length ∈ d.chain) ∨
      args = none ∧ (c.registry.find? site.name).isSome = true :=
  (call_of_mem_roles h).imp_left fun ⟨as, has, hcall⟩ => ⟨as, has, List.mem_map.2 ⟨_, hcall, rfl⟩⟩

theorem tag_mem_chain_of_mem_roles (h : .expand site none ∈ c.roles d) :
    .tag site.name ∈ d.chain := by
  obtain ⟨position, dec, hdec, hrole⟩ := mem_roles_iff.1 h
  cases dec with
  | tag id =>
    obtain ⟨_, _, _, rfl, _⟩ := roleOfTag_eq_expand_iff.1 hrole
    exact List.mem_map.2 ⟨_, List.mem_of_mem_filter (List.mem_of_getElem? hdec), rfl⟩
  | call template as => cases hrole

theorem mem_roles_of_call {arity : Nat} (h : .call name arity ∈ d.chain) :
    ∃ site as, site.name = name ∧ as.length = arity ∧ .expand site (some as) ∈ c.roles d := by
  obtain ⟨dec, hdec, hmark⟩ := List.mem_map.1 h
  cases dec with
  | tag id => cases hmark
  | call site as =>
    have hmem : .call site as ∈ d.decorators.filter (!·.isTag sharedTag) :=
      List.mem_filter.2 ⟨hdec, rfl⟩
    obtain ⟨position, hposition⟩ := List.mem_iff_getElem?.1 hmem
    obtain ⟨rfl, rfl⟩ := Mark.call.inj hmark
    exact ⟨site, as, rfl, rfl, mem_roles_iff.2 ⟨position, _, hposition, rfl⟩⟩

/-- A chain that names a declared template asks for its expansion. -/
theorem mem_roles_of_names (h : Mark.Names c.options d.chain name)
    (hsome : (c.registry.find? name).isSome = true) :
    ∃ site args, site.name = name ∧ .expand site args ∈ c.roles d := by
  cases h with
  | call h =>
    obtain ⟨site, as, hsite, _, hrole⟩ := mem_roles_of_call (c := c) h
    exact ⟨site, some as, hsite, hrole⟩
  | @tag position _ hmark hkind hstruct =>
    rw [Definition.chain_filter, List.getElem?_map] at hmark
    obtain ⟨dec, hdec, hmark⟩ := Option.map_eq_some_iff.1 hmark
    cases dec with
    | call template as => cases hmark
    | tag id =>
      cases hmark
      exact ⟨id, none, rfl, mem_roles_iff.2 ⟨position, _, hdec,
        roleOfTag_eq_expand_iff.2 ⟨hkind, hstruct, hsome, rfl, rfl⟩⟩⟩

variable {scopes : Scopes} {args : Option (List Identifier)} {inst : String} {expand : Expander}

theorem isOk_expand_of_names (h : (c.emitDefinition expand d).isOk = true)
    (hn : Mark.Names c.options d.chain name) (hsome : (c.registry.find? name).isSome = true) :
    ∃ site args, site.name = name ∧ (expand site args d.id.name).isOk = true := by
  obtain ⟨site, args, hsite, hrole⟩ := mem_roles_of_names hn hsome
  exact ⟨site, args, hsite, (isOk_emitDefinition_iff.1 h).2 site args hrole⟩

/-- A successful expansion compiles every chain of its template's body. -/
theorem isOk_emitDefinition_of_mem_chains {t : Template} {chain : List Mark}
    (h : (c.expand scopes site args inst).isOk = true) (ht : c.registry.find? site.name = some t)
    (hchain : chain ∈ Statement.chains t.body) :
    ∃ d, d.chain = chain ∧ (c.emitDefinition (c.inside scopes t inst) d).isOk = true := by
  obtain ⟨u, r, ho, hall⟩ := isOk_expand_iff.1 h
  obtain rfl : t = u := Option.some.inj (ht.symm.trans ho.found)
  rw [← r.chains_body t.name inst, Statement.mem_chains_iff] at hchain
  obtain ⟨s, hs, d, hd, rfl⟩ := hchain
  exact ⟨d, rfl, isOk_emitStatement_iff.1 (hall s hs) d hd⟩

end Compilation

/-! ## Static and dynamic reachability -/

namespace Program

variable {options : Options} {p : Program}

theorem mem_templates_iff {t : Template.Outline} :
    t ∈ p.outline.templates ↔ ∃ u ∈ Statement.declarationsIn p.statements, u.outline = t := by
  simp [outline]

theorem distinct_iff : (p.outline.templates.map Template.Outline.name).Nodup ↔
    ((Statement.declarationsIn p.statements).map Template.name).Nodup := by
  rw [outline, Multiset.map_coe, List.map_map, Multiset.coe_nodup]
  rfl

theorem isOk_facts_iff_isOk_emissions : (p.facts options).isOk = true ↔
    (p.outline.templates.map Template.Outline.name).Nodup ∧
      ((p.compilation options).emissions p.statements).isOk = true := by
  rw [facts, isOk_map, distinct_iff, isOk_iff_exists, isOk_iff_exists]
  simp only [emissions_eq_ok_iff, exists_and_left]

section

variable (hdistinct : (p.outline.templates.map Template.Outline.name).Nodup)

include hdistinct

theorem find?_of_mem_templates (options : Options) {t : Template.Outline}
    (ht : t ∈ p.outline.templates) :
    ∃ u, (p.compilation options).registry.find? t.name = some u ∧ u.outline = t := by
  obtain ⟨u, hu, rfl⟩ := mem_templates_iff.1 ht
  exact ⟨u, (Registry.find?_eq_some_iff (distinct_iff.1 hdistinct)).2 ⟨hu, rfl⟩, rfl⟩

theorem outline_inj {t u : Template.Outline} (ht : t ∈ p.outline.templates)
    (hu : u ∈ p.outline.templates) (h : t.name = u.name) : t = u :=
  Multiset.inj_on_of_nodup_map hdistinct t ht u hu h

variable (hok : ((p.compilation options).emissions p.statements).isOk = true)

include hok

/-- Every chain that is reached is compiled somewhere in a successful run. -/
theorem isOk_emitDefinition_of_reached {chain : List Mark}
    (h : p.outline.Reached options chain) : ∃ scopes d, d.chain = chain ∧
      ((p.compilation options).emitDefinition
        ((p.compilation options).expand scopes) d).isOk = true := by
  induction h with
  | top h =>
    obtain ⟨s, hs, d, hd, rfl⟩ := Statement.mem_chains_iff.1 h
    exact ⟨[], d, rfl, Compilation.isOk_emitStatement_iff.1
      (Compilation.isOk_emissions_iff.1 hok s hs) d hd⟩
  | body _ ht hn hchain ih =>
    obtain ⟨scopes, d, rfl, hd⟩ := ih
    obtain ⟨u, hu, rfl⟩ := find?_of_mem_templates hdistinct options ht
    obtain ⟨site, args, hsite, hexpand⟩ :=
      Compilation.isOk_expand_of_names hd hn (Option.isSome_iff_exists.2 ⟨u, hu⟩)
    rw [← hsite] at hu
    obtain ⟨d', hd', h⟩ := Compilation.isOk_emitDefinition_of_mem_chains hexpand hu hchain
    exact ⟨_, d', hd', h⟩

omit hok in
/-- A successful expansion of `t` expands what the body of `t` instantiates,
while `t` is being expanded. -/
theorem isOk_expand_of_edge {t u : Template.Outline} (h : p.outline.Edge options t u)
    {scopes : Scopes} {site : Identifier} {args : Option (List Identifier)} {inst : String}
    (hexpand : ((p.compilation options).expand scopes site args inst).isOk = true)
    (hsite : site.name = t.name) : ∃ site' args' inst', site'.name = u.name ∧
      ((p.compilation options).expand (scopes.push ⟨t.name, inst⟩) site' args' inst').isOk =
        true := by
  obtain ⟨ht, hu, chain, hchain, hn⟩ := h
  obtain ⟨t, htfind, rfl⟩ := find?_of_mem_templates hdistinct options ht
  obtain ⟨u, hufind, rfl⟩ := find?_of_mem_templates hdistinct options hu
  rw [← hsite] at htfind
  obtain ⟨d, rfl, hd⟩ := Compilation.isOk_emitDefinition_of_mem_chains hexpand htfind hchain
  obtain ⟨site', args', hsite', h⟩ :=
    Compilation.isOk_expand_of_names hd hn (Option.isSome_iff_exists.2 ⟨u, hufind⟩)
  exact ⟨site', args', _, hsite', h⟩

omit hok in
theorem isOk_expand_of_transGen {t u : Template.Outline}
    (h : Relation.TransGen (p.outline.Edge options) t u)
    {scopes : Scopes} {site : Identifier} {args : Option (List Identifier)} {inst : String}
    (hexpand : ((p.compilation options).expand scopes site args inst).isOk = true)
    (hsite : site.name = t.name) : ∃ scopes' site' args' inst', site'.name = u.name ∧
      Scopes.isExpanding scopes' t.name = true ∧
      ((p.compilation options).expand scopes' site' args' inst').isOk = true := by
  induction h with
  | single hedge =>
    obtain ⟨site', args', inst', hsite', h⟩ := isOk_expand_of_edge hdistinct hedge hexpand hsite
    exact ⟨_, site', args', inst', hsite', by simp [Scopes.isExpanding, Scopes.push], h⟩
  | tail _ hedge ih =>
    obtain ⟨scopes', site', args', inst', hsite', hopen, h⟩ := ih
    obtain ⟨site'', args'', inst'', hsite'', h⟩ := isOk_expand_of_edge hdistinct hedge h hsite'
    refine ⟨_, site'', args'', inst'', hsite'', ?_, h⟩
    simp only [Scopes.isExpanding, Scopes.push, List.any_cons, Bool.or_eq_true]
    exact .inr hopen

theorem admissible_of_isOk : p.outline.Admissible options where
  distinct := hdistinct
  decorated chain h := by
    obtain ⟨scopes, d, rfl, hd⟩ := isOk_emitDefinition_of_reached hdistinct hok h
    simpa [Definition.chain] using (Compilation.isOk_emitDefinition_iff.1 hd).1
  declared chain name arity h hcall := by
    obtain ⟨scopes, d, rfl, hd⟩ := isOk_emitDefinition_of_reached hdistinct hok h
    obtain ⟨site, as, rfl, rfl, hrole⟩ :=
      Compilation.mem_roles_of_call (c := p.compilation options) hcall
    obtain ⟨t, r, ho, _⟩ := Compilation.isOk_expand_iff.1
      ((Compilation.isOk_emitDefinition_iff.1 hd).2 site _ hrole)
    refine ⟨t.outline, mem_templates_iff.2
      ⟨t, Registry.mem_of_find? ho.found, rfl⟩, Registry.name_of_find? ho.found, ?_⟩
    have hbound := ho.bound
    simp only [Template.bindArguments] at hbound
    split at hbound
    · assumption
    · cases hbound
  acyclic chain t h ht hn hcycle := by
    obtain ⟨scopes, d, rfl, hd⟩ := isOk_emitDefinition_of_reached hdistinct hok h
    obtain ⟨u, hu, rfl⟩ := find?_of_mem_templates hdistinct options ht
    obtain ⟨site, args, hsite, hexpand⟩ :=
      Compilation.isOk_expand_of_names hd hn (Option.isSome_iff_exists.2 ⟨u, hu⟩)
    obtain ⟨scopes', site', args', inst', hsite', hopen, h⟩ :=
      isOk_expand_of_transGen hdistinct hcycle hexpand hsite
    obtain ⟨v, r, ho, _⟩ := Compilation.isOk_expand_iff.1 h
    have hclosed := ho.closed
    rw [Registry.name_of_find? ho.found, hsite', hopen] at hclosed
    cases hclosed

end

section

variable (ha : p.outline.Admissible options)

include ha

/-- The arguments of an expansion that a reached chain asks for fit its
template. -/
theorem exists_bindArguments {d : Definition} (h : p.outline.Reached options d.chain)
    {site : Identifier} {args : Option (List Identifier)}
    (hrole : .expand site args ∈ (p.compilation options).roles d) :
    ∃ t r, (p.compilation options).registry.find? site.name = some t ∧
      t.bindArguments site args = .ok r := by
  rcases Compilation.mark_of_mem_roles hrole with ⟨as, rfl, hcall⟩ | ⟨rfl, hsome⟩
  · obtain ⟨t, ht, hname, harity⟩ := ha.declared _ _ _ h hcall
    obtain ⟨u, hu, rfl⟩ := find?_of_mem_templates ha.distinct options ht
    rw [hname] at hu
    exact ⟨u, _, hu, if_pos harity⟩
  · obtain ⟨t, ht⟩ := Option.isSome_iff_exists.1 hsome
    exact ⟨t, _, ht, rfl⟩

/-- An expansion succeeds if its template is reached and each template being
expanded leads to it. The induction is on the templates not being expanded. -/
theorem isOk_expand_of_admissible {scopes : Scopes} {site : Identifier}
    {args : Option (List Identifier)} {inst : String} {t : Template} {r : Renaming}
    (ht : (p.compilation options).registry.find? site.name = some t)
    (hr : t.bindArguments site args = .ok r)
    (hreached : ∃ chain, p.outline.Reached options chain ∧ Mark.Names options chain t.name)
    (hscopes : ∀ f ∈ scopes, ∃ u ∈ p.outline.templates, u.name = f.template ∧
      Relation.TransGen (p.outline.Edge options) u t.outline) :
    ((p.compilation options).expand scopes site args inst).isOk = true := by
  induction hn : scopes.remaining (p.compilation options).registry using Nat.strong_induction_on
    generalizing scopes site args inst t r with
  | h n ih =>
  have htmem : t.outline ∈ p.outline.templates :=
    mem_templates_iff.2 ⟨t, Registry.mem_of_find? ht, rfl⟩
  obtain ⟨chain, hchain, hnames⟩ := hreached
  have hclosed : scopes.isExpanding t.name = false := by
    by_contra hopen
    obtain ⟨f, hf, hft⟩ : ∃ f ∈ scopes, f.template = t.name := by
      simpa [Scopes.isExpanding] using hopen
    obtain ⟨u, hu, hname, hpath⟩ := hscopes f hf
    rw [outline_inj ha.distinct hu htmem (hname.trans hft)] at hpath
    exact ha.acyclic chain _ hchain htmem hnames hpath
  rw [Compilation.isOk_expand_iff]
  refine ⟨t, r, ⟨ht, hclosed, hr⟩, fun s hs => Compilation.isOk_emitStatement_iff.2 fun d hd => ?_⟩
  have hmem : d.chain ∈ Statement.chains t.body := by
    rw [← r.chains_body t.name inst]
    exact Statement.mem_chains_iff.2 ⟨s, hs, d, hd, rfl⟩
  have hd : p.outline.Reached options d.chain := .body hchain htmem hnames hmem
  refine Compilation.isOk_emitDefinition_iff.2
    ⟨by simpa [Definition.chain] using ha.decorated _ hd, fun site' args' hrole => ?_⟩
  obtain ⟨u, r', hu, hr'⟩ := exists_bindArguments ha hd hrole
  have hnames' : Mark.Names options d.chain u.name := by
    rw [Registry.name_of_find? hu]
    exact Compilation.names_of_mem_roles hrole
  have hedge : p.outline.Edge options t.outline u.outline :=
    ⟨htmem, mem_templates_iff.2 ⟨u, Registry.mem_of_find? hu, rfl⟩,
      d.chain, hmem, hnames'⟩
  refine ih _ ?_ hu hr' ⟨_, hd, hnames'⟩ ?_ rfl
  · rw [← hn]
    exact Scopes.remaining_push_lt (Registry.mem_of_find? ht) hclosed inst
  · intro f hf
    rcases List.mem_cons.1 hf with rfl | hf
    · exact ⟨_, htmem, rfl, .single hedge⟩
    · obtain ⟨v, hv, hname, hpath⟩ := hscopes f hf
      exact ⟨v, hv, hname, hpath.tail hedge⟩

theorem isOk_emissions_of_admissible :
    ((p.compilation options).emissions p.statements).isOk = true := by
  refine Compilation.isOk_emissions_iff.2 fun s hs =>
    Compilation.isOk_emitStatement_iff.2 fun d hd => ?_
  have hd : p.outline.Reached options d.chain :=
    .top (Statement.mem_chains_iff.2 ⟨s, hs, d, hd, rfl⟩)
  refine Compilation.isOk_emitDefinition_iff.2
    ⟨by simpa [Definition.chain] using ha.decorated _ hd, fun site args hrole => ?_⟩
  obtain ⟨t, r, ht, hr⟩ := exists_bindArguments ha hd hrole
  refine isOk_expand_of_admissible ha ht hr ⟨_, hd, ?_⟩ nofun
  rw [Registry.name_of_find? ht]
  exact Compilation.names_of_mem_roles hrole

end

/-! ## What acceptance does not depend on -/

theorem declarationsIn_eq_flatMap (ss : List Statement) :
    Statement.declarationsIn ss = ss.flatMap Statement.declarations := by
  induction ss with
  | nil => rfl
  | cons s ss ih => rw [Statement.declarationsIn, ih, List.flatMap_cons]

theorem flatMap_eq_of_renamed {β : Type} {f : Statement → List β}
    (hf : ∀ (r : Renaming) s, f (r.statement s) = f s) {ss ss' : List Statement}
    (h : List.Forall₂ (fun s s' => ∃ r : Renaming, s' = r.statement s) ss ss') :
    ss'.flatMap f = ss.flatMap f := by
  induction h with
  | nil => rfl
  | cons h _ ih =>
    obtain ⟨r, rfl⟩ := h
    rw [List.flatMap_cons, List.flatMap_cons, hf, ih]

/-- Neither the order of the statements nor the names that a renaming gives are
in the outline. -/
theorem outline_eq_of_perm {q : Program} {ss : List Statement}
    (hnames : List.Forall₂ (fun s s' => ∃ r : Renaming, s' = r.statement s) p.statements ss)
    (hperm : q.statements.Perm ss) : q.outline = p.outline := by
  have htemplates : (Statement.declarationsIn q.statements).Perm
      (Statement.declarationsIn p.statements) := by
    rw [declarationsIn_eq_flatMap, declarationsIn_eq_flatMap,
      ← flatMap_eq_of_renamed (fun _ s => by cases s <;> rfl) hnames]
    exact hperm.flatMap_right _
  have hchains : ((q.statements.flatMap Statement.compiled).map Definition.chain).Perm
      ((p.statements.flatMap Statement.compiled).map Definition.chain) := by
    rw [List.map_flatMap, List.map_flatMap,
      ← flatMap_eq_of_renamed (fun r s => r.chains_statement s) hnames]
    exact hperm.flatMap_right _
  exact congrArg₂ Outline.mk (Multiset.coe_eq_coe.2 (htemplates.map _))
    (Multiset.coe_eq_coe.2 hchains)

/-- A program compiles exactly if its outline is admissible. So neither the
names of instances, operands and arguments nor the order of statements matter. -/
theorem isOk_facts_iff_admissible (options : Options) (p : Program) :
    ((p.facts options).isOk = true ↔ p.outline.Admissible options) ∧
      (∀ q : Program, q.outline = p.outline → (q.facts options).isOk = (p.facts options).isOk) ∧
      ∀ (q : Program) (ss : List Statement),
        List.Forall₂ (fun s s' => ∃ r : Renaming, s' = r.statement s) p.statements ss →
        q.statements.Perm ss → (q.facts options).isOk = (p.facts options).isOk := by
  have hiff (p : Program) : (p.facts options).isOk = true ↔ p.outline.Admissible options := by
    rw [isOk_facts_iff_isOk_emissions]
    exact ⟨fun ⟨hdistinct, hok⟩ => admissible_of_isOk hdistinct hok,
      fun ha => ⟨ha.distinct, isOk_emissions_of_admissible ha⟩⟩
  have hcongr (q : Program) (h : q.outline = p.outline) :
      (q.facts options).isOk = (p.facts options).isOk := by
    rw [Bool.eq_iff_iff, hiff q, hiff p, h]
  exact ⟨hiff p, hcongr, fun q ss hnames hperm => hcongr q (outline_eq_of_perm hnames hperm)⟩

end Program

end InterfaceSchema
