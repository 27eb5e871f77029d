import InterfaceSchema.Proofs.Expansion.Acceptance
import InterfaceSchema.Proofs.Expansion.Placement
import InterfaceSchema.Proofs.Occurrence

/-!
# What a run looks at

A run goes by the chains of decorators that stand in its program: renaming the body of
a template changes no chain, so expanding brings no other ones
(`Program.hasChain_of_mem_contents`). Two compilations that say the same about the
tags and the names on these chains therefore agree (`Program.agrees_of_hasChain`). What
options say about other tags makes no difference, and neither does a template that no
decorator names (`Program.facts_eq_of_unnamed`).
-/

namespace InterfaceSchema

/-- The bare tags before the definitions of the program, those in the bodies of
templates included. -/
def Program.tags (p : Program) : List String :=
  p.definitions.flatMap fun d => d.decorators.filterMap fun
    | .tag tag => some tag.name
    | .call _ _ => none

/-- The names of its decorators: the tags, and the templates that are called. -/
def Program.decoratorNames (p : Program) : List String :=
  p.definitions.flatMap fun d => d.decorators.map (·.id.name)

/-- The chain stands before a definition of the program. -/
def Program.HasChain (p : Program) (chain : List Mark) : Prop :=
  ∃ d ∈ p.definitions, d.chain = chain

def Mark.name : Mark → String
  | tag name => name
  | call template _ => template

theorem Decorator.name_mark (d : Decorator) : d.mark.name = d.id.name := by
  cases d <;> rfl

theorem Program.HasChain.name_mem_tags {p : Program} {d : Definition} (h : p.HasChain d.chain)
    {tag : Identifier} (htag : .tag tag ∈ d.decorators) : tag.name ∈ p.tags := by
  obtain ⟨e, he, hchain⟩ := h
  have hmark : .tag tag.name ∈ e.chain := hchain ▸ List.mem_map.2 ⟨_, htag, rfl⟩
  obtain ⟨dec, hdec, hmark⟩ := List.mem_map.1 hmark
  refine List.mem_flatMap.2 ⟨e, he, List.mem_filterMap.2 ⟨dec, hdec, ?_⟩⟩
  cases dec with
  | tag tag' => exact congrArg some (Mark.tag.inj hmark)
  | call template args => cases hmark

theorem Program.HasChain.name_mem_decoratorNames {p : Program} {d : Definition}
    (h : p.HasChain d.chain) {dec : Decorator} (hdec : dec ∈ d.decorators) :
    dec.id.name ∈ p.decoratorNames := by
  obtain ⟨e, he, hchain⟩ := h
  have hmark : dec.mark ∈ e.chain := hchain ▸ List.mem_map.2 ⟨_, hdec, rfl⟩
  obtain ⟨dec', hdec', hmark⟩ := List.mem_map.1 hmark
  refine List.mem_flatMap.2 ⟨e, he, List.mem_map.2 ⟨dec', hdec', ?_⟩⟩
  rw [← Decorator.name_mark, hmark, Decorator.name_mark]

/-- A site that a definition expands is one of its decorators. -/
theorem Compilation.exists_decorator_of_mem_roles {c : Compilation} {d : Definition}
    {site : Identifier} {args : Option (List Identifier)} (h : .expand site args ∈ c.roles d) :
    ∃ dec ∈ d.decorators, dec.id = site := by
  obtain ⟨position, dec, hdec, hrole⟩ := mem_roles_iff.1 h
  have hmem : dec ∈ d.decorators := List.mem_of_mem_filter (List.mem_of_getElem? hdec)
  cases dec with
  | tag id =>
    obtain ⟨_, _, _, rfl, _⟩ := roleOfTag_eq_expand_iff.1 hrole
    exact ⟨_, hmem, rfl⟩
  | call template as =>
    cases hrole
    exact ⟨_, hmem, rfl⟩

namespace Program

variable {options : Options} {p q : Program}

theorem hasChain_of_mem_contents {site : Identifier} {args : Option (List Identifier)}
    {inst : String} {ss : List Statement} {s : Statement} {d : Definition}
    (hss : (p.compilation options).contents site args inst = .ok ss) (hs : s ∈ ss)
    (hd : d ∈ s.compiled) : p.HasChain d.chain := by
  cases hdeclared : (p.compilation options).registry.find? site.name with
  | none =>
    rw [Compilation.contents_of_undeclared hdeclared] at hss
    cases hss
  | some t =>
    rw [Compilation.contents_of_declared hdeclared] at hss
    obtain ⟨r, _, rfl⟩ := map_eq_ok_iff.1 hss
    -- The chains of a body are those of its renamed statements.
    have hchain : d.chain ∈ Statement.chains t.body := by
      rw [← r.chains_body t.name inst t.body]
      exact Statement.mem_chains_iff.2 ⟨s, List.mem_of_mem_filter hs, d, hd, rfl⟩
    obtain ⟨s', hs', d', hd', heq⟩ := Statement.mem_chains_iff.1 hchain
    exact ⟨d', mem_definitions_of_mem_body (Registry.mem_of_find? hdeclared) hs'
      (s'.compiled_subset_definitions hd'), heq⟩

/-- It is enough that a compilation says the same about the tags of the program, and
finds the same templates for the names of its decorators. -/
theorem agrees_of_hasChain {c : Compilation}
    (htags : ∀ tag ∈ p.tags, c.options.isStructureTag tag = options.isStructureTag tag)
    (hnames : ∀ name ∈ p.decoratorNames, (c.registry.find? name).map Template.pruned =
      ((p.compilation options).registry.find? name).map Template.pruned) :
    (p.compilation options).Agrees c fun d => p.HasChain d.chain where
  roles d h := by
    refine Compilation.roles_congr_tags fun tag htag =>
      ⟨htags tag.name (h.name_mem_tags htag), ?_⟩
    have hpruned := hnames tag.name (h.name_mem_decoratorNames htag)
    rw [← Option.isSome_map (f := Template.pruned), hpruned, Option.isSome_map]
  contents d site args inst h hrole := by
    obtain ⟨dec, hdec, rfl⟩ := Compilation.exists_decorator_of_mem_roles hrole
    exact Compilation.contents_eq_of_pruned (hnames _ (h.name_mem_decoratorNames hdec))
  closed := fun _ _ _ _ _ _ _ hss _ hs _ hd => hasChain_of_mem_contents hss hs hd

theorem hasChain_of_mem_statements {s : Statement} (hs : s ∈ p.statements) {d : Definition}
    (hd : d ∈ s.compiled) : p.HasChain d.chain :=
  ⟨d, mem_definitions_of_mem_statements hs (s.compiled_subset_definitions hd), rfl⟩

/-- Options that agree on the tags of the program give the same facts or the same
error. -/
theorem facts_eq_of_tags {options' : Options}
    (htags : ∀ tag ∈ p.tags, options'.isStructureTag tag = options.isStructureTag tag) :
    p.facts options' = p.facts options := by
  by_cases hdistinct : ((Statement.declarationsIn p.statements).map Template.name).Nodup
  · have hagrees : (p.compilation options).Agrees (p.compilation options') _ :=
      agrees_of_hasChain htags fun _ _ => rfl
    have hemissions : (p.compilation options').emissions p.statements =
        (p.compilation options).emissions p.statements :=
      hagrees.emissions_eq fun s hs d hd => hasChain_of_mem_statements hs hd
    rw [facts_of_distinct hdistinct, facts_of_distinct hdistinct, hemissions]
  · obtain ⟨site, hsite, hfacts⟩ := facts_of_not_distinct options hdistinct
    obtain ⟨site', hsite', hfacts'⟩ := facts_of_not_distinct options' hdistinct
    rw [hfacts, hfacts', Except.error.inj (hsite'.symm.trans hsite)]

end Program

/-! ## One more declaration -/

/-- The second statements are the first ones with a declaration of `t` added at one
place where a statement may stand, at any depth. -/
inductive Template.Inserted (t : Template) : List Statement → List Statement → Prop where
  | here (ss : List Statement) : Inserted t ss (t.toStatement :: ss)
  | there (s : Statement) {ss ss' : List Statement} : Inserted t ss ss' → Inserted t (s :: ss) (s :: ss')
  | inside (header : Header) (ss : List Statement) {body body' : List Statement} :
    Inserted t body body' → Inserted t (.template header body :: ss) (.template header body' :: ss)

namespace Template

/-- The template and those declared in its body, at every depth. -/
def withNested (t : Template) : List Template := t.toStatement.declarations

namespace Inserted

variable {t : Template} {ss ss' : List Statement} (h : t.Inserted ss ss')

include h

theorem filter_isPlain : ss'.filter Statement.isPlain = ss.filter Statement.isPlain := by
  induction h with
  | here ss => rfl
  | there s _ ih => rw [List.filter_cons, List.filter_cons, ih]
  | inside header ss _ _ => rfl

/-- The new declarations stand together, and all others stay but for what is declared in
their bodies. -/
theorem exists_declarationsIn : ∃ before behind,
    (Statement.declarationsIn ss).map pruned = before ++ behind ∧
      (Statement.declarationsIn ss').map pruned = before ++ t.withNested.map pruned ++ behind := by
  induction h with
  | here ss => exact ⟨[], _, rfl, List.map_append⟩
  | @there s ss ss' _ ih =>
    obtain ⟨before, behind, hss, hss'⟩ := ih
    refine ⟨s.declarations.map pruned ++ before, behind, ?_, ?_⟩ <;>
      simp only [Statement.declarationsIn, List.map_append, hss, hss', List.append_assoc]
  | @inside header ss body body' h ih =>
    obtain ⟨before, behind, hbody, hbody'⟩ := ih
    have hpruned : pruned ⟨header, body'⟩ = pruned ⟨header, body⟩ :=
      congrArg (Template.mk header) h.filter_isPlain
    refine ⟨pruned ⟨header, body⟩ :: before, behind ++ (Statement.declarationsIn ss).map pruned, ?_, ?_⟩ <;>
      simp only [Statement.declarationsIn, Statement.declarations, List.map_append, List.map_cons,
        hbody, hbody', hpruned, List.append_assoc, List.cons_append]

/-- Where names are new and distinct, registration fails as before or not at all. -/
theorem ofStatements_eq_error_iff (hdistinct : (t.withNested.map Template.name).Nodup)
    (hnew : ∀ u ∈ t.withNested, u.name ∉ (Statement.declarationsIn ss).map Template.name)
    {e : SemanticError} :
    Registry.ofStatements ss' = .error e ↔ Registry.ofStatements ss = .error e := by
  obtain ⟨before, behind, hss, hss'⟩ := h.exists_declarationsIn
  have hpruned (ts : List Template) : (ts.map pruned).map Template.name = ts.map Template.name :=
    List.map_map
  -- Registration looks at names and places, which pruned templates keep.
  have hregister (ss : List Statement) : (Registry.registerAll {} ss).2 =
      (Registry.registerEach {} ((Statement.declarationsIn ss).map pruned)).2 := by
    refine Registry.registerEach_congr rfl ?_
    rw [List.map_map]
    rfl
  have hsame : (Registry.registerAll {} ss').2 = (Registry.registerAll {} ss).2 := by
    rw [hregister, hregister, hss, hss']
    refine Registry.registerEach_added ((hpruned _).symm ▸ hdistinct) (fun _ _ => rfl) fun u hu => ?_
    obtain ⟨v, hv, rfl⟩ := List.mem_map.1 hu
    rw [← hss, hpruned]
    exact hnew v hv
  rw [Registry.ofStatements_eq_error_iff_registerAll, hsame,
    ← Registry.ofStatements_eq_error_iff_registerAll]

end Inserted

end Template

namespace Program

variable {options : Options} {p q : Program} {t : Template}

theorem map_pruned_find?_of_inserted (h : t.Inserted p.statements q.statements) {name : String}
    (hname : name ∉ t.withNested.map Template.name) :
    ((q.compilation options).registry.find? name).map Template.pruned =
      ((p.compilation options).registry.find? name).map Template.pruned := by
  obtain ⟨before, behind, hp, hq⟩ := h.exists_declarationsIn
  have hnone : Registry.find? ⟨t.withNested.map Template.pruned⟩ name = none := by
    refine Registry.find?_eq_none_iff.2 fun u hu heq => ?_
    obtain ⟨v, hv, rfl⟩ := List.mem_map.1 hu
    exact hname (List.mem_map.2 ⟨v, hv, heq⟩)
  rw [map_pruned_find?, map_pruned_find?, declarations, declarations, hp, hq, Registry.find?_append,
    Registry.find?_append, Registry.find?_append, hnone, Option.or_none]

/-- A declaration that no decorator names may be added anywhere. -/
theorem facts_eq_of_inserted (h : t.Inserted p.statements q.statements)
    (hdistinct : (t.withNested.map Template.name).Nodup)
    (hnew : ∀ u ∈ t.withNested, u.name ∉ (Statement.declarationsIn p.statements).map Template.name)
    (hunnamed : ∀ u ∈ t.withNested, u.name ∉ p.decoratorNames) :
    q.facts options = p.facts options := by
  have herror {e : SemanticError} := h.ofStatements_eq_error_iff hdistinct hnew (e := e)
  cases hp : Registry.ofStatements p.statements with
  | error e => rw [facts_eq_error_iff.2 (.inl hp), facts_eq_error_iff.2 (.inl (herror.2 hp))]
  | ok r =>
    cases hq : Registry.ofStatements q.statements with
    | error e =>
      rw [herror.1 hq] at hp
      cases hp
    | ok r' =>
      have hother {name : String} (hname : name ∈ p.decoratorNames) :
          name ∉ t.withNested.map Template.name := fun hmem => by
        obtain ⟨u, hu, rfl⟩ := List.mem_map.1 hmem
        exact hunnamed u hu hname
      have hagrees : (p.compilation options).Agrees (q.compilation options) _ :=
        agrees_of_hasChain (fun _ _ => rfl) fun _ hname => map_pruned_find?_of_inserted h (hother hname)
      have hemissions : (q.compilation options).emissions q.statements =
          (p.compilation options).emissions p.statements :=
        hagrees.emissions_eq_of_filter h.filter_isPlain fun s hs d hd =>
          hasChain_of_mem_statements hs hd
      rw [facts_of_distinct (Registry.ofStatements_eq_ok_iff.1 hp).2,
        facts_of_distinct (Registry.ofStatements_eq_ok_iff.1 hq).2, hemissions]

/-- Options matter by what they say about the tags of a program, and templates by the
names of its decorators. Options that agree on these tags give the same facts or the
same error; and so does the program with one more declaration at any place, if the
names of all that it declares are distinct, new, and names of no decorator. -/
theorem facts_eq_of_unnamed (p : Program) :
    (∀ options options' : Options,
      (∀ tag ∈ p.tags, options'.isStructureTag tag = options.isStructureTag tag) →
      p.facts options' = p.facts options) ∧
    ∀ (options : Options) (q : Program) (t : Template), t.Inserted p.statements q.statements →
      (t.withNested.map Template.name).Nodup →
      (∀ u ∈ t.withNested, u.name ∉ (Statement.declarationsIn p.statements).map Template.name) →
      (∀ u ∈ t.withNested, u.name ∉ p.decoratorNames) →
      q.facts options = p.facts options :=
  ⟨fun _ _ => facts_eq_of_tags, fun _ _ _ => facts_eq_of_inserted⟩

end Program

/-- A program with this statement in the body of its template. What is called `order` and
`Spare` in it is no decorator. -/
def withInner (inner : List Statement) : Program :=
  ⟨[.definition ⟨[.call ⟨"T", {}⟩ [⟨"order", {}⟩], .tag ⟨"grid", {}⟩], ⟨"Spare", {}⟩⟩,
    .template ⟨⟨"T", {}⟩, some [⟨"x", {}⟩], none⟩
      ([.definition (.ofTags ["single"] "m")] ++ inner ++
        [.relation (.expr (.name ⟨"x", {}⟩)) .mapTo (.name ⟨"m", {}⟩)])]⟩

/-- A template that declares another one and would fail if it were expanded. -/
def spareTemplate : Template :=
  ⟨⟨⟨"Spare", {}⟩, none, none⟩, [.definition (.ofTags ["Spare"] "s"),
      .template ⟨⟨"order", {}⟩, none, none⟩ []]⟩

example : ((withInner [spareTemplate.toStatement]).facts {}).toOption.map (·.map Fact.text) =
    some ["apply_instance(T, Spare)", "set(single, __Spare__m)", "apply_mapto(Spare, __Spare__m)",
      "apply_mapto(order, __Spare__m)", "instance(grid, Spare)"] := by
  decide +kernel

theorem facts_eq_of_unnamed_spareTemplate :
    (∀ tag ∈ (withInner []).tags, (Options.mk ["order"]).isStructureTag tag = (Options.mk []).isStructureTag tag) ∧
    (withInner []).facts ⟨["order"]⟩ = (withInner []).facts ⟨[]⟩ ∧
    spareTemplate.Inserted (withInner []).statements (withInner [spareTemplate.toStatement]).statements ∧
    (spareTemplate.withNested.map Template.name).Nodup ∧
    (∀ u ∈ spareTemplate.withNested,
      u.name ∉ (Statement.declarationsIn (withInner []).statements).map Template.name) ∧
    (∀ u ∈ spareTemplate.withNested, u.name ∉ (withInner []).decoratorNames) ∧
    (withInner [spareTemplate.toStatement]).facts {} = (withInner []).facts {} := by
  have htags : ∀ tag ∈ (withInner []).tags,
      (Options.mk ["order"]).isStructureTag tag = (Options.mk []).isStructureTag tag := by
    decide +kernel
  have hinserted : spareTemplate.Inserted (withInner []).statements
      (withInner [spareTemplate.toStatement]).statements :=
    .there _ (.inside _ [] (.there _ (.here _)))
  have hdistinct : (spareTemplate.withNested.map Template.name).Nodup := by decide +kernel
  have hnew : ∀ u ∈ spareTemplate.withNested,
      u.name ∉ (Statement.declarationsIn (withInner []).statements).map Template.name := by
    decide +kernel
  have hunnamed : ∀ u ∈ spareTemplate.withNested, u.name ∉ (withInner []).decoratorNames := by
    decide +kernel
  obtain ⟨hoptions, hdeclaration⟩ := Program.facts_eq_of_unnamed (withInner [])
  exact ⟨htags, hoptions _ _ htags, hinserted, hdistinct, hnew, hunnamed,
    hdeclaration {} _ spareTemplate hinserted hdistinct hnew hunnamed⟩

end InterfaceSchema
