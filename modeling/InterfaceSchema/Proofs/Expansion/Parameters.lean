import InterfaceSchema.Proofs.Expansion.Acceptance
import InterfaceSchema.Proofs.Expansion.Agreement
import InterfaceSchema.Proofs.Expansion.Relevance
import InterfaceSchema.Proofs.Expansion.Resolution
import InterfaceSchema.Proofs.Sharing
import Mathlib.Data.List.Find

/-!
# The names of parameters

A template may call its parameters otherwise. As long as its body tells them from
all other names in it, and defines none of them, calls give the same statements
(`Template.instantiate_mapParameters`). So it makes no difference to a program
how one of its templates calls them, unless a tag names the template, for then the
parameters stand for themselves (`Program.facts_eq_of_parameter_replaced`).
-/

namespace InterfaceSchema

namespace Template

/-- The template with other names for its parameters, in their list and in its own
body. -/
def mapParameters (t : Template) (f : String → String) : Template :=
  ⟨{ t.header with params := t.header.params.map (List.map fun id => id.renamed (f id.name)) },
    t.body.map (Statement.mapNames fun id => id.renamed (f id.name))⟩

def paramNames (t : Template) : List String := t.params.map Identifier.name

def memberNames (t : Template) : List String :=
  (t.body.flatMap Statement.definitions).map (·.id.name)

/-- The names in the body, those in templates declared there not counted. -/
def bodyNames (t : Template) : List String :=
  (t.body.flatMap Statement.names).map Identifier.name

/-- `f` gives other names to parameters alone, to no member, and tells all names
apart. -/
structure IsParameterRenaming (t : Template) (f : String → String) : Prop where
  eq_of_notMem_params : ∀ a ∈ t.bodyNames, a ∉ t.paramNames → f a = a
  eq_of_member : ∀ a ∈ t.memberNames, f a = a
  injective : ∀ a ∈ t.paramNames ++ t.bodyNames, ∀ b ∈ t.paramNames ++ t.bodyNames,
    f a = f b → a = b

variable {t : Template} {f : String → String}

theorem params_mapParameters (t : Template) (f : String → String) :
    (t.mapParameters f).params = t.params.map fun id => id.renamed (f id.name) := by
  obtain ⟨⟨id, params, base⟩, body⟩ := t
  cases params <;> rfl

theorem member_mem_bodyNames {name : String} (h : name ∈ t.memberNames) : name ∈ t.bodyNames := by
  obtain ⟨d, hd, rfl⟩ := List.mem_map.1 h
  obtain ⟨s, hs, hd⟩ := List.mem_flatMap.1 hd
  exact List.mem_map.2 ⟨d.id, List.mem_flatMap.2 ⟨s, hs, Statement.id_mem_names hd⟩, rfl⟩

theorem lastDefinition?_mem {k : Nat} {name : String} {d : Definition}
    (h : t.lastDefinition? k name = some d) : name ∈ t.memberNames := by
  obtain rfl : d.id.name = name := by simpa using List.find?_some h
  obtain ⟨s, hs, hd⟩ := List.mem_flatMap.1 (List.mem_reverse.1 (List.mem_of_find?_eq_some h))
  exact List.mem_map.2 ⟨d, List.mem_flatMap.2 ⟨s, List.mem_of_mem_take hs, hd⟩, rfl⟩

/-- Each parameter has an argument if there are as many of them. -/
theorem isSome_argumentFor? {args : List Identifier} (hlength : t.params.length = args.length)
    {name : String} (h : name ∈ t.paramNames) : (t.argumentFor? (some args) name).isSome = true := by
  rw [paramNames, ← List.map_fst_zip (Nat.le_of_eq hlength)] at h
  obtain ⟨param, hparam, rfl⟩ := List.mem_map.1 h
  obtain ⟨pair, hpair, rfl⟩ := List.mem_map.1 hparam
  rw [argumentFor?, Option.isSome_map, List.find?_isSome]
  exact ⟨pair, List.mem_reverse.2 hpair, by simp⟩

namespace IsParameterRenaming

variable (h : t.IsParameterRenaming f)

include h

theorem beq_iff {a b : String} (ha : a ∈ t.paramNames ++ t.bodyNames)
    (hb : b ∈ t.paramNames ++ t.bodyNames) : (f a == f b) = (a == b) := by
  rw [Bool.eq_iff_iff, beq_iff_eq, beq_iff_eq]
  exact ⟨h.injective a ha b hb, congrArg f⟩

theorem lastDefinition?_eq {name : String} (hname : name ∈ t.bodyNames) (k : Nat) :
    (t.mapParameters f).lastDefinition? k (f name) =
      (t.lastDefinition? k name).map (Definition.mapNames fun id => id.renamed (f id.name)) := by
  have hdefinitions : ((t.mapParameters f).body.take (k + 1)).flatMap Statement.definitions =
      ((t.body.take (k + 1)).flatMap Statement.definitions).map
        (Definition.mapNames fun id => id.renamed (f id.name)) := by
    rw [mapParameters, ← List.map_take, List.flatMap_map, List.map_flatMap]
    simp only [Statement.definitions_mapNames]
  rw [lastDefinition?, hdefinitions, ← List.map_reverse, List.find?_map, lastDefinition?]
  refine congrArg _ (List.find?_congr fun d hd => ?_)
  obtain ⟨s, hs, hd⟩ := List.mem_flatMap.1 (List.mem_reverse.1 hd)
  have hmember : d.id.name ∈ t.bodyNames := member_mem_bodyNames (List.mem_map.2
    ⟨d, List.mem_flatMap.2 ⟨s, List.mem_of_mem_take hs, hd⟩, rfl⟩)
  exact h.beq_iff (List.mem_append_right _ hmember) (List.mem_append_right _ hname)

theorem argumentFor?_eq {name : String} (hname : name ∈ t.bodyNames)
    (args : Option (List Identifier)) :
    (t.mapParameters f).argumentFor? args (f name) = t.argumentFor? args name := by
  rw [argumentFor?, params_mapParameters, List.zip_map_left, ← List.map_reverse, List.find?_map,
    Option.map_map, argumentFor?]
  refine congrArg _ (List.find?_congr fun pair hpair => ?_)
  have hparam : pair.1.name ∈ t.paramNames :=
    List.mem_map_of_mem (List.of_mem_zip (List.mem_reverse.1 hpair)).1
  exact h.beq_iff (List.mem_append_left _ hparam) (List.mem_append_right _ hname)

/-- With an argument for each parameter, all names stand for what they stood for. -/
theorem resolve_eq {args : List Identifier} (hlength : t.params.length = args.length)
    {name : String} (hname : name ∈ t.bodyNames) (inst : String) (k : Nat) :
    (t.mapParameters f).resolve (some args) inst k (f name) = t.resolve (some args) inst k name := by
  rw [resolve, resolve, h.lastDefinition?_eq hname, h.argumentFor?_eq hname]
  cases hlast : t.lastDefinition? k name with
  | some d =>
    rw [Option.map_some]
    simp only [Definition.isShared_mapNames, h.eq_of_member name (lastDefinition?_mem hlast)]
    rfl
  | none =>
    rw [Option.map_none]
    cases hargument : t.argumentFor? (some args) name with
    | some arg => rfl
    | none =>
      refine h.eq_of_notMem_params name hname fun hparam => ?_
      have hsome := isSome_argumentFor? hlength hparam
      rw [hargument] at hsome
      cases hsome

end IsParameterRenaming

/-- A call gives the same statements, or fails for the number of its arguments. -/
theorem instantiate_mapParameters (h : t.IsParameterRenaming f) (site : Identifier)
    (args : List Identifier) (inst : String) :
    (fun r => (t.mapParameters f).instantiate r inst) <$>
        (t.mapParameters f).bindArguments site (some args) =
      (fun r => t.instantiate r inst) <$> t.bindArguments site (some args) := by
  have hparams : (t.mapParameters f).params.length = t.params.length := by
    rw [params_mapParameters, List.length_map]
  by_cases hlength : t.params.length = args.length
  · have hbound : t.bindArguments site (some args) = .ok (.ofArguments t.params args) := if_pos hlength
    have hbound' : (t.mapParameters f).bindArguments site (some args) =
        .ok (.ofArguments (t.mapParameters f).params args) := if_pos (hparams.trans hlength)
    rw [hbound, hbound']
    refine congrArg Except.ok (List.ext_getElem? fun k => ?_)
    rw [getElem?_instantiate hbound', getElem?_instantiate hbound, mapParameters, List.getElem?_map]
    cases hs : t.body[k]? with
    | none => rfl
    | some s =>
      refine congrArg some ((s.mapNames_mapNames _ _).trans (Statement.mapNames_congr fun id hid => ?_))
      have hname : id.name ∈ t.bodyNames :=
        List.mem_map_of_mem (List.mem_flatMap.2 ⟨s, List.mem_of_getElem? hs, hid⟩)
      exact congrArg id.renamed (h.resolve_eq hlength hname inst k)
  · have hbound : t.bindArguments site (some args) =
        .error (.arityMismatch site t.params.length args.length) := if_neg hlength
    have hbound' : (t.mapParameters f).bindArguments site (some args) =
        .error (.arityMismatch site (t.mapParameters f).params.length args.length) :=
      if_neg fun heq => hlength (hparams.symm.trans heq)
    rw [hbound, hbound', hparams]
    rfl

end Template

/-! ## One declaration in the place of another -/

/-- The second statements are the first ones with `t'` in the place of one
declaration of `t`, at any depth. -/
inductive Template.Replaced (t t' : Template) : List Statement → List Statement → Prop where
  | here (ss : List Statement) : Replaced t t' (t.toStatement :: ss) (t'.toStatement :: ss)
  | there (s : Statement) {ss ss' : List Statement} :
    Replaced t t' ss ss' → Replaced t t' (s :: ss) (s :: ss')
  | inside (header : Header) (ss : List Statement) {body body' : List Statement} :
    Replaced t t' body body' → Replaced t t' (.template header body :: ss) (.template header body' :: ss)

namespace Template.Replaced

variable {t t' : Template} {ss ss' : List Statement} (h : Replaced t t' ss ss')

include h

theorem filter_isPlain : ss'.filter Statement.isPlain = ss.filter Statement.isPlain := by
  induction h with
  | here ss => rfl
  | there s _ ih => rw [List.filter_cons, List.filter_cons, ih]
  | inside header ss _ _ => rfl

theorem mem_declarationsIn : t ∈ Statement.declarationsIn ss := by
  induction h with
  | here ss => exact List.mem_cons_self
  | there s _ ih => exact List.mem_append_right _ ih
  | inside header ss _ ih => exact List.mem_append_left _ (List.mem_cons_of_mem _ ih)

omit h in
theorem symm (h : Replaced t t' ss ss') : Replaced t' t ss' ss := by
  induction h with
  | here ss => exact .here ss
  | there s _ ih => exact .there s ih
  | inside header ss _ ih => exact .inside header ss ih

/-- All other declarations stay, but for what is declared in their bodies. -/
theorem forall₂_declarationsIn
    (hbody : Statement.declarationsIn t'.body = Statement.declarationsIn t.body) :
    List.Forall₂ (fun u u' => u'.pruned = u.pruned ∨ (u = t ∧ u' = t'))
      (Statement.declarationsIn ss) (Statement.declarationsIn ss') := by
  have hrefl (us : List Template) :
      List.Forall₂ (fun u u' => u'.pruned = u.pruned ∨ (u = t ∧ u' = t')) us us :=
    List.forall₂_same.2 fun u _ => .inl rfl
  induction h with
  | here ss =>
    refine List.rel_append (.cons (.inr ⟨rfl, rfl⟩) ?_) (hrefl _)
    rw [hbody]
    exact hrefl _
  | there s _ ih => exact List.rel_append (hrefl _) ih
  | inside header ss h ih =>
    exact List.rel_append (.cons (.inl (congrArg (Template.mk header) h.filter_isPlain)) ih) (hrefl _)

end Template.Replaced

theorem Registry.map_pruned_find?_of_forall₂ {t t' : Template} {ts us : List Template}
    {name : String} (ht : t'.name = t.name) (hname : name ≠ t.name)
    (h : List.Forall₂ (fun u u' => u'.pruned = u.pruned ∨ (u = t ∧ u' = t')) ts us) :
    (Registry.find? ⟨us⟩ name).map Template.pruned =
      (Registry.find? ⟨ts⟩ name).map Template.pruned := by
  unfold Registry.find?
  induction h with
  | nil => rfl
  | @cons u u' ts us hu _ ih =>
    rw [List.find?_cons, List.find?_cons]
    obtain hu | ⟨hu, hu'⟩ := hu
    · have hnames : u'.pruned.name = u.pruned.name := by rw [hu]
      rw [show u'.name = u.name from hnames]
      cases u.name == name with
      | true => exact congrArg some hu
      | false => exact ih
    · have hne : (t.name == name) = false := by simpa using hname.symm
      rw [hu, hu', ht, hne]
      exact ih

/-- A bare tag names the template, in the statements of the program or in the body of
a template. -/
def Program.Tags (p : Program) (template : String) : Prop :=
  ∃ s ∈ p.statements ++ (Statement.declarationsIn p.statements).flatMap Template.body,
    ∃ d ∈ s.definitions, .tag template ∈ d.chain

instance (p : Program) (template : String) : Decidable (p.Tags template) :=
  inferInstanceAs (Decidable (∃ s ∈ _, ∃ d ∈ Statement.definitions s, _))

namespace Program

variable {options : Options} {p q : Program} {t : Template} {f : String → String}

theorem tags_of_hasChain {template : String} {chain : List Mark} (h : p.HasChain chain)
    (htag : .tag template ∈ chain) : p.Tags template := by
  obtain ⟨d, hd, rfl⟩ := h
  obtain ⟨s, hs, hd⟩ := List.mem_flatMap.1 hd
  exact ⟨s, hs, d, hd, htag⟩

theorem declarationsIn_mapParameters (t : Template) (f : String → String) :
    Statement.declarationsIn (t.mapParameters f).body = Statement.declarationsIn t.body := by
  have hstatement (s : Statement) :
      (s.mapNames fun id => id.renamed (f id.name)).declarations = s.declarations := by
    cases s <;> rfl
  rw [declarationsIn_eq_flatMap, declarationsIn_eq_flatMap, Template.mapParameters,
    List.flatMap_map]
  simp only [hstatement]

section

variable (hreplaced : t.Replaced (t.mapParameters f) p.statements q.statements)

include hreplaced

theorem forall₂_declarationsIn : List.Forall₂
    (fun u u' => u'.pruned = u.pruned ∨ (u = t ∧ u' = t.mapParameters f))
    (Statement.declarationsIn p.statements) (Statement.declarationsIn q.statements) :=
  hreplaced.forall₂_declarationsIn (declarationsIn_mapParameters t f)

theorem map_id_declarationsIn : (Statement.declarationsIn q.statements).map (·.header.id) =
    (Statement.declarationsIn p.statements).map (·.header.id) := by
  refine List.forall₂_eq_eq_eq ▸ List.forall₂_map_left_iff.2 (List.forall₂_map_right_iff.2 ?_)
  refine (forall₂_declarationsIn hreplaced).flip.imp fun u' u h => ?_
  obtain h | ⟨rfl, rfl⟩ := h
  · have hid : u'.pruned.header.id = u.pruned.header.id := by rw [h]
    exact hid
  · rfl

theorem map_name_declarationsIn : (Statement.declarationsIn q.statements).map Template.name =
    (Statement.declarationsIn p.statements).map Template.name := by
  have hmap := congrArg (List.map Identifier.name) (map_id_declarationsIn hreplaced)
  rwa [List.map_map, List.map_map] at hmap

theorem map_pruned_find?_of_ne {name : String} (hname : name ≠ t.name) :
    ((q.compilation options).registry.find? name).map Template.pruned =
      ((p.compilation options).registry.find? name).map Template.pruned :=
  have hmap : (t.mapParameters f).name = t.name := rfl
  Registry.map_pruned_find?_of_forall₂ hmap hname (forall₂_declarationsIn hreplaced)

theorem agrees_of_replaced (options : Options) (hf : t.IsParameterRenaming f) (htags : ¬p.Tags t.name)
    (hdistinct : ((Statement.declarationsIn p.statements).map Template.name).Nodup) :
    (p.compilation options).Agrees (q.compilation options) fun d => .tag t.name ∉ d.chain := by
  have hids := map_id_declarationsIn hreplaced
  have hnames := map_name_declarationsIn hreplaced
  have hfound : (p.compilation options).registry.find? t.name = some t :=
    (Registry.find?_eq_some_iff hdistinct).2 ⟨hreplaced.mem_declarationsIn, rfl⟩
  have hfound' : (q.compilation options).registry.find? t.name = some (t.mapParameters f) :=
    (Registry.find?_eq_some_iff (hnames ▸ hdistinct)).2 ⟨hreplaced.symm.mem_declarationsIn, rfl⟩
  refine ⟨fun d _ => ?_, ?_, ?_⟩
  · refine Compilation.roles_congr ?_ (fun name => Registry.isSome_find?_congr ?_ name) d
    · rfl
    · exact hids
  · intro d site args inst hd hrole
    by_cases hsite : site.name = t.name
    · cases args with
      | none => exact absurd (hsite ▸ Compilation.tag_mem_chain_of_mem_roles hrole) hd
      | some args =>
        have hinstantiate := congrArg (List.filter Statement.isPlain <$> ·)
          (Template.instantiate_mapParameters hf site args inst)
        rw [Compilation.contents_of_declared (hsite ▸ hfound'),
          Compilation.contents_of_declared (hsite ▸ hfound)]
        simpa only [Functor.map_map] using hinstantiate
    · exact Compilation.contents_eq_of_pruned (map_pruned_find?_of_ne hreplaced hsite)
  · intro d site args inst ss _ _ hss s hs d' hd' htag
    exact htags (tags_of_hasChain (hasChain_of_mem_contents hss hs hd') htag)

/-- Other names for the parameters of a template that no tag names change nothing. -/
theorem facts_mapParameters (options : Options) (hf : t.IsParameterRenaming f)
    (htags : ¬p.Tags t.name) : q.facts options = p.facts options := by
  have hids := map_id_declarationsIn hreplaced
  have hnames := map_name_declarationsIn hreplaced
  by_cases hdistinct : ((Statement.declarationsIn p.statements).map Template.name).Nodup
  · have hagrees := agrees_of_replaced hreplaced options hf htags hdistinct
    have hemissions : (q.compilation options).emissions q.statements =
        (p.compilation options).emissions p.statements :=
      hagrees.emissions_eq_of_filter hreplaced.filter_isPlain fun s hs d hd htag =>
        htags ⟨s, List.mem_append_left _ hs, d, s.compiled_subset_definitions hd, htag⟩
    rw [facts_of_distinct (hnames ▸ hdistinct), facts_of_distinct hdistinct, hemissions]
  · obtain ⟨site, hsite, hfacts⟩ := facts_of_not_distinct options hdistinct
    obtain ⟨site', hsite', hfacts'⟩ := facts_of_not_distinct (p := q) options (hnames ▸ hdistinct)
    rw [Registry.ofStatements_error_congr hids hsite] at hsite'
    rw [hfacts, hfacts', Except.error.inj hsite']

end

end Program

/-! ## One parameter -/

namespace Template

/-- The template with `y` for `x` among its parameters, and for each `x` in its own
body. Templates declared there keep theirs. -/
def replaceParameter (t : Template) (x y : String) : Template :=
  t.mapParameters fun name => if name = x then y else name

theorem isParameterRenaming_replace {t : Template} {x y : String} (hx : x ∈ t.paramNames)
    (hmember : x ∉ t.memberNames) (hparams : y ∉ t.paramNames) (hbody : y ∉ t.bodyNames) :
    t.IsParameterRenaming fun name => if name = x then y else name where
  eq_of_notMem_params a _ ha := if_neg (ne_of_mem_of_not_mem hx ha).symm
  eq_of_member a ha := if_neg (ne_of_mem_of_not_mem ha hmember)
  injective a ha b hb h := by
    have hne {c : String} (hc : c ∈ t.paramNames ++ t.bodyNames) : c ≠ y := by
      rintro rfl
      exact (List.mem_append.1 hc).elim hparams hbody
    by_cases hax : a = x <;> by_cases hbx : b = x <;> simp only [hax, hbx, if_true, if_false] at h
    · rw [hax, hbx]
    · exact absurd h.symm (hne hb)
    · exact absurd h (hne ha)
    · exact h

end Template

/-- A parameter that its template does not define may be called by any name that is
not in the template, in one of its declarations. Facts stay the same, and so do
failures and their places, unless a tag names the template. -/
theorem Program.facts_eq_of_parameter_replaced {p q : Program} {t : Template} {x y : String}
    (options : Options) (hreplaced : t.Replaced (t.replaceParameter x y) p.statements q.statements)
    (htags : ¬p.Tags t.name) (hx : x ∈ t.paramNames) (hmember : x ∉ t.memberNames)
    (hparams : y ∉ t.paramNames) (hbody : y ∉ t.bodyNames) :
    q.facts options = p.facts options :=
  facts_mapParameters hreplaced options
    (Template.isParameterRenaming_replace hx hmember hparams hbody) htags

/-- A template that hands its parameter on to another one, which is declared in its
body and calls its own parameter the same. -/
def handingOn : Template :=
  ⟨⟨⟨"T", {}⟩, some [⟨"x", {}⟩], none⟩,
    [.template ⟨⟨"U", {}⟩, some [⟨"x", {}⟩], none⟩
        [.relation (.definition (.ofTags ["many"] "m")) .mapTo (.name ⟨"x", {}⟩)],
      .definition ⟨[.call ⟨"U", {}⟩ [⟨"x", {}⟩]], ⟨"n", {}⟩⟩,
      .relation (.expr (.name ⟨"x", {}⟩)) .structures (.name ⟨"n", {}⟩)]⟩

/-- The template is declared in another one. -/
def handedOn (t : Template) : Program :=
  ⟨[.template ⟨⟨"Outer", {}⟩, none, none⟩ [t.toStatement],
    .definition ⟨[.call ⟨"T", {}⟩ [⟨"a", {}⟩]], ⟨"i", {}⟩⟩]⟩

example : ((handedOn (handingOn.replaceParameter "x" "y")).facts {}).toOption.map (·.map Fact.text) =
    some ["apply_instance(T, i)", "apply_instance(U, __i__n)", "set(many, ____i__n__m)",
      "apply_mapto(____i__n__m, a)", "apply_mapto(__i__n, ____i__n__m)", "apply_mapto(i, __i__n)",
      "apply_structures(a, __i__n)"] := by
  decide +kernel

theorem facts_handedOn_eq_of_parameter_replaced :
    handingOn.Replaced (handingOn.replaceParameter "x" "y") (handedOn handingOn).statements
      (handedOn (handingOn.replaceParameter "x" "y")).statements ∧
    ¬(handedOn handingOn).Tags handingOn.name ∧ "x" ∈ handingOn.paramNames ∧
    "x" ∉ handingOn.memberNames ∧ "y" ∉ handingOn.paramNames ∧ "y" ∉ handingOn.bodyNames ∧
    (handedOn (handingOn.replaceParameter "x" "y")).facts {} = (handedOn handingOn).facts {} := by
  have hreplaced : handingOn.Replaced (handingOn.replaceParameter "x" "y")
      (handedOn handingOn).statements (handedOn (handingOn.replaceParameter "x" "y")).statements :=
    .inside _ _ (.here [])
  have htags : ¬(handedOn handingOn).Tags handingOn.name := by decide +kernel
  have hx : "x" ∈ handingOn.paramNames := by decide +kernel
  have hmember : "x" ∉ handingOn.memberNames := by decide +kernel
  have hparams : "y" ∉ handingOn.paramNames := by decide +kernel
  have hbody : "y" ∉ handingOn.bodyNames := by decide +kernel
  exact ⟨hreplaced, htags, hx, hmember, hparams, hbody,
    Program.facts_eq_of_parameter_replaced {} hreplaced htags hx hmember hparams hbody⟩

end InterfaceSchema
