import InterfaceSchema.Proofs.Expansion.Instances
import InterfaceSchema.Proofs.Expansion.Refusal
import InterfaceSchema.Proofs.Expansion.Unshared

/-!
# Locality

Only a block leaves something behind for what comes after it, the texts it has
brought, and only a shared member makes a block. Behind templates without shared
members every statement therefore brings the facts that it brings alone, whatever
was expanded before it: the facts of a program are those of its statements, each
compiled behind the templates alone (`Program.facts_append_eq`).
-/

namespace InterfaceSchema

namespace Emission

variable {es : List Emission}

theorem settleAll_of_isFact (seen : List String) (h : ∀ e ∈ es, e.isFact = true) :
    settleAll seen es = (flattenAll es, seen) := by
  induction es with
  | nil => rfl
  | cons e es ih =>
    obtain ⟨he, hes⟩ := List.forall_mem_cons.1 h
    cases e with
    | fact f => simp [settleAll, settle, ih hes, flattenAll, flatten]
    | once block => cases he

theorem facts_of_isFact (h : ∀ e ∈ es, e.isFact = true) : facts es = flattenAll es := by
  rw [facts, settleAll_of_isFact [] h]

end Emission

/-- No template of the registry has a shared member. -/
def Registry.SharesNothing (r : Registry) : Prop :=
  ∀ t ∈ r.templates, ∀ s ∈ t.body, ∀ d ∈ s.definitions, d.isShared = false

theorem Registry.SharesNothing.isShared_of_mem_instantiate {registry : Registry}
    (h : registry.SharesNothing) {t : Template} (ht : t ∈ registry.templates) {r : Renaming}
    {inst : String} {s : Statement} (hs : s ∈ t.instantiate r inst) : s.isShared = false := by
  obtain ⟨u, hu, r', rfl⟩ := Renaming.exists_of_mem_body hs
  rw [Statement.isShared, Renaming.definitions_statement, List.any_map, List.any_eq_false]
  intro d hd
  rw [Function.comp_apply, Renaming.isShared_definition, h t ht u hu d hd]
  exact Bool.false_ne_true

namespace Compilation

variable {c : Compilation} {ss : List Statement} {es : List Emission}

section

variable (hc : c.registry.SharesNothing)

include hc

theorem expand_unshared_eq (scopes : Scopes) (site : Identifier)
    (args : Option (List Identifier)) (inst : String) :
    Collector.unshared.expand c scopes site args inst = c.expand scopes site args inst := by
  induction scopes, site, args, inst using c.expansion_induction with
  | undeclared scopes site args inst ht =>
    rw [expand_of_undeclared ht]
    exact Collector.expand_of_undeclared ht
  | recursive scopes site args inst t ht hs =>
    rw [expand_of_isExpanding ht hs]
    exact Collector.expand_of_isExpanding ht hs
  | closed scopes site args inst t ht hs ih =>
    have hinner : Collector.unshared.expand c (scopes.push ⟨t.name, inst⟩) = c.inside scopes t inst :=
      funext fun site => funext fun args => funext fun inst' => ih site args inst'
    rw [expand_of_closed ht hs, Collector.expand_of_closed ht hs, hinner]
    refine bind_congr fun r => (Collector.template_eq (fun _ => rfl) r).trans ?_
    refine congrArg (· >>= _) (mapM_congr fun s hmem => ?_)
    show (do
      let es ← if s.isShared then pure [] else c.emitStatement (c.inside scopes t inst) s
      return es ++ Emission.links inst s) = _
    rw [emitMember_eq, hc.isShared_of_mem_instantiate (Registry.mem_of_find? ht) hmem]
    rfl

theorem isFact_of_mem_emissions (h : c.emissions ss = .ok es) : ∀ e ∈ es, e.isFact = true := by
  have hexpand : Collector.unshared.expand c [] = c.expand [] :=
    funext fun site => funext fun args => funext fun inst => expand_unshared_eq hc [] site args inst
  have hfilter : c.emissions ss = .ok (es.filter Emission.isFact) := by
    rw [← Collector.unshared_statements_eq h, Collector.statements, hexpand]
    rfl
  exact List.filter_eq_self.1 (Except.ok.inj (hfilter.symm.trans h))

theorem facts_emissions_eq (ss : List Statement) :
    Emission.facts <$> c.emissions ss = Emission.flattenAll <$> c.emissions ss := by
  cases h : c.emissions ss with
  | error e => rfl
  | ok es => exact congrArg Except.ok (Emission.facts_of_isFact (isFact_of_mem_emissions hc h))

/-- The facts of statements are those of each statement alone, one after the other. -/
theorem facts_emissions_eq_flatten (ss : List Statement) : Emission.facts <$> c.emissions ss =
    List.flatten <$> ss.mapM fun s => Emission.facts <$> c.emissions [s] := by
  simp only [facts_emissions_eq hc]
  induction ss with
  | nil => rfl
  | cons s ss ih =>
    rw [flatten_mapM_cons, ← ih, emissions_eq, emissions_eq, emissions_eq, flatten_mapM_cons,
      flatten_mapM_cons]
    cases c.emitStatement (c.expand []) s with
    | error e => rfl
    | ok es =>
      cases List.flatten <$> ss.mapM (c.emitStatement (c.expand [])) with
      | error e => rfl
      | ok es' =>
        refine congrArg Except.ok ?_
        rw [Emission.flattenAll_append, Emission.flattenAll_append]
        exact congrArg (· ++ _) (List.append_nil _).symm

end

end Compilation

/-! ## Programs behind templates -/

namespace Statement

theorem declarations_of_isPlain {s : Statement} (h : s.isPlain = true) : s.declarations = [] := by
  cases s with
  | template header body => cases h
  | _ => rfl

theorem declarationsIn_append_of_isPlain (ds : List Statement) {ss : List Statement}
    (h : ∀ s ∈ ss, s.isPlain = true) : declarationsIn (ds ++ ss) = declarationsIn ds := by
  rw [Program.declarationsIn_eq_flatMap, Program.declarationsIn_eq_flatMap, List.flatMap_append,
    List.flatMap_eq_nil_iff.2 fun s hs => declarations_of_isPlain (h s hs), List.append_nil]

end Statement

namespace Program

variable {options : Options} {ds ss : List Statement}

section

variable (htemplates : ∀ d ∈ ds, d.isPlain = false) (hplain : ∀ s ∈ ss, s.isPlain = true)

include hplain

/-- Statements behind templates are compiled with these templates. -/
theorem compilation_append (options : Options) :
    Program.compilation options ⟨ds ++ ss⟩ = Program.compilation options ⟨ds⟩ := by
  rw [compilation, compilation, Statement.declarationsIn_append_of_isPlain ds hplain]

include htemplates

theorem facts_append_of_distinct (options : Options)
    (h : ((Statement.declarationsIn ds).map Template.name).Nodup) :
    Program.facts options ⟨ds ++ ss⟩ =
      Emission.facts <$> (Program.compilation options ⟨ds⟩).emissions ss := by
  have hnone : ds.filter Statement.isPlain = [] :=
    List.filter_eq_nil_iff.2 fun d hd => by simp [htemplates d hd]
  have hdistinct : ((Statement.declarationsIn (ds ++ ss)).map Template.name).Nodup := by
    rwa [Statement.declarationsIn_append_of_isPlain ds hplain]
  rw [facts_of_distinct (p := ⟨ds ++ ss⟩) hdistinct, compilation_append hplain,
    ← Compilation.emissions_filter_isPlain _ (ds ++ ss), List.filter_append, hnone, List.nil_append,
    Compilation.emissions_filter_isPlain]

omit htemplates in
/-- Behind templates whose names are not distinct nothing is compiled. -/
theorem facts_append_of_not_distinct {site : Identifier} (options : Options)
    (h : Registry.ofStatements ds = .error (.duplicateTemplate site)) :
    Program.facts options ⟨ds ++ ss⟩ = .error (.duplicateTemplate site) := by
  refine facts_eq_error_iff.2 (.inl ?_)
  rw [← h, Registry.ofStatements, Registry.ofStatements, Registry.registerAll, Registry.registerAll,
    Statement.declarationsIn_append_of_isPlain ds hplain]

/-- Behind templates without shared members the facts of statements are those of
each statement alone, one after the other. -/
theorem facts_append_eq (options : Options)
    (hshared : Registry.SharesNothing ⟨Statement.declarationsIn ds⟩)
    (h : ((Statement.declarationsIn ds).map Template.name).Nodup) :
    Program.facts options ⟨ds ++ ss⟩ =
      List.flatten <$> ss.mapM fun s => Program.facts options ⟨ds ++ [s]⟩ := by
  have hshared : (Program.compilation options ⟨ds⟩).registry.SharesNothing := hshared
  have halone : ∀ s ∈ ss, Program.facts options ⟨ds ++ [s]⟩ =
      Emission.facts <$> (Program.compilation options ⟨ds⟩).emissions [s] := fun s hs =>
    facts_append_of_distinct htemplates (List.forall_mem_singleton.2 (hplain s hs)) options h
  rw [facts_append_of_distinct htemplates hplain options h, mapM_congr halone,
    Compilation.facts_emissions_eq_flatten hshared]

end

/-- Unless two templates have one name, which is the error then, statements behind
templates without shared members succeed exactly if each of them does behind the
templates alone. They then have the facts that these have, and otherwise the first
error among theirs. -/
theorem facts_append_of_sharesNothing (options : Options) (htemplates : ∀ d ∈ ds, d.isPlain = false)
    (hplain : ∀ s ∈ ss, s.isPlain = true)
    (hshared : Registry.SharesNothing ⟨Statement.declarationsIn ds⟩) :
    (∃ site, Registry.ofStatements ds = .error (.duplicateTemplate site) ∧
      Program.facts options ⟨ds ++ ss⟩ = .error (.duplicateTemplate site) ∧
      ∀ s ∈ ss, Program.facts options ⟨ds ++ [s]⟩ = .error (.duplicateTemplate site)) ∨
    (((Program.facts options ⟨ds ++ ss⟩).isOk = true ↔
        ∀ s ∈ ss, (Program.facts options ⟨ds ++ [s]⟩).isOk = true) ∧
      (∀ fs, Program.facts options ⟨ds ++ ss⟩ = .ok fs → ∃ fss,
        ss.mapM (fun s => Program.facts options ⟨ds ++ [s]⟩) = .ok fss ∧ fs = fss.flatten) ∧
      ∀ e, Program.facts options ⟨ds ++ ss⟩ = .error e → ∃ before s behind,
        ss = before ++ s :: behind ∧
          (∀ s' ∈ before, (Program.facts options ⟨ds ++ [s']⟩).isOk = true) ∧
          Program.facts options ⟨ds ++ [s]⟩ = .error e) := by
  by_cases hdistinct : ((Statement.declarationsIn ds).map Template.name).Nodup
  · refine .inr ?_
    rw [facts_append_eq htemplates hplain options hshared hdistinct, isOk_map, isOk_mapM_iff]
    refine ⟨Iff.rfl, fun fs h => ?_, fun e h => mapM_eq_error_iff.1 (map_eq_error_iff.1 h)⟩
    obtain ⟨fss, hfss, rfl⟩ := map_eq_ok_iff.1 h
    exact ⟨fss, hfss, rfl⟩
  · obtain ⟨site, hsite, _⟩ := facts_of_not_distinct (p := ⟨ds⟩) options hdistinct
    exact .inl ⟨site, hsite, facts_append_of_not_distinct hplain options hsite, fun s hs =>
      facts_append_of_not_distinct (List.forall_mem_singleton.2 (hplain s hs)) options hsite⟩

/-- A template, one whose members are its instances, and one declared inside. -/
def templatesUnshared : List Statement :=
  [.template ⟨⟨"T", {}⟩, none, none⟩
    [.template ⟨⟨"U", {}⟩, none, none⟩ [.definition (.ofTags ["single"] "u")],
      .definition (.ofTags ["single"] "t"), .definition (.ofTags ["U"] "v")],
    .template ⟨⟨"W", {}⟩, none, none⟩ [.definition (.ofTags ["T"] "w")]]

def instancesUnshared : List Statement :=
  [.definition (.ofTags ["W"] "a"), .definition (.ofTags ["T"] "b"), .definition (.ofTags ["W"] "c")]

theorem facts_append_of_sharesNothing_instancesUnshared : ∃ fss,
    instancesUnshared.mapM (fun s => Program.facts {} ⟨templatesUnshared ++ [s]⟩) = .ok fss ∧
      Program.facts {} ⟨templatesUnshared ++ instancesUnshared⟩ = .ok fss.flatten := by
  have hok : (Program.facts {} ⟨templatesUnshared ++ instancesUnshared⟩).isOk = true := by
    decide +kernel
  obtain ⟨fs, hfs⟩ := isOk_iff_exists.1 hok
  have htemplates : ∀ d ∈ templatesUnshared, d.isPlain = false := by decide +kernel
  have hplain : ∀ s ∈ instancesUnshared, s.isPlain = true := by decide +kernel
  have hshared : Registry.SharesNothing ⟨Statement.declarationsIn templatesUnshared⟩ := by
    unfold Registry.SharesNothing
    decide +kernel
  rcases facts_append_of_sharesNothing {} htemplates hplain hshared with
    ⟨site, _, herror, _⟩ | ⟨_, hfacts, _⟩
  · rw [hfs] at herror
    cases herror
  · obtain ⟨fss, hfss, rfl⟩ := hfacts fs hfs
    exact ⟨fss, hfss, hfs⟩

end Program

end InterfaceSchema
