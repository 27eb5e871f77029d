import InterfaceSchema.Proofs.Expansion.Run
import InterfaceSchema.Proofs.Sharing

/-!
# Instances

Which templates a run expands for which names, and under which names it compiles
their members. All facts of a run include those of the expansions that it reaches
(`Compilation.exists_expand_of_reaches`), the instances that they speak of are those
of these expansions (`Program.applyInstance_mem_allFacts_iff`), and the body of an
expansion defines each member under its member name (`Template.names_iff`).
-/

namespace InterfaceSchema

/-- The emissions have the fact that `template` is expanded for `inst`. -/
def Emission.Brings (template inst : String) (es : List Emission) : Prop :=
  Fact.applyInstance template inst ∈ flattenAll es

namespace Emission

variable {template inst : String} {es fs : List Emission}

theorem flattenAll_append (es fs : List Emission) :
    flattenAll (es ++ fs) = flattenAll es ++ flattenAll fs := by
  induction es with
  | nil => rfl
  | cons e es ih => rw [List.cons_append, flattenAll, flattenAll, ih, List.append_assoc]

theorem brings_append_iff :
    Brings template inst (es ++ fs) ↔ Brings template inst es ∨ Brings template inst fs := by
  rw [Brings, flattenAll_append, List.mem_append]
  rfl

theorem mem_flattenAll_flatten_iff {f : Fact} {ess : List (List Emission)} :
    f ∈ flattenAll ess.flatten ↔ ∃ es ∈ ess, f ∈ flattenAll es := by
  induction ess with
  | nil => simp [flattenAll]
  | cons es ess ih => simp [flattenAll_append, ih]

theorem brings_flatten_iff {ess : List (List Emission)} :
    Brings template inst ess.flatten ↔ ∃ es ∈ ess, Brings template inst es :=
  mem_flattenAll_flatten_iff

theorem flattenAll_map_fact {α : Type} (f : α → Fact) (xs : List α) :
    flattenAll (xs.map fun x => fact (f x)) = xs.map f := by
  induction xs with
  | nil => rfl
  | cons x xs ih => simp [flattenAll, flatten, ih]

theorem brings_fact_iff {f : Fact} :
    Brings template inst [fact f] ↔ f = .applyInstance template inst := by
  simp [Brings, flattenAll, flatten, eq_comm]

end Emission

namespace Compilation

open Emission

variable {c : Compilation} {expand : Expander} {scopes : Scopes} {site : Identifier}
  {args : Option (List Identifier)} {template inst inst' : String} {es : List Emission}
  {d : Definition} {s : Statement} {ss : List Statement}

theorem flattenAll_subset_of_emitDefinition {fs : List Emission}
    (h : c.emitDefinition expand d = .ok es) (hrole : .expand site args ∈ c.roles d)
    (hfs : expand site args d.id.name = .ok fs) : flattenAll fs ⊆ flattenAll es := by
  obtain ⟨_, ess, hess, rfl⟩ := emitDefinition_eq_ok_iff.1 h
  obtain ⟨fs', hfs', hemit⟩ := exists_of_mapM_eq_ok hess hrole
  obtain rfl : fs = fs' := Except.ok.inj (hfs.symm.trans hemit)
  exact fun f hf => mem_flattenAll_flatten_iff.2 ⟨fs, hfs', hf⟩

theorem flattenAll_subset_of_emitStatement {fs : List Emission}
    (h : c.emitStatement expand s = .ok es) (hd : d ∈ s.compiled)
    (hfs : c.emitDefinition expand d = .ok fs) : flattenAll fs ⊆ flattenAll es := by
  rw [emitStatement_eq] at h
  obtain ⟨ess, hess, rfl⟩ := map_eq_ok_iff.1 h
  obtain ⟨fs', hfs', hemit⟩ := exists_of_mapM_eq_ok hess hd
  obtain rfl : fs = fs' := Except.ok.inj (hfs.symm.trans hemit)
  rw [flattenAll_append]
  exact fun f hf => List.mem_append_left _ (mem_flattenAll_flatten_iff.2 ⟨fs, hfs', hf⟩)

/-- A definition of a statement that succeeds succeeds, and so does what it asks for. -/
theorem exists_expand_of_emitStatement (h : c.emitStatement expand s = .ok es)
    (hd : d ∈ s.compiled) (hrole : .expand site args ∈ c.roles d) :
    ∃ fs, expand site args d.id.name = .ok fs ∧ flattenAll fs ⊆ flattenAll es := by
  obtain ⟨gs, hgs⟩ := isOk_iff_exists.1
    (isOk_emitStatement_iff.1 (isOk_iff_exists.2 ⟨es, h⟩) d hd)
  obtain ⟨fs, hfs⟩ := isOk_iff_exists.1
    ((isOk_emitDefinition_iff.1 (isOk_iff_exists.2 ⟨gs, hgs⟩)).2 site args hrole)
  exact ⟨fs, hfs, List.Subset.trans (flattenAll_subset_of_emitDefinition hgs hrole hfs)
    (flattenAll_subset_of_emitStatement h hd hgs)⟩

/-- A member brings the facts of its statement and then the links to what the
statement defines, whether it is shared or not. -/
theorem flattenAll_emitMember (h : c.emitMember expand inst' s = .ok es) :
    ∃ es', c.emitStatement expand s = .ok es' ∧ flattenAll es =
      flattenAll es' ++ s.definitions.map fun d => .apply .mapTo inst' d.id.name := by
  obtain ⟨es', hes', h⟩ := bind_eq_ok_iff.1 h
  cases h
  refine ⟨es', hes', ?_⟩
  rw [flattenAll_append, links, flattenAll_map_fact]
  congr 1
  split
  · simp [flattenAll, flatten]
  · rfl

/-- An expansion that succeeds compiles each member of its body. -/
theorem exists_emitMember_of_expand {t : Template} {r : Renaming}
    (ho : c.Opens scopes site args t r) (h : c.expand scopes site args inst' = .ok es)
    (hs : s ∈ t.instantiate r inst') :
    ∃ fs, c.emitMember (c.inside scopes t inst') inst' s = .ok fs ∧
      flattenAll fs ⊆ flattenAll es := by
  obtain ⟨u, r', ess, ho', hess, rfl⟩ := expand_eq_ok_iff.1 h
  obtain ⟨rfl, rfl⟩ := ho.unique ho'
  obtain ⟨fs, hfs, hemit⟩ := exists_of_mapM_eq_ok hess hs
  refine ⟨fs, hemit, fun f hf => List.mem_cons_of_mem _ ?_⟩
  exact mem_flattenAll_flatten_iff.2 ⟨fs, hfs, hf⟩

/-- Every expansion that a successful run comes to succeeds, and the run has its
facts. -/
theorem exists_expand_of_reaches (h : c.emissions ss = .ok es)
    (hr : c.Reaches ss scopes site args inst') :
    ∃ fs, c.expand scopes site args inst' = .ok fs ∧ flattenAll fs ⊆ flattenAll es := by
  induction hr with
  | top hs hd hrole =>
    obtain ⟨ess, hess, rfl⟩ := map_eq_ok_iff.1 h
    obtain ⟨gs, hgs, hemit⟩ := exists_of_mapM_eq_ok hess hs
    obtain ⟨fs, hfs, hsubset⟩ := exists_expand_of_emitStatement hemit hd hrole
    exact ⟨fs, hfs, fun f hf => mem_flattenAll_flatten_iff.2 ⟨gs, hgs, hsubset hf⟩⟩
  | body _ ho hs hd hrole ih =>
    obtain ⟨gs, hgs, hrun⟩ := ih
    obtain ⟨ms, hms, hexpand⟩ := exists_emitMember_of_expand ho hgs hs
    obtain ⟨es', hes', hflatten⟩ := flattenAll_emitMember hms
    obtain ⟨fs, hfs, hsubset⟩ := exists_expand_of_emitStatement hes' hd hrole
    refine ⟨fs, hfs, fun f hf => hrun (hexpand ?_)⟩
    rw [hflatten]
    exact List.mem_append_left _ (hsubset hf)

/-! ## Instances of a run -/

/-- The run expands the template for `inst`, and `r` renames its parameters
there. -/
def Instantiates (c : Compilation) (ss : List Statement) (t : Template) (r : Renaming)
    (inst : String) : Prop :=
  ∃ scopes site args, c.Reaches ss scopes site args inst ∧ c.Opens scopes site args t r

/-- Only what its definitions ask for lets a statement bring instances. -/
theorem exists_of_brings_emitStatement (h : c.emitStatement expand s = .ok es)
    (hbrings : Brings template inst es) : ∃ d ∈ s.compiled, ∃ site args fs,
      .expand site args ∈ c.roles d ∧ expand site args d.id.name = .ok fs ∧
        Brings template inst fs := by
  rw [emitStatement_eq] at h
  obtain ⟨ess, hess, rfl⟩ := map_eq_ok_iff.1 h
  have hown : ¬Brings template inst (s.ownFacts.map fact) := by
    rw [Brings, flattenAll_map_fact]
    cases s <;> simp [Statement.ownFacts]
  rw [brings_append_iff, or_iff_left hown, brings_flatten_iff] at hbrings
  obtain ⟨es', hes', hbrings⟩ := hbrings
  obtain ⟨d, hd, hemit⟩ := exists_of_mem_mapM hess hes'
  obtain ⟨_, ess', hess', rfl⟩ := emitDefinition_eq_ok_iff.1 hemit
  obtain ⟨fs, hfs, hbrings⟩ := brings_flatten_iff.1 hbrings
  obtain ⟨role, hrole, hemit⟩ := exists_of_mem_mapM hess' hfs
  cases role with
  | expand site args => exact ⟨d, hd, site, args, fs, hrole, hemit, hbrings⟩
  | _ =>
    cases hemit
    simp [Brings, flattenAll, flatten, Emission.collector, Collector.emitting] at hbrings

theorem exists_of_brings_emitMember (h : c.emitMember expand inst' s = .ok es)
    (hbrings : Brings template inst es) : ∃ d ∈ s.compiled, ∃ site args fs,
      .expand site args ∈ c.roles d ∧ expand site args d.id.name = .ok fs ∧
        Brings template inst fs := by
  obtain ⟨es', hes', hflatten⟩ := flattenAll_emitMember h
  rw [Brings, hflatten, List.mem_append, or_iff_left (by simp)] at hbrings
  exact exists_of_brings_emitStatement hes' hbrings

/-- An instance that an expansion brings is that of an expansion that the run
reaches. The induction is on the templates not yet being expanded. -/
theorem instantiates_of_brings {fs : List Emission}
    (hr : c.Reaches ss scopes site args inst') (hfs : c.expand scopes site args inst' = .ok fs)
    (hbrings : Brings template inst fs) :
    ∃ t r, c.Instantiates ss t r inst ∧ t.name = template := by
  induction hn : scopes.remaining c.registry using Nat.strongRecOn
    generalizing scopes site args inst' fs with
  | _ n ih =>
    obtain ⟨t, r, ess, ho, hess, rfl⟩ := expand_eq_ok_iff.1 hfs
    rw [← List.singleton_append, brings_append_iff, brings_fact_iff] at hbrings
    rcases hbrings with hself | hbody
    · cases hself
      exact ⟨t, r, ⟨scopes, site, args, hr, ho⟩, rfl⟩
    · obtain ⟨es, hes, hb⟩ := brings_flatten_iff.1 hbody
      obtain ⟨s, hs, hemit⟩ := exists_of_mem_mapM hess hes
      obtain ⟨d, hd, site', args', gs, hrole, hgs, hb⟩ := exists_of_brings_emitMember hemit hb
      have hlt := Scopes.remaining_push_lt (Registry.mem_of_find? ho.found) ho.closed inst'
      exact ih _ (hn ▸ hlt) (hr.body ho hs hd hrole) hgs hb rfl

/-- The instances that a run brings are those of the expansions it reaches. -/
theorem brings_iff_instantiates (h : c.emissions ss = .ok es) :
    Brings template inst es ↔ ∃ t r, c.Instantiates ss t r inst ∧ t.name = template := by
  constructor
  · intro hbrings
    obtain ⟨ess, hess, rfl⟩ := map_eq_ok_iff.1 h
    obtain ⟨es', hes', hb⟩ := brings_flatten_iff.1 hbrings
    obtain ⟨s, hs, hemit⟩ := exists_of_mem_mapM hess hes'
    obtain ⟨d, hd, site, args, fs, hrole, hfs, hb⟩ := exists_of_brings_emitStatement hemit hb
    exact instantiates_of_brings (.top hs hd hrole) hfs hb
  · rintro ⟨t, r, ⟨scopes, site, args, hr, ho⟩, rfl⟩
    obtain ⟨fs, hfs, hsubset⟩ := exists_expand_of_reaches h hr
    obtain ⟨u, _, _, ho', _, rfl⟩ := expand_eq_ok_iff.1 hfs
    obtain ⟨rfl, -⟩ := ho.unique ho'
    exact hsubset List.mem_cons_self

end Compilation

theorem Program.isOk_allFacts (options : Options) (p : Program) :
    (p.allFacts options).isOk = (p.facts options).isOk := by
  rw [allFacts, facts, isOk_map, isOk_map]

theorem Program.applyInstance_mem_allFacts_iff {options : Options} {p : Program} {gs : FactBase}
    {template inst : String} (h : p.allFacts options = .ok gs) :
    .applyInstance template inst ∈ gs ↔ ∃ t r,
      (p.compilation options).Instantiates p.statements t r inst ∧ t.name = template := by
  obtain ⟨es, hes, rfl⟩ := map_eq_ok_iff.1 h
  exact Compilation.brings_iff_instantiates (Program.emissions_eq_ok_iff.1 hes).2

/-! ## Names of members -/

theorem Statement.definitions_eq_singleton {s : Statement} {d : Definition}
    (h : d ∈ s.definitions) : s.definitions = [d] := by
  cases s with
  | relation left _ _ => cases left <;> simp_all [definitions, Operand.definition?]
  | cover left _ _ => cases left <;> simp_all [definitions, Operand.definition?]
  | represents view _ _ => cases view <;> simp_all [definitions, Operand.definition?]
  | template _ _ => cases h
  | definition _ => simp_all [definitions]
  | term _ => cases h

namespace Renaming

variable {s : Statement} {d : Definition}

theorem definitions_bindMembers (template inst : String) (r : Renaming)
    (h : d ∈ s.definitions) :
    ((r.bindMembers template inst s).statement s).definitions =
      [⟨d.decorators.map (r.bindMembers template inst s).decorator,
        d.id.renamed (d.memberName template inst)⟩] := by
  have hfind : (r.bindMembers template inst s).find? d.id.name =
      some (d.memberName template inst) := by
    rw [bindMembers, Statement.definitions_eq_singleton h]
    exact find?_bind_self r _ _
  rw [definitions_statement, Statement.definitions_eq_singleton h, List.map_singleton, definition,
    identifier, hfind]

/-- The statements of a renamed body, each at the place of the one it comes from
and renamed with the members defined up to it. -/
theorem getElem?_body (template inst : String) (r : Renaming) (ss : List Statement) (i : Nat) :
    (r.body template inst ss)[i]? = ss[i]?.map fun s =>
      (((ss.take i).foldl (Renaming.bindMembers template inst) r).bindMembers template inst s).statement
        s := by
  induction ss generalizing r i with
  | nil => rfl
  | cons s ss ih =>
    cases i with
    | zero => rfl
    | succ i => exact ih _ i

end Renaming

/-- The body of the template for `inst` defines its member `d` under `name`. -/
def Template.Names (t : Template) (r : Renaming) (inst : String) (d : Definition)
    (name : String) : Prop :=
  ∃ (i : Nat) (s s' : Statement), t.body[i]? = some s ∧ d ∈ s.definitions ∧
    (t.instantiate r inst)[i]? = some s' ∧ ∃ d' ∈ s'.definitions, d'.id.name = name

/-- Whatever the parameters stand for, each member is defined under its member
name and no other. -/
theorem Template.names_iff {t : Template} {r : Renaming} {inst name : String} {d : Definition} :
    t.Names r inst d name ↔
      (∃ s ∈ t.body, d ∈ s.definitions) ∧ name = d.memberName t.name inst := by
  constructor
  · rintro ⟨i, s, s', hs, hd, hs', d', hd', rfl⟩
    refine ⟨⟨s, List.mem_of_getElem? hs, hd⟩, ?_⟩
    rw [instantiate, Renaming.getElem?_body, hs] at hs'
    cases hs'
    rw [Renaming.definitions_bindMembers t.name inst _ hd] at hd'
    obtain rfl := List.mem_singleton.1 hd'
    rfl
  · rintro ⟨⟨s, hs, hd⟩, rfl⟩
    obtain ⟨i, hi⟩ := List.getElem?_of_mem hs
    have hmem := Renaming.definitions_bindMembers t.name inst
      ((t.body.take i).foldl (Renaming.bindMembers t.name inst) r) hd
    exact ⟨i, s, _, hi, hd, by rw [instantiate, Renaming.getElem?_body, hi]; rfl, _,
      by rw [hmem]; exact List.mem_singleton_self _, rfl⟩

end InterfaceSchema
