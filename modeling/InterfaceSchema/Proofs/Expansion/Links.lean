import InterfaceSchema.Proofs.Expansion.Instances

/-!
# Links

`Work` is what a run does, told as a tree: which definitions it lowers, which
templates it expands for which instances, and which members it links to behind each
statement of a body. `Program.trace` is the run that tells its work, and a run emits
what its work emits (`Program.emissions_eq_trace`). Links and lowering go two ways
over a statement, and agree but for the binding of a view: it lowers nothing and is
followed by a link all the same (`Program.links_of_trace`).
-/

namespace InterfaceSchema

/-- A fact; a definition with all that its decorators bring; a template expanded for
an instance, with its body; or a statement of a body, with its own work and the names
that the links behind it lead to. -/
inductive Work where
  | fact (f : Fact)
  | lowered (d : Definition) (inner : List Work)
  | expanded (template inst : String) (body : List Work)
  | member (inst : String) (s : Statement) (inner : List Work) (links : List String)
  deriving Repr, Inhabited

namespace Work

mutual
def emissions : Work → List Emission
  | fact f => [.fact f]
  | lowered _ inner => emissionsAll inner
  | expanded template inst body => .fact (.applyInstance template inst) :: emissionsAll body
  | member inst s inner links =>
    (if s.isShared then [.once (emissionsAll inner)] else emissionsAll inner) ++
      links.map fun name => .fact (.apply .mapTo inst name)

def emissionsAll : List Work → List Emission
  | [] => []
  | w :: ws => emissions w ++ emissionsAll ws
end

mutual
/-- The work and all work inside it. -/
def parts : Work → List Work
  | fact f => [fact f]
  | lowered d inner => lowered d inner :: partsAll inner
  | expanded template inst body => expanded template inst body :: partsAll body
  | member inst s inner links => member inst s inner links :: partsAll inner

def partsAll : List Work → List Work
  | [] => []
  | w :: ws => parts w ++ partsAll ws
end

def definition? : Work → Option Definition
  | lowered d _ => some d
  | _ => none

/-- The statement of a body, and the instance it is compiled for. -/
def member? : Work → Option (String × Statement)
  | member inst s _ _ => some (inst, s)
  | _ => none

def links : Work → List String
  | member _ _ _ links => links
  | _ => []

theorem emissionsAll_eq_flatMap (ws : List Work) : emissionsAll ws = ws.flatMap emissions := by
  induction ws with
  | nil => rfl
  | cons w ws ih => rw [emissionsAll, ih, List.flatMap_cons]

theorem partsAll_eq_flatMap (ws : List Work) : partsAll ws = ws.flatMap parts := by
  induction ws with
  | nil => rfl
  | cons w ws ih => rw [partsAll, ih, List.flatMap_cons]

def collector : Collector (Except SemanticError) Work where
  lift x := x
  tell _ := .ok ()
  fact := .fact
  lowered d ws := [.lowered d ws]
  member inst s traced := do
    let ws ← traced
    return [.member inst s ws (s.definitions.map fun d => d.id.name)]
  expanded template inst ws := [.expanded template inst ws]

end Work

def Program.trace (options : Options) (p : Program) : Except SemanticError (List Work) :=
  Work.collector.program options p

theorem Work.simulates_emissions : Work.collector.Simulates (.agreement SemanticError)
    (fun ws es => Work.emissionsAll ws = es) Emission.collector where
  undecorated _ := .error _
  tell _ := .ok rfl
  nil := rfl
  append := by
    rintro ws ws' _ _ rfl rfl
    simp only [emissionsAll_eq_flatMap, List.flatMap_append]
  fact _ := rfl
  lowered _ _ _ h := by rw [← h]; exact List.append_nil _
  member inst s x x' h := by
    refine (Lifting.agreement SemanticError).bind h fun ws _ hws => .ok ?_
    subst hws
    exact (List.append_nil _).trans (by rw [emissions, List.map_map]; rfl)
  expanded _ _ _ _ h := by rw [← h]; exact List.append_nil _

/-- A run emits what its work emits. -/
theorem Program.emissions_eq_trace (options : Options) (p : Program) :
    p.emissions options = Work.emissionsAll <$> p.trace options :=
  (Work.simulates_emissions.program id options p).map_eq.symm

/-! ## The account of work -/

/-- The statement binds a view that it defines itself. -/
def Statement.bindsView : Statement → Bool
  | represents (.definition _) _ _ => true
  | _ => false

theorem Statement.compiled_of_not_bindsView {s : Statement} (h : s.bindsView = false) :
    s.compiled = s.definitions := by
  cases s with
  | represents view data shape =>
    cases view with
    | definition d => cases h
    | expr e => rfl
  | _ => rfl

theorem Statement.exists_definition_of_bindsView {s : Statement} (h : s.bindsView = true) :
    s.compiled = [] ∧ ∃ d, s.definitions = [d] := by
  cases s with
  | represents view data shape =>
    cases view with
    | definition d => exact ⟨rfl, d, rfl⟩
    | expr e => cases h
  | _ => cases h

namespace Compilation

/-- What an expansion and a member come to: the body of the template, and the
definitions that are lowered and linked to. -/
def Accounts (c : Compilation) : Work → Prop
  | .fact _ => True
  | .lowered _ _ => True
  | .expanded template inst body => ∃ scopes site args t r, c.Opens scopes site args t r ∧
    t.name = template ∧ body.map Work.member? = (t.instantiate r inst).map fun s => some (inst, s)
  | .member _ s inner links => inner.filterMap Work.definition? = s.compiled ∧
    links = s.definitions.map fun d => d.id.name

/-- The work and all work inside it has its account. -/
def AccountsAll (c : Compilation) (ws : List Work) : Prop := ∀ w ∈ Work.partsAll ws, c.Accounts w

variable {c : Compilation} {trace : Expansion (Except SemanticError) Work} {scopes : Scopes} {site : Identifier}
  {args : Option (List Identifier)} {inst : String} {d : Definition} {s : Statement} {w : Work}
  {ws : List Work}

namespace AccountsAll

theorem nil : c.AccountsAll [] := nofun

theorem append_iff {ws' : List Work} :
    c.AccountsAll (ws ++ ws') ↔ c.AccountsAll ws ∧ c.AccountsAll ws' := by
  simp only [AccountsAll, Work.partsAll_eq_flatMap, List.flatMap_append, List.forall_mem_append]

theorem singleton_iff : c.AccountsAll [w] ↔ ∀ part ∈ w.parts, c.Accounts part := by
  rw [AccountsAll, Work.partsAll_eq_flatMap, List.flatMap_singleton]

theorem flatten {wss : List (List Work)} (h : ∀ ws ∈ wss, c.AccountsAll ws) :
    c.AccountsAll wss.flatten := by
  induction wss with
  | nil => exact nil
  | cons ws wss ih =>
    obtain ⟨hws, hwss⟩ := List.forall_mem_cons.1 h
    exact append_iff.2 ⟨hws, ih hwss⟩

theorem fact (f : Fact) : c.AccountsAll [.fact f] :=
  singleton_iff.2 (List.forall_mem_singleton.2 trivial)

theorem map_fact (fs : List Fact) : c.AccountsAll (fs.map Work.fact) := by
  induction fs with
  | nil => exact nil
  | cons f fs ih => exact append_iff.2 ⟨fact f, ih⟩

theorem lowered (d : Definition) (h : c.AccountsAll ws) : c.AccountsAll [.lowered d ws] :=
  singleton_iff.2 (List.forall_mem_cons.2 ⟨trivial, h⟩)

end AccountsAll

section

variable (htrace : ∀ site args inst ws, trace site args inst = .ok ws → c.AccountsAll ws)

include htrace

theorem accountsAll_role {name : String} {role : Role}
    (h : Work.collector.role trace name role = .ok ws) : c.AccountsAll ws := by
  cases role with
  | structuredAs tag =>
    cases h
    exact .append_iff.2 ⟨.fact _, .fact _⟩
  | expand site args => exact htrace site args name ws h
  | _ =>
    cases h
    exact .fact _

theorem accountsAll_definition (h : Work.collector.definition c trace d = .ok ws) :
    c.AccountsAll ws ∧ ws.filterMap Work.definition? = [d] := by
  unfold Collector.definition at h
  split at h
  · cases h
  · obtain ⟨wss, hwss, rfl⟩ := map_eq_ok_iff.1 h
    refine ⟨.lowered d (.flatten fun ws hws => ?_), rfl⟩
    obtain ⟨role, _, hrole⟩ := exists_of_mem_mapM hwss hws
    exact accountsAll_role htrace hrole

theorem accountsAll_statement (h : Work.collector.statement c trace s = .ok ws) :
    c.AccountsAll ws ∧ ws.filterMap Work.definition? = s.compiled := by
  rw [Collector.statement_eq fun _ => rfl] at h
  obtain ⟨wss, hwss, rfl⟩ := map_eq_ok_iff.1 h
  constructor
  · refine AccountsAll.append_iff.2 ⟨.flatten fun ws hws => ?_, .map_fact s.ownFacts⟩
    obtain ⟨d, _, hd⟩ := exists_of_mem_mapM hwss hws
    exact (accountsAll_definition htrace hd).1
  · have hlowered : wss.map (List.filterMap Work.definition?) = s.compiled.map fun d => [d] :=
      map_of_mapM_eq_ok (fun d _ ws hd => (accountsAll_definition htrace hd).2) hwss
    have hown : (s.ownFacts.map Work.fact).filterMap Work.definition? = [] := by
      rw [List.filterMap_map]
      exact List.filterMap_eq_nil_iff.2 fun _ _ => rfl
    show (wss.flatten ++ s.ownFacts.map Work.fact).filterMap Work.definition? = s.compiled
    rw [List.filterMap_append, hown, List.append_nil, List.filterMap_flatten, hlowered,
      ← List.flatMap_def, List.flatMap_singleton']

theorem accountsAll_member
    (h : Work.collector.member inst s (Work.collector.statement c trace s) = .ok ws) :
    c.AccountsAll ws ∧ ws.map Work.member? = [some (inst, s)] := by
  obtain ⟨inner, hinner, h⟩ := bind_eq_ok_iff.1 h
  cases h
  obtain ⟨haccounts, hlowered⟩ := accountsAll_statement htrace hinner
  exact ⟨AccountsAll.singleton_iff.2 (List.forall_mem_cons.2 ⟨⟨hlowered, rfl⟩, haccounts⟩), rfl⟩

end

theorem accountsAll_expand (h : Work.collector.expand c scopes site args inst = .ok ws) :
    c.AccountsAll ws := by
  induction scopes, site, args, inst using c.expansion_induction generalizing ws with
  | undeclared scopes site args inst ht =>
    rw [Collector.expand_of_undeclared ht] at h
    cases h
  | recursive scopes site args inst t ht hs =>
    rw [Collector.expand_of_isExpanding ht hs] at h
    cases h
  | closed scopes site args inst t ht hs ih =>
    rw [Collector.expand_of_closed ht hs] at h
    obtain ⟨r, hr, h⟩ := bind_eq_ok_iff.1 h
    rw [Collector.template_eq fun _ => rfl] at h
    obtain ⟨wss, hwss, h⟩ := bind_eq_ok_iff.1 h
    cases h
    have hmember (s : Statement) (ws : List Work) (h : Work.collector.member inst s
        (Work.collector.statement c (Work.collector.expand c (scopes.push ⟨t.name, inst⟩)) s) =
          .ok ws) : c.AccountsAll ws ∧ ws.map Work.member? = [some (inst, s)] :=
      accountsAll_member (fun site args inst' ws => ih site args inst') h
    have hbody : c.AccountsAll wss.flatten := .flatten fun ws hws => by
      obtain ⟨s, _, hs⟩ := exists_of_mem_mapM hwss hws
      exact (hmember s ws hs).1
    have hmembers : wss.map (List.map Work.member?) =
        (t.instantiate r inst).map fun s => [some (inst, s)] :=
      map_of_mapM_eq_ok (fun s _ ws hs => (hmember s ws hs).2) hwss
    refine AccountsAll.singleton_iff.2 (List.forall_mem_cons.2 ⟨?_, hbody⟩)
    refine ⟨scopes, site, args, t, r, ⟨ht, hs, hr⟩, rfl, ?_⟩
    rw [List.map_flatten, hmembers, ← List.flatMap_def, ← List.map_eq_flatMap]

theorem accountsAll_statements {ss : List Statement}
    (h : Work.collector.statements c ss = .ok ws) : c.AccountsAll ws := by
  obtain ⟨wss, hwss, rfl⟩ := map_eq_ok_iff.1 h
  refine .flatten fun ws hws => ?_
  obtain ⟨s, _, hs⟩ := exists_of_mem_mapM hwss hws
  exact (accountsAll_statement (fun _ _ _ _ => accountsAll_expand) hs).1

end Compilation

/-! ## Links and lowering -/

/-- A run that succeeds puts links behind each statement of a body to exactly those
of its definitions that it lowers there, unless the statement binds a view that it
defines itself: then it lowers nothing and puts a link to the view. -/
theorem Program.links_of_trace {options : Options} {p : Program} {fs : FactBase}
    (h : p.facts options = .ok fs) : ∃ ws, p.trace options = .ok ws ∧
      fs = Emission.facts (Work.emissionsAll ws) ∧
      (∀ template inst body, .expanded template inst body ∈ Work.partsAll ws →
        ∃ scopes site args t r, (p.compilation options).Opens scopes site args t r ∧
          t.name = template ∧
          body.map Work.member? = (t.instantiate r inst).map fun s => some (inst, s)) ∧
      ∀ inst s inner links, .member inst s inner links ∈ Work.partsAll ws →
        links = (s.definitions.map fun d => d.id.name) ∧
        (s.bindsView = false → inner.filterMap Work.definition? = s.definitions) ∧
        (s.bindsView = true → inner.filterMap Work.definition? = [] ∧ ∃ name, links = [name]) := by
  obtain ⟨es, hes, rfl⟩ := map_eq_ok_iff.1 h
  rw [emissions_eq_trace] at hes
  obtain ⟨ws, hws, rfl⟩ := map_eq_ok_iff.1 hes
  obtain ⟨registry, hregistry, hstatements⟩ := bind_eq_ok_iff.1 hws
  obtain ⟨rfl, _⟩ := Registry.ofStatements_eq_ok_iff.1 hregistry
  have haccounts := Compilation.accountsAll_statements hstatements
  refine ⟨ws, hws, rfl, fun template inst body hw => haccounts _ hw, fun inst s inner links hw => ?_⟩
  obtain ⟨hlowered, hlinks⟩ := haccounts _ hw
  refine ⟨hlinks, fun hview => ?_, fun hview => ?_⟩
  · rw [hlowered, Statement.compiled_of_not_bindsView hview]
  · obtain ⟨hnone, d, hd⟩ := Statement.exists_definition_of_bindsView hview
    exact ⟨hlowered.trans hnone, d.id.name, by rw [hlinks, hd]; rfl⟩

/-- A body that binds a view which it defines itself. -/
def viewInside : Program :=
  ⟨[.template ⟨⟨"P", {}⟩, none, none⟩
      [.represents (.definition (.ofTags ["single"] "v")) ⟨.name ⟨"d", {}⟩, none⟩ none],
    .definition (.ofTags ["many", "P"] "i")]⟩

/-- The run links to the view, and lowers no definition under its name. -/
theorem viewInside_links_to_unlowered :
    (viewInside.facts {}).toOption.map FactBase.texts =
      some ["set(many, i)", "apply_instance(P, i)", "[represents not implemented]",
        "apply_mapto(i, __i__v)"] ∧
    (viewInside.trace {}).toOption.map (fun ws => (Work.partsAll ws).flatMap Work.links) =
      some ["__i__v"] ∧
    (viewInside.trace {}).toOption.map (fun ws =>
      ((Work.partsAll ws).filterMap Work.definition?).map fun d => d.id.name) = some ["i"] := by
  decide +kernel

theorem links_of_trace_viewInside : ∃ ws, viewInside.trace {} = .ok ws ∧
    ∀ inst s inner links, .member inst s inner links ∈ Work.partsAll ws →
      links = (s.definitions.map fun d => d.id.name) ∧
      (s.bindsView = false → inner.filterMap Work.definition? = s.definitions) ∧
      (s.bindsView = true → inner.filterMap Work.definition? = [] ∧ ∃ name, links = [name]) := by
  have hok : (viewInside.facts {}).isOk = true := by decide +kernel
  obtain ⟨fs, hfs⟩ := isOk_iff_exists.1 hok
  obtain ⟨ws, hws, _, _, hmembers⟩ := Program.links_of_trace hfs
  exact ⟨ws, hws, hmembers⟩

end InterfaceSchema
