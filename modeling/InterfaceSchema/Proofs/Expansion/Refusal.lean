import InterfaceSchema.Proofs.Expansion.Acceptance

/-!
# Refusals

An expansion is refused before it gets to the body of its template: there is no such
template, it is being expanded already, or it has another number of parameters
(`Compilation.Refuses`). The error of a run in which definitions have decorators is
that of one refused expansion among those that it comes to
(`Compilation.exists_refusal`), and each of these stands in a statement as it was
written (`Compilation.Reaches.written`): renaming a body over and over changes
neither the names nor the numbers of arguments in its calls.
-/

namespace InterfaceSchema

/-- What compiling the statement expands has decorators. -/
def Statement.IsDecorated (s : Statement) : Prop := ∀ d ∈ s.compiled, d.decorators ≠ []

theorem Renaming.isDecorated_statement {r : Renaming} {s : Statement} (h : s.IsDecorated) :
    (r.statement s).IsDecorated := by
  intro d hd
  rw [compiled_statement] at hd
  obtain ⟨d', hd', rfl⟩ := List.mem_map.1 hd
  simpa [definition] using h d' hd'

/-- A statement of a renamed body is one of the body, renamed. -/
theorem Renaming.exists_of_mem_body {template inst : String} {r : Renaming} {ss : List Statement}
    {s : Statement} (h : s ∈ r.body template inst ss) :
    ∃ s' ∈ ss, ∃ r' : Renaming, s = r'.statement s' := by
  induction ss generalizing r with
  | nil => cases h
  | cons s' ss ih =>
    rcases List.mem_cons.1 h with rfl | h
    · exact ⟨s', List.mem_cons_self, _, rfl⟩
    · obtain ⟨s'', hs'', hr'⟩ := ih h
      exact ⟨s'', List.mem_cons_of_mem _ hs'', hr'⟩

namespace Compilation

variable {c : Compilation} {expand : Expander} {scopes : Scopes} {site : Identifier}
  {args : Option (List Identifier)} {inst : String} {ss : List Statement} {s : Statement}
  {e : SemanticError}

/-- The expansion at `site` does not get to a body, and its error says why. The
template is looked for first, its arguments are counted last. -/
inductive Refuses (c : Compilation) (scopes : Scopes) (site : Identifier) :
    Option (List Identifier) → SemanticError → Prop where
  | undeclared {args : Option (List Identifier)} : c.registry.find? site.name = none →
    Refuses c scopes site args (.undeclaredTemplate site)
  | recursive {args : Option (List Identifier)} {t : Template} :
    c.registry.find? site.name = some t → scopes.isExpanding t.name = true →
    Refuses c scopes site args (.recursiveTemplate t.name (scopes.chain t.name))
  | arity {as : List Identifier} {t : Template} : c.registry.find? site.name = some t →
    scopes.isExpanding t.name = false → t.params.length ≠ as.length →
    Refuses c scopes site (some as) (.arityMismatch site t.params.length as.length)

theorem exists_of_emitDefinition_eq_error {d : Definition} (hd : d.decorators ≠ [])
    (h : c.emitDefinition expand d = .error e) :
    ∃ site args, .expand site args ∈ c.roles d ∧ expand site args d.id.name = .error e := by
  rw [emitDefinition_eq, if_neg (by simpa using hd), map_eq_error_iff] at h
  obtain ⟨role, hrole, h⟩ := exists_of_mapM_eq_error h
  cases role with
  | expand site args => exact ⟨site, args, hrole, h⟩
  | _ => cases h

theorem emitStatement_of_emitMember_eq_error (h : c.emitMember expand inst s = .error e) :
    c.emitStatement expand s = .error e := by
  rcases bind_eq_error_iff.1 h with h | ⟨_, _, h⟩
  · exact h
  · cases h

/-- A statement fails where one of its definitions asks for an expansion that fails. -/
theorem exists_expand_of_emitStatement_eq_error (hs : s.IsDecorated)
    (h : c.emitStatement expand s = .error e) : ∃ d ∈ s.compiled, ∃ site args,
      .expand site args ∈ c.roles d ∧ expand site args d.id.name = .error e := by
  rw [emitStatement_eq, map_eq_error_iff] at h
  obtain ⟨d, hd, h⟩ := exists_of_mapM_eq_error h
  exact ⟨d, hd, exists_of_emitDefinition_eq_error (hs d hd) h⟩

section

variable (hc : ∀ t ∈ c.registry.templates, ∀ s ∈ t.body, s.IsDecorated)

include hc

/-- An expansion that fails is refused, or comes to one that is. The induction is on
the expansions inside it. -/
theorem exists_refusal_of_expand_eq_error (hr : c.Reaches ss scopes site args inst)
    (h : c.expand scopes site args inst = .error e) : ∃ scopes' site' args' inst',
      c.Reaches ss scopes' site' args' inst' ∧ c.Refuses scopes' site' args' e := by
  induction scopes, site, args, inst using c.expansion_induction with
  | undeclared scopes site args inst ht =>
    rw [expand_of_undeclared ht] at h
    cases h
    exact ⟨_, _, _, _, hr, .undeclared ht⟩
  | recursive scopes site args inst t ht hs =>
    rw [expand_of_isExpanding ht hs] at h
    cases h
    exact ⟨_, _, _, _, hr, .recursive ht hs⟩
  | closed scopes site args inst t ht hclosed ih =>
    rw [expand_of_closed ht hclosed] at h
    rcases bind_eq_error_iff.1 h with hbind | ⟨r, hbind, h⟩
    · -- the arguments are counted
      cases args with
      | none => cases hbind
      | some as =>
        rw [Template.bindArguments] at hbind
        split at hbind <;> cases hbind
        exact ⟨_, _, _, _, hr, .arity ht hclosed ‹_›⟩
    · rcases bind_eq_error_iff.1 h with h | ⟨_, _, h⟩
      · obtain ⟨s, hs, h⟩ := exists_of_mapM_eq_error h
        have hdecorated : s.IsDecorated := by
          obtain ⟨s', hs', r', rfl⟩ := Renaming.exists_of_mem_body hs
          exact Renaming.isDecorated_statement (hc t (Registry.mem_of_find? ht) s' hs')
        obtain ⟨d, hd, site', args', hrole, h⟩ := exists_expand_of_emitStatement_eq_error
          hdecorated (emitStatement_of_emitMember_eq_error h)
        exact ih site' args' _ (hr.body ⟨ht, hclosed, hbind⟩ hs hd hrole) h
      · cases h

/-- The error of a run is that of an expansion that the run comes to and refuses. -/
theorem exists_refusal (hss : ∀ s ∈ ss, s.IsDecorated) (h : c.emissions ss = .error e) :
    ∃ scopes site args inst, c.Reaches ss scopes site args inst ∧
      c.Refuses scopes site args e := by
  obtain ⟨s, hs, h⟩ := exists_of_mapM_eq_error (map_eq_error_iff.1 h)
  obtain ⟨d, hd, site, args, hrole, h⟩ := exists_expand_of_emitStatement_eq_error (hss s hs) h
  exact exists_refusal_of_expand_eq_error hc (.top hs hd hrole) h

end

/-- One of the statements, or of the bodies of templates, calls the template named
at `site` with so many arguments. -/
def Writes (c : Compilation) (ss : List Statement) (site : Identifier) (arity : Nat) : Prop :=
  ∃ s ∈ ss ++ c.registry.templates.flatMap Template.body, ∃ d ∈ s.compiled,
    ∃ as, .call site as ∈ d.decorators ∧ as.length = arity

theorem exists_call_of_renamed {d : Definition} {r : Renaming} {as : List Identifier}
    (h : .call site as ∈ (r.definition d).decorators) :
    ∃ as', .call site as' ∈ d.decorators ∧ as'.length = as.length := by
  obtain ⟨dec, hdec, hcall⟩ := List.mem_map.1 h
  cases dec with
  | tag id => cases hcall
  | call template as' =>
    cases hcall
    exact ⟨as', hdec, (List.length_map _).symm⟩

/-- An expansion with arguments that a run comes to is written with as many of them,
and one without finds its template. -/
theorem Reaches.written (h : c.Reaches ss scopes site args inst) :
    (∃ as, args = some as ∧ c.Writes ss site as.length) ∨
      args = none ∧ (c.registry.find? site.name).isSome = true := by
  cases h with
  | @top s d _ _ hs hd hrole =>
    refine (call_of_mem_roles hrole).imp_left fun ⟨as, has, hcall⟩ => ⟨as, has, ?_⟩
    exact ⟨s, List.mem_append_left _ hs, d, hd, as, hcall, rfl⟩
  | @body _ _ _ _ _ _ t r s d _ ho hs hd hrole =>
    refine (call_of_mem_roles hrole).imp_left fun ⟨as, has, hcall⟩ => ⟨as, has, ?_⟩
    obtain ⟨s', hs', r', rfl⟩ := Renaming.exists_of_mem_body hs
    rw [Renaming.compiled_statement] at hd
    obtain ⟨d', hd', rfl⟩ := List.mem_map.1 hd
    obtain ⟨as', hcall', hlength⟩ := exists_call_of_renamed hcall
    have hbody : s' ∈ c.registry.templates.flatMap Template.body :=
      List.mem_flatMap.2 ⟨t, Registry.mem_of_find? ho.found, hs'⟩
    exact ⟨s', List.mem_append_right _ hbody, d', hd', as', hcall', hlength⟩

end Compilation

end InterfaceSchema
