import InterfaceSchema.Schema.Basic

/-!
# Occurrences

The definitions and the templates of a program, those in the bodies of templates
included, are made of identifiers of the program (`Program.identifiers_subset`), and
the names of the templates stand among them in the order of the declarations
(`Statement.headers_sublist`).
-/

namespace InterfaceSchema

/-- The definitions of a program, those in the bodies of templates included. -/
def Program.definitions (p : Program) : List Definition :=
  (p.statements ++ (Statement.declarationsIn p.statements).flatMap Template.body).flatMap
    Statement.definitions

theorem Definition.id_mem_identifiers (d : Definition) : d.id ∈ d.identifiers :=
  List.mem_append_right _ List.mem_cons_self

theorem Definition.template_mem_identifiers {d : Definition} {site : Identifier}
    {args : List Identifier} (h : .call site args ∈ d.decorators) : site ∈ d.identifiers :=
  List.mem_append_left _ (List.mem_flatMap.2 ⟨_, h, List.mem_cons_self⟩)

namespace Statement

theorem identifiers_subset_of_mem_definitions {s : Statement} {d : Definition}
    (h : d ∈ s.definitions) : d.identifiers ⊆ s.identifiers := by
  have hoperand {o : Operand} (h : d ∈ o.definition?.toList) : d.identifiers ⊆ o.identifiers := by
    cases o with
    | definition e => exact List.mem_singleton.1 h ▸ List.Subset.refl _
    | expr e => cases h
  cases s with
  | relation left kind right => exact List.subset_append_of_subset_left _ (hoperand h)
  | cover left middle right =>
    exact List.subset_append_of_subset_left _ (List.subset_append_of_subset_left _ (hoperand h))
  | represents view data shape =>
    exact List.subset_append_of_subset_left _ (List.subset_append_of_subset_left _ (hoperand h))
  | definition e => exact List.mem_singleton.1 h ▸ List.Subset.refl _
  | template _ _ => cases h
  | term _ => cases h

mutual
theorem body_subset_of_mem_declarations {t : Template} : ∀ {s : Statement},
    t ∈ s.declarations → identifiersOf t.body ⊆ s.identifiers
  | .template header body, ht => by
    rw [declarations, List.mem_cons] at ht
    rw [identifiers]
    refine List.subset_append_of_subset_right _ ?_
    rcases ht with rfl | ht
    · exact List.Subset.refl _
    · exact body_subset_of_mem_declarationsIn ht
  | .relation _ _ _, ht => by cases ht
  | .cover _ _ _, ht => by cases ht
  | .represents _ _ _, ht => by cases ht
  | .definition _, ht => by cases ht
  | .term _, ht => by cases ht

theorem body_subset_of_mem_declarationsIn {t : Template} : ∀ {ss : List Statement},
    t ∈ declarationsIn ss → identifiersOf t.body ⊆ identifiersOf ss
  | [], ht => by cases ht
  | s :: ss, ht => by
    rw [identifiersOf]
    rcases List.mem_append.1 ht with ht | ht
    · exact List.subset_append_of_subset_left _ (body_subset_of_mem_declarations ht)
    · exact List.subset_append_of_subset_right _ (body_subset_of_mem_declarationsIn ht)
end

mutual
theorem headers_sublist_identifiers : ∀ s : Statement,
    (s.declarations.map (·.header.id)).Sublist s.identifiers
  | .template header body => by
    rw [declarations, identifiers, List.map_cons, Header.identifiers, List.cons_append,
      List.cons_append]
    refine List.Sublist.cons_cons _ ?_
    exact (headers_sublist body).trans (List.sublist_append_right _ _)
  | .relation _ _ _ => List.nil_sublist _
  | .cover _ _ _ => List.nil_sublist _
  | .represents _ _ _ => List.nil_sublist _
  | .definition _ => List.nil_sublist _
  | .term _ => List.nil_sublist _

/-- The names of the declared templates are identifiers, in their order. -/
theorem headers_sublist : ∀ ss : List Statement,
    ((declarationsIn ss).map (·.header.id)).Sublist (identifiersOf ss)
  | [] => List.nil_sublist _
  | s :: ss => by
    rw [declarationsIn, identifiersOf, List.map_append]
    exact (headers_sublist_identifiers s).append (headers_sublist ss)
end

end Statement

namespace Program

variable {p : Program}

theorem header_mem_identifiers {t : Template} (h : t ∈ Statement.declarationsIn p.statements) :
    t.header.id ∈ p.identifiers :=
  (Statement.headers_sublist p.statements).subset (List.mem_map_of_mem h)

theorem identifiers_subset {d : Definition} (h : d ∈ p.definitions) :
    d.identifiers ⊆ p.identifiers := by
  have hmem {ss : List Statement} {s : Statement} (hs : s ∈ ss) :
      s.identifiers ⊆ Statement.identifiersOf ss := by
    rw [Statement.identifiersOf_eq_flatMap]
    exact fun id hid => List.mem_flatMap.2 ⟨s, hs, hid⟩
  obtain ⟨s, hs, hd⟩ := List.mem_flatMap.1 h
  refine List.Subset.trans (Statement.identifiers_subset_of_mem_definitions hd) ?_
  rcases List.mem_append.1 hs with hs | hs
  · exact hmem hs
  · obtain ⟨t, ht, hs⟩ := List.mem_flatMap.1 hs
    exact List.Subset.trans (hmem hs) (Statement.body_subset_of_mem_declarationsIn ht)

theorem mem_definitions_of_mem_statements {s : Statement} {d : Definition} (hs : s ∈ p.statements)
    (hd : d ∈ s.definitions) : d ∈ p.definitions :=
  List.mem_flatMap.2 ⟨s, List.mem_append_left _ hs, hd⟩

theorem mem_definitions_of_mem_body {t : Template} {s : Statement} {d : Definition}
    (ht : t ∈ Statement.declarationsIn p.statements) (hs : s ∈ t.body) (hd : d ∈ s.definitions) :
    d ∈ p.definitions :=
  List.mem_flatMap.2 ⟨s, List.mem_append_right _ (List.mem_flatMap.2 ⟨t, ht, hs⟩), hd⟩

end Program

end InterfaceSchema
