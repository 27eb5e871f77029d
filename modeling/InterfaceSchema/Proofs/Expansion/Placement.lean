import InterfaceSchema.Proofs.Expansion.Agreement
import InterfaceSchema.Proofs.Sharing

/-!
# The places of declarations

A program has a main part, the statements at its top that declare no template, and
declarations, its templates at every depth, each `pruned` of those declared in its
body. Wherever the declarations stand, a program with the same main part and the
same declarations has the same facts or fails alike, but for which of two
templates of one name it calls the duplicate
(`Program.facts_eq_of_declarations_perm`).
-/

namespace InterfaceSchema

namespace Program

/-- The templates declared at every depth, each without those declared in it. -/
def declarations (p : Program) : List Template :=
  (Statement.declarationsIn p.statements).map Template.pruned

/-- The statements at the top that declare no template. -/
def mainPart (p : Program) : List Statement := p.statements.filter Statement.isPlain

variable {options : Options} {p q : Program}

theorem map_name_declarations (p : Program) : p.declarations.map Template.name =
    (Statement.declarationsIn p.statements).map Template.name :=
  List.map_map

/-- With distinct names a program finds its declarations by their names. -/
theorem map_pruned_find? (name : String) :
    ((p.compilation options).registry.find? name).map Template.pruned =
      Registry.find? ⟨p.declarations⟩ name := by
  rw [Registry.find?, Registry.find?, declarations, List.find?_map]
  rfl

theorem agrees_of_declarations_perm (options : Options) (hperm : q.declarations.Perm p.declarations)
    (hdistinct : (p.declarations.map Template.name).Nodup) :
    (p.compilation options).Agrees (q.compilation options) fun _ => True := by
  refine Compilation.agrees_of_find? rfl fun name => ?_
  rw [map_pruned_find?, map_pruned_find?, Registry.find?_eq_of_perm hperm hdistinct]

/-- Declarations may be put in another order, behind their uses, and into and out of
the bodies of others. -/
theorem facts_eq_of_declarations_perm (options : Options) (hmain : q.mainPart = p.mainPart)
    (hperm : q.declarations.Perm p.declarations) :
    ((p.declarations.map Template.name).Nodup ∧ q.facts options = p.facts options) ∨
      (¬(p.declarations.map Template.name).Nodup ∧ ∃ site site',
        p.facts options = .error (.duplicateTemplate site) ∧
        q.facts options = .error (.duplicateTemplate site')) := by
  have hnames := (hperm.map Template.name).nodup_iff
  by_cases hdistinct : (p.declarations.map Template.name).Nodup
  · refine .inl ⟨hdistinct, ?_⟩
    have hagrees := agrees_of_declarations_perm options hperm hdistinct
    have hemissions : (q.compilation options).emissions q.statements =
        (p.compilation options).emissions p.statements :=
      hagrees.emissions_eq_of_filter hmain fun _ _ _ _ => trivial
    rw [facts_of_distinct (map_name_declarations q ▸ hnames.2 hdistinct),
      facts_of_distinct (map_name_declarations p ▸ hdistinct), hemissions]
  · refine .inr ⟨hdistinct, ?_⟩
    obtain ⟨site, -, hsite⟩ := facts_of_not_distinct options (map_name_declarations p ▸ hdistinct)
    obtain ⟨site', -, hsite'⟩ :=
      facts_of_not_distinct options (map_name_declarations q ▸ mt hnames.1 hdistinct)
    exact ⟨site, site', hsite, hsite'⟩

end Program

/-- A template that declares another one in its body, between an instance of it and
one of that other. -/
def nestedDeclarations : Program :=
  ⟨[.definition (.ofTags ["Outer"] "o"),
    .template ⟨⟨"Outer", {}⟩, none, none⟩
      [.definition (.ofTags ["many", "Inner"] "i"),
        .template ⟨⟨"Inner", {}⟩, none, none⟩ [.definition (.ofTags ["single"] "s")],
        .relation (.expr (.name ⟨"i", {}⟩)) .mapTo (.name ⟨"i", {}⟩)],
    .definition (.ofTags ["Inner"] "p")]⟩

/-- The same with the inner template in front of all. -/
def hoistedDeclarations : Program :=
  ⟨[.template ⟨⟨"Inner", {}⟩, none, none⟩ [.definition (.ofTags ["single"] "s")],
    .template ⟨⟨"Outer", {}⟩, none, none⟩
      [.definition (.ofTags ["many", "Inner"] "i"),
        .relation (.expr (.name ⟨"i", {}⟩)) .mapTo (.name ⟨"i", {}⟩)],
    .definition (.ofTags ["Outer"] "o"),
    .definition (.ofTags ["Inner"] "p")]⟩

example : (nestedDeclarations.facts {}).toOption.map (·.length) = some 10 := by decide +kernel

theorem facts_eq_hoistedDeclarations :
    hoistedDeclarations.mainPart = nestedDeclarations.mainPart ∧
      hoistedDeclarations.declarations.Perm nestedDeclarations.declarations ∧
      (((nestedDeclarations.declarations.map Template.name).Nodup ∧
        hoistedDeclarations.facts {} = nestedDeclarations.facts {}) ∨
      (¬(nestedDeclarations.declarations.map Template.name).Nodup ∧ ∃ site site',
        nestedDeclarations.facts {} = .error (.duplicateTemplate site) ∧
        hoistedDeclarations.facts {} = .error (.duplicateTemplate site'))) :=
  have hperm : hoistedDeclarations.declarations.Perm nestedDeclarations.declarations :=
    .swap _ _ []
  ⟨rfl, hperm, Program.facts_eq_of_declarations_perm {} rfl hperm⟩

end InterfaceSchema
