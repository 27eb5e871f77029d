import InterfaceSchema.Proofs.Expansion.Instances
import InterfaceSchema.Proofs.Occurrence
import Mathlib.Data.List.Infix

/-!
# Freshness of emitted names

Where names follow the usual convention, without pairs of underscores and without
underscores at their ends, the name that a run gives to a member tells who owns it:
`ownerPath` reads the owners back from it (`ownerPath_foldl_qualify`). So members
share a name only if they share their own name and their owner, and no member takes
a name that the program has (`Program.fresh_names`).
-/

namespace InterfaceSchema

/-- The name holds no two underscores in a row, and begins and ends with none. -/
structure IsTidy (name : String) : Prop where
  ne_empty : name ≠ ""
  no_pair : ¬['_', '_'] <:+: name.toList
  head_ne : name.toList.head? ≠ some '_'
  last_ne : name.toList.getLast? ≠ some '_'

instance : DecidablePred IsTidy := fun _ =>
  decidable_of_iff (_ ∧ _ ∧ _ ∧ _)
    ⟨fun h => ⟨h.1, h.2.1, h.2.2.1, h.2.2.2⟩, fun h => ⟨h.1, h.2, h.3, h.4⟩⟩

/-- The parts of a text between its pairs of underscores. -/
def splitPairs : List Char → List (List Char)
  | [] => [[]]
  | '_' :: '_' :: cs => [] :: splitPairs cs
  | c :: cs => (splitPairs cs).modifyHead (c :: ·)

/-- The parts of a qualified name, from the outermost owner on. -/
def ownerPath (name : String) : List String :=
  (splitPairs (name.toList.dropWhile (· == '_'))).map String.ofList

section

variable {w : List Char} (hpair : ¬['_', '_'] <:+: w)

include hpair

theorem splitPairs_of_no_pair : splitPairs w = [w] := by
  induction w with
  | nil => rfl
  | cons c w ih =>
    rw [splitPairs, ih fun h => hpair (h.trans (List.suffix_cons c w).isInfix)]
    · rfl
    · rintro cs rfl rfl
      exact hpair (List.prefix_append ['_', '_'] cs).isInfix

theorem splitPairs_append (hlast : w.getLast? ≠ some '_') (cs : List Char) :
    splitPairs (w ++ '_' :: '_' :: cs) = w :: splitPairs cs := by
  induction w with
  | nil => rfl
  | cons c w ih =>
    rw [List.cons_append, splitPairs, ih fun h => hpair (h.trans (List.suffix_cons c w).isInfix)]
    · rfl
    · cases w <;> simp_all
    · rintro cs' rfl heq
      -- an underscore after `c` is in `w`, or `c` is the last character
      cases w with
      | nil => exact hlast rfl
      | cons c' w =>
        obtain ⟨rfl, -⟩ := List.cons.inj heq
        exact hpair (List.prefix_append ['_', '_'] w).isInfix

end

/-- Underscores come first, two for each owner, then the parts with two between them. -/
theorem toList_foldl_qualify (owner : String) (names : List String) :
    (names.foldl qualify owner).toList = List.replicate (2 * names.length) '_' ++
      (owner.toList ++ names.flatMap fun name => '_' :: '_' :: name.toList) := by
  induction names generalizing owner with
  | nil => simp
  | cons name names ih =>
    have hlength : 2 * (name :: names).length = 2 * names.length + 1 + 1 := by
      rw [List.length_cons]
      omega
    rw [List.foldl_cons, ih, hlength, List.replicate_succ', List.replicate_succ']
    simp [qualify]

theorem splitPairs_flatMap {owner : String} {names : List String} (howner : IsTidy owner)
    (hnames : ∀ name ∈ names, IsTidy name) :
    splitPairs (owner.toList ++ names.flatMap fun name => '_' :: '_' :: name.toList) =
      (owner :: names).map String.toList := by
  induction names generalizing owner with
  | nil =>
    rw [List.flatMap_nil, List.append_nil, splitPairs_of_no_pair howner.no_pair]
    rfl
  | cons name names ih =>
    obtain ⟨hname, hnames⟩ := List.forall_mem_cons.1 hnames
    rw [List.flatMap_cons, List.cons_append, List.cons_append,
      splitPairs_append howner.no_pair howner.last_ne, ih hname hnames]
    rfl

/-- The owners are read back from a name that is qualified over and over. -/
theorem ownerPath_foldl_qualify {owner : String} {names : List String} (howner : IsTidy owner)
    (hnames : ∀ name ∈ names, IsTidy name) :
    ownerPath (names.foldl qualify owner) = owner :: names := by
  have hdrop (n : Nat) (cs : List Char) :
      (List.replicate n '_' ++ (owner.toList ++ cs)).dropWhile (· == '_') = owner.toList ++ cs := by
    rw [List.dropWhile_append_of_pos (by simp)]
    cases hchars : owner.toList with
    | nil => exact absurd (String.toList_eq_nil_iff.1 hchars) howner.ne_empty
    | cons c w =>
      have hc : c ≠ '_' := by
        rintro rfl
        exact howner.head_ne (by rw [hchars]; rfl)
      rw [List.cons_append, List.dropWhile_cons_of_neg (by simpa using hc)]
  rw [ownerPath, toList_foldl_qualify, hdrop, splitPairs_flatMap howner hnames, List.map_map]
  simp

theorem not_isTidy_qualify (owner name : String) : ¬IsTidy (qualify owner name) :=
  fun h => h.no_pair ⟨[], owner.toList ++ '_' :: '_' :: name.toList, by simp [qualify]⟩

/-! ## Owners -/

namespace Program

/-- The run compiles the member `d` of `t` under `name`, for the instance `inst`. -/
def Lowers (options : Options) (p : Program) (t : Template) (inst : String) (d : Definition)
    (name : String) : Prop :=
  ∃ r, (p.compilation options).Instantiates p.statements t r inst ∧ t.Names r inst d name

/-- The run defines `name`, and the path says for what: a definition of the program,
a shared member of a template, or a local member of an instance with its own path. -/
inductive HasPath (options : Options) (p : Program) : List String → String → Prop where
  | top {s : Statement} {d : Definition} : s ∈ p.statements → d ∈ s.definitions →
    HasPath options p [d.id.name] d.id.name
  | ofTemplate {t : Template} {inst : String} {d : Definition} {name : String} :
    p.Lowers options t inst d name → d.isShared = true →
    HasPath options p [t.name, d.id.name] name
  | ofInstance {t : Template} {inst : String} {d : Definition} {name : String}
      {path : List String} :
    p.Lowers options t inst d name → d.isShared = false → HasPath options p path inst →
    HasPath options p (path ++ [d.id.name]) name

variable {options : Options} {p : Program} {t t' : Template} {inst inst' : String}
  {d d' : Definition} {name : String} {path : List String}

namespace Lowers

variable (h : p.Lowers options t inst d name)

include h

theorem eq_memberName : name = d.memberName t.name inst :=
  let ⟨_, _, hnames⟩ := h
  (Template.names_iff.1 hnames).2

theorem mem_declarationsIn : t ∈ Statement.declarationsIn p.statements :=
  let ⟨_, ⟨_, _, _, _, ho⟩, _⟩ := h
  Registry.mem_of_find? ho.found

theorem mem_definitions : d ∈ p.definitions := by
  have ⟨_, _, hnames⟩ := h
  obtain ⟨⟨s, hs, hd⟩, _⟩ := Template.names_iff.1 hnames
  exact mem_definitions_of_mem_body h.mem_declarationsIn hs hd

theorem template_eq (h' : p.Lowers options t' inst' d' name) (hname : t.name = t'.name) :
    t = t' := by
  obtain ⟨_, ⟨_, site, _, _, ho⟩, _⟩ := h
  obtain ⟨_, ⟨_, site', _, _, ho'⟩, _⟩ := h'
  have hsite : site.name = site'.name := by
    rw [← Registry.name_of_find? ho.found, ← Registry.name_of_find? ho'.found, hname]
  exact Option.some.inj (ho.found.symm.trans (hsite ▸ ho'.found))

theorem link_mem {gs : FactBase} (hgs : p.allFacts options = .ok gs) :
    .apply .mapTo inst name ∈ gs := by
  obtain ⟨es, hes, rfl⟩ := map_eq_ok_iff.1 hgs
  obtain ⟨r, ⟨scopes, site, args, hr, ho⟩, i, s, s', _, _, hs', d', hd', rfl⟩ := h
  obtain ⟨fs, hfs, hrun⟩ := Compilation.exists_expand_of_reaches (emissions_eq_ok_iff.1 hes).2 hr
  obtain ⟨ms, hms, hexpand⟩ :=
    Compilation.exists_emitMember_of_expand ho hfs (List.mem_of_getElem? hs')
  obtain ⟨_, _, hflatten⟩ := Compilation.flattenAll_emitMember hms
  refine hrun (hexpand ?_)
  rw [hflatten]
  exact List.mem_append_right _ (List.mem_map_of_mem hd')

end Lowers

/-- What a body defines, once renamed, is a member under the name it is given. -/
theorem exists_lowers {r : Renaming} {s : Statement}
    (hinst : (p.compilation options).Instantiates p.statements t r inst)
    (hs : s ∈ t.instantiate r inst) (hd : d ∈ s.definitions) :
    ∃ d', p.Lowers options t inst d' d.id.name := by
  obtain ⟨i, hi⟩ := List.getElem?_of_mem hs
  have hbody := hi
  rw [Template.instantiate, Renaming.getElem?_body] at hbody
  obtain ⟨s', hs', rfl⟩ := Option.map_eq_some_iff.1 hbody
  have hdefinition := hd
  rw [Renaming.definitions_statement] at hdefinition
  obtain ⟨d', hd', rfl⟩ := List.mem_map.1 hdefinition
  exact ⟨d', r, hinst, i, s', _, hs', hd', hi, _, hd, rfl⟩

/-- An instance of the run has a path. The induction is on how the run comes to it:
the instances inside a body are those of its members. -/
theorem exists_path_of_reaches {scopes : Scopes} {site : Identifier}
    {args : Option (List Identifier)}
    (h : (p.compilation options).Reaches p.statements scopes site args inst) :
    ∃ path, p.HasPath options path inst := by
  induction h with
  | top hs hd _ => exact ⟨_, .top hs (Statement.compiled_subset_definitions _ hd)⟩
  | body hr ho hs hd _ ih =>
    obtain ⟨d', hlowers⟩ :=
      exists_lowers ⟨_, _, _, hr, ho⟩ hs (Statement.compiled_subset_definitions _ hd)
    cases hshared : d'.isShared with
    | true => exact ⟨_, .ofTemplate hlowers hshared⟩
    | false =>
      obtain ⟨path, hpath⟩ := ih
      exact ⟨_, .ofInstance hlowers hshared hpath⟩

theorem Lowers.exists_path (h : p.Lowers options t inst d name) :
    ∃ path, p.HasPath options path name := by
  have ⟨_, ⟨_, _, _, hr, _⟩, _⟩ := h
  cases hshared : d.isShared with
  | true => exact ⟨_, .ofTemplate h hshared⟩
  | false =>
    obtain ⟨path, hpath⟩ := exists_path_of_reaches hr
    exact ⟨_, .ofInstance h hshared hpath⟩

section

variable (htidy : ∀ id ∈ p.identifiers, IsTidy id.name)

include htidy

theorem isTidy_of_mem_definitions (h : d ∈ p.definitions) : IsTidy d.id.name :=
  htidy _ (identifiers_subset h d.id_mem_identifiers)

/-- A name is made of the parts of its path, and these are tidy. -/
theorem HasPath.eq_foldl_qualify (h : p.HasPath options path name) :
    ∃ owner names, path = owner :: names ∧ name = names.foldl qualify owner ∧
      IsTidy owner ∧ ∀ x ∈ names, IsTidy x := by
  induction h with
  | top hs hd =>
    have hmem := mem_definitions_of_mem_statements hs hd
    exact ⟨_, [], rfl, rfl, isTidy_of_mem_definitions htidy hmem, nofun⟩
  | @ofTemplate t inst d name h hshared =>
    have hname : name = qualify t.name d.id.name := by
      rw [h.eq_memberName, Definition.memberName, if_pos hshared]
    refine ⟨t.name, [d.id.name], rfl, hname, ?_, List.forall_mem_singleton.2 ?_⟩
    · exact htidy _ (header_mem_identifiers h.mem_declarationsIn)
    · exact isTidy_of_mem_definitions htidy h.mem_definitions
  | @ofInstance t inst d name path h hlocal _ ih =>
    obtain ⟨owner, names, rfl, rfl, howner, hnames⟩ := ih
    have hname : name = qualify (names.foldl qualify owner) d.id.name := by
      rw [h.eq_memberName, Definition.memberName, if_neg (by simp [hlocal])]
    refine ⟨owner, names ++ [d.id.name], rfl, by rw [hname, List.foldl_append]; rfl, howner, ?_⟩
    rw [List.forall_mem_append]
    exact ⟨hnames, List.forall_mem_singleton.2 (isTidy_of_mem_definitions htidy h.mem_definitions)⟩

theorem HasPath.ownerPath_eq (h : p.HasPath options path name) : ownerPath name = path := by
  obtain ⟨owner, names, rfl, rfl, howner, hnames⟩ := h.eq_foldl_qualify htidy
  exact ownerPath_foldl_qualify howner hnames

theorem HasPath.name_eq {name' : String} (h : p.HasPath options path name)
    (h' : p.HasPath options path name') : name = name' := by
  obtain ⟨owner, names, rfl, rfl, _⟩ := h.eq_foldl_qualify htidy
  obtain ⟨owner', names', hpath, rfl, _⟩ := h'.eq_foldl_qualify htidy
  cases hpath
  rfl

theorem exists_definition_of_path_singleton {x : String} (h : p.HasPath options [x] inst) :
    ∃ s ∈ p.statements, ∃ d ∈ s.definitions, d.id.name = x := by
  generalize hpath : [x] = path at h
  cases h with
  | @top s d hs hd => exact ⟨s, hs, d, hd, (List.singleton_inj.1 hpath).symm⟩
  | ofTemplate => cases hpath
  | ofInstance _ _ hinst =>
    obtain ⟨owner, names, rfl, _⟩ := hinst.eq_foldl_qualify htidy
    simp at hpath

/-! ## Fresh names -/

theorem Lowers.name_ne (h : p.Lowers options t inst d name) :
    ∀ id ∈ p.identifiers, id.name ≠ name := by
  intro id hid hname
  apply not_isTidy_qualify (if d.isShared then t.name else inst) d.id.name
  rw [← Definition.memberName, ← h.eq_memberName, ← hname]
  exact htidy id hid

variable (htop : ∀ t ∈ Statement.declarationsIn p.statements, ∀ s ∈ p.statements,
  ∀ d ∈ s.definitions, d.id.name ≠ t.name)

include htop

/-- A shared member has no name of a local one: the instance would be called like a
template. -/
theorem Lowers.not_shared_and_local (h : p.Lowers options t inst d name)
    (h' : p.Lowers options t' inst' d' name) (hshared : d.isShared = true) :
    d'.isShared = true := by
  by_contra hlocal
  have hlocal : d'.isShared = false := by simpa using hlocal
  have ⟨_, ⟨_, _, _, hr, _⟩, _⟩ := h'
  obtain ⟨path, hpath⟩ := exists_path_of_reaches hr
  have heq : [t.name] ++ [d.id.name] = path ++ [d'.id.name] :=
    ((HasPath.ofTemplate h hshared).ownerPath_eq htidy).symm.trans
      ((HasPath.ofInstance h' hlocal hpath).ownerPath_eq htidy)
  obtain ⟨rfl, -⟩ := List.append_inj' heq rfl
  obtain ⟨s, hs, d₀, hd₀, hname⟩ := exists_definition_of_path_singleton htidy hpath
  exact htop t h.mem_declarationsIn s hs d₀ hd₀ hname

/-- Members of one name have one name in the source and one owner. -/
theorem Lowers.owner_eq (h : p.Lowers options t inst d name)
    (h' : p.Lowers options t' inst' d' name) : d.id.name = d'.id.name ∧
      (d.isShared = true ∧ d'.isShared = true ∧ t = t' ∨
        d.isShared = false ∧ d'.isShared = false ∧ inst = inst') := by
  cases hshared : d.isShared with
  | true =>
    have hshared' : d'.isShared = true := h.not_shared_and_local htidy htop h' hshared
    have heq : [t.name, d.id.name] = [t'.name, d'.id.name] :=
      ((HasPath.ofTemplate h hshared).ownerPath_eq htidy).symm.trans
        ((HasPath.ofTemplate h' hshared').ownerPath_eq htidy)
    obtain ⟨htemplate, hmember⟩ := List.cons.inj heq
    exact ⟨List.singleton_inj.1 hmember, .inl ⟨rfl, hshared', h.template_eq h' htemplate⟩⟩
  | false =>
    have hshared' : d'.isShared = false := by
      by_contra hshared'
      rw [h'.not_shared_and_local htidy htop h (by simpa using hshared')] at hshared
      cases hshared
    have ⟨_, ⟨_, _, _, hr, _⟩, _⟩ := h
    have ⟨_, ⟨_, _, _, hr', _⟩, _⟩ := h'
    obtain ⟨path, hpath⟩ := exists_path_of_reaches hr
    obtain ⟨path', hpath'⟩ := exists_path_of_reaches hr'
    have heq : path ++ [d.id.name] = path' ++ [d'.id.name] :=
      ((HasPath.ofInstance h hshared hpath).ownerPath_eq htidy).symm.trans
        ((HasPath.ofInstance h' hshared' hpath').ownerPath_eq htidy)
    obtain ⟨rfl, hmember⟩ := List.append_inj' heq rfl
    exact ⟨List.singleton_inj.1 hmember, .inr ⟨rfl, hshared', hpath.name_eq htidy hpath'⟩⟩

end

/-- In a program of tidy names, no template called like a definition outside bodies,
the run links each member to its instance, under a name that no identifier of the
program has and from which all its owners can be read; and members of one name have
one name in the source and one owner. -/
theorem fresh_names (hrun : (p.facts options).isOk = true)
    (htidy : ∀ id ∈ p.identifiers, IsTidy id.name)
    (htop : ∀ t ∈ Statement.declarationsIn p.statements, ∀ s ∈ p.statements,
      ∀ d ∈ s.definitions, d.id.name ≠ t.name) :
    (∃ gs, p.allFacts options = .ok gs ∧ ∀ t inst d name, p.Lowers options t inst d name →
      .apply .mapTo inst name ∈ gs ∧ (∀ id ∈ p.identifiers, id.name ≠ name) ∧
        ∃ path, p.HasPath options path name) ∧
      (∀ path name, p.HasPath options path name → ownerPath name = path) ∧
      ∀ t t' inst inst' d d' name, p.Lowers options t inst d name →
        p.Lowers options t' inst' d' name → d.id.name = d'.id.name ∧
          (d.isShared = true ∧ d'.isShared = true ∧ t = t' ∨
            d.isShared = false ∧ d'.isShared = false ∧ inst = inst') := by
  obtain ⟨gs, hgs⟩ := isOk_iff_exists.1 ((isOk_allFacts options p).trans hrun)
  refine ⟨⟨gs, hgs, fun t inst d name h => ?_⟩, fun path name h => ?_, ?_⟩
  · exact ⟨h.link_mem hgs, h.name_ne htidy, h.exists_path⟩
  · exact h.ownerPath_eq htidy
  · exact fun t t' inst inst' d d' name h h' => h.owner_eq htidy htop h'

end Program

/-- The template of the innermost instances. -/
def nestedTemplate : Template :=
  ⟨⟨⟨"U", {}⟩, none, none⟩, [.definition (.ofTags ["single"] "x")]⟩

/-- Instances inside shared and inside local members. -/
def nestedNames : Program :=
  ⟨[.template ⟨⟨"T", {}⟩, none, none⟩
      [.definition (.ofTags ["shared", "U"] "s"), .definition (.ofTags ["U"] "m")],
    nestedTemplate.toStatement, .definition (.ofTags ["T"] "a"), .definition (.ofTags ["T"] "b")]⟩

example : (["____a__m__x", "____T__s__x", "__b__m"].map ownerPath) =
    [["a", "m", "x"], ["T", "s", "x"], ["b", "m"]] := by decide +kernel

theorem lowers_nestedNames : nestedNames.Lowers {} nestedTemplate "__a__m"
    (.ofTags ["single"] "x") "____a__m__x" := by
  have hfact : ((nestedNames.allFacts {}).toOption.getD []).contains
      (.applyInstance "U" "__a__m") = true := by decide +kernel
  cases hgs : nestedNames.allFacts {} with
  | error e =>
    rw [hgs] at hfact
    cases hfact
  | ok gs =>
    rw [hgs] at hfact
    obtain ⟨t, r, hinst, ht⟩ := (Program.applyInstance_mem_allFacts_iff hgs).1
      (List.contains_iff_mem.1 hfact)
    have ⟨_, site, _, _, ho⟩ := hinst
    have hsite : site.name = "U" := (Registry.name_of_find? ho.found).symm.trans ht
    have hfound : (nestedNames.compilation {}).registry.find? "U" = some nestedTemplate := rfl
    obtain rfl : t = nestedTemplate := Option.some.inj ((hsite ▸ ho.found).symm.trans hfound)
    exact ⟨r, hinst, Template.names_iff.2 ⟨⟨_, .head _, .head _⟩, by decide⟩⟩

theorem fresh_names_nestedNames :
    nestedNames.Lowers {} nestedTemplate "__a__m" (.ofTags ["single"] "x") "____a__m__x" ∧
    (∃ gs, nestedNames.allFacts {} = .ok gs ∧ ∀ t inst d name,
      nestedNames.Lowers {} t inst d name → .apply .mapTo inst name ∈ gs ∧
        (∀ id ∈ nestedNames.identifiers, id.name ≠ name) ∧
          ∃ path, nestedNames.HasPath {} path name) ∧
      (∀ path name, nestedNames.HasPath {} path name → ownerPath name = path) ∧
      ∀ t t' inst inst' d d' name, nestedNames.Lowers {} t inst d name →
        nestedNames.Lowers {} t' inst' d' name → d.id.name = d'.id.name ∧
          (d.isShared = true ∧ d'.isShared = true ∧ t = t' ∨
            d.isShared = false ∧ d'.isShared = false ∧ inst = inst') := by
  have hrun : (nestedNames.facts {}).isOk = true := by decide +kernel
  have htidy : ∀ id ∈ nestedNames.identifiers, IsTidy id.name := by decide +kernel
  have htop : ∀ t ∈ Statement.declarationsIn nestedNames.statements,
      ∀ s ∈ nestedNames.statements, ∀ d ∈ s.definitions, d.id.name ≠ t.name := by decide +kernel
  exact ⟨lowers_nestedNames, Program.fresh_names hrun htidy htop⟩

end InterfaceSchema
