import InterfaceSchema.Fixture
import InterfaceSchema.Proofs.Command.Writing
import InterfaceSchema.Proofs.Trimming
import Mathlib.Data.List.Sort
import Mathlib.Data.Set.List
import Mathlib.Data.String.Basic

/-!
# Fixtures in a directory

The schemas of a directory are what stands there under a name `stem.is`, and
`Fixture.schemaNames` lists them once each, in the order of these names
(`Fixture.inFileOrder_of_schemaNames`). A fixture is loaded from the texts of its schema and of the file
beside it that says what to expect (`Fixture.Loads`), or is refused for what is wrong with
them (`Fixture.LoadFault`).

One schema is never loaded, whatever stands beside it: the stem of `..is` is a dot, with
which the other files are looked for under `..`, the directory above.
-/

namespace InterfaceSchema

namespace FileTree

variable {t : FileTree} {dir p : FilePath} {name : String}

/-- Something is at a place if a file is there or below it; the root is always there. -/
theorem node?_ne_none_iff : t.node? p ≠ none ↔ t.Reaches p := by
  rw [node?, ← reaches_iff]
  split
  · rename_i contents hlookup
    obtain ⟨before, behind, hfiles, _⟩ := List.lookup_eq_some_iff.1 hlookup
    have hmem : (p, contents) ∈ t.files := by
      rw [hfiles]
      exact List.mem_append_right _ List.mem_cons_self
    simpa using reaches_iff.2 (.inr ⟨_, hmem, List.prefix_rfl⟩)
  · split
    · rename_i hreaches
      simp [hreaches]
    · rename_i hreaches
      simp [hreaches]

theorem node?_eq_directory_iff : t.node? p = some .directory ↔
    t.files.lookup p = none ∧ (p.isEmpty || t.files.any fun f => p.isPrefixOf f.1) = true := by
  rw [node?]
  cases t.files.lookup p with
  | some contents => simp
  | none => simp only [Option.ite_none_right_eq_some, and_true, true_and]

theorem head?_drop_eq_some_iff : (if dir.isPrefixOf p then (p.drop dir.length).head? else none) =
    some name ↔ dir ++ [name] <+: p := by
  by_cases hdir : dir <+: p
  · obtain ⟨rest, rfl⟩ := hdir
    rw [if_pos (List.isPrefixOf_iff_prefix.2 (List.prefix_append dir rest)), List.drop_left,
      List.prefix_append_right_inj]
    cases rest <;> simp [eq_comm]
  · rw [if_neg (mt List.isPrefixOf_iff_prefix.1 hdir)]
    exact iff_of_false nofun fun h => hdir ((List.prefix_append dir [name]).trans h)

/-- The names in a directory are those under which something is there. -/
theorem mem_entries_iff : name ∈ t.entries dir ↔ t.node? (dir ++ [name]) ≠ none := by
  simp only [node?_ne_none_iff, entries, List.mem_eraseDups, List.mem_filterMap,
    head?_drop_eq_some_iff, Reaches, List.append_eq_nil_iff, List.cons_ne_nil, and_false, false_or]

theorem nodup_eraseDups (names : List String) : names.eraseDups.Nodup := by
  -- The rest that is looked at next is filtered, so the length decreases and not the list.
  induction hlength : names.length using Nat.strong_induction_on generalizing names with
  | _ n ih =>
    cases names with
    | nil => exact List.nodup_nil
    | cons name names =>
      rw [List.eraseDups_cons, List.nodup_cons]
      have hshorter := List.length_filter_le (fun other => !other == name) names
      refine ⟨by simp [List.mem_eraseDups], ih _ ?_ _ rfl⟩
      rw [← hlength, List.length_cons]
      exact Nat.lt_succ_of_le hshorter

theorem node?_of_follow {here there : FilePath} {parts : List String}
    (hhere : ∀ p, p <+: here → p ≠ here → t.node? p = some .directory)
    (h : t.follow here parts = .ok there) :
    ∀ p, p <+: there → p ≠ there → t.node? p = some .directory := by
  induction parts generalizing here with
  | nil =>
    cases h
    exact hhere
  | cons part parts ih =>
    rw [follow] at h
    split at h
    · cases h
    · cases h
    · rename_i hnode
      split at h
      · exact ih hhere h
      · split at h
        -- A step up: what is above the directory above is above this place as well.
        · refine ih (fun p hp hne => hhere p (hp.trans (List.dropLast_prefix here)) ?_) h
          rintro rfl
          exact hne (hp.eq_of_length_le (by simp))
        · refine ih (fun p hp hne => ?_) h
          by_cases hpart : p = here
          · rw [hpart, hnode]
          · exact hhere p ((List.prefix_concat_iff.1 hp).resolve_left hne) hpart

theorem node?_dropLast_of_resolve {path : String} (hpath : t.resolve path = .ok dir)
    (hdir : t.node? dir = some .directory) : t.node? dir.dropLast = some .directory := by
  by_cases hroot : dir.dropLast = dir
  · rw [hroot, hdir]
  · have hfollow := (resolve_eq_ok_iff.1 hpath).2
    rw [start_nil] at hfollow
    refine node?_of_follow ?_ hfollow _ (List.dropLast_prefix dir) hroot
    exact fun p hp hne => absurd (List.prefix_nil.1 hp) hne

end FileTree

namespace Fixture

theorem stemAndExtension_append {stem ext : String} (hstem : stem ≠ "") (hext : '.' ∉ ext.toList) :
    stemAndExtension (stem ++ "." ++ ext) = (stem, some ext) := by
  have hname : (stem ++ "." ++ ext).toList = stem.toList ++ '.' :: ext.toList := by simp
  have hpieces : (Text.pieces '.' (stem ++ "." ++ ext).toList).reverse =
      ext.toList :: (stem.toList.splitOn '.').reverse := by
    rw [hname, Text.pieces_eq_splitOn, List.splitOn_append_cons_self,
      List.splitOn_eq_singleton hext, List.reverse_append, List.reverse_singleton,
      List.singleton_append]
  rw [stemAndExtension, hpieces]
  simp [List.intercalate_splitOn, hstem]

theorem intercalate_concat {α : Type} (separator l : List α) {ls : List (List α)} (h : ls ≠ []) :
    separator.intercalate (ls ++ [l]) = separator.intercalate ls ++ separator ++ l := by
  induction ls with
  | nil => exact absurd rfl h
  | cons k ls ih =>
    cases ls with
    | nil => simp
    | cons m ls =>
      rw [List.cons_append, List.intercalate_cons_of_ne_nil (by simp), ih (List.cons_ne_nil m ls),
        List.intercalate_cons_cons]
      simp

theorem eq_of_stemAndExtension {name stem ext : String}
    (h : stemAndExtension name = (stem, some ext)) : stem ≠ "" ∧ name = stem ++ "." ++ ext := by
  rw [stemAndExtension] at h
  split at h
  · rename_i last before hpieces
    dsimp only at h
    split at h
    · cases h
    · rename_i hstem
      obtain ⟨rfl, hext⟩ := Prod.mk.inj h
      obtain rfl := Option.some.inj hext
      have hname : name.toList = ['.'].intercalate (before.reverse ++ [last]) := by
        rw [← List.reverse_cons, ← hpieces, List.reverse_reverse, Text.pieces_eq_splitOn,
          List.intercalate_splitOn]
      have hbefore : before.reverse ≠ [] := by
        intro hnil
        rw [hnil] at hstem
        exact hstem rfl
      constructor
      · intro hempty
        refine hstem (List.isEmpty_iff.2 ?_)
        rw [← String.toList_ofList (l := ['.'].intercalate before.reverse), hempty,
          String.toList_empty]
      · rw [← String.toList_inj, hname, intercalate_concat _ _ hbefore]
        simp
  · cases h

theorem append_dot (stem ext : String) : stem ++ "." ++ ext = stem ++ ("." ++ ext) :=
  String.append_assoc

theorem stemAndExtension_is {stem : String} (hstem : stem ≠ "") :
    stemAndExtension (stem ++ ".is") = (stem, some "is") :=
  append_dot stem "is" ▸ stemAndExtension_append hstem (by decide)

theorem isSchemaName_iff {name : String} :
    isSchemaName name = true ↔ ∃ stem, stem ≠ "" ∧ name = stem ++ ".is" := by
  rw [isSchemaName, decide_eq_true_eq]
  constructor
  · intro h
    obtain ⟨hstem, hname⟩ := eq_of_stemAndExtension (Prod.ext rfl h)
    exact ⟨_, hstem, hname.trans (append_dot _ "is")⟩
  · rintro ⟨stem, hstem, rfl⟩
    rw [stemAndExtension_is hstem]

/-! ## Schemas in a directory -/

section

variable (t : FileTree) (dir : FilePath)

/-- A schema stands in a directory. -/
def HasSchema (stem : String) : Prop := stem ≠ "" ∧ t.node? (dir ++ [stem ++ ".is"]) ≠ none

/-- The stems with a property, each once and in the order of the names of the schemas. -/
structure InFileOrder (P : String → Prop) (stems : List String) : Prop where
  sorted : stems.Pairwise fun a b => a ++ ".is" < b ++ ".is"
  mem_iff : ∀ stem, stem ∈ stems ↔ P stem

theorem mem_schemaNames_iff {name : String} : name ∈ schemaNames t dir ↔
    ∃ stem, HasSchema t dir stem ∧ name = stem ++ ".is" := by
  rw [schemaNames, List.mem_mergeSort, List.mem_filter, FileTree.mem_entries_iff, isSchemaName_iff]
  constructor
  · rintro ⟨hnode, stem, hstem, rfl⟩
    exact ⟨stem, ⟨hstem, hnode⟩, rfl⟩
  · rintro ⟨stem, ⟨hstem, hnode⟩, rfl⟩
    exact ⟨hnode, stem, hstem, rfl⟩

theorem pairwise_schemaNames : (schemaNames t dir).Pairwise (· < ·) := by
  have hsorted : (schemaNames t dir).Pairwise (· ≤ ·) := List.pairwise_mergeSort' (· ≤ ·) _
  have hnodup : (schemaNames t dir).Nodup :=
    (List.mergeSort_perm _ _).nodup_iff.2 ((FileTree.nodup_eraseDups _).filter _)
  exact (hsorted.and hnodup).imp fun h => lt_of_le_of_ne h.1 h.2

theorem append_is_injective : Function.Injective (· ++ ".is") :=
  fun _ _ => (String.append_left_inj _).1

theorem exists_stems : ∃ stems : List String, schemaNames t dir = stems.map (· ++ ".is") := by
  obtain ⟨stems, hstems⟩ : ∃ stems : List String, stems.map (· ++ ".is") = schemaNames t dir := by
    rw [← Set.mem_range, Set.range_list_map]
    intro name hname
    obtain ⟨stem, _, rfl⟩ := (mem_schemaNames_iff t dir).1 hname
    exact ⟨stem, rfl⟩
  exact ⟨stems, hstems.symm⟩

variable {t dir} {stems : List String}

theorem inFileOrder_of_schemaNames (hstems : schemaNames t dir = stems.map (· ++ ".is")) :
    InFileOrder (HasSchema t dir) stems where
  sorted := by
    have hsorted := pairwise_schemaNames t dir
    rwa [hstems, List.pairwise_map] at hsorted
  mem_iff stem := by
    rw [← List.mem_map_of_injective append_is_injective, ← hstems, mem_schemaNames_iff]
    constructor
    · rintro ⟨stem', hschema, h⟩
      rwa [append_is_injective h]
    · exact fun hschema => ⟨stem, hschema, rfl⟩

theorem ne_empty_of_mem (hstems : schemaNames t dir = stems.map (· ++ ".is")) {stem : String}
    (h : stem ∈ stems) : stem ≠ "" :=
  (((inFileOrder_of_schemaNames hstems).mem_iff stem).1 h).1

end

/-! ## Loading -/

/-- A fixture by its texts: the schema, and the facts to expect or, where no file of facts
is there, a part of the reason to expect. -/
inductive Loads (t : FileTree) (dir : FilePath) (stem : String) : Fixture → Prop
  | facts {source text expected : String}
      (hsource : t.readAt (dir ++ [stem ++ ".is"]) = .ok source)
      (hfacts : t.readAt (dir ++ [stem ++ ".facts"]) = .ok text)
      (hexpected : Text.IsStripped text expected) :
      Loads t dir stem ⟨stem, source, .facts expected⟩
  | error {source text part : String}
      (hsource : t.readAt (dir ++ [stem ++ ".is"]) = .ok source)
      (hnone : t.node? (dir ++ [stem ++ ".facts"]) = none)
      (herror : t.readAt (dir ++ [stem ++ ".err"]) = .ok text)
      (hpart : Text.IsTrimmed text part) : Loads t dir stem ⟨stem, source, .error part⟩

/-- What is wrong with a fixture that cannot be loaded: its schema cannot be read, or the
file that says what to expect cannot be, or there is none. -/
inductive LoadFault (t : FileTree) (dir : FilePath) (stem : String) : FixtureError → Prop
  | source {cause : FileError} (hsource : t.readAt (dir ++ [stem ++ ".is"]) = .error cause) :
      LoadFault t dir stem (.fileRead (dir ++ [stem ++ ".is"]) cause)
  | dot {source : String} (hsource : t.readAt (dir ++ [stem ++ ".is"]) = .ok source)
      (hstem : stem = ".") : LoadFault t dir stem (.fileRead dir.dropLast .isDirectory)
  | facts {source : String} {cause : FileError}
      (hsource : t.readAt (dir ++ [stem ++ ".is"]) = .ok source) (hstem : stem ≠ ".")
      (hexists : t.node? (dir ++ [stem ++ ".facts"]) ≠ none)
      (hfacts : t.readAt (dir ++ [stem ++ ".facts"]) = .error cause) :
      LoadFault t dir stem (.fileRead (dir ++ [stem ++ ".facts"]) cause)
  | error {source : String} {cause : FileError}
      (hsource : t.readAt (dir ++ [stem ++ ".is"]) = .ok source) (hstem : stem ≠ ".")
      (hnone : t.node? (dir ++ [stem ++ ".facts"]) = none)
      (hexists : t.node? (dir ++ [stem ++ ".err"]) ≠ none)
      (herror : t.readAt (dir ++ [stem ++ ".err"]) = .error cause) :
      LoadFault t dir stem (.fileRead (dir ++ [stem ++ ".err"]) cause)
  | missing {source : String} (hsource : t.readAt (dir ++ [stem ++ ".is"]) = .ok source)
      (hstem : stem ≠ ".") (hnone : t.node? (dir ++ [stem ++ ".facts"]) = none)
      (hnone' : t.node? (dir ++ [stem ++ ".err"]) = none) :
      LoadFault t dir stem (.missingExpectation stem)

section

variable {t : FileTree} {dir p : FilePath} {stem text : String} {f : Fixture} {e : FixtureError}

theorem readFile_of_ok (h : t.readAt p = .ok text) : readFile t p = .ok text := by
  rw [readFile, h]
  rfl

theorem readFile_of_error {cause : FileError} (h : t.readAt p = .error cause) :
    readFile t p = .error (.fileRead p cause) := by
  rw [readFile, h]
  rfl

theorem node?_ne_none_of_readAt (h : t.readAt p = .ok text) : t.node? p ≠ none := by
  intro hnone
  rw [FileTree.readAt, hnone] at h
  cases h

theorem exists?_eq_true_iff : t.exists? p = true ↔ t.node? p ≠ none := by
  rw [FileTree.exists?, Option.isSome_iff_ne_none]

theorem companion_of_ne (hstem : stem ≠ ".") (ext : String) :
    companion dir stem ext = dir ++ [stem ++ ("." ++ ext)] := by
  rw [companion, if_neg hstem, append_dot]

theorem load_eq (hname : stem ≠ "") (hstem : stem ≠ ".") : load t dir (stem ++ ".is") =
    readFile t (dir ++ [stem ++ ".is"]) >>= fun source =>
      if t.exists? (dir ++ [stem ++ ".facts"]) then
        readFile t (dir ++ [stem ++ ".facts"]) >>= fun text =>
          .ok ⟨stem, source, .facts (Text.stripEnd text)⟩
      else if t.exists? (dir ++ [stem ++ ".err"]) then
        readFile t (dir ++ [stem ++ ".err"]) >>= fun text =>
          .ok ⟨stem, source, .error (Text.strip text)⟩
      else .error (.missingExpectation stem) := by
  rw [load, stemAndExtension_is hname]
  simp only [companion_of_ne hstem]
  rfl

/-- For the stem `.` the directory above stands in the way. -/
theorem load_dot (hup : t.node? dir.dropLast = some .directory) : load t dir ("." ++ ".is") =
    readFile t (dir ++ ["." ++ ".is"]) >>= fun _ => .error (.fileRead dir.dropLast .isDirectory) := by
  have hcompanion (ext : String) : companion dir "." ext = dir.dropLast := if_pos rfl
  have hexists : t.exists? dir.dropLast = true := by
    rw [FileTree.exists?, hup, Option.isSome_some]
  have hread : t.readAt dir.dropLast = .error .isDirectory := by
    rw [FileTree.readAt, hup]
  rw [load, stemAndExtension_is (by decide)]
  simp only [hcompanion, if_pos hexists, readFile_of_error hread]
  rfl

theorem load_eq_ok_of_loads (hname : stem ≠ "") (hstem : stem ≠ ".") (h : Loads t dir stem f) :
    load t dir (stem ++ ".is") = .ok f := by
  rw [load_eq hname hstem]
  cases h with
  | facts hsource hfacts hexpected =>
    rw [readFile_of_ok hsource, ← Text.isStripped_iff.1 hexpected]
    show ite _ _ _ = _
    rw [if_pos (exists?_eq_true_iff.2 (node?_ne_none_of_readAt hfacts)), readFile_of_ok hfacts]
    rfl
  | error hsource hnone herror hpart =>
    rw [readFile_of_ok hsource, ← Text.isTrimmed_iff.1 hpart]
    show ite _ _ _ = _
    rw [if_neg (mt exists?_eq_true_iff.1 (not_not.2 hnone)),
      if_pos (exists?_eq_true_iff.2 (node?_ne_none_of_readAt herror)), readFile_of_ok herror]
    rfl

theorem load_eq_error_of_loadFault (hname : stem ≠ "")
    (hup : t.node? dir.dropLast = some .directory) (h : LoadFault t dir stem e) :
    load t dir (stem ++ ".is") = .error e := by
  -- `load_eq` does not hold of the dot, for which nothing beside the schema is looked at.
  by_cases hstem : stem = "."
  · subst hstem
    rw [load_dot hup]
    cases h with
    | source hsource =>
      rw [readFile_of_error hsource]
      rfl
    | dot hsource _ =>
      rw [readFile_of_ok hsource]
      rfl
    | facts _ hne => exact absurd rfl hne
    | error _ hne => exact absurd rfl hne
    | missing _ hne => exact absurd rfl hne
  · rw [load_eq hname hstem]
    cases h with
    | source hsource =>
      rw [readFile_of_error hsource]
      rfl
    | dot _ hdot => exact absurd hdot hstem
    | facts hsource _ hexists hfacts =>
      rw [readFile_of_ok hsource]
      show ite _ _ _ = _
      rw [if_pos (exists?_eq_true_iff.2 hexists), readFile_of_error hfacts]
      rfl
    | error hsource _ hnone hexists herror =>
      rw [readFile_of_ok hsource]
      show ite _ _ _ = _
      rw [if_neg (mt exists?_eq_true_iff.1 (not_not.2 hnone)),
        if_pos (exists?_eq_true_iff.2 hexists), readFile_of_error herror]
      rfl
    | missing hsource _ hnone hnone' =>
      rw [readFile_of_ok hsource]
      show ite _ _ _ = _
      rw [if_neg (mt exists?_eq_true_iff.1 (not_not.2 hnone)),
        if_neg (mt exists?_eq_true_iff.1 (not_not.2 hnone'))]

/-- A fixture is loaded unless something is wrong with it. -/
theorem loads_or_loadFault (t : FileTree) (dir : FilePath) (stem : String) :
    (stem ≠ "." ∧ ∃ f, Loads t dir stem f) ∨ ∃ e, LoadFault t dir stem e := by
  cases hsource : t.readAt (dir ++ [stem ++ ".is"]) with
  | error cause => exact .inr ⟨_, .source hsource⟩
  | ok source =>
    by_cases hstem : stem = "."
    · exact .inr ⟨_, .dot hsource hstem⟩
    by_cases hnone : t.node? (dir ++ [stem ++ ".facts"]) = none
    · by_cases hnone' : t.node? (dir ++ [stem ++ ".err"]) = none
      · exact .inr ⟨_, .missing hsource hstem hnone hnone'⟩
      · cases herror : t.readAt (dir ++ [stem ++ ".err"]) with
        | error cause => exact .inr ⟨_, .error hsource hstem hnone hnone' herror⟩
        | ok text => exact .inl ⟨hstem, _, .error hsource hnone herror (Text.isTrimmed_strip text)⟩
    · cases hfacts : t.readAt (dir ++ [stem ++ ".facts"]) with
      | error cause => exact .inr ⟨_, .facts hsource hstem hnone hfacts⟩
      | ok text => exact .inl ⟨hstem, _, .facts hsource hfacts (Text.isStripped_stripEnd text)⟩

theorem load_eq_ok_iff (hname : stem ≠ "") (hup : t.node? dir.dropLast = some .directory) :
    load t dir (stem ++ ".is") = .ok f ↔ stem ≠ "." ∧ Loads t dir stem f := by
  constructor
  · intro h
    obtain ⟨hstem, f', hf'⟩ | ⟨e, he⟩ := loads_or_loadFault t dir stem
    · rw [load_eq_ok_of_loads hname hstem hf'] at h
      cases h
      exact ⟨hstem, hf'⟩
    · rw [load_eq_error_of_loadFault hname hup he] at h
      cases h
  · exact fun h => load_eq_ok_of_loads hname h.1 h.2

theorem load_eq_error_iff (hname : stem ≠ "") (hup : t.node? dir.dropLast = some .directory) :
    load t dir (stem ++ ".is") = .error e ↔ LoadFault t dir stem e := by
  constructor
  · intro h
    obtain ⟨hstem, f', hf'⟩ | ⟨e', he'⟩ := loads_or_loadFault t dir stem
    · rw [load_eq_ok_of_loads hname hstem hf'] at h
      cases h
    · rw [load_eq_error_of_loadFault hname hup he'] at h
      cases h
      exact he'
  · exact load_eq_error_of_loadFault hname hup

end

end Fixture

end InterfaceSchema
