import InterfaceSchema.Proofs.Fixtures.Loading
import InterfaceSchema.Proofs.Success
import Mathlib.Data.List.Forall2

/-!
# The verdict on a directory of fixtures

A fixture passes if its schema gives the facts to expect, or a reason that the part to
expect occurs in (`Fixture.Meets`); what is said of one that does not is a
`Fixture.Complaint`. A directory is refused for the first of its fixtures that cannot be
loaded. Otherwise its fixtures are counted if all pass, and if some do not, there is one
message for each of these, in the order of the files (`Fixture.verdict_of_runAll`).
-/

namespace InterfaceSchema

namespace Text

theorem containsText_iff {whole part : List Char} :
    containsText whole part = true ↔ part <:+: whole := by
  induction whole with
  | nil => rw [containsText, Bool.or_false, List.isPrefixOf_iff_prefix, List.prefix_nil,
      List.infix_nil]
  | cons c whole ih =>
    rw [containsText, Bool.or_eq_true, List.isPrefixOf_iff_prefix, ih, List.infix_cons_iff]

end Text

namespace Fixture

/-- A fixture passes: its schema gives the facts, apart from blank characters at the end,
or it fails and the part occurs in the reason. -/
inductive Meets : Fixture → Prop
  | facts {name source expected : String} {facts : FactBase}
      (hcompile : compile {} source = .ok facts)
      (htext : Text.IsStripped facts.render expected) : Meets ⟨name, source, .facts expected⟩
  | error {name source part : String} {e : CompileError}
      (hcompile : compile {} source = .error e) (hpart : part.toList <:+: e.reason.toList) :
      Meets ⟨name, source, .error part⟩

/-- What is said of a fixture that does not pass. -/
inductive Complaint : Fixture → FixtureError → Prop
  | factMismatch {name source expected : String} {facts : FactBase}
      (hcompile : compile {} source = .ok facts)
      (htext : ¬Text.IsStripped facts.render expected) :
      Complaint ⟨name, source, .facts expected⟩ (.factMismatch name expected facts.render)
  | unexpectedFailure {name source expected : String} {e : CompileError}
      (hcompile : compile {} source = .error e) :
      Complaint ⟨name, source, .facts expected⟩ (.unexpectedFailure name e.reason)
  | unexpectedSuccess {name source part : String} {facts : FactBase}
      (hcompile : compile {} source = .ok facts) :
      Complaint ⟨name, source, .error part⟩ (.unexpectedSuccess name part)
  | wrongError {name source part : String} {e : CompileError}
      (hcompile : compile {} source = .error e) (hpart : ¬part.toList <:+: e.reason.toList) :
      Complaint ⟨name, source, .error part⟩ (.wrongError name part e.reason)

theorem run_of_meets {f : Fixture} (h : f.Meets) : f.run = .ok () := by
  cases h with
  | facts hcompile htext =>
    simp only [run, hcompile]
    rw [if_pos (Text.isStripped_iff.1 htext)]
  | error hcompile hpart =>
    simp only [run, hcompile]
    rw [if_pos (Text.containsText_iff.2 hpart)]

theorem run_of_complaint {f : Fixture} {e : FixtureError} (h : f.Complaint e) :
    f.run = .error e := by
  cases h with
  | factMismatch hcompile htext =>
    simp only [run, hcompile]
    rw [if_neg (mt Text.isStripped_iff.2 htext)]
  | unexpectedFailure hcompile => simp only [run, hcompile]
  | unexpectedSuccess hcompile => simp only [run, hcompile]
  | wrongError hcompile hpart =>
    simp only [run, hcompile]
    rw [if_neg (mt Text.containsText_iff.1 hpart)]

/-- A fixture passes unless something is said of it. -/
theorem meets_or_complaint (f : Fixture) : f.Meets ∨ ∃ e, f.Complaint e := by
  obtain ⟨name, source, expectation⟩ := f
  cases expectation with
  | facts expected =>
    cases hcompile : compile {} source with
    | ok facts =>
      by_cases htext : Text.IsStripped facts.render expected
      · exact .inl (.facts hcompile htext)
      · exact .inr ⟨_, .factMismatch hcompile htext⟩
    | error e => exact .inr ⟨_, .unexpectedFailure hcompile⟩
  | error part =>
    cases hcompile : compile {} source with
    | ok facts => exact .inr ⟨_, .unexpectedSuccess hcompile⟩
    | error e =>
      by_cases hpart : part.toList <:+: e.reason.toList
      · exact .inl (.error hcompile hpart)
      · exact .inr ⟨_, .wrongError hcompile hpart⟩

theorem run_eq_ok_iff {f : Fixture} : f.run = .ok () ↔ f.Meets := by
  constructor
  · intro h
    obtain hmeets | ⟨e, he⟩ := f.meets_or_complaint
    · exact hmeets
    · rw [run_of_complaint he] at h
      cases h
  · exact run_of_meets

theorem run_eq_error_iff {f : Fixture} {e : FixtureError} : f.run = .error e ↔ f.Complaint e := by
  constructor
  · intro h
    obtain hmeets | ⟨e', he'⟩ := f.meets_or_complaint
    · rw [run_of_meets hmeets] at h
      cases h
    · rw [run_of_complaint he'] at h
      cases h
      exact he'
  · exact run_of_complaint

/-- The message about a fixture that does not pass. -/
def message? (f : Fixture) : Option String :=
  match f.run with
  | .ok _ => none
  | .error e => some e.message

theorem message?_eq_none_iff {f : Fixture} : f.message? = none ↔ f.Meets := by
  rw [message?, ← run_eq_ok_iff]
  cases f.run <;> simp

theorem message?_eq_some_iff {f : Fixture} {message : String} :
    f.message? = some message ↔ ∃ e, f.Complaint e ∧ message = e.message := by
  simp only [message?, ← run_eq_error_iff]
  cases f.run <;> simp [eq_comm]

theorem forall₂_filterMap {α β : Type} (g : α → Option β) (xs : List α) :
    List.Forall₂ (fun x y => g x = some y) (xs.filter fun x => (g x).isSome) (xs.filterMap g) := by
  induction xs with
  | nil => exact .nil
  | cons x xs ih =>
    cases hx : g x with
    | none =>
      rw [List.filter_cons_of_neg (by simp [hx]), List.filterMap_cons_none hx]
      exact ih
    | some y =>
      rw [List.filter_cons_of_pos (by simp [hx]), List.filterMap_cons_some hx]
      exact .cons hx ih

/-! ## All fixtures of a directory -/

section

variable (t : FileTree) (dir : FilePath) (stem : String)

/-- A fixture has all its texts. The stem `.` has none to expect. -/
def IsLoadable : Prop := stem ≠ "." ∧ ∃ f, Loads t dir stem f

/-- A fixture passes, by its texts. -/
def Passes : Prop := ∃ f, Loads t dir stem f ∧ f.Meets

/-- What is said of a fixture by its texts. -/
def Draws (message : String) : Prop :=
  ∃ f e, Loads t dir stem f ∧ f.Complaint e ∧ message = e.message

end

section

variable {t : FileTree} {path : String} {dir : FilePath} {stem : String} {stems : List String}
  {f : Fixture} {fixtures : List Fixture}

theorem Loads.name_eq (h : Loads t dir stem f) : f.name = stem := by
  cases h <;> rfl

theorem runAll_eq (hpath : t.resolve path = .ok dir) (hdir : t.node? dir = some .directory)
    (hstems : schemaNames t dir = stems.map (· ++ ".is")) :
    runAll t path = stems.mapM (fun stem => load t dir (stem ++ ".is")) >>= fun fixtures =>
      if (fixtures.filterMap message?).isEmpty then .ok fixtures.length
      else .error (.failures (fixtures.filterMap message?)) := by
  have hdirectory : directory t path = .ok dir := by
    simp only [directory, hpath, hdir]
  rw [runAll, discover, hdirectory]
  show (schemaNames t dir).mapM (load t dir) >>= _ = _
  rw [hstems, List.mapM_map]
  rfl

variable (hstems : schemaNames t dir = stems.map (· ++ ".is"))
  (hup : t.node? dir.dropLast = some .directory)

include hstems hup

theorem isLoadable_iff (hname : stem ∈ stems) :
    IsLoadable t dir stem ↔ (load t dir (stem ++ ".is")).isOk = true := by
  rw [isOk_iff_exists, IsLoadable, ← exists_and_left]
  simp only [load_eq_ok_iff (ne_empty_of_mem hstems hname) hup]

theorem forall_isLoadable_iff : (∀ stem ∈ stems, IsLoadable t dir stem) ↔
    ∃ fixtures, stems.mapM (fun stem => load t dir (stem ++ ".is")) = .ok fixtures := by
  rw [← isOk_iff_exists, isOk_mapM_iff]
  exact forall₂_congr fun stem hname => isLoadable_iff hstems hup hname

/-- What stands in the way of loading all fixtures is the fault of the first that has one. -/
theorem exists_loadFault (h : ¬∀ stem ∈ stems, IsLoadable t dir stem) :
    ∃ before stem behind e, stems = before ++ stem :: behind ∧
      (∀ x ∈ before, IsLoadable t dir x) ∧ LoadFault t dir stem e ∧
      stems.mapM (fun stem => load t dir (stem ++ ".is")) = .error e := by
  cases hload : stems.mapM (fun stem => load t dir (stem ++ ".is")) with
  | ok fixtures => exact absurd ((forall_isLoadable_iff hstems hup).2 ⟨fixtures, hload⟩) h
  | error e =>
    obtain ⟨before, stem, behind, rfl, hbefore, hstem⟩ := mapM_eq_error_iff.1 hload
    refine ⟨before, stem, behind, e, rfl, fun x hx => ?_, ?_, rfl⟩
    · rw [isLoadable_iff hstems hup (List.mem_append_left _ hx)]
      exact hbefore x hx
    · exact (load_eq_error_iff (ne_empty_of_mem hstems (by simp)) hup).1 hstem

theorem map_name_of_mapM_load
    (hload : stems.mapM (fun stem => load t dir (stem ++ ".is")) = .ok fixtures) :
    fixtures.map name = stems := by
  rw [← List.map_id stems]
  refine map_of_mapM_eq_ok (fun stem hstem f hloads => ?_) hload
  exact ((load_eq_ok_iff (ne_empty_of_mem hstems hstem) hup).1 hloads).2.name_eq

theorem passes_iff_of_load (hname : stem ∈ stems) (hload : load t dir (stem ++ ".is") = .ok f) :
    Passes t dir stem ↔ f.Meets := by
  obtain ⟨hstem, hloads⟩ := (load_eq_ok_iff (ne_empty_of_mem hstems hname) hup).1 hload
  constructor
  · rintro ⟨f', hloads', hmeets⟩
    rw [load_eq_ok_of_loads (ne_empty_of_mem hstems hname) hstem hloads'] at hload
    cases hload
    exact hmeets
  · exact fun hmeets => ⟨f, hloads, hmeets⟩

theorem load_of_mem (hload : stems.mapM (fun stem => load t dir (stem ++ ".is")) = .ok fixtures)
    (hf : f ∈ fixtures) : f.name ∈ stems ∧ load t dir (f.name ++ ".is") = .ok f := by
  obtain ⟨stem, hstem, hloads⟩ := exists_of_mem_mapM hload hf
  have hname := ((load_eq_ok_iff (ne_empty_of_mem hstems hstem) hup).1 hloads).2.name_eq
  exact ⟨hname ▸ hstem, hname ▸ hloads⟩

theorem forall_meets_iff
    (hload : stems.mapM (fun stem => load t dir (stem ++ ".is")) = .ok fixtures) :
    (∀ f ∈ fixtures, f.Meets) ↔ ∀ stem ∈ stems, Passes t dir stem := by
  constructor
  · intro h stem hstem
    obtain ⟨f, hf, hloads⟩ := exists_of_mapM_eq_ok hload hstem
    exact (passes_iff_of_load hstems hup hstem hloads).2 (h f hf)
  · intro h f hf
    obtain ⟨hstem, hloads⟩ := load_of_mem hstems hup hload hf
    exact (passes_iff_of_load hstems hup hstem hloads).1 (h f.name hstem)

/-- The names of the fixtures that fail, with the messages about them. -/
theorem exists_failing
    (hload : stems.mapM (fun stem => load t dir (stem ++ ".is")) = .ok fixtures) :
    ∃ failing, InFileOrder (fun stem => HasSchema t dir stem ∧ ¬Passes t dir stem) failing ∧
      List.Forall₂ (Draws t dir) failing (fixtures.filterMap message?) := by
  have hmeets (f : Fixture) : f.message?.isSome = true ↔ ¬f.Meets := by
    rw [Option.isSome_iff_ne_none, ne_eq, message?_eq_none_iff]
  have horder := inFileOrder_of_schemaNames hstems
  -- The messages come from these fixtures one by one, whose names are some of the stems.
  refine ⟨(fixtures.filter fun f => f.message?.isSome).map name, ⟨?_, fun stem => ?_⟩, ?_⟩
  · refine horder.sorted.sublist ?_
    rw [← map_name_of_mapM_load hstems hup hload]
    exact List.filter_sublist.map name
  · rw [← horder.mem_iff]
    simp only [List.mem_map, List.mem_filter, hmeets]
    constructor
    · rintro ⟨f, ⟨hf, hfails⟩, rfl⟩
      obtain ⟨hstem, hloads⟩ := load_of_mem hstems hup hload hf
      exact ⟨hstem, mt (passes_iff_of_load hstems hup hstem hloads).1 hfails⟩
    · rintro ⟨hstem, hfails⟩
      obtain ⟨f, hf, hloads⟩ := exists_of_mapM_eq_ok hload hstem
      have hname := ((load_eq_ok_iff (ne_empty_of_mem hstems hstem) hup).1 hloads).2.name_eq
      exact ⟨f, ⟨hf, mt (passes_iff_of_load hstems hup hstem hloads).2 hfails⟩, hname⟩
  · rw [List.forall₂_map_left_iff]
    have hloads : ∀ f ∈ fixtures.filter fun f => f.message?.isSome, Loads t dir f.name f := by
      intro f hf
      obtain ⟨hstem, hloads⟩ := load_of_mem hstems hup hload (List.mem_of_mem_filter hf)
      exact ((load_eq_ok_iff (ne_empty_of_mem hstems hstem) hup).1 hloads).2
    refine ((List.forall₂_and_left _ _).2 ⟨hloads, forall₂_filterMap message? fixtures⟩).imp ?_
    rintro f message ⟨hf, hmessage⟩
    obtain ⟨e, he, rfl⟩ := message?_eq_some_iff.1 hmessage
    exact ⟨f, e, hf, he, rfl⟩

end

/-! ## The verdict -/

section

variable {t : FileTree} {path : String} {dir : FilePath} {stems : List String}
  {fixtures : List Fixture}

theorem isEmpty_messages_iff :
    (fixtures.filterMap message?).isEmpty = true ↔ ∀ f ∈ fixtures, f.Meets := by
  rw [List.isEmpty_iff, List.filterMap_eq_nil_iff]
  exact forall₂_congr fun f _ => message?_eq_none_iff

theorem runAll_eq_ok_iff (hpath : t.resolve path = .ok dir) (hdir : t.node? dir = some .directory)
    (hstems : schemaNames t dir = stems.map (· ++ ".is")) {n : Nat} : runAll t path = .ok n ↔ n = stems.length ∧
      (∀ stem ∈ stems, IsLoadable t dir stem) ∧ ∀ stem ∈ stems, Passes t dir stem := by
  have hup := FileTree.node?_dropLast_of_resolve hpath hdir
  rw [runAll_eq hpath hdir hstems, bind_eq_ok_iff]
  constructor
  · rintro ⟨fixtures, hload, h⟩
    split at h
    · rename_i hnone
      cases h
      rw [← forall_meets_iff hstems hup hload, forall_isLoadable_iff hstems hup]
      refine ⟨?_, ⟨fixtures, hload⟩, isEmpty_messages_iff.1 hnone⟩
      rw [← map_name_of_mapM_load hstems hup hload, List.length_map]
    · cases h
  · rintro ⟨rfl, hloadable, hpasses⟩
    obtain ⟨fixtures, hload⟩ := (forall_isLoadable_iff hstems hup).1 hloadable
    refine ⟨fixtures, hload, ?_⟩
    rw [if_pos (isEmpty_messages_iff.2 ((forall_meets_iff hstems hup hload).2 hpasses)),
      ← map_name_of_mapM_load hstems hup hload, List.length_map]

theorem runAll_of_not_loadable (hpath : t.resolve path = .ok dir)
    (hdir : t.node? dir = some .directory) (hstems : schemaNames t dir = stems.map (· ++ ".is"))
    (h : ¬∀ stem ∈ stems, IsLoadable t dir stem) :
    ∃ before stem behind e, stems = before ++ stem :: behind ∧
      (∀ x ∈ before, IsLoadable t dir x) ∧ LoadFault t dir stem e ∧ runAll t path = .error e := by
  have hup := FileTree.node?_dropLast_of_resolve hpath hdir
  obtain ⟨before, stem, behind, e, hsplit, hbefore, hfault, hload⟩ :=
    exists_loadFault hstems hup h
  refine ⟨before, stem, behind, e, hsplit, hbefore, hfault, ?_⟩
  rw [runAll_eq hpath hdir hstems, hload]
  rfl

theorem runAll_of_not_passes (hpath : t.resolve path = .ok dir)
    (hdir : t.node? dir = some .directory) (hstems : schemaNames t dir = stems.map (· ++ ".is"))
    (hloadable : ∀ stem ∈ stems, IsLoadable t dir stem) (h : ∃ stem ∈ stems, ¬Passes t dir stem) :
    ∃ failing messages,
      InFileOrder (fun stem => HasSchema t dir stem ∧ ¬Passes t dir stem) failing ∧
      List.Forall₂ (Draws t dir) failing messages ∧
      runAll t path = .error (.failures messages) := by
  have hup := FileTree.node?_dropLast_of_resolve hpath hdir
  obtain ⟨fixtures, hload⟩ := (forall_isLoadable_iff hstems hup).1 hloadable
  obtain ⟨failing, hfailing, hdraws⟩ := exists_failing hstems hup hload
  refine ⟨failing, _, hfailing, hdraws, ?_⟩
  rw [runAll_eq hpath hdir hstems, hload]
  have hfails : ¬∀ f ∈ fixtures, f.Meets := by
    rw [forall_meets_iff hstems hup hload]
    push Not
    exact h
  exact if_neg (mt isEmpty_messages_iff.1 hfails)

/-- All fixtures of a directory are counted if all can be loaded and pass. If one cannot be
loaded, the directory is refused for the first such one, whatever the others do; else for all
that fail, with one message for each. -/
theorem verdict_of_runAll (hpath : t.resolve path = .ok dir)
    (hdir : t.node? dir = some .directory) :
    ∃ stems, InFileOrder (HasSchema t dir) stems ∧
      (∀ n, runAll t path = .ok n ↔ n = stems.length ∧
        (∀ stem ∈ stems, IsLoadable t dir stem) ∧ ∀ stem ∈ stems, Passes t dir stem) ∧
      ((¬∀ stem ∈ stems, IsLoadable t dir stem) →
        ∃ before stem behind e, stems = before ++ stem :: behind ∧
          (∀ x ∈ before, IsLoadable t dir x) ∧ LoadFault t dir stem e ∧
          runAll t path = .error e) ∧
      ((∀ stem ∈ stems, IsLoadable t dir stem) → (∃ stem ∈ stems, ¬Passes t dir stem) →
        ∃ failing messages,
          InFileOrder (fun stem => HasSchema t dir stem ∧ ¬Passes t dir stem) failing ∧
          List.Forall₂ (Draws t dir) failing messages ∧
          runAll t path = .error (.failures messages)) := by
  obtain ⟨stems, hstems⟩ := exists_stems t dir
  refine ⟨stems, inFileOrder_of_schemaNames hstems, fun n => runAll_eq_ok_iff hpath hdir hstems, ?_, ?_⟩
  · exact runAll_of_not_loadable hpath hdir hstems
  · exact runAll_of_not_passes hpath hdir hstems

end

/-- Fixtures that pass, one that does not behind one that does, and one with nothing to expect
behind one that does not pass. -/
def mixedTree : FileTree where
  files := [(["pass", "a.is"], "many: x".toUTF8), (["pass", "a.facts"], "set(many, x)\n\n".toUTF8),
    (["pass", "b.is"], "many: P(a): x".toUTF8), (["pass", "b.err"], "Undeclared\n".toUTF8),
    (["fail", "a.is"], "many: x".toUTF8), (["fail", "a.facts"], "set(many, x)".toUTF8),
    (["fail", "b.is"], "many: x".toUTF8), (["fail", "b.err"], "Undeclared".toUTF8),
    (["lost", "a.is"], "many: P(a): x".toUTF8), (["lost", "a.facts"], "".toUTF8),
    (["lost", "b.is"], "many: x".toUTF8)]

theorem directories_mixedTree : ∀ name ∈ ["pass", "fail", "lost"],
    mixedTree.resolve name = .ok [name] ∧ mixedTree.node? [name] = some .directory ∧
      schemaNames mixedTree [name] = ["a", "b"].map (· ++ ".is") := by
  intro name hname
  have hentries : ∀ name ∈ ["pass", "fail", "lost"],
      (mixedTree.entries [name]).filter isSchemaName = ["a.is", "b.is"] := by decide +kernel
  have hpath : ∀ name ∈ ["pass", "fail", "lost"], mixedTree.resolve name = .ok [name] := by
    decide +kernel
  have hdir : ∀ name ∈ ["pass", "fail", "lost"], mixedTree.files.lookup [name] = none ∧
      (List.isEmpty [name] || mixedTree.files.any fun f => List.isPrefixOf [name] f.1) = true := by
    decide +kernel
  refine ⟨hpath name hname, FileTree.node?_eq_directory_iff.2 (hdir name hname), ?_⟩
  rw [schemaNames, hentries name hname]
  exact List.mergeSort_of_pairwise (by decide +kernel)

theorem runAll_mixedTree : runAll mixedTree "pass" = .ok 2 ∧
    runAll mixedTree "fail" = .error (.failures
      ["Fixture 'b' compiled but was expected to fail with 'Undeclared'"]) ∧
    runAll mixedTree "lost" = .error (.missingExpectation "b") := by
  have hrun (name : String) (hname : name ∈ ["pass", "fail", "lost"]) :=
    let ⟨hpath, hdir, hstems⟩ := directories_mixedTree name hname
    runAll_eq hpath hdir hstems
  rw [hrun "pass" (by decide), hrun "fail" (by decide), hrun "lost" (by decide)]
  decide +kernel

theorem verdict_of_runAll_mixedTree :
    (runAll mixedTree "pass" = .ok 2 ∧
      ∀ stem, HasSchema mixedTree ["pass"] stem → Passes mixedTree ["pass"] stem) ∧
    (∃ failing messages,
      InFileOrder (fun stem => HasSchema mixedTree ["fail"] stem ∧
        ¬Passes mixedTree ["fail"] stem) failing ∧
      List.Forall₂ (Draws mixedTree ["fail"]) failing messages ∧
      runAll mixedTree "fail" = .error (.failures messages)) ∧
    runAll mixedTree "lost" = .error (.missingExpectation "b") ∧
      ∃ stem, HasSchema mixedTree ["lost"] stem ∧
        LoadFault mixedTree ["lost"] stem (.missingExpectation "b") := by
  obtain ⟨hpass, hfail, hlost⟩ := runAll_mixedTree
  refine ⟨⟨hpass, ?_⟩, ?_, hlost, ?_⟩
  · obtain ⟨hpath, hdir, _⟩ := directories_mixedTree "pass" (by decide)
    obtain ⟨stems, horder, hcount, _⟩ := verdict_of_runAll hpath hdir
    exact fun stem hstem => ((hcount 2).1 hpass).2.2 stem ((horder.mem_iff stem).2 hstem)
  · obtain ⟨hpath, hdir, _⟩ := directories_mixedTree "fail" (by decide)
    obtain ⟨stems, horder, hcount, hrefused, hfailures⟩ := verdict_of_runAll hpath hdir
    by_cases hloadable : ∀ stem ∈ stems, IsLoadable mixedTree ["fail"] stem
    · refine hfailures hloadable ?_
      by_contra! hpasses
      rw [(hcount _).2 ⟨rfl, hloadable, hpasses⟩] at hfail
      cases hfail
    · obtain ⟨_, _, _, _, _, _, hfault, hrun⟩ := hrefused hloadable
      rw [hfail] at hrun
      cases hrun
      cases hfault
  · obtain ⟨hpath, hdir, _⟩ := directories_mixedTree "lost" (by decide)
    obtain ⟨stems, horder, hcount, hrefused, hfailures⟩ := verdict_of_runAll hpath hdir
    by_cases hloadable : ∀ stem ∈ stems, IsLoadable mixedTree ["lost"] stem
    · by_cases hpasses : ∀ stem ∈ stems, Passes mixedTree ["lost"] stem
      · rw [(hcount _).2 ⟨rfl, hloadable, hpasses⟩] at hlost
        cases hlost
      · push Not at hpasses
        obtain ⟨_, _, _, _, hrun⟩ := hfailures hloadable hpasses
        rw [hlost] at hrun
        cases hrun
    · obtain ⟨before, stem, behind, e, rfl, _, hfault, hrun⟩ := hrefused hloadable
      rw [hlost] at hrun
      cases hrun
      exact ⟨stem, (horder.mem_iff stem).1 (by simp), hfault⟩

/-- The schema `..is` with facts beside it. -/
def dotTree : FileTree where
  files := [(["..is"], "many: x".toUTF8), (["..facts"], "set(many, x)".toUTF8)]

/-- The stem is a dot. All is there that its fixture needs to pass, but the facts are looked
for under `..`, the directory above, and the directory is refused. -/
theorem runAll_dotTree : dotTree.resolve "." = .ok [] ∧ dotTree.node? [] = some .directory ∧
    InFileOrder (HasSchema dotTree []) ["."] ∧ (∀ stem ∈ ["."], Passes dotTree [] stem) ∧
    runAll dotTree "." = .error (.fileRead [] .isDirectory) := by
  have hpath : dotTree.resolve "." = .ok [] := by decide +kernel
  have hdir : dotTree.node? [] = some .directory :=
    FileTree.node?_eq_directory_iff.2 (by decide +kernel)
  have hstems : schemaNames dotTree [] = ["."].map (· ++ ".is") := by
    have hentries : (dotTree.entries []).filter isSchemaName = ["..is"] := by decide +kernel
    rw [schemaNames, hentries]
    exact List.mergeSort_singleton _
  refine ⟨hpath, hdir, inFileOrder_of_schemaNames hstems, ?_, ?_⟩
  · have hsource : dotTree.readAt ([] ++ ["." ++ ".is"]) = .ok "many: x" := by decide +kernel
    have hfacts : dotTree.readAt ([] ++ ["." ++ ".facts"]) = .ok "set(many, x)" := by
      decide +kernel
    have hexpected : Text.IsStripped "set(many, x)" "set(many, x)" :=
      Text.isStripped_iff.2 (by decide +kernel)
    rw [List.forall_mem_singleton]
    exact ⟨_, .facts hsource hfacts hexpected, run_eq_ok_iff.1 (by decide +kernel)⟩
  · rw [runAll_eq hpath hdir hstems]
    decide +kernel

end Fixture

end InterfaceSchema
