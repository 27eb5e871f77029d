import InterfaceSchema.Compile
import InterfaceSchema.Proofs.Expansion.Refusal
import InterfaceSchema.Proofs.Expansion.Words
import InterfaceSchema.Proofs.Occurrence
import InterfaceSchema.Proofs.Reading.Picking
import InterfaceSchema.Proofs.Reading.Soundness

/-!
# Sites of errors

What an error of meaning says is so in the program (`Program.Shows`), and its site is
an identifier of the text, at its place there, however deep in the expansion the
error is found (`Program.shows_of_compile_eq_error`).
-/

namespace InterfaceSchema

/-- The identifier that the error points at. -/
def SemanticError.site? : SemanticError → Option Identifier
  | emptyDefinition site => some site
  | undeclaredTemplate site => some site
  | duplicateTemplate site => some site
  | arityMismatch site _ _ => some site
  | recursiveTemplate _ _ => none

namespace Program

/-- A definition of the program calls the template named at `site` with so many
arguments. -/
def Calls (p : Program) (site : Identifier) (arity : Nat) : Prop :=
  ∃ d ∈ p.definitions, ∃ args, .call site args ∈ d.decorators ∧ args.length = arity

/-- What the error says is so in the program, in the form that it was read in. -/
def Shows (p : Program) : SemanticError → Prop
  | .emptyDefinition _ => False
  | .undeclaredTemplate site => (∃ arity, p.Calls site arity) ∧
    ∀ t ∈ Statement.declarationsIn p.statements, t.name ≠ site.name
  | .arityMismatch site expected actual => p.Calls site actual ∧ expected ≠ actual ∧
    ∃ t, (Statement.declarationsIn p.statements).filter (·.name == site.name) = [t] ∧
      t.params.length = expected
  | .duplicateTemplate site => ∃ before t behind,
    Statement.declarationsIn p.statements = before ++ t :: behind ∧ t.header.id = site ∧
      ∃ u ∈ before, u.name = site.name ∧ u.header.id.span.stop ≤ site.span.start
  | .recursiveTemplate name _ => ∃ t ∈ Statement.declarationsIn p.statements, t.name = name

variable {options : Options} {p : Program} {e : SemanticError}

theorem mem_identifiers_of_calls {site : Identifier} {arity : Nat} (h : p.Calls site arity) :
    site ∈ p.identifiers := by
  obtain ⟨d, hd, args, hcall, _⟩ := h
  exact identifiers_subset hd (Definition.template_mem_identifiers hcall)

/-- The site of an error that says what is so is an identifier of the program. -/
theorem Shows.site_mem (h : p.Shows e) : ∀ site ∈ e.site?, site ∈ p.identifiers := by
  intro site hsite
  cases e with
  | emptyDefinition _ => cases h
  | undeclaredTemplate _ =>
    cases hsite
    obtain ⟨⟨_, hcall⟩, _⟩ := h
    exact mem_identifiers_of_calls hcall
  | arityMismatch _ _ _ =>
    cases hsite
    exact mem_identifiers_of_calls h.1
  | duplicateTemplate _ =>
    cases hsite
    obtain ⟨before, t, behind, hts, rfl, _⟩ := h
    exact header_mem_identifiers (by simp [hts])
  | recursiveTemplate _ _ => cases hsite

theorem calls_of_writes {site : Identifier} {arity : Nat}
    (h : (p.compilation options).Writes p.statements site arity) : p.Calls site arity := by
  obtain ⟨s, hs, d, hd, hcall⟩ := h
  exact ⟨d, List.mem_flatMap.2 ⟨s, hs, s.compiled_subset_definitions hd⟩, hcall⟩

/-- With distinct names one declaration alone has the name of a template. -/
theorem filter_name_eq_singleton {ts : List Template} (h : (ts.map Template.name).Nodup)
    {t : Template} (ht : t ∈ ts) : ts.filter (·.name == t.name) = [t] := by
  obtain ⟨before, behind, rfl⟩ := List.mem_iff_append.1 ht
  simp only [List.map_append, List.map_cons, List.nodup_append, List.nodup_cons, List.mem_map,
    List.mem_cons] at h
  obtain ⟨_, ⟨hbehind, _⟩, hbefore⟩ := h
  have hnone (us : List Template) (hus : ∀ u ∈ us, u.name ≠ t.name) :
      us.filter (·.name == t.name) = [] := by simpa using hus
  rw [List.filter_append, List.filter_cons_of_pos (by simp),
    hnone before fun u hu => hbefore _ ⟨u, hu, rfl⟩ _ (.inl rfl),
    hnone behind fun u hu hname => hbehind ⟨u, hu, hname⟩, List.nil_append]

theorem shows_of_refuses {scopes : Scopes} {site : Identifier} {args : Option (List Identifier)}
    {inst : String} (hdistinct : ((Statement.declarationsIn p.statements).map Template.name).Nodup)
    (hr : (p.compilation options).Reaches p.statements scopes site args inst)
    (he : (p.compilation options).Refuses scopes site args e) : p.Shows e := by
  cases he with
  | undeclared ht =>
    refine ⟨?_, Registry.find?_eq_none_iff.1 ht⟩
    rcases hr.written with ⟨as, _, hcall⟩ | ⟨_, hsome⟩
    · exact ⟨_, calls_of_writes hcall⟩
    · rw [ht] at hsome
      cases hsome
  | recursive ht _ => exact ⟨_, Registry.mem_of_find? ht, rfl⟩
  | @arity as t ht _ hne =>
    rcases hr.written with ⟨_, ⟨⟩, hcall⟩ | ⟨⟨⟩, _⟩
    refine ⟨calls_of_writes hcall, hne, t, ?_, rfl⟩
    rw [← Registry.name_of_find? ht]
    exact filter_name_eq_singleton hdistinct (Registry.mem_of_find? ht)

theorem shows_of_ofStatements
    (hp : p.identifiers.Pairwise fun id id' => id.span.stop ≤ id'.span.start)
    (h : Registry.ofStatements p.statements = .error e) : p.Shows e := by
  obtain ⟨before, t, behind, hts, _, ht, rfl⟩ := Registry.ofStatements_eq_error_iff.1 h
  obtain ⟨u, hu, hname⟩ := List.mem_map.1 ht
  refine ⟨before, t, behind, hts, rfl, u, hu, hname, ?_⟩
  have hheaders := hp.sublist (Statement.headers_sublist p.statements)
  rw [hts, List.map_append, List.pairwise_append] at hheaders
  exact hheaders.2.2 _ (List.mem_map_of_mem hu) _ (by simp)

theorem isDecorated_of_isWellFormed {s : Statement} (h : s.isWellFormed = true) :
    s.IsDecorated := by
  intro d hd
  have hwf := Statement.isWellFormed_of_mem_definitions h (s.compiled_subset_definitions hd)
  simp only [Definition.isWellFormed, Bool.and_eq_true] at hwf
  simpa using hwf.1.1

/-- An error of a well-formed program, whose identifiers stand one behind the other,
says what is so. -/
theorem shows_of_facts_eq_error (hwf : p.isWellFormed = true)
    (hp : p.identifiers.Pairwise fun id id' => id.span.stop ≤ id'.span.start)
    (h : p.facts options = .error e) : p.Shows e := by
  rcases facts_eq_error_iff.1 h with h | ⟨hdistinct, h⟩
  · exact shows_of_ofStatements hp h
  · have hbodies : ∀ t ∈ (p.compilation options).registry.templates, ∀ s ∈ t.body,
        s.IsDecorated := fun t ht s hs => isDecorated_of_isWellFormed <|
      Statement.areWellFormed_iff.1 (Statement.isWellFormed_of_mem_declarationsIn hwf ht).2 s hs
    obtain ⟨scopes, site, args, inst, hr, he⟩ := Compilation.exists_refusal hbodies
      (fun s hs => isDecorated_of_isWellFormed (Statement.areWellFormed_iff.1 hwf s hs)) h
    exact shows_of_refuses hdistinct hr he

/-! ## Errors of texts -/

/-- If a text is read and not compiled, then the error is one of meaning, says what is
so in the program, and points at a word of the text, at its place there. -/
theorem shows_of_compile_eq_error {source : String} {err : CompileError}
    (hread : Program.ofText source = .ok p) (h : compile options source = .error err) :
    ∃ e, err = .meaning e ∧ p.Shows e ∧
      ∃ ts, Token.ofText (Layout.canonical source) = .ok ts ∧
        ∀ site ∈ e.site?, ⟨.word site.name, site.span⟩ ∈ ts ∧
          site.span.Covers (Layout.canonical source) site.name := by
  obtain ⟨e, he, rfl⟩ : ∃ e, p.facts options = .error e ∧ err = .meaning e := by
    have h : (p.facts options).mapError CompileError.meaning = .error err := by
      rwa [compile, hread] at h
    cases hfacts : p.facts options with
    | ok fs =>
      rw [hfacts] at h
      cases h
    | error e =>
      rw [hfacts] at h
      cases h
      exact ⟨e, rfl, rfl⟩
  obtain ⟨ts, hts, _, htokens⟩ := Program.exists_token_of_ofText hread
  have hshows : p.Shows e := shows_of_facts_eq_error (Program.exists_lines_of_ofText hread).1
    (Program.pairwise_of_ofText hread) he
  refine ⟨e, rfl, hshows, ts, hts, fun site hsite => ?_⟩
  have htoken := htokens site (hshows.site_mem site hsite)
  exact ⟨htoken, (Token.covers_of_word_mem hts htoken).2⟩

end Program

/-- A body, renamed for an instance, with a call that lacks an argument. -/
def misfitText : String :=
  "pattern T(a, b):\n\tsingle: m\nend\n% calls T\npattern U(x):\n\tT(x): n\nend\nU(p): q"

example : (match compile {} misfitText with | .ok _ => "" | .error e => e.display) =
    "Semantic error: Template 'T' expects 2 arguments, got 1 at line 5, column 2" := by
  decide +kernel

theorem shows_of_compile_eq_error_misfitText : ∃ p err e,
    Program.ofText misfitText = .ok p ∧ compile {} misfitText = .error err ∧
      err = .meaning e ∧ p.Shows e ∧
      ∃ ts, Token.ofText (Layout.canonical misfitText) = .ok ts ∧
        ∀ site ∈ e.site?, ⟨.word site.name, site.span⟩ ∈ ts ∧
          site.span.Covers (Layout.canonical misfitText) site.name := by
  have hread : (Program.ofText misfitText).isOk = true := by decide +kernel
  have hfails : (compile {} misfitText).isOk = false := by decide +kernel
  obtain ⟨p, hp⟩ := isOk_iff_exists.1 hread
  cases herr : compile {} misfitText with
  | ok fs =>
    rw [herr] at hfails
    cases hfails
  | error err =>
    obtain ⟨e, h⟩ := Program.shows_of_compile_eq_error hp herr
    exact ⟨p, err, e, hp, rfl, h⟩

end InterfaceSchema
