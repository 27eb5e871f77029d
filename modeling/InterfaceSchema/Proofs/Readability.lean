import InterfaceSchema.Compile
import InterfaceSchema.Proofs.Expansion.Words
import InterfaceSchema.Proofs.Reading.Soundness

/-!
# Reading facts back

The lines of compiled facts can be told apart. `Fact.ofText?` finds the fact of a
line: the predicate stands before the first parenthesis, and no name holds a
parenthesis, a comma or a line end. `FactBase.ofText?` finds the facts of a
rendered text, line by line. Both give back what was compiled
(`Fact.ofText?_text`, `FactBase.ofText?_render`).
-/

namespace InterfaceSchema

namespace Fact

variable {x : String}

/-- A name holds no character that stands neither in words nor in what stands for
a member. -/
theorem IsName.not_mem {c : Char} (h : IsName x) (hc : Token.isWordChar c = false)
    (hmember : c ∉ Unimplemented.memberAccess.text.toList) : c ∉ x.toList := by
  intro hmem
  rcases h with hword | rfl
  · simp only [isWord, Bool.and_eq_true, List.all_eq_true] at hword
    rw [hword.2 c hmem] at hc
    cases hc
  · exact hmember hmem

theorem IsName.exists_eq_cons (h : IsName x) :
    ∃ c cs, x.toList = c :: cs ∧ c ≠ ' ' := by
  rcases h with hword | rfl
  · simp only [isWord, Bool.and_eq_true, List.all_eq_true] at hword
    cases hx : x.toList with
    | nil =>
      rw [hx] at hword
      cases hword.1
    | cons c cs =>
      refine ⟨c, cs, rfl, ?_⟩
      rintro rfl
      have hspace := hword.2 ' ' (hx ▸ List.mem_cons_self)
      revert hspace
      decide
  · exact ⟨_, _, rfl, by decide⟩

theorem IsName.ne_empty (h : IsName x) : x ≠ "" := by
  rintro rfl
  obtain ⟨c, cs, hx, _⟩ := h.exists_eq_cons
  cases hx

/-- The fact that says a predicate of these names. -/
def ofPredicate? : String → List String → Option Fact
  | "set", [kind, name] => some (.set kind name)
  | "structure", [name] => some (.structured name)
  | "instance", [tag, name] => some (.inst tag name)
  | "apply_instance", [template, name] => some (.applyInstance template name)
  | "apply_mapto_many", [left, right] => some (.apply .mapToMany left right)
  | "apply_mapto", [left, right] => some (.apply .mapTo left right)
  | "apply_structures", [left, right] => some (.apply .structures left right)
  | "apply_constrains", [left, right] => some (.apply .constrains left right)
  | "apply_cover", [left, middle, right] => some (.applyCover left middle right)
  | _, _ => none

/-- The names between commas. -/
def argumentsOf (cs : List Char) : List String :=
  (cs.splitOn ',').map fun arg => String.ofList (arg.dropWhile (· == ' '))

/-- The fact of a line. Only a predicate has a parenthesis. -/
def ofText? (text : String) : Option Fact :=
  match text.toList.splitOn '(' with
  | [name, args] => ofPredicate? (String.ofList name) (argumentsOf args.dropLast)
  | _ => if text = Unimplemented.represents.text then some (.unimplemented .represents)
    else some (.term text)

theorem not_mem_intercalate {c : Char} {separator : List Char} {xs : List (List Char)}
    (hseparator : c ∉ separator) (hxs : ∀ x ∈ xs, c ∉ x) : c ∉ separator.intercalate xs := by
  induction xs with
  | nil => simp [List.intercalate]
  | cons x xs ih =>
    obtain ⟨hx, hxs⟩ := List.forall_mem_cons.1 hxs
    cases xs with
    | nil => rwa [List.intercalate_singleton]
    | cons y ys =>
      rw [List.intercalate_cons_cons, List.mem_append, List.mem_append]
      rintro ((h | h) | h)
      · exact hx h
      · exact hseparator h
      · exact ih hxs h

/-- The space behind a comma may as well stand before the next name. -/
theorem intercalate_comma_space (x : List Char) (xs : List (List Char)) :
    [',', ' '].intercalate (x :: xs) = [','].intercalate (x :: xs.map (' ' :: ·)) := by
  induction xs generalizing x with
  | nil => rfl
  | cons y ys ih =>
    have hspace (zs : List (List Char)) :
        [','].intercalate ((' ' :: y) :: zs) = ' ' :: [','].intercalate (y :: zs) := by
      cases zs with
      | nil => rfl
      | cons z zs =>
        rw [List.intercalate_cons_cons, List.intercalate_cons_cons]
        rfl
    rw [List.intercalate_cons_cons, ih, List.map_cons, List.intercalate_cons_cons, hspace]
    simp

theorem argumentsOf_intercalate {arg : String} {args : List String}
    (hargs : ∀ a ∈ arg :: args, IsName a) :
    argumentsOf ([',', ' '].intercalate ((arg :: args).map String.toList)) = arg :: args := by
  have hcomma : ∀ a ∈ arg :: args, ',' ∉ a.toList :=
    fun a ha => (hargs a ha).not_mem (by decide) (by decide)
  have htrim : ∀ a ∈ arg :: args, a.toList.dropWhile (· == ' ') = a.toList := by
    intro a ha
    obtain ⟨c, cs, hcs, hc⟩ := (hargs a ha).exists_eq_cons
    rw [hcs, List.dropWhile_cons_of_neg (by simpa using hc)]
  obtain ⟨harg, htrimmed⟩ := List.forall_mem_cons.1 htrim
  have hsplit : ([','].intercalate (arg.toList :: args.map (' ' :: ·.toList))).splitOn ',' =
      arg.toList :: args.map (' ' :: ·.toList) := by
    refine List.splitOn_intercalate ',' ?_ (by simp)
    obtain ⟨hcommaArg, hcommaArgs⟩ := List.forall_mem_cons.1 hcomma
    refine List.forall_mem_cons.2 ⟨hcommaArg, List.forall_mem_map.2 fun a ha => ?_⟩
    simpa using hcommaArgs a ha
  rw [List.map_cons, intercalate_comma_space, List.map_map, argumentsOf]
  show List.map _ (([','].intercalate (arg.toList :: args.map (' ' :: ·.toList))).splitOn ',') = _
  rw [hsplit, List.map_cons, harg, String.ofList_toList, List.map_map]
  have hnames : args.map (fun a => String.ofList ((' ' :: a.toList).dropWhile (· == ' '))) = args := by
    refine (List.map_congr_left fun a ha => ?_).trans (List.map_id args)
    rw [List.dropWhile_cons_of_pos (by rfl), htrimmed a ha, String.ofList_toList]
    rfl
  exact congrArg _ hnames

theorem ofText?_predicate {name arg : String} {args : List String}
    (hname : '(' ∉ name.toList) (hargs : ∀ a ∈ arg :: args, IsName a) :
    ofText? (predicate name (arg :: args)) = ofPredicate? name (arg :: args) := by
  have hparen : '(' ∉ [',', ' '].intercalate ((arg :: args).map String.toList) ++ [')'] := by
    rw [List.mem_append, not_or]
    refine ⟨not_mem_intercalate (by decide) (List.forall_mem_map.2 fun a ha => ?_), by decide⟩
    exact (hargs a ha).not_mem (by decide) (by decide)
  have hsplit : (predicate name (arg :: args)).toList.splitOn '(' =
      [name.toList, [',', ' '].intercalate ((arg :: args).map String.toList) ++ [')']] := by
    have htext : (predicate name (arg :: args)).toList = ['('].intercalate
        [name.toList, [',', ' '].intercalate ((arg :: args).map String.toList) ++ [')']] := by
      simp [predicate, List.intercalate_cons_cons, String.toList_intercalate]
    rw [htext]
    refine List.splitOn_intercalate '(' ?_ (by simp)
    exact List.forall_mem_cons.2 ⟨hname, List.forall_mem_singleton.2 hparen⟩
  rw [ofText?, hsplit]
  simp only
  rw [List.dropLast_concat, argumentsOf_intercalate hargs, String.ofList_toList]

theorem ofText?_text {f : Fact} (h : f.IsReadable) : ofText? f.text = some f := by
  cases f with
  | set kind name => exact ofText?_predicate (by decide) h.names
  | structured name => exact ofText?_predicate (by decide) h.names
  | inst tag name => exact ofText?_predicate (by decide) h.names
  | applyInstance template name => exact ofText?_predicate (by decide) h.names
  | apply relation left right =>
    cases relation <;> exact ofText?_predicate (by decide) h.names
  | applyCover left middle right => exact ofText?_predicate (by decide) h.names
  | term text =>
    have hname : IsName text := h.names text List.mem_cons_self
    have hne : text ≠ Unimplemented.represents.text := by
      rintro rfl
      rcases hname with hword | hmember
      · revert hword
        decide
      · revert hmember
        decide
    have hparen : '(' ∉ text.toList := hname.not_mem (by decide) (by decide)
    show ofText? text = _
    rw [ofText?, List.splitOn_eq_singleton hparen]
    simp [hne]
  | unimplemented feature =>
    cases feature with
    | memberAccess => exact absurd rfl h.ne
    | represents => decide

theorem IsReadable.text_ne_empty {f : Fact} (h : f.IsReadable) : f.text ≠ "" := by
  have hpredicate (name : String) (args : List String) : predicate name args ≠ "" := by
    intro hempty
    have hlist := congrArg String.toList hempty
    simp [predicate] at hlist
  cases f with
  | term text => exact (h.names text List.mem_cons_self).ne_empty
  | unimplemented feature => cases feature <;> decide
  | _ => exact hpredicate _ _

theorem IsReadable.newline_not_mem_text {f : Fact} (h : f.IsReadable) : '\n' ∉ f.text.toList := by
  have hnames : ∀ x ∈ f.names, '\n' ∉ x.toList :=
    fun x hx => (h.names x hx).not_mem (by decide) (by decide)
  have hpredicate {name : String} {args : List String} (hname : '\n' ∉ name.toList)
      (hargs : ∀ a ∈ args, '\n' ∉ a.toList) : '\n' ∉ (predicate name args).toList := by
    have hmem : '\n' ∉ [',', ' '].intercalate (args.map String.toList) :=
      not_mem_intercalate (by decide) (List.forall_mem_map.2 hargs)
    simp [predicate, String.toList_intercalate, hname, hmem]
  cases f with
  | term text => exact hnames text List.mem_cons_self
  | unimplemented feature => cases feature <;> decide
  | apply relation left right => cases relation <;> exact hpredicate (by decide) hnames
  | _ => exact hpredicate (by decide) hnames

end Fact

/-! ## Rendered facts -/

namespace FactBase

/-- Each fact on a line of its own. -/
def lines (facts : FactBase) : String := String.join (facts.map fun f => f.text ++ "\n")

theorem lines_cons (f : Fact) (facts : FactBase) :
    lines (f :: facts) = f.text ++ "\n" ++ lines facts := by
  rw [lines, List.map_cons, String.join_cons, ← lines]

theorem render_append_newline {facts : FactBase} (hne : facts ≠ []) :
    facts.render ++ "\n" = lines facts := by
  induction facts with
  | nil => exact absurd rfl hne
  | cons f facts ih =>
    rw [lines_cons]
    cases facts with
    | nil => simp [render, lines]
    | cons g facts =>
      rw [← ih (List.cons_ne_nil g facts)]
      simp [render, String.append_assoc]

theorem render_ne_empty {facts : FactBase} (hne : facts ≠ []) (h : ∀ f ∈ facts, f.text ≠ "") :
    facts.render ≠ "" := by
  intro hempty
  have hlines := render_append_newline hne
  cases facts with
  | nil => exact hne rfl
  | cons f facts =>
    rw [hempty, lines_cons] at hlines
    have hlength := congrArg String.length hlines
    simp only [String.length_append, String.length_empty] at hlength
    have htext : f.text.length = 0 := by omega
    exact h f List.mem_cons_self (String.length_eq_zero_iff.1 htext)

/-- The lines are the facts, for facts that hold no line end. -/
theorem lines_toList_lines {facts : FactBase} (h : ∀ f ∈ facts, '\n' ∉ f.text.toList) :
    Text.lines (lines facts).toList = facts.map (·.text.toList) := by
  induction facts with
  | nil => rfl
  | cons f facts ih =>
    obtain ⟨hf, hfacts⟩ := List.forall_mem_cons.1 h
    have htext : (lines (f :: facts)).toList = f.text.toList ++ '\n' :: (lines facts).toList := by
      simp [lines_cons]
    rw [htext, Text.lines_append_newline hf, ih hfacts, List.map_cons]

/-- The facts of a rendered text. -/
def ofText? (text : String) : Option FactBase :=
  if text = "" then some [] else (text.toList.splitOn '\n').mapM fun line => Fact.ofText? (String.ofList line)

/-- The facts can be told apart by their lines, and read back from them. -/
structure Legible (facts : FactBase) : Prop where
  names : ∀ f ∈ facts, ∀ x ∈ f.names, isWord x = true ∨ x = Unimplemented.memberAccess.text
  render_nil : facts = [] → facts.render = ""
  lines : facts ≠ [] → facts.render.toList.splitOn '\n' = facts.map (·.text.toList)
  text_ne_empty : ∀ f ∈ facts, f.text ≠ ""
  ofText?_render : ofText? facts.render = some facts

theorem mapM_ofText? {facts : FactBase} (h : ∀ f ∈ facts, f.IsReadable) :
    (facts.map (·.text.toList)).mapM (fun line => Fact.ofText? (String.ofList line)) =
      some facts := by
  induction facts with
  | nil => rfl
  | cons f facts ih =>
    obtain ⟨hf, hfacts⟩ := List.forall_mem_cons.1 h
    rw [List.map_cons, List.mapM_cons, String.ofList_toList, Fact.ofText?_text hf, ih hfacts]
    rfl

theorem legible {facts : FactBase} (h : ∀ f ∈ facts, f.IsReadable) : facts.Legible := by
  have hlines : facts ≠ [] → facts.render.toList.splitOn '\n' = facts.map (·.text.toList) := by
    intro hne
    rw [render, String.toList_intercalate, List.map_map]
    refine List.splitOn_intercalate '\n' (List.forall_mem_map.2 fun f hf => ?_) (by simpa using hne)
    exact (h f hf).newline_not_mem_text
  refine ⟨fun f hf => (h f hf).names, ?_, hlines, fun f hf => (h f hf).text_ne_empty, ?_⟩
  · rintro rfl
    rfl
  · cases facts with
    | nil => rfl
    | cons f facts =>
      have hsplit := hlines (List.cons_ne_nil f facts)
      have hne : render (f :: facts) ≠ "" :=
        render_ne_empty (List.cons_ne_nil f facts) fun g hg => (h g hg).text_ne_empty
      rw [ofText?, if_neg hne, hsplit, mapM_ofText? h]

end FactBase

/-! ## Compiled facts -/

theorem mapError_eq_ok_iff {ε ε' α : Type} {f : ε → ε'} {x : Except ε α} {a : α} :
    x.mapError f = .ok a ↔ x = .ok a := by
  cases x <;> simp [Except.mapError]

/-- All facts that the statements of a schema bring are readable, kept or dropped. -/
theorem exists_allFacts_of_compile {options : Options} {source : String} {facts : FactBase}
    (h : compile options source = .ok facts) : ∃ p gs, Program.ofText source = .ok p ∧
      p.allFacts options = .ok gs ∧ facts.Sublist gs ∧ ∀ g ∈ gs, g.IsReadable := by
  obtain ⟨p, hp, h⟩ := bind_eq_ok_iff.1 h
  rw [mapError_eq_ok_iff] at hp h
  obtain ⟨es, hes, rfl⟩ := map_eq_ok_iff.1 h
  have hwf : p.isWellFormed = true := (Program.exists_lines_of_ofText hp).1
  exact ⟨p, Emission.flattenAll es, hp, map_eq_ok_iff.2 ⟨es, hes, rfl⟩,
    Emission.settleAll_sublist [] es, Program.readable_emissions hwf hes⟩

theorem readable_of_compile {options : Options} {source : String} {facts : FactBase}
    (h : compile options source = .ok facts) : ∀ f ∈ facts, f.IsReadable := by
  obtain ⟨_, _, _, _, hsub, hreadable⟩ := exists_allFacts_of_compile h
  exact fun f hf => hreadable f (hsub.subset hf)

theorem Fact.text_eq_iff {f g : Fact} (hf : f.IsReadable) (hg : g.IsReadable) :
    f.text = g.text ↔ f = g := by
  refine ⟨fun h => ?_, congrArg Fact.text⟩
  have hsome : some f = some g := by rw [← ofText?_text hf, ← ofText?_text hg, h]
  exact Option.some.inj hsome

/-- The facts of a schema are legible. Of all facts that its statements bring, kept
or dropped, no two have the same text; nor have two facts of any two schemas. -/
theorem legible_of_compile {options : Options} {source : String} {facts : FactBase}
    (h : compile options source = .ok facts) : facts.Legible ∧
      (∃ p gs, Program.ofText source = .ok p ∧ p.allFacts options = .ok gs ∧ facts.Sublist gs ∧
        ∀ f ∈ gs, ∀ g ∈ gs, f.text = g.text ↔ f = g) ∧
      ∀ options' source' facts', compile options' source' = .ok facts' →
        ∀ f ∈ facts, ∀ g ∈ facts', f.text = g.text ↔ f = g := by
  obtain ⟨p, gs, hp, hgs, hsub, hreadable⟩ := exists_allFacts_of_compile h
  have hfacts : ∀ f ∈ facts, f.IsReadable := fun f hf => hreadable f (hsub.subset hf)
  refine ⟨FactBase.legible hfacts, ⟨p, gs, hp, hgs, hsub, fun f hf g hg =>
    Fact.text_eq_iff (hreadable f hf) (hreadable g hg)⟩, ?_⟩
  intro options' source' facts' h' f hf g hg
  obtain ⟨_, gs', _, _, hsub', hreadable'⟩ := exists_allFacts_of_compile h'
  exact Fact.text_eq_iff (hfacts f hf) (hreadable' g (hsub'.subset hg))

/-- Member access, a shared member, and names that are those of predicates. -/
def legibleText : String :=
  "pattern set:\n\tshared: single: instance\n\tset mapto set . instance\nend\n" ++
    "many: set: apply_mapto\n"

theorem legible_of_compile_legibleText : ∃ facts, compile {} legibleText = .ok facts ∧
    facts.Legible ∧
      (∃ p gs, Program.ofText legibleText = .ok p ∧ p.allFacts {} = .ok gs ∧ facts.Sublist gs ∧
        ∀ f ∈ gs, ∀ g ∈ gs, f.text = g.text ↔ f = g) ∧
      ∀ options' source' facts', compile options' source' = .ok facts' →
        ∀ f ∈ facts, ∀ g ∈ facts', f.text = g.text ↔ f = g := by
  have hok : (compile {} legibleText).isOk = true := by decide +kernel
  obtain ⟨facts, hfacts⟩ := isOk_iff_exists.1 hok
  exact ⟨facts, hfacts, legible_of_compile hfacts⟩

end InterfaceSchema
