import InterfaceSchema.Proofs.Registration

/-!
# Histories of registries

A registry is filled by calls, each of which offers one template or all templates
declared in statements; `Registry.after` is what a history of calls leaves, also where
some of them have failed. Registering goes through statements as they are read, a
template before those in its body (`registerAll_template`). Whatever the history, it
takes all that is offered or stops at the first template whose name is taken, and
what a name is bound to stays (`registerAll_after`).
-/

namespace InterfaceSchema.Registry

variable {r r' : Registry} {ts us : List Template} {ss : List Statement}

inductive Call where
  | register (t : Template)
  | registerAll (ss : List Statement)

namespace Call

/-- The registry that a call leaves, and the error if it fails. -/
def run (r : Registry) : Call → Registry × Option SemanticError
  | register t =>
    match r.register t with
    | .ok r' => (r', none)
    | .error e => (r, some e)
  | registerAll ss => r.registerAll ss

/-- The templates that a call offers to the registry. -/
def offers : Call → List Template
  | register t => [t]
  | registerAll ss => Statement.declarationsIn ss

theorem run_eq (r : Registry) (call : Call) : call.run r = r.registerEach call.offers := by
  cases call with
  | register t =>
    rw [run, offers, registerEach]
    cases r.register t <;> rfl
  | registerAll ss => rfl

end Call

/-- A template is registered before those declared in its body, and these before what
stands behind it. -/
theorem registerAll_template (r : Registry) (header : Header) (body ss : List Statement) :
    r.registerAll (.template header body :: ss) =
      andThen (·.registerAll ss)
        (andThen (·.registerAll body) ((Call.register ⟨header, body⟩).run r)) := by
  have hsplit : Statement.declarationsIn (.template header body :: ss) =
      ((Call.register ⟨header, body⟩).offers ++ Statement.declarationsIn body) ++
        Statement.declarationsIn ss := rfl
  rw [registerAll, hsplit, registerEach_append, registerEach_append, Call.run_eq]
  rfl

theorem registerAll_of_template?_eq_none {s : Statement} (h : s.template? = none) :
    r.registerAll (s :: ss) = r.registerAll ss := by
  cases s with
  | template header body => cases h
  | _ => rfl

/-- `r'` binds the names of the templates to them, and all other names as `r` does. -/
structure Gains (r r' : Registry) (ts : List Template) : Prop where
  found : ∀ name t, r'.find? name = some t ↔ r.find? name = some t ∨ t ∈ ts ∧ t.name = name
  size : r'.size = r.size + ts.length

theorem gains_of_registerEach (h : r.registerEach ts = (r', none)) : r.Gains r' ts := by
  obtain ⟨rfl, hdistinct, hfree⟩ := registerEach_eq_none_iff.1 h
  refine ⟨fun name t => ?_, List.length_append⟩
  rw [find?_append, Option.or_eq_some_iff, find?_eq_some_iff hdistinct]
  refine or_congr_right (and_iff_right_of_imp ?_)
  rintro ⟨ht, rfl⟩
  exact hfree t ht

/-- The name of the template is taken, in the registry or by one of those before it. -/
def Taken (r : Registry) (before : List Template) (t : Template) : Prop :=
  (r.find? t.name).isSome = true ∨ t.name ∈ before.map Template.name

/-- The template is the first behind those before it whose name is taken. -/
structure FirstTaken (r : Registry) (before : List Template) (t : Template) : Prop where
  taken : r.Taken before t
  first : ∀ earlier u later, before = earlier ++ u :: later → ¬r.Taken earlier u

theorem not_taken_of_registerEach {before later : List Template} {u : Template}
    (h : r.registerEach (before ++ u :: later) = (r', none)) : ¬r.Taken before u := by
  obtain ⟨-, hdistinct, hfree⟩ := registerEach_eq_none_iff.1 h
  rw [List.map_append, List.map_cons, List.nodup_middle] at hdistinct
  rintro (htaken | hmem)
  · rw [hfree u (List.mem_append_right _ List.mem_cons_self)] at htaken
    cases htaken
  · exact (List.nodup_cons.1 hdistinct).1 (List.mem_append_left _ hmem)

/-- A registration that stops has gained what stands before the first name taken. -/
theorem exists_firstTaken {e : SemanticError} (h : r.registerEach ts = (r', some e)) :
    ∃ before t behind, ts = before ++ t :: behind ∧ r.FirstTaken before t ∧
      e = .duplicateTemplate t.header.id ∧ r.Gains r' before := by
  obtain ⟨before, t, behind, rfl, hbefore, ht, rfl⟩ := registerEach_eq_some_iff.1 h
  have hgains : r.Gains r' before := gains_of_registerEach hbefore
  refine ⟨before, t, behind, rfl, ⟨?_, ?_⟩, rfl, hgains⟩
  · obtain ⟨u, hu⟩ := Option.isSome_iff_exists.1 ht
    obtain hu | ⟨hu, hname⟩ := (hgains.found _ _).1 hu
    · exact .inl (Option.isSome_iff_exists.2 ⟨u, hu⟩)
    · exact .inr (List.mem_map.2 ⟨u, hu, hname⟩)
  · rintro earlier u later rfl
    exact not_taken_of_registerEach hbefore

/-- No binding is lost, whether all are registered or not. -/
theorem find?_registerEach {name : String} {t : Template} (h : r.find? name = some t) :
    (r.registerEach ts).1.find? name = some t := by
  cases hrun : r.registerEach ts with
  | mk r' e =>
    cases e with
    | none => exact ((gains_of_registerEach hrun).found name t).2 (.inl h)
    | some e =>
      obtain ⟨before, -, -, -, -, -, hgains⟩ := exists_firstTaken hrun
      exact (hgains.found name t).2 (.inl h)

/-! ## Histories -/

/-- What calls leave, the first of which finds the registry empty. -/
def after (calls : List Call) : Registry := calls.foldl (fun r call => (call.run r).1) {}

theorem find?_foldl_run {name : String} {t : Template} (calls : List Call)
    (h : r.find? name = some t) :
    (calls.foldl (fun r call => (call.run r).1) r).find? name = some t := by
  induction calls generalizing r with
  | nil => exact h
  | cons call calls ih =>
    have hcall : (call.run r).1.find? name = some t := by
      rw [Call.run_eq]
      exact find?_registerEach h
    exact ih hcall

/-- Registering all templates in statements succeeds exactly if their names are distinct
and free, and then the registry gains them all. Otherwise it stops at the first
template whose name is taken, which the error names with its place, and has gained
those before it. What a name is bound to stays, whatever calls follow. -/
theorem registerAll_after (history : List Call) (ss : List Statement) :
    (((after history).registerAll ss).2 = none ↔
      ((Statement.declarationsIn ss).map Template.name).Nodup ∧
        ∀ t ∈ Statement.declarationsIn ss, (after history).find? t.name = none) ∧
    (((after history).registerAll ss).2 = none →
      (after history).Gains ((after history).registerAll ss).1 (Statement.declarationsIn ss)) ∧
    (∀ e, ((after history).registerAll ss).2 = some e → ∃ before t behind,
      Statement.declarationsIn ss = before ++ t :: behind ∧ (after history).FirstTaken before t ∧
        e = .duplicateTemplate t.header.id ∧
        (after history).Gains ((after history).registerAll ss).1 before) ∧
    ∀ later name t, (after history).find? name = some t →
      (after (history ++ later)).find? name = some t := by
  refine ⟨⟨fun h => ?_, fun h => ?_⟩, fun h => ?_, fun e h => ?_, fun later name t h => ?_⟩
  · exact (registerEach_eq_none_iff.1 (Prod.ext rfl h)).2
  · exact congrArg Prod.snd (registerEach_eq_none_iff.2 ⟨rfl, h⟩)
  · exact gains_of_registerEach (Prod.ext rfl h)
  · exact exists_firstTaken (Prod.ext rfl h)
  · rw [after, List.foldl_append]
    exact find?_foldl_run later h

/-- A template of this name that declares others in its body. -/
def declaring (name : String) (body : List Statement) (span : Span := {}) : Statement :=
  .template ⟨⟨name, span⟩, none, none⟩ body

/-- The first of these calls fails at the second `A` and leaves `C` out. -/
def interruptedHistory : List Call :=
  [.registerAll [declaring "A" [declaring "B" []], declaring "A" [], declaring "C" []],
    .register ⟨⟨⟨"D", {}⟩, none, none⟩, []⟩]

/-- Statements that declare a template of a name taken between two others. -/
def repeatingStatements : List Statement :=
  [declaring "C" [declaring "E" [], declaring "B" [] ⟨20, 21, 3, 9⟩, declaring "F" []]]

example : (after interruptedHistory).templates.map Template.name = ["A", "B", "D"] := by
  decide +kernel

theorem registerAll_after_interruptedHistory :
    let r := after interruptedHistory
    let freeStatements := [declaring "C" [declaring "E" []]]
    let template : Template := ⟨⟨⟨"A", {}⟩, none, none⟩, [declaring "B" []]⟩
    ((r.registerAll freeStatements).2 = none ∧
      r.Gains (r.registerAll freeStatements).1 (Statement.declarationsIn freeStatements)) ∧
    ((r.registerAll repeatingStatements).2 = some (.duplicateTemplate ⟨"B", ⟨20, 21, 3, 9⟩⟩) ∧
      ∃ before t behind, Statement.declarationsIn repeatingStatements = before ++ t :: behind ∧
        r.FirstTaken before t ∧
        SemanticError.duplicateTemplate ⟨"B", ⟨20, 21, 3, 9⟩⟩ = .duplicateTemplate t.header.id ∧
        r.Gains (r.registerAll repeatingStatements).1 before) ∧
    r.find? "A" = some template ∧
      (after (interruptedHistory ++ [.registerAll repeatingStatements])).find? "A" = some template := by
  intro r freeStatements template
  have hfree : (r.registerAll freeStatements).2 = none := rfl
  have htaken : (r.registerAll repeatingStatements).2 =
      some (.duplicateTemplate ⟨"B", ⟨20, 21, 3, 9⟩⟩) := rfl
  have hbound : r.find? "A" = some template := rfl
  obtain ⟨-, hgains, -, -⟩ := registerAll_after interruptedHistory freeStatements
  obtain ⟨-, -, hstops, hkept⟩ := registerAll_after interruptedHistory repeatingStatements
  exact ⟨⟨hfree, hgains hfree⟩, ⟨htaken, hstops _ htaken⟩, hbound, hkept _ "A" template hbound⟩

end InterfaceSchema.Registry
