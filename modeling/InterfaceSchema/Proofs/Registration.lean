import InterfaceSchema.Template.Registry
import Mathlib.Data.List.Nodup

/-!
# Registration

When templates can be registered one after the other, and what is found then:
names must be free and distinct (`registerEach_eq_none_iff`), and a name finds
the one template that bears it (`find?_eq_some_iff`).
-/

namespace InterfaceSchema.Registry

theorem find?_eq_none_iff {r : Registry} {name : String} :
    r.find? name = none ↔ ∀ t ∈ r.templates, t.name ≠ name := by
  simp [find?]

theorem isSome_find?_iff {r : Registry} {name : String} :
    (r.find? name).isSome = true ↔ ∃ t ∈ r.templates, t.name = name := by
  simp [find?]

theorem find?_snoc_eq_none_iff {ts : List Template} {t : Template} {name : String} :
    Registry.find? ⟨ts ++ [t]⟩ name = none ↔ Registry.find? ⟨ts⟩ name = none ∧ t.name ≠ name := by
  simp only [find?_eq_none_iff, List.mem_append, List.mem_singleton, or_imp, forall_and,
    forall_eq]

theorem find?_append {ts us : List Template} (name : String) : Registry.find? ⟨ts ++ us⟩ name =
    (Registry.find? ⟨ts⟩ name).or (Registry.find? ⟨us⟩ name) :=
  List.find?_append

/-- Goes on with a registry unless an error has stopped. -/
def andThen (next : Registry → Registry × Option SemanticError) :
    Registry × Option SemanticError → Registry × Option SemanticError
  | (r, none) => next r
  | (r, some e) => (r, some e)

theorem registerEach_append (r : Registry) (ts us : List Template) :
    r.registerEach (ts ++ us) = andThen (·.registerEach us) (r.registerEach ts) := by
  induction ts generalizing r with
  | nil => rfl
  | cons t ts ih =>
    simp only [List.cons_append, registerEach]
    cases r.register t with
    | ok r => exact ih r
    | error e => rfl

theorem registerEach_eq_none_iff {r r' : Registry} {ts : List Template} :
    r.registerEach ts = (r', none) ↔ r' = ⟨r.templates ++ ts⟩ ∧ (ts.map Template.name).Nodup ∧
      ∀ t ∈ ts, r.find? t.name = none := by
  induction ts generalizing r with
  | nil => simp [registerEach, eq_comm]
  | cons t ts ih =>
    rw [registerEach, register]
    cases hfree : r.find? t.name with
    | some u => simp [hfree]
    | none =>
      simp only [Option.isSome_none, Bool.false_eq_true, ↓reduceIte, ih, find?_snoc_eq_none_iff,
        List.append_assoc, List.singleton_append, List.map_cons, List.nodup_cons,
        List.forall_mem_cons, hfree, true_and, List.mem_map, not_exists, not_and]
      constructor
      · rintro ⟨rfl, hnodup, hall⟩
        exact ⟨rfl, ⟨fun u hu h => (hall u hu).2 h.symm, hnodup⟩, fun u hu => (hall u hu).1⟩
      · rintro ⟨rfl, ⟨hne, hnodup⟩, hall⟩
        exact ⟨rfl, hnodup, fun u hu => ⟨hall u hu, fun h => hne u hu h.symm⟩⟩

theorem ofStatements_eq_ok_iff {ss : List Statement} {r : Registry} :
    ofStatements ss = .ok r ↔ r = ⟨Statement.declarationsIn ss⟩ ∧
      ((Statement.declarationsIn ss).map Template.name).Nodup := by
  have hfree : ∀ t ∈ Statement.declarationsIn ss, Registry.find? {} t.name = none :=
    fun _ _ => rfl
  have h : registerEach {} (Statement.declarationsIn ss) = (r, none) ↔ _ :=
    registerEach_eq_none_iff
  rw [and_iff_left hfree, List.nil_append] at h
  rw [← h, ofStatements, registerAll]
  split <;> simp_all

/-- Registration stops at the first template whose name is taken, and keeps those
before it. -/
theorem registerEach_eq_some_iff {r r' : Registry} {ts : List Template} {e : SemanticError} :
    r.registerEach ts = (r', some e) ↔ ∃ before t behind, ts = before ++ t :: behind ∧
      r.registerEach before = (r', none) ∧ (r'.find? t.name).isSome = true ∧
        e = .duplicateTemplate t.header.id := by
  induction ts generalizing r with
  | nil => simp [registerEach]
  | cons t ts ih =>
    cases hfree : (r.find? t.name).isSome with
    | true =>
      rw [registerEach, register, if_pos hfree]
      constructor
      · rintro ⟨⟩
        exact ⟨[], t, ts, rfl, rfl, hfree, rfl⟩
      · rintro ⟨before, u, behind, hts, hbefore, hu, rfl⟩
        cases before with
        | nil =>
          cases hts
          cases hbefore
          rfl
        | cons v before =>
          cases hts
          rw [registerEach, register, if_pos hfree] at hbefore
          cases hbefore
    | false =>
      have hstep (us : List Template) :
          r.registerEach (t :: us) = Registry.registerEach ⟨r.templates ++ [t]⟩ us := by
        rw [registerEach, register, hfree, if_neg Bool.false_ne_true]
      rw [hstep, ih]
      constructor
      · rintro ⟨before, u, behind, rfl, hbefore, hu, rfl⟩
        exact ⟨t :: before, u, behind, rfl, (hstep before).trans hbefore, hu, rfl⟩
      · rintro ⟨before, u, behind, hts, hbefore, hu, rfl⟩
        cases before with
        | nil =>
          cases hts
          cases hbefore
          rw [hfree] at hu
          cases hu
        | cons v before =>
          cases hts
          exact ⟨before, u, behind, rfl, (hstep before).symm.trans hbefore, hu, rfl⟩

theorem ofStatements_eq_error_iff_registerAll {ss : List Statement} {e : SemanticError} :
    ofStatements ss = .error e ↔ (registerAll {} ss).2 = some e := by
  rw [ofStatements]
  split <;> simp_all

/-- Registration fails for the second of two templates of one name. -/
theorem ofStatements_eq_error_iff {ss : List Statement} {e : SemanticError} :
    ofStatements ss = .error e ↔ ∃ before t behind,
      Statement.declarationsIn ss = before ++ t :: behind ∧ (before.map Template.name).Nodup ∧
        t.name ∈ before.map Template.name ∧ e = .duplicateTemplate t.header.id := by
  have herror : ofStatements ss = .error e ↔
      ∃ r, Registry.registerEach {} (Statement.declarationsIn ss) = (r, some e) :=
    ofStatements_eq_error_iff_registerAll.trans
      ⟨fun h => ⟨_, Prod.ext rfl h⟩, fun ⟨_, h⟩ => congrArg Prod.snd h⟩
  have hfree (before : List Template) : ∀ t ∈ before, Registry.find? {} t.name = none :=
    fun _ _ => rfl
  simp only [herror, registerEach_eq_some_iff, registerEach_eq_none_iff, isSome_find?_iff,
    and_iff_left (hfree _), List.nil_append, List.mem_map]
  constructor
  · rintro ⟨_, before, t, behind, hts, ⟨rfl, hnodup⟩, ht, rfl⟩
    exact ⟨before, t, behind, hts, hnodup, ht, rfl⟩
  · rintro ⟨before, t, behind, hts, hnodup, ht, rfl⟩
    exact ⟨_, before, t, behind, hts, ⟨rfl, hnodup⟩, ht, rfl⟩

theorem exists_duplicate {ss : List Statement} {e : SemanticError}
    (h : ofStatements ss = .error e) : ∃ site, e = .duplicateTemplate site := by
  obtain ⟨_, t, _, _, _, _, rfl⟩ := ofStatements_eq_error_iff.1 h
  exact ⟨_, rfl⟩

theorem isSome_find?_congr {r r' : Registry}
    (h : r'.templates.map (·.header.id) = r.templates.map (·.header.id)) (name : String) :
    (r'.find? name).isSome = (r.find? name).isSome := by
  have hnames (r : Registry) : (r.find? name).isSome = true ↔
      name ∈ (r.templates.map (·.header.id)).map Identifier.name := by
    rw [isSome_find?_iff, List.map_map, List.mem_map]
    exact Iff.rfl
  rw [Bool.eq_iff_iff, hnames, hnames, h]

/-- Whether and where registration fails depends on the names given to templates, on
their places, and on which of them are taken. -/
theorem registerEach_congr_names {r r' : Registry} {ts us : List Template}
    (hr : ∀ t ∈ ts, (r'.find? t.name).isSome = (r.find? t.name).isSome)
    (h : us.map (·.header.id) = ts.map (·.header.id)) :
    (r'.registerEach us).2 = (r.registerEach ts).2 := by
  induction ts generalizing us r r' with
  | nil =>
    obtain rfl := List.map_eq_nil_iff.1 h
    rfl
  | cons t ts ih =>
    obtain ⟨u, us, rfl, hu, hus⟩ := List.map_eq_cons_iff.1 h
    obtain ⟨ht, hts⟩ := List.forall_mem_cons.1 hr
    have hname : u.name = t.name := congrArg Identifier.name hu
    rw [registerEach, registerEach, register, register, hname, ht, hu]
    cases (r.find? t.name).isSome with
    | true => rfl
    | false =>
      refine ih (fun v hv => ?_) hus
      have hids : (Registry.mk [u]).templates.map (·.header.id) =
          (Registry.mk [t]).templates.map (·.header.id) := congrArg (fun id => [id]) hu
      have hlast := isSome_find?_congr hids v.name
      simp only [find?_append, Option.isSome_or, hts v hv, hlast]

theorem registerEach_congr {r r' : Registry} {ts us : List Template}
    (hr : r'.templates.map (·.header.id) = r.templates.map (·.header.id))
    (h : us.map (·.header.id) = ts.map (·.header.id)) :
    (r'.registerEach us).2 = (r.registerEach ts).2 :=
  registerEach_congr_names (fun t _ => isSome_find?_congr hr t.name) h

theorem ofStatements_error_congr {ss ss' : List Statement} {e : SemanticError}
    (h : (Statement.declarationsIn ss').map (·.header.id) =
      (Statement.declarationsIn ss).map (·.header.id))
    (he : ofStatements ss = .error e) : ofStatements ss' = .error e := by
  have hcongr : (registerAll {} ss').2 = (registerAll {} ss).2 := registerEach_congr rfl h
  rwa [ofStatements_eq_error_iff_registerAll, hcongr, ← ofStatements_eq_error_iff_registerAll]

/-- Templates of new and distinct names make no difference to the registration of others. -/
theorem registerEach_added {r : Registry} {before added behind : List Template}
    (hadded : (added.map Template.name).Nodup) (hfree : ∀ t ∈ added, r.find? t.name = none)
    (hnew : ∀ t ∈ added, t.name ∉ (before ++ behind).map Template.name) :
    (r.registerEach (before ++ added ++ behind)).2 = (r.registerEach (before ++ behind)).2 := by
  have hother {ts : List Template} (hts : ts ⊆ before ++ behind) {t : Template} (ht : t ∈ added)
      {u : Template} (hu : u ∈ ts) : t.name ≠ u.name := fun h =>
    hnew t ht (h ▸ List.mem_map_of_mem (hts hu))
  rw [registerEach_append, registerEach_append, registerEach_append]
  cases hbefore : r.registerEach before with
  | mk r' e =>
    cases e with
    | some e => rfl
    | none =>
      obtain ⟨rfl, -, -⟩ := registerEach_eq_none_iff.1 hbefore
      have hall : Registry.registerEach ⟨r.templates ++ before⟩ added =
          (⟨r.templates ++ before ++ added⟩, none) := by
        refine registerEach_eq_none_iff.2 ⟨rfl, hadded, fun t ht => ?_⟩
        rw [find?_append, hfree t ht, Option.none_or, find?_eq_none_iff]
        exact fun u hu => (hother (List.subset_append_left _ _) ht hu).symm
      simp only [andThen, hall]
      refine registerEach_congr_names (fun u hu => ?_) rfl
      have hnone : Registry.find? ⟨added⟩ u.name = none := find?_eq_none_iff.2 fun t ht =>
        hother (List.subset_append_right _ _) ht hu
      rw [find?_append, hnone, Option.or_none]

/-- With distinct names a name finds the template that bears it. -/
theorem find?_eq_some_iff {r : Registry} (h : (r.templates.map Template.name).Nodup)
    {name : String} {t : Template} : r.find? name = some t ↔ t ∈ r.templates ∧ t.name = name := by
  constructor
  · exact fun hf => ⟨mem_of_find? hf, name_of_find? hf⟩
  · rintro ⟨ht, rfl⟩
    obtain ⟨u, hu⟩ := Option.isSome_iff_exists.1 (isSome_find?_iff.2 ⟨t, ht, rfl⟩)
    rw [hu, List.inj_on_of_nodup_map h (mem_of_find? hu) ht (name_of_find? hu)]

/-- With distinct names the order of the templates does not matter. -/
theorem find?_eq_of_perm {ts us : List Template} (hperm : us.Perm ts)
    (hdistinct : (ts.map Template.name).Nodup) (name : String) :
    Registry.find? ⟨us⟩ name = Registry.find? ⟨ts⟩ name := by
  have hdistinct' : (us.map Template.name).Nodup := (hperm.map Template.name).nodup_iff.2 hdistinct
  refine Option.ext fun t => ?_
  rw [find?_eq_some_iff hdistinct, find?_eq_some_iff hdistinct']
  exact and_congr_left' hperm.mem_iff

end InterfaceSchema.Registry
