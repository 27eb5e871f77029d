import InterfaceSchema.Proofs.Expansion.Instances

/-!
# Isolation of instances

When two instances give a member the same name. `qualify` sets two underscores
between the owner and the member, and both may hold underscores themselves: two
pairs are given one name exactly if one owner straddles the boundary of the
other (`qualify_eq_iff`). Apart from that the members of two instances of a
template never share a name.
-/

namespace InterfaceSchema

/-- `owner'` goes on after `owner` as the qualified name of `owner` and `name`
does: into the underscores between the two, or across them. -/
def Straddles (owner name owner' name' : String) : Prop :=
  (owner' = owner ++ "_" ∧ name = "_" ++ name') ∨
    ∃ between, owner' = owner ++ "__" ++ between ∧ name = between ++ "__" ++ name'

theorem underscores_append_eq_iff {name name' rest : List Char} (h : rest ≠ []) :
    ['_', '_'] ++ name = rest ++ ['_', '_'] ++ name' ↔
      (rest = ['_'] ∧ name = '_' :: name') ∨
        ∃ between, rest = ['_', '_'] ++ between ∧ name = between ++ ['_', '_'] ++ name' := by
  match rest with
  | [] => exact absurd rfl h
  | [a] => simp [eq_comm]
  | a :: b :: between =>
    constructor
    · intro heq
      simp only [List.cons_append, List.nil_append, List.cons.injEq] at heq
      obtain ⟨rfl, rfl, rfl⟩ := heq
      exact .inr ⟨between, rfl, by simp⟩
    · rintro (⟨h, _⟩ | ⟨between', hrest, rfl⟩)
      · cases h
      · cases hrest
        simp

/-- The longer owner of one qualified name straddles the shorter one. -/
theorem straddles_iff {owner name owner' name' : String} (hne : owner ≠ owner') :
    Straddles owner name owner' name' ↔
      ∃ rest, owner'.toList = owner.toList ++ rest ∧
        ['_', '_'] ++ name.toList = rest ++ ['_', '_'] ++ name'.toList := by
  constructor
  · rintro (⟨rfl, rfl⟩ | ⟨between, rfl, rfl⟩)
    · exact ⟨['_'], by simp, by simp⟩
    · exact ⟨['_', '_'] ++ between.toList, by simp, by simp⟩
  · rintro ⟨rest, howner, hname⟩
    have hrest : rest ≠ [] := by
      rintro rfl
      exact hne (String.toList_inj.1 (by simpa using howner.symm))
    rcases (underscores_append_eq_iff hrest).1 hname with ⟨rfl, hname⟩ | ⟨between, rfl, hname⟩
    · exact .inl ⟨String.toList_inj.1 (by simpa using howner),
        String.toList_inj.1 (by simpa using hname)⟩
    · exact .inr ⟨String.ofList between, String.toList_inj.1 (by simpa using howner),
        String.toList_inj.1 (by simpa using hname)⟩

theorem qualify_eq_iff {owner name owner' name' : String} (hne : owner ≠ owner') :
    qualify owner name = qualify owner' name' ↔
      Straddles owner name owner' name' ∨ Straddles owner' name' owner name := by
  rw [straddles_iff hne, straddles_iff hne.symm, ← String.toList_inj]
  have hsplit : (qualify owner name).toList = (qualify owner' name').toList ↔
      owner.toList ++ (['_', '_'] ++ name.toList) =
        owner'.toList ++ (['_', '_'] ++ name'.toList) := by
    simp [qualify]
  rw [hsplit, List.append_eq_append_iff]
  refine or_congr (exists_congr fun rest => ?_) (exists_congr fun rest => ?_)
  · rw [List.append_assoc]
  · rw [List.append_assoc]

/-- The run of the program gives `name` to a member of `inst`, an instance of
the template. The member is not shared and is called `member` in the template. -/
def Program.GivesLocal (options : Options) (p : Program) (template inst member name : String) :
    Prop :=
  ∃ t r d, (p.compilation options).Instantiates p.statements t r inst ∧ t.name = template ∧
    t.Names r inst d name ∧ d.isShared = false ∧ d.id.name = member

theorem Program.GivesLocal.eq_qualify {options : Options} {p : Program}
    {template inst member name : String} (h : p.GivesLocal options template inst member name) :
    name = qualify inst member := by
  obtain ⟨t, r, d, _, _, hname, hlocal, rfl⟩ := h
  rw [(Template.names_iff.1 hname).2, Definition.memberName, hlocal]
  rfl

/-- A template with the members `b__c` and `c`. -/
def underscored : Template :=
  ⟨⟨⟨"T", {}⟩, none, none⟩,
    [.definition (.ofTags ["single"] "b__c"), .definition (.ofTags ["single"] "c")]⟩

/-- The instances `a` and `a__b` of it. -/
def underscoredInstances : Program :=
  ⟨[underscored.toStatement, .definition (.ofTags ["many", "T"] "a"),
    .definition (.ofTags ["many", "T"] "a__b")]⟩

theorem givesLocal_underscored {inst member : String}
    (hinst : .definition (.ofTags ["many", "T"] inst) ∈ underscoredInstances.statements)
    (hmember : .definition (.ofTags ["single"] member) ∈ underscored.body) :
    underscoredInstances.GivesLocal {} "T" inst member (qualify inst member) := by
  have hopens : (underscoredInstances.compilation {}).Opens [] ⟨"T", {}⟩ none underscored {} :=
    ⟨rfl, rfl, rfl⟩
  have hroles : (underscoredInstances.compilation {}).roles (.ofTags ["many", "T"] inst) =
      [.set "many", .expand ⟨"T", {}⟩ none] := rfl
  have hreaches : (underscoredInstances.compilation {}).Reaches underscoredInstances.statements
      [] ⟨"T", {}⟩ none inst :=
    .top hinst (List.mem_singleton_self _) (by rw [hroles]; simp)
  exact ⟨underscored, {}, .ofTags ["single"] member, ⟨_, _, _, hreaches, hopens⟩, rfl,
    Template.names_iff.2 ⟨⟨_, hmember, List.mem_singleton_self _⟩, rfl⟩, rfl, rfl⟩

theorem isOk_facts_underscored : (underscoredInstances.facts {}).isOk = true := by
  decide +kernel

/-- `a` gives `b__c` the name that `a__b` gives `c`. -/
theorem exists_shared_local_name :
    ¬∀ (options : Options) (p : Program) (template inst inst' member member' name name' : String),
      (p.facts options).isOk = true → p.GivesLocal options template inst member name →
      p.GivesLocal options template inst' member' name' → inst ≠ inst' → name ≠ name' := by
  intro h
  have hab : underscoredInstances.GivesLocal {} "T" "a" "b__c" (qualify "a" "b__c") :=
    givesLocal_underscored (.tail _ (.head _)) (.head _)
  have hc : underscoredInstances.GivesLocal {} "T" "a__b" "c" (qualify "a__b" "c") :=
    givesLocal_underscored (.tail _ (.tail _ (.head _))) (.tail _ (.head _))
  exact h _ _ _ _ _ _ _ _ _ isOk_facts_underscored hab hc (by decide) (by decide)

/-- Both instances are facts of the program, and their local members have one
name exactly if one instance straddles the other. -/
theorem Program.local_names_eq_iff {options : Options} {p : Program}
    {template inst inst' member member' name name' : String}
    (hrun : (p.facts options).isOk = true)
    (h : p.GivesLocal options template inst member name)
    (h' : p.GivesLocal options template inst' member' name') (hne : inst ≠ inst') :
    (∃ gs, p.allFacts options = .ok gs ∧
      .applyInstance template inst ∈ gs ∧ .applyInstance template inst' ∈ gs) ∧
      (name = name' ↔
        Straddles inst member inst' member' ∨ Straddles inst' member' inst member) := by
  constructor
  · rw [← Program.isOk_allFacts] at hrun
    obtain ⟨gs, hgs⟩ := isOk_iff_exists.1 hrun
    obtain ⟨t, r, d, hinst, ht, _⟩ := h
    obtain ⟨t', r', d', hinst', ht', _⟩ := h'
    exact ⟨gs, hgs, (Program.applyInstance_mem_allFacts_iff hgs).2 ⟨t, r, hinst, ht⟩,
      (Program.applyInstance_mem_allFacts_iff hgs).2 ⟨t', r', hinst', ht'⟩⟩
  · rw [h.eq_qualify, h'.eq_qualify]
    exact qualify_eq_iff hne

theorem local_names_eq_iff_underscored :
    (underscoredInstances.facts {}).isOk = true ∧
      underscoredInstances.GivesLocal {} "T" "a" "b__c" "__a__b__c" ∧
      underscoredInstances.GivesLocal {} "T" "a__b" "b__c" "__a__b__b__c" ∧ "a" ≠ "a__b" ∧
      (∃ gs, underscoredInstances.allFacts {} = .ok gs ∧
        .applyInstance "T" "a" ∈ gs ∧ .applyInstance "T" "a__b" ∈ gs) ∧
      ("__a__b__c" = "__a__b__b__c" ↔
        Straddles "a" "b__c" "a__b" "b__c" ∨ Straddles "a__b" "b__c" "a" "b__c") := by
  have ha : underscoredInstances.GivesLocal {} "T" "a" "b__c" "__a__b__c" :=
    givesLocal_underscored (.tail _ (.head _)) (.head _)
  have hb : underscoredInstances.GivesLocal {} "T" "a__b" "b__c" "__a__b__b__c" :=
    givesLocal_underscored (.tail _ (.tail _ (.head _))) (.head _)
  exact ⟨isOk_facts_underscored, ha, hb, by decide,
    Program.local_names_eq_iff isOk_facts_underscored ha hb (by decide)⟩

end InterfaceSchema
