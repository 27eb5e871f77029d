import InterfaceSchema.Template.Expansion

/-!
# Shared facts

What settling does with the facts of blocks. `Emission.direct` are the facts of
emissions that stand outside blocks and `Emission.blocked` those inside them.
Every text that a block brings has been seen after it, also if an inner block
brought it and the outer one then dropped it. A fact therefore goes missing from
`Program.facts`, though `Program.allFacts` has it, exactly if it is `Swallowed`:
nothing brings it outside blocks, and the first block that brings it has it in a
block of its own.
-/

namespace InterfaceSchema

def FactBase.texts (facts : FactBase) : List String := facts.map Fact.text

@[simp] theorem FactBase.texts_append (fs gs : FactBase) :
    FactBase.texts (fs ++ gs) = FactBase.texts fs ++ FactBase.texts gs := List.map_append

@[simp] theorem FactBase.texts_cons (f : Fact) (fs : FactBase) :
    FactBase.texts (f :: fs) = f.text :: FactBase.texts fs := rfl

@[simp] theorem FactBase.texts_nil : FactBase.texts [] = [] := rfl

namespace Emission

def direct : List Emission → FactBase
  | [] => []
  | fact f :: es => f :: direct es
  | once _ :: es => direct es

def blocked : List Emission → FactBase
  | [] => []
  | fact _ :: es => blocked es
  | once block :: es => flattenAll block ++ blocked es

/-- The first block that brings a fact of this text. -/
def firstBlock? (x : String) : List Emission → Option (List Emission)
  | [] => none
  | fact _ :: es => firstBlock? x es
  | once block :: es =>
    if x ∈ FactBase.texts (flattenAll block) then some block else firstBlock? x es

/-- Nothing brings the text outside blocks, and the first block that brings it
has it in an inner block. -/
def Swallowed (x : String) (es : List Emission) : Prop :=
  x ∉ FactBase.texts (direct es) ∧
    ∃ block, firstBlock? x es = some block ∧ x ∈ FactBase.texts (blocked block)

theorem mem_flattenAll_iff {x : String} {es : List Emission} :
    x ∈ FactBase.texts (flattenAll es) ↔
      x ∈ FactBase.texts (direct es) ∨ x ∈ FactBase.texts (blocked es) := by
  induction es with
  | nil => simp [flattenAll, direct, blocked]
  | cons e es ih =>
    cases e with
    | fact f => simp [flattenAll, flatten, direct, blocked, ih, or_assoc]
    | once block => simp [flattenAll, flatten, direct, blocked, ih, or_left_comm]

theorem firstBlock?_eq_none_iff {x : String} {es : List Emission} :
    firstBlock? x es = none ↔ x ∉ FactBase.texts (blocked es) := by
  fun_induction firstBlock? x es with
  | case1 => simp [blocked]
  | case2 _ _ ih => simpa [blocked] using ih
  | case3 _ _ hx => simp [blocked, hx]
  | case4 _ _ hx ih => simp [blocked, hx, ih]

theorem keepNew_sublist (seen : List String) (fs : List Fact) :
    (keepNew seen fs).1.Sublist fs := by
  fun_induction keepNew seen fs with
  | case1 => exact .slnil
  | case2 _ f fs _ ih => exact ih.cons f
  | case3 _ f fs _ kept seen' h ih => rw [h] at ih; exact ih.cons_cons f

theorem mem_keepNew_iff {x : String} {seen : List String} {fs : List Fact} :
    x ∈ FactBase.texts (keepNew seen fs).1 ↔ x ∈ FactBase.texts fs ∧ x ∉ seen := by
  fun_induction keepNew seen fs with
  | case1 => simp
  | case2 seen f fs hf ih =>
    have hf : f.text ∈ seen := by simpa using hf
    rw [ih, FactBase.texts_cons, List.mem_cons]
    constructor
    · exact fun h => ⟨.inr h.1, h.2⟩
    · rintro ⟨rfl | h, hx⟩
      · exact absurd hf hx
      · exact ⟨h, hx⟩
  | case3 seen f fs hf kept seen' h ih =>
    have hf : f.text ∉ seen := by simpa using hf
    rw [h] at ih
    simp only [FactBase.texts_cons, List.mem_cons, ih, not_or]
    constructor
    · rintro (rfl | ⟨h, _, hx⟩)
      · exact ⟨.inl rfl, hf⟩
      · exact ⟨.inr h, hx⟩
    · rintro ⟨rfl | h, hx⟩
      · exact .inl rfl
      · by_cases hxf : x = f.text
        · exact .inl hxf
        · exact .inr ⟨h, hxf, hx⟩

theorem mem_keepNew_seen_iff {x : String} {seen : List String} {fs : List Fact} :
    x ∈ (keepNew seen fs).2 ↔ x ∈ seen ∨ x ∈ FactBase.texts fs := by
  fun_induction keepNew seen fs with
  | case1 => simp
  | case2 seen f fs hf ih =>
    have hf : f.text ∈ seen := by simpa using hf
    rw [ih, FactBase.texts_cons, List.mem_cons]
    constructor
    · exact fun h => h.imp_right .inr
    · rintro (h | rfl | h)
      · exact .inl h
      · exact .inl hf
      · exact .inr h
  | case3 seen f fs hf kept seen' h ih =>
    rw [h] at ih
    simp only [ih, FactBase.texts_cons, List.mem_cons, or_assoc, or_left_comm]

/-! ## Settling -/

theorem settleAll_once (seen : List String) (block es : List Emission) :
    settleAll seen (once block :: es) =
      let new := keepNew (settleAll seen block).2 (settleAll seen block).1
      (new.1 ++ (settleAll new.2 es).1, (settleAll new.2 es).2) := by
  simp [settleAll, settle]

theorem settleAll_fact (seen : List String) (f : Fact) (es : List Emission) :
    settleAll seen (fact f :: es) = (f :: (settleAll seen es).1, (settleAll seen es).2) := by
  simp [settleAll, settle]

theorem settleAll_sublist (seen : List String) :
    ∀ es, (settleAll seen es).1.Sublist (flattenAll es)
  | [] => by simp [settleAll, flattenAll]
  | fact f :: es => by
    rw [settleAll_fact]
    exact (settleAll_sublist seen es).cons_cons f
  | once block :: es => by
    rw [settleAll_once]
    exact ((keepNew_sublist _ _).trans (settleAll_sublist seen block)).append
      (settleAll_sublist _ es)

theorem direct_sublist_settleAll (seen : List String) (es : List Emission) :
    (direct es).Sublist (settleAll seen es).1 := by
  induction es generalizing seen with
  | nil => exact .slnil
  | cons e es ih =>
    cases e with
    | fact f =>
      rw [settleAll_fact]
      exact (ih seen).cons_cons f
    | once block =>
      rw [settleAll_once]
      exact (ih _).trans (List.sublist_append_right _ _)

theorem mem_settleAll_of_mem_direct {x : String} (seen : List String) (es : List Emission)
    (h : x ∈ FactBase.texts (direct es)) : x ∈ FactBase.texts (settleAll seen es).1 :=
  ((direct_sublist_settleAll seen es).map Fact.text).subset h

theorem mem_of_mem_settleAll {x : String} (seen : List String) (es : List Emission)
    (h : x ∈ FactBase.texts (settleAll seen es).1) :
    x ∈ FactBase.texts (direct es) ∨ x ∈ FactBase.texts (blocked es) :=
  mem_flattenAll_iff.1 (((settleAll_sublist seen es).map Fact.text).subset h)

/-- What a block brings has been seen after it, kept or not. -/
theorem mem_settleAll_seen_iff {x : String} (seen : List String) : ∀ es,
    x ∈ (settleAll seen es).2 ↔ x ∈ seen ∨ x ∈ FactBase.texts (blocked es)
  | [] => by simp [settleAll, blocked]
  | fact f :: es => by
    rw [settleAll_fact]
    exact mem_settleAll_seen_iff seen es
  | once block :: es => by
    have hblock := mem_settleAll_seen_iff (x := x) seen block
    have hge := mem_settleAll_of_mem_direct (x := x) seen block
    have hle := mem_of_mem_settleAll (x := x) seen block
    rw [settleAll_once]
    simp only [mem_settleAll_seen_iff _ es, mem_keepNew_seen_iff, blocked, FactBase.texts_append,
      List.mem_append, hblock, mem_flattenAll_iff]
    grind

theorem mem_settleAll_iff {x : String} (seen : List String) (es : List Emission) :
    x ∈ FactBase.texts (settleAll seen es).1 ↔ x ∈ FactBase.texts (direct es) ∨
      x ∉ seen ∧ ∃ block, firstBlock? x es = some block ∧ x ∉ FactBase.texts (blocked block) := by
  induction es generalizing seen with
  | nil => simp [settleAll, direct, firstBlock?]
  | cons e es ih =>
    cases e with
    | fact f => simp [settleAll_fact, direct, firstBlock?, ih, or_assoc]
    | once block =>
      have hblock := mem_settleAll_seen_iff (x := x) seen block
      have hge := mem_settleAll_of_mem_direct (x := x) seen block
      have hle := mem_of_mem_settleAll (x := x) seen block
      rw [settleAll_once]
      simp only [FactBase.texts_append, List.mem_append, mem_keepNew_iff, ih,
        mem_keepNew_seen_iff, hblock, direct, firstBlock?, mem_flattenAll_iff]
      split
      · simp only [Option.some.injEq, exists_eq_left']
        grind
      · grind

theorem mem_facts_iff {x : String} (es : List Emission) :
    x ∈ FactBase.texts (facts es) ↔ x ∈ FactBase.texts (flattenAll es) ∧ ¬Swallowed x es := by
  rw [facts, mem_settleAll_iff, mem_flattenAll_iff, Swallowed]
  cases h : firstBlock? x es with
  | none =>
    have := firstBlock?_eq_none_iff.1 h
    simp [this]
  | some block =>
    have hx : x ∈ FactBase.texts (blocked es) :=
      Decidable.byContradiction fun hx => by simp [firstBlock?_eq_none_iff.2 hx] at h
    simp only [Option.some.injEq, exists_eq_left', List.not_mem_nil, hx]
    grind

theorem Swallowed.mem_flattenAll {x : String} {es : List Emission} (h : Swallowed x es) :
    x ∈ FactBase.texts (flattenAll es) := by
  obtain ⟨_, block, hblock, _⟩ := h
  refine mem_flattenAll_iff.2 (.inr (Decidable.byContradiction fun hx => ?_))
  rw [firstBlock?_eq_none_iff.2 hx] at hblock
  cases hblock

end Emission

/-! ## Facts of programs -/

/-- The facts of a program when no block drops any. -/
def Program.allFacts (options : Options) (p : Program) : Except SemanticError FactBase :=
  Emission.flattenAll <$> p.emissions options

/-- The definition of a name under bare tags. -/
def Definition.ofTags (tags : List String) (name : String) : Definition :=
  ⟨tags.map fun tag => .tag ⟨tag, {}⟩, ⟨name, {}⟩⟩

/-- `Outer` has a shared member that is an instance of `Inner`, which has a
shared member too. -/
def nestedSharing : Program :=
  ⟨[.template ⟨⟨"Inner", {}⟩, none, none⟩ [.definition (.ofTags ["shared", "single"] "s")],
    .template ⟨⟨"Outer", {}⟩, none, none⟩ [.definition (.ofTags ["shared", "many", "Inner"] "y")],
    .definition (.ofTags ["many", "Outer"] "o")]⟩

/-- The fact of the inner member goes missing. -/
theorem nestedSharing_loses_inner_member :
    ¬∀ (options : Options) (p : Program) (fs gs : FactBase),
      p.facts options = .ok fs → p.allFacts options = .ok gs →
      ∀ x, x ∈ FactBase.texts fs ↔ x ∈ FactBase.texts gs := by
  intro h
  have hfacts : (nestedSharing.facts {}).toOption.map FactBase.texts =
      some ["set(many, o)", "apply_instance(Outer, o)", "set(many, __Outer__y)",
        "apply_instance(Inner, __Outer__y)", "apply_mapto(__Outer__y, __Inner__s)",
        "apply_mapto(o, __Outer__y)"] := by decide +kernel
  have hall : (nestedSharing.allFacts {}).toOption.map FactBase.texts =
      some ["set(many, o)", "apply_instance(Outer, o)", "set(many, __Outer__y)",
        "apply_instance(Inner, __Outer__y)", "set(single, __Inner__s)",
        "apply_mapto(__Outer__y, __Inner__s)", "apply_mapto(o, __Outer__y)"] := by decide +kernel
  cases hfs : nestedSharing.facts {} with
  | error e => rw [hfs] at hfacts; cases hfacts
  | ok fs =>
    cases hgs : nestedSharing.allFacts {} with
    | error e => rw [hgs] at hall; cases hall
    | ok gs =>
      rw [hfs] at hfacts
      rw [hgs] at hall
      have hiff := h {} nestedSharing fs gs hfs hgs "set(single, __Inner__s)"
      rw [Option.some.inj hfacts, Option.some.inj hall] at hiff
      revert hiff
      decide

/-- The facts of a program are among all facts, in their order, and the texts
that go missing are the swallowed ones; so none does exactly if none is
swallowed. -/
theorem Program.mem_facts_iff_not_swallowed {options : Options} {p : Program}
    {es : List Emission} (h : p.emissions options = .ok es) :
    ∃ fs gs, p.facts options = .ok fs ∧ p.allFacts options = .ok gs ∧ fs.Sublist gs ∧
      (∀ x, x ∈ FactBase.texts fs ↔ x ∈ FactBase.texts gs ∧ ¬Emission.Swallowed x es) ∧
      ((∀ x, x ∈ FactBase.texts fs ↔ x ∈ FactBase.texts gs) ↔ ∀ x, ¬Emission.Swallowed x es) := by
  refine ⟨Emission.facts es, Emission.flattenAll es, by rw [facts, h]; rfl,
    by rw [allFacts, h]; rfl, Emission.settleAll_sublist [] es, fun x => Emission.mem_facts_iff es,
    ?_⟩
  constructor
  · intro hall x hx
    exact ((Emission.mem_facts_iff es).1 ((hall x).2 hx.mem_flattenAll)).2 hx
  · intro hnone x
    rw [Emission.mem_facts_iff]
    exact and_iff_left (hnone x)

theorem mem_facts_iff_not_swallowed_nestedSharing :
    ∃ es fs gs, nestedSharing.emissions {} = .ok es ∧ nestedSharing.facts {} = .ok fs ∧
      nestedSharing.allFacts {} = .ok gs ∧ fs.Sublist gs ∧
      (∀ x, x ∈ FactBase.texts fs ↔ x ∈ FactBase.texts gs ∧ ¬Emission.Swallowed x es) ∧
      ((∀ x, x ∈ FactBase.texts fs ↔ x ∈ FactBase.texts gs) ↔ ∀ x, ¬Emission.Swallowed x es) := by
  have hok : (nestedSharing.emissions {}).isOk = true := by decide +kernel
  cases hes : nestedSharing.emissions {} with
  | error e => rw [hes] at hok; cases hok
  | ok es =>
    obtain ⟨fs, gs, hall⟩ := Program.mem_facts_iff_not_swallowed hes
    exact ⟨es, fs, gs, rfl, hall⟩

end InterfaceSchema
