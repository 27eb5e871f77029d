import InterfaceSchema.Proofs.Expansion.Order

/-!
# Facts outside shared statements

`Collector.unshared` collects what is brought outside all shared statements of bodies: the
statements themselves are passed over, and only the links behind them are left. In a run
that succeeds these are the emissions that are no blocks (`Collector.simulates_unshared`).
So however many instances have a shared member, a text is among the facts of a program at
most once more often than it is brought outside shared statements
(`Program.count_facts_le_succ`).
-/

namespace InterfaceSchema

/-- Collects emissions, of a shared statement of a body only the links behind it. -/
def Collector.unshared : Collector (Except SemanticError) Emission :=
  { Emission.collector with
    member inst s emitted := do
      let es ← if s.isShared then pure [] else emitted
      return es ++ Emission.links inst s }

/-- The facts that a program brings outside the shared statements of bodies. -/
def Program.factsUnshared (options : Options) (p : Program) : Except SemanticError FactBase :=
  Emission.flattenAll <$> Collector.unshared.program options p

namespace Emission

def isFact : Emission → Bool
  | fact _ => true
  | once _ => false

theorem filter_isFact_links (inst : String) (s : Statement) :
    (links inst s).filter isFact = links inst s :=
  List.filter_eq_self.2 (List.forall_mem_map.2 fun _ _ => rfl)

theorem flattenAll_filter_isFact (es : List Emission) :
    flattenAll (es.filter isFact) = direct es := by
  induction es with
  | nil => rfl
  | cons e es ih =>
    cases e with
    | fact f => exact congrArg (f :: ·) ih
    | once block => exact ih

end Emission

/-- Where the first computation succeeds, so does the second. -/
def Lifting.success (ε : Type) : Lifting (Except ε) (Except ε) where
  Rel T x x' := ∀ a, x = .ok a → ∃ a', x' = .ok a' ∧ T a a'
  pure h := by
    rintro _ ⟨⟩
    exact ⟨_, rfl, h⟩
  bind hx hf c hc := by
    obtain ⟨a, ha, hc⟩ := bind_eq_ok_iff.1 hc
    obtain ⟨a', ha', h⟩ := hx a ha
    obtain ⟨c', hc', h'⟩ := hf a a' h c hc
    exact ⟨c', bind_eq_ok_iff.2 ⟨a', ha', hc'⟩, h'⟩

theorem Lifting.success_of_agree {ε β β' : Type} {T : β → β' → Prop} {x : Except ε β}
    {x' : Except ε β'} (h : Agree T x x') : (Lifting.success ε).Rel T x x' := by
  rintro a rfl
  obtain _ | h := h
  exact ⟨_, rfl, h⟩

namespace Collector

/-- Without shared statements a run brings its emissions that are no blocks. A shared
statement brings one block and its links. -/
theorem simulates_unshared : Emission.collector.Simulates (.success SemanticError)
    (fun es es' => es' = es.filter Emission.isFact) unshared where
  undecorated _ := nofun
  tell _ _ _ := ⟨(), rfl, rfl⟩
  nil := rfl
  append := by
    rintro as bs _ _ rfl rfl
    exact (List.filter_append _ _).symm
  fact _ := rfl
  lowered _ _ _ h := h
  member inst s x x' hx es hes := by
    obtain ⟨fs, hfs, hes⟩ := bind_eq_ok_iff.1 hes
    cases hes
    obtain ⟨_, hfs', rfl⟩ := hx fs hfs
    refine ⟨_, ?_, rfl⟩
    rw [List.filter_append, Emission.filter_isFact_links]
    show (do
      let es ← if s.isShared then pure [] else x'
      return es ++ Emission.links inst s) = _
    cases s.isShared with
    | true => rfl
    | false => exact bind_eq_ok_iff.2 ⟨_, hfs', rfl⟩
  expanded _ _ := by
    rintro as _ rfl
    rfl

theorem unshared_statements_eq {c : Compilation} {ss : List Statement} {es : List Emission}
    (h : c.emissions ss = .ok es) : unshared.statements c ss = .ok (es.filter Emission.isFact) := by
  obtain ⟨_, hunshared, rfl⟩ := simulates_unshared.statements Lifting.success_of_agree ss es h
  exact hunshared

end Collector

theorem Program.factsUnshared_eq {options : Options} {p : Program} {es : List Emission}
    (h : p.emissions options = .ok es) : p.factsUnshared options = .ok (Emission.direct es) := by
  obtain ⟨_, hunshared, rfl⟩ :=
    Collector.simulates_unshared.program Lifting.success_of_agree options p es h
  rw [factsUnshared, hunshared, ← Emission.flattenAll_filter_isFact]
  rfl

/-- The facts of a program are those brought outside shared statements, in their
order, and others between them, of which shared statements bring each text at most
once. -/
theorem Program.count_facts_le_succ {options : Options} {p : Program} {fs : FactBase}
    (h : p.facts options = .ok fs) : ∃ us, p.factsUnshared options = .ok us ∧ us.Sublist fs ∧
      (∀ x, (FactBase.texts fs).count x ≤ (FactBase.texts us).count x + 1) ∧
      ∀ x ∉ FactBase.texts us, (FactBase.texts fs).count x ≤ 1 := by
  obtain ⟨es, hes, rfl⟩ := map_eq_ok_iff.1 h
  have hcount (x : String) : (FactBase.texts (Emission.facts es)).count x ≤
      (FactBase.texts (Emission.direct es)).count x + 1 := by
    rw [Emission.count_facts]
    split <;> omega
  refine ⟨Emission.direct es, factsUnshared_eq hes, Emission.direct_sublist_settleAll [] es, hcount,
    fun x hx => ?_⟩
  have := hcount x
  rwa [List.count_eq_zero.2 hx, Nat.zero_add] at this

/-- Two instances with a shared member, whose fact is also stated outside them. -/
def sharingRestated : Program :=
  ⟨[.template ⟨⟨"T", {}⟩, none, none⟩ [.definition (.ofTags ["shared", "single"] "s")],
    .definition (.ofTags ["T"] "a"), .definition (.ofTags ["T"] "b"),
    .definition (.ofTags ["single"] "__T__s")]⟩

example : ((sharingRestated.facts {}).toOption.map fun fs =>
    (FactBase.texts fs).count "set(single, __T__s)") = some 2 := by decide +kernel

theorem count_facts_le_succ_sharingRestated : ∃ fs us, sharingRestated.facts {} = .ok fs ∧
    sharingRestated.factsUnshared {} = .ok us ∧ us.Sublist fs ∧
    (∀ x, (FactBase.texts fs).count x ≤ (FactBase.texts us).count x + 1) ∧
    ∀ x ∉ FactBase.texts us, (FactBase.texts fs).count x ≤ 1 := by
  have hok : (sharingRestated.facts {}).isOk = true := by decide +kernel
  obtain ⟨fs, hfs⟩ := isOk_iff_exists.1 hok
  obtain ⟨us, hall⟩ := Program.count_facts_le_succ hfs
  exact ⟨fs, us, hfs, hall⟩

end InterfaceSchema
