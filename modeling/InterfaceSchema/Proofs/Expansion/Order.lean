import InterfaceSchema.Proofs.Expansion.Acceptance
import InterfaceSchema.Proofs.Expansion.Agreement
import InterfaceSchema.Proofs.Sharing
import Mathlib.Data.List.Perm.Basic

/-!
# The order of statements

A statement brings the same emissions wherever it stands among the statements of
a program, since names find the same templates (`Program.emissions_perm`). How
often a text counts is settled by them (`Emission.count_facts`): outside blocks
each time, and in blocks once, unless the first block that brings it has it in a
block of its own. Which block is the first depends on the order, so two orders
give the same facts exactly if the same texts are `Emission.Lost` in both.
-/

namespace InterfaceSchema

theorem mapM_perm {ε α β : Type} {f : α → Except ε β} {xs xs' : List α} {ys : List β}
    (hperm : xs'.Perm xs) (h : xs.mapM f = .ok ys) : ∃ ys', xs'.mapM f = .ok ys' ∧ ys'.Perm ys := by
  induction hperm generalizing ys with
  | nil => exact ⟨ys, h, .refl ys⟩
  | cons x _ ih =>
    obtain ⟨y, ys, hy, hys, rfl⟩ := mapM_cons_eq_ok_iff.1 h
    obtain ⟨zs, hzs, hperm⟩ := ih hys
    exact ⟨y :: zs, mapM_cons_eq_ok_iff.2 ⟨y, zs, hy, hzs, rfl⟩, hperm.cons y⟩
  | swap x x' xs =>
    obtain ⟨y, _, hy, htail, rfl⟩ := mapM_cons_eq_ok_iff.1 h
    obtain ⟨y', ys, hy', hys, rfl⟩ := mapM_cons_eq_ok_iff.1 htail
    have hcons : (x :: xs).mapM f = .ok (y :: ys) := mapM_cons_eq_ok_iff.2 ⟨y, ys, hy, hys, rfl⟩
    exact ⟨_, mapM_cons_eq_ok_iff.2 ⟨y', y :: ys, hy', hcons, rfl⟩, .swap y y' ys⟩
  | trans _ _ ih₁ ih₂ =>
    obtain ⟨zs, hzs, hperm₂⟩ := ih₂ h
    obtain ⟨ws, hws, hperm₁⟩ := ih₁ hzs
    exact ⟨ws, hws, hperm₁.trans hperm₂⟩

namespace Program

variable {options : Options} {p q : Program}

/-- A name finds the same template whatever the order of the declarations. -/
theorem agrees_of_perm (options : Options) (hperm : q.statements.Perm p.statements)
    (hdistinct : ((Statement.declarationsIn p.statements).map Template.name).Nodup) :
    (p.compilation options).Agrees (q.compilation options) fun _ => True := by
  have hdeclarations : (Statement.declarationsIn q.statements).Perm
      (Statement.declarationsIn p.statements) := by
    rw [declarationsIn_eq_flatMap, declarationsIn_eq_flatMap]
    exact hperm.flatMap_right _
  refine Compilation.agrees_of_find? rfl fun name => congrArg _ ?_
  exact Registry.find?_eq_of_perm hdeclarations hdistinct name

/-- In another order the statements bring the same emissions. -/
theorem emissions_perm {es : List Emission} (hperm : q.statements.Perm p.statements)
    (h : p.emissions options = .ok es) :
    ∃ es', q.emissions options = .ok es' ∧ es'.Perm es := by
  obtain ⟨hdistinct, h⟩ := emissions_eq_ok_iff.1 h
  have hagrees : (q.compilation options).emissions q.statements =
      (p.compilation options).emissions q.statements :=
    (agrees_of_perm options hperm hdistinct).emissions_eq fun _ _ _ _ => trivial
  obtain ⟨ess, hess, rfl⟩ := Compilation.emissions_eq_ok_iff.1 h
  obtain ⟨ess', hess', hperm'⟩ := mapM_perm hperm hess
  refine ⟨ess'.flatten, emissions_eq_ok_iff.2 ⟨?_, ?_⟩, hperm'.flatten⟩
  · rw [declarationsIn_eq_flatMap] at hdistinct ⊢
    exact ((hperm.flatMap_right _).map _).nodup_iff.2 hdistinct
  · rw [hagrees, Compilation.emissions_eq, hess']
    rfl

theorem isOk_facts_perm (options : Options) (hperm : q.statements.Perm p.statements) :
    (q.facts options).isOk = (p.facts options).isOk := by
  have himp {p q : Program} (hperm : q.statements.Perm p.statements)
      (h : (p.facts options).isOk = true) : (q.facts options).isOk = true := by
    rw [facts, isOk_map, isOk_iff_exists] at h ⊢
    obtain ⟨es, hes⟩ := h
    obtain ⟨es', hes', _⟩ := emissions_perm hperm hes
    exact ⟨es', hes'⟩
  rw [Bool.eq_iff_iff]
  exact ⟨himp hperm.symm, himp hperm⟩

end Program

/-! ## How often a text counts -/

namespace Emission

/-- The first block that brings the text has it in a block of its own, and so it
is dropped. -/
def Lost (x : String) (es : List Emission) : Prop :=
  ∃ block ∈ firstBlock? x es, x ∈ FactBase.texts (blocked block)

instance (x : String) (es : List Emission) : Decidable (Lost x es) :=
  inferInstanceAs (Decidable (∃ block ∈ firstBlock? x es, x ∈ FactBase.texts (blocked block)))

theorem direct_eq_filterMap (es : List Emission) : direct es = es.filterMap fun
    | fact f => some f
    | once _ => none := by
  induction es with
  | nil => rfl
  | cons e es ih => cases e <;> simp [direct, ih]

theorem blocked_eq_flatMap (es : List Emission) : blocked es = es.flatMap fun
    | fact _ => []
    | once block => flattenAll block := by
  induction es with
  | nil => rfl
  | cons e es ih => cases e <;> simp [blocked, ih]

/-- A text is dropped each time but the first. -/
theorem count_keepNew (x : String) (seen : List String) (fs : List Fact) :
    (FactBase.texts (keepNew seen fs).1).count x =
      if x ∈ FactBase.texts fs ∧ x ∉ seen then 1 else 0 := by
  fun_induction keepNew seen fs with
  | case1 => simp
  | case2 seen f fs hf ih =>
    have hf : f.text ∈ seen := by simpa using hf
    rw [ih]
    refine if_congr ?_ rfl rfl
    rw [FactBase.texts_cons, List.mem_cons]
    grind
  | case3 seen f fs hf kept seen' h ih =>
    have hf : f.text ∉ seen := by simpa using hf
    rw [h] at ih
    rw [FactBase.texts_cons, List.count_cons, ih]
    by_cases hx : f.text = x
    · subst hx
      simp [hf]
    · simp [hx, Ne.symm hx]

theorem lost_once_iff {x : String} {block es : List Emission} : Lost x (once block :: es) ↔
    if x ∈ FactBase.texts (flattenAll block) then x ∈ FactBase.texts (blocked block)
    else Lost x es := by
  unfold Lost
  rw [firstBlock?]
  split
  · simp
  · rfl

theorem count_settleAll (x : String) (seen : List String) (es : List Emission) :
    (FactBase.texts (settleAll seen es).1).count x = (FactBase.texts (direct es)).count x +
      if x ∉ seen ∧ x ∈ FactBase.texts (blocked es) ∧ ¬Lost x es then 1 else 0 := by
  induction es generalizing seen with
  | nil => simp [settleAll, direct, blocked]
  | cons e es ih =>
    cases e with
    | fact f =>
      have hlost : Lost x (fact f :: es) ↔ Lost x es := Iff.rfl
      rw [settleAll_fact, FactBase.texts_cons, List.count_cons, ih, direct, FactBase.texts_cons,
        List.count_cons, blocked, Nat.add_right_comm]
      simp only [hlost]
    | once block =>
      have hseen := mem_settleAll_seen_iff (x := x) seen block
      have hge := mem_settleAll_of_mem_direct (x := x) seen block
      have hle := mem_of_mem_settleAll (x := x) seen block
      rw [settleAll_once]
      simp only [FactBase.texts_append, List.count_append, count_keepNew, ih, direct, blocked,
        List.mem_append, mem_keepNew_seen_iff, hseen, lost_once_iff]
      by_cases hblock : x ∈ FactBase.texts (flattenAll block)
      -- The block is the first that brings the text, and all later ones drop it.
      · have hdirect := mem_flattenAll_iff.1 hblock
        have hkept : x ∈ FactBase.texts (settleAll seen block).1 ∧
            ¬(x ∈ seen ∨ x ∈ FactBase.texts (blocked block)) ↔
            x ∉ seen ∧ x ∉ FactBase.texts (blocked block) := by tauto
        have hlater : (x ∈ seen ∨ x ∈ FactBase.texts (blocked block)) ∨
            x ∈ FactBase.texts (settleAll seen block).1 := by tauto
        simp only [hkept, hlater, hblock, not_true, false_and, true_or, true_and, if_true, if_false]
        omega
      · have hnone := not_or.1 (mem_flattenAll_iff.not.1 hblock)
        have hdropped : x ∉ FactBase.texts (settleAll seen block).1 :=
          fun hx => hblock (mem_flattenAll_iff.2 (hle hx))
        simp only [hdropped, hnone.2, hblock, false_and, or_false, false_or, if_false, Nat.zero_add]

/-- Each text counts as often as it stands outside blocks, and once more if blocks
bring it and it is not lost. -/
theorem count_facts (x : String) (es : List Emission) :
    (FactBase.texts (facts es)).count x = (FactBase.texts (direct es)).count x +
      if x ∈ FactBase.texts (blocked es) ∧ ¬Lost x es then 1 else 0 := by
  rw [facts, count_settleAll]
  simp

variable {es es' : List Emission}

/-- Of the same emissions in another order a text counts equally often exactly if
it is lost in both orders or in none. -/
theorem count_facts_eq_iff (hperm : es'.Perm es) (x : String) :
    (FactBase.texts (facts es')).count x = (FactBase.texts (facts es)).count x ↔
      (Lost x es' ↔ Lost x es) := by
  have hdirect : (FactBase.texts (direct es')).Perm (FactBase.texts (direct es)) := by
    rw [direct_eq_filterMap, direct_eq_filterMap]
    exact (hperm.filterMap _).map _
  have hblocked : (FactBase.texts (blocked es')).Perm (FactBase.texts (blocked es)) := by
    rw [blocked_eq_flatMap, blocked_eq_flatMap]
    exact (hperm.flatMap_right _).map _
  have hmem {es : List Emission} (h : Lost x es) : x ∈ FactBase.texts (blocked es) := by
    obtain ⟨block, hblock, _⟩ := h
    by_contra hx
    rw [firstBlock?_eq_none_iff.2 hx] at hblock
    cases hblock
  rw [count_facts, count_facts, hdirect.count_eq]
  simp only [hblocked.mem_iff]
  by_cases hx : x ∈ FactBase.texts (blocked es)
  · by_cases h : Lost x es <;> by_cases h' : Lost x es' <;> simp [hx, h, h']
  · have hno : ¬Lost x es := fun h => hx (hmem h)
    have hno' : ¬Lost x es' := fun h => hx (hblocked.mem_iff.1 (hmem h))
    simp [hx, hno, hno']

end Emission

/-- Where texts tell facts apart, facts whose texts are permuted are permuted. -/
theorem FactBase.perm_of_texts_perm {all fs gs : FactBase} (hfs : fs ⊆ all) (hgs : gs ⊆ all)
    (hinj : ∀ f ∈ all, ∀ g ∈ all, f.text = g.text → f = g)
    (h : (FactBase.texts fs).Perm (FactBase.texts gs)) : fs.Perm gs := by
  let find? (x : String) : Option Fact := all.find? (·.text == x)
  have hfind {f : Fact} (hf : f ∈ all) : find? f.text = some f := by
    have hsome : (find? f.text).isSome = true := List.find?_isSome.2 ⟨f, hf, by simp⟩
    obtain ⟨g, hg⟩ := Option.isSome_iff_exists.1 hsome
    have htext : g.text = f.text := by simpa using List.find?_some hg
    rw [hg, hinj g (List.mem_of_find?_eq_some hg) f hf htext]
  have hself {hs : FactBase} (hsub : hs ⊆ all) : (FactBase.texts hs).filterMap find? = hs := by
    induction hs with
    | nil => rfl
    | cons f hs ih =>
      obtain ⟨hf, hsub⟩ := List.cons_subset.1 hsub
      rw [FactBase.texts_cons, List.filterMap_cons_some (hfind hf), ih hsub]
  have hperm := h.filterMap find?
  rwa [hself hfs, hself hgs] at hperm

/-! ## Facts in another order -/

theorem Emission.flattenAll_eq_flatMap (es : List Emission) : flattenAll es = es.flatMap flatten := by
  induction es with
  | nil => rfl
  | cons e es ih => rw [flattenAll, ih, List.flatMap_cons]

/-- In another order a program compiles exactly if it does in the first one. A text
then counts equally often exactly if it is lost in both orders or in none; so the
facts are the same up to their order exactly if the same texts are lost. -/
theorem Program.facts_perm_iff {options : Options} {p q : Program}
    (hperm : q.statements.Perm p.statements) :
    (q.facts options).isOk = (p.facts options).isOk ∧
      ∀ es, p.emissions options = .ok es → ∃ es' fs gs, q.emissions options = .ok es' ∧
        p.facts options = .ok fs ∧ q.facts options = .ok gs ∧
        (∀ x, (FactBase.texts gs).count x = (FactBase.texts fs).count x ↔
          (Emission.Lost x es' ↔ Emission.Lost x es)) ∧
        ((FactBase.texts gs).Perm (FactBase.texts fs) ↔
          ∀ x, Emission.Lost x es' ↔ Emission.Lost x es) ∧
        ((∀ f ∈ Emission.flattenAll es, ∀ g ∈ Emission.flattenAll es, f.text = g.text → f = g) →
          (gs.Perm fs ↔ ∀ x, Emission.Lost x es' ↔ Emission.Lost x es)) := by
  refine ⟨isOk_facts_perm options hperm, fun es hes => ?_⟩
  obtain ⟨es', hes', hemissions⟩ := emissions_perm hperm hes
  have hcount (x : String) := Emission.count_facts_eq_iff hemissions x
  have htexts : (FactBase.texts (Emission.facts es')).Perm (FactBase.texts (Emission.facts es)) ↔
      ∀ x, Emission.Lost x es' ↔ Emission.Lost x es := by
    rw [List.perm_iff_count]
    exact forall_congr' hcount
  refine ⟨es', Emission.facts es, Emission.facts es', hes', by rw [facts, hes]; rfl,
    by rw [facts, hes']; rfl, hcount, htexts, fun hinj => ?_⟩
  rw [← htexts]
  refine ⟨fun h => h.map Fact.text, FactBase.perm_of_texts_perm ?_ ?_ hinj⟩
  · have hflatten : (Emission.flattenAll es').Perm (Emission.flattenAll es) := by
      rw [Emission.flattenAll_eq_flatMap, Emission.flattenAll_eq_flatMap]
      exact hemissions.flatMap_right _
    exact fun f hf => hflatten.subset ((Emission.settleAll_sublist [] es').subset hf)
  · exact (Emission.settleAll_sublist [] es).subset

/-- `nestedSharing` with an instance of `Inner` behind that of `Outer`, or before it. -/
def sharingInOrder (outerFirst : Bool) : Program :=
  let outer : Statement := .definition (.ofTags ["many", "Outer"] "o")
  let inner : Statement := .definition (.ofTags ["many", "Inner"] "i")
  ⟨nestedSharing.statements.take 2 ++ if outerFirst then [outer, inner] else [inner, outer]⟩

theorem sharingInOrder_perm :
    (sharingInOrder true).statements.Perm (sharingInOrder false).statements :=
  (List.Perm.swap _ _ []).append_left _

/-- Behind the instance of `Outer` the shared member of `Inner` goes missing. -/
theorem facts_not_perm_sharingInOrder :
    ¬∀ (options : Options) (p q : Program), q.statements.Perm p.statements →
      ((q.facts options).isOk = true ↔ (p.facts options).isOk = true) ∧
      ∀ fs gs, p.facts options = .ok fs → q.facts options = .ok gs → gs.Perm fs := by
  intro h
  let member : Fact := .set "single" "__Inner__s"
  have hlost : ((sharingInOrder true).facts {}).toOption.map (·.contains member) = some false := by
    decide +kernel
  have hkept : ((sharingInOrder false).facts {}).toOption.map (·.contains member) = some true := by
    decide +kernel
  cases hfs : (sharingInOrder false).facts {} with
  | error e =>
    rw [hfs] at hkept
    cases hkept
  | ok fs =>
    cases hgs : (sharingInOrder true).facts {} with
    | error e =>
      rw [hgs] at hlost
      cases hlost
    | ok gs =>
      rw [hgs] at hlost
      rw [hfs] at hkept
      have hperm : gs.Perm fs := (h {} _ _ sharingInOrder_perm).2 fs gs hfs hgs
      have hmem : member ∈ gs := hperm.mem_iff.2 (List.contains_iff_mem.1 (Option.some.inj hkept))
      have hnot : gs.contains member = false := Option.some.inj hlost
      rw [List.contains_iff_mem.2 hmem] at hnot
      cases hnot

theorem facts_perm_iff_sharingInOrder :
    (sharingInOrder true).statements.Perm (sharingInOrder false).statements ∧
      ((sharingInOrder true).facts {}).isOk = ((sharingInOrder false).facts {}).isOk ∧
      ∃ es es' fs gs, (sharingInOrder false).emissions {} = .ok es ∧
        (sharingInOrder true).emissions {} = .ok es' ∧
        (sharingInOrder false).facts {} = .ok fs ∧ (sharingInOrder true).facts {} = .ok gs ∧
        (∀ x, (FactBase.texts gs).count x = (FactBase.texts fs).count x ↔
          (Emission.Lost x es' ↔ Emission.Lost x es)) ∧
        ((FactBase.texts gs).Perm (FactBase.texts fs) ↔
          ∀ x, Emission.Lost x es' ↔ Emission.Lost x es) ∧
        ((∀ f ∈ Emission.flattenAll es, ∀ g ∈ Emission.flattenAll es, f.text = g.text → f = g) →
          (gs.Perm fs ↔ ∀ x, Emission.Lost x es' ↔ Emission.Lost x es)) := by
  obtain ⟨hok, hall⟩ := @Program.facts_perm_iff {} _ _ sharingInOrder_perm
  have hemissions : ((sharingInOrder false).emissions {}).isOk = true := by decide +kernel
  obtain ⟨es, hes⟩ := isOk_iff_exists.1 hemissions
  obtain ⟨es', fs, gs, hrest⟩ := hall es hes
  exact ⟨sharingInOrder_perm, hok, es, es', fs, gs, hes, hrest⟩

end InterfaceSchema
