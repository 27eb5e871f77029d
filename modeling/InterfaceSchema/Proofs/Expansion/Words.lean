import InterfaceSchema.Proofs.Expansion.Instances
import InterfaceSchema.Schema.WellFormed

/-!
# Names in facts

The names of a well-formed schema are words, and a name that the expansion makes
from words is a word. So each name in a fact is a word or stands for a member
(`Program.readable_emissions`).
-/

namespace InterfaceSchema

/-- The name is a nonempty run of letters, digits and underscores. -/
def isWord (name : String) : Bool := !name.toList.isEmpty && name.toList.all Token.isWordChar

theorem isWord_qualify {owner name : String} (howner : isWord owner = true)
    (hname : isWord name = true) : isWord (qualify owner name) = true := by
  simp only [isWord, Bool.and_eq_true] at howner hname
  have hunderscore : Token.isWordChar '_' = true := by decide
  simp [isWord, qualify, howner.2, hname.2, hunderscore]

theorem Statement.areWellFormed_iff {ss : List Statement} :
    Statement.areWellFormed ss = true ↔ ∀ s ∈ ss, s.isWellFormed = true := by
  induction ss with
  | nil => simp [areWellFormed]
  | cons s ss ih => simp [areWellFormed, ih]

theorem Statement.isWellFormed_of_mem_definitions {s : Statement} {d : Definition}
    (hs : s.isWellFormed = true) (hd : d ∈ s.definitions) : d.isWellFormed = true := by
  have hoperand {o : Operand} (ho : o.isWellFormed = true) (hd : d ∈ o.definition?.toList) :
      d.isWellFormed = true := by
    cases o with
    | definition e => exact List.mem_singleton.1 hd ▸ ho
    | expr e => cases hd
  cases s with
  | relation left kind right =>
    simp only [isWellFormed, Bool.and_eq_true] at hs
    exact hoperand hs.1 hd
  | cover left middle right =>
    simp only [isWellFormed, Bool.and_eq_true] at hs
    exact hoperand hs.1.1 hd
  | represents view data shape =>
    simp only [isWellFormed, Bool.and_eq_true] at hs
    exact hoperand hs.1.1 hd
  | definition e => exact List.mem_singleton.1 hd ▸ hs
  | template _ _ => cases hd
  | term _ => cases hd

theorem Statement.isWord_of_mem_definitions {s : Statement} {d : Definition}
    (hs : s.isWellFormed = true) (hd : d ∈ s.definitions) : isWord d.id.name = true := by
  have hdefinition : d.isWellFormed = true := isWellFormed_of_mem_definitions hs hd
  simp only [Definition.isWellFormed, Bool.and_eq_true] at hdefinition
  exact hdefinition.2

/-! ## Renaming -/

namespace Renaming

/-- The names that the renaming gives are words. -/
def GivesWords (r : Renaming) : Prop := ∀ e ∈ r.entries, isWord e.2 = true

theorem GivesWords.empty : GivesWords {} := nofun

variable {r : Renaming}

theorem GivesWords.bind {name target : String} (hr : r.GivesWords)
    (htarget : isWord target = true) : (r.bind name target).GivesWords :=
  List.forall_mem_cons.2 ⟨htarget, fun e he => hr e (List.mem_of_mem_filter he)⟩

theorem GivesWords.bindMembers {template inst : String} {s : Statement} (hr : r.GivesWords)
    (htemplate : isWord template = true) (hinst : isWord inst = true)
    (hs : s.isWellFormed = true) : (r.bindMembers template inst s).GivesWords := by
  have hwords : ∀ d ∈ s.definitions, isWord d.id.name = true :=
    fun d hd => Statement.isWord_of_mem_definitions hs hd
  unfold Renaming.bindMembers
  generalize s.definitions = ds at hwords
  induction ds generalizing r with
  | nil => exact hr
  | cons d ds ih =>
    obtain ⟨hd, hds⟩ := List.forall_mem_cons.1 hwords
    refine ih (hr.bind (isWord_qualify ?_ hd)) hds
    split
    · exact htemplate
    · exact hinst

theorem GivesWords.ofArguments {params args : List Identifier}
    (hargs : Identifier.areWellFormed args = true) : (ofArguments params args).GivesWords := by
  simp only [Identifier.areWellFormed, Bool.and_eq_true, List.all_eq_true] at hargs
  have hpairs : ∀ pair ∈ params.zip args, isWord pair.2.name = true :=
    fun pair hpair => hargs.2 _ (List.of_mem_zip hpair).2
  have fold {r : Renaming} (hr : r.GivesWords) {pairs : List (Identifier × Identifier)}
      (hpairs : ∀ pair ∈ pairs, isWord pair.2.name = true) :
      (pairs.foldl (fun r pair => r.bind pair.1.name pair.2.name) r).GivesWords := by
    induction pairs generalizing r with
    | nil => exact hr
    | cons pair pairs ih =>
      obtain ⟨hpair, hpairs⟩ := List.forall_mem_cons.1 hpairs
      exact ih (hr.bind hpair) hpairs
  exact fold .empty hpairs

section

variable (hr : r.GivesWords)

include hr

theorem isWellFormed_identifier {id : Identifier} (h : id.isWellFormed = true) :
    (r.identifier id).isWellFormed = true := by
  unfold identifier
  split
  · rename_i target htarget
    obtain ⟨before, behind, hentries, _⟩ := List.lookup_eq_some_iff.1 htarget
    exact hr (id.name, target) (by simp [hentries])
  · exact h

theorem isWellFormed_expr {e : Expr} (h : e.isWellFormed = true) :
    (r.expr e).isWellFormed = true := by
  fun_induction Expr.isWellFormed e with
  | case1 id => exact isWellFormed_identifier hr h
  | case2 op left id ih =>
    simp only [Bool.and_eq_true] at h
    rw [expr, expr, Expr.isWellFormed, ih h.1, isWellFormed_identifier hr h.2]
    rfl
  | case3 => cases h

theorem isWellFormed_decorator {d : Decorator} (h : d.isWellFormed = true) :
    (r.decorator d).isWellFormed = true := by
  cases d with
  | tag id => exact h
  | call template args =>
    simp only [Decorator.isWellFormed, Identifier.areWellFormed, Bool.and_eq_true,
      List.all_eq_true] at h
    simp only [decorator, Decorator.isWellFormed, Identifier.areWellFormed, Bool.and_eq_true,
      List.all_eq_true, List.isEmpty_map, List.forall_mem_map]
    exact ⟨h.1, h.2.1, fun id hid => isWellFormed_identifier hr (h.2.2 id hid)⟩

theorem isWellFormed_definition {d : Definition} (h : d.isWellFormed = true) :
    (r.definition d).isWellFormed = true := by
  simp only [Definition.isWellFormed, Bool.and_eq_true, List.all_eq_true] at h
  simp only [definition, Definition.isWellFormed, Bool.and_eq_true, List.all_eq_true,
    List.isEmpty_map, List.forall_mem_map]
  exact ⟨⟨h.1.1, fun d hd => isWellFormed_decorator hr (h.1.2 d hd)⟩,
    isWellFormed_identifier hr h.2⟩

theorem isWellFormed_operand {o : Operand} (h : o.isWellFormed = true) :
    (r.operand o).isWellFormed = true := by
  cases o with
  | definition d => exact isWellFormed_definition hr h
  | expr e => exact isWellFormed_expr hr h

theorem isWellFormed_withExpr {w : WithExpr} (h : w.isWellFormed = true) :
    (r.withExpr w).isWellFormed = true := by
  obtain ⟨left, right⟩ := w
  simp only [WithExpr.isWellFormed, Bool.and_eq_true] at h
  rw [withExpr, WithExpr.isWellFormed, isWellFormed_expr hr h.1]
  cases right with
  | none => rfl
  | some right => exact isWellFormed_expr hr h.2

theorem isWellFormed_statement {s : Statement} (h : s.isWellFormed = true) :
    (r.statement s).isWellFormed = true := by
  cases s with
  | relation left kind right =>
    simp only [Statement.isWellFormed, Bool.and_eq_true] at h
    rw [statement, Statement.isWellFormed, isWellFormed_operand hr h.1, isWellFormed_expr hr h.2]
    rfl
  | cover left middle right =>
    simp only [Statement.isWellFormed, Bool.and_eq_true] at h
    rw [statement, Statement.isWellFormed, isWellFormed_operand hr h.1.1,
      isWellFormed_expr hr h.1.2, isWellFormed_expr hr h.2]
    rfl
  | represents view data shape =>
    simp only [Statement.isWellFormed, Bool.and_eq_true] at h
    rw [statement, Statement.isWellFormed, isWellFormed_operand hr h.1.1,
      isWellFormed_withExpr hr h.1.2]
    cases shape with
    | none => rfl
    | some shape => exact isWellFormed_withExpr hr h.2
  | template header body => exact h
  | definition d => exact isWellFormed_definition hr h
  | term e => exact isWellFormed_expr hr h

end

theorem isWellFormed_of_mem_body {template inst : String} (hr : r.GivesWords)
    (htemplate : isWord template = true) (hinst : isWord inst = true) {ss : List Statement}
    (hss : ∀ s ∈ ss, s.isWellFormed = true) :
    ∀ s ∈ r.body template inst ss, s.isWellFormed = true := by
  induction ss generalizing r with
  | nil => nofun
  | cons s ss ih =>
    obtain ⟨hs, hss⟩ := List.forall_mem_cons.1 hss
    have hmembers := hr.bindMembers htemplate hinst hs
    exact List.forall_mem_cons.2 ⟨isWellFormed_statement hmembers hs, ih hmembers hss⟩

end Renaming

/-! ## Readable facts -/

namespace Fact

def names : Fact → List String
  | set kind name => [kind, name]
  | structured name => [name]
  | inst tag name => [tag, name]
  | applyInstance template name => [template, name]
  | apply _ left right => [left, right]
  | applyCover left middle right => [left, middle, right]
  | term text => [text]
  | unimplemented _ => []

/-- The text stands for an expression: a word, or what stands for a member. -/
def IsName (x : String) : Prop := isWord x = true ∨ x = Unimplemented.memberAccess.text

/-- Its names can be told from what stands around them. A member is no fact of its
own. -/
structure IsReadable (f : Fact) : Prop where
  names : ∀ x ∈ f.names, IsName x
  ne : f ≠ .unimplemented .memberAccess

end Fact

namespace Emission

def Readable (es : List Emission) : Prop := ∀ f ∈ flattenAll es, f.IsReadable

variable {es fs : List Emission}

theorem Readable.append (hes : Readable es) (hfs : Readable fs) : Readable (es ++ fs) := by
  intro f hf
  rw [flattenAll_append] at hf
  exact (List.mem_append.1 hf).elim (hes f) (hfs f)

theorem Readable.flatten {ess : List (List Emission)} (h : ∀ es ∈ ess, Readable es) :
    Readable ess.flatten := by
  induction ess with
  | nil => nofun
  | cons es ess ih =>
    obtain ⟨hes, hess⟩ := List.forall_mem_cons.1 h
    exact hes.append (ih hess)

theorem Readable.fact {f : Fact} (h : f.IsReadable) : Readable [fact f] := by
  intro g hg
  obtain rfl := List.mem_singleton.1 hg
  exact h

theorem Readable.map_fact {α : Type} {f : α → Fact} {xs : List α}
    (h : ∀ x ∈ xs, (f x).IsReadable) : Readable (xs.map fun x => Emission.fact (f x)) := by
  induction xs with
  | nil => nofun
  | cons x xs ih =>
    obtain ⟨hx, hxs⟩ := List.forall_mem_cons.1 h
    exact (Readable.fact hx).append (ih hxs)

theorem Readable.once (h : Readable es) : Readable [once es] := by
  intro f hf
  have hflatten : flattenAll [Emission.once es] = flattenAll es := by
    simp [flattenAll, Emission.flatten]
  exact h f (hflatten ▸ hf)

end Emission

namespace Compilation

open Emission

theorem isName_exprText {e : Expr} (h : e.isWellFormed = true) : Fact.IsName (exprText e) := by
  fun_induction Expr.isWellFormed e with
  | case1 id => exact .inl h
  | case2 op left id ih =>
    simp only [Bool.and_eq_true] at h
    cases op with
    | member => exact .inr rfl
    | derivesFrom => exact ih h.1
  | case3 => cases h

theorem isName_operandText {o : Operand} (h : o.isWellFormed = true) :
    Fact.IsName (operandText o) := by
  cases o with
  | definition d =>
    simp only [Operand.isWellFormed, Definition.isWellFormed, Bool.and_eq_true] at h
    exact .inl h.2
  | expr e => exact isName_exprText h

/-- What expands templates for words brings readable facts. -/
def Expander.BringsReadable (expand : Expander) : Prop := ∀ ⦃site args inst es⦄,
  site.isWellFormed = true → (∀ as, args = some as → Identifier.areWellFormed as = true) →
  isWord inst = true → expand site args inst = .ok es → Readable es

variable {c : Compilation} {expand : Expander} {es : List Emission}

theorem readable_emitRole {name : String} {position : Nat} {d : Decorator}
    (hexpand : Expander.BringsReadable expand) (hname : isWord name = true)
    (hd : d.isWellFormed = true) (h : emitRole expand name (c.role position d) = .ok es) :
    Readable es := by
  cases d with
  | tag tag =>
    have hreadable {f : Fact} (hnames : ∀ x ∈ f.names, x = tag.name ∨ x = name)
        (hne : f ≠ .unimplemented .memberAccess) : f.IsReadable := by
      refine ⟨fun x hx => .inl ?_, hne⟩
      rcases hnames x hx with rfl | rfl
      · exact hd
      · exact hname
    rw [role, roleOfTag] at h
    split at h
    · cases h
      exact .fact (hreadable (by simp [Fact.names]) nofun)
    · split at h
      · cases h
        exact .fact (hreadable (by simp [Fact.names]) nofun)
      · split at h
        · cases h
          show Readable ([.fact (.structured name)] ++ [.fact (.inst tag.name name)])
          exact .append (.fact (hreadable (by simp [Fact.names]) nofun))
            (.fact (hreadable (by simp [Fact.names]) nofun))
        · split at h
          · refine hexpand hd ?_ hname h
            nofun
          · cases h
            exact .fact (hreadable (by simp [Fact.names]) nofun)
  | call template args =>
    simp only [Decorator.isWellFormed, Bool.and_eq_true] at hd
    refine hexpand hd.1 ?_ hname h
    rintro as ⟨⟩
    exact hd.2

theorem readable_emitDefinition {d : Definition} (hexpand : Expander.BringsReadable expand)
    (hd : d.isWellFormed = true) (h : c.emitDefinition expand d = .ok es) : Readable es := by
  simp only [Definition.isWellFormed, Bool.and_eq_true, List.all_eq_true] at hd
  obtain ⟨_, ess, hess, rfl⟩ := emitDefinition_eq_ok_iff.1 h
  refine .flatten fun es hes => ?_
  obtain ⟨role, hrole, hes⟩ := exists_of_mem_mapM hess hes
  obtain ⟨position, hposition, rfl⟩ := List.mem_mapIdx.1 hrole
  exact readable_emitRole hexpand hd.2
    (hd.1.2 _ (List.mem_of_mem_filter (List.getElem_mem hposition))) hes

theorem isReadable_of_mem_ownFacts {s : Statement} (hs : s.isWellFormed = true) :
    ∀ f ∈ s.ownFacts, f.IsReadable := by
  cases s with
  | relation left kind right =>
    simp only [Statement.isWellFormed, Bool.and_eq_true] at hs
    refine List.forall_mem_singleton.2 ⟨?_, nofun⟩
    simp [Fact.names, isName_operandText hs.1, isName_exprText hs.2]
  | cover left middle right =>
    simp only [Statement.isWellFormed, Bool.and_eq_true] at hs
    refine List.forall_mem_singleton.2 ⟨?_, nofun⟩
    simp [Fact.names, isName_operandText hs.1.1, isName_exprText hs.1.2, isName_exprText hs.2]
  | represents view data shape => exact List.forall_mem_singleton.2 ⟨nofun, nofun⟩
  | term e =>
    exact List.forall_mem_singleton.2 ⟨by simpa [Fact.names] using isName_exprText hs, nofun⟩
  | template _ _ => nofun
  | definition _ => nofun

theorem readable_emitStatement {s : Statement} (hexpand : Expander.BringsReadable expand)
    (hs : s.isWellFormed = true) (h : c.emitStatement expand s = .ok es) : Readable es := by
  rw [emitStatement_eq] at h
  obtain ⟨ess, hess, rfl⟩ := map_eq_ok_iff.1 h
  refine .append (.flatten fun es hes => ?_) (.map_fact (isReadable_of_mem_ownFacts hs))
  obtain ⟨d, hd, hes⟩ := exists_of_mem_mapM hess hes
  exact readable_emitDefinition hexpand (Statement.isWellFormed_of_mem_definitions hs
    (s.compiled_subset_definitions hd)) hes

theorem readable_emitMember {inst : String} {s : Statement}
    (hexpand : Expander.BringsReadable expand) (hinst : isWord inst = true)
    (hs : s.isWellFormed = true) (h : c.emitMember expand inst s = .ok es) : Readable es := by
  obtain ⟨fs, hfs, h⟩ := bind_eq_ok_iff.1 h
  cases h
  have hstatement := readable_emitStatement hexpand hs hfs
  refine .append ?_ (.map_fact fun d hd => ⟨?_, nofun⟩)
  · split
    · exact hstatement.once
    · exact hstatement
  · simp [Fact.names, Fact.IsName, hinst, Statement.isWord_of_mem_definitions hs hd]

/-- The templates of a compilation are well formed. -/
def HasWellFormed (c : Compilation) : Prop :=
  ∀ t ∈ c.registry.templates, isWord t.name = true ∧ ∀ s ∈ t.body, s.isWellFormed = true

theorem bringsReadable_expand (hc : c.HasWellFormed) (scopes : Scopes) :
    Expander.BringsReadable (c.expand scopes) := by
  intro site args inst es hsite hargs hinst h
  induction scopes, site, args, inst using c.expansion_induction generalizing es with
  | undeclared scopes site args inst ht =>
    rw [expand_of_undeclared ht] at h
    cases h
  | recursive scopes site args inst t ht hs =>
    rw [expand_of_isExpanding ht hs] at h
    cases h
  | closed scopes site args inst t ht hs ih =>
    obtain ⟨htemplate, hbody⟩ := hc t (Registry.mem_of_find? ht)
    rw [expand_of_closed ht hs] at h
    obtain ⟨r, hr, h⟩ := bind_eq_ok_iff.1 h
    obtain ⟨ess, hess, h⟩ := bind_eq_ok_iff.1 h
    cases h
    have hwords : r.GivesWords := by
      unfold Template.bindArguments at hr
      split at hr
      · cases hr
        exact .empty
      · split at hr <;> cases hr
        exact .ofArguments (hargs _ rfl)
    have hinside : Expander.BringsReadable (c.inside scopes t inst) :=
      fun site args inst es hsite hargs hinst h => ih site args inst hsite hargs hinst h
    have hinstance : Readable [.fact (.applyInstance t.name inst)] :=
      .fact ⟨by simp [Fact.names, Fact.IsName, htemplate, hinst], nofun⟩
    refine hinstance.append (.flatten fun es hes => ?_)
    obtain ⟨s, hmem, hes⟩ := exists_of_mem_mapM hess hes
    exact readable_emitMember hinside hinst
      (Renaming.isWellFormed_of_mem_body hwords htemplate hinst hbody s hmem) hes

theorem readable_emissions {ss : List Statement} (hc : c.HasWellFormed)
    (hss : ∀ s ∈ ss, s.isWellFormed = true) (h : c.emissions ss = .ok es) : Readable es := by
  obtain ⟨ess, hess, rfl⟩ := map_eq_ok_iff.1 h
  refine .flatten fun es hes => ?_
  obtain ⟨s, hs, hes⟩ := exists_of_mem_mapM hess hes
  exact readable_emitStatement (bringsReadable_expand hc []) (hss s hs) hes

end Compilation

mutual
theorem Statement.isWellFormed_of_mem_declarations {t : Template} : ∀ {s : Statement},
    s.isWellFormed = true → t ∈ s.declarations →
      t.header.isWellFormed = true ∧ Statement.areWellFormed t.body = true
  | .template header body, hs, ht => by
    simp only [isWellFormed, Bool.and_eq_true] at hs
    rw [declarations, List.mem_cons] at ht
    rcases ht with rfl | ht
    · exact ⟨hs.1.1.1, hs.2⟩
    · exact Statement.isWellFormed_of_mem_declarationsIn hs.2 ht
  | .relation _ _ _, _, ht => by cases ht
  | .cover _ _ _, _, ht => by cases ht
  | .represents _ _ _, _, ht => by cases ht
  | .definition _, _, ht => by cases ht
  | .term _, _, ht => by cases ht

theorem Statement.isWellFormed_of_mem_declarationsIn {t : Template} : ∀ {ss : List Statement},
    Statement.areWellFormed ss = true → t ∈ Statement.declarationsIn ss →
      t.header.isWellFormed = true ∧ Statement.areWellFormed t.body = true
  | [], _, ht => by cases ht
  | s :: ss, hss, ht => by
    simp only [areWellFormed, Bool.and_eq_true] at hss
    rcases List.mem_append.1 ht with ht | ht
    · exact Statement.isWellFormed_of_mem_declarations hss.1 ht
    · exact Statement.isWellFormed_of_mem_declarationsIn hss.2 ht
end

/-- All facts that a well-formed program brings are readable, also those that are
dropped. -/
theorem Program.readable_emissions {options : Options} {p : Program} {es : List Emission}
    (hp : p.isWellFormed = true) (h : p.emissions options = .ok es) : Emission.Readable es := by
  obtain ⟨_, h⟩ := Program.emissions_eq_ok_iff.1 h
  refine Compilation.readable_emissions (fun t ht => ?_) (Statement.areWellFormed_iff.1 hp) h
  obtain ⟨hheader, hbody⟩ := Statement.isWellFormed_of_mem_declarationsIn hp ht
  simp only [Header.isWellFormed, Bool.and_eq_true] at hheader
  exact ⟨hheader.1.1, Statement.areWellFormed_iff.1 hbody⟩

end InterfaceSchema
