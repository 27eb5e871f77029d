import Mathlib.Data.List.Forall2
import InterfaceSchema.Proofs.Success
import InterfaceSchema.Template.Traversal

/-!
# Traversals compared

A traversal brings what the definitions that a statement compiles bring and then the facts
of the statement itself (`Collector.statement_eq`). Two traversals are compared by a
relation of their computations that goes through `pure` and `bind`, a `Lifting`: where one
collector `Simulates` another, so do its traversals of statements, of bodies, and of
expansions (`Collector.Simulates.expand`).
-/

namespace InterfaceSchema

/-- The definitions that compiling a statement expands. The view of a binding is
none of them. -/
def Statement.compiled : Statement → List Definition
  | relation left _ _ => left.definition?.toList
  | cover left _ _ => left.definition?.toList
  | definition d => [d]
  | represents _ _ _ => []
  | template _ _ => []
  | term _ => []

/-- The facts of the statement itself, apart from those of its definitions. -/
def Statement.ownFacts : Statement → List Fact
  | relation left kind right =>
    [.apply kind (Compilation.operandText left) (Compilation.exprText right)]
  | cover left middle right => [.applyCover (Compilation.operandText left)
    (Compilation.exprText middle) (Compilation.exprText right)]
  | term e => [.term (Compilation.exprText e)]
  | represents _ _ _ => [.unimplemented .represents]
  | template _ _ => []
  | definition _ => []

theorem Statement.compiled_subset_definitions (s : Statement) : s.compiled ⊆ s.definitions := by
  cases s with
  | represents view data shape => exact List.nil_subset _
  | _ => exact List.Subset.refl _

theorem Renaming.compiled_statement (r : Renaming) (s : Statement) :
    (r.statement s).compiled = s.compiled.map r.definition := by
  cases s with
  | relation left _ _ => cases left <;> rfl
  | cover left _ _ => cases left <;> rfl
  | represents _ _ _ => rfl
  | template _ _ => rfl
  | definition _ => rfl
  | term _ => rfl

namespace Collector

open Compilation

section

variable {m : Type → Type} [Monad m] {α : Type} {k : Collector m α} {c : Compilation}
  {expansion : Expansion m α} {scopes : Scopes} {site : Identifier}
  {args : Option (List Identifier)} {inst : String} {t : Template}

section

variable [LawfulMonad m] (hk : ∀ es, k.tell es = pure ())

include hk

theorem statement_eq (s : Statement) :
    k.statement c expansion s = (fun ass => ass.flatten ++ s.ownFacts.map k.fact) <$>
      s.compiled.mapM (k.definition c expansion) := by
  have hoperand (operand : Operand) : k.operand c expansion operand =
      List.flatten <$> operand.definition?.toList.mapM (k.definition c expansion) := by
    cases operand with
    | definition d => simp [operand, Operand.definition?]
    | expr e => simp [operand, hk, Operand.definition?]
  cases s with
  | relation left kind right => simp [statement, hk, hoperand, Statement.compiled, Statement.ownFacts]
  | cover left middle right => simp [statement, hk, hoperand, Statement.compiled, Statement.ownFacts]
  | _ => simp [statement, hk, Statement.compiled, Statement.ownFacts]

theorem body_eq (template inst : String) (r : Renaming) (ss : List Statement) : k.body c expansion template inst r ss =
      (r.body template inst ss).mapM fun s => k.member inst s (k.statement c expansion s) := by
  induction ss generalizing r with
  | nil => rfl
  | cons s ss ih => simp [body, Renaming.body, hk, ih]

theorem template_eq (r : Renaming) :
    k.template c expansion t r inst = (do
      let ass ← (t.instantiate r inst).mapM fun s => k.member inst s (k.statement c expansion s)
      return k.expanded t.name inst ass.flatten) := by
  simp [template, hk, body_eq hk, Template.instantiate]

end

theorem expand_of_undeclared (h : c.registry.find? site.name = none) :
    k.expand c scopes site args inst = k.fail (.undeclaredTemplate site) := by
  rw [expand]
  split
  · rfl
  · rename_i t h'
    rw [h] at h'
    cases h'

theorem expand_of_isExpanding (h : c.registry.find? site.name = some t)
    (hs : scopes.isExpanding t.name = true) : k.expand c scopes site args inst =
      k.fail (.recursiveTemplate t.name (scopes.chain t.name)) := by
  rw [expand]
  split
  · rename_i h'
    rw [h] at h'
    cases h'
  · rename_i u h'
    obtain rfl : t = u := Option.some.inj (h.symm.trans h')
    rw [dif_pos hs]

theorem expand_of_closed (h : c.registry.find? site.name = some t)
    (hs : scopes.isExpanding t.name = false) : k.expand c scopes site args inst = (do
      let r ← k.lift (t.bindArguments site args)
      k.template c (k.expand c (scopes.push ⟨t.name, inst⟩)) t r inst) := by
  rw [expand]
  split
  · rename_i h'
    rw [h] at h'
    cases h'
  · rename_i u h'
    obtain rfl : t = u := Option.some.inj (h.symm.trans h')
    rw [dif_neg (by rw [hs]; exact Bool.false_ne_true)]

end

end Collector

/-- What holds of an expansion that does not get to a body, and of one that does if it
holds inside, holds of every expansion. -/
theorem Compilation.expansion_induction (c : Compilation)
    {motive : Scopes → Identifier → Option (List Identifier) → String → Prop}
    (undeclared : ∀ scopes site args inst, c.registry.find? site.name = none →
      motive scopes site args inst)
    (recursive : ∀ scopes site args inst t, c.registry.find? site.name = some t →
      scopes.isExpanding t.name = true → motive scopes site args inst)
    (closed : ∀ scopes site args inst t, c.registry.find? site.name = some t →
      scopes.isExpanding t.name = false →
      (∀ site args inst', motive (scopes.push ⟨t.name, inst⟩) site args inst') →
      motive scopes site args inst)
    (scopes : Scopes) (site : Identifier) (args : Option (List Identifier)) (inst : String) :
    motive scopes site args inst :=
  match h : c.registry.find? site.name with
  | none => undeclared scopes site args inst h
  | some t =>
    match hs : scopes.isExpanding t.name with
    | true => recursive scopes site args inst t h hs
    | false => closed scopes site args inst t h hs fun site args inst' =>
        Compilation.expansion_induction c undeclared recursive closed
          (scopes.push ⟨t.name, inst⟩) site args inst'
termination_by scopes.remaining c.registry
decreasing_by exact Scopes.remaining_push_lt (Registry.mem_of_find? h) hs _

/-! ## Liftings -/

/-- A relation of computations for each relation of what they give. -/
structure Lifting (m m' : Type → Type) [Monad m] [Monad m'] where
  Rel : {β β' : Type} → (β → β' → Prop) → m β → m' β' → Prop
  pure {β β' : Type} {T : β → β' → Prop} {a : β} {a' : β'} : T a a' → Rel T (pure a) (pure a')
  bind {β β' γ γ' : Type} {T : β → β' → Prop} {U : γ → γ' → Prop} {x : m β} {x' : m' β'}
    {f : β → m γ} {f' : β' → m' γ'} :
    Rel T x x' → (∀ a a', T a a' → Rel U (f a) (f' a')) → Rel U (x >>= f) (x' >>= f')

variable {m m' : Type → Type} [Monad m] [Monad m'] {L : Lifting m m'}

namespace Lifting

variable {β β' γ γ' δ : Type} {T : β → β' → Prop} {U : γ → γ' → Prop}

theorem map [LawfulMonad m] [LawfulMonad m'] {x : m β} {x' : m' β'} {f : β → γ} {f' : β' → γ'}
    (hx : L.Rel T x x') (hf : ∀ a a', T a a' → U (f a) (f' a')) : L.Rel U (f <$> x) (f' <$> x') := by
  rw [map_eq_pure_bind, map_eq_pure_bind]
  exact L.bind hx fun a a' h => L.pure (hf a a' h)

theorem mapM [LawfulMonad m] [LawfulMonad m'] {f : δ → m β} {f' : δ → m' β'} {xs : List δ}
    (h : ∀ x ∈ xs, L.Rel T (f x) (f' x)) : L.Rel (List.Forall₂ T) (xs.mapM f) (xs.mapM f') := by
  induction xs with
  | nil => exact L.pure .nil
  | cons x xs ih =>
    obtain ⟨hx, hxs⟩ := List.forall_mem_cons.1 h
    rw [List.mapM_cons, List.mapM_cons]
    exact L.bind hx fun _ _ hy => L.bind (ih hxs) fun _ _ hys => L.pure (.cons hy hys)

end Lifting

/-- The same error, or results in the relation. -/
inductive Agree {ε β β' : Type} (T : β → β' → Prop) : Except ε β → Except ε β' → Prop where
  | error (e : ε) : Agree T (.error e) (.error e)
  | ok {a : β} {a' : β'} (h : T a a') : Agree T (.ok a) (.ok a')

namespace Agree

variable {ε β : Type}

theorem refl (x : Except ε β) : Agree Eq x x := by
  cases x with
  | error e => exact .error e
  | ok a => exact .ok rfl

theorem eq {x y : Except ε β} (h : Agree Eq x y) : x = y := by
  cases h with
  | error e => rfl
  | ok h => rw [h]

theorem map_eq {β' : Type} {f : β → β'} {x : Except ε β} {y : Except ε β'}
    (h : Agree (fun a b => f a = b) x y) : f <$> x = y := by
  cases h with
  | error e => rfl
  | ok h => exact congrArg Except.ok h

end Agree

def Lifting.agreement (ε : Type) : Lifting (Except ε) (Except ε) where
  Rel := Agree
  pure := .ok
  bind hx hf := by
    cases hx with
    | error e => exact .error e
    | ok h => exact hf _ _ h

/-! ## Simulations -/

namespace Collector

open Compilation

/-- What the first collector does stays in the relation with what the second one does,
where the values collected are in `S`. -/
structure Simulates {α α' : Type} (L : Lifting m m') (S : List α → List α' → Prop)
    (k : Collector m α) (k' : Collector m' α') : Prop where
  undecorated (id : Identifier) :
    L.Rel S (k.fail (.emptyDefinition id)) (k'.fail (.emptyDefinition id))
  tell (es : List LogEvent) : L.Rel Eq (k.tell es) (k'.tell es)
  nil : S [] []
  append {as bs : List α} {as' bs' : List α'} : S as as' → S bs bs' → S (as ++ bs) (as' ++ bs')
  fact (f : Fact) : S [k.fact f] [k'.fact f]
  lowered (d : Definition) {as : List α} {as' : List α'} :
    S as as' → S (k.lowered d as) (k'.lowered d as')
  member (inst : String) (s : Statement) {x : m (List α)} {x' : m' (List α')} :
    L.Rel S x x' → L.Rel S (k.member inst s x) (k'.member inst s x')
  expanded (template inst : String) {as : List α} {as' : List α'} :
    S as as' → S (k.expanded template inst as) (k'.expanded template inst as')

/-- The expansions that a definition asks for are in the relation. -/
def Serves {α α' : Type} (L : Lifting m m') (S : List α → List α' → Prop) (c : Compilation)
    (expansion : Expansion m α) (expansion' : Expansion m' α') (d : Definition) : Prop :=
  ∀ site args, .expand site args ∈ c.roles d →
    L.Rel S (expansion site args d.id.name) (expansion' site args d.id.name)

namespace Simulates

variable {α α' : Type} {S : List α → List α' → Prop} {k : Collector m α} {k' : Collector m' α'}
  {c : Compilation} {expansion : Expansion m α} {expansion' : Expansion m' α'}
  (h : k.Simulates L S k')

include h

theorem flatten {ass : List (List α)} {ass' : List (List α')} (hass : List.Forall₂ S ass ass') :
    S ass.flatten ass'.flatten := by
  induction hass with
  | nil => exact h.nil
  | cons has _ ih => exact h.append has ih

theorem role {name : String} {role : Role} (hrole : ∀ site args, role = .expand site args →
      L.Rel S (expansion site args name) (expansion' site args name)) :
    L.Rel S (k.role expansion name role) (k'.role expansion' name role) := by
  cases role with
  | structuredAs tag => exact L.pure (h.append (h.fact _) (h.fact _))
  | expand site args => exact hrole site args rfl
  | _ => exact L.pure (h.fact _)

variable [LawfulMonad m] [LawfulMonad m']

theorem definition {d : Definition} (hd : Serves L S c expansion expansion' d) :
    L.Rel S (k.definition c expansion d) (k'.definition c expansion' d) := by
  unfold Collector.definition
  split
  · exact h.undecorated d.id
  · refine L.map (L.mapM fun role hrole => h.role fun site args heq => ?_) fun _ _ hass =>
      h.lowered d (h.flatten hass)
    exact hd site args (heq ▸ hrole)

theorem operand {operand : Operand}
    (hserves : ∀ d ∈ operand.definition?.toList, Serves L S c expansion expansion' d) :
    L.Rel S (k.operand c expansion operand) (k'.operand c expansion' operand) := by
  cases operand with
  | definition d => exact h.definition (hserves d List.mem_cons_self)
  | expr e => exact L.bind (h.tell _) fun _ _ _ => L.pure h.nil

theorem statement {s : Statement} (hserves : ∀ d ∈ s.compiled, Serves L S c expansion expansion' d) :
    L.Rel S (k.statement c expansion s) (k'.statement c expansion' s) := by
  cases s with
  | template header body => exact L.pure h.nil
  | definition d => exact h.definition (hserves d List.mem_cons_self)
  | relation left kind right =>
    exact L.bind (h.operand hserves) fun _ _ has => L.bind (h.tell _) fun _ _ _ =>
      L.pure (h.append has (h.fact _))
  | cover left middle right =>
    exact L.bind (h.operand hserves) fun _ _ has => L.bind (h.tell _) fun _ _ _ =>
      L.pure (h.append has (h.fact _))
  | term e => exact L.bind (h.tell _) fun _ _ _ => L.pure (h.fact _)
  | represents view data shape => exact L.bind (h.tell _) fun _ _ _ => L.pure (h.fact _)

theorem body {template inst : String} {r : Renaming} {ss : List Statement}
    (hserves : ∀ s ∈ r.body template inst ss, ∀ d ∈ s.compiled,
      Serves L S c expansion expansion' d) :
    L.Rel (List.Forall₂ S) (k.body c expansion template inst r ss)
      (k'.body c expansion' template inst r ss) := by
  induction ss generalizing r with
  | nil => exact L.pure .nil
  | cons s ss ih =>
    obtain ⟨hs, hss⟩ := List.forall_mem_cons.1 hserves
    refine L.bind (h.tell _) fun _ _ _ => L.bind (h.member inst _ (h.statement hs)) fun _ _ has => ?_
    exact L.bind (ih hss) fun _ _ hass => L.pure (.cons has hass)

theorem template {t : Template} {r : Renaming} {inst : String}
    (hserves : ∀ s ∈ t.instantiate r inst, ∀ d ∈ s.compiled,
      Serves L S c expansion expansion' d) :
    L.Rel S (k.template c expansion t r inst) (k'.template c expansion' t r inst) :=
  L.bind (h.tell _) fun _ _ _ => L.bind (h.body hserves) fun _ _ hass =>
    L.pure (h.expanded t.name inst (h.flatten hass))

variable (hlift : ∀ {β β' : Type} {T : β → β' → Prop} {x : Except SemanticError β}
  {x' : Except SemanticError β'}, Agree T x x' → L.Rel T (k.lift x) (k'.lift x'))

include hlift

theorem expand (scopes : Scopes) (site : Identifier) (args : Option (List Identifier))
    (inst : String) : L.Rel S (k.expand c scopes site args inst) (k'.expand c scopes site args inst) := by
  induction scopes, site, args, inst using c.expansion_induction with
  | undeclared scopes site args inst hfound =>
    rw [expand_of_undeclared hfound, expand_of_undeclared hfound]
    exact hlift (.error _)
  | recursive scopes site args inst t hfound hs =>
    rw [expand_of_isExpanding hfound hs, expand_of_isExpanding hfound hs]
    exact hlift (.error _)
  | closed scopes site args inst t hfound hs ih =>
    rw [expand_of_closed hfound hs, expand_of_closed hfound hs]
    refine L.bind (hlift (.refl _)) fun r _ hr => ?_
    subst hr
    exact h.template fun _ _ d _ site args _ => ih site args d.id.name

theorem statements (ss : List Statement) : L.Rel S (k.statements c ss) (k'.statements c ss) :=
  L.map (L.mapM fun _ _ => h.statement fun _ _ _ _ _ => h.expand hlift _ _ _ _) fun _ _ => h.flatten

theorem program (options : Options) (p : Program) :
    L.Rel S (k.program options p) (k'.program options p) := by
  refine L.bind (hlift (.refl _)) fun registry _ heq => ?_
  subst heq
  exact L.bind (h.tell _) fun _ _ _ => h.statements hlift _

end Simulates

end Collector

end InterfaceSchema
