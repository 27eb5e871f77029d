import InterfaceSchema.Proofs.Expansion.Acceptance

/-!
# Expansion on a stack

Here the scopes are a stack that the run itself changes: a frame is put on it
before the body of a template is compiled, and taken off again behind it, also
after a failure. The run remembers each stack there was, and a failure tells on
which it came about. It may not go deeper than a bound.

`Computes` compares such a run with the compilation without a stack, and carries
an invariant of stacks through it. So no run is too deep if the bound exceeds the
number of templates, its result is the same, and every stack in it is `Stacked`
(`Program.emissionsOn_eq`).
-/

namespace InterfaceSchema

/-- The scopes, and those that were before them. -/
structure Stack where
  scopes : Scopes := []
  past : List Scopes := []

namespace Stack

/-- The scopes at each moment up to now. -/
def moments (s : Stack) : List Scopes := s.scopes :: s.past

def enter (s : Stack) (f : Frame) : Stack := ⟨s.scopes.push f, s.moments⟩

def leave (s : Stack) : Stack := ⟨s.scopes.pop.2, s.moments⟩

end Stack

/-- Why a run stops early. -/
inductive Halt where
  | failed (e : SemanticError) (scopes : Scopes)
  | tooDeep

abbrev StackM := EStateM Halt Stack

namespace StackM

variable {α β : Type}

def raise (e : SemanticError) : StackM α := fun s => .error (.failed e s.scopes) s

def lift : Except SemanticError α → StackM α
  | .ok a => pure a
  | .error e => raise e

def within (f : Frame) (x : StackM α) : StackM α := fun s =>
  match x (s.enter f) with
  | .ok a s => .ok a s.leave
  | .error e s => .error e s.leave

end StackM

def StackM.collector : Collector StackM Emission := .emitting StackM.lift fun _ => pure ()

namespace Compilation

open StackM

abbrev StackExpander := Expansion StackM Emission

def emitStatementOn (c : Compilation) (expand : StackExpander) (s : Statement) :
    StackM (List Emission) :=
  StackM.collector.statement c expand s

/-- Expands the template named at `site` no deeper than the bound. -/
def expandOn (c : Compilation) : Nat → StackExpander
  | 0, _, _, _ => throw .tooDeep
  | depth + 1, site, args, inst =>
    match c.registry.find? site.name with
    | none => raise (.undeclaredTemplate site)
    | some t => do
      let stack ← get
      if stack.scopes.isExpanding t.name then
        raise (.recursiveTemplate t.name (stack.scopes.chain t.name))
      else
        let r ← lift (t.bindArguments site args)
        within ⟨t.name, inst⟩ (StackM.collector.template c (c.expandOn depth) t r inst)

end Compilation

/-- The emissions of a program, with no more templates in one another than the
bound. -/
def Program.emissionsOn (depth : Nat) (options : Options) (p : Program) : StackM (List Emission) := do
  let registry ← StackM.lift (Registry.ofStatements p.statements)
  let c : Compilation := ⟨options, registry⟩
  List.flatten <$> p.statements.mapM (c.emitStatementOn (c.expandOn depth))

/-! ## Comparing runs -/

/-- A recursion names a template on the scopes, and lists their frames. -/
def SemanticError.Tells (e : SemanticError) (scopes : Scopes) : Prop :=
  ∀ name chain, e = .recursiveTemplate name chain → (∃ f ∈ scopes, f.template = name) ∧
    chain = String.intercalate " -> "
      (scopes.reverse.map (fun f => f.template ++ "(" ++ f.inst ++ ")") ++ [name])

/-- What a run leaves on the stack `s` when the result is known. -/
inductive Stack.Yields {α : Type} (s : Stack) :
    Except SemanticError α → EStateM.Result Halt Stack α → Prop where
  | ok (a : α) : Yields s (.ok a) (.ok a s)
  | error {e : SemanticError} {scopes : Scopes} (hmem : scopes ∈ s.moments) (htells : e.Tells scopes) :
    Yields s (.error e) (.error (.failed e scopes) s)

/-- On these scopes the run has the result `y`. It leaves the scopes as they were,
and each stack in it has the invariant. -/
def Computes {α : Type} (I : Scopes → Prop) (x : StackM α) (scopes : Scopes)
    (y : Except SemanticError α) : Prop :=
  ∀ s : Stack, s.scopes = scopes → (∀ t ∈ s.moments, I t) →
    ∃ s' : Stack, s'.scopes = scopes ∧ (∀ t ∈ s'.moments, I t) ∧ s'.Yields y (x s)

namespace Computes

variable {α β : Type} {I : Scopes → Prop} {scopes : Scopes}

theorem pure (a : α) : Computes I (pure a) scopes (.ok a) :=
  fun s hs hI => ⟨s, hs, hI, .ok a⟩

theorem raise {e : SemanticError} (h : e.Tells scopes) :
    Computes I (StackM.raise e : StackM α) scopes (.error e) := by
  intro s hs hI
  subst hs
  exact ⟨s, rfl, hI, .error List.mem_cons_self h⟩

theorem lift {y : Except SemanticError α} (h : ∀ e, y = .error e → e.Tells scopes) :
    Computes I (StackM.lift y) scopes y := by
  cases y with
  | ok a => exact pure a
  | error e => exact raise (h e rfl)

theorem get {f : Stack → StackM β} {y : Except SemanticError β}
    (h : ∀ s : Stack, s.scopes = scopes → Computes I (f s) scopes y) :
    Computes I (MonadState.get >>= f) scopes y :=
  fun s hs hI => h s hs s hs hI

theorem bind {x : StackM α} {f : α → StackM β} {y : Except SemanticError α}
    {g : α → Except SemanticError β} (hx : Computes I x scopes y)
    (hf : ∀ a, y = .ok a → Computes I (f a) scopes (g a)) :
    Computes I (x >>= f) scopes (y >>= g) := by
  intro s hs hI
  obtain ⟨s₁, hs₁, hI₁, hout⟩ := hx s hs hI
  simp only [Bind.bind, EStateM.bind]
  generalize x s = res at hout
  cases hout with
  | ok a => exact hf a rfl s₁ hs₁ hI₁
  | error hmem htells => exact ⟨s₁, hs₁, hI₁, .error hmem htells⟩

theorem map {x : StackM α} {y : Except SemanticError α} (f : α → β) (hx : Computes I x scopes y) :
    Computes I (f <$> x) scopes (f <$> y) := by
  rw [map_eq_pure_bind, map_eq_pure_bind]
  exact hx.bind fun a _ => pure (f a)

theorem mapM {f : α → StackM β} {g : α → Except SemanticError β} {xs : List α}
    (h : ∀ x ∈ xs, Computes I (f x) scopes (g x)) :
    Computes I (xs.mapM f) scopes (xs.mapM g) := by
  induction xs with
  | nil => exact pure []
  | cons x xs ih =>
    obtain ⟨hx, hxs⟩ := List.forall_mem_cons.1 h
    rw [List.mapM_cons, List.mapM_cons]
    exact hx.bind fun y _ => (ih hxs).bind fun ys _ => pure (y :: ys)

/-- The frame is on the scopes in the body and off them behind it. -/
theorem within {x : StackM α} {y : Except SemanticError α} {f : Frame}
    (hI : I (scopes.push f)) (hx : Computes I x (scopes.push f) y) :
    Computes I (StackM.within f x) scopes y := by
  intro s hs hall
  subst hs
  obtain ⟨s', hs', hall', hout⟩ := hx (s.enter f) rfl (List.forall_mem_cons.2 ⟨hI, hall⟩)
  have hleave : s'.leave.scopes = s.scopes := by
    rw [Stack.leave, hs']
    rfl
  have hmoments : ∀ t ∈ s'.leave.moments, I t :=
    List.forall_mem_cons.2 ⟨hleave ▸ hall _ List.mem_cons_self, hall'⟩
  refine ⟨s'.leave, hleave, hmoments, ?_⟩
  unfold StackM.within
  generalize x (s.enter f) = res at hout
  cases hout with
  | ok a => exact .ok a
  | error hmem htells => exact .error (List.mem_cons_of_mem _ hmem) htells

end Computes

/-- Runs on a stack against results. -/
def Computes.lifting (I : Scopes → Prop) (scopes : Scopes) :
    Lifting StackM (Except SemanticError) where
  Rel T x y := ∃ z, Computes I x scopes z ∧ Agree T z y
  pure h := ⟨_, .pure _, .ok h⟩
  bind := by
    rintro _ _ _ _ _ _ _ _ f f' ⟨_, hx, hagree⟩ hf
    cases hagree with
    | error e => exact ⟨.error e, hx.bind (g := fun _ => .error e) nofun, .error e⟩
    | ok h =>
      obtain ⟨z, hz, hagree⟩ := hf _ _ h
      exact ⟨z, hx.bind (g := fun _ => z) fun _ heq => Except.ok.inj heq ▸ hz, hagree⟩

theorem Computes.of_rel {α : Type} {I : Scopes → Prop} {scopes : Scopes} {x : StackM α}
    {y : Except SemanticError α} (h : (Computes.lifting I scopes).Rel Eq x y) :
    Computes I x scopes y := by
  obtain ⟨_, hx, hagree⟩ := h
  rwa [← hagree.eq]

/-! ## Statements and expansions on a stack -/

namespace Compilation

variable {c : Compilation} {I : Scopes → Prop} {scopes : Scopes} {expand : Expander}
  {expandOn : StackExpander} {d : Definition} {s : Statement}

theorem simulates_on (I : Scopes → Prop) (scopes : Scopes) :
    StackM.collector.Simulates (Computes.lifting I scopes) Eq Emission.collector :=
  Collector.simulates_emitting (fun _ => ⟨_, .raise nofun, .error _⟩)
    fun _ => ⟨_, .pure (), .ok rfl⟩

/-- The expansions that a definition asks for run as they do without a stack. -/
def Runs (c : Compilation) (I : Scopes → Prop) (scopes : Scopes) (expand : Expander)
    (expandOn : StackExpander) (d : Definition) : Prop :=
  ∀ site args, .expand site args ∈ c.roles d →
    Computes I (expandOn site args d.id.name) scopes (expand site args d.id.name)

theorem Runs.serves (h : c.Runs I scopes expand expandOn d) :
    Collector.Serves (Computes.lifting I scopes) Eq c expandOn expand d :=
  fun site args hrole => ⟨_, h site args hrole, .refl _⟩

theorem computes_emitStatementOn (h : ∀ d ∈ s.compiled, c.Runs I scopes expand expandOn d) :
    Computes I (c.emitStatementOn expandOn s) scopes (c.emitStatement expand s) :=
  .of_rel ((simulates_on I scopes).statement fun d hd => (h d hd).serves)

theorem computes_template {t : Template} {r : Renaming} {inst : String}
    (h : ∀ s ∈ t.instantiate r inst, ∀ d ∈ s.compiled, c.Runs I scopes expand expandOn d) :
    Computes I (StackM.collector.template c expandOn t r inst) scopes
      (Emission.collector.template c expand t r inst) :=
  .of_rel ((simulates_on I scopes).template fun s hs d hd => (h s hs d hd).serves)

/-- The body of `t` has a definition with a decorator that instantiates the
template of this name. -/
def BodyNames (c : Compilation) (t : Template) (name : String) : Prop :=
  ∃ s ∈ t.body, ∃ d ∈ s.compiled, Mark.Names c.options d.chain name

/-- The templates on the scopes are distinct, registered, and each but the
outermost is instantiated in the body of the next one out. -/
structure Stacked (c : Compilation) (scopes : Scopes) : Prop where
  distinct : (scopes.map Frame.template).Nodup
  registered : ∀ f ∈ scopes, (c.registry.find? f.template).isSome = true
  linked : scopes.IsChain fun inner outer =>
    ∃ t, c.registry.find? outer.template = some t ∧ c.BodyNames t inner.template

/-- The innermost template asks for the expansion of the template of this name. -/
def Asks (c : Compilation) (scopes : Scopes) (name : String) : Prop :=
  ∀ f ∈ scopes.head?, ∃ t, c.registry.find? f.template = some t ∧ c.BodyNames t name

theorem Stacked.length_le (h : c.Stacked scopes) :
    scopes.length ≤ c.registry.templates.length := by
  have hsub : scopes.map Frame.template ⊆ c.registry.templates.map Template.name := by
    intro name hname
    obtain ⟨f, hf, rfl⟩ := List.mem_map.1 hname
    obtain ⟨t, ht, hname⟩ := Registry.isSome_find?_iff.1 (h.registered f hf)
    exact List.mem_map.2 ⟨t, ht, hname⟩
  simpa using (h.distinct.subperm hsub).length_le

theorem Stacked.push {t : Template} {inst : String} (h : c.Stacked scopes)
    (hfound : c.registry.find? t.name = some t) (hclosed : scopes.isExpanding t.name = false)
    (hasks : c.Asks scopes t.name) : c.Stacked (scopes.push ⟨t.name, inst⟩) where
  distinct := by
    refine List.nodup_cons.2 ⟨fun hmem => ?_, h.distinct⟩
    obtain ⟨f, hf, hname⟩ := List.mem_map.1 hmem
    have hopen : scopes.isExpanding t.name = true :=
      List.any_eq_true.2 ⟨f, hf, by simpa using hname⟩
    rw [hopen] at hclosed
    cases hclosed
  registered := List.forall_mem_cons.2 ⟨by rw [hfound]; rfl, h.registered⟩
  linked := by
    cases scopes with
    | nil => exact .singleton _
    | cons f scopes => exact .cons_cons (hasks f rfl) h.linked

/-- The definitions of a renamed body ask for what the body instantiates. -/
theorem asks_of_mem_instantiate {t : Template} {r : Renaming} {inst : String} {site : Identifier}
    {args : Option (List Identifier)} (hfound : c.registry.find? t.name = some t)
    (hs : s ∈ t.instantiate r inst) (hd : d ∈ s.compiled) (hrole : .expand site args ∈ c.roles d) :
    c.Asks (scopes.push ⟨t.name, inst⟩) site.name := by
  have hmem : d.chain ∈ Statement.chains t.body := by
    rw [← r.chains_body t.name inst]
    exact Statement.mem_chains_iff.2 ⟨s, hs, d, hd, rfl⟩
  obtain ⟨s', hs', d', hd', hchain⟩ := Statement.mem_chains_iff.1 hmem
  intro f hf
  obtain rfl : ⟨t.name, inst⟩ = f := Option.some.inj hf
  exact ⟨t, hfound, s', hs', d', hd', by rw [hchain]; exact names_of_mem_roles hrole⟩

theorem tells_of_bindArguments {t : Template} {site : Identifier} {args : Option (List Identifier)}
    {e : SemanticError} (h : t.bindArguments site args = .error e) : e.Tells scopes := by
  intro name chain htold
  subst htold
  unfold Template.bindArguments at h
  split at h
  · cases h
  · split at h <;> cases h

/-- With a bound above the number of templates that are not on the scopes, an
expansion on the stack runs as without it. -/
theorem computes_expandOn {depth : Nat} {site : Identifier} {args : Option (List Identifier)}
    {inst : String} (hdepth : scopes.remaining c.registry < depth) (hstacked : c.Stacked scopes)
    (hasks : c.Asks scopes site.name) :
    Computes c.Stacked (c.expandOn depth site args inst) scopes (c.expand scopes site args inst) := by
  induction depth generalizing scopes site args inst with
  | zero => omega
  | succ depth ih =>
    rw [Compilation.expandOn]
    cases hfound : c.registry.find? site.name with
    | none =>
      rw [expand_of_undeclared hfound]
      refine .raise ?_
      intro name chain htold
      cases htold
    | some t =>
      have hname : t.name = site.name := Registry.name_of_find? hfound
      refine .get fun stack hstack => ?_
      rw [hstack]
      cases hs : scopes.isExpanding t.name with
      | true =>
        rw [expand_of_isExpanding hfound hs]
        refine .raise ?_
        intro name chain htold
        cases htold
        obtain ⟨f, hf, hft⟩ := List.any_eq_true.1 hs
        exact ⟨⟨f, hf, by simpa using hft⟩, rfl⟩
      | false =>
        rw [Compilation.expand, Collector.expand_of_closed hfound hs]
        have hpush : c.Stacked (scopes.push ⟨t.name, inst⟩) :=
          hstacked.push (hname ▸ hfound) hs (hname ▸ hasks)
        refine (Computes.lift fun _ => tells_of_bindArguments).bind fun r _ =>
          .within hpush (computes_template ?_)
        intro s hmem d hd site' args' hrole
        have hless : (scopes.push ⟨t.name, inst⟩).remaining c.registry < depth := by
          have := Scopes.remaining_push_lt (Registry.mem_of_find? hfound) hs inst
          omega
        exact ih hless hpush (asks_of_mem_instantiate (hname ▸ hfound) hmem hd hrole)

theorem remaining_nil (r : Registry) : Scopes.remaining [] r = r.templates.length := by
  simp [Scopes.remaining, Scopes.isExpanding]

/-- Statements outside templates leave the stack empty behind each of them. -/
theorem computes_statements (c : Compilation) (ss : List Statement) {depth : Nat}
    (hdepth : c.registry.templates.length < depth) :
    Computes c.Stacked (ss.mapM (c.emitStatementOn (c.expandOn depth))) []
      (ss.mapM (c.emitStatement (c.expand []))) := by
  refine .mapM fun s _ => computes_emitStatementOn fun d _ site args _ => ?_
  refine computes_expandOn (by rwa [remaining_nil]) ⟨.nil, nofun, .nil⟩ nofun

end Compilation

namespace Program

variable {options : Options} {p : Program}

theorem computes_emissionsOn {depth : Nat}
    (hdepth : (Statement.declarationsIn p.statements).length < depth) :
    Computes (p.compilation options).Stacked (p.emissionsOn depth options) []
      (p.emissions options) := by
  have hregister : ∀ e, Registry.ofStatements p.statements = .error e → e.Tells [] := by
    intro e he
    obtain ⟨site, rfl⟩ := Registry.exists_duplicate he
    nofun
  refine (Computes.lift hregister).bind fun registry hregistry => ?_
  obtain ⟨rfl, _⟩ := Registry.ofStatements_eq_ok_iff.1 hregistry
  exact .map _ (Compilation.computes_statements (p.compilation options) p.statements hdepth)

/-- On a stack, with a bound one above the number of templates, a program has the
same result. Every stack in the run is `Stacked`, so none has more frames than
there are templates; a recursion tells of the frames of its stack; and behind each
statement the stack is empty again. -/
theorem emissionsOn_eq (options : Options) (p : Program) :
    let depth := (Statement.declarationsIn p.statements).length
    let c := p.compilation options
    ∃ s : Stack, s.Yields (p.emissions options) (p.emissionsOn (depth + 1) options {}) ∧
      (∀ scopes ∈ s.moments, c.Stacked scopes ∧ scopes.length ≤ depth) ∧
      ∀ ss, ss <+: p.statements → ∀ ess s',
        ss.mapM (c.emitStatementOn (c.expandOn (depth + 1))) {} = .ok ess s' → s'.scopes = [] := by
  intro depth c
  have hempty : ∀ scopes ∈ Stack.moments {}, c.Stacked scopes := by
    intro scopes hmem
    obtain rfl := List.mem_singleton.1 hmem
    exact ⟨.nil, nofun, .nil⟩
  have hcomputes : Computes c.Stacked (p.emissionsOn (depth + 1) options) [] (p.emissions options) :=
    computes_emissionsOn (Nat.lt_succ_self depth)
  obtain ⟨s, _, hstacked, hout⟩ := hcomputes {} rfl hempty
  refine ⟨s, hout, fun scopes hmem => ⟨hstacked scopes hmem, (hstacked scopes hmem).length_le⟩, ?_⟩
  intro ss _ ess s' hrun
  obtain ⟨s₁, hs₁, _, hout⟩ :=
    Compilation.computes_statements c ss (Nat.lt_succ_self depth) {} rfl hempty
  rw [hrun] at hout
  generalize ss.mapM (c.emitStatement (c.expand [])) = y at hout
  cases hout
  exact hs₁

end Program

end InterfaceSchema
