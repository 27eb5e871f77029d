import InterfaceSchema.Proofs.Reading.Scanning
import InterfaceSchema.Proofs.Reading.Statements

/-!
# What rules take

`Rule.Takes` says what a rule has taken from the front of scanned tokens whenever
it gives a value, and how the value spells it. No rule leaves out a token or
invents one: an expression, a definition and a statement of one line are well
formed, and what was taken for them are their lexemes
(`Reader.takes_simpleStatement`).
-/

namespace InterfaceSchema

/-- The lexemes can come from a text. -/
def Scanned (ls : List Lexeme) : Prop := ∀ l ∈ ls, l.isScanned = true

theorem Scanned.right {ls ms : List Lexeme} (h : Scanned (ls ++ ms)) : Scanned ms :=
  fun l hl => h l (List.mem_append_right _ hl)

/-- Whenever the rule gives a value, it has taken lexemes with `P`. -/
def Rule.Takes {α : Type} (r : Rule α) (P : α → List Lexeme → Prop) : Prop :=
  ∀ ⦃ts a rest⦄, r ts = .ok a rest → Scanned (ts.map Token.lexeme) →
    ∃ ls, ts.map Token.lexeme = ls ++ rest.map Token.lexeme ∧ P a ls

namespace Rule

variable {α β σ : Type} {P : α → List Lexeme → Prop} {Q : β → List Lexeme → Prop}

namespace Takes

theorem bind {r : Rule α} {f : α → Rule β} (hr : r.Takes P)
    (hf : ∀ a ms, P a ms → (f a).Takes fun b ls => Q b (ms ++ ls)) : (r >>= f).Takes Q := by
  intro ts b rest h hts
  obtain ⟨a, mid, ha, hb⟩ := bind_eq_ok h
  obtain ⟨ms, hms, hP⟩ := hr ha hts
  obtain ⟨ls, hls, hQ⟩ := hf a ms hP hb (Scanned.right (hms ▸ hts))
  exact ⟨ms ++ ls, by rw [hms, hls, List.append_assoc], hQ⟩

theorem pure {a : α} (h : P a []) : (pure a : Rule α).Takes P := by
  intro ts b rest h' _
  cases h'
  exact ⟨[], rfl, h⟩

theorem throw (e : SyntaxError) : (throw e : Rule α).Takes P := by
  intro ts b rest h
  cases h

theorem imp {P' : α → List Lexeme → Prop} {r : Rule α} (h : r.Takes P)
    (hP : ∀ a ls, P a ls → P' a ls) : r.Takes P' := by
  intro ts a rest ha hts
  obtain ⟨ls, hls, hPa⟩ := h ha hts
  exact ⟨ls, hls, hP a ls hPa⟩

theorem map {r : Rule α} {f : α → β} (h : r.Takes fun a ls => Q (f a) ls) : (f <$> r).Takes Q := by
  rw [map_eq_pure_bind]
  exact h.bind fun a ms ha => pure (by rwa [List.append_nil])

theorem get : (get : Rule (List Token)).Takes fun _ ls => ls = [] := by
  intro ts a rest h _
  cases h
  exact ⟨[], rfl, rfl⟩

/-- What a loop has taken is what its steps have taken, one after the other. -/
theorem iterate {step : σ → Rule (σ ⊕ α)} (shrinks : ∀ {s ts s' rest},
      step s ts = .ok (.inl s') rest → rest.length < ts.length) {I : σ → List Lexeme → Prop}
    (hstep : ∀ s ms, I s ms → (step s).Takes fun x ls =>
      Sum.elim (fun s' => I s' (ms ++ ls)) (fun a => P a (ms ++ ls)) x)
    {s : σ} (h : I s []) : Rule.Takes (Rule.iterate step shrinks s) P := by
  have loop {s : σ} {ms : List Lexeme} (h : I s ms) :
      Rule.Takes (Rule.iterate step shrinks s) fun a ls => P a (ms ++ ls) := by
    intro ts a rest ha hts
    fun_induction Rule.iterate step shrinks s ts generalizing ms
    case case1 hs ih =>
      obtain ⟨ls, hls, hI⟩ := hstep _ ms h hs hts
      obtain ⟨ks, hks, hP⟩ := ih hI ha (Scanned.right (hls ▸ hts))
      refine ⟨ls ++ ks, by rw [hls, hks, List.append_assoc], ?_⟩
      show P a (ms ++ (ls ++ ks))
      rwa [← List.append_assoc]
    case case2 hs =>
      cases ha
      exact hstep _ ms h hs hts
    case case3 => cases ha
  exact loop h

end Takes

end Rule

namespace Reader

open Rule

/-! ## The grammar -/

theorem takes_fail {α : Type} {P : α → List Lexeme → Prop} (expected : String) :
    (fail expected : Rule α).Takes P := by
  intro ts a rest h
  cases h

theorem takes_nextIs (l : Lexeme) : (nextIs l).Takes fun _ ls => ls = [] := by
  intro ts a rest h _
  cases h
  exact ⟨[], rfl, rfl⟩

theorem takes_accept (l : Lexeme) : (accept l).Takes fun b ls => ls = if b then [l] else [] := by
  intro ts a rest h _
  cases ts with
  | nil =>
    cases h
    exact ⟨[], rfl, rfl⟩
  | cons t ts =>
    simp only [accept] at h
    split at h
    · rename_i ht
      cases h
      exact ⟨[l], by rw [List.map_cons, ht]; rfl, rfl⟩
    · cases h
      exact ⟨[], rfl, rfl⟩

theorem takes_exactly (l : Lexeme) : (exactly l).Takes fun _ ls => ls = [l] := by
  intro ts a rest h _
  cases ts with
  | nil => cases h
  | cons t ts =>
    simp only [exactly, fail] at h
    split at h
    · rename_i ht
      cases h
      exact ⟨[l], by rw [List.map_cons, ht]; rfl, rfl⟩
    · cases h

theorem takes_identifier :
    identifier.Takes fun id ls => ls = [id.lexeme] ∧ id.isWellFormed = true := by
  intro ts id rest h hts
  unfold identifier at h
  split at h
  · rename_i name span rest
    cases h
    exact ⟨[.word name], rfl, rfl, hts (.word name) List.mem_cons_self⟩
  · cases h

theorem takes_skipLineEnds :
    skipLineEnds.Takes fun _ ls => ∃ count, ls = List.replicate count .lineEnd := by
  intro ts a rest h hts
  cases h
  induction ts with
  | nil => exact ⟨[], rfl, 0, rfl⟩
  | cons t ts ih =>
    by_cases ht : t.lexeme = .lineEnd
    · obtain ⟨_, hls, count, rfl⟩ := ih fun l hl => hts l (List.mem_cons_of_mem _ hl)
      rw [List.dropWhile_cons_of_pos (by rw [ht]; rfl), List.map_cons, hls, ht]
      exact ⟨_, rfl, count + 1, rfl⟩
    · rw [List.dropWhile_cons_of_neg (by simpa using ht)]
      exact ⟨[], rfl, 0, rfl⟩

theorem operator?_eq_some_iff {l : Lexeme} {op : Operator} :
    operator? l = some op ↔ l = op.lexeme := by
  cases l <;> cases op <;> simp [operator?, Operator.lexeme]

theorem takes_exprTail {left : Expr} (hleft : left.isWellFormed = true) :
    Rule.Takes (exprTail left) fun e ls => left.lexemes ++ ls = e.lexemes ∧ e.isWellFormed = true := by
  intro ts e rest h hts
  fun_induction exprTail left ts
  case case1 left =>
    cases h
    exact ⟨[], rfl, List.append_nil _, hleft⟩
  case case2 left t rest' _ =>
    cases h
    exact ⟨[], rfl, List.append_nil _, hleft⟩
  case case3 left t op hop name span rest' ih =>
    have hname : (⟨name, span⟩ : Identifier).isWellFormed = true :=
      hts (.word name) (List.mem_cons_of_mem _ List.mem_cons_self)
    obtain ⟨ls, hls, he, hwf⟩ := ih (by rw [Expr.isWellFormed, hleft, hname]; rfl) h
      fun l hl => hts l (List.mem_cons_of_mem _ (List.mem_cons_of_mem _ hl))
    refine ⟨op.lexeme :: .word name :: ls, ?_, ?_, hwf⟩
    · rw [List.map_cons, List.map_cons, hls, operator?_eq_some_iff.1 hop]
      rfl
    · rw [← he, Expr.lexemes, List.append_assoc]
      rfl
  case case4 => cases h

theorem takes_expr : expr.Takes fun e ls => ls = e.lexemes ∧ e.isWellFormed = true := by
  refine takes_identifier.bind ?_
  rintro id _ ⟨rfl, hid⟩
  exact takes_exprTail (show (Expr.name id).isWellFormed = true from hid)

theorem takes_argumentsTail (args : List Identifier) :
    Rule.Takes (argumentsTail args) fun as ls => ∃ more, as = args ++ more ∧
      ls = (more.flatMap fun id => [.comma, id.lexeme]) ++ [.closeParen] ∧
      more.all Identifier.isWellFormed = true := by
  intro ts as rest h hts
  fun_induction argumentsTail args ts
  case case1 args span name span' rest' ih =>
    have hname : (⟨name, span'⟩ : Identifier).isWellFormed = true :=
      hts (.word name) (List.mem_cons_of_mem _ List.mem_cons_self)
    obtain ⟨_, hls, more, rfl, rfl, hmore⟩ := ih h
      fun l hl => hts l (List.mem_cons_of_mem _ (List.mem_cons_of_mem _ hl))
    refine ⟨_, ?_, ⟨name, span'⟩ :: more, by rw [List.append_assoc]; rfl, rfl, ?_⟩
    · rw [List.map_cons, List.map_cons, hls]
      rfl
    · rw [List.all_cons, hname, hmore]
      rfl
  case case2 => cases h
  case case3 =>
    cases h
    exact ⟨[.closeParen], rfl, [], (List.append_nil _).symm, rfl, rfl⟩
  case case4 => cases h

theorem takes_arguments : arguments.Takes fun ids ls =>
    ls = Identifier.listLexemes ids ∧ Identifier.areWellFormed ids = true := by
  refine Takes.get.bind ?_
  rintro opening _ rfl
  refine (takes_exactly _).bind ?_
  rintro _ _ rfl
  refine (takes_nextIs _).bind ?_
  rintro empty _ rfl
  split
  · exact Takes.throw _
  · refine takes_identifier.bind ?_
    rintro first _ ⟨rfl, hfirst⟩
    refine (takes_argumentsTail [first]).imp ?_
    rintro _ _ ⟨more, rfl, rfl, hmore⟩
    refine ⟨?_, ?_⟩
    · show _ = Identifier.listLexemes (first :: more)
      rw [Identifier.listLexemes, intersperse_comma]
      rfl
    · simpa [Identifier.areWellFormed, hfirst] using hmore

theorem takes_definitionPart : definitionPart.Takes fun x ls => Sum.elim
    (fun d => ls = d.lexemes ∧ d.isWellFormed = true)
    (fun id => ls = [id.lexeme] ∧ id.isWellFormed = true) x := by
  refine takes_identifier.bind ?_
  rintro id _ ⟨rfl, hid⟩
  refine (takes_nextIs _).bind ?_
  rintro called _ rfl
  split
  · refine takes_arguments.bind ?_
    rintro args _ ⟨rfl, hargs⟩
    refine (takes_exactly _).bind ?_
    rintro _ _ rfl
    refine Takes.pure ⟨?_, ?_⟩
    · simp [Decorator.lexemes]
    · rw [Decorator.isWellFormed, hid, hargs]
      rfl
  · refine (takes_accept _).bind ?_
    rintro tagged _ rfl
    cases tagged
    · exact Takes.pure ⟨by simp, hid⟩
    · exact Takes.pure ⟨by simp [Decorator.lexemes], hid⟩

theorem definitionPart_of_opensDefinition {ts rest : List Token} {x : Decorator ⊕ Identifier}
    (hopens : opensDefinition ts = true) (h : definitionPart ts = .ok x rest) :
    ∃ d, x = .inl d := by
  unfold opensDefinition at hopens
  split at hopens
  · rename_i name span t rest'
    obtain ⟨id, mid, hid, h⟩ := bind_eq_ok h
    cases hid
    obtain ⟨called, mid, hcalled, h⟩ := bind_eq_ok h
    cases hcalled
    split at h
    · obtain ⟨args, mid, _, h⟩ := bind_eq_ok h
      obtain ⟨_, mid', _, h⟩ := bind_eq_ok h
      cases h
      exact ⟨_, rfl⟩
    · rename_i hparen
      obtain ⟨tagged, mid, htagged, h⟩ := bind_eq_ok h
      have hcolon : t.lexeme = .colon := by
        simp only [Bool.or_eq_true, beq_iff_eq] at hopens
        exact hopens.resolve_right fun hopen => hparen (by simp [next, hopen])
      simp only [accept, hcolon, if_true] at htagged
      cases htagged
      cases h
      exact ⟨_, rfl⟩
  · cases hopens

theorem takes_definition : definition.Takes fun d ls => ls = d.lexemes ∧
    d.decorators.all Decorator.isWellFormed = true ∧ d.id.isWellFormed = true := by
  refine Takes.iterate (fun hs => shrinks_definitionStep _ hs)
    (I := fun (ds : List Decorator) ms => ms = ds.flatMap Decorator.lexemes ∧
      ds.all Decorator.isWellFormed = true) ?_ ⟨rfl, rfl⟩
  rintro ds _ ⟨rfl, hds⟩
  refine takes_definitionPart.bind ?_
  rintro (d | id) ls ⟨rfl, hwf⟩
  · refine Takes.pure ⟨?_, ?_⟩
    · simp
    · rw [List.all_append, hds, List.all_cons, hwf]
      rfl
  · exact Takes.pure ⟨by simp [Definition.lexemes], hds, hwf⟩

/-- The decorators of a definition that begins with one are not empty. -/
theorem decorators_ne_nil_of_opensDefinition {ts rest : List Token} {d : Definition}
    (hopens : opensDefinition ts = true) (h : definition ts = .ok d rest) : d.decorators ≠ [] := by
  have loop {ds : List Decorator} (hds : ds ≠ []) {ts : List Token} (h : Rule.iterate definitionStep
      (fun hs => shrinks_definitionStep _ hs) ds ts = .ok d rest) : d.decorators ≠ [] := by
    fun_induction Rule.iterate definitionStep (fun hs => shrinks_definitionStep _ hs) ds ts
    case case1 hs ih =>
      obtain ⟨x, mid, _, hx⟩ := bind_eq_ok hs
      cases x <;> cases hx
      exact ih (by simp) h
    case case2 hs =>
      obtain ⟨x, mid, _, hx⟩ := bind_eq_ok hs
      cases x <;> cases hx
      cases h
      exact hds
    case case3 => cases h
  unfold definition at h
  rw [Rule.iterate] at h
  split at h
  · rename_i hs
    obtain ⟨x, mid, hx, hds⟩ := bind_eq_ok hs
    cases x <;> cases hds
    exact loop (by simp) h
  · rename_i hs
    obtain ⟨x, mid, hx, hd⟩ := bind_eq_ok hs
    obtain ⟨e, rfl⟩ := definitionPart_of_opensDefinition hopens hx
    cases hd
  · cases h

theorem takes_operand : operand.Takes fun o ls => ls = o.lexemes ∧ o.isWellFormed = true := by
  intro ts o rest h hts
  unfold operand at h
  split at h
  · rename_i hopens
    rw [map_eq_pure_bind] at h
    obtain ⟨d, mid, hd, h⟩ := bind_eq_ok h
    cases h
    obtain ⟨_, hls, rfl, hds, hid⟩ := takes_definition hd hts
    refine ⟨_, hls, rfl, ?_⟩
    have hne := decorators_ne_nil_of_opensDefinition hopens hd
    rw [Operand.isWellFormed, Definition.isWellFormed, hds, hid]
    simpa using hne
  · rw [map_eq_pure_bind] at h
    obtain ⟨e, mid, he, h⟩ := bind_eq_ok h
    cases h
    exact takes_expr he hts

theorem takes_relationKeyword :
    relationKeyword.Takes fun kind ls => ls = (kind.map RelationKind.lexemes).getD [] := by
  intro ts kind rest h _
  unfold relationKeyword at h
  split at h
  · cases h
    exact ⟨[], rfl, rfl⟩
  · rename_i t us
    split at h
    · rename_i ht
      split at h
      · rename_i u v vs
        split at h
        · rename_i hmany
          cases h
          exact ⟨_, by simp [ht, hmany.1, RelationKind.lexemes], rfl⟩
        · cases h
          exact ⟨_, by simp [ht, RelationKind.lexemes], rfl⟩
      · cases h
        exact ⟨_, by simp [ht, RelationKind.lexemes], rfl⟩
    · split at h
      · rename_i ht
        cases h
        exact ⟨_, by simp [ht, RelationKind.lexemes], rfl⟩
      · split at h
        · rename_i ht
          cases h
          exact ⟨_, by simp [ht, RelationKind.lexemes], rfl⟩
        · cases h
          exact ⟨[], rfl, rfl⟩

theorem takes_withExpr : withExpr.Takes fun w ls => ls = w.lexemes ∧ w.isWellFormed = true := by
  refine takes_expr.bind ?_
  rintro left _ ⟨rfl, hleft⟩
  refine (takes_accept _).bind ?_
  rintro more _ rfl
  split
  · refine takes_expr.bind ?_
    rintro right _ ⟨rfl, hright⟩
    refine Takes.pure ⟨by simp_all [WithExpr.lexemes, Lexeme.introduced], ?_⟩
    simp [WithExpr.isWellFormed, hleft, hright]
  · refine Takes.pure ⟨by simp_all [WithExpr.lexemes, Lexeme.introduced], ?_⟩
    simp [WithExpr.isWellFormed, hleft]

/-- What was taken for a statement that is no template are its lexemes. -/
theorem takes_simpleStatement : simpleStatement.Takes fun s ls =>
    ls = s.lexemes ∧ s.isWellFormed = true ∧ s.template? = none := by
  refine takes_operand.bind ?_
  rintro left _ ⟨rfl, hleft⟩
  refine takes_relationKeyword.bind ?_
  rintro (_ | kind) _ rfl
  · refine (takes_accept _).bind ?_
    rintro covers _ rfl
    split
    · refine takes_expr.bind ?_
      rintro middle _ ⟨rfl, hmiddle⟩
      refine (takes_exactly _).bind ?_
      rintro _ _ rfl
      refine takes_expr.bind ?_
      rintro right _ ⟨rfl, hright⟩
      refine Takes.pure ⟨by simp_all [Statement.lexemes], ?_, rfl⟩
      simp [Statement.isWellFormed, hleft, hmiddle, hright]
    · refine (takes_accept _).bind ?_
      rintro represents _ rfl
      split
      · refine takes_withExpr.bind ?_
        rintro data _ ⟨rfl, hdata⟩
        refine (takes_accept _).bind ?_
        rintro shaped _ rfl
        split
        · refine takes_withExpr.bind ?_
          rintro shape _ ⟨rfl, hshape⟩
          refine Takes.pure ⟨by simp_all [Statement.lexemes, Lexeme.introduced], ?_, rfl⟩
          simp [Statement.isWellFormed, hleft, hdata, hshape]
        · refine Takes.pure ⟨by simp_all [Statement.lexemes, Lexeme.introduced], ?_, rfl⟩
          simp [Statement.isWellFormed, hleft, hdata]
      · cases left with
        | definition d => exact Takes.pure ⟨by simp_all [alone, Statement.lexemes, Operand.lexemes], hleft, rfl⟩
        | expr e => exact Takes.pure ⟨by simp_all [alone, Statement.lexemes, Operand.lexemes], hleft, rfl⟩
  · refine takes_expr.bind ?_
    rintro right _ ⟨rfl, hright⟩
    refine Takes.pure ⟨by simp [Statement.lexemes], ?_, rfl⟩
    simp [Statement.isWellFormed, hleft, hright]

end Reader

end InterfaceSchema
