import InterfaceSchema.Proofs.Places
import InterfaceSchema.Schema.Reader

/-!
# Places and depths in reading

A reader looks at what tokens say, and of indentation only at whether it is there.
`Token.leveled f` is the token with its place changed by `f` and, if it is
indentation, with one step of it. `Rule.Follows` says that a rule makes of such
tokens what another one makes of the tokens as they are, with these places. So does
each rule of the grammar, and the schema that leveled tokens spell is the same one
in other places (`Program.ofTokens_leveled`).
-/

namespace InterfaceSchema

/-- The lexeme with one step of indentation, if it is any. -/
def Lexeme.leveled : Lexeme → Lexeme
  | indent _ => indent 1
  | l => l

namespace Lexeme

variable {k l : Lexeme}

theorem leveled_eq_iff (h : l.isIndent = false) : k.leveled = l ↔ k = l := by
  cases k with
  | indent depth =>
    constructor
    all_goals
      rintro rfl
      cases h
  | _ => exact Iff.rfl

theorem leveled_beq (h : l.isIndent = false) : (k.leveled == l) = (k == l) := by
  rw [Bool.eq_iff_iff, beq_iff_eq, beq_iff_eq, leveled_eq_iff h]

theorem describe_leveled (l : Lexeme) : l.leveled.describe = l.describe := by
  cases l <;> rfl

theorem isIndent_leveled (l : Lexeme) : l.leveled.isIndent = l.isIndent := by
  cases l <;> rfl

theorem endsLine_leveled (l : Lexeme) : l.leveled.endsLine = l.endsLine := by
  cases l <;> rfl

end Lexeme

def Token.leveled (f : Span → Span) (t : Token) : Token := ⟨t.lexeme.leveled, f t.span⟩

namespace Rule

variable {α β γ δ σ τ : Type} (f : Span → Span)

/-- What a rule makes of tokens, in other places. -/
def moved (m : α → β) : EStateM.Result SyntaxError (List Token) α →
    EStateM.Result SyntaxError (List Token) β
  | .ok a rest => .ok (m a) (rest.map (Token.leveled f))
  | .error e rest => .error (e.mapSpan f) (rest.map (Token.leveled f))

/-- Of tokens in other places `r'` makes what `r` makes of the tokens, changed by
`m`. -/
def Follows (m : α → β) (r : Rule α) (r' : Rule β) : Prop :=
  ∀ ts, r' (ts.map (Token.leveled f)) = moved f m (r ts)

namespace Follows

variable {f} {m : α → β} {n : γ → δ} {r : Rule α} {r' : Rule β}

theorem pure {a : α} {b : β} (h : m a = b) : Follows f m (pure a) (pure b) := by
  subst h
  exact fun _ => rfl

theorem throw {e e' : SyntaxError} (h : e.mapSpan f = e') :
    Follows f m (throw e) (throw e') := by
  subst h
  exact fun _ => rfl

theorem get : Follows f (List.map (Token.leveled f)) get get := fun _ => rfl

theorem bind {k : α → Rule γ} {k' : β → Rule δ} (h : Follows f m r r')
    (hk : ∀ a, Follows f n (k a) (k' (m a))) : Follows f n (r >>= k) (r' >>= k') := by
  intro ts
  simp only [Bind.bind, EStateM.bind, h ts]
  cases r ts with
  | ok a rest => exact hk a rest
  | error e rest => rfl

theorem map {g : α → γ} {g' : β → δ} (h : Follows f m r r') (hg : ∀ a, n (g a) = g' (m a)) :
    Follows f n (g <$> r) (g' <$> r') := by
  rw [map_eq_pure_bind, map_eq_pure_bind]
  exact h.bind fun a => pure (hg a)

theorem ite {c : Bool} {s : Rule α} {s' : Rule β} (hr : Follows f m r r') (hs : Follows f m s s') :
    Follows f m (if c = true then r else s) (if c = true then r' else s') := by
  cases c with
  | true => exact hr
  | false => exact hs

theorem iterate {step : σ → Rule (σ ⊕ α)} {step' : τ → Rule (τ ⊕ β)} {g : σ → τ}
    (shrinks : ∀ {s ts s' rest}, step s ts = .ok (.inl s') rest → rest.length < ts.length)
    (shrinks' : ∀ {s ts s' rest}, step' s ts = .ok (.inl s') rest → rest.length < ts.length)
    (h : ∀ s, Follows f (Sum.map g m) (step s) (step' (g s))) (s : σ) :
    Follows f m (Rule.iterate step shrinks s) (Rule.iterate step' shrinks' (g s)) := by
  intro ts
  fun_induction Rule.iterate step shrinks s ts with
  | case1 s ts s' rest hs ih =>
    have hstep := h s ts
    rw [hs] at hstep
    exact (iterate_of_inl @shrinks' hstep).trans ih
  | case2 s ts a rest hs =>
    have hstep := h s ts
    rw [hs] at hstep
    exact iterate_of_inr @shrinks' hstep
  | case3 s ts e rest hs =>
    have hstep := h s ts
    rw [hs] at hstep
    exact iterate_of_error @shrinks' hstep

end Follows

end Rule

namespace Reader

open Rule

variable {f : Span → Span} {l : Lexeme}

/-! ## Rules of one line -/

theorem next_leveled (hf : f {} = {}) (ts : List Token) :
    next (ts.map (Token.leveled f)) = (next ts).leveled f := by
  cases ts with
  | nil => exact congrArg (Token.mk .endOfText) hf.symm
  | cons t ts => rfl

theorem at_leveled (t : Token) (expected : String) :
    SyntaxError.at (t.leveled f) expected = (SyntaxError.at t expected).mapSpan f := by
  simp only [SyntaxError.at, Token.leveled, Lexeme.leveled_eq_iff (l := .endOfText) rfl,
    Lexeme.describe_leveled]
  split <;> rfl

section

variable (hf : f {} = {})

include hf

theorem follows_fail {α β : Type} (m : α → β) (expected : String) :
    Follows f m (fail expected) (fail expected) := by
  intro ts
  rw [fail, next_leveled hf, at_leveled]
  rfl

theorem follows_nextIs (h : l.isIndent = false) : Follows f id (nextIs l) (nextIs l) := by
  intro ts
  rw [nextIs, next_leveled hf, Token.leveled, Lexeme.leveled_beq h]
  rfl

omit hf in
theorem follows_accept (h : l.isIndent = false) : Follows f id (accept l) (accept l) := by
  intro ts
  cases ts with
  | nil => rfl
  | cons t ts =>
    rw [List.map_cons, accept, accept]
    simp only [Token.leveled, Lexeme.leveled_eq_iff h]
    split <;> rfl

theorem follows_exactly (h : l.isIndent = false) : Follows f id (exactly l) (exactly l) := by
  intro ts
  cases ts with
  | nil => exact follows_fail hf id l.describe []
  | cons t ts =>
    have hlexeme : (t.leveled f).lexeme = l ↔ t.lexeme = l := Lexeme.leveled_eq_iff h
    rw [List.map_cons, exactly, exactly]
    by_cases ht : t.lexeme = l
    · rw [if_pos ht, if_pos (hlexeme.2 ht)]
      rfl
    · rw [if_neg ht, if_neg (mt hlexeme.1 ht)]
      exact follows_fail hf id l.describe (t :: ts)

omit hf in
theorem follows_skip : Follows f id skip skip := by
  intro ts
  cases ts <;> rfl

theorem follows_identifier : Follows f (Identifier.mapSpan f) identifier identifier := by
  intro ts
  cases ts with
  | nil => exact follows_fail hf _ "identifier" []
  | cons t ts =>
    obtain ⟨l, span⟩ := t
    cases l with
    | word name => rfl
    | _ => exact follows_fail hf _ "identifier" (⟨_, span⟩ :: ts)

omit hf in
theorem follows_acceptIndent : Follows f id acceptIndent acceptIndent := by
  intro ts
  cases ts with
  | nil => rfl
  | cons t ts =>
    obtain ⟨l, span⟩ := t
    cases l <;> rfl

theorem follows_lineEnd : Follows f id lineEnd lineEnd := by
  intro ts
  cases ts with
  | nil => rfl
  | cons t ts =>
    obtain ⟨l, span⟩ := t
    cases l with
    | lineEnd => rfl
    | endOfText => rfl
    | _ => exact follows_fail hf _ "end of line" (⟨_, span⟩ :: ts)

omit hf in
theorem follows_skipLineEnds : Follows f id skipLineEnds skipLineEnds := by
  intro ts
  rw [skipLineEnds, List.dropWhile_map]
  have hdrop : ((·.lexeme == .lineEnd) ∘ Token.leveled f) = (·.lexeme == .lineEnd) :=
    funext fun t => Lexeme.leveled_beq rfl
  rw [hdrop]
  rfl

omit hf in
theorem operator?_leveled (l : Lexeme) : operator? l.leveled = operator? l := by
  cases l <;> rfl

theorem follows_exprTail (left : Expr) :
    Follows f (Expr.mapSpan f) (exprTail left) (exprTail (left.mapSpan f)) := by
  intro ts
  fun_induction exprTail left ts with
  | case1 left => rfl
  | case2 left t rest hop =>
    have hop' : operator? (t.leveled f).lexeme = none := (operator?_leveled t.lexeme).trans hop
    rw [List.map_cons, exprTail, hop']
    rfl
  | case3 left t op hop name span rest ih =>
    have hop' : operator? (t.leveled f).lexeme = some op := (operator?_leveled t.lexeme).trans hop
    rw [List.map_cons, exprTail, hop']
    exact ih
  | case4 left t op hop rest hrest =>
    have hop' : operator? (t.leveled f).lexeme = some op := (operator?_leveled t.lexeme).trans hop
    rw [List.map_cons, exprTail, hop']
    cases rest with
    | nil => exact follows_fail hf _ "identifier" []
    | cons u rest =>
      obtain ⟨l, span⟩ := u
      cases l with
      | word name => exact (hrest name span rest rfl).elim
      | _ => exact follows_fail hf _ "identifier" (⟨_, span⟩ :: rest)

theorem follows_expr : Follows f (Expr.mapSpan f) expr expr :=
  (follows_identifier hf).bind fun id => follows_exprTail hf (.name id)

theorem follows_argumentsTail (args : List Identifier) :
    Follows f (List.map (Identifier.mapSpan f)) (argumentsTail args)
      (argumentsTail (args.map (Identifier.mapSpan f))) := by
  intro ts
  fun_induction argumentsTail args ts with
  | case1 args span name span' rest ih =>
    rw [List.map_append] at ih
    exact ih
  | case2 args span rest hrest =>
    cases rest with
    | nil => exact follows_fail hf _ "identifier" []
    | cons u rest =>
      obtain ⟨l, span⟩ := u
      cases l with
      | word name => exact (hrest name span rest rfl).elim
      | _ => exact follows_fail hf _ "identifier" (⟨_, span⟩ :: rest)
  | case3 args span rest => rfl
  | case4 args ts hword hcomma hparen =>
    cases ts with
    | nil => exact follows_fail hf _ Lexeme.closeParen.describe []
    | cons t rest =>
      obtain ⟨l, span⟩ := t
      cases l with
      | comma => exact (hcomma span rest rfl).elim
      | closeParen => exact (hparen span rest rfl).elim
      | _ => exact follows_fail hf _ Lexeme.closeParen.describe (⟨_, span⟩ :: rest)

theorem follows_arguments : Follows f (List.map (Identifier.mapSpan f)) arguments arguments := by
  refine Follows.get.bind fun opening => (follows_exactly hf rfl).bind fun _ =>
    (follows_nextIs hf rfl).bind fun _ => .ite ?_ ?_
  · refine Follows.throw ?_
    rw [next_leveled hf]
    rfl
  · exact (follows_identifier hf).bind fun first => follows_argumentsTail hf [first]

theorem follows_definitionPart :
    Follows f (Sum.map (Decorator.mapSpan f) (Identifier.mapSpan f)) definitionPart definitionPart :=
  (follows_identifier hf).bind fun _ => (follows_nextIs hf rfl).bind fun _ => .ite
    ((follows_arguments hf).bind fun _ => (follows_exactly hf rfl).bind fun _ =>
      .pure rfl)
    ((follows_accept rfl).bind fun _ => .ite (.pure rfl) (.pure rfl))

theorem follows_definitionStep (ds : List Decorator) :
    Follows f (Sum.map (List.map (Decorator.mapSpan f)) (Definition.mapSpan f)) (definitionStep ds)
      (definitionStep (ds.map (Decorator.mapSpan f))) := by
  refine (follows_definitionPart hf).bind fun part => ?_
  cases part with
  | inl d => exact .pure (congrArg Sum.inl List.map_append)
  | inr id => exact .pure rfl

theorem follows_definition : Follows f (Definition.mapSpan f) definition definition :=
  .iterate (g := List.map (Decorator.mapSpan f)) (fun h => shrinks_definitionStep _ h)
    (fun h => shrinks_definitionStep _ h) (follows_definitionStep hf) []

omit hf in
theorem opensDefinition_leveled (ts : List Token) :
    opensDefinition (ts.map (Token.leveled f)) = opensDefinition ts := by
  rcases ts with _ | ⟨⟨l, span⟩, _ | ⟨t, rest⟩⟩
  · rfl
  · cases l <;> rfl
  · cases l with
    | word name =>
      show (t.lexeme.leveled == .colon || t.lexeme.leveled == .openParen) = _
      rw [Lexeme.leveled_beq rfl, Lexeme.leveled_beq rfl]
      rfl
    | _ => rfl

theorem follows_operand : Follows f (Operand.mapSpan f) operand operand := by
  intro ts
  rw [operand, operand, opensDefinition_leveled]
  split
  · have hdefinition : Follows f (Operand.mapSpan f) (Operand.definition <$> definition)
        (Operand.definition <$> definition) := (follows_definition hf).map fun _ => rfl
    exact hdefinition ts
  · have hexpr : Follows f (Operand.mapSpan f) (Operand.expr <$> expr) (Operand.expr <$> expr) :=
      (follows_expr hf).map fun _ => rfl
    exact hexpr ts

omit hf in
theorem follows_relationKeyword : Follows f id relationKeyword relationKeyword := by
  intro ts
  have hword (t : Token) (name : String) : (t.leveled f).lexeme = .word name ↔ t.lexeme = .word name :=
    Lexeme.leveled_eq_iff rfl
  have hisWord (t : Token) : (t.leveled f).lexeme.isWord = t.lexeme.isWord := by
    obtain ⟨l, span⟩ := t
    cases l <;> rfl
  rcases ts with _ | ⟨t, _ | ⟨u, _ | ⟨v, rest⟩⟩⟩
  · rfl
  all_goals
    simp only [List.map_cons, List.map_nil, relationKeyword, hword, hisWord]
    repeat' split
    all_goals rfl

theorem follows_withExpr : Follows f (WithExpr.mapSpan f) withExpr withExpr :=
  (follows_expr hf).bind fun _ => (follows_accept rfl).bind fun _ => .ite
    ((follows_expr hf).bind fun _ => .pure rfl) (.pure rfl)

omit hf in
theorem alone_mapSpan (o : Operand) : (alone o).mapSpan f = alone (o.mapSpan f) := by
  cases o <;> rfl

theorem follows_simpleStatement : Follows f (Statement.mapSpan f) simpleStatement simpleStatement := by
  refine (follows_operand hf).bind fun left => follows_relationKeyword.bind fun kind => ?_
  cases kind with
  | some kind => exact (follows_expr hf).bind fun _ => .pure rfl
  | none =>
    refine (follows_accept rfl).bind fun _ => .ite ?_ ?_
    · exact (follows_expr hf).bind fun _ => (follows_exactly hf rfl).bind fun _ =>
        (follows_expr hf).bind fun _ => .pure rfl
    · refine (follows_accept rfl).bind fun _ => .ite ?_ (.pure (alone_mapSpan left))
      exact (follows_withExpr hf).bind fun _ => (follows_accept rfl).bind fun _ => .ite
        ((follows_withExpr hf).bind fun _ => .pure rfl) (.pure rfl)

/-! ## Templates and programs -/

omit hf in
theorem opensTemplate_leveled (ts : List Token) :
    opensTemplate (ts.map (Token.leveled f)) = opensTemplate ts := by
  have hlexeme (t : Token) {l : Lexeme} (h : l.isIndent = false) :
      ((t.leveled f).lexeme == l) = (t.lexeme == l) := Lexeme.leveled_beq h
  have htemplate (t : Token) : isTemplateWord (t.leveled f).lexeme = isTemplateWord t.lexeme := by
    rw [isTemplateWord, hlexeme t rfl, hlexeme t rfl, isTemplateWord]
  rcases ts with _ | ⟨t, _ | ⟨⟨l, span⟩, _ | ⟨u, rest⟩⟩⟩
  · rfl
  · rfl
  · cases l <;> rfl
  · cases l with
    | word name =>
      show (isTemplateWord (t.leveled f).lexeme && ((u.leveled f).lexeme == .openParen ||
        (u.leveled f).lexeme == .colon || (u.leveled f).lexeme == .word "extends" && _)) = _
      rw [htemplate, hlexeme u rfl, hlexeme u rfl, hlexeme u rfl]
      rcases rest with _ | ⟨⟨l, span⟩, _ | ⟨v, rest⟩⟩
      · rfl
      · cases l <;> rfl
      · cases l with
        | word name =>
          show (_ && (_ || _ && ((v.leveled f).lexeme == .colon))) = _
          rw [hlexeme v rfl]
          rfl
        | _ => rfl
    | _ => rfl

theorem follows_parameters :
    Follows f (Option.map (List.map (Identifier.mapSpan f))) parameters parameters :=
  (follows_nextIs hf rfl).bind fun _ => .ite ((follows_arguments hf).map fun _ => rfl) (.pure rfl)

theorem follows_baseTemplate :
    Follows f (Option.map (Identifier.mapSpan f)) baseTemplate baseTemplate :=
  (follows_accept rfl).bind fun _ => .ite ((follows_identifier hf).map fun _ => rfl) (.pure rfl)

theorem follows_header : Follows f (Header.mapSpan f) header header :=
  follows_skip.bind fun _ => (follows_identifier hf).bind fun _ => (follows_parameters hf).bind fun _ =>
    (follows_baseTemplate hf).bind fun _ => (follows_exactly hf rfl).bind fun _ =>
      (follows_accept rfl).bind fun _ => .ite (.pure rfl) (follows_fail hf _ _)

end

namespace OpenTemplate

def mapSpan (f : Span → Span) (t : OpenTemplate) : OpenTemplate :=
  ⟨t.header.mapSpan f, t.body.map (Statement.mapSpan f)⟩

theorem add_mapSpan (t : OpenTemplate) (s : Statement) :
    (t.add s).mapSpan f = (t.mapSpan f).add (s.mapSpan f) :=
  congrArg (OpenTemplate.mk _) List.map_append

theorem close_mapSpan (t : OpenTemplate) : t.close.mapSpan f = (t.mapSpan f).close := by
  rw [close, Statement.mapSpan, Statement.mapSpanAll_eq_map]
  rfl

end OpenTemplate

def Nesting.mapSpan (f : Span → Span) (n : Nesting) : Nesting :=
  ⟨n.inner.mapSpan f, n.outer.map (OpenTemplate.mapSpan f)⟩

section

variable (hf : f {} = {})

include hf

theorem follows_bodyLineEnd (t : OpenTemplate) :
    Follows f id (bodyLineEnd t) (bodyLineEnd (t.mapSpan f)) := by
  intro ts
  have hfail (ts : List Token) :
      fail (if (next (ts.map (Token.leveled f))).lexeme = .endOfText then (t.mapSpan f).closing
        else "end of line") (ts.map (Token.leveled f)) =
      moved f id ((fail (if (next ts).lexeme = .endOfText then t.closing else "end of line") :
        Rule Unit) ts) := by
    have hend : (next (ts.map (Token.leveled f))).lexeme = .endOfText ↔
        (next ts).lexeme = .endOfText := by
      rw [next_leveled hf]
      exact Lexeme.leveled_eq_iff rfl
    have hclosing : (t.mapSpan f).closing = t.closing := rfl
    simp only [hend, hclosing]
    exact follows_fail hf id _ ts
  cases ts with
  | nil => exact hfail []
  | cons u ts =>
    obtain ⟨l, span⟩ := u
    cases l with
    | lineEnd => rfl
    | _ => exact hfail (⟨_, span⟩ :: ts)

theorem atEnd_leveled (ts : List Token) : atEnd (ts.map (Token.leveled f)) = atEnd ts := by
  cases ts with
  | nil => rfl
  | cons t rest =>
    show (t.lexeme.leveled == .word "end" && (next (rest.map (Token.leveled f))).lexeme.endsLine) = _
    rw [Lexeme.leveled_beq rfl, next_leveled hf]
    exact congrArg _ (Lexeme.endsLine_leveled _)

theorem follows_closeTemplate (n : Nesting) :
    Follows f (Sum.map (Nesting.mapSpan f) (Statement.mapSpan f)) (closeTemplate n)
      (closeTemplate (n.mapSpan f)) := by
  obtain ⟨inner, outer⟩ := n
  refine Follows.get.bind fun here => ?_
  have hempty : (inner.mapSpan f).body.isEmpty = inner.body.isEmpty := List.isEmpty_map
  show Follows f _ _ (if (inner.mapSpan f).body.isEmpty = true then _ else _)
  rw [hempty]
  refine .ite (.throw ?_) ((follows_exactly hf rfl).bind fun _ => ?_)
  · rw [next_leveled hf]
    rfl
  · cases outer with
    | nil => exact .pure (congrArg Sum.inr inner.close_mapSpan)
    | cons up outer =>
      refine (follows_bodyLineEnd hf up).bind fun _ => .pure ?_
      rw [Sum.map_inl, Nesting.mapSpan, OpenTemplate.add_mapSpan, OpenTemplate.close_mapSpan]

theorem follows_bodyLine (n : Nesting) :
    Follows f (Sum.map (Nesting.mapSpan f) (Statement.mapSpan f)) (bodyLine n)
      (bodyLine (n.mapSpan f)) := by
  obtain ⟨inner, outer⟩ := n
  refine Follows.get.bind fun here => ?_
  rw [opensTemplate_leveled]
  refine .ite ((follows_header hf).bind fun _ => .pure rfl)
    ((follows_simpleStatement hf).bind fun s => (follows_bodyLineEnd hf inner).bind fun _ =>
      .pure ?_)
  rw [Sum.map_inl, Nesting.mapSpan, OpenTemplate.add_mapSpan]

theorem follows_bodyStep (n : Nesting) :
    Follows f (Sum.map (Nesting.mapSpan f) (Statement.mapSpan f)) (bodyStep n)
      (bodyStep (n.mapSpan f)) := by
  refine follows_acceptIndent.bind fun indented => Follows.get.bind fun here => ?_
  rw [atEnd_leveled hf]
  exact .ite (follows_closeTemplate hf n) ((follows_nextIs hf rfl).bind fun _ =>
    .ite (follows_fail hf _ _) (.ite (follows_bodyLine hf n) (follows_fail hf _ _)))

theorem follows_template : Follows f (Statement.mapSpan f) template template := by
  have hlines (n : Nesting) : Follows f (Statement.mapSpan f)
      (Rule.iterate bodyStep (fun h => shrinks_bodyStep _ h) n)
      (Rule.iterate bodyStep (fun h => shrinks_bodyStep _ h) (n.mapSpan f)) :=
    .iterate _ _ (follows_bodyStep hf) n
  exact (follows_header hf).bind fun h => hlines ⟨⟨h, []⟩, []⟩

theorem follows_statement : Follows f (Statement.mapSpan f) statement statement := by
  intro ts
  rw [statement, statement, opensTemplate_leveled]
  split
  · exact follows_template hf ts
  · exact follows_simpleStatement hf ts

theorem follows_programStep_behind (before ss : List Statement) :
    Follows f (Sum.map (fun ss => before ++ ss.map (Statement.mapSpan f))
        fun p => ⟨before ++ p.statements.map (Statement.mapSpan f)⟩)
      (programStep ss) (programStep (before ++ ss.map (Statement.mapSpan f))) := by
  refine follows_skipLineEnds.bind fun _ => (follows_nextIs hf rfl).bind fun _ =>
    .ite (.pure rfl) (Follows.get.bind fun here => ?_)
  rw [next_leveled hf, Token.leveled, Lexeme.isIndent_leveled]
  refine .ite (.throw rfl) ((follows_statement hf).bind fun s => (follows_lineEnd hf).bind fun _ =>
    .pure (congrArg Sum.inl ?_))
  show before ++ (ss ++ [s]).map (Statement.mapSpan f) = _
  rw [List.map_append, ← List.append_assoc]
  rfl

theorem follows_programStep (ss : List Statement) :
    Follows f (Sum.map (List.map (Statement.mapSpan f)) (Program.mapSpan f)) (programStep ss)
      (programStep (ss.map (Statement.mapSpan f))) := by
  rw [Program.mapSpan_eq]
  exact follows_programStep_behind hf [] ss

theorem follows_program : Follows f (Program.mapSpan f) program program := by
  have hstatements (ss : List Statement) : Follows f (Program.mapSpan f)
      (Rule.iterate programStep programStep_shrinks ss)
      (Rule.iterate programStep programStep_shrinks (ss.map (Statement.mapSpan f))) :=
    .iterate _ _ (follows_programStep hf) ss
  exact hstatements []

end

end Reader

/-- Tokens with other places and depths spell the same schema in these places, or
fail alike. -/
theorem Program.ofTokens_leveled {f : Span → Span} (hf : f {} = {}) (ts : List Token) :
    Program.ofTokens (ts.map (Token.leveled f)) =
      (Program.mapSpan f <$> Program.ofTokens ts).mapError (SyntaxError.mapSpan f) := by
  rw [ofTokens, Reader.follows_program hf ts, ofTokens]
  cases Reader.program ts <;> rfl

end InterfaceSchema
