import InterfaceSchema.Schema.Reader

/-!
# Looking ahead

No rule looks behind the end of a line. `RestOfLine` are tokens up to the end of their
line, and `Rule.DecidedBy` says that such tokens decide what a rule makes of them,
whatever lines stand below: it gives the same value and leaves the same rest of the
line, or it fails alike. The rules of one line, and those of each line of a template
(`Reader.decided_bodyStep`), are decided by their line.
-/

namespace InterfaceSchema

/-- The tokens of a line from one of them on, the end of the line included. -/
inductive RestOfLine : List Token → Prop
  | lineEnd {t} (ht : t.lexeme = .lineEnd) (hplace : t.span.line ≠ 0) : RestOfLine [t]
  | cons {t us} (ht : t.lexeme.endsLine = false) (hplace : t.span.line ≠ 0) (hus : RestOfLine us) :
    RestOfLine (t :: us)

namespace RestOfLine

variable {t : Token} {us : List Token}

theorem tail (h : RestOfLine (t :: us)) (ht : t.lexeme.endsLine = false) : RestOfLine us := by
  cases h with
  | lineEnd hend => rw [hend] at ht; cases ht
  | cons _ _ hus => exact hus

theorem eq_singleton (h : RestOfLine us) (hus : (Reader.next us).lexeme.endsLine = true) :
    ∃ t, us = [t] ∧ t.lexeme = .lineEnd := by
  cases h with
  | @lineEnd t ht _ => exact ⟨t, rfl, ht⟩
  | cons ht _ _ =>
    rw [Reader.next, List.headD_cons, ht] at hus
    cases hus

/-- Tokens that do not end their line, and the one that does. -/
theorem concat (hus : ∀ u ∈ us, u.lexeme.endsLine = false ∧ u.span.line ≠ 0)
    (ht : t.lexeme = .lineEnd) (hplace : t.span.line ≠ 0) : RestOfLine (us ++ [t]) := by
  induction us with
  | nil => exact .lineEnd ht hplace
  | cons u us ih =>
    obtain ⟨hu, hus⟩ := List.forall_mem_cons.1 hus
    exact .cons hu.1 hu.2 (ih hus)

end RestOfLine

/-- Whatever stands below, the rule makes the same value of the line and leaves a rest
of it, with `P`, or it fails with the same error. -/
def Rule.DecidedBy {α : Type} (r : Rule α) (us : List Token) (P : α → List Token → Prop) : Prop :=
  (∃ a us', P a us' ∧ ∀ vs, r (us ++ vs) = .ok a (us' ++ vs)) ∨
    ∃ e, e.line ≠ 0 ∧ ∀ vs, ∃ rest, r (us ++ vs) = .error e rest

/-- The line decides the rule, which does not read its end. -/
def Rule.StaysOn {α : Type} (r : Rule α) (us : List Token) : Prop :=
  r.DecidedBy us fun _ us' => RestOfLine us'

namespace Rule

variable {α β σ : Type} {us us' : List Token} {P : α → List Token → Prop}
  {Q : β → List Token → Prop}

namespace DecidedBy

/-- The rule does what another one does on a rest of the line. -/
theorem congr {r r' : Rule α} (h : ∀ vs, r (us ++ vs) = r' (us' ++ vs)) (hr' : r'.DecidedBy us' P) :
    r.DecidedBy us P := by
  obtain ⟨a, rest, hP, hok⟩ | ⟨e, he, herror⟩ := hr'
  · exact .inl ⟨a, rest, hP, fun vs => (h vs).trans (hok vs)⟩
  · refine .inr ⟨e, he, fun vs => ?_⟩
    obtain ⟨rest, hrest⟩ := herror vs
    exact ⟨rest, (h vs).trans hrest⟩

theorem pure {a : α} (h : P a us) : (pure a : Rule α).DecidedBy us P :=
  .inl ⟨a, us, h, fun _ => rfl⟩

theorem throw {e : SyntaxError} (h : e.line ≠ 0) : (throw e : Rule α).DecidedBy us P :=
  .inr ⟨e, h, fun _ => ⟨_, rfl⟩⟩

theorem bind {r : Rule α} {f : α → Rule β} (hr : r.DecidedBy us P)
    (hf : ∀ a us', P a us' → (f a).DecidedBy us' Q) : (r >>= f).DecidedBy us Q := by
  obtain ⟨a, mid, hP, hr⟩ | ⟨e, he, hr⟩ := hr
  · obtain ⟨b, us', hQ, hf⟩ | ⟨e, he, hf⟩ := hf a mid hP
    · exact .inl ⟨b, us', hQ, fun vs => by simp only [Bind.bind, EStateM.bind, hr, hf]⟩
    · refine .inr ⟨e, he, fun vs => ?_⟩
      obtain ⟨rest, hf⟩ := hf vs
      exact ⟨rest, by simp only [Bind.bind, EStateM.bind, hr, hf]⟩
  · refine .inr ⟨e, he, fun vs => ?_⟩
    obtain ⟨rest, hr⟩ := hr vs
    exact ⟨rest, by simp only [Bind.bind, EStateM.bind, hr]⟩

theorem map {r : Rule α} {f : α → β} (h : r.DecidedBy us fun a us' => Q (f a) us') :
    (f <$> r).DecidedBy us Q := by
  rw [map_eq_pure_bind]
  exact h.bind fun a us' ha => pure ha

theorem ite {c : Bool} {r s : Rule α} (hr : r.DecidedBy us P) (hs : s.DecidedBy us P) :
    (if c = true then r else s).DecidedBy us P := by
  split
  · exact hr
  · exact hs

/-- The rule looks at the tokens, but only at those of the line. -/
theorem get_bind {k : List Token → Rule α} (hk : ∀ vs, k (us ++ vs) = k us)
    (h : (k us).DecidedBy us P) : (get >>= k).DecidedBy us P :=
  .congr (fun vs => congrFun (hk vs) (us ++ vs)) h

theorem iterate {step : σ → Rule (σ ⊕ α)} (shrinks : ∀ {s ts s' rest},
      step s ts = .ok (.inl s') rest → rest.length < ts.length)
    {I : List Token → Prop} (hstep : ∀ s us, I us → (step s).DecidedBy us fun x us' =>
      Sum.elim (fun _ => I us') (fun a => P a us') x) {s : σ} (h : I us) :
    Rule.DecidedBy (Rule.iterate step shrinks s) us P := by
  induction hn : us.length using Nat.strongRecOn generalizing s us with
  | ind n ih =>
  obtain ⟨x, us', hx, hok⟩ | ⟨e, he, herror⟩ := hstep s us h
  · cases x with
    | inl s' =>
      have hless := shrinks (hok [])
      rw [List.append_nil, List.append_nil, hn] at hless
      exact .congr (fun vs => iterate_of_inl shrinks (hok vs)) (ih _ hless hx rfl)
    | inr a => exact .inl ⟨a, us', hx, fun vs => iterate_of_inr shrinks (hok vs)⟩
  · refine .inr ⟨e, he, fun vs => ?_⟩
    obtain ⟨rest, hrest⟩ := herror vs
    exact ⟨rest, iterate_of_error shrinks hrest⟩

end DecidedBy

end Rule

namespace Reader

open Rule

variable {us : List Token} {l : Lexeme}

/-! ## The grammar of a line -/

theorem next_append (h : RestOfLine us) (vs : List Token) : next (us ++ vs) = next us := by
  cases h <;> rfl

theorem line_next_ne_zero (h : RestOfLine us) : (next us).span.line ≠ 0 := by
  cases h with
  | lineEnd _ hplace => exact hplace
  | cons _ hplace _ => exact hplace

theorem line_at (t : Token) (expected : String) : (SyntaxError.at t expected).line = t.span.line := by
  unfold SyntaxError.at
  split <;> rfl

theorem decided_fail {α : Type} {P : α → List Token → Prop} (h : RestOfLine us)
    (expected : String) : (fail expected : Rule α).DecidedBy us P := by
  refine .inr ⟨.at (next us) expected, ?_, fun vs => ⟨us ++ vs, ?_⟩⟩
  · rw [line_at]
    exact line_next_ne_zero h
  · rw [fail, next_append h]

theorem decided_nextIs (h : RestOfLine us) (l : Lexeme) : (nextIs l).StaysOn us :=
  .inl ⟨(next us).lexeme == l, us, h, fun vs => by rw [nextIs, next_append h]⟩

theorem decided_accept (h : RestOfLine us) (hl : l.endsLine = false) : (accept l).StaysOn us := by
  cases us with
  | nil => cases h
  | cons t us =>
    by_cases ht : t.lexeme = l
    · exact .inl ⟨true, us, h.tail (by rwa [ht]), fun vs => if_pos ht⟩
    · exact .inl ⟨false, t :: us, h, fun vs => if_neg ht⟩

theorem decided_exactly (h : RestOfLine us) (hl : l.endsLine = false) : (exactly l).StaysOn us := by
  cases us with
  | nil => cases h
  | cons t us =>
    by_cases ht : t.lexeme = l
    · exact .inl ⟨(), us, h.tail (by rwa [ht]), fun vs => if_pos ht⟩
    · have hfail (vs : List Token) : exactly l (t :: us ++ vs) = fail l.describe (t :: us ++ vs) :=
        if_neg ht
      exact .congr hfail (decided_fail h l.describe)

theorem decided_skip (h : RestOfLine us) (hnext : (next us).lexeme.endsLine = false) :
    skip.StaysOn us := by
  cases us with
  | nil => cases h
  | cons t us => exact .inl ⟨(), us, h.tail hnext, fun _ => rfl⟩

theorem decided_identifier (h : RestOfLine us) : identifier.StaysOn us := by
  cases us with
  | nil => cases h
  | cons t us =>
    obtain ⟨l, span⟩ := t
    cases l with
    | word name => exact .inl ⟨⟨name, span⟩, us, h.tail rfl, fun _ => rfl⟩
    | _ => exact decided_fail h "identifier"

theorem decided_acceptIndent (h : RestOfLine us) : acceptIndent.StaysOn us := by
  cases us with
  | nil => cases h
  | cons t us =>
    obtain ⟨l, span⟩ := t
    cases l with
    | indent depth => exact .inl ⟨true, us, h.tail rfl, fun _ => rfl⟩
    | _ => exact .inl ⟨false, _, h, fun _ => rfl⟩

theorem decided_lineEnd (h : RestOfLine us) : lineEnd.DecidedBy us fun _ us' => us' = [] := by
  cases h with
  | @lineEnd t ht _ =>
    obtain ⟨l, span⟩ := t
    obtain rfl : l = .lineEnd := ht
    exact .inl ⟨(), [], rfl, fun _ => rfl⟩
  | @cons t us ht hplace hus =>
    obtain ⟨l, span⟩ := t
    cases l with
    | lineEnd | endOfText => cases ht
    | _ => exact decided_fail (.cons ht hplace hus) "end of line"

theorem endsLine_of_operator? {op : Operator} (h : operator? l = some op) : l.endsLine = false := by
  cases l <;> first | rfl | cases h

theorem decided_exprTail (h : RestOfLine us) (left : Expr) :
    Rule.StaysOn (exprTail left) us := by
  fun_induction exprTail left us with
  | case1 => cases h
  | case2 left t rest hop =>
    exact .inl ⟨left, t :: rest, h, fun vs => by rw [List.cons_append, exprTail, hop]⟩
  | case3 left t op hop name span rest ih =>
    refine .congr (fun vs => ?_) (ih ((h.tail (endsLine_of_operator? hop)).tail rfl))
    rw [List.cons_append, exprTail, hop]
    rfl
  | case4 left t op hop rest hword =>
    have hrest : RestOfLine rest := h.tail (endsLine_of_operator? hop)
    refine .congr (fun vs => ?_) (decided_fail hrest "identifier")
    rw [List.cons_append, exprTail, hop]
    cases rest with
    | nil => cases hrest
    | cons u rest =>
      obtain ⟨l, span⟩ := u
      cases l with
      | word name => exact absurd rfl (hword name span rest)
      | _ => rfl

theorem decided_expr (h : RestOfLine us) : expr.StaysOn us :=
  (decided_identifier h).bind fun id _ h => decided_exprTail h (.name id)

theorem decided_argumentsTail (h : RestOfLine us) (args : List Identifier) :
    Rule.StaysOn (argumentsTail args) us := by
  fun_induction argumentsTail args us with
  | case1 args span name span' rest ih => exact ih ((h.tail rfl).tail rfl)
  | case2 args span rest hword =>
    have hrest : RestOfLine rest := h.tail rfl
    refine .congr (fun vs => ?_) (decided_fail hrest "identifier")
    cases rest with
    | nil => cases hrest
    | cons u rest =>
      obtain ⟨l, span⟩ := u
      cases l with
      | word name => exact absurd rfl (hword name span rest)
      | _ => rfl
  | case3 args span rest => exact .inl ⟨args, rest, h.tail rfl, fun _ => rfl⟩
  | case4 args us hword hcomma hparen =>
    refine .congr (fun vs => ?_) (decided_fail h Lexeme.closeParen.describe)
    cases us with
    | nil => cases h
    | cons t us =>
      obtain ⟨l, span⟩ := t
      cases l with
      | comma => exact absurd rfl (hcomma span us)
      | closeParen => exact absurd rfl (hparen span us)
      | _ => rfl

theorem decided_arguments (h : RestOfLine us) : arguments.StaysOn us := by
  refine .get_bind (fun vs => by simp only [next_append h]) ?_
  refine (decided_exactly h rfl).bind fun _ _ h' => (decided_nextIs h' _).bind fun _ _ h' => .ite ?_ ?_
  · exact .throw (line_next_ne_zero h)
  · exact (decided_identifier h').bind fun first _ h' => decided_argumentsTail h' [first]

theorem decided_definitionPart (h : RestOfLine us) : definitionPart.StaysOn us :=
  (decided_identifier h).bind fun _ _ h => (decided_nextIs h _).bind fun _ _ h => .ite
    ((decided_arguments h).bind fun _ _ h => (decided_exactly h rfl).bind fun _ _ h => .pure h)
    ((decided_accept h rfl).bind fun _ _ h => .ite (.pure h) (.pure h))

theorem decided_definition (h : RestOfLine us) : definition.StaysOn us := by
  refine .iterate (I := RestOfLine) (fun h => shrinks_definitionStep _ h) (fun ds us h => ?_) h
  refine (decided_definitionPart h).bind fun part us' h => ?_
  cases part with
  | inl d => exact .pure h
  | inr id => exact .pure h

theorem opensDefinition_append (h : RestOfLine us) (vs : List Token) :
    opensDefinition (us ++ vs) = opensDefinition us := by
  cases h with
  | @lineEnd t ht _ =>
    obtain ⟨l, span⟩ := t
    obtain rfl : l = .lineEnd := ht
    rfl
  | @cons t us _ _ hus =>
    obtain ⟨l, span⟩ := t
    cases l with
    | word name => cases hus <;> rfl
    | _ => rfl

theorem decided_operand (h : RestOfLine us) : operand.StaysOn us := by
  have hoperand (vs : List Token) : operand (us ++ vs) = if opensDefinition us then
      (.definition <$> definition : Rule Operand) (us ++ vs)
      else (.expr <$> expr : Rule Operand) (us ++ vs) := by
    rw [operand, opensDefinition_append h]
  split at hoperand
  · exact .congr hoperand (.map (decided_definition h))
  · exact .congr hoperand (.map (decided_expr h))

/-- `many` and the word behind it stand on the line of `mapto`. -/
theorem decided_relationKeyword (h : RestOfLine us) : relationKeyword.StaysOn us := by
  rcases us with _ | ⟨t, us⟩
  · cases h
  have hus {name : String} (ht : t.lexeme = .word name) : RestOfLine us := h.tail (by rw [ht]; rfl)
  by_cases hmapto : t.lexeme = .word "mapto"
  · rcases us with _ | ⟨u, us⟩
    · cases hus hmapto
    by_cases hmany : u.lexeme = .word "many"
    · have hrest : RestOfLine us := (hus hmapto).tail (by rw [hmany]; rfl)
      rcases us with _ | ⟨v, us⟩
      · cases hrest
      by_cases hword : v.lexeme.isWord = true
      · exact .inl ⟨some .mapToMany, v :: us, hrest, fun vs => by
          simp [relationKeyword, hmapto, hmany, hword]⟩
      · exact .inl ⟨some .mapTo, u :: v :: us, hus hmapto, fun vs => by
          simp [relationKeyword, hmapto, hword]⟩
    · -- here `u` may end the line, and what stands behind it is not looked at
      refine .inl ⟨some .mapTo, u :: us, hus hmapto, fun vs => ?_⟩
      cases hvs : us ++ vs <;> simp [relationKeyword, hmapto, hmany, hvs]
  by_cases hstructures : t.lexeme = .word "structures"
  · exact .inl ⟨some .structures, us, hus hstructures, fun vs => by
      simp [relationKeyword, hstructures]⟩
  by_cases hconstrains : t.lexeme = .word "constrains"
  · exact .inl ⟨some .constrains, us, hus hconstrains, fun vs => by
      simp [relationKeyword, hconstrains]⟩
  · exact .inl ⟨none, t :: us, h, fun vs => by
      simp [relationKeyword, hmapto, hstructures, hconstrains]⟩

theorem decided_withExpr (h : RestOfLine us) : withExpr.StaysOn us :=
  (decided_expr h).bind fun _ _ h => (decided_accept h rfl).bind fun _ _ h => .ite
    ((decided_expr h).bind fun _ _ h => .pure h) (.pure h)

theorem decided_simpleStatement (h : RestOfLine us) : simpleStatement.StaysOn us := by
  refine (decided_operand h).bind fun left _ h => (decided_relationKeyword h).bind fun kind _ h => ?_
  cases kind with
  | some kind => exact (decided_expr h).bind fun _ _ h => .pure h
  | none =>
    refine (decided_accept h rfl).bind fun _ _ h => .ite ?_ ?_
    · exact (decided_expr h).bind fun _ _ h => (decided_exactly h rfl).bind fun _ _ h =>
        (decided_expr h).bind fun _ _ h => .pure h
    · refine (decided_accept h rfl).bind fun _ _ h => .ite ?_ (.pure h)
      exact (decided_withExpr h).bind fun _ _ h => (decided_accept h rfl).bind fun _ _ h => .ite
        ((decided_withExpr h).bind fun _ _ h => .pure h) (.pure h)

/-! ## Lines of templates -/

/-- What opens a template stands on one line. -/
theorem opensTemplate_append (h : RestOfLine us) (vs : List Token) :
    opensTemplate (us ++ vs) = opensTemplate us := by
  have hlineEnd {t : Token} (ht : t.lexeme = .lineEnd) (ts : List Token) :
      opensTemplate (t :: ts) = false := by
    unfold opensTemplate
    split
    · rename_i heq
      cases heq
      rw [ht]
      rfl
    · rfl
  cases h with
  | lineEnd ht _ => rw [List.cons_append, hlineEnd ht, hlineEnd ht]
  | @cons t us _ _ hus =>
    rcases us with _ | ⟨⟨l, span⟩, us⟩
    · cases hus
    cases l with
    | word name =>
      cases hus.tail rfl with
      | @lineEnd u hu _ =>
        show (isTemplateWord t.lexeme && (u.lexeme == .openParen || u.lexeme == .colon ||
          u.lexeme == .word "extends" && _)) = (isTemplateWord t.lexeme && (u.lexeme == .openParen ||
          u.lexeme == .colon || u.lexeme == .word "extends" && _))
        rw [hu]
        rfl
      | @cons u us _ _ hbase =>
        rcases us with _ | ⟨⟨l, span⟩, us⟩
        · cases hbase
        cases l with
        | word name => cases hbase.tail rfl <;> rfl
        | _ => rfl
    | _ => rfl

theorem atEnd_append (h : RestOfLine us) (vs : List Token) : atEnd (us ++ vs) = atEnd us := by
  cases h with
  | @lineEnd t ht _ =>
    obtain ⟨l, span⟩ := t
    obtain rfl : l = .lineEnd := ht
    rfl
  | cons _ _ hus => rw [List.cons_append, atEnd, next_append hus, atEnd]

/-- A line that opens a template does not begin with its end. -/
theorem endsLine_next_of_opensTemplate (h : opensTemplate us = true) :
    (next us).lexeme.endsLine = false := by
  unfold opensTemplate at h
  split at h
  · rename_i t _ _ _ _
    obtain ⟨l, span⟩ := t
    cases l <;> first | rfl | cases h
  · cases h

theorem decided_parameters (h : RestOfLine us) : parameters.StaysOn us :=
  (decided_nextIs h _).bind fun _ _ h => .ite (.map (decided_arguments h)) (.pure h)

theorem decided_baseTemplate (h : RestOfLine us) : baseTemplate.StaysOn us :=
  (decided_accept h rfl).bind fun _ _ h => .ite (.map (decided_identifier h)) (.pure h)

theorem decided_accept_lineEnd (h : RestOfLine us) :
    (accept .lineEnd).DecidedBy us fun b us' => if b = true then us' = [] else RestOfLine us' := by
  cases h with
  | lineEnd ht _ => exact .inl ⟨true, [], rfl, fun vs => if_pos ht⟩
  | @cons t us ht hplace hus =>
    have hne : t.lexeme ≠ .lineEnd := by
      intro hend
      rw [hend] at ht
      cases ht
    exact .inl ⟨false, t :: us, .cons ht hplace hus, fun vs => if_neg hne⟩

theorem decided_header (h : RestOfLine us) (hopens : opensTemplate us = true) :
    header.DecidedBy us fun _ us' => us' = [] := by
  refine (decided_skip h (endsLine_next_of_opensTemplate hopens)).bind fun _ _ h =>
    (decided_identifier h).bind fun _ _ h => (decided_parameters h).bind fun _ _ h =>
      (decided_baseTemplate h).bind fun _ _ h => (decided_exactly h rfl).bind fun _ _ h =>
        (decided_accept_lineEnd h).bind fun ended _ h => ?_
  cases ended with
  | true => exact .pure h
  | false => exact decided_fail h _

theorem decided_bodyLineEnd (h : RestOfLine us) (t : OpenTemplate) :
    (bodyLineEnd t).DecidedBy us fun _ us' => us' = [] := by
  cases h with
  | @lineEnd u hu _ =>
    obtain ⟨l, span⟩ := u
    obtain rfl : l = .lineEnd := hu
    exact .inl ⟨(), [], rfl, fun _ => rfl⟩
  | @cons u us hu hplace hus =>
    obtain ⟨l, span⟩ := u
    cases l with
    | lineEnd | endOfText => cases hu
    | _ => exact decided_fail (.cons hu hplace hus) "end of line"

/-- What a line leaves of itself: nothing, unless it closes the outermost template. -/
def LeftByStep (x : Nesting ⊕ Statement) (us : List Token) : Prop :=
  Sum.elim (fun _ => us = []) (fun _ => RestOfLine us) x

theorem decided_closeTemplate (h : RestOfLine us) (n : Nesting) :
    (closeTemplate n).DecidedBy us LeftByStep := by
  obtain ⟨inner, outer⟩ := n
  refine .get_bind (fun vs => by simp only [next_append h]) (.ite (.throw (line_next_ne_zero h)) ?_)
  refine (decided_exactly h rfl).bind fun _ _ h => ?_
  cases outer with
  | nil => exact .pure h
  | cons up outer => exact (decided_bodyLineEnd h up).bind fun _ _ h => .pure h

theorem decided_bodyLine (h : RestOfLine us) (n : Nesting) :
    (bodyLine n).DecidedBy us LeftByStep := by
  obtain ⟨inner, outer⟩ := n
  refine .get_bind (fun vs => by simp only [opensTemplate_append h]) ?_
  split
  · rename_i hopens
    exact (decided_header h hopens).bind fun _ _ h => .pure h
  · exact (decided_simpleStatement h).bind fun _ _ h => (decided_bodyLineEnd h inner).bind fun _ _ h =>
      .pure h

theorem decided_bodyStep (h : RestOfLine us) (n : Nesting) :
    (bodyStep n).DecidedBy us LeftByStep :=
  (decided_acceptIndent h).bind fun _ _ h => .get_bind (fun vs => by simp only [atEnd_append h])
    (.ite (decided_closeTemplate h n) ((decided_nextIs h _).bind fun _ _ h =>
      .ite (decided_fail h _) (.ite (decided_bodyLine h n) (decided_fail h _))))

end Reader

end InterfaceSchema
