import InterfaceSchema.Proofs.Reading.Rules

/-!
# Statements of one line

The rules look ahead to tell a definition from an expression, a template from a
relation and the `end` of a body from a name. Here these decisions are stated on
lexemes, and the line of a statement is shown to be read as what it was printed
from (`reads_simpleStatement`, `reads_header`).
-/

namespace InterfaceSchema

/-- The lexemes of the first line of a statement. -/
def Statement.lexemes : Statement → List Lexeme
  | relation left kind right => left.lexemes ++ kind.lexemes ++ right.lexemes
  | cover left middle right =>
    left.lexemes ++ .word "cover" :: middle.lexemes ++ .word "along" :: right.lexemes
  | represents view data shape =>
    view.lexemes ++ .word "represents" :: data.lexemes ++
      Lexeme.introduced "as" WithExpr.lexemes shape
  | template header _ => header.lexemes "pattern"
  | definition d => d.lexemes
  | term e => e.lexemes

theorem Statement.linesAt_of_template?_eq_none {s : Statement} (h : s.template? = none)
    (depth : Nat) : s.linesAt depth = [⟨depth, s.lexemes⟩] := by
  cases s with
  | template _ _ => cases h
  | _ => rfl

theorem Statement.exists_linesAt_eq (depth : Nat) (s : Statement) :
    ∃ ls, s.linesAt depth = ⟨depth, s.lexemes⟩ :: ls := by
  cases s <;> exact ⟨_, rfl⟩

/-- An expression is a name alone, or an operator stands behind its first name. -/
theorem Expr.lexemes_eq (e : Expr) : (∃ id, e = .name id) ∨
    ∃ name op ls, e.lexemes = .word name :: Operator.lexeme op :: ls := by
  induction e with
  | name id => exact .inl ⟨id, rfl⟩
  | binary op left right ihl _ =>
    right
    rcases ihl with ⟨id, rfl⟩ | ⟨name, op', ls, hls⟩
    · exact ⟨id.name, op, right.lexemes, rfl⟩
    · exact ⟨name, op', ls ++ op.lexeme :: right.lexemes, by rw [Expr.lexemes, hls]; rfl⟩

/-- A colon or a parenthesis stands behind the first word of a definition. -/
theorem Definition.lexemes_eq {d : Definition} (h : d.isWellFormed = true) :
    ∃ name m ls, d.lexemes = .word name :: m :: ls ∧ (m = .colon ∨ m = .openParen) := by
  obtain ⟨decorators, id⟩ := d
  cases decorators with
  | nil => cases h
  | cons e es =>
    cases e with
    | tag tag => exact ⟨tag.name, .colon, _, rfl, .inl rfl⟩
    | call template args => exact ⟨template.name, .openParen, _, rfl, .inr rfl⟩

theorem Operator.isWord_lexeme (op : Operator) : op.lexeme.isWord = false := by cases op <;> rfl

namespace Reader

open Rule

variable {k : Lexeme} {ks : List Lexeme}

/-! ## Operands and relations -/

theorem opensDefinition_iff {ts : List Token} : opensDefinition ts = true ↔
    ∃ name m ls, ts.map Token.lexeme = .word name :: m :: ls ∧ (m = .colon ∨ m = .openParen) := by
  constructor
  · intro h
    unfold opensDefinition at h
    split at h
    · rename_i name span t rest
      exact ⟨name, t.lexeme, rest.map Token.lexeme, rfl, by simpa using h⟩
    · cases h
  · rintro ⟨name, m, ls, hls, hm⟩
    obtain ⟨span, us, rfl, hus⟩ := Token.exists_of_map_lexeme hls
    obtain ⟨t, rest, rfl, rfl, _⟩ := List.map_eq_cons_iff.1 hus
    simpa [opensDefinition] using hm

theorem reads_operand {o : Operand} (ho : o.isWellFormed = true) (hk : k.follows = true) :
    operand.Reads (o.lexemes ++ k :: ks) (k :: ks) (·.unplaced = o.unplaced) := by
  cases o with
  | definition d =>
    have hread : (Operand.definition <$> definition : Rule Operand).Reads (d.lexemes ++ k :: ks)
        (k :: ks) (·.unplaced = (Operand.definition d).unplaced) :=
      ((reads_definition ho hk).imp fun d' hd => by rw [Operand.unplaced, hd]; rfl).map
    intro ts hts
    obtain ⟨name, m, ls, hls, hm⟩ := Definition.lexemes_eq ho
    have hopens : opensDefinition ts = true :=
      opensDefinition_iff.2 ⟨name, m, ls ++ k :: ks, by rw [hts, Operand.lexemes, hls]; rfl, hm⟩
    rw [operand, if_pos hopens]
    exact hread ts hts
  | expr e =>
    have hread : (Operand.expr <$> expr : Rule Operand).Reads (e.lexemes ++ k :: ks)
        (k :: ks) (·.unplaced = (Operand.expr e).unplaced) :=
      ((reads_expr ho hk).imp fun e' he => by rw [Operand.unplaced, he]; rfl).map
    intro ts hts
    have hopens : ¬opensDefinition ts = true := by
      rw [opensDefinition_iff, hts, Operand.lexemes]
      rintro ⟨name, m, ls, heq, hm⟩
      rcases e.lexemes_eq with ⟨id, rfl⟩ | ⟨name', op, ls', hls'⟩
      · cases heq
        rcases hm with rfl | rfl <;> cases hk
      · rw [hls'] at heq
        cases heq
        cases op <;> rcases hm with hm | hm <;> cases hm
    rw [operand, if_neg hopens]
    exact hread ts hts

/-- The keyword is read in full, since what is behind the next word is none. -/
theorem reads_relationKeyword (kind : RelationKind) (name : String) (ks : List Lexeme) {m : Lexeme}
    (hm : m.isWord = false) :
    relationKeyword.Reads (kind.lexemes ++ .word name :: m :: ks) (.word name :: m :: ks)
      (· = some kind) := by
  intro ts hts
  cases kind with
  | mapToMany =>
    obtain ⟨t, us, rfl, ht, hus⟩ := List.map_eq_cons_iff.1 hts
    obtain ⟨u, vs, rfl, hu, hvs⟩ := List.map_eq_cons_iff.1 hus
    obtain ⟨v, ws, rfl, hv, hws⟩ := List.map_eq_cons_iff.1 hvs
    refine ⟨_, v :: ws, ?_, rfl, by rw [List.map_cons, hv, hws]⟩
    simp [relationKeyword, ht, hu, hv, Lexeme.isWord]
  | mapTo =>
    obtain ⟨t, us, rfl, ht, hus⟩ := List.map_eq_cons_iff.1 hts
    obtain ⟨u, vs, rfl, hu, hvs⟩ := List.map_eq_cons_iff.1 hus
    obtain ⟨v, ws, rfl, rfl, hws⟩ := List.map_eq_cons_iff.1 hvs
    refine ⟨_, u :: v :: ws, ?_, rfl, by rw [List.map_cons, List.map_cons, hu, hws]⟩
    simp [relationKeyword, ht, hm]
  | structures | constrains =>
    obtain ⟨t, us, rfl, ht, hus⟩ := List.map_eq_cons_iff.1 hts
    exact ⟨_, us, by simp [relationKeyword, ht], rfl, hus⟩

theorem reads_relationKeyword_none (hmap : k ≠ .word "mapto") (hstructures : k ≠ .word "structures")
    (hconstrains : k ≠ .word "constrains") :
    relationKeyword.Reads (k :: ks) (k :: ks) (· = none) := by
  intro ts hts
  obtain ⟨t, us, rfl, rfl, rfl⟩ := List.map_eq_cons_iff.1 hts
  exact ⟨none, t :: us, by simp [relationKeyword, hmap, hstructures, hconstrains], rfl, rfl⟩

theorem reads_withExpr {w : WithExpr} (hw : w.isWellFormed = true) (hk : k.follows = true)
    (hwith : k ≠ .word "with") :
    withExpr.Reads (w.lexemes ++ k :: ks) (k :: ks) (·.unplaced = w.unplaced) := by
  obtain ⟨left, right⟩ := w
  cases right with
  | none =>
    simp only [WithExpr.isWellFormed, Option.all_none, Bool.and_true] at hw
    rw [WithExpr.lexemes, Lexeme.introduced, List.append_nil]
    refine (reads_expr hw hk).bind fun e he => (reads_accept_of_ne hwith).bind ?_
    rintro _ rfl
    exact Reads.pure (by rw [WithExpr.unplaced, he]; rfl)
  | some right =>
    simp only [WithExpr.isWellFormed, Option.all_some, Bool.and_eq_true] at hw
    rw [WithExpr.lexemes, Lexeme.introduced, List.append_assoc, List.cons_append]
    refine (reads_expr hw.1 rfl).bind fun e he => reads_accept.bind ?_
    rintro _ rfl
    refine (reads_expr hw.2 hk).bind fun e' he' => ?_
    exact Reads.pure (by rw [WithExpr.unplaced, he, Option.map_some, he']; rfl)

/-- No word stands behind the first word of an expression that ends its line. -/
theorem lexemes_append_lineEnd (ks : List Lexeme) (e : Expr) : ∃ name m ms,
    e.lexemes ++ .lineEnd :: ks = .word name :: m :: ms ∧ m.isWord = false := by
  rcases e.lexemes_eq with ⟨id, rfl⟩ | ⟨name, op, ls, hls⟩
  · exact ⟨id.name, .lineEnd, ks, rfl, rfl⟩
  · exact ⟨name, op.lexeme, ls ++ .lineEnd :: ks, by rw [hls]; rfl, op.isWord_lexeme⟩

theorem reads_alone (o : Operand) (ho : o.isWellFormed = true) :
    simpleStatement.Reads (o.lexemes ++ .lineEnd :: ks) (.lineEnd :: ks)
      (·.unplaced = (alone o).unplaced) := by
  refine (reads_operand ho rfl).bind fun o' ho' =>
    (reads_relationKeyword_none (by decide) (by decide) (by decide)).bind ?_
  rintro _ rfl
  refine (reads_accept_of_ne (by decide)).bind ?_
  rintro _ rfl
  refine (reads_accept_of_ne (by decide)).bind ?_
  rintro _ rfl
  refine Reads.pure ?_
  cases o <;> cases o' <;> simp_all [Operand.unplaced, alone, Statement.unplaced]

theorem reads_simpleStatement {s : Statement} (hs : s.template? = none)
    (hwf : s.isWellFormed = true) :
    simpleStatement.Reads (s.lexemes ++ .lineEnd :: ks) (.lineEnd :: ks)
      (·.unplaced = s.unplaced) := by
  cases s with
  | template _ _ => cases hs
  | relation left kind right =>
    simp only [Statement.isWellFormed, Bool.and_eq_true] at hwf
    obtain ⟨name, m, ms, hright, hm⟩ := lexemes_append_lineEnd ks right
    obtain ⟨word, ls, hkind⟩ : ∃ word ls, kind.lexemes = .word word :: ls := by
      cases kind <;> exact ⟨_, _, rfl⟩
    have hkeyword := reads_relationKeyword kind name ms hm
    rw [← hright, hkind, List.cons_append] at hkeyword
    rw [Statement.lexemes, hkind, List.append_assoc, List.append_assoc, List.cons_append]
    refine (reads_operand hwf.1 rfl).bind fun o ho => hkeyword.bind ?_
    rintro _ rfl
    refine (reads_expr hwf.2 rfl).bind fun e he => Reads.pure ?_
    rw [Statement.unplaced, Statement.unplaced, ho, he]
  | cover left middle right =>
    simp only [Statement.isWellFormed, Bool.and_eq_true] at hwf
    rw [Statement.lexemes, List.append_assoc, List.append_assoc, List.cons_append, List.cons_append]
    refine (reads_operand hwf.1.1 rfl).bind fun o ho =>
      (reads_relationKeyword_none (by decide) (by decide) (by decide)).bind ?_
    rintro _ rfl
    refine reads_accept.bind ?_
    rintro _ rfl
    refine (reads_expr hwf.1.2 rfl).bind fun e he => reads_exactly.bind fun _ _ => ?_
    refine (reads_expr hwf.2 rfl).bind fun e' he' => Reads.pure ?_
    rw [Statement.unplaced, Statement.unplaced, ho, he, he']
  | represents view data shape =>
    simp only [Statement.isWellFormed, Bool.and_eq_true] at hwf
    rw [Statement.lexemes, List.append_assoc, List.append_assoc, List.cons_append]
    refine (reads_operand hwf.1.1 rfl).bind fun o ho =>
      (reads_relationKeyword_none (by decide) (by decide) (by decide)).bind ?_
    rintro _ rfl
    refine (reads_accept_of_ne (by decide)).bind ?_
    rintro _ rfl
    refine reads_accept.bind ?_
    rintro _ rfl
    cases shape with
    | none =>
      refine (reads_withExpr hwf.1.2 rfl (by decide)).bind fun w hw =>
        (reads_accept_of_ne (by decide)).bind ?_
      rintro _ rfl
      refine Reads.pure ?_
      rw [Statement.unplaced, Statement.unplaced, ho, hw]
    | some shape =>
      rw [Lexeme.introduced, List.cons_append]
      refine (reads_withExpr hwf.1.2 rfl (by decide)).bind fun w hw => reads_accept.bind ?_
      rintro _ rfl
      refine (reads_withExpr (by simpa using hwf.2) rfl (by decide)).bind fun w' hw' =>
        Reads.pure ?_
      rw [Statement.unplaced, Statement.unplaced, ho, hw, Option.map_some, hw', Option.map_some]
  | definition d => exact reads_alone (.definition d) hwf
  | term e => exact reads_alone (.expr e) hwf

/-! ## Looking ahead -/

/-- The lexemes go as the first line of a template does. -/
def OpensTemplate (ls : List Lexeme) : Prop :=
  ∃ l name m rest, ls = l :: .word name :: m :: rest ∧ isTemplateWord l = true ∧
    (m = .openParen ∨ m = .colon ∨
      m = .word "extends" ∧ ∃ base rest', rest = .word base :: .colon :: rest')

theorem opensTemplate_iff {ts : List Token} :
    opensTemplate ts = true ↔ OpensTemplate (ts.map Token.lexeme) := by
  constructor
  · intro h
    unfold opensTemplate at h
    split at h
    · rename_i t name span u rest
      simp only [Bool.and_eq_true, Bool.or_eq_true, beq_iff_eq] at h
      refine ⟨t.lexeme, name, u.lexeme, rest.map Token.lexeme, rfl, h.1, ?_⟩
      rcases h.2 with (hu | hu) | ⟨hu, hrest⟩
      · exact .inl hu
      · exact .inr (.inl hu)
      · refine .inr (.inr ⟨hu, ?_⟩)
        split at hrest
        · rename_i base span' v rest'
          exact ⟨base, rest'.map Token.lexeme, by simpa using hrest⟩
        · cases hrest
    · cases h
  · rintro ⟨l, name, m, ls, hls, hl, hm⟩
    obtain ⟨t, us, rfl, rfl, hus⟩ := List.map_eq_cons_iff.1 hls
    obtain ⟨span, vs, rfl, hvs⟩ := Token.exists_of_map_lexeme hus
    obtain ⟨v, rest, rfl, rfl, hrest⟩ := List.map_eq_cons_iff.1 hvs
    rcases hm with hv | hv | ⟨hv, base, ls', rfl⟩
    · simp [opensTemplate, hl, hv]
    · simp [opensTemplate, hl, hv]
    · obtain ⟨span', ws, rfl, hws⟩ := Token.exists_of_map_lexeme hrest
      obtain ⟨x, _, rfl, hx, _⟩ := List.map_eq_cons_iff.1 hws
      simp [opensTemplate, hl, hv, hx]

/-- The first lexeme of a template that is no word is a colon or a parenthesis. -/
theorem OpensTemplate.exists_mark {ls : List Lexeme} (h : OpensTemplate ls) :
    ∃ m rest, ls.dropWhile Lexeme.isWord = m :: rest ∧ (m = .colon ∨ m = .openParen) := by
  obtain ⟨l, name, m, rest, rfl, hl, hm⟩ := h
  have hword : l.isWord = true := by
    simp only [isTemplateWord, Bool.or_eq_true, beq_iff_eq] at hl
    rcases hl with rfl | rfl <;> rfl
  have hdrop : (l :: .word name :: m :: rest).dropWhile Lexeme.isWord =
      (m :: rest).dropWhile Lexeme.isWord := by
    rw [List.dropWhile_cons_of_pos hword, List.dropWhile_cons_of_pos rfl]
  rw [hdrop]
  rcases hm with rfl | rfl | ⟨rfl, base, rest', rfl⟩
  · exact ⟨.openParen, rest, rfl, .inr rfl⟩
  · exact ⟨.colon, rest, rfl, .inl rfl⟩
  · exact ⟨.colon, rest', rfl, .inl rfl⟩

end Reader

/-- The lexeme can stand in a line that begins with an expression. -/
def Lexeme.inExpr : Lexeme → Bool
  | word _ | dot | arrow => true
  | _ => false

theorem Expr.all_inExpr_lexemes (e : Expr) : e.lexemes.all Lexeme.inExpr = true := by
  induction e with
  | name id => rfl
  | binary op left right ihl ihr =>
    rw [Expr.lexemes, List.all_append, List.all_cons, ihl, ihr]
    cases op <;> rfl

theorem WithExpr.all_inExpr_lexemes (w : WithExpr) : w.lexemes.all Lexeme.inExpr = true := by
  obtain ⟨left, right⟩ := w
  cases right with
  | none => simp [lexemes, Lexeme.introduced, Expr.all_inExpr_lexemes]
  | some right => simp [lexemes, Lexeme.introduced, Expr.all_inExpr_lexemes, Lexeme.inExpr]

namespace Statement

/-- The line of a statement that is no template: an operand and, if more follows,
a keyword and other expressions. -/
theorem lexemes_eq {s : Statement} (hs : s.template? = none) (hwf : s.isWellFormed = true) :
    ∃ o ls, s.lexemes = Operand.lexemes o ++ ls ∧ o.isWellFormed = true ∧
      ls.all Lexeme.inExpr = true ∧
      (ls = [] ∧ s = Reader.alone o ∨ ∃ word ls', ls = .word word :: ls') := by
  cases s with
  | template _ _ => cases hs
  | relation left kind right =>
    simp only [isWellFormed, Bool.and_eq_true] at hwf
    refine ⟨left, kind.lexemes ++ right.lexemes, List.append_assoc _ _ _, hwf.1, ?_, .inr ?_⟩
    · rw [List.all_append, right.all_inExpr_lexemes]
      cases kind <;> rfl
    · cases kind <;> exact ⟨_, _, rfl⟩
  | cover left middle right =>
    simp only [isWellFormed, Bool.and_eq_true] at hwf
    refine ⟨left, _, List.append_assoc _ _ _, hwf.1.1, ?_, .inr ⟨_, _, rfl⟩⟩
    rw [List.cons_append, List.all_cons, List.all_append, List.all_cons, middle.all_inExpr_lexemes,
      right.all_inExpr_lexemes]
    rfl
  | represents view data shape =>
    simp only [isWellFormed, Bool.and_eq_true] at hwf
    refine ⟨view, _, List.append_assoc _ _ _, hwf.1.1, ?_, .inr ⟨_, _, rfl⟩⟩
    rw [List.cons_append, List.all_cons, List.all_append, data.all_inExpr_lexemes]
    cases shape with
    | none => rfl
    | some shape => rw [Lexeme.introduced, List.all_cons, shape.all_inExpr_lexemes]; rfl
  | definition d =>
    exact ⟨.definition d, [], (List.append_nil _).symm, hwf, rfl, .inl ⟨rfl, rfl⟩⟩
  | term e => exact ⟨.expr e, [], (List.append_nil _).symm, hwf, rfl, .inl ⟨rfl, rfl⟩⟩

theorem exists_lexemes_eq_cons {s : Statement} (hwf : s.isWellFormed = true) :
    ∃ name ls, s.lexemes = .word name :: ls := by
  cases hs : s.template? with
  | some t =>
    cases s with
    | template header body => exact ⟨"pattern", _, rfl⟩
    | _ => cases hs
  | none =>
    obtain ⟨o, ls, hls, ho, _⟩ := lexemes_eq hs hwf
    cases o with
    | definition d =>
      obtain ⟨name, m, ms, hd, _⟩ := Definition.lexemes_eq ho
      exact ⟨name, _, by rw [hls, Operand.lexemes, hd]; rfl⟩
    | expr e =>
      rcases e.lexemes_eq with ⟨id, rfl⟩ | ⟨name, op, ms, hms⟩
      · exact ⟨id.name, ls, hls⟩
      · exact ⟨name, _, by rw [hls, Operand.lexemes, hms]; rfl⟩

end Statement

namespace Reader

open Rule

variable {ks : List Lexeme} {ts : List Token} {s : Statement}

/-- On a line without colons and parentheses none of them is the first mark. -/
theorem dropWhile_isWord_eq_cons (ks : List Lexeme) {ls : List Lexeme}
    (h : ls.all Lexeme.inExpr = true) :
    ∃ m rest, (ls ++ .lineEnd :: ks).dropWhile Lexeme.isWord = m :: rest ∧
      m ≠ .colon ∧ m ≠ .openParen := by
  induction ls with
  | nil => exact ⟨.lineEnd, ks, rfl, by decide, by decide⟩
  | cons l ls ih =>
    simp only [List.all_cons, Bool.and_eq_true] at h
    cases l with
    | word name =>
      rw [List.cons_append, List.dropWhile_cons_of_pos rfl]
      exact ih h.2
    | dot => exact ⟨.dot, _, rfl, by decide, by decide⟩
    | arrow => exact ⟨.arrow, _, rfl, by decide, by decide⟩
    | _ => cases h.1

/-- No template opens on the line of a statement that is none: a word alone does
not stand before a second one, or no colon follows on the line. -/
theorem opensTemplate_eq_false (hs : s.template? = none) (hwf : s.isWellFormed = true)
    (hts : ts.map Token.lexeme = s.lexemes ++ .lineEnd :: ks) : opensTemplate ts = false := by
  rw [← Bool.not_eq_true, opensTemplate_iff, hts]
  intro hopens
  obtain ⟨o, ls, hls, ho, hall, _⟩ := Statement.lexemes_eq hs hwf
  cases o with
  | definition d =>
    obtain ⟨name, m, ms, hd, hm⟩ := Definition.lexemes_eq ho
    obtain ⟨l, name', m', rest, heq, _⟩ := hopens
    rw [hls, Operand.lexemes, hd] at heq
    simp only [List.cons_append, List.cons.injEq] at heq
    obtain ⟨_, rfl, _⟩ := heq
    rcases hm with hm | hm <;> cases hm
  | expr e =>
    have hline : s.lexemes.all Lexeme.inExpr = true := by
      rw [hls, List.all_append, hall, Operand.lexemes, e.all_inExpr_lexemes]
      rfl
    obtain ⟨m, rest, hdrop, hm⟩ := hopens.exists_mark
    obtain ⟨m', rest', hdrop', hm'⟩ := dropWhile_isWord_eq_cons ks hline
    rw [hdrop'] at hdrop
    cases hdrop
    exact hm.elim hm'.1 hm'.2

theorem atEnd_eq {l m : Lexeme} {ms : List Lexeme} (h : ts.map Token.lexeme = l :: m :: ms) :
    atEnd ts = (l == .word "end" && m.endsLine) := by
  obtain ⟨t, us, rfl, rfl, hus⟩ := List.map_eq_cons_iff.1 h
  obtain ⟨u, rest, rfl, rfl, _⟩ := List.map_eq_cons_iff.1 hus
  rfl

/-- The word `end` is alone on its line in the bare statement `end` only. -/
theorem atEnd_eq_false (hs : s.template? = none) (hwf : s.isWellFormed = true)
    (hend : s.isBareEnd = false) (hts : ts.map Token.lexeme = s.lexemes ++ .lineEnd :: ks) :
    atEnd ts = false := by
  obtain ⟨o, ls, hls, ho, _, hrest⟩ := Statement.lexemes_eq hs hwf
  rw [hls, List.append_assoc] at hts
  cases o with
  | definition d =>
    obtain ⟨name, m, ms, hd, hm⟩ := Definition.lexemes_eq ho
    rw [Operand.lexemes, hd] at hts
    rw [atEnd_eq hts]
    rcases hm with rfl | rfl <;> exact Bool.and_false _
  | expr e =>
    rw [Operand.lexemes] at hts
    rcases e.lexemes_eq with ⟨id, rfl⟩ | ⟨name, op, ms, hms⟩
    · rcases hrest with ⟨rfl, rfl⟩ | ⟨word, ls', rfl⟩
      · have hname : id.name ≠ "end" := by simpa [alone, Statement.isBareEnd] using hend
        rw [atEnd_eq hts]
        simp [Identifier.lexeme, hname]
      · rw [atEnd_eq hts]
        exact Bool.and_false _
    · rw [hms] at hts
      rw [atEnd_eq hts]
      cases op <;> exact Bool.and_false _

/-! ## Headers -/

theorem opensTemplate_lexemes (h : Header) : OpensTemplate (h.lexemes "pattern" ++ ks) := by
  obtain ⟨id, params, base⟩ := h
  cases params with
  | some ids => exact ⟨_, id.name, .openParen, _, rfl, rfl, .inl rfl⟩
  | none =>
    cases base with
    | none => exact ⟨_, id.name, .colon, _, rfl, rfl, .inr (.inl rfl)⟩
    | some base =>
      exact ⟨_, id.name, .word "extends", _, rfl, rfl, .inr (.inr ⟨rfl, base.name, ks, rfl⟩)⟩

theorem reads_parameters (ks : List Lexeme) {k : Lexeme} {params : Option (List Identifier)}
    (h : params.all Identifier.areWellFormed = true) (hk : k ≠ .openParen) :
    parameters.Reads ((params.map Identifier.listLexemes).getD [] ++ k :: ks) (k :: ks)
      (·.map (·.map Identifier.unplaced) = params.map (·.map Identifier.unplaced)) := by
  cases params with
  | none =>
    refine reads_nextIs.bind ?_
    rintro _ rfl
    rw [if_neg (by simpa using hk)]
    exact Reads.pure rfl
  | some ids =>
    refine Reads.bind (reads_nextIs (k := .openParen)) ?_
    rintro _ rfl
    rw [if_pos (by rfl)]
    refine Reads.map ((reads_arguments (by simpa using h)).imp fun as has => ?_)
    rw [Option.map_some, has, Option.map_some]

theorem reads_baseTemplate (ks : List Lexeme) (base : Option Identifier) :
    baseTemplate.Reads
      (Lexeme.introduced "extends" (fun id => [Identifier.lexeme id]) base ++ .colon :: ks)
      (.colon :: ks) (·.map Identifier.unplaced = base.map Identifier.unplaced) := by
  cases base with
  | none =>
    refine Reads.bind (reads_accept_of_ne (by decide)) ?_
    rintro _ rfl
    exact Reads.pure rfl
  | some id =>
    refine Reads.bind reads_accept ?_
    rintro _ rfl
    refine Reads.map ((reads_identifier id).imp fun id' hid => ?_)
    rw [Option.map_some, hid, Option.map_some]

theorem reads_header {h : Header} (hwf : h.isWellFormed = true) :
    header.Reads (h.lexemes "pattern" ++ .lineEnd :: ks) ks (·.unplaced = h.unplaced) := by
  obtain ⟨id, params, base⟩ := h
  simp only [Header.isWellFormed, Bool.and_eq_true] at hwf
  obtain ⟨k, ls, hk, hls⟩ : ∃ k ls, k ≠ .openParen ∧
      Lexeme.introduced "extends" (fun id => [Identifier.lexeme id]) base ++
        .colon :: .lineEnd :: ks = k :: ls := by
    cases base with
    | none => exact ⟨_, _, by decide, rfl⟩
    | some id => exact ⟨_, _, by decide, rfl⟩
  have hparams := reads_parameters ls hwf.1.2 hk
  have hbase := reads_baseTemplate (.lineEnd :: ks) base
  rw [hls] at hbase
  rw [Header.lexemes]
  simp only [List.cons_append, List.append_assoc, List.nil_append]
  rw [hls]
  refine reads_skip.bind fun _ _ => (reads_identifier id).bind fun id' hid => ?_
  refine hparams.bind fun params' hp => hbase.bind fun base' hb => reads_exactly.bind fun _ _ => ?_
  refine reads_accept.bind ?_
  rintro _ rfl
  exact Reads.pure (by rw [Header.unplaced, hid, hp, hb]; rfl)

end Reader

end InterfaceSchema
