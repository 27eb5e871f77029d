import InterfaceSchema.Proofs.Reading.Statements
import InterfaceSchema.Proofs.Reading.Tokens

/-!
# Lines of well-formed programs

The names of a well-formed program are words, so all that is printed of it can
be written: each of its lines begins with a word and holds no other lexemes than
those that stand within a line (`Program.printable_of_mem_lines`).
-/

namespace InterfaceSchema

theorem Identifier.isPrintable_lexeme (id : Identifier) :
    id.lexeme.isPrintable = id.isWellFormed := rfl

theorem Expr.all_isPrintable_lexemes {e : Expr} (h : e.isWellFormed = true) :
    e.lexemes.all Lexeme.isPrintable = true := by
  fun_induction Expr.isWellFormed e with
  | case1 id => simpa [lexemes, Identifier.isPrintable_lexeme] using h
  | case2 op left id ih =>
    simp only [Bool.and_eq_true] at h
    have hop : op.lexeme.isPrintable = true := by cases op <;> rfl
    simp [lexemes, Identifier.isPrintable_lexeme, h.2, hop, ih h.1]
  | case3 => cases h

theorem Identifier.all_isPrintable_listLexemes {ids : List Identifier}
    (h : Identifier.areWellFormed ids = true) :
    (Identifier.listLexemes ids).all Lexeme.isPrintable = true := by
  cases ids with
  | nil => cases h
  | cons id ids =>
    simp only [areWellFormed, List.all_cons, Bool.and_eq_true] at h
    have hids : (ids.flatMap fun id => [.comma, id.lexeme]).all Lexeme.isPrintable = true := by
      rw [List.all_flatMap]
      refine List.all_eq_true.2 fun id hid => ?_
      rw [List.all_cons, List.all_cons, isPrintable_lexeme, List.all_eq_true.1 h.2.2 id hid]
      rfl
    rw [listLexemes, Reader.intersperse_comma, List.cons_append, List.all_cons, List.cons_append,
      List.all_cons, List.all_append, hids, isPrintable_lexeme, h.2.1]
    rfl

theorem Decorator.all_isPrintable_lexemes {d : Decorator} (h : d.isWellFormed = true) :
    d.lexemes.all Lexeme.isPrintable = true := by
  cases d with
  | tag id =>
    rw [lexemes, List.all_cons, Identifier.isPrintable_lexeme, show id.isWellFormed = true from h]
    rfl
  | call template args =>
    simp only [isWellFormed, Bool.and_eq_true] at h
    rw [lexemes, List.cons_append, List.all_cons, List.all_append,
      Identifier.all_isPrintable_listLexemes h.2, Identifier.isPrintable_lexeme, h.1]
    rfl

theorem Definition.all_isPrintable_lexemes {d : Definition} (h : d.isWellFormed = true) :
    d.lexemes.all Lexeme.isPrintable = true := by
  simp only [isWellFormed, Bool.and_eq_true] at h
  have hdecorators : (d.decorators.flatMap Decorator.lexemes).all Lexeme.isPrintable = true := by
    rw [List.all_flatMap]
    exact List.all_eq_true.2 fun e he =>
      Decorator.all_isPrintable_lexemes (List.all_eq_true.1 h.1.2 e he)
  rw [lexemes, List.all_append, hdecorators, List.all_cons, Identifier.isPrintable_lexeme, h.2]
  rfl

theorem Operand.all_isPrintable_lexemes {o : Operand} (h : o.isWellFormed = true) :
    o.lexemes.all Lexeme.isPrintable = true := by
  cases o with
  | definition d => exact Definition.all_isPrintable_lexemes h
  | expr e => exact Expr.all_isPrintable_lexemes h

theorem Lexeme.all_isPrintable_introduced {α : Type} {word : String} {lexemes : α → List Lexeme}
    {x : Option α} (hword : (Lexeme.word word).isPrintable = true)
    (hx : ∀ a ∈ x, (lexemes a).all isPrintable = true) :
    (introduced word lexemes x).all isPrintable = true := by
  cases x with
  | none => rfl
  | some a => rw [introduced, List.all_cons, hword, hx a rfl]; rfl

theorem WithExpr.all_isPrintable_lexemes {w : WithExpr} (h : w.isWellFormed = true) :
    w.lexemes.all Lexeme.isPrintable = true := by
  simp only [isWellFormed, Bool.and_eq_true] at h
  rw [lexemes, List.all_append, Expr.all_isPrintable_lexemes h.1, Bool.true_and]
  refine Lexeme.all_isPrintable_introduced (by decide) fun e he => ?_
  exact Expr.all_isPrintable_lexemes (by simpa [Option.mem_def.1 he] using h.2)

theorem Header.all_isPrintable_lexemes {h : Header} (hwf : h.isWellFormed = true) :
    (h.lexemes "pattern").all Lexeme.isPrintable = true := by
  obtain ⟨id, params, base⟩ := h
  simp only [isWellFormed, Bool.and_eq_true] at hwf
  have hparams : ((params.map Identifier.listLexemes).getD []).all Lexeme.isPrintable = true := by
    cases params with
    | none => rfl
    | some ids => exact Identifier.all_isPrintable_listLexemes (by simpa using hwf.1.2)
  have hbase : (Lexeme.introduced "extends" (fun id => [Identifier.lexeme id]) base).all
      Lexeme.isPrintable = true := by
    refine Lexeme.all_isPrintable_introduced (by decide) fun id hid => ?_
    rw [List.all_cons, Identifier.isPrintable_lexeme]
    simpa [Option.mem_def.1 hid] using hwf.2
  rw [lexemes, List.all_cons, List.all_cons, List.all_append, List.all_append, hparams, hbase,
    Identifier.isPrintable_lexeme, hwf.1.1]
  rfl

theorem RelationKind.all_isPrintable_lexemes (kind : RelationKind) :
    kind.lexemes.all Lexeme.isPrintable = true := by
  cases kind <;> decide

theorem Statement.all_isPrintable_lexemes {s : Statement} (h : s.isWellFormed = true) :
    s.lexemes.all Lexeme.isPrintable = true := by
  cases s with
  | relation left kind right =>
    simp only [isWellFormed, Bool.and_eq_true] at h
    rw [lexemes, List.all_append, List.all_append, Operand.all_isPrintable_lexemes h.1,
      kind.all_isPrintable_lexemes, Expr.all_isPrintable_lexemes h.2]
    rfl
  | cover left middle right =>
    simp only [isWellFormed, Bool.and_eq_true] at h
    rw [lexemes, List.all_append, List.all_append, List.all_cons, List.all_cons,
      Operand.all_isPrintable_lexemes h.1.1, Expr.all_isPrintable_lexemes h.1.2,
      Expr.all_isPrintable_lexemes h.2]
    decide
  | represents view data shape =>
    simp only [isWellFormed, Bool.and_eq_true] at h
    have hshape : (Lexeme.introduced "as" WithExpr.lexemes shape).all Lexeme.isPrintable = true :=
      Lexeme.all_isPrintable_introduced (by decide) fun w hw =>
        WithExpr.all_isPrintable_lexemes (by simpa [Option.mem_def.1 hw] using h.2)
    rw [lexemes, List.all_append, List.all_append, List.all_cons,
      Operand.all_isPrintable_lexemes h.1.1, WithExpr.all_isPrintable_lexemes h.1.2, hshape]
    decide
  | template header body =>
    simp only [isWellFormed, Bool.and_eq_true] at h
    exact Header.all_isPrintable_lexemes h.1.1.1
  | definition d => exact Definition.all_isPrintable_lexemes h
  | term e => exact Expr.all_isPrintable_lexemes h

theorem Statement.printable_first {s : Statement} (h : s.isWellFormed = true) (depth : Nat) :
    (⟨depth, s.lexemes⟩ : Line).Printable where
  opens := Statement.exists_lexemes_eq_cons h
  within := List.all_eq_true.1 (Statement.all_isPrintable_lexemes h)

mutual
theorem Statement.printable_of_mem_linesAt {l : Line} : ∀ {s : Statement} {depth : Nat},
    s.isWellFormed = true → l ∈ s.linesAt depth → l.Printable
  | .template header body, depth, h, hl => by
    have hfirst := Statement.printable_first h depth
    simp only [isWellFormed, Bool.and_eq_true] at h
    rw [linesAt, List.cons_append, List.mem_cons, List.mem_append, List.mem_singleton] at hl
    rcases hl with rfl | hl | rfl
    · exact hfirst
    · exact Statement.printable_of_mem_linesAtAll h.2 hl
    · refine ⟨⟨"end", [], rfl⟩, fun x hx => ?_⟩
      obtain rfl := List.mem_singleton.1 hx
      decide
  | .relation _ _ _, depth, h, hl => List.mem_singleton.1 hl ▸ Statement.printable_first h depth
  | .cover _ _ _, depth, h, hl => List.mem_singleton.1 hl ▸ Statement.printable_first h depth
  | .represents _ _ _, depth, h, hl => List.mem_singleton.1 hl ▸ Statement.printable_first h depth
  | .definition _, depth, h, hl => List.mem_singleton.1 hl ▸ Statement.printable_first h depth
  | .term _, depth, h, hl => List.mem_singleton.1 hl ▸ Statement.printable_first h depth

theorem Statement.printable_of_mem_linesAtAll {l : Line} : ∀ {ss : List Statement} {depth : Nat},
    Statement.areWellFormed ss = true → l ∈ Statement.linesAtAll depth ss → l.Printable
  | [], _, _, hl => by cases hl
  | s :: ss, depth, h, hl => by
    simp only [areWellFormed, Bool.and_eq_true] at h
    rcases List.mem_append.1 hl with hl | hl
    · exact Statement.printable_of_mem_linesAt h.1 hl
    · exact Statement.printable_of_mem_linesAtAll h.2 hl
end

theorem Program.printable_of_mem_lines {p : Program} (h : p.isWellFormed = true) {l : Line}
    (hl : l ∈ p.lines) : l.Printable :=
  Statement.printable_of_mem_linesAtAll h hl

end InterfaceSchema
