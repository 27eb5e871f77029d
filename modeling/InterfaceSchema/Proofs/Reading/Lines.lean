import InterfaceSchema.Proofs.Reading.Lookahead

/-!
# Reading line by line

A template is read one line after the other, so where it ends its lines have decided
it, and it can fail for what stands below only where the text ends before it does
(`Rule.DecidedByLines`). The lines that a program is read from spell its statements, each
in lines of its own (`Reader.Spells`), and what stands below them is read behind these
statements (`Program.ofTokens_append`).
-/

namespace InterfaceSchema

/-- Whatever stands below, the rule makes the same value of the first of the lines and
leaves a rest of the last of these, with `P`, or it fails if the text ends behind the
lines. -/
def Rule.DecidedByLines {α : Type} (r : Rule α) (ls : List (List Token)) (e : Token)
    (P : α → List Token → Prop) : Prop :=
  (∃ a us count, P a us ∧ ∀ vs, r ((ls.take (count + 1)).flatten ++ vs) = .ok a (us ++ vs)) ∨
    ∃ x rest, x.line ≠ 0 ∧ r (ls.flatten ++ [e]) = .error x rest

namespace Rule.DecidedByLines

variable {α β : Type} {r r' : Rule α} {l : List Token} {ls : List (List Token)} {e : Token}
  {P : α → List Token → Prop} {Q : β → List Token → Prop}

theorem of_line (h : r.DecidedBy l P) : r.DecidedByLines (l :: ls) e P := by
  obtain ⟨a, us, hus, hok⟩ | ⟨x, hx, herror⟩ := h
  · exact .inl ⟨a, us, 0, hus, fun vs => by simpa using hok vs⟩
  · obtain ⟨rest, hrest⟩ := herror (ls.flatten ++ [e])
    exact .inr ⟨x, rest, hx, by rw [List.flatten_cons, List.append_assoc, hrest]⟩

theorem cons (h : ∀ vs, r (l ++ vs) = r' vs) (hr' : r'.DecidedByLines ls e P) :
    r.DecidedByLines (l :: ls) e P := by
  obtain ⟨a, us, count, hus, hok⟩ | ⟨x, rest, hx, herror⟩ := hr'
  · refine .inl ⟨a, us, count + 1, hus, fun vs => ?_⟩
    rw [List.take_succ_cons, List.flatten_cons, List.append_assoc, h, hok]
  · exact .inr ⟨x, rest, hx, by rw [List.flatten_cons, List.append_assoc, h, herror]⟩

theorem bind {f : α → Rule β} (hr : r.DecidedByLines ls e P)
    (hf : ∀ a us, P a us → (f a).DecidedBy us Q) : (r >>= f).DecidedByLines ls e Q := by
  obtain ⟨a, us, count, hus, hr⟩ | ⟨x, rest, hx, hr⟩ := hr
  · obtain ⟨b, us', hQ, hf⟩ | ⟨x, hx, hf⟩ := hf a us hus
    · exact .inl ⟨b, us', count, hQ, fun vs => by simp only [Bind.bind, EStateM.bind, hr, hf]⟩
    · have hsplit : ls.flatten ++ [e] =
          (ls.take (count + 1)).flatten ++ ((ls.drop (count + 1)).flatten ++ [e]) := by
        rw [← List.append_assoc, ← List.flatten_append, List.take_append_drop]
      obtain ⟨rest, hf⟩ := hf ((ls.drop (count + 1)).flatten ++ [e])
      exact .inr ⟨x, rest, hx, by simp only [hsplit, Bind.bind, EStateM.bind, hr, hf]⟩
  · exact .inr ⟨x, rest, hx, by simp only [Bind.bind, EStateM.bind, hr]⟩

end Rule.DecidedByLines

namespace Reader

open Rule

variable {l : List Token} {ls : List (List Token)} {e : Token}

section

variable (hls : ∀ l ∈ ls, RestOfLine l) (he : e.lexeme = .endOfText) (hplace : e.span.line ≠ 0)

include hls he hplace

/-- The lines of a body, up to the `end` of the outermost template. -/
theorem decided_iterate_bodyStep (n : Nesting) :
    Rule.DecidedByLines (Rule.iterate bodyStep (fun h => shrinks_bodyStep _ h) n) ls e
      fun _ us => RestOfLine us := by
  induction ls generalizing n with
  | nil =>
    obtain ⟨l, span⟩ := e
    obtain rfl : l = .endOfText := he
    have hfail : bodyStep n [⟨.endOfText, span⟩] =
        .error (.at ⟨.endOfText, span⟩ n.inner.closing) [⟨.endOfText, span⟩] := rfl
    refine .inr ⟨_, _, ?_, iterate_of_error _ hfail⟩
    rw [line_at]
    exact hplace
  | cons l ls ih =>
    obtain ⟨hl, hls⟩ := List.forall_mem_cons.1 hls
    -- the line is decided, so only a text that ends inside the template is left to fail
    obtain ⟨x, us, hx, hok⟩ | ⟨x, hx, herror⟩ := decided_bodyStep hl n
    · cases x with
      | inl n' =>
        obtain rfl : us = [] := hx
        exact .cons (fun vs => iterate_of_inl _ (hok vs)) (ih hls n')
      | inr s => exact .of_line (.inl ⟨s, us, hx, fun vs => iterate_of_inr _ (hok vs)⟩)
    · refine .of_line (.inr ⟨x, hx, fun vs => ?_⟩)
      obtain ⟨rest, hrest⟩ := herror vs
      exact ⟨rest, iterate_of_error _ hrest⟩

/-- A statement begins on the first line and ends on one of the lines. -/
theorem decided_statement (hl : RestOfLine l) :
    statement.DecidedByLines (l :: ls) e fun _ us => RestOfLine us := by
  have hstatement (vs : List Token) : statement (l ++ vs) =
      if opensTemplate l = true then template (l ++ vs) else simpleStatement (l ++ vs) := by
    rw [statement, opensTemplate_append hl]
  split at hstatement
  · rename_i hopens
    obtain ⟨h, us, hus, hok⟩ | ⟨x, hx, herror⟩ := decided_header hl hopens
    · obtain rfl : us = [] := hus
      refine .cons (fun vs => ?_) (decided_iterate_bodyStep hls he hplace ⟨⟨h, []⟩, []⟩)
      simp only [hstatement, template, Bind.bind, EStateM.bind, hok]
      rfl
    · refine .of_line (.inr ⟨x, hx, fun vs => ?_⟩)
      obtain ⟨rest, hrest⟩ := herror vs
      exact ⟨rest, by simp only [hstatement, template, Bind.bind, EStateM.bind, hrest]⟩
  · exact .of_line (.congr hstatement (decided_simpleStatement hl))

/-- A statement with the end of its line. -/
def endedStatement : Rule Statement := do
  let s ← statement
  lineEnd
  return s

theorem decided_endedStatement (hl : RestOfLine l) :
    endedStatement.DecidedByLines (l :: ls) e fun _ us => us = [] :=
  (decided_statement hls he hplace hl).bind fun _ _ h => (decided_lineEnd h).bind fun _ _ h => .pure h

end

/-! ## Lines of programs -/

theorem programStep_of_lineEnd {t : Token} (ht : t.lexeme = .lineEnd) (before : List Statement)
    (ts : List Token) : programStep before (t :: ts) = programStep before ts := by
  have hskip : skipLineEnds (t :: ts) = skipLineEnds ts := by
    rw [skipLineEnds, List.dropWhile_cons_of_pos (by rw [ht]; rfl)]
    rfl
  simp only [programStep, Bind.bind, EStateM.bind, hskip]

/-- On a line that is not empty a statement begins, unless the line is indented. -/
theorem programStep_append (h : RestOfLine l) (hnext : (next l).lexeme.endsLine = false)
    (before : List Statement) (vs : List Token) : programStep before (l ++ vs) =
      if (next l).lexeme.isIndent then .error (.strayIndentation (next l).span) (l ++ vs)
      else ((fun s => .inl (before ++ [s])) <$> endedStatement) (l ++ vs) := by
  have hskip : skipLineEnds (l ++ vs) = .ok () (l ++ vs) := by
    cases h with
    | lineEnd ht _ =>
      rw [next, List.headD_cons, ht] at hnext
      cases hnext
    | @cons t us ht _ _ =>
      rw [skipLineEnds, List.cons_append, List.dropWhile_cons_of_neg]
      intro hend
      rw [eq_of_beq hend] at ht
      cases ht
  have hended : nextIs .endOfText (l ++ vs) = .ok false (l ++ vs) := by
    have hne : (next l).lexeme ≠ .endOfText := by
      intro hend
      rw [hend] at hnext
      cases hnext
    rw [nextIs, next_append h, beq_false_of_ne hne]
  simp only [programStep, Bind.bind, EStateM.bind, hskip, hended]
  show (if (next (l ++ vs)).lexeme.isIndent then _ else _ : Rule _) (l ++ vs) = _
  rw [next_append h]
  split
  · rfl
  · simp only [endedStatement, map_bind, map_pure]
    rfl

/-- The lines are empty, or one statement is read from the first of them, or none can
be read. -/
theorem decided_programStep (hls : ∀ l ∈ ls, RestOfLine l) (he : e.lexeme = .endOfText)
    (hplace : e.span.line ≠ 0) :
    (∀ before vs, programStep before (ls.flatten ++ vs) = programStep before vs) ∨
    (∃ s count, ∀ before vs, programStep before ((ls.take (count + 1)).flatten ++ vs) =
      .ok (.inl (before ++ [s])) vs) ∨
    ∃ x rest, x.line ≠ 0 ∧ ∀ before, programStep before (ls.flatten ++ [e]) = .error x rest := by
  induction ls with
  | nil => exact .inl fun _ _ => rfl
  | cons l ls ih =>
    obtain ⟨hl, hrest⟩ := List.forall_mem_cons.1 hls
    cases hnext : (next l).lexeme.endsLine with
    | true =>
      obtain ⟨t, rfl, ht⟩ := hl.eq_singleton hnext
      have hstep (before : List Statement) (vs : List Token) :
          programStep before ([t] ++ vs) = programStep before vs := programStep_of_lineEnd ht before vs
      obtain hblank | ⟨s, count, hok⟩ | ⟨x, rest, hx, herror⟩ := ih hrest
      · refine .inl fun before vs => ?_
        rw [List.flatten_cons, List.append_assoc, hstep, hblank]
      · refine .inr (.inl ⟨s, count + 1, fun before vs => ?_⟩)
        rw [List.take_succ_cons, List.flatten_cons, List.append_assoc, hstep, hok]
      · refine .inr (.inr ⟨x, rest, hx, fun before => ?_⟩)
        rw [List.flatten_cons, List.append_assoc, hstep, herror]
    | false =>
      have hstep := programStep_append hl hnext
      cases hindent : (next l).lexeme.isIndent with
      | true =>
        refine .inr (.inr ⟨.strayIndentation (next l).span, l ++ (ls.flatten ++ [e]),
          line_next_ne_zero hl, fun before => ?_⟩)
        rw [List.flatten_cons, List.append_assoc, hstep, if_pos hindent]
      | false =>
        obtain ⟨s, us, count, rfl, hok⟩ | ⟨x, rest, hx, herror⟩ :=
          decided_endedStatement hrest he hplace hl
        · refine .inr (.inl ⟨s, count, fun before vs => ?_⟩)
          have hs := hok vs
          rw [List.take_succ_cons, List.flatten_cons, List.append_assoc] at hs ⊢
          rw [hstep, hindent, if_neg Bool.false_ne_true]
          simp only [Functor.map, EStateM.map, hs]
          rfl
        · refine .inr (.inr ⟨x, rest, hx, fun before => ?_⟩)
          rw [List.flatten_cons, List.append_assoc] at herror ⊢
          rw [hstep, hindent, if_neg Bool.false_ne_true]
          simp only [Functor.map, EStateM.map, herror]

/-- The lines spell the statements: each is read from lines of its own, whatever stands
before and below them. -/
inductive Spells : List (List Token) → List Statement → Prop
  | blank {ls : List (List Token)}
    (h : ∀ before vs, programStep before (ls.flatten ++ vs) = programStep before vs) : Spells ls []
  | statement {ls ls' : List (List Token)} {s ss} (h : ∀ before vs,
      programStep before (ls.flatten ++ vs) = .ok (.inl (before ++ [s])) vs)
    (hss : Spells ls' ss) : Spells (ls ++ ls') (s :: ss)

/-- Reads all statements that are left, behind others. -/
def programFrom (before : List Statement) (ts : List Token) :
    EStateM.Result SyntaxError (List Token) Program :=
  Rule.iterate programStep programStep_shrinks before ts

theorem programFrom_of_inl {before before' : List Statement} {ts rest : List Token}
    (h : programStep before ts = .ok (.inl before') rest) :
    programFrom before ts = programFrom before' rest := iterate_of_inl _ h

theorem programFrom_congr {before : List Statement} {ts ts' : List Token}
    (h : programStep before ts = programStep before ts') :
    programFrom before ts = programFrom before ts' := by
  rw [programFrom, iterate, h, programFrom, iterate]

namespace Spells

variable {ss : List Statement}

/-- Behind the lines the reading goes on with their statements. -/
theorem programFrom_append (h : Spells ls ss) (before : List Statement) (vs : List Token) :
    programFrom before (ls.flatten ++ vs) = programFrom (before ++ ss) vs := by
  induction h generalizing before with
  | blank h => rw [List.append_nil, programFrom_congr (h before vs)]
  | @statement ls ls' s ss h _ ih =>
    rw [List.flatten_append, List.append_assoc, programFrom_of_inl (h before _), ih,
      List.append_assoc, List.singleton_append]

theorem exists_take (h : Spells ls ss) (n : Nat) : ∃ m, Spells (ls.take m) (ss.take n) := by
  induction h generalizing n with
  | @blank ls h => exact ⟨ls.length, by rw [List.take_length, List.take_nil]; exact .blank h⟩
  | @statement ls ls' s ss h _ ih =>
    cases n with
    | zero => exact ⟨0, .blank fun _ _ => rfl⟩
    | succ n =>
      obtain ⟨m, hm⟩ := ih n
      exact ⟨ls.length + m, by rw [List.take_length_add_append]; exact .statement h hm⟩

end Spells

/-- Lines spell statements, or the reading fails at a token. -/
theorem exists_spells (hls : ∀ l ∈ ls, RestOfLine l) (he : e.lexeme = .endOfText)
    (hplace : e.span.line ≠ 0) : (∃ ss, Spells ls ss) ∨
      ∃ x rest, x.line ≠ 0 ∧ ∀ before, programFrom before (ls.flatten ++ [e]) = .error x rest := by
  induction hn : ls.length using Nat.strongRecOn generalizing ls with
  | ind n ih =>
  obtain hblank | ⟨s, count, hok⟩ | ⟨x, rest, hx, herror⟩ := decided_programStep hls he hplace
  · exact .inl ⟨[], .blank hblank⟩
  · -- a statement takes tokens, so fewer lines are left
    have hless : (ls.drop (count + 1)).length < n := by
      have hfirst := programStep_shrinks (hok [] [])
      have hne : ls ≠ [] := by
        rintro rfl
        simp at hfirst
      have := List.length_pos_iff.2 hne
      rw [List.length_drop]
      omega
    have hrest (l : List Token) (hl : l ∈ ls.drop (count + 1)) := hls l (List.mem_of_mem_drop hl)
    have hsplit := List.take_append_drop (count + 1) ls
    obtain ⟨ss, hss⟩ | ⟨x, rest, hx, herror⟩ := ih _ hless hrest rfl
    · exact .inl ⟨s :: ss, hsplit ▸ .statement hok hss⟩
    · refine .inr ⟨x, rest, hx, fun before => ?_⟩
      rw [← hsplit, List.flatten_append, List.append_assoc, programFrom_of_inl (hok before _), herror]
  · exact .inr ⟨x, rest, hx, fun before => iterate_of_error _ (herror before)⟩

theorem programFrom_endOfText (he : e.lexeme = .endOfText) (before : List Statement) :
    programFrom before [e] = .ok ⟨before⟩ [e] := by
  obtain ⟨l, span⟩ := e
  obtain rfl : l = .endOfText := he
  exact iterate_of_inr _ rfl

end Reader

namespace Program

/-- The schema that tokens spell behind statements that have been read. -/
def ofTokensBehind (before : List Statement) (ts : List Token) : Except SyntaxError Program :=
  match Reader.programFrom before ts with
  | .ok p _ => .ok p
  | .error e _ => .error e

theorem ofTokens_eq (ts : List Token) : ofTokens ts = ofTokensBehind [] ts := rfl

variable {ls : List (List Token)} {e : Token} {ss : List Statement} {p : Program}

theorem ofTokens_append (h : Reader.Spells ls ss) (vs : List Token) :
    ofTokens (ls.flatten ++ vs) = ofTokensBehind ss vs := by
  rw [ofTokens_eq, ofTokensBehind, h.programFrom_append, List.nil_append, ofTokensBehind]

theorem ofTokens_of_spells (h : Reader.Spells ls ss) (he : e.lexeme = .endOfText) :
    ofTokens (ls.flatten ++ [e]) = .ok ⟨ss⟩ := by
  rw [ofTokens_append h, ofTokensBehind, Reader.programFrom_endOfText he]

section

variable (hls : ∀ l ∈ ls, RestOfLine l) (he : e.lexeme = .endOfText) (hplace : e.span.line ≠ 0)

include hls he hplace

theorem spells_of_ofTokens (h : ofTokens (ls.flatten ++ [e]) = .ok p) :
    Reader.Spells ls p.statements := by
  obtain ⟨ss, hss⟩ | ⟨x, rest, _, herror⟩ := Reader.exists_spells hls he hplace
  · rw [ofTokens_of_spells hss he] at h
    cases h
    exact hss
  · rw [ofTokens_eq, ofTokensBehind, herror] at h
    cases h

theorem line_ne_zero_of_ofTokens {x : SyntaxError} (h : ofTokens (ls.flatten ++ [e]) = .error x) :
    x.line ≠ 0 := by
  obtain ⟨ss, hss⟩ | ⟨y, rest, hy, herror⟩ := Reader.exists_spells hls he hplace
  · rw [ofTokens_of_spells hss he] at h
    cases h
  · rw [ofTokens_eq, ofTokensBehind, herror] at h
    cases h
    exact hy

end

end Program

end InterfaceSchema
