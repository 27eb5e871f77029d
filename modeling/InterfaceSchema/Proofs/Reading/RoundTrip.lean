import InterfaceSchema.Proofs.Reading.Printed

/-!
# Reading what was printed

The lines of a statement in a body add it to the innermost open template
(`reads_body`): a header opens a template in front of the ones that are open,
the lines of its body are added to it, and its `end` adds it to the next one. So
the text of a well-formed program is read as that program (`Program.ofText_text`).
-/

namespace InterfaceSchema

namespace Reader

open Rule

def OpenTemplate.unplaced (t : OpenTemplate) : OpenTemplate :=
  ⟨t.header.unplaced, t.body.map Statement.unplaced⟩

namespace Nesting

def unplaced (n : Nesting) : Nesting := ⟨n.inner.unplaced, n.outer.map OpenTemplate.unplaced⟩

/-- Adds statements to the innermost body. -/
def addAll (n : Nesting) (ss : List Statement) : Nesting :=
  ⟨⟨n.inner.header, n.inner.body ++ ss⟩, n.outer⟩

end Nesting

namespace OpenTemplate

theorem unplaced_add (t : OpenTemplate) (s : Statement) :
    (t.add s).unplaced = t.unplaced.add s.unplaced := by
  simp [unplaced, add]

theorem unplaced_close (t : OpenTemplate) : t.close.unplaced = t.unplaced.close := by
  rw [close, Statement.unplaced, Statement.unplacedAll_eq_map]
  rfl

/-- A template that was given the statements `ss` can be closed. -/
theorem body_ne_nil {t : OpenTemplate} {h : Header} {ss : List Statement}
    (ht : t.unplaced = OpenTemplate.unplaced ⟨h, ss⟩) (hne : ss ≠ []) : t.body ≠ [] := by
  intro hnil
  have hbody : t.body.map Statement.unplaced = ss.map Statement.unplaced := congrArg body ht
  rw [hnil] at hbody
  exact hne (List.map_eq_nil_iff.1 hbody.symm)

end OpenTemplate

variable {n : Nesting} {ks ms : List Lexeme} {depth : Nat} {s : Statement}

/-! ## Lines of a body -/

theorem bodyStep_shrinks {n n' : Nesting} {ts rest : List Token}
    (h : bodyStep n ts = .ok (.inl n') rest) : rest.length < ts.length := shrinks_bodyStep n h

/-- The lines inside the open templates, up to the `end` of the outermost. -/
def body (n : Nesting) : Rule Statement := Rule.iterate bodyStep bodyStep_shrinks n

/-- Behind its indentation a line that is no `end` is read into the body. -/
theorem reads_bodyStep {name : String} {ls : List Lexeme} {P : Nesting ⊕ Statement → Prop}
    (hend : ∀ ts : List Token, ts.map Token.lexeme = .word name :: ls → atEnd ts = false)
    (h : (bodyLine n).Reads (.word name :: ls) ks P) :
    (bodyStep n).Reads (.indent depth :: .word name :: ls) ks P := by
  refine reads_acceptIndent.bind ?_
  rintro _ rfl
  refine Reads.get.bind fun here hhere => ?_
  rw [if_neg (by rw [hend here hhere]; decide)]
  refine reads_nextIs.bind ?_
  rintro _ rfl
  rw [if_neg (by simp), if_pos rfl]
  exact h

theorem reads_bodyStep_line (n : Nesting) (hs : s.template? = none) (hwf : s.isWellFormed = true)
    (hend : s.isBareEnd = false) :
    (bodyStep n).Reads (.indent depth :: (s.lexemes ++ .lineEnd :: ks)) ks
      fun x => ∃ n', x = .inl n' ∧ n'.unplaced = (n.addAll [s]).unplaced := by
  obtain ⟨inner, outer⟩ := n
  obtain ⟨name, ls, hls⟩ := Statement.exists_lexemes_eq_cons hwf
  have hline : (bodyLine ⟨inner, outer⟩).Reads (s.lexemes ++ .lineEnd :: ks) ks
      fun x => ∃ n', x = .inl n' ∧
        n'.unplaced = (Nesting.addAll ⟨inner, outer⟩ [s]).unplaced := by
    refine Reads.get.bind fun here hhere => ?_
    rw [if_neg (by rw [opensTemplate_eq_false hs hwf hhere]; decide)]
    refine (reads_simpleStatement hs hwf).bind fun s' hs' => reads_bodyLineEnd.bind fun _ _ => ?_
    refine Reads.pure ⟨_, rfl, ?_⟩
    simp [Nesting.unplaced, Nesting.addAll, OpenTemplate.unplaced, OpenTemplate.add, hs']
  rw [hls] at hline ⊢
  exact reads_bodyStep (fun ts hts => atEnd_eq_false hs hwf hend (by rw [hls]; exact hts)) hline

theorem reads_bodyStep_header (n : Nesting) {h : Header} (hwf : h.isWellFormed = true) :
    (bodyStep n).Reads (.indent depth :: (h.lexemes "pattern" ++ .lineEnd :: ks)) ks
      fun x => ∃ n', x = .inl n' ∧
        n'.unplaced = (⟨⟨h, []⟩, n.inner :: n.outer⟩ : Nesting).unplaced := by
  obtain ⟨inner, outer⟩ := n
  refine reads_bodyStep (fun ts hts => ?_) ?_
  · rw [atEnd_eq hts]
    rfl
  · refine Reads.get.bind fun here hhere => ?_
    rw [if_pos (opensTemplate_iff.2 (hhere ▸ opensTemplate_lexemes h))]
    refine Reads.bind (reads_header hwf) fun h' hh => ?_
    refine Reads.pure ⟨_, rfl, ?_⟩
    simp [Nesting.unplaced, OpenTemplate.unplaced, hh]

/-- The `end` of a template adds it to the next one. -/
theorem reads_bodyStep_end {inner up : OpenTemplate} {outer : List OpenTemplate}
    (hne : inner.body ≠ []) :
    (bodyStep ⟨inner, up :: outer⟩).Reads (.indent depth :: .word "end" :: .lineEnd :: ks) ks
      (· = .inl ⟨up.add inner.close, outer⟩) := by
  refine reads_acceptIndent.bind ?_
  rintro _ rfl
  refine Reads.get.bind fun here hhere => ?_
  rw [if_pos (by rw [atEnd_eq hhere]; rfl)]
  refine Reads.get.bind fun here hhere => ?_
  rw [if_neg (by simpa using hne)]
  refine reads_exactly.bind fun _ _ => reads_bodyLineEnd.bind fun _ _ => Reads.pure rfl

/-- The `end` of the outermost template closes it. -/
theorem reads_bodyStep_end_outermost {inner : OpenTemplate} (hne : inner.body ≠ []) :
    (bodyStep ⟨inner, []⟩).Reads (.word "end" :: .lineEnd :: ks) (.lineEnd :: ks)
      (· = .inr inner.close) := by
  refine reads_acceptIndent_of_word.bind ?_
  rintro _ rfl
  refine Reads.get.bind fun here hhere => ?_
  rw [if_pos (by rw [atEnd_eq hhere]; rfl)]
  refine Reads.get.bind fun here hhere => ?_
  rw [if_neg (by simpa using hne)]
  exact reads_exactly.bind fun _ _ => Reads.pure rfl

theorem reads_body_of_step {P : Statement → Prop} {I : Nesting → Prop} {ls : List Lexeme}
    (hstep : (bodyStep n).Reads ls ms fun x => ∃ n', x = .inl n' ∧ I n')
    (hrest : ∀ n', I n' → (body n').Reads ms ks P) : (body n).Reads ls ks P :=
  Reads.iterate_inl bodyStep_shrinks hstep hrest

theorem Nesting.unplaced_addAll (n : Nesting) (ss : List Statement) :
    (n.addAll ss).unplaced = n.unplaced.addAll (ss.map Statement.unplaced) := by
  simp [unplaced, addAll, OpenTemplate.unplaced]

theorem reads_body_line {P : Statement → Prop} (hs : s.template? = none)
    (hwf : s.isWellFormed = true) (hend : s.isBareEnd = false)
    (hrest : ∀ n' : Nesting, n'.unplaced = (n.addAll [s]).unplaced → (body n').Reads ms ks P) :
    (body n).Reads ((s.linesAt (depth + 1)).flatMap Line.spelling ++ ms) ks P := by
  rw [Statement.linesAt_of_template?_eq_none hs, List.flatMap_singleton, Line.spelling,
    if_neg (Nat.succ_ne_zero depth)]
  simp only [List.cons_append, List.append_assoc, List.nil_append]
  exact reads_body_of_step (reads_bodyStep_line n hs hwf hend) hrest

/-- The `end` of a template that has its statements adds it to the next one. -/
theorem reads_body_end {P : Statement → Prop} {n' : Nesting} {h : Header} {ss : List Statement}
    (hne : ss ≠ []) (hn' : n'.unplaced = (⟨⟨h, ss⟩, n.inner :: n.outer⟩ : Nesting).unplaced)
    (hrest : ∀ n' : Nesting, n'.unplaced = (n.addAll [.template h ss]).unplaced →
      (body n').Reads ms ks P) :
    (body n').Reads (.indent depth :: .word "end" :: .lineEnd :: ms) ks P := by
  obtain ⟨inner, outer⟩ := n'
  have hinner : inner.unplaced = OpenTemplate.unplaced ⟨h, ss⟩ := congrArg Nesting.inner hn'
  have houter : outer.map OpenTemplate.unplaced =
      n.inner.unplaced :: n.outer.map OpenTemplate.unplaced := congrArg Nesting.outer hn'
  obtain ⟨up, outer, rfl, hup, houter⟩ := List.map_eq_cons_iff.1 houter
  have hbody := OpenTemplate.body_ne_nil hinner hne
  refine reads_body_of_step ((reads_bodyStep_end hbody).imp fun x hx => ⟨_, hx, rfl⟩) ?_
  rintro _ rfl
  refine hrest _ ?_
  have hclose : inner.close.unplaced = (Statement.template h ss).unplaced := by
    rw [OpenTemplate.unplaced_close, hinner, ← OpenTemplate.unplaced_close]
    rfl
  rw [Nesting.unplaced, OpenTemplate.unplaced_add, hclose, hup, houter, ← OpenTemplate.unplaced_add]
  rfl

mutual
/-- In a body the lines of a statement add it to the innermost template. -/
theorem reads_body {ks : List Lexeme} {P : Statement → Prop} :
    ∀ (s : Statement) (depth : Nat) (n : Nesting) {ms : List Lexeme},
    s.isWellFormed = true → s.isBareEnd = false →
    (∀ n' : Nesting, n'.unplaced = (n.addAll [s]).unplaced → (body n').Reads ms ks P) →
    (body n).Reads ((s.linesAt (depth + 1)).flatMap Line.spelling ++ ms) ks P
  | .template h ss, depth, n, ms, hwf, _, hrest => by
    simp only [Statement.isWellFormed, Bool.and_eq_true] at hwf
    obtain ⟨⟨⟨hheader, hne⟩, hend⟩, hbody⟩ := hwf
    rw [Statement.linesAt, List.flatMap_append, List.flatMap_cons, List.flatMap_singleton,
      Line.spelling, Line.spelling, if_neg (Nat.succ_ne_zero depth)]
    simp only [List.cons_append, List.append_assoc, List.nil_append]
    refine reads_body_of_step (reads_bodyStep_header n hheader) fun n₁ hn₁ => ?_
    refine reads_bodyAll ss (depth + 1) n₁ hbody hend fun n₂ hn₂ => ?_
    rw [Nesting.unplaced_addAll, hn₁, ← Nesting.unplaced_addAll] at hn₂
    exact reads_body_end (by simpa using hne) hn₂ hrest
  | .relation _ _ _, depth, n, _, hwf, hend, hrest => reads_body_line rfl hwf hend hrest
  | .cover _ _ _, depth, n, _, hwf, hend, hrest => reads_body_line rfl hwf hend hrest
  | .represents _ _ _, depth, n, _, hwf, hend, hrest => reads_body_line rfl hwf hend hrest
  | .definition _, depth, n, _, hwf, hend, hrest => reads_body_line rfl hwf hend hrest
  | .term _, depth, n, _, hwf, hend, hrest => reads_body_line rfl hwf hend hrest

theorem reads_bodyAll {ks : List Lexeme} {P : Statement → Prop} :
    ∀ (ss : List Statement) (depth : Nat) (n : Nesting) {ms : List Lexeme},
    Statement.areWellFormed ss = true → ss.all (!·.isBareEnd) = true →
    (∀ n' : Nesting, n'.unplaced = (n.addAll ss).unplaced → (body n').Reads ms ks P) →
    (body n).Reads ((Statement.linesAtAll (depth + 1) ss).flatMap Line.spelling ++ ms) ks P
  | [], depth, n, _, _, _, hrest => hrest n (by simp [Nesting.addAll])
  | s :: ss, depth, n, _, hwf, hend, hrest => by
    simp only [Statement.areWellFormed, Bool.and_eq_true] at hwf
    simp only [List.all_cons, Bool.and_eq_true] at hend
    rw [Statement.linesAtAll, List.flatMap_append, List.append_assoc]
    refine reads_body s depth n hwf.1 (by simpa using hend.1) fun n' hn' => ?_
    refine reads_bodyAll ss depth n' hwf.2 hend.2 fun n'' hn'' => hrest n'' ?_
    rw [hn'', Nesting.unplaced_addAll, hn', ← Nesting.unplaced_addAll]
    simp [Nesting.addAll]
end

/-! ## Statements and programs -/

theorem reads_template {h : Header} {ss : List Statement}
    (hwf : (Statement.template h ss).isWellFormed = true) :
    template.Reads (((Statement.template h ss).linesAt 0).flatMap Line.spelling ++ ks)
      (.lineEnd :: ks) (·.unplaced = (Statement.template h ss).unplaced) := by
  simp only [Statement.isWellFormed, Bool.and_eq_true] at hwf
  obtain ⟨⟨⟨hheader, hne⟩, hend⟩, hbody⟩ := hwf
  rw [Statement.linesAt, List.flatMap_append, List.flatMap_cons, List.flatMap_singleton,
    Line.spelling, Line.spelling, if_pos rfl]
  simp only [List.cons_append, List.append_assoc, List.nil_append]
  refine (reads_header hheader).bind fun h' hh => ?_
  refine reads_bodyAll ss 0 ⟨⟨h', []⟩, []⟩ hbody hend fun n' hn' => ?_
  obtain ⟨inner, outer⟩ := n'
  have hinner : inner.unplaced = OpenTemplate.unplaced ⟨h', ss⟩ := congrArg Nesting.inner hn'
  obtain rfl : outer = [] := List.map_eq_nil_iff.1 (congrArg Nesting.outer hn')
  have hbody := OpenTemplate.body_ne_nil hinner (by simpa using hne)
  refine Reads.iterate_inr bodyStep_shrinks
    ((reads_bodyStep_end_outermost hbody).imp fun x hx => ⟨_, hx, ?_⟩)
  rw [OpenTemplate.unplaced_close, hinner, ← OpenTemplate.unplaced_close, OpenTemplate.close,
    Statement.unplaced, Statement.unplaced, hh]

theorem reads_statement (ks : List Lexeme) (hwf : s.isWellFormed = true) :
    statement.Reads ((s.linesAt 0).flatMap Line.spelling ++ ks) (.lineEnd :: ks)
      (·.unplaced = s.unplaced) := by
  intro ts hts
  obtain ⟨ls, hls⟩ := s.exists_linesAt_eq 0
  cases hs : s.template? with
  | some t =>
    cases s with
    | template h ss =>
      have hopens : opensTemplate ts = true := by
        rw [opensTemplate_iff, hts, hls, List.flatMap_cons, Line.spelling, if_pos rfl]
        simp only [List.append_assoc, List.nil_append]
        exact opensTemplate_lexemes h
      rw [statement, if_pos hopens]
      exact reads_template hwf ts hts
    | _ => cases hs
  | none =>
    rw [Statement.linesAt_of_template?_eq_none hs, List.flatMap_singleton, Line.spelling,
      if_pos rfl] at hts
    simp only [List.append_assoc, List.nil_append, List.cons_append] at hts
    rw [statement, if_neg (by rw [opensTemplate_eq_false hs hwf hts]; decide)]
    exact reads_simpleStatement hs hwf ts hts

theorem reads_programStep (hwf : s.isWellFormed = true) (before : List Statement) :
    (programStep before).Reads ((s.linesAt 0).flatMap Line.spelling ++ ks) ks
      fun x => ∃ ss, x = .inl ss ∧
        ss.map Statement.unplaced = (before ++ [s]).map Statement.unplaced := by
  have hstatement := reads_statement ks hwf
  obtain ⟨name, hls⟩ : ∃ name ls, (s.linesAt 0).flatMap Line.spelling ++ ks = .word name :: ls := by
    obtain ⟨ls, hls⟩ := s.exists_linesAt_eq 0
    obtain ⟨name, ms, hms⟩ := Statement.exists_lexemes_eq_cons hwf
    exact ⟨name, _, by rw [hls, List.flatMap_cons, Line.spelling, if_pos rfl, hms]; rfl⟩
  obtain ⟨ls, hls⟩ := hls
  rw [hls] at hstatement ⊢
  refine (reads_skipLineEnds 0 (by simp)).bind fun _ _ => reads_nextIs.bind ?_
  rintro _ rfl
  rw [if_neg (by simp)]
  refine Reads.get.bind fun here hhere => ?_
  obtain ⟨t, ts, rfl, ht, _⟩ := List.map_eq_cons_iff.1 hhere
  have hindent : (next (t :: ts)).lexeme.isIndent = false := by
    show t.lexeme.isIndent = false
    rw [ht]
    rfl
  rw [if_neg (by rw [hindent]; decide)]
  refine hstatement.bind fun s' hs' => reads_lineEnd.bind fun _ _ => Reads.pure ⟨_, rfl, ?_⟩
  simp [hs']

/-- The reading ends with the text, whatever empty lines stand before its end. -/
theorem reads_programStep_end (before : List Statement) (count : Nat) :
    (programStep before).Reads (List.replicate count .lineEnd ++ [.endOfText]) [.endOfText]
      (· = .inr ⟨before⟩) := by
  refine (reads_skipLineEnds count (by decide)).bind fun _ _ => reads_nextIs.bind ?_
  rintro _ rfl
  exact Reads.pure rfl

theorem reads_program (ss before : List Statement) (hwf : Statement.areWellFormed ss = true) :
    Rule.Reads (Rule.iterate programStep programStep_shrinks before)
      ((Statement.linesAtAll 0 ss).flatMap Line.spelling ++ [.endOfText]) [.endOfText]
      (·.unplaced = (⟨before ++ ss⟩ : Program).unplaced) := by
  induction ss generalizing before with
  | nil =>
    refine Reads.iterate_inr _ ((reads_programStep_end before 0).imp fun x hx => ⟨_, hx, ?_⟩)
    rw [List.append_nil]
  | cons s ss ih =>
    simp only [Statement.areWellFormed, Bool.and_eq_true] at hwf
    rw [Statement.linesAtAll, List.flatMap_append, List.append_assoc]
    refine Reads.iterate_inl _ (reads_programStep hwf.1 before) fun ss' hss => ?_
    refine (ih ss' hwf.2).imp fun p hp => ?_
    rw [hp, Program.unplaced, Program.unplaced, Statement.unplacedAll_eq_map,
      Statement.unplacedAll_eq_map, List.map_append, hss]
    simp

theorem reads_program_of_no_statement :
    program.Reads [.lineEnd, .endOfText] [.endOfText] (· = ⟨[]⟩) :=
  Reads.iterate_inr _ ((reads_programStep_end [] 1).imp fun _ hx => ⟨_, hx, rfl⟩)

end Reader

theorem Statement.linesAtAll_ne_nil (depth : Nat) (s : Statement) (ss : List Statement) :
    Statement.linesAtAll depth (s :: ss) ≠ [] := by
  obtain ⟨ls, hls⟩ := s.exists_linesAt_eq depth
  rw [linesAtAll, hls]
  exact List.cons_ne_nil _ _

/-- The tokens of the text of a program spell its lines; the text of no
statements is one empty line. -/
theorem Program.exists_tokens {p : Program} (h : p.isWellFormed = true) :
    ∃ ts, Token.ofText (Layout.canonical p.text) = .ok ts ∧
      ts.map Token.lexeme = (if p.statements.isEmpty then [.lineEnd] else []) ++
        p.lines.flatMap Line.spelling ++ [.endOfText] := by
  have hlines : ∀ l ∈ p.lines, l.Printable := fun l hl => Program.printable_of_mem_lines h hl
  obtain ⟨statements⟩ := p
  cases statements with
  | nil => exact ⟨_, rfl, rfl⟩
  | cons s ss =>
    have hcanonical := Layout.canonicalText_flatMap_text
      (Statement.linesAtAll_ne_nil 0 s ss) hlines
    obtain ⟨ts, hts, hspell⟩ := scans_flatMap_text hlines {}
    refine ⟨ts, ?_, hspell⟩
    rw [Token.ofText, Layout.canonical, Program.text, String.toList_ofList, String.toList_ofList]
    exact (congrArg (Token.scan {} true) hcanonical).trans hts

/-- The text of a well-formed program is read as that program. -/
theorem Program.ofText_text (p : Program) (h : p.isWellFormed = true) :
    ∃ q, Program.ofText p.text = .ok q ∧ (q == p) = true := by
  obtain ⟨ts, hts, hspell⟩ := Program.exists_tokens h
  have hread : ∃ q rest, Reader.program ts = .ok q rest ∧ q.unplaced = p.unplaced := by
    obtain ⟨statements⟩ := p
    cases statements with
    | nil =>
      obtain ⟨q, rest, hq, rfl, _⟩ := Reader.reads_program_of_no_statement ts hspell
      exact ⟨_, rest, hq, rfl⟩
    | cons s ss =>
      obtain ⟨q, rest, hq, hsame, _⟩ := Reader.reads_program (s :: ss) [] h ts hspell
      exact ⟨q, rest, hq, hsame⟩
  obtain ⟨q, rest, hq, hsame⟩ := hread
  refine ⟨q, ?_, Program.beq_iff.2 hsame⟩
  rw [Program.ofText, hts]
  show Program.ofTokens ts = _
  rw [Program.ofTokens, hq]

/-- Templates in templates, whose names are the words of the grammar. -/
def keywordNames : Program :=
  let word (name : String) : Identifier := ⟨name, {}⟩
  let expr (name : String) : Expr := .name (word name)
  ⟨[.template ⟨word "pattern", some [word "end", word "with"], some (word "extends")⟩
      [.definition ⟨[.tag (word "shared"), .call (word "class") [word "end"]], word "mapto"⟩,
        .template ⟨word "class", none, none⟩ [.relation (.expr (expr "end")) .mapTo (expr "many")],
        .represents (.expr (expr "many")) ⟨expr "as", some (expr "with")⟩
          (some ⟨expr "with", none⟩)],
    .cover (.expr (.binary .member (expr "cover") (expr "end"))) (expr "along") (expr "along"),
    .term (expr "end")]⟩

theorem ofText_text_keywordNames : keywordNames.isWellFormed = true ∧
    ∃ q, Program.ofText keywordNames.text = .ok q ∧ (q == keywordNames) = true := by
  have hwf : keywordNames.isWellFormed = true := by decide
  exact ⟨hwf, Program.ofText_text keywordNames hwf⟩

end InterfaceSchema
