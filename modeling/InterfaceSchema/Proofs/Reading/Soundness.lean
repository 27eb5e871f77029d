import InterfaceSchema.Proofs.Reading.Printed
import InterfaceSchema.Proofs.Reading.Taking

/-!
# Reading and writing

A schema that is read from a text is written there. `Line.Respells` allows a line
what the grammar does: `class` for `pattern` in front of a template, any depth
inside a body, and no indentation before `end`. Each step inside a body reads one
line (`Reader.BodyStep`), and the lines read so far are those of the open
templates. So a program that is read is well formed, and its lines, respelled,
are the significant lines of the text, one by one (`Program.ofText_eq_ok`).
-/

namespace InterfaceSchema

namespace Line

/-- The lexemes of a line with its indentation. -/
def contents (l : Line) : List Lexeme :=
  (if l.depth = 0 then [] else [.indent l.depth]) ++ l.lexemes

theorem flatMap_spelling (lines : List Line) :
    lines.flatMap spelling = (lines.map contents).flatMap (· ++ [.lineEnd]) := by
  rw [List.flatMap_map]
  rfl

/-- `m` is another spelling of the line `l`. -/
structure Respells (l m : Line) : Prop where
  lexemes : m.lexemes = l.lexemes ∨ Reader.OpensTemplate l.lexemes ∧
    ∃ ls, l.lexemes = .word "pattern" :: ls ∧ m.lexemes = .word "class" :: ls
  depth : l.lexemes ≠ [.word "end"] → (m.depth = 0 ↔ l.depth = 0)

theorem Respells.printable {l m : Line} (h : l.Respells m) (hl : l.Printable) : m.Printable := by
  rcases h.lexemes with heq | ⟨_, ls, hpattern, hclass⟩
  · exact ⟨heq ▸ hl.opens, heq ▸ hl.within⟩
  · have hwithin := hl.within
    rw [hpattern] at hwithin
    refine ⟨⟨"class", ls, hclass⟩, ?_⟩
    rw [hclass]
    exact List.forall_mem_cons.2 ⟨by decide, (List.forall_mem_cons.1 hwithin).2⟩

theorem printable_of_forall₂ {ls ms : List Line} (h : List.Forall₂ Respells ls ms)
    (hls : ∀ l ∈ ls, l.Printable) : ∀ m ∈ ms, m.Printable := by
  induction h with
  | nil => exact hls
  | cons hm _ ih =>
    obtain ⟨hl, hls⟩ := List.forall_mem_cons.1 hls
    exact List.forall_mem_cons.2 ⟨hm.printable hl, ih hls⟩

theorem isLayout_eq_false {l : Line} (h : l.Printable) {x : Lexeme} (hx : x ∈ l.lexemes) :
    x.isLayout = false := by
  have hprintable := h.within x hx
  cases x with
  | indent _ | lineEnd | endOfText => cases hprintable
  | _ => rfl

theorem endsLine_eq_false_of_mem_contents {l : Line} (h : l.Printable) {x : Lexeme}
    (hx : x ∈ l.contents) : x.endsLine = false := by
  rcases List.mem_append.1 hx with hx | hx
  · split at hx
    · cases hx
    · obtain rfl := List.mem_singleton.1 hx
      rfl
  · have hlayout := isLayout_eq_false h hx
    cases x with
    | lineEnd | endOfText => cases hlayout
    | _ => rfl

theorem contents_ne_nil {l : Line} (h : l.Printable) : l.contents ≠ [] := by
  obtain ⟨name, ls, hls⟩ := h.opens
  rw [contents, hls]
  simp

theorem filter_map_contents {ls : List Line} (h : ∀ l ∈ ls, l.Printable) :
    (ls.map contents).filter (!·.isEmpty) = ls.map contents :=
  List.filter_eq_self.2 <| List.forall_mem_map.2 fun l hl => by simpa using contents_ne_nil (h l hl)

theorem filter_contents {l : Line} (h : l.Printable) :
    l.contents.filter (!·.isLayout) = l.lexemes := by
  have hkeep : l.lexemes.filter (!·.isLayout) = l.lexemes :=
    List.filter_eq_self.2 fun x hx => by rw [isLayout_eq_false h hx]; rfl
  rw [contents, List.filter_append, hkeep]
  split <;> rfl

end Line

theorem Statement.linesAtAll_append (depth : Nat) (ss ts : List Statement) :
    Statement.linesAtAll depth (ss ++ ts) =
      Statement.linesAtAll depth ss ++ Statement.linesAtAll depth ts := by
  induction ss with
  | nil => rfl
  | cons s ss ih => rw [List.cons_append, linesAtAll, linesAtAll, ih, List.append_assoc]

theorem Statement.linesAtAll_singleton (depth : Nat) (s : Statement) :
    Statement.linesAtAll depth [s] = s.linesAt depth := by
  rw [linesAtAll, linesAtAll, List.append_nil]

theorem Statement.areWellFormed_append (ss ts : List Statement) :
    Statement.areWellFormed (ss ++ ts) =
      (Statement.areWellFormed ss && Statement.areWellFormed ts) := by
  induction ss with
  | nil => rfl
  | cons s ss ih => rw [List.cons_append, areWellFormed, areWellFormed, ih, Bool.and_assoc]

namespace Reader

open Rule

def headerTail : Rule Header := do
  let id ← identifier
  let params ← parameters
  let base ← baseTemplate
  exactly .colon
  if ← accept .lineEnd then return ⟨id, params, base⟩
  else fail "end of line after pattern header"

theorem header_cons (t : Token) (ts : List Token) : header (t :: ts) = headerTail ts := rfl

theorem takes_parameters : parameters.Takes fun params ls =>
    ls = (params.map Identifier.listLexemes).getD [] ∧
      params.all Identifier.areWellFormed = true := by
  refine (takes_nextIs _).bind ?_
  rintro given _ rfl
  split
  · exact (takes_arguments.imp fun ids ls h => h).map
  · exact Takes.pure ⟨rfl, rfl⟩

theorem takes_baseTemplate : baseTemplate.Takes fun base ls =>
    ls = Lexeme.introduced "extends" (fun id => [Identifier.lexeme id]) base ∧
      base.all Identifier.isWellFormed = true := by
  refine (takes_accept _).bind ?_
  rintro extended _ rfl
  split
  · refine (takes_identifier.imp ?_).map
    rintro id _ ⟨rfl, hid⟩
    exact ⟨by simp_all [Lexeme.introduced], by simpa using hid⟩
  · exact Takes.pure ⟨by simp_all [Lexeme.introduced], rfl⟩

theorem takes_headerTail : headerTail.Takes fun h ls =>
    (∀ word, .word word :: ls = h.lexemes word ++ [.lineEnd]) ∧ h.isWellFormed = true := by
  refine takes_identifier.bind ?_
  rintro id _ ⟨rfl, hid⟩
  refine takes_parameters.bind ?_
  rintro params _ ⟨rfl, hparams⟩
  refine takes_baseTemplate.bind ?_
  rintro base _ ⟨rfl, hbase⟩
  refine (takes_exactly _).bind ?_
  rintro _ _ rfl
  refine (takes_accept _).bind ?_
  rintro ended _ rfl
  split
  · refine Takes.pure ⟨fun word => ?_, ?_⟩
    · simp_all [Header.lexemes]
    · rw [Header.isWellFormed, hid, hparams, hbase]
      rfl
  · exact takes_fail _

theorem header_eq_ok {ts rest : List Token} {h : Header} (hopens : opensTemplate ts = true)
    (hh : header ts = .ok h rest) (hts : Scanned (ts.map Token.lexeme)) :
    ∃ word, isTemplateWord (.word word) = true ∧
      ts.map Token.lexeme = h.lexemes word ++ [.lineEnd] ++ rest.map Token.lexeme ∧
      h.isWellFormed = true := by
  obtain ⟨l, name, m, ls, hls, hl, _⟩ := opensTemplate_iff.1 hopens
  obtain ⟨word, rfl⟩ : ∃ word, l = .word word := by
    simp only [isTemplateWord, Bool.or_eq_true, beq_iff_eq] at hl
    rcases hl with rfl | rfl <;> exact ⟨_, rfl⟩
  obtain ⟨span, us, rfl, _⟩ := Token.exists_of_map_lexeme hls
  rw [header_cons] at hh
  obtain ⟨ks, hks, hspell, hwf⟩ := takes_headerTail hh
    fun l hl => hts l (List.mem_cons_of_mem _ hl)
  refine ⟨word, hl, ?_, hwf⟩
  rw [List.map_cons, hks, ← hspell word]
  rfl

/-! ## Bodies -/

theorem takes_acceptIndent : acceptIndent.Takes fun indented ls =>
    ∃ depth, (indented = true ↔ depth ≠ 0) ∧ ls = if depth = 0 then [] else [.indent depth] := by
  intro ts indented rest h hts
  unfold acceptIndent at h
  split at h
  · rename_i depth span rest
    cases h
    have hdepth : depth ≠ 0 := by
      simpa [Lexeme.isScanned] using hts (.indent depth) List.mem_cons_self
    exact ⟨[.indent depth], rfl, depth, by simp [hdepth], by rw [if_neg hdepth]⟩
  · cases h
    exact ⟨[], rfl, 0, by simp, rfl⟩

theorem takes_bodyLineEnd (t : OpenTemplate) :
    (bodyLineEnd t).Takes fun _ ls => ls = [.lineEnd] := by
  intro ts a rest h _
  unfold bodyLineEnd at h
  split at h
  · cases h
    exact ⟨_, rfl, rfl⟩
  · cases h

/-- What a line makes of the open templates: a statement for the innermost body,
a template in front of the open ones, or the end of the innermost. -/
inductive BodyStep : Nesting → Line → Nesting ⊕ Statement → Prop
  | add {inner outer depth} {s : Statement} (hs : s.template? = none)
      (hwf : s.isWellFormed = true) (hend : s.isBareEnd = false) (hdepth : depth ≠ 0) :
      BodyStep ⟨inner, outer⟩ ⟨depth, s.lexemes⟩ (.inl ⟨inner.add s, outer⟩)
  | opens {inner outer depth word} {h : Header} (hword : isTemplateWord (.word word) = true)
      (hwf : h.isWellFormed = true) (hdepth : depth ≠ 0) :
      BodyStep ⟨inner, outer⟩ ⟨depth, h.lexemes word⟩ (.inl ⟨⟨h, []⟩, inner :: outer⟩)
  | closes {inner up outer depth} (hne : inner.body ≠ []) :
      BodyStep ⟨inner, up :: outer⟩ ⟨depth, [.word "end"]⟩ (.inl ⟨up.add inner.close, outer⟩)
  | closesLast {inner depth} (hne : inner.body ≠ []) :
      BodyStep ⟨inner, []⟩ ⟨depth, [.word "end"]⟩ (.inr inner.close)

/-- The end of a line is left where the outermost template ends. -/
def endOfStep : Nesting ⊕ Statement → List Lexeme
  | .inl _ => [.lineEnd]
  | .inr _ => []

theorem takes_closeTemplate (n : Nesting) (depth : Nat) : (closeTemplate n).Takes fun x ls =>
    BodyStep n ⟨depth, [.word "end"]⟩ x ∧ ls = .word "end" :: endOfStep x := by
  obtain ⟨inner, outer⟩ := n
  refine Takes.get.bind ?_
  rintro here _ rfl
  split
  · exact Takes.throw _
  · rename_i hempty
    have hne : inner.body ≠ [] := by simpa using hempty
    refine (takes_exactly _).bind ?_
    rintro _ _ rfl
    cases outer with
    | nil => exact Takes.pure ⟨.closesLast hne, rfl⟩
    | cons up outer =>
      refine (takes_bodyLineEnd up).bind ?_
      rintro _ _ rfl
      exact Takes.pure ⟨.closes hne, rfl⟩

/-- A statement that is the bare word `end` would have been taken for the end of
the body. -/
theorem isBareEnd_eq_false {s : Statement} {ts : List Token} {ls : List Lexeme}
    (hts : ts.map Token.lexeme = s.lexemes ++ .lineEnd :: ls) (hend : atEnd ts = false) :
    s.isBareEnd = false := by
  rw [← Bool.not_eq_true]
  intro hbare
  unfold Statement.isBareEnd at hbare
  split at hbare
  · rename_i id
    rw [show (Statement.term (.name id)).lexemes = [.word id.name] from rfl,
      show id.name = "end" by simpa using hbare] at hts
    rw [atEnd_eq hts] at hend
    cases hend
  · cases hbare

theorem bodyLine_eq_ok {n : Nesting} {x : Nesting ⊕ Statement} {ts rest : List Token} {depth : Nat}
    (hdepth : depth ≠ 0) (hend : atEnd ts = false) (h : bodyLine n ts = .ok x rest)
    (hts : Scanned (ts.map Token.lexeme)) : ∃ ls, BodyStep n ⟨depth, ls⟩ x ∧
      ts.map Token.lexeme = ls ++ endOfStep x ++ rest.map Token.lexeme := by
  obtain ⟨inner, outer⟩ := n
  obtain ⟨_, mid, hget, h⟩ := bind_eq_ok h
  cases hget
  split at h
  · rename_i hopens
    obtain ⟨header, mid, hheader, h⟩ := bind_eq_ok h
    cases h
    obtain ⟨word, hword, hls, hwf⟩ := header_eq_ok hopens hheader hts
    exact ⟨_, .opens hword hwf hdepth, hls⟩
  · obtain ⟨s, mid, hs, h⟩ := bind_eq_ok h
    obtain ⟨_, mid', hlineEnd, h⟩ := bind_eq_ok h
    cases h
    obtain ⟨_, hls, rfl, hwf, hnone⟩ := takes_simpleStatement hs hts
    obtain ⟨_, hrest, rfl⟩ := takes_bodyLineEnd _ hlineEnd (Scanned.right (hls ▸ hts))
    rw [hrest] at hls
    refine ⟨s.lexemes, .add hnone hwf (isBareEnd_eq_false hls hend) hdepth, ?_⟩
    rw [hls, List.append_assoc]
    rfl

theorem takes_bodyStep (n : Nesting) : (bodyStep n).Takes fun x ls =>
    ∃ line, BodyStep n line x ∧ ls = line.contents ++ endOfStep x := by
  refine takes_acceptIndent.bind ?_
  rintro indented _ ⟨depth, hindented, rfl⟩ ts x rest h hts
  obtain ⟨_, mid, hget, h⟩ := bind_eq_ok h
  cases hget
  split at h
  · obtain ⟨_, hls, hstep, rfl⟩ := takes_closeTemplate n depth h hts
    exact ⟨_, hls, _, hstep, by rw [Line.contents, List.append_assoc]; rfl⟩
  · rename_i hend
    obtain ⟨ended, mid, hended, h⟩ := bind_eq_ok h
    cases hended
    split at h
    · cases h
    · split at h
      · rename_i hopens
        obtain ⟨ls, hstep, hls⟩ := bodyLine_eq_ok (hindented.1 hopens) (by simpa using hend) h hts
        exact ⟨_, hls, _, hstep, by rw [Line.contents, List.append_assoc]⟩
      · cases h

/-! ## The lines of open templates -/

namespace OpenTemplate

/-- The lines of a template that has no `end` yet. -/
def linesAt (depth : Nat) (t : OpenTemplate) : List Line :=
  ⟨depth, t.header.lexemes "pattern"⟩ :: Statement.linesAtAll (depth + 1) t.body

/-- The lines of open templates, of which the last is the outermost. -/
def linesOf : List OpenTemplate → List Line
  | [] => []
  | t :: outer => linesOf outer ++ t.linesAt outer.length

/-- Its header and the statements it has so far can stand in a well-formed schema. -/
def isWellFormed (t : OpenTemplate) : Bool :=
  t.header.isWellFormed && t.body.all (!·.isBareEnd) && Statement.areWellFormed t.body

variable {t : OpenTemplate} {s : Statement}

theorem linesAt_add (depth : Nat) (t : OpenTemplate) (s : Statement) :
    (t.add s).linesAt depth = t.linesAt depth ++ s.linesAt (depth + 1) := by
  rw [linesAt, add, Statement.linesAtAll_append, Statement.linesAtAll_singleton]
  rfl

theorem linesAt_close (depth : Nat) (t : OpenTemplate) :
    t.close.linesAt depth = t.linesAt depth ++ [⟨depth, [.word "end"]⟩] := rfl

theorem isWellFormed_add (ht : t.isWellFormed = true) (hs : s.isWellFormed = true)
    (hend : s.isBareEnd = false) : (t.add s).isWellFormed = true := by
  simp only [isWellFormed, Bool.and_eq_true] at ht
  rw [isWellFormed, add, List.all_append, Statement.areWellFormed_append, ht.1.1, ht.1.2, ht.2]
  simp [hend, Statement.areWellFormed, hs]

theorem isWellFormed_close (ht : t.isWellFormed = true) (hne : t.body ≠ []) :
    t.close.isWellFormed = true := by
  simp only [isWellFormed, Bool.and_eq_true] at ht
  rw [close, Statement.isWellFormed, ht.1.1, ht.1.2, ht.2]
  simpa using hne

end OpenTemplate

/-- The lines read so far are those of the open templates. -/
structure Nesting.Spelled (n : Nesting) (lines : List Line) : Prop where
  respells : List.Forall₂ Line.Respells (OpenTemplate.linesOf (n.inner :: n.outer)) lines
  isWellFormed : ∀ t ∈ n.inner :: n.outer, t.isWellFormed = true

theorem respells_header {depth depth' : Nat} {h : Header} {word : String}
    (hword : isTemplateWord (.word word) = true) (hdepth : depth' = 0 ↔ depth = 0) :
    Line.Respells ⟨depth, h.lexemes "pattern"⟩ ⟨depth', h.lexemes word⟩ := by
  refine ⟨?_, fun _ => hdepth⟩
  simp only [isTemplateWord, Bool.or_eq_true, beq_iff_eq, Lexeme.word.injEq] at hword
  rcases hword with rfl | rfl
  · exact .inl rfl
  · have hopens : OpensTemplate (h.lexemes "pattern" ++ []) := opensTemplate_lexemes h
    rw [List.append_nil] at hopens
    exact .inr ⟨hopens, _, rfl, rfl⟩

variable {n : Nesting} {line : Line} {lines : List Line}

theorem Nesting.Spelled.step {n' : Nesting} (hn : n.Spelled lines)
    (h : BodyStep n line (.inl n')) : n'.Spelled (lines ++ [line]) := by
  cases h with
  | @add inner outer depth s hs hwf hend hdepth =>
    obtain ⟨hinner, houter⟩ := List.forall_mem_cons.1 hn.isWellFormed
    refine ⟨?_, List.forall_mem_cons.2 ⟨OpenTemplate.isWellFormed_add hinner hwf hend, houter⟩⟩
    have hlines : OpenTemplate.linesOf (inner.add s :: outer) =
        OpenTemplate.linesOf (inner :: outer) ++ [⟨outer.length + 1, s.lexemes⟩] := by
      rw [OpenTemplate.linesOf, OpenTemplate.linesOf, OpenTemplate.linesAt_add,
        Statement.linesAt_of_template?_eq_none hs, List.append_assoc]
    show List.Forall₂ _ (OpenTemplate.linesOf (inner.add s :: outer)) _
    rw [hlines]
    exact List.rel_append hn.respells (.cons ⟨.inl rfl, fun _ => by simp [hdepth]⟩ .nil)
  | @opens inner outer depth word header hword hwf hdepth =>
    refine ⟨?_, List.forall_mem_cons.2 ⟨by simp [OpenTemplate.isWellFormed, hwf,
      Statement.areWellFormed], hn.isWellFormed⟩⟩
    exact List.rel_append hn.respells (.cons (respells_header hword (by simp [hdepth])) .nil)
  | @closes inner up outer depth hne =>
    obtain ⟨hinner, hrest⟩ := List.forall_mem_cons.1 hn.isWellFormed
    obtain ⟨hup, houter⟩ := List.forall_mem_cons.1 hrest
    have hclose := OpenTemplate.isWellFormed_close hinner hne
    refine ⟨?_, List.forall_mem_cons.2 ⟨OpenTemplate.isWellFormed_add hup hclose rfl, houter⟩⟩
    have hlines : OpenTemplate.linesOf (up.add inner.close :: outer) =
        OpenTemplate.linesOf (inner :: up :: outer) ++ [⟨outer.length + 1, [.word "end"]⟩] := by
      rw [OpenTemplate.linesOf, OpenTemplate.linesAt_add, OpenTemplate.linesAt_close]
      simp [OpenTemplate.linesOf]
    show List.Forall₂ _ (OpenTemplate.linesOf (up.add inner.close :: outer)) _
    rw [hlines]
    exact List.rel_append hn.respells (.cons ⟨.inl rfl, fun h => absurd rfl h⟩ .nil)

theorem Nesting.Spelled.last {s : Statement} (hn : n.Spelled lines)
    (h : BodyStep n line (.inr s)) :
    List.Forall₂ Line.Respells (s.linesAt 0) (lines ++ [line]) ∧ s.isWellFormed = true := by
  cases h with
  | @closesLast inner depth hne =>
    refine ⟨?_, OpenTemplate.isWellFormed_close (List.forall_mem_cons.1 hn.isWellFormed).1 hne⟩
    rw [OpenTemplate.linesAt_close]
    exact List.rel_append hn.respells (.cons ⟨.inl rfl, fun h => absurd rfl h⟩ .nil)

/-- What was taken for a statement are its lines, respelled, but for the end of
the last one. -/
theorem takes_statement : statement.Takes fun s ls => ∃ lines last,
    ls = lines.flatMap Line.spelling ++ last.contents ∧
      List.Forall₂ Line.Respells (s.linesAt 0) (lines ++ [last]) ∧ s.isWellFormed = true := by
  intro ts s rest h hts
  unfold statement at h
  split at h
  · rename_i hopens
    obtain ⟨header, mid, hheader, h⟩ := bind_eq_ok h
    obtain ⟨word, hword, hls, hwf⟩ := header_eq_ok hopens hheader hts
    let first : Line := ⟨0, header.lexemes word⟩
    have hstart : (⟨⟨header, []⟩, []⟩ : Nesting).Spelled [first] := by
      refine ⟨.cons (respells_header hword Iff.rfl) .nil, fun t ht => ?_⟩
      obtain rfl := List.mem_singleton.1 ht
      simp [OpenTemplate.isWellFormed, hwf, Statement.areWellFormed]
    have hbody : Rule.Takes (Rule.iterate bodyStep (fun hs => shrinks_bodyStep _ hs) ⟨⟨header, []⟩, []⟩)
        fun s ls => ∃ lines last, first.spelling ++ ls = lines.flatMap Line.spelling ++ last.contents ∧
          List.Forall₂ Line.Respells (s.linesAt 0) (lines ++ [last]) ∧ s.isWellFormed = true := by
      refine Takes.iterate (I := fun n ls => ∃ lines, n.Spelled lines ∧
        first.spelling ++ ls = lines.flatMap Line.spelling) _ ?_ ⟨[first], hstart, by simp⟩
      rintro n ms ⟨lines, hn, hms⟩
      refine (takes_bodyStep n).imp ?_
      rintro (n' | s) _ ⟨line, hstep, rfl⟩
      · refine ⟨lines ++ [line], hn.step hstep, ?_⟩
        rw [← List.append_assoc, hms, List.flatMap_append, List.flatMap_singleton]
        rfl
      · refine ⟨lines, line, ?_, hn.last hstep⟩
        rw [← List.append_assoc, hms, endOfStep, List.append_nil]
    obtain ⟨ls, hbodyLs, hbody⟩ := hbody h (Scanned.right (hls ▸ hts))
    exact ⟨first.spelling ++ ls, by rw [hls, hbodyLs, ← List.append_assoc]; rfl, hbody⟩
  · obtain ⟨ls, hls, rfl, hwf, hnone⟩ := takes_simpleStatement h hts
    refine ⟨_, hls, [], ⟨0, s.lexemes⟩, rfl, ?_, hwf⟩
    rw [Statement.linesAt_of_template?_eq_none hnone]
    exact .cons ⟨.inl rfl, fun _ => Iff.rfl⟩ .nil

end Reader

/-! ## Lines of lexemes -/

namespace Lexeme

/-- The lexemes of lines, each with its end, and the end of the text. -/
def ofLines (lss : List (List Lexeme)) : List Lexeme :=
  lss.flatMap (· ++ [.lineEnd]) ++ [.endOfText]

theorem ofLines_append (lss mss : List (List Lexeme)) :
    ofLines (lss ++ mss) = lss.flatMap (· ++ [.lineEnd]) ++ ofLines mss := by
  simp [ofLines]

theorem ofLines_cons (ls : List Lexeme) (lss : List (List Lexeme)) :
    ofLines (ls :: lss) = ls ++ .lineEnd :: ofLines lss := by
  simp [ofLines]

variable {ls ms ks : List Lexeme} {lss mss : List (List Lexeme)}

/-- What stands before the first end of a line is determined. -/
theorem append_endsLine_inj {k k' : Lexeme} {ks' : List Lexeme}
    (hls : ∀ l ∈ ls, l.endsLine = false) (hms : ∀ m ∈ ms, m.endsLine = false)
    (hk : k.endsLine = true) (hk' : k'.endsLine = true)
    (h : ls ++ k :: ks = ms ++ k' :: ks') : ls = ms ∧ k = k' ∧ ks = ks' := by
  induction ls generalizing ms with
  | nil =>
    cases ms with
    | nil => exact ⟨rfl, List.cons.inj h⟩
    | cons m ms =>
      rw [(List.cons.inj h).1, (List.forall_mem_cons.1 hms).1] at hk
      cases hk
  | cons l ls ih =>
    obtain ⟨hl, hls⟩ := List.forall_mem_cons.1 hls
    cases ms with
    | nil =>
      rw [← (List.cons.inj h).1, hl] at hk'
      cases hk'
    | cons m ms =>
      obtain ⟨rfl, htail⟩ := List.cons.inj h
      obtain ⟨rfl, hrest⟩ := ih hls (List.forall_mem_cons.1 hms).2 htail
      exact ⟨rfl, hrest⟩

theorem eq_nil_of_ofLines (hlss : ∀ ls ∈ lss, ∀ l ∈ ls, l.endsLine = false)
    (h : .endOfText :: ks = ofLines lss) : lss = [] := by
  cases lss with
  | nil => rfl
  | cons ls lss =>
    rw [ofLines_cons] at h
    have heq := append_endsLine_inj (List.forall_mem_nil _) (List.forall_mem_cons.1 hlss).1 rfl rfl h
    cases heq.2.1

theorem exists_eq_append_of_ofLines (hmss : ∀ ms ∈ mss, ∀ m ∈ ms, m.endsLine = false)
    (hlss : ∀ ls ∈ lss, ∀ l ∈ ls, l.endsLine = false)
    (h : mss.flatMap (· ++ [.lineEnd]) ++ ks = ofLines lss) :
    ∃ rest, lss = mss ++ rest ∧ ks = ofLines rest := by
  induction mss generalizing lss with
  | nil => exact ⟨lss, rfl, h⟩
  | cons ms mss ih =>
    obtain ⟨hms, hmss⟩ := List.forall_mem_cons.1 hmss
    rw [List.flatMap_cons, List.append_assoc, List.append_assoc, List.singleton_append] at h
    cases lss with
    | nil =>
      have heq := append_endsLine_inj hms (List.forall_mem_nil _) rfl rfl h
      cases heq.2.1
    | cons ls lss =>
      obtain ⟨hls, hlss'⟩ := List.forall_mem_cons.1 hlss
      rw [ofLines_cons] at h
      obtain ⟨rfl, _, htail⟩ := append_endsLine_inj hms hls rfl rfl h
      obtain ⟨rest, rfl, hrest⟩ := ih hmss hlss' htail
      exact ⟨rest, rfl, hrest⟩

end Lexeme

namespace Reader

open Rule

variable {lss : List (List Lexeme)} {ts rest : List Token}

theorem lineEnd_eq_ok {ls : List Lexeme} (h : lineEnd ts = .ok () rest) (hne : ls ≠ [])
    (hls : ∀ l ∈ ls, l.endsLine = false) (hlss : ∀ ls ∈ lss, ∀ l ∈ ls, l.endsLine = false)
    (hts : ls ++ ts.map Token.lexeme = Lexeme.ofLines lss) :
    ∃ rest', lss = ls :: rest' ∧ rest.map Token.lexeme = Lexeme.ofLines rest' := by
  obtain ⟨t, us, rfl, ht, hrest⟩ : ∃ t us, ts = t :: us ∧ t.lexeme.endsLine = true ∧
      (t.lexeme = .lineEnd → rest = us) := by
    unfold lineEnd at h
    split at h
    · cases h
      exact ⟨_, _, rfl, rfl, fun _ => rfl⟩
    · split at h
      · rename_i hnext
        cases h
        cases ts with
        | nil =>
          have hmem : Lexeme.endOfText ∈ ls := by
            rw [← List.append_nil ls, show ls ++ [] = Lexeme.ofLines lss from hts]
            exact List.mem_append_right _ List.mem_cons_self
          cases hls _ hmem
        | cons t us =>
          have ht : t.lexeme = .endOfText := hnext
          exact ⟨t, us, rfl, by rw [ht]; rfl, fun hend => by rw [ht] at hend; cases hend⟩
      · cases h
  cases lss with
  | nil =>
    have heq := Lexeme.append_endsLine_inj hls (List.forall_mem_nil _) ht rfl hts
    exact absurd heq.1 hne
  | cons ms mss =>
    rw [Lexeme.ofLines_cons] at hts
    obtain ⟨rfl, hend, hus⟩ :=
      Lexeme.append_endsLine_inj hls (List.forall_mem_cons.1 hlss).1 ht rfl hts
    exact ⟨mss, rfl, by rw [hrest hend, hus]⟩

/-- A statement and the end of its line are read from its lines. -/
theorem statement_eq_ok {s : Statement} {mid : List Token} (h : statement ts = .ok s mid)
    (hend : lineEnd mid = .ok () rest) (hlss : ∀ ls ∈ lss, ∀ l ∈ ls, l.endsLine = false)
    (hts : ts.map Token.lexeme = Lexeme.ofLines lss) (hscanned : Scanned (ts.map Token.lexeme)) :
    ∃ lines rest', lss = lines.map Line.contents ++ rest' ∧
      rest.map Token.lexeme = Lexeme.ofLines rest' ∧ s.isWellFormed = true ∧
      List.Forall₂ Line.Respells (s.linesAt 0) lines := by
  obtain ⟨_, htaken, lines, last, rfl, hlines, hwf⟩ := takes_statement h hscanned
  have hprintable := Line.printable_of_forall₂ hlines
    fun l hl => Statement.printable_of_mem_linesAt hwf hl
  have hends : ∀ l ∈ lines ++ [last], ∀ x ∈ l.contents, x.endsLine = false :=
    fun l hl x => Line.endsLine_eq_false_of_mem_contents (hprintable l hl)
  have hmem : last ∈ lines ++ [last] := List.mem_append_right _ List.mem_cons_self
  rw [hts, List.append_assoc, Line.flatMap_spelling] at htaken
  obtain ⟨lss', rfl, hlast⟩ := Lexeme.exists_eq_append_of_ofLines
    (List.forall_mem_map.2 fun l hl => hends l (List.mem_append_left _ hl)) hlss htaken.symm
  obtain ⟨rest', rfl, hrest⟩ := lineEnd_eq_ok hend (Line.contents_ne_nil (hprintable last hmem))
    (hends last hmem) (fun ls hls => hlss ls (List.mem_append_right _ hls)) hlast
  exact ⟨lines ++ [last], rest', by simp, hrest, hwf, hlines⟩

/-- Behind empty lines a step reads the lines of one statement, or finds that no
line is left. -/
theorem programStep_eq_ok {before : List Statement} {x : List Statement ⊕ Program}
    (h : programStep before ts = .ok x rest)
    (hlss : ∀ ls ∈ lss, ∀ l ∈ ls, l.endsLine = false)
    (hts : ts.map Token.lexeme = Lexeme.ofLines lss) (hscanned : Scanned (ts.map Token.lexeme)) :
    ∃ count lss', lss = List.replicate count [] ++ lss' ∧
      (x = .inr ⟨before⟩ ∧ lss' = [] ∨
        ∃ s lines rest', x = .inl (before ++ [s]) ∧ lss' = lines.map Line.contents ++ rest' ∧
          rest.map Token.lexeme = Lexeme.ofLines rest' ∧ s.isWellFormed = true ∧
          List.Forall₂ Line.Respells (s.linesAt 0) lines) := by
  obtain ⟨_, mid, hskip, h⟩ := bind_eq_ok h
  obtain ⟨_, hmid, count, rfl⟩ := takes_skipLineEnds hskip hscanned
  replace hscanned := Scanned.right (hmid ▸ hscanned)
  rw [hmid, show List.replicate count Lexeme.lineEnd =
    (List.replicate count []).flatMap (· ++ [.lineEnd]) by simp [List.flatMap_replicate]] at hts
  obtain ⟨lss', rfl, hmid⟩ := Lexeme.exists_eq_append_of_ofLines (by simp) hlss hts
  refine ⟨count, lss', rfl, ?_⟩
  replace hlss : ∀ ls ∈ lss', ∀ l ∈ ls, l.endsLine = false :=
    fun ls hls => hlss ls (List.mem_append_right _ hls)
  obtain ⟨ended, _, hended, h⟩ := bind_eq_ok h
  cases hended
  split at h
  · rename_i hend
    cases h
    obtain ⟨t, us, rfl, ht⟩ : ∃ t us, rest = t :: us ∧ t.lexeme = .endOfText := by
      cases rest with
      | nil => simp [Lexeme.ofLines] at hmid
      | cons t us => exact ⟨t, us, rfl, by simpa [next] using hend⟩
    rw [List.map_cons, ht] at hmid
    exact .inl ⟨rfl, Lexeme.eq_nil_of_ofLines hlss hmid⟩
  · obtain ⟨_, _, hget, h⟩ := bind_eq_ok h
    cases hget
    split at h
    · cases h
    · obtain ⟨s, mid', hs, h⟩ := bind_eq_ok h
      obtain ⟨_, mid'', hlineEnd, h⟩ := bind_eq_ok h
      cases h
      obtain ⟨lines, rest', hlines⟩ := statement_eq_ok hs hlineEnd hlss hmid hscanned
      exact .inr ⟨s, lines, rest', rfl, hlines⟩

/-- A program that is read has the lines that are not empty, one by one. -/
theorem iterate_programStep_eq_ok {before : List Statement} {p : Program}
    (h : Rule.iterate programStep programStep_shrinks before ts = .ok p rest)
    (hlss : ∀ ls ∈ lss, ∀ l ∈ ls, l.endsLine = false)
    (hts : ts.map Token.lexeme = Lexeme.ofLines lss) (hscanned : Scanned (ts.map Token.lexeme)) :
    ∃ ss lines, p = ⟨before ++ ss⟩ ∧ Statement.areWellFormed ss = true ∧
      List.Forall₂ Line.Respells (Statement.linesAtAll 0 ss) lines ∧
      lss.filter (!·.isEmpty) = lines.map Line.contents := by
  fun_induction Rule.iterate programStep programStep_shrinks before ts generalizing lss
  case case1 before ts ss' mid hs ih =>
    obtain ⟨count, _, rfl, ⟨hx, _⟩ | ⟨s, lines, rest', hx, rfl, hmid, hwf, hlines⟩⟩ :=
      programStep_eq_ok hs hlss hts hscanned
    · cases hx
    · cases hx
      have hrest : Scanned (mid.map Token.lexeme) := by
        rw [hts, ← List.append_assoc, Lexeme.ofLines_append, ← hmid] at hscanned
        exact hscanned.right
      obtain ⟨ss, lines', rfl, hss, hlines', hfilter⟩ := ih h
        (fun ls hls => hlss ls (by simp [hls])) hmid hrest
      refine ⟨s :: ss, lines ++ lines', by simp, ?_, ?_, ?_⟩
      · rw [Statement.areWellFormed, hwf, hss]
        rfl
      · exact List.rel_append hlines hlines'
      · have hprintable := Line.printable_of_forall₂ hlines
          fun l hl => Statement.printable_of_mem_linesAt hwf hl
        rw [List.filter_append, List.filter_append, Line.filter_map_contents hprintable, hfilter,
          List.map_append]
        simp
  case case2 before ts a mid hs =>
    obtain ⟨count, _, rfl, ⟨hx, rfl⟩ | ⟨_, _, _, hx, _⟩⟩ := programStep_eq_ok hs hlss hts hscanned
    · cases hx
      cases h
      exact ⟨[], [], by simp, rfl, .nil, by simp⟩
    · cases hx
  case case3 => cases h

end Reader

theorem Line.Says.endsLine_eq_false {text : List Char} {ls : List Lexeme} (h : Line.Says text ls)
    {l : Lexeme} (hl : l ∈ ls) : l.endsLine = false := by
  cases l with
  | lineEnd => exact absurd hl h.lineEnd
  | endOfText => exact absurd hl h.endOfText
  | _ => rfl

/-- The lines of a program that is read are the significant lines of the text. -/
theorem Program.exists_lines_of_ofText {source : String} {p : Program}
    (h : Program.ofText source = .ok p) : p.isWellFormed = true ∧
      ∃ ts lines, Token.ofText (Layout.canonical source) = .ok ts ∧
        ts.map Token.lexeme = (if lines = [] then [.lineEnd] else []) ++
          Lexeme.ofLines (lines.map Line.contents) ∧
        List.Forall₂ Line.Respells p.lines lines ∧
        List.Forall₂ (fun text line => Line.Says (Layout.canonicalContent text) line.contents)
          (Layout.significantLines source.toList) lines := by
  obtain ⟨ts, hts, h⟩ := bind_eq_ok_iff.1 h
  obtain ⟨lss, hlexemes, hne, hall⟩ := Layout.exists_lexemes_of_canonical hts
  have hends : ∀ ls ∈ lss, ∀ l ∈ ls, l.endsLine = false :=
    ((List.forall₂_and_left _ _).1 (hall.flip.imp fun _ _ hline =>
      ⟨fun _ hl => hline.endsLine_eq_false hl, hline⟩)).1
  have hscanned : Scanned (ts.map Token.lexeme) :=
    List.forall_mem_map.2 (Token.isScanned_of_scan hts)
  -- A text without significant lines is one empty line.
  obtain ⟨mss, hmss, hends, hfilter⟩ : ∃ mss, ts.map Token.lexeme = Lexeme.ofLines mss ∧
      (∀ ms ∈ mss, ∀ m ∈ ms, m.endsLine = false) ∧ mss.filter (!·.isEmpty) = lss := by
    by_cases hnil : lss = []
    · subst hnil
      exact ⟨[[]], hlexemes, by simp, rfl⟩
    · rw [if_neg hnil, List.nil_append] at hlexemes
      refine ⟨lss, hlexemes, hends, List.filter_eq_self.2 fun ls hls => ?_⟩
      cases ls with
      | nil => exact absurd hls hne
      | cons => rfl
  unfold Program.ofTokens at h
  split at h
  · rename_i q rest hread
    cases h
    obtain ⟨ss, lines, rfl, hwf, hlines, hcontents⟩ :=
      Reader.iterate_programStep_eq_ok hread hends hmss hscanned
    obtain rfl : lss = lines.map Line.contents := hfilter ▸ hcontents
    refine ⟨hwf, ts, lines, hts, ?_, hlines, List.forall₂_map_right_iff.1 hall⟩
    simpa [Lexeme.ofLines] using hlexemes
  · cases h

/-- A program that is read is well formed. Without indentation and ends of lines
the tokens of the text are the lexemes of its lines, respelled, and each
significant line of the text is one of these lines. -/
theorem Program.ofText_eq_ok {source : String} {p : Program} (h : Program.ofText source = .ok p) :
    p.isWellFormed = true ∧ ∃ ts lines, Token.ofText (Layout.canonical source) = .ok ts ∧
      List.Forall₂ Line.Respells p.lines lines ∧
      (ts.map Token.lexeme).filter (!·.isLayout) = lines.flatMap Line.lexemes ∧
      List.Forall₂ (fun text line =>
          Scans true (Layout.canonicalContent text) (line.contents ++ [.endOfText]))
        (Layout.significantLines source.toList) lines := by
  obtain ⟨hwf, ts, lines, hts, hlexemes, hlines, hsays⟩ := Program.exists_lines_of_ofText h
  refine ⟨hwf, ts, lines, hts, hlines, ?_, hsays.imp fun _ _ hline => hline.scans⟩
  have hprintable := Line.printable_of_forall₂ hlines
    fun l hl => Program.printable_of_mem_lines hwf hl
  have hempty : List.filter (!·.isLayout) (if lines = [] then [Lexeme.lineEnd] else []) = [] := by
    split <;> rfl
  have hfilter : (lines.flatMap fun l => (l.contents ++ [.lineEnd]).filter (!·.isLayout)) =
      lines.flatMap Line.lexemes := by
    refine List.flatMap_congr fun l hl => ?_
    rw [List.filter_append, Line.filter_contents (hprintable l hl)]
    exact List.append_nil _
  rw [hlexemes, List.filter_append, hempty, List.nil_append, Lexeme.ofLines, List.filter_append,
    List.flatMap_map, List.filter_flatMap, hfilter]
  exact List.append_nil _

/-- Templates introduced by `class`, comments, and an `end` at any depth. -/
def respelledText : String :=
  "%\nclass end(with, class) extends end:\n\n\tshared:as(end):mapto\n  pattern class:\n" ++
    "    end mapto many\n end\n\t\tend\nend . end\nend\n"

theorem ofText_eq_ok_respelledText : ∃ p, Program.ofText respelledText = .ok p ∧
    p.isWellFormed = true ∧ ∃ ts lines, Token.ofText (Layout.canonical respelledText) = .ok ts ∧
      List.Forall₂ Line.Respells p.lines lines ∧
      (ts.map Token.lexeme).filter (!·.isLayout) = lines.flatMap Line.lexemes ∧
      List.Forall₂ (fun text line =>
          Scans true (Layout.canonicalContent text) (line.contents ++ [.endOfText]))
        (Layout.significantLines respelledText.toList) lines := by
  have hread : (Program.ofText respelledText).isOk = true := by decide +kernel
  cases h : Program.ofText respelledText with
  | ok p => exact ⟨p, rfl, Program.ofText_eq_ok h⟩
  | error e =>
    rw [h] at hread
    cases hread

end InterfaceSchema
