import InterfaceSchema.Compile
import InterfaceSchema.Proofs.Expansion.Places
import InterfaceSchema.Proofs.Reading.Places
import InterfaceSchema.Proofs.Reading.Scanning

/-!
# Indentation

Of the blanks at the start of a line it matters only whether they indent it, and
that they do unless there are none of them or a single space. Two texts whose
significant lines have the same `core` and agree in `isIndented` are scanned to the
same tokens, up to columns, offsets and the depths of indentation
(`Layout.byRow_ofText_canonical`). So they are the same schema, or fail alike on the
same line, and they compile alike (`compile_eq_of_alike`).
-/

namespace InterfaceSchema

open Text

namespace Layout

def isMargin (c : Char) : Bool := c == ' ' || c == '\t'

def margin (line : List Char) : List Char := line.takeWhile isMargin

/-- The line without its margin and the blanks at its end. -/
def core (line : List Char) : List Char := trimEnd (line.dropWhile isMargin)

/-- The margin is neither empty nor a single space. -/
def isIndented (line : List Char) : Bool := margin line != [] && margin line != [' ']

/-- The lines differ in their margins and the blanks at their ends, but not in
whether they are indented. -/
structure Alike (line line' : List Char) : Prop where
  core : core line' = core line
  isIndented : isIndented line' = isIndented line

instance (line line' : List Char) : Decidable (Alike line line') :=
  decidable_of_iff (Layout.core line' = Layout.core line ∧ isIndented line' = isIndented line)
    ⟨fun h => ⟨h.1, h.2⟩, fun h => ⟨h.core, h.isIndented⟩⟩

variable {line : List Char}

theorem isBlank_of_isMargin {c : Char} (h : isMargin c = true) : isBlank c = true := by
  simp only [isMargin, Bool.or_eq_true, beq_iff_eq] at h
  rcases h with rfl | rfl <;> decide

theorem isMargin_of_mem_margin {c : Char} (h : c ∈ margin line) : isMargin c = true := by
  have hall := List.all_takeWhile (p := isMargin) (l := line)
  exact List.all_eq_true.1 hall c h

/-- What is left of the margin behind the steps of indentation. Without a step it is
empty, or the line is indented and it begins with a tab. -/
theorem exists_indentation_eq (line : List Char) :
    ∃ ws, (∀ c ∈ ws, isMargin c = true) ∧ (indentation line).2 = ws ++ line.dropWhile isMargin ∧
      ((indentation line).1 ≠ 0 → isIndented line = true) ∧
      ((indentation line).1 = 0 → if isIndented line = true then ∃ ws', ws = '\t' :: ws' else ws = []) := by
  fun_induction indentation line with
  | case1 cs depth rest heq ih =>
    rw [heq] at ih
    obtain ⟨ws, hws, hrest, _⟩ := ih
    exact ⟨ws, hws, hrest, fun _ => by simp [isIndented, margin, isMargin],
      fun h => absurd h (Nat.succ_ne_zero _)⟩
  | case2 cs depth rest heq ih =>
    rw [heq] at ih
    obtain ⟨ws, hws, hrest, _⟩ := ih
    exact ⟨ws, hws, hrest, fun _ => by simp [isIndented, margin, isMargin],
      fun h => absurd h (Nat.succ_ne_zero _)⟩
  | case3 cs _ depth rest heq ih =>
    rw [heq] at ih
    obtain ⟨ws, hws, hrest, _⟩ := ih
    exact ⟨ws, hws, hrest, fun _ => by simp [isIndented, margin, isMargin],
      fun h => absurd h (Nat.succ_ne_zero _)⟩
  | case4 cs _ hspace =>
    rcases cs with _ | ⟨c, cs⟩
    · exact ⟨[], List.forall_mem_nil _, rfl, fun h => absurd rfl h, fun _ => rfl⟩
    · by_cases hc : c = '\t'
      · subst hc
        refine ⟨margin ('\t' :: cs), fun c => isMargin_of_mem_margin,
          List.takeWhile_append_dropWhile.symm, fun h => absurd rfl h, fun _ => ?_⟩
        rw [if_pos (by simp [isIndented, margin, isMargin])]
        exact ⟨margin cs, by simp [margin, isMargin]⟩
      · have hmargin : isMargin c = false := by
          simp only [isMargin, Bool.or_eq_false_iff, beq_eq_false_iff_ne]
          exact ⟨fun h => hspace cs (by rw [h]), hc⟩
        refine ⟨[], List.forall_mem_nil _, ?_, fun h => absurd rfl h, fun _ => ?_⟩
        · simp [hmargin, show isMargin ' ' = true from rfl]
        · simp [isIndented, margin, hmargin, show isMargin ' ' = true from rfl]
  | case5 cs htab _ _ hspace =>
    have hmargin : ∀ c ∈ cs.head?, isMargin c = false := by
      intro c hc
      obtain ⟨cs, rfl⟩ := List.head?_eq_some_iff.1 hc
      simp only [isMargin, Bool.or_eq_false_iff, beq_eq_false_iff_ne]
      exact ⟨fun h => hspace cs (by rw [h]), fun h => htab cs (by rw [h])⟩
    refine ⟨[], List.forall_mem_nil _, ?_, fun h => absurd rfl h, fun _ => ?_⟩
    · cases cs with
      | nil => rfl
      | cons c cs => simp [hmargin c rfl]
    · cases cs with
      | nil => rfl
      | cons c cs => simp [isIndented, margin, hmargin c rfl]

theorem trimEnd_append {cs ds : List Char} (h : trimEnd ds ≠ []) :
    trimEnd (cs ++ ds) = cs ++ trimEnd ds := by
  induction cs with
  | nil => rfl
  | cons c cs ih =>
    rw [List.cons_append, trimEnd, ih]
    split
    · rename_i heq
      exact absurd (List.append_eq_nil_iff.1 heq).2 h
    · rename_i heq
      rw [← heq, List.cons_append]

/-- Trimming at the end leaves the first character, if it leaves any. -/
theorem exists_trimEnd_eq_cons {cs : List Char} (h : trimEnd cs ≠ []) :
    ∃ c ds es, cs = c :: ds ∧ trimEnd cs = c :: es := by
  cases cs with
  | nil => exact absurd rfl h
  | cons c cs =>
    rw [trimEnd] at h ⊢
    split at h
    · split at h
      · exact absurd rfl h
      · rename_i hc
        exact ⟨c, cs, [], rfl, if_neg hc⟩
    · exact ⟨c, cs, _, rfl, rfl⟩

/-- The core of a significant line begins with no space and no tab. -/
theorem exists_core_eq_cons (h : isSignificant line = true) :
    ∃ c cs, core line = c :: cs ∧ isMargin c = false := by
  obtain ⟨c, hc, hblank⟩ := exists_of_isSignificant h
  have hmargin : isMargin c = false := by
    cases hm : isMargin c with
    | false => rfl
    | true => rw [isBlank_of_isMargin hm] at hblank; cases hblank
  have hmem : c ∈ line.dropWhile isMargin := by
    rw [← List.takeWhile_append_dropWhile (p := isMargin) (l := line), List.mem_append] at hc
    refine hc.resolve_left fun hc => ?_
    rw [isMargin_of_mem_margin hc] at hmargin
    cases hmargin
  obtain ⟨d, ds, es, hdrop, hcore⟩ :=
    exists_trimEnd_eq_cons (List.ne_nil_of_mem (mem_trimEnd hblank hmem))
  refine ⟨d, es, hcore, ?_⟩
  have hhead := List.head_dropWhile_not isMargin (l := line) (by rw [hdrop]; exact List.cons_ne_nil d ds)
  simpa only [hdrop, List.head_cons] using hhead

/-- In canonical layout the core of a significant line stands behind the steps of
indentation and what is left of the margin. -/
theorem canonicalContent_eq_append {ws : List Char} (h : isSignificant line = true)
    (hrest : (indentation line).2 = ws ++ line.dropWhile isMargin) :
    canonicalContent line = List.replicate (indentation line).1 '\t' ++ (ws ++ core line) := by
  obtain ⟨c, cs, hcore, _⟩ := exists_core_eq_cons h
  rw [canonicalContent, hrest, trimEnd_append, core]
  rw [core] at hcore
  rw [hcore]
  exact List.cons_ne_nil c cs

/-- In canonical layout a significant line is its core, or its core behind a tab and
further spaces and tabs. -/
theorem exists_canonicalContent_eq (h : isSignificant line = true) :
    if isIndented line = true then
      ∃ ws, (∀ c ∈ ws, isMargin c = true) ∧ canonicalContent line = '\t' :: (ws ++ core line)
    else canonicalContent line = core line := by
  obtain ⟨ws, hws, hrest, hstep, hnone⟩ := exists_indentation_eq line
  have hcontent := canonicalContent_eq_append h hrest
  cases hdepth : (indentation line).1 with
  | zero =>
    have hnone := hnone hdepth
    rw [hcontent, hdepth, List.replicate_zero, List.nil_append]
    split at hnone
    · rename_i hindented
      obtain ⟨ws', rfl⟩ := hnone
      rw [if_pos hindented]
      exact ⟨ws', (List.forall_mem_cons.1 hws).2, rfl⟩
    · rename_i hindented
      rw [if_neg hindented, hnone, List.nil_append]
  | succ depth =>
    rw [if_pos (hstep (by rw [hdepth]; exact Nat.succ_ne_zero depth)), hcontent, hdepth,
      List.replicate_succ, List.cons_append]
    refine ⟨List.replicate depth '\t' ++ ws, fun c hc => ?_, by rw [List.append_assoc]⟩
    obtain hc | hc := List.mem_append.1 hc
    · rw [List.eq_of_mem_replicate hc]
      rfl
    · exact hws c hc

end Layout

/-! ## Tokens by row -/

theorem Position.row_upTo (p q : Position) : (p.upTo q).row = { line := p.line } := rfl

theorem Position.line_after_congr {p p' : Position} (h : p'.line = p.line) (c : Char) :
    (p'.after c).line = (p.after c).line := by
  unfold after
  split
  · exact congrArg (· + 1) h
  · exact h

theorem Position.line_afterText {p : Position} {cs : List Char} (h : '\n' ∉ cs) :
    (p.afterText cs).line = p.line := by
  induction cs generalizing p with
  | nil => rfl
  | cons c cs ih =>
    rw [afterText_cons, ih fun hmem => h (List.mem_cons_of_mem _ hmem), after,
      if_neg (ne_of_mem_of_not_mem List.mem_cons_self h)]

namespace Token

/-- Tokens, or the failure to scan them, of which only lines count. -/
def byRow (x : Except SyntaxError (List Token)) : Except SyntaxError (List Token) :=
  (List.map (leveled Span.row) <$> x).mapError (SyntaxError.mapSpan Span.row)

variable {x x' : Except SyntaxError (List Token)} {us us' : List Token} {s s' : Span}

theorem byRow_eq_iff : byRow x' = byRow x ↔
    (∃ us us', x = .ok us ∧ x' = .ok us' ∧ us'.map (leveled Span.row) = us.map (leveled Span.row)) ∨
      ∃ e e', x = .error e ∧ x' = .error e' ∧ e'.mapSpan Span.row = e.mapSpan Span.row := by
  cases x <;> cases x' <;> simp [byRow, Except.mapError, Functor.map, Except.map]

theorem byRow_map_congr {g g' : List Token → List Token} (h : byRow x' = byRow x)
    (hg : ∀ us us', x = .ok us → x' = .ok us' →
      us'.map (leveled Span.row) = us.map (leveled Span.row) →
      (g' us').map (leveled Span.row) = (g us).map (leveled Span.row)) :
    byRow (g' <$> x') = byRow (g <$> x) := by
  obtain ⟨us, us', rfl, rfl, hus⟩ | ⟨e, e', rfl, rfl, he⟩ := byRow_eq_iff.1 h
  · exact byRow_eq_iff.2 (.inl ⟨g us, g' us', rfl, rfl, hg us us' rfl rfl hus⟩)
  · exact byRow_eq_iff.2 (.inr ⟨e, e', rfl, rfl, he⟩)

theorem byRow_cons_congr (l : Lexeme) (hs : s'.row = s.row) (h : byRow x' = byRow x) :
    byRow ((⟨l, s'⟩ :: ·) <$> x') = byRow ((⟨l, s⟩ :: ·) <$> x) := by
  refine byRow_map_congr h fun us us' _ _ hus => ?_
  rw [List.map_cons, List.map_cons, hus, leveled, leveled, hs]

/-- Tokens of a line, its end, and tokens of the lines behind it. -/
theorem byRow_line_congr {y y' : Except SyntaxError (List Token)} (hs : s'.row = s.row)
    (h : byRow x' = byRow x) (hrest : byRow y' = byRow y) :
    byRow (do
      let us ← x'
      let vs ← y'
      return us.dropLast ++ ⟨.lineEnd, s'⟩ :: vs) =
    byRow (do
      let us ← x
      let vs ← y
      return us.dropLast ++ ⟨.lineEnd, s⟩ :: vs) := by
  obtain ⟨us, us', rfl, rfl, hus⟩ | ⟨e, e', rfl, rfl, he⟩ := byRow_eq_iff.1 h
  · obtain ⟨vs, vs', rfl, rfl, hvs⟩ | ⟨e, e', rfl, rfl, he⟩ := byRow_eq_iff.1 hrest
    · refine byRow_eq_iff.2 (.inl ⟨_, _, rfl, rfl, ?_⟩)
      rw [List.map_append, List.map_append, List.map_dropLast, List.map_dropLast, hus, List.map_cons,
        List.map_cons, hvs, leveled, leveled, hs]
    · exact byRow_eq_iff.2 (.inr ⟨e, e', rfl, rfl, he⟩)
  · exact byRow_eq_iff.2 (.inr ⟨e, e', rfl, rfl, he⟩)

/-- The character joins the word behind it in both, or in none. -/
theorem leveled_consWordChar {c : Char} (hs : s'.row = s.row)
    (h : us'.map (leveled Span.row) = us.map (leveled Span.row))
    (hopens : OpensWord s'.stop us' ↔ OpensWord s.stop us) :
    (consWordChar c s' us').map (leveled Span.row) = (consWordChar c s us).map (leveled Span.row) := by
  by_cases hword : OpensWord s.stop us
  · obtain ⟨name, span, rest, rfl, hstart⟩ := hword
    obtain ⟨name', span', rest', rfl, hstart'⟩ := hopens.2 ⟨name, span, rest, rfl, hstart⟩
    rw [consWordChar, if_pos hstart', consWordChar, if_pos hstart]
    simp only [List.map_cons, List.cons.injEq, leveled, Token.mk.injEq, Lexeme.leveled,
      Lexeme.word.injEq] at h ⊢
    obtain ⟨⟨rfl, _⟩, hrest⟩ := h
    exact ⟨⟨rfl, hs⟩, hrest⟩
  · rw [consWordChar_of_not_opensWord c hword,
      consWordChar_of_not_opensWord c fun h => hword (hopens.1 h), List.map_cons, List.map_cons, h,
      leveled, leveled, hs]

/-- Tokens without indentation at the front. -/
def behindIndent : List Token → List Token
  | ⟨.indent _, _⟩ :: ts => ts
  | ts => ts

theorem leveled_consIndent (s : Span) (us : List Token) :
    (consIndent s us).map (leveled Span.row) =
      ⟨.indent 1, s.row⟩ :: behindIndent (us.map (leveled Span.row)) := by
  rcases us with _ | ⟨⟨l, span⟩, us⟩
  · rfl
  · cases l <;> rfl

/-- By row the tokens of a text do not depend on where it stands on its line. -/
theorem byRow_scan_congr {p p' : Position} (hline : p'.line = p.line) (fresh : Bool)
    (cs : List Char) : byRow (scan p' fresh cs) = byRow (scan p fresh cs) := by
  have hrow {p p' : Position} (hline : p'.line = p.line) (q q' : Position) :
      (p'.upTo q').row = (p.upTo q).row := by
    rw [Position.row_upTo, Position.row_upTo, hline]
  fun_induction scan p fresh cs generalizing p'
  case case1 => exact byRow_eq_iff.2 (.inl ⟨_, _, rfl, rfl, by simp [leveled, Position.row_upTo, hline]⟩)
  case case2 ih =>
    rw [scan_cons_newline]
    exact byRow_cons_congr _ (hrow hline _ _) (ih (Position.line_after_congr hline _))
  case case3 htab ih =>
    obtain ⟨rfl, rfl⟩ := htab
    rw [scan_cons_tab]
    refine byRow_map_congr (ih (Position.line_after_congr hline _)) fun us us' _ _ hus => ?_
    rw [leveled_consIndent, leveled_consIndent, hus, hrow hline]
  case case4 c cs q hnewline htab hseparator ih =>
    rw [scan.eq_def]
    simp only [if_neg hnewline, if_neg htab, if_pos hseparator]
    exact ih (Position.line_after_congr hline c)
  case case5 c cs q _ _ _ hc ih =>
    rw [scan_cons_word _ _ _ hc]
    refine byRow_map_congr (ih (Position.line_after_congr hline c)) fun us us' hus hus' heq => ?_
    exact leveled_consWordChar (hrow hline _ _) heq
      ((opensWord_iff hus').trans (opensWord_iff hus).symm)
  case case6 ih =>
    rw [scan_cons_arrow]
    exact byRow_cons_congr _ (hrow hline _ _)
      (ih (Position.line_after_congr (Position.line_after_congr hline _) _))
  case case7 cs harrow q hnewline htab hseparator hword =>
    rw [scan.eq_def]
    simp only [if_neg hnewline, if_neg htab, if_neg hseparator, if_neg hword, if_true]
    exact byRow_eq_iff.2 (.inr ⟨_, _, rfl, rfl,
      congrArg SyntaxError.loneArrowHead (hrow hline _ _)⟩)
  case case8 hmark ih =>
    rw [scan_cons_mark _ _ _ hmark]
    exact byRow_cons_congr _ (hrow hline _ _) (ih (Position.line_after_congr hline _))
  case case9 c cs q hnewline htab hseparator hword harrow hmark =>
    rw [scan.eq_def]
    simp only [if_neg hnewline, if_neg htab, if_neg hseparator, if_neg hword, if_neg harrow, hmark]
    exact byRow_eq_iff.2 (.inr ⟨_, _, rfl, rfl,
      congrArg (SyntaxError.strayCharacter c) (hrow hline _ _)⟩)

theorem isSeparator_of_isMargin {c : Char} (h : Layout.isMargin c = true) : isSeparator c = true := by
  simp only [Layout.isMargin, Bool.or_eq_true, beq_iff_eq] at h
  rcases h with rfl | rfl <;> decide

theorem scan_append_margin {ws : List Char} (hws : ∀ c ∈ ws, Layout.isMargin c = true) (p : Position)
    (cs : List Char) : scan p false (ws ++ cs) = scan (p.afterText ws) false cs := by
  induction ws generalizing p with
  | nil => rfl
  | cons c ws ih =>
    obtain ⟨hc, hws⟩ := List.forall_mem_cons.1 hws
    rw [List.cons_append, scan_cons_separator _ _ (isSeparator_of_isMargin hc), ih hws,
      Position.afterText_cons]

theorem scan_of_not_isMargin {c : Char} (h : Layout.isMargin c = false) (p : Position)
    (cs : List Char) : scan p true (c :: cs) = scan p false (c :: cs) := by
  refine scan_of_head?_ne_tab p fun htab => ?_
  cases htab
  cases h

theorem scan_cons_space (p : Position) (fresh : Bool) (cs : List Char) :
    scan p fresh (' ' :: cs) = scan (p.after ' ') false cs := by
  rw [scan.eq_def]
  rfl

theorem behindIndent_of_scan {p : Position} {cs : List Char} {us : List Token}
    (h : scan p false cs = .ok us) :
    behindIndent (us.map (leveled Span.row)) = us.map (leveled Span.row) := by
  rcases us with _ | ⟨⟨l, span⟩, us⟩
  · rfl
  · have hindent := isIndent_of_scan h rfl
    cases l <;> first | rfl | cases hindent

theorem byRow_map_consIndent (s : Span) (x : Except SyntaxError (List Token)) :
    byRow (consIndent s <$> x) = (⟨.indent 1, s.row⟩ :: behindIndent ·) <$> byRow x := by
  cases x with
  | ok us => exact congrArg Except.ok (leveled_consIndent s us)
  | error e => rfl

theorem byRow_consIndent_scan {p q : Position} (hline : q.line = p.line) (cs : List Char) :
    byRow (consIndent (p.upTo (p.after '\t')) <$> scan q false cs) =
      (⟨.indent 1, { line := p.line }⟩ :: ·) <$> byRow (scan p false cs) := by
  rw [byRow_map_consIndent, ← byRow_scan_congr hline]
  cases hus : scan q false cs with
  | error e => rfl
  | ok us =>
    refine congrArg (fun ts => Except.ok (_ :: ts)) ?_
    exact behindIndent_of_scan hus

/-- A tab at the start of a line is one token of indentation, together with all
spaces and tabs behind it. -/
theorem byRow_scan_tab {ws : List Char} (hws : ∀ c ∈ ws, Layout.isMargin c = true) {c : Char}
    (hc : Layout.isMargin c = false) (cs : List Char) (p : Position) :
    byRow (scan p true ('\t' :: (ws ++ c :: cs))) =
      (⟨.indent 1, { line := p.line }⟩ :: ·) <$> byRow (scan p false (c :: cs)) := by
  have hafter (p : Position) : (p.after '\t').line = p.line := rfl
  rw [scan_cons_tab]
  induction ws generalizing p with
  | nil =>
    rw [List.nil_append, scan_of_not_isMargin hc]
    exact byRow_consIndent_scan (hafter p) _
  | cons d ws ih =>
    obtain ⟨hd, htail⟩ := List.forall_mem_cons.1 hws
    simp only [Layout.isMargin, Bool.or_eq_true, beq_iff_eq] at hd
    obtain rfl | rfl := hd
    · have hnewline : '\n' ∉ ws := fun hmem => by cases htail _ hmem
      have hline : (((p.after '\t').after ' ').afterText ws).line = p.line :=
        Position.line_afterText hnewline
      rw [List.cons_append, scan_cons_space, scan_append_margin htail]
      exact byRow_consIndent_scan hline _
    · rw [List.cons_append, byRow_map_consIndent, scan_cons_tab, ih htail,
        ← byRow_scan_congr (hafter p)]
      cases byRow (scan (p.after '\t') false (c :: cs)) <;> rfl

end Token

namespace Layout

/-! ## Lines that are alike -/

theorem byRow_scan_of_alike {line line' : List Char} (h : Alike line line')
    (hline : isSignificant line = true) (hline' : isSignificant line' = true) {p p' : Position}
    (hp : p'.line = p.line) : Token.byRow (Token.scan p' true (canonicalContent line')) =
      Token.byRow (Token.scan p true (canonicalContent line)) := by
  obtain ⟨c, cs, hcore, hc⟩ := exists_core_eq_cons hline
  have hcontent := exists_canonicalContent_eq hline
  have hcontent' := exists_canonicalContent_eq hline'
  rw [h.isIndented, h.core] at hcontent'
  cases hindented : isIndented line with
  | false =>
    rw [hindented, if_neg Bool.false_ne_true] at hcontent hcontent'
    rw [hcontent, hcontent']
    exact Token.byRow_scan_congr hp true _
  | true =>
    rw [hindented, if_pos rfl, hcore] at hcontent hcontent'
    obtain ⟨ws, hws, hcontent⟩ := hcontent
    obtain ⟨ws', hws', hcontent'⟩ := hcontent'
    rw [hcontent, hcontent', Token.byRow_scan_tab hws hc, Token.byRow_scan_tab hws' hc, hp,
      Token.byRow_scan_congr hp]

/-- A line as it can come from a text. -/
def IsLine (line : List Char) : Prop := '\n' ∉ line ∧ isSignificant line = true

theorem byRow_scan_lines {ls ls' : List (List Char)} (h : List.Forall₂ Alike ls ls')
    (hls : ∀ l ∈ ls, IsLine l) (hls' : ∀ l ∈ ls', IsLine l) {p p' : Position}
    (hp : p'.line = p.line) : Token.byRow (Token.scan p' true (ls'.flatMap canonicalLine)) =
      Token.byRow (Token.scan p true (ls.flatMap canonicalLine)) := by
  induction h generalizing p p' with
  | nil => exact Token.byRow_scan_congr hp true []
  | @cons l l' ls ls' halike _ ih =>
    obtain ⟨⟨hnewline, hline⟩, hls⟩ := List.forall_mem_cons.1 hls
    obtain ⟨⟨hnewline', hline'⟩, hls'⟩ := List.forall_mem_cons.1 hls'
    have hcontent := newline_not_mem_canonicalContent hnewline
    have hcontent' := newline_not_mem_canonicalContent hnewline'
    have hend : (p'.afterText (canonicalContent l')).line = (p.afterText (canonicalContent l)).line := by
      rw [Position.line_afterText hcontent, Position.line_afterText hcontent', hp]
    have hfirst := byRow_scan_of_alike halike hline hline' hp
    have hrest := ih hls hls' (Position.line_after_congr hend '\n')
    rw [List.flatMap_cons, List.flatMap_cons, canonicalLine_eq, canonicalLine_eq, List.append_assoc,
      List.append_assoc, List.singleton_append, List.singleton_append,
      Token.scan_append_newline hcontent, Token.scan_append_newline hcontent']
    exact Token.byRow_line_congr (congrArg (Span.mk 0 0 · 0) hend) hfirst hrest

theorem canonicalText_eq_flatMap {cs : List Char} (h : significantLines cs ≠ []) :
    canonicalText cs = (significantLines cs).flatMap canonicalLine := by
  obtain ⟨line, ls, hls⟩ := List.exists_cons_of_ne_nil h
  unfold canonicalText
  split
  · rename_i hnil
    rw [hls, List.flatMap_cons, canonicalLine_eq] at hnil
    simp at hnil
  · rename_i heq
    exact heq.symm

/-- Texts of lines that are alike have the same tokens by row. -/
theorem byRow_ofText_canonical {source source' : String}
    (h : List.Forall₂ Alike (significantLines source.toList) (significantLines source'.toList)) :
    Token.byRow (Token.ofText (canonical source')) = Token.byRow (Token.ofText (canonical source)) := by
  have hlines (source : String) : ∀ l ∈ significantLines source.toList, IsLine l := fun l hl =>
    ⟨newline_not_mem_of_mem_lines (List.mem_of_mem_filter hl), (List.mem_filter.1 hl).2⟩
  unfold Token.ofText canonical
  rw [String.toList_ofList, String.toList_ofList]
  by_cases hnil : significantLines source.toList = []
  · have hnil' : significantLines source'.toList = [] := by
      rw [hnil] at h
      exact List.forall₂_nil_left_iff.1 h
    rw [canonicalText, hnil', canonicalText, hnil]
  · have hnil' : significantLines source'.toList ≠ [] := by
      intro hnil'
      rw [hnil'] at h
      exact hnil (List.forall₂_nil_right_iff.1 h)
    rw [canonicalText_eq_flatMap hnil, canonicalText_eq_flatMap hnil']
    exact byRow_scan_lines h (hlines source) (hlines source') rfl

end Layout

/-- The errors differ in columns and offsets only. -/
structure SyntaxError.SameButColumn (e e' : SyntaxError) : Prop where
  message : e'.message = e.message
  expected : e'.expected = e.expected
  found : e'.found = e.found
  line : e'.line = e.line

/-- The names are equal and stand on the same line. -/
def Identifier.SameLine (id id' : Identifier) : Prop := id'.name = id.name ∧ id'.span.line = id.span.line

/-- The errors are of the same kind and differ in columns and offsets only. -/
def SemanticError.SameButColumn : SemanticError → SemanticError → Prop
  | emptyDefinition site, emptyDefinition site' => site.SameLine site'
  | undeclaredTemplate site, undeclaredTemplate site' => site.SameLine site'
  | duplicateTemplate site, duplicateTemplate site' => site.SameLine site'
  | arityMismatch site expected actual, arityMismatch site' expected' actual' =>
    site.SameLine site' ∧ expected' = expected ∧ actual' = actual
  | recursiveTemplate name chain, recursiveTemplate name' chain' => name' = name ∧ chain' = chain
  | _, _ => False

def CompileError.SameButColumn : CompileError → CompileError → Prop
  | form e, form e' => e.SameButColumn e'
  | meaning e, meaning e' => e.SameButColumn e'
  | _, _ => False

theorem SyntaxError.sameButColumn_iff {e e' : SyntaxError} :
    e.SameButColumn e' ↔ e'.mapSpan Span.row = e.mapSpan Span.row := by
  simp only [mapSpan, Span.row, SyntaxError.mk.injEq, Span.mk.injEq, true_and, and_true]
  exact ⟨fun h => ⟨h.message, h.line, h.expected, h.found⟩, fun ⟨hm, hl, he, hf⟩ => ⟨hm, he, hf, hl⟩⟩

theorem SemanticError.sameButColumn_iff {e e' : SemanticError} :
    e.SameButColumn e' ↔ e'.mapSpan Span.row = e.mapSpan Span.row := by
  cases e <;> cases e' <;>
    simp [SameButColumn, Identifier.SameLine, mapSpan, Identifier.mapSpan, Span.row, and_assoc]

section

variable {source source' : String}

theorem Program.ofText_mapSpan_row (source : String) :
    (Program.mapSpan Span.row <$> Program.ofText source).mapError (SyntaxError.mapSpan Span.row) =
      Token.byRow (Token.ofText (Layout.canonical source)) >>= Program.ofTokens := by
  rw [ofText, Token.byRow]
  cases Token.ofText (Layout.canonical source) with
  | error e => rfl
  | ok ts => exact (Program.ofTokens_leveled rfl ts).symm

/-- Texts of lines that are alike are the same schema by row, or fail alike. -/
theorem Program.ofText_of_alike (h : List.Forall₂ Layout.Alike
    (Layout.significantLines source.toList) (Layout.significantLines source'.toList)) :
    (∃ p p', Program.ofText source = .ok p ∧ Program.ofText source' = .ok p' ∧
      p'.mapSpan Span.row = p.mapSpan Span.row) ∨
    ∃ e e', Program.ofText source = .error e ∧ Program.ofText source' = .error e' ∧
      e.SameButColumn e' := by
  have hrow := Program.ofText_mapSpan_row source'
  rw [Layout.byRow_ofText_canonical h, ← Program.ofText_mapSpan_row source] at hrow
  cases hp : Program.ofText source <;> cases hp' : Program.ofText source' <;> rw [hp, hp'] at hrow
  · exact .inr ⟨_, _, rfl, rfl, SyntaxError.sameButColumn_iff.2 (Except.error.inj hrow)⟩
  · cases hrow
  · cases hrow
  · exact .inl ⟨_, _, rfl, rfl, Except.ok.inj hrow⟩

/-- Programs that are the same by row have the same facts, or fail alike. -/
theorem Program.facts_of_mapSpan_row (options : Options) {p p' : Program}
    (h : p'.mapSpan Span.row = p.mapSpan Span.row) :
    (∃ facts, p.facts options = .ok facts ∧ p'.facts options = .ok facts) ∨
    ∃ e e', p.facts options = .error e ∧ p'.facts options = .error e' ∧ e.SameButColumn e' := by
  have hrow := Program.facts_mapSpan Span.row options p'
  rw [h, Program.facts_mapSpan] at hrow
  cases hp : p.facts options <;> cases hp' : p'.facts options <;> rw [hp, hp'] at hrow
  · exact .inr ⟨_, _, rfl, rfl, SemanticError.sameButColumn_iff.2 (Except.error.inj hrow).symm⟩
  · cases hrow
  · cases hrow
  · exact .inl ⟨_, rfl, by rw [Except.ok.inj hrow]⟩

/-- Only what stands in the significant lines and whether they are indented makes a
difference, and neither how far nor with which blanks. -/
theorem compile_eq_of_alike (options : Options) (h : List.Forall₂ Layout.Alike
    (Layout.significantLines source.toList) (Layout.significantLines source'.toList)) :
    ((∃ p p', Program.ofText source = .ok p ∧ Program.ofText source' = .ok p' ∧ (p' == p) = true) ∨
      ∃ e e', Program.ofText source = .error e ∧ Program.ofText source' = .error e' ∧
        e.SameButColumn e') ∧
    ((∃ facts, compile options source = .ok facts ∧ compile options source' = .ok facts) ∨
      ∃ e e', compile options source = .error e ∧ compile options source' = .error e' ∧
        e.SameButColumn e') := by
  obtain ⟨p, p', hp, hp', hrow⟩ | ⟨e, e', he, he', hsame⟩ := Program.ofText_of_alike h
  · have hcompile {source : String} {p : Program} (hp : Program.ofText source = .ok p) :
        compile options source = (p.facts options).mapError CompileError.meaning := by
      rw [compile, hp]
      rfl
    refine ⟨.inl ⟨p, p', hp, hp', Program.beq_iff.2 ?_⟩, ?_⟩
    · rw [← Program.unplaced_mapSpan Span.row p', hrow, Program.unplaced_mapSpan]
    · rw [hcompile hp, hcompile hp']
      obtain ⟨facts, hf, hf'⟩ | ⟨e, e', he, he', hsame⟩ := Program.facts_of_mapSpan_row options hrow
      · exact .inl ⟨facts, by rw [hf]; rfl, by rw [hf']; rfl⟩
      · exact .inr ⟨.meaning e, .meaning e', by rw [he]; rfl, by rw [he']; rfl, hsame⟩
  · refine ⟨.inr ⟨e, e', he, he', hsame⟩, .inr ⟨.form e, .form e', ?_, ?_, hsame⟩⟩
    · rw [compile, he]
      rfl
    · rw [compile, he']
      rfl

end

/-- A text laid out with spaces and tabs in turn. -/
def unevenText : String :=
  "pattern T(x):\r\n   many: m\r\n\n \tm mapto x\n\t% members\n end  \nT(a): i\n"

/-- The same lines laid out evenly. -/
def evenText : String :=
  "% a template\npattern T(x):\n\tmany: m\n\tm mapto x\nend\n\nT(a): i"

example : (compile {} unevenText).toOption.map (·.map Fact.text) =
    some ["apply_instance(T, i)", "set(many, __i__m)", "apply_mapto(i, __i__m)",
      "apply_mapto(__i__m, a)"] := by
  decide +kernel

theorem compile_eq_of_alike_evenText :
    List.Forall₂ Layout.Alike (Layout.significantLines unevenText.toList)
      (Layout.significantLines evenText.toList) ∧
    ((∃ p p', Program.ofText unevenText = .ok p ∧ Program.ofText evenText = .ok p' ∧
        (p' == p) = true) ∨
      ∃ e e', Program.ofText unevenText = .error e ∧ Program.ofText evenText = .error e' ∧
        e.SameButColumn e') ∧
    ((∃ facts, compile {} unevenText = .ok facts ∧ compile {} evenText = .ok facts) ∨
      ∃ e e', compile {} unevenText = .error e ∧ compile {} evenText = .error e' ∧
        e.SameButColumn e') := by
  have hpairs : ∀ pair ∈ (Layout.significantLines unevenText.toList).zip
      (Layout.significantLines evenText.toList), Layout.Alike pair.1 pair.2 := by decide +kernel
  have halike : List.Forall₂ Layout.Alike (Layout.significantLines unevenText.toList)
      (Layout.significantLines evenText.toList) :=
    List.forall₂_iff_zip.2 ⟨by decide +kernel, fun hpair => hpairs _ hpair⟩
  exact ⟨halike, compile_eq_of_alike {} halike⟩

end InterfaceSchema
