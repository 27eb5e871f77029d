import InterfaceSchema.Proofs.Reading.Indentation
import InterfaceSchema.Proofs.Reading.Shifting
import InterfaceSchema.Proofs.Reading.Tiling

/-!
# One text below another

The significant lines of two texts, one below the other, are those of the first and
those of the second, and the tokens of lines are those of each line. So a text below
one that is read is read as if it stood alone, in its place further down, and if it
cannot be read neither can both of them together (`Program.ofText_append_newline`). The
first statements of a text are those of its first lines alone.
-/

namespace InterfaceSchema

open Text

namespace Text

theorem lines_eq_singleton {l : List Char} (hl : '\n' ∉ l) (hne : l ≠ []) : lines l = [l] := by
  induction l with
  | nil => exact absurd rfl hne
  | cons c l ih =>
    rw [List.mem_cons, not_or] at hl
    rw [lines, if_neg (Ne.symm hl.1)]
    cases l with
    | nil => rfl
    | cons d l => rw [ih hl.2 (List.cons_ne_nil d l), consLine]

theorem lines_flatMap {ls : List (List Char)} (hls : ∀ l ∈ ls, '\n' ∉ l) :
    lines (ls.flatMap (· ++ ['\n'])) = ls := by
  induction ls with
  | nil => rfl
  | cons l ls ih =>
    obtain ⟨hl, hls⟩ := List.forall_mem_cons.1 hls
    rw [List.flatMap_cons, List.append_assoc, List.singleton_append, lines_append_newline hl, ih hls]

end Text

namespace Layout

theorem significantLines_line {l : List Char} (hl : '\n' ∉ l) (cs : List Char) :
    significantLines (l ++ '\n' :: cs) = [l].filter isSignificant ++ significantLines cs := by
  rw [significantLines, lines_append_newline hl, ← List.singleton_append, List.filter_append,
    significantLines]

theorem significantLines_of_not_mem {l : List Char} (hl : '\n' ∉ l) :
    significantLines l = [l].filter isSignificant := by
  by_cases hne : l = []
  · subst hne
    rfl
  · rw [significantLines, lines_eq_singleton hl hne]

/-- A line break between two texts makes no line significant. -/
theorem significantLines_append (cs ds : List Char) :
    significantLines (cs ++ '\n' :: ds) = significantLines cs ++ significantLines ds := by
  induction hn : cs.length using Nat.strongRecOn generalizing cs with
  | ind n ih =>
  by_cases hmem : '\n' ∈ cs
  · obtain ⟨l, rest, rfl, hl⟩ := List.eq_append_cons_of_mem hmem
    have hless : rest.length < n := by
      rw [← hn, List.length_append, List.length_cons]
      omega
    rw [List.append_assoc, List.cons_append, significantLines_line hl, significantLines_line hl,
      ih _ hless rest rfl, List.append_assoc]
  · rw [significantLines_line hmem, significantLines_of_not_mem hmem]

theorem isLine_of_mem_significantLines {cs l : List Char} (h : l ∈ significantLines cs) : IsLine l :=
  ⟨newline_not_mem_of_mem_lines (List.mem_of_mem_filter h), (List.mem_filter.1 h).2⟩

/-- The first significant lines are those of the first lines. -/
theorem exists_significantLines_eq_take (source : String) (n : Nat) :
    ∃ source' : String, lines source'.toList <+: lines source.toList ∧
      significantLines source'.toList = (significantLines source.toList).take n := by
  obtain ⟨first, rest, hlines, hfirst, _⟩ := List.filter_eq_append_iff.1
    (List.take_append_drop n (significantLines source.toList)).symm
  have hnewline (l : List Char) (hl : l ∈ first) : '\n' ∉ l :=
    newline_not_mem_of_mem_lines (hlines ▸ List.mem_append_left _ hl)
  refine ⟨String.ofList (first.flatMap (· ++ ['\n'])), ?_, ?_⟩
  · rw [String.toList_ofList, lines_flatMap hnewline, hlines]
    exact List.prefix_append _ _
  · rw [String.toList_ofList, significantLines, lines_flatMap hnewline, hfirst]

end Layout

namespace Position

theorem line_le_after (p : Position) (c : Char) : p.line ≤ (p.after c).line := by
  unfold after
  split
  · exact Nat.le_succ _
  · exact Nat.le_refl _

theorem line_le_afterText (p : Position) (cs : List Char) : p.line ≤ (p.afterText cs).line := by
  induction cs generalizing p with
  | nil => exact Nat.le_refl _
  | cons c cs ih => exact Nat.le_trans (p.line_le_after c) (ih _)

/-- Behind a line a text goes on at the start of the next one. -/
theorem afterText_canonicalLine {l : List Char} (hl : '\n' ∉ l) {p : Position} (hp : p.column = 1) :
    p.afterText (Layout.canonicalLine l) =
      p.down 1 (String.ofList (Layout.canonicalLine l)).utf8ByteSize := by
  have hcontent := Layout.newline_not_mem_canonicalContent hl
  have hoffset := p.offset_afterText (Layout.canonicalLine l)
  rw [Layout.canonicalLine_eq, afterText_append, afterText_cons, afterText_nil, after, if_pos rfl]
    at hoffset ⊢
  simp only at hoffset
  rw [hoffset, line_afterText hcontent, down, hp]

theorem afterText_lines {ls : List (List Char)} (hls : ∀ l ∈ ls, Layout.IsLine l) {p : Position}
    (hp : p.column = 1) : p.afterText (ls.flatMap Layout.canonicalLine) =
      p.down ls.length (String.ofList (ls.flatMap Layout.canonicalLine)).utf8ByteSize := by
  induction ls generalizing p with
  | nil => rfl
  | cons l ls ih =>
    obtain ⟨hl, hls⟩ := List.forall_mem_cons.1 hls
    have hrest := ih hls (p := p.down 1 (String.ofList (Layout.canonicalLine l)).utf8ByteSize) hp
    rw [List.flatMap_cons, afterText_append, afterText_canonicalLine hl.1 hp, hrest, down, down, down,
      String.ofList_append, String.utf8ByteSize_append]
    simp only [List.length_cons, Nat.add_assoc, Nat.add_comm 1]

end Position

namespace Token

variable {p : Position} {fresh : Bool} {cs : List Char} {ts : List Token}

theorem line_ne_zero_of_mem (h : scan p fresh cs = .ok ts) (hp : p.line ≠ 0) {t : Token} (ht : t ∈ ts) :
    t.span.line ≠ 0 := by
  obtain ⟨before, _, _, hspan⟩ := (tiles_of_scan h).exists_append_eq ht
  have hle := p.line_le_afterText before
  have hline : t.span.line = (p.afterText before).line := congrArg Span.line hspan
  omega

theorem line_ne_zero_of_scan {e : SyntaxError} (h : scan p fresh cs = .error e) (hp : p.line ≠ 0) :
    e.line ≠ 0 := by
  have hafter (p : Position) (c : Char) (hp : p.line ≠ 0) : (p.after c).line ≠ 0 :=
    Nat.ne_of_gt (Nat.lt_of_lt_of_le (Nat.pos_of_ne_zero hp) (p.line_le_after c))
  fun_induction scan p fresh cs
  case case1 => cases h
  case case4 ih => exact ih h (hafter _ _ hp)
  case case6 ih => exact ih (map_eq_error_iff.1 h) (hafter _ _ (hafter _ _ hp))
  case case7 | case9 =>
    cases h
    exact hp
  case case2 ih | case3 ih | case5 ih | case8 ih =>
    exact ih (map_eq_error_iff.1 h) (hafter _ _ hp)

/-- Lines are scanned alone, and what stands behind them as a text of its own. -/
theorem scan_lines_append (ls : List (List Char)) (p : Position) (cs : List Char) :
    scan p true (ls.flatMap Layout.canonicalLine ++ cs) = do
      let us ← scan p true (ls.flatMap Layout.canonicalLine)
      let vs ← scan (p.afterText (ls.flatMap Layout.canonicalLine)) true cs
      return us.dropLast ++ vs := by
  obtain rfl | ⟨ls, l, rfl⟩ := List.eq_nil_or_concat ls
  · show scan p true cs = scan p true cs >>= pure
    rw [bind_pure]
  · refine scan_append_of_getLast? ?_ p true cs
    rw [List.concat_eq_append, List.flatMap_append, List.flatMap_singleton, Layout.canonicalLine_eq,
      ← List.append_assoc, List.getLast?_concat]

/-- The tokens of a line, up to its end, are the same whatever stands below. -/
theorem exists_line_of_scan {l : List Char} (hl : '\n' ∉ l) (hp : p.line ≠ 0)
    (h : scan p fresh (l ++ '\n' :: cs) = .ok ts) : ∃ us vs q, RestOfLine us ∧ q.line ≠ 0 ∧
      scan q true cs = .ok vs ∧ ∀ ds ws, scan q true ds = .ok ws →
        scan p fresh (l ++ '\n' :: ds) = .ok (us ++ ws) := by
  rw [scan_append_newline hl] at h
  obtain ⟨us, hus, h⟩ := bind_eq_ok_iff.1 h
  obtain ⟨vs, hvs, _⟩ := bind_eq_ok_iff.1 h
  have hplace := fun t => line_ne_zero_of_mem hus hp (t := t)
  obtain ⟨us, rfl, hend, hline⟩ := exists_eq_concat_of_scan hus
  have hle := p.line_le_afterText l
  have hle' := (p.afterText l).line_le_after '\n'
  refine ⟨us ++ [⟨.lineEnd, (p.afterText l).upTo ((p.afterText l).after '\n')⟩], vs,
    (p.afterText l).after '\n', .concat (fun u hu => ⟨?_, ?_⟩) rfl ?_, by omega, hvs, fun ds ws hws => ?_⟩
  · have hmem := List.mem_map_of_mem (f := Token.lexeme) hu
    obtain ⟨k, span⟩ := u
    cases k with
    | lineEnd => exact absurd hmem (hline hl)
    | endOfText => exact absurd hmem hend
    | _ => rfl
  · exact hplace u (List.mem_append_left _ hu)
  · show (p.afterText l).line ≠ 0
    omega
  · rw [scan_append_newline hl, hus, hws, List.append_assoc]
    show Except.ok ((us ++ [_]).dropLast ++ _) = _
    rw [List.dropLast_concat]
    rfl

/-- The tokens of lines are those of each line, up to the end of it, and the first
lines have the first of these. -/
theorem exists_lines_of_scan {ls : List (List Char)} (hls : ∀ l ∈ ls, Layout.IsLine l)
    (hp : p.line ≠ 0) (h : scan p true (ls.flatMap Layout.canonicalLine) = .ok ts) :
    ∃ (uss : List (List Token)) (e : Token), ts = uss.flatten ++ [e] ∧ e.lexeme = .endOfText ∧
      e.span.line ≠ 0 ∧ (∀ us ∈ uss, RestOfLine us) ∧ ∀ n, ∃ e' : Token, e'.lexeme = .endOfText ∧
        scan p true ((ls.take n).flatMap Layout.canonicalLine) = .ok ((uss.take n).flatten ++ [e']) := by
  induction ls generalizing p ts with
  | nil =>
    cases h
    refine ⟨[], _, rfl, rfl, hp, List.forall_mem_nil _, fun n => ⟨⟨.endOfText, p.upTo p⟩, rfl, ?_⟩⟩
    rw [List.take_nil, List.take_nil]
    rfl
  | cons l ls ih =>
    obtain ⟨hl, hrest⟩ := List.forall_mem_cons.1 hls
    have hcontent := Layout.newline_not_mem_canonicalContent hl.1
    have hcons (ls : List (List Char)) : (l :: ls).flatMap Layout.canonicalLine =
        Layout.canonicalContent l ++ '\n' :: ls.flatMap Layout.canonicalLine := by
      rw [List.flatMap_cons, Layout.canonicalLine_eq, List.append_assoc, List.singleton_append]
    rw [hcons] at h
    obtain ⟨us, vs, q, hus, hq, hvs, hscan⟩ := exists_line_of_scan hcontent hp h
    rw [hscan _ _ hvs] at h
    cases h
    obtain ⟨uss, e, rfl, he, hplace, hlines, htake⟩ := ih hrest hq hvs
    refine ⟨us :: uss, e, (List.append_assoc _ _ _).symm, he, hplace,
      List.forall_mem_cons.2 ⟨hus, hlines⟩, fun n => ?_⟩
    cases n with
    | zero => exact ⟨⟨.endOfText, p.upTo p⟩, rfl, rfl⟩
    | succ n =>
      obtain ⟨e', he', htake⟩ := htake n
      refine ⟨e', he', ?_⟩
      rw [List.take_succ_cons, hcons, hscan _ _ htake, List.take_succ_cons, List.flatten_cons,
        List.append_assoc]

end Token

/-! ## Reading lines -/

namespace Program

/-- The schema of a text is that of its significant lines; that a text is never empty in
canonical layout makes no difference. -/
theorem ofText_eq_scan (source : String) : ofText source =
    Token.scan {} true ((Layout.significantLines source.toList).flatMap Layout.canonicalLine) >>=
      ofTokens := by
  rw [ofText, Token.ofText, Layout.canonical, String.toList_ofList]
  by_cases hnil : Layout.significantLines source.toList = []
  · have hempty : Reader.Spells [] [] := .blank fun _ _ => rfl
    have hblank (span : Span) : Reader.Spells [[⟨.lineEnd, span⟩]] [] :=
      .blank fun before vs => Reader.programStep_of_lineEnd rfl before vs
    rw [Layout.canonicalText, hnil]
    exact (ofTokens_of_spells (hblank _) rfl).trans (ofTokens_of_spells hempty rfl).symm
  · rw [Layout.canonicalText_eq_flatMap hnil]

/-- The lines of a text that is read spell its statements, and the first lines have the
tokens of the first of these. -/
theorem exists_spells_of_ofText {source : String} {p : Program} (h : ofText source = .ok p) :
    ∃ (uss : List (List Token)) (e : Token), Reader.Spells uss p.statements ∧
      Token.scan {} true ((Layout.significantLines source.toList).flatMap Layout.canonicalLine) =
        .ok (uss.flatten ++ [e]) ∧
      ∀ n, ∃ e' : Token, e'.lexeme = .endOfText ∧
        Token.scan {} true (((Layout.significantLines source.toList).take n).flatMap
          Layout.canonicalLine) = .ok ((uss.take n).flatten ++ [e']) := by
  rw [ofText_eq_scan] at h
  obtain ⟨ts, hts, h⟩ := bind_eq_ok_iff.1 h
  obtain ⟨uss, e, rfl, he, hplace, hlines, htake⟩ := Token.exists_lines_of_scan
    (fun l hl => Layout.isLine_of_mem_significantLines hl) (by decide) hts
  exact ⟨uss, e, spells_of_ofTokens hlines he hplace h, hts, htake⟩

/-- A text that is not read has its error on one of its lines. -/
theorem line_ne_zero_of_ofText {source : String} {x : SyntaxError} (h : ofText source = .error x) :
    x.line ≠ 0 := by
  rw [ofText_eq_scan] at h
  obtain h | ⟨ts, hts, h⟩ := bind_eq_error_iff.1 h
  · exact Token.line_ne_zero_of_scan h (by decide)
  · obtain ⟨uss, e, rfl, he, hplace, hlines, _⟩ := Token.exists_lines_of_scan
      (fun l hl => Layout.isLine_of_mem_significantLines hl) (by decide) hts
    exact line_ne_zero_of_ofTokens hlines he hplace h

/-- The first statements of a text are those of its first lines alone. -/
theorem exists_ofText_eq_take {source : String} {p : Program} (h : ofText source = .ok p) (n : Nat) :
    ∃ first : String, Text.lines first.toList <+: Text.lines source.toList ∧
      ofText first = .ok ⟨p.statements.take n⟩ := by
  obtain ⟨uss, _, hspells, _, htake⟩ := exists_spells_of_ofText h
  obtain ⟨m, hm⟩ := hspells.exists_take n
  obtain ⟨first, hlines, hsignificant⟩ := Layout.exists_significantLines_eq_take source m
  obtain ⟨e, he, hscan⟩ := htake m
  refine ⟨first, hlines, ?_⟩
  rw [ofText_eq_scan, hsignificant, hscan]
  exact ofTokens_of_spells hm he

end Program

/-! ## Texts below texts -/

/-- The place, in a text and another one below it, of what stands in the other one. A span
on no line stays where it is. -/
def Span.behind (above : String) (s : Span) : Span :=
  if s.line = 0 then s
  else
    let ls := Layout.significantLines above.toList
    s.down ls.length (String.ofList (ls.flatMap Layout.canonicalLine)).utf8ByteSize

namespace Program

variable {above : String} {p : Program}

/-- Below a text that is read another one is read as if it stood alone, in its place. -/
theorem ofText_append_eq (h : ofText above = .ok p) (below : String) :
    ofText (above ++ "\n" ++ below) =
      ((fun q => ⟨p.statements ++ q.statements.map (Statement.mapSpan (Span.behind above))⟩) <$>
        ofText below).mapError (SyntaxError.mapSpan (Span.behind above)) := by
  obtain ⟨uss, e, hspells, hscan, _⟩ := exists_spells_of_ofText h
  have hlines : ∀ l ∈ Layout.significantLines above.toList, Layout.IsLine l :=
    fun l hl => Layout.isLine_of_mem_significantLines hl
  have hposition := Position.afterText_lines (p := {}) hlines rfl
  have hsignificant : Layout.significantLines (above ++ "\n" ++ below).toList =
      Layout.significantLines above.toList ++ Layout.significantLines below.toList := by
    rw [String.toList_append, String.toList_append, List.append_assoc]
    exact Layout.significantLines_append _ _
  have hbehind {s : Span} (hs : s.line ≠ 0) : s.behind above = s.down _ _ := if_neg hs
  rw [ofText_eq_scan, hsignificant, List.flatMap_append, Token.scan_lines_append, hscan, hposition,
    Token.scan_down, ofText_eq_scan below]
  cases hbelow : Token.scan {} true
      ((Layout.significantLines below.toList).flatMap Layout.canonicalLine) with
  | error x =>
    have hx := hbehind (Token.line_ne_zero_of_scan hbelow (by decide))
    show Except.error (x.mapSpan (Span.down _ _)) = Except.error (x.mapSpan (Span.behind above))
    rw [SyntaxError.mapSpan, SyntaxError.mapSpan, hx]
  | ok vs =>
    have hvs : vs.map (Token.mapSpan (Span.down _ _)) = vs.map (Token.mapSpan (Span.behind above)) :=
      List.map_congr_left fun v hv => congrArg (Token.mk v.lexeme)
        (hbehind (Token.line_ne_zero_of_mem hbelow (by decide) hv)).symm
    show ofTokens ((uss.flatten ++ [e]).dropLast ++ vs.map (Token.mapSpan (Span.down _ _))) = _
    rw [List.dropLast_concat, hvs, ofTokens_append hspells]
    exact ofTokensBehind_mapSpan rfl p.statements vs

/-- Whatever stands below, the statements of a text that is read come first. -/
theorem prefix_of_ofText_append (h : ofText above = .ok p) {below : String} {r : Program}
    (hr : ofText (above ++ "\n" ++ below) = .ok r) : p.statements <+: r.statements := by
  rw [ofText_append_eq h] at hr
  cases hbelow : ofText below with
  | error e =>
    rw [hbelow] at hr
    cases hr
  | ok q =>
    rw [hbelow] at hr
    cases hr
    exact List.prefix_append _ _

/-- The statements of a text that is read are followed by those of the text below it, or
the error is that of the text below, as many lines further down as there are significant
lines above it. No statement depends on what stands below its lines: the first
statements are those of the first lines alone, and of these with any others below. -/
theorem ofText_append_newline (h : ofText above = .ok p) :
    (∀ below q, ofText below = .ok q → ∃ r, ofText (above ++ "\n" ++ below) = .ok r ∧
      r.statements = p.statements ++ q.statements.map (Statement.mapSpan (Span.behind above)) ∧
      (r == ⟨p.statements ++ q.statements⟩) = true) ∧
    (∀ below e, ofText below = .error e → ∃ e', ofText (above ++ "\n" ++ below) = .error e' ∧
      e'.message = e.message ∧ e'.expected = e.expected ∧ e'.found = e.found ∧
      e'.column = e.column ∧
      e'.line = e.line + (Layout.significantLines above.toList).length) ∧
    ∀ n, ∃ first : String, Text.lines first.toList <+: Text.lines above.toList ∧
      ofText first = .ok ⟨p.statements.take n⟩ ∧
      ∀ below r, ofText (first ++ "\n" ++ below) = .ok r →
        p.statements.take n <+: r.statements := by
  refine ⟨fun below q hq => ?_, fun below e he => ?_, fun n => ?_⟩
  · refine ⟨_, by rw [ofText_append_eq h, hq]; rfl, rfl, beq_iff.2 ?_⟩
    have hunplaced (s : Statement) : (s.mapSpan (Span.behind above)).unplaced = s.unplaced :=
      s.unplaced_mapSpan _
    simp only [unplaced, Statement.unplacedAll_eq_map, List.map_append, List.map_map,
      Function.comp_def, hunplaced]
  · have hspan : e.span.behind above = e.span.down _ _ := if_neg (line_ne_zero_of_ofText he)
    refine ⟨e.mapSpan (Span.behind above), by rw [ofText_append_eq h, he]; rfl, rfl, rfl, rfl, ?_, ?_⟩
    · exact (congrArg Span.column hspan).trans rfl
    · exact (congrArg Span.line hspan).trans rfl
  · obtain ⟨first, hlines, hfirst⟩ := exists_ofText_eq_take h n
    exact ⟨first, hlines, hfirst, fun below r hr => prefix_of_ofText_append hfirst hr⟩

/-- A template and a definition, with lines that are not significant between them. -/
def upperText : String :=
  "pattern A(a):\n\n  shared: x\n  % the parameter\n  a <- x\nend\r\n\nA(b): c"

theorem ofText_append_newline_upperText : ∃ p, ofText upperText = .ok p ∧
    (∀ below q, ofText below = .ok q → ∃ r, ofText (upperText ++ "\n" ++ below) = .ok r ∧
      r.statements = p.statements ++ q.statements.map (Statement.mapSpan (Span.behind upperText)) ∧
      (r == ⟨p.statements ++ q.statements⟩) = true) ∧
    (∀ below e, ofText below = .error e → ∃ e', ofText (upperText ++ "\n" ++ below) = .error e' ∧
      e'.message = e.message ∧ e'.expected = e.expected ∧ e'.found = e.found ∧
      e'.column = e.column ∧
      e'.line = e.line + (Layout.significantLines upperText.toList).length) ∧
    ∀ n, ∃ first : String, Text.lines first.toList <+: Text.lines upperText.toList ∧
      ofText first = .ok ⟨p.statements.take n⟩ ∧
      ∀ below r, ofText (first ++ "\n" ++ below) = .ok r →
        p.statements.take n <+: r.statements := by
  have hread : (ofText upperText).isOk = true := by decide +kernel
  cases h : ofText upperText with
  | ok p => exact ⟨p, rfl, ofText_append_newline h⟩
  | error e =>
    rw [h] at hread
    cases hread

end Program

end InterfaceSchema
