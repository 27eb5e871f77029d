import InterfaceSchema.Proofs.Reading.Documents

/-!
# Canonical text

A text in canonical layout has the significant lines of its source, each in canonical
layout for itself (`Layout.lines_canonicalText`). They are no comments and do not end in
a blank. They begin with tabs only, and stay as they are when they are brought into
canonical layout again, unless the source is uneven (`Layout.isUneven`): where the steps
of indentation end at a single space before a tab, only this space is dropped, and
spaces behind the tab stay.
-/

namespace InterfaceSchema

namespace Text

theorem trimEnd_trimEnd (cs : List Char) : trimEnd (trimEnd cs) = trimEnd cs := by
  induction cs with
  | nil => rfl
  | cons c cs ih =>
    cases hcs : trimEnd cs with
    | nil => by_cases hc : isBlank c = true <;> simp [trimEnd, hcs, hc]
    | cons d ds =>
      rw [hcs] at ih
      simp only [trimEnd.eq_2 c, hcs, ih]

theorem trimStart_trimEnd (cs : List Char) : trimStart (trimEnd cs) = trimEnd (trimStart cs) := by
  unfold trimStart
  induction cs with
  | nil => rfl
  | cons c cs ih =>
    by_cases hc : isBlank c = true
    · rw [List.dropWhile_cons_of_pos hc, ← ih, trimEnd]
      cases hcs : trimEnd cs with
      | nil => simp [hc]
      | cons d ds => simp only [List.dropWhile_cons_of_pos hc]
    · rw [List.dropWhile_cons_of_neg hc, trimEnd]
      cases trimEnd cs <;> simp [hc]

end Text

open Text

namespace Layout

/-- The steps of indentation of the line end at a single space before a tab, and behind
that tab stand spaces before the text. -/
def isUneven : List Char → Bool
  | '\t' :: cs => isUneven cs
  | ' ' :: ' ' :: cs => isUneven cs
  | ' ' :: '\t' :: cs => (margin cs).contains ' '
  | _ => false

/-- Behind its tabs the line holds a character that is no space. -/
def isTabbed (line : List Char) : Bool :=
  match line.dropWhile (· == '\t') with
  | [] => false
  | c :: _ => c != ' '

variable {line : List Char}

theorem margin_append {ws cs : List Char} (hws : ∀ c ∈ ws, isMargin c = true) :
    margin (ws ++ cs) = ws ++ margin cs := List.takeWhile_append_of_pos hws

theorem margin_dropWhile (line : List Char) : margin (line.dropWhile isMargin) = [] := by
  induction line with
  | nil => rfl
  | cons c cs ih =>
    by_cases hc : isMargin c = true
    · rw [List.dropWhile_cons_of_pos hc, ih]
    · rw [List.dropWhile_cons_of_neg hc, margin, List.takeWhile_cons_of_neg hc]

theorem margin_eq_nil (htab : ∀ cs, line = '\t' :: cs → False)
    (hspace : ∀ cs, line = ' ' :: cs → False) : margin line = [] := by
  rcases line with _ | ⟨c, cs⟩
  · rfl
  · have hc : isMargin c = false := by
      simp only [isMargin, Bool.or_eq_false_iff, beq_eq_false_iff_ne]
      exact ⟨fun hc => hspace cs (by rw [hc]), fun hc => htab cs (by rw [hc])⟩
    simp [margin, hc]

theorem trimEnd_eq_margin_append_core (h : isSignificant line = true) :
    trimEnd line = margin line ++ core line := by
  obtain ⟨c, cs, hcore, _⟩ := exists_core_eq_cons h
  have hne : trimEnd (line.dropWhile isMargin) ≠ [] := by
    rw [← core, hcore]
    exact List.cons_ne_nil c cs
  rw [core, ← trimEnd_append hne, margin, List.takeWhile_append_dropWhile]

/-- An uneven line is one with a space left behind its steps of indentation. -/
theorem isUneven_eq (line : List Char) :
    isUneven line = (margin (indentation line).2).contains ' ' := by
  fun_induction indentation line with
  | case1 cs depth rest heq ih => rw [isUneven, ih, heq]
  | case2 cs depth rest heq ih => rw [isUneven, isUneven, ih, heq]
  | case3 cs _ depth rest heq ih => rw [isUneven, ih, heq]
  | case4 cs _ hspace =>
    by_cases htab : ∃ ds, cs = '\t' :: ds
    · obtain ⟨ds, rfl⟩ := htab
      simp [isUneven, margin, isMargin]
    · have htab : ∀ ds, cs = '\t' :: ds → False := fun ds hds => htab ⟨ds, hds⟩
      rw [isUneven, margin_eq_nil htab hspace, List.contains_nil]
      all_goals grind
  | case5 cs htab _ _ hspace =>
    rw [isUneven, margin_eq_nil htab hspace, List.contains_nil]
    all_goals grind

/-- Spaces are left behind the tabs of a line in canonical layout if it is uneven. -/
theorem space_mem_margin_iff (h : isSignificant line = true) :
    ' ' ∈ margin (canonicalContent line) ↔ isUneven line = true := by
  obtain ⟨ws, hws, hrest, _⟩ := exists_indentation_eq line
  obtain ⟨c, cs, hcore, hc⟩ := exists_core_eq_cons h
  have htabs : ∀ c ∈ List.replicate (indentation line).1 '\t', isMargin c = true := fun c hc => by
    rw [List.eq_of_mem_replicate hc]
    rfl
  have hmargin : margin (canonicalContent line) = List.replicate (indentation line).1 '\t' ++ ws := by
    rw [canonicalContent_eq_append h hrest, margin_append htabs, margin_append hws, hcore]
    simp [margin, hc]
  rw [isUneven_eq, hrest, margin_append hws, margin_dropWhile, hmargin]
  simp

/-! ## Fixed points -/

/-- A step of indentation is one tab and a single space is dropped, so the line gets
shorter with spaces in its margin. -/
theorem length_indentation (line : List Char) :
    (indentation line).1 + (indentation line).2.length ≤ line.length ∧
      (' ' ∈ margin line → (indentation line).1 + (indentation line).2.length < line.length) := by
  fun_induction indentation line with
  | case1 cs depth rest heq ih =>
    rw [heq] at ih
    obtain ⟨hle, hlt⟩ := ih
    simp only [List.length_cons] at *
    refine ⟨by omega, fun h => ?_⟩
    have := hlt (by simpa [margin, isMargin] using h)
    omega
  | case2 cs depth rest heq ih =>
    rw [heq] at ih
    have hle := ih.1
    simp only [List.length_cons] at *
    exact ⟨by omega, fun _ => by omega⟩
  | case3 cs _ depth rest heq ih =>
    rw [heq] at ih
    have hle := ih.1
    simp only [List.length_cons] at *
    exact ⟨by omega, fun _ => by omega⟩
  | case4 cs => simp
  | case5 cs htab _ _ hspace =>
    refine ⟨by simp, fun h => ?_⟩
    rw [margin_eq_nil htab hspace] at h
    cases h

theorem canonicalContent_eq_self_iff (h : isSignificant line = true) (htrim : trimEnd line = line) :
    canonicalContent line = line ↔ ' ' ∉ margin line := by
  constructor
  · intro heq hspace
    have hlt := (length_indentation line).2 hspace
    have hle := (trimEnd_sublist (indentation line).2).length_le
    have hlength := congrArg List.length heq
    rw [canonicalContent, List.length_append, List.length_replicate] at hlength
    omega
  · intro hspace
    obtain ⟨c, cs, hcore, hc⟩ := exists_core_eq_cons h
    have hmargin : margin line = List.replicate (margin line).length '\t' := by
      refine List.eq_replicate_of_mem fun d hd => ?_
      have hd' := isMargin_of_mem_margin hd
      simp only [isMargin, Bool.or_eq_true, beq_iff_eq] at hd'
      exact hd'.resolve_left fun hd' => hspace (hd' ▸ hd)
    simp only [isMargin, Bool.or_eq_false_iff, beq_eq_false_iff_ne] at hc
    have hline : line = List.replicate (margin line).length '\t' ++ c :: cs := by
      rw [← hmargin, ← hcore, ← trimEnd_eq_margin_append_core h, htrim]
    have hindent : indentation line = ((margin line).length, c :: cs) := by
      conv_lhs => rw [hline]
      exact indentation_replicate hc.1 hc.2 _ _
    have hcs : trimEnd (c :: cs) = c :: cs := by rw [← hcore, core, trimEnd_trimEnd]
    rw [canonicalContent, hindent, hcs, ← hline]

/-- A line in canonical layout begins with tabs only if no space is left behind them. -/
theorem isTabbed_iff (h : isSignificant line = true) : isTabbed line = true ↔ ' ' ∉ margin line := by
  induction line with
  | nil => cases h
  | cons c cs ih =>
    by_cases htab : c = '\t'
    · subst htab
      simpa [isTabbed, margin, isMargin] using ih h
    · by_cases hspace : c = ' ' <;> simp [isTabbed, margin, isMargin, htab, hspace]

/-! ## Lines of canonical texts -/

theorem trimStart_indentation (line : List Char) :
    trimStart (indentation line).2 = trimStart line := by
  unfold trimStart
  fun_induction indentation line with
  | case1 cs depth rest heq ih =>
    rw [heq] at ih
    rw [ih]
    rfl
  | case2 cs depth rest heq ih =>
    rw [heq] at ih
    rw [ih]
    rfl
  | case3 cs _ depth rest heq ih =>
    rw [heq] at ih
    rw [ih]
    rfl
  | case4 cs => rfl
  | case5 cs => rfl

theorem isSignificant_canonicalContent (line : List Char) :
    isSignificant (canonicalContent line) = isSignificant line := by
  have hstart : trimStart (canonicalContent line) = trimEnd (trimStart line) := by
    rw [canonicalContent, ← trimStart_indentation line, ← trimStart_trimEnd]
    exact List.dropWhile_append_of_pos fun c hc => by
      rw [List.eq_of_mem_replicate hc]
      rfl
  rw [isSignificant, isSignificant, hstart]
  cases htrim : trimStart line with
  | nil => rfl
  | cons c cs =>
    have hc : isBlank c = false := by
      rw [trimStart] at htrim
      have hhead := List.head_dropWhile_not isBlank (l := line) (by rw [htrim]; exact List.cons_ne_nil c cs)
      simpa only [htrim, List.head_cons] using hhead
    rw [trimEnd]
    cases trimEnd cs <;> simp [hc]

theorem trimEnd_canonicalContent (h : isSignificant line = true) :
    trimEnd (canonicalContent line) = canonicalContent line := by
  obtain ⟨c, hc, hblank⟩ := exists_of_isSignificant h
  have hne : trimEnd (indentation line).2 ≠ [] :=
    List.ne_nil_of_mem (mem_trimEnd hblank (mem_indentation hblank hc))
  rw [canonicalContent, trimEnd_append (by rwa [trimEnd_trimEnd]), trimEnd_trimEnd]

theorem canonicalContent_canonicalContent_iff (h : isSignificant line = true) :
    canonicalContent (canonicalContent line) = canonicalContent line ↔ isUneven line = false := by
  rw [canonicalContent_eq_self_iff (by rwa [isSignificant_canonicalContent])
    (trimEnd_canonicalContent h), space_mem_margin_iff h, Bool.not_eq_true]

theorem isTabbed_canonicalContent_iff (h : isSignificant line = true) :
    isTabbed (canonicalContent line) = true ↔ isUneven line = false := by
  rw [isTabbed_iff (by rwa [isSignificant_canonicalContent]), space_mem_margin_iff h,
    Bool.not_eq_true]

variable {cs : List Char}

theorem flatMap_canonicalLine (ls : List (List Char)) :
    ls.flatMap canonicalLine = (ls.map canonicalContent).flatMap (· ++ ['\n']) := by
  rw [List.flatMap_map]
  rfl

theorem newline_not_mem_canonicalContents :
    ∀ l ∈ (significantLines cs).map canonicalContent, '\n' ∉ l := by
  intro l hl
  obtain ⟨line, hline, rfl⟩ := List.mem_map.1 hl
  exact newline_not_mem_canonicalContent (isLine_of_mem_significantLines hline).1

/-- A text has the lines of its significant lines in canonical layout; without any of
these it is one empty line. -/
theorem lines_canonicalText (cs : List Char) : lines (canonicalText cs) =
    if significantLines cs = [] then [[]] else (significantLines cs).map canonicalContent := by
  split
  · rename_i hnil
    rw [canonicalText, hnil]
    rfl
  · rename_i hne
    rw [canonicalText_eq_flatMap hne, flatMap_canonicalLine,
      lines_flatMap newline_not_mem_canonicalContents]

theorem significantLines_canonicalText (cs : List Char) :
    significantLines (canonicalText cs) = (significantLines cs).map canonicalContent := by
  rw [significantLines, lines_canonicalText]
  split
  · rename_i hnil
    rw [hnil]
    rfl
  · refine List.filter_eq_self.2 fun l hl => ?_
    obtain ⟨line, hline, rfl⟩ := List.mem_map.1 hl
    rw [isSignificant_canonicalContent]
    exact (List.mem_filter.1 hline).2

theorem mem_lines_canonicalText {l : List Char} : l ∈ lines (canonicalText cs) ∧ l ≠ [] ↔
    ∃ line ∈ significantLines cs, canonicalContent line = l := by
  rw [← List.mem_map, ← significantLines_canonicalText, significantLines, List.mem_filter]
  refine and_congr_right fun hl => ⟨fun hne => ?_, fun hsignificant hnil => ?_⟩
  · have hmem : l ∈ significantLines (canonicalText cs) := by
      rw [significantLines_canonicalText]
      rw [lines_canonicalText] at hl
      split at hl
      · exact absurd (List.mem_singleton.1 hl) hne
      · exact hl
    exact (List.mem_filter.1 hmem).2
  · rw [hnil] at hsignificant
    cases hsignificant

theorem canonicalText_eq_iff {ds : List Char} : canonicalText cs = canonicalText ds ↔
    (significantLines cs).map canonicalContent = (significantLines ds).map canonicalContent := by
  constructor
  · intro h
    rw [← significantLines_canonicalText, ← significantLines_canonicalText, h]
  · intro h
    rw [canonicalText, canonicalText, flatMap_canonicalLine, flatMap_canonicalLine, h]

/-- No line of a canonical text is a comment, and none ends in a blank. It begins with
tabs only, and is left as it is when it is brought into canonical layout again, exactly
if no line of the source is uneven. -/
theorem canonical_canonical_iff (source : String) :
    (∀ l ∈ lines (canonical source).toList, l ≠ [] → isSignificant l = true ∧ trimEnd l = l) ∧
    ((∀ l ∈ lines (canonical source).toList, l ≠ [] → isTabbed l = true) ↔
      ∀ line ∈ significantLines source.toList, isUneven line = false) ∧
    (canonical (canonical source) = canonical source ↔
      ∀ line ∈ significantLines source.toList, isUneven line = false) := by
  rw [canonical, canonical, String.toList_ofList, String.ofList_inj, canonicalText_eq_iff,
    significantLines_canonicalText, List.map_map, List.map_inj_left]
  generalize source.toList = cs
  have hsignificant : ∀ line ∈ significantLines cs, isSignificant line = true :=
    fun line hline => (isLine_of_mem_significantLines hline).2
  refine ⟨fun l hl hne => ?_, ⟨fun h line hline => ?_, fun h l hl hne => ?_⟩,
    forall₂_congr fun line hline => canonicalContent_canonicalContent_iff (hsignificant line hline)⟩
  · obtain ⟨line, hline, rfl⟩ := mem_lines_canonicalText.1 ⟨hl, hne⟩
    rw [isSignificant_canonicalContent]
    exact ⟨hsignificant line hline, trimEnd_canonicalContent (hsignificant line hline)⟩
  · obtain ⟨hl, hne⟩ := mem_lines_canonicalText.2 ⟨line, hline, rfl⟩
    exact (isTabbed_canonicalContent_iff (hsignificant line hline)).1 (h _ hl hne)
  · obtain ⟨line, hline, rfl⟩ := mem_lines_canonicalText.1 ⟨hl, hne⟩
    exact (isTabbed_canonicalContent_iff (hsignificant line hline)).2 (h line hline)

/-- Behind the dropped space a tab and two spaces stay, which are two steps of
indentation for themselves. -/
theorem canonical_unevenLine : canonical " \t  b" = "\t  b\n" ∧
    canonical (canonical " \t  b") = "\t\tb\n" ∧
    ∃ l ∈ lines (canonical " \t  b").toList, l ≠ [] ∧ isTabbed l = false := by
  decide +kernel

end Layout

end InterfaceSchema
