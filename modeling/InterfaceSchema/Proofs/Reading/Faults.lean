import InterfaceSchema.Proofs.Reading.Canonical
import InterfaceSchema.Proofs.Reading.Exactness
import InterfaceSchema.Proofs.Reading.Rejection
import InterfaceSchema.Proofs.Reading.Tracking
import Mathlib.Data.List.TakeWhile

/-!
# Where errors are

The text is brought into canonical layout before it is read, which leaves lines out and
changes margins. Still an error tells the place and what is found there, and its line
is the number of a significant line of the source that holds it
(`Program.liesIn_of_ofText`). A piece of the canonical text that goes over no line end
stands in one line (`Layout.exists_standsAt`), and is read off the same line of the
source (`Lexeme.isFrom_of_standsAt`).
-/

namespace InterfaceSchema

open Text

namespace Text

theorem takeWhile_append_cons {α : Type} {p : α → Bool} {a : α} (ha : p a = false) (xs ys : List α) :
    (xs ++ a :: ys).takeWhile p = xs.takeWhile p := by
  induction xs with
  | nil => rw [List.nil_append, List.takeWhile_cons_of_neg (by simp [ha]), List.takeWhile_nil]
  | cons x xs ih => simp only [List.cons_append, List.takeWhile_cons, ih]

/-- A text of lines goes on with the rest of one of them, which begins behind the last
line feed so far. -/
theorem exists_line_of_flatMap {ls : List (List Char)} {before rest : List Char}
    (hls : ∀ l ∈ ls, '\n' ∉ l) (h : ls.flatMap (· ++ ['\n']) = before ++ rest) (hrest : rest ≠ []) :
    ∃ v w, ls[before.count '\n']? = some (v ++ w) ∧ w ++ ['\n'] <+: rest ∧
      v.length = (before.reverse.takeWhile (· != '\n')).length := by
  induction ls generalizing before with
  | nil => exact absurd (List.append_eq_nil_iff.1 h.symm).2 hrest
  | cons l ls ih =>
    obtain ⟨hl, hls⟩ := List.forall_mem_cons.1 hls
    rw [List.flatMap_cons] at h
    have hnext {below : List Char} (hbelow : ls.flatMap (· ++ ['\n']) = below ++ rest) :
        ∃ v w, (l :: ls)[(l ++ ['\n'] ++ below).count '\n']? = some (v ++ w) ∧ w ++ ['\n'] <+: rest ∧
          v.length = ((l ++ ['\n'] ++ below).reverse.takeWhile (· != '\n')).length := by
      obtain ⟨v, w, hget, hbegins, hlength⟩ := ih hls hbelow
      refine ⟨v, w, ?_, hbegins, ?_⟩
      · rw [List.count_append, List.count_append, List.count_eq_zero.2 hl]
        simpa [Nat.add_comm] using hget
      · rw [hlength, List.reverse_append, List.reverse_append, List.reverse_singleton,
          List.singleton_append, takeWhile_append_cons (by decide)]
    obtain ⟨below, rfl, hbelow⟩ | ⟨w, hw, rfl⟩ := List.append_eq_append_iff.1 h
    · exact hnext hbelow
    · rcases w.eq_nil_or_concat with rfl | ⟨w, c, rfl⟩
      · rw [List.append_nil] at hw
        rw [← hw, ← List.append_nil (l ++ ['\n'])]
        exact hnext rfl
      · rw [List.concat_eq_append, ← List.append_assoc] at hw
        obtain ⟨rfl, hc⟩ := List.append_inj' hw rfl
        obtain rfl : '\n' = c := List.singleton_inj.1 hc
        have hbefore : '\n' ∉ before := fun hmem => hl (List.mem_append_left w hmem)
        refine ⟨before, w, ?_, ?_, ?_⟩
        · rw [List.count_eq_zero.2 hbefore, List.getElem?_cons_zero]
        · rw [List.concat_eq_append]
          exact List.prefix_append _ _
        · rw [List.takeWhile_eq_self_iff.2, List.length_reverse]
          simpa [List.mem_reverse] using fun c hc => ne_of_mem_of_not_mem hc hbefore

/-! ## Parts of a line -/

variable {w xs : List Char} {a : Char}

theorem infix_of_infix_replicate_append {n : Nat} (ha : a ∉ w)
    (h : w <:+: List.replicate n a ++ xs) : w <:+: xs := by
  induction n with
  | zero => simpa using h
  | succ n ih =>
    rw [List.replicate_succ, List.cons_append, List.infix_cons_iff] at h
    obtain h | h := h
    · cases w with
      | nil => exact List.nil_infix
      | cons c w =>
        obtain ⟨rfl, _⟩ := List.cons_prefix_cons.1 h
        exact absurd List.mem_cons_self ha
    · exact ih h

theorem infix_of_infix_concat (ha : a ∉ w) (h : w <:+: xs ++ [a]) : w <:+: xs := by
  rw [← List.reverse_infix] at h ⊢
  rw [List.reverse_append] at h
  exact infix_of_infix_replicate_append (n := 1) (by simpa using ha) h

theorem trimEnd_isPrefix (cs : List Char) : trimEnd cs <+: cs := by
  obtain ⟨blanks, hcs, _⟩ := exists_trimEnd_append cs
  exact ⟨blanks, hcs.symm⟩

end Text

namespace Layout

theorem indentation_suffix (line : List Char) : (indentation line).2 <:+ line := by
  fun_induction indentation line with
  | case1 cs depth rest heq ih =>
    rw [heq] at ih
    exact ih.trans (List.suffix_cons _ _)
  | case2 cs depth rest heq ih =>
    rw [heq] at ih
    exact ih.trans (List.suffix_append [' ', ' ', ' ', ' '] cs)
  | case3 cs _ depth rest heq ih =>
    rw [heq] at ih
    exact ih.trans (List.suffix_append [' ', ' '] cs)
  | case4 cs => exact List.suffix_cons _ _
  | case5 cs => exact List.suffix_refl cs

theorem infix_of_infix_canonicalLine {w line : List Char} (htab : '\t' ∉ w) (hfeed : '\n' ∉ w)
    (h : w <:+: canonicalLine line) : w <:+: line := by
  rw [canonicalLine_eq, canonicalContent] at h
  have hrest := infix_of_infix_replicate_append htab (infix_of_infix_concat hfeed h)
  exact hrest.trans ((trimEnd_isPrefix _).isInfix.trans (indentation_suffix line).isInfix)

/-- The span is at a place where the piece is written in the line, which is the
significant line with that number, in canonical layout. -/
def StandsAt (source : String) (s : Span) (piece line : List Char) : Prop :=
  ∃ n v w, s.line = n + 1 ∧ (significantLines source.toList)[n]? = some line ∧
    canonicalLine line = v ++ piece ++ w ∧ s.column = v.length + 1

variable {source : String}

theorem toList_canonical (h : significantLines source.toList ≠ []) : (canonical source).toList =
    ((significantLines source.toList).map canonicalContent).flatMap (· ++ ['\n']) := by
  rw [canonical, String.toList_ofList, canonicalText_eq_flatMap h, flatMap_canonicalLine]

/-- A piece of the text in canonical layout that goes over no line end. -/
theorem exists_standsAt {before piece behind : List Char} {p : Position}
    (hlines : significantLines source.toList ≠ [])
    (h : (canonical source).toList = before ++ piece ++ behind) (hne : piece ≠ [])
    (hpiece : '\n' ∉ piece.dropLast) :
    ∃ line, StandsAt source ((Position.afterText {} before).upTo p) piece line := by
  rw [toList_canonical hlines, List.append_assoc] at h
  obtain ⟨v, w, hget, hbegins, hlength⟩ := exists_line_of_flatMap newline_not_mem_canonicalContents h
    (List.append_ne_nil_of_left_ne_nil hne behind)
  obtain ⟨line, hline, hcontent⟩ := Option.map_eq_some_iff.1 (List.getElem?_map ▸ hget)
  have hpiece : piece <+: w ++ ['\n'] := by
    obtain hpiece | hrest := List.prefix_or_prefix_of_prefix (List.prefix_append piece behind) hbegins
    · exact hpiece
    · obtain ⟨rest, rfl⟩ := hrest
      rcases rest.eq_nil_or_concat with rfl | ⟨rest, c, rfl⟩
      · exact ⟨[], by rw [List.append_nil, List.append_nil]⟩
      · rw [List.concat_eq_append, ← List.append_assoc, List.dropLast_concat] at hpiece
        exact absurd (by simp) hpiece
  obtain ⟨w', hw⟩ := hpiece
  refine ⟨line, before.count '\n', v, w', ?_, hline, ?_, ?_⟩
  · rw [Position.upTo, Position.afterText_eq]
    exact Nat.add_comm 1 _
  · rw [canonicalLine_eq, hcontent, List.append_assoc, ← hw, List.append_assoc]
  · rw [Position.upTo, Position.afterText_eq, hlength]
    exact Nat.add_comm 1 _

/-- Only an indented line begins with tabs in canonical layout. -/
theorem isIndented_of_standsAt {s : Span} {line : List Char} {k : Nat} (hcolumn : s.column = 1)
    (h : StandsAt source s (List.replicate (k + 1) '\t') line) : isIndented line = true := by
  obtain ⟨n, v, w, _, hget, hcanonical, hlength⟩ := h
  rw [hcolumn] at hlength
  obtain rfl : v = [] := List.length_eq_zero_iff.1 (Nat.succ.inj hlength).symm
  have hsignificant := (isLine_of_mem_significantLines (List.mem_of_getElem? hget)).2
  by_contra hnot
  have hcontent := exists_canonicalContent_eq hsignificant
  obtain ⟨c, cs, hcore, hmargin⟩ := exists_core_eq_cons hsignificant
  rw [if_neg hnot, hcore] at hcontent
  rw [canonicalLine_eq, hcontent, List.replicate_succ] at hcanonical
  obtain ⟨rfl, _⟩ := List.cons_eq_cons.1 hcanonical
  cases hmargin

theorem count_newline_canonical (h : significantLines source.toList ≠ []) :
    (canonical source).toList.count '\n' = (significantLines source.toList).length := by
  rw [toList_canonical h, ← List.length_map (f := canonicalContent)]
  have hlines : ∀ l ∈ (significantLines source.toList).map canonicalContent, '\n' ∉ l :=
    newline_not_mem_canonicalContents
  generalize (significantLines source.toList).map canonicalContent = ls at hlines
  induction ls with
  | nil => rfl
  | cons l ls ih =>
    obtain ⟨hl, hls⟩ := List.forall_mem_cons.1 hlines
    rw [List.flatMap_cons, List.count_append, List.count_append, List.count_eq_zero.2 hl, ih hls,
      List.length_cons]
    simp [Nat.add_comm]

end Layout

namespace Lexeme

/-- The lexeme is read off this line of the source. -/
def IsFrom (line : List Char) : Lexeme → Prop
  | indent _ => Layout.isIndented line = true
  | lineEnd => True
  | endOfText => False
  | l => l.text <:+: line

theorem isPrintable_of_isScanned {l : Lexeme} (h : l.isScanned = true) (hl : l.isLayout = false) :
    l.isPrintable = true := by
  cases l <;> first | exact h | cases hl

/-- A lexeme of a text is written without a line feed before its end. -/
theorem newline_not_mem_dropLast_text {l : Lexeme} (h : l.isScanned = true) :
    '\n' ∉ l.text.dropLast := by
  intro hmem
  cases hl : l.isLayout with
  | true =>
    cases l with
    | indent depth => cases List.eq_of_mem_replicate ((List.dropLast_sublist _).subset hmem)
    | lineEnd | endOfText => cases hmem
    | _ => cases hl
  | false =>
    have hblank := isBlank_of_mem_text (isPrintable_of_isScanned h hl) ((List.dropLast_sublist _).subset hmem)
    revert hblank
    decide

theorem text_ne_nil_of_isScanned {l : Lexeme} (h : l.isScanned = true) (hl : l ≠ .endOfText) :
    l.text ≠ [] := by
  cases hlayout : l.isLayout with
  | true =>
    cases l with
    | indent depth =>
      obtain ⟨k, rfl⟩ := Nat.exists_eq_succ_of_ne_zero (bne_iff_ne.1 h)
      exact List.cons_ne_nil _ _
    | lineEnd => exact List.cons_ne_nil _ _
    | endOfText => exact absurd rfl hl
    | _ => cases hlayout
  | false => exact text_ne_nil (isPrintable_of_isScanned h hlayout)

/-- What stands in a line in canonical layout is read off the line of the source. -/
theorem isFrom_of_standsAt {source : String} {line : List Char} {s : Span} {l : Lexeme}
    (h : l.isScanned = true) (hend : l ≠ .endOfText) (hindent : l.isIndent = true → s.column = 1)
    (hline : Layout.StandsAt source s l.text line) : l.IsFrom line := by
  cases hl : l.isLayout with
  | true =>
    cases l with
    | indent depth =>
      obtain ⟨k, rfl⟩ := Nat.exists_eq_succ_of_ne_zero (bne_iff_ne.1 h)
      exact Layout.isIndented_of_standsAt (hindent rfl) hline
    | lineEnd => trivial
    | endOfText => exact absurd rfl hend
    | _ => cases hl
  | false =>
    have hblank {c : Char} (hc : c ∈ l.text) : isBlank c = false :=
      isBlank_of_mem_text (isPrintable_of_isScanned h hl) hc
    have htab : '\t' ∉ l.text := fun hmem => absurd (hblank hmem) (by decide)
    have hfeed : '\n' ∉ l.text := fun hmem => absurd (hblank hmem) (by decide)
    obtain ⟨_, v, w, _, _, hcanonical, _⟩ := hline
    have hpart := Layout.infix_of_infix_canonicalLine htab hfeed ⟨v, w, hcanonical.symm⟩
    cases l with
    | indent | lineEnd | endOfText => cases hl
    | _ => exact hpart

end Lexeme

/-- A token of a text in canonical layout is that of the end, below the last line, or
stands in a line. -/
theorem Token.stands_of_mem {source : String} {ts : List Token} {t : Token}
    (hlines : Layout.significantLines source.toList ≠ [])
    (h : ofText (Layout.canonical source) = .ok ts) (ht : t ∈ ts) :
    (∃ line, Layout.StandsAt source t.span t.lexeme.text line ∧ t.lexeme.IsFrom line) ∨
      t.lexeme = .endOfText ∧ t.span.line = (Layout.significantLines source.toList).length + 1 := by
  by_cases hend : t.lexeme = .endOfText
  · right
    obtain ⟨us, rfl, hus, _⟩ := exists_eq_concat_of_scan h
    rcases List.mem_append.1 ht with ht | ht
    · exact absurd (List.mem_map.2 ⟨t, ht, hend⟩) hus
    · rw [List.mem_singleton.1 ht, Position.upTo, Position.afterText_eq]
      exact ⟨rfl, by rw [Layout.count_newline_canonical hlines, Nat.add_comm]⟩
  · left
    have hscanned := isScanned_of_scan h t ht
    have hplace : ∃ before behind, (Layout.canonical source).toList = before ++ t.lexeme.text ++ behind ∧
        t.span = (Position.afterText {} before).upTo
          (Position.afterText {} (before ++ t.lexeme.text)) ∧
        (t.lexeme.isIndent = true → t.span.column = 1) := by
      obtain ⟨l, s⟩ := t
      cases l with
      | indent depth =>
        obtain ⟨before, behind, htext, _, hopens, _, rfl⟩ := indents_of_mem h ht
        refine ⟨before, behind, htext, rfl, fun _ => ?_⟩
        rw [upTo_replicate_tab (hopens.imp_left And.left)]
      | _ =>
        obtain ⟨before, behind, htext, hspan⟩ := (tiles_of_scan h).exists_append_eq ht
        exact ⟨before, behind, htext, hspan, fun hindent => by cases hindent⟩
    obtain ⟨before, behind, htext, hspan, hindent⟩ := hplace
    obtain ⟨line, hline⟩ := Layout.exists_standsAt hlines htext
      (Lexeme.text_ne_nil_of_isScanned hscanned hend)
      (Lexeme.newline_not_mem_dropLast_text hscanned)
    rw [← hspan] at hline
    exact ⟨line, hline, Lexeme.isFrom_of_standsAt hscanned hend hindent hline⟩

/-- The error is at a character that stands in no token, or at a token, of the text in
canonical layout. It has that place and tells what is there, but for an empty list of
arguments it tells the closing parenthesis at the place of the opening one. Its line is
the number of the significant line with the character or token, or one more than there
are at the end of the text. -/
inductive SyntaxError.LiesIn (source : String) (e : SyntaxError) : Prop
  | character {c line} (hscan : Token.ofText (Layout.canonical source) = .error e)
    (hspan : e.span.Covers (Layout.canonical source) (String.singleton c))
    (hfound : e.found = some ("'" ++ c.toString ++ "'"))
    (hline : Layout.StandsAt source e.span [c] line) (hc : c ∈ line)
  | token {ts k t} (hts : Token.ofText (Layout.canonical source) = .ok ts) (ht : ts[k]? = some t)
    (hspan : e.span = t.span)
    (hfound : ∀ f, e.found = some f → f = t.lexeme.describe ∨
      e = .emptyArguments t.span ∧ t.lexeme = .openParen ∧
        ∃ u, ts[k + 1]? = some u ∧ u.lexeme = .closeParen)
    (hline : (∃ line, Layout.StandsAt source e.span t.lexeme.text line ∧ t.lexeme.IsFrom line) ∨
      t.lexeme = .endOfText ∧ e.line = (Layout.significantLines source.toList).length + 1)

/-- The error of tokens that are no schema is at one of them. -/
theorem Cursor.isAt_of_ofTokens {ts : List Token} {e : SyntaxError} (hts : Token.Ended ts)
    (h : Program.ofTokens ts = .error e) : e.IsAt ts := by
  have htracks := tracks_program hts 0 hts.length_pos
  rw [TracksAt, List.drop_zero] at htracks
  unfold Program.ofTokens at h
  generalize Reader.program ts = x at h htracks
  generalize program ts 0 = y at htracks
  cases htracks with
  | ok => cases h
  | error he => exact Except.error.inj h ▸ he

namespace Program

variable {source : String} {e : SyntaxError}

theorem significantLines_ne_nil (h : ofText source = .error e) :
    Layout.significantLines source.toList ≠ [] := by
  intro hnil
  have hok : (Token.ofText "\n" >>= ofTokens).isOk = true := by decide +kernel
  have hcanonical : Layout.canonical source = "\n" := by
    rw [Layout.canonical, Layout.canonicalText, hnil]
    rfl
  rw [ofText, hcanonical] at h
  rw [h] at hok
  cases hok

/-- The error of a text that is no schema lies in the text, at the place it says. -/
theorem liesIn_of_ofText (h : ofText source = .error e) : e.LiesIn source := by
  have hlines := significantLines_ne_nil h
  rcases bind_eq_error_iff.1 h with hscan | ⟨ts, hts, hread⟩
  · obtain ⟨before, c, behind, htext, _, hstuck, he⟩ := Token.exists_of_ofText_eq_error hscan
    have htext : (Layout.canonical source).toList = before ++ [c] ++ behind := by
      rw [htext, List.append_assoc, List.singleton_append]
    have hspan : e.span = (Position.afterText {} before).upTo (Position.afterText {} (before ++ [c])) := by
      rw [he, Token.span_rejection]
    obtain ⟨line, hline⟩ := Layout.exists_standsAt hlines htext (List.cons_ne_nil c []) List.not_mem_nil
    rw [← hspan] at hline
    refine .character hscan ?_ (by rw [he, Token.found_rejection]) hline ?_
    · rw [hspan, String.singleton_eq_ofList, ← String.ofList_toList (s := Layout.canonical source), htext]
      exact Span.covers_upTo before [c] behind
    · obtain ⟨n, v, w, _, _, hcanonical, _⟩ := hline
      have hplain {d : Char} (hd : Token.isPlain d = true) : d ∉ [c] := fun hmem => by
        rw [List.mem_singleton.1 hmem, hstuck.1] at hd
        cases hd
      have hpart := Layout.infix_of_infix_canonicalLine (hplain (by decide)) (hplain (by decide))
        ⟨v, w, hcanonical.symm⟩
      exact hpart.subset List.mem_cons_self
  · obtain ⟨k, t, hget, hspan, hfound⟩ := Cursor.isAt_of_ofTokens (Token.ended_of_ofText hts) hread
    have hstands := Token.stands_of_mem hlines hts (List.mem_of_getElem? hget)
    rw [← hspan] at hstands
    exact .token hts hget hspan hfound hstands

end Program

/-- A text with an empty list of arguments in its second significant line. -/
def faultyText : String := "% heading\n\nmany: a\n\n \t% a note\n many: T( ): i\n"

theorem liesIn_of_ofText_faultyText :
    ∃ e, Program.ofText faultyText = .error e ∧ e.LiesIn faultyText := by
  have herror : (Program.ofText faultyText).isOk = false := by decide +kernel
  cases h : Program.ofText faultyText with
  | ok p =>
    rw [h] at herror
    cases herror
  | error e => exact ⟨e, rfl, Program.liesIn_of_ofText h⟩

example : (match Program.ofText faultyText with
    | .error e => some (e.line, e.column, e.found)
    | .ok _ => none) = some (2, 8, some "')'") := by
  decide +kernel

end InterfaceSchema
