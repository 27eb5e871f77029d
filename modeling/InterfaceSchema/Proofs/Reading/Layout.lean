import InterfaceSchema.Layout
import InterfaceSchema.Schema.Printer

/-!
# Layout of printed lines

Printed text stands in canonical layout already: a `Line` that begins with a word
and holds only lexemes that can stand within a line is its own canonical line, so
`Layout.canonicalText` leaves the text of such lines alone
(`canonicalText_flatMap_text`).
-/

namespace InterfaceSchema

open Text

/-- The lexeme can be written within a line. -/
def Lexeme.isPrintable : Lexeme → Bool
  | word name => !name.toList.isEmpty && name.toList.all Token.isWordChar
  | indent _ | lineEnd | endOfText => false
  | _ => true

namespace Line

/-- The line begins with a word, and all of its lexemes can be written. -/
structure Printable (l : Line) : Prop where
  opens : ∃ name ls, l.lexemes = .word name :: ls
  within : ∀ x ∈ l.lexemes, x.isPrintable = true

/-- The text of a line without its end. -/
def content (l : Line) : List Char := List.replicate l.depth '\t' ++ textOf l.lexemes

theorem text_eq (l : Line) : l.text = l.content ++ ['\n'] := rfl

end Line

theorem Token.toNat_of_isWordChar {c : Char} (h : Token.isWordChar c = true) :
    (48 ≤ c.toNat ∧ c.toNat ≤ 57) ∨ (65 ≤ c.toNat ∧ c.toNat ≤ 90) ∨ c.toNat = 95 ∨
      (97 ≤ c.toNat ∧ c.toNat ≤ 122) := by
  change (decide (c.val ≥ 'A'.val ∧ c.val ≤ 'Z'.val) ||
    (decide (c.val ≥ 'a'.val) && decide (c.val ≤ 'z'.val)) ||
    (decide (c.val ≥ '0'.val) && decide (c.val ≤ '9'.val)) || c == '_') = true at h
  simp only [Bool.or_eq_true, Bool.and_eq_true, decide_eq_true_eq, UInt32.le_iff_toNat_le,
    ge_iff_le, beq_iff_eq] at h
  change ((65 ≤ c.toNat ∧ c.toNat ≤ 90 ∨ 97 ≤ c.toNat ∧ c.toNat ≤ 122) ∨
    48 ≤ c.toNat ∧ c.toNat ≤ 57) ∨ c = '_' at h
  rcases h with ((h | h) | h) | rfl
  · omega
  · omega
  · omega
  · decide

theorem Token.isBlank_of_isWordChar {c : Char} (h : Token.isWordChar c = true) :
    isBlank c = false := by
  have := Token.toNat_of_isWordChar h
  simp only [isBlank, Bool.or_eq_false_iff, Bool.and_eq_false_iff, decide_eq_false_iff_not,
    beq_eq_false_iff_ne]
  omega

namespace Lexeme

theorem exists_text_eq_cons {l : Lexeme} (h : l.isPrintable = true) (hword : l.isWord = false) :
    ∃ c cs, l.text = c :: cs ∧ Token.isWordChar c = false := by
  cases l with
  | word _ => cases hword
  | indent _ | lineEnd | endOfText => cases h
  | _ => exact ⟨_, _, rfl, by decide⟩

theorem text_ne_nil {l : Lexeme} (h : l.isPrintable = true) : l.text ≠ [] := by
  cases l with
  | word name =>
    simp only [isPrintable, Bool.and_eq_true] at h
    simpa [text] using h.1
  | indent _ | lineEnd | endOfText => cases h
  | _ => exact List.cons_ne_nil _ _

theorem isBlank_of_mem_text {l : Lexeme} (h : l.isPrintable = true) {c : Char} (hc : c ∈ l.text) :
    isBlank c = false := by
  cases l with
  | word name =>
    simp only [isPrintable, Bool.and_eq_true, List.all_eq_true] at h
    exact Token.isBlank_of_isWordChar (h.2 c hc)
  | arrow =>
    simp only [text, List.mem_cons, List.not_mem_nil, or_false] at hc
    rcases hc with rfl | rfl <;> decide
  | indent _ | lineEnd | endOfText => cases h
  | _ =>
    obtain rfl := List.mem_singleton.1 hc
    decide

end Lexeme

theorem trimEnd_eq_self {cs : List Char} {c : Char} (h : isBlank c = false) :
    trimEnd (cs ++ [c]) = cs ++ [c] := by
  induction cs with
  | nil => simp [trimEnd, h]
  | cons d cs ih =>
    rw [List.cons_append, trimEnd, ih]
    cases cs <;> rfl

namespace Line

theorem exists_textOf_cons (l : Lexeme) (ls : List Lexeme) :
    ∃ cs, textOf (l :: ls) = l.text ++ cs := by
  cases ls with
  | nil => exact ⟨[], (List.append_nil _).symm⟩
  | cons m ls => exact ⟨_, by rw [textOf, List.append_assoc]⟩

theorem exists_textOf_eq_concat {ls : List Lexeme} (hne : ls ≠ [])
    (h : ∀ x ∈ ls, x.isPrintable = true) :
    ∃ cs c, textOf ls = cs ++ [c] ∧ isBlank c = false := by
  fun_induction textOf ls with
  | case1 => exact absurd rfl hne
  | case2 l =>
    have hl := h l (List.mem_singleton_self l)
    refine ⟨l.text.dropLast, l.text.getLast (Lexeme.text_ne_nil hl),
      (List.dropLast_concat_getLast _).symm, ?_⟩
    exact Lexeme.isBlank_of_mem_text hl (List.getLast_mem _)
  | case3 l m ls ih =>
    obtain ⟨cs, c, hcs, hc⟩ := ih (List.cons_ne_nil _ _) fun x hx => h x (List.mem_cons_of_mem _ hx)
    exact ⟨_, c, by rw [hcs, ← List.append_assoc], hc⟩

theorem newline_not_mem_textOf {ls : List Lexeme} (h : ∀ x ∈ ls, x.isPrintable = true) :
    '\n' ∉ textOf ls := by
  have hlexeme : ∀ x ∈ ls, '\n' ∉ x.text := fun x hx hmem => by
    have := Lexeme.isBlank_of_mem_text (h x hx) hmem
    revert this
    decide
  fun_induction textOf ls with
  | case1 => simp
  | case2 l => exact hlexeme l (List.mem_singleton_self l)
  | case3 l m ls ih =>
    rw [List.mem_append, List.mem_append]
    rintro ((hmem | hmem) | hmem)
    · exact hlexeme l List.mem_cons_self hmem
    · split at hmem <;> simp at hmem
    · exact ih (fun x hx => h x (List.mem_cons_of_mem _ hx))
        (fun x hx => hlexeme x (List.mem_cons_of_mem _ hx)) hmem

/-- A line that begins with a word has a word character behind its indentation. -/
theorem Printable.exists_textOf_eq_cons {l : Line} (h : l.Printable) :
    ∃ c cs, textOf l.lexemes = c :: cs ∧ Token.isWordChar c = true := by
  obtain ⟨name, ls, hls⟩ := h.opens
  have hname := h.within (.word name) (by rw [hls]; exact List.mem_cons_self)
  simp only [Lexeme.isPrintable, Bool.and_eq_true, List.all_eq_true] at hname
  obtain ⟨cs, hcs⟩ := exists_textOf_cons (.word name) ls
  cases hname' : name.toList with
  | nil => simp [hname'] at hname
  | cons c ds =>
    refine ⟨c, ds ++ cs, ?_, hname.2 c (by rw [hname']; exact List.mem_cons_self)⟩
    rw [hls, hcs, Lexeme.text, hname', List.cons_append]

end Line

/-! ## Canonical layout -/

namespace Layout

/-- The steps of indentation are the tabs, if no space follows them. -/
theorem indentation_replicate {c : Char} (hspace : c ≠ ' ') (htab : c ≠ '\t') (depth : Nat)
    (cs : List Char) : indentation (List.replicate depth '\t' ++ c :: cs) = (depth, c :: cs) := by
  induction depth with
  | zero =>
    unfold indentation
    split
    case h_1 => cases ‹_ = _›; exact absurd rfl htab
    case h_5 => rfl
    all_goals
      cases ‹_ = _›
      exact absurd rfl hspace
  | succ depth ih => rw [List.replicate_succ, List.cons_append, indentation, ih]

variable {l : Line}

theorem isSignificant_content (h : l.Printable) : isSignificant l.content = true := by
  obtain ⟨c, cs, hcs, hc⟩ := h.exists_textOf_eq_cons
  have hblank := Token.isBlank_of_isWordChar hc
  have htrim : trimStart l.content = c :: cs := by
    rw [Line.content, hcs, trimStart, List.dropWhile_append_of_pos fun t ht => by
      rw [List.eq_of_mem_replicate ht]; decide]
    simp [hblank]
  rw [isSignificant, htrim]
  simp only [commentMark, bne_iff_ne]
  rintro rfl
  revert hc
  decide

theorem canonicalLine_content (h : l.Printable) : canonicalLine l.content = l.text := by
  obtain ⟨c, cs, hcs, hc⟩ := h.exists_textOf_eq_cons
  obtain ⟨ds, d, hds, hd⟩ := Line.exists_textOf_eq_concat
    (by obtain ⟨name, ls, hls⟩ := h.opens; simp [hls]) h.within
  have hindent : indentation l.content = (l.depth, Line.textOf l.lexemes) := by
    rw [Line.content, hcs]
    have hblank := Token.isBlank_of_isWordChar hc
    refine indentation_replicate ?_ ?_ _ _
    all_goals
      rintro rfl
      revert hblank
      decide
  rw [canonicalLine, hindent]
  simp only
  rw [hds, trimEnd_eq_self hd, ← hds, Line.text]

theorem lines_flatMap_text {ls : List Line} (h : ∀ l ∈ ls, l.Printable) :
    lines (ls.flatMap Line.text) = ls.map Line.content := by
  induction ls with
  | nil => rfl
  | cons l ls ih =>
    have hl := h l List.mem_cons_self
    have hnewline : '\n' ∉ l.content := by
      rw [Line.content, List.mem_append]
      rintro (hmem | hmem)
      · cases List.eq_of_mem_replicate hmem
      · exact Line.newline_not_mem_textOf hl.within hmem
    rw [List.flatMap_cons, Line.text_eq, List.append_assoc, List.singleton_append,
      lines_append_newline hnewline, ih fun x hx => h x (List.mem_cons_of_mem _ hx), List.map_cons]

theorem canonicalText_flatMap_text {ls : List Line} (hne : ls ≠ [])
    (h : ∀ l ∈ ls, l.Printable) :
    canonicalText (ls.flatMap Line.text) = ls.flatMap Line.text := by
  have hlines : (significantLines (ls.flatMap Line.text)).flatMap canonicalLine =
      ls.flatMap Line.text := by
    rw [significantLines, lines_flatMap_text h]
    clear hne
    induction ls with
    | nil => rfl
    | cons l ls ih =>
      have hl := h l List.mem_cons_self
      rw [List.map_cons, List.filter_cons_of_pos (isSignificant_content hl), List.flatMap_cons,
        canonicalLine_content hl, ih fun x hx => h x (List.mem_cons_of_mem _ hx), List.flatMap_cons]
  rw [canonicalText, hlines]
  split
  · rename_i hnil
    obtain ⟨l, ls, rfl⟩ := List.exists_cons_of_ne_nil hne
    rw [List.flatMap_cons, Line.text_eq] at hnil
    simp at hnil
  · rename_i heq
    exact heq.symm

end Layout

end InterfaceSchema
