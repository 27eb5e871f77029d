import InterfaceSchema.Proofs.Reading.Layout
import InterfaceSchema.Proofs.Success

/-!
# Tokens of printed lines

What scanning makes of printed text. A run of word characters is one word if no
word character follows it (`scan_word`), and the space that is printed between
two words keeps them apart. The tokens of printed lines spell the indentation,
the lexemes and the end of each line (`scans_flatMap_text`).
-/

namespace InterfaceSchema

namespace Token

section

variable {c : Char} (p : Position) (fresh : Bool) (cs : List Char)

theorem scan_cons_newline : scan p fresh ('\n' :: cs) =
    (⟨.lineEnd, p.upTo (p.after '\n')⟩ :: ·) <$> scan (p.after '\n') true cs := by
  rw [scan.eq_def]
  rfl

theorem scan_cons_tab : scan p true ('\t' :: cs) =
    consIndent (p.upTo (p.after '\t')) <$> scan (p.after '\t') true cs := by
  rw [scan.eq_def]
  rfl

theorem scan_of_head?_ne_tab {cs : List Char} (h : cs.head? ≠ some '\t') :
    scan p true cs = scan p false cs := by
  cases cs with
  | nil => rfl
  | cons c cs =>
    have htab : c ≠ '\t' := fun hc => h (congrArg some hc)
    rw [scan.eq_def, scan.eq_def p false]
    simp only [htab, false_and, if_false]

theorem scan_cons_separator (h : isSeparator c = true) :
    scan p false (c :: cs) = scan (p.after c) false cs := by
  have hnewline : c ≠ '\n' := by
    rintro rfl
    revert h
    decide
  rw [scan.eq_def]
  simp only [if_neg hnewline, Bool.false_eq_true, and_false, if_false, h, if_true]

theorem scan_cons_word (h : isWordChar c = true) : scan p fresh (c :: cs) =
    consWordChar c (p.upTo (p.after c)) <$> scan (p.after c) false cs := by
  have hplain : c ≠ '\n' ∧ c ≠ '\t' ∧ isSeparator c = false := by
    have hne (d : Char) (hd : isWordChar d = false) : c ≠ d := by
      rintro rfl
      rw [h] at hd
      cases hd
    refine ⟨hne '\n' (by decide), hne '\t' (by decide), ?_⟩
    simp only [isSeparator, Bool.or_eq_false_iff, beq_eq_false_iff_ne]
    exact ⟨⟨hne ' ' (by decide), hne '\t' (by decide)⟩, hne '\r' (by decide)⟩
  obtain ⟨hnewline, htab, hseparator⟩ := hplain
  rw [scan.eq_def]
  simp only [if_neg hnewline, htab, false_and, hseparator, Bool.false_eq_true, if_false, h, if_true]

theorem scan_cons_arrow : scan p fresh ('<' :: '-' :: cs) =
    (⟨.arrow, p.upTo ((p.after '<').after '-')⟩ :: ·) <$>
      scan ((p.after '<').after '-') false cs := by
  have hnewline : '<' ≠ '\n' := by decide
  have htab : ¬('<' = '\t' ∧ fresh = true) := fun h => absurd h.1 (by decide)
  have hseparator : isSeparator '<' = false := by decide
  have hword : isWordChar '<' = false := by decide
  rw [scan.eq_def]
  simp only [if_neg hnewline, if_neg htab, hseparator, hword, Bool.false_eq_true, if_false, if_true]

theorem scan_cons_mark {l : Lexeme} (h : Lexeme.ofMark? c = some l) : scan p fresh (c :: cs) =
    (⟨l, p.upTo (p.after c)⟩ :: ·) <$> scan (p.after c) false cs := by
  have hplain : c ≠ '\n' ∧ c ≠ '\t' ∧ isSeparator c = false ∧ isWordChar c = false ∧ c ≠ '<' := by
    unfold Lexeme.ofMark? at h
    split at h <;> first | decide | cases h
  obtain ⟨hnewline, htab, hseparator, hword, harrow⟩ := hplain
  rw [scan.eq_def]
  simp only [if_neg hnewline, htab, false_and, if_false, hseparator, hword, harrow, h,
    Bool.false_eq_true]

end

/-- The first token is a word that begins at the offset. -/
def OpensWord (offset : Nat) (ts : List Token) : Prop :=
  ∃ name span ts', ts = ⟨.word name, span⟩ :: ts' ∧ span.start = offset

theorem consWordChar_of_not_opensWord {s : Span} {ts : List Token} (c : Char)
    (h : ¬OpensWord s.stop ts) : consWordChar c s ts = ⟨.word c.toString, s⟩ :: ts := by
  unfold consWordChar
  split
  · rename_i name t ts'
    rw [if_neg fun ht => h ⟨name, t, ts', rfl, ht⟩]
  · rfl

theorem start_of_consWordChar {c : Char} {s : Span} {us ts : List Token} {t : Token}
    (h : consWordChar c s us = t :: ts) : t.span.start = s.start := by
  unfold consWordChar at h
  split at h
  · split at h <;> (cases h; rfl)
  · cases h; rfl

theorem start_of_consIndent {s : Span} {us ts : List Token} {t : Token}
    (h : consIndent s us = t :: ts) : t.span.start = s.start := by
  unfold consIndent at h
  split at h <;> (cases h; rfl)

theorem offset_le_start {p : Position} {fresh : Bool} {cs : List Char} {t : Token}
    {ts : List Token} (h : scan p fresh cs = .ok (t :: ts)) : p.offset ≤ t.span.start := by
  fun_induction scan p fresh cs with
  | case1 => cases h; exact Nat.le_refl _
  | case4 p _ c _ q _ _ _ ih => exact Nat.le_trans (Nat.le_of_lt (p.offset_lt_after c)) (ih h)
  | case7 => cases h
  | case9 => cases h
  | case3 =>
    obtain ⟨us, _, hus⟩ := map_eq_ok_iff.1 h
    rw [start_of_consIndent hus]
    exact Nat.le_refl _
  | case5 =>
    obtain ⟨us, _, hus⟩ := map_eq_ok_iff.1 h
    rw [start_of_consWordChar hus]
    exact Nat.le_refl _
  | case2 | case6 | case8 =>
    obtain ⟨us, _, hus⟩ := map_eq_ok_iff.1 h
    cases hus
    exact Nat.le_refl _

/-- No word begins where the text does if its first character is none of a word. -/
theorem not_opensWord {p : Position} {cs : List Char} {ts : List Token}
    (hcs : ∀ c ∈ cs.head?, isWordChar c = false) (h : scan p false cs = .ok ts) :
    ¬OpensWord p.offset ts := by
  rintro ⟨name, span, ts', rfl, hstart⟩
  cases cs with
  | nil => cases h
  | cons c cs =>
    have hc : isWordChar c = false := hcs c rfl
    rw [scan.eq_def] at h
    simp only [Bool.false_eq_true, and_false, if_false, hc] at h
    split at h
    · obtain ⟨us, _, hus⟩ := map_eq_ok_iff.1 h
      cases hus
    split at h
    · -- the first token begins behind the separator
      have hle : (p.after c).offset ≤ span.start := offset_le_start h
      have hlt : p.offset < (p.after c).offset := p.offset_lt_after c
      omega
    split at h
    · split at h
      · obtain ⟨us, _, hus⟩ := map_eq_ok_iff.1 h
        cases hus
      · cases h
    split at h
    · rename_i l hl
      obtain ⟨us, _, hus⟩ := map_eq_ok_iff.1 h
      cases hus
      unfold Lexeme.ofMark? at hl
      split at hl <;> cases hl
    · cases h

/-- A run of word characters is one word if no word character follows it. -/
theorem scan_word {w rest : List Char} {ts : List Token} (hne : w ≠ [])
    (hw : ∀ c ∈ w, isWordChar c = true) (hrest : ∀ c ∈ rest.head?, isWordChar c = false)
    {p : Position} (fresh : Bool) (h : scan (p.afterText w) false rest = .ok ts) :
    scan p fresh (w ++ rest) =
      .ok (⟨.word (String.ofList w), p.upTo (p.afterText w)⟩ :: ts) := by
  induction w generalizing p fresh with
  | nil => exact absurd rfl hne
  | cons c w ih =>
    rw [List.cons_append, scan_cons_word p fresh _ (hw c List.mem_cons_self)]
    cases w with
    | nil =>
      have hts : scan (p.after c) false rest = .ok ts := h
      rw [List.nil_append, hts]
      show Except.ok _ = _
      rw [consWordChar_of_not_opensWord c (not_opensWord hrest hts)]
      rfl
    | cons d w =>
      rw [ih (List.cons_ne_nil _ _) (fun x hx => hw x (List.mem_cons_of_mem _ hx)) false h]
      have hjoins : ((p.after c).upTo ((p.after c).afterText (d :: w))).start =
          (p.upTo (p.after c)).stop := rfl
      have hname : c.toString ++ String.ofList (d :: w) = String.ofList (c :: d :: w) := by
        rw [← String.toList_inj]
        simp
      show Except.ok _ = _
      rw [consWordChar, if_pos hjoins, hname]
      rfl

end Token

/-! ## Spelling -/

/-- Wherever the text stands, its tokens say `ls`. -/
def Scans (fresh : Bool) (cs : List Char) (ls : List Lexeme) : Prop :=
  ∀ p, ∃ ts, Token.scan p fresh cs = .ok ts ∧ ts.map Token.lexeme = ls

namespace Scans

variable {fresh : Bool} {cs : List Char} {ls : List Lexeme}

theorem nil : Scans fresh [] [.endOfText] := fun _ => ⟨_, rfl, rfl⟩

theorem lineEnd (h : Scans true cs ls) : Scans fresh ('\n' :: cs) (.lineEnd :: ls) := by
  intro p
  obtain ⟨ts, hts, rfl⟩ := h (p.after '\n')
  exact ⟨_, by rw [Token.scan_cons_newline, hts]; rfl, rfl⟩

theorem space (h : Scans false cs ls) : Scans false (' ' :: cs) ls := by
  intro p
  obtain ⟨ts, hts, rfl⟩ := h (p.after ' ')
  exact ⟨ts, by rw [Token.scan_cons_separator p cs (by decide), hts], rfl⟩

theorem mark {c : Char} {l : Lexeme} (hc : Lexeme.ofMark? c = some l) (h : Scans false cs ls) :
    Scans fresh (c :: cs) (l :: ls) := by
  intro p
  obtain ⟨ts, hts, rfl⟩ := h (p.after c)
  exact ⟨_, by rw [Token.scan_cons_mark p fresh cs hc, hts]; rfl, rfl⟩

theorem arrow (h : Scans false cs ls) : Scans fresh ('<' :: '-' :: cs) (.arrow :: ls) := by
  intro p
  obtain ⟨ts, hts, rfl⟩ := h ((p.after '<').after '-')
  exact ⟨_, by rw [Token.scan_cons_arrow, hts]; rfl, rfl⟩

theorem word {name : String} (hname : (Lexeme.word name).isPrintable = true)
    (hcs : ∀ c ∈ cs.head?, Token.isWordChar c = false) (h : Scans false cs ls) :
    Scans fresh (name.toList ++ cs) (.word name :: ls) := by
  intro p
  simp only [Lexeme.isPrintable, Bool.and_eq_true, List.all_eq_true] at hname
  obtain ⟨ts, hts, rfl⟩ := h (p.afterText name.toList)
  refine ⟨_, Token.scan_word (by simpa using hname.1) hname.2 hcs fresh hts, ?_⟩
  rw [List.map_cons, String.ofList_toList]

/-- The text after a word must not go on with a word character. -/
theorem lexeme {l : Lexeme} (hl : l.isPrintable = true)
    (hcs : l.isWord = true → ∀ c ∈ cs.head?, Token.isWordChar c = false)
    (h : Scans false cs ls) : Scans fresh (l.text ++ cs) (l :: ls) := by
  cases l with
  | word name => exact h.word hl (hcs rfl)
  | arrow => exact h.arrow
  | indent _ | lineEnd | endOfText => cases hl
  | _ => exact h.mark rfl

theorem textOf {xs : List Lexeme} (hxs : ∀ x ∈ xs, x.isPrintable = true) (h : Scans true cs ls) :
    Scans fresh (Line.textOf xs ++ '\n' :: cs) (xs ++ .lineEnd :: ls) := by
  fun_induction Line.textOf xs generalizing fresh with
  | case1 => exact h.lineEnd
  | case2 l =>
    exact h.lineEnd.lexeme (hxs l (List.mem_singleton_self l)) fun _ c hc => by
      cases hc; decide
  | case3 l m xs ih =>
    have hl := hxs l List.mem_cons_self
    have hm := hxs m (List.mem_cons_of_mem _ List.mem_cons_self)
    have ih : Scans false (Line.textOf (m :: xs) ++ '\n' :: cs) (m :: xs ++ .lineEnd :: ls) :=
      ih fun x hx => hxs x (List.mem_cons_of_mem _ hx)
    rw [List.append_assoc, List.append_assoc]
    refine lexeme hl (fun hword c hc => ?_) ?_
    · cases hm' : m.isWord with
      | true =>
        have hspace : (l.wantsSpace && m.isWord) = true := by
          rw [hm', Bool.and_true]
          cases l <;> first | rfl | cases hword
        rw [hspace] at hc
        cases hc
        decide
      | false =>
        obtain ⟨d, ds, hds, hd⟩ := Lexeme.exists_text_eq_cons hm hm'
        obtain ⟨es, hes⟩ := Line.exists_textOf_cons m xs
        rw [hm', Bool.and_false, hes, hds] at hc
        cases hc
        exact hd
    · split
      · exact ih.space
      · exact ih

theorem indent (hls : ∀ l ∈ ls.head?, l.isIndent = false) (h : Scans true cs ls) (depth : Nat) :
    Scans true (List.replicate (depth + 1) '\t' ++ cs) (.indent (depth + 1) :: ls) := by
  intro p
  rw [List.replicate_succ, List.cons_append, Token.scan_cons_tab]
  induction depth generalizing p with
  | zero =>
    obtain ⟨ts, hts, rfl⟩ := h (p.after '\t')
    refine ⟨Token.consIndent (p.upTo (p.after '\t')) ts, by
      rw [List.replicate_zero, List.nil_append, hts]; rfl, ?_⟩
    unfold Token.consIndent
    split
    · cases hls _ rfl
    · rfl
  | succ depth ih =>
    obtain ⟨ts, hts, heq⟩ := ih (p.after '\t')
    obtain ⟨us, hus, rfl⟩ := map_eq_ok_iff.1 hts
    refine ⟨Token.consIndent (p.upTo (p.after '\t'))
      (Token.consIndent ((p.after '\t').upTo ((p.after '\t').after '\t')) us), ?_, ?_⟩
    · rw [List.replicate_succ, List.cons_append, Token.scan_cons_tab, hts]
      rfl
    · obtain ⟨⟨l, span⟩, ts', hts', hl, rfl⟩ := List.map_eq_cons_iff.1 heq
      obtain rfl : l = .indent (depth + 1) := hl
      rw [hts']
      rfl

end Scans

/-- The lexemes of a line, with its indentation and its end. -/
def Line.spelling (l : Line) : List Lexeme :=
  (if l.depth = 0 then [] else [.indent l.depth]) ++ l.lexemes ++ [.lineEnd]

theorem Scans.text {l : Line} {cs : List Char} {ls : List Lexeme} (hl : l.Printable)
    (h : Scans true cs ls) : Scans true (l.text ++ cs) (l.spelling ++ ls) := by
  have hcontent : Scans true (Line.textOf l.lexemes ++ '\n' :: cs) (l.lexemes ++ .lineEnd :: ls) :=
    h.textOf hl.within
  obtain ⟨name, xs, hxs⟩ := hl.opens
  unfold Line.text Line.spelling
  simp only [List.append_assoc, List.singleton_append]
  cases l.depth with
  | zero => exact hcontent
  | succ depth =>
    refine hcontent.indent ?_ depth
    rw [hxs]
    rintro _ ⟨⟩
    rfl

theorem scans_flatMap_text {ls : List Line} (h : ∀ l ∈ ls, l.Printable) :
    Scans true (ls.flatMap Line.text) (ls.flatMap Line.spelling ++ [.endOfText]) := by
  induction ls with
  | nil => exact Scans.nil
  | cons l ls ih =>
    rw [List.flatMap_cons, List.flatMap_cons, List.append_assoc]
    exact (ih fun x hx => h x (List.mem_cons_of_mem _ hx)).text (h l List.mem_cons_self)

end InterfaceSchema
