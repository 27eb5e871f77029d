import InterfaceSchema.Proofs.Reading.Tiling

/-!
# Texts without tokens

A text has tokens exactly if it is put together from plain characters and arrows
(`Token.Spelled`). If it is not, the longest beginning that is so is followed by a
character that neither is plain nor begins an arrow, and the scan fails there
(`Token.scan_cases`).
-/

namespace InterfaceSchema

namespace Token

/-- The character is one of a word, a mark, or stands between tokens. -/
def isPlain (c : Char) : Bool :=
  isWordChar c || [':', '(', ')', ',', '.', ' ', '\t', '\r', '\n'].contains c

/-- The text is put together from plain characters and arrows. -/
inductive Spelled : List Char → Prop
  | nil : Spelled []
  | plain {c cs} (hc : isPlain c = true) (hcs : Spelled cs) : Spelled (c :: cs)
  | arrow {cs} (hcs : Spelled cs) : Spelled ('<' :: '-' :: cs)

/-- The first character neither is plain nor begins an arrow. -/
def Stuck (c : Char) (behind : List Char) : Prop :=
  isPlain c = false ∧ (c = '<' → behind.head? ≠ some '-')

theorem isPlain_arrowHead : isPlain '<' = false := by decide

theorem isPlain_of_isSeparator {c : Char} (h : isSeparator c = true) : isPlain c = true := by
  simp only [isSeparator, Bool.or_eq_true, beq_iff_eq] at h
  rcases h with (rfl | rfl) | rfl <;> decide

theorem isPlain_of_ofMark? {c : Char} {l : Lexeme} (h : Lexeme.ofMark? c = some l) :
    isPlain c = true := by
  unfold Lexeme.ofMark? at h
  split at h <;> first | decide | cases h

/-- What is no separator, no line feed, no word character and no mark is not plain. -/
theorem isPlain_eq_false {c : Char} (hnewline : c ≠ '\n') (hseparator : ¬isSeparator c = true)
    (hword : ¬isWordChar c = true) (hmark : Lexeme.ofMark? c = none) : isPlain c = false := by
  simp only [isSeparator, Bool.or_eq_true, beq_iff_eq, not_or] at hseparator
  obtain ⟨⟨hspace, htab⟩, hreturn⟩ := hseparator
  rw [isPlain, Bool.or_eq_false_iff]
  refine ⟨by simpa using hword, ?_⟩
  unfold Lexeme.ofMark? at hmark
  split at hmark <;> simp_all

section

variable {before behind w : List Char} {c : Char}

/-- No longer beginning of the text is put together from plain characters and arrows. -/
theorem Spelled.length_le (h : Spelled before) (hstuck : Stuck c behind) (hw : Spelled w)
    (hbegins : w <+: before ++ c :: behind) : w.length ≤ before.length := by
  induction h generalizing w with
  | nil =>
    cases hw with
    | nil => exact Nat.le_refl _
    | plain hc _ =>
      obtain ⟨rfl, _⟩ := List.cons_prefix_cons.1 hbegins
      rw [hstuck.1] at hc
      cases hc
    | arrow _ =>
      obtain ⟨rfl, rest, rfl⟩ := List.cons_prefix_cons.1 hbegins
      exact absurd rfl (hstuck.2 rfl)
  | plain hd _ ih =>
    cases hw with
    | nil => exact Nat.zero_le _
    | plain _ hw => exact Nat.succ_le_succ (ih hw (List.cons_prefix_cons.1 hbegins).2)
    | arrow _ =>
      obtain ⟨rfl, _⟩ := List.cons_prefix_cons.1 hbegins
      rw [isPlain_arrowHead] at hd
      cases hd
  | arrow _ ih =>
    cases hw with
    | nil => exact Nat.zero_le _
    | plain hd _ =>
      obtain ⟨rfl, _⟩ := List.cons_prefix_cons.1 hbegins
      rw [isPlain_arrowHead] at hd
      cases hd
    | arrow hw =>
      have hrest := (List.cons_prefix_cons.1 (List.cons_prefix_cons.1 hbegins).2).2
      exact Nat.succ_le_succ (Nat.succ_le_succ (ih hw hrest))

theorem Spelled.not_append (h : Spelled before) (hstuck : Stuck c behind) :
    ¬Spelled (before ++ c :: behind) := by
  intro hw
  have hle := h.length_le hstuck hw (List.prefix_refl _)
  simp only [List.length_append, List.length_cons] at hle
  omega

end

/-! ## Scanning -/

/-- The error at a character that stands in no token. -/
def rejection (c : Char) (s : Span) : SyntaxError :=
  if c = '<' then .loneArrowHead s else .strayCharacter c s

theorem span_rejection (c : Char) (s : Span) : (rejection c s).span = s := by
  unfold rejection
  split <;> rfl

theorem found_rejection (c : Char) (s : Span) :
    (rejection c s).found = some ("'" ++ c.toString ++ "'") := by
  unfold rejection
  split
  · subst c
    rfl
  · rfl

/-- The scan succeeds on the whole text, or gets stuck behind a beginning of it. -/
def ScansOrSticks (p : Position) (fresh : Bool) (cs : List Char) : Prop :=
  (∃ ts, scan p fresh cs = .ok ts ∧ Spelled cs) ∨
    ∃ before c behind, cs = before ++ c :: behind ∧ Spelled before ∧ Stuck c behind ∧
      scan p fresh cs =
        .error (rejection c ((p.afterText before).upTo (p.afterText (before ++ [c]))))

theorem ScansOrSticks.prepend {p : Position} {fresh fresh' : Bool} {w cs : List Char}
    {f : List Token → List Token} (hw : ∀ {before}, Spelled before → Spelled (w ++ before))
    (heq : scan p fresh (w ++ cs) = f <$> scan (p.afterText w) fresh' cs)
    (h : ScansOrSticks (p.afterText w) fresh' cs) : ScansOrSticks p fresh (w ++ cs) := by
  obtain ⟨ts, hts, hcs⟩ | ⟨before, c, behind, rfl, hbefore, hstuck, herror⟩ := h
  · exact .inl ⟨f ts, by rw [heq, hts]; rfl, hw hcs⟩
  · refine .inr ⟨w ++ before, c, behind, (List.append_assoc _ _ _).symm, hw hbefore, hstuck, ?_⟩
    rw [heq, herror, List.append_assoc, Position.afterText_append p w (before ++ [c]),
      Position.afterText_append p w before]
    rfl

theorem scan_cases (p : Position) (fresh : Bool) (cs : List Char) : ScansOrSticks p fresh cs := by
  fun_induction scan p fresh cs
  case case1 => exact .inl ⟨_, rfl, .nil⟩
  case case2 ih => exact ih.prepend (w := ['\n']) (.plain (by decide)) (scan_cons_newline _ _ _)
  case case3 htab ih =>
    obtain ⟨rfl, rfl⟩ := htab
    exact ih.prepend (w := ['\t']) (.plain (by decide)) (scan_cons_tab _ _)
  case case4 c cs q hnewline htab hseparator ih =>
    refine ih.prepend (w := [c]) (f := id) (.plain (isPlain_of_isSeparator hseparator)) ?_
    rw [id_map, List.singleton_append, scan.eq_def]
    simp only [if_neg hnewline, if_neg htab, if_pos hseparator]
    rfl
  case case5 c cs q _ _ _ hword ih =>
    exact ih.prepend (w := [c]) (.plain (by rw [isPlain, hword, Bool.true_or]))
      (scan_cons_word _ _ _ hword)
  case case6 ih => exact ih.prepend (w := ['<', '-']) .arrow (scan_cons_arrow _ _ _)
  case case7 p fresh cs harrow q hnewline htab hseparator hword =>
    refine .inr ⟨[], '<', cs, rfl, .nil, ⟨isPlain_arrowHead, fun _ hcs => ?_⟩, ?_⟩
    · obtain ⟨ds, rfl⟩ := List.head?_eq_some_iff.1 hcs
      exact harrow ds rfl
    · rw [scan.eq_def]
      simp only [if_neg hnewline, if_neg htab, if_neg hseparator, if_neg hword, if_true]
      rfl
  case case8 c cs q _ _ _ _ _ l hmark ih =>
    exact ih.prepend (w := [c]) (.plain (isPlain_of_ofMark? hmark)) (scan_cons_mark _ _ _ hmark)
  case case9 p fresh c cs q hnewline htab hseparator hword harrow hmark =>
    refine .inr ⟨[], c, cs, rfl, .nil,
      ⟨isPlain_eq_false hnewline hseparator hword hmark, fun hc => absurd hc harrow⟩, ?_⟩
    rw [scan.eq_def]
    simp only [if_neg hnewline, if_neg htab, if_neg hseparator, if_neg hword, if_neg harrow, hmark]
    rw [rejection, if_neg harrow]
    rfl

/-- A text that has no tokens is put together from plain characters and arrows up to a
character at which the scan fails. -/
theorem exists_of_ofText_eq_error {text : String} {e : SyntaxError} (h : ofText text = .error e) :
    ∃ before c behind, text.toList = before ++ c :: behind ∧ Spelled before ∧ Stuck c behind ∧
      e = rejection c ((Position.afterText {} before).upTo (Position.afterText {} (before ++ [c]))) := by
  obtain ⟨ts, hts, _⟩ | ⟨before, c, behind, htext, hbefore, hstuck, herror⟩ :=
    scan_cases {} true text.toList
  · rw [ofText, hts] at h
    cases h
  · rw [ofText, herror] at h
    cases h
    exact ⟨before, c, behind, htext, hbefore, hstuck, rfl⟩

theorem upTo_singleton (before : List Char) (c : Char) :
    (Position.afterText {} before).upTo (Position.afterText {} (before ++ [c])) =
      ⟨(String.ofList before).utf8ByteSize, (String.ofList before).utf8ByteSize + c.utf8Size,
        1 + before.count '\n', 1 + (before.reverse.takeWhile (· != '\n')).length⟩ := by
  have hstop : (Position.afterText {} (before ++ [c])).offset =
      (String.ofList before).utf8ByteSize + c.utf8Size := by
    rw [Position.offset_afterText, String.ofList_append]
    simp
  rw [Position.upTo, hstop, Position.afterText_eq]

/-- A text has tokens exactly if it is put together from plain characters and arrows.
Otherwise the error is at the first character behind the longest beginning that is, and
tells it; it expects an arrow exactly if this is the head of one. -/
theorem rejects_first_stuck (text : String) :
    ((∃ ts, ofText text = .ok ts) ↔ Spelled text.toList) ∧
    (Spelled text.toList ∨ ∃ e before c behind, ofText text = .error e ∧
      text.toList = before ++ c :: behind ∧ Spelled before ∧
      (∀ w, Spelled w → w <+: text.toList → w.length ≤ before.length) ∧
      e.span = ⟨(String.ofList before).utf8ByteSize,
        (String.ofList before).utf8ByteSize + c.utf8Size,
        1 + before.count '\n', 1 + (before.reverse.takeWhile (· != '\n')).length⟩ ∧
      e.found = some ("'" ++ c.toString ++ "'") ∧
      if c = '<' then e.message = "unexpected character '<', did you mean '<-'?" ∧
        e.expected = some ["'<-'"]
      else e.message = "unexpected character '" ++ c.toString ++ "'" ∧ e.expected = none) := by
  cases h : ofText text with
  | ok ts =>
    have hspelled : Spelled text.toList := by
      obtain ⟨_, _, hspelled⟩ | ⟨_, _, _, _, _, _, herror⟩ := scan_cases {} true text.toList
      · exact hspelled
      · rw [ofText, herror] at h
        cases h
    exact ⟨⟨fun _ => hspelled, fun _ => ⟨ts, rfl⟩⟩, .inl hspelled⟩
  | error e =>
    obtain ⟨before, c, behind, htext, hbefore, hstuck, rfl⟩ := exists_of_ofText_eq_error h
    refine ⟨⟨nofun, fun hspelled => ?_⟩, .inr ⟨_, before, c, behind, rfl, htext, hbefore, ?_, ?_,
      found_rejection c _, ?_⟩⟩
    · rw [htext] at hspelled
      exact absurd hspelled (hbefore.not_append hstuck)
    · rw [htext]
      exact fun w hw hbegins => hbefore.length_le hstuck hw hbegins
    · rw [span_rejection, upTo_singleton]
    · unfold rejection
      split <;> exact ⟨rfl, rfl⟩

example : (match ofText "a<-b\n\tc <<-d" with
    | .error e => some e
    | .ok _ => none) = some (.loneArrowHead ⟨8, 9, 2, 4⟩) := by
  decide +kernel

end Token

end InterfaceSchema
