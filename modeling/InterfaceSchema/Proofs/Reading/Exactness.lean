import InterfaceSchema.Proofs.Reading.Tiling
import Mathlib.Data.List.Chain

/-!
# Where tokens stand

The tokens of a text tell all of it but separators: nothing else stands before the
first token or between two of them (`Token.Tiles.exists_gap_between`), no two words
touch (`Token.isChain_of_scan`), and the tabs at the start of a line are one token of
indentation, which stands nowhere else (`Token.indent_mem_iff`). `Token.Tiling` says
all of this, and what a text says where a token stands, of the text and the spans
alone.
-/

namespace InterfaceSchema.Token

namespace Tiles

variable {p : Position} {cs : List Char} {t u : Token} {ts us vs : List Token}

theorem exists_gap (h : Tiles p cs (t :: ts)) : ∃ gap behind, cs = gap ++ behind ∧
    t.span.start = (p.afterText gap).offset ∧ ∀ c ∈ gap, isSeparator c = true := by
  cases h with
  | endOfText hg => exact ⟨cs, [], (List.append_nil cs).symm, rfl, hg⟩
  | @token _ g l cs ts hg hl hts => exact ⟨g, l.text ++ cs, List.append_assoc _ _ _, rfl, hg⟩

theorem exists_gap_between (h : Tiles p cs ts) (hts : ts = us ++ t :: u :: vs) :
    ∃ before gap behind, cs = before ++ gap ++ behind ∧
      t.span.stop = (p.afterText before).offset ∧
      u.span.start = (p.afterText (before ++ gap)).offset ∧ ∀ c ∈ gap, isSeparator c = true := by
  induction us generalizing p cs ts with
  | nil =>
    subst hts
    cases h with
    | @token _ g l cs _ hg hl hts =>
      obtain ⟨gap, behind, rfl, hstart, hgap⟩ := hts.exists_gap
      refine ⟨g ++ l.text, gap, behind, (List.append_assoc _ _ _).symm, rfl, ?_, hgap⟩
      rw [hstart, Position.afterText_append p (g ++ l.text)]
  | cons v us ih =>
    rw [hts, List.cons_append] at h
    generalize htail : us ++ t :: u :: vs = tail at h
    cases h with
    | endOfText => simp at htail
    | @token _ g l cs _ hg hl hts =>
      subst htail
      obtain ⟨before, gap, behind, rfl, hstop, hstart, hgap⟩ := ih hts rfl
      refine ⟨g ++ l.text ++ before, gap, behind, by simp, ?_, ?_, hgap⟩
      · rw [hstop, Position.afterText_append p (g ++ l.text)]
      · rw [hstart, List.append_assoc, Position.afterText_append p (g ++ l.text)]

end Tiles

/-- Two words have something between them. -/
def Apart (t u : Token) : Prop :=
  t.lexeme.isWord = true → u.lexeme.isWord = true → t.span.stop ≠ u.span.start

theorem isChain_consWordChar {c : Char} {s : Span} {us : List Token} (h : us.IsChain Apart) :
    (consWordChar c s us).IsChain Apart := by
  by_cases hopens : OpensWord s.stop us
  · obtain ⟨name, span, rest, rfl, hstart⟩ := hopens
    rw [consWordChar, if_pos hstart]
    obtain ⟨hhead, hrest⟩ := List.isChain_cons.1 h
    exact List.isChain_cons.2 ⟨fun u hu _ => hhead u hu rfl, hrest⟩
  · rw [consWordChar_of_not_opensWord c hopens]
    refine List.isChain_cons.2 ⟨fun u hu _ hword hstop => ?_, h⟩
    obtain ⟨rest, rfl⟩ := List.head?_eq_some_iff.1 hu
    obtain ⟨l, span⟩ := u
    cases l with
    | word name => exact hopens ⟨name, span, rest, rfl, hstop.symm⟩
    | _ => cases hword

theorem isChain_consIndent {s : Span} {us : List Token} (h : us.IsChain Apart) :
    (consIndent s us).IsChain Apart := by
  obtain ⟨depth, span, rest, rfl, hcons⟩ | hcons := consIndent_cases s us
  · rw [hcons]
    exact List.isChain_cons.2 ⟨nofun, (List.isChain_cons.1 h).2⟩
  · rw [hcons]
    exact List.isChain_cons.2 ⟨nofun, h⟩

theorem isWord_of_ofMark? {c : Char} {l : Lexeme} (h : Lexeme.ofMark? c = some l) :
    l.isWord = false := by
  unfold Lexeme.ofMark? at h
  split at h <;> cases h <;> rfl

theorem isChain_of_scan {p : Position} {fresh : Bool} {cs : List Char} {ts : List Token}
    (h : scan p fresh cs = .ok ts) : ts.IsChain Apart := by
  fun_induction scan p fresh cs generalizing ts
  case case1 =>
    cases h
    exact .singleton _
  case case4 ih => exact ih h
  case case7 => cases h
  case case9 => cases h
  case case3 ih =>
    obtain ⟨us, hus, rfl⟩ := map_eq_ok_iff.1 h
    exact isChain_consIndent (ih hus)
  case case5 ih =>
    obtain ⟨us, hus, rfl⟩ := map_eq_ok_iff.1 h
    exact isChain_consWordChar (ih hus)
  case case8 hmark ih =>
    obtain ⟨us, hus, rfl⟩ := map_eq_ok_iff.1 h
    refine List.isChain_cons.2 ⟨fun u _ hword => ?_, ih hus⟩
    rw [isWord_of_ofMark? hmark] at hword
    cases hword
  case case2 ih | case6 ih =>
    obtain ⟨us, hus, rfl⟩ := map_eq_ok_iff.1 h
    exact List.isChain_cons.2 ⟨fun _ _ hword => absurd hword Bool.false_ne_true, ih hus⟩

/-! ## Indentation -/

theorem consIndent_of_not_isIndent {s : Span} {us : List Token}
    (h : ∀ t ∈ us.head?, t.lexeme.isIndent = false) : consIndent s us = ⟨.indent 1, s⟩ :: us := by
  obtain ⟨depth, span, rest, rfl, _⟩ | hcons := consIndent_cases s us
  · cases h _ rfl
  · exact hcons

theorem exists_eq_cons_indent {us : List Token} (h : ¬∀ t ∈ us.head?, t.lexeme.isIndent = false) :
    ∃ depth span rest, us = ⟨.indent depth, span⟩ :: rest := by
  rcases us with _ | ⟨⟨l, span⟩, us⟩
  · exact absurd nofun h
  · cases l with
    | indent depth => exact ⟨depth, span, us, rfl⟩
    | _ => exact absurd (by rintro _ ⟨⟩; rfl) h

theorem head?_ne_tab_of_scan {p : Position} {cs : List Char} {us : List Token}
    (h : scan p true cs = .ok us) (hus : ∀ t ∈ us.head?, t.lexeme.isIndent = false) :
    cs.head? ≠ some '\t' := by
  intro htab
  obtain ⟨cs, rfl⟩ := List.head?_eq_some_iff.1 htab
  rw [scan_cons_tab] at h
  obtain ⟨us, _, rfl⟩ := map_eq_ok_iff.1 h
  obtain ⟨_, _, _, _, hcons⟩ | hcons := consIndent_cases (p.upTo (p.after '\t')) us
  all_goals
    rw [hcons] at hus
    cases hus _ rfl

theorem scan_replicate_tab {rest : List Char} (hrest : rest.head? ≠ some '\t') (p : Position)
    (depth : Nat) : scan p true (List.replicate (depth + 1) '\t' ++ rest) =
      (⟨.indent (depth + 1), p.upTo (p.afterText (List.replicate (depth + 1) '\t'))⟩ :: ·) <$>
        scan (p.afterText (List.replicate (depth + 1) '\t')) false rest := by
  induction depth generalizing p with
  | zero =>
    show scan p true ('\t' :: rest) = _ <$> scan (p.after '\t') false rest
    rw [scan_cons_tab, scan_of_head?_ne_tab _ hrest]
    cases hscan : scan (p.after '\t') false rest with
    | error e => rfl
    | ok us =>
      refine congrArg Except.ok (consIndent_of_not_isIndent fun t ht => ?_)
      obtain ⟨us, rfl⟩ := List.head?_eq_some_iff.1 ht
      exact isIndent_of_scan hscan rfl
  | succ depth ih =>
    rw [List.replicate_succ, List.cons_append, scan_cons_tab, ih, Position.afterText_cons]
    cases scan ((p.after '\t').afterText (List.replicate (depth + 1) '\t')) false rest <;> rfl

/-- In a text that begins at `p`, with a line if `fresh`, the span is that of all
tabs at the start of a line, and there are `depth` of them. -/
def Indents (p : Position) (fresh : Bool) (cs : List Char) (depth : Nat) (s : Span) : Prop :=
  ∃ before behind, cs = before ++ List.replicate depth '\t' ++ behind ∧ 0 < depth ∧
    (before = [] ∧ fresh = true ∨ before.getLast? = some '\n') ∧ behind.head? ≠ some '\t' ∧
    s = (p.afterText before).upTo (p.afterText (before ++ List.replicate depth '\t'))

namespace Indents

variable {p : Position} {fresh : Bool} {cs w : List Char} {depth : Nat} {s : Span}

theorem prepend {fresh' : Bool} (h : Indents (p.afterText w) fresh' cs depth s)
    (hw : fresh' = true → w.getLast? = some '\n') : Indents p fresh (w ++ cs) depth s := by
  obtain ⟨before, behind, rfl, hdepth, hopens, hbehind, rfl⟩ := h
  refine ⟨w ++ before, behind, by simp, hdepth, .inr ?_, hbehind, ?_⟩
  · rcases hopens with ⟨rfl, hfresh⟩ | hlast
    · rw [List.append_nil, hw hfresh]
    · rw [List.getLast?_append, hlast, Option.some_or]
  · rw [← Position.afterText_append, List.append_assoc, ← Position.afterText_append]

/-- Indentation at the start of the text grows by a tab before it. -/
theorem tab (h : Indents (p.after '\t') true cs depth s) (hs : s.start = (p.after '\t').offset) :
    Indents p true ('\t' :: cs) (depth + 1) { p.upTo (p.after '\t') with stop := s.stop } := by
  obtain ⟨before, behind, rfl, _, _, hbehind, rfl⟩ := h
  obtain rfl : before = [] := Position.eq_nil_of_offset_afterText hs
  exact ⟨[], behind, rfl, Nat.succ_pos _, .inl ⟨rfl, rfl⟩, hbehind, rfl⟩

/-- Where the text does not begin with the tabs, no line needs to begin there. -/
theorem stale (h : Indents p true cs depth s)
    (hbehind : cs.head? = some '\t' → s.start ≠ p.offset) : Indents p false cs depth s := by
  obtain ⟨before, behind, rfl, hdepth, ⟨rfl, -⟩ | hlast, hend, rfl⟩ := h
  · refine absurd rfl (hbehind ?_)
    obtain ⟨k, rfl⟩ := Nat.exists_eq_succ_of_ne_zero hdepth.ne'
    rfl
  · exact ⟨before, behind, rfl, hdepth, .inr hlast, hend, rfl⟩

theorem start_lt_stop (h : Indents p fresh cs depth s) : s.start < s.stop := by
  obtain ⟨before, behind, rfl, hdepth, _, _, rfl⟩ := h
  have hsize : (String.ofList (List.replicate depth '\t')).utf8ByteSize ≠ 0 := by
    simp [String.utf8ByteSize_eq_zero_iff]
    omega
  have := (p.afterText before).offset_afterText (List.replicate depth '\t')
  simp only [Position.upTo, Position.afterText_append]
  omega

end Indents

/-- Indentation stands at the start of a line, and is all tabs there. -/
theorem indents_of_mem {p : Position} {fresh : Bool} {cs : List Char} {ts : List Token}
    {depth : Nat} {s : Span} (h : scan p fresh cs = .ok ts) (hmem : ⟨.indent depth, s⟩ ∈ ts) :
    Indents p fresh cs depth s := by
  fun_induction scan p fresh cs generalizing ts depth s
  case case1 =>
    cases h
    simp at hmem
  case case7 => cases h
  case case9 => cases h
  case case4 c cs q _ _ _ ih => exact (ih h hmem).prepend (w := [c]) (absurd · Bool.false_ne_true)
  case case2 cs q ih =>
    obtain ⟨us, hus, rfl⟩ := map_eq_ok_iff.1 h
    have hmem : ⟨.indent depth, s⟩ ∈ us := by simpa using hmem
    exact (ih hus hmem).prepend (w := ['\n']) fun _ => rfl
  case case3 p _ c cs q _ htab ih =>
    obtain ⟨us, hus, rfl⟩ := map_eq_ok_iff.1 h
    obtain ⟨rfl, rfl⟩ := htab
    by_cases hindent : ∀ t ∈ us.head?, t.lexeme.isIndent = false
    · have hcs : cs.head? ≠ some '\t' := head?_ne_tab_of_scan hus hindent
      rw [consIndent_of_not_isIndent hindent] at hmem
      rcases List.mem_cons.1 hmem with heq | hmem
      · cases heq
        exact ⟨[], cs, rfl, Nat.one_pos, .inl ⟨rfl, rfl⟩, hcs, rfl⟩
      · exact ((ih hus hmem).stale fun htab => absurd htab hcs).prepend (w := ['\t']) (absurd · Bool.false_ne_true)
    · obtain ⟨k, t, rest, rfl⟩ := exists_eq_cons_indent hindent
      have hfirst : Indents q true cs k t := ih hus List.mem_cons_self
      have hstart : t.start = q.offset := start_of_isIndent hus rfl
      rcases List.mem_cons.1 hmem with heq | hmem
      · cases heq
        exact hfirst.tab hstart
      · -- what stands behind the first token does not begin where it does
        have hle : t.stop ≤ s.start := (List.pairwise_cons.1 (tiles_of_scan hus).pairwise).1 _ hmem
        have hlt := hfirst.start_lt_stop
        refine ((ih hus (List.mem_cons_of_mem _ hmem)).stale fun _ => ?_).prepend (w := ['\t']) (absurd · Bool.false_ne_true)
        omega
  case case5 c cs q _ _ _ _ ih =>
    obtain ⟨us, hus, rfl⟩ := map_eq_ok_iff.1 h
    have hmem : ⟨.indent depth, s⟩ ∈ us := by
      obtain ⟨name, span, rest, rfl, hcons⟩ | hcons := consWordChar_cases c _ us
      all_goals
        rw [hcons] at hmem
        simpa using hmem
    exact (ih hus hmem).prepend (w := [c]) (absurd · Bool.false_ne_true)
  case case6 ih =>
    obtain ⟨us, hus, rfl⟩ := map_eq_ok_iff.1 h
    have hmem : ⟨.indent depth, s⟩ ∈ us := by simpa using hmem
    exact (ih hus hmem).prepend (w := ['<', '-']) (absurd · Bool.false_ne_true)
  case case8 c cs q _ _ _ _ _ l hmark ih =>
    obtain ⟨us, hus, rfl⟩ := map_eq_ok_iff.1 h
    have hmem : ⟨.indent depth, s⟩ ∈ us := by
      rcases List.mem_cons.1 hmem with heq | hmem
      · cases heq
        unfold Lexeme.ofMark? at hmark
        split at hmark <;> cases hmark
      · exact hmem
    exact (ih hus hmem).prepend (w := [c]) (absurd · Bool.false_ne_true)

theorem mem_of_indents {p : Position} {cs : List Char} {ts : List Token} {depth : Nat} {s : Span}
    (h : scan p true cs = .ok ts) (hs : Indents p true cs depth s) : ⟨.indent depth, s⟩ ∈ ts := by
  obtain ⟨before, behind, rfl, hdepth, hopens, hbehind, rfl⟩ := hs
  obtain ⟨k, rfl⟩ := Nat.exists_eq_succ_of_ne_zero hdepth.ne'
  have hline {q : Position} {us : List Token}
      (h : scan q true (List.replicate (k + 1) '\t' ++ behind) = .ok us) :
      ⟨.indent (k + 1), q.upTo (q.afterText (List.replicate (k + 1) '\t'))⟩ ∈ us := by
    rw [scan_replicate_tab hbehind] at h
    obtain ⟨us, _, rfl⟩ := map_eq_ok_iff.1 h
    exact List.mem_cons_self
  rcases hopens with ⟨rfl, -⟩ | hlast
  · exact hline h
  · rw [List.append_assoc, scan_append_of_getLast? hlast] at h
    obtain ⟨us, _, h⟩ := bind_eq_ok_iff.1 h
    obtain ⟨vs, hvs, h⟩ := bind_eq_ok_iff.1 h
    cases h
    rw [Position.afterText_append]
    exact List.mem_append_right _ (hline hvs)

theorem upTo_replicate_tab {before : List Char} (h : before = [] ∨ before.getLast? = some '\n')
    (depth : Nat) : (Position.afterText {} before).upTo
      (Position.afterText {} (before ++ List.replicate depth '\t')) =
        ⟨(String.ofList before).utf8ByteSize, (String.ofList before).utf8ByteSize + depth,
          1 + before.count '\n', 1⟩ := by
  have hcolumn : before.reverse.takeWhile (· != '\n') = [] := by
    rcases h with rfl | hlast
    · rfl
    · obtain ⟨before, rfl⟩ := List.getLast?_eq_some_iff.1 hlast
      simp
  have htabs : (String.ofList (List.replicate depth '\t')).utf8ByteSize = depth := by
    have hsize : (String.singleton '\t').utf8ByteSize = 1 := by decide
    induction depth with
    | zero => rfl
    | succ depth ih =>
      rw [List.replicate_succ, String.ofList_cons, String.utf8ByteSize_append, hsize, ih, Nat.add_comm]
  rw [Position.afterText_append, Position.afterText_eq, hcolumn, Position.upTo,
    Position.offset_afterText, htabs]
  rfl

/-! ## The tiling of a text -/

/-- Only separators stand in the text between the two offsets. -/
def Separates (text : String) (start stop : Nat) : Prop :=
  ∃ before gap behind : String, text = before ++ gap ++ behind ∧ before.utf8ByteSize = start ∧
    before.utf8ByteSize + gap.utf8ByteSize = stop ∧ ∀ c ∈ gap.toList, isSeparator c = true

structure Tiling (text : String) (ts : List Token) : Prop where
  ordered : ts.Pairwise fun t u => t.span.stop ≤ u.span.start
  /-- The last token alone is that of the end, and is empty. -/
  ends : ∃ us s, ts = us ++ [⟨.endOfText, s⟩] ∧ (∀ t ∈ us, t.lexeme ≠ .endOfText) ∧
    s.start = text.utf8ByteSize ∧ s.stop = text.utf8ByteSize
  first : ∀ t ∈ ts.head?, Separates text 0 t.span.start
  between : ∀ us t u vs, ts = us ++ t :: u :: vs → Separates text t.span.stop u.span.start
  /-- Each token covers its own spelling. -/
  covers : ∀ t ∈ ts, t.span.Covers text (String.ofList t.lexeme.text)
  words : ∀ name s, ⟨.word name, s⟩ ∈ ts → name ≠ "" ∧ ∀ c ∈ name.toList, isWordChar c = true
  apart : ∀ us t u vs, ts = us ++ t :: u :: vs → t.lexeme.isWord = true → u.lexeme.isWord = true →
    t.span.stop < u.span.start
  /-- Indentation is all tabs at the start of a line, and none is left out. -/
  indent_iff : ∀ depth s, ⟨.indent depth, s⟩ ∈ ts ↔ ∃ before behind : String,
    text = before ++ String.ofList (List.replicate depth '\t') ++ behind ∧ 0 < depth ∧
      (before = "" ∨ before.toList.getLast? = some '\n') ∧ behind.toList.head? ≠ some '\t' ∧
      s = ⟨before.utf8ByteSize, before.utf8ByteSize + depth, 1 + before.toList.count '\n', 1⟩

variable {text : String} {ts : List Token}

theorem separates_of_gap {before gap behind : List Char} {start stop : Nat}
    (htext : text.toList = before ++ gap ++ behind)
    (hstart : start = (Position.afterText {} before).offset)
    (hstop : stop = (Position.afterText {} (before ++ gap)).offset)
    (hgap : ∀ c ∈ gap, isSeparator c = true) : Separates text start stop := by
  refine ⟨String.ofList before, String.ofList gap, String.ofList behind, ?_, ?_, ?_, by simpa using hgap⟩
  · rw [← String.ofList_append, ← String.ofList_append, ← htext, String.ofList_toList]
  · rw [hstart, Position.afterText_eq]
  · rw [hstop, Position.afterText_eq, String.ofList_append, String.utf8ByteSize_append]

theorem indent_mem_iff (h : ofText text = .ok ts) (depth : Nat) (s : Span) :
    ⟨.indent depth, s⟩ ∈ ts ↔ ∃ before behind : String,
      text = before ++ String.ofList (List.replicate depth '\t') ++ behind ∧ 0 < depth ∧
        (before = "" ∨ before.toList.getLast? = some '\n') ∧ behind.toList.head? ≠ some '\t' ∧
        s = ⟨before.utf8ByteSize, before.utf8ByteSize + depth, 1 + before.toList.count '\n', 1⟩ := by
  constructor
  · intro hmem
    obtain ⟨before, behind, htext, hdepth, hopens, hbehind, rfl⟩ := indents_of_mem h hmem
    have hopens : before = [] ∨ before.getLast? = some '\n' := hopens.imp_left And.left
    refine ⟨String.ofList before, String.ofList behind, ?_, hdepth, ?_, by simpa using hbehind, ?_⟩
    · rw [← String.ofList_append, ← String.ofList_append, ← htext, String.ofList_toList]
    · simpa using hopens
    · rw [upTo_replicate_tab hopens, String.toList_ofList]
  · rintro ⟨before, behind, rfl, hdepth, hopens, hbehind, rfl⟩
    have hopens : before.toList = [] ∨ before.toList.getLast? = some '\n' :=
      hopens.imp_left fun h => by rw [h]; rfl
    refine mem_of_indents h ⟨before.toList, behind.toList, by simp, hdepth, ?_, hbehind, ?_⟩
    · exact hopens.imp_left fun h => ⟨h, rfl⟩
    · rw [upTo_replicate_tab hopens, String.ofList_toList]

/-- The tokens of a text tile it. -/
theorem tiling_of_ofText (h : ofText text = .ok ts) : Tiling text ts := by
  have htiles : Tiles {} text.toList ts := tiles_of_scan h
  have hordered := pairwise_of_ofText h
  constructor
  case ordered => exact hordered
  case ends =>
    obtain ⟨us, rfl, hend, _⟩ := exists_eq_concat_of_scan h
    refine ⟨us, _, rfl, fun t ht heq => hend (List.mem_map.2 ⟨t, ht, heq⟩), ?_⟩
    rw [Position.upTo, Position.afterText_eq, String.ofList_toList]
    exact ⟨rfl, rfl⟩
  case first =>
    intro t ht
    obtain ⟨us, rfl⟩ := List.head?_eq_some_iff.1 ht
    obtain ⟨gap, behind, htext, hstart, hgap⟩ := htiles.exists_gap
    exact separates_of_gap (show text.toList = [] ++ gap ++ behind from htext) rfl hstart hgap
  case between =>
    intro us t u vs hts
    obtain ⟨before, gap, behind, htext, hstop, hstart, hgap⟩ := htiles.exists_gap_between hts
    exact separates_of_gap htext hstop hstart hgap
  case covers => exact fun t ht => covers_of_mem h ht
  case words =>
    intro name s hmem
    have hscanned := isScanned_of_scan h _ hmem
    simpa [Lexeme.isScanned] using hscanned
  case apart =>
    rintro us t u vs rfl ht hu
    have hne : t.span.stop ≠ u.span.start :=
      (List.isChain_append_cons_cons.1 (isChain_of_scan h)).2.1 ht hu
    have hle : t.span.stop ≤ u.span.start :=
      (List.pairwise_cons.1 (List.pairwise_append.1 hordered).2.1).1 u List.mem_cons_self
    omega
  case indent_iff => exact indent_mem_iff h

/-- Tabs at the start of lines and elsewhere, and blanks at the end. -/
def tabbedText : String := "\t\ta: \tb\r\n \tc<-d\n\t\n\t "

example : (ofText tabbedText).toOption.map (fun ts => ts.map Token.lexeme) =
    some [.indent 2, .word "a", .colon, .word "b", .lineEnd, .word "c", .arrow, .word "d", .lineEnd,
      .indent 1, .lineEnd, .indent 1, .endOfText] := by decide +kernel

theorem tiling_of_ofText_tabbedText : ∃ ts, ofText tabbedText = .ok ts ∧ Tiling tabbedText ts := by
  have hok : (ofText tabbedText).isOk = true := by decide +kernel
  obtain ⟨ts, hts⟩ := isOk_iff_exists.1 hok
  exact ⟨ts, hts, tiling_of_ofText hts⟩

end InterfaceSchema.Token
