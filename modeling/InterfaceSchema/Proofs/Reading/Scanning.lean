import InterfaceSchema.Proofs.Reading.Tokens
import Mathlib.Data.List.Forall2

/-!
# Tokens of any text

What every successful scan has in common. Its words are words and its
indentation has a step (`Token.isScanned_of_scan`), and a line end is a token of
its own: the tokens of a text are those of its lines, each scanned alone, with a
line end behind each (`Layout.exists_lexemes_of_canonical`).
-/

namespace InterfaceSchema

open Text

namespace Lexeme

/-- The lexeme can come from a text. -/
def isScanned : Lexeme → Bool
  | word name => !name.toList.isEmpty && name.toList.all Token.isWordChar
  | indent depth => depth != 0
  | _ => true

/-- The lexeme is no part of a statement. -/
def isLayout : Lexeme → Bool
  | indent _ | lineEnd | endOfText => true
  | _ => false

end Lexeme

namespace Token

variable {c : Char} {s : Span} {us : List Token}

/-- A character of a word joins the word behind it or is a word of its own. -/
theorem consWordChar_cases (c : Char) (s : Span) (us : List Token) :
    (∃ name span rest, us = ⟨.word name, span⟩ :: rest ∧
      consWordChar c s us = ⟨.word (c.toString ++ name), { s with stop := span.stop }⟩ :: rest) ∨
    consWordChar c s us = ⟨.word c.toString, s⟩ :: us := by
  unfold consWordChar
  split
  · split
    · exact .inl ⟨_, _, _, rfl, rfl⟩
    · exact .inr rfl
  · exact .inr rfl

theorem consIndent_cases (s : Span) (us : List Token) :
    (∃ depth span rest, us = ⟨.indent depth, span⟩ :: rest ∧
      consIndent s us = ⟨.indent (depth + 1), { s with stop := span.stop }⟩ :: rest) ∨
    consIndent s us = ⟨.indent 1, s⟩ :: us := by
  unfold consIndent
  split
  · exact .inl ⟨_, _, _, rfl, rfl⟩
  · exact .inr rfl

theorem isScanned_of_mem_consWordChar (hc : isWordChar c = true)
    (hus : ∀ t ∈ us, t.lexeme.isScanned = true) :
    ∀ t ∈ consWordChar c s us, t.lexeme.isScanned = true := by
  obtain ⟨name, span, rest, rfl, hcons⟩ | hcons := consWordChar_cases c s us
  · obtain ⟨hname, hrest⟩ := List.forall_mem_cons.1 hus
    simp only [Lexeme.isScanned, Bool.and_eq_true] at hname
    rw [hcons]
    exact List.forall_mem_cons.2 ⟨by simp [Lexeme.isScanned, hc, hname.2], hrest⟩
  · rw [hcons]
    exact List.forall_mem_cons.2 ⟨by simp [Lexeme.isScanned, hc], hus⟩

theorem isScanned_of_mem_consIndent (hus : ∀ t ∈ us, t.lexeme.isScanned = true) :
    ∀ t ∈ consIndent s us, t.lexeme.isScanned = true := by
  obtain ⟨depth, span, rest, rfl, hcons⟩ | hcons := consIndent_cases s us
  · rw [hcons]
    exact List.forall_mem_cons.2 ⟨by simp [Lexeme.isScanned], (List.forall_mem_cons.1 hus).2⟩
  · rw [hcons]
    exact List.forall_mem_cons.2 ⟨rfl, hus⟩

theorem isScanned_of_ofMark? {c : Char} {l : Lexeme} (h : Lexeme.ofMark? c = some l) :
    l.isScanned = true ∧ l ≠ .lineEnd ∧ l ≠ .endOfText := by
  unfold Lexeme.ofMark? at h
  split at h <;> cases h <;> decide

theorem isScanned_of_scan {p : Position} {fresh : Bool} {cs : List Char} {ts : List Token}
    (h : scan p fresh cs = .ok ts) : ∀ t ∈ ts, t.lexeme.isScanned = true := by
  fun_induction scan p fresh cs generalizing ts
  case case1 =>
    cases h
    simp [Lexeme.isScanned]
  case case4 ih => exact ih h
  case case7 => cases h
  case case9 => cases h
  case case3 ih =>
    obtain ⟨us, hus, rfl⟩ := map_eq_ok_iff.1 h
    exact isScanned_of_mem_consIndent (ih hus)
  case case5 hc ih =>
    obtain ⟨us, hus, rfl⟩ := map_eq_ok_iff.1 h
    exact isScanned_of_mem_consWordChar hc (ih hus)
  case case8 hl ih =>
    obtain ⟨us, hus, rfl⟩ := map_eq_ok_iff.1 h
    exact List.forall_mem_cons.2 ⟨(isScanned_of_ofMark? hl).1, ih hus⟩
  case case2 ih | case6 ih =>
    obtain ⟨us, hus, rfl⟩ := map_eq_ok_iff.1 h
    exact List.forall_mem_cons.2 ⟨rfl, ih hus⟩

/-! ## Line ends -/

theorem mem_lexemes_consWordChar {l : Lexeme} (h : l ∈ (consWordChar c s us).map Token.lexeme) :
    l.isWord = true ∨ l ∈ us.map Token.lexeme := by
  obtain ⟨name, span, rest, rfl, hcons⟩ | hcons := consWordChar_cases c s us
  · rw [hcons] at h
    rcases List.mem_cons.1 h with rfl | h
    · exact .inl rfl
    · exact .inr (List.mem_cons_of_mem _ h)
  · rw [hcons] at h
    rcases List.mem_cons.1 h with rfl | h
    · exact .inl rfl
    · exact .inr h

theorem mem_lexemes_consIndent {l : Lexeme} (h : l ∈ (consIndent s us).map Token.lexeme) :
    l.isIndent = true ∨ l ∈ us.map Token.lexeme := by
  obtain ⟨depth, span, rest, rfl, hcons⟩ | hcons := consIndent_cases s us
  · rw [hcons] at h
    rcases List.mem_cons.1 h with rfl | h
    · exact .inl rfl
    · exact .inr (List.mem_cons_of_mem _ h)
  · rw [hcons] at h
    rcases List.mem_cons.1 h with rfl | h
    · exact .inl rfl
    · exact .inr h

theorem consWordChar_append {t : Token} (ht : t.lexeme.endsLine = true) (c : Char) (s : Span)
    (us vs : List Token) : consWordChar c s (us ++ t :: vs) = consWordChar c s us ++ t :: vs := by
  cases us with
  | nil =>
    obtain ⟨l, span⟩ := t
    cases l <;> first | rfl | cases ht
  | cons u us =>
    obtain ⟨l, span⟩ := u
    cases l with
    | word name =>
      simp only [List.cons_append, consWordChar]
      split <;> rfl
    | _ => rfl

theorem consIndent_append {t : Token} (ht : t.lexeme.endsLine = true) (s : Span)
    (us vs : List Token) : consIndent s (us ++ t :: vs) = consIndent s us ++ t :: vs := by
  cases us with
  | nil =>
    obtain ⟨l, span⟩ := t
    cases l <;> first | rfl | cases ht
  | cons u us =>
    obtain ⟨l, span⟩ := u
    cases l <;> rfl

/-- The token of the end stands once, behind all others, and no line ends within
a line. -/
theorem exists_eq_concat_of_scan {p : Position} {fresh : Bool} {cs : List Char} {ts : List Token}
    (h : scan p fresh cs = .ok ts) :
    ∃ us, ts = us ++ [⟨.endOfText, (p.afterText cs).upTo (p.afterText cs)⟩] ∧
      .endOfText ∉ us.map Token.lexeme ∧ ('\n' ∉ cs → .lineEnd ∉ us.map Token.lexeme) := by
  fun_induction scan p fresh cs generalizing ts
  case case1 =>
    cases h
    exact ⟨[], rfl, by simp, by simp⟩
  case case7 => cases h
  case case9 => cases h
  case case2 ih =>
    obtain ⟨us, hus, rfl⟩ := map_eq_ok_iff.1 h
    obtain ⟨us, rfl, hend, _⟩ := ih hus
    exact ⟨_ :: us, rfl, by simpa using hend, by simp⟩
  case case3 ih =>
    obtain ⟨us, hus, rfl⟩ := map_eq_ok_iff.1 h
    obtain ⟨us, rfl, hend, hline⟩ := ih hus
    refine ⟨consIndent _ us, consIndent_append rfl _ us [], fun hmem => ?_, fun hcs hmem => ?_⟩
    · exact (mem_lexemes_consIndent hmem).elim Bool.false_ne_true hend
    · exact (mem_lexemes_consIndent hmem).elim Bool.false_ne_true
        (hline fun hnewline => hcs (List.mem_cons_of_mem _ hnewline))
  case case4 ih =>
    obtain ⟨us, rfl, hend, hline⟩ := ih h
    exact ⟨us, rfl, hend, fun hcs => hline fun hnewline => hcs (List.mem_cons_of_mem _ hnewline)⟩
  case case5 ih =>
    obtain ⟨us, hus, rfl⟩ := map_eq_ok_iff.1 h
    obtain ⟨us, rfl, hend, hline⟩ := ih hus
    refine ⟨consWordChar _ _ us, consWordChar_append rfl _ _ us [], fun hmem => ?_,
      fun hcs hmem => ?_⟩
    · exact (mem_lexemes_consWordChar hmem).elim Bool.false_ne_true hend
    · exact (mem_lexemes_consWordChar hmem).elim Bool.false_ne_true
        (hline fun hnewline => hcs (List.mem_cons_of_mem _ hnewline))
  case case6 ih =>
    obtain ⟨us, hus, rfl⟩ := map_eq_ok_iff.1 h
    obtain ⟨us, rfl, hend, hline⟩ := ih hus
    refine ⟨_ :: us, rfl, by simpa using hend, fun hcs => ?_⟩
    simpa using hline fun hnewline =>
      hcs (List.mem_cons_of_mem _ (List.mem_cons_of_mem _ hnewline))
  case case8 hl ih =>
    obtain ⟨us, hus, rfl⟩ := map_eq_ok_iff.1 h
    obtain ⟨us, rfl, hend, hline⟩ := ih hus
    obtain ⟨_, hlineEnd, hendOfText⟩ := isScanned_of_ofMark? hl
    refine ⟨_ :: us, rfl, ?_, fun hcs => ?_⟩
    · simpa [hendOfText.symm] using hend
    · simpa [hlineEnd.symm] using hline fun hnewline => hcs (List.mem_cons_of_mem _ hnewline)

/-- What is put in front of tokens does not depend on what stands behind the end of
their line. -/
theorem map_scan_append {g : List Token → List Token}
    (hg : ∀ {t : Token} (us vs), t.lexeme.endsLine = true → g (us ++ t :: vs) = g us ++ t :: vs)
    {p : Position} {fresh : Bool} {l : List Char} {t : Token} (ht : t.lexeme.endsLine = true)
    (rest : Except SyntaxError (List Token)) :
    (g <$> do
      let us ← scan p fresh l
      let vs ← rest
      return us.dropLast ++ t :: vs) = do
        let us ← g <$> scan p fresh l
        let vs ← rest
        return us.dropLast ++ t :: vs := by
  cases hscan : scan p fresh l with
  | error e => rfl
  | ok us =>
    obtain ⟨us, rfl, _⟩ := exists_eq_concat_of_scan hscan
    cases rest with
    | error e => rfl
    | ok vs =>
      show Except.ok (g ((us ++ [_]).dropLast ++ t :: vs)) = Except.ok ((g (us ++ [_])).dropLast ++ _)
      rw [hg us [] rfl, List.dropLast_concat, List.dropLast_concat, hg us vs ht]

/-- A line is scanned alone, and the next one as the first of a text. -/
theorem scan_append_newline {p : Position} {fresh : Bool} {l : List Char} (hl : '\n' ∉ l)
    (cs : List Char) : scan p fresh (l ++ '\n' :: cs) = do
      let us ← scan p fresh l
      let vs ← scan ((p.afterText l).after '\n') true cs
      return us.dropLast ++ ⟨.lineEnd, (p.afterText l).upTo ((p.afterText l).after '\n')⟩ :: vs := by
  fun_induction scan p fresh l
  case case1 =>
    rw [List.nil_append, scan_cons_newline]
    rfl
  case case2 => exact absurd List.mem_cons_self hl
  case case3 htab ih =>
    obtain ⟨rfl, rfl⟩ := htab
    rw [List.cons_append, scan_cons_tab, ih fun h => hl (List.mem_cons_of_mem _ h)]
    exact map_scan_append (fun us vs ht => consIndent_append ht _ us vs) rfl _
  case case4 hnewline htab hseparator ih =>
    rw [List.cons_append, scan.eq_def]
    simp only [if_neg hnewline, if_neg htab, if_pos hseparator]
    exact ih fun h => hl (List.mem_cons_of_mem _ h)
  case case5 hc ih =>
    rw [List.cons_append, scan_cons_word _ _ _ hc, ih fun h => hl (List.mem_cons_of_mem _ h)]
    exact map_scan_append (fun us vs ht => consWordChar_append ht _ _ us vs) rfl _
  case case6 ih =>
    rw [List.cons_append, List.cons_append, scan_cons_arrow,
      ih fun h => hl (List.mem_cons_of_mem _ (List.mem_cons_of_mem _ h))]
    exact map_scan_append (fun us vs _ => rfl) rfl _
  case case7 harrow q hnewline htab hseparator hword =>
    rw [List.cons_append, scan.eq_def]
    simp only [if_neg hnewline, if_neg htab, if_neg hseparator, if_neg hword, if_true]
    split
    · rename_i cs' heq
      rcases List.cons_eq_append_iff.1 heq.symm with ⟨rfl, h⟩ | ⟨ds, rfl, _⟩
      · cases h
      · exact absurd rfl (harrow ds)
    · rfl
  case case8 hmark ih =>
    rw [List.cons_append, scan_cons_mark _ _ _ hmark, ih fun h => hl (List.mem_cons_of_mem _ h)]
    exact map_scan_append (fun us vs _ => rfl) rfl _
  case case9 hnewline htab hseparator hword harrow hmark =>
    rw [List.cons_append, scan.eq_def]
    simp only [if_neg hnewline, if_neg htab, if_neg hseparator, if_neg hword, if_neg harrow, hmark]
    rfl

/-- Whole lines are scanned alone, and what stands behind them as a text of its own. -/
theorem scan_append_of_getLast? {ls : List Char} (hls : ls.getLast? = some '\n') (p : Position)
    (fresh : Bool) (cs : List Char) : scan p fresh (ls ++ cs) = do
      let us ← scan p fresh ls
      let vs ← scan (p.afterText ls) true cs
      return us.dropLast ++ vs := by
  induction hn : ls.length using Nat.strongRecOn generalizing ls p fresh with
  | ind n ih =>
  obtain ⟨l, rest, rfl, hl⟩ := List.eq_append_cons_of_mem (List.mem_of_getLast? hls)
  have hposition : p.afterText (l ++ '\n' :: rest) = ((p.afterText l).after '\n').afterText rest := by
    rw [Position.afterText_append, Position.afterText_cons]
  rw [List.append_assoc, List.cons_append, scan_append_newline hl, scan_append_newline hl, hposition]
  generalize (p.afterText l).after '\n' = q at *
  cases scan p fresh l with
  | error e => rfl
  | ok us =>
    by_cases hrest : rest = []
    · subst hrest
      rw [List.nil_append, Position.afterText_nil]
      cases scan q true cs <;> simp [scan, bind, Except.bind, pure, Except.pure]
    · have hlast : rest.getLast? = some '\n' := by
        rwa [← List.singleton_append, ← List.append_assoc, List.getLast?_append_of_ne_nil _ hrest] at hls
      have hless : rest.length < n := by
        rw [← hn, List.length_append, List.length_cons]
        omega
      rw [ih _ hless hlast q true rfl]
      cases hscan : scan q true rest with
      | error e => rfl
      | ok ws =>
        obtain ⟨ws, rfl, _⟩ := exists_eq_concat_of_scan hscan
        cases scan (q.afterText rest) true cs with
        | error e => rfl
        | ok vs =>
          have hdrop (t u : Token) : (us.dropLast ++ t :: (ws ++ [u])).dropLast = us.dropLast ++ t :: ws := by
            rw [← List.cons_append, ← List.append_assoc, List.dropLast_concat]
          refine congrArg Except.ok ?_
          rw [hdrop, List.dropLast_concat, List.append_assoc, List.cons_append]

theorem isIndent_of_scan {p : Position} {fresh : Bool} {cs : List Char} {t : Token}
    {ts : List Token} (h : scan p fresh cs = .ok (t :: ts)) (hfresh : fresh = false) :
    t.lexeme.isIndent = false := by
  fun_induction scan p fresh cs
  case case1 => cases h; rfl
  case case3 htab _ =>
    rw [hfresh] at htab
    cases htab.2
  case case4 ih => exact ih h rfl
  case case7 => cases h
  case case9 => cases h
  case case5 =>
    obtain ⟨us, _, hus⟩ := map_eq_ok_iff.1 h
    obtain ⟨_, _, _, _, hcons⟩ | hcons := consWordChar_cases _ _ us
    all_goals
      rw [hcons] at hus
      cases hus
      rfl
  case case8 hmark _ =>
    obtain ⟨us, _, hus⟩ := map_eq_ok_iff.1 h
    cases hus
    unfold Lexeme.ofMark? at hmark
    split at hmark <;> cases hmark <;> rfl
  case case2 | case6 =>
    obtain ⟨us, _, hus⟩ := map_eq_ok_iff.1 h
    cases hus
    rfl

/-! ## Places -/

/-- A word begins where the text does if its first character is one of a word. -/
theorem opensWord_iff {p : Position} {cs : List Char} {ts : List Token}
    (h : scan p false cs = .ok ts) :
    OpensWord p.offset ts ↔ ∃ c ∈ cs.head?, isWordChar c = true := by
  constructor
  · intro hopens
    refine Classical.byContradiction fun hnone => not_opensWord (fun c hc => ?_) h hopens
    exact Bool.eq_false_iff.2 fun hword => hnone ⟨c, hc, hword⟩
  · rintro ⟨c, hc, hword⟩
    obtain ⟨cs', rfl⟩ := List.head?_eq_some_iff.1 hc
    rw [scan_cons_word _ _ _ hword] at h
    obtain ⟨us, _, rfl⟩ := map_eq_ok_iff.1 h
    obtain ⟨_, _, _, rfl, hcons⟩ | hcons := consWordChar_cases c (p.upTo (p.after c)) us
    · exact ⟨_, _, _, hcons, rfl⟩
    · exact ⟨_, _, _, hcons, rfl⟩

/-- The lexemes of a run that goes on, or of a word of its own. -/
theorem map_lexeme_consWordChar (c : Char) (s : Span) (us : List Token) :
    (OpensWord s.stop us → ∃ name ls, us.map Token.lexeme = .word name :: ls ∧
      (consWordChar c s us).map Token.lexeme = .word (c.toString ++ name) :: ls) ∧
    (¬OpensWord s.stop us →
      (consWordChar c s us).map Token.lexeme = .word c.toString :: us.map Token.lexeme) := by
  constructor
  · rintro ⟨name, span, rest, rfl, hstart⟩
    exact ⟨name, _, rfl, by rw [consWordChar, if_pos hstart]; rfl⟩
  · intro h
    rw [consWordChar_of_not_opensWord c h]
    rfl

theorem map_lexeme_consIndent {s s' : Span} {us us' : List Token}
    (h : us'.map Token.lexeme = us.map Token.lexeme) :
    (consIndent s' us').map Token.lexeme = (consIndent s us).map Token.lexeme := by
  cases us with
  | nil =>
    obtain rfl := List.map_eq_nil_iff.1 h
    rfl
  | cons u us =>
    obtain ⟨⟨l, span⟩, us', rfl, rfl, hus⟩ := List.map_eq_cons_iff.1 h
    obtain ⟨l, span'⟩ := u
    cases l <;> simp [consIndent, hus]

end Token

/-- What the tokens of a text say does not depend on where it stands. -/
theorem Token.scans_of_scan {p : Position} {fresh : Bool} {cs : List Char} {ts : List Token}
    (h : scan p fresh cs = .ok ts) : Scans fresh cs (ts.map Token.lexeme) := by
  intro p'
  fun_induction scan p fresh cs generalizing ts p'
  case case1 =>
    cases h
    exact ⟨_, rfl, rfl⟩
  case case7 => cases h
  case case9 => cases h
  case case2 ih =>
    obtain ⟨us, hus, rfl⟩ := map_eq_ok_iff.1 h
    obtain ⟨us', hus', heq⟩ := ih hus (p'.after '\n')
    exact ⟨_, by rw [scan_cons_newline, hus']; rfl, by rw [List.map_cons, heq]; rfl⟩
  case case3 htab ih =>
    obtain ⟨us, hus, rfl⟩ := map_eq_ok_iff.1 h
    obtain ⟨rfl, rfl⟩ := htab
    obtain ⟨us', hus', heq⟩ := ih hus (p'.after '\t')
    exact ⟨_, by rw [scan_cons_tab, hus']; rfl, map_lexeme_consIndent heq⟩
  case case4 hnewline htab hseparator ih =>
    rw [scan.eq_def]
    simp only [if_neg hnewline, if_neg htab, if_pos hseparator]
    exact ih h _
  case case5 c cs q _ _ _ hc ih =>
    obtain ⟨us, hus, rfl⟩ := map_eq_ok_iff.1 h
    obtain ⟨us', hus', heq⟩ := ih hus (p'.after c)
    refine ⟨_, by rw [scan_cons_word _ _ _ hc, hus']; rfl, ?_⟩
    have hiff := (opensWord_iff hus').trans (opensWord_iff hus).symm
    by_cases hopens : OpensWord q.offset us
    · obtain ⟨name, ls, hls, hmap⟩ := (map_lexeme_consWordChar c (Position.upTo _ q) us).1 hopens
      obtain ⟨name', ls', hls', hmap'⟩ :=
        (map_lexeme_consWordChar c (p'.upTo (p'.after c)) us').1 (hiff.2 hopens)
      rw [heq, hls] at hls'
      cases hls'
      rw [hmap, hmap']
    · rw [(map_lexeme_consWordChar c (Position.upTo _ q) us).2 hopens,
        (map_lexeme_consWordChar c _ us').2 fun h => hopens (hiff.1 h), heq]
  case case6 ih =>
    obtain ⟨us, hus, rfl⟩ := map_eq_ok_iff.1 h
    obtain ⟨us', hus', heq⟩ := ih hus ((p'.after '<').after '-')
    exact ⟨_, by rw [scan_cons_arrow, hus']; rfl, by rw [List.map_cons, heq]; rfl⟩
  case case8 hmark ih =>
    obtain ⟨us, hus, rfl⟩ := map_eq_ok_iff.1 h
    obtain ⟨us', hus', heq⟩ := ih hus _
    exact ⟨_, by rw [scan_cons_mark _ _ _ hmark, hus']; rfl, by rw [List.map_cons, heq]; rfl⟩

/-- Scanned alone, the line says these lexemes. -/
structure Line.Says (l : List Char) (ls : List Lexeme) : Prop where
  scans : Scans true l (ls ++ [.endOfText])
  lineEnd : .lineEnd ∉ ls
  endOfText : .endOfText ∉ ls

namespace Token

theorem exists_lexemes_of_scan {ls : List (List Char)} (hls : ∀ l ∈ ls, '\n' ∉ l) {p : Position}
    {ts : List Token} (h : scan p true (ls.flatMap (· ++ ['\n'])) = .ok ts) :
    ∃ lss : List (List Lexeme), ts.map Token.lexeme = lss.flatMap (· ++ [.lineEnd]) ++ [.endOfText] ∧
      List.Forall₂ Line.Says ls lss := by
  induction ls generalizing p ts with
  | nil =>
    cases h
    exact ⟨[], rfl, .nil⟩
  | cons l ls ih =>
    obtain ⟨hl, hls⟩ := List.forall_mem_cons.1 hls
    rw [List.flatMap_cons, List.append_assoc, List.singleton_append, scan_append_newline hl] at h
    obtain ⟨us, hus, h⟩ := bind_eq_ok_iff.1 h
    obtain ⟨vs, hvs, h⟩ := bind_eq_ok_iff.1 h
    cases h
    obtain ⟨lss, hlss, hall⟩ := ih hls hvs
    obtain ⟨us, rfl, hend, hline⟩ := exists_eq_concat_of_scan hus
    refine ⟨us.map Token.lexeme :: lss, ?_, .cons ⟨?_, hline hl, hend⟩ hall⟩
    · rw [List.dropLast_concat, List.map_append, List.map_cons, hlss]
      simp
    · simpa using scans_of_scan hus

theorem isSeparator_of_scan {p : Position} {fresh : Bool} {cs : List Char} {ts : List Token}
    (h : scan p fresh cs = .ok ts) (hts : ts.map Token.lexeme = [.endOfText]) :
    ∀ c ∈ cs, isSeparator c = true := by
  fun_induction scan p fresh cs generalizing ts
  case case1 => exact List.forall_mem_nil _
  case case7 => cases h
  case case9 => cases h
  case case4 hseparator ih => exact List.forall_mem_cons.2 ⟨hseparator, ih h hts⟩
  case case3 =>
    obtain ⟨us, _, rfl⟩ := map_eq_ok_iff.1 h
    unfold consIndent at hts
    split at hts <;> cases hts
  case case5 =>
    obtain ⟨us, _, rfl⟩ := map_eq_ok_iff.1 h
    unfold consWordChar at hts
    split at hts
    · split at hts <;> cases hts
    · cases hts
  case case8 hl ih =>
    obtain ⟨us, _, rfl⟩ := map_eq_ok_iff.1 h
    exact absurd (List.cons.inj hts).1 (isScanned_of_ofMark? hl).2.2
  case case2 | case6 =>
    obtain ⟨us, _, rfl⟩ := map_eq_ok_iff.1 h
    cases hts

theorem isBlank_of_isSeparator {c : Char} (h : isSeparator c = true) : isBlank c = true := by
  simp only [isSeparator, Bool.or_eq_true, beq_iff_eq] at h
  rcases h with (rfl | rfl) | rfl <;> decide

end Token

/-! ## Canonical texts -/

namespace Layout

theorem trimEnd_sublist (cs : List Char) : (trimEnd cs).Sublist cs := by
  obtain ⟨blanks, hcs, _⟩ := exists_trimEnd_append cs
  exact List.IsPrefix.sublist ⟨blanks, hcs.symm⟩

theorem mem_trimEnd {c : Char} (hc : isBlank c = false) {cs : List Char} (h : c ∈ cs) :
    c ∈ trimEnd cs := by
  obtain ⟨blanks, hcs, hblanks⟩ := exists_trimEnd_append cs
  rw [hcs] at h
  refine (List.mem_append.1 h).resolve_right fun hblank => ?_
  rw [hblanks c hblank] at hc
  cases hc

theorem indentation_sublist (line : List Char) : (indentation line).2.Sublist line := by
  fun_induction indentation line with
  | case1 cs depth rest heq ih =>
    rw [heq] at ih
    exact ih.cons _
  | case2 cs depth rest heq ih =>
    rw [heq] at ih
    exact (((ih.cons _).cons _).cons _).cons _
  | case3 cs _ depth rest heq ih =>
    rw [heq] at ih
    exact (ih.cons _).cons _
  | case4 cs => exact (List.Sublist.refl cs).cons _
  | case5 cs => exact List.Sublist.refl cs

theorem mem_indentation {c : Char} (hc : isBlank c = false) {line : List Char} (h : c ∈ line) :
    c ∈ (indentation line).2 := by
  have hspace : c ≠ ' ' := by
    rintro rfl
    revert hc
    decide
  have htab : c ≠ '\t' := by
    rintro rfl
    revert hc
    decide
  fun_induction indentation line with
  | case1 cs depth rest heq ih =>
    rw [heq] at ih
    exact ih (by simpa [htab] using h)
  | case2 cs depth rest heq ih =>
    rw [heq] at ih
    exact ih (by simpa [hspace] using h)
  | case3 cs _ depth rest heq ih =>
    rw [heq] at ih
    exact ih (by simpa [hspace] using h)
  | case4 cs => simpa [hspace] using h
  | case5 cs => exact h

theorem exists_of_isSignificant {line : List Char} (h : isSignificant line = true) :
    ∃ c ∈ line, isBlank c = false := by
  unfold isSignificant at h
  split at h
  · cases h
  · rename_i c cs heq
    unfold trimStart at heq
    refine ⟨c, (List.dropWhile_sublist _).subset (heq ▸ List.mem_cons_self), ?_⟩
    have hne : line.dropWhile isBlank ≠ [] := heq ▸ List.cons_ne_nil c cs
    have hhead := List.head_dropWhile_not isBlank hne
    simpa [heq] using hhead

/-- A line in canonical layout, without its end. -/
def canonicalContent (line : List Char) : List Char :=
  List.replicate (indentation line).1 '\t' ++ trimEnd (indentation line).2

theorem canonicalLine_eq (line : List Char) : canonicalLine line = canonicalContent line ++ ['\n'] :=
  rfl

theorem newline_not_mem_canonicalContent {line : List Char} (h : '\n' ∉ line) :
    '\n' ∉ canonicalContent line := by
  rw [canonicalContent, List.mem_append]
  rintro (hmem | hmem)
  · cases List.eq_of_mem_replicate hmem
  · exact h ((indentation_sublist line).subset ((trimEnd_sublist _).subset hmem))

theorem nil_not_mem_of_says {ls : List (List Char)} {lss : List (List Lexeme)}
    (hls : ∀ line ∈ ls, isSignificant line = true)
    (h : List.Forall₂ (fun line xs => Line.Says (canonicalContent line) xs) ls lss) :
    [] ∉ lss := by
  induction h with
  | nil => exact List.not_mem_nil
  | @cons line xs _ _ hline _ ih =>
    obtain ⟨hsignificant, hls⟩ := List.forall_mem_cons.1 hls
    rw [List.mem_cons, not_or]
    refine ⟨?_, ih hls⟩
    rintro rfl
    obtain ⟨c, hc, hblank⟩ := exists_of_isSignificant hsignificant
    have hmem : c ∈ canonicalContent line :=
      List.mem_append_right _ (mem_trimEnd hblank (mem_indentation hblank hc))
    obtain ⟨ts, hts, hlexemes⟩ := hline.scans {}
    have hseparator := Token.isSeparator_of_scan hts hlexemes c hmem
    rw [Token.isBlank_of_isSeparator hseparator] at hblank
    cases hblank

/-- The tokens of a text in canonical layout are those of its significant lines;
a text without any is one empty line. -/
theorem exists_lexemes_of_canonical {source : String} {ts : List Token}
    (h : Token.ofText (canonical source) = .ok ts) :
    ∃ lss : List (List Lexeme), ts.map Token.lexeme = (if lss = [] then [.lineEnd] else []) ++
        lss.flatMap (· ++ [.lineEnd]) ++ [.endOfText] ∧ [] ∉ lss ∧
      List.Forall₂ (fun line ls => Line.Says (canonicalContent line) ls)
        (significantLines source.toList) lss := by
  unfold Token.ofText canonical at h
  rw [String.toList_ofList] at h
  have hsignificant : ∀ line ∈ significantLines source.toList,
      '\n' ∉ line ∧ isSignificant line = true := fun line hline =>
    ⟨newline_not_mem_of_mem_lines (List.mem_of_mem_filter hline), (List.mem_filter.1 hline).2⟩
  unfold canonicalText at h
  generalize significantLines source.toList = ls at h hsignificant ⊢
  have htext : ls.flatMap canonicalLine = (ls.map canonicalContent).flatMap (· ++ ['\n']) := by
    rw [List.flatMap_map]
    rfl
  split at h
  · rename_i hnil
    obtain rfl : ls = [] := by
      cases ls with
      | nil => rfl
      | cons l ls => simp [canonicalLine_eq] at hnil
    cases h
    exact ⟨[], rfl, by simp, .nil⟩
  · rename_i c out hcons
    rw [← hcons, htext] at h
    have hcontent : ∀ l ∈ ls.map canonicalContent, '\n' ∉ l :=
      List.forall_mem_map.2 fun line hline =>
        newline_not_mem_canonicalContent (hsignificant line hline).1
    obtain ⟨lss, hlss, hall⟩ := Token.exists_lexemes_of_scan hcontent h
    rw [List.forall₂_map_left_iff] at hall
    have hne : lss ≠ [] := by
      rintro rfl
      cases hall
      cases hcons
    exact ⟨lss, by rw [if_neg hne, List.nil_append, hlss],
      nil_not_mem_of_says (fun line hline => (hsignificant line hline).2) hall, hall⟩

end Layout

end InterfaceSchema
