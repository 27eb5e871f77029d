import InterfaceSchema.Proofs.Reading.Lines
import InterfaceSchema.Proofs.Reading.Places
import InterfaceSchema.Proofs.Reading.Scanning

/-!
# Texts further down

A text that stands further down in another one has the same tokens there, so many
lines and bytes further down (`Token.scan_down`), and tokens in other places spell the
same statements in these places, behind whatever statements have been read before
(`Program.ofTokensBehind_mapSpan`).
-/

namespace InterfaceSchema

/-- The place so many lines and bytes further down. -/
def Span.down (lines bytes : Nat) (s : Span) : Span :=
  ⟨s.start + bytes, s.stop + bytes, s.line + lines, s.column⟩

def Token.mapSpan (f : Span → Span) (t : Token) : Token := ⟨t.lexeme, f t.span⟩

section

variable (lines bytes : Nat)

namespace Position

def down (p : Position) : Position := ⟨p.offset + bytes, p.line + lines, p.column⟩

theorem after_down (p : Position) (c : Char) :
    (p.down lines bytes).after c = (p.after c).down lines bytes := by
  unfold after
  split <;> simp only [down] <;> congr 1 <;> omega

theorem upTo_down (p q : Position) :
    (p.down lines bytes).upTo (q.down lines bytes) = (p.upTo q).down lines bytes := rfl

end Position

namespace Token

/-- Tokens, or the failure to scan them, in other places. -/
def mapSpans (f : Span → Span) (x : Except SyntaxError (List Token)) :
    Except SyntaxError (List Token) :=
  (List.map (mapSpan f) <$> x).mapError (SyntaxError.mapSpan f)

theorem mapSpans_map {f : Span → Span} {g g' : List Token → List Token}
    (h : ∀ us, g' (us.map (mapSpan f)) = (g us).map (mapSpan f))
    (x : Except SyntaxError (List Token)) : g' <$> mapSpans f x = mapSpans f (g <$> x) := by
  cases x with
  | error e => rfl
  | ok us => exact congrArg Except.ok (h us)

theorem mapSpans_cons {f : Span → Span} (l : Lexeme) (s : Span) (x : Except SyntaxError (List Token)) :
    (⟨l, f s⟩ :: ·) <$> mapSpans f x = mapSpans f ((⟨l, s⟩ :: ·) <$> x) := by
  cases x <;> rfl

theorem consWordChar_down (c : Char) (s : Span) (us : List Token) :
    consWordChar c (s.down lines bytes) (us.map (mapSpan (Span.down lines bytes))) =
      (consWordChar c s us).map (mapSpan (Span.down lines bytes)) := by
  rcases us with _ | ⟨⟨l, t⟩, us⟩
  · rfl
  · cases l with
    | word name =>
      have hstart : t.start + bytes = s.stop + bytes ↔ t.start = s.stop := Nat.add_right_cancel_iff
      simp only [consWordChar, List.map_cons, mapSpan, Span.down, hstart]
      split <;> rfl
    | _ => rfl

theorem consIndent_down (s : Span) (us : List Token) :
    consIndent (s.down lines bytes) (us.map (mapSpan (Span.down lines bytes))) =
      (consIndent s us).map (mapSpan (Span.down lines bytes)) := by
  rcases us with _ | ⟨⟨l, t⟩, us⟩
  · rfl
  · cases l <;> rfl

/-- Further down a text has the same tokens further down. -/
theorem scan_down (p : Position) (fresh : Bool) (cs : List Char) :
    scan (p.down lines bytes) fresh cs = mapSpans (Span.down lines bytes) (scan p fresh cs) := by
  fun_induction scan p fresh cs
  case case1 => rfl
  case case2 ih =>
    rw [scan_cons_newline, Position.after_down, Position.upTo_down, ih]
    exact mapSpans_cons _ _ _
  case case3 htab ih =>
    obtain ⟨rfl, rfl⟩ := htab
    rw [scan_cons_tab, Position.after_down, Position.upTo_down, ih]
    exact mapSpans_map (consIndent_down lines bytes _) _
  case case4 c cs q hnewline htab hseparator ih =>
    rw [scan.eq_def]
    simp only [if_neg hnewline, if_neg htab, if_pos hseparator, Position.after_down]
    exact ih
  case case5 hc ih =>
    rw [scan_cons_word _ _ _ hc, Position.after_down, Position.upTo_down, ih]
    exact mapSpans_map (consWordChar_down lines bytes _ _) _
  case case6 ih =>
    rw [scan_cons_arrow, Position.after_down, Position.after_down, Position.upTo_down, ih]
    exact mapSpans_cons _ _ _
  case case7 harrow q hnewline htab hseparator hword =>
    rw [scan.eq_def]
    simp only [if_neg hnewline, if_neg htab, if_neg hseparator, if_neg hword, if_true,
      Position.after_down]
    rfl
  case case8 hmark ih =>
    rw [scan_cons_mark _ _ _ hmark, Position.after_down, Position.upTo_down, ih]
    exact mapSpans_cons _ _ _
  case case9 hnewline htab hseparator hword harrow hmark =>
    rw [scan.eq_def]
    simp only [if_neg hnewline, if_neg htab, if_neg hseparator, if_neg hword, if_neg harrow, hmark,
      Position.after_down]
    rfl

end Token

end

namespace Program

variable {f : Span → Span}

theorem ofTokensBehind_leveled (hf : f {} = {}) (before ss : List Statement) (ts : List Token) :
    ofTokensBehind (before ++ ss.map (Statement.mapSpan f)) (ts.map (Token.leveled f)) =
      ((fun p => ⟨before ++ p.statements.map (Statement.mapSpan f)⟩) <$>
        ofTokensBehind ss ts).mapError (SyntaxError.mapSpan f) := by
  have hfollows : Rule.Follows f (fun p => ⟨before ++ p.statements.map (Statement.mapSpan f)⟩)
      (Rule.iterate Reader.programStep Reader.programStep_shrinks ss)
      (Rule.iterate Reader.programStep Reader.programStep_shrinks
        (before ++ ss.map (Statement.mapSpan f))) :=
    .iterate (g := fun ss => before ++ ss.map (Statement.mapSpan f)) _ _
      (Reader.follows_programStep_behind hf before) ss
  rw [ofTokensBehind, Reader.programFrom, hfollows ts, ofTokensBehind, Reader.programFrom]
  cases Rule.iterate Reader.programStep Reader.programStep_shrinks ss ts <;> rfl

theorem ofTokensBehind_leveled_id (before : List Statement) (ts : List Token) :
    ofTokensBehind before (ts.map (Token.leveled fun s => s)) = ofTokensBehind before ts := by
  have hid : (Statement.mapSpan fun s => s) = fun s => s := funext Statement.mapSpan_id
  have h := ofTokensBehind_leveled (f := fun s => s) rfl [] before ts
  simp only [hid, List.map_id', List.nil_append] at h
  rw [h]
  cases ofTokensBehind before ts <;> rfl

/-- Tokens in other places spell the same statements in these places, behind whatever
statements have been read. -/
theorem ofTokensBehind_mapSpan (hf : f {} = {}) (before : List Statement) (ts : List Token) :
    ofTokensBehind before (ts.map (Token.mapSpan f)) =
      ((fun p => ⟨before ++ p.statements.map (Statement.mapSpan f)⟩) <$>
        ofTokens ts).mapError (SyntaxError.mapSpan f) := by
  have hleveled : (ts.map (Token.mapSpan f)).map (Token.leveled fun s => s) =
      ts.map (Token.leveled f) := List.map_map
  have h := ofTokensBehind_leveled hf before [] ts
  rw [List.map_nil, List.append_nil, ← hleveled, ofTokensBehind_leveled_id] at h
  rw [h, ofTokens_eq]

end Program

end InterfaceSchema
