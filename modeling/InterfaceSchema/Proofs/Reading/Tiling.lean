import InterfaceSchema.Proofs.Reading.Scanning
import Mathlib.Data.List.Induction

/-!
# Places of tokens

The tokens of a text stand in it one behind the other, with nothing but separators
between them, and each has the span of its own text (`Token.tiles_of_scan`). A span
is counted from the text alone: `Span.Covers` says which bytes of the text it holds,
on which line and in which column. So no two tokens overlap and each covers what it
says (`Token.pairwise_of_ofText`, `Token.covers_of_mem`).
-/

namespace InterfaceSchema

namespace Position

theorem offset_afterText (p : Position) (cs : List Char) :
    (p.afterText cs).offset = p.offset + (String.ofList cs).utf8ByteSize := by
  induction cs generalizing p with
  | nil => simp
  | cons c cs ih =>
    have hafter : (p.after c).offset = p.offset + c.utf8Size := by
      unfold after
      split <;> rfl
    rw [afterText_cons, ih, hafter]
    simp [Nat.add_assoc]

theorem eq_nil_of_offset_afterText {p : Position} {cs : List Char}
    (h : (p.afterText cs).offset = p.offset) : cs = [] := by
  cases cs with
  | nil => rfl
  | cons c cs =>
    have hlt : p.offset < (p.after c).offset := p.offset_lt_after c
    rw [afterText_cons, offset_afterText] at h
    omega

/-- The position behind a text: its bytes, its line ends, and the characters behind
the last of them. -/
theorem afterText_eq (cs : List Char) : afterText {} cs =
    ⟨(String.ofList cs).utf8ByteSize, 1 + cs.count '\n',
      1 + (cs.reverse.takeWhile (· != '\n')).length⟩ := by
  induction cs using List.reverseRecOn with
  | nil => rfl
  | append_singleton cs c ih =>
    rw [afterText_append, ih, afterText_cons, afterText_nil, after]
    by_cases hc : c = '\n'
    · have hsize : "\n".utf8ByteSize = '\n'.utf8Size := rfl
      simp [hc, hsize, Nat.add_assoc]
    · simp [hc, Nat.add_comm]

end Position

/-- The span is that of `piece` at one place of the text: its bytes, and the line and
the column of its first character, both counted from one. -/
def Span.Covers (s : Span) (text piece : String) : Prop :=
  ∃ before behind : String, text = before ++ piece ++ behind ∧
    s.start = before.utf8ByteSize ∧ s.stop = before.utf8ByteSize + piece.utf8ByteSize ∧
    s.line = 1 + before.toList.count '\n' ∧
    s.column = 1 + (before.toList.reverse.takeWhile (· != '\n')).length

theorem Span.covers_upTo (before piece behind : List Char) :
    ((Position.afterText {} before).upTo (Position.afterText {} (before ++ piece))).Covers
      (String.ofList (before ++ piece ++ behind)) (String.ofList piece) := by
  refine ⟨String.ofList before, String.ofList behind, by simp [String.append_assoc], ?_⟩
  rw [Position.upTo, Position.afterText_eq, Position.afterText_eq]
  simp

namespace Token

/-! ## Tiles -/

/-- From the position on, the tokens stand in the text one behind the other, with
separators between them, and each has the span of its own text. -/
inductive Tiles : Position → List Char → List Token → Prop
  | endOfText {p g} (hg : ∀ c ∈ g, isSeparator c = true) :
    Tiles p g [⟨.endOfText, (p.afterText g).upTo (p.afterText g)⟩]
  | token {p g} {l : Lexeme} {cs ts} (hg : ∀ c ∈ g, isSeparator c = true) (hl : l.text ≠ [])
    (hts : Tiles (p.afterText (g ++ l.text)) cs ts) :
    Tiles p (g ++ l.text ++ cs)
      (⟨l, (p.afterText g).upTo (p.afterText (g ++ l.text))⟩ :: ts)

namespace Tiles

variable {p : Position} {c : Char} {cs : List Char} {ts : List Token}

theorem separator (hc : isSeparator c = true) (h : Tiles (p.after c) cs ts) :
    Tiles p (c :: cs) ts := by
  cases h with
  | endOfText hg => exact .endOfText (g := c :: cs) (List.forall_mem_cons.2 ⟨hc, hg⟩)
  | @token _ g l cs ts hg hl hts =>
    exact .token (g := c :: g) (List.forall_mem_cons.2 ⟨hc, hg⟩) hl hts

theorem cons {l : Lexeme} {w : List Char} (hl : l.text = w) (hw : w ≠ [])
    (h : Tiles (p.afterText w) cs ts) : Tiles p (w ++ cs) (⟨l, p.upTo (p.afterText w)⟩ :: ts) := by
  subst hl
  exact .token (g := []) (List.forall_mem_nil _) hw h

/-- The first token grows by what is written before it, if it begins where the text
does. -/
theorem join {l m : Lexeme} {s : Span} {w : List Char} (h : Tiles (p.afterText w) cs (⟨l, s⟩ :: ts))
    (hs : s.start = (p.afterText w).offset) (hl : l ≠ .endOfText) (hm : m.text = w ++ l.text) :
    Tiles p (w ++ cs) (⟨m, { p.upTo (p.afterText w) with stop := s.stop }⟩ :: ts) := by
  cases h with
  | endOfText => exact absurd rfl hl
  | @token _ g _ cs ts _ hl hts =>
    obtain rfl : g = [] := Position.eq_nil_of_offset_afterText hs
    rw [List.nil_append, ← Position.afterText_append] at hts
    rw [List.nil_append, Position.afterText_nil, ← List.append_assoc, ← Position.afterText_append]
    exact hts.cons hm (by simp [hl])

theorem consWordChar (h : Tiles (p.after c) cs ts) :
    Tiles p (c :: cs) (consWordChar c (p.upTo (p.after c)) ts) := by
  by_cases hopens : OpensWord (p.after c).offset ts
  · obtain ⟨name, s, ts, rfl, hs⟩ := hopens
    have hstop : s.start = (p.upTo (p.after c)).stop := hs
    rw [Token.consWordChar, if_pos hstop]
    exact .join (w := [c]) h hs (by simp) (by simp [Lexeme.text])
  · rw [consWordChar_of_not_opensWord c hopens]
    exact .cons (w := [c]) (by simp [Lexeme.text]) (List.cons_ne_nil _ _) h

theorem consIndent (h : Tiles (p.after '\t') cs ts)
    (hstart : ∀ t ∈ ts.head?, t.lexeme.isIndent = true → t.span.start = (p.after '\t').offset) :
    Tiles p ('\t' :: cs) (consIndent (p.upTo (p.after '\t')) ts) := by
  obtain ⟨depth, s, ts, rfl, hcons⟩ | hcons := consIndent_cases (p.upTo (p.after '\t')) ts
  · rw [hcons]
    exact .join (w := ['\t']) h (hstart _ rfl rfl) (by simp) rfl
  · rw [hcons]
    exact .cons (w := ['\t']) rfl (List.cons_ne_nil _ _) h

end Tiles

theorem start_of_isIndent {p : Position} {cs : List Char} {t : Token} {ts : List Token}
    (h : scan p true cs = .ok (t :: ts)) (ht : t.lexeme.isIndent = true) :
    t.span.start = p.offset := by
  cases cs with
  | nil => cases h; cases ht
  | cons c cs =>
    by_cases hc : c = '\t'
    · subst hc
      rw [scan_cons_tab] at h
      obtain ⟨us, _, hus⟩ := map_eq_ok_iff.1 h
      exact start_of_consIndent hus
    · rw [scan_of_head?_ne_tab p (by simpa using hc)] at h
      rw [isIndent_of_scan h rfl] at ht
      cases ht

theorem text_of_ofMark? {c : Char} {l : Lexeme} (h : Lexeme.ofMark? c = some l) : l.text = [c] := by
  unfold Lexeme.ofMark? at h
  split at h <;> cases h <;> rfl

theorem tiles_of_scan {p : Position} {fresh : Bool} {cs : List Char} {ts : List Token}
    (h : scan p fresh cs = .ok ts) : Tiles p cs ts := by
  fun_induction scan p fresh cs generalizing ts
  case case1 p _ =>
    cases h
    exact .endOfText (g := []) (List.forall_mem_nil _)
  case case2 ih =>
    obtain ⟨us, hus, rfl⟩ := map_eq_ok_iff.1 h
    exact .cons (w := ['\n']) rfl (List.cons_ne_nil _ _) (ih hus)
  case case3 htab ih =>
    obtain ⟨us, hus, rfl⟩ := map_eq_ok_iff.1 h
    obtain ⟨rfl, _⟩ := htab
    refine (ih hus).consIndent fun t ht hindent => ?_
    obtain ⟨us, rfl⟩ := List.head?_eq_some_iff.1 ht
    exact start_of_isIndent hus hindent
  case case4 hseparator ih => exact (ih h).separator hseparator
  case case5 ih =>
    obtain ⟨us, hus, rfl⟩ := map_eq_ok_iff.1 h
    exact (ih hus).consWordChar
  case case6 ih =>
    obtain ⟨us, hus, rfl⟩ := map_eq_ok_iff.1 h
    exact .cons (w := ['<', '-']) rfl (List.cons_ne_nil _ _) (ih hus)
  case case7 => cases h
  case case8 hmark ih =>
    obtain ⟨us, hus, rfl⟩ := map_eq_ok_iff.1 h
    exact .cons (text_of_ofMark? hmark) (List.cons_ne_nil _ _) (ih hus)
  case case9 => cases h

namespace Tiles

variable {p : Position} {cs : List Char} {ts : List Token}

theorem offset_le (h : Tiles p cs ts) : ∀ t ∈ ts, p.offset ≤ t.span.start := by
  induction h with
  | @endOfText p g _ =>
    have := p.offset_afterText g
    simp [Position.upTo]
    omega
  | @token p g l cs ts _ _ _ ih =>
    have hg := p.offset_afterText g
    have htext := p.offset_afterText (g ++ l.text)
    refine List.forall_mem_cons.2 ⟨?_, fun t ht => ?_⟩
    · simp only [Position.upTo]
      omega
    · have := ih t ht
      omega

theorem pairwise (h : Tiles p cs ts) : ts.Pairwise fun t u => t.span.stop ≤ u.span.start := by
  induction h with
  | endOfText => exact List.pairwise_singleton _ _
  | token _ _ hts ih => exact List.pairwise_cons.2 ⟨hts.offset_le, ih⟩

theorem exists_append_eq (h : Tiles p cs ts) {t : Token} (ht : t ∈ ts) : ∃ before behind,
    cs = before ++ t.lexeme.text ++ behind ∧
      t.span = (p.afterText before).upTo (p.afterText (before ++ t.lexeme.text)) := by
  induction h with
  | @endOfText p g _ =>
    obtain rfl := List.mem_singleton.1 ht
    exact ⟨g, [], by simp [Lexeme.text], by simp [Lexeme.text]⟩
  | @token p g l cs ts _ _ _ ih =>
    rcases List.mem_cons.1 ht with rfl | ht
    · exact ⟨g, cs, rfl, rfl⟩
    · obtain ⟨before, behind, rfl, hspan⟩ := ih ht
      refine ⟨g ++ l.text ++ before, behind, by simp, ?_⟩
      rw [hspan, List.append_assoc (g ++ l.text), Position.afterText_append p (g ++ l.text),
        Position.afterText_append p (g ++ l.text)]

end Tiles

variable {text : String} {ts : List Token}

theorem pairwise_of_ofText (h : ofText text = .ok ts) :
    ts.Pairwise fun t u => t.span.stop ≤ u.span.start :=
  (tiles_of_scan h).pairwise

theorem covers_of_mem (h : ofText text = .ok ts) {t : Token} (ht : t ∈ ts) :
    t.span.Covers text (String.ofList t.lexeme.text) := by
  obtain ⟨before, behind, htext, hspan⟩ := (tiles_of_scan h).exists_append_eq ht
  rw [hspan, ← String.ofList_toList (s := text), htext]
  exact Span.covers_upTo before t.lexeme.text behind

end Token

end InterfaceSchema
