import InterfaceSchema.Proofs.Reading.Layout
import Mathlib.Data.List.TakeWhile

/-!
# Trimmed texts

`IsStripped` and `IsTrimmed` say of two texts that one is the other without the blank
characters at its end, or at both ends. They hold of what `stripEnd` and `strip` give and
of nothing else.
-/

namespace InterfaceSchema.Text

/-- A text without the blank characters at its end. -/
structure IsStripped (text body : String) : Prop where
  exists_blanks : ∃ blanks, text.toList = body.toList ++ blanks ∧ ∀ c ∈ blanks, isBlank c = true
  getLast? : ∀ c ∈ body.toList.getLast?, isBlank c = false

theorem isStripped_stripEnd (text : String) : IsStripped text (stripEnd text) := by
  constructor
  · rw [stripEnd, String.toList_ofList]
    exact exists_trimEnd_append text.toList
  · rw [stripEnd, String.toList_ofList]
    exact isBlank_getLast?_trimEnd text.toList

theorem trimEnd_eq_self_of_getLast? {cs : List Char} (h : ∀ c ∈ cs.getLast?, isBlank c = false) :
    trimEnd cs = cs := by
  cases hlast : cs.getLast? with
  | none =>
    rw [List.getLast?_eq_none_iff.1 hlast]
    rfl
  | some c =>
    obtain ⟨ds, rfl⟩ := List.getLast?_eq_some_iff.1 hlast
    exact trimEnd_eq_self (h c hlast)

theorem isStripped_iff {text body : String} : IsStripped text body ↔ stripEnd text = body := by
  constructor
  · rintro ⟨⟨blanks, htext, hblanks⟩, hlast⟩
    rw [stripEnd, htext, trimEnd_append_of_blank hblanks, trimEnd_eq_self_of_getLast? hlast,
      String.ofList_toList]
  · rintro rfl
    exact isStripped_stripEnd text

/-- A text without the blank characters at its ends. -/
structure IsTrimmed (text part : String) : Prop where
  exists_blanks : ∃ before behind, text.toList = before ++ part.toList ++ behind ∧
    (∀ c ∈ before, isBlank c = true) ∧ ∀ c ∈ behind, isBlank c = true
  head? : ∀ c ∈ part.toList.head?, isBlank c = false
  getLast? : ∀ c ∈ part.toList.getLast?, isBlank c = false

theorem isTrimmed_strip (text : String) : IsTrimmed text (strip text) := by
  obtain ⟨behind, hbehind, hblanks⟩ := exists_trimEnd_append (trimStart text.toList)
  constructor
  · refine ⟨text.toList.takeWhile isBlank, behind, ?_, ?_, hblanks⟩
    · rw [strip, trim, String.toList_ofList, List.append_assoc, ← hbehind, trimStart,
        List.takeWhile_append_dropWhile]
    · exact List.all_eq_true.1 List.all_takeWhile
  · intro c hc
    rw [strip, trim, String.toList_ofList] at hc
    obtain ⟨cs, hcs⟩ := List.head?_eq_some_iff.1 hc
    -- What is left begins with the first character that is not blank.
    have hfirst := List.head?_dropWhile_not isBlank text.toList
    rw [trimStart] at hbehind hcs
    rw [hbehind, hcs] at hfirst
    simpa using hfirst
  · rw [strip, trim, String.toList_ofList]
    exact isBlank_getLast?_trimEnd _

theorem isTrimmed_iff {text part : String} : IsTrimmed text part ↔ strip text = part := by
  constructor
  · rintro ⟨⟨before, behind, htext, hbefore, hbehind⟩, hfirst, hlast⟩
    have htrim : trim text.toList = part.toList := by
      rw [trim, trimStart, htext, List.append_assoc, List.dropWhile_append_of_pos hbefore]
      cases hpart : part.toList with
      | nil => rw [List.nil_append, List.dropWhile_eq_nil_iff.2 hbehind, trimEnd]
      | cons c cs =>
        have hc : ¬isBlank c = true := by
          rw [hfirst c (by rw [hpart, List.head?_cons]; rfl)]
          exact Bool.false_ne_true
        rw [List.cons_append, List.dropWhile_cons_of_neg hc, ← List.cons_append, ← hpart,
          trimEnd_append_of_blank hbehind, trimEnd_eq_self_of_getLast? hlast]
    rw [strip, htrim, String.ofList_toList]
  · rintro rfl
    exact isTrimmed_strip text

end InterfaceSchema.Text
