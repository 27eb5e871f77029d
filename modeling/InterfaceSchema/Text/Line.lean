/-!
# Lines and joined texts

`lines` cuts a text after every line feed; a last piece without one counts
only if it is not empty. `pieces` are what stands between the separators of a
text, and `containsText` says whether one text occurs in another.
-/

namespace InterfaceSchema.Text

def consLine (c : Char) : List (List Char) → List (List Char)
  | [] => [[c]]
  | l :: ls => (c :: l) :: ls

/-- The lines of a text, without their line feeds. -/
def lines : List Char → List (List Char)
  | [] => []
  | c :: cs => if c = '\n' then [] :: lines cs else consLine c (lines cs)

theorem newline_not_mem_of_mem_lines {cs : List Char} {l : List Char} (h : l ∈ lines cs) :
    '\n' ∉ l := by
  induction cs generalizing l with
  | nil => simp [lines] at h
  | cons c cs ih =>
    simp only [lines] at h
    split at h
    · rcases List.mem_cons.1 h with rfl | h
      · simp
      · exact ih h
    · rename_i hc
      cases hls : lines cs with
      | nil =>
        simp only [hls, consLine, List.mem_singleton] at h
        subst h
        simpa using fun h => hc h.symm
      | cons d ds =>
        simp only [hls, consLine, List.mem_cons] at h
        rcases h with rfl | h
        · have := ih (l := d) (by simp [hls])
          simp only [List.mem_cons, not_or]
          exact ⟨fun h => hc h.symm, this⟩
        · exact ih (by simp [hls, h])

theorem lines_append_newline {l cs : List Char} (h : '\n' ∉ l) :
    lines (l ++ '\n' :: cs) = l :: lines cs := by
  induction l with
  | nil => simp [lines]
  | cons c l ih =>
    simp only [List.mem_cons, not_or] at h
    simp [lines, Ne.symm h.1, ih h.2, consLine]

/-- The texts between the separators. There is one more of them than there are
separators. -/
def pieces (separator : Char) : List Char → List (List Char)
  | [] => [[]]
  | c :: cs => if c = separator then [] :: pieces separator cs else consLine c (pieces separator cs)

theorem pieces_ne_nil (separator : Char) (cs : List Char) : pieces separator cs ≠ [] := by
  cases cs with
  | nil => simp [pieces]
  | cons c cs =>
    simp only [pieces]
    split
    · simp
    · cases pieces separator cs <;> simp [consLine]

def containsText (whole part : List Char) : Bool :=
  part.isPrefixOf whole ||
    match whole with
    | [] => false
    | _ :: rest => containsText rest part

end InterfaceSchema.Text
