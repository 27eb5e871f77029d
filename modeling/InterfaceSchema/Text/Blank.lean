/-!
# Blank characters

`isBlank` is the property `White_Space` of the Unicode Character Database.
`trimStart`, `trimEnd` and `trim` drop the blank characters at the ends of a
text; a text is a list of characters here, and `stripEnd` and `strip` are the
same operations on strings.
-/

namespace InterfaceSchema.Text

/-- The character has the Unicode property `White_Space`. -/
def isBlank (c : Char) : Bool :=
  let n := c.toNat
  (9 ≤ n && n ≤ 13) || n == 0x20 || n == 0x85 || n == 0xA0 || n == 0x1680 ||
    (0x2000 ≤ n && n ≤ 0x200A) || n == 0x2028 || n == 0x2029 || n == 0x202F ||
    n == 0x205F || n == 0x3000

def trimStart (cs : List Char) : List Char := cs.dropWhile isBlank

def trimEnd : List Char → List Char
  | [] => []
  | c :: cs =>
    match trimEnd cs with
    | [] => if isBlank c then [] else [c]
    | d :: ds => c :: d :: ds

def trim (cs : List Char) : List Char := trimEnd (trimStart cs)

def stripEnd (s : String) : String := String.ofList (trimEnd s.toList)

def strip (s : String) : String := String.ofList (trim s.toList)

theorem trimEnd_append_of_blank {cs bs : List Char} (h : ∀ b ∈ bs, isBlank b = true) :
    trimEnd (cs ++ bs) = trimEnd cs := by
  induction cs with
  | nil =>
    induction bs with
    | nil => rfl
    | cons b bs ih =>
      have hb := h b (by simp)
      have := ih fun x hx => h x (by simp [hx])
      simp only [List.nil_append] at this ⊢
      simp [trimEnd, this, hb]
  | cons c cs ih => simp [trimEnd, ih]

theorem exists_trimEnd_append (cs : List Char) :
    ∃ blanks, cs = trimEnd cs ++ blanks ∧ ∀ b ∈ blanks, isBlank b = true := by
  induction cs with
  | nil => exact ⟨[], rfl, List.forall_mem_nil _⟩
  | cons c cs ih =>
    obtain ⟨blanks, hcs, hblanks⟩ := ih
    cases htrim : trimEnd cs with
    | nil =>
      rw [htrim, List.nil_append] at hcs
      subst hcs
      by_cases hc : isBlank c = true
      · exact ⟨c :: cs, by simp [trimEnd, htrim, hc], List.forall_mem_cons.2 ⟨hc, hblanks⟩⟩
      · exact ⟨cs, by simp [trimEnd, htrim, hc], hblanks⟩
    | cons d ds =>
      rw [htrim] at hcs
      exact ⟨blanks, by simp [trimEnd, htrim, ← hcs], hblanks⟩

theorem isBlank_getLast?_trimEnd (cs : List Char) :
    ∀ c ∈ (trimEnd cs).getLast?, isBlank c = false := by
  induction cs with
  | nil => exact fun c hc => by cases hc
  | cons c cs ih =>
    rw [trimEnd]
    split
    · split
      · exact fun d hd => by cases hd
      · rename_i hc
        rintro d hd
        obtain rfl : c = d := by simpa using hd
        simpa using hc
    · rename_i d ds htrim
      rw [htrim] at ih
      rwa [List.getLast?_cons_cons]

end InterfaceSchema.Text
