/-!
# Positions and spans

A `Position` is a place between two characters of a text: its offset in UTF-8
bytes, its line and its column, both counted from one, columns in characters.
A `Span` is a piece of text: the offsets of its two ends, and the line and the
column where it begins.
-/

namespace InterfaceSchema

structure Span where
  start : Nat := 0
  stop : Nat := 0
  line : Nat := 0
  column : Nat := 0
  deriving DecidableEq, Repr, Inhabited

structure Position where
  offset : Nat := 0
  line : Nat := 1
  column : Nat := 1
  deriving DecidableEq, Repr, Inhabited

namespace Position

def after (p : Position) (c : Char) : Position :=
  if c = '\n' then ⟨p.offset + c.utf8Size, p.line + 1, 1⟩
  else ⟨p.offset + c.utf8Size, p.line, p.column + 1⟩

/-- The position behind a text. -/
def afterText (p : Position) (cs : List Char) : Position := cs.foldl after p

def upTo (p q : Position) : Span := ⟨p.offset, q.offset, p.line, p.column⟩

@[simp] theorem afterText_nil (p : Position) : p.afterText [] = p := rfl

@[simp] theorem afterText_cons (p : Position) (c : Char) (cs : List Char) :
    p.afterText (c :: cs) = (p.after c).afterText cs := rfl

theorem afterText_append (p : Position) (cs ds : List Char) :
    p.afterText (cs ++ ds) = (p.afterText cs).afterText ds := List.foldl_append

theorem offset_lt_after (p : Position) (c : Char) : p.offset < (p.after c).offset := by
  have := c.utf8Size_pos
  unfold after
  split <;> simp_all

end Position

end InterfaceSchema
