import InterfaceSchema.Text.Blank
import InterfaceSchema.Text.Line

/-!
# Canonical layout

Source text is brought into one layout before it is read. Blank lines and
whole-line comments disappear, one tab stands for each step of indentation,
and nothing blank is left at the end of a line. A step of indentation is a tab,
four spaces or two spaces, whichever comes first in this order. `canonical` is
the text in that layout; it is never empty.
-/

namespace InterfaceSchema.Layout

open Text

def commentMark : Char := '%'

/-- The line holds something, and that is not a comment. -/
def isSignificant (line : List Char) : Bool :=
  match trimStart line with
  | [] => false
  | c :: _ => c != commentMark

/-- The steps of indentation of a line, and its text after them. A single space
before the text is no step and belongs to neither. -/
def indentation : List Char → Nat × List Char
  | '\t' :: cs => let (depth, rest) := indentation cs; (depth + 1, rest)
  | ' ' :: ' ' :: ' ' :: ' ' :: cs => let (depth, rest) := indentation cs; (depth + 1, rest)
  | ' ' :: ' ' :: cs => let (depth, rest) := indentation cs; (depth + 1, rest)
  | ' ' :: cs => (0, cs)
  | cs => (0, cs)

def canonicalLine (line : List Char) : List Char :=
  let (depth, rest) := indentation line
  List.replicate depth '\t' ++ trimEnd rest ++ ['\n']

/-- The lines of a text that are neither blank nor a comment. -/
def significantLines (cs : List Char) : List (List Char) := (lines cs).filter isSignificant

def canonicalText (cs : List Char) : List Char :=
  match (significantLines cs).flatMap canonicalLine with
  | [] => ['\n']
  | c :: out => c :: out

def canonical (source : String) : String := String.ofList (canonicalText source.toList)

end InterfaceSchema.Layout
