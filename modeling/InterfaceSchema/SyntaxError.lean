import InterfaceSchema.Span

/-!
# Errors of form

A `SyntaxError` says what is wrong with the form of a schema and where, what
could have stood there and what was found. `display` is its one-line text;
`reason` adds hints for the author of the schema.
-/

namespace InterfaceSchema

structure SyntaxError where
  message : String
  span : Span
  expected : Option (List String) := none
  found : Option String := none
  deriving DecidableEq, Repr, Inhabited

namespace SyntaxError

def line (e : SyntaxError) : Nat := e.span.line

def column (e : SyntaxError) : Nat := e.span.column

def unexpectedEnd (span : Span) (expected : String) : SyntaxError where
  message := "unexpected end of input, expected " ++ expected
  span := span
  expected := some [expected]
  found := some "end of input"

def unexpectedToken (span : Span) (expected found : String) : SyntaxError where
  message := "expected " ++ expected ++ ", found " ++ found
  span := span
  expected := some [expected]
  found := some found

/-- A `<` that does not begin an arrow. -/
def loneArrowHead (span : Span) : SyntaxError where
  message := "unexpected character '<', did you mean '<-'?"
  span := span
  expected := some ["'<-'"]
  found := some "'<'"

def strayCharacter (c : Char) (span : Span) : SyntaxError where
  message := "unexpected character '" ++ c.toString ++ "'"
  span := span
  found := some ("'" ++ c.toString ++ "'")

/-- The span is that of the opening parenthesis. -/
def emptyArguments (span : Span) : SyntaxError where
  message := "argument list must not be empty"
  span := span
  expected := some ["identifier"]
  found := some "')'"

def strayIndentation (span : Span) : SyntaxError where
  message := "unexpected indentation outside a pattern body"
  span := span
  expected := some ["statement"]
  found := some "indentation"

def emptyBody (template : String) (span : Span) : SyntaxError where
  message := "pattern '" ++ template ++ "' must contain at least one statement"
  span := span

/-- A text that should be one statement holds another number of them. -/
def notOneStatement (count : Nat) : SyntaxError where
  message := "expected exactly one statement, found " ++ toString count
  span := {}

def display (e : SyntaxError) : String :=
  "Parse error at line " ++ toString e.span.line ++ ", column " ++ toString e.span.column ++
    ": " ++ e.message

def hints : String :=
  "Did you make sure to use backward arrows (`<-`)?\n" ++
  "Indent every line of a pattern body and close it with 'end'?\n" ++
  "Remove inline comments? (only whole-line '%' comments are allowed)"

def reason (e : SyntaxError) : String :=
  "[Failed!]\n\n" ++ hints ++ "\n\nHere's what the parser has to say about it:\n" ++ e.display

end SyntaxError

end InterfaceSchema
