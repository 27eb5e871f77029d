import InterfaceSchema.Schema.Basic
import InterfaceSchema.Token

/-!
# Printing schemas

`Program.lines` are the lines of a program: the steps of indentation and the
lexemes of each. A template stands on the line of its header, the lines of its
body one step further, and a line `end`; every other statement stands on one
line. `Program.text` is the text of these lines, with a space behind a colon or a
comma and between two words.
-/

namespace InterfaceSchema

def Operator.lexeme : Operator → Lexeme
  | member => .dot
  | derivesFrom => .arrow

def RelationKind.lexemes : RelationKind → List Lexeme
  | mapToMany => [.word "mapto", .word "many"]
  | mapTo => [.word "mapto"]
  | structures => [.word "structures"]
  | constrains => [.word "constrains"]

def Identifier.lexeme (id : Identifier) : Lexeme := .word id.name

def Expr.lexemes : Expr → List Lexeme
  | name id => [id.lexeme]
  | binary op left right => left.lexemes ++ op.lexeme :: right.lexemes

/-- Names in parentheses, with commas between them. -/
def Identifier.listLexemes (ids : List Identifier) : List Lexeme :=
  .openParen :: (ids.map Identifier.lexeme).intersperse .comma ++ [.closeParen]

def Decorator.lexemes : Decorator → List Lexeme
  | tag id => [id.lexeme, .colon]
  | call template args => template.lexeme :: Identifier.listLexemes args ++ [.colon]

def Definition.lexemes (d : Definition) : List Lexeme :=
  d.decorators.flatMap Decorator.lexemes ++ [d.id.lexeme]

def Operand.lexemes : Operand → List Lexeme
  | definition d => d.lexemes
  | expr e => e.lexemes

/-- What a word introduces, if it is there. -/
def Lexeme.introduced {α : Type} (word : String) (lexemes : α → List Lexeme) :
    Option α → List Lexeme
  | none => []
  | some a => .word word :: lexemes a

def WithExpr.lexemes (w : WithExpr) : List Lexeme :=
  w.left.lexemes ++ Lexeme.introduced "with" Expr.lexemes w.right

/-- The header of a template, introduced by `word`. -/
def Header.lexemes (word : String) (h : Header) : List Lexeme :=
  .word word :: h.id.lexeme :: ((h.params.map Identifier.listLexemes).getD [] ++
    Lexeme.introduced "extends" (fun id => [Identifier.lexeme id]) h.base ++ [.colon])

structure Line where
  depth : Nat
  lexemes : List Lexeme
  deriving DecidableEq, Repr, Inhabited

mutual
def Statement.linesAt (depth : Nat) : Statement → List Line
  | .relation left kind right => [⟨depth, left.lexemes ++ kind.lexemes ++ right.lexemes⟩]
  | .cover left middle right =>
    [⟨depth, left.lexemes ++ .word "cover" :: middle.lexemes ++ .word "along" :: right.lexemes⟩]
  | .represents view data shape =>
    [⟨depth, view.lexemes ++ .word "represents" :: data.lexemes ++
      Lexeme.introduced "as" WithExpr.lexemes shape⟩]
  | .template header body =>
    ⟨depth, header.lexemes "pattern"⟩ :: Statement.linesAtAll (depth + 1) body ++
      [⟨depth, [.word "end"]⟩]
  | .definition d => [⟨depth, d.lexemes⟩]
  | .term e => [⟨depth, e.lexemes⟩]

def Statement.linesAtAll (depth : Nat) : List Statement → List Line
  | [] => []
  | s :: ss => Statement.linesAt depth s ++ Statement.linesAtAll depth ss
end

def Program.lines (p : Program) : List Line := Statement.linesAtAll 0 p.statements

namespace Lexeme

def text : Lexeme → List Char
  | word name => name.toList
  | colon => [':']
  | openParen => ['(']
  | closeParen => [')']
  | comma => [',']
  | dot => ['.']
  | arrow => ['<', '-']
  | indent depth => List.replicate depth '\t'
  | lineEnd => ['\n']
  | endOfText => []

/-- A space stands behind this lexeme before a word. -/
def wantsSpace : Lexeme → Bool
  | word _ | colon | comma | closeParen => true
  | _ => false

end Lexeme

def Line.textOf : List Lexeme → List Char
  | [] => []
  | [l] => l.text
  | l :: m :: ls =>
    l.text ++ (if l.wantsSpace && m.isWord then [' '] else []) ++ Line.textOf (m :: ls)

def Line.text (l : Line) : List Char :=
  List.replicate l.depth '\t' ++ Line.textOf l.lexemes ++ ['\n']

def Program.text (p : Program) : String := String.ofList (p.lines.flatMap Line.text)

end InterfaceSchema
