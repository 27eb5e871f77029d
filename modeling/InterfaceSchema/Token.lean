import InterfaceSchema.SyntaxError

/-!
# Tokens

A `Lexeme` is what a token says, a `Token` is a lexeme with its place in the
text. `Token.ofText` cuts a text into tokens. Words are runs of ASCII letters,
digits and underscores; no word is reserved. The tabs at the start of a line
are one token of indentation, other spaces, tabs and carriage returns separate
tokens, and the list ends with the one token `endOfText`.
-/

namespace InterfaceSchema

inductive Lexeme where
  | word (name : String)
  | colon
  | openParen
  | closeParen
  | comma
  | dot
  | arrow
  | indent (depth : Nat)
  | lineEnd
  | endOfText
  deriving DecidableEq, Repr, Inhabited

namespace Lexeme

def kindName : Lexeme → String
  | word _ => "identifier"
  | colon => "':'"
  | openParen => "'('"
  | closeParen => "')'"
  | comma => "','"
  | dot => "'.'"
  | arrow => "'<-'"
  | indent _ => "indentation"
  | lineEnd => "end of line"
  | endOfText => "end of input"

/-- The name in messages: a word is shown itself. -/
def describe : Lexeme → String
  | word name => "'" ++ name ++ "'"
  | l => l.kindName

def ofMark? : Char → Option Lexeme
  | ':' => some colon
  | '(' => some openParen
  | ')' => some closeParen
  | ',' => some comma
  | '.' => some dot
  | _ => none

def isIndent : Lexeme → Bool
  | indent _ => true
  | _ => false

def isWord : Lexeme → Bool
  | word _ => true
  | _ => false

/-- A statement may stop before this lexeme. -/
def endsLine : Lexeme → Bool
  | lineEnd | endOfText => true
  | _ => false

end Lexeme

structure Token where
  lexeme : Lexeme
  span : Span
  deriving DecidableEq, Repr, Inhabited

/-- The error that `expected` should stand where the token stands. -/
def SyntaxError.at (t : Token) (expected : String) : SyntaxError :=
  if t.lexeme = .endOfText then unexpectedEnd t.span expected
  else unexpectedToken t.span expected t.lexeme.describe

namespace Token

def isWordChar (c : Char) : Bool := c.isAlphanum || c == '_'

/-- The characters that only separate tokens. -/
def isSeparator (c : Char) : Bool := c == ' ' || c == '\t' || c == '\r'

/-- Puts a word character, whose span is given, in front of tokens: it joins
the word that begins right behind it. -/
def consWordChar (c : Char) (s : Span) : List Token → List Token
  | ⟨.word name, t⟩ :: ts =>
    if t.start = s.stop then ⟨.word (c.toString ++ name), { s with stop := t.stop }⟩ :: ts
    else ⟨.word c.toString, s⟩ :: ⟨.word name, t⟩ :: ts
  | ts => ⟨.word c.toString, s⟩ :: ts

/-- Puts a tab that starts a line in front of tokens: it joins the indentation
behind it. -/
def consIndent (s : Span) : List Token → List Token
  | ⟨.indent depth, t⟩ :: ts => ⟨.indent (depth + 1), { s with stop := t.stop }⟩ :: ts
  | ts => ⟨.indent 1, s⟩ :: ts

/-- The tokens of a text that begins at `p`; `fresh` says that only tabs stand
before `p` on its line. -/
def scan (p : Position) (fresh : Bool) : List Char → Except SyntaxError (List Token)
  | [] => .ok [⟨.endOfText, p.upTo p⟩]
  | c :: cs =>
    let q := p.after c
    if c = '\n' then (⟨.lineEnd, p.upTo q⟩ :: ·) <$> scan q true cs
    else if c = '\t' ∧ fresh = true then consIndent (p.upTo q) <$> scan q true cs
    else if isSeparator c then scan q false cs
    else if isWordChar c then consWordChar c (p.upTo q) <$> scan q false cs
    else if c = '<' then
      match cs with
      | '-' :: cs =>
        let r := q.after '-'
        (⟨.arrow, p.upTo r⟩ :: ·) <$> scan r false cs
      | _ => .error (.loneArrowHead (p.upTo q))
    else
      match Lexeme.ofMark? c with
      | some l => (⟨l, p.upTo q⟩ :: ·) <$> scan q false cs
      | none => .error (.strayCharacter c (p.upTo q))

def ofText (text : String) : Except SyntaxError (List Token) := scan {} true text.toList

end Token

end InterfaceSchema
