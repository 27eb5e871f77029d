import InterfaceSchema.Schema.Reader

/-!
# Reading with a cursor

The rules of `Reader` once more, over all tokens of a text and a cursor that points at
one of them. A `Rule` only sees the tokens that are left, and stops by its definition;
here is said what that leaves out. A token is looked up by its index, past the last one
this is the last one, and there may be none at all. A definition without decorators is
not built. A loop takes so many steps and no more. What would go wrong there is a `Stop`
of its own beside the errors of the text.
-/

namespace InterfaceSchema

/-- Why reading stops. -/
inductive Stop where
  | failed (e : SyntaxError)
  /-- A definition is about to be built without decorators. -/
  | undecorated (id : Identifier)
  /-- A token is looked up in a list that has none. -/
  | noTokens
  /-- A loop is still going on. -/
  | endless

/-- What has been read or why reading stops, with the cursor behind it. -/
abbrev CursorM := EStateM Stop Nat

namespace Cursor

open Reader (isTemplateWord alone OpenTemplate Nesting)

/-- Steps until one says that it was the last, but no more than the bound. -/
def loop {σ α : Type} (step : σ → CursorM (σ ⊕ α)) : Nat → σ → CursorM α
  | 0, _ => throw .endless
  | n + 1, s => do
    match ← step s with
    | .inl s => loop step n s
    | .inr a => return a

variable (ts : List Token)

/-! ## The grammar -/

/-- The token so far ahead of the cursor. -/
def peek (ahead : Nat) : CursorM Token := fun i =>
  match ts[i + ahead]?.or ts.getLast? with
  | some t => .ok t i
  | none => .error .noTokens i

/-- Takes the token at the cursor, which moves on unless it is past the last one. -/
def advance : CursorM Token := do
  let t ← peek ts 0
  modify fun i => if i < ts.length then i + 1 else i
  return t

def fail {α : Type} (expected : String) : CursorM α := do
  let t ← peek ts 0
  throw (.failed (.at t expected))

def nextIs (l : Lexeme) : CursorM Bool := do
  let t ← peek ts 0
  return t.lexeme == l

def accept (l : Lexeme) : CursorM Bool := do
  if ← nextIs ts l then
    let _ ← advance ts
    return true
  else return false

def exactly (l : Lexeme) : CursorM Unit := do
  if ← accept ts l then return () else fail ts l.describe

def identifier : CursorM Identifier := do
  let t ← peek ts 0
  match t.lexeme with
  | .word name =>
    let t ← advance ts
    return ⟨name, t.span⟩
  | _ => fail ts "identifier"

def acceptIndent : CursorM Bool := do
  let t ← peek ts 0
  if t.lexeme.isIndent then
    let _ ← advance ts
    return true
  else return false

def lineEnd : CursorM Unit := do
  if ← accept ts .lineEnd then return ()
  else if ← nextIs ts .endOfText then return ()
  else fail ts "end of line"

def skipLineEndsStep (_ : Unit) : CursorM (Unit ⊕ Unit) := do
  if ← accept ts .lineEnd then return .inl () else return .inr ()

def skipLineEnds : CursorM Unit := loop (skipLineEndsStep ts) ts.length ()

def exprStep (left : Expr) : CursorM (Expr ⊕ Expr) := do
  if ← accept ts .dot then
    let id ← identifier ts
    return .inl (.binary .member left (.name id))
  else if ← accept ts .arrow then
    let id ← identifier ts
    return .inl (.binary .derivesFrom left (.name id))
  else return .inr left

def expr : CursorM Expr := do
  let id ← identifier ts
  loop (exprStep ts) ts.length (.name id)

def argumentsStep (args : List Identifier) : CursorM (List Identifier ⊕ List Identifier) := do
  if ← accept ts .comma then
    let id ← identifier ts
    return .inl (args ++ [id])
  else
    exactly ts .closeParen
    return .inr args

def arguments : CursorM (List Identifier) := do
  let opening ← peek ts 0
  exactly ts .openParen
  if ← nextIs ts .closeParen then throw (.failed (.emptyArguments opening.span))
  else
    let first ← identifier ts
    loop (argumentsStep ts) ts.length [first]

def definitionPart : CursorM (Decorator ⊕ Identifier) := do
  let id ← identifier ts
  if ← nextIs ts .openParen then
    let args ← arguments ts
    exactly ts .colon
    return .inl (.call id args)
  else if ← accept ts .colon then return .inl (.tag id)
  else return .inr id

def definitionStep (ds : List Decorator) : CursorM (List Decorator ⊕ Definition) := do
  match ← definitionPart ts with
  | .inl d => return .inl (ds ++ [d])
  | .inr id =>
    match Definition.ofDecorators? ds id with
    | some d => return .inr d
    | none => throw (.undecorated id)

def definition : CursorM Definition := loop (definitionStep ts) ts.length []

def opensDefinition : CursorM Bool := do
  let t ← peek ts 0
  let u ← peek ts 1
  return t.lexeme.isWord && (u.lexeme == .colon || u.lexeme == .openParen)

def operand : CursorM Operand := do
  if ← opensDefinition ts then .definition <$> definition ts else .expr <$> expr ts

def relationKeyword : CursorM (Option RelationKind) := do
  let t ← peek ts 0
  if t.lexeme = .word "mapto" then
    let u ← peek ts 1
    let v ← peek ts 2
    let _ ← advance ts
    if u.lexeme = .word "many" ∧ v.lexeme.isWord = true then
      let _ ← advance ts
      return some .mapToMany
    else return some .mapTo
  else if t.lexeme = .word "structures" then
    let _ ← advance ts
    return some .structures
  else if t.lexeme = .word "constrains" then
    let _ ← advance ts
    return some .constrains
  else return none

def withExpr : CursorM WithExpr := do
  let left ← expr ts
  if ← accept ts (.word "with") then
    let right ← expr ts
    return ⟨left, some right⟩
  else return ⟨left, none⟩

def simpleStatement : CursorM Statement := do
  let left ← operand ts
  match ← relationKeyword ts with
  | some kind =>
    let right ← expr ts
    return .relation left kind right
  | none =>
    if ← accept ts (.word "cover") then
      let middle ← expr ts
      exactly ts (.word "along")
      let right ← expr ts
      return .cover left middle right
    else if ← accept ts (.word "represents") then
      let data ← withExpr ts
      if ← accept ts (.word "as") then
        let shape ← withExpr ts
        return .represents left data (some shape)
      else return .represents left data none
    else return alone left

def opensTemplate : CursorM Bool := do
  let t ← peek ts 0
  let name ← peek ts 1
  let u ← peek ts 2
  let base ← peek ts 3
  let v ← peek ts 4
  return isTemplateWord t.lexeme && name.lexeme.isWord &&
    (u.lexeme == .openParen || u.lexeme == .colon ||
      u.lexeme == .word "extends" && base.lexeme.isWord && v.lexeme == .colon)

def parameters : CursorM (Option (List Identifier)) := do
  if ← nextIs ts .openParen then some <$> arguments ts else return none

def baseTemplate : CursorM (Option Identifier) := do
  if ← accept ts (.word "extends") then some <$> identifier ts else return none

def header : CursorM Header := do
  let _ ← advance ts
  let id ← identifier ts
  let params ← parameters ts
  let base ← baseTemplate ts
  exactly ts .colon
  if ← accept ts .lineEnd then return ⟨id, params, base⟩
  else fail ts "end of line after pattern header"

def bodyLineEnd (t : OpenTemplate) : CursorM Unit := do
  if ← accept ts .lineEnd then return ()
  else if ← nextIs ts .endOfText then fail ts t.closing
  else fail ts "end of line"

def atEnd : CursorM Bool := do
  let t ← peek ts 0
  let u ← peek ts 1
  return t.lexeme == .word "end" && u.lexeme.endsLine

def closeTemplate : Nesting → CursorM (Nesting ⊕ Statement)
  | ⟨inner, outer⟩ => do
    if inner.body.isEmpty then
      let t ← peek ts 0
      throw (.failed (.emptyBody inner.header.id.name t.span))
    else
      exactly ts (.word "end")
      match outer with
      | [] => return .inr inner.close
      | up :: outer =>
        bodyLineEnd ts up
        return .inl ⟨up.add inner.close, outer⟩

def bodyLine : Nesting → CursorM (Nesting ⊕ Statement)
  | ⟨inner, outer⟩ => do
    if ← opensTemplate ts then
      let h ← header ts
      return .inl ⟨⟨h, []⟩, inner :: outer⟩
    else
      let s ← simpleStatement ts
      bodyLineEnd ts inner
      return .inl ⟨inner.add s, outer⟩

def bodyStep (n : Nesting) : CursorM (Nesting ⊕ Statement) := do
  let indented ← acceptIndent ts
  if ← atEnd ts then closeTemplate ts n
  else if ← nextIs ts .endOfText then fail ts n.inner.closing
  else if indented then bodyLine ts n
  else fail ts "indented statement or 'end'"

def template : CursorM Statement := do
  let h ← header ts
  loop (bodyStep ts) ts.length ⟨⟨h, []⟩, []⟩

def statement : CursorM Statement := do
  if ← opensTemplate ts then template ts else simpleStatement ts

def programStep (ss : List Statement) : CursorM (List Statement ⊕ Program) := do
  skipLineEnds ts
  if ← nextIs ts .endOfText then return .inr ⟨ss⟩
  else
    let t ← peek ts 0
    if t.lexeme.isIndent then throw (.failed (.strayIndentation t.span))
    else
      let s ← statement ts
      lineEnd ts
      return .inl (ss ++ [s])

def program : CursorM Program := loop (programStep ts) ts.length []

end Cursor

end InterfaceSchema
