import InterfaceSchema.Layout
import InterfaceSchema.Schema.Basic
import InterfaceSchema.Schema.Rule

/-!
# Reading schemas

The rules of the grammar. Keywords are words recognised by their place: a word
that opens no template, no definition and no relation is a name. Templates nest:
the ones still open wait in a `Nesting`, and every line of a body belongs to the
innermost.

`Reader.statement` and `Reader.program` are the rules for one statement and for
all of them; `Program.ofText` reads a schema and `Statement.ofText` a schema of
one statement.
-/

namespace InterfaceSchema

namespace Reader

def next (ts : List Token) : Token := ts.headD ⟨.endOfText, {}⟩

/-- Fails because something else should stand at the front. -/
def fail {α : Type} (expected : String) : Rule α := fun ts => .error (.at (next ts) expected) ts

def nextIs (l : Lexeme) : Rule Bool := fun ts => .ok ((next ts).lexeme == l) ts

/-- Reads the lexeme if it is at the front, and says whether it was. -/
def accept (l : Lexeme) : Rule Bool
  | [] => .ok false []
  | t :: rest => if t.lexeme = l then .ok true rest else .ok false (t :: rest)

def exactly (l : Lexeme) : Rule Unit
  | [] => fail l.describe []
  | t :: rest => if t.lexeme = l then .ok () rest else fail l.describe (t :: rest)

def skip : Rule Unit := fun ts => .ok () ts.tail

def identifier : Rule Identifier
  | ⟨.word name, span⟩ :: rest => .ok ⟨name, span⟩ rest
  | ts => fail "identifier" ts

/-- Reads indentation if it is at the front, and says whether it was. -/
def acceptIndent : Rule Bool
  | ⟨.indent _, _⟩ :: rest => .ok true rest
  | ts => .ok false ts

/-- The end of the text also ends a line. -/
def lineEnd : Rule Unit
  | ⟨.lineEnd, _⟩ :: rest => .ok () rest
  | ts => if (next ts).lexeme = .endOfText then .ok () ts else fail "end of line" ts

def skipLineEnds : Rule Unit := fun ts => .ok () (ts.dropWhile (·.lexeme == .lineEnd))

theorem keeps_fail {α : Type} (expected : String) : (fail expected : Rule α).Keeps := by
  intro ts a rest h
  cases h

theorem keeps_nextIs (l : Lexeme) : (nextIs l).Keeps := by
  intro ts a rest h
  cases h
  exact Nat.le_refl _

theorem keeps_accept (l : Lexeme) : (accept l).Keeps := by
  intro ts a rest h
  cases ts with
  | nil => cases h; exact Nat.le_refl _
  | cons t ts =>
    simp only [accept] at h
    split at h <;> cases h <;> simp

theorem shrinks_exactly (l : Lexeme) : (exactly l).Shrinks := by
  intro ts a rest h
  cases ts with
  | nil => cases h
  | cons t ts =>
    simp only [exactly, fail] at h
    split at h <;> cases h
    simp

theorem keeps_skip : skip.Keeps := by
  intro ts a rest h
  cases h
  simp

theorem shrinks_identifier : identifier.Shrinks := by
  intro ts a rest h
  unfold identifier at h
  split at h <;> cases h
  simp

theorem keeps_acceptIndent : acceptIndent.Keeps := by
  intro ts a rest h
  unfold acceptIndent at h
  split at h <;> cases h <;> simp

theorem keeps_lineEnd : lineEnd.Keeps := by
  intro ts a rest h
  unfold lineEnd at h
  split at h
  · cases h; simp
  · split at h <;> cases h
    exact Nat.le_refl _

theorem keeps_skipLineEnds : skipLineEnds.Keeps := by
  intro ts a rest h
  cases h
  exact (List.dropWhile_sublist _).length_le

/-! ## Expressions and definitions -/

def operator? : Lexeme → Option Operator
  | .dot => some .member
  | .arrow => some .derivesFrom
  | _ => none

/-- The operators behind an expression, which is the left operand of the first. -/
def exprTail (left : Expr) : List Token → EStateM.Result SyntaxError (List Token) Expr
  | [] => .ok left []
  | t :: rest =>
    match operator? t.lexeme with
    | none => .ok left (t :: rest)
    | some op =>
      match rest with
      | ⟨.word name, span⟩ :: rest => exprTail (.binary op left (.name ⟨name, span⟩)) rest
      | rest => fail "identifier" rest

def expr : Rule Expr := do
  let id ← identifier
  exprTail (.name id)

/-- The arguments behind the first ones, up to the closing parenthesis. -/
def argumentsTail (args : List Identifier) :
    List Token → EStateM.Result SyntaxError (List Token) (List Identifier)
  | ⟨.comma, _⟩ :: ⟨.word name, span⟩ :: rest => argumentsTail (args ++ [⟨name, span⟩]) rest
  | ⟨.comma, _⟩ :: rest => fail "identifier" rest
  | ⟨.closeParen, _⟩ :: rest => .ok args rest
  | ts => fail Lexeme.closeParen.describe ts

/-- A list of names in parentheses, which is not empty. -/
def arguments : Rule (List Identifier) := do
  let opening ← get
  exactly .openParen
  if ← nextIs .closeParen then
    throw (.emptyArguments (next opening).span)
  else
    let first ← identifier
    argumentsTail [first]

theorem keeps_exprTail (left : Expr) : Rule.Keeps (exprTail left) := by
  intro ts a rest h
  fun_induction exprTail left ts with
  | case1 => cases h; exact Nat.le_refl _
  | case2 => cases h; exact Nat.le_refl _
  | case3 left t op hop name span rest' ih => have := ih h; simp only [List.length_cons]; omega
  | case4 => cases h

theorem shrinks_expr : expr.Shrinks := shrinks_identifier.bind fun _ => keeps_exprTail _

theorem shrinks_argumentsTail (args : List Identifier) : Rule.Shrinks (argumentsTail args) := by
  intro ts a rest h
  fun_induction argumentsTail args ts with
  | case1 args span name span' rest' ih => have := ih h; simp only [List.length_cons]; omega
  | case2 => cases h
  | case3 => cases h; simp
  | case4 => cases h

theorem shrinks_arguments : arguments.Shrinks := by
  intro ts a rest h
  obtain ⟨opening, mid, h1, h⟩ := Rule.bind_eq_ok h
  cases h1
  exact (shrinks_exactly _).bind (fun _ => (keeps_nextIs _).bind fun _ =>
    .ite (Rule.keeps_throw _) (shrinks_identifier.bind fun _ =>
      (shrinks_argumentsTail _).keeps).keeps) h

/-- A decorator with its colon, or the defined name. -/
def definitionPart : Rule (Decorator ⊕ Identifier) := do
  let id ← identifier
  if ← nextIs .openParen then
    let args ← arguments
    exactly .colon
    return .inl (.call id args)
  else if ← accept .colon then return .inl (.tag id)
  else return .inr id

def definitionStep (ds : List Decorator) : Rule (List Decorator ⊕ Definition) := do
  match ← definitionPart with
  | .inl d => return .inl (ds ++ [d])
  | .inr id => return .inr ⟨ds, id⟩

theorem shrinks_definitionPart : definitionPart.Shrinks :=
  shrinks_identifier.bind fun _ => (keeps_nextIs _).bind fun _ =>
    .ite (shrinks_arguments.bind fun _ => (shrinks_exactly _).keeps.bind fun _ =>
      Rule.keeps_pure _).keeps
      ((keeps_accept _).bind fun _ => .ite (Rule.keeps_pure _) (Rule.keeps_pure _))

theorem shrinks_definitionStep (ds : List Decorator) : (definitionStep ds).Shrinks :=
  shrinks_definitionPart.bind fun
    | .inl _ => Rule.keeps_pure _
    | .inr _ => Rule.keeps_pure _

def definition : Rule Definition := Rule.iterate definitionStep (fun h => shrinks_definitionStep _ h) []

/-- A definition begins with a decorator: a word before a colon or an opening
parenthesis. -/
def opensDefinition : List Token → Bool
  | ⟨.word _, _⟩ :: t :: _ => t.lexeme == .colon || t.lexeme == .openParen
  | _ => false

theorem shrinks_definition : definition.Shrinks := Rule.shrinks_iterate shrinks_definitionStep []

/-! ## Statements of one line -/

def operand : Rule Operand := fun ts =>
  if opensDefinition ts then (.definition <$> definition : Rule Operand) ts
  else (.expr <$> expr : Rule Operand) ts

/-- The keyword of a relation of two operands. `mapto many` is one keyword only
before another word; otherwise `many` is the operand. -/
def relationKeyword : Rule (Option RelationKind)
  | [] => .ok none []
  | t :: rest =>
    if t.lexeme = .word "mapto" then
      match rest with
      | u :: v :: rest =>
        if u.lexeme = .word "many" ∧ v.lexeme.isWord = true then .ok (some .mapToMany) (v :: rest)
        else .ok (some .mapTo) (u :: v :: rest)
      | rest => .ok (some .mapTo) rest
    else if t.lexeme = .word "structures" then .ok (some .structures) rest
    else if t.lexeme = .word "constrains" then .ok (some .constrains) rest
    else .ok none (t :: rest)

def withExpr : Rule WithExpr := do
  let left ← expr
  if ← accept (.word "with") then
    let right ← expr
    return ⟨left, some right⟩
  else return ⟨left, none⟩

/-- An operand without a relation. -/
def alone : Operand → Statement
  | .definition d => .definition d
  | .expr e => .term e

/-- A statement that is no template. -/
def simpleStatement : Rule Statement := do
  let left ← operand
  match ← relationKeyword with
  | some kind =>
    let right ← expr
    return .relation left kind right
  | none =>
    if ← accept (.word "cover") then
      let middle ← expr
      exactly (.word "along")
      let right ← expr
      return .cover left middle right
    else if ← accept (.word "represents") then
      let data ← withExpr
      if ← accept (.word "as") then
        let shape ← withExpr
        return .represents left data (some shape)
      else return .represents left data none
    else return alone left

theorem shrinks_operand : operand.Shrinks := by
  intro ts a rest h
  unfold operand at h
  split at h
  · exact shrinks_definition.map h
  · exact shrinks_expr.map h

theorem keeps_relationKeyword : relationKeyword.Keeps := by
  intro ts a rest h
  unfold relationKeyword at h
  repeat' split at h
  all_goals (cases h; simp +arith)

theorem shrinks_withExpr : withExpr.Shrinks :=
  shrinks_expr.bind fun _ => (keeps_accept _).bind fun _ =>
    .ite (shrinks_expr.keeps.bind fun _ => Rule.keeps_pure _) (Rule.keeps_pure _)

theorem shrinks_simpleStatement : simpleStatement.Shrinks :=
  shrinks_operand.bind fun _ => keeps_relationKeyword.bind fun
    | some _ => shrinks_expr.keeps.bind fun _ => Rule.keeps_pure _
    | none => (keeps_accept _).bind fun _ =>
      .ite (shrinks_expr.keeps.bind fun _ => (shrinks_exactly _).keeps.bind fun _ =>
        shrinks_expr.keeps.bind fun _ => Rule.keeps_pure _)
      ((keeps_accept _).bind fun _ =>
        .ite (shrinks_withExpr.keeps.bind fun _ => (keeps_accept _).bind fun _ =>
          .ite (shrinks_withExpr.keeps.bind fun _ => Rule.keeps_pure _) (Rule.keeps_pure _))
        (Rule.keeps_pure _))

/-! ## Templates and programs -/

/-- The words that introduce a template. -/
def isTemplateWord (l : Lexeme) : Bool := l == .word "pattern" || l == .word "class"

/-- A template begins with such a word, a name, and then its parameters, a colon
or `extends`, a name and a colon. -/
def opensTemplate : List Token → Bool
  | t :: ⟨.word _, _⟩ :: u :: rest =>
    isTemplateWord t.lexeme &&
      (u.lexeme == .openParen || u.lexeme == .colon ||
        u.lexeme == .word "extends" &&
          match rest with
          | ⟨.word _, _⟩ :: v :: _ => v.lexeme == .colon
          | _ => false)
  | _ => false

def parameters : Rule (Option (List Identifier)) := do
  if ← nextIs .openParen then some <$> arguments else return none

def baseTemplate : Rule (Option Identifier) := do
  if ← accept (.word "extends") then some <$> identifier else return none

/-- The first line of a template, its end included. -/
def header : Rule Header := do
  skip
  let id ← identifier
  let params ← parameters
  let base ← baseTemplate
  exactly .colon
  if ← accept .lineEnd then return ⟨id, params, base⟩
  else fail "end of line after pattern header"

/-- A template whose `end` has not been read. -/
structure OpenTemplate where
  header : Header
  body : List Statement := []

namespace OpenTemplate

def add (t : OpenTemplate) (s : Statement) : OpenTemplate := { t with body := t.body ++ [s] }

def close (t : OpenTemplate) : Statement := .template t.header t.body

/-- What a text that stops here lacks. -/
def closing (t : OpenTemplate) : String := "'end' to close pattern '" ++ t.header.id.name ++ "'"

end OpenTemplate

/-- The open templates, of which each but the last stands in the next one. -/
structure Nesting where
  inner : OpenTemplate
  outer : List OpenTemplate := []

/-- The end of a statement in a body: more has to come. -/
def bodyLineEnd (t : OpenTemplate) : Rule Unit
  | ⟨.lineEnd, _⟩ :: rest => .ok () rest
  | ts => fail (if (next ts).lexeme = .endOfText then t.closing else "end of line") ts

/-- The word `end` with nothing behind it on its line. -/
def atEnd : List Token → Bool
  | t :: rest => t.lexeme == .word "end" && (next rest).lexeme.endsLine
  | [] => false

def closeTemplate : Nesting → Rule (Nesting ⊕ Statement)
  | ⟨inner, outer⟩ => do
    let here ← get
    if inner.body.isEmpty then
      throw (.emptyBody inner.header.id.name (next here).span)
    else
      exactly (.word "end")
      match outer with
      | [] => return .inr inner.close
      | up :: outer =>
        bodyLineEnd up
        return .inl ⟨up.add inner.close, outer⟩

/-- A line of the innermost body, behind its indentation. -/
def bodyLine : Nesting → Rule (Nesting ⊕ Statement)
  | ⟨inner, outer⟩ => do
    if opensTemplate (← get) then
      let h ← header
      return .inl ⟨⟨h, []⟩, inner :: outer⟩
    else
      let s ← simpleStatement
      bodyLineEnd inner
      return .inl ⟨inner.add s, outer⟩

/-- Reads one line inside the open templates. Only `end` may stand without
indentation. -/
def bodyStep (n : Nesting) : Rule (Nesting ⊕ Statement) := do
  let indented ← acceptIndent
  if atEnd (← get) then closeTemplate n
  else if ← nextIs .endOfText then fail n.inner.closing
  else if indented then bodyLine n
  else fail "indented statement or 'end'"

theorem keeps_parameters : parameters.Keeps :=
  (keeps_nextIs _).bind fun _ => .ite shrinks_arguments.keeps.map (Rule.keeps_pure _)

theorem keeps_baseTemplate : baseTemplate.Keeps :=
  (keeps_accept _).bind fun _ => .ite shrinks_identifier.keeps.map (Rule.keeps_pure _)

theorem shrinks_header : header.Shrinks :=
  keeps_skip.bind_shrinks fun _ => shrinks_identifier.bind fun _ =>
    keeps_parameters.bind fun _ => keeps_baseTemplate.bind fun _ =>
      (shrinks_exactly _).keeps.bind fun _ => (keeps_accept _).bind fun _ =>
        .ite (Rule.keeps_pure _) (keeps_fail _)

theorem shrinks_bodyLineEnd (t : OpenTemplate) : (bodyLineEnd t).Shrinks := by
  intro ts a rest h
  unfold bodyLineEnd at h
  split at h <;> cases h
  simp

theorem shrinks_closeTemplate (n : Nesting) : (closeTemplate n).Shrinks := by
  intro ts a rest h
  obtain ⟨here, mid, h1, h⟩ := Rule.bind_eq_ok h
  cases h1
  split at h
  · cases h
  · refine (shrinks_exactly _).bind (fun _ => ?_) h
    split
    · exact Rule.keeps_pure _
    · exact (shrinks_bodyLineEnd _).keeps.bind fun _ => Rule.keeps_pure _

theorem shrinks_bodyLine (n : Nesting) : (bodyLine n).Shrinks := by
  intro ts a rest h
  obtain ⟨here, mid, h1, h⟩ := Rule.bind_eq_ok h
  cases h1
  split at h
  · exact shrinks_header.bind (fun _ => Rule.keeps_pure _) h
  · exact shrinks_simpleStatement.bind
      (fun _ => (shrinks_bodyLineEnd _).keeps.bind fun _ => Rule.keeps_pure _) h

theorem shrinks_bodyStep (n : Nesting) : (bodyStep n).Shrinks := by
  refine keeps_acceptIndent.bind_shrinks fun indented => ?_
  intro ts a rest h
  obtain ⟨here, mid, h1, h⟩ := Rule.bind_eq_ok h
  cases h1
  split at h
  · exact shrinks_closeTemplate n h
  · obtain ⟨ended, mid, h1, h⟩ := Rule.bind_eq_ok h
    cases h1
    split at h
    · cases h
    · split at h
      · exact shrinks_bodyLine n h
      · cases h

/-- A template, from the word that introduces it to its `end`. -/
def template : Rule Statement := do
  let h ← header
  Rule.iterate bodyStep (fun hs => shrinks_bodyStep _ hs) ⟨⟨h, []⟩, []⟩

/-- A statement without the end of its line. -/
def statement : Rule Statement := fun ts =>
  if opensTemplate ts then template ts else simpleStatement ts

/-- Reads the next statement behind others, or finds the end of the text. -/
def programStep (ss : List Statement) : Rule (List Statement ⊕ Program) := do
  skipLineEnds
  if ← nextIs .endOfText then return .inr ⟨ss⟩
  else
    let here ← get
    if (next here).lexeme.isIndent then throw (.strayIndentation (next here).span)
    else
      let s ← statement
      lineEnd
      return .inl (ss ++ [s])

theorem shrinks_template : template.Shrinks :=
  shrinks_header.bind fun _ => (Rule.shrinks_iterate shrinks_bodyStep _).keeps

theorem shrinks_statement : statement.Shrinks := by
  intro ts a rest h
  unfold statement at h
  split at h
  · exact shrinks_template h
  · exact shrinks_simpleStatement h

theorem programStep_shrinks {ss ss' : List Statement} {ts rest : List Token}
    (h : programStep ss ts = .ok (.inl ss') rest) : rest.length < ts.length := by
  obtain ⟨_, mid, h1, h⟩ := Rule.bind_eq_ok h
  have hmid := keeps_skipLineEnds h1
  obtain ⟨ended, _, h2, h⟩ := Rule.bind_eq_ok h
  cases h2
  split at h
  · cases h
  · obtain ⟨_, _, h3, h⟩ := Rule.bind_eq_ok h
    cases h3
    split at h
    · cases h
    · have := shrinks_statement.bind
        (fun _ => keeps_lineEnd.bind fun _ => Rule.keeps_pure _) h
      omega

/-- All statements that are left, each ended by its line. -/
def program : Rule Program := Rule.iterate programStep programStep_shrinks []

end Reader

def Program.ofTokens (ts : List Token) : Except SyntaxError Program :=
  match Reader.program ts with
  | .ok p _ => .ok p
  | .error e _ => .error e

/-- The schema that a text holds, read in canonical layout. -/
def Program.ofText (source : String) : Except SyntaxError Program :=
  Token.ofText (Layout.canonical source) >>= Program.ofTokens

/-- The only statement of a text. -/
def Statement.ofText (source : String) : Except SyntaxError Statement := do
  match (← Program.ofText source).statements with
  | [s] => return s
  | ss => throw (.notOneStatement ss.length)

end InterfaceSchema
