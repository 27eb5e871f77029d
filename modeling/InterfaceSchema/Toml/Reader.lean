import InterfaceSchema.Toml

/-!
# Reading TOML

A document is read line by line: headers, pairs of a key and a value, and blank
lines, each with a comment behind it if there is one. A reader takes characters
from the front of a text and gives the rest; it is `none` where the text is no
document. Arrays and long strings go over several lines, and arrays may end with a
comma; tables between braces stay on one line. A date or a time is the string that is
written for it. A byte order mark may stand in front of the document.
-/

namespace InterfaceSchema

namespace Toml.Reader

def isSpace (c : Char) : Bool := c == ' ' || c == '\t'

def skipSpaces (cs : List Char) : List Char := cs.dropWhile isSpace

/-- A character of a comment or a string. -/
def isPlain (c : Char) : Bool := c == '\t' || (0x20 ≤ c.toNat && c.toNat != 0x7F)

/-- The rest behind a comment, if one is in front. -/
def skipComment : List Char → List Char
  | '#' :: cs => cs.dropWhile isPlain
  | cs => cs

/-- The rest of a line break, if one is in front. -/
def lineBreak? : List Char → Option (List Char)
  | '\n' :: cs => some cs
  | '\r' :: '\n' :: cs => some cs
  | _ => none

/-- The rest behind the end of a line, which may have spaces and a comment. -/
def lineEnd (cs : List Char) : Option (List Char) :=
  match skipComment (skipSpaces cs) with
  | [] => some []
  | cs => lineBreak? cs

/-- Drops spaces, line ends and comments; `comment` says that a comment goes on. -/
def skipBlank (comment : Bool) : List Char → List Char
  | [] => []
  | '\n' :: cs => skipBlank false cs
  | '\r' :: '\n' :: cs => skipBlank false cs
  | c :: cs =>
    if comment then if isPlain c then skipBlank true cs else c :: cs
    else if isSpace c then skipBlank false cs
    else if c = '#' then skipBlank true cs
    else c :: cs

/-! ## Strings, keys and numbers -/

def hexValue? (c : Char) : Option Nat :=
  if c.isDigit then some (c.toNat - '0'.toNat)
  else if 'a' ≤ c ∧ c ≤ 'f' then some (c.toNat - 'a'.toNat + 10)
  else if 'A' ≤ c ∧ c ≤ 'F' then some (c.toNat - 'A'.toNat + 10)
  else none

/-- The character with this number, if there is one. -/
def charOfNat? (n : Nat) : Option Char := if n.isValidChar then some (Char.ofNat n) else none

def charOfHex? (digits : List Char) : Option Char := do
  let values ← digits.mapM hexValue?
  charOfNat? (values.foldl (fun n d => 16 * n + d) 0)

/-- The end of a string: the quotes that still belong to it, and the rest. Three quotes end
a long string, and up to two more may stand in front of them. -/
def closing? (long : Bool) (quote : Char) (cs : List Char) : Option (List Char × List Char) :=
  let quotes := min (cs.takeWhile (· == quote)).length (if long then 5 else 1)
  let wanted := if long then 3 else 1
  if quotes < wanted then none else some (List.replicate (quotes - wanted) quote, cs.drop quotes)

/-- The characters up to the end of a string, which no escaped quote is. Only a long string
goes over several lines. -/
def stringBody (long escapes : Bool) (quote : Char) (escaped : Bool) :
    List Char → Option (List Char × List Char)
  | [] => none
  | c :: cs =>
    match if escaped then none else closing? long quote (c :: cs) with
    | some ending => some ending
    | none =>
      if isPlain c || (long && (lineBreak? (c :: cs)).isSome) then do
        let (body, rest) ← stringBody long escapes quote (escapes && !escaped && c == '\\') cs
        return (c :: body, rest)
      else none

def escape? : Char → Option Char
  | 'b' => some '\x08'
  | 't' => some '\t'
  | 'n' => some '\n'
  | 'f' => some '\x0c'
  | 'r' => some '\r'
  | '"' => some '"'
  | '\\' => some '\\'
  | _ => none

/-- The characters that escapes stand for. After a backslash at the end of a line, `blank`
ones are left out up to the next that is not. -/
def unescape (blank : Bool) : List Char → Option (List Char)
  | [] => some []
  | '\\' :: 'u' :: a :: b :: c :: d :: cs => do
    return (← charOfHex? [a, b, c, d]) :: (← unescape false cs)
  | '\\' :: 'U' :: a :: b :: c :: d :: e :: f :: g :: h :: cs => do
    return (← charOfHex? [a, b, c, d, e, f, g, h]) :: (← unescape false cs)
  | '\\' :: c :: cs => do
    if (skipSpaces (c :: cs)).head? = some '\n' then unescape true (c :: cs)
    else return (← escape? c) :: (← unescape false cs)
  | c :: cs => do
    if blank && (isSpace c || c == '\n') then unescape true cs
    else return c :: (← unescape false cs)

/-- A string behind its opening quotes. -/
def stringRest (long : Bool) (quote : Char) (cs : List Char) : Option (String × List Char) := do
  let escapes := quote == '"'
  let (body, rest) ← stringBody long escapes quote false cs
  let body := body.filter (· != '\r')
  return (String.ofList (← if escapes then unescape false body else some body), rest)

def shortString? : List Char → Option (String × List Char)
  | '"' :: cs => stringRest false '"' cs
  | '\'' :: cs => stringRest false '\'' cs
  | _ => none

/-- A string over several lines. A line break right behind the opening quotes is no part
of it. -/
def longString? : List Char → Option (String × List Char)
  | '"' :: '"' :: '"' :: cs => stringRest true '"' ((lineBreak? cs).getD cs)
  | '\'' :: '\'' :: '\'' :: cs => stringRest true '\'' ((lineBreak? cs).getD cs)
  | _ => none

def isKeyChar (c : Char) : Bool := c.isAlphanum || c == '_' || c == '-'

def simpleKey (cs : List Char) : Option (String × List Char) :=
  shortString? cs <|>
    match cs.takeWhile isKeyChar with
    | [] => none
    | key => some (String.ofList key, cs.dropWhile isKeyChar)

def keyParts (fuel : Nat) (cs : List Char) : Option (List String × List Char) :=
  match fuel with
  | 0 => none
  | fuel + 1 => do
    let (part, rest) ← simpleKey (skipSpaces cs)
    match skipSpaces rest with
    | '.' :: rest =>
      let (parts, rest) ← keyParts fuel rest
      return (part :: parts, rest)
    | rest => return ([part], rest)

/-- Keys have fewer parts than this, and values are nested less deep. -/
def limit : Nat := 80

/-- A key, whose parts are joined by dots. -/
def key (fuel : Nat) (cs : List Char) : Option (List String × List Char) :=
  (keyParts fuel cs).filter fun (parts, _) => parts.length < limit

/-- Digits, with single underscores between them, read as a number. -/
def digits (base : Nat) : List Char → Option Nat
  | cs =>
    let groups := (String.ofList cs).splitOn "_"
    if groups.all (fun g => !g.isEmpty) then do
      let values ← (groups.flatMap String.toList).mapM hexValue?
      if values.all (· < base) then some (values.foldl (fun n d => base * n + d) 0) else none
    else none

/-- A decimal number has no zero in front of other digits. -/
def decimal (cs : List Char) : Option Nat :=
  match cs with
  | '0' :: _ :: _ => none
  | cs => digits 10 cs

def inRange (n : Int) : Option Toml :=
  if -9223372036854775808 ≤ n ∧ n < 9223372036854775808 then some (.integer n) else none

/-- The decimal text of `digits`, of which the first `point` stand before the decimal point.
No digit is rounded off. There are bounds to how large and how small a number is. -/
def decimalText? (digits : List Char) (point : Int) : Option (List Char) :=
  let places := (digits.takeWhile (· == '0')).length
  let digits := (digits.drop places).reverse.dropWhile (· == '0') |>.reverse
  let point := point - places
  if digits.isEmpty ∨ point < -324 then some ['0']
  else if 309 < point then none
  else if point ≤ 0 then some ('0' :: '.' :: List.replicate (-point).toNat '0' ++ digits)
  else if digits.length ≤ point then some (digits ++ List.replicate (point.toNat - digits.length) '0')
  else some (digits.take point.toNat ++ '.' :: digits.drop point.toNat)

/-- A number with a fraction or an exponent. -/
def floatText? (cs : List Char) : Option (List Char) := do
  if cs = "inf".toList then return cs
  if cs = "nan".toList then return "NaN".toList
  let mantissa := cs.takeWhile (fun c => c != 'e' && c != 'E')
  let whole := mantissa.takeWhile (· != '.')
  let fraction := mantissa.dropWhile (· != '.')
  let exponent := cs.dropWhile (fun c => c != 'e' && c != 'E')
  let _ ← decimal whole
  if fraction.isEmpty && exponent.isEmpty then none
  if !fraction.isEmpty then
    let _ ← digits 10 fraction.tail
  let power : Int ← match exponent with
    | [] => pure 0
    | _ :: '+' :: ds => Int.ofNat <$> digits 10 ds
    | _ :: '-' :: ds => (fun n => -Int.ofNat n) <$> digits 10 ds
    | _ :: ds => Int.ofNat <$> digits 10 ds
  let whole := whole.filter (· != '_')
  let point := whole.length + power
  decimalText? (whole ++ fraction.tail.filter (· != '_')) point

def float? : List Char → Option Toml
  | '+' :: cs => (.float ∘ String.ofList) <$> floatText? cs
  | '-' :: cs => (fun text => .float (if text = "NaN".toList then "NaN" else "-" ++ String.ofList text)) <$>
    floatText? cs
  | cs => (.float ∘ String.ofList) <$> floatText? cs

/-- The value that a word spells. -/
def word (cs : List Char) : Option Toml :=
  match cs with
  | ['t', 'r', 'u', 'e'] => some (.boolean true)
  | ['f', 'a', 'l', 's', 'e'] => some (.boolean false)
  | '0' :: 'x' :: ds => do inRange (← digits 16 ds)
  | '0' :: 'o' :: ds => do inRange (← digits 8 ds)
  | '0' :: 'b' :: ds => do inRange (← digits 2 ds)
  | '+' :: ds => (do inRange (← decimal ds)) <|> float? cs
  | '-' :: ds => (do inRange (-(← decimal ds : Nat))) <|> float? cs
  | ds => (do inRange (← decimal ds)) <|> float? ds

/-! ## Dates and times -/

/-- The number that so many digits in front spell. -/
def fixedNumber (width : Nat) (cs : List Char) : Option (Nat × List Char) := do
  let ds := cs.take width
  if ds.length = width ∧ ds.all Char.isDigit then return (← digits 10 ds, cs.drop width) else none

def skip (c : Char) : List Char → Option (List Char)
  | d :: cs => if d = c then some cs else none
  | [] => none

def daysIn (year month : Nat) : Nat :=
  if month = 2 then if year % 4 = 0 ∧ (year % 100 ≠ 0 ∨ year % 400 = 0) then 29 else 28
  else if month ∈ [4, 6, 9, 11] then 30
  else 31

def date? (cs : List Char) : Option (List Char × List Char) := do
  let (year, rest) ← fixedNumber 4 cs
  let (month, rest) ← fixedNumber 2 (← skip '-' rest)
  let (day, rest) ← fixedNumber 2 (← skip '-' rest)
  if 1 ≤ month ∧ month ≤ 12 ∧ 1 ≤ day ∧ day ≤ daysIn year month then some (cs.take 10, rest) else none

/-- The part of a second, without zeros behind it. -/
def secondPart : List Char → List Char × List Char
  | '.' :: cs =>
    let ds := cs.takeWhile Char.isDigit
    let kept := ((ds.take 9).reverse.dropWhile (· == '0')).reverse
    if ds.isEmpty then ([], '.' :: cs) else (if kept.isEmpty then [] else '.' :: kept, cs.dropWhile Char.isDigit)
  | cs => ([], cs)

def time? (cs : List Char) : Option (List Char × List Char) := do
  let (hour, rest) ← fixedNumber 2 cs
  let (minute, rest) ← fixedNumber 2 (← skip ':' rest)
  let (second, rest) ← fixedNumber 2 (← skip ':' rest)
  if hour ≤ 23 ∧ minute ≤ 59 ∧ second ≤ 60 then
    let (part, rest) := secondPart rest
    some (cs.take 8 ++ part, rest)
  else none

/-- How far a time is from universal time. -/
def offset? : List Char → Option (List Char × List Char)
  | [] => none
  | sign :: cs =>
    if sign = 'Z' ∨ sign = 'z' then some (['Z'], cs)
    else if sign = '+' ∨ sign = '-' then do
      let (hours, rest) ← fixedNumber 2 cs
      let (minutes, rest) ← fixedNumber 2 (← skip ':' rest)
      let sign := if hours = 0 ∧ minutes = 0 then '+' else sign
      if hours ≤ 23 ∧ minutes ≤ 59 then some (sign :: cs.take 5, rest) else none
    else none

/-- A date, a time, or both, as the text that they are usually written with. -/
def dateTime? (cs : List Char) : Option (String × List Char) :=
  match date? cs with
  | none => (fun (time, rest) => (String.ofList time, rest)) <$> time? cs
  | some (date, rest) =>
    match rest with
    | [] => some (String.ofList date, [])
    | c :: after =>
      match if c ∈ ['T', 't', ' '] then time? after else none with
      | none => some (String.ofList date, rest)
      | some (time, rest) =>
        let (offset, rest) := (offset? rest).getD ([], rest)
        some (String.ofList (date ++ 'T' :: time ++ offset), rest)

def isWordChar (c : Char) : Bool := c.isAlphanum || c == '+' || c == '-' || c == '_' || c == '.'

/-! ## Values and documents -/

mutual
/-- A value `depth` values deep in others. -/
def value (fuel depth : Nat) (cs : List Char) : Option (Toml × List Char) :=
  match fuel with
  | 0 => none
  | fuel + 1 =>
    match cs with
    | '[' :: cs =>
      if depth + 1 < limit then (fun (items, rest) => (.array items, rest)) <$> arrayItems fuel (depth + 1) cs
      else none
    | '{' :: cs =>
      if depth + 1 < limit then
        match skipSpaces cs with
        | '}' :: rest => some (.table .inline [], rest)
        | cs => (fun (d, rest) => (.table .inline d.members, rest)) <$> inlineMembers fuel (depth + 1) {} cs
      else none
    | cs =>
      match (longString? cs <|> shortString? cs) <|> dateTime? cs with
      | some (s, rest) => some (.string s, rest)
      | none => do
        let v ← word (cs.takeWhile isWordChar)
        return (v, cs.dropWhile isWordChar)

/-- The items of an array up to its closing bracket. -/
def arrayItems (fuel depth : Nat) (cs : List Char) : Option (List Toml × List Char) :=
  match fuel with
  | 0 => none
  | fuel + 1 =>
    match skipBlank false cs with
    | ']' :: rest => some ([], rest)
    | cs => do
      let (item, rest) ← value fuel depth cs
      match skipBlank false rest with
      | ']' :: rest => return ([item], rest)
      | ',' :: rest =>
        let (items, rest) ← arrayItems fuel depth rest
        return (item :: items, rest)
      | _ => none

/-- The members of a table up to its closing brace, which has no comma in front. -/
def inlineMembers (fuel depth : Nat) (d : Draft) (cs : List Char) : Option (Draft × List Char) :=
  match fuel with
  | 0 => none
  | fuel + 1 => do
    let (path, rest) ← key fuel cs
    match rest with
    | '=' :: rest =>
      let (v, rest) ← value fuel depth (skipSpaces rest)
      let d ← d.define path v
      match skipSpaces rest with
      | '}' :: rest => return (d, rest)
      | ',' :: rest => inlineMembers fuel depth d rest
      | _ => none
    | _ => none
end

/-- The rest behind a byte order mark, if one is in front. -/
def skipMark : List Char → List Char
  | '\uFEFF' :: cs => cs
  | cs => cs

/-- A document, while pairs belong to the table of the last header. -/
structure Progress where
  root : Draft := {}
  header : List String := []

/-- A line that is not blank: a header, of a table or of one more table in a list, or a pair
of a key and a value. -/
def line (fuel : Nat) (p : Progress) (cs : List Char) : Option (Progress × List Char) :=
  match cs with
  | '[' :: '[' :: cs => do
    let (path, rest) ← key fuel cs
    match rest with
    | ']' :: ']' :: rest => return (⟨← p.root.changeAt path Draft.listed?, path⟩, rest)
    | _ => none
  | '[' :: cs => do
    let (path, rest) ← key fuel cs
    match rest with
    | ']' :: rest => return (⟨← p.root.changeAt path Draft.opened?, path⟩, rest)
    | _ => none
  | cs => do
    let (path, rest) ← key fuel cs
    match rest with
    | '=' :: rest =>
      let (v, rest) ← value fuel 0 (skipSpaces rest)
      let root ← p.root.atPath false (Draft.define path v) p.header
      return (⟨root, p.header⟩, rest)
    | _ => none

def document (fuel : Nat) (p : Progress) (cs : List Char) : Option Progress :=
  match fuel with
  | 0 => none
  | fuel + 1 =>
    match skipBlank false cs with
    | [] => some p
    | cs => do
      let (p, rest) ← line fuel p cs
      document fuel p (← lineEnd rest)

end Toml.Reader

/-- The members of the document in a text. No reading takes more steps than the
text has characters, and some to end. -/
def Toml.ofText? (text : String) : Option Toml.Members := do
  let cs := Toml.Reader.skipMark text.toList
  let p ← Toml.Reader.document (cs.length + 3) {} cs
  return p.root.members

end InterfaceSchema
