/-!
# JSON

A `Json` value keeps the members of its objects in their order. `compact` writes
it without spaces, `pretty` over several lines with two spaces for each level.
In strings the quotation mark, the backslash and the control characters are
escaped, and nothing else.
-/

namespace InterfaceSchema

inductive Json where
  | null
  | bool (b : Bool)
  | number (n : Nat)
  | string (s : String)
  | array (items : List Json)
  | object (members : List (String × Json))
  deriving Repr, Inhabited

namespace Json

/-- The member of an object with this key, the first one if there are more. -/
def field? (key : String) : Json → Option Json
  | object members => members.lookup key
  | _ => none

/-- The member with this key; a missing one is `null`. -/
def field (key : String) (j : Json) : Json := (j.field? key).getD null

def string? : Json → Option String
  | string s => some s
  | _ => none

def number? : Json → Option Nat
  | number n => some n
  | _ => none

def array? : Json → Option (List Json)
  | array items => some items
  | _ => none

def strings? (j : Json) : Option (List String) := j.array? >>= List.mapM string?

theorem sizeOf_lt_of_lookup {key : String} {v : Json} {members : List (String × Json)}
    (h : members.lookup key = some v) : sizeOf v < sizeOf members := by
  induction members with
  | nil => simp at h
  | cons m ms ih =>
    obtain ⟨k, w⟩ := m
    simp only [List.lookup_cons] at h
    split at h
    · cases h
      simp only [List.cons.sizeOf_spec, Prod.mk.sizeOf_spec]
      omega
    · have := ih h
      simp only [List.cons.sizeOf_spec, Prod.mk.sizeOf_spec]
      omega

theorem sizeOf_lt_of_field? {key : String} {v j : Json} (h : j.field? key = some v) :
    sizeOf v < sizeOf j := by
  cases j with
  | object members =>
    have : sizeOf v < sizeOf members := sizeOf_lt_of_lookup h
    simp only [object.sizeOf_spec]
    omega
  | _ => cases h

def escapeChar (c : Char) : String :=
  match c with
  | '"' => "\\\""
  | '\\' => "\\\\"
  | '\x08' => "\\b"
  | '\x0c' => "\\f"
  | '\n' => "\\n"
  | '\r' => "\\r"
  | '\t' => "\\t"
  | c =>
    if c.toNat < 0x20 then
      String.ofList ['\\', 'u', '0', '0', (c.toNat / 16).digitChar, (c.toNat % 16).digitChar]
    else c.toString

def quote (s : String) : String := "\"" ++ String.join (s.toList.map escapeChar) ++ "\""

mutual
def compact : Json → String
  | null => "null"
  | bool b => if b then "true" else "false"
  | number n => toString n
  | string s => quote s
  | array [] => "[]"
  | array (j :: js) => "[" ++ compact j ++ compactItems js ++ "]"
  | object [] => "\x7b\x7d"
  | object ((k, j) :: ms) => "\x7b" ++ quote k ++ ":" ++ compact j ++ compactMembers ms ++ "\x7d"

def compactItems : List Json → String
  | [] => ""
  | j :: js => "," ++ compact j ++ compactItems js

def compactMembers : List (String × Json) → String
  | [] => ""
  | (k, j) :: ms => "," ++ quote k ++ ":" ++ compact j ++ compactMembers ms
end

def breakLine (level : Nat) : String := "\n" ++ String.ofList (List.replicate (2 * level) ' ')

mutual
def prettyAt (level : Nat) : Json → String
  | null => "null"
  | bool b => if b then "true" else "false"
  | number n => toString n
  | string s => quote s
  | array [] => "[]"
  | array (j :: js) =>
    "[" ++ breakLine (level + 1) ++ prettyAt (level + 1) j ++ prettyItems (level + 1) js ++
      breakLine level ++ "]"
  | object [] => "\x7b\x7d"
  | object ((k, j) :: ms) =>
    "\x7b" ++ breakLine (level + 1) ++ quote k ++ ": " ++ prettyAt (level + 1) j ++
      prettyMembers (level + 1) ms ++ breakLine level ++ "\x7d"

/-- The items behind the first one, each on a line of its own. -/
def prettyItems (level : Nat) : List Json → String
  | [] => ""
  | j :: js => "," ++ breakLine level ++ prettyAt level j ++ prettyItems level js

/-- The members behind the first one, each on a line of its own. -/
def prettyMembers (level : Nat) : List (String × Json) → String
  | [] => ""
  | (k, j) :: ms =>
    "," ++ breakLine level ++ quote k ++ ": " ++ prettyAt level j ++ prettyMembers level ms
end

def pretty (j : Json) : String := prettyAt 0 j

end Json

end InterfaceSchema
