import InterfaceSchema.Text.Line
import InterfaceSchema.Toml

/-!
# Layers of documents

`lay base document` lays a document over a value. The document replaces the values
that it gives; of tables, it replaces the members that it gives. Keys that differ
only in case are one key, and the result holds them in lower case. A key of the
document itself may be a path, such as `"output.header"` or `"list[0]"`; a key in a
table is a name whatever it holds.
-/

namespace InterfaceSchema.Toml

/-- Changes a member. What is no table becomes one, and what is missing is unset. -/
def atMember (name : String) (change : Toml → Toml) (base : Toml) : Toml :=
  let (origin, members) := match base with
    | table origin members => (origin, members)
    | _ => (.implied, [])
  let key := name.toLower
  table origin (put key (change ((members.lookup key).getD unset)) members)

/-- Changes an item. What is no array becomes one. A negative index counts from the
end, and unset items fill the array up to an index outside it. -/
def atItem (index : Int) (change : Toml → Toml) (base : Toml) : Toml :=
  let items := match base with
    | array items => items
    | _ => []
  let position := if index < 0 then items.length + index else index
  let items := List.replicate (-position).toNat unset ++ items
  let position := position.toNat
  let items := items ++ List.replicate (position + 1 - items.length) unset
  array (items.modify position change)

mutual
/-- Lays a value over another. A table without members changes nothing that is there. -/
def layOver (base : Toml) : Toml → Toml
  | table origin members =>
    layMembers (match base with
      | unset => table origin []
      | base => base) members
  | v => v

def layMembers (base : Toml) : Members → Toml
  | [] => base
  | (key, v) :: rest => layMembers (base.atMember key (layOver · v)) rest
end

/-- A step from a value into one that it holds. -/
inductive Step where
  | member (name : String)
  | item (index : Int)
  deriving DecidableEq, Repr

def isNameChar (c : Char) : Bool := c.isAlphanum || c == ' ' || c == '_' || c == '-'

/-- The index before a closing bracket, with spaces around it. -/
def index? (cs : List Char) : Option Int := do
  match cs.reverse with
  | ']' :: digits =>
    let isSpace (c : Char) : Bool := c == ' ' || c == '\t'
    let digits := (digits.dropWhile isSpace).reverse.dropWhile isSpace
    let (sign, digits) := match digits with
      | '-' :: digits => (-1, digits)
      | digits => (1, digits)
    if digits.isEmpty || !digits.all Char.isDigit then none
    let n : Int := sign * digits.foldl (fun n d => 10 * n + (d.toNat - '0'.toNat)) 0
    if -9223372036854775808 ≤ n ∧ n < 9223372036854775808 then some n else none
  | _ => none

/-- The steps in a part of a path: a name, and indices in brackets behind it. -/
def partSteps? (cs : List Char) : Option (List Step) :=
  match Text.pieces '[' cs with
  | [] => none
  | name :: indices =>
    if name.isEmpty || !name.all isNameChar then none
    else do return .member (String.ofList name) :: (← indices.mapM index?).map Step.item

/-- The steps in a key, whose parts are joined by dots. A key that is no path is a
name as a whole. -/
def keyPath (key : String) : List Step :=
  match (Text.pieces '.' key.toList).mapM partSteps? with
  | some parts => parts.flatten
  | none => [.member key]

/-- Lays a value at a path. An item is replaced as a whole. -/
def layAt (v : Toml) : List Step → Toml → Toml
  | [], base => layOver base v
  | [.item index], base => base.atItem index (fun _ => v)
  | .member name :: path, base => base.atMember name (layAt v path)
  | .item index :: path, base => base.atItem index (layAt v path)

def lay (base : Toml) : Members → Toml
  | [] => base
  | (key, v) :: rest => lay (layAt v (keyPath key) base) rest

end InterfaceSchema.Toml
