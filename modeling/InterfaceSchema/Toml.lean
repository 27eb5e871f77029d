/-!
# TOML values

A `Toml` value is what a document of key-value pairs holds. A table remembers
where it comes from, since that decides whether later lines may add to it: a
table written between braces is closed, one that a header names is opened only
once, and one that dotted keys made takes more dotted keys. A list of tables takes more
of them if headers opened those it has. An unset value is in no document: it fills a
place that is there but was given no value.
-/

namespace InterfaceSchema

namespace Toml

inductive Origin where
  | implied
  | dotted
  | header
  | inline
  deriving DecidableEq, Repr, Inhabited

end Toml

inductive Toml where
  | string (s : String)
  | integer (n : Int)
  | float (text : String)
  | boolean (b : Bool)
  | array (items : List Toml)
  | table (origin : Toml.Origin) (members : List (String × Toml))
  | unset
  deriving Repr, Inhabited

namespace Toml

abbrev Members := List (String × Toml)

/-- The text of a string, a number or a boolean. -/
def scalarText? : Toml → Option String
  | string s => some s
  | integer n => some (toString n)
  | float text => some text
  | boolean b => some (if b then "true" else "false")
  | array _ => none
  | table _ _ => none
  | unset => none

/-- Replaces the value of a key, or adds the key behind all others. -/
def put (key : String) (v : Toml) : Members → Members
  | [] => [(key, v)]
  | (k, w) :: ms => if k = key then (k, v) :: ms else (k, w) :: put key v ms

structure Draft where
  origin : Origin := .implied
  members : Members := []
  deriving Inhabited

/-- Changes the table at a path. Tables on the way are made when they are missing, and of a
list of tables it is the last one that the way leads into. Dotted keys do not lead into a
table that a header opened. -/
def Draft.atPath (dotted : Bool) (change : Draft → Option Draft) : List String → Draft →
    Option Draft
  | [], d => change d
  | key :: path, d =>
    let put (v : Toml) : Draft := { d with members := put key v d.members }
    let putTable (inner : Draft) : Draft := put (.table inner.origin inner.members)
    match d.members.lookup key with
    | none => putTable <$> Draft.atPath dotted change path ⟨if dotted then .dotted else .implied, []⟩
    | some (.table .inline _) => none
    | some (.table origin members) =>
      if dotted = true ∧ origin = .header then none
      else putTable <$> Draft.atPath dotted change path ⟨origin, members⟩
    | some (.array items) =>
      match items.getLast? with
      | some (.table .header members) =>
        if dotted then none
        else do
          let inner ← Draft.atPath dotted change path ⟨.header, members⟩
          return put (.array (items.dropLast ++ [.table inner.origin inner.members]))
      | _ => none
    | some _ => none

/-- Changes what the last key of a path has in the table that the others lead to. -/
def Draft.changeAt (path : List String) (change : Option Toml → Option Toml) (d : Draft) :
    Option Draft := do
  let key ← path.getLast?
  d.atPath false (fun parent => do
    let v ← change (parent.members.lookup key)
    return { parent with members := put key v parent.members }) path.dropLast

/-- The table that a header opens, which may be there for the tables in it. -/
def Draft.opened? : Option Toml → Option Toml
  | none => some (.table .header [])
  | some (.table .implied members) => some (.table .header members)
  | some _ => none

/-- The list with one more table. A list that was written with brackets takes no more. -/
def Draft.listed? : Option Toml → Option Toml
  | none => some (.array [.table .header []])
  | some (.array items) =>
    match items.getLast? with
    | some (.table .header _) => some (.array (items ++ [.table .header []]))
    | _ => none
  | some _ => none

def Draft.define (path : List String) (v : Toml) (d : Draft) : Option Draft :=
  match path.getLast? with
  | none => none
  | some key =>
    d.atPath true (fun parent =>
      if (parent.members.lookup key).isSome then none
      else if path.length ≠ 1 ∧ parent.origin ≠ .dotted then none
      else some { parent with members := put key v parent.members }) path.dropLast

end Toml

end InterfaceSchema
