import InterfaceSchema.Fact

/-!
# Emissions

Expansion brings facts and blocks of facts. A block `once` comes from a statement
that defines a shared member: all instances of the template bring it, and of its
facts only those count whose text no block has brought before. `Emission.facts`
are the facts that count, `Emission.flatten` all of them.
-/

namespace InterfaceSchema

inductive Emission where
  | fact (f : Fact)
  | once (block : List Emission)
  deriving Repr, Inhabited

namespace Emission

/-- The facts whose text has not been seen, and the texts seen after them. -/
def keepNew (seen : List String) : List Fact → FactBase × List String
  | [] => ([], seen)
  | f :: fs =>
    if seen.contains f.text then keepNew seen fs
    else
      let (kept, seen) := keepNew (f.text :: seen) fs
      (f :: kept, seen)

mutual
/-- The facts of an emission that count, and the texts seen after it. A block
inside a block counts first, and then again as a part of the outer one. -/
def settle (seen : List String) : Emission → FactBase × List String
  | fact f => ([f], seen)
  | once block =>
    let (fs, seen) := settleAll seen block
    keepNew seen fs

def settleAll (seen : List String) : List Emission → FactBase × List String
  | [] => ([], seen)
  | e :: es =>
    let (fs, seen) := settle seen e
    let (gs, seen) := settleAll seen es
    (fs ++ gs, seen)
end

/-- The facts that count. -/
def facts (es : List Emission) : FactBase := (settleAll [] es).1

mutual
/-- All facts of an emission. -/
def flatten : Emission → FactBase
  | fact f => [f]
  | once block => flattenAll block

def flattenAll : List Emission → FactBase
  | [] => []
  | e :: es => flatten e ++ flattenAll es
end

end Emission

end InterfaceSchema
