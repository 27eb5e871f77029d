import InterfaceSchema.Json

/-!
# Options

The options of a compilation: the tags that make a name a structure of that
kind wherever they stand among its decorators.
-/

namespace InterfaceSchema

structure Options where
  structureTags : List String := ["order", "linear", "tree"]
  deriving DecidableEq, Repr, Inhabited

namespace Options

def isStructureTag (o : Options) (tag : String) : Bool := o.structureTags.any (· == tag)

/-- Options are an object, where a missing list of tags is the usual one, or an
array of at most that list. -/
def ofJson? : Json → Option Options
  | .object members =>
    match members.lookup "structure_tags" with
    | none => some {}
    | some tags => Options.mk <$> tags.strings?
  | .array [] => some {}
  | .array [tags] => Options.mk <$> tags.strings?
  | _ => none

end Options

end InterfaceSchema
