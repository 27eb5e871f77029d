import InterfaceSchema.Log

/-!
# Environments

What a process finds around it besides files and input, and does not change.
-/

namespace InterfaceSchema

class Environment where
  /-- The working directory, by the names on the way from the root. -/
  directory : List String := []
  /-- The events that the variable for logs lets through, if it is set and can be read. -/
  logFilter? : Option (LogEvent → Bool) := none

/-- Works at the root, with no variable for logs. -/
instance : Environment := {}

end InterfaceSchema
