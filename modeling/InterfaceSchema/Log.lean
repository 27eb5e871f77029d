import InterfaceSchema.Schema.Basic

/-!
# Logs

What a run tells of itself on the way, as `LogEvent`s in their order. How much of it is
shown depends on the level up to which events are wanted.
-/

namespace InterfaceSchema

/-- From the gravest on. -/
inductive LogLevel where
  | warn
  | debug
  | trace
  deriving DecidableEq, Repr, Inhabited

namespace LogLevel

def rank : LogLevel → Nat
  | warn => 0
  | debug => 1
  | trace => 2

def name : LogLevel → String
  | warn => "WARN"
  | debug => "DEBUG"
  | trace => "TRACE"

end LogLevel

inductive LogEvent where
  | configured (structureTags : List String) (header : Option String)
  | preprocessed (text : String)
  | parsed (p : Program)
  | registered (templates : Nat)
  | expanding (template inst : String)
  | renamed (template inst : String) (renames : Nat)
  | memberAccess (object : String)
  | represents
  | lowered (facts : Nat)
  deriving Repr, Inhabited

namespace LogEvent

def level : LogEvent → LogLevel
  | memberAccess _ | represents => .warn
  | expanding _ _ | renamed _ _ _ => .trace
  | configured _ _ | preprocessed _ | parsed _ | registered _ | lowered _ => .debug

def message : LogEvent → String
  | configured _ _ => "loaded configuration"
  | preprocessed _ => "preprocessed source"
  | parsed _ => "parsed program"
  | registered _ => "registered templates"
  | expanding _ _ => "expanding template"
  | renamed _ _ _ => "renaming statement"
  | memberAccess _ => "member access is not lowered; emitting placeholder"
  | represents => "represents relations are not lowered; emitting placeholder"
  | lowered _ => "lowered program"

/-- The event is wanted up to this level. -/
def isWithin (limit : LogLevel) (e : LogEvent) : Bool := e.level.rank ≤ limit.rank

end LogEvent

/-- What has been told so far. -/
abbrev Log := List LogEvent

/-- Computations that can fail, and tell of themselves on the way. -/
abbrev Logged (ε : Type) := ExceptT ε (StateM Log)

namespace Logged

variable {ε α : Type}

def tell (events : List LogEvent) : Logged ε Unit := modify (· ++ events)

def lift (x : Except ε α) : Logged ε α := ExceptT.mk (pure x)

end Logged

end InterfaceSchema
