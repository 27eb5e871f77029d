/-!
# Invocations

What a command line asks for: a command with its input, or an answer that needs no run.
Which it is, the `ArgumentParser` says.
-/

namespace InterfaceSchema

inductive Command where
  | compile (input : String) (output : Option String) (noHeader : Bool)
  | parse (input : String)
  | check (input : String)
  deriving DecidableEq, Repr, Inhabited

structure Invocation where
  command : Command
  config : Option String := none
  verbose : Bool := false
  deriving DecidableEq, Repr, Inhabited

inductive CommandLine where
  | run (i : Invocation)
  | exit (code : Nat) (stdout stderr : String)
  deriving DecidableEq, Repr, Inhabited

class ArgumentParser where
  parse (words : List String) : CommandLine

end InterfaceSchema
