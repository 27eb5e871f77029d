import InterfaceSchema.Command.Run
import InterfaceSchema.Files.Tree

/-!
# The command

The file system of the machine, and the entry point of the command.
-/

namespace InterfaceSchema

/-- The system gives its error codes with either sign. -/
def FileError.ofError : IO.Error → FileError
  | .noFileOrDirectory _ _ _ => .notFound
  | .inappropriateType _ code _ => if code = 20 ∨ 0 - code = 20 then .notDirectory else .isDirectory
  | e => .other (toString e)

def tryFile {α : Type} (action : IO α) : IO (Except FileError α) := do
  try
    return .ok (← action)
  catch e => return .error (.ofError e)

instance : FileSystem IO where
  read path := do
    match ← tryFile (IO.FS.readBinFile path) with
    | .ok bytes => return textOfBytes bytes
    | .error e => return .error e
  isFile path := do
    match ← tryFile (IO.FS.readBinFile path) with
    | .ok _ => return true
    | .error _ => return false
  write path text := tryFile (IO.FS.writeFile path text)
  readInput := do
    match ← tryFile (do (← IO.getStdin).readBinToEnd) with
    | .ok bytes => return textOfBytes bytes
    | .error e => return .error e

def LogEvent.line (e : LogEvent) : String := e.level.name ++ " " ++ e.message

/-- What the variable for logs lets through, if it names a level. -/
def LogEvent.filter? : String → Option (LogEvent → Bool)
  | "off" | "error" => some fun _ => false
  | "warn" | "info" => some (isWithin .warn)
  | "debug" => some (isWithin .debug)
  | "trace" => some (isWithin .trace)
  | _ => none

end InterfaceSchema

def main (words : List String) : IO UInt32 := do
  let filter := (← IO.getEnv "RUST_LOG") >>= InterfaceSchema.LogEvent.filter?
  let _ : InterfaceSchema.Environment := { logFilter? := filter }
  let outcome ← (InterfaceSchema.Command.answer words : IO InterfaceSchema.Outcome)
  IO.print outcome.stdout
  outcome.log.forM fun e => IO.eprintln e.line
  IO.eprint outcome.stderr
  return outcome.code.toUInt32
