/-!
# Files

`FileSystem m` says that programs in `m` can read and write texts by their path
and read a text from their input. What can go wrong is a `FileError`.
-/

namespace InterfaceSchema

inductive FileError where
  | notFound
  | isDirectory
  | notDirectory
  | notText
  | other (message : String)
  deriving DecidableEq, Repr, Inhabited

def FileError.message : FileError → String
  | notFound => "No such file or directory (os error 2)"
  | isDirectory => "Is a directory (os error 21)"
  | notDirectory => "Not a directory (os error 20)"
  | notText => "stream did not contain valid UTF-8"
  | other message => message

class FileSystem (m : Type → Type) where
  read : String → m (Except FileError String)
  /-- The path leads to a file and not to a directory. -/
  isFile : String → m Bool
  write : String → String → m (Except FileError Unit)
  readInput : m (Except FileError String)

end InterfaceSchema
