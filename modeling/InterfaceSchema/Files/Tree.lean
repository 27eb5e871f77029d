import InterfaceSchema.Environment
import InterfaceSchema.Files
import InterfaceSchema.Text.Line

/-!
# File trees

A `FileTree` is a file system in memory: the contents of its files by their
paths from the root. A directory is there when a file is below it; the root is
always there. `Workspace` adds an input, and is a `FileSystem` in each `Environment`.
-/

namespace InterfaceSchema

/-- The names on the way from the root. -/
abbrev FilePath := List String

structure FileTree where
  files : List (FilePath × ByteArray) := []
  deriving Inhabited

inductive FileNode where
  | file (contents : ByteArray)
  | directory

def textOfBytes (bytes : ByteArray) : Except FileError String :=
  match String.fromUTF8? bytes with
  | some s => .ok s
  | none => .error .notText

/-- The parts of a written path, between its slashes. -/
def pathParts (path : String) : List String := (Text.pieces '/' path.toList).map String.ofList

namespace FileTree

def node? (t : FileTree) (p : FilePath) : Option FileNode :=
  match t.files.lookup p with
  | some contents => some (.file contents)
  | none =>
    if p.isEmpty || t.files.any (fun f => p.isPrefixOf f.1) then some .directory else none

/-- Follows the parts of a written path from a place in the tree. -/
def follow (t : FileTree) (here : FilePath) : List String → Except FileError FilePath
  | [] => .ok here
  | part :: parts =>
    match t.node? here with
    | none => .error .notFound
    | some (.file _) => .error .notDirectory
    | some .directory =>
      if part = "" ∨ part = "." then t.follow here parts
      else if part = ".." then t.follow here.dropLast parts
      else t.follow (here ++ [part]) parts

/-- Where a path with these parts starts: one with a slash in front starts at the root. -/
def start (directory : FilePath) (parts : List String) : FilePath :=
  if parts.head? = some "" then [] else directory

/-- The place that a written path names, seen from a directory. The empty path names
nothing. -/
def resolve (t : FileTree) (path : String) (directory : FilePath := []) :
    Except FileError FilePath :=
  let parts := pathParts path
  if parts = [""] then .error .notFound else t.follow (start directory parts) parts

def exists? (t : FileTree) (p : FilePath) : Bool := (t.node? p).isSome

def readAt (t : FileTree) (p : FilePath) : Except FileError String :=
  match t.node? p with
  | some (.file contents) => textOfBytes contents
  | some .directory => .error .isDirectory
  | none => .error .notFound

def read (t : FileTree) (path : String) (directory : FilePath := []) : Except FileError String := do
  t.readAt (← t.resolve path directory)

def isFile (t : FileTree) (path : String) (directory : FilePath := []) : Bool :=
  match t.node? <$> t.resolve path directory with
  | .ok (some (.file _)) => true
  | _ => false

def insert (t : FileTree) (p : FilePath) (contents : ByteArray) : FileTree :=
  ⟨t.files.filter (·.1 != p) ++ [(p, contents)]⟩

/-- The parts of a path before its last name, that name, and whether slashes
stand behind it. -/
def splitTarget (path : String) : List String × String × Bool :=
  let parts := (pathParts path).reverse
  match parts.dropWhile (· = "") with
  | [] => ([], "", true)
  | last :: before => (before.reverse, last, parts.head? = some "")

/-- Writes a file into a directory that is there. -/
def write (t : FileTree) (path text : String) (directory : FilePath := []) :
    Except FileError FileTree := do
  if path = "" then throw .notFound
  let (before, name, slashed) := splitTarget path
  let parent ← t.resolve (String.intercalate "/" (before ++ ["."])) directory
  match t.node? parent with
  | none => throw .notFound
  | some (.file _) => throw .notDirectory
  | some .directory =>
    if name = "." ∨ name = ".." ∨ slashed = true then throw .isDirectory
    else
      let target := parent ++ [name]
      match t.node? target with
      | some .directory => throw .isDirectory
      | _ => return t.insert target text.toUTF8

def entries (t : FileTree) (dir : FilePath) : List String :=
  (t.files.filterMap fun f =>
    if dir.isPrefixOf f.1 then (f.1.drop dir.length).head? else none).eraseDups

end FileTree

structure Workspace where
  tree : FileTree := {}
  input : ByteArray := .empty
  deriving Inhabited

instance [Environment] : FileSystem (StateM Workspace) where
  read path := do return (← get).tree.read path Environment.directory
  isFile path := do return (← get).tree.isFile path Environment.directory
  write path text := do
    match (← get).tree.write path text Environment.directory with
    | .ok tree => modify ({ · with tree }); return .ok ()
    | .error e => return .error e
  readInput := do return textOfBytes (← get).input

end InterfaceSchema
