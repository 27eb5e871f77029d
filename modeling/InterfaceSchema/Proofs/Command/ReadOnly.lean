import InterfaceSchema.Files.Tree
import InterfaceSchema.Proofs.Success

/-!
# Reading

Computations that leave the state as it is (`ReadOnly`), and the file systems in which
reading is one of them and a write that fails leaves nothing behind.
-/

namespace InterfaceSchema

variable {σ α β : Type}

def ReadOnly (x : StateM σ α) : Prop := ∀ s, (x.run s).2 = s

namespace ReadOnly

theorem pure (a : α) : ReadOnly (Pure.pure a : StateM σ α) := fun _ => rfl

theorem bind {x : StateM σ α} {f : α → StateM σ β} (hx : ReadOnly x) (hf : ∀ a, ReadOnly (f a)) :
    ReadOnly (x >>= f) := by
  intro s
  have hstep : ((x >>= f).run s).2 = ((f (x.run s).1).run (x.run s).2).2 := rfl
  rw [hstep, hf, hx]

theorem run_eq {x : StateM σ α} (hx : ReadOnly x) (s : σ) : x.run s = ((x.run s).1, s) :=
  Prod.ext rfl (hx s)

end ReadOnly

/-- Reading leaves the state as it is, and so does a write that fails. -/
class LawfulFileSystem (σ : Type) [FileSystem (StateM σ)] : Prop where
  read (path : String) : ReadOnly (FileSystem.read path : StateM σ (Except FileError String))
  isFile (path : String) : ReadOnly (FileSystem.isFile path : StateM σ Bool)
  readInput : ReadOnly (FileSystem.readInput : StateM σ (Except FileError String))
  write_error {path text : String} {s s' : σ} {e : FileError} :
    (FileSystem.write path text : StateM σ (Except FileError Unit)).run s = (.error e, s') → s' = s

variable [Environment]

theorem Workspace.run_write (w : Workspace) (path text : String) :
    (FileSystem.write path text : StateM Workspace (Except FileError Unit)).run w =
      match w.tree.write path text Environment.directory with
      | .ok tree => (.ok (), { w with tree })
      | .error e => (.error e, w) := by
  cases hwrite : w.tree.write path text Environment.directory with
  | ok tree =>
    simp only [FileSystem.write, StateT.run_bind, StateT.run_get, pure_bind, hwrite]
    rfl
  | error e =>
    simp only [FileSystem.write, StateT.run_bind, StateT.run_get, pure_bind, hwrite]
    rfl

instance : LawfulFileSystem Workspace where
  read _ _ := rfl
  isFile _ _ := rfl
  readInput _ := rfl
  write_error {path text w w' e} h := by
    rw [Workspace.run_write] at h
    split at h <;> cases h
    rfl

end InterfaceSchema
