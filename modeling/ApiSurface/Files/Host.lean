/-
What a program runs on: a file system and a clock. A tree in memory, on which everything takes no time, is one.
-/
import ApiSurface.Files.Path

namespace ApiSurface

structure Host (m : Type → Type) where
  /-- what a path leads to -/
  look : String → m (Except FileFault FileTree)
  /-- write a file, and make the directory that holds it -/
  write : String → String → m (Except WriteFault Unit)
  /-- the time that the program has taken so far, in tenths of a second -/
  elapsed : m Nat

/-- the content of the file that a path leads to -/
def Host.read {m : Type → Type} [Monad m] (host : Host m) (path : String) : m (Except FileFault String) := do
  return (← host.look path) >>= FileTree.text

/-- a tree in memory -/
def FileTree.host : Host (StateM FileTree) where
  look path := do return (← get).look path
  write path content := do
    match (← get).write path content with
    | .ok tree =>
      set tree
      return .ok ()
    | .error fault => return .error fault
  elapsed := return 0

end ApiSurface
