/-
The program on the file system of the machine.
-/
import ApiSurface.Command.Run

namespace ApiSurface.Main

/-- the system's number for an error, which some calls give with a minus sign -/
def hasNumber (number expected : UInt32) : Bool := number == expected || number == 0 - expected

/-- what the system's error means for a file -/
def faultOf : IO.Error → FileFault
  | .noFileOrDirectory _ _ _ => .notFound
  | .permissionDenied _ _ _ => .accessDenied
  | .alreadyExists _ _ _ => .alreadyExists
  | .inappropriateType _ number details =>
    if hasNumber number 20 then .notDirectory
    else if hasNumber number 21 then .isDirectory
    else .other details
  | error => .other error.toString

/-- do something with a file, and keep the fault if it fails -/
def attempt {α : Type} (action : IO α) : IO (Except FileFault α) := do
  try
    return .ok (← action)
  catch error =>
    return .error (faultOf error)

/-! ## Reading -/

mutual

/-- what a path leads to -/
partial def look (path : String) : IO (Except FileFault FileTree) := do
  match ← attempt (IO.FS.readBinFile path) with
  | .ok bytes =>
    match String.fromUTF8? bytes with
    | some content => return .ok (.file content)
    | none => return .ok (.unreadable .notText)
  | .error .isDirectory => attempt (list path)
  | .error fault => return .error fault

/-- a directory with all it holds -/
partial def list (path : String) : IO FileTree := do
  let place ← IO.FS.realPath path
  let entries ← (← place.readDir).toList.mapM fun entry => do
    match ← look entry.path.toString with
    | .ok tree => return (entry.fileName, tree)
    | .error fault => return (entry.fileName, .unreadable fault)
  return .directory entries

end

/-! ## Writing -/

/-- a directory lies at a path -/
def hasDirectory (path : String) : IO Bool := do
  try
    (← IO.FS.realPath path).isDir
  catch _ =>
    return false

/-- make a directory, unless there is one -/
def makeDirectory (path : String) : IO (Except FileFault Unit) := do
  match ← attempt (IO.FS.createDir path) with
  | .ok () => return .ok ()
  | .error fault => return if ← hasDirectory path then .ok () else .error fault

/-- make a directory, and those that hold it -/
partial def makeDirectories (path : String) : IO (Except FileFault Unit) := do
  if path.isEmpty then return .ok ()
  match ← makeDirectory path with
  | .error .notFound =>
    match ← makeDirectories (Path.parent path) with
    | .ok () => makeDirectory path
    | .error fault => return .error fault
  | result => return result

/-- write a file, and make the directory that holds it -/
def write (path content : String) : IO (Except WriteFault Unit) := do
  let parent := Path.parent path
  match ← makeDirectories parent with
  | .error fault => return .error (.directory parent fault)
  | .ok () => return (← attempt (IO.FS.writeFile path content)).mapError (.file path)

/-! ## The program -/

/-- the machine, seen from a program that began at a time in milliseconds -/
def machine (began : Nat) : Host IO where
  look := look
  write := write
  elapsed := return ((← IO.monoMsNow) - began + 50) / 100

end ApiSurface.Main

/-- run the command that the arguments name -/
def main (words : List String) : IO UInt32 := do
  let outcome ← ApiSurface.Command.runWords (ApiSurface.Main.machine (← IO.monoMsNow)) words
  (← IO.getStdout).putStr outcome.output
  (← IO.getStderr).putStr outcome.errors
  return outcome.exitCode.toUInt32
